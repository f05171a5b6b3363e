import ServerAsync.HttpConnection
import ServerAsync.TcpPassThrough

/-!
# Relays behind each other

Between a client and a remote there may be any number of relays: connections of the TCP
proxy without debug mode, proxy requests, and tunnels. Whatever they are and however they
interleave, the remote gets what the client sends, with the proxy requests rewritten and
without the CONNECT requests, and the client gets the responses of the tunnels and then what
the remote sends. A tunnel does so only for a client that waits for its 200 response, and when
this response leaves within the call that writes it: what a session has received behind a
CONNECT request is lost, and so is the rest of the response.
-/

namespace ServerAsync

open Misc Misc.Pipeline

/-- What a direction has read and written stays read and written. -/
theorem Half.step_keeps {α : Type*} {h h' : Half α} {e : RelayEvent α}
    (hstep : h.step e = some h') : h.fetched <+: h'.fetched ∧ h.written <+: h'.written := by
  cases e with
  | read bytes =>
    obtain ⟨-, rfl⟩ := Machine.taken hstep
    exact ⟨List.prefix_append _ _, List.prefix_rfl⟩
  | accepted off len count =>
    obtain ⟨-, rfl⟩ := Machine.taken hstep
    exact ⟨List.prefix_rfl, List.prefix_append _ _⟩
  | _ =>
    obtain ⟨-, rfl⟩ := Machine.taken hstep
    exact ⟨List.prefix_rfl, List.prefix_rfl⟩

/-! ## `tcp_connection` -/

namespace TcpConnection

/-- Without debug mode a connection of the TCP proxy is a station. -/
def station : Station Char where
  State := { s : TcpConnection // PassThrough s }
  Event := TcpEvent
  machine := machine.restrict PassThrough fun _ _ _ h hstep => h.step hstep
  start := ⟨start false, .start⟩
  taken s
    | .near => (s.1.half .toRemote).fetched
    | .far => (s.1.half .toClient).fetched
  put s
    | .near => (s.1.half .toClient).written
    | .far => (s.1.half .toRemote).written
  fresh
    | .near => rfl
    | .far => rfl
  grows s e t hstep port := by
    have hgrows (dir : Dir) : (s.1.half dir).fetched <+: (t.1.half dir).fetched ∧
        (s.1.half dir).written <+: (t.1.half dir).written := by
      rcases s.2.step_cases (Machine.restrict_step.mp hstep) with
        ⟨ok, -, -, ht⟩ | ⟨d, e', -, -, hloop⟩
      · rw [ht]
        cases ok <;> cases dir <;> exact ⟨List.prefix_rfl, List.prefix_rfl⟩
      · rcases dir.eq_or_other d with rfl | rfl
        · exact Half.step_keeps hloop.step
        · rw [hloop.other]
          exact ⟨List.prefix_rfl, List.prefix_rfl⟩
    cases port with
    | near => exact ⟨(hgrows .toRemote).1, (hgrows .toClient).2⟩
    | far => exact ⟨(hgrows .toClient).1, (hgrows .toRemote).2⟩

theorem conveys_tcp (w : Text) : station.Conveys w w [] := by
  intro es s _ htaken
  exact ⟨((s.2.loop .toRemote).ordered).trans htaken, (s.2.loop .toClient).ordered⟩

end TcpConnection

/-! ## The copiers -/

namespace Copier

variable {c c' : Copier}

/-- The same of a copier. -/
def Grows (c c' : Copier) : Prop :=
  ∀ dir, (c.half dir).fetched <+: (c'.half dir).fetched ∧
    (c.half dir).written <+: (c'.half dir).written

theorem grows_of_eq (h : ∀ dir, (c.half dir).fetched = (c'.half dir).fetched ∧
    (c.half dir).written = (c'.half dir).written) : Grows c c' :=
  fun dir => ⟨(h dir).1 ▸ List.prefix_rfl, (h dir).2 ▸ List.prefix_rfl⟩

theorem grows_deliver (c : Copier) (dir : Dir) (bytes : Text) : Grows c (c.deliver dir bytes) := by
  intro d
  cases dir <;> cases d
  · exact ⟨List.prefix_rfl, List.prefix_append _ _⟩
  · exact ⟨List.prefix_rfl, List.prefix_rfl⟩
  · exact ⟨List.prefix_rfl, List.prefix_rfl⟩
  · exact ⟨List.prefix_rfl, List.prefix_append _ _⟩

theorem grows_step {next : Stage → Copier → Copier} (hnext : Continues next) {e : CopierEvent}
    (hstep : c.step next e = some c') : Grows c c' := by
  cases e with
  | resolved host port ok =>
    obtain ⟨-, rfl⟩ := Machine.taken hstep
    exact grows_of_eq fun dir => by cases ok <;> cases dir <;> exact ⟨rfl, rfl⟩
  | connectFailed =>
    obtain ⟨-, rfl⟩ := Machine.taken hstep
    exact grows_of_eq fun dir => by cases dir <;> exact ⟨rfl, rfl⟩
  | accepted stage rest count =>
    obtain ⟨-, rfl⟩ := Machine.taken hstep
    intro dir
    have hmore := grows_deliver (c.finish (.asyncWrite stage rest)) stage.dest (rest.take count) dir
    cases stage <;> cases dir <;> exact hmore
  | wrote stage =>
    obtain ⟨-, rfl⟩ := Machine.taken hstep
    rcases hnext stage (c.finish (.asyncWrite stage [])) with ⟨-, hgo⟩ | ⟨-, hgo⟩ | hgo
    · rw [hgo]
      exact grows_of_eq fun dir => by cases dir <;> exact ⟨rfl, rfl⟩
    · rw [hgo]
      exact grows_of_eq fun dir => by cases dir <;> exact ⟨rfl, rfl⟩
    · rw [hgo]
      exact grows_of_eq fun dir => by cases dir <;> exact ⟨rfl, rfl⟩
  | writeFailed stage rest =>
    obtain ⟨-, rfl⟩ := Machine.taken hstep
    exact grows_of_eq fun dir => by cases dir <;> exact ⟨rfl, rfl⟩
  | relay dir e =>
    obtain ⟨half', hhalf, -, -, -, hclient, hremote⟩ := stepRelay_eq_some hstep
    have hmoved := Half.step_keeps hhalf
    intro d
    cases d with
    | toClient =>
      change _ <+: c'.toClient.fetched ∧ _ <+: c'.toClient.written
      rw [hclient]
      cases dir with
      | toClient => exact hmoved
      | toRemote => exact ⟨List.prefix_rfl, List.prefix_rfl⟩
    | toRemote =>
      change _ <+: c'.toRemote.fetched ∧ _ <+: c'.toRemote.written
      rw [hremote]
      cases dir with
      | toClient => exact ⟨List.prefix_rfl, List.prefix_rfl⟩
      | toRemote => exact hmoved

end Copier

theorem HttpCopier.grows_step {beast : Beast} {c c' : Copier} {e : HttpCopierEvent}
    (hstep : HttpCopier.step beast c e = some c') : c.Grows c' := by
  cases e with
  | connected =>
    obtain ⟨-, rfl⟩ := Machine.taken hstep
    exact Copier.grows_of_eq fun dir => by cases dir <;> exact ⟨rfl, rfl⟩
  | shared e => exact Copier.grows_step next_continues hstep

theorem SocketCopier.grows_step {c c' : Copier} {e : SocketCopierEvent}
    (hstep : SocketCopier.step c e = some c') : c.Grows c' := by
  cases e with
  | connected count stale =>
    obtain ⟨-, rfl⟩ := Machine.taken hstep
    intro dir
    have hmore := Copier.grows_deliver (c.finish .asyncConnect) .toClient (ok200.take count) dir
    cases dir <;> exact hmore
  | shared e => exact Copier.grows_step next_continues hstep

/-! ## Connections of the server -/

namespace HttpConnection

variable {lib : Lib} {text : Response → Text} {req : Request} {more : Text}
  {s t : HttpConnection} {e : HttpConnectionEvent}

/-- Where a connection is before its session gives the stream away, if it answers nothing
before that. -/
inductive Opening (s : HttpConnection) : Prop
  | detecting (hsession : s.session = none) (hreceived : s.fromClient = [])
  | waiting (c : Session) (hsession : s.session = some c) (howner : c.owner = none)
    (hwaiting : c.Waiting) (hops : c.InFlight [.header] []) (hreceived : s.fromClient = c.received)
  | ended (c : Session) (hsession : s.session = some c) (howner : c.owner = none)
    (hops : c.InFlight [] [])

/-- Nothing has been put to either side, or taken from the remote. -/
structure Before (s : HttpConnection) : Prop where
  stage : Opening s
  toClient : s.toClient = []
  fromRemote : s.fromRemote = []
  toRemote : s.toRemote = []

theorem before_accepted : Before accepted := ⟨.detecting rfl rfl, rfl, rfl, rfl⟩

/-- The session has read the client's request, with `rest` behind it. -/
structure HeaderRead (lib : Lib) (req : Request) (rest : Text) (files : Files) (c : Session)
    (s t : HttpConnection) : Prop where
  session : s.session = some c
  ops : c.InFlight [.header] []
  buffer : c.buffer = lib.beast.serialize req ++ rest
  received : s.fromClient = lib.beast.serialize req ++ rest
  next : s.after (.headerRead req (lib.beast.serialize req).length files)
    ((c.takeHeader lib req (lib.beast.serialize req).length).onRoute lib c.headers.length req
      (route lib req files)) = t

/-- What the parser finds at the front of a client's stream is its request, and what follows
is a front of the rest. -/
theorem parse_request (hlegible : Legible lib req) {buffer : Text}
    (hfront : buffer <+: lib.beast.serialize req ++ more) {req' : Request} {bytes : Nat}
    (hparse : lib.beast.parseHeader buffer = .done req' bytes) :
    req' = req ∧ bytes = (lib.beast.serialize req).length ∧
      ∃ rest, buffer = lib.beast.serialize req ++ rest := by
  obtain ⟨later, hlater⟩ := hfront
  have hwhole := lib.beast.parse_append _ _ _ later hparse
  rw [hlater, lib.beast.parse_append _ _ _ more hlegible, Parse.done.injEq] at hwhole
  obtain ⟨rfl, rfl⟩ := hwhole
  obtain ⟨-, hle⟩ := lib.beast.bytes_le _ _ _ hparse
  obtain ⟨rest, hrest⟩ := List.prefix_of_prefix_length_le
    (List.prefix_append (lib.beast.serialize req) more) ⟨later, hlater⟩ hle
  exact ⟨rfl, rfl, rest, hrest.symm⟩

/-- What a session that waits for the client's request reads is this request. -/
theorem headerRead_of_waiting (hlegible : Legible lib req) {c c' : Session}
    (hsession : s.session = some c) (hwaiting : c.Waiting) (hops : c.InFlight [.header] [])
    (hreceived : s.fromClient = c.received) {req' : Request} {bytes : Nat} {files : Files}
    (hstep : c.step lib (.headerRead req' bytes files) = some c')
    (htaken : s.fromClient <+: lib.beast.serialize req ++ more) :
    req' = req ∧ bytes = (lib.beast.serialize req).length ∧ ∃ rest,
      HeaderRead lib req rest files c s (s.after (.headerRead req' bytes files) c') := by
  obtain ⟨-, hreact⟩ := (Session.step_eq_some lib).mp hstep
  obtain ⟨⟨-, hparse⟩, rfl⟩ := Machine.taken hreact
  rw [hreceived, ← hwaiting.buffer] at htaken
  obtain ⟨rfl, rfl, rest, hrest⟩ := parse_request hlegible htaken hparse
  refine ⟨rfl, rfl, rest, hsession, hops, hrest, ?_, ?_⟩
  · rw [hreceived, ← hwaiting.buffer, hrest]
  · rw [Session.onRead_eq]

/-- A step of a session that waits for the client's request. -/
theorem waiting_step (hlegible : Legible lib req) (h : Before s) {c c' : Session}
    (hsession : s.session = some c) (howner : c.owner = none) (hwaiting : c.Waiting)
    (hops : c.InFlight [.header] []) (hreceived : s.fromClient = c.received) {e : SessionEvent}
    (hstep : c.step lib e = some c')
    (htaken : (s.after e c').fromClient <+: lib.beast.serialize req ++ more) :
    Before (s.after e c') ∨ ∃ rest files, HeaderRead lib req rest files c s (s.after e c') ∧
      e = .headerRead req (lib.beast.serialize req).length files := by
  obtain ⟨-, hreact⟩ := (Session.step_eq_some lib).mp hstep
  cases e with
  | arrive bytes =>
    obtain ⟨-, rfl⟩ := Machine.taken hreact
    refine Or.inl ⟨.waiting _ rfl howner ⟨hwaiting.headers, hwaiting.dispatched, ?_,
      hwaiting.queued, hwaiting.reads⟩ ⟨hops.kind, hops.fate, hops.shutdowns, hops.reads_eq,
      hops.writes_eq⟩ ?_, h.toClient, h.fromRemote, h.toRemote⟩
    · change c.buffer ++ bytes = c.received ++ bytes
      rw [hwaiting.buffer]
    · change s.fromClient ++ bytes = c.received ++ bytes
      rw [hreceived]
  | handshake bytesUsed => cases hwaiting.reads _ (Machine.taken hreact).1
  | headerRead req' bytes files =>
    change s.fromClient ++ [] <+: _ at htaken
    rw [List.append_nil] at htaken
    obtain ⟨rfl, rfl, rest, hread⟩ :=
      headerRead_of_waiting hlegible hsession hwaiting hops hreceived hstep htaken
    exact Or.inr ⟨rest, files, hread, rfl⟩
  | endOfStream =>
    obtain ⟨-, rfl⟩ := Machine.taken hreact
    refine Or.inl ⟨.ended _ rfl howner ⟨hops.kind, hops.fate, ?_, ?_, hops.writes_eq⟩,
      h.toClient, h.fromRemote, h.toRemote⟩
    · change (if c.kind = .ssl then c.shutdowns + 1 else c.shutdowns) = 0
      rw [hops.kind, if_neg (by decide), hops.shutdowns]
    · change c.reads.erase .header = []
      rw [hops.reads_eq, List.erase_cons_head]
  | bodyRead number req' => cases hwaiting.reads _ (Machine.taken hreact).1.1
  | readFailed op =>
    obtain ⟨hop, rfl⟩ := Machine.taken hreact
    refine Or.inl ⟨.ended _ rfl howner ⟨hops.kind, hops.fate, hops.shutdowns, ?_, hops.writes_eq⟩,
      h.toClient, h.fromRemote, h.toRemote⟩
    change c.reads.erase op = []
    rw [hwaiting.reads _ hop, hops.reads_eq, List.erase_cons_head]
  | written q ok =>
    have hq := (Machine.taken hreact).1
    rw [hops.writes_eq] at hq
    cases hq
  | shutdown =>
    have hpos := (Machine.taken hreact).1
    rw [hops.shutdowns] at hpos
    exact absurd hpos (Nat.lt_irrefl 0)

theorem Before.idle (h : Before s) {c : Session} (hsession : s.session = some c) :
    c.owner = none ∧ c.writes = [] := by
  cases h.stage with
  | detecting hnone hreceived =>
    rw [hnone] at hsession
    cases hsession
  | waiting c' hsession' howner hwaiting hops hreceived =>
    cases hsession.symm.trans hsession'
    exact ⟨howner, hops.writes_eq⟩
  | ended c' hsession' howner hops =>
    cases hsession.symm.trans hsession'
    exact ⟨howner, hops.writes_eq⟩

/-- Until it has read the client's request, a connection stays as it is, or ends. -/
theorem before_step (hlegible : Legible lib req) (h : Before s)
    (hstep : s.step lib text e = some t)
    (htaken : t.fromClient <+: lib.beast.serialize req ++ more) :
    Before t ∨ ∃ c rest files, HeaderRead lib req rest files c s t ∧
      e = .session (.headerRead req (lib.beast.serialize req).length files) := by
  cases e with
  | detected bytes =>
    obtain ⟨⟨hnone, -⟩, rfl⟩ := Machine.taken hstep
    cases h.stage with
    | detecting hsession hreceived =>
      refine Or.inl ⟨.waiting _ rfl rfl ⟨rfl, rfl, rfl, rfl, fun op hop => ?_⟩
        ⟨rfl, rfl, rfl, rfl, rfl⟩ ?_, h.toClient, h.fromRemote, h.toRemote⟩
      · exact List.mem_singleton.mp hop
      · change s.fromClient ++ bytes = bytes
        rw [hreceived, List.nil_append]
    | waiting c hsession howner hwaiting hops hreceived =>
      rw [hsession] at hnone
      cases hnone
    | ended c hsession howner hops =>
      rw [hsession] at hnone
      cases hnone
  | session e =>
    obtain ⟨c, c', hsession, -, hreact, rfl⟩ := step_session.mp hstep
    cases h.stage with
    | detecting hnone hreceived =>
      rw [hnone] at hsession
      cases hsession
    | waiting c₀ hsession' howner hwaiting hops hreceived =>
      cases hsession.symm.trans hsession'
      rcases waiting_step hlegible h hsession howner hwaiting hops hreceived hreact htaken with
        hbefore | ⟨rest, files, hread, rfl⟩
      · exact Or.inl hbefore
      · exact Or.inr ⟨c, rest, files, hread, rfl⟩
    | ended c₀ hsession' howner hops =>
      cases hsession.symm.trans hsession'
      exact (hops.stuck hreact).elim
  | send count =>
    obtain ⟨c, q, hsession, hq, -, -⟩ := step_send hstep
    rw [(h.idle hsession).2] at hq
    cases hq
  | httpCopier e =>
    obtain ⟨c, d, d', hsession, howner, -, -⟩ := step_httpCopier hstep
    rw [(h.idle hsession).1] at howner
    cases howner
  | socketCopier e =>
    obtain ⟨c, d, d', hsession, howner, -, -⟩ := step_socketCopier hstep
    rw [(h.idle hsession).1] at howner
    cases howner

/-! Behind the hand-off only the copier does something. -/

/-- The copier `d` has got the stream, of which the session has taken `front`. -/
structure Copying (owner : Copier → Owner) (front : Text) (s : HttpConnection) (c : Session)
    (d : Copier) : Prop where
  session : s.session = some c
  owned : c.owner = some (owner d)
  ops : c.InFlight [] []
  fromClient : s.fromClient = front ++ d.toRemote.fetched
  toClient : s.toClient = d.toClient.written
  fromRemote : s.fromRemote = d.toClient.fetched
  toRemote : s.toRemote = d.toRemote.written

theorem append_added {old new : Text} (h : old <+: new) : old ++ added old new = new :=
  (List.prefix_iff_eq_append.mp h)

variable {owner : Copier → Owner} {front : Text} {c : Session} {d d' : Copier}

theorem Copying.relayed (h : Copying owner front s c d) (hgrows : d.Grows d') :
    Copying owner front (s.relayed c owner d d') { c with owner := some (owner d') } d' where
  session := rfl
  owned := rfl
  ops := ⟨h.ops.kind, h.ops.fate, h.ops.shutdowns, h.ops.reads_eq, h.ops.writes_eq⟩
  fromClient := by
    have hmore := append_added (hgrows .toRemote).1
    change s.fromClient ++ _ = _
    rw [h.fromClient, List.append_assoc]
    exact congrArg (front ++ ·) hmore
  toClient := by
    change s.toClient ++ _ = _
    rw [h.toClient]
    exact append_added (hgrows .toClient).2
  fromRemote := by
    change s.fromRemote ++ _ = _
    rw [h.fromRemote]
    exact append_added (hgrows .toClient).1
  toRemote := by
    change s.toRemote ++ _ = _
    rw [h.toRemote]
    exact append_added (hgrows .toRemote).2

/-- A session that has given its stream away makes no step. -/
theorem Copying.step_cases (h : Copying owner front s c d) (hstep : s.step lib text e = some t) :
    (∃ e' d₀ d', e = .httpCopier e' ∧ owner d = .httpCopier d₀ ∧
      HttpCopier.step lib.beast d₀ e' = some d' ∧ s.relayed c .httpCopier d₀ d' = t) ∨
    ∃ e' d₀ d', e = .socketCopier e' ∧ owner d = .socketCopier d₀ ∧
      SocketCopier.step d₀ e' = some d' ∧ s.relayed c .socketCopier d₀ d' = t := by
  cases e with
  | detected bytes =>
    obtain ⟨⟨hnone, -⟩, -⟩ := Machine.taken hstep
    rw [h.session] at hnone
    cases hnone
  | session e =>
    obtain ⟨c', c'', hsession, -, hreact, -⟩ := step_session.mp hstep
    cases h.session.symm.trans hsession
    exact (h.ops.stuck hreact).elim
  | send count =>
    obtain ⟨c', q, hsession, hq, -, -⟩ := step_send hstep
    cases h.session.symm.trans hsession
    rw [h.ops.writes_eq] at hq
    cases hq
  | httpCopier e =>
    obtain ⟨c', d₀, d', hsession, howner, hreact, ht⟩ := step_httpCopier hstep
    cases h.session.symm.trans hsession
    exact Or.inl ⟨e, d₀, d', rfl, Option.some.inj (h.owned.symm.trans howner), hreact, ht⟩
  | socketCopier e =>
    obtain ⟨c', d₀, d', hsession, howner, hreact, ht⟩ := step_socketCopier hstep
    cases h.session.symm.trans hsession
    exact Or.inr ⟨e, d₀, d', rfl, Option.some.inj (h.owned.symm.trans howner), hreact, ht⟩

/-- The session gives its stream to a copier that has read and written nothing. -/
theorem HeaderRead.copying {rest : Text} {files : Files} (h : HeaderRead lib req rest files c s t)
    (hbefore : Before s) (hfresh : ∀ dir, (d.half dir).fetched = [] ∧ (d.half dir).written = [])
    (hroute : (c.takeHeader lib req (lib.beast.serialize req).length).onRoute lib c.headers.length
      req (route lib req files) = (c.takeHeader lib req
        (lib.beast.serialize req).length).startCopier (.ok d) owner) :
    Copying owner (lib.beast.serialize req ++ rest) t
      ((c.takeHeader lib req (lib.beast.serialize req).length).startCopier (.ok d) owner) d := by
  rw [← h.next, hroute]
  refine ⟨rfl, rfl, ⟨h.ops.kind, h.ops.fate, h.ops.shutdowns, ?_, h.ops.writes_eq⟩, ?_, ?_, ?_, ?_⟩
  · change c.reads.erase .header = []
    rw [h.ops.reads_eq, List.erase_cons_head]
  · change s.fromClient ++ [] = _ ++ (d.half .toRemote).fetched
    rw [(hfresh .toRemote).1, h.received, List.append_nil]
  · change s.toClient = (d.half .toClient).written
    rw [hbefore.toClient, (hfresh .toClient).2]
  · change s.fromRemote = (d.half .toClient).fetched
    rw [hbefore.fromRemote, (hfresh .toClient).1]
  · change s.toRemote = (d.half .toRemote).written
    rw [hbefore.toRemote, (hfresh .toRemote).2]

/-- A proxy request: the stream goes to a started `http_copier`. -/
theorem HeaderRead.proxied {rest : Text} {files : Files} {url : UrlView}
    (h : HeaderRead lib req rest files c s t) (hbefore : Before s)
    (hproxy : route lib req files = .proxy)
    (hview : lib.urls.urlView req.target = some url) : ∃ d c',
      HttpCopier.start lib.urls (HttpCopier.new maxLength req rest) = .ok d ∧
      Copying .httpCopier (lib.beast.serialize req ++ rest) t c' d ∧
      HttpCopier.Inv lib.beast (HttpCopier.rewrite url req) rest d := by
  obtain ⟨d, hstart⟩ : ∃ d, HttpCopier.start lib.urls (HttpCopier.new maxLength req rest) =
      .ok d := by
    refine HttpCopier.start_ok_iff.mpr ?_
    rw [← lib.urls.urlView_isSome]
    exact Option.isSome_iff_exists.mpr ⟨url, hview⟩
  have hd := HttpCopier.start_eq_ok hview hstart
  have hrest : (c.takeHeader lib req (lib.beast.serialize req).length).buffer = rest := by
    change c.buffer.drop _ = rest
    rw [h.buffer, List.drop_left]
  have hfresh (dir : Dir) : (d.half dir).fetched = [] ∧ (d.half dir).written = [] := by
    rw [hd]
    cases dir <;> exact ⟨rfl, rfl⟩
  have hinv : HttpCopier.Inv lib.beast d.req rest d := HttpCopier.inv_start hstart
  rw [show d.req = HttpCopier.rewrite url req by rw [hd]; rfl] at hinv
  exact ⟨d, _, hstart,
    h.copying hbefore hfresh (by rw [hproxy, Session.onRoute, hrest, hstart]), hinv⟩

/-- A CONNECT request: the stream goes to a started `socket_copier`. -/
theorem HeaderRead.tunnelled {rest : Text} {files : Files}
    (h : HeaderRead lib req rest files c s t) (hbefore : Before s) (hlegible : Legible lib req)
    (htunnel : route lib req files = .tunnel) : ∃ d c',
      SocketCopier.start (SocketCopier.new maxLength rest req) = .ok d ∧
      Copying .socketCopier (lib.beast.serialize req ++ rest) t c' d ∧ SocketCopier.Inv d := by
  have hlen : req.target.length < 2 ^ 31 :=
    Nat.lt_of_le_of_lt (lib.beast.target_le _ _ _ hlegible) (by decide)
  obtain ⟨d, hstart⟩ := SocketCopier.start_ok
    (c := SocketCopier.new maxLength rest req) hlen
  have hrest : (c.takeHeader lib req (lib.beast.serialize req).length).buffer = rest := by
    change c.buffer.drop _ = rest
    rw [h.buffer, List.drop_left]
  have hfresh (dir : Dir) : (d.half dir).fetched = [] ∧ (d.half dir).written = [] := by
    by_cases hcolon : ':' ∈ req.target
    · rw [SocketCopier.start_of_mem hlen hcolon] at hstart
      cases hstart
      cases dir <;> exact ⟨rfl, rfl⟩
    · rw [SocketCopier.start_of_notMem hcolon] at hstart
      cases hstart
      cases dir <;> exact ⟨rfl, rfl⟩
  exact ⟨d, _, hstart,
    h.copying hbefore hfresh (by rw [htunnel, Session.onRoute, hrest, hstart]),
    SocketCopier.inv_start hlen hstart⟩

/-- All steps of a connection. -/
def anyStep : HttpConnection → HttpConnectionEvent → Bool := fun _ _ => true

/-- The steps of a connection whose client waits for the response to its CONNECT request (there
is nothing behind the header when it is read), and whose response leaves at once (the call that
writes it sends all of it). -/
def patiently (s : HttpConnection) : HttpConnectionEvent → Bool
  | .session (.headerRead _ bytes _) => s.session.all fun c => c.buffer.length == bytes
  | .socketCopier (.connected count _) => count == ok200.length
  | _ => true

/-- Where a connection is whose client starts with a request for an `http_copier`. -/
def Proxied (lib : Lib) (req : Request) (url : UrlView) (s : HttpConnection) : Prop :=
  Before s ∨ ∃ c d rest, Copying .httpCopier (lib.beast.serialize req ++ rest) s c d ∧
    HttpCopier.Inv lib.beast (HttpCopier.rewrite url req) rest d

/-- Where one is whose client starts with a CONNECT request. -/
def Tunnelled (lib : Lib) (req : Request) (s : HttpConnection) : Prop :=
  Before s ∨ ∃ c d, Copying .socketCopier (lib.beast.serialize req) s c d ∧ SocketCopier.Inv d

theorem proxied_step {url : UrlView} (hlegible : Legible lib req)
    (hproxy : ∀ files, route lib req files = .proxy)
    (hview : lib.urls.urlView req.target = some url) (h : Proxied lib req url s)
    (hstep : s.step lib text e = some t)
    (htaken : t.fromClient <+: lib.beast.serialize req ++ more) : Proxied lib req url t := by
  rcases h with hbefore | ⟨c, d, rest, hcopying, hinv⟩
  · rcases before_step hlegible hbefore hstep htaken with hafter | ⟨c, rest, files, hread, -⟩
    · exact Or.inl hafter
    · -- the stream goes to an `http_copier`
      obtain ⟨d, c', -, hcopying, hinv⟩ := hread.proxied hbefore (hproxy files) hview
      exact Or.inr ⟨c', d, rest, hcopying, hinv⟩
  · rcases hcopying.step_cases hstep with
      ⟨e', d₀, d', -, howner, hreact, rfl⟩ | ⟨e', d₀, d', -, howner, -, -⟩
    · cases howner
      exact Or.inr ⟨_, d', rest, hcopying.relayed (HttpCopier.grows_step hreact),
        HttpCopier.inv_step hinv hreact⟩
    · cases howner

theorem tunnelled_step (hlegible : Legible lib req)
    (htunnel : ∀ files, route lib req files = .tunnel) (h : Tunnelled lib req s)
    (hpatient : patiently s e = true) (hstep : s.step lib text e = some t)
    (htaken : t.fromClient <+: lib.beast.serialize req ++ more) : Tunnelled lib req t := by
  rcases h with hbefore | ⟨c, d, hcopying, hinv⟩
  · rcases before_step hlegible hbefore hstep htaken with hafter | ⟨c, rest, files, hread, rfl⟩
    · exact Or.inl hafter
    · obtain ⟨d, c', -, hcopying, hinv⟩ := hread.tunnelled hbefore hlegible (htunnel files)
      -- nothing has come behind the request
      have hnone : rest = [] := by
        change s.session.all _ = true at hpatient
        rw [hread.session, Option.all_some, beq_iff_eq, hread.buffer, List.length_append]
          at hpatient
        exact List.length_eq_zero_iff.mp (by omega)
      rw [hnone, List.append_nil] at hcopying
      exact Or.inr ⟨c', d, hcopying, hinv⟩
  · rcases hcopying.step_cases hstep with
      ⟨e', d₀, d', -, howner, -, -⟩ | ⟨e', d₀, d', rfl, howner, hreact, rfl⟩
    · cases howner
    · cases howner
      refine Or.inr ⟨_, d', hcopying.relayed (SocketCopier.grows_step hreact),
        SocketCopier.inv_step hinv ?_ hreact⟩
      cases e' with
      | connected count stale => exact beq_iff_eq.mp hpatient
      | shared e => trivial

/-- Before the hand-off a connection has put nothing. -/
theorem Before.conveys (h : Before s) (w lead : Text) :
    s.toRemote <+: w ∧ s.toClient <+: lead ++ s.fromRemote := by
  rw [h.toRemote, h.toClient]
  exact ⟨List.nil_prefix, List.nil_prefix⟩

theorem conveys_proxied {url : UrlView} (hlegible : Legible lib req)
    (hproxy : ∀ files, route lib req files = .proxy)
    (hview : lib.urls.urlView req.target = some url) (more : Text) :
    (station lib text anyStep).Conveys (lib.beast.serialize req ++ more)
      (lib.beast.serialize (HttpCopier.rewrite url req) ++ more) [] := by
  intro es s hrun htaken
  have hend := Machine.run_invariant (I := fun s : HttpConnection =>
    s.fromClient <+: lib.beast.serialize req ++ more → Proxied lib req url s)
    (fun s e t h hstep htaken => by
      have hstep := (Machine.only_step.mp hstep).2
      exact proxied_step hlegible hproxy hview
        (h ((HttpConnection.grows hstep).1.trans htaken)) hstep htaken)
    (fun _ => Or.inl before_accepted) hrun
  rcases hend htaken with hbefore | ⟨c, d, rest, hcopying, hinv, -, -⟩
  · exact hbefore.conveys _ _
  · change s.toRemote <+: _ ∧ s.toClient <+: [] ++ s.fromRemote
    change s.fromClient <+: _ at htaken
    rw [hcopying.fromClient, List.append_assoc, List.prefix_append_right_inj] at htaken
    rw [hcopying.toRemote, hcopying.toClient, hcopying.fromRemote]
    refine ⟨hinv.remote.ordered.trans ?_, hinv.client.ordered⟩
    rw [List.append_assoc, List.prefix_append_right_inj]
    exact htaken

theorem conveys_tunnelled (hlegible : Legible lib req)
    (htunnel : ∀ files, route lib req files = .tunnel) (more : Text) :
    (station lib text patiently).Conveys (lib.beast.serialize req ++ more) more ok200 := by
  intro es s hrun htaken
  have hend := Machine.run_invariant (I := fun s : HttpConnection =>
    s.fromClient <+: lib.beast.serialize req ++ more → Tunnelled lib req s)
    (fun s e t h hstep htaken => by
      obtain ⟨hpatient, hstep⟩ := Machine.only_step.mp hstep
      exact tunnelled_step hlegible htunnel
        (h ((HttpConnection.grows hstep).1.trans htaken)) hpatient hstep htaken)
    (fun _ => Or.inl before_accepted) hrun
  rcases hend htaken with hbefore | ⟨c, d, hcopying, hinv⟩
  · exact hbefore.conveys _ _
  · change s.toRemote <+: _ ∧ s.toClient <+: ok200 ++ s.fromRemote
    change s.fromClient <+: _ at htaken
    rw [hcopying.fromClient, List.prefix_append_right_inj] at htaken
    rw [hcopying.toRemote, hcopying.toClient, hcopying.fromRemote]
    exact ⟨hinv.1.remote.ordered.trans htaken, hinv.1.client.ordered⟩

end HttpConnection

/-! ## Paths -/

open HttpConnection

/-- The stations that a path of relays is made of. A client that sends `w` gives the remote
`w'`, and gets `lead` before what the remote sends. Of a tunnel only the steps that are
patient. -/
inductive RelayPath (lib : Lib) (text : Response → Text) :
    Text → Text → Text → Station Char → Prop
  | tcp (w : Text) : RelayPath lib text w w [] TcpConnection.station
  | proxy {req : Request} {url : UrlView} (hlegible : Legible lib req)
    (hproxy : ∀ files, route lib req files = .proxy)
    (hview : lib.urls.urlView req.target = some url) (more : Text) :
    RelayPath lib text (lib.beast.serialize req ++ more)
      (lib.beast.serialize (HttpCopier.rewrite url req) ++ more) [] (station lib text anyStep)
  | tunnel {req : Request} (hlegible : Legible lib req)
    (htunnel : ∀ files, route lib req files = .tunnel) (more : Text) :
    RelayPath lib text (lib.beast.serialize req ++ more) more ok200 (station lib text patiently)
  | join {w w' w'' lead lead' : Text} {A B : Station Char} (first : RelayPath lib text w w' lead A)
    (second : RelayPath lib text w' w'' lead' B) :
    RelayPath lib text w w'' (lead ++ lead') (A.join B)

namespace RelayPath

variable {lib : Lib} {text : Response → Text} {w w' lead : Text} {A : Station Char}

theorem conveys (h : RelayPath lib text w w' lead A) : A.Conveys w w' lead := by
  induction h with
  | tcp w => exact TcpConnection.conveys_tcp w
  | proxy hlegible hproxy hview more => exact conveys_proxied hlegible hproxy hview more
  | tunnel hlegible htunnel more => exact conveys_tunnelled hlegible htunnel more
  | join first second ih ih' => exact ih.join ih'

/-- In every run of every path whose tunnels are patient, the remote gets a front of what it is
to get, and the client a front of the responses of the tunnels and what has been taken from the
remote. -/
theorem relays_convey (h : RelayPath lib text w w' lead A) {es : List A.Event} {s : A.State}
    (hrun : A.machine.run A.start es = some s) (htaken : A.taken s .near <+: w) :
    A.put s .far <+: w' ∧ A.put s .near <+: lead ++ A.taken s .far :=
  h.conveys es s hrun htaken

/-- Libraries for a request to the proxy and what becomes of it. -/
def proxyLib : Lib := Lib.plain [Session.proxyRequest, HttpCopier.originRequest]

theorem proxy_plain (more : Text) : RelayPath proxyLib Response.text
    (Session.proxyRequest.text ++ more) (HttpCopier.originRequest.text ++ more) []
    (station proxyLib Response.text anyStep) := by
  have hlegible : Legible proxyLib Session.proxyRequest := by
    unfold Legible
    decide +kernel
  have hproxy (files : Files) : route proxyLib Session.proxyRequest files = .proxy :=
    Session.route_eq_proxy.mpr ⟨by decide +kernel, by decide, by decide⟩
  have hview : proxyLib.urls.urlView Session.proxyRequest.target = some ⟨['h'], [], ['/'], []⟩ := by
    decide +kernel
  exact .proxy hlegible hproxy hview more

/-- The client's bytes get to the server through the TCP proxy, in two pieces, and go on to
the remote. -/
def relayedRun : List (TcpEvent ⊕ HttpConnectionEvent) :=
  let first := Session.proxyRequest.text ++ ['x', 'y']
  [.inl (.connected true), .inl (.client (.read first)),
    .inl (.client (.accepted 0 first.length first.length)), .inl (.client (.wrote first.length)),
    .inr (.detected first),
    .inr (.session (.headerRead Session.proxyRequest Session.proxyRequest.text.length noFiles)),
    .inl (.client (.read ['z'])), .inl (.client (.accepted 0 1 1))] ++
    HttpCopier.relayRequest.map fun e => .inr (.httpCopier e)

theorem relays_convey_request : ∃ (s : { s // TcpConnection.PassThrough s } × HttpConnection),
    (TcpConnection.station.join (station proxyLib Response.text anyStep)).machine.run
      (TcpConnection.station.start, accepted) relayedRun = some s ∧
    s.2.toRemote.length = HttpCopier.originRequest.text.length + 3 ∧
    s.2.toRemote <+: HttpCopier.originRequest.text ++ ['x', 'y', 'z'] := by
  obtain ⟨s, hrun, htest⟩ := Machine.run_of_any
    (TcpConnection.station.join (station proxyLib Response.text anyStep)).machine
    (TcpConnection.station.start, accepted) relayedRun
    (fun (s : { s // TcpConnection.PassThrough s } × HttpConnection) =>
      s.2.toRemote.length == HttpCopier.originRequest.text.length + 3 &&
        s.1.1.toProxy.fetched == Session.proxyRequest.text ++ ['x', 'y', 'z'])
    (by decide +kernel)
  rw [Bool.and_eq_true, beq_iff_eq, beq_iff_eq] at htest
  obtain ⟨hall, hfetched⟩ := htest
  have htaken : s.1.1.toProxy.fetched <+: Session.proxyRequest.text ++ ['x', 'y', 'z'] := by
    rw [hfetched]
  exact ⟨s, hrun, hall, (relays_convey (.join (.tcp _) (proxy_plain _)) hrun htaken).1⟩

end RelayPath

end ServerAsync
