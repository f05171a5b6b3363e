import ServerAsync.RelayProgress

/-!
# What gets through a path of relays

As long as nothing fails and neither side ends, a path of relays comes to rest, and then it
has delivered everything: the remote has got all that the client sent, as rewritten, and the
client the responses of the tunnels and all that the remote sent. The clients of the tunnels
wait for their 200 responses, and these leave at once.
-/

namespace ServerAsync

open Misc Misc.Pipeline

/-- A session gets more of the client's request, or reads its header. -/
def SessionEvent.sound : SessionEvent → Bool
  | .arrive bytes => !bytes.isEmpty
  | .headerRead _ _ _ => true
  | _ => false

def HttpConnectionEvent.sound : HttpConnectionEvent → Bool
  | .session e => e.sound
  | .httpCopier e => e.sound
  | .socketCopier e => e.sound
  | _ => true

/-- How far a session is with its stream. -/
def Owner.rank : Option Owner → Nat
  | some (.httpCopier d) => 2 + d.rank
  | some (.socketCopier d) => 2 + d.rank
  | _ => 1

namespace HttpConnection

variable {lib : Lib} {text : Response → Text} {req : Request} {more : Text}
  {s t : HttpConnection} {e : HttpConnectionEvent}

/-- The steps of a connection in which nothing fails. -/
def soundly (_ : HttpConnection) (e : HttpConnectionEvent) : Bool := e.sound

/-- Those of them of a connection that takes `len` bytes at most before a copier does: the
client waits for the response to its CONNECT request. -/
def quietly (len : Nat) (s : HttpConnection) : HttpConnectionEvent → Bool
  | .detected bytes => bytes.length ≤ len
  | .session (.arrive bytes) => !bytes.isEmpty && s.fromClient.length + bytes.length ≤ len
  | e => e.sound

theorem sound_of_quietly {len : Nat} (h : quietly len s e = true) : e.sound = true := by
  cases e with
  | detected bytes => rfl
  | session e =>
    cases e with
    | arrive bytes => exact (Bool.and_eq_true_iff.mp h).1
    | _ => exact h
  | _ => exact h

/-- What a connection counts beyond what has gone through it. -/
def rank (s : HttpConnection) : Nat := (s.session.map fun c => Owner.rank c.owner).getD 0

theorem rank_le (s : HttpConnection) : s.rank ≤ 8 := by
  unfold rank
  cases s.session with
  | none => exact Nat.zero_le 8
  | some c =>
    change Owner.rank c.owner ≤ 8
    unfold Owner.rank
    split
    · rename_i d _
      have hle := d.rank_le
      omega
    · rename_i d _
      have hle := d.rank_le
      omega
    · omega

/-- What has gone through a connection. -/
def through (s : HttpConnection) : Nat :=
  2 * s.fromClient.length + 2 * s.fromRemote.length + s.toClient.length + s.toRemote.length

/-! ## Before the hand-off -/

/-- A connection that waits for its client's request, with nothing failed. -/
structure Ready (s : HttpConnection) : Prop where
  before : Before s
  reads : ∀ c, s.session = some c → c.reads = [.header]

theorem ready_accepted : Ready accepted := ⟨before_accepted, nofun⟩

theorem Ready.rank_le (h : Ready s) : s.rank ≤ 1 := by
  unfold rank
  cases hsession : s.session with
  | none => exact Nat.zero_le 1
  | some c =>
    change Owner.rank c.owner ≤ 1
    rw [(h.before.idle hsession).1]
    exact Nat.le_refl 1

theorem Ready.step (hlegible : Legible lib req) (h : Ready s) (hsound : e.sound = true)
    (hstep : s.step lib text e = some t)
    (htaken : t.fromClient <+: lib.beast.serialize req ++ more) :
    (Ready t ∧ s.through + s.rank < t.through + t.rank) ∨
      ∃ c rest files, HeaderRead lib req rest files c s t := by
  cases e with
  | detected bytes =>
    rcases before_step hlegible h.before hstep htaken with hbefore | ⟨c, rest, files, -, heq⟩
    · obtain ⟨⟨hnone, -⟩, rfl⟩ := Machine.taken hstep
      rw [Option.isNone_iff_eq_none] at hnone
      refine Or.inl ⟨⟨hbefore, fun c hc => ?_⟩, ?_⟩
      · cases hc
        rfl
      · have hrank : s.rank = 0 := by rw [rank, hnone, Option.map_none, Option.getD_none]
        change s.through + s.rank < 2 * (s.fromClient ++ bytes).length +
          2 * s.fromRemote.length + s.toClient.length + s.toRemote.length + 1
        rw [hrank, through, List.length_append]
        omega
    · cases heq
  | session e =>
    cases e with
    | arrive bytes =>
      rcases before_step hlegible h.before hstep htaken with hbefore | ⟨c, rest, files, -, heq⟩
      · obtain ⟨c, c', hsession, -, hreact, rfl⟩ := step_session.mp hstep
        obtain ⟨-, hreact⟩ := (Session.step_eq_some lib).mp hreact
        obtain ⟨-, rfl⟩ := Machine.taken hreact
        refine Or.inl ⟨⟨hbefore, fun d hd => ?_⟩, ?_⟩
        · cases hd
          exact h.reads c hsession
        · have hpos : 0 < bytes.length := by
            cases bytes with
            | nil => cases hsound
            | cons b bytes => exact Nat.succ_pos _
          have hrank : s.rank = Owner.rank c.owner := by
            rw [rank, hsession, Option.map_some, Option.getD_some]
          change s.through + s.rank < 2 * (s.fromClient ++ bytes).length +
            2 * s.fromRemote.length + s.toClient.length + s.toRemote.length + Owner.rank c.owner
          rw [hrank, through, List.length_append]
          omega
      · cases heq
    | headerRead req' bytes files =>
      obtain ⟨c, c', hsession, -, hreact, rfl⟩ := step_session.mp hstep
      cases h.before.stage with
      | detecting hnone hreceived =>
        rw [hnone] at hsession
        cases hsession
      | waiting c₀ hsession' howner hwaiting hops hreceived =>
        cases hsession.symm.trans hsession'
        change s.fromClient ++ [] <+: _ at htaken
        rw [List.append_nil] at htaken
        obtain ⟨rfl, rfl, rest, hread⟩ :=
          headerRead_of_waiting hlegible hsession hwaiting hops hreceived hreact htaken
        exact Or.inr ⟨c, rest, files, hread⟩
      | ended c₀ hsession' howner hops =>
        cases hsession.symm.trans hsession'
        exact (hops.stuck hreact).elim
    | _ => cases hsound
  | send count =>
    obtain ⟨c, q, hsession, hq, -, -⟩ := step_send hstep
    rw [(h.before.idle hsession).2] at hq
    cases hq
  | httpCopier e =>
    obtain ⟨c, d, d', hsession, howner, -, -⟩ := step_httpCopier hstep
    rw [(h.before.idle hsession).1] at howner
    cases howner
  | socketCopier e =>
    obtain ⟨c, d, d', hsession, howner, -, -⟩ := step_socketCopier hstep
    rw [(h.before.idle hsession).1] at howner
    cases howner

variable (text) in
/-- A connection that has not read its client's request can go on with what the client has
sent. -/
theorem Ready.goesOn (hlegible : Legible lib req) (h : Ready s)
    (hfront : s.fromClient <+: lib.beast.serialize req ++ more) : ∃ e t,
      s.step lib text e = some t ∧ t.fromClient <+: lib.beast.serialize req ++ more ∧
      t.fromRemote = s.fromRemote ∧ e.sound = true ∧
      (s.fromClient.length ≤ (lib.beast.serialize req).length →
        quietly (lib.beast.serialize req).length s e = true ∧ patiently s e = true) := by
  have hpos : 0 < (lib.beast.serialize req).length := (lib.beast.bytes_le _ _ _ hlegible).1
  -- there is a next byte as long as the request is not complete
  have hnext (hlt : s.fromClient.length < (lib.beast.serialize req).length) :
      ∃ x, s.fromClient ++ [x] <+: lib.beast.serialize req ++ more := by
    obtain ⟨rest, hrest⟩ := hfront
    cases rest with
    | nil =>
      have hlength := congrArg List.length hrest
      rw [List.append_nil, List.length_append] at hlength
      omega
    | cons x rest => exact ⟨x, rest, by rw [← hrest, List.append_assoc, List.singleton_append]⟩
  cases h.before.stage with
  | detecting hsession hreceived =>
    rw [hreceived] at hnext
    obtain ⟨x, hx⟩ := hnext hpos
    have hnone : s.session.isNone = true := by rw [hsession, Option.isNone_none]
    refine ⟨.detected [x], _, if_pos ⟨hnone, List.cons_ne_nil _ _⟩, ?_, rfl, rfl,
      fun _ => ⟨?_, rfl⟩⟩
    · change s.fromClient ++ [x] <+: _
      rw [hreceived]
      exact hx
    · exact decide_eq_true hpos
  | waiting c hsession howner hwaiting hops hreceived =>
    rcases Nat.lt_or_ge s.fromClient.length (lib.beast.serialize req).length with hlt | hge
    · obtain ⟨x, hx⟩ := hnext hlt
      have hreact : c.step lib (.arrive [x]) = some { c with
          buffer := c.buffer ++ [x]
          received := c.received ++ [x] } := by
        refine (Session.step_eq_some lib).mpr ⟨hops.fate, if_pos ?_⟩
        rw [hops.reads_eq]
        rfl
      refine ⟨.session (.arrive [x]), _, step_session.mpr ⟨c, _, hsession, trivial, hreact, rfl⟩,
        hx, rfl, rfl, fun _ => ⟨?_, rfl⟩⟩
      exact decide_eq_true hlt
    · obtain ⟨rest, hrest⟩ := List.prefix_of_prefix_length_le
        (List.prefix_append (lib.beast.serialize req) more) hfront hge
      have hbuffer : c.buffer = lib.beast.serialize req ++ rest := by
        rw [hwaiting.buffer, ← hreceived, hrest]
      have hparse : lib.beast.parseHeader c.buffer =
          .done req (lib.beast.serialize req).length := by
        rw [hbuffer]
        exact lib.beast.parse_append _ _ _ rest hlegible
      have hreact : ∃ c', c.step lib (.headerRead req (lib.beast.serialize req).length noFiles) =
          some c' := by
        refine ⟨_, (Session.step_eq_some lib).mpr ⟨hops.fate, if_pos ⟨?_, hparse⟩⟩⟩
        rw [hops.reads_eq]
        exact List.mem_cons_self
      obtain ⟨c', hreact⟩ := hreact
      refine ⟨.session (.headerRead req _ noFiles), _,
        step_session.mpr ⟨c, c', hsession, trivial, hreact, rfl⟩, ?_, rfl, rfl,
        fun hle => ⟨rfl, ?_⟩⟩
      · change s.fromClient ++ [] <+: _
        rw [List.append_nil]
        exact hfront
      · change (s.session.all fun c => c.buffer.length == _) = true
        rw [hsession, Option.all_some, beq_iff_eq, hwaiting.buffer, ← hreceived]
        exact Nat.le_antisymm hle hge
  | ended c hsession howner hops =>
    have hreads := h.reads c hsession
    rw [hops.reads_eq] at hreads
    cases hreads

/-! ## Behind the hand-off -/

variable {owner : Copier → Owner} {front rest : Text} {c : Session} {d : Copier} {url : UrlView}

theorem Copying.through_eq (h : Copying owner front s c d) :
    s.through = 2 * front.length + d.through := by
  rw [through, h.fromClient, h.fromRemote, h.toClient, h.toRemote, List.length_append,
    Copier.through]
  omega

theorem Copying.rank_eq (h : Copying owner front s c d)
    (howner : Owner.rank (some (owner d)) = 2 + d.rank) : s.rank = 2 + d.rank := by
  rw [rank, h.session, Option.map_some, Option.getD_some, h.owned, howner]

theorem HeaderRead.through_eq {files : Files} (h : HeaderRead lib req rest files c s t) :
    t.through = s.through := by
  rw [← h.next]
  change 2 * (s.fromClient ++ []).length + 2 * s.fromRemote.length + s.toClient.length +
    s.toRemote.length = s.through
  rw [List.append_nil, through]

/-- A copier has got the stream: the connection is further. -/
theorem HeaderRead.load_lt {files : Files} {c' : Session} (h : HeaderRead lib req rest files c s t)
    (hready : Ready s) (hcopying : Copying owner front t c' d)
    (howner : Owner.rank (some (owner d)) = 2 + d.rank) :
    s.through + s.rank < t.through + t.rank := by
  have hle := hready.rank_le
  rw [h.through_eq, hcopying.rank_eq howner]
  omega

/-- So is it when the copier is. -/
theorem Copying.load_lt {d' : Copier} {c' : Session} (h : Copying owner front s c d)
    (h' : Copying owner front t c' d') (howner : ∀ d, Owner.rank (some (owner d)) = 2 + d.rank)
    (hlt : d.through + d.rank < d'.through + d'.rank) :
    s.through + s.rank < t.through + t.rank := by
  rw [h.through_eq, h'.through_eq, h.rank_eq (howner d), h'.rank_eq (howner d')]
  omega

/-- A connection whose client starts with a request for an `http_copier`, with nothing
failed. -/
def ProxyFlow (lib : Lib) (req : Request) (url : UrlView) (s : HttpConnection) : Prop :=
  Ready s ∨ ∃ c d rest, Copying .httpCopier (lib.beast.serialize req ++ rest) s c d ∧
    HttpCopier.Inv lib.beast (HttpCopier.rewrite url req) rest d ∧ d.Alive .request

/-- One whose client starts with a CONNECT request, and waits. -/
def TunnelFlow (lib : Lib) (req : Request) (s : HttpConnection) : Prop :=
  (Ready s ∧ s.fromClient.length ≤ (lib.beast.serialize req).length) ∨
    ∃ c d, Copying .socketCopier (lib.beast.serialize req) s c d ∧ SocketCopier.Inv d ∧
      d.Alive .response

theorem ProxyFlow.step (hlegible : Legible lib req)
    (hproxy : ∀ files, route lib req files = .proxy)
    (hview : lib.urls.urlView req.target = some url) (h : ProxyFlow lib req url s)
    (hsound : e.sound = true) (hstep : s.step lib text e = some t)
    (htaken : t.fromClient <+: lib.beast.serialize req ++ more) :
    ProxyFlow lib req url t ∧ s.through + s.rank < t.through + t.rank := by
  rcases h with hready | ⟨c, d, rest, hcopying, hinv, halive⟩
  · rcases hready.step hlegible hsound hstep htaken with ⟨hafter, hlt⟩ | ⟨c, rest, files, hread⟩
    · exact ⟨Or.inl hafter, hlt⟩
    · obtain ⟨d, c', hstart, hcopying, hinv⟩ := hread.proxied hready.before (hproxy files) hview
      exact ⟨Or.inr ⟨c', d, rest, hcopying, hinv, HttpCopier.alive_start hstart⟩,
        hread.load_lt hready hcopying rfl⟩
  · rcases hcopying.step_cases hstep with
      ⟨e', d₀, d', rfl, howner, hreact, rfl⟩ | ⟨e', d₀, d', -, howner, -, -⟩
    · cases howner
      have hcopying' := hcopying.relayed (HttpCopier.grows_step hreact)
      obtain ⟨halive', hlt⟩ := HttpCopier.alive_step hinv halive hsound hreact
      exact ⟨Or.inr ⟨_, d', rest, hcopying', HttpCopier.inv_step hinv hreact, halive'⟩,
        hcopying.load_lt hcopying' (fun _ => rfl) hlt⟩
    · cases howner

theorem TunnelFlow.step (hlegible : Legible lib req)
    (htunnel : ∀ files, route lib req files = .tunnel) (hcolon : ':' ∈ req.target)
    (h : TunnelFlow lib req s) (hquiet : quietly (lib.beast.serialize req).length s e = true)
    (hstep : s.step lib text e = some t)
    (htaken : t.fromClient <+: lib.beast.serialize req ++ more) :
    TunnelFlow lib req t ∧ s.through + s.rank < t.through + t.rank := by
  have hsound := sound_of_quietly hquiet
  rcases h with ⟨hready, hle⟩ | ⟨c, d, hcopying, hinv, halive⟩
  · rcases hready.step hlegible hsound hstep htaken with ⟨hafter, hlt⟩ | ⟨c, rest, files, hread⟩
    · refine ⟨Or.inl ⟨hafter, ?_⟩, hlt⟩
      cases e with
      | detected bytes =>
        obtain ⟨⟨hnone, -⟩, rfl⟩ := Machine.taken hstep
        cases hready.before.stage with
        | detecting hsession hreceived =>
          change (s.fromClient ++ bytes).length ≤ _
          rw [hreceived, List.nil_append]
          exact of_decide_eq_true hquiet
        | waiting c hsession =>
          rw [hsession] at hnone
          cases hnone
        | ended c hsession =>
          rw [hsession] at hnone
          cases hnone
      | session e =>
        obtain ⟨c, c', -, -, -, rfl⟩ := step_session.mp hstep
        cases e with
        | arrive bytes =>
          change (s.fromClient ++ bytes).length ≤ _
          rw [List.length_append]
          exact of_decide_eq_true (Bool.and_eq_true_iff.mp hquiet).2
        | headerRead req' bytes files =>
          change (s.fromClient ++ []).length ≤ _
          rwa [List.append_nil]
        | _ => cases hsound
      | send count =>
        obtain ⟨c, q, -, -, -, rfl⟩ := step_send hstep
        exact hle
      | httpCopier e =>
        obtain ⟨c, d, d', hsession, howner, -, -⟩ := step_httpCopier hstep
        rw [(hready.before.idle hsession).1] at howner
        cases howner
      | socketCopier e =>
        obtain ⟨c, d, d', hsession, howner, -, -⟩ := step_socketCopier hstep
        rw [(hready.before.idle hsession).1] at howner
        cases howner
    · obtain ⟨d, c', hstart, hcopying, hinv⟩ :=
        hread.tunnelled hready.before hlegible (htunnel files)
      have hlen : req.target.length < 2 ^ 31 :=
        Nat.lt_of_le_of_lt (lib.beast.target_le _ _ _ hlegible) (by decide)
      -- nothing has come behind the request
      have hnone : rest = [] := by
        rw [hread.received, List.length_append] at hle
        exact List.length_eq_zero_iff.mp (by omega)
      rw [hnone, List.append_nil] at hcopying
      exact ⟨Or.inr ⟨c', d, hcopying, hinv, SocketCopier.alive_start hlen hcolon hstart⟩,
        hread.load_lt hready hcopying rfl⟩
  · rcases hcopying.step_cases hstep with
      ⟨e', d₀, d', -, howner, -, -⟩ | ⟨e', d₀, d', rfl, howner, hreact, rfl⟩
    · cases howner
    · cases howner
      have hcopying' := hcopying.relayed (SocketCopier.grows_step hreact)
      obtain ⟨halive', hlt⟩ := SocketCopier.alive_step hinv halive hsound hreact
      refine ⟨Or.inr ⟨_, d', hcopying', SocketCopier.inv_step hinv ?_ hreact, halive'⟩,
        hcopying.load_lt hcopying' (fun _ => rfl) hlt⟩
      cases e' with
      | connected count stale => exact beq_iff_eq.mp hsound
      | shared e => trivial

/-! ## At rest -/

theorem Copying.step_httpCopier (h : Copying .httpCopier front s c d) {e : HttpCopierEvent}
    {d' : Copier} (hreact : HttpCopier.step lib.beast d e = some d') :
    s.step lib text (.httpCopier e) = some (s.relayed c .httpCopier d d') := by
  rw [step, h.session, Option.bind_some, h.owned]
  dsimp only
  rw [hreact, Option.map_some]

theorem Copying.step_socketCopier (h : Copying .socketCopier front s c d)
    {e : SocketCopierEvent} {d' : Copier} (hreact : SocketCopier.step d e = some d') :
    s.step lib text (.socketCopier e) = some (s.relayed c .socketCopier d d') := by
  rw [step, h.session, Option.bind_some, h.owned]
  dsimp only
  rw [hreact, Option.map_some]

/-- What the sources of a connection's copier have. -/
def streams (toRemote toClient : Text) : Dir → Text
  | .toRemote => toRemote
  | .toClient => toClient

/-- A connection to another server whose copier cannot go on. -/
theorem Copying.drained_proxied {u : Text} (h : Copying .httpCopier front s c d)
    (hinv : HttpCopier.Inv lib.beast req rest d) (halive : d.Alive .request)
    (hnear : s.fromClient <+: front ++ more) (hfar : s.fromRemote <+: u)
    (hstuck : ∀ e t, e.sound = true → s.step lib text (.httpCopier e) = some t →
      t.fromClient <+: front ++ more → ¬t.fromRemote <+: u) :
    s.toRemote = lib.beast.serialize req ++ rest ++ more ∧ s.toClient = u := by
  rw [h.fromClient, List.prefix_append_right_inj] at hnear
  rw [h.fromRemote] at hfar
  have hdrained := HttpCopier.drained hinv halive (streams more u)
    (fun dir => by cases dir <;> assumption) fun e d' hsound hreact htaken => by
      have hcopying := h.relayed (HttpCopier.grows_step hreact)
      refine hstuck e _ hsound (h.step_httpCopier hreact) ?_ ?_
      · rw [hcopying.fromClient, List.prefix_append_right_inj]
        have hforth := htaken .toRemote
        rw [← HttpCopier.step_fetched hreact] at hforth
        exact hforth
      · rw [hcopying.fromRemote]
        have hback := htaken .toClient
        rw [← HttpCopier.step_fetched hreact] at hback
        exact hback
  rw [h.toRemote, h.toClient]
  exact ⟨hdrained.2, hdrained.1⟩

/-- A tunnel whose copier cannot go on. -/
theorem Copying.drained_tunnelled {u : Text} (h : Copying .socketCopier front s c d)
    (hinv : SocketCopier.Inv d) (halive : d.Alive .response)
    (hnear : s.fromClient <+: front ++ more) (hfar : s.fromRemote <+: u)
    (hstuck : ∀ e t, e.sound = true → s.step lib text (.socketCopier e) = some t →
      t.fromClient <+: front ++ more → ¬t.fromRemote <+: u) :
    s.toRemote = more ∧ s.toClient = ok200 ++ u := by
  rw [h.fromClient, List.prefix_append_right_inj] at hnear
  rw [h.fromRemote] at hfar
  have hdrained := SocketCopier.drained hinv halive (streams more u)
    (fun dir => by cases dir <;> assumption) fun e d' hsound hreact htaken => by
      have hcopying := h.relayed (SocketCopier.grows_step hreact)
      refine hstuck e _ hsound (h.step_socketCopier hreact) ?_ ?_
      · rw [hcopying.fromClient, List.prefix_append_right_inj]
        have hforth := htaken .toRemote
        rw [← SocketCopier.step_fetched hreact] at hforth
        exact hforth
      · rw [hcopying.fromRemote]
        have hback := htaken .toClient
        rw [← SocketCopier.step_fetched hreact] at hback
        exact hback
  rw [h.toRemote, h.toClient]
  exact ⟨hdrained.2, hdrained.1⟩

/-- A step of a station in which nothing fails. -/
theorem sound_step {s t : HttpConnection} {e : HttpConnectionEvent} :
    ((station lib text anyStep).only soundly).machine.step s e = some t ↔
      e.sound = true ∧ s.step lib text e = some t := by
  refine Machine.only_step.trans (and_congr_right fun _ => ?_)
  exact Machine.only_step.trans (and_iff_right rfl)

/-- The same for a client that waits. -/
theorem quiet_step {len : Nat} {s t : HttpConnection} {e : HttpConnectionEvent} :
    ((station lib text patiently).only (quietly len)).machine.step s e = some t ↔
      quietly len s e = true ∧ patiently s e = true ∧ s.step lib text e = some t :=
  Machine.only_step.trans (and_congr_right fun _ => Machine.only_step)

theorem relays_proxied (hlegible : Legible lib req)
    (hproxy : ∀ files, route lib req files = .proxy)
    (hview : lib.urls.urlView req.target = some url) (more : Text) :
    ((station lib text anyStep).only soundly).Relays (lib.beast.serialize req ++ more)
      (lib.beast.serialize (HttpCopier.rewrite url req) ++ more) [] where
  conveys := (conveys_proxied hlegible hproxy hview more).only soundly
  delivers es s u hrun hnear hfar hrests := by
    change s.fromClient <+: _ at hnear
    change s.fromRemote <+: u at hfar
    have hflow : ProxyFlow lib req url s := Machine.run_invariant (I := fun s : HttpConnection =>
      s.fromClient <+: lib.beast.serialize req ++ more → ProxyFlow lib req url s)
      (fun s e t h hstep htaken => by
        obtain ⟨hsound, hstep⟩ := sound_step.mp hstep
        exact ((h ((HttpConnection.grows hstep).1.trans htaken)).step hlegible hproxy hview hsound
          hstep htaken).1)
      (fun _ => Or.inl ready_accepted) hrun hnear
    rcases hflow with hready | ⟨c, d, rest, hcopying, hinv, halive⟩
    · obtain ⟨e, t, hstep, htaken, hsame, hsound, -⟩ := hready.goesOn text hlegible hnear
      refine absurd ?_ (hrests e t (sound_step.mpr ⟨hsound, hstep⟩) htaken)
      change t.fromRemote <+: u
      rw [hsame]
      exact hfar
    · -- what has come behind the request is a front of `more`
      obtain ⟨later, hlater⟩ : rest <+: more := by
        rw [hcopying.fromClient, List.append_assoc, List.prefix_append_right_inj] at hnear
        exact (List.prefix_append _ _).trans hnear
      rw [← hlater, ← List.append_assoc] at hnear
      obtain ⟨hput, hgot⟩ := hcopying.drained_proxied hinv halive hnear hfar
        fun e t hsound hstep htaken => hrests (.httpCopier e) t
          (sound_step.mpr ⟨hsound, hstep⟩) (by rwa [← hlater, ← List.append_assoc])
      refine ⟨?_, hgot⟩
      change s.toRemote = _
      rw [hput, List.append_assoc, hlater]
  ends := ((conveys_proxied hlegible hproxy hview more).only soundly).ends
    (I := fun s : HttpConnection => ProxyFlow lib req url s) rank 8
    (Or.inl ready_accepted)
    (fun _ _ _ h hstep htaken => h.step hlegible hproxy hview (sound_step.mp hstep).1
      (sound_step.mp hstep).2 htaken)
    rank_le

theorem relays_tunnelled (hlegible : Legible lib req)
    (htunnel : ∀ files, route lib req files = .tunnel) (hcolon : ':' ∈ req.target)
    (more : Text) :
    ((station lib text patiently).only (quietly (lib.beast.serialize req).length)).Relays
      (lib.beast.serialize req ++ more) more ok200 where
  conveys := (conveys_tunnelled hlegible htunnel more).only _
  delivers es s u hrun hnear hfar hrests := by
    change s.fromClient <+: _ at hnear
    change s.fromRemote <+: u at hfar
    have hflow : TunnelFlow lib req s := Machine.run_invariant (I := fun s : HttpConnection =>
      s.fromClient <+: lib.beast.serialize req ++ more → TunnelFlow lib req s)
      (fun s e t h hstep htaken => by
        obtain ⟨hquiet, -, hstep⟩ := quiet_step.mp hstep
        exact ((h ((HttpConnection.grows hstep).1.trans htaken)).step hlegible htunnel hcolon
          hquiet hstep htaken).1)
      (fun _ => Or.inl ⟨ready_accepted, Nat.zero_le _⟩) hrun hnear
    rcases hflow with ⟨hready, hle⟩ | ⟨c, d, hcopying, hinv, halive⟩
    · obtain ⟨e, t, hstep, htaken, hsame, -, hallowed⟩ :=
        hready.goesOn text hlegible hnear
      obtain ⟨hquiet, hpatient⟩ := hallowed hle
      refine absurd ?_ (hrests e t (quiet_step.mpr ⟨hquiet, hpatient, hstep⟩) htaken)
      change t.fromRemote <+: u
      rw [hsame]
      exact hfar
    · have hstuck : ∀ e t, e.sound = true → s.step lib text (.socketCopier e) = some t →
          t.fromClient <+: lib.beast.serialize req ++ more → ¬t.fromRemote <+: u := by
        intro e t hsound hstep
        refine hrests (.socketCopier e) t (quiet_step.mpr ⟨hsound, ?_, hstep⟩)
        cases e with
        | connected count stale => exact hsound
        | shared e => rfl
      exact hcopying.drained_tunnelled hinv halive hnear hfar hstuck
  ends := ((conveys_tunnelled hlegible htunnel more).only _).ends
    (I := fun s : HttpConnection => TunnelFlow lib req s) rank 8
    (Or.inl ⟨ready_accepted, Nat.zero_le _⟩)
    (fun _ _ _ h hstep htaken => h.step hlegible htunnel hcolon (quiet_step.mp hstep).1
      (quiet_step.mp hstep).2.2 htaken)
    rank_le

end HttpConnection

/-! ## Paths -/

open HttpConnection

/-- A path of relays in which nothing fails and neither side ends. The client of a tunnel sends
nothing behind its CONNECT request before a copier has the stream, and the tunnel's 200 response
leaves at once. -/
inductive SoundPath (lib : Lib) (text : Response → Text) :
    Text → Text → Text → Station Char → Prop
  | tcp (w : Text) :
    SoundPath lib text w w [] (TcpConnection.station.only TcpConnection.soundly)
  | proxy {req : Request} {url : UrlView} (hlegible : Legible lib req)
    (hproxy : ∀ files, route lib req files = .proxy)
    (hview : lib.urls.urlView req.target = some url) (more : Text) :
    SoundPath lib text (lib.beast.serialize req ++ more)
      (lib.beast.serialize (HttpCopier.rewrite url req) ++ more) []
      ((station lib text anyStep).only soundly)
  | tunnel {req : Request} (hlegible : Legible lib req)
    (htunnel : ∀ files, route lib req files = .tunnel) (hcolon : ':' ∈ req.target)
    (more : Text) :
    SoundPath lib text (lib.beast.serialize req ++ more) more ok200
      ((station lib text patiently).only (quietly (lib.beast.serialize req).length))
  | join {w w' w'' lead lead' : Text} {A B : Station Char} (first : SoundPath lib text w w' lead A)
    (second : SoundPath lib text w' w'' lead' B) :
    SoundPath lib text w w'' (lead ++ lead') (A.join B)

namespace SoundPath

variable {lib : Lib} {text : Response → Text} {w w' lead : Text} {A : Station Char}

theorem relays (h : SoundPath lib text w w' lead A) : A.Relays w w' lead := by
  induction h with
  | tcp w => exact TcpConnection.relays_tcp w
  | proxy hlegible hproxy hview more => exact relays_proxied hlegible hproxy hview more
  | tunnel hlegible htunnel hcolon more => exact relays_tunnelled hlegible htunnel hcolon more
  | join first second ih ih' => exact ih.join ih'

/-- Whatever the steps of such a path are, and in whatever order they come: there are not more of
them than the lengths of the two streams allow, and when none is left the remote has got all
that it is to get, and the client the responses of the tunnels and all that the remote has
sent. -/
theorem relays_deliver (h : SoundPath lib text w w' lead A) : ∃ limit : Nat → Nat,
    ∀ es s u, A.machine.run A.start es = some s → A.taken s .near <+: w →
      A.taken s .far <+: u → es.length ≤ limit u.length ∧
        (A.Rests w u s → A.put s .far = w' ∧ A.put s .near = lead ++ u) := by
  obtain ⟨limit, hmono, hlimit⟩ := h.relays.ends
  refine ⟨limit, fun es s u hrun hnear hfar => ⟨?_, ?_⟩⟩
  · exact (hlimit es s hrun hnear).trans (hmono hfar.length_le)
  · exact h.relays.delivers es s u hrun hnear hfar

/-- Libraries for a request to the proxy behind a tunnel. -/
def tunnelLib : Lib :=
  Lib.plain [tunnelRequest, Session.proxyRequest, HttpCopier.originRequest]

theorem tunnel_plain (more : Text) : SoundPath tunnelLib Response.text
    (tunnelRequest.text ++ more) more ok200
    ((station tunnelLib Response.text patiently).only
      (quietly tunnelRequest.text.length)) := by
  have hlegible : Legible tunnelLib tunnelRequest := by
    unfold Legible
    decide +kernel
  exact .tunnel hlegible (fun _ => Session.route_tunnel (by decide +kernel) rfl) (by decide) more

theorem proxy_plain (more : Text) : SoundPath tunnelLib Response.text
    (Session.proxyRequest.text ++ more) (HttpCopier.originRequest.text ++ more) []
    ((station tunnelLib Response.text anyStep).only soundly) := by
  have hlegible : Legible tunnelLib Session.proxyRequest := by
    unfold Legible
    decide +kernel
  have hproxy (files : Files) : route tunnelLib Session.proxyRequest files = .proxy :=
    Session.route_eq_proxy.mpr ⟨by decide +kernel, by decide, by decide⟩
  have hview : tunnelLib.urls.urlView Session.proxyRequest.target =
      some ⟨['h'], [], ['/'], []⟩ := by
    decide +kernel
  exact .proxy hlegible hproxy hview more

/-- The TCP proxy, a tunnel, and a proxy request through it. -/
theorem relays_deliver_tunnel : ∃ es s,
    (Station.join (TcpConnection.station.only TcpConnection.soundly)
      (((station tunnelLib Response.text patiently).only
          (quietly tunnelRequest.text.length)).join
        ((station tunnelLib Response.text anyStep).only soundly))).machine.run
      (TcpConnection.station.start, accepted, accepted) es = some s ∧
    s.2.2.toRemote = HttpCopier.originRequest.text ++ ['x', 'y'] ∧
    s.1.1.toClient.written = ok200 ++ ['z'] := by
  have hpath := SoundPath.join (.tcp _) (.join (tunnel_plain _) (proxy_plain ['x', 'y']))
  obtain ⟨es, s, hrun, hnear, hfar, hrests⟩ :=
    hpath.relays.comes_to_rest (u := ['z']) (Machine.run_nil ..) List.nil_prefix List.nil_prefix
  obtain ⟨limit, hdelivers⟩ := relays_deliver hpath
  obtain ⟨hremote, hclient⟩ := (hdelivers es s ['z'] hrun hnear hfar).2 hrests
  exact ⟨es, s, hrun, hremote, hclient⟩

end SoundPath

end ServerAsync
