import ServerAsync.Misc.PipelineOutput
import ServerAsync.ProxyRequests
import ServerAsync.RelayPath
import ServerAsync.ResponseFraming

/-!
# A server behind a path of relays

At the end of a path there is a connection of a server, whose session answers what it gets.
Through the path, whose tunnels are patient, its client gets the responses of the tunnels and
then those of the session in the order of the requests, and the first of the session's answers
the request as it came out of the path.
-/

namespace ServerAsync

open Misc Misc.Pipeline

/-! ## The first request of a session -/

/-- The header that an event reads. -/
def SessionEvent.header : SessionEvent → Option Request
  | .headerRead req _ _ => some req
  | _ => none

namespace Session

variable {lib : Lib} {req : Request} {more : Text} {s s' : Session} {e : SessionEvent}

theorem onRoute_headers (s : Session) (number : Nat) (req : Request) (way : Route) :
    (s.onRoute lib number req way).headers = s.headers := by
  cases way with
  | tunnel =>
    rw [onRoute]
    exact (startCopier_sameProgress _ _ _).headers
  | proxy =>
    rw [onRoute]
    exact (startCopier_sameProgress _ _ _).headers
  | reply r => exact (queueWrite_sameInput (s.dispatch req) ⟨number, r⟩).headers
  | _ => rfl

theorem headers_step (hstep : s.step lib e = some s') :
    s'.headers = s.headers ++ e.header.toList := by
  obtain ⟨-, hreact⟩ := (step_eq_some lib).mp hstep
  cases e with
  | headerRead req bytes files =>
    obtain ⟨-, rfl⟩ := Machine.taken hreact
    rw [onRead_eq, onRoute_headers]
    rfl
  | bodyRead number req =>
    obtain ⟨-, rfl⟩ := Machine.taken hreact
    rw [FileUploadHandler.onRead, continueReadIfNeeded]
    have hsame := queueWrite_sameInput (s.takeBody lib number req)
      ⟨number, FileUploadHandler.response req⟩
    split <;> exact hsame.headers.trans (List.append_nil _).symm
  | written q ok =>
    obtain ⟨-, rfl⟩ := Machine.taken hreact
    by_cases hresumes : ({ s with writes := s.writes.erase q } : Session).Resuming q ok
    · exact (onWrite_resuming hresumes).headers.trans (List.append_nil _).symm
    · exact (onWrite_sameInput hresumes).headers.trans (List.append_nil _).symm
  | _ =>
    obtain ⟨-, rfl⟩ := Machine.taken hreact
    exact (List.append_nil _).symm

/-- A session that has given its stream away does not get it back. -/
theorem owner_step (hstep : s.step lib e = some s') (howner : s'.owner = none) :
    s.owner = none := by
  rcases owner_cases hstep with hsame | ⟨hgiven, -⟩
  · exact hsame.symm.trans howner
  · exact absurd howner hgiven

/-- The first header that is read is that of `req`; until then everything received is in the
buffer. -/
def FirstHeader (req : Request) (s : Session) : Prop :=
  s.headers.head? = some req ∨
    s.headers = [] ∧ s.buffer = s.received ∧ ∀ op ∈ s.reads, op = .header

theorem firstHeader_step (hlegible : Legible lib req) (hinv : Pipeline.Inv queueLimit s.core)
    (h : FirstHeader req s) (hreceived : s.received <+: lib.beast.serialize req ++ more)
    (hstep : s.step lib e = some s') : FirstHeader req s' := by
  have hheaders := headers_step hstep
  rcases h with hfirst | ⟨hnone, hbuffer, hreads⟩
  · left
    obtain ⟨rest, hrest⟩ := List.head?_eq_some_iff.mp hfirst
    rw [hheaders, hrest, List.cons_append, List.head?_cons]
  · obtain ⟨-, hreact⟩ := (step_eq_some lib).mp hstep
    rw [hnone, List.nil_append] at hheaders
    cases e with
    | arrive bytes =>
      obtain ⟨-, rfl⟩ := Machine.taken hreact
      refine Or.inr ⟨hnone, ?_, hreads⟩
      change s.buffer ++ bytes = s.received ++ bytes
      rw [hbuffer]
    | handshake bytesUsed => cases hreads _ (Machine.taken hreact).1
    | headerRead req' bytes files =>
      obtain ⟨⟨-, hparse⟩, -⟩ := Machine.taken hreact
      rw [← hbuffer] at hreceived
      obtain ⟨rfl, -, -⟩ := HttpConnection.parse_request hlegible hreceived hparse
      left
      rw [hheaders]
      rfl
    | bodyRead number req' => cases hreads _ (Machine.taken hreact).1.1
    | written q ok =>
      have hq := (Machine.taken hreact).1
      rw [writes_of_headers_nil hinv hnone] at hq
      cases hq
    | endOfStream =>
      obtain ⟨-, rfl⟩ := Machine.taken hreact
      exact Or.inr ⟨hnone, hbuffer, fun op hop => hreads op (List.mem_of_mem_erase hop)⟩
    | readFailed op' =>
      obtain ⟨-, rfl⟩ := Machine.taken hreact
      exact Or.inr ⟨hnone, hbuffer, fun op hop => hreads op (List.mem_of_mem_erase hop)⟩
    | shutdown =>
      obtain ⟨-, rfl⟩ := Machine.taken hreact
      exact Or.inr ⟨hnone, hbuffer, hreads⟩

end Session

/-- Once plain, a session never waits for a handshake. -/
theorem Session.FirstHeader.not_opening {req : Request} {s : Session} (h : FirstHeader req s)
    (hinv : Pipeline.Inv queueLimit s.core) : .opening ∉ s.reads := by
  intro hop
  rcases h with hfirst | ⟨-, -, hreads⟩
  · have hzero : s.headers.length = 0 := (hinv.read.opening_count hop).2
    rw [List.length_eq_zero_iff.mp hzero] at hfirst
    cases hfirst
  · cases hreads _ hop

/-- Only a completed write is one for the pipelined connection. -/
theorem label_quiet (lib : Lib) {e : SessionEvent} (h : e.isWritten = false) (q : Reply Response)
    (ok : Bool) : label lib e ≠ .wrote q ok := by
  cases e with
  | written q ok => cases h
  | headerRead req bytes files =>
    change (route lib req files).label req ≠ _
    cases route lib req files <;> simp [Route.label]
  | _ => simp [label]

/-! ## A connection that answers -/

namespace HttpConnection

variable {lib : Lib} {text : Response → Text} {req : Request} {more : Text}
  {s t : HttpConnection} {e : HttpConnectionEvent}

/-- A connection whose session has kept its stream, and gets `req` first. -/
structure Serving (lib : Lib) (text : Response → Text) (req : Request) (s : HttpConnection)
    (c : Session) : Prop where
  core : Pipeline.Inv queueLimit c.core
  replies : Session.Replies lib c
  first : Session.FirstHeader req c
  received : s.fromClient = c.received
  output : Output text c.core s.part s.toClient

/-- What holds of a connection as long as the client sends `req` and then `more`. -/
structure Serves (lib : Lib) (text : Response → Text) (req : Request) (s : HttpConnection) :
    Prop where
  detecting : s.session = none → s.fromClient = [] ∧ s.toClient = [] ∧ s.part = 0
  serving : ∀ c, s.session = some c → c.owner = none → Serving lib text req s c

theorem serves_accepted (lib : Lib) (text : Response → Text) (req : Request) :
    Serves lib text req accepted where
  detecting _ := ⟨rfl, rfl, rfl⟩
  serving c hc := by cases hc

/-- An event of the session. -/
theorem Serving.session {c c' : Session} (hlegible : Legible lib req)
    (h : Serving lib text req s c) {e : SessionEvent} (hmay : s.MayComplete text e)
    (hstep : c.step lib e = some c')
    (htaken : (s.after e c').fromClient <+: lib.beast.serialize req ++ more) :
    Serving lib text req (s.after e c') c' := by
  have hreceived : c.received <+: lib.beast.serialize req ++ more := by
    rw [← h.received]
    exact List.IsPrefix.trans (List.prefix_append _ _) htaken
  have hcore := Session.core_step hstep
  refine ⟨inv_step h.core hcore, Session.replies_step h.replies hstep,
    Session.firstHeader_step hlegible h.core h.first hreceived hstep, ?_, ?_⟩
  · change s.fromClient ++ e.arrived = c'.received
    rw [h.received]
    by_cases harrive : ∃ bytes, e = .arrive bytes
    · obtain ⟨bytes, rfl⟩ := harrive
      obtain ⟨-, hreact⟩ := (Session.step_eq_some lib).mp hstep
      obtain ⟨-, rfl⟩ := Machine.taken hreact
      rfl
    · rw [not_exists] at harrive
      have hnone : e.arrived = [] := by
        cases e with
        | arrive bytes => exact absurd rfl (harrive bytes)
        | _ => rfl
      rw [hnone, List.append_nil]
      exact (Session.received_unchanged hstep harrive (h.first.not_opening h.core)).symm
  · by_cases hwritten : e.isWritten = true
    · cases e with
      | written q ok =>
        refine h.output.wrote h.core.write hcore fun hok => ?_
        subst hok
        exact hmay
      | _ => cases hwritten
    · have hpart : (s.after e c').part = s.part := if_neg hwritten
      rw [hpart]
      exact h.output.quiet h.core.write hcore (label_quiet lib (Bool.not_eq_true _ ▸ hwritten))

theorem serves_step (hlegible : Legible lib req) (h : Serves lib text req s)
    (hstep : s.step lib text e = some t)
    (htaken : t.fromClient <+: lib.beast.serialize req ++ more) : Serves lib text req t := by
  cases e with
  | detected bytes =>
    obtain ⟨⟨hnone, -⟩, rfl⟩ := Machine.taken hstep
    rw [Option.isNone_iff_eq_none] at hnone
    obtain ⟨hclient, hout, hpart⟩ := h.detecting hnone
    refine ⟨nofun, fun c hc _ => ?_⟩
    cases hc
    refine ⟨Session.inv_run_start, Session.replies_run lib .plain bytes,
      Or.inr ⟨rfl, rfl, fun op hop => List.mem_singleton.mp hop⟩, ?_, ?_⟩
    · change s.fromClient ++ bytes = bytes
      rw [hclient, List.nil_append]
    · change Output text _ s.part s.toClient
      rw [hpart, hout]
      exact .start .header
  | session e =>
    obtain ⟨c, c', hsession, hmay, hreact, rfl⟩ := step_session.mp hstep
    refine ⟨nofun, fun d hd howner => ?_⟩
    cases hd
    exact (h.serving c hsession (Session.owner_step hreact howner)).session hlegible hmay hreact
      htaken
  | send count =>
    obtain ⟨c, q, hsession, hq, hle, rfl⟩ := step_send hstep
    refine ⟨fun hno => ?_, fun d hd howner => ?_⟩
    · change s.session = none at hno
      rw [hsession] at hno
      cases hno
    · have hserving := h.serving d hd howner
      cases hsession.symm.trans hd
      exact ⟨hserving.core, hserving.replies, hserving.first, hserving.received,
        hserving.output.send hserving.core.write hq hle⟩
  | httpCopier e =>
    obtain ⟨c, d, d', -, -, -, rfl⟩ := step_httpCopier hstep
    refine ⟨nofun, fun d hd howner => ?_⟩
    cases hd
    cases howner
  | socketCopier e =>
    obtain ⟨c, d, d', -, -, -, rfl⟩ := step_socketCopier hstep
    refine ⟨nofun, fun d hd howner => ?_⟩
    cases hd
    cases howner

theorem serves_of_run (hlegible : Legible lib req) {es : List HttpConnectionEvent}
    (hrun : (station lib text anyStep).machine.run accepted es = some s)
    (htaken : s.fromClient <+: lib.beast.serialize req ++ more) : Serves lib text req s :=
  Machine.run_invariant (I := fun s : HttpConnection =>
    s.fromClient <+: lib.beast.serialize req ++ more → Serves lib text req s)
    (fun s e t h hstep htaken => by
      have hstep := (Machine.only_step.mp hstep).2
      exact serves_step hlegible (h ((HttpConnection.grows hstep).1.trans htaken)) hstep htaken)
    (fun _ => serves_accepted lib text req) hrun htaken

end HttpConnection

namespace RelayPath

open HttpConnection

variable {lib : Lib} {text : Response → Text} {req : Request} {w more lead : Text}
  {A : Station Char}

/-- Whatever the relays between a client and a server are (of tunnels, patient ones), and however
they interleave: as long as the server has kept the stream, the client gets a front of the texts
of its responses in the order in which they were queued, behind those of the tunnels. Each of
them answers the request with its number, and the first one answers the request that comes out
of the path. -/
theorem origin_answers (hpath : RelayPath lib text w (lib.beast.serialize req ++ more) lead A)
    (hlegible : Legible lib req) {es : List (A.Event ⊕ HttpConnectionEvent)} {a : A.State}
    {s : HttpConnection}
    (hrun : (A.join (station lib text anyStep)).machine.run (A.start, accepted) es = some (a, s))
    (htaken : A.taken a .near <+: w) {c : Session} (hsession : s.session = some c)
    (howner : c.owner = none) :
    A.put a .near <+: lead ++ texts text c.queued ∧
      (∀ q ∈ c.queued, ∃ r, c.headers[q.request]? = some r ∧ Answers lib r q.message) ∧
      ∀ q, c.queued.head? = some q → q.request = 0 ∧ Answers lib req q.message := by
  obtain ⟨hreceived, hput⟩ := hpath.conveys.attached hrun htaken
  obtain ⟨-, hserver, -⟩ := Station.join_run hrun
  have hserving := (serves_of_run hlegible hserver hreceived).serving c hsession howner
  refine ⟨hput.trans ((List.prefix_append_right_inj lead).mpr hserving.output.front),
    hserving.replies.queued, fun q hq => ?_⟩
  have hnumber : q.request = 0 := by
    have hnumbers : c.queued.map Reply.request = List.range c.queued.length :=
      hserving.core.read.numbers
    obtain ⟨rest, hrest⟩ := List.head?_eq_some_iff.mp hq
    rw [hrest, List.map_cons, List.length_cons, List.range_succ_eq_map] at hnumbers
    exact (List.cons.inj hnumbers).1
  obtain ⟨r, hr, hanswers⟩ := hserving.replies.queued q (List.mem_of_mem_head? hq)
  rw [hnumber, ← List.head?_eq_getElem?] at hr
  refine ⟨hnumber, ?_⟩
  rcases hserving.first with hfirst | ⟨hnone, -, -⟩
  · rw [Option.some.inj (hfirst.symm.trans hr)]
    exact hanswers
  · rw [hnone] at hr
    cases hr

/-- What the server answers when there are no files. -/
def originResponse : Response :=
  FileRequestHandler.handleRequest (Beast.plain []) ['.'] HttpCopier.originRequest noFiles.scan

/-- A request goes through the proxy, and a part of the response comes back. -/
def answeredRun : List (HttpConnectionEvent ⊕ HttpConnectionEvent) :=
  let request := Session.proxyRequest.text
  let rewritten := HttpCopier.originRequest.text
  [.inl (.detected request),
    .inl (.session (.headerRead Session.proxyRequest request.length noFiles))] ++
    (HttpCopier.relayRequest.take 4).map (fun e => .inl (.httpCopier e)) ++
    [.inl (.httpCopier (.shared (.wrote .unconsumed))), .inr (.detected rewritten),
      .inr (.session (.headerRead HttpCopier.originRequest rewritten.length noFiles)),
      .inr (.send 12), .inl (.httpCopier (.shared (.relay .toClient
        (.read (originResponse.text.take 12))))),
      .inl (.httpCopier (.shared (.relay .toClient (.accepted 0 12 12))))]

theorem origin_answers_request : ∃ (a s : HttpConnection) (c : Session),
    ((station proxyLib Response.text anyStep).join
      (station proxyLib Response.text anyStep)).machine.run (accepted, accepted) answeredRun =
        some (a, s) ∧
    s.session = some c ∧ a.toClient = "HTTP/1.1 404".toList ∧
    a.toClient <+: texts Response.text c.queued := by
  obtain ⟨⟨a, s⟩, hrun, htest⟩ := Machine.run_of_any
    ((station proxyLib Response.text anyStep).join
      (station proxyLib Response.text anyStep)).machine (accepted, accepted) answeredRun
    (fun (s : HttpConnection × HttpConnection) =>
      s.1.fromClient == Session.proxyRequest.text && s.1.toClient == "HTTP/1.1 404".toList &&
        s.2.session.any fun c => c.owner.isNone)
    (by decide +kernel)
  rw [Bool.and_eq_true, Bool.and_eq_true, beq_iff_eq, beq_iff_eq, Option.any_eq_true] at htest
  obtain ⟨⟨hclient, hput⟩, c, hsession, hkept⟩ := htest
  have howner : c.owner = none := Option.isNone_iff_eq_none.mp hkept
  have htaken : a.fromClient <+: Session.proxyRequest.text ++ [] := by
    rw [hclient, List.append_nil]
  have hlegible : Legible proxyLib HttpCopier.originRequest := by
    unfold Legible
    decide +kernel
  exact ⟨a, s, c, hrun, hsession, hput,
    (origin_answers (proxy_plain []) hlegible hrun htaken hsession howner).1⟩

end RelayPath

end ServerAsync
