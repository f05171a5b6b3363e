import ServerAsync.ClientSession
import ServerAsync.SessionAnswer

/-!
# A client and its server

The client of `http_client_async.hpp` against a plain session of the server: the client's
request is on its way to the server in whatever pieces, and what the server has written is
on its way to the client as the message that it is. Either side's operations may fail at
any time. Whoever is given the session's stream may put any message on its way.
-/

namespace ServerAsync

open Misc Misc.Pipeline

/-- A `session` of the client and one of the server. `sent` counts the bytes of the request
that the client's write has got out, `up` are those that have not arrived yet, and `down`
are the responses that the client has not read. The server has no session before it has
told plain from SSL. -/
structure Exchange where
  client : ClientSession Response
  sent : Nat
  up : Text
  server : Option Session
  down : List Response

/-- What happens: the completions on either side, the progress of the client's write, the
first bytes for the detector and further ones for the session, and what comes from the new
owner of the session's stream, such as the response that a copier relays. -/
inductive ExchangeEvent where
  | client (e : ClientEvent Response)
  | send (count : Nat)
  | detected (count : Nat)
  | arrive (count : Nat)
  | server (e : SessionEvent)
  | relayed (res : Response)

/-- The response that a completion puts on its way. -/
def SessionEvent.delivered : SessionEvent → List Response
  | .written q true => [q.message]
  | _ => []

def SessionEvent.isArrival : SessionEvent → Bool
  | .arrive _ => true
  | _ => false

namespace Session.OneRequest

variable {lib : Lib} {req : Request} {s s' : Session}

/-- A plain session waits for no handshake. -/
theorem not_opening (h : OneRequest lib req s) : .opening ∉ s.reads := by
  intro hop
  rcases h.phase with hwaiting | hserved
  · cases hwaiting.reads _ hop
  · rcases hserved.reads _ hop with hno | ⟨hno, -⟩ <;> cases hno

/-- What the session puts on its way answers the request. -/
theorem delivered (h : OneRequest lib req s) {e : SessionEvent} (hstep : s.step lib e = some s') :
    ∀ res ∈ e.delivered, Answers lib req res := by
  intro res hres
  cases e with
  | written q ok =>
    cases ok with
    | false => cases hres
    | true =>
      rw [List.mem_singleton.mp hres]
      obtain ⟨-, hreact⟩ := (step_eq_some lib).mp hstep
      obtain ⟨hq, -⟩ := Machine.taken hreact
      have hqueued := mem_queued_of_mem_writes h.core hq
      rcases h.phase with hwaiting | hserved
      · rw [hwaiting.queued] at hqueued
        cases hqueued
      · exact (hserved.queued q hqueued).2
  | _ => cases hres

end Session.OneRequest

namespace Exchange

variable (lib : Lib)

/-- The client's `run` has been called. -/
def start (host port target : Text) (version : Nat) : Exchange where
  client := (ClientSession.new .session).run lib.beast.versionString host port target version true
  sent := 0
  up := []
  server := none
  down := []

/-- The text of the client's request. -/
def text (s : Exchange) : Text := lib.beast.serialize s.client.req

/-- What is left on the way to the client behind one of its completions, `none` when it
cannot complete: its write is complete with the last byte of the request, and a response is
read in the order in which they were written. -/
def leaves (s : Exchange) : ClientEvent Response → Option (List Response)
  | .written _ true => if s.sent = (s.text lib).length then some s.down else none
  | .read (.ok res) => if s.down.head? = some res then some s.down.tail else none
  | _ => some s.down

/-- The reaction to an event, `none` when it cannot happen. -/
def step (s : Exchange) : ExchangeEvent → Option Exchange
  | .client e =>
    (s.leaves lib e).bind fun down =>
      (s.client.step lib.beast.versionString e).map fun c => { s with client := c, down := down }
  | .send count =>
    if .asyncWrite s.client.req ∈ s.client.ops ∧ 0 < count ∧
        s.sent + count ≤ (s.text lib).length then
      some { s with
        sent := s.sent + count
        up := s.up ++ ((s.text lib).take (s.sent + count)).drop s.sent }
    else none
  | .detected count =>
    if s.server = none ∧ 0 < count ∧ count ≤ s.up.length then
      some { s with
        server := some (Session.run .plain (s.up.take count))
        up := s.up.drop count }
    else none
  | .arrive count =>
    if 0 < count ∧ count ≤ s.up.length then
      s.server.bind fun c =>
        (c.step lib (.arrive (s.up.take count))).map fun c' =>
          { s with server := some c', up := s.up.drop count }
    else none
  | .server e =>
    if e.isArrival then none
    else
      s.server.bind fun c =>
        (c.step lib e).map fun c' => { s with server := some c', down := s.down ++ e.delivered }
  | .relayed res =>
    s.server.bind fun c =>
      if c.owner.isSome then some { s with down := s.down ++ [res] } else none

/-- Both sides as a machine. -/
def machine : Machine Exchange ExchangeEvent := ⟨step lib⟩

variable {lib}

theorem step_client {s t : Exchange} {e : ClientEvent Response} :
    s.step lib (.client e) = some t ↔ ∃ down c, s.leaves lib e = some down ∧
      s.client.step lib.beast.versionString e = some c ∧
      t = { s with client := c, down := down } := by
  constructor
  · intro hstep
    obtain ⟨down, hdown, hreact⟩ := Option.bind_eq_some_iff.mp hstep
    obtain ⟨c, hc, rfl⟩ := Option.map_eq_some_iff.mp hreact
    exact ⟨down, c, hdown, hc, rfl⟩
  · rintro ⟨down, c, hdown, hc, rfl⟩
    exact Option.bind_eq_some_iff.mpr ⟨down, hdown, Option.map_eq_some_iff.mpr ⟨c, hc, rfl⟩⟩

theorem step_arrive {s t : Exchange} {count : Nat} :
    s.step lib (.arrive count) = some t ↔ (0 < count ∧ count ≤ s.up.length) ∧
      ∃ c c', s.server = some c ∧ c.step lib (.arrive (s.up.take count)) = some c' ∧
        t = { s with server := some c', up := s.up.drop count } := by
  simp only [step, Option.ite_none_right_eq_some]
  refine and_congr_right fun _ => ?_
  constructor
  · intro hstep
    obtain ⟨c, hc, hreact⟩ := Option.bind_eq_some_iff.mp hstep
    obtain ⟨c', hc', rfl⟩ := Option.map_eq_some_iff.mp hreact
    exact ⟨c, c', hc, hc', rfl⟩
  · rintro ⟨c, c', hc, hc', rfl⟩
    exact Option.bind_eq_some_iff.mpr ⟨c, hc, Option.map_eq_some_iff.mpr ⟨c', hc', rfl⟩⟩

theorem step_server {s t : Exchange} {e : SessionEvent} :
    s.step lib (.server e) = some t ↔ e.isArrival = false ∧
      ∃ c c', s.server = some c ∧ c.step lib e = some c' ∧
        t = { s with server := some c', down := s.down ++ e.delivered } := by
  simp only [step, Option.ite_none_left_eq_some, Bool.not_eq_true]
  refine and_congr_right fun _ => ?_
  constructor
  · intro hstep
    obtain ⟨c, hc, hreact⟩ := Option.bind_eq_some_iff.mp hstep
    obtain ⟨c', hc', rfl⟩ := Option.map_eq_some_iff.mp hreact
    exact ⟨c, c', hc, hc', rfl⟩
  · rintro ⟨c, c', hc, hc', rfl⟩
    exact Option.bind_eq_some_iff.mpr ⟨c, hc, Option.map_eq_some_iff.mpr ⟨c', hc', rfl⟩⟩

theorem step_relayed {s t : Exchange} {res : Response}
    (hstep : s.step lib (.relayed res) = some t) : ∃ c, s.server = some c ∧ c.owner ≠ none := by
  obtain ⟨c, hc, hreact⟩ := Option.bind_eq_some_iff.mp hstep
  obtain ⟨howner, -⟩ := Machine.taken hreact
  exact ⟨c, hc, Option.isSome_iff_ne_none.mp howner⟩

/-! ## Whose response the client gets -/

/-- What the server has received. -/
def received (s : Exchange) : Text := (s.server.map Session.received).getD []

/-- What holds of a client with this request and its server, whatever fails. -/
structure Inv (lib : Lib) (req : Request) (s : Exchange) : Prop where
  started : s.client.started = true
  req_eq : s.client.req = req
  sent_le : s.sent ≤ (lib.beast.serialize req).length
  bytes : s.received ++ s.up = (lib.beast.serialize req).take s.sent
  server : ∀ c, s.server = some c → Session.OneRequest lib req c
  kept : ∀ c, s.server = some c → c.owner = none
  down : ∀ res ∈ s.down, Answers lib req res
  settled : ∀ res, .ok res ∈ s.client.settlements → Answers lib req res

theorem inv_start (lib : Lib) (host port target : Text) (version : Nat) :
    Inv lib (ClientSession.request lib.beast.versionString host target version)
      (start lib host port target version) := by
  refine ⟨rfl, rfl, Nat.zero_le _, List.take_zero.symm, fun c hc => ?_, fun c hc => ?_,
    fun res hres => ?_, fun res hres => ?_⟩
  · cases hc
  · cases hc
  · cases hres
  · cases hres

/-- Behind its `run` a client keeps its request, and gets a response by reading it. -/
theorem client_step {versionString : Text} {c c' : ClientSession Response}
    {e : ClientEvent Response} (hstarted : c.started = true)
    (hstep : c.step versionString e = some c') :
    c'.started = true ∧ c'.req = c.req ∧
      ∀ res, .ok res ∈ c'.settlements → .ok res ∈ c.settlements ∨ e = .read (.ok res) := by
  cases e with
  | run host port target version hostNameSet =>
    obtain ⟨hfresh, -⟩ := Machine.taken hstep
    rw [hstarted] at hfresh
    cases hfresh
  | resolved host port ok =>
    obtain ⟨-, rfl⟩ := Machine.taken hstep
    cases ok <;> exact ⟨hstarted, rfl, fun _ h => Or.inl h⟩
  | connected ok =>
    obtain ⟨-, rfl⟩ := Machine.taken hstep
    cases ok with
    | false => exact ⟨hstarted, rfl, fun _ h => Or.inl h⟩
    | true =>
      simp only [ClientSession.onConnect, if_true]
      split <;> exact ⟨hstarted, rfl, fun _ h => Or.inl h⟩
  | handshaken ok =>
    obtain ⟨-, rfl⟩ := Machine.taken hstep
    cases ok <;> exact ⟨hstarted, rfl, fun _ h => Or.inl h⟩
  | written req ok =>
    obtain ⟨-, rfl⟩ := Machine.taken hstep
    cases ok <;> exact ⟨hstarted, rfl, fun _ h => Or.inl h⟩
  | read result =>
    obtain ⟨-, rfl⟩ := Machine.taken hstep
    have hsettled : ∀ res, .ok res ∈ c.settlements ++ [result] →
        .ok res ∈ c.settlements ∨ ClientEvent.read result = .read (.ok res) := by
      intro res hres
      rcases List.mem_append.mp hres with hold | hnew
      · exact Or.inl hold
      · exact Or.inr (congrArg ClientEvent.read (List.mem_singleton.mp hnew).symm)
    cases result with
    | error what => exact ⟨hstarted, rfl, hsettled⟩
    | ok res =>
      simp only [ClientSession.onRead]
      split <;> exact ⟨hstarted, rfl, hsettled⟩
  | shutDown ok =>
    obtain ⟨-, rfl⟩ := Machine.taken hstep
    exact ⟨hstarted, rfl, fun _ h => Or.inl h⟩

/-- What a client leaves on its way was there, and so was what it reads. -/
theorem leaves_mem {s : Exchange} {e : ClientEvent Response} {down : List Response}
    (h : s.leaves lib e = some down) :
    (∀ res ∈ down, res ∈ s.down) ∧ ∀ res, e = .read (.ok res) → res ∈ s.down := by
  unfold leaves at h
  split at h
  · obtain ⟨-, rfl⟩ := Machine.taken h
    exact ⟨fun _ hres => hres, fun res he => by cases he⟩
  · obtain ⟨hhead, rfl⟩ := Machine.taken h
    refine ⟨fun _ hres => List.mem_of_mem_tail hres, fun res he => ?_⟩
    cases he
    exact List.mem_of_mem_head? hhead
  · rename_i hread
    cases Option.some.inj h
    exact ⟨fun _ hres => hres, fun res he => absurd he (hread res)⟩

/-- What has been sent, and the next bytes of the request. -/
theorem take_sent (whole : Text) (sent count : Nat) :
    whole.take sent ++ (whole.take (sent + count)).drop sent = whole.take (sent + count) := by
  have hsplit := List.take_append_drop sent (whole.take (sent + count))
  rwa [List.take_take, min_eq_left (Nat.le_add_right sent count)] at hsplit

theorem inv_step {req : Request} (hlegible : Legible lib req) (hhandler : ForHandler lib req)
    {s t : Exchange} {e : ExchangeEvent} (h : Inv lib req s) (hstep : s.step lib e = some t) :
    Inv lib req t := by
  cases e with
  | client e =>
    obtain ⟨down, c, hdown, hreact, rfl⟩ := step_client.mp hstep
    obtain ⟨hstarted, hreq, hsettled⟩ := client_step h.started hreact
    obtain ⟨hkept, hread⟩ := leaves_mem hdown
    refine ⟨hstarted, hreq.trans h.req_eq, h.sent_le, h.bytes, h.server, h.kept,
      fun res hres => h.down res (hkept res hres), fun res hres => ?_⟩
    rcases hsettled res hres with hold | hnew
    · exact h.settled res hold
    · exact h.down res (hread res hnew)
  | send count =>
    obtain ⟨⟨-, -, hle⟩, rfl⟩ := Machine.taken hstep
    have htext : s.text lib = lib.beast.serialize req := congrArg _ h.req_eq
    rw [htext] at hle
    refine ⟨h.started, h.req_eq, hle, ?_, h.server, h.kept, h.down, h.settled⟩
    change s.received ++ (s.up ++ ((s.text lib).take (s.sent + count)).drop s.sent) = _
    rw [← List.append_assoc, h.bytes, htext, take_sent]
  | detected count =>
    obtain ⟨⟨hnone, -, -⟩, rfl⟩ := Machine.taken hstep
    have hbytes : s.up = (lib.beast.serialize req).take s.sent := by
      have hbytes := h.bytes
      rwa [received, hnone, Option.map_none, Option.getD_none, List.nil_append] at hbytes
    refine ⟨h.started, h.req_eq, h.sent_le, ?_, fun c hc => ?_, fun c hc => ?_, h.down,
      h.settled⟩
    · change s.up.take count ++ s.up.drop count = _
      rw [List.take_append_drop, hbytes]
    · cases hc
      refine Session.oneRequest_run lib (List.IsPrefix.trans (List.take_prefix count s.up) ?_)
      rw [hbytes]
      exact List.take_prefix ..
    · cases hc
      rfl
  | arrive count =>
    obtain ⟨-, c, c', hc, hreact, rfl⟩ := step_arrive.mp hstep
    have hreceived : c'.received = c.received ++ s.up.take count := by
      obtain ⟨-, harrive⟩ := (Session.step_eq_some lib).mp hreact
      obtain ⟨-, rfl⟩ := Machine.taken harrive
      rfl
    have hbytes : c'.received ++ s.up.drop count = (lib.beast.serialize req).take s.sent := by
      rw [hreceived, List.append_assoc, List.take_append_drop, ← h.bytes, received, hc,
        Option.map_some, Option.getD_some]
    refine ⟨h.started, h.req_eq, h.sent_le, hbytes, fun d hd => ?_, fun d hd => ?_, h.down,
      h.settled⟩
    · cases hd
      refine Session.oneRequest_step hlegible (h.server c hc) hreact ?_
      exact List.IsPrefix.trans ⟨_, hbytes⟩ (List.take_prefix ..)
    · cases hd
      exact (h.server c hc).owner_step hlegible hhandler (h.kept c hc) hreact
  | server e =>
    obtain ⟨hno, c, c', hc, hreact, rfl⟩ := step_server.mp hstep
    have hone := h.server c hc
    have hreceived : c'.received = c.received := by
      refine Session.received_unchanged hreact (fun bytes he => ?_) fun hopening => ?_
      · rw [he] at hno
        cases hno
      · exact hone.not_opening hopening
    have hone' : Session.OneRequest lib req c' :=
      Session.oneRequest_step hlegible hone hreact (hreceived ▸ hone.received)
    refine ⟨h.started, h.req_eq, h.sent_le, ?_, fun d hd => ?_, fun d hd => ?_,
      fun res hres => ?_, h.settled⟩
    · change c'.received ++ s.up = _
      rw [hreceived, ← h.bytes, received, hc, Option.map_some, Option.getD_some]
    · cases hd
      exact hone'
    · cases hd
      exact hone.owner_step hlegible hhandler (h.kept c hc) hreact
    · rcases List.mem_append.mp hres with hold | hnew
      · exact h.down res hold
      · exact hone.delivered hreact res hnew
  | relayed res =>
    obtain ⟨c, hc, howner⟩ := step_relayed hstep
    exact absurd (h.kept c hc) howner

theorem inv_run {req : Request} (hlegible : Legible lib req) (hhandler : ForHandler lib req)
    {s t : Exchange} {es : List ExchangeEvent} (h : Inv lib req s)
    (hrun : (machine lib).run s es = some t) : Inv lib req t :=
  Machine.run_invariant (I := Inv lib req)
    (fun _ _ _ hs hstep => inv_step hlegible hhandler hs hstep) h hrun

/-- Whatever fails, a response that the client gets for a request to the handler answers its
own request, and the server dispatches nothing else. -/
theorem response_is_answer {host port target : Text} {version : Nat}
    (hlegible : Legible lib (ClientSession.request lib.beast.versionString host target version))
    (hhandler : ForHandler lib
      (ClientSession.request lib.beast.versionString host target version))
    {s : Exchange} {es : List ExchangeEvent}
    (hrun : (machine lib).run (start lib host port target version) es = some s) :
    (∀ res, .ok res ∈ s.client.settlements → Answers lib
        (ClientSession.request lib.beast.versionString host target version) res) ∧
      ∀ c, s.server = some c → c.dispatched <+:
        [ClientSession.request lib.beast.versionString host target version] := by
  have h := inv_run hlegible hhandler (inv_start lib host port target version) hrun
  refine ⟨h.settled, fun c hc => ?_⟩
  rcases (h.server c hc).phase with hwaiting | hserved
  · rw [hwaiting.dispatched]
    exact List.nil_prefix
  · exact hserved.dispatched

/-- The request of a client for a file. -/
def fileRequest : Request := ClientSession.request "Boost.Beast".toList ['h'] ['/', 'a'] 11

/-- A client asks for a file that does not exist, and its request arrives in two pieces. -/
def oneExchange : List ExchangeEvent :=
  [.client (.resolved ['h'] ['1'] true), .client (.connected true),
    .send fileRequest.text.length, .client (.written fileRequest true), .detected 3,
    .arrive (fileRequest.text.length - 3),
    .server (.headerRead fileRequest fileRequest.text.length noFiles),
    .server (.written ⟨0, FileRequestHandler.handleRequest (Beast.plain []) ['.'] fileRequest
      noFiles.scan⟩ true),
    .client (.read (.ok (FileRequestHandler.handleRequest (Beast.plain []) ['.'] fileRequest
      noFiles.scan)))]

theorem file_legible : Legible (Lib.plain [fileRequest]) fileRequest := by
  unfold Legible
  decide +kernel

theorem file_forHandler : ForHandler (Lib.plain [fileRequest]) fileRequest := by
  decide +kernel

theorem response_is_answer_file : ∃ s res,
    (machine (Lib.plain [fileRequest])).run
      (start (Lib.plain [fileRequest]) ['h'] ['1'] ['/', 'a'] 11) oneExchange = some s ∧
    .ok res ∈ s.client.settlements ∧ Answers (Lib.plain [fileRequest]) fileRequest res := by
  obtain ⟨s, hrun, htest⟩ := Machine.run_of_any (machine (Lib.plain [fileRequest]))
    (start (Lib.plain [fileRequest]) ['h'] ['1'] ['/', 'a'] 11) oneExchange
    (fun s => s.client.settlements.any fun result => result.toOption.isSome) (by decide +kernel)
  obtain ⟨result, hresult, hok⟩ := List.any_eq_true.mp htest
  cases result with
  | error what => cases hok
  | ok res =>
    exact ⟨s, res, hrun, hresult,
      (response_is_answer file_legible file_forHandler hrun).1 res hresult⟩

end Exchange

end ServerAsync
