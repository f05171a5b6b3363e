import ServerAsync.OriginAnswers
import ServerAsync.RelayDelivery

/-!
# One request through a path of relays

The client sends one request without a body, the path of relays makes another one of it, and
the server at its end answers that. As long as nothing fails, and the client waits for the 200
responses of the tunnels, all of them come to rest, and then the client has the whole text of
one response, which answers the request.
-/

namespace ServerAsync

open Misc Misc.Pipeline

/-- A session that replies to its requests keeps its stream. -/
theorem Session.owner_replying {lib : Lib} {s s' : Session} {e : SessionEvent}
    (hreply : ∀ req bytes files, e = .headerRead req bytes files →
      ∃ r, route lib req files = .reply r)
    (hstep : s.step lib e = some s') : s'.owner = s.owner := by
  rcases Session.owner_cases hstep with hsame | ⟨-, req, bytes, files, rfl, hno⟩
  · exact hsame
  · obtain ⟨r, hr⟩ := hreply req bytes files rfl
    exact absurd (forHandler_of_reply hr) hno

namespace HttpConnection

variable {lib : Lib} {text : Response → Text} {req : Request} {s t : HttpConnection}
  {e : HttpConnectionEvent}

/-- The steps of a server's connection in which nothing fails. -/
def serving (_ : HttpConnection) : HttpConnectionEvent → Bool
  | .session (.arrive bytes) => !bytes.isEmpty
  | .session e => (ExchangeEvent.server e).smooth
  | _ => true

theorem smooth_of_serving {e : SessionEvent} (h : serving s (.session e) = true) :
    (ExchangeEvent.server e).smooth = true := by
  cases e with
  | arrive bytes => rfl
  | _ => exact h

/-- How far the connection of a server is that puts one response. -/
inductive Replying (text : Response → Text) (res : Response) (s : HttpConnection) : Prop
  | writing (c : Session) (number : Nat) (hsession : s.session = some c) (howner : c.owner = none)
    (hqueue : c.responseQueue = [⟨number, res⟩]) (hops : c.InFlight [] [⟨number, res⟩])
    (hpart : s.part ≤ (text res).length) (hput : s.toClient = (text res).take s.part)
  | written (c : Session) (hsession : s.session = some c) (howner : c.owner = none)
    (hops : c.InFlight [] []) (hput : s.toClient = text res)

theorem Replying.front {res : Response} (h : Replying text res s) : s.toClient <+: text res := by
  cases h with
  | writing c number hsession howner hqueue hops hpart hput =>
    rw [hput]
    exact List.take_prefix _ _
  | written c hsession howner hops hput => rw [hput]

/-- How far the connection of a server is that gets one request. -/
inductive OriginAt (lib : Lib) (text : Response → Text) (req : Request) (s : HttpConnection) :
    Prop
  | detecting (hsession : s.session = none) (hreceived : s.fromClient = [])
    (hput : s.toClient = []) (hpart : s.part = 0)
  | waiting (c : Session) (hsession : s.session = some c) (howner : c.owner = none)
    (hone : Session.OneRequest lib req c) (hwaiting : c.Waiting)
    (hops : c.InFlight [.header] []) (hreceived : s.fromClient = c.received)
    (hput : s.toClient = []) (hpart : s.part = 0)
  | replying (res : Response) (hanswers : Answers lib req res) (hreplying : Replying text res s)

/-- What is done of detecting, reading and writing. -/
def stage (s : HttpConnection) : Nat :=
  (s.session.map fun c => 3 - (2 * c.reads.length + c.writes.length)).getD 0

theorem stage_le (s : HttpConnection) : s.stage ≤ 3 := by
  unfold stage
  cases s.session with
  | none => exact Nat.zero_le 3
  | some c => exact Nat.sub_le _ _

theorem stage_of_inFlight {c : Session} {reads : List (Read Request)}
    {writes : List (Reply Response)} (hsession : s.session = some c)
    (hops : c.InFlight reads writes) : s.stage = 3 - (2 * reads.length + writes.length) := by
  rw [stage, hsession, Option.map_some, Option.getD_some, hops.reads_eq, hops.writes_eq]

/-- What a step of the server adds. -/
def Served (s t : HttpConnection) : Prop :=
  s.through + s.stage < t.through + t.stage ∧ t.fromRemote = s.fromRemote ∧
    t.toRemote = s.toRemote

/-- An event of a session that waits for its request. -/
theorem waiting_served {c c' : Session} (hlegible : Legible lib req)
    (hreply : ∀ files, ∃ r, route lib req files = .reply r) (hsession : s.session = some c)
    (howner : c.owner = none) (hone : Session.OneRequest lib req c) (hwaiting : c.Waiting)
    (hops : c.InFlight [.header] []) (hreceived : s.fromClient = c.received)
    (hput : s.toClient = []) (hpart : s.part = 0) {e : SessionEvent}
    (hserving : serving s (.session e) = true) (hstep : c.step lib e = some c')
    (htaken : (s.after e c').fromClient <+: lib.beast.serialize req) :
    OriginAt lib text req (s.after e c') ∧ Served s (s.after e c') := by
  have hread : ∀ req' bytes, lib.beast.parseHeader c.buffer = .done req' bytes → req' = req := by
    intro req' bytes hparse
    refine (Session.parse_legible hlegible ?_ hparse).1
    rw [hwaiting.buffer]
    exact hone.received
  have hsmooth := smooth_of_serving hserving
  have howner' : c'.owner = none := by
    refine (Session.owner_replying ?_ hstep).trans howner
    rintro req' bytes files rfl
    obtain ⟨-, hreact⟩ := (Session.step_eq_some lib).mp hstep
    rw [hread req' bytes (Machine.taken hreact).1.2]
    exact hreply files
  have hstage := stage_of_inFlight hsession hops
  rcases Session.waiting_step hone.core hwaiting hops hreply hread hsmooth hstep with
    ⟨harrival, hwaiting', hops'⟩ | ⟨q, harrival, -, hheaders, hqueue, hops'⟩
  · cases e with
    | arrive bytes =>
      obtain ⟨-, hreact⟩ := (Session.step_eq_some lib).mp hstep
      obtain ⟨-, rfl⟩ := Machine.taken hreact
      have hmore : s.fromClient ++ bytes = c.received ++ bytes := by rw [hreceived]
      refine ⟨.waiting _ rfl howner' (Session.oneRequest_step hlegible hone hstep ?_) hwaiting'
        hops' hmore hput hpart, ?_, rfl, rfl⟩
      · rw [show (c.received ++ bytes : Text) = s.fromClient ++ bytes from hmore.symm]
        exact htaken
      · have hpos : 0 < bytes.length := by
          cases bytes with
          | nil => cases hserving
          | cons b bytes => exact Nat.succ_pos _
        have hstage' := stage_of_inFlight (s := s.after (.arrive bytes) _) rfl hops'
        rw [hstage, hstage']
        change s.through + _ < 2 * (s.fromClient ++ bytes).length + 2 * s.fromRemote.length +
          s.toClient.length + s.toRemote.length + _
        rw [through, List.length_append]
        omega
    | _ => cases harrival
  · have hnone : e.arrived = [] := by
      cases e with
      | arrive bytes => cases harrival
      | _ => rfl
    have hnotWritten : e.isWritten = false := by
      cases e with
      | written q' ok =>
        obtain ⟨-, hreact⟩ := (Session.step_eq_some lib).mp hstep
        have hq := (Machine.taken hreact).1
        rw [hops.writes_eq] at hq
        cases hq
      | _ => rfl
    have hsame : c'.received = c.received :=
      Session.received_unchanged hstep (fun bytes he => by subst he; cases harrival)
        hone.not_opening
    have hone' : Session.OneRequest lib req c' := by
      refine Session.oneRequest_step hlegible hone hstep ?_
      rw [hsame]
      exact hone.received
    have hserved : Session.Served lib req c' := by
      refine hone'.phase.resolve_left fun hno => ?_
      rw [hno.headers] at hheaders
      cases hheaders
    have hq : q ∈ c'.queued := by
      refine Session.mem_queued_of_mem_writes hone'.core ?_
      rw [hops'.writes_eq]
      exact List.mem_cons_self
    have hpart' : (s.after e c').part = 0 := by
      change (if e.isWritten then 0 else s.part) = 0
      rw [hnotWritten, if_neg Bool.false_ne_true, hpart]
    refine ⟨.replying q.message (hserved.queued q hq).2
      (.writing c' q.request rfl howner' hqueue hops' ?_ ?_), ?_, rfl, rfl⟩
    · rw [hpart']
      exact Nat.zero_le _
    · rw [hpart', List.take_zero]
      exact hput
    · have hstage' := stage_of_inFlight (s := s.after e c') rfl hops'
      rw [hstage, hstage']
      change s.through + _ < 2 * (s.fromClient ++ e.arrived).length + 2 * s.fromRemote.length +
        s.toClient.length + s.toRemote.length + _
      rw [hnone, List.append_nil]
      exact Nat.lt_succ_self _

/-- An event of a session whose response is being written. -/
theorem Replying.session {res : Response} {c c' : Session} {number : Nat}
    (hsession : s.session = some c) (howner : c.owner = none)
    (hqueue : c.responseQueue = [⟨number, res⟩]) (hops : c.InFlight [] [⟨number, res⟩])
    (hput : s.toClient = (text res).take s.part) {e : SessionEvent}
    (hserving : serving s (.session e) = true) (hmay : s.MayComplete text e)
    (hstep : c.step lib e = some c') :
    Replying text res (s.after e c') ∧ Served s (s.after e c') := by
  obtain ⟨harrival, hdelivered, -, hops'⟩ :=
    Session.writing_step hops hqueue (smooth_of_serving hserving) hstep
  have howner' : c'.owner = none := by
    refine (Session.owner_replying ?_ hstep).trans howner
    rintro req' bytes files rfl
    cases hdelivered
  have hnone : e.arrived = [] := by
    cases e with
    | arrive bytes => cases harrival
    | _ => rfl
  have hall : s.toClient = text res := by
    cases e with
    | written q ok =>
      cases ok with
      | false => cases hdelivered
      | true =>
        have hmessage : q.message = res := (List.cons.inj hdelivered).1
        rw [hput, show s.part = (text q.message).length from hmay, hmessage, List.take_length]
    | _ => cases hdelivered
  refine ⟨.written c' rfl howner' hops' hall, ?_, rfl, rfl⟩
  have hstage := stage_of_inFlight hsession hops
  have hstage' := stage_of_inFlight (s := s.after e c') rfl hops'
  rw [hstage, hstage']
  change s.through + _ < 2 * (s.fromClient ++ e.arrived).length + 2 * s.fromRemote.length +
    s.toClient.length + s.toRemote.length + _
  rw [hnone, List.append_nil]
  exact Nat.lt_succ_self _

theorem Replying.step {res : Response} (h : Replying text res s) (hserving : serving s e = true)
    (hstep : s.step lib text e = some t) : Replying text res t ∧ Served s t := by
  obtain ⟨c, hsession, howner⟩ : ∃ c, s.session = some c ∧ c.owner = none := by
    cases h with
    | writing c number hsession howner => exact ⟨c, hsession, howner⟩
    | written c hsession howner => exact ⟨c, hsession, howner⟩
  cases e with
  | detected bytes =>
    have hnone := (Machine.taken hstep).1.1
    rw [hsession] at hnone
    cases hnone
  | session e =>
    obtain ⟨c', c'', hc', hmay, hreact, rfl⟩ := step_session.mp hstep
    cases h with
    | writing c₀ number hc howner hqueue hops hpart hput =>
      cases hc.symm.trans hc'
      exact Replying.session hc howner hqueue hops hput hserving hmay hreact
    | written c₀ hc howner hops =>
      cases hc.symm.trans hc'
      exact (hops.stuck hreact).elim
  | send count =>
    obtain ⟨c', hc', hsend⟩ := Option.bind_eq_some_iff.mp hstep
    obtain ⟨q, hq, hsend⟩ := Option.bind_eq_some_iff.mp hsend
    obtain ⟨⟨hpos, hle⟩, rfl⟩ := Machine.taken hsend
    cases h with
    | writing c₀ number hc howner hqueue hops hpart hput =>
      cases hc.symm.trans hc'
      rw [hops.writes_eq] at hq
      cases hq
      change s.part + count ≤ (text res).length at hle
      refine ⟨.writing c' number hc howner hqueue hops hle ?_, ?_, rfl, rfl⟩
      · change s.toClient ++ _ = (text res).take (s.part + count)
        rw [hput, List.take_add]
      · have hcount : (((text res).drop s.part).take count).length = count := by
          rw [List.length_take, List.length_drop]
          omega
        change s.through + s.stage < 2 * s.fromClient.length + 2 * s.fromRemote.length +
          (s.toClient ++ ((text res).drop s.part).take count).length + s.toRemote.length +
          s.stage
        rw [List.length_append, hcount, through]
        omega
    | written c₀ hc howner hops =>
      cases hc.symm.trans hc'
      rw [hops.writes_eq] at hq
      cases hq
  | httpCopier e =>
    obtain ⟨c', d, d', hc', howner', -, -⟩ := step_httpCopier hstep
    cases hsession.symm.trans hc'
    cases howner.symm.trans howner'
  | socketCopier e =>
    obtain ⟨c', d, d', hc', howner', -, -⟩ := step_socketCopier hstep
    cases hsession.symm.trans hc'
    cases howner.symm.trans howner'

theorem OriginAt.step (hlegible : Legible lib req)
    (hreply : ∀ files, ∃ r, route lib req files = .reply r) (h : OriginAt lib text req s)
    (hserving : serving s e = true) (hstep : s.step lib text e = some t)
    (htaken : t.fromClient <+: lib.beast.serialize req) :
    OriginAt lib text req t ∧ Served s t := by
  cases h with
  | replying res hanswers hreplying =>
    exact (hreplying.step hserving hstep).imp_left fun h => .replying res hanswers h
  | detecting hsession hreceived hput hpart =>
    cases e with
    | detected bytes =>
      obtain ⟨-, rfl⟩ := Machine.taken hstep
      have hfront : s.fromClient ++ bytes = bytes := by rw [hreceived, List.nil_append]
      refine ⟨.waiting (Session.run .plain bytes) rfl rfl (Session.oneRequest_run lib ?_)
        ⟨rfl, rfl, rfl, rfl, fun op hop => List.mem_singleton.mp hop⟩ ⟨rfl, rfl, rfl, rfl, rfl⟩
        hfront hput hpart, ?_, rfl, rfl⟩
      · rw [← hfront]
        exact htaken
      · have hstage : s.stage = 0 := by rw [stage, hsession, Option.map_none, Option.getD_none]
        change s.through + s.stage < 2 * (s.fromClient ++ bytes).length +
          2 * s.fromRemote.length + s.toClient.length + s.toRemote.length + 1
        rw [hstage, through, List.length_append]
        omega
    | session e =>
      obtain ⟨c, c', hc, -, -, -⟩ := step_session.mp hstep
      cases hsession.symm.trans hc
    | send count =>
      obtain ⟨c, q, hc, -, -, -⟩ := step_send hstep
      cases hsession.symm.trans hc
    | httpCopier e =>
      obtain ⟨c, d, d', hc, -, -, -⟩ := step_httpCopier hstep
      cases hsession.symm.trans hc
    | socketCopier e =>
      obtain ⟨c, d, d', hc, -, -, -⟩ := step_socketCopier hstep
      cases hsession.symm.trans hc
  | waiting c hsession howner hone hwaiting hops hreceived hput hpart =>
    cases e with
    | detected bytes =>
      have hnone := (Machine.taken hstep).1.1
      rw [hsession] at hnone
      cases hnone
    | session e =>
      obtain ⟨c', c'', hc, -, hreact, rfl⟩ := step_session.mp hstep
      cases hsession.symm.trans hc
      exact waiting_served hlegible hreply hsession howner hone hwaiting hops hreceived hput hpart
        hserving hreact htaken
    | send count =>
      obtain ⟨c', q, hc, hq, -, -⟩ := step_send hstep
      cases hsession.symm.trans hc
      rw [hops.writes_eq] at hq
      cases hq
    | httpCopier e =>
      obtain ⟨c', d, d', hc, howner', -, -⟩ := step_httpCopier hstep
      cases hsession.symm.trans hc
      cases howner.symm.trans howner'
    | socketCopier e =>
      obtain ⟨c', d, d', hc, howner', -, -⟩ := step_socketCopier hstep
      cases hsession.symm.trans hc
      cases howner.symm.trans howner'

variable (lib) in
/-- A response that has not been put with its last byte can go on. -/
theorem Replying.goesOn {res : Response} (h : Replying text res s) : s.toClient = text res ∨
    ∃ e t, serving s e = true ∧ s.step lib text e = some t ∧ t.fromClient = s.fromClient ∧
      t.fromRemote = s.fromRemote := by
  cases h with
  | written c hsession howner hops hput => exact Or.inl hput
  | writing c number hsession howner hqueue hops hpart hput =>
    right
    have hhead : c.writes.head? = some ⟨number, res⟩ := by rw [hops.writes_eq, List.head?_cons]
    rcases Nat.lt_or_ge s.part (text res).length with hlt | hge
    · refine ⟨.send 1, s.sent (text res) 1, rfl, ?_, rfl, rfl⟩
      rw [HttpConnection.step, hsession, Option.bind_some, hhead, Option.bind_some,
        if_pos ⟨Nat.one_pos, hlt⟩]
    · have hstep : ∃ c', c.step lib (.written ⟨number, res⟩ true) = some c' :=
        ⟨_, (Session.step_eq_some lib).mpr ⟨hops.fate, if_pos (List.mem_of_mem_head? hhead)⟩⟩
      obtain ⟨c', hstep⟩ := hstep
      exact ⟨.session (.written ⟨number, res⟩ true), _, rfl,
        step_session.mpr ⟨c, c', hsession, Nat.le_antisymm hpart hge, hstep, rfl⟩,
        List.append_nil _, rfl⟩

variable (text) in
/-- A connection that has not put its response can go on once it can take all of the
request. -/
theorem OriginAt.goesOn (hlegible : Legible lib req) (h : OriginAt lib text req s)
    (hfront : s.fromClient <+: lib.beast.serialize req) :
    (∃ res, Answers lib req res ∧ s.toClient = text res) ∨ ∃ e t, serving s e = true ∧
      s.step lib text e = some t ∧ t.fromClient <+: lib.beast.serialize req ∧
      t.fromRemote = s.fromRemote := by
  cases h with
  | replying res hanswers hreplying =>
    rcases hreplying.goesOn lib with hput | ⟨e, t, hserving, hstep, hsame, hremote⟩
    · exact Or.inl ⟨res, hanswers, hput⟩
    · exact Or.inr ⟨e, t, hserving, hstep, hsame ▸ hfront, hremote⟩
  | detecting hsession hreceived hput hpart =>
    have hnone : s.session.isNone = true := by rw [hsession, Option.isNone_none]
    have hne : lib.beast.serialize req ≠ [] :=
      List.ne_nil_of_length_pos (lib.beast.bytes_le _ _ _ hlegible).1
    refine Or.inr ⟨.detected (lib.beast.serialize req), _, rfl, if_pos ⟨hnone, hne⟩, ?_, rfl⟩
    change s.fromClient ++ _ <+: _
    rw [hreceived, List.nil_append]
  | waiting c hsession howner hone hwaiting hops hreceived hput hpart =>
    right
    have hlive {e : SessionEvent} {c' : Session} (hreact : c.react lib e = some c') :
        c.step lib e = some c' := (Session.step_eq_some lib).mpr ⟨hops.fate, hreact⟩
    obtain ⟨rest, hrest⟩ := hfront
    cases rest with
    | cons b rest =>
      have hany : c.reads.any (· ≠ .opening) = true := by
        rw [hops.reads_eq]
        rfl
      refine ⟨.session (.arrive (b :: rest)), _, rfl,
        step_session.mpr ⟨c, _, hsession, trivial, hlive (if_pos hany), rfl⟩, ?_, rfl⟩
      change s.fromClient ++ b :: rest <+: _
      rw [hrest]
    | nil =>
      -- all of the request has been received
      rw [List.append_nil] at hrest
      have hheader : .header ∈ c.reads := by
        rw [hops.reads_eq]
        exact List.mem_cons_self
      have hparse : lib.beast.parseHeader c.buffer =
          .done req (lib.beast.serialize req).length := by
        rw [hwaiting.buffer, ← hreceived, hrest]
        exact hlegible
      refine ⟨.session (.headerRead req _ noFiles), _, rfl,
        step_session.mpr ⟨c, _, hsession, trivial, hlive (if_pos ⟨hheader, hparse⟩), rfl⟩, ?_,
        rfl⟩
      change s.fromClient ++ [] <+: _
      rw [List.append_nil, hrest]

/-- A step of a server's station. -/
theorem serving_step {s t : HttpConnection} {e : HttpConnectionEvent} :
    ((station lib text anyStep).only serving).machine.step s e = some t ↔
      serving s e = true ∧ s.step lib text e = some t := by
  refine Machine.only_step.trans (and_congr_right fun _ => ?_)
  exact Machine.only_step.trans (and_iff_right rfl)

/-- What holds of a server's connection in every run. -/
structure OriginFlow (lib : Lib) (text : Response → Text) (req : Request) (s : HttpConnection) :
    Prop where
  place : OriginAt lib text req s
  fromRemote : s.fromRemote = []
  toRemote : s.toRemote = []

theorem OriginFlow.step (hlegible : Legible lib req)
    (hreply : ∀ files, ∃ r, route lib req files = .reply r) (h : OriginFlow lib text req s)
    (hserving : serving s e = true) (hstep : s.step lib text e = some t)
    (htaken : t.fromClient <+: lib.beast.serialize req) :
    OriginFlow lib text req t ∧ s.through + s.stage < t.through + t.stage := by
  obtain ⟨hplace, hlt, hfrom, hto⟩ := h.place.step hlegible hreply hserving hstep htaken
  exact ⟨⟨hplace, hfrom.trans h.fromRemote, hto.trans h.toRemote⟩, hlt⟩

theorem originFlow_accepted : OriginFlow lib text req accepted :=
  ⟨.detecting rfl rfl rfl rfl, rfl, rfl⟩

theorem originFlow_of_run (hlegible : Legible lib req)
    (hreply : ∀ files, ∃ r, route lib req files = .reply r) {es : List HttpConnectionEvent}
    (hrun : ((station lib text anyStep).only serving).machine.run accepted es = some s)
    (htaken : s.fromClient <+: lib.beast.serialize req) :
    OriginFlow lib text req s ∧ es.length ≤ 2 * (lib.beast.serialize req).length +
      s.toClient.length + 3 := by
  have hflow := Machine.run_invariant (I := fun s : HttpConnection =>
    s.fromClient <+: lib.beast.serialize req → OriginFlow lib text req s)
    (fun s e t h hstep htaken => by
      obtain ⟨hserving, hstep⟩ := serving_step.mp hstep
      exact ((h ((HttpConnection.grows hstep).1.trans htaken)).step hlegible hreply hserving hstep
        htaken).1)
    (fun _ => originFlow_accepted) hrun htaken
  have hlength := Station.length_le_load (I := fun s : HttpConnection =>
      OriginFlow lib text req s)
    (A := (station lib text anyStep).only serving) stage
    (fun s e t h hstep htaken => h.step hlegible hreply (serving_step.mp hstep).1
      (serving_step.mp hstep).2 htaken) originFlow_accepted hrun htaken
  refine ⟨hflow, ?_⟩
  change es.length + _ ≤ s.through + s.stage at hlength
  have hstage := s.stage_le
  have hle := htaken.length_le
  rw [through, hflow.fromRemote, hflow.toRemote] at hlength
  simp only [List.length_nil] at hlength
  omega

end HttpConnection

namespace SoundPath

open HttpConnection

variable {lib : Lib} {text : Response → Text} {req : Request} {w lead : Text} {A : Station Char}

/-- A path with a server at its end, in which nothing fails. -/
abbrev withServer (lib : Lib) (text : Response → Text) (A : Station Char) : Station Char :=
  A.join ((station lib text anyStep).only serving)

/-- What holds of a run of the path and the server. -/
theorem run_bounded (hpath : SoundPath lib text w (lib.beast.serialize req) lead A)
    (hlegible : Legible lib req) (hreply : ∀ files, ∃ r, route lib req files = .reply r) :
    ∃ limit : Nat → Nat, Monotone limit ∧ ∀ es a s,
      (withServer lib text A).machine.run (A.start, accepted) es = some (a, s) →
      A.taken a .near <+: w → OriginFlow lib text req s ∧
        es.length ≤ limit s.toClient.length := by
  obtain ⟨limit, hmono, hlimit⟩ := hpath.relays.ends
  refine ⟨fun k => limit k + (2 * (lib.beast.serialize req).length + k + 3), fun j k hjk =>
    Nat.add_le_add (hmono hjk) (by omega), fun es a s hrun htaken => ?_⟩
  obtain ⟨hrunA, hserver, hwired⟩ := Station.join_run hrun
  obtain ⟨hreceived, -⟩ := hpath.relays.conveys.attached hrun htaken
  obtain ⟨hflow, hlength⟩ := originFlow_of_run hlegible hreply hserver hreceived
  have hback : (A.taken a .far).length ≤ s.toClient.length := hwired.back.length_le
  have hle := (hlimit _ _ hrunA htaken).trans (hmono hback)
  have hsum : es.length = _ := length_filterMap_sum (es : List (A.Event ⊕ HttpConnectionEvent))
  refine ⟨hflow, ?_⟩
  rw [hsum]
  exact Nat.add_le_add hle hlength

/-- A server that puts a response goes on to put this one. -/
theorem replying_run {res : Response} {a b : A.State} {s t : HttpConnection}
    {es : List (A.Event ⊕ HttpConnectionEvent)} (h : Replying text res s)
    (hrun : (withServer lib text A).machine.run (a, s) es = some (b, t)) :
    Replying text res t := by
  refine Machine.run_invariant (I := fun s : A.State × HttpConnection => Replying text res s.2)
    (fun s e t h hstep => ?_) h hrun
  cases e with
  | inl e =>
    obtain ⟨a, -, -, rfl⟩ := Station.joinStep_inl.mp hstep
    exact h
  | inr e =>
    obtain ⟨b, hb, -, rfl⟩ := Station.joinStep_inr.mp hstep
    obtain ⟨hserving, hstep⟩ := serving_step.mp hb
    exact (h.step hserving hstep).1

/-- The path and the server can come to rest, whatever they have done so far. -/
theorem comes_to_rest (hpath : SoundPath lib text w (lib.beast.serialize req) lead A)
    (hlegible : Legible lib req) (hreply : ∀ files, ∃ r, route lib req files = .reply r)
    {es : List (withServer lib text A).Event} {a : A.State} {s : HttpConnection}
    (hrun : (withServer lib text A).machine.run (A.start, accepted) es = some (a, s))
    (htaken : A.taken a .near <+: w) : ∃ fs t,
      (withServer lib text A).machine.run (a, s) fs = some t ∧ A.taken t.1 .near <+: w ∧
      (withServer lib text A).Rests w [] t := by
  obtain ⟨limit, hmono, hbounded⟩ := hpath.run_bounded hlegible hreply
  have hnothing : s.fromRemote <+: [] := by
    rw [(hbounded es a s hrun htaken).1.fromRemote]
  -- until the server puts a response it has put nothing
  have hsilent : ∀ fs t, (withServer lib text A).machine.run (a, s) fs = some t →
      (withServer lib text A).taken t .near <+: w → (withServer lib text A).taken t .far <+: [] →
      (¬∃ res, Replying text res t.2) → fs.length < limit 0 + 1 := by
    intro fs t hmore hnear _ hnot
    obtain ⟨hflow, hlength⟩ := hbounded _ t.1 t.2 (Machine.run_append hrun hmore) hnear
    have hput : t.2.toClient = [] := by
      cases hflow.place with
      | detecting hsession hreceived hput => exact hput
      | waiting c hsession howner hone hwaiting hops hreceived hput => exact hput
      | replying res hanswers hreplying => exact absurd ⟨res, hreplying⟩ hnot
    rw [hput, List.length_nil, List.length_append] at hlength
    omega
  obtain ⟨fs, ⟨b, t⟩, hmore, hnear, hfar, hend⟩ :=
    Station.rests_or (A := withServer lib text A) (u := [])
      (P := fun t : A.State × HttpConnection => ∃ res, Replying text res t.2) (limit 0 + 1) (a, s)
      htaken hnothing hsilent
  rcases hend with hrests | ⟨res, hreplying⟩
  · exact ⟨fs, (b, t), hmore, hnear, hrests⟩
  · -- and then it puts only this one
    have hrun' := Machine.run_append hrun hmore
    have hlast : ∀ gs v, (withServer lib text A).machine.run (b, t) gs = some v →
        (withServer lib text A).taken v .near <+: w →
        (withServer lib text A).taken v .far <+: [] → gs.length ≤ limit (text res).length := by
      intro gs v hlast hnear _
      have hlength := (hbounded _ v.1 v.2 (Machine.run_append hrun' hlast) hnear).2
      have hfront := (replying_run (b := v.1) (t := v.2) hreplying hlast).front.length_le
      have hle := hmono hfront
      rw [List.length_append] at hlength
      omega
    obtain ⟨gs, v, hrest, hnear', -, hrests⟩ := Station.rests_within
      (A := withServer lib text A) (u := []) (n := limit (text res).length) (s := (b, t)) hnear
      hfar hlast
    exact ⟨fs ++ gs, v, Machine.run_append hmore hrest, hnear', hrests⟩

/-- At rest the client has its answer. -/
theorem answered (hpath : SoundPath lib text w (lib.beast.serialize req) lead A)
    (hlegible : Legible lib req) (hreply : ∀ files, ∃ r, route lib req files = .reply r)
    {es : List (A.Event ⊕ HttpConnectionEvent)} {a : A.State} {s : HttpConnection}
    (hrun : (withServer lib text A).machine.run (A.start, accepted) es = some (a, s))
    (htaken : A.taken a .near <+: w) (hrests : (withServer lib text A).Rests w [] (a, s)) :
    ∃ res, Answers lib req res ∧ A.put a .near = lead ++ text res := by
  obtain ⟨hrunA, hserver, hwired⟩ := Station.join_run hrun
  obtain ⟨hreceived, -⟩ := hpath.relays.conveys.attached hrun htaken
  obtain ⟨hflow, -⟩ := originFlow_of_run hlegible hreply hserver hreceived
  have hnothing : s.fromRemote <+: [] := by
    rw [hflow.fromRemote]
  obtain ⟨hrestsA, hrestsB⟩ := Station.rests_join hrests htaken hnothing
  obtain ⟨hput, hgot⟩ := hpath.relays.delivers _ _ _ hrunA htaken hwired.back hrestsA
  rcases hflow.place.goesOn text hlegible hreceived with
    ⟨res, hanswers, hres⟩ | ⟨e, t, hserving, hstep, hfront, hsame⟩
  · refine ⟨res, hanswers, ?_⟩
    rw [hgot]
    exact congrArg (lead ++ ·) hres
  · -- the server has a step, which takes no more than the path has put
    refine absurd ?_ (hrestsB e t (serving_step.mpr ⟨hserving, hstep⟩) ?_)
    · change t.fromRemote <+: []
      rw [hsame]
      exact hnothing
    · rw [hput]
      exact hfront

/-- Whatever the relays between a client and a server are (with tunnels as in `SoundPath`), and
in whatever order everything happens: the steps are bounded by what the server has put, all can
come to rest, and then the client has got the responses of the tunnels and the whole text of one
response, which answers the request that has come out of the path. -/
theorem answer_delivered (hpath : SoundPath lib text w (lib.beast.serialize req) lead A)
    (hlegible : Legible lib req) (hreply : ∀ files, ∃ r, route lib req files = .reply r) :
    ∃ limit : Nat → Nat, ∀ es a s,
      (withServer lib text A).machine.run (A.start, accepted) es = some (a, s) →
      A.taken a .near <+: w → es.length ≤ limit s.toClient.length ∧
        (∃ fs t, (withServer lib text A).machine.run (a, s) fs = some t ∧
          A.taken t.1 .near <+: w ∧ (withServer lib text A).Rests w [] t) ∧
        ((withServer lib text A).Rests w [] (a, s) →
          ∃ res, Answers lib req res ∧ A.put a .near = lead ++ text res) := by
  obtain ⟨limit, -, hbounded⟩ := hpath.run_bounded hlegible hreply
  exact ⟨limit, fun es a s hrun htaken => ⟨(hbounded es a s hrun htaken).2,
    hpath.comes_to_rest hlegible hreply hrun htaken,
    hpath.answered hlegible hreply hrun htaken⟩⟩

theorem origin_reply (files : Files) : ∃ r,
    route tunnelLib HttpCopier.originRequest files = .reply r := by
  unfold route
  rw [if_neg (by decide +kernel), if_neg (by decide +kernel), if_neg (by decide +kernel),
    if_neg (by decide +kernel), if_neg (by decide +kernel)]
  exact ⟨_, rfl⟩

/-- The TCP proxy, a tunnel, a proxy request through it, and the server that answers it. -/
theorem answer_delivered_tunnel : ∃ es t res,
    (withServer tunnelLib Response.text
      (Station.join (TcpConnection.station.only TcpConnection.soundly)
        (((station tunnelLib Response.text patiently).only
            (quietly tunnelRequest.text.length)).join
          ((station tunnelLib Response.text anyStep).only soundly)))).machine.run
      ((TcpConnection.station.start, accepted, accepted), accepted) es = some t ∧
    Answers tunnelLib HttpCopier.originRequest res ∧
    t.1.1.1.toClient.written = ok200 ++ res.text := by
  have hproxy := proxy_plain []
  rw [List.append_nil, List.append_nil] at hproxy
  have hpath := SoundPath.join (.tcp _) (.join (tunnel_plain _) hproxy)
  have hlegible : Legible tunnelLib HttpCopier.originRequest := by
    unfold Legible
    decide +kernel
  obtain ⟨limit, hdelivers⟩ := answer_delivered hpath hlegible origin_reply
  obtain ⟨-, ⟨es, t, hrun, htaken, hrests⟩, -⟩ :=
    hdelivers [] _ _ (Machine.run_nil ..) List.nil_prefix
  obtain ⟨res, hanswers, hput⟩ := (hdelivers es t.1 t.2 hrun htaken).2.2 hrests
  exact ⟨es, t, res, hrun, hanswers, hput⟩

end SoundPath

end ServerAsync
