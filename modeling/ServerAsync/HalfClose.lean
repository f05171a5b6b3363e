import ServerAsync.HttpCopier
import ServerAsync.SocketCopier

/-!
# `do_eof` of the plain copiers

Both directions of a relay call the same `do_eof`, which shuts down the sending side
of the client's socket. After the end of the remote's stream that is what a
half-close asks for. After the end of the client's stream it is the wrong socket:
the remote does not learn of it, and its answer cannot be written any more.
-/

namespace ServerAsync

open Misc

/-- The progress and the completion of a write. -/
def RelayEvent.isWrite {α : Type*} : RelayEvent α → Bool
  | .accepted _ _ _ => true
  | .wrote _ => true
  | _ => false

/-! ## One direction -/

namespace Half

variable {α : Type*} {lead : List α} {h h' : Half α}

theorem step_grows {e : RelayEvent α} (hinv : Inv lead h) (hstep : h.step e = some h') :
    h.fetched <+: h'.fetched := by
  have hrun : (machine α).run h [e] = some h' := Machine.run_cons_eq_some.mpr ⟨h', hstep, rfl⟩
  exact (run_grows hinv hrun).1

/-- A write of which everything has been accepted completes, and the direction reads
on. -/
theorem completes {len : Nat} (hinv : Inv lead h) (hop : .asyncWrite len len ∈ h.ops) :
    ∃ h', h.step (.wrote len) = some h' ∧ h'.fetched = h.fetched ∧
      h'.written = lead ++ h'.fetched ∧ .asyncReadSome ∈ h'.ops := by
  obtain ⟨-, -, hall⟩ := hinv.writing len len hop
  rw [List.drop_eq_nil_of_le (List.length_take_le _ _), List.append_nil] at hall
  exact ⟨_, if_pos hop, rfl, hall, by simp [doRelay]⟩

/-- A direction with an operation outstanding can deliver everything it has read, and
then reads on. -/
theorem delivers (hinv : Inv lead h) (hops : h.ops ≠ []) : ∃ ws h',
    (∀ e ∈ ws, RelayEvent.isWrite e = true) ∧ (machine α).run h ws = some h' ∧
    h'.fetched = h.fetched ∧ h'.written = lead ++ h'.fetched ∧ .asyncReadSome ∈ h'.ops := by
  obtain ⟨op, hop⟩ := List.exists_mem_of_ne_nil _ hops
  cases op with
  | asyncReadSome => exact ⟨[], h, by simp, rfl, rfl, hinv.reading hop, hop⟩
  | asyncWrite off len =>
    obtain ⟨hle, -, -⟩ := hinv.writing off len hop
    rcases Nat.eq_or_lt_of_le hle with rfl | hlt
    · obtain ⟨h', hstep, hrest⟩ := completes hinv hop
      exact ⟨[.wrote off], h', by simp [RelayEvent.isWrite],
        Machine.run_cons_eq_some.mpr ⟨h', hstep, rfl⟩, hrest⟩
    · -- what is left is accepted at once
      have hsend : h.step (.accepted off len (len - off)) =
          some ((h.finish (.asyncWrite off len)).send off len (len - off)) :=
        if_pos ⟨hop, by omega, by omega⟩
      have hend : off + (len - off) = len := by omega
      have hmem : .asyncWrite len len ∈
          ((h.finish (.asyncWrite off len)).send off len (len - off)).ops := by
        simp [send, hend]
      obtain ⟨h', hstep, hfetched, hrest⟩ := completes (inv_step hinv hsend) hmem
      refine ⟨[.accepted off len (len - off), .wrote len], h', by simp [RelayEvent.isWrite], ?_,
        hfetched, hrest⟩
      exact Machine.run_cons_eq_some.mpr
        ⟨_, hsend, Machine.run_cons_eq_some.mpr ⟨h', hstep, rfl⟩⟩

end Half

theorem Copier.callsEof_eq (e : RelayEvent Char) : callsEof e = e.ends := by
  cases e <;> rfl

theorem Copier.stepRelay_eofs {c c' : Copier} {dir : Dir} {e : RelayEvent Char}
    (hstep : c.stepRelay dir e = some c') :
    c'.eofs = c.eofs + if callsEof e then 1 else 0 := by
  obtain ⟨half', hhalf, hc'⟩ := Option.map_eq_some_iff.mp hstep
  rw [← hc']
  split <;> cases dir <;> rfl

/-! ## The plain copiers -/

/-- Whether an event is that the client accepts bytes. -/
def CopierEvent.toClient : CopierEvent → Bool
  | .accepted stage _ _ => stage.dest == .toClient
  | .relay .toClient (.accepted _ _ _) => true
  | _ => false

/-- `plain_socket_copy` and `plain_http_copy`, as far as the relay is concerned: a
machine whose events are the shared ones and some that only occur before the relay
starts. Whatever run it has had, the two directions keep their invariant. -/
structure PlainCopy (ε : Type) where
  machine : Machine Copier ε
  next : Stage → Copier → Copier
  view : ε → Option CopierEvent
  shared : CopierEvent → ε
  started : Copier → Prop
  continues : Copier.Continues next
  view_shared : ∀ e, view (shared e) = some e
  step_view : ∀ c e e', view e = some e' → machine.step c e = c.step next e'
  step_own : ∀ c e c', view e = none → machine.step c e = some c' → c.ops ≠ []
  inv_run : ∀ c es c', started c → machine.run c es = some c' →
    ∃ leadClient leadRemote, c'.Inv leadClient leadRemote

/-- `plain_socket_copy`, started for a target that fits in a header. -/
def plainSocketCopy : PlainCopy SocketCopierEvent where
  machine := SocketCopier.machine
  next := SocketCopier.next
  view
    | .connected _ _ => none
    | .shared e => some e
  shared := .shared
  started c := ∃ maxLength buffer req, req.target.length < 2 ^ 31 ∧
    SocketCopier.start (SocketCopier.new maxLength buffer req) = .ok c
  continues := SocketCopier.next_continues
  view_shared _ := rfl
  step_view := by
    intro c e e' hview
    cases e with
    | connected count stale => cases hview
    | shared e =>
      cases hview
      rfl
  step_own := by
    intro c e c' hview hstep
    cases e with
    | connected count stale => exact List.ne_nil_of_mem (Machine.taken hstep).1.1
    | shared e => cases hview
  inv_run := by
    rintro c es c' ⟨maxLength, buffer, req, hlen, hstart⟩ hrun
    obtain ⟨lead, hlead⟩ := SocketCopier.exists_lead (SocketCopier.inv_start hlen hstart) hrun
    exact ⟨lead, [], hlead⟩

/-- `plain_http_copy`. -/
def plainHttpCopy (urls : BoostUrl) (beast : Beast) : PlainCopy HttpCopierEvent where
  machine := HttpCopier.machine beast
  next := HttpCopier.next
  view
    | .connected => none
    | .shared e => some e
  shared := .shared
  started c := ∃ maxLength req buffer,
    HttpCopier.start urls (HttpCopier.new maxLength req buffer) = .ok c
  continues := HttpCopier.next_continues
  view_shared _ := rfl
  step_view := by
    intro c e e' hview
    cases e with
    | connected => cases hview
    | shared e =>
      cases hview
      rfl
  step_own := by
    intro c e c' hview hstep
    cases e with
    | connected => exact List.ne_nil_of_mem (Machine.taken hstep).1
    | shared e => cases hview
  inv_run := by
    rintro c es c' ⟨maxLength, req, buffer, hstart⟩ hrun
    exact ⟨[], _, (HttpCopier.inv_run (HttpCopier.inv_start hstart) hrun).1⟩

namespace PlainCopy

variable {ε : Type} (copy : PlainCopy ε)

/-- The class with its sockets: once `do_eof` has shut down the client's sending side,
the client accepts nothing. -/
def plain : Machine Copier ε where
  step c e :=
    if (copy.view e).any CopierEvent.toClient ∧ 0 < c.eofs then none else copy.machine.step c e

/-- How often the sending side of a direction's destination has been shut down:
`do_eof` always takes the client's. -/
def shutdowns (c : Copier) : Dir → Nat
  | .toClient => c.eofs
  | .toRemote => 0

/-- A failure of a direction: its loop ends. -/
def fails (dir : Dir) (e : ε) : Prop :=
  ∃ e', copy.view e = some (.relay dir e') ∧ Copier.callsEof e' = true

/-- A direction whose loop has not ended goes on: as long as it does not fail, whatever
else happens, it can always deliver everything that its source sends, and read on. -/
def GoesOn (dir : Dir) (c : Copier) : Prop :=
  (c.half dir).ops ≠ [] → ∀ es c', (∀ e ∈ es, ¬ copy.fails dir e) →
    copy.plain.run c es = some c' → ∃ fs d more got,
      copy.plain.run c' fs = some d ∧ (c'.half dir).fetched = (c.half dir).fetched ++ more ∧
      (d.half dir).fetched = (c'.half dir).fetched ∧ (c.half dir).written <+: got ∧
      (d.half dir).written = got ++ more ∧ .asyncReadSome ∈ (d.half dir).ops

/-- What the end of a direction's source leads to: the sending side of its destination
is shut down and nothing else, and the other direction goes on. -/
def HalfCloses (dir : Dir) (c c' : Copier) : Prop :=
  (∀ d, shutdowns c' d = shutdowns c d + if d = dir then 1 else 0) ∧ copy.GoesOn dir.other c'

variable {copy} {c c' : Copier} {e : ε} {es : List ε} {leadClient leadRemote : Text}

theorem plain_step (hstep : copy.plain.step c e = some c') :
    ¬ ((copy.view e).any CopierEvent.toClient ∧ 0 < c.eofs) ∧
      copy.machine.step c e = some c' := by
  change (if _ then none else _) = some c' at hstep
  split at hstep
  · cases hstep
  · rename_i hopen
    exact ⟨hopen, hstep⟩

theorem plain_run (hrun : copy.plain.run c es = some c') : copy.machine.run c es = some c' := by
  induction es generalizing c with
  | nil => exact hrun
  | cons e es ih =>
    obtain ⟨mid, hmid, hrest⟩ := Machine.run_cons_eq_some.mp hrun
    exact Machine.run_cons_eq_some.mpr ⟨mid, (plain_step hmid).2, ih hrest⟩

/-- When nothing else is outstanding, an event is one of the relay. -/
theorem relay_of_step (hops : c.ops = []) (hstep : copy.machine.step c e = some c') :
    ∃ dir e', copy.view e = some (.relay dir e') ∧ c.stepRelay dir e' = some c' := by
  cases hview : copy.view e with
  | none => exact absurd hops (copy.step_own c e c' hview hstep)
  | some e' =>
    rw [copy.step_view c e e' hview] at hstep
    cases e' with
    | relay dir e' => exact ⟨dir, e', rfl, hstep⟩
    | _ => simp [Copier.step, hops] at hstep

theorem step_shared (c : Copier) (dir : Dir) (e : RelayEvent Char) :
    copy.machine.step c (copy.shared (.relay dir e)) = c.stepRelay dir e :=
  copy.step_view c _ _ (copy.view_shared _)

/-- A direction that has an operation outstanding is in the relay. -/
theorem ops_of_relaying (hinv : c.Inv leadClient leadRemote) {dir : Dir}
    (hlive : (c.half dir).ops ≠ []) : c.ops = [] := by
  by_contra hne
  obtain ⟨hclient, hremote, -, -⟩ := hinv.staging hne
  cases dir with
  | toClient => exact hlive hclient
  | toRemote => exact hlive hremote

/-! ## The direction to the remote -/

/-- The relay, with the direction to the remote not ended, and what it has read since
`c`. -/
structure Sending (leadClient leadRemote : Text) (c d : Copier) : Prop where
  inv : d.Inv leadClient leadRemote
  relaying : d.ops = []
  live : d.toRemote.ops ≠ []
  grown : c.toRemote.fetched <+: d.toRemote.fetched

theorem Sending.step {d d' : Copier} (h : Sending leadClient leadRemote c d)
    (hsafe : ¬ copy.fails .toRemote e) (hstep : copy.plain.step d e = some d') :
    Sending leadClient leadRemote c d' := by
  obtain ⟨dir, e', hview, hrelay⟩ := relay_of_step h.relaying (plain_step hstep).2
  obtain ⟨half', hhalf, -, -, hops, -, hremote⟩ := Copier.stepRelay_eq_some hrelay
  refine ⟨h.inv.relay hrelay, hops.trans h.relaying, ?_, ?_⟩
  · rw [hremote]
    cases dir with
    | toClient => exact h.live
    | toRemote =>
      have hgoes : e'.ends = false := by
        rw [← Copier.callsEof_eq]
        by_contra hfails
        exact hsafe ⟨e', hview, by simpa using hfails⟩
      exact Half.step_ops hhalf hgoes
  · rw [hremote]
    cases dir with
    | toClient => exact h.grown
    | toRemote => exact h.grown.trans (Half.step_grows h.inv.remote hhalf)

/-- The events of a write to the remote are steps of the copier. -/
theorem run_writes {ws : List (RelayEvent Char)} {h' : Half Char}
    (hwrites : ∀ e ∈ ws, RelayEvent.isWrite e = true)
    (hrun : (Half.machine Char).run c.toRemote ws = some h') :
    copy.plain.run c (ws.map fun e => copy.shared (.relay .toRemote e)) =
      some (c.setHalf .toRemote h') := by
  induction ws generalizing c with
  | nil =>
    cases Option.some.inj hrun
    rfl
  | cons e ws ih =>
    obtain ⟨mid, hmid, hrest⟩ := Machine.run_cons_eq_some.mp hrun
    have hgoes : Copier.callsEof e = false := by
      have hwrite := hwrites e List.mem_cons_self
      cases e with
      | accepted off len count => rfl
      | wrote len => rfl
      | _ => cases hwrite
    have hstep : copy.plain.step c (copy.shared (.relay .toRemote e)) =
        some (c.setHalf .toRemote mid) := by
      have hopen : ¬ ((copy.view (copy.shared (.relay .toRemote e))).any CopierEvent.toClient ∧
          0 < c.eofs) := by
        rw [copy.view_shared]
        rintro ⟨hclient, -⟩
        cases hclient
      refine (if_neg hopen).trans ?_
      rw [step_shared]
      have hhalf : (c.half .toRemote).step e = some mid := hmid
      rw [Copier.stepRelay, hhalf, Option.map_some, hgoes]
      rfl
    exact Machine.run_cons_eq_some.mpr ⟨_, hstep,
      ih (fun e he => hwrites e (List.mem_cons_of_mem _ he)) hrest⟩

/-- Nothing that happens to the client's side keeps the direction to the remote from
delivering. -/
theorem remote_goesOn (hinv : c.Inv leadClient leadRemote) : copy.GoesOn .toRemote c := by
  intro hlive es c' hsafe hrun
  have hstart : Sending leadClient leadRemote c c :=
    ⟨hinv, ops_of_relaying hinv hlive, hlive, List.prefix_rfl⟩
  have hsending := Machine.run_invariant_of_meets (I := Sending leadClient leadRemote c)
    (fun _ _ _ h hp hstep => h.step hp hstep) hstart
    (Machine.meets_of_forall fun _ e he => hsafe e he) hrun
  obtain ⟨ws, h', hwrites, hdelivers, hfetched, hwritten, hreading⟩ :=
    Half.delivers hsending.inv.remote hsending.live
  obtain ⟨more, hmore⟩ := hsending.grown
  refine ⟨_, _, more, leadRemote ++ c.toRemote.fetched, run_writes hwrites hdelivers, hmore.symm,
    hfetched, hinv.remote.ordered, ?_, hreading⟩
  change h'.written = _
  rw [hwritten, hfetched, List.append_assoc, hmore]

/-! ## The direction to the client -/

/-- Once `do_eof` has been called, the client gets nothing more. -/
theorem client_frozen (hinv : c.Inv leadClient leadRemote) (hops : c.ops = [])
    (heofs : 0 < c.eofs) (hrun : copy.plain.run c es = some c') :
    c'.toClient.written = c.toClient.written := by
  have hfrozen := Machine.run_invariant (I := fun d : Copier => d.Inv leadClient leadRemote ∧
    d.ops = [] ∧ 0 < d.eofs ∧ d.toClient.written = c.toClient.written) ?_
    ⟨hinv, hops, heofs, rfl⟩ hrun
  · exact hfrozen.2.2.2
  · rintro d e d' ⟨hinv, hops, heofs, hwritten⟩ hstep
    obtain ⟨hopen, hmachine⟩ := plain_step hstep
    obtain ⟨dir, e', hview, hrelay⟩ := relay_of_step hops hmachine
    obtain ⟨half', hhalf, -, -, hops', hclient, -⟩ := Copier.stepRelay_eq_some hrelay
    have heofs' : 0 < d'.eofs := by
      rw [Copier.stepRelay_eofs hrelay]
      exact Nat.add_pos_left heofs _
    refine ⟨hinv.relay hrelay, hops'.trans hops, heofs', ?_⟩
    rw [hclient, ← hwritten]
    cases dir with
    | toRemote => rfl
    | toClient =>
      cases e' with
      | accepted off len count =>
        rw [hview] at hopen
        exact absurd ⟨rfl, heofs⟩ hopen
      | _ =>
        rcases Machine.taken hhalf with ⟨-, rfl⟩
        rfl

/-! ## Half-closing -/

/-- In every run of a plain copier, the end of a source is passed on as a half-close
exactly when it is the remote's stream that has ended. -/
theorem halfCloses_iff {c₀ : Copier} {dir : Dir} (hstart : copy.started c₀)
    (hrun : copy.plain.run c₀ es = some c)
    (hstep : copy.plain.step c (copy.shared (.relay dir (.readFailed true))) = some c') :
    copy.HalfCloses dir c c' ↔ dir = .toClient := by
  obtain ⟨leadClient, leadRemote, hinv⟩ := copy.inv_run c₀ es c hstart (plain_run hrun)
  obtain ⟨-, hmachine⟩ := plain_step hstep
  rw [step_shared] at hmachine
  have hinv' := hinv.relay hmachine
  have heofs : c'.eofs = c.eofs + 1 := Copier.stepRelay_eofs hmachine
  constructor
  · rintro ⟨hshut, -⟩
    cases dir with
    | toClient => rfl
    | toRemote => cases hshut .toRemote
  · rintro rfl
    refine ⟨fun d => ?_, remote_goesOn hinv'⟩
    cases d with
    | toClient => exact heofs
    | toRemote => rfl

/-- The events of a proxy up to the relay. -/
def untilRelay : List HttpCopierEvent :=
  [.shared (.resolved ['h'] ['8', '0'] true), .connected,
    .shared (.accepted .request HttpCopier.originRequest.text
      HttpCopier.originRequest.text.length),
    .shared (.wrote .request), .shared (.wrote .unconsumed)]

def plainCopy : PlainCopy HttpCopierEvent := plainHttpCopy BoostUrl.plain (Beast.plain [])

/-- A proxy that has started to relay, when the source of a direction ends. -/
theorem run_untilRelay (dir : Dir) : ∃ c₀ c c',
    HttpCopier.start BoostUrl.plain (HttpCopier.new 1 HttpCopier.absoluteRequest []) = .ok c₀ ∧
    plainCopy.plain.run c₀ untilRelay = some c ∧
    plainCopy.plain.step c (.shared (.relay dir (.readFailed true))) = some c' ∧
    c.ops = [] ∧ c'.toClient.written = [] ∧ (dir = .toRemote →
      (plainCopy.plain.run c' [.shared (.relay .toClient (.read ['x']))]).any
        (fun d => d.toClient.fetched == ['x']) = true) := by
  have hevaluates : (match HttpCopier.start BoostUrl.plain
        (HttpCopier.new 1 HttpCopier.absoluteRequest []) with
      | .ok c₀ => (plainCopy.plain.run c₀ untilRelay).any fun c =>
          c.ops == [] && [Dir.toClient, .toRemote].all fun dir =>
            (plainCopy.plain.step c (.shared (.relay dir (.readFailed true)))).any fun c' =>
              c'.toClient.written == [] && (dir != .toRemote ||
                (plainCopy.plain.run c' [.shared (.relay .toClient (.read ['x']))]).any
                  fun d => d.toClient.fetched == ['x'])
      | .error _ => false) = true := by decide +kernel
  split at hevaluates
  · rename_i c₀ hstart
    obtain ⟨c, hrun, htest⟩ := Machine.run_of_any _ _ _ _ hevaluates
    rw [Bool.and_eq_true, beq_iff_eq, List.all_eq_true] at htest
    have hdir := htest.2 dir (by cases dir <;> simp)
    rw [Option.any_eq_true] at hdir
    obtain ⟨c', hstep, hends⟩ := hdir
    rw [Bool.and_eq_true, beq_iff_eq, Bool.or_eq_true] at hends
    refine ⟨c₀, c, c', hstart, hrun, hstep, htest.1, hends.1, fun hremote => ?_⟩
    exact hends.2.resolve_left (by simp [hremote])
  · cases hevaluates

theorem halfCloses_iff_remote : ∃ c₀ c c',
    plainCopy.started c₀ ∧ plainCopy.plain.run c₀ untilRelay = some c ∧
    plainCopy.plain.step c (.shared (.relay .toClient (.readFailed true))) = some c' ∧
    plainCopy.HalfCloses .toClient c c' := by
  obtain ⟨c₀, c, c', hstart, hrun, hstep, -⟩ := run_untilRelay .toClient
  have hstarted : plainCopy.started c₀ := ⟨_, _, _, hstart⟩
  exact ⟨c₀, c, c', hstarted, hrun, hstep, (halfCloses_iff hstarted hrun hstep).mpr rfl⟩

/-- The client half-closes before the remote answers: the answer is read, and no run
gets any of it to the client. -/
theorem answer_lost : ∃ c₀ c c' d,
    plainCopy.started c₀ ∧ plainCopy.plain.run c₀ untilRelay = some c ∧
    plainCopy.plain.step c (.shared (.relay .toRemote (.readFailed true))) = some c' ∧
    plainCopy.plain.run c' [.shared (.relay .toClient (.read ['x']))] = some d ∧
    d.toClient.fetched = ['x'] ∧
    (∀ fs d', plainCopy.plain.run d fs = some d' → d'.toClient.written = []) ∧
    ¬ plainCopy.HalfCloses .toRemote c c' := by
  obtain ⟨c₀, c, c', hstart, hrun, hstep, hops, hnothing, hread⟩ := run_untilRelay .toRemote
  obtain ⟨d, hrun', htest⟩ := Machine.run_of_any _ _ _ _ (hread rfl)
  obtain ⟨leadClient, leadRemote, hinv⟩ :=
    plainCopy.inv_run c₀ untilRelay c ⟨_, _, _, hstart⟩ (plain_run hrun)
  have hrelay : c.stepRelay .toRemote (.readFailed true) = some c' := (plain_step hstep).2
  have heofs : 0 < c'.eofs := by
    rw [Copier.stepRelay_eofs hrelay]
    exact Nat.succ_pos _
  have hops' : c'.ops = [] := by
    obtain ⟨-, -, -, -, hsame, -⟩ := Copier.stepRelay_eq_some hrelay
    exact hsame.trans hops
  refine ⟨c₀, c, c', d, ⟨_, _, _, hstart⟩, hrun, hstep, hrun', beq_iff_eq.mp htest, ?_, ?_⟩
  · intro fs d' hmore
    have hwhole := Machine.run_append hrun' hmore
    rw [client_frozen (hinv.relay hrelay) hops' heofs hwhole, hnothing]
  · rintro ⟨hshut, -⟩
    cases hshut .toRemote

end PlainCopy

end ServerAsync
