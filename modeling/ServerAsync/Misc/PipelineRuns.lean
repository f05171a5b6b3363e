import ServerAsync.Misc.PipelineInvariant
import Mathlib.Data.List.Nodup

/-!
# Runs of a pipelined connection

What the invariant gives over whole runs: replies leave in the order of their
requests; once the writing side has ended nothing more is written; an idle
connection does nothing; when a connection that has not ended may be left with
nothing outstanding; when nothing is dispatched after the writing side has ended;
and when every reply has been written at a moment the read side decides on.
-/

namespace ServerAsync.Misc.Pipeline

variable {ρ α : Type*} [DecidableEq ρ] [DecidableEq α] {keepAlive : α → Bool} {limit : Nat}

theorem inv_run {p p' : State ρ α} {ls : List (Label ρ α)} (h : Inv limit p)
    (hrun : (machine ρ keepAlive limit).run p ls = some p') : Inv limit p' :=
  Machine.run_invariant (I := Inv limit) (fun _ _ _ hp hstep => inv_step hp hstep) h hrun

/-! ## The order of the replies -/

omit [DecidableEq α] in
/-- Replies numbered by position are found at their position. -/
theorem find_reply_eq_getElem {replies : List (Reply α)}
    (hnum : replies.map Reply.request = List.range replies.length) (i : Nat) :
    (replies.find? fun q => q.request == i) = replies[i]? := by
  have hat : ∀ j (hj : j < replies.length), replies[j].request = j := by
    intro j hj
    have hget := congrArg (fun l => l[j]?) hnum
    simpa [hj] using hget
  by_cases hi : i < replies.length
  · rw [List.getElem?_eq_getElem hi, List.find?_eq_some_iff_getElem]
    refine ⟨by simp [hat i hi], i, hi, rfl, fun j hj => ?_⟩
    simp only [Bool.not_eq_true', beq_eq_false_iff_ne, ne_eq]
    rw [hat j (by omega)]
    omega
  · rw [List.getElem?_eq_none (by omega), List.find?_eq_none]
    intro q hq
    obtain ⟨j, hj, rfl⟩ := List.mem_iff_getElem.mp hq
    rw [hat j hj]
    simp only [beq_iff_eq]
    omega

omit [DecidableEq α] in
/-- The replies in the order of their requests' headers are the queued replies in
the order in which they were queued. -/
theorem replies_in_order {replies : List (Reply α)}
    (hnum : replies.map Reply.request = List.range replies.length) (n : Nat) :
    (List.range n).filterMap (fun i => replies.find? fun q => q.request == i) =
      replies.take n := by
  induction n with
  | zero => rfl
  | succ n ih =>
    rw [List.range_succ, List.filterMap_append, ih, List.take_add_one]
    simp only [List.filterMap_cons, List.filterMap_nil, find_reply_eq_getElem hnum]
    cases replies[n]? <;> rfl

omit [DecidableEq ρ] [DecidableEq α] in
theorem Inv.handed_prefix {p : State ρ α} (h : Inv limit p) : p.handed <+: p.queued :=
  ⟨p.queue.tail, h.write.handed_eq⟩

omit [DecidableEq ρ] [DecidableEq α] in
theorem Inv.handed_nodup {p : State ρ α} (h : Inv limit p) :
    (p.handed.map Reply.request).Nodup := by
  have hqueued : (p.queued.map Reply.request).Nodup := by
    rw [h.read.numbers]
    exact List.nodup_range
  exact hqueued.sublist ((h.handed_prefix.map Reply.request).sublist)

/-! ## After the writing side has ended -/

/-- A write that ends the writing side. -/
def Closes (keepAlive : α → Bool) : Label ρ α → Prop
  | .wrote q ok => ok = false ∨ keepAlive q.message = false
  | _ => False

theorem closed_step {p p' : State ρ α} {l : Label ρ α} (h : Inv limit p)
    (hc : p.closed = true) (hstep : step keepAlive limit p l = some p') :
    p'.closed = true ∧ p'.handed = p.handed := by
  have hqueue := h.write.closed_queue hc
  have hwrites : p.writes = [] := by rw [h.write.writes_eq, if_pos hc]
  cases l with
  | replied message =>
    rcases Machine.taken hstep with ⟨-, rfl⟩
    refine ⟨by simpa [State.headerDone] using hc, ?_⟩
    rw [push_ne_nil (by exact hqueue)]
    rfl
  | uploaded i header message =>
    rcases Machine.taken hstep with ⟨-, rfl⟩
    refine ⟨by simpa using hc, ?_⟩
    rw [push_ne_nil (by exact hqueue)]
    simp
  | wrote q ok =>
    simp [step, hwrites] at hstep
  | tick =>
    cases Option.some.inj hstep
    exact ⟨hc, rfl⟩
  | _ =>
    rcases Machine.taken hstep with ⟨-, rfl⟩
    exact ⟨hc, rfl⟩

theorem closed_run {p p' : State ρ α} {ls : List (Label ρ α)} (h : Inv limit p)
    (hc : p.closed = true) (hrun : (machine ρ keepAlive limit).run p ls = some p') :
    p'.handed = p.handed := by
  have hrel := Machine.run_relation (I := fun q => Inv limit q ∧ q.closed = true)
    (R := fun (q q' : State ρ α) => q'.handed = q.handed) (fun _ => rfl)
    (fun _ _ _ h₁ h₂ => h₂.trans h₁)
    (fun q l q' hq hstep => by
      obtain ⟨hclosed, hhanded⟩ := closed_step hq.1 hq.2 hstep
      exact ⟨⟨inv_step hq.1 hstep, hclosed⟩, hhanded⟩) ⟨h, hc⟩ hrun
  exact hrel

/-! ## Idle connections -/

/-- With nothing outstanding, nothing happens. -/
theorem idle_step {p p' : State ρ α} {l : Label ρ α} (hr : p.reads = []) (hw : p.writes = [])
    (hstep : step keepAlive limit p l = some p') : p' = p := by
  cases l with
  | tick => exact (Option.some.inj hstep).symm
  | _ => simp [step, hr, hw] at hstep

theorem idle_run {p p' : State ρ α} {ls : List (Label ρ α)} (hr : p.reads = [])
    (hw : p.writes = []) (hrun : (machine ρ keepAlive limit).run p ls = some p') : p' = p := by
  refine Machine.run_invariant (I := fun q => q = p) ?_ rfl hrun
  rintro q l q' rfl hstep
  exact idle_step hr hw hstep

omit [DecidableEq ρ] [DecidableEq α] in
/-- While a header read is outstanding, the queue is empty exactly when as many
replies have been written, each allowing the connection to go on, as headers have
been read. -/
theorem Inv.queue_eq_nil_iff {p : State ρ α} (h : Inv limit p) (hop : .header ∈ p.reads) :
    p.queue = [] ↔ p.answered.length = p.headers := by
  have hlen := congrArg List.length h.write.answered_eq
  rw [List.length_append, h.read.header_count hop] at hlen
  rw [← List.length_eq_zero_iff]
  omega

omit [DecidableEq ρ] [DecidableEq α] in
theorem Inv.writes_eq_nil {p : State ρ α} (h : Inv limit p) (hq : p.queue = []) :
    p.writes = [] := by
  rw [h.write.writes_eq, hq]
  simp

/-! ## Connections that are not abandoned -/

/-- The reply the read side queues at once does not leave the connection without a
reader: the connection is to end anyway, or the queue is full and a completed
write resumes reading. -/
def Resumes (keepAlive : α → Bool) (limit : Nat) (p : State ρ α) : Label ρ α → Prop
  | .replied message => p.ended = false → keepAlive message = false ∨
      (∃ q ∈ p.queue, keepAlive q.message = false) ∨ limit ≤ p.queue.length + 1
  | _ => True

/-- A connection that has not ended is being read, or will resume reading, or is
to end. -/
def Attended (keepAlive : α → Bool) (limit : Nat) (p : State ρ α) : Prop :=
  p.ended = false → p.reads ≠ [] ∨ limit ≤ p.queue.length ∨
    ∃ q ∈ p.queue, keepAlive q.message = false

theorem attended_step {p p' : State ρ α} {l : Label ρ α} (h : Inv limit p)
    (hatt : Attended keepAlive limit p) (hres : Resumes keepAlive limit p l)
    (hstep : step keepAlive limit p l = some p') : Attended keepAlive limit p' := by
  cases l with
  | tick =>
    cases Option.some.inj hstep
    exact hatt
  | opened =>
    rcases Machine.taken hstep with ⟨-, rfl⟩
    exact fun _ => Or.inl (by simp)
  | uploading header =>
    rcases Machine.taken hstep with ⟨-, rfl⟩
    exact fun _ => Or.inl (by simp)
  | replied message =>
    rcases Machine.taken hstep with ⟨-, rfl⟩
    intro hended
    right
    rcases hres (by simpa [State.headerDone] using hended) with hm | ⟨q, hq, hka⟩ | hfull
    · exact Or.inr ⟨⟨p.headers, message⟩, by simp, hm⟩
    · exact Or.inr ⟨q, by simpa [State.headerDone] using Or.inl hq, hka⟩
    · exact Or.inl (by simpa [State.headerDone] using hfull)
  | uploaded i header message =>
    rcases Machine.taken hstep with ⟨-, rfl⟩
    intro _
    by_cases hroom : (p.queue ++ [(⟨i, message⟩ : Reply α)]).length < limit
    · left
      rw [readOn_room (by simpa using hroom)]
      simp
    · right
      left
      simpa using hroom
  | wrote q ok =>
    rcases Machine.taken hstep with ⟨hq, rfl⟩
    obtain ⟨-, -, rest, hqueue⟩ := h.write.front hq
    unfold State.afterWrite State.writeDone
    split
    · intro hended
      cases hended
    split
    · intro hended
      cases hended
    · rename_i hka
      by_cases hfull : limit ≤ p.queue.length
      · intro _
        left
        simp [State.pop, hfull]
      · rw [if_neg hfull]
        intro hended
        rcases hatt (by simpa [State.pop] using hended) with hread | hlim | ⟨r, hr, hrka⟩
        · left
          simpa [State.pop] using hread
        · exact absurd hlim hfull
        · -- the reply that ends the connection is behind the one just written
          right
          right
          rw [hqueue, List.mem_cons] at hr
          rcases hr with rfl | hr
          · exact absurd hrka hka
          · exact ⟨r, by simpa [State.pop, hqueue] using hr, hrka⟩
  | _ =>
    rcases Machine.taken hstep with ⟨-, rfl⟩
    intro hended
    cases hended

omit [DecidableEq ρ] [DecidableEq α] in
/-- A connection that is attended to and has not ended has something outstanding,
and a read when nothing is queued. -/
theorem Attended.outstanding {p : State ρ α} (hlimit : 0 < limit) (h : Inv limit p)
    (hatt : Attended keepAlive limit p) (hended : p.ended = false) :
    (p.reads ≠ [] ∨ p.writes ≠ []) ∧ (p.queue = [] → p.reads ≠ []) := by
  have hopen : p.closed = false := by
    by_contra hc
    rw [h.write.closed_ended (by simpa using hc)] at hended
    cases hended
  have hwrites := h.write.writes_ne_nil_iff hopen
  have hcases : p.reads ≠ [] ∨ p.queue ≠ [] := by
    rcases hatt hended with hr | hfull | ⟨q, hq, -⟩
    · exact Or.inl hr
    · right
      rintro hnil
      rw [hnil, List.length_nil] at hfull
      omega
    · exact Or.inr (List.ne_nil_of_mem hq)
  refine ⟨hcases.imp_right hwrites.mpr, fun hnil => ?_⟩
  exact hcases.resolve_right (fun hne => hne hnil)

theorem attended_run {p p' : State ρ α} {ls : List (Label ρ α)} (h : Inv limit p)
    (hatt : Attended keepAlive limit p)
    (hres : (machine ρ keepAlive limit).Meets (Resumes keepAlive limit) p ls)
    (hrun : (machine ρ keepAlive limit).run p ls = some p') :
    Inv limit p' ∧ Attended keepAlive limit p' := by
  refine Machine.run_invariant_of_meets (P := Resumes keepAlive limit)
    (I := fun q => Inv limit q ∧ Attended keepAlive limit q) ?_ ⟨h, hatt⟩ hres hrun
  rintro q l q' ⟨hq, hqatt⟩ hl hstep
  exact ⟨inv_step hq hstep, attended_step hq hqatt hl hstep⟩

/-! ## Nothing is read after the writing side has ended -/

/-- When a write ends the writing side, nothing is being read. -/
def ClosesQuietly (keepAlive : α → Bool) (p : State ρ α) (l : Label ρ α) : Prop :=
  Closes keepAlive l → p.reads = []

/-- Nothing is read on a connection whose writing side has ended. -/
def Silent (p : State ρ α) : Prop := p.closed = true → p.reads = []

omit [DecidableEq ρ] [DecidableEq α] in
/-- A read that is outstanding keeps the writing side open. -/
theorem Silent.open_of_mem {p : State ρ α} (h : Silent p) {op : Read ρ} (hop : op ∈ p.reads) :
    p.closed ≠ true := by
  intro hc
  rw [h hc] at hop
  cases hop

theorem silent_step {p p' : State ρ α} {l : Label ρ α} (h : Inv limit p) (hsil : Silent p)
    (hquiet : ClosesQuietly keepAlive p l) (hstep : step keepAlive limit p l = some p') :
    Silent p' := by
  cases l with
  | tick =>
    cases Option.some.inj hstep
    exact hsil
  | readFailed op =>
    rcases Machine.taken hstep with ⟨hop, rfl⟩
    exact fun _ => h.read.erase_eq hop
  | uploaded i header message =>
    rcases Machine.taken hstep with ⟨hop, rfl⟩
    exact fun hc => absurd (by simpa using hc) (hsil.open_of_mem hop)
  | wrote q ok =>
    rcases Machine.taken hstep with ⟨hq, rfl⟩
    obtain ⟨hopen, -, rest, hqueue⟩ := h.write.front hq
    unfold State.afterWrite State.writeDone
    split
    · exact fun _ => hquiet (Or.inl ‹_›)
    split
    · exact fun _ => hquiet (Or.inr ‹_›)
    · intro hc
      split at hc <;> simp [State.pop, hopen] at hc
  | opened =>
    rcases Machine.taken hstep with ⟨hop, rfl⟩
    exact fun hc => absurd hc (hsil.open_of_mem hop)
  | replied message =>
    rcases Machine.taken hstep with ⟨hop, rfl⟩
    exact fun hc => absurd (by simpa [State.headerDone] using hc) (hsil.open_of_mem hop)
  | _ =>
    rcases Machine.taken hstep with ⟨hop, rfl⟩
    exact fun hc => absurd hc (hsil.open_of_mem hop)

/-- Nothing is read after every run in which the writing side ends quietly. -/
theorem silent_of_meets {p p' : State ρ α} {ls : List (Label ρ α)} (h : Inv limit p)
    (hsil : Silent p) (hquiet : (machine ρ keepAlive limit).Meets (ClosesQuietly keepAlive) p ls)
    (hrun : (machine ρ keepAlive limit).run p ls = some p') : Silent p' := by
  have hboth := Machine.run_invariant_of_meets (P := ClosesQuietly keepAlive)
    (I := fun q => Inv limit q ∧ Silent q)
    (fun q l q' hq hl hstep => ⟨inv_step hq.1 hstep, silent_step hq.1 hq.2 hl hstep⟩)
    ⟨h, hsil⟩ hquiet hrun
  exact hboth.2

end ServerAsync.Misc.Pipeline
