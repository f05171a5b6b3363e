import ServerAsync.Misc.PipelineRuns

/-!
# What a pipelined connection puts on the wire

A write puts the symbols of its reply one after the other, and may fail at any of them.
Nothing is put behind a write that has failed, so that the peer gets a front of the replies
in the order in which they were queued.
-/

namespace ServerAsync.Misc.Pipeline

variable {ρ α β : Type*} {text : α → List β} {limit : Nat} {p p' : State ρ α}

/-- Replies behind each other. -/
def texts (text : α → List β) (replies : List (Reply α)) : List β :=
  replies.flatMap fun q => text q.message

/-- `part` symbols of the reply in flight have been put, and `out` is everything that has
been put. -/
structure Output (text : α → List β) (p : State ρ α) (part : Nat) (out : List β) : Prop where
  part_le : part ≤ (texts text p.writes).length
  out_eq : p.closed = false → out = texts text p.answered ++ (texts text p.writes).take part
  front : out <+: texts text p.queued

theorem Output.start (op : Read ρ) : Output text (State.start op) 0 [] where
  part_le := Nat.zero_le _
  out_eq _ := rfl
  front := List.nil_prefix

/-- The replies in flight, and those that have been answered, are the first that were
queued. -/
theorem written_front (h : WriteInv p) (hopen : p.closed = false) :
    p.answered ++ p.writes <+: p.queued := by
  rw [h.writes_eq, hopen, if_neg Bool.false_ne_true, ← h.answered_eq]
  exact (List.prefix_append_right_inj _).mpr (List.take_prefix _ _)

theorem texts_front {replies replies' : List (Reply α)} (h : replies <+: replies') :
    texts text replies <+: texts text replies' := by
  obtain ⟨more, rfl⟩ := h
  rw [texts, texts, List.flatMap_append]
  exact List.prefix_append _ _

/-- An output that follows the replies is a front of them. -/
theorem Output.of_open (hinv : WriteInv p) {part : Nat} {out : List β}
    (hpart : part ≤ (texts text p.writes).length) (hopen : p.closed = false)
    (hout : out = texts text p.answered ++ (texts text p.writes).take part) :
    Output text p part out where
  part_le := hpart
  out_eq _ := hout
  front := by
    have hwritten : texts text (p.answered ++ p.writes) <+: texts text p.queued :=
      texts_front (written_front hinv hopen)
    rw [texts, List.flatMap_append] at hwritten
    rw [hout]
    exact List.IsPrefix.trans
      ((List.prefix_append_right_inj _).mpr (List.take_prefix part (texts text p.writes))) hwritten

/-- More of the reply in flight is put. -/
theorem Output.send (h : Output text p part out) (hinv : WriteInv p) {q : Reply α}
    (hq : p.writes.head? = some q) {count : Nat}
    (hcount : part + count ≤ (text q.message).length) :
    Output text p (part + count) (out ++ ((text q.message).drop part).take count) := by
  obtain ⟨hopen, hwrites, -⟩ := hinv.front (List.mem_of_mem_head? hq)
  have hflight : texts text p.writes = text q.message := by
    rw [hwrites]
    exact List.flatMap_singleton _ _
  refine .of_open hinv ?_ hopen ?_
  · rw [hflight]
    exact hcount
  · rw [h.out_eq hopen, hflight, List.append_assoc, ← List.take_add]

variable [DecidableEq ρ] [DecidableEq α] {keepAlive : α → Bool}

/-- Apart from a completed write, a step queues at most one reply, and writes it at once when
no other reply is queued. -/
theorem quiet_step (hinv : WriteInv p) {l : Label ρ α}
    (hstep : step keepAlive limit p l = some p') (hquiet : ∀ q ok, l ≠ .wrote q ok) :
    p'.closed = p.closed ∧ p'.answered = p.answered ∧ p.queued <+: p'.queued ∧
      (p'.writes = p.writes ∨ p.writes = []) := by
  have hpush (q : Reply α) (p₀ : State ρ α) (hqueue : p₀.queue = p.queue)
      (hwrites : p₀.writes = p.writes) :
      (p₀.push q).writes = p.writes ∨ p.writes = [] := by
    by_cases hnil : p.queue = []
    · right
      rw [hinv.writes_eq, hnil]
      split <;> rfl
    · left
      rw [push_ne_nil (by rw [hqueue]; exact hnil)]
      exact hwrites
  cases l with
  | tick =>
    cases Option.some.inj hstep
    exact ⟨rfl, rfl, List.prefix_rfl, Or.inl rfl⟩
  | replied message =>
    obtain ⟨-, rfl⟩ := Machine.taken hstep
    obtain ⟨-, -, -, -, -, hclosed, -, hqueued, hanswered⟩ := push_frame
      ⟨p.headers, message⟩ { p.headerDone with dispatched := p.dispatched + 1 }
    exact ⟨hclosed, hanswered, hqueued ▸ List.prefix_append _ _, hpush _ _ rfl rfl⟩
  | uploaded request header message =>
    obtain ⟨-, rfl⟩ := Machine.taken hstep
    obtain ⟨-, -, -, -, -, hclosed, -, hqueued, hanswered⟩ := push_frame
      ⟨request, message⟩ { p with reads := p.reads.erase (.body request header) }
    obtain ⟨hsame, -, -, -, -, hclosed', -, hqueued', -, hanswered'⟩ := readOn_frame limit
      (State.push ⟨request, message⟩ { p with reads := p.reads.erase (.body request header) })
    rw [hsame, hclosed', hqueued', hanswered']
    exact ⟨hclosed, hanswered, hqueued ▸ List.prefix_append _ _, hpush _ _ rfl rfl⟩
  | wrote q ok => exact absurd rfl (hquiet q ok)
  | _ =>
    obtain ⟨-, rfl⟩ := Machine.taken hstep
    exact ⟨rfl, rfl, List.prefix_rfl, Or.inl rfl⟩

theorem Output.quiet (h : Output text p part out) (hinv : WriteInv p) {l : Label ρ α}
    (hstep : step keepAlive limit p l = some p') (hquiet : ∀ q ok, l ≠ .wrote q ok) :
    Output text p' part out := by
  obtain ⟨hclosed, hanswered, hqueued, hwrites⟩ := quiet_step hinv hstep hquiet
  -- without a write in flight, nothing of it has been put
  have hnone (hnil : p.writes = []) : part = 0 := by
    have hle := h.part_le
    rw [hnil] at hle
    exact Nat.le_zero.mp hle
  refine ⟨?_, fun hopen => ?_, h.front.trans (texts_front hqueued)⟩
  · rcases hwrites with hsame | hnil
    · rw [hsame]
      exact h.part_le
    · rw [hnone hnil]
      exact Nat.zero_le _
  · rw [hclosed] at hopen
    rw [h.out_eq hopen, hanswered]
    rcases hwrites with hsame | hnil
    · rw [hsame]
    · rw [hnone hnil, List.take_zero, List.take_zero]

/-- A write completes: with its last symbol, unless it fails. -/
theorem Output.wrote (h : Output text p part out) (hinv : WriteInv p) {q : Reply α} {ok : Bool}
    (hstep : step keepAlive limit p (.wrote q ok) = some p')
    (hall : ok = true → part = (text q.message).length) : Output text p' 0 out := by
  obtain ⟨hq, rfl⟩ := Machine.taken hstep
  obtain ⟨hopen, hwrites, rest, hqueue⟩ := hinv.front hq
  have hinv' : WriteInv ((p.writeDone q).afterWrite keepAlive limit q ok) := hinv.afterWrite hq ok
  unfold State.afterWrite at hinv' ⊢
  split
  · refine ⟨Nat.zero_le _, fun hno => ?_, h.front⟩
    cases hno
  split
  · refine ⟨Nat.zero_le _, fun hno => ?_, h.front⟩
    cases hno
  · rename_i hok hkeep
    rw [if_neg hok, if_neg hkeep] at hinv'
    rw [Bool.not_eq_false] at hok
    refine .of_open hinv' (Nat.zero_le _) ?_ ?_
    · split <;> simp [State.pop, State.writeDone, hopen]
    · have hout := h.out_eq hopen
      rw [hall hok, hwrites, show texts text [q] = text q.message from List.flatMap_singleton _ _,
        List.take_length] at hout
      rw [hout, List.take_zero, List.append_nil]
      split <;> simp [State.pop, State.writeDone, texts]

end ServerAsync.Misc.Pipeline
