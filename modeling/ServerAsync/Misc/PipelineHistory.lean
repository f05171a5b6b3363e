import ServerAsync.Misc.PipelineRuns

/-!
# The history of a pipelined connection

Which completions of a run read a header, write a reply and go on, and end the
writing side. The history fields of the state count exactly these.
-/

namespace ServerAsync.Misc.Pipeline

variable {ρ α : Type*} {keepAlive : α → Bool} {limit : Nat}

/-- A header was read. -/
def Label.readsHeader : Label ρ α → Bool
  | .released => true
  | .refused => true
  | .uploading _ => true
  | .replied _ => true
  | _ => false

/-- A reply was written and the connection goes on. -/
def Label.answers (keepAlive : α → Bool) : Label ρ α → Bool
  | .wrote q ok => ok && keepAlive q.message
  | _ => false

/-- A write ended the writing side. -/
def Label.closes (keepAlive : α → Bool) : Label ρ α → Bool
  | .wrote q ok => !ok || !keepAlive q.message
  | _ => false

/-- The request side shut the stream down. -/
def Label.shutsDown : Label ρ α → Bool
  | .endOfStream => true
  | .refused => true
  | _ => false

variable [DecidableEq ρ] [DecidableEq α]

omit [DecidableEq ρ] [DecidableEq α] in
theorem afterWrite_history (keepAlive : α → Bool) (limit : Nat) (q : Reply α) (ok : Bool)
    (p : State ρ α) :
    (p.afterWrite keepAlive limit q ok).headers = p.headers ∧
    (p.afterWrite keepAlive limit q ok).eofs = p.eofs ∧
    (p.afterWrite keepAlive limit q ok).answered.length =
      p.answered.length + (if ok && keepAlive q.message then 1 else 0) ∧
    (p.afterWrite keepAlive limit q ok).closed = (p.closed || (!ok || !keepAlive q.message)) := by
  unfold State.afterWrite
  cases ok with
  | false => simp
  | true =>
    cases hka : keepAlive q.message with
    | false => simp
    | true =>
      by_cases hfull : limit ≤ p.queue.length
      · simp [hfull, State.pop]
      · simp [hfull, State.pop]

/-- What a completion adds to the history. -/
theorem history_step {p p' : State ρ α} {l : Label ρ α}
    (hstep : step keepAlive limit p l = some p') :
    p'.headers = p.headers + (if l.readsHeader then 1 else 0) ∧
    p'.eofs = p.eofs + (if l.shutsDown then 1 else 0) ∧
    p'.answered.length = p.answered.length + (if l.answers keepAlive then 1 else 0) ∧
    p'.closed = (p.closed || l.closes keepAlive) := by
  cases l with
  | tick =>
    cases Option.some.inj hstep
    simp [Label.readsHeader, Label.shutsDown, Label.answers, Label.closes]
  | wrote q ok =>
    rcases Machine.taken hstep with ⟨-, rfl⟩
    obtain ⟨hheaders, heofs, hanswered, hclosed⟩ :=
      afterWrite_history keepAlive limit q ok (p.writeDone q)
    exact ⟨hheaders, heofs, hanswered, hclosed⟩
  | _ =>
    rcases Machine.taken hstep with ⟨-, rfl⟩
    simp [Label.readsHeader, Label.shutsDown, Label.answers, Label.closes, State.headerDone]

/-- A shutdown from the request side comes when the header read completes, and leaves
the write side as it was. -/
theorem shutsDown_step {p p' : State ρ α} {l : Label ρ α}
    (hstep : step keepAlive limit p l = some p') (hl : l.shutsDown = true) :
    .header ∈ p.reads ∧ p'.queue = p.queue ∧ p'.writes = p.writes ∧ p'.closed = p.closed := by
  cases l with
  | endOfStream =>
    rcases Machine.taken hstep with ⟨hop, rfl⟩
    exact ⟨hop, rfl, rfl, rfl⟩
  | refused =>
    rcases Machine.taken hstep with ⟨hop, rfl⟩
    exact ⟨hop, rfl, rfl, rfl⟩
  | _ => cases hl

/-- Only a connection whose writing side is open has a write to complete. -/
theorem wrote_open {p p' : State ρ α} {q : Reply α} {ok : Bool} (h : Inv limit p)
    (hstep : step keepAlive limit p (.wrote q ok) = some p') : p.closed = false := by
  simp only [step, Option.ite_none_right_eq_some] at hstep
  exact (h.write.front hstep.1).1

end ServerAsync.Misc.Pipeline
