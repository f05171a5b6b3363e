import ServerAsync.SessionRuns

/-!
# What the write side of a session leaves alone

`queue_write`, `do_write` and `on_write` touch nothing of the input, except that
`on_write` resumes reading when the queue was full. The requests given to the
handler only grow in number, and only the hand-off branches of `on_read` call
`release_stream`.
-/

namespace ServerAsync.Session

open Misc Misc.Pipeline

/-- Two sessions that have read, parsed and dispatched the same, and whose stream
has the same owner. -/
structure SameInput (s s' : Session) : Prop where
  reads : s'.reads = s.reads
  buffer : s'.buffer = s.buffer
  received : s'.received = s.received
  consumed : s'.consumed = s.consumed
  bodyLeft : s'.bodyLeft = s.bodyLeft
  parses : s'.parses = s.parses
  headers : s'.headers = s.headers
  dispatched : s'.dispatched = s.dispatched
  owner : s'.owner = s.owner
  fate : s'.fate = s.fate
  releases : s'.releases = s.releases

theorem doWrite_sameInput (s : Session) : SameInput s s.doWrite := by
  unfold doWrite
  split <;> exact ⟨rfl, rfl, rfl, rfl, rfl, rfl, rfl, rfl, rfl, rfl, rfl⟩

theorem queueWrite_sameInput (s : Session) (q : Reply Response) :
    SameInput s (s.queueWrite q) := by
  unfold queueWrite
  dsimp only
  split
  · obtain ⟨h₁, h₂, h₃, h₄, h₅, h₆, h₇, h₈, h₉, h₁₀, h₁₁⟩ := doWrite_sameInput
      { s with responseQueue := s.responseQueue ++ [q], queued := s.queued ++ [q] }
    exact ⟨h₁, h₂, h₃, h₄, h₅, h₆, h₇, h₈, h₉, h₁₀, h₁₁⟩
  · exact ⟨rfl, rfl, rfl, rfl, rfl, rfl, rfl, rfl, rfl, rfl, rfl⟩

/-- A completed write resumes reading. -/
def Resuming (s : Session) (q : Reply Response) (ok : Bool) : Prop :=
  ok = true ∧ q.message.keepAlive = true ∧ queueLimit ≤ s.responseQueue.length

theorem onWrite_sameInput {s : Session} {q : Reply Response} {ok : Bool}
    (h : ¬ s.Resuming q ok) : SameInput s (s.onWrite q ok) := by
  unfold onWrite
  split
  · exact ⟨rfl, rfl, rfl, rfl, rfl, rfl, rfl, rfl, rfl, rfl, rfl⟩
  split
  · exact ⟨rfl, rfl, rfl, rfl, rfl, rfl, rfl, rfl, rfl, rfl, rfl⟩
  · have hroom : ¬ queueLimit ≤ s.responseQueue.length := by
      intro hfull
      exact h ⟨by simp_all, by simp_all, hfull⟩
    rw [if_neg hroom]
    obtain ⟨h₁, h₂, h₃, h₄, h₅, h₆, h₇, h₈, h₉, h₁₀, h₁₁⟩ := doWrite_sameInput
      { s with responseQueue := s.responseQueue.tail, answered := s.answered ++ [q] }
    exact ⟨h₁, h₂, h₃, h₄, h₅, h₆, h₇, h₈, h₉, h₁₀, h₁₁⟩

theorem onWrite_resuming {s : Session} {q : Reply Response} {ok : Bool}
    (h : s.Resuming q ok) : SameInput s.doRead (s.onWrite q ok) := by
  obtain ⟨rfl, hka, hfull⟩ := h
  unfold onWrite
  rw [if_neg (by simp), if_neg (by simp [hka]), if_pos hfull]
  obtain ⟨h₁, h₂, h₃, h₄, h₅, h₆, h₇, h₈, h₉, h₁₀, h₁₁⟩ := doWrite_sameInput
    { s.doRead with
      responseQueue := s.doRead.responseQueue.tail, answered := s.doRead.answered ++ [q] }
  exact ⟨h₁, h₂, h₃, h₄, h₅, h₆, h₇, h₈, h₉, h₁₀, h₁₁⟩

/-- On a written response the session dispatches and releases nothing. -/
theorem onWrite_frame (s : Session) (q : Reply Response) (ok : Bool) :
    (s.onWrite q ok).dispatched = s.dispatched ∧ (s.onWrite q ok).releases = s.releases := by
  by_cases h : s.Resuming q ok
  · have hsame := onWrite_resuming h
    exact ⟨hsame.dispatched, hsame.releases⟩
  · have hsame := onWrite_sameInput h
    exact ⟨hsame.dispatched, hsame.releases⟩

theorem uploadOnRead_frame (s : Session) (number : Nat) (req : Request) :
    (FileUploadHandler.onRead s number req).dispatched = s.dispatched ∧
    (FileUploadHandler.onRead s number req).releases = s.releases := by
  have hsame := queueWrite_sameInput s ⟨number, FileUploadHandler.response req⟩
  unfold FileUploadHandler.onRead continueReadIfNeeded
  split <;> exact ⟨hsame.dispatched, hsame.releases⟩

theorem doEof_sameInput (s : Session) (side : Side) : SameInput s (s.doEof side) :=
  ⟨rfl, rfl, rfl, rfl, rfl, rfl, rfl, rfl, rfl, rfl, rfl⟩

/-- Two sessions that have got equally far; the buffer and the owner of the stream
may differ. -/
structure SameProgress (s s' : Session) : Prop where
  reads : s'.reads = s.reads
  writes : s'.writes = s.writes
  responseQueue : s'.responseQueue = s.responseQueue
  received : s'.received = s.received
  consumed : s'.consumed = s.consumed
  bodyLeft : s'.bodyLeft = s.bodyLeft
  parses : s'.parses = s.parses
  headers : s'.headers = s.headers
  dispatched : s'.dispatched = s.dispatched

/-- Starting a copier changes the buffer and the owner only. -/
theorem startCopier_sameProgress (s : Session) (started : Except Exn Copier)
    (owner : Copier → Owner) : SameProgress s (s.startCopier started owner) := by
  cases started <;> exact ⟨rfl, rfl, rfl, rfl, rfl, rfl, rfl, rfl, rfl⟩

variable {lib : Lib} {s s' : Session}

/-- The handler is given one request at most. -/
theorem dispatched_step {e : SessionEvent} (hstep : s.step lib e = some s') :
    s.dispatched <+: s'.dispatched := by
  obtain ⟨-, hreact⟩ := (step_eq_some lib).mp hstep
  cases e with
  | headerRead req bytes files =>
    rcases Machine.taken hreact with ⟨-, rfl⟩
    rw [onRead_eq]
    cases route lib req files with
    | websocket => exact List.prefix_rfl
    | tunnel =>
      rw [onRoute, (startCopier_sameProgress _ _ _).dispatched]
      exact List.prefix_rfl
    | proxy =>
      rw [onRoute, (startCopier_sameProgress _ _ _).dispatched]
      exact List.prefix_rfl
    | refuse => exact List.prefix_append _ _
    | upload => exact List.prefix_append _ _
    | reply r =>
      show s.dispatched <+: (queueWrite _ _).dispatched
      rw [(queueWrite_sameInput _ _).dispatched]
      exact List.prefix_append _ _
  | bodyRead number req =>
    rcases Machine.taken hreact with ⟨-, rfl⟩
    rw [(uploadOnRead_frame _ _ _).1]
    exact List.prefix_rfl
  | written q ok =>
    rcases Machine.taken hreact with ⟨-, rfl⟩
    rw [(onWrite_frame _ _ _).1]
  | _ =>
    rcases Machine.taken hreact with ⟨-, rfl⟩
    exact List.prefix_rfl

theorem dispatched_run {fs : List SessionEvent} (hrun : (machine lib).run s fs = some s') :
    s.dispatched <+: s'.dispatched :=
  Machine.run_relation (I := fun _ => True)
    (R := fun s s' : Session => s.dispatched <+: s'.dispatched)
    (fun _ => List.prefix_rfl) (fun _ _ _ h₁ h₂ => h₁.trans h₂)
    (fun _ _ _ _ hstep => ⟨trivial, dispatched_step hstep⟩) trivial hrun

/-- `release_stream` is called only when a header was read that is handed off. -/
theorem releases_step {e : SessionEvent} (hstep : s.step lib e = some s')
    (hrel : s'.releases ≠ s.releases) : label lib e = .released := by
  obtain ⟨-, hreact⟩ := (step_eq_some lib).mp hstep
  cases e with
  | headerRead req bytes files =>
    rcases Machine.taken hreact with ⟨-, rfl⟩
    rw [onRead_eq] at hrel
    show (route lib req files).label req = .released
    cases hroute : route lib req files with
    | websocket => rfl
    | tunnel => rfl
    | proxy => rfl
    | refuse =>
      rw [hroute] at hrel
      exact absurd rfl hrel
    | upload =>
      rw [hroute] at hrel
      exact absurd rfl hrel
    | reply r =>
      rw [hroute] at hrel
      exact absurd (queueWrite_sameInput _ _).releases hrel
  | bodyRead number req =>
    rcases Machine.taken hreact with ⟨-, rfl⟩
    exact absurd (uploadOnRead_frame _ _ _).2 hrel
  | written q ok =>
    rcases Machine.taken hreact with ⟨-, rfl⟩
    exact absurd (onWrite_frame _ _ _).2 hrel
  | _ =>
    rcases Machine.taken hreact with ⟨-, rfl⟩
    exact absurd rfl hrel

end ServerAsync.Session
