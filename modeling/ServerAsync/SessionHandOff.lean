import ServerAsync.SessionFrame

/-!
# What the request side cuts off

The upload handler starts the next header read while its response is being
written. If that read completes first, the stream is given away, or its sending
side is shut down, under the write loop. Both happen exactly when the header read
overtakes a write.
-/

namespace ServerAsync.Session

open Misc Misc.Pipeline

variable {lib : Lib} {kind : Kind} {buffer : Text} {es : List SessionEvent} {s s' : Session}
  {e : SessionEvent}

/-- When `on_read` calls `release_stream`, the session is idle, and never uses the
stream again, exactly when as many responses have been written, each allowing the
connection to go on, as headers had been read. -/
theorem handOff_idle_iff (hrun : (machine lib).run (run kind buffer) es = some s)
    (hstep : s.step lib e = some s') (hrelease : s'.releases ≠ s.releases) :
    (s'.responseQueue = [] ∧ s'.reads = [] ∧ s'.writes = [] ∧
      ∀ fs t, (machine lib).run s' fs = some t → t.uses = s'.uses) ↔
    es.countP SessionEvent.answers = es.countP SessionEvent.readsHeader := by
  have hinv := inv_of_run hrun
  have hcore := core_step hstep
  rw [releases_step hstep hrelease] at hcore
  rcases Machine.taken hcore with ⟨hop, hs'⟩
  have hqueue : s'.responseQueue = s.responseQueue := (congrArg State.queue hs').symm
  have hcounts : s.responseQueue = [] ↔
      es.countP SessionEvent.answers = es.countP SessionEvent.readsHeader := by
    rw [← answered_length hrun, ← headers_length hrun]
    exact hinv.queue_eq_nil_iff hop
  rw [hqueue, ← hcounts]
  constructor
  · intro h
    exact h.1
  · intro hnil
    have hreads : s'.core.reads = [] := by
      rw [← hs']
      exact hinv.read.erase_eq hop
    have hwrites : s'.core.writes = [] := by
      rw [← hs']
      exact hinv.writes_eq_nil hnil
    refine ⟨hnil, hreads, hwrites, fun fs t hrun' => ?_⟩
    exact congrArg State.uses (idle_run hreads hwrites (core_run hrun'))

/-- A tunnel is opened after the response to an upload has been written. -/
theorem handOff_idle_iff_tunnel : ∃ s s',
    (machine (Lib.plain [uploadRequest, tunnelRequest])).run (run .plain [])
      (upload 0 ++ [uploadWritten 0 true, .arrive tunnelRequest.text]) = some s ∧
    s.step (Lib.plain [uploadRequest, tunnelRequest])
      (.headerRead tunnelRequest tunnelRequest.text.length noFiles) = some s' ∧
    s'.releases ≠ s.releases ∧ s'.responseQueue = [] ∧ s'.reads = [] ∧ s'.writes = [] := by
  obtain ⟨s, hrun, htest⟩ := Machine.run_of_any
    (machine (Lib.plain [uploadRequest, tunnelRequest]))
    (run .plain [])
    (upload 0 ++ [uploadWritten 0 true, .arrive tunnelRequest.text])
    (fun s => (s.step (Lib.plain [uploadRequest, tunnelRequest])
      (.headerRead tunnelRequest tunnelRequest.text.length noFiles)).any fun s' =>
        s'.releases != s.releases) (by decide +kernel)
  rw [Option.any_eq_true] at htest
  obtain ⟨s', hstep, hrelease⟩ := htest
  have hrelease : s'.releases ≠ s.releases := by simpa using hrelease
  obtain ⟨hqueue, hreads, hwrites, -⟩ := (handOff_idle_iff hrun hstep hrelease).mpr (by decide)
  exact ⟨s, s', hrun, hstep, hrelease, hqueue, hreads, hwrites⟩

/-- A tunnel is opened while the response to an upload is being written. -/
theorem handOff_busy : ∃ s s',
    (machine (Lib.plain [uploadRequest, tunnelRequest])).run (run .plain [])
      (upload 0 ++ [.arrive tunnelRequest.text]) = some s ∧
    s.step (Lib.plain [uploadRequest, tunnelRequest])
      (.headerRead tunnelRequest tunnelRequest.text.length noFiles) = some s' ∧
    s'.releases ≠ s.releases ∧ s'.responseQueue ≠ [] ∧ s'.writes ≠ [] := by
  obtain ⟨s, hrun, htest⟩ := Machine.run_of_any
    (machine (Lib.plain [uploadRequest, tunnelRequest]))
    (run .plain [])
    (upload 0 ++ [.arrive tunnelRequest.text])
    (fun s => (s.step (Lib.plain [uploadRequest, tunnelRequest])
      (.headerRead tunnelRequest tunnelRequest.text.length noFiles)).any fun s' =>
        s'.releases != s.releases && !s'.responseQueue.isEmpty && !s'.writes.isEmpty)
    (by decide +kernel)
  rw [Option.any_eq_true] at htest
  obtain ⟨s', hstep, hbusy⟩ := htest
  simp only [Bool.and_eq_true, bne_iff_ne, Bool.not_eq_true', List.isEmpty_eq_false_iff] at hbusy
  exact ⟨s, s', hrun, hstep, hbusy.1.1, hbusy.1.2, hbusy.2⟩

/-! ## Shutting down from the request side -/

/-- The queued responses that have not been written. The front of a queue that a
response has closed has been written and is left there. -/
def unwritten (s : Session) : List (Reply Response) :=
  if s.closed then s.responseQueue.tail else s.responseQueue

/-- No response is cut off: none is waiting or being written, unless a write has
failed by itself. -/
def NothingCutOff (es : List SessionEvent) (s : Session) : Prop :=
  (∃ q, .written q false ∈ es) ∨ (s.unwritten = [] ∧ s.writes = [])

/-- When the request side calls `do_eof`, no response is cut off exactly when as many
writes have completed as headers had been read, or a write has failed. -/
theorem shutdown_cuts_nothing_iff (hrun : (machine lib).run (run kind buffer) es = some s)
    (hstep : s.step lib e = some s') (heof : s'.eofs ≠ s.eofs) :
    NothingCutOff es s' ↔ (∃ q, .written q false ∈ es) ∨
      es.countP SessionEvent.writes = es.countP SessionEvent.readsHeader := by
  apply or_congr_right
  have hinv := inv_of_run hrun
  have hshut : (label lib e).shutsDown = true := by
    by_contra hno
    apply heof
    have heofs := (history_step (core_step hstep)).2.1
    rw [if_neg hno] at heofs
    exact heofs
  obtain ⟨hop, hqueue, hwrites, hclosed⟩ := shutsDown_step (core_step hstep) hshut
  change s'.responseQueue = s.responseQueue at hqueue
  change s'.writes = s.writes at hwrites
  change s'.closed = s.closed at hclosed
  -- every header has its response in the queue or behind it
  have hlen : s.answered.length + s.responseQueue.length = s.headers.length := by
    have hanswered := congrArg List.length hinv.write.answered_eq
    rw [List.length_append, hinv.read.header_count hop] at hanswered
    exact hanswered
  have hwritesEq : s.writes = if s.closed then [] else s.responseQueue.take 1 :=
    hinv.write.writes_eq
  rw [← writes_count hrun, ← headers_length hrun, ← hlen]
  unfold unwritten
  rw [hqueue, hwrites, hclosed, hwritesEq]
  cases hc : s.closed with
  | false =>
    cases s.responseQueue with
    | nil => simp
    | cons q rest => simp
  | true =>
    cases hresponses : s.responseQueue with
    | nil => exact absurd hresponses (hinv.write.closed_queue hc)
    | cons q rest =>
      cases rest with
      | nil => simp
      | cons r rest => simp

/-- The client half-closes after the response to its upload has been written. -/
theorem shutdown_cuts_nothing_iff_upload : ∃ s s',
    (machine (Lib.plain [uploadRequest])).run (run .plain [])
      (upload 0 ++ [uploadWritten 0 true]) = some s ∧
    s.step (Lib.plain [uploadRequest]) .endOfStream = some s' ∧ s'.eofs ≠ s.eofs ∧
    NothingCutOff (upload 0 ++ [uploadWritten 0 true]) s' := by
  obtain ⟨s, hrun, htest⟩ := Machine.run_of_any (machine (Lib.plain [uploadRequest]))
    (run .plain []) (upload 0 ++ [uploadWritten 0 true])
    (fun s => (s.step (Lib.plain [uploadRequest]) .endOfStream).any fun s' =>
      s'.eofs != s.eofs) (by decide +kernel)
  rw [Option.any_eq_true] at htest
  obtain ⟨s', hstep, heof⟩ := htest
  have heof : s'.eofs ≠ s.eofs := by simpa using heof
  exact ⟨s, s', hrun, hstep, heof,
    (shutdown_cuts_nothing_iff hrun hstep heof).mpr (Or.inr (by decide))⟩

/-- The client half-closes while the response to its upload is being written. -/
theorem shutdown_cuts_response : ∃ s s',
    (machine (Lib.plain [uploadRequest])).run (run .plain []) (upload 0) = some s ∧
    s.step (Lib.plain [uploadRequest]) .endOfStream = some s' ∧ s'.eofs ≠ s.eofs ∧
    ¬ NothingCutOff (upload 0) s' := by
  obtain ⟨s, hrun, htest⟩ := Machine.run_of_any (machine (Lib.plain [uploadRequest]))
    (run .plain []) (upload 0)
    (fun s => (s.step (Lib.plain [uploadRequest]) .endOfStream).any fun s' =>
      s'.eofs != s.eofs && !s'.writes.isEmpty) (by decide +kernel)
  rw [Option.any_eq_true] at htest
  obtain ⟨s', hstep, hcut⟩ := htest
  simp only [Bool.and_eq_true, bne_iff_ne, Bool.not_eq_true', List.isEmpty_eq_false_iff] at hcut
  refine ⟨s, s', hrun, hstep, hcut.1, ?_⟩
  rintro (⟨q, hq⟩ | ⟨-, hwrites⟩)
  · simp [upload, receive] at hq
  · exact hcut.2 hwrites

end ServerAsync.Session
