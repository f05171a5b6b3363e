import ServerAsync.SessionRuns

/-!
# The queue of a session

Responses leave in the order of their requests, one at a time, and none is
forgotten as long as the connection goes on; reading is paused so that neither the
queue nor the number of reads grows beyond its bound.
-/

namespace ServerAsync.Session

open Misc Misc.Pipeline

/-- The queued responses in the order in which the headers of their requests were
read. -/
def responsesInHeaderOrder (s : Session) : List (Reply Response) :=
  (List.range s.headers.length).filterMap fun i => s.queued.find? fun q => q.request == i

variable {lib : Lib} {kind : Kind} {buffer : Text} {es : List SessionEvent} {s : Session}

theorem responsesInHeaderOrder_eq (h : Pipeline.Inv queueLimit s.core) :
    s.responsesInHeaderOrder = s.queued := by
  have horder := replies_in_order h.read.numbers s.headers.length
  exact horder.trans (List.take_of_length_le h.read.count_le)

/-- In every run, the responses handed to `async_write` are the first ones in the
order of the headers, each once, one at a time; a write is in flight exactly when
a response is queued, as long as no write has failed and no response has closed
the connection; and from then on no write starts. -/
theorem responses_pipelined (hrun : (machine lib).run (run kind buffer) es = some s) :
    s.handed <+: s.responsesInHeaderOrder ∧
    (s.handed.map Reply.request).Nodup ∧
    s.writes.length ≤ 1 ∧
    (es.any SessionEvent.closes = false → (s.writes ≠ [] ↔ s.responseQueue ≠ [])) ∧
    (es.any SessionEvent.closes = true →
      ∀ fs s', (machine lib).run s fs = some s' → s'.handed = s.handed) := by
  have hinv := inv_of_run hrun
  have hclosed := closed_eq hrun
  refine ⟨?_, hinv.handed_nodup, ?_, ?_, ?_⟩
  · rw [responsesInHeaderOrder_eq hinv]
    exact hinv.handed_prefix
  · show s.core.writes.length ≤ 1
    rw [hinv.write.writes_eq]
    split
    · exact Nat.zero_le _
    · exact List.length_take_le _ _
  · intro hany
    exact hinv.write.writes_ne_nil_iff (hclosed.trans hany)
  · intro hany fs s' hrun'
    exact closed_run hinv (hclosed.trans hany) (core_run hrun')

/-- Two uploads, the second of them read while the response to the first is in
flight, after which the first write fails. -/
theorem responses_pipelined_uploads : ∃ s,
    (machine (Lib.plain [uploadRequest])).run (run .plain [])
      (upload 0 ++ upload 1 ++ [uploadWritten 0 false]) = some s ∧
    s.handed <+: s.responsesInHeaderOrder ∧ (s.handed.map Reply.request).Nodup ∧
    s.writes.length ≤ 1 ∧
    ∀ fs s', (machine (Lib.plain [uploadRequest])).run s fs = some s' → s'.handed = s.handed := by
  obtain ⟨s, hrun, -⟩ := Machine.run_of_any (machine (Lib.plain [uploadRequest]))
    (run .plain []) (upload 0 ++ upload 1 ++ [uploadWritten 0 false])
    (fun _ => true) (by decide +kernel)
  obtain ⟨hfront, hnodup, hwrites, -, hclosed⟩ := responses_pipelined hrun
  exact ⟨s, hrun, hfront, hnodup, hwrites, hclosed (by decide)⟩

/-- In every run at most one read is outstanding, and the queue stays within its
limit. -/
theorem reads_disciplined (hrun : (machine lib).run (run kind buffer) es = some s) :
    s.reads.length ≤ 1 ∧ s.responseQueue.length ≤ queueLimit := by
  have hinv := inv_of_run hrun
  exact ⟨hinv.read.reads_le, hinv.read.queue_le⟩

/-- Eight uploads fill the queue; the write that makes room starts the next read. -/
theorem reads_disciplined_full : ∃ s,
    (machine (Lib.plain [uploadRequest])).run (run .plain [])
      ((List.range queueLimit).flatMap upload ++ [uploadWritten 0 true]) = some s ∧
    s.reads.length ≤ 1 ∧ s.responseQueue.length ≤ queueLimit := by
  obtain ⟨s, hrun, -⟩ := Machine.run_of_any (machine (Lib.plain [uploadRequest]))
    (run .plain [])
    ((List.range queueLimit).flatMap upload ++ [uploadWritten 0 true])
    (fun s => s.reads == [.header]) (by decide +kernel)
  exact ⟨s, hrun, reads_disciplined hrun⟩

end ServerAsync.Session
