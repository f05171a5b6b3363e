import ServerAsync.SessionFrame

/-!
# How long a session reads

Nothing in `FileRequestHandler` starts the next read: a session that has answered a
file request is left without one, unless the queue is full or the connection is to
close. And nothing stops the read side when the write side closes: a header read
that is outstanding then is still dispatched.
-/

namespace ServerAsync.Session

open Misc Misc.Pipeline

variable {lib : Lib} {kind : Kind} {buffer : Text} {es : List SessionEvent} {s : Session}

theorem route_reply {req : Request} {files : Files} {r : Response}
    (h : route lib req files = .reply r) : r.keepAlive = lib.beast.keepAlive req := by
  have hr : FileRequestHandler.handleRequest lib.beast ".".toList req files.scan = r := by
    exact Route.reply.inj ((route_reply_scan h files.scan).symm.trans h)
  rw [← hr, FileRequestHandler.handleRequest_keepAlive]

/-! ## Connections that are not abandoned -/

/-- A request that goes to `FileRequestHandler` asks for the connection to be
closed, or comes when a queued response is going to close it, or takes the last
place in the queue. -/
def KeepsReading (lib : Lib) (s : Session) : SessionEvent → Prop
  | .headerRead req _ files => ∀ r, route lib req files = .reply r → s.ended = false →
      lib.beast.keepAlive req = false ∨
      (∃ q ∈ s.responseQueue, q.message.keepAlive = false) ∨
      queueLimit ≤ s.responseQueue.length + 1
  | _ => True

theorem resumes_of_keepsReading {s : Session} {e : SessionEvent} (h : KeepsReading lib s e) :
    Resumes Response.keepAlive queueLimit s.core (label lib e) := by
  cases e with
  | headerRead req bytes files =>
    show Resumes _ _ _ ((route lib req files).label req)
    cases hroute : route lib req files with
    | reply r =>
      intro hended
      rw [route_reply hroute]
      exact h r hroute hended
    | _ => trivial
  | _ => trivial

/-- In a run in which every request to `FileRequestHandler` keeps the session
reading, a connection that has not ended has an operation outstanding, and once a
response has been written and none is queued, the header read of the client's next
request, or the body read when that header has been read already. -/
theorem keepAlive_attended
    (hreads : (machine lib).Meets (KeepsReading lib) (run kind buffer) es)
    (hrun : (machine lib).run (run kind buffer) es = some s) :
    s.ended = false → (s.reads ≠ [] ∨ s.writes ≠ []) ∧
      (s.responseQueue = [] → s.answered ≠ [] →
        .header ∈ s.reads ∨ ∃ req, .body s.answered.length req ∈ s.reads) := by
  intro hended
  have hstart : Attended Response.keepAlive queueLimit (run kind buffer).core := by
    intro _
    cases kind <;> exact Or.inl (List.cons_ne_nil _ _)
  have hmeets := (session_refines lib).meets (Q := Resumes Response.keepAlive queueLimit)
    (fun _ _ h => resumes_of_keepsReading h) hreads hrun
  obtain ⟨hinv, hatt⟩ := attended_run inv_run_start hstart hmeets (core_run hrun)
  obtain ⟨hany, hidle⟩ := hatt.outstanding (by decide) hinv hended
  refine ⟨hany, fun hqueue hanswered => ?_⟩
  obtain ⟨op, hop⟩ := List.exists_mem_of_ne_nil _ (hidle hqueue)
  cases op with
  | opening =>
    -- nothing has been answered on a connection that is still opening
    have hqueued := hinv.write.answered_eq
    rw [(hinv.read.opening_count hop).1, List.append_eq_nil_iff] at hqueued
    exact absurd hqueued.1 hanswered
  | header => exact Or.inl hop
  | body number req =>
    have hnumber : s.answered.length = number := by
      have hqueued : s.answered ++ s.responseQueue = s.queued := hinv.write.answered_eq
      have hcount : s.queued.length = number := (hinv.read.body_count number req hop).1
      rw [← hcount, ← hqueued, hqueue, List.append_nil]
    right
    rw [hnumber]
    exact ⟨req, hop⟩

/-- An upload and its response meet the condition. -/
theorem keepAlive_attended_upload : ∃ s,
    (machine (Lib.plain [uploadRequest])).run (run .plain [])
      (upload 0 ++ [uploadWritten 0 true]) = some s ∧ s.ended = false ∧ s.responseQueue = [] ∧
    (.header ∈ s.reads ∨ ∃ req, .body s.answered.length req ∈ s.reads) := by
  obtain ⟨s, hrun, htest⟩ := Machine.run_of_any (machine (Lib.plain [uploadRequest]))
    (run .plain []) (upload 0 ++ [uploadWritten 0 true])
    (fun s => !s.ended && s.responseQueue.isEmpty && !s.answered.isEmpty)
    (by decide +kernel)
  simp only [Bool.and_eq_true, Bool.not_eq_true', List.isEmpty_iff, List.isEmpty_eq_false_iff]
    at htest
  obtain ⟨⟨hended, hqueue⟩, hanswered⟩ := htest
  have hroute : route (Lib.plain [uploadRequest]) uploadRequest noFiles = .upload := by
    decide +kernel
  have hreads : (machine (Lib.plain [uploadRequest])).Meets
      (KeepsReading (Lib.plain [uploadRequest])) (run .plain [])
      (upload 0 ++ [uploadWritten 0 true]) := by
    apply meets_upload
    · intro t e he
      cases e with
      | headerRead req bytes files => cases he
      | _ => trivial
    · intro t r hr
      rw [hroute] at hr
      cases hr
  exact ⟨s, hrun, hended, hqueue, (keepAlive_attended hreads hrun hended).2 hqueue hanswered⟩

/-- A request for a file, with keep-alive as HTTP/1.1 has it. -/
def fileRequest : Request where
  method := .get
  target := "/a".toList
  version := 11
  fields := []

/-- The response to `fileRequest` when there is no such file. -/
def fileResponse : Response :=
  FileRequestHandler.handleRequest (Beast.plain []) ".".toList fileRequest noFiles.scan

/-- After a file request has been answered nothing is outstanding, although the
response kept the connection alive. -/
theorem keepAlive_abandoned : ∃ s,
    (machine (Lib.plain [fileRequest])).run (run .plain [])
      (receive fileRequest ++ [.written ⟨0, fileResponse⟩ true]) = some s ∧
    fileResponse.keepAlive = true ∧ s.ended = false ∧ s.reads = [] ∧ s.writes = [] := by
  obtain ⟨s, hrun, htest⟩ := Machine.run_of_any (machine (Lib.plain [fileRequest]))
    (run .plain []) (receive fileRequest ++ [.written ⟨0, fileResponse⟩ true])
    (fun s => !s.ended && s.reads.isEmpty && s.writes.isEmpty) (by decide +kernel)
  simp only [Bool.and_eq_true, Bool.not_eq_true', List.isEmpty_iff] at htest
  exact ⟨s, hrun, by decide +kernel, htest.1.1, htest.1.2, htest.2⟩

/-! ## After the write side has closed -/

/-- When a write closes the connection, no read is outstanding. -/
def ClosesIdle (s : Session) (e : SessionEvent) : Prop := e.closes = true → s.reads = []

theorem closesQuietly_of_closesIdle {s : Session} {e : SessionEvent} (h : ClosesIdle s e) :
    ClosesQuietly Response.keepAlive s.core (label lib e) := by
  intro hcloses
  cases e with
  | headerRead req bytes files =>
    change Closes Response.keepAlive ((route lib req files).label req) at hcloses
    cases hroute : route lib req files <;> rw [hroute] at hcloses <;> exact hcloses.elim
  | written q ok =>
    apply h
    change ok = false ∨ q.message.keepAlive = false at hcloses
    show (!ok || !q.message.keepAlive) = true
    rcases hcloses with hok | hka
    · simp [hok]
    · simp [hka]
  | _ => exact hcloses.elim

/-- With nothing to read and to write, a session only waits for its shutdown. -/
theorem step_of_nothing {s' : Session} {e : SessionEvent} (hreads : s.reads = [])
    (hwrites : s.writes = []) (hstep : s.step lib e = some s') :
    e = .shutdown ∧ s' = { s with shutdowns := s.shutdowns - 1 } := by
  obtain ⟨-, hreact⟩ := (step_eq_some lib).mp hstep
  have hread : ∀ op, op ∉ s.reads := fun op => hreads ▸ List.not_mem_nil
  cases e with
  | arrive bytes =>
    have hany := (Machine.taken hreact).1
    rw [hreads] at hany
    cases hany
  | handshake bytesUsed => exact absurd (Machine.taken hreact).1 (hread _)
  | headerRead req bytes files => exact absurd (Machine.taken hreact).1.1 (hread _)
  | endOfStream => exact absurd (Machine.taken hreact).1 (hread _)
  | bodyRead number req => exact absurd (Machine.taken hreact).1.1 (hread _)
  | readFailed op => exact absurd (Machine.taken hreact).1 (hread _)
  | written q ok =>
    have hq := (Machine.taken hreact).1
    rw [hwrites] at hq
    cases hq
  | shutdown =>
    obtain ⟨-, rfl⟩ := Machine.taken hreact
    exact ⟨rfl, rfl⟩

/-- What a session does with nothing to read and to write. -/
theorem run_of_nothing {fs : List SessionEvent} {s' : Session} (hreads : s.reads = [])
    (hwrites : s.writes = []) (hrun : (machine lib).run s fs = some s') :
    (∀ e ∈ fs, e = .shutdown) ∧ s' = { s with shutdowns := s'.shutdowns } := by
  induction fs generalizing s with
  | nil =>
    cases Option.some.inj hrun
    exact ⟨nofun, rfl⟩
  | cons e fs ih =>
    obtain ⟨mid, hmid, hrest⟩ := Machine.run_cons_eq_some.mp hrun
    obtain ⟨rfl, rfl⟩ := step_of_nothing hreads hwrites hmid
    obtain ⟨hall, hsame⟩ := ih (s := { s with shutdowns := s.shutdowns - 1 }) hreads hwrites hrest
    exact ⟨List.forall_mem_cons.mpr ⟨rfl, hall⟩, hsame⟩

/-- Once a write has closed the connection while nothing was being read, nothing happens to
the session any more but the end of its shutdown over SSL: no request is dispatched, no body
is stored and nothing is written. -/
theorem closed_dispatches_nothing (hidle : (machine lib).Meets ClosesIdle (run kind buffer) es)
    (hrun : (machine lib).run (run kind buffer) es = some s)
    (hclosed : es.any SessionEvent.closes = true) :
    ∀ fs s', (machine lib).run s fs = some s' →
      (∀ e ∈ fs, e = .shutdown) ∧ s' = { s with shutdowns := s'.shutdowns } := by
  intro fs s' hrun'
  have hc : s.core.closed = true := (closed_eq hrun).trans hclosed
  have hmeets := (session_refines lib).meets (Q := ClosesQuietly Response.keepAlive)
    (fun _ _ h => closesQuietly_of_closesIdle h) hidle hrun
  have hstart : Silent (run kind buffer).core := by
    intro hclosed'
    cases kind <;> cases hclosed'
  have hreads : s.reads = [] := silent_of_meets inv_run_start hstart hmeets (core_run hrun) hc
  have hwrites : s.writes = [] := (inv_of_run hrun).write.writes_eq.trans (if_pos hc)
  exact run_of_nothing hreads hwrites hrun'

/-- A request for a file after which the connection is to be closed. -/
def lastRequest : Request where
  method := .get
  target := "/a".toList
  version := 11
  fields := [(.connection, "close".toList)]

/-- The response to `lastRequest` when there is no such file. -/
def lastResponse : Response :=
  FileRequestHandler.handleRequest (Beast.plain []) ".".toList lastRequest noFiles.scan

/-- A file request closes the connection while nothing is being read. -/
theorem closed_dispatches_nothing_file : ∃ s,
    (machine (Lib.plain [lastRequest])).run (run .plain [])
      (receive lastRequest ++ [.written ⟨0, lastResponse⟩ true]) = some s ∧
    ∀ fs s', (machine (Lib.plain [lastRequest])).run s fs = some s' →
      (∀ e ∈ fs, e = .shutdown) ∧ s' = { s with shutdowns := s'.shutdowns } := by
  obtain ⟨mid, hmid, hreads⟩ := Machine.run_of_any (machine (Lib.plain [lastRequest]))
    (run .plain []) (receive lastRequest) (fun s => s.reads.isEmpty)
    (by decide +kernel)
  obtain ⟨s, hrun, -⟩ := Machine.run_of_any (machine (Lib.plain [lastRequest]))
    (run .plain []) (receive lastRequest ++ [.written ⟨0, lastResponse⟩ true])
    (fun _ => true) (by decide +kernel)
  refine ⟨s, hrun, closed_dispatches_nothing (Machine.meets_append ?_ ?_) hrun (by decide +kernel)⟩
  · apply Machine.meets_of_forall
    intro t e he hcloses
    simp only [receive, List.mem_cons, List.not_mem_nil, or_false] at he
    rcases he with rfl | rfl <;> cases hcloses
  · intro t ht
    rw [hmid] at ht
    cases ht
    exact ⟨fun _ => List.isEmpty_iff.mp hreads, fun _ _ => trivial⟩

/-- An upload that does not ask for keep-alive, so that its response closes the
connection. -/
def lastUpload : Request where
  method := .put
  target := "/upload/data".toList
  version := 11
  fields := []

/-- While the closing response to an upload is being written, the next header is
read; the upload it announces is dispatched after the connection has been
closed. -/
theorem closed_dispatches_upload : ∃ s s',
    (machine (Lib.plain [lastUpload])).run (run .plain [])
      (receive lastUpload ++ [.bodyRead 0 lastUpload,
        .written ⟨0, FileUploadHandler.response lastUpload⟩ true]) = some s ∧
    (FileUploadHandler.response lastUpload).keepAlive = false ∧
    (machine (Lib.plain [lastUpload])).run s (receive lastUpload) = some s' ∧
    s.dispatched = [lastUpload] ∧ s'.dispatched = [lastUpload, lastUpload] := by
  obtain ⟨s, hrun, htest⟩ := Machine.run_of_any (machine (Lib.plain [lastUpload]))
    (run .plain [])
    (receive lastUpload ++ [.bodyRead 0 lastUpload,
      .written ⟨0, FileUploadHandler.response lastUpload⟩ true])
    (fun s => s.dispatched == [lastUpload] &&
      ((machine (Lib.plain [lastUpload])).run s (receive lastUpload)).any fun s' =>
        s'.dispatched == [lastUpload, lastUpload]) (by decide +kernel)
  rw [Bool.and_eq_true] at htest
  obtain ⟨s', hrun', hafter⟩ := Machine.run_of_any _ _ _ _ htest.2
  exact ⟨s, s', hrun, by decide, hrun', beq_iff_eq.mp htest.1, beq_iff_eq.mp hafter⟩

end ServerAsync.Session
