import ServerAsync.Misc.Delimited
import ServerAsync.SessionAnswer

/-!
# Where the responses end

A client that gets the responses of a session one behind the other has to find out where
each of them ends. The response to an upload has no `Content-Length`, and the error pages
for a HEAD request have a body.
-/

namespace ServerAsync

open Misc Misc.Pipeline

/-- `http::response_header`, as far as the handlers set it. -/
structure ResponseHead where
  status : Status
  version : Nat
  server : Option Text
  contentType : Option Text
  contentLength : Option Nat
  keepAlive : Bool
  deriving DecidableEq, Repr

def Response.head (m : Response) : ResponseHead :=
  ⟨m.status, m.version, m.server, m.contentType, m.contentLength, m.keepAlive⟩

def Response.parts (m : Response) : ResponseHead × Text := (m.head, m.body)

/-- The size of a response's body as HTTP has it: there is none for a HEAD request, and
without a `Content-Length` it ends with the connection. -/
def bodySize (req : Option Request) (head : ResponseHead) : Option Nat :=
  if req.any fun r => r.method == .head then some 0 else head.contentLength

/-! ## The responses of the handlers -/

/-- Every response of `FileRequestHandler` has the length of its body, but for a HEAD request
that finds its file. -/
theorem handleRequest_contentLength (beast : Beast) (docRoot : Text) (req0 : Request)
    (scan : Text → Opened) (hget : req0.method ≠ .head) :
    (FileRequestHandler.handleRequest beast docRoot req0 scan).contentLength =
      some (FileRequestHandler.handleRequest beast docRoot req0 scan).body.length := by
  unfold FileRequestHandler.handleRequest
  split
  · rfl
  split
  · rfl
  split <;> rfl

theorem route_reply {lib : Lib} {req : Request} {files : Files} {r : Response}
    (h : route lib req files = .reply r) : ¬isUpload req ∧
      r = FileRequestHandler.handleRequest lib.beast ".".toList req files.scan := by
  unfold route at h
  split at h
  · cases h
  split at h
  · cases h
  split at h
  · cases h
  split at h
  · cases h
  split at h
  · split at h <;> cases h
  · rename_i hother
    cases h
    exact ⟨hother, rfl⟩

theorem route_upload {lib : Lib} {req : Request} {files : Files}
    (h : route lib req files = .upload) : isUpload req := by
  unfold route at h
  split at h
  · cases h
  split at h
  · cases h
  split at h
  · cases h
  split at h
  · cases h
  split at h
  · assumption
  · cases h

variable {lib : Lib} {req : Request} {res : Response}

/-- A response says how long its body is unless it is an error page for a HEAD request, or
answers an upload with another method. -/
theorem sized_iff (h : Answers lib req res) :
    HeadCoding.Sized (bodySize (some req)) res.parts ↔
      if req.method = .head then res.status = .ok else ¬isUpload req := by
  obtain ⟨files, hroute | ⟨hroute, rfl⟩⟩ := h
  · obtain ⟨hother, rfl⟩ := route_reply hroute
    by_cases hhead : req.method = .head
    · rw [if_pos hhead, ← FileRequestHandler.handleRequest_head_body hhead,
        ← List.length_eq_zero_iff]
      simp [HeadCoding.Sized, bodySize, hhead, Response.parts, eq_comm]
    · rw [if_neg hhead]
      refine iff_of_true ?_ hother
      simpa [HeadCoding.Sized, bodySize, hhead, Response.parts, Response.head] using
        handleRequest_contentLength lib.beast ".".toList req files.scan hhead
  · have hupload := route_upload hroute
    by_cases hhead : req.method = .head
    · rw [if_pos hhead]
      refine iff_of_true ?_ rfl
      simp [HeadCoding.Sized, bodySize, hhead, Response.parts, FileUploadHandler.response]
    · rw [if_neg hhead]
      refine iff_of_false ?_ (not_not_intro hupload)
      simp [HeadCoding.Sized, bodySize, hhead, Response.parts, Response.head,
        FileUploadHandler.response]

/-- At the end of the connection the response to an upload has its end, too. -/
theorem ends_iff (h : Answers lib req res) :
    bodySize (some req) res.parts.1 = none ∨ HeadCoding.Sized (bodySize (some req)) res.parts ↔
      (req.method = .head → res.status = .ok) := by
  rw [sized_iff h]
  by_cases hhead : req.method = .head
  · simp [bodySize, hhead]
  · simp only [hhead, if_false, false_implies, iff_true]
    obtain ⟨files, hroute | ⟨-, rfl⟩⟩ := h
    · exact Or.inr (route_reply hroute).1
    · left
      simp [bodySize, hhead, Response.parts, Response.head, FileUploadHandler.response]

/-! ## Runs -/

namespace Session

variable {s s' : Session} {e : SessionEvent}

/-- Every response that was queued answers the request with its number, and a body is read
for an upload. -/
structure Replies (lib : Lib) (s : Session) : Prop where
  queued : ∀ q ∈ s.queued, ∃ req, s.headers[q.request]? = some req ∧ Answers lib req q.message
  bodies : ∀ number req, .body number req ∈ s.reads → s.headers[number]? = some req ∧
    ∃ files, route lib req files = .upload

theorem getElem?_of_front {xs ys : List Request} {k : Nat} {req : Request} (h : xs <+: ys)
    (hreq : xs[k]? = some req) : ys[k]? = some req := by
  obtain ⟨more, rfl⟩ := h
  exact (List.getElem?_append_left (List.getElem?_eq_some_iff.mp hreq).1).trans hreq

/-- What was true of the requests so far stays true. -/
theorem Replies.grow (h : Replies lib s) (hheaders : s.headers <+: s'.headers)
    (hqueued : ∀ q ∈ s'.queued, q ∈ s.queued ∨
      ∃ req, s'.headers[q.request]? = some req ∧ Answers lib req q.message)
    (hbodies : ∀ number req, .body number req ∈ s'.reads → .body number req ∈ s.reads ∨
      s'.headers[number]? = some req ∧ ∃ files, route lib req files = .upload) :
    Replies lib s' where
  queued q hq := by
    rcases hqueued q hq with hold | hnew
    · obtain ⟨req, hreq, hanswers⟩ := h.queued q hold
      exact ⟨req, getElem?_of_front hheaders hreq, hanswers⟩
    · exact hnew
  bodies number req hop := by
    rcases hbodies number req hop with hold | hnew
    · obtain ⟨hreq, hroute⟩ := h.bodies number req hold
      exact ⟨getElem?_of_front hheaders hreq, hroute⟩
    · exact hnew

theorem replies_run (lib : Lib) (kind : Kind) (buffer : Text) :
    Replies lib (run kind buffer) := by
  cases kind with
  | plain =>
    refine ⟨fun q hq => ?_, fun number req hop => ?_⟩
    · cases hq
    · cases List.mem_singleton.mp hop
  | ssl =>
    refine ⟨fun q hq => ?_, fun number req hop => ?_⟩
    · cases hq
    · cases List.mem_singleton.mp hop

/-- The write loop answers nothing new. -/
theorem Replies.congr (h : Replies lib s) (hsame : SameInput s s')
    (hqueued : s'.queued = s.queued) : Replies lib s' := by
  refine h.grow (hsame.headers ▸ List.prefix_rfl) (fun q hq => ?_) fun number req hop => ?_
  · rw [hqueued] at hq
    exact Or.inl hq
  · rw [hsame.reads] at hop
    exact Or.inl hop

/-- A read starts that is not one of a body. -/
theorem Replies.read (h : Replies lib s) {op : Read Request}
    (hop : ∀ number req, op ≠ .body number req) (parses : List Nat) (uses : Nat) :
    Replies lib { s with reads := s.reads ++ [op], parses := parses, uses := uses } := by
  refine h.grow List.prefix_rfl (fun q hq => Or.inl hq) fun number req hmem => ?_
  rcases List.mem_append.mp hmem with hold | hnew
  · exact Or.inl hold
  · exact absurd (List.mem_singleton.mp hnew).symm (hop number req)

theorem Replies.doRead (h : Replies lib s) : Replies lib s.doRead :=
  h.read (fun _ _ => by simp) _ _

theorem Replies.erase (h : Replies lib s) (op : Read Request) :
    Replies lib { s with reads := s.reads.erase op } :=
  h.grow List.prefix_rfl (fun _ hq => Or.inl hq) fun _ _ hop => Or.inl (List.mem_of_mem_erase hop)

/-- A header has been read, and goes its way. -/
theorem Replies.headerRead (h : Replies lib s) (req : Request) (bytes : Nat) (files : Files) :
    Replies lib ((s.takeHeader lib req bytes).onRoute lib s.headers.length req
      (route lib req files)) := by
  have htaken : Replies lib (s.takeHeader lib req bytes) :=
    h.grow (List.prefix_append _ _) (fun q hq => Or.inl hq)
      fun number req hop => Or.inl (List.mem_of_mem_erase hop)
  have hnumber : (s.takeHeader lib req bytes).headers[s.headers.length]? = some req :=
    List.getElem?_concat_length
  have hdispatched : Replies lib ((s.takeHeader lib req bytes).dispatch req) :=
    ⟨htaken.queued, htaken.bodies⟩
  have hcopier : ∀ started owner,
      Replies lib ((s.takeHeader lib req bytes).startCopier started owner) := by
    intro started owner
    cases started <;> exact ⟨htaken.queued, htaken.bodies⟩
  cases hroute : route lib req files with
  | websocket => exact ⟨htaken.queued, htaken.bodies⟩
  | tunnel =>
    rw [onRoute]
    exact hcopier _ _
  | proxy =>
    rw [onRoute]
    exact hcopier _ _
  | refuse => exact hdispatched.congr (doEof_sameInput _ .request) rfl
  | upload =>
    refine hdispatched.grow List.prefix_rfl (fun q hq => Or.inl hq) fun number req' hop => ?_
    rcases List.mem_append.mp hop with hold | hnew
    · exact Or.inl hold
    · cases List.mem_singleton.mp hnew
      exact Or.inr ⟨hnumber, files, hroute⟩
  | reply r =>
    rw [onRoute]
    have hsame := queueWrite_sameInput
      ((s.takeHeader lib req bytes).dispatch req) ⟨s.headers.length, r⟩
    refine hdispatched.grow (hsame.headers ▸ List.prefix_rfl) (fun q hq => ?_)
      fun number req' hop => ?_
    · rw [HttpServer.queueWrite_queued] at hq
      rcases List.mem_append.mp hq with hold | hnew
      · exact Or.inl hold
      · rw [List.mem_singleton.mp hnew, hsame.headers]
        exact Or.inr ⟨req, hnumber, files, Or.inl hroute⟩
    · rw [hsame.reads] at hop
      exact Or.inl hop

/-- The body of an upload has been read, and is answered. -/
theorem Replies.bodyRead (h : Replies lib s) {number : Nat} (hop : .body number req ∈ s.reads) :
    Replies lib (FileUploadHandler.onRead (s.takeBody lib number req) number req) := by
  obtain ⟨hreq, files, hroute⟩ := h.bodies number req hop
  have hsame := queueWrite_sameInput (s.takeBody lib number req)
    ⟨number, FileUploadHandler.response req⟩
  have hqueued : Replies lib
      ((s.takeBody lib number req).queueWrite ⟨number, FileUploadHandler.response req⟩) := by
    refine h.grow (hsame.headers ▸ List.prefix_rfl) (fun q hq => ?_) fun number' req' hop' => ?_
    · rw [HttpServer.queueWrite_queued] at hq
      rcases List.mem_append.mp hq with hold | hnew
      · exact Or.inl hold
      · rw [List.mem_singleton.mp hnew, hsame.headers]
        exact Or.inr ⟨req, hreq, files, Or.inr ⟨hroute, rfl⟩⟩
    · rw [hsame.reads] at hop'
      exact Or.inl (List.mem_of_mem_erase hop')
  rw [FileUploadHandler.onRead, continueReadIfNeeded]
  split
  · exact hqueued.doRead
  · exact hqueued

theorem replies_step (h : Replies lib s) (hstep : s.step lib e = some s') : Replies lib s' := by
  obtain ⟨-, hreact⟩ := (step_eq_some lib).mp hstep
  cases e with
  | arrive bytes =>
    obtain ⟨-, rfl⟩ := Machine.taken hreact
    exact ⟨h.queued, h.bodies⟩
  | handshake bytesUsed =>
    obtain ⟨-, rfl⟩ := Machine.taken hreact
    exact Replies.doRead ⟨(h.erase .opening).queued, (h.erase .opening).bodies⟩
  | headerRead req bytes files =>
    obtain ⟨-, -, rfl⟩ := step_headerRead lib hstep
    exact h.headerRead req bytes files
  | endOfStream =>
    obtain ⟨-, rfl⟩ := Machine.taken hreact
    exact (h.erase .header).congr (doEof_sameInput _ .request) rfl
  | bodyRead number req =>
    obtain ⟨⟨hop, -⟩, rfl⟩ := Machine.taken hreact
    exact h.bodyRead hop
  | readFailed op =>
    obtain ⟨-, rfl⟩ := Machine.taken hreact
    exact ⟨(h.erase op).queued, (h.erase op).bodies⟩
  | written q ok =>
    obtain ⟨-, rfl⟩ := Machine.taken hreact
    have hpopped : Replies lib { s with writes := s.writes.erase q } := ⟨h.queued, h.bodies⟩
    by_cases hresumes : ({ s with writes := s.writes.erase q } : Session).Resuming q ok
    · exact hpopped.doRead.congr (onWrite_resuming hresumes) (onWrite_queued _ q ok)
    · exact hpopped.congr (onWrite_sameInput hresumes) (onWrite_queued _ q ok)
  | shutdown =>
    obtain ⟨-, rfl⟩ := Machine.taken hreact
    exact ⟨h.queued, h.bodies⟩

theorem replies_of_run {kind : Kind} {buffer : Text} {es : List SessionEvent}
    (hrun : (machine lib).run (run kind buffer) es = some s) : Replies lib s :=
  Machine.run_invariant (I := Replies lib) (fun _ _ _ h hstep => replies_step h hstep)
    (replies_run lib kind buffer) hrun

/-! ## What a client can make of the responses -/

/-- The request that a response answers. -/
def asked (s : Session) (q : Reply Response) : Option Request := s.headers[q.request]?

/-- The responses as the session hands them over to be written. -/
def responseStream (coding : HeadCoding ResponseHead Char) (s : Session) : Text :=
  coding.stream (s.handed.map fun q => q.message.parts)

/-- What a client reads from them that knows which requests they answer. -/
def readBack (coding : HeadCoding ResponseHead Char) (s : Session) :
    List (ResponseHead × Text) :=
  coding.messages (s.handed.map fun q => bodySize (s.asked q)) (s.responseStream coding)

/-- In every run, a client reads the responses of the session as they are exactly when no
HEAD request got an error page, and only the last response answers an upload, but for HEAD
requests. -/
theorem readBack_iff (coding : HeadCoding ResponseHead Char) {kind : Kind} {buffer : Text}
    {es : List SessionEvent} (hrun : (machine lib).run (run kind buffer) es = some s)
    (hlegal : ∀ q ∈ s.handed, coding.Legal q.message.head) :
    s.readBack coding = s.handed.map (fun q => q.message.parts) ↔
      (∀ q ∈ s.handed, ∀ req, s.asked q = some req → req.method = .head →
        q.message.status = .ok) ∧
      ∀ q ∈ s.handed.dropLast, ∀ req, s.asked q = some req → isUpload req →
        req.method = .head := by
  have hreplies := replies_of_run hrun
  have hanswers : ∀ q ∈ s.handed, ∃ req, s.asked q = some req ∧ Answers lib req q.message := by
    have hfront : s.handed <+: s.queued := Inv.handed_prefix (inv_of_run hrun)
    exact fun q hq => hreplies.queued q (hfront.subset hq)
  have hheads : ∀ x ∈ s.handed.map fun q => (bodySize (s.asked q), q.message.parts),
      coding.Legal x.2.1 := List.forall_mem_map.mpr hlegal
  have hread := HeadCoding.messages_stream_iff hheads
  rw [List.map_map, List.map_map, HeadCoding.delimited_iff, ← List.map_dropLast] at hread
  simp only [List.forall_mem_map] at hread
  refine hread.trans ⟨?_, ?_⟩
  · rintro ⟨hsized, hends⟩
    refine ⟨fun q hq req hreq hhead => ?_, fun q hq req hreq hupload => ?_⟩
    · obtain ⟨req', hreq', h⟩ := hanswers q hq
      cases hreq.symm.trans hreq'
      have hend := hends q hq
      rw [hreq] at hend
      exact (ends_iff h).mp hend hhead
    · obtain ⟨req', hreq', h⟩ := hanswers q (List.dropLast_subset _ hq)
      cases hreq.symm.trans hreq'
      have hsize := hsized q hq
      rw [hreq, sized_iff h] at hsize
      by_contra hhead
      rw [if_neg hhead] at hsize
      exact hsize hupload
  · rintro ⟨hpages, huploads⟩
    refine ⟨fun q hq => ?_, fun q hq => ?_⟩
    · obtain ⟨req, hreq, h⟩ := hanswers q (List.dropLast_subset _ hq)
      rw [hreq, sized_iff h]
      split
      · rename_i hhead
        exact hpages q (List.dropLast_subset _ hq) req hreq hhead
      · rename_i hhead
        exact fun hupload => hhead (huploads q hq req hreq hupload)
    · obtain ⟨req, hreq, h⟩ := hanswers q hq
      rw [hreq, ends_iff h]
      exact hpages q hq req hreq

/-- The coding of a client that gets answers to uploads only. -/
def uploadCoding : HeadCoding ResponseHead Char :=
  .only (FileUploadHandler.response uploadRequest).head "HTTP/1.1 200 OK\r\n\r\n".toList

theorem readBack_iff_uploads : (∃ s,
      (machine (Lib.plain [uploadRequest])).run (run .plain []) (upload 0) = some s ∧
      s.readBack uploadCoding = s.handed.map (fun q => q.message.parts)) ∧
    ∃ s, (machine (Lib.plain [uploadRequest])).run (run .plain [])
        (upload 0 ++ [uploadWritten 0 true] ++ upload 1) = some s ∧
      s.readBack uploadCoding ≠ s.handed.map (fun q => q.message.parts) := by
  constructor
  · obtain ⟨s, hrun, htest⟩ := Machine.run_of_any (machine (Lib.plain [uploadRequest]))
      (run .plain []) (upload 0)
      (fun s => s.handed == [⟨0, FileUploadHandler.response uploadRequest⟩])
      (by decide +kernel)
    have hhanded := beq_iff_eq.mp htest
    have hall : ∀ q ∈ s.handed, q = ⟨0, FileUploadHandler.response uploadRequest⟩ := by
      rw [hhanded]
      exact fun q hq => List.mem_singleton.mp hq
    refine ⟨s, hrun, (readBack_iff uploadCoding hrun fun q hq => ?_).mpr
      ⟨fun q hq req hreq hhead => ?_, fun q hq => ?_⟩⟩
    · rw [hall q hq]
      rfl
    · rw [hall q hq]
      rfl
    · rw [hhanded] at hq
      cases hq
  · obtain ⟨s, hrun, htest⟩ := Machine.run_of_any (machine (Lib.plain [uploadRequest]))
      (run .plain []) (upload 0 ++ [uploadWritten 0 true] ++ upload 1)
      (fun s => s.handed == [⟨0, FileUploadHandler.response uploadRequest⟩,
        ⟨1, FileUploadHandler.response uploadRequest⟩] && s.headers[0]? == some uploadRequest)
      (by decide +kernel)
    rw [Bool.and_eq_true, beq_iff_eq, beq_iff_eq] at htest
    obtain ⟨hhanded, hfirst⟩ := htest
    refine ⟨s, hrun, fun hread => ?_⟩
    have hlast := ((readBack_iff uploadCoding hrun fun q hq => ?_).mp hread).2
      ⟨0, FileUploadHandler.response uploadRequest⟩
    · rw [hhanded] at hlast
      have hhead := hlast List.mem_cons_self uploadRequest hfirst (Or.inr rfl)
      cases hhead
    · rw [hhanded] at hq
      rcases List.mem_cons.mp hq with rfl | hq
      · rfl
      · rw [List.mem_singleton.mp hq]
        rfl

end Session

end ServerAsync
