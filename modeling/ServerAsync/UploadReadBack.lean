import ServerAsync.UploadRuns

/-!
# Who gets what was uploaded

As long as uploads do not overlap, the file is the body of the last one when its read ends, and
stays so until the next one opens it. Whoever asks for the file in between gets this body, if
the write of the response is over by then.
-/

namespace ServerAsync

open Misc

namespace FileServer

open FileUploadHandler

variable {lib : Lib} {s t : FileServer} {docRoot : Text}
  {files : FileStore (Path.Resolved Char) Char} {es : List FileServerEvent}

/-- The file has this content, and no body is read into it. -/
structure Stored (content : Text) (s : FileServer) : Prop where
  idle : ∀ (j : Nat) (q : BodyReader), s.readers[j]? = some q → q.phase ≠ .reading
  file : s.files storedAt = some content

/-- The file stays as it is until the next upload opens it. -/
theorem Stored.step {content : Text} {e : FileServerEvent} (h : Stored content s)
    (hquiet : Quiet lib s e) (hstep : s.step lib e = some t) : Stored content t := by
  cases e with
  | server e =>
    obtain ⟨-, -, server, -, ⟨-, rfl⟩ | ⟨k, number, req0, hopens, -⟩⟩ := step_server hstep
    · exact ⟨h.idle, h.file⟩
    · rw [hquiet] at hopens
      cases hopens
  | bodyPart i count =>
    obtain ⟨r, c, hr, -, hreading, -⟩ := step_bodyPart hstep
    exact absurd hreading (h.idle i r hr)
  | bodyRead i =>
    obtain ⟨r, hr, hreading, -⟩ := step_bodyRead hstep
    exact absurd hreading (h.idle i r hr)
  | readFailed i =>
    obtain ⟨r, hr, hreading, -⟩ := step_readFailed hstep
    exact absurd hreading (h.idle i r hr)
  | fileRead i count =>
    obtain ⟨b, c, -, -, -, -, rfl⟩ := step_fileRead hstep
    exact ⟨h.idle, h.file⟩

/-- The response to a request for a file with this content. -/
def retrieved (beast : Beast) (req : Request) (content : Text) : Response where
  status := .ok
  version := req.version
  server := some beast.versionString
  contentType := some (mimeType (FileRequestHandler.path ".".toList req))
  contentLength := some content.length
  keepAlive := beast.keepAlive req
  body := if req.method = .head then [] else content

/-- No session forgets a header. -/
theorem headers_kept {e : FileServerEvent} (hstep : s.step lib e = some t) {k : Nat} {c : Session}
    (hc : s.server.session k = some c) :
    ∃ c', t.server.session k = some c' ∧ c.headers.length ≤ c'.headers.length := by
  refine session_kept (P := fun c c' => c.headers.length ≤ c'.headers.length)
    (fun _ => Nat.le_refl _) (fun c d c' hreact => ?_) hstep hc
  rw [Session.headers_length_step hreact]
  exact Nat.le_add_right _ _

/-- The header whose file is opened is read in this step. -/
theorem number_of_fetches {e : ServerEvent} {b : FileBody} (hfetches : s.fetches lib e = some b)
    (hstep : s.step lib (.server e) = some t) :
    ∃ c c', s.server.session b.connection = some c ∧ b.number = c.headers.length ∧
      t.server.session b.connection = some c' ∧ b.number < c'.headers.length := by
  obtain ⟨k, req, bytes, files, c, size, rfl, hc, rfl⟩ := fetches_eq_some hfetches
  obtain ⟨-, -, server, hserver, hrest⟩ := step_server hstep
  have hnow : t.server = server := by
    obtain ⟨-, rfl⟩ | ⟨k, number, req0, -, rfl⟩ := hrest <;> rfl
  obtain ⟨c₀, c', hconn, hreact, rfl⟩ := HttpServer.step_session hserver
  cases Option.some.inj (hc.symm.trans (HttpServer.session_eq_some.mpr hconn))
  refine ⟨c, c', hc, rfl, ?_, ?_⟩
  · rw [hnow]
    exact HttpServer.session_setConnection hconn
  · have hlength : c'.headers.length = c.headers.length + 1 := Session.headers_length_step hreact
    exact hlength ▸ Nat.lt_succ_self _

/-- The response to the request with this number has the stored file as its body. What has
been read of the file is a front of its content. -/
structure Sending (lib : Lib) (k number : Nat) (req : Request) (content : Text)
    (s : FileServer) : Prop where
  stored : Stored content s
  queued : ∃ c, s.server.session k = some c ∧ number < c.headers.length ∧
    ⟨number, retrieved lib.beast req content⟩ ∈ c.queued
  opened : req.method = .get → ∃ b ∈ s.sending, b.connection = k ∧ b.number = number
  front : ∀ b ∈ s.sending, b.connection = k → b.number = number →
    b.file.path = storedAt ∧ b.size = content.length ∧ b.sent <+: content

/-- Until the next upload opens the file, nothing else is read of it. -/
theorem Sending.step {k number : Nat} {req : Request} {content : Text} {e : FileServerEvent}
    (h : Sending lib k number req content s) (hquiet : Quiet lib s e)
    (hstep : s.step lib e = some t) : Sending lib k number req content t := by
  obtain ⟨c, hc, hnumber, hmem⟩ := h.queued
  have hqueued : ∃ c', t.server.session k = some c' ∧ number < c'.headers.length ∧
      ⟨number, retrieved lib.beast req content⟩ ∈ c'.queued := by
    obtain ⟨c', hc', hheaders⟩ := headers_kept hstep hc
    obtain ⟨c₁, hc₁, hmore⟩ := session_kept (P := fun c c' => c.queued <+: c'.queued)
      (fun _ => List.prefix_rfl) (fun _ _ _ => Session.queued_step) hstep hc
    cases Option.some.inj (hc'.symm.trans hc₁)
    exact ⟨c', hc', hnumber.trans_le hheaders, hmore.subset hmem⟩
  refine ⟨h.stored.step hquiet hstep, hqueued, ?_, ?_⟩
  · intro hget
    obtain ⟨b, hb, hconnection, hthis⟩ := h.opened hget
    obtain ⟨b', hb', hconnection', hthis'⟩ := sending_kept hstep hb
    exact ⟨b', hb', hconnection'.trans hconnection, hthis'.trans hthis⟩
  · intro b hb hconnection hthis
    rcases mem_sending_step hstep hb with hb | ⟨d, rfl, hfetches⟩ |
      ⟨b', hb', hconnection', hthis', hsize', hpath', count, hsent'⟩
    · exact h.front b hb hconnection hthis
    · -- the file of a later request
      obtain ⟨c₁, -, hc₁, hlater, -⟩ := number_of_fetches hfetches hstep
      rw [hconnection] at hc₁
      cases Option.some.inj (hc.symm.trans hc₁)
      omega
    · obtain ⟨hpath, hsize, hsent⟩ :=
        h.front b' hb' (hconnection'.symm.trans hconnection) (hthis'.symm.trans hthis)
      have hcontent : s.files b'.file.path = some content := hpath ▸ h.stored.file
      refine ⟨hpath'.trans hpath, hsize'.trans hsize, ?_⟩
      rw [hsent']
      exact FileStore.read_front hcontent hsent b'.ours count

/-- A write that is over has sent the whole file. -/
theorem Sending.written {k : Nat} {req : Request} {content : Text}
    {q : Misc.Pipeline.Reply Response} (h : Sending lib k q.request req content s)
    (hsound : Sound lib s) (hstep : s.step lib (.server (.session k (.written q true))) = some t) :
    q.message = retrieved lib.beast req content ∧
      (req.method = .get → s.fileSent k q.request = some content) := by
  obtain ⟨-, hearly, server, hserver, -⟩ := step_server hstep
  obtain ⟨c, c', hconn, hreact, -⟩ := HttpServer.step_session hserver
  have hc : s.server.session k = some c := HttpServer.session_eq_some.mpr hconn
  obtain ⟨hinv, -⟩ := hsound k c hc
  constructor
  · obtain ⟨c₁, hc₁, -, hmem⟩ := h.queued
    cases Option.some.inj (hc.symm.trans hc₁)
    obtain ⟨-, hreact⟩ := (Session.step_eq_some lib).mp hreact
    have hq := Session.mem_queued_of_mem_writes hinv (Machine.taken hreact).1
    exact congrArg Misc.Pipeline.Reply.message (hinv.read.reply_unique hq hmem rfl)
  · intro hget
    obtain ⟨b, hb, hconnection, hthis⟩ := h.opened hget
    obtain ⟨b', hfind⟩ : ∃ b', (s.sending.find? fun b =>
        b.connection == k && b.number == q.request) = some b' := by
      rw [← Option.isSome_iff_exists, List.find?_isSome]
      exact ⟨b, hb, by simp [hconnection, hthis]⟩
    have hb' := List.mem_of_find?_eq_some hfind
    have hwhose := List.find?_some hfind
    have hwhole := List.any_eq_false.mp hearly b' hb'
    simp only [Bool.and_eq_true, beq_iff_eq] at hwhose
    simp only [hwhose.1, hwhose.2, beq_self_eq_true, Bool.true_and, bne_iff_ne, not_not] at hwhole
    obtain ⟨-, hsize, hfront⟩ := h.front b' hb' hwhose.1 hwhose.2
    rw [fileSent, hfind, Option.map_some, hfront.eq_of_length (hwhole.trans hsize)]

def fetch : FileServerEvent :=
  .server (.session 1 (.headerRead fetchRequest fetchRequest.text.length noFiles))

end FileServer

end ServerAsync
