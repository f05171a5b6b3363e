import ServerAsync.ServerSessions
import ServerAsync.SessionBodies
import ServerAsync.Uploads
import ServerAsync.PathContainment

/-!
# A server and its files

The sessions of an `HttpServer` read and write the files of its working directory. What
`FileUploadHandler` stores is a part of what its session has received. The other handler opens
the files as the uploads have left them, and what it has opened is read while the response is
written: an upload that opens the file in between truncates it.
-/

namespace ServerAsync

open Misc

/-- The file that a path names, from the working directory. -/
def Text.resolved (path : Text) : Path.Resolved Char := Path.resolve '/' '.' path

/-- The file that every upload is stored in. -/
def FileUploadHandler.storedAt : Path.Resolved Char := FileUploadHandler.uploadFile.resolved

/-- A `FileUploadHandler` whose file is open. `connection` and `number` say whose request it
is, `received` is what the parser has put into the file. -/
structure BodyReader where
  connection : Nat
  number : Nat
  req0 : Request
  received : Text
  file : FileHandle (Path.Resolved Char)
  phase : FileUploadHandler.Phase
  ours : file = ⟨FileUploadHandler.storedAt, received.length⟩

/-- The `file_body` of a response. `connection` and `number` say whose request it is, `size`
is the size that the file had at its open, and `sent` is what the serializer has read of it. -/
structure FileBody where
  connection : Nat
  number : Nat
  file : FileHandle (Path.Resolved Char)
  size : Nat
  sent : Text
  ours : file.position = sent.length

/-- The `file_body` of a response whose file has just been opened. -/
def FileBody.opened (connection number : Nat) (path : Path.Resolved Char) (size : Nat) :
    FileBody :=
  ⟨connection, number, FileStore.openScan path, size, [], rfl⟩

/-- An `HttpServer` in its working directory. The handlers of uploads and the files of
responses are in the order of their opens. -/
structure FileServer where
  server : HttpServer
  files : FileStore (Path.Resolved Char) Char
  readers : List BodyReader
  sending : List FileBody

/-- What happens to the server, to the bodies that are read (a part of one is stored, the read
of one ends), and to those that are sent: up to `count` bytes of a file are read for the write
of its response. -/
inductive FileServerEvent where
  | server (e : ServerEvent)
  | bodyPart (i : Nat) (count : Nat)
  | bodyRead (i : Nat)
  | readFailed (i : Nat)
  | fileRead (i : Nat) (count : Nat)

/-- The read of a body of one of its sessions ends. -/
def ServerEvent.endsBody : ServerEvent → Bool
  | .session _ e => e.endsBody
  | _ => false

namespace FileServer

open FileUploadHandler

/-- The constructor, in a working directory with these files. -/
def new (docRoot : Text) (files : FileStore (Path.Resolved Char) Char) : FileServer :=
  ⟨HttpServer.new docRoot, files, [], []⟩

/-- `body.open(path, file_mode::scan, ec)`. It may fail for a file that is there. -/
def scan (s : FileServer) (found : Text → Opened) (path : Text) : Opened :=
  match found path with
  | .failed message => .failed message
  | _ => ((s.files path.resolved).map Opened.opened).getD .noSuchFile

/-- The size of the file that becomes the body of the response to `req`. -/
def fileSize (s : FileServer) (req : Request) (found : Text → Opened) : Option Nat :=
  if req.method = .get ∧ FileRequestHandler.Admits req then
    match s.scan found (FileRequestHandler.path ".".toList req) with
    | .opened content => some content.length
    | _ => none
  else none

/-- An event of the server, with the files that are there. -/
def seen (s : FileServer) : ServerEvent → ServerEvent
  | .session k (.headerRead req bytes files) =>
    .session k (.headerRead req bytes { files with scan := s.scan files.scan })
  | e => e

/-- `FileUploadHandler::handle_request` opens its file. -/
def openUpload (s : FileServer) (connection number : Nat) (req0 : Request) : FileServer :=
  { s with
    files := (s.files.openWrite storedAt).1
    readers := s.readers ++
      [⟨connection, number, req0, [], (s.files.openWrite storedAt).2, .reading, rfl⟩] }

/-- The next bytes of a body are written to the file. -/
def put (s : FileServer) (i : Nat) (r : BodyReader) (chunk : Text) : FileServer :=
  { s with
    files := (s.files.write hole r.file chunk).1
    readers := s.readers.set i
      { r with
        received := r.received ++ chunk
        file := (s.files.write hole r.file chunk).2
        ours := by simp [FileStore.write, r.ours] } }

/-- The next bytes of a file are read for the write of its response. -/
def take (s : FileServer) (i : Nat) (b : FileBody) (count : Nat) : FileServer :=
  { s with
    sending := s.sending.set i
      { b with
        sent := b.sent ++ (s.files.read b.file count).1
        file := (s.files.read b.file count).2
        ours := by simp [b.ours] } }

/-- A write that is over before its whole file has been read. -/
def early (s : FileServer) : ServerEvent → Bool
  | .session k (.written q true) =>
    s.sending.any fun b => b.connection == k && b.number == q.request && b.sent.length != b.size
  | _ => false

/-- What has been read of the file of a response. -/
def fileSent (s : FileServer) (k number : Nat) : Option Text :=
  (s.sending.find? fun b => b.connection == k && b.number == number).map FileBody.sent

variable (lib : Lib)

/-- The file that an event opens for the body of a response, if there is one. -/
def fetches (s : FileServer) : ServerEvent → Option FileBody
  | .session k (.headerRead req _ files) =>
    (s.server.session k).bind fun c =>
      if (route lib req files).isReply then
        (s.fileSize req files.scan).map
          (.opened k c.headers.length (FileRequestHandler.path ".".toList req).resolved)
      else none
  | _ => none

/-- The upload whose file an event opens, if there is one. -/
def opens (s : FileServer) : ServerEvent → Option (Nat × Nat × Request)
  | .session k (.headerRead req _ files) =>
    (s.server.session k).bind fun c =>
      if route lib req files = .upload then some (k, c.headers.length, req) else none
  | _ => none

/-- The read of a body ends with this event of its session. -/
def finish (s : FileServer) (i : Nat) (r : BodyReader) (phase : Phase) (e : SessionEvent) :
    Option FileServer :=
  (s.server.step lib (.session r.connection e)).map fun server =>
    { s with server := server, readers := s.readers.set i { r with phase := phase } }

/-- The reaction to an event, `none` when it cannot happen. -/
def step (s : FileServer) : FileServerEvent → Option FileServer
  | .server e =>
    if e.endsBody ∨ s.early e then none
    else
      (s.server.step lib (s.seen e)).map fun server =>
        match s.opens lib e with
        | none => { s with server := server, sending := s.sending ++ (s.fetches lib e).toList }
        | some (k, number, req0) => { s with server := server }.openUpload k number req0
  | .bodyPart i count =>
    (s.readers[i]?).bind fun r =>
      (s.server.session r.connection).bind fun c =>
        if s.server.terminated = false ∧ r.phase = .reading ∧ 0 < count ∧
            r.received.length + count ≤ lib.beast.bodyLength r.req0 ∧
            r.received.length + count ≤ c.buffer.length then
          some (s.put i r ((c.buffer.drop r.received.length).take count))
        else none
  | .bodyRead i =>
    (s.readers[i]?).bind fun r =>
      if r.phase = .reading ∧ r.received.length = lib.beast.bodyLength r.req0 then
        s.finish lib i r .answered (.bodyRead r.number r.req0)
      else none
  | .readFailed i =>
    (s.readers[i]?).bind fun r =>
      if r.phase = .reading then
        s.finish lib i r .failed (.readFailed (.body r.number r.req0))
      else none
  | .fileRead i count =>
    (s.sending[i]?).bind fun b =>
      (s.server.session b.connection).bind fun c =>
        if s.server.terminated = false ∧ (∃ q ∈ c.writes, q.request = b.number) ∧
            b.sent.length + count ≤ b.size ∧ (s.files.read b.file count).1 ≠ [] then
          some (s.take i b count)
        else none

/-- What the server is told of an event. -/
def heard (s : FileServer) : FileServerEvent → Option ServerEvent
  | .server e => some (s.seen e)
  | .bodyPart _ _ | .fileRead _ _ => none
  | .bodyRead i => (s.readers[i]?).map fun r => .session r.connection (.bodyRead r.number r.req0)
  | .readFailed i =>
    (s.readers[i]?).map fun r => .session r.connection (.readFailed (.body r.number r.req0))

/-- A server in its working directory as a machine. -/
def machine : Machine FileServer FileServerEvent := ⟨step lib⟩

/-- No upload opens the file while another one reads its body. -/
def Apart (s : FileServer) : FileServerEvent → Prop
  | .server e => s.opens lib e ≠ none → ∀ r ∈ s.readers, r.phase ≠ .reading
  | _ => True

/-- The requests of a connection leave no body in its stream while a write is going to resume
reading. -/
def Drains (k : Nat) (s : FileServer) (e : FileServerEvent) : Prop :=
  ∀ c ∈ s.server.session k, ∀ d ∈ (s.heard e).bind (ServerEvent.of k), c.DrainsBodies lib d

/-- No upload opens the file. -/
def Quiet (s : FileServer) : FileServerEvent → Prop
  | .server e => s.opens lib e = none
  | _ => True

instance (s : FileServer) : ∀ e, Decidable (Apart lib s e)
  | .server e => inferInstanceAs (Decidable (s.opens lib e ≠ none → _))
  | .bodyPart _ _ => isTrue trivial
  | .bodyRead _ => isTrue trivial
  | .readFailed _ => isTrue trivial
  | .fileRead _ _ => isTrue trivial

instance (k : Nat) (s : FileServer) (e : FileServerEvent) : Decidable (Drains lib k s e) :=
  inferInstanceAs (Decidable (∀ c ∈ s.server.session k, _))

instance (s : FileServer) : ∀ e, Decidable (Quiet lib s e)
  | .server e => inferInstanceAs (Decidable (s.opens lib e = none))
  | .bodyPart _ _ => isTrue trivial
  | .bodyRead _ => isTrue trivial
  | .readFailed _ => isTrue trivial
  | .fileRead _ _ => isTrue trivial

variable {lib} {s t : FileServer}

/-! ## What a step does -/

theorem step_server {e : ServerEvent} (hstep : s.step lib (.server e) = some t) :
    e.endsBody = false ∧ s.early e = false ∧
      ∃ server, s.server.step lib (s.seen e) = some server ∧
        (s.opens lib e = none ∧
            t = { s with server := server, sending := s.sending ++ (s.fetches lib e).toList } ∨
          ∃ k number req0, s.opens lib e = some (k, number, req0) ∧
            t = { s with server := server }.openUpload k number req0) := by
  rw [step, Option.ite_none_left_eq_some, not_or, Bool.not_eq_true, Bool.not_eq_true] at hstep
  obtain ⟨⟨hends, hearly⟩, hstep⟩ := hstep
  obtain ⟨server, hserver, rfl⟩ := Option.map_eq_some_iff.mp hstep
  refine ⟨hends, hearly, server, hserver, ?_⟩
  cases hopens : s.opens lib e with
  | none => exact Or.inl ⟨rfl, rfl⟩
  | some upload => exact Or.inr ⟨upload.1, upload.2.1, upload.2.2, rfl, rfl⟩

theorem step_bodyPart {i count : Nat} (hstep : s.step lib (.bodyPart i count) = some t) :
    ∃ r c, s.readers[i]? = some r ∧ s.server.session r.connection = some c ∧
      r.phase = .reading ∧ 0 < count ∧ r.received.length + count ≤ c.buffer.length ∧
      t = s.put i r ((c.buffer.drop r.received.length).take count) := by
  obtain ⟨r, hr, hrest⟩ := Option.bind_eq_some_iff.mp hstep
  obtain ⟨c, hc, htaken⟩ := Option.bind_eq_some_iff.mp hrest
  obtain ⟨⟨-, hreading, hcount, -, hbuffer⟩, rfl⟩ := Machine.taken htaken
  exact ⟨r, c, hr, hc, hreading, hcount, hbuffer, rfl⟩

theorem finish_eq_some {i : Nat} {r : BodyReader} {phase : Phase} {e : SessionEvent}
    (h : s.finish lib i r phase e = some t) :
    ∃ server, s.server.step lib (.session r.connection e) = some server ∧
      t = { s with server := server, readers := s.readers.set i { r with phase := phase } } := by
  obtain ⟨server, hserver, rfl⟩ := Option.map_eq_some_iff.mp h
  exact ⟨server, hserver, rfl⟩

theorem step_bodyRead {i : Nat} (hstep : s.step lib (.bodyRead i) = some t) :
    ∃ r, s.readers[i]? = some r ∧ r.phase = .reading ∧
      r.received.length = lib.beast.bodyLength r.req0 ∧
      s.finish lib i r .answered (.bodyRead r.number r.req0) = some t := by
  obtain ⟨r, hr, hrest⟩ := Option.bind_eq_some_iff.mp hstep
  rw [Option.ite_none_right_eq_some] at hrest
  exact ⟨r, hr, hrest.1.1, hrest.1.2, hrest.2⟩

theorem step_readFailed {i : Nat} (hstep : s.step lib (.readFailed i) = some t) :
    ∃ r, s.readers[i]? = some r ∧ r.phase = .reading ∧
      s.finish lib i r .failed (.readFailed (.body r.number r.req0)) = some t := by
  obtain ⟨r, hr, hrest⟩ := Option.bind_eq_some_iff.mp hstep
  rw [Option.ite_none_right_eq_some] at hrest
  exact ⟨r, hr, hrest⟩

theorem step_fileRead {i count : Nat} (hstep : s.step lib (.fileRead i count) = some t) :
    ∃ b c, s.sending[i]? = some b ∧ s.server.session b.connection = some c ∧
      (∃ q ∈ c.writes, q.request = b.number) ∧ b.sent.length + count ≤ b.size ∧
      t = s.take i b count := by
  obtain ⟨b, hb, hrest⟩ := Option.bind_eq_some_iff.mp hstep
  obtain ⟨c, hc, htaken⟩ := Option.bind_eq_some_iff.mp hrest
  obtain ⟨⟨-, hwriting, hsize, -⟩, rfl⟩ := Machine.taken htaken
  exact ⟨b, c, hb, hc, hwriting, hsize, rfl⟩

/-- What a step does to the files of responses. -/
theorem sending_step {e : FileServerEvent} (hstep : s.step lib e = some t) :
    t.sending = s.sending ∨
      (∃ d b, e = .server d ∧ s.fetches lib d = some b ∧ t.sending = s.sending ++ [b]) ∨
      ∃ i count b, e = .fileRead i count ∧ s.sending[i]? = some b ∧ t = s.take i b count := by
  cases e with
  | server e =>
    obtain ⟨-, -, server, -, ⟨-, rfl⟩ | ⟨k, number, req0, -, rfl⟩⟩ := step_server hstep
    · cases hfetches : s.fetches lib e with
      | none => exact Or.inl (List.append_nil _)
      | some b => exact Or.inr (Or.inl ⟨e, b, rfl, hfetches, rfl⟩)
    · exact Or.inl rfl
  | bodyPart i count =>
    obtain ⟨r, c, -, -, -, -, -, rfl⟩ := step_bodyPart hstep
    exact Or.inl rfl
  | bodyRead i =>
    obtain ⟨r, -, -, -, hfinish⟩ := step_bodyRead hstep
    obtain ⟨server, -, rfl⟩ := finish_eq_some hfinish
    exact Or.inl rfl
  | readFailed i =>
    obtain ⟨r, -, -, hfinish⟩ := step_readFailed hstep
    obtain ⟨server, -, rfl⟩ := finish_eq_some hfinish
    exact Or.inl rfl
  | fileRead i count =>
    obtain ⟨b, c, hb, -, -, -, rfl⟩ := step_fileRead hstep
    exact Or.inr (Or.inr ⟨i, count, b, rfl, hb, rfl⟩)

/-- The file of a response stays, whatever is read of it. -/
theorem sending_kept {e : FileServerEvent} (hstep : s.step lib e = some t) {b : FileBody}
    (hb : b ∈ s.sending) :
    ∃ b' ∈ t.sending, b'.connection = b.connection ∧ b'.number = b.number := by
  rcases sending_step hstep with hsame | ⟨-, new, -, -, hmore⟩ | ⟨i, count, old, -, hold, rfl⟩
  · exact ⟨b, hsame ▸ hb, rfl, rfl⟩
  · exact ⟨b, hmore ▸ List.mem_append_left _ hb, rfl, rfl⟩
  · obtain ⟨j, hj⟩ := List.mem_iff_getElem?.mp hb
    by_cases heq : i = j
    · subst heq
      cases Option.some.inj (hold.symm.trans hj)
      exact ⟨_, List.mem_of_getElem? (Parts.getElem?_set_of_some hold), rfl, rfl⟩
    · exact ⟨b, List.mem_of_getElem? ((List.getElem?_set_ne heq).trans hj), rfl, rfl⟩

/-- A file of a response was there before, or it has just been opened, or more has been read of
it. -/
theorem mem_sending_step {e : FileServerEvent} (hstep : s.step lib e = some t) {b : FileBody}
    (hb : b ∈ t.sending) :
    b ∈ s.sending ∨ (∃ d, e = .server d ∧ s.fetches lib d = some b) ∨
      ∃ b' ∈ s.sending, b.connection = b'.connection ∧ b.number = b'.number ∧
        b.size = b'.size ∧ b.file.path = b'.file.path ∧
        ∃ count, b.sent = b'.sent ++ (s.files.read b'.file count).1 := by
  rcases sending_step hstep with hsame | ⟨d, new, rfl, hfetches, hmore⟩ |
    ⟨i, count, old, -, hold, rfl⟩
  · exact Or.inl (hsame ▸ hb)
  · rw [hmore, List.mem_append, List.mem_singleton] at hb
    rcases hb with hb | rfl
    · exact Or.inl hb
    · exact Or.inr (Or.inl ⟨d, rfl, hfetches⟩)
  · rcases List.mem_or_eq_of_mem_set hb with hb | rfl
    · exact Or.inl hb
    · exact Or.inr (Or.inr ⟨old, List.mem_of_getElem? hold, rfl, rfl, rfl, rfl, count, rfl⟩)

/-- What the server does with a step of the whole. -/
theorem server_step {e : FileServerEvent} (hstep : s.step lib e = some t) :
    t.server = s.server ∨ ∃ d, s.heard e = some d ∧ s.server.step lib d = some t.server := by
  cases e with
  | server e =>
    obtain ⟨-, -, server, hserver, ⟨-, rfl⟩ | ⟨k, number, req0, -, rfl⟩⟩ := step_server hstep
    · exact Or.inr ⟨_, rfl, hserver⟩
    · exact Or.inr ⟨_, rfl, hserver⟩
  | bodyPart i count =>
    obtain ⟨r, c, -, -, -, -, -, rfl⟩ := step_bodyPart hstep
    exact Or.inl rfl
  | bodyRead i =>
    obtain ⟨r, hr, -, -, hfinish⟩ := step_bodyRead hstep
    obtain ⟨server, hserver, rfl⟩ := finish_eq_some hfinish
    exact Or.inr ⟨_, congrArg (Option.map _) hr, hserver⟩
  | readFailed i =>
    obtain ⟨r, hr, -, hfinish⟩ := step_readFailed hstep
    obtain ⟨server, hserver, rfl⟩ := finish_eq_some hfinish
    exact Or.inr ⟨_, congrArg (Option.map _) hr, hserver⟩
  | fileRead i count =>
    obtain ⟨b, c, -, -, -, -, rfl⟩ := step_fileRead hstep
    exact Or.inl rfl

/-- What holds of every session in every run. -/
def Sound (lib : Lib) (s : FileServer) : Prop :=
  ∀ k c, s.server.session k = some c → Pipeline.Inv queueLimit c.core ∧ Session.Replies lib c

theorem sound_step {e : FileServerEvent} (h : Sound lib s) (hstep : s.step lib e = some t) :
    Sound lib t := by
  rcases server_step hstep with hsame | ⟨d, -, hd⟩
  · unfold Sound
    rw [hsame]
    exact h
  · refine (HttpServer.hosts_sessions lib).forall_part trivial ?_ ?_ h hd
    · rintro k c ⟨kind, buffer, rfl⟩
      exact ⟨Session.inv_run_start, Session.replies_run lib kind buffer⟩
    · exact fun k c d c' _ hc _ hstep =>
        ⟨Session.inv_step_core c d c' hc.1 hstep, Session.replies_step hc.2 hstep⟩

/-- What no step of a session takes back, no step of the server does. -/
theorem session_kept {P : Session → Session → Prop} (hrefl : ∀ c, P c c)
    (hkeep : ∀ c d c', c.step lib d = some c' → P c c') {e : FileServerEvent}
    (hstep : s.step lib e = some t) {k : Nat} {c : Session} (hc : s.server.session k = some c) :
    ∃ c', t.server.session k = some c' ∧ P c c' := by
  rcases server_step hstep with hsame | ⟨d, -, hd⟩
  · rw [hsame]
    exact ⟨c, hc, hrefl c⟩
  · obtain ⟨c', hc', ⟨-, rfl⟩ | ⟨d', -, hreact⟩⟩ :=
      (HttpServer.hosts_sessions lib).present _ _ _ _ _ hd hc
    · exact ⟨_, hc', hrefl _⟩
    · exact ⟨c', hc', hkeep c d' c' hreact⟩

/-! ## The bodies -/

/-- An event for a session does what the session does. -/
theorem seen_of {e : ServerEvent} {k : Nat} {d : SessionEvent} (h : (s.seen e).of k = some d) :
    d.endsBody = e.endsBody := by
  unfold seen at h
  split at h
  · rename_i j req bytes files
    change (if j = k then some _ else none) = some d at h
    rw [Option.ite_none_right_eq_some] at h
    obtain ⟨-, h⟩ := h
    cases h
    rfl
  · cases e with
    | session j d' =>
      change (if j = k then some d' else none) = some d at h
      rw [Option.ite_none_right_eq_some] at h
      obtain ⟨-, h⟩ := h
      cases h
      rfl
    | _ => cases h

/-- The upload that an event opens. -/
theorem opens_eq_some {e : ServerEvent} {k number : Nat} {req0 : Request}
    (h : s.opens lib e = some (k, number, req0)) : ∃ c bytes files,
      e = .session k (.headerRead req0 bytes files) ∧ s.server.session k = some c ∧
        route lib req0 files = .upload ∧ number = c.headers.length := by
  unfold opens at h
  split at h
  · obtain ⟨c, hc, hroute⟩ := Option.bind_eq_some_iff.mp h
    rw [Option.ite_none_right_eq_some] at hroute
    obtain ⟨hroute, h⟩ := hroute
    cases h
    exact ⟨c, _, _, rfl, hc, hroute, rfl⟩
  · cases h

/-- The file that an event opens for a response. -/
theorem fetches_eq_some {e : ServerEvent} {b : FileBody} (h : s.fetches lib e = some b) :
    ∃ k req bytes files c size, e = .session k (.headerRead req bytes files) ∧
      s.server.session k = some c ∧
      b = .opened k c.headers.length (FileRequestHandler.path ".".toList req).resolved size := by
  unfold fetches at h
  split at h
  · obtain ⟨c, hc, hreply⟩ := Option.bind_eq_some_iff.mp h
    rw [Option.ite_none_right_eq_some] at hreply
    obtain ⟨size, -, rfl⟩ := Option.map_eq_some_iff.mp hreply.2
    exact ⟨_, _, _, _, c, size, rfl, hc, rfl⟩
  · cases h

/-- Whether a request is an upload does not depend on the files that are there. -/
theorem route_upload_scan {req : Request} {files : Files} (h : route lib req files = .upload)
    (scan : Text → Opened) : route lib req { files with scan := scan } = .upload := by
  unfold route at h ⊢
  split_ifs at h ⊢
  rfl

/-- Behind the open of an upload its session reads the body. -/
theorem body_of_opens {e : ServerEvent} {server : HttpServer} {k number : Nat} {req0 : Request}
    (hopens : s.opens lib e = some (k, number, req0))
    (hstep : s.server.step lib (s.seen e) = some server) :
    ∃ c, server.session k = some c ∧ .body number req0 ∈ c.reads := by
  obtain ⟨c, bytes, files, rfl, hc, hroute, rfl⟩ := opens_eq_some hopens
  obtain ⟨c₀, c', hconn, hreact, rfl⟩ := HttpServer.step_session hstep
  cases Option.some.inj (hc.symm.trans (HttpServer.session_eq_some.mpr hconn))
  refine ⟨c', HttpServer.session_setConnection hconn, ?_⟩
  obtain ⟨-, -, rfl⟩ := Session.step_headerRead lib hreact
  rw [route_upload_scan hroute]
  exact List.mem_append_right _ (List.mem_singleton.mpr rfl)

/-- What has been stored of a body is the front of what its session has in the buffer. -/
def Reading (s : FileServer) (r : BodyReader) : Prop :=
  ∃ c, s.server.session r.connection = some c ∧ .body r.number r.req0 ∈ c.reads ∧
    r.received <+: c.buffer

/-- The bodies that are being read, at most one of them on a connection. -/
structure Bodies (s : FileServer) : Prop where
  reading : ∀ (i : Nat) (r : BodyReader), s.readers[i]? = some r → r.phase = .reading →
    Reading s r
  single : ∀ (i : Nat) (r : BodyReader), s.readers[i]? = some r → r.phase = .reading →
    ∀ (j : Nat) (q : BodyReader), s.readers[j]? = some q → q.phase = .reading →
      r.connection = q.connection → i = j

/-- While the server goes on, a body stays where it is. -/
theorem Reading.server_step {r : BodyReader} {e : ServerEvent} {server : HttpServer}
    (h : Reading s r) (hsound : Sound lib s) (hends : e.endsBody = false)
    (hstep : s.server.step lib (s.seen e) = some server) :
    Reading { s with server := server } r := by
  obtain ⟨c, hc, hop, hfront⟩ := h
  obtain ⟨c', hc', ⟨-, rfl⟩ | ⟨d, hd, hreact⟩⟩ :=
    (HttpServer.hosts_sessions lib).present _ _ _ _ _ hstep hc
  · exact ⟨_, hc', hop, hfront⟩
  · obtain ⟨hop', hgrown⟩ :=
      Session.body_waits (hsound _ c hc).1 hop ((seen_of hd).trans hends) hreact
    exact ⟨c', hc', hop', hfront.trans hgrown⟩

/-- On a connection that has a body to read no other upload is opened. -/
theorem Reading.ne_of_opens {r : BodyReader} {e : ServerEvent} {server : HttpServer}
    {k number : Nat} {req0 : Request} (h : Reading s r) (hsound : Sound lib s)
    (hopens : s.opens lib e = some (k, number, req0))
    (hstep : s.server.step lib (s.seen e) = some server) : r.connection ≠ k := by
  rintro rfl
  obtain ⟨c, hc, hop, -⟩ := h
  obtain ⟨-, bytes, files, rfl, -, -, -⟩ := opens_eq_some hopens
  obtain ⟨c₀, c', hconn, hreact, -⟩ := HttpServer.step_session hstep
  cases Option.some.inj (hc.symm.trans (HttpServer.session_eq_some.mpr hconn))
  obtain ⟨-, hreact⟩ := (Session.step_eq_some lib).mp hreact
  have hheader := (Machine.taken hreact).1.1
  rw [show c.reads = _ from (hsound _ c hc).1.read.reads_eq hop, List.mem_singleton] at hheader
  cases hheader

theorem Bodies.opened {e : ServerEvent} {server : HttpServer} {k number : Nat} {req0 : Request}
    (h : Bodies s) (hsound : Sound lib s) (hends : e.endsBody = false)
    (hopens : s.opens lib e = some (k, number, req0))
    (hstep : s.server.step lib (s.seen e) = some server) :
    Bodies ({ s with server := server }.openUpload k number req0) := by
  have hothers (i : Nat) (r : BodyReader) (hr : s.readers[i]? = some r)
      (hreading : r.phase = .reading) : r.connection ≠ k :=
    (h.reading i r hr hreading).ne_of_opens hsound hopens hstep
  constructor
  · refine Parts.forall_concat (fun i r hr hreading => ?_) fun _ => ?_
    · exact (h.reading i r hr hreading).server_step hsound hends hstep
    · obtain ⟨c, hc, hop⟩ := body_of_opens hopens hstep
      exact ⟨c, hc, hop, List.nil_prefix⟩
  · refine Parts.forall_concat (fun i r hr hreading => ?_) fun _ => ?_
    · refine Parts.forall_concat (fun j q hq => h.single i r hr hreading j q hq) fun _ heq => ?_
      exact absurd heq (hothers i r hr hreading)
    · refine Parts.forall_concat (fun j q hq hreading heq => ?_) fun _ _ => rfl
      exact absurd heq.symm (hothers j q hq hreading)

theorem Bodies.put {i : Nat} {r : BodyReader} {c : Session} (h : Bodies s)
    (hr : s.readers[i]? = some r) (hc : s.server.session r.connection = some c)
    (hreading : r.phase = .reading) (count : Nat) :
    Bodies (s.put i r ((c.buffer.drop r.received.length).take count)) := by
  constructor
  · refine Parts.forall_set (fun j q _ hq hreading' => h.reading j q hq hreading') fun _ => ?_
    obtain ⟨c', hc', hop, more, hmore⟩ := h.reading i r hr hreading
    cases Option.some.inj (hc.symm.trans hc')
    refine ⟨c, hc, hop, ?_⟩
    change r.received ++ _ <+: c.buffer
    rw [← hmore, List.drop_left, List.prefix_append_right_inj]
    exact List.take_prefix count more
  · refine Parts.forall_set (fun j q _ hq hreading' => ?_) fun _ => ?_
    · refine Parts.forall_set (fun l p _ hp => h.single j q hq hreading' l p hp) fun _ heq => ?_
      exact h.single j q hq hreading' i r hr hreading heq
    · refine Parts.forall_set (fun l p _ hp hreading' heq => ?_) fun _ _ => rfl
      exact h.single i r hr hreading l p hp hreading' heq

theorem Bodies.finish {i : Nat} {r : BodyReader} {phase : Phase} {e : SessionEvent}
    (h : Bodies s) (hr : s.readers[i]? = some r) (hreading : r.phase = .reading)
    (hphase : phase ≠ .reading) (hfinish : s.finish lib i r phase e = some t) : Bodies t := by
  obtain ⟨server, hserver, rfl⟩ := finish_eq_some hfinish
  constructor
  · refine Parts.forall_set (fun j q hj hq hreading' => ?_) fun hend => absurd hend hphase
    have hother : r.connection ≠ q.connection := fun heq =>
      hj (h.single i r hr hreading j q hq hreading' heq).symm
    obtain ⟨c, hc, hop, hfront⟩ := h.reading j q hq hreading'
    obtain ⟨c₀, c', -, -, rfl⟩ := HttpServer.step_session hserver
    exact ⟨c, (HttpServer.session_setConnection_of_ne hother _).trans hc, hop, hfront⟩
  · refine Parts.forall_set (fun j q _ hq hreading' => ?_) fun hend => absurd hend hphase
    refine Parts.forall_set (fun l p _ hp => h.single j q hq hreading' l p hp) fun hend => ?_
    exact absurd hend hphase

theorem bodies_step {e : FileServerEvent} (hsound : Sound lib s) (h : Bodies s)
    (hstep : s.step lib e = some t) : Bodies t := by
  cases e with
  | server e =>
    obtain ⟨hends, -, server, hserver, ⟨-, rfl⟩ | ⟨k, number, req0, hopens, rfl⟩⟩ :=
      step_server hstep
    · exact ⟨fun i r hr hreading =>
        (h.reading i r hr hreading).server_step hsound hends hserver, h.single⟩
    · exact h.opened hsound hends hopens hserver
  | bodyPart i count =>
    obtain ⟨r, c, hr, hc, hreading, -, -, rfl⟩ := step_bodyPart hstep
    exact h.put hr hc hreading count
  | bodyRead i =>
    obtain ⟨r, hr, hreading, -, hfinish⟩ := step_bodyRead hstep
    exact h.finish hr hreading (by decide) hfinish
  | readFailed i =>
    obtain ⟨r, hr, hreading, hfinish⟩ := step_readFailed hstep
    exact h.finish hr hreading (by decide) hfinish
  | fileRead i count =>
    obtain ⟨b, c, -, -, -, -, rfl⟩ := step_fileRead hstep
    exact ⟨h.reading, h.single⟩

end FileServer

end ServerAsync
