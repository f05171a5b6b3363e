import ServerAsync.FileServer
import ServerAsync.Uploads

/-!
# Uploads and the sessions they come from

What a server does with the file of its uploads is what the upload machine does, whose bodies
are the ones that the clients have sent.
-/

namespace ServerAsync

open Misc

/-- The handler as the upload machine has it, with what it is still to read. -/
def BodyReader.upload (r : BodyReader) (rest : Text) : Upload :=
  ⟨r.req0, r.received, rest, ⟨FileUploadHandler.uploadFile, r.received.length⟩, r.phase, rfl⟩

namespace FileServer

open FileUploadHandler

variable {lib : Lib} {s t : FileServer}

/-- The upload machine has the handlers of the server, whose bodies go on with `more`, and its
responses are queued in their sessions. As soon as there is a handler, the file is the same. -/
structure Matches (more : Nat → Text) (s : FileServer) (w : Uploads) : Prop where
  handlers : w.handlers = s.readers.mapIdx fun i r => r.upload (more i)
  files : s.readers ≠ [] → w.files uploadFile = s.files storedAt
  queued : ∀ q ∈ w.queued, ∃ r c, s.readers[q.1]? = some r ∧
    s.server.session r.connection = some c ∧ ⟨r.number, q.2⟩ ∈ c.queued

theorem Matches.handler {more : Nat → Text} {w : Uploads} (h : Matches more s w) {i : Nat}
    {r : BodyReader} (hr : s.readers[i]? = some r) :
    w.handlers[i]? = some (r.upload (more i)) := by
  rw [h.handlers, List.getElem?_mapIdx, hr]
  rfl

theorem Matches.length_eq {more : Nat → Text} {w : Uploads} (h : Matches more s w) :
    w.handlers.length = s.readers.length := by
  rw [h.handlers, List.length_mapIdx]

/-- The responses are where they were, as long as no handler changes its request. -/
theorem Matches.queued_step {more : Nat → Text} {w : Uploads} (h : Matches more s w)
    {e : FileServerEvent} (hstep : s.step lib e = some t)
    (hkeep : ∀ (i : Nat) (r : BodyReader), s.readers[i]? = some r → ∃ r', t.readers[i]? = some r' ∧
      r'.connection = r.connection ∧ r'.number = r.number) :
    ∀ q ∈ w.queued, ∃ r c, t.readers[q.1]? = some r ∧
      t.server.session r.connection = some c ∧ ⟨r.number, q.2⟩ ∈ c.queued := by
  intro q hq
  obtain ⟨r, c, hr, hc, hmem⟩ := h.queued q hq
  obtain ⟨r', hr', hconnection, hnumber⟩ := hkeep q.1 r hr
  obtain ⟨c', hc', hmore⟩ := session_kept (P := fun c c' => c.queued <+: c'.queued)
    (fun _ => List.prefix_rfl) (fun _ _ _ => Session.queued_step) hstep hc
  exact ⟨r', c', hr', hconnection ▸ hc', hnumber ▸ hmore.subset hmem⟩

/-- A client's session is in step with its messages. -/
def Following (k : Nat) (ms : List (Message lib.beast)) (s : FileServer) : Prop :=
  ∀ c, s.server.session k = some c → Session.InStep ms c

theorem following_step {k : Nat} {ms : List (Message lib.beast)} {e : FileServerEvent}
    (h : Following k ms s) (hdrains : Drains lib k s e) (hstep : s.step lib e = some t) :
    Following k ms t := by
  rcases server_step hstep with hsame | ⟨d, hheard, hd⟩
  · unfold Following
    rw [hsame]
    exact h
  · have hall : ∀ j c, t.server.session j = some c → j = k → Session.InStep ms c := by
      refine (HttpServer.hosts_sessions lib).forall_part trivial ?_ ?_ (fun j c hc heq => ?_) hd
      · rintro j c ⟨kind, buffer, rfl⟩ -
        exact Session.inStep_start ms
      · rintro j c d' c' hc hstays hof hreact rfl
        refine Session.inStep_step (hstays rfl) (hdrains c hc d' ?_) hreact
        rw [hheard]
        exact hof
      · subst heq
        exact h c hc
    exact fun c hc => hall k c hc rfl

/-- What a connection has received comes from a client that sends these messages. -/
def Sends (k : Nat) (ms : List (Message lib.beast)) (s : FileServer) : Prop :=
  ∀ c, s.server.session k = some c → c.received <+: clientStream ms

theorem Sends.of_step {k : Nat} {ms : List (Message lib.beast)} {e : FileServerEvent}
    (h : Sends k ms t) (hstep : s.step lib e = some t) : Sends k ms s := by
  intro c hc
  obtain ⟨c', hc', hmore⟩ := session_kept (P := fun c c' => c.received <+: c'.received)
    (fun _ => List.prefix_rfl) (fun _ _ _ => Session.received_step) hstep hc
  exact hmore.trans (h c' hc')

/-- A reader's body is that of its message. -/
def BodyOf (ms : List (Message lib.beast)) (r : BodyReader) : Prop :=
  ∃ m, ms[r.number]? = some m ∧ m.header = r.req0 ∧ r.received = m.body

/-- What holds of a client in all runs in which its requests leave no body in the stream. -/
structure Serves (k : Nat) (ms : List (Message lib.beast)) (s : FileServer) : Prop where
  sound : Sound lib s
  bodies : Bodies s
  following : Following k ms s
  answered : Sends k ms s → ∀ (i : Nat) (r : BodyReader), s.readers[i]? = some r →
    r.connection = k → r.phase = .answered → BodyOf ms r

/-- The body of an upload whose read ends. -/
theorem Serves.bodyOf {k : Nat} {ms : List (Message lib.beast)} (h : Serves k ms s)
    (hsends : Sends k ms s) {i : Nat} {r : BodyReader} (hr : s.readers[i]? = some r)
    (hconnection : r.connection = k) (hreading : r.phase = .reading)
    (hlength : r.received.length = lib.beast.bodyLength r.req0) : BodyOf ms r := by
  subst hconnection
  obtain ⟨c, hc, hop, hfront⟩ := h.bodies.reading i r hr hreading
  obtain ⟨hinv, hsync⟩ := h.following c hc
  obtain ⟨m, hm, hheader, hbody⟩ := Session.body_at_front hinv (h.sound _ c hc).2
    (hsync (hsends c hc)) (hsends c hc) hop (hlength ▸ hfront.length_le)
  refine ⟨m, hm, hheader, ?_⟩
  rw [← hbody, ← hlength]
  exact List.prefix_iff_eq_take.mp hfront

theorem serves_step {k : Nat} {ms : List (Message lib.beast)} {e : FileServerEvent}
    (h : Serves k ms s) (hdrains : Drains lib k s e) (hstep : s.step lib e = some t) :
    Serves k ms t := by
  refine ⟨sound_step h.sound hstep, bodies_step h.sound h.bodies hstep,
    following_step h.following hdrains hstep, fun hsends => ?_⟩
  have hbefore := hsends.of_step hstep
  have hold := h.answered hbefore
  cases e with
  | server e =>
    obtain ⟨-, -, server, -, ⟨-, rfl⟩ | ⟨k, number, req0, -, rfl⟩⟩ := step_server hstep
    · exact hold
    · exact Parts.forall_concat hold nofun
  | bodyPart i count =>
    obtain ⟨r, c, -, -, hreading, -, -, rfl⟩ := step_bodyPart hstep
    refine Parts.forall_set (fun j q _ => hold j q) fun _ hphase => ?_
    cases hreading.symm.trans hphase
  | bodyRead i =>
    obtain ⟨r, hr, hreading, hlength, hfinish⟩ := step_bodyRead hstep
    obtain ⟨server, -, rfl⟩ := finish_eq_some hfinish
    refine Parts.forall_set (fun j q _ => hold j q) fun hconnection _ => ?_
    have hbody : BodyOf ms r := h.bodyOf hbefore hr hconnection hreading hlength
    exact hbody
  | readFailed i =>
    obtain ⟨r, hr, -, hfinish⟩ := step_readFailed hstep
    obtain ⟨server, -, rfl⟩ := finish_eq_some hfinish
    exact Parts.forall_set (fun j q _ => hold j q) nofun
  | fileRead i count =>
    obtain ⟨b, c, -, -, -, -, rfl⟩ := step_fileRead hstep
    exact hold

variable {docRoot : Text} {files : FileStore (Path.Resolved Char) Char} {es : List FileServerEvent}

/-- A request for what was uploaded. -/
def fetchRequest : Request where
  method := .get
  target := "/upload_tmp_file".toList
  version := 11
  fields := []

end FileServer

end ServerAsync
