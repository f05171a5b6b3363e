import ServerAsync.SessionRuns

/-!
# `server_async.h`: from the server to its sessions

An `HttpServer` is made with the root of its documents, `doc_root`, and hands it to its
listener, which hands it to the detector of each connection. Once the detector knows
whether the client speaks SSL, a session takes over. An exception in a handler of one
connection is the end of all of them.
-/

namespace ServerAsync

open Misc

/-- `detect_session`. -/
structure DetectSession where
  docRoot : Text
  deriving DecidableEq, Repr

/-- `listener`. -/
structure Listener where
  docRoot : Text
  deriving DecidableEq, Repr

/-- A connection that was accepted. -/
inductive Connection where
  | detecting (d : DetectSession)
  | session (s : Session)
  /-- Detection has failed. -/
  | dropped

/-- Whether an exception has left a handler of this connection. -/
def Connection.threw : Connection → Bool
  | .session s => match s.fate with
    | .threw _ => true
    | _ => false
  | _ => false

/-- `HttpServer`, with its listener once it has started, and the connections in the
order in which they were accepted. -/
structure HttpServer where
  docRoot : Text
  listener : Option Listener
  connections : List Connection

/-- What happens to a server: `start` is called, a connection is accepted or not, a
detector has read enough to tell SSL from plain HTTP or fails, and what happens to the
session of a connection. -/
inductive ServerEvent where
  | start
  | accepted
  | acceptFailed
  | detected (i : Nat) (result : Bool) (buffer : Text)
  | detectFailed (i : Nat)
  | session (i : Nat) (e : SessionEvent)

namespace DetectSession

/-- `on_detect` without an error: launch the session. -/
def onDetect (_ : DetectSession) (result : Bool) (buffer : Text) : Session :=
  if result then Session.run .ssl buffer else Session.run .plain buffer

end DetectSession

namespace Listener

/-- `on_accept` without an error: create the detector and run it. -/
def onAccept (l : Listener) : Connection := .detecting ⟨l.docRoot⟩

end Listener

namespace HttpServer

variable (lib : Lib)

/-- The constructor. -/
def new (docRoot : Text) : HttpServer := ⟨docRoot, none, []⟩

/-- `start`: create the listener and run it. -/
def start (s : HttpServer) : HttpServer := { s with listener := some ⟨s.docRoot⟩ }

/-- What becomes of a connection. -/
def setConnection (s : HttpServer) (i : Nat) (c : Connection) : HttpServer :=
  { s with connections := s.connections.set i c }

/-- Whether an exception has left a handler. Nothing catches it: it leaves `ioc.run()` as
well and ends the process. -/
def terminated (s : HttpServer) : Bool := s.connections.any Connection.threw

/-- The reaction to an event, `none` when it cannot happen. -/
def react (s : HttpServer) : ServerEvent → Option HttpServer
  | .start => if s.listener = none then some s.start else none
  | .accepted => s.listener.map fun l => { s with connections := s.connections ++ [l.onAccept] }
  | .acceptFailed => s.listener.map fun _ => s
  | .detected i result buffer =>
    match s.connections[i]? with
    | some (.detecting d) => some (s.setConnection i (.session (d.onDetect result buffer)))
    | some _ => none
    | none => none
  | .detectFailed i =>
    match s.connections[i]? with
    | some (.detecting _) => some (s.setConnection i .dropped)
    | some _ => none
    | none => none
  | .session i e =>
    match s.connections[i]? with
    | some (.session c) => (c.step lib e).map fun c' => s.setConnection i (.session c')
    | some _ => none
    | none => none

/-- A server goes on until an exception ends its process. -/
def step (s : HttpServer) (e : ServerEvent) : Option HttpServer :=
  if s.terminated then none else s.react lib e

/-- A server as a machine. -/
def machine : Machine HttpServer ServerEvent := ⟨step lib⟩

/-- A step of the server that reads a header on a connection opens the file at `path`:
what comes of the step depends on what is there. -/
def Opens (s : HttpServer) (i : Nat) (req : Request) (bytes : Nat) (files : Files) (path : Text) :
    Prop :=
  ∃ found, s.step lib (.session i (.headerRead req bytes files)) ≠
    s.step lib (.session i (.headerRead req bytes
      { files with scan := Function.update files.scan path found }))

/-- The step queues a response with status 200. -/
def Serves (s t : HttpServer) (i : Nat) : Prop :=
  ∃ c c' q, s.connections[i]? = some (.session c) ∧ t.connections[i]? = some (.session c') ∧
    c'.queued = c.queued ++ [q] ∧ q.message.status = .ok

/-! ## What a session opens -/

theorem startCopier_queued (c : Session) (started : Except Exn Copier) (owner : Copier → Owner) :
    (c.startCopier started owner).queued = c.queued := by
  cases started <;> rfl

theorem queueWrite_queued (c : Session) (q : Misc.Pipeline.Reply Response) :
    (c.queueWrite q).queued = c.queued ++ [q] := by
  unfold Session.queueWrite
  dsimp only
  split
  · unfold Session.doWrite
    split <;> rfl
  · rfl

/-- Only the file handler queues a response to a header. -/
theorem onRoute_queued (c : Session) (number : Nat) (req : Request) (way : Route) :
    (c.onRoute lib number req way).queued = c.queued ∨
      ∃ r, way = .reply r ∧
        (c.onRoute lib number req way).queued = c.queued ++ [⟨number, r⟩] := by
  cases way with
  | websocket => exact Or.inl rfl
  | tunnel =>
    rw [Session.onRoute]
    exact Or.inl (startCopier_queued ..)
  | proxy =>
    rw [Session.onRoute]
    exact Or.inl (startCopier_queued ..)
  | refuse => exact Or.inl rfl
  | upload => exact Or.inl rfl
  | reply r =>
    rw [Session.onRoute]
    exact Or.inr ⟨r, rfl, queueWrite_queued ..⟩

variable {lib}

theorem step_eq_some {s t : HttpServer} {e : ServerEvent} :
    s.step lib e = some t ↔ s.terminated = false ∧ s.react lib e = some t := by
  rw [step, Option.ite_none_left_eq_some, Bool.not_eq_true]

theorem terminated_setConnection {s : HttpServer} (h : s.terminated = false) {i : Nat}
    {c : Connection} (hc : c.threw = false) : (s.setConnection i c).terminated = false := by
  rw [terminated, List.any_eq_false] at h ⊢
  intro d hd
  rcases List.mem_or_eq_of_mem_set hd with hold | rfl
  · exact h d hold
  · rw [hc]
    exact Bool.false_ne_true

theorem step_session {s t : HttpServer} {i : Nat} {e : SessionEvent}
    (hstep : s.step lib (.session i e) = some t) :
    ∃ c c', s.connections[i]? = some (.session c) ∧ c.step lib e = some c' ∧
      t = s.setConnection i (.session c') := by
  obtain ⟨-, hstep⟩ := step_eq_some.mp hstep
  simp only [react] at hstep
  split at hstep
  · rename_i c hc
    obtain ⟨c', hc', rfl⟩ := Option.map_eq_some_iff.mp hstep
    exact ⟨c, c', hc, hc', rfl⟩
  · cases hstep
  · cases hstep

theorem step_detected {s t : HttpServer} {i : Nat} {result : Bool} {buffer : Text}
    (hstep : s.step lib (.detected i result buffer) = some t) :
    ∃ d, s.connections[i]? = some (.detecting d) ∧
      t = s.setConnection i (.session (d.onDetect result buffer)) := by
  obtain ⟨-, hstep⟩ := step_eq_some.mp hstep
  simp only [react] at hstep
  split at hstep
  · rename_i d hd
    exact ⟨d, hd, (Option.some.inj hstep).symm⟩
  · cases hstep
  · cases hstep

theorem step_detectFailed {s t : HttpServer} {i : Nat}
    (hstep : s.step lib (.detectFailed i) = some t) :
    ∃ d, s.connections[i]? = some (.detecting d) ∧ t = s.setConnection i .dropped := by
  obtain ⟨-, hstep⟩ := step_eq_some.mp hstep
  simp only [react] at hstep
  split at hstep
  · rename_i d hd
    exact ⟨d, hd, (Option.some.inj hstep).symm⟩
  · cases hstep
  · cases hstep

/-- The read of a header, when other files are there. -/
theorem step_headerRead_scan {s : HttpServer} {i : Nat} {req : Request} {bytes : Nat}
    {files : Files} {c c' : Session} {r : Response} (hup : s.terminated = false)
    (hc : s.connections[i]? = some (.session c))
    (hstep : c.step lib (.headerRead req bytes files) = some c')
    (hroute : route lib req files = .reply r) (scan : Text → Opened) :
    s.step lib (.session i (.headerRead req bytes { files with scan := scan })) =
      some (s.setConnection i (.session ((c.takeHeader lib req bytes).onRoute lib
        c.headers.length req
        (.reply (FileRequestHandler.handleRequest lib.beast ".".toList req scan))))) := by
  obtain ⟨hlive, hparse, -⟩ := c.step_headerRead lib hstep
  obtain ⟨-, hreact⟩ := (Session.step_eq_some lib).mp hstep
  obtain ⟨⟨hop, -⟩, -⟩ := Machine.taken hreact
  have hread : c.step lib (.headerRead req bytes { files with scan := scan }) =
      some ((c.takeHeader lib req bytes).onRoute lib c.headers.length req
        (.reply (FileRequestHandler.handleRequest lib.beast ".".toList req scan))) := by
    rw [Session.step_eq_some]
    refine ⟨hlive, ?_⟩
    rw [← route_reply_scan hroute scan, ← Session.onRead_eq]
    exact if_pos ⟨hop, hparse⟩
  rw [step_eq_some]
  refine ⟨hup, ?_⟩
  simp only [react, hc, hread, Option.map_some]

/-- What is behind a response with status 200. -/
theorem serves_reply {s t : HttpServer} {i : Nat} {req : Request} {bytes : Nat} {files : Files}
    (hstep : s.step lib (.session i (.headerRead req bytes files)) = some t)
    (hserves : s.Serves t i) :
    ∃ c c', s.connections[i]? = some (.session c) ∧
      c.step lib (.headerRead req bytes files) = some c' ∧
      route lib req files =
        .reply (FileRequestHandler.handleRequest lib.beast ".".toList req files.scan) ∧
      (FileRequestHandler.handleRequest lib.beast ".".toList req files.scan).status = .ok := by
  obtain ⟨c, c', hc, hread, rfl⟩ := step_session hstep
  obtain ⟨c₁, c₁', q, hc₁, hc₁', hqueued, hok⟩ := hserves
  cases Option.some.inj (hc.symm.trans hc₁)
  rw [setConnection, List.getElem?_set_self (List.getElem?_eq_some_iff.mp hc).1] at hc₁'
  cases Option.some.inj hc₁'
  obtain ⟨-, -, rfl⟩ := c.step_headerRead lib hread
  rcases onRoute_queued lib (c.takeHeader lib req bytes) c.headers.length req
    (route lib req files) with hsame | ⟨r, hroute, hmore⟩
  · have hlen := congrArg List.length (hqueued.symm.trans hsame)
    rw [List.length_append, List.length_singleton] at hlen
    change c.queued.length + 1 = c.queued.length at hlen
    omega
  · have hreply := route_reply_scan hroute files.scan
    change route lib req files = _ at hreply
    have hq := List.append_cancel_left (hqueued.symm.trans hmore)
    rw [List.cons.injEq] at hq
    rw [hq.1] at hok
    refine ⟨c, _, hc, hread, hreply, ?_⟩
    rw [hroute] at hreply
    rwa [← Route.reply.inj hreply]

/-- The file behind a response with status 200 is the one below "." that the target
names, and the step depends on no other. -/
theorem opens_iff {s t : HttpServer} {i : Nat} {req : Request} {bytes : Nat} {files : Files}
    (hstep : s.step lib (.session i (.headerRead req bytes files)) = some t)
    (hserves : s.Serves t i) (path : Text) :
    s.Opens lib i req bytes files path ↔ path = FileRequestHandler.path ".".toList req := by
  obtain ⟨c, c', hc, hread, hroute, hok⟩ := serves_reply hstep hserves
  have hscan := step_headerRead_scan (step_eq_some.mp hstep).1 hc hread hroute
  have hhere := hscan files.scan
  change s.step lib (.session i (.headerRead req bytes files)) = _ at hhere
  constructor
  · rintro ⟨found, hdiffers⟩
    by_contra hother
    apply hdiffers
    have hsame : files.scan (FileRequestHandler.path ".".toList req) =
        Function.update files.scan path found (FileRequestHandler.path ".".toList req) :=
      (Function.update_of_ne (Ne.symm hother) ..).symm
    have hreply := FileRequestHandler.handleRequest_congr lib.beast ".".toList req fun _ => hsame
    rw [hhere, hscan, hreply]
  · rintro rfl
    refine ⟨.noSuchFile, fun hsame => ?_⟩
    -- without the file, the response would be another one
    obtain ⟨-, -, -, -, -, hok'⟩ := serves_reply (hsame.symm.trans hstep) hserves
    obtain ⟨-, content, hcontent⟩ := FileRequestHandler.handleRequest_ok hok'
    dsimp only at hcontent
    rw [Function.update_self] at hcontent
    cases hcontent

/-- What the file handler answers with 200 is served. -/
theorem serves_of_reply {s : HttpServer} {i : Nat} {req : Request} {bytes : Nat} {files : Files}
    {c c' : Session} (hup : s.terminated = false) (hc : s.connections[i]? = some (.session c))
    (hread : c.step lib (.headerRead req bytes files) = some c')
    (hroute : route lib req files =
      .reply (FileRequestHandler.handleRequest lib.beast ".".toList req files.scan))
    (hok : (FileRequestHandler.handleRequest lib.beast ".".toList req files.scan).status = .ok) :
    ∃ t, s.step lib (.session i (.headerRead req bytes files)) = some t ∧ s.Serves t i := by
  exact ⟨_, step_headerRead_scan hup hc hread hroute files.scan, c, _, ⟨c.headers.length, _⟩, hc,
    List.getElem?_set_self (List.getElem?_eq_some_iff.mp hc).1, queueWrite_queued .., hok⟩

/-! ## How far the root gets -/

/-- The root is that of the server wherever it is kept. -/
structure SameRoot (docRoot : Text) (s : HttpServer) : Prop where
  server : s.docRoot = docRoot
  listener : ∀ l, s.listener = some l → l.docRoot = docRoot
  detector : ∀ d, .detecting d ∈ s.connections → d.docRoot = docRoot

theorem sameRoot_new (docRoot : Text) : SameRoot docRoot (new docRoot) := by
  refine ⟨rfl, fun l hl => ?_, fun d hd => ?_⟩
  · cases hl
  · cases hd

/-- A connection that changes keeps the roots when it is not a detector afterwards. -/
theorem SameRoot.setConnection {docRoot : Text} {s : HttpServer} (h : SameRoot docRoot s) {i : Nat}
    {c : Connection} (hc : ∀ d, c ≠ .detecting d) : SameRoot docRoot (s.setConnection i c) := by
  refine ⟨h.server, h.listener, fun d hd => ?_⟩
  rcases List.mem_or_eq_of_mem_set hd with hold | hnew
  · exact h.detector d hold
  · exact absurd hnew.symm (hc d)

theorem sameRoot_step {docRoot : Text} {s t : HttpServer} {e : ServerEvent}
    (h : SameRoot docRoot s) (hstep : s.step lib e = some t) : SameRoot docRoot t := by
  obtain ⟨-, hreact⟩ := step_eq_some.mp hstep
  cases e with
  | start =>
    obtain ⟨-, rfl⟩ := Machine.taken hreact
    refine ⟨h.server, fun l hl => ?_, h.detector⟩
    cases Option.some.inj hl
    exact h.server
  | accepted =>
    obtain ⟨l, hl, rfl⟩ := Option.map_eq_some_iff.mp hreact
    refine ⟨h.server, h.listener, fun d hd => ?_⟩
    rcases List.mem_append.mp hd with hold | hnew
    · exact h.detector d hold
    · cases List.mem_singleton.mp hnew
      exact h.listener l hl
  | acceptFailed =>
    obtain ⟨l, -, rfl⟩ := Option.map_eq_some_iff.mp hreact
    exact h
  | detected i result buffer =>
    obtain ⟨d, -, rfl⟩ := step_detected hstep
    exact h.setConnection fun d hd => by cases hd
  | detectFailed i =>
    obtain ⟨d, -, rfl⟩ := step_detectFailed hstep
    exact h.setConnection fun d hd => by cases hd
  | session i e =>
    obtain ⟨c, c', -, -, rfl⟩ := step_session hstep
    exact h.setConnection fun d hd => by cases hd

/-- The root gets to the listener and to every detector. -/
theorem sameRoot_of_run {docRoot : Text} {s : HttpServer} {es : List ServerEvent}
    (hrun : (machine lib).run (new docRoot) es = some s) : SameRoot docRoot s :=
  Machine.run_invariant (I := SameRoot docRoot) (fun _ _ _ => sameRoot_step)
    (sameRoot_new docRoot) hrun

/-- The server as it is with another root. -/
def withRoot (docRoot : Text) (s : HttpServer) : HttpServer where
  docRoot := docRoot
  listener := s.listener.map fun _ => ⟨docRoot⟩
  connections := s.connections.map fun
    | .detecting _ => .detecting ⟨docRoot⟩
    | c => c

theorem terminated_withRoot (docRoot : Text) (s : HttpServer) :
    (s.withRoot docRoot).terminated = s.terminated := by
  unfold terminated withRoot
  rw [List.any_map]
  congr 1
  funext c
  cases c <;> rfl

/-- The root gets no further: with another one, a server does the same. -/
theorem refines_withRoot (docRoot : Text) :
    (machine lib).Refines (machine lib) (withRoot docRoot) fun _ e => e := by
  intro s e t hstep
  obtain ⟨hup, hreact⟩ := step_eq_some.mp hstep
  refine step_eq_some.mpr ⟨(terminated_withRoot docRoot s).trans hup, ?_⟩
  cases e with
  | start =>
    obtain ⟨hnone, rfl⟩ := Machine.taken hreact
    simp [react, withRoot, start, hnone]
  | accepted =>
    obtain ⟨l, hl, rfl⟩ := Option.map_eq_some_iff.mp hreact
    simp [react, withRoot, hl, Listener.onAccept]
  | acceptFailed =>
    obtain ⟨l, hl, rfl⟩ := Option.map_eq_some_iff.mp hreact
    simp [react, withRoot, hl]
  | detected i result buffer =>
    obtain ⟨d, hd, rfl⟩ := step_detected hstep
    simp [react, withRoot, hd, setConnection, DetectSession.onDetect, List.map_set]
  | detectFailed i =>
    obtain ⟨d, hd, rfl⟩ := step_detectFailed hstep
    simp [react, withRoot, hd, setConnection, List.map_set]
  | session i e =>
    obtain ⟨c, c', hc, hread, rfl⟩ := step_session hstep
    simp [react, withRoot, hc, hread, setConnection, List.map_set]

/-- The file behind a response with status 200 is the one that the target names below
the root of the server, and no other, exactly when the root is ".". -/
theorem served_from_root_iff {docRoot : Text} {s t : HttpServer} {es : List ServerEvent} {i : Nat}
    {req : Request} {bytes : Nat} {files : Files}
    (hrun : (machine lib).run (new docRoot) es = some s)
    (hstep : (machine lib).step s (.session i (.headerRead req bytes files)) = some t)
    (hserves : s.Serves t i) :
    s.docRoot = docRoot ∧
      ((∀ path, s.Opens lib i req bytes files path ↔
          path = FileRequestHandler.path docRoot req) ↔
        docRoot = ".".toList ∨ docRoot = "./".toList) := by
  refine ⟨(sameRoot_of_run hrun).server, ?_⟩
  obtain ⟨-, -, -, -, -, hok⟩ := serves_reply hstep hserves
  obtain ⟨⟨-, hslash, -⟩, -⟩ := FileRequestHandler.handleRequest_ok hok
  rw [← FileRequestHandler.path_dot_iff hslash]
  constructor
  · intro hopens
    exact (hopens _).mp ((opens_iff hstep hserves _).mpr rfl)
  · intro hsame path
    rw [opens_iff hstep hserves path, hsame]

/-- A request for a file. -/
def fileRequest : Request where
  method := .get
  target := "/a".toList
  version := 11
  fields := []

/-- The file is in the working directory of the server and nowhere else. -/
def workingDirectory : Files where
  scan path := if path = "./a".toList then .opened "secret".toList else .noSuchFile
  write := none

/-- A server whose first client has sent the request. -/
theorem run_fileRequest (docRoot : Text) :
    ∃ s t, (machine (Lib.plain [fileRequest])).run (new docRoot)
        [.start, .accepted, .detected 0 false fileRequest.text] = some s ∧
      (machine (Lib.plain [fileRequest])).step s
        (.session 0 (.headerRead fileRequest fileRequest.text.length workingDirectory)) = some t ∧
      s.Serves t 0 := by
  obtain ⟨c, hread⟩ := Option.isSome_iff_exists.mp (by decide +kernel :
    ((Session.run .plain fileRequest.text).step (Lib.plain [fileRequest])
      (.headerRead fileRequest fileRequest.text.length workingDirectory)).isSome = true)
  obtain ⟨t, hstep, hserves⟩ := serves_of_reply
    (s := ⟨docRoot, some ⟨docRoot⟩, [.session (Session.run .plain fileRequest.text)]⟩) (i := 0) rfl
    rfl hread (by decide +kernel) (by decide +kernel)
  exact ⟨_, t, rfl, hstep, hserves⟩

/-- The root that the tests use. -/
theorem served_from_root_iff_dot : ∃ s t,
    (machine (Lib.plain [fileRequest])).run (new ".".toList)
        [.start, .accepted, .detected 0 false fileRequest.text] = some s ∧
      (machine (Lib.plain [fileRequest])).step s
        (.session 0 (.headerRead fileRequest fileRequest.text.length workingDirectory)) = some t ∧
      ∀ path, s.Opens (Lib.plain [fileRequest]) 0 fileRequest fileRequest.text.length
        workingDirectory path ↔ path = FileRequestHandler.path ".".toList fileRequest := by
  obtain ⟨s, t, hrun, hstep, hserves⟩ := run_fileRequest ".".toList
  exact ⟨s, t, hrun, hstep, (served_from_root_iff hrun hstep hserves).2.mpr (Or.inl rfl)⟩

/-- A server for another directory serves a file of its working directory. -/
theorem other_root_served : ∃ s t,
    (machine (Lib.plain [fileRequest])).run (new "/srv".toList)
        [.start, .accepted, .detected 0 false fileRequest.text] = some s ∧
      (machine (Lib.plain [fileRequest])).step s
        (.session 0 (.headerRead fileRequest fileRequest.text.length workingDirectory)) = some t ∧
      s.Serves t 0 ∧
      workingDirectory.scan (FileRequestHandler.path "/srv".toList fileRequest) = .noSuchFile ∧
      s.Opens (Lib.plain [fileRequest]) 0 fileRequest fileRequest.text.length workingDirectory
        "./a".toList ∧
      ¬ s.Opens (Lib.plain [fileRequest]) 0 fileRequest fileRequest.text.length workingDirectory
        (FileRequestHandler.path "/srv".toList fileRequest) := by
  obtain ⟨s, t, hrun, hstep, hserves⟩ := run_fileRequest "/srv".toList
  refine ⟨s, t, hrun, hstep, hserves, by decide +kernel, ?_, ?_⟩
  · exact (opens_iff hstep hserves _).mpr (by decide +kernel)
  · rw [opens_iff hstep hserves]
    decide +kernel

end HttpServer

end ServerAsync
