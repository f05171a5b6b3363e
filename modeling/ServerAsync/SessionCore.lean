import ServerAsync.HttpSession
import ServerAsync.Misc.PipelineRuns

/-!
# A session is a pipelined connection

`route` says which way `on_read` takes, and `onRead_eq` what it does there; the
other proofs about sessions read these instead of the functions. `core` forgets
the bytes and the owner, and `session_refines` matches every step of a session
with a step of the pipelined connection with `queueLimit` places.
-/

namespace ServerAsync

open Misc Misc.Pipeline

/-- The ways through `on_read`. -/
inductive Route where
  | websocket
  | tunnel
  | proxy
  | refuse
  | upload
  | reply (r : Response)
  deriving DecidableEq, Repr

/-- Whether `FileRequestHandler` answers. -/
def Route.isReply : Route → Bool
  | .reply _ => true
  | _ => false

/-- Whether the stream is given away. -/
def Route.handsOff : Route → Bool
  | .websocket | .tunnel | .proxy => true
  | _ => false

variable (lib : Lib)

/-- The way `on_read` takes for a header. -/
def route (req : Request) (files : Files) : Route :=
  if lib.beast.isUpgrade req then .websocket
  else if req.method = .connect then .tunnel
  else if "http".toList.isPrefixOf req.target then .proxy
  else if lib.urls.parseOriginForm req.target = none then .refuse
  else if isUpload req then if files.write = none then .upload else .refuse
  else .reply (FileRequestHandler.handleRequest lib.beast ".".toList req files.scan)

variable {lib} in
/-- A request for `FileRequestHandler` goes there whatever files there are, with the root
".". -/
theorem route_reply_scan {req : Request} {files : Files} {r : Response}
    (h : route lib req files = .reply r) (scan : Text → Opened) :
    route lib req { files with scan := scan } =
      .reply (FileRequestHandler.handleRequest lib.beast ".".toList req scan) := by
  unfold route at h ⊢
  by_cases hup : lib.beast.isUpgrade req
  · rw [if_pos hup] at h
    cases h
  rw [if_neg hup] at h ⊢
  by_cases hconnect : req.method = .connect
  · rw [if_pos hconnect] at h
    cases h
  rw [if_neg hconnect] at h ⊢
  by_cases hhttp : "http".toList.isPrefixOf req.target
  · rw [if_pos hhttp] at h
    cases h
  rw [if_neg hhttp] at h ⊢
  by_cases horigin : lib.urls.parseOriginForm req.target = none
  · rw [if_pos horigin] at h
    cases h
  rw [if_neg horigin] at h ⊢
  by_cases hupload : isUpload req
  · rw [if_pos hupload] at h
    split at h <;> cases h
  rw [if_neg hupload]

namespace Session

/-- The end of each way through `on_read`. -/
def onRoute (s : Session) (number : Nat) (req : Request) : Route → Session
  | .websocket => { s.releaseStream with owner := some (.websocket req) }
  | .tunnel =>
    s.startCopier (SocketCopier.start (SocketCopier.new maxLength s.buffer req)) .socketCopier
  | .proxy =>
    s.startCopier (HttpCopier.start lib.urls (HttpCopier.new maxLength req s.buffer)) .httpCopier
  | .refuse => (s.dispatch req).doEof .request
  | .upload => (s.dispatch req).asyncRead (.body number req)
  | .reply r => (s.dispatch req).queueWrite ⟨number, r⟩

/-- What `on_read` does with a header. -/
theorem onRead_eq (s : Session) (number : Nat) (req : Request) (files : Files) :
    s.onRead lib number req files = s.onRoute lib number req (route lib req files) := by
  unfold onRead route
  by_cases hup : lib.beast.isUpgrade req
  · simp only [hup, if_true, onRoute]
  by_cases hconnect : req.method = .connect
  · simp only [hup, hconnect, if_true, Bool.false_eq_true, if_false, onRoute]
  by_cases hhttp : "http".toList.isPrefixOf req.target
  · simp only [hup, hconnect, hhttp, if_true, Bool.false_eq_true, if_false, onRoute]
  simp only [hup, hconnect, hhttp, Bool.false_eq_true, if_false]
  unfold handler
  cases horigin : lib.urls.parseOriginForm req.target with
  | none => rfl
  | some path =>
    -- an origin-form starts with a slash, so the router gets through the path
    obtain ⟨rest, rfl⟩ := lib.urls.originForm_slash _ _ horigin
    obtain ⟨segments, hsegments⟩ := Option.isSome_iff_exists.mp (allSegments_isSome rest)
    simp only [hsegments, reduceCtorEq, if_false]
    by_cases hupload : isUpload req
    · simp only [hupload, if_true]
      unfold FileUploadHandler.handleRequest
      cases files.write <;> rfl
    · simp only [hupload, if_false, onRoute]

/-- The pipelined connection that a session is. -/
def core (s : Session) : State Request Response where
  reads := s.reads
  writes := s.writes
  queue := s.responseQueue
  headers := s.headers.length
  dispatched := s.dispatched.length
  uses := s.uses
  eofs := s.eofs
  closed := s.closed
  ended := s.ended
  queued := s.queued
  handed := s.handed
  answered := s.answered

theorem core_asyncRead (s : Session) (op : Read Request) :
    (s.asyncRead op).core = s.core.read op := rfl

theorem core_doRead (s : Session) : s.doRead.core = s.core.read .header := rfl

theorem core_doWrite (s : Session) : s.doWrite.core = s.core.write := by
  unfold doWrite State.write
  cases hqueue : s.responseQueue with
  | nil => simp [core, hqueue]
  | cons q rest => simp [core, hqueue]

theorem core_queueWrite (s : Session) (q : Reply Response) :
    (s.queueWrite q).core = s.core.push q := by
  unfold queueWrite State.push
  by_cases hone : (s.responseQueue ++ [q]).length = 1
  · simp only [hone, if_true, core_doWrite]
    exact (if_pos (by exact hone)).symm
  · simp only [hone, if_false]
    exact (if_neg (by exact hone)).symm

theorem core_continueReadIfNeeded (s : Session) :
    s.continueReadIfNeeded.core = s.core.readOn queueLimit := by
  unfold continueReadIfNeeded State.readOn
  by_cases hroom : s.responseQueue.length < queueLimit
  · rw [if_pos hroom, if_pos (by exact hroom), core_doRead]
  · rw [if_neg hroom, if_neg (by exact hroom)]

theorem core_onWrite (s : Session) (q : Reply Response) (ok : Bool) :
    (s.onWrite q ok).core = s.core.afterWrite Response.keepAlive queueLimit q ok := by
  unfold onWrite State.afterWrite
  split
  · rfl
  split
  · rfl
  · rw [core_doWrite]
    by_cases hfull : queueLimit ≤ s.responseQueue.length
    · rw [if_pos hfull, if_pos (by exact hfull)]
      rfl
    · rw [if_neg hfull, if_neg (by exact hfull)]
      rfl

theorem core_startCopier (s : Session) (started : Except Exn Copier) (owner : Copier → Owner) :
    (s.startCopier started owner).core = { s.core with ended := true } := by
  cases started <;> rfl

end Session

/-- What becomes of the pipelined connection on a way through `on_read`. -/
def Route.label (req : Request) : Route → Label Request Response
  | .websocket => .released
  | .tunnel => .released
  | .proxy => .released
  | .refuse => .refused
  | .upload => .uploading req
  | .reply r => .replied r

/-- The completion of the pipelined connection that a completion of the session is. -/
def label : SessionEvent → Label Request Response
  | .arrive _ => .tick
  | .handshake _ => .opened
  | .headerRead req _ files => (route lib req files).label req
  | .endOfStream => .endOfStream
  | .bodyRead number req => .uploaded number req (FileUploadHandler.response req)
  | .readFailed op => .readFailed op
  | .written q ok => .wrote q ok
  | .shutdown => .tick

/-- The machine of the pipelined connection that sessions refine. -/
abbrev pipeline : Machine (State Request Response) (Label Request Response) :=
  Pipeline.machine Request Response.keepAlive queueLimit

namespace Session

theorem step_eq_some {s s' : Session} {e : SessionEvent} :
    s.step lib e = some s' ↔ s.fate = .live ∧ s.react lib e = some s' := by
  unfold step
  split <;> simp_all

/-- A header that was read goes its way through `on_read`. -/
theorem step_headerRead {s s' : Session} {req : Request} {bytes : Nat} {files : Files}
    (hstep : s.step lib (.headerRead req bytes files) = some s') :
    s.fate = .live ∧ lib.beast.parseHeader s.buffer = .done req bytes ∧
    s' = (s.takeHeader lib req bytes).onRoute lib s.headers.length req (route lib req files) := by
  obtain ⟨hlive, hreact⟩ := (step_eq_some lib).mp hstep
  rcases Machine.taken hreact with ⟨⟨-, hparse⟩, rfl⟩
  exact ⟨hlive, hparse, onRead_eq ..⟩

theorem session_refines : (machine lib).Refines pipeline core (fun _ e => label lib e) := by
  intro s e s' hstep
  obtain ⟨-, hreact⟩ := (step_eq_some lib).mp hstep
  cases e with
  | arrive bytes =>
    rcases Machine.taken hreact with ⟨-, rfl⟩
    rfl
  | handshake bytesUsed =>
    rcases Machine.taken hreact with ⟨hop, rfl⟩
    exact if_pos hop
  | headerRead req bytes files =>
    rcases Machine.taken hreact with ⟨⟨hop, -⟩, rfl⟩
    rw [onRead_eq]
    have hlen : (s.headers ++ [req]).length = s.headers.length + 1 := by simp
    have hdisp : (s.dispatched ++ [req]).length = s.dispatched.length + 1 := by simp
    cases hroute : route lib req files with
    | websocket =>
      simp only [label, hroute, Route.label, onRoute]
      refine (if_pos hop).trans (congrArg some ?_)
      simp [core, releaseStream, takeHeader, State.headerDone]
    | tunnel =>
      simp only [label, hroute, Route.label, onRoute, core_startCopier]
      refine (if_pos hop).trans (congrArg some ?_)
      simp [core, takeHeader, State.headerDone]
    | proxy =>
      simp only [label, hroute, Route.label, onRoute, core_startCopier]
      refine (if_pos hop).trans (congrArg some ?_)
      simp [core, takeHeader, State.headerDone]
    | refuse =>
      simp only [label, hroute, Route.label, onRoute]
      refine (if_pos hop).trans (congrArg some ?_)
      simp [core, takeHeader, State.headerDone, doEof, dispatch]
    | upload =>
      simp only [label, hroute, Route.label, onRoute, core_asyncRead]
      refine (if_pos hop).trans (congrArg some ?_)
      simp [core, takeHeader, State.headerDone, dispatch]
    | reply r =>
      simp only [label, hroute, Route.label, onRoute, core_queueWrite]
      refine (if_pos hop).trans (congrArg some ?_)
      simp [core, takeHeader, State.headerDone, dispatch]
  | endOfStream =>
    rcases Machine.taken hreact with ⟨hop, rfl⟩
    exact if_pos hop
  | bodyRead number req =>
    rcases Machine.taken hreact with ⟨⟨hop, -⟩, rfl⟩
    rw [FileUploadHandler.onRead, core_continueReadIfNeeded, core_queueWrite]
    exact if_pos hop
  | readFailed op =>
    rcases Machine.taken hreact with ⟨hop, rfl⟩
    exact if_pos hop
  | written q ok =>
    rcases Machine.taken hreact with ⟨hop, rfl⟩
    rw [core_onWrite]
    exact if_pos hop
  | shutdown =>
    rcases Machine.taken hreact with ⟨-, rfl⟩
    rfl

end Session

end ServerAsync
