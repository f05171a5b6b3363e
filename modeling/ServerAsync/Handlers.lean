import ServerAsync.SessionCore
import ServerAsync.Uploads

/-!
# The two handlers

What `handler::operator()` does to the files: a request goes to `FileUploadHandler`, which
opens the upload file for writing, or to `FileRequestHandler`, which opens a file for
reading. Which one it is depends on the content type and the target and not on the
method. The last section compares what the two make of the `Connection` field.
-/

namespace ServerAsync

open Misc

/-- What happens to the handlers: a request is dispatched, with its body and with the error
of opening the upload file, if there is one, and what happens to an upload. -/
inductive HandlerEvent where
  | dispatched (ebr : Request) (body : Text) (openError : Option Text)
  | chunkRead (i : Nat) (chunk : Text)
  | bodyRead (i : Nat)
  | readFailed (i : Nat) (message : Text)
  deriving DecidableEq, Repr

/-- What happens to the upload with this number. -/
def HandlerEvent.isOf (i : Nat) : HandlerEvent → Prop
  | .dispatched _ _ _ => False
  | .chunkRead k _ => k = i
  | .bodyRead k => k = i
  | .readFailed k _ => k = i

namespace Handlers

open Uploads FileUploadHandler

variable (urls : BoostUrl)

/-- `handler::operator()` on the files. `FileRequestHandler` opens its file with
`file_mode::scan` and writes nothing. -/
def dispatch (s : Uploads) (ebr : Request) (body : Text) (openError : Option Text) : Uploads :=
  match urls.parseOriginForm ebr.target with
  | none => s
  | some path =>
    match allSegments path with
    | none => s
    | some _ =>
      if isUpload ebr then
        match openError with
        | none => s.handleRequest ebr body
        | some _ => s
      else s

/-- The reaction to an event, `none` when it cannot happen. -/
def step (s : Uploads) : HandlerEvent → Option Uploads
  | .dispatched ebr body openError => some (dispatch urls s ebr body openError)
  | .chunkRead i chunk => s.step (.chunkRead i chunk)
  | .bodyRead i => s.step (.bodyRead i)
  | .readFailed i message => s.step (.readFailed i message)

/-- The handlers of a server as a machine. -/
def machine : Machine Uploads HandlerEvent := ⟨step urls⟩

/-- `FileUploadHandler` gets the request and can open the file. -/
def Stores (ebr : Request) (openError : Option Text) : Prop :=
  urls.parseOriginForm ebr.target ≠ none ∧ isUpload ebr ∧ openError = none

variable {urls}

theorem dispatch_of_stores {ebr : Request} {openError : Option Text}
    (h : Stores urls ebr openError) (s : Uploads) (body : Text) :
    dispatch urls s ebr body openError = s.handleRequest ebr body := by
  obtain ⟨horigin, hupload, rfl⟩ := h
  obtain ⟨path, hpath⟩ := Option.ne_none_iff_exists'.mp horigin
  obtain ⟨rest, rfl⟩ := urls.originForm_slash _ _ hpath
  obtain ⟨segments, hsegments⟩ := Option.isSome_iff_exists.mp (allSegments_isSome rest)
  unfold dispatch
  rw [hpath]
  dsimp only
  rw [hsegments]
  exact if_pos hupload

theorem dispatch_of_not_stores {ebr : Request} {openError : Option Text}
    (h : ¬ Stores urls ebr openError) (s : Uploads) (body : Text) :
    dispatch urls s ebr body openError = s := by
  unfold dispatch
  cases horigin : urls.parseOriginForm ebr.target with
  | none => rfl
  | some path =>
    dsimp only
    cases hsegments : allSegments path with
    | none => rfl
    | some segments =>
      dsimp only
      by_cases hupload : isUpload ebr
      · rw [if_pos hupload]
        cases openError with
        | none =>
          refine absurd ⟨?_, hupload, rfl⟩ h
          rw [horigin]
          exact Option.some_ne_none path
        | some message => rfl
      · rw [if_neg hupload]

/-- A session reads a body for the requests that `FileUploadHandler` gets. -/
theorem stores_iff_route {lib : Lib} {req : Request} {files : Files}
    (hup : lib.beast.isUpgrade req = false) (hconnect : req.method ≠ .connect)
    (hhttp : "http".toList.isPrefixOf req.target = false) :
    route lib req files = .upload ↔ Stores lib.urls req files.write := by
  rw [route, hup, hhttp, if_neg hconnect, if_neg Bool.false_ne_true, if_neg Bool.false_ne_true]
  by_cases horigin : lib.urls.parseOriginForm req.target = none
  · rw [if_pos horigin]
    exact iff_of_false nofun fun hstores => hstores.1 horigin
  rw [if_neg horigin]
  by_cases hupload : isUpload req
  · rw [if_pos hupload]
    by_cases hopen : files.write = none
    · rw [if_pos hopen]
      exact iff_of_true rfl ⟨horigin, hupload, hopen⟩
    · rw [if_neg hopen]
      exact iff_of_false nofun fun hstores => hopen hstores.2.2
  · rw [if_neg hupload]
    exact iff_of_false nofun fun hstores => hupload hstores.2.1

/-! ## The files -/

/-- No file is changed by the dispatch of the request and what its handler does then. -/
def LeavesFiles (urls : BoostUrl) (s : Uploads) (ebr : Request) (body : Text)
    (openError : Option Text) : Prop :=
  ∀ es t, (∀ e ∈ es, e.isOf s.handlers.length) →
    (machine urls).run (dispatch urls s ebr body openError) es = some t → t.files = s.files

theorem LeavesFiles.dispatch {s : Uploads} {ebr : Request} {body : Text}
    {openError : Option Text} (h : LeavesFiles urls s ebr body openError) :
    (Handlers.dispatch urls s ebr body openError).files = s.files :=
  h [] _ (fun _ hmem => absurd hmem List.not_mem_nil) (Machine.run_nil ..)

/-- An upload at the end of its body changes no file. -/
theorem own_step {s t : Uploads} {i : Nat} {e : HandlerEvent}
    (hrest : ∀ u, s.handlers[i]? = some u → u.rest = []) (hof : e.isOf i)
    (hstep : (machine urls).step s e = some t) :
    t.files = s.files ∧ ∀ u, t.handlers[i]? = some u → u.rest = [] := by
  have hset : ∀ {u : Upload} {phase : Phase}, s.handlers[i]? = some u →
      ∀ v, (s.handlers.set i { u with phase := phase })[i]? = some v → v.rest = [] := by
    intro u phase hu v hv
    rcases Parts.getElem?_set_cases hv with ⟨-, rfl⟩ | ⟨hne, -⟩
    · exact hrest u hu
    · exact absurd rfl hne
  cases e with
  | dispatched ebr body openError => exact hof.elim
  | chunkRead k chunk =>
    cases hof
    obtain ⟨u, hu, -, hchunk, hprefix, -⟩ := step_chunkRead hstep
    rw [hrest u hu, List.prefix_nil] at hprefix
    exact absurd hprefix hchunk
  | bodyRead k =>
    cases hof
    obtain ⟨u, hu, -, -, rfl⟩ := step_bodyRead hstep
    exact ⟨rfl, hset hu⟩
  | readFailed k message =>
    cases hof
    obtain ⟨u, hu, -, rfl⟩ := step_readFailed message hstep
    exact ⟨rfl, hset hu⟩

theorem own_run {i : Nat} {es : List HandlerEvent} {s t : Uploads}
    (hrest : ∀ u, s.handlers[i]? = some u → u.rest = []) (hof : ∀ e ∈ es, e.isOf i)
    (hrun : (machine urls).run s es = some t) : t.files = s.files := by
  induction es generalizing s with
  | nil =>
    cases Option.some.inj hrun
    rfl
  | cons e es ih =>
    rw [List.forall_mem_cons] at hof
    obtain ⟨mid, hmid, hlater⟩ := Machine.run_cons_eq_some.mp hrun
    obtain ⟨hfiles, hrest'⟩ := own_step hrest hof.1 hmid
    rw [ih hrest' hof.2 hlater, hfiles]

theorem leavesFiles_of_not_stores {ebr : Request} {openError : Option Text}
    (h : ¬ Stores urls ebr openError) (s : Uploads) (body : Text) :
    LeavesFiles urls s ebr body openError := by
  intro es t hof hrun
  rw [dispatch_of_not_stores h] at hrun
  refine own_run ?_ hof hrun
  intro u hu
  rw [List.getElem?_length] at hu
  cases hu

/-- An empty upload to an empty file. -/
theorem leavesFiles_of_empty {s : Uploads} {ebr : Request} {openError : Option Text}
    (h : Stores urls ebr openError) (hfile : s.files uploadFile = some []) :
    LeavesFiles urls s ebr [] openError := by
  intro es t hof hrun
  rw [dispatch_of_stores h] at hrun
  have hrest : ∀ u, (s.handleRequest ebr []).handlers[s.handlers.length]? = some u →
      u.rest = [] := by
    intro u hu
    rw [handleRequest_last] at hu
    cases hu
    rfl
  rw [own_run hrest hof hrun]
  change Function.update s.files uploadFile (some []) = s.files
  rw [← hfile, Function.update_eq_self]

/-- An upload leaves the file empty at first, and then its body is written to it. -/
theorem empty_of_leavesFiles {s : Uploads} {ebr : Request} {body : Text}
    {openError : Option Text} (h : Stores urls ebr openError)
    (hleaves : LeavesFiles urls s ebr body openError) :
    s.files uploadFile = some [] ∧ body = [] := by
  have hempty : (s.handleRequest ebr body).files uploadFile = some [] :=
    FileStore.openWrite_self s.files uploadFile
  have hfile : s.files uploadFile = some [] := by
    rw [← hleaves.dispatch, dispatch_of_stores h, hempty]
  rw [LeavesFiles, dispatch_of_stores h] at hleaves
  refine ⟨hfile, ?_⟩
  by_contra hbody
  have hput : (machine urls).step (s.handleRequest ebr body)
      (.chunkRead s.handlers.length body) =
        some ((s.handleRequest ebr body).put s.handlers.length
          ⟨ebr, [], body, ⟨uploadFile, 0⟩, .reading, rfl⟩ body) := by
    change (s.handleRequest ebr body).step (.chunkRead s.handlers.length body) = _
    rw [Uploads.step, handleRequest_last, Option.bind_some]
    exact if_pos ⟨rfl, hbody, List.prefix_rfl⟩
  have hwritten := hleaves [.chunkRead s.handlers.length body] _
    (fun e hmem => by rw [List.mem_singleton.mp hmem]; rfl)
    (Machine.run_cons_eq_some.mpr ⟨_, hput, Machine.run_nil ..⟩)
  have hcontent := congrFun hwritten uploadFile
  rw [put_files hempty, hfile, List.nil_append] at hcontent
  exact hbody (Option.some.inj hcontent)

/-- A request changes no file if and only if it is not stored, or the upload file is there
and empty and the request has no body. -/
theorem leavesFiles_iff {s : Uploads} {ebr : Request} {body : Text} {openError : Option Text} :
    LeavesFiles urls s ebr body openError ↔
      ¬ Stores urls ebr openError ∨ (s.files uploadFile = some [] ∧ body = []) := by
  by_cases hstores : Stores urls ebr openError
  · constructor
    · intro hleaves
      exact Or.inr (empty_of_leavesFiles hstores hleaves)
    · rintro (hnot | ⟨hfile, rfl⟩)
      · exact absurd hstores hnot
      · exact leavesFiles_of_empty hstores hfile
  · exact iff_of_true (leavesFiles_of_not_stores hstores s body) (Or.inl hstores)

/-! ## Runs -/

/-- A request that carries an upload. -/
def CarriesUpload (req : Request) : Prop := req.method = .post ∨ req.method = .put

/-- The request that something happens for. -/
def cause (s : Uploads) : HandlerEvent → Option Request
  | .dispatched ebr _ _ => some ebr
  | .chunkRead i _ => (s.handlers[i]?).map Upload.req0
  | .bodyRead i => (s.handlers[i]?).map Upload.req0
  | .readFailed i _ => (s.handlers[i]?).map Upload.req0

/-- A request that is dispatched carries an upload, or it is not stored, or it finds an
empty upload file and has no body. -/
def Quiet (urls : BoostUrl) (s : Uploads) : HandlerEvent → Prop
  | .dispatched ebr body openError =>
    CarriesUpload ebr ∨ ¬ Stores urls ebr openError ∨ (s.files uploadFile = some [] ∧ body = [])
  | .chunkRead _ _ => True
  | .bodyRead _ => True
  | .readFailed _ _ => True

/-- The handlers that have something to write are those of uploads. -/
def WritesUploads (s : Uploads) : Prop :=
  ∀ (i : Nat) (u : Upload), s.handlers[i]? = some u → CarriesUpload u.req0 ∨ u.rest = []

theorem writesUploads_set {s : Uploads} {i : Nat} {u v : Upload} (h : WritesUploads s)
    (hv : CarriesUpload v.req0 ∨ v.rest = []) {k : Nat}
    (hu : (s.handlers.set i v)[k]? = some u) : CarriesUpload u.req0 ∨ u.rest = [] := by
  rcases Parts.getElem?_set_cases hu with ⟨-, rfl⟩ | ⟨-, hold⟩
  · exact hv
  · exact h k u hold

theorem writesUploads_step {s t : Uploads} {e : HandlerEvent} (h : WritesUploads s)
    (hquiet : Quiet urls s e) (hstep : (machine urls).step s e = some t) : WritesUploads t := by
  cases e with
  | dispatched ebr body openError =>
    cases Option.some.inj hstep
    by_cases hstores : Stores urls ebr openError
    · rw [dispatch_of_stores hstores]
      intro i u hu
      rcases Parts.getElem?_concat_cases hu with ⟨-, rfl⟩ | hold
      · rcases hquiet with hupload | hnot | ⟨-, hbody⟩
        · exact Or.inl hupload
        · exact absurd hstores hnot
        · exact Or.inr hbody
      · exact h i u hold
    · rw [dispatch_of_not_stores hstores]
      exact h
  | chunkRead i chunk =>
    obtain ⟨u, hu, -, -, -, rfl⟩ := step_chunkRead hstep
    intro k v hv
    refine writesUploads_set h ?_ hv
    rcases h i u hu with hupload | hrest
    · exact Or.inl hupload
    · exact Or.inr (by rw [hrest, List.drop_nil])
  | bodyRead i =>
    obtain ⟨u, hu, -, -, rfl⟩ := step_bodyRead hstep
    intro k v hv
    exact writesUploads_set (v := { u with phase := .answered }) h (h i u hu) hv
  | readFailed i message =>
    obtain ⟨u, hu, -, rfl⟩ := step_readFailed message hstep
    intro k v hv
    exact writesUploads_set (v := { u with phase := .failed }) h (h i u hu) hv

/-- A step that changes a file is one for an upload. -/
theorem cause_of_changed {s t : Uploads} {e : HandlerEvent} (h : WritesUploads s)
    (hquiet : Quiet urls s e) (hstep : (machine urls).step s e = some t)
    (hchanged : t.files ≠ s.files) : ∃ req, cause s e = some req ∧ CarriesUpload req := by
  cases e with
  | dispatched ebr body openError =>
    cases Option.some.inj hstep
    refine ⟨ebr, rfl, ?_⟩
    rcases hquiet with hupload | hrest
    · exact hupload
    · exact absurd (leavesFiles_iff.mpr hrest).dispatch hchanged
  | chunkRead i chunk =>
    obtain ⟨u, hu, -, hchunk, hprefix, -⟩ := step_chunkRead hstep
    refine ⟨u.req0, ?_, ?_⟩
    · rw [cause, hu, Option.map_some]
    · rcases h i u hu with hupload | hrest
      · exact hupload
      · rw [hrest, List.prefix_nil] at hprefix
        exact absurd hprefix hchunk
  | bodyRead i =>
    obtain ⟨u, -, -, -, rfl⟩ := step_bodyRead hstep
    exact absurd rfl hchanged
  | readFailed i message =>
    obtain ⟨u, -, -, rfl⟩ := step_readFailed message hstep
    exact absurd rfl hchanged

/-- A GET or HEAD request changes no file if and only if it is not stored, or the upload
file is there and empty and the request has no body. In every run in which this is so of
the requests that are no uploads, a file is changed only for a request that is one. -/
theorem safe_methods (urls : BoostUrl) :
    (∀ (s : Uploads) (ebr : Request) (body : Text) (openError : Option Text),
        ebr.method = .get ∨ ebr.method = .head →
          (LeavesFiles urls s ebr body openError ↔
            ¬ Stores urls ebr openError ∨ (s.files uploadFile = some [] ∧ body = []))) ∧
      (∀ es s, (machine urls).Meets (Quiet urls) new es → (machine urls).run new es = some s →
        ∀ e t, Quiet urls s e → (machine urls).step s e = some t → t.files ≠ s.files →
          ∃ req, cause s e = some req ∧ CarriesUpload req) := by
  refine ⟨fun s ebr body openError _ => leavesFiles_iff, ?_⟩
  intro es s hmeets hrun e t hquiet hstep hchanged
  have hinv : WritesUploads s := by
    refine Machine.run_invariant_of_meets (fun _ _ _ => writesUploads_step) ?_ hmeets hrun
    intro i u hu
    cases hu
  exact cause_of_changed hinv hquiet hstep hchanged

/-- GET of a page, and an upload behind it. -/
theorem safe_methods_page :
    LeavesFiles .plain new ⟨.get, "/a".toList, 11, []⟩ [] none ∧
      ∃ req, cause new (.dispatched ⟨.put, "/upload/data".toList, 11, []⟩ [] none) = some req ∧
        CarriesUpload req := by
  refine ⟨((safe_methods .plain).1 new ⟨.get, "/a".toList, 11, []⟩ [] none (Or.inl rfl)).mpr
    (Or.inl ?_), (safe_methods .plain).2 [] new trivial rfl _ _ (Or.inl (Or.inr rfl)) rfl ?_⟩
  · rintro ⟨-, hupload, -⟩
    revert hupload
    decide
  · intro hsame
    have hfile : (dispatch .plain new ⟨.put, "/upload/data".toList, 11, []⟩ [] none).files
        uploadFile = new.files uploadFile := congrFun hsame uploadFile
    revert hfile
    decide +kernel

/-- A GET request with the target of uploads empties the file behind an upload. -/
theorem get_empties_upload : ∃ s,
    (machine .plain).run new [.dispatched ⟨.put, "/upload/data".toList, 11, []⟩ ['a'] none,
      .chunkRead 0 ['a'], .bodyRead 0] = some s ∧
    s.files uploadFile = some ['a'] ∧
    ¬ LeavesFiles .plain s ⟨.get, "/upload/data".toList, 11, []⟩ [] none := by
  obtain ⟨s, hrun, htest⟩ := Machine.run_of_any (machine .plain) new
    [.dispatched ⟨.put, "/upload/data".toList, 11, []⟩ ['a'] none, .chunkRead 0 ['a'],
      .bodyRead 0] (fun s => s.files uploadFile == some ['a']) (by decide +kernel)
  rw [beq_iff_eq] at htest
  refine ⟨s, hrun, htest, ?_⟩
  rw [leavesFiles_iff, htest]
  rintro (hnot | ⟨hempty, -⟩)
  · exact hnot ⟨by decide, by decide, rfl⟩
  · cases hempty

/-! ## Persistence -/

/-- Once a response has been written, `on_write` closes the connection or not as the
response says. -/
theorem closed_onWrite (s : Session) (q : Pipeline.Reply Response) :
    (s.onWrite q true).closed = (s.closed || !q.message.keepAlive) := by
  have hread : ∀ s : Session, s.doWrite.closed = s.closed := by
    intro s
    unfold Session.doWrite
    split <;> rfl
  unfold Session.onWrite
  rw [if_neg Bool.noConfusion]
  by_cases hkeep : q.message.keepAlive = false
  · rw [if_pos hkeep, hkeep, Bool.not_false, Bool.or_true]
  · rw [if_neg hkeep, (Bool.not_eq_false _).mp hkeep, Bool.not_true, Bool.or_false]
    dsimp only
    rw [hread]
    split <;> rfl

/-- An upload and a request for a file with the same version and the same `Connection`
field. -/
structure Alike (u f : Request) : Prop where
  version_eq : u.version = f.version
  connection_eq : u.get .connection = f.get .connection

/-- The connection goes on behind the one request exactly when it does behind the other. -/
def Agree (beast : Beast) (u f : Request) : Prop :=
  (response u).keepAlive = beast.keepAlive f ∧
    ∀ (s : Session) (number : Nat) (docRoot : Text) (scan : Text → Opened),
      (s.onWrite ⟨number, response u⟩ true).closed =
        (s.onWrite ⟨number, FileRequestHandler.handleRequest beast docRoot f scan⟩ true).closed

/-- The `keep_alive` of its response is all that `on_write` looks at. -/
theorem agree_iff {beast : Beast} {u f : Request} :
    Agree beast u f ↔ (response u).keepAlive = beast.keepAlive f := by
  constructor
  · exact fun h => h.1
  · intro h
    refine ⟨h, fun s number docRoot scan => ?_⟩
    rw [closed_onWrite, closed_onWrite, FileRequestHandler.handleRequest_keepAlive, ← h]

/-- The two handlers agree on persistence if and only if the field is "keep-alive" in these
letters, or the connection is to be closed anyway. `listed` is whether a list has a token,
in any letter case. -/
theorem persistence_iff {beast : Beast} {listed : Text → Text → Bool}
    (hrule : ∀ r : Request, beast.keepAlive r =
      if r.version < 11 then listed (r.get .connection) "keep-alive".toList
      else !listed (r.get .connection) "close".toList)
    (hkeep : listed "keep-alive".toList "keep-alive".toList = true)
    (hclose : listed "keep-alive".toList "close".toList = false)
    {u f : Request} (halike : Alike u f) :
    Agree beast u f ↔
      u.get .connection = "keep-alive".toList ∨
        if u.version < 11 then listed (u.get .connection) "keep-alive".toList = false
        else listed (u.get .connection) "close".toList = true := by
  rw [agree_iff, hrule f, ← halike.version_eq, ← halike.connection_eq]
  change (u.get .connection == "keep-alive".toList) = _ ↔ _
  by_cases hvalue : u.get .connection = "keep-alive".toList
  · rw [hvalue, hkeep, hclose, beq_self_eq_true, Bool.not_false, ite_self]
    exact iff_of_true rfl (Or.inl rfl)
  · rw [beq_false_of_ne hvalue, or_iff_right hvalue]
    by_cases hversion : u.version < 11
    · rw [if_pos hversion, if_pos hversion]
      exact eq_comm
    · rw [if_neg hversion, if_neg hversion, eq_comm, Bool.not_eq_false']

/-- The request for a file with this version and these fields. -/
def fileRequest (version : Nat) (fields : List (Field × Text)) : Request :=
  ⟨.get, "/a".toList, version, fields⟩

/-- The upload with this version and these fields. -/
def dataRequest (version : Nat) (fields : List (Field × Text)) : Request :=
  ⟨.put, "/upload/data".toList, version, fields⟩

/-- HTTP/1.1 with the field in other letters. -/
theorem persistence_iff_letters :
    Agree (.plain []) (dataRequest 11 [(.connection, "Keep-Alive".toList)])
        (fileRequest 11 [(.connection, "Keep-Alive".toList)]) ↔
      "Keep-Alive".toList = "keep-alive".toList ∨
        if 11 < 11 then tokenListed "Keep-Alive".toList "keep-alive".toList = false
        else tokenListed "Keep-Alive".toList "close".toList = true :=
  persistence_iff (fun _ => rfl) (by decide +kernel) (by decide +kernel) ⟨rfl, rfl⟩

/-- HTTP/1.1 without the field: the connection goes on behind a file and is closed behind an
upload. -/
theorem upload_closes :
    (FileUploadHandler.response (dataRequest 11 [])).keepAlive = false ∧
      (Beast.plain []).keepAlive (dataRequest 11 []) = true ∧
      (Beast.plain []).keepAlive (fileRequest 11 []) = true := by
  decide +kernel

end Handlers

end ServerAsync
