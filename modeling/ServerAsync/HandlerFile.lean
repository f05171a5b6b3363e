import ServerAsync.Http

/-!
# `handler_file.hpp`

The two request handlers and the responses they queue. A handler sees of the file
system what opening a file gives it.
-/

namespace ServerAsync

/-- `body.open(path, file_mode::scan, ec)`. -/
inductive Opened where
  | noSuchFile
  | failed (message : Text)
  | opened (content : Text)
  deriving DecidableEq, Repr

/-- What the server finds when it opens files: `scan` for reading, `write` for the
upload file, with the error's message when that fails. -/
structure Files where
  scan : Text → Opened
  write : Option Text

/-! ## `http_handler_util.hpp` -/

/-- `path_cat`, on a platform with `/` as separator. -/
def pathCat (base path : Text) : Text :=
  if base = [] then path
  else if base.getLast? = some '/' then base.dropLast ++ path
  else base ++ path

/-- The extensions that `mime_type` tests, in its order. -/
def mimeTypes : List (Text × Text) :=
  [(".htm".toList, "text/html".toList),
    (".html".toList, "text/html".toList),
    (".php".toList, "text/html".toList),
    (".css".toList, "text/css".toList),
    (".txt".toList, "text/plain".toList),
    (".js".toList, "application/javascript".toList),
    (".json".toList, "application/json".toList),
    (".xml".toList, "application/xml".toList),
    (".swf".toList, "application/x-shockwave-flash".toList),
    (".flv".toList, "video/x-flv".toList),
    (".png".toList, "image/png".toList),
    (".jpe".toList, "image/jpeg".toList),
    (".jpeg".toList, "image/jpeg".toList),
    (".jpg".toList, "image/jpeg".toList),
    (".gif".toList, "image/gif".toList),
    (".bmp".toList, "image/bmp".toList),
    (".ico".toList, "image/vnd.microsoft.icon".toList),
    (".tiff".toList, "image/tiff".toList),
    (".tif".toList, "image/tiff".toList),
    (".svg".toList, "image/svg+xml".toList),
    (".svgz".toList, "image/svg+xml".toList)]

/-- The path from its last dot on, empty without a dot. -/
def extension (path : Text) : Text :=
  if '.' ∈ path then '.' :: (path.reverse.takeWhile (· ≠ '.')).reverse else []

/-- `beast::iequals`. -/
def iequals (a b : Text) : Bool := a.map Char.toLower == b.map Char.toLower

/-- `mime_type`. -/
def mimeType (path : Text) : Text :=
  ((mimeTypes.find? fun e => iequals (extension path) e.1).map Prod.snd).getD
    "application/text".toList

/-! ## `RequestHandlerbase` -/

namespace RequestHandlerbase

variable (beast : Beast) (req0 : Request)

/-- The three error pages differ in their status and body. -/
def page (status : Status) (body : Text) : Response where
  status := status
  version := req0.version
  server := some beast.versionString
  contentType := some "text/html".toList
  contentLength := some body.length
  keepAlive := beast.keepAlive req0
  body := body

/-- `bad_request`. -/
def badRequest (why : Text) : Response := page beast req0 .badRequest why

/-- `not_found`. -/
def notFound (target : Text) : Response :=
  page beast req0 .notFound ("The resource '".toList ++ target ++ "' was not found.".toList)

/-- `server_error`. -/
def serverError (what : Text) : Response :=
  page beast req0 .internalServerError ("An error occurred: '".toList ++ what ++ "'".toList)

end RequestHandlerbase

/-! ## The handlers -/

namespace FileRequestHandler

open RequestHandlerbase

/-- The path of the file that `handle_request` opens. -/
def path (docRoot : Text) (req0 : Request) : Text :=
  if req0.target.getLast? = some '/' then pathCat docRoot req0.target ++ "index.html".toList
  else pathCat docRoot req0.target

/-- `handle_request`: the response it queues, on every path one. -/
def handleRequest (beast : Beast) (docRoot : Text) (req0 : Request) (scan : Text → Opened) :
    Response :=
  if req0.method ≠ .get ∧ req0.method ≠ .head then
    badRequest beast req0 "Unknown HTTP-method".toList
  else if req0.target = [] ∨ req0.target.head? ≠ some '/' ∨
      Text.contains req0.target "..".toList then
    badRequest beast req0 "Illegal request-target".toList
  else
    match scan (path docRoot req0) with
    | .noSuchFile => notFound beast req0 req0.target
    | .failed message => serverError beast req0 message
    | .opened content =>
      { status := .ok
        version := req0.version
        server := some beast.versionString
        contentType := some (mimeType (path docRoot req0))
        contentLength := some content.length
        keepAlive := beast.keepAlive req0
        body := if req0.method = .head then [] else content }

/-- Every response lets the connection go on exactly when the request does. -/
theorem handleRequest_keepAlive (beast : Beast) (docRoot : Text) (req0 : Request)
    (scan : Text → Opened) :
    (handleRequest beast docRoot req0 scan).keepAlive = beast.keepAlive req0 := by
  unfold handleRequest
  split
  · rfl
  split
  · rfl
  split <;> rfl

/-- A path below "." is the path below a root only if the root is ".", with or without a
slash at its end. -/
theorem pathCat_dot_iff {docRoot rest : Text} :
    pathCat ".".toList ('/' :: rest) = pathCat docRoot ('/' :: rest) ↔
      docRoot = ".".toList ∨ docRoot = "./".toList := by
  have hdot : pathCat ".".toList ('/' :: rest) = ".".toList ++ '/' :: rest := rfl
  rw [hdot, pathCat]
  by_cases hempty : docRoot = []
  · subst hempty
    simp
  rw [if_neg hempty]
  by_cases hslash : docRoot.getLast? = some '/'
  · obtain ⟨front, rfl⟩ := List.getLast?_eq_some_iff.mp hslash
    rw [if_pos hslash, List.dropLast_concat, List.append_cancel_right_eq]
    constructor
    · rintro rfl
      exact Or.inr rfl
    · rintro (hroot | hroot)
      · have hlast := congrArg List.getLast? hroot
        simp at hlast
      · change front ++ ['/'] = ".".toList ++ ['/'] at hroot
        exact (List.append_cancel_right hroot).symm
  · rw [if_neg hslash, List.append_cancel_right_eq]
    constructor
    · rintro rfl
      exact Or.inl rfl
    · rintro (rfl | rfl)
      · rfl
      · simp at hslash

/-- The same, for a target that passes the checks. -/
theorem path_dot_iff {docRoot : Text} {req0 : Request} (h : req0.target.head? = some '/') :
    path ".".toList req0 = path docRoot req0 ↔
      docRoot = ".".toList ∨ docRoot = "./".toList := by
  obtain ⟨rest, hrest⟩ := List.head?_eq_some_iff.mp h
  unfold path
  rw [hrest]
  by_cases hdirectory : ('/' :: rest).getLast? = some '/'
  · rw [if_pos hdirectory, if_pos hdirectory, List.append_cancel_right_eq, pathCat_dot_iff]
  · rw [if_neg hdirectory, if_neg hdirectory, pathCat_dot_iff]

/-- A request whose method and target pass the checks. -/
def Admits (req0 : Request) : Prop :=
  (req0.method = .get ∨ req0.method = .head) ∧ req0.target.head? = some '/' ∧
    Text.contains req0.target "..".toList = false

instance (req0 : Request) : Decidable (Admits req0) := inferInstanceAs (Decidable (_ ∧ _))

theorem admits_of_not {req0 : Request} (hmethod : ¬(req0.method ≠ .get ∧ req0.method ≠ .head))
    (htarget : ¬(req0.target = [] ∨ req0.target.head? ≠ some '/' ∨
      Text.contains req0.target "..".toList = true)) : Admits req0 := by
  rw [← not_or, not_not] at hmethod
  rw [not_or, not_or, not_not, Bool.not_eq_true] at htarget
  exact ⟨hmethod, htarget.2.1, htarget.2.2⟩

/-- `handle_request` sees nothing of the files but what it finds at its path, and that
only for a request that passes the checks. -/
theorem handleRequest_congr (beast : Beast) (docRoot : Text) (req0 : Request)
    {scan scan' : Text → Opened}
    (h : Admits req0 → scan (path docRoot req0) = scan' (path docRoot req0)) :
    handleRequest beast docRoot req0 scan = handleRequest beast docRoot req0 scan' := by
  unfold handleRequest
  split
  · rfl
  rename_i hmethod
  split
  · rfl
  rename_i htarget
  have hscan := h (admits_of_not hmethod htarget)
  rw [hscan]

/-- A request that is answered with 200 has passed the checks, and there is a file at
its path. -/
theorem handleRequest_ok {beast : Beast} {docRoot : Text} {req0 : Request}
    {scan : Text → Opened} (h : (handleRequest beast docRoot req0 scan).status = .ok) :
    Admits req0 ∧ ∃ content, scan (path docRoot req0) = .opened content := by
  unfold handleRequest at h
  split at h
  · cases h
  rename_i hmethod
  split at h
  · cases h
  rename_i htarget
  refine ⟨admits_of_not hmethod htarget, ?_⟩
  split at h
  · cases h
  · cases h
  · rename_i content hscan
    exact ⟨content, hscan⟩

/-- A file that is found is answered with 200. -/
theorem handleRequest_of_opened {beast : Beast} {docRoot : Text} {req0 : Request}
    {scan : Text → Opened} {content : Text} (h : Admits req0)
    (hscan : scan (path docRoot req0) = .opened content) :
    (handleRequest beast docRoot req0 scan).status = .ok := by
  obtain ⟨hmethod, hslash, hdots⟩ := h
  have hne : req0.target ≠ [] := by
    intro hnil
    rw [hnil] at hslash
    cases hslash
  have hadmitted : ¬ (req0.method ≠ .get ∧ req0.method ≠ .head) := by
    rintro ⟨hget, hhead⟩
    rcases hmethod with h | h
    · exact hget h
    · exact hhead h
  have hlegal : ¬ (req0.target = [] ∨ req0.target.head? ≠ some '/' ∨
      Text.contains req0.target "..".toList = true) := by
    rintro (h | h | h)
    · exact hne h
    · exact h hslash
    · rw [hdots] at h
      cases h
  rw [handleRequest, if_neg hadmitted, if_neg hlegal, hscan]

/-! ## HEAD and GET -/

/-- An error page has a body, whatever the method; a file has none for HEAD. -/
theorem handleRequest_head_body {beast : Beast} {docRoot : Text} {req0 : Request}
    {scan : Text → Opened} (hhead : req0.method = .head) :
    (handleRequest beast docRoot req0 scan).body = [] ↔
      (handleRequest beast docRoot req0 scan).status = .ok := by
  unfold handleRequest
  split
  · exact iff_of_false (List.cons_ne_nil _ _) nofun
  split
  · exact iff_of_false (List.cons_ne_nil _ _) nofun
  split
  · exact iff_of_false (List.cons_ne_nil _ _) nofun
  · exact iff_of_false (List.cons_ne_nil _ _) nofun
  · exact iff_of_true rfl rfl

/-- On every branch the responses to a HEAD and to a GET request for the same target agree
in all but the body. -/
theorem handleRequest_head_get {beast : Beast} {docRoot : Text} {head get : Request}
    {scan : Text → Opened} (hhead : head.method = .head) (hget : get.method = .get)
    (htarget : head.target = get.target) (hversion : head.version = get.version)
    (hkeep : beast.keepAlive head = beast.keepAlive get) :
    { handleRequest beast docRoot head scan with body := [] } =
      { handleRequest beast docRoot get scan with body := [] } := by
  have hheadOk : ¬ (head.method ≠ .get ∧ head.method ≠ .head) := fun h => h.2 hhead
  have hgetOk : ¬ (get.method ≠ .get ∧ get.method ≠ .head) := fun h => h.1 hget
  have hpath : path docRoot head = path docRoot get := by rw [path, path, htarget]
  rw [handleRequest, handleRequest, if_neg hheadOk, if_neg hgetOk, htarget, hpath]
  split
  · rw [badRequest, badRequest, page, page, hversion, hkeep]
  cases scan (path docRoot get) with
  | noSuchFile => rw [notFound, notFound, page, page, hversion, hkeep]
  | failed message =>
    dsimp only
    rw [serverError, serverError, page, page, hversion, hkeep]
  | opened content => rw [hversion, hkeep]

/-- The response to HEAD is the header of the response to GET and nothing else if and only
if the target passes the checks and its file can be opened. -/
theorem handleRequest_head_iff {beast : Beast} {docRoot : Text} {head get : Request}
    {scan : Text → Opened} (hhead : head.method = .head) (hget : get.method = .get)
    (htarget : head.target = get.target) (hversion : head.version = get.version)
    (hkeep : beast.keepAlive head = beast.keepAlive get) :
    ({ handleRequest beast docRoot head scan with body := [] } =
          { handleRequest beast docRoot get scan with body := [] } ∧
        (handleRequest beast docRoot head scan).body = []) ↔
      head.target.head? = some '/' ∧ Text.contains head.target "..".toList = false ∧
        ∃ content, scan (path docRoot head) = .opened content := by
  rw [handleRequest_head_body hhead]
  constructor
  · rintro ⟨-, hok⟩
    obtain ⟨⟨-, hslash, hdots⟩, hscan⟩ := handleRequest_ok hok
    exact ⟨hslash, hdots, hscan⟩
  · rintro ⟨hslash, hdots, content, hscan⟩
    exact ⟨handleRequest_head_get hhead hget htarget hversion hkeep,
      handleRequest_of_opened ⟨Or.inr hhead, hslash, hdots⟩ hscan⟩

/-- A file of the document root, asked for with HEAD and with GET. -/
theorem handleRequest_head_iff_index :
    ({ handleRequest (.plain []) ".".toList ⟨.head, "/a".toList, 11, []⟩
            (fun _ => .opened "b".toList) with body := [] } =
          { handleRequest (.plain []) ".".toList ⟨.get, "/a".toList, 11, []⟩
            (fun _ => .opened "b".toList) with body := [] } ∧
        (handleRequest (.plain []) ".".toList ⟨.head, "/a".toList, 11, []⟩
          (fun _ => .opened "b".toList)).body = []) ↔
      "/a".toList.head? = some '/' ∧ Text.contains "/a".toList "..".toList = false ∧
        ∃ content, Opened.opened "b".toList = .opened content :=
  handleRequest_head_iff rfl rfl rfl rfl rfl

/-- A HEAD request for a file that is not there is answered with a page. -/
theorem handleRequest_head_missing :
    (handleRequest (.plain []) ".".toList ⟨.head, "/a".toList, 11, []⟩
      (fun _ => .noSuchFile)).body = "The resource '/a' was not found.".toList :=
  rfl

end FileRequestHandler

namespace FileUploadHandler

/-- The response that `on_read` queues once the body has been stored. The
connection goes on only when the request says so in these very letters. -/
def response (req0 : Request) : Response where
  status := .ok
  version := req0.version
  server := none
  contentType := none
  contentLength := none
  keepAlive := req0.get .connection == "keep-alive".toList
  body := []

end FileUploadHandler

end ServerAsync
