import ServerAsync.Http

/-!
# How `tcp_connection` reads requests

`has_complete_http_request` and `parse_http_request` of `server-async-simple`, with
`std::getline` and `operator>>` as they behave on the text of a request, and the
requests that clients send: a request line, header lines, and an empty line, each
behind the one before, and then a body.
-/

namespace ServerAsync

/-- An empty line, where the headers of a request end. -/
def blankLine : Text := ['\r', '\n', '\r', '\n']

def hasCompleteHttpRequest (request : Text) : Bool := Text.contains request blankLine

/-- The lines that a loop over `std::getline` gets. They end before a line feed; what
follows the last one is a line only if there is anything. -/
def getlines : Text → List Text
  | [] => []
  | '\n' :: rest => [] :: getlines rest
  | c :: rest =>
    match getlines rest with
    | [] => [[c]]
    | line :: lines => (c :: line) :: lines

/-- `std::isspace`. -/
def isSpace (c : Char) : Bool := [' ', '\t', '\n', '\x0b', '\x0c', '\r'].contains c

/-- The string that the first `operator>>` on a text extracts, and the text after it. -/
def extract (t : Text) : Text × Text :=
  let t := t.dropWhile isSpace
  (t.takeWhile fun c => !isSpace c, t.dropWhile fun c => !isSpace c)

/-- The request line as it goes out: its three words. -/
def newRequestLine (line : Text) : Text :=
  let (method, line) := extract line
  let (url, line) := extract line
  let (version, _) := extract line
  method ++ [' '] ++ url ++ [' '] ++ version ++ crlf

/-- The request line and the lines behind it, each with a line break. -/
def newLines : List Text → Text
  | [] => []
  | line :: lines => newRequestLine line ++ lines.flatMap (· ++ crlf)

def parseHttpRequest (request : Text) : Text := newLines (getlines request) ++ crlf

/-! ## `getline` -/

theorem getlines_cons {c : Char} (hc : c ≠ '\n') (rest : Text) :
    getlines (c :: rest) =
      match getlines rest with
      | [] => [[c]]
      | line :: lines => (c :: line) :: lines := by
  rw [getlines]
  rintro rfl
  exact hc rfl

theorem getlines_eq_nil {t : Text} : getlines t = [] ↔ t = [] := by
  constructor
  · intro h
    fun_cases getlines t with
    | case1 => rfl
    | case2 rest => cases h
    | case3 c rest hc hnil =>
      rw [getlines_cons hc, hnil] at h
      cases h
    | case4 c rest hc line lines hcons =>
      rw [getlines_cons hc, hcons] at h
      cases h
  · rintro rfl
    rfl

/-- Behind a line feed, the lines start over. -/
theorem getlines_append (t rest : Text) :
    getlines (t ++ '\n' :: rest) = getlines (t ++ ['\n']) ++ getlines rest := by
  induction t with
  | nil => rfl
  | cons c t ih =>
    by_cases hc : c = '\n'
    · rw [hc]
      show [] :: getlines (t ++ '\n' :: rest) = ([] :: getlines (t ++ ['\n'])) ++ getlines rest
      rw [ih, List.cons_append]
    · rw [List.cons_append, List.cons_append, getlines_cons hc, getlines_cons hc, ih]
      cases hlines : getlines (t ++ ['\n']) with
      | nil =>
        have hnil := getlines_eq_nil.mp hlines
        simp at hnil
      | cons line lines => rfl

/-- What is parsed goes out up to the empty line that the parser adds, when more
follows behind a line feed. -/
theorem newLines_append {lines more : List Text} (h : lines ≠ []) :
    newLines (lines ++ more) = newLines lines ++ more.flatMap (· ++ crlf) := by
  cases lines with
  | nil => exact absurd rfl h
  | cons line lines => simp [newLines, List.flatMap_append]

/-! ## Blank lines -/

theorem hasComplete_of_prefix {t u : Text} (h : t <+: u) (hu : hasCompleteHttpRequest u = false) :
    hasCompleteHttpRequest t = false := by
  by_contra hne
  rw [Bool.not_eq_false] at hne
  have hinfix := (Text.contains_iff.mp hne).trans h.isInfix
  rw [show hasCompleteHttpRequest u = true from Text.contains_iff.mpr hinfix] at hu
  cases hu

/-- A blank line starts with a carriage return. -/
theorem hasComplete_cons {c : Char} (hc : c ≠ '\r') (t : Text) :
    hasCompleteHttpRequest (c :: t) = hasCompleteHttpRequest t := by
  have hfront : blankLine.isPrefixOf (c :: t) = false := by
    simp [blankLine, List.isPrefixOf, Ne.symm hc]
  simp [hasCompleteHttpRequest, Text.contains, List.tails, hfront]

theorem hasComplete_append {line : Text} (h : '\r' ∉ line) (t : Text) :
    hasCompleteHttpRequest (line ++ t) = hasCompleteHttpRequest t := by
  induction line with
  | nil => rfl
  | cons c line ih =>
    rw [List.mem_cons, not_or] at h
    rw [List.cons_append, hasComplete_cons (Ne.symm h.1), ih h.2]

/-- A line break is the start of a blank line when another one follows. -/
theorem hasComplete_crlf (t : Text) :
    hasCompleteHttpRequest (crlf ++ t) = (crlf.isPrefixOf t || hasCompleteHttpRequest t) := by
  have hfeed := hasComplete_cons (show '\n' ≠ '\r' by decide) t
  have hfront : blankLine.isPrefixOf (crlf ++ t) = crlf.isPrefixOf t := by
    simp [blankLine, crlf, List.isPrefixOf]
  have hsplit : hasCompleteHttpRequest (crlf ++ t) =
      (blankLine.isPrefixOf (crlf ++ t) || hasCompleteHttpRequest ('\n' :: t)) := by
    simp [hasCompleteHttpRequest, Text.contains, List.tails, crlf]
  rw [hsplit, hfront, hfeed]

/-! ## Requests -/

/-- A word of a request line. -/
def isWord (t : Text) : Bool := !t.isEmpty && t.all fun c => !isSpace c

theorem space_notMem {word : Text} (h : isWord word = true) {c : Char} (hc : isSpace c = true) :
    c ∉ word := by
  rw [isWord, Bool.and_eq_true, List.all_eq_true] at h
  intro hmem
  have hword := h.2 c hmem
  rw [hc] at hword
  cases hword

/-- A header line, without its line break. -/
def isHeaderLine (t : Text) : Bool := !t.isEmpty && t.all fun c => c != '\r' && c != '\n'

/-- The value of a header line that is a `Content-Length` field. -/
def contentLength? (line : Text) : Option Nat :=
  if (line.takeWhile (· != ':')).map Char.toLower = "content-length".toList then
    some ((trimSpaces ((line.dropWhile (· != ':')).drop 1)).foldl
      (fun n c => 10 * n + (c.toNat - '0'.toNat)) 0)
  else none

/-- A request, with a body of the length that its header lines declare. -/
structure ClientRequest where
  method : Text
  target : Text
  version : Text
  headers : List Text
  body : Text
  words_ok : isWord method = true ∧ isWord target = true ∧ isWord version = true
  headers_ok : ∀ line ∈ headers, isHeaderLine line = true
  body_ok : body.length = (headers.findSome? contentLength?).getD 0

namespace ClientRequest

def requestLine (r : ClientRequest) : Text :=
  r.method ++ [' '] ++ r.target ++ [' '] ++ r.version

/-- The request line, the header lines and the empty line. -/
def head (r : ClientRequest) : Text :=
  (r.requestLine :: r.headers).flatMap (· ++ crlf) ++ crlf

def text (r : ClientRequest) : Text := r.head ++ r.body

/-- The bytes of some requests. -/
def stream (rs : List ClientRequest) : Text := rs.flatMap text

theorem lines_ok (r : ClientRequest) : ∀ line ∈ r.requestLine :: r.headers,
    isHeaderLine line = true := by
  have hword : ∀ {t : Text}, isWord t = true →
      ∀ c ∈ t, (c != '\r') = true ∧ (c != '\n') = true := by
    intro t ht c hc
    rw [bne_iff_ne, bne_iff_ne]
    constructor
    · rintro rfl
      exact space_notMem ht rfl hc
    · rintro rfl
      exact space_notMem ht rfl hc
  intro line hline
  rcases List.mem_cons.mp hline with rfl | hline
  · obtain ⟨hmethod, htarget, hversion⟩ := r.words_ok
    simp only [isHeaderLine, requestLine, Bool.and_eq_true, List.all_append, List.all_eq_true]
    refine ⟨by simp, ⟨⟨⟨hword hmethod, ?_⟩, hword htarget⟩, ?_⟩, hword hversion⟩
    · simp
    · simp
  · exact r.headers_ok line hline

end ClientRequest

theorem notMem_of_isHeaderLine {line : Text} (h : isHeaderLine line = true) :
    '\r' ∉ line ∧ ∃ c rest, line = c :: rest ∧ c ≠ '\r' := by
  simp only [isHeaderLine, Bool.and_eq_true, List.all_eq_true] at h
  have hnot : '\r' ∉ line := by
    intro hmem
    have hno := (h.2 _ hmem).1
    cases hno
  refine ⟨hnot, ?_⟩
  cases line with
  | nil => cases h.1
  | cons c rest => exact ⟨c, rest, rfl, fun heq => hnot (heq ▸ List.mem_cons_self)⟩

/-- Lines with their line breaks contain no blank line, not even with the start of
one more break. -/
theorem hasComplete_lines {lines : List Text} (h : ∀ line ∈ lines, isHeaderLine line = true) :
    hasCompleteHttpRequest (lines.flatMap (· ++ crlf) ++ ['\r']) = false := by
  induction lines with
  | nil => rfl
  | cons line lines ih =>
    obtain ⟨hnot, -⟩ := notMem_of_isHeaderLine (h line List.mem_cons_self)
    have hrest := ih fun l hl => h l (List.mem_cons_of_mem _ hl)
    rw [List.flatMap_cons, List.append_assoc, List.append_assoc, hasComplete_append hnot,
      hasComplete_crlf, hrest, Bool.or_false]
    cases lines with
    | nil => rfl
    | cons next lines =>
      obtain ⟨-, c, rest, rfl, hc⟩ := notMem_of_isHeaderLine
        (h next (List.mem_cons_of_mem _ List.mem_cons_self))
      simp [crlf, List.isPrefixOf, Ne.symm hc]

namespace ClientRequest

/-- The head of a request is its lines, a carriage return, and a line feed; before the
line feed it is not complete. -/
theorem head_eq (r : ClientRequest) : ∃ front, r.head = front ++ ['\n'] ∧
    hasCompleteHttpRequest front = false ∧ hasCompleteHttpRequest r.head = true := by
  refine ⟨(r.requestLine :: r.headers).flatMap (· ++ crlf) ++ ['\r'], ?_,
    hasComplete_lines r.lines_ok, ?_⟩
  · simp [head, crlf]
  · obtain ⟨init, last, hlast⟩ := (List.eq_nil_or_concat'
      (r.requestLine :: r.headers)).resolve_left (List.cons_ne_nil _ _)
    refine Text.contains_iff.mpr ⟨init.flatMap (· ++ crlf) ++ last, [], ?_⟩
    rw [head, hlast]
    simp [crlf, blankLine]

end ClientRequest

/-! ## What comes out -/

/-- A line ends before its line feed. -/
theorem getlines_line {line : Text} (h : '\n' ∉ line) (rest : Text) :
    getlines (line ++ '\n' :: rest) = line :: getlines rest := by
  induction line with
  | nil => rfl
  | cons c line ih =>
    rw [List.mem_cons, not_or] at h
    rw [List.cons_append, getlines_cons (Ne.symm h.1), ih h.2]

/-- A line that ends in CRLF keeps the CR. -/
theorem getlines_lines {lines : List Text} (h : ∀ line ∈ lines, '\n' ∉ line) (rest : Text) :
    getlines (lines.flatMap (· ++ crlf) ++ rest) = lines.map (· ++ ['\r']) ++ getlines rest := by
  induction lines with
  | nil => rfl
  | cons line lines ih =>
    rw [List.forall_mem_cons] at h
    have hline : '\n' ∉ line ++ ['\r'] := by
      rw [List.mem_append, not_or]
      exact ⟨h.1, by decide⟩
    have hbreak : line ++ crlf = line ++ ['\r'] ++ ['\n'] := by simp [crlf]
    rw [List.flatMap_cons, hbreak, List.append_assoc, List.append_assoc, List.singleton_append,
      getlines_line hline, ih h.2, List.map_cons, List.cons_append]

/-- The lines of a text with a line break each are no shorter than the text. -/
theorem length_le_getlines (t : Text) :
    t.length ≤ ((getlines t).flatMap (· ++ crlf)).length := by
  fun_induction getlines t with
  | case1 => exact Nat.le_refl 0
  | case2 rest ih =>
    rw [List.flatMap_cons, List.nil_append, List.length_append, List.length_cons]
    have hbreak : crlf.length = 2 := rfl
    omega
  | case3 c rest hc hnil ih =>
    rw [getlines_eq_nil.mp hnil]
    exact Nat.le_add_left 1 2
  | case4 c rest hc line lines hcons ih =>
    rw [hcons] at ih
    rw [List.flatMap_cons, List.cons_append, List.cons_append, List.length_cons, List.length_cons]
    rw [List.flatMap_cons] at ih
    omega

/-- Lines are no shorter with one more CR each. -/
theorem length_lines_le (lines : List Text) :
    (lines.flatMap (· ++ crlf)).length ≤
      (lines.flatMap fun line : Text => line ++ ['\r'] ++ crlf).length := by
  induction lines with
  | nil => exact Nat.le_refl 0
  | cons line lines ih =>
    rw [List.flatMap_cons, List.flatMap_cons]
    simp only [List.length_append] at ih ⊢
    omega

theorem extract_space {c : Char} (hc : isSpace c = true) (t : Text) :
    extract (c :: t) = extract t := by
  rw [extract, List.dropWhile_cons_of_pos hc]
  rfl

/-- A word is extracted up to the space behind it. -/
theorem extract_word {word : Text} (h : isWord word = true) {c : Char} (hc : isSpace c = true)
    (rest : Text) : extract (word ++ c :: rest) = (word, c :: rest) := by
  rw [isWord, Bool.and_eq_true, List.all_eq_true] at h
  obtain ⟨hne, hall⟩ := h
  have hstart : (word ++ c :: rest).dropWhile isSpace = word ++ c :: rest := by
    cases word with
    | nil => cases hne
    | cons d word =>
      have hd := hall d List.mem_cons_self
      rw [Bool.not_eq_true'] at hd
      rw [List.cons_append, List.dropWhile_cons_of_neg (by rw [hd]; exact Bool.false_ne_true)]
  rw [extract, hstart, List.takeWhile_append_of_pos hall, List.dropWhile_append_of_pos hall]
  simp [hc]

/-- The text of a request: its request line, its header lines and an empty line, each
with a line break, and its body. -/
def requestText (method target version : Text) (headers : List Text) (body : Text) : Text :=
  ((method ++ [' '] ++ target ++ [' '] ++ version) :: headers).flatMap (· ++ crlf) ++
    crlf ++ body

section

variable {method target version : Text} {headers : List Text}

/-- The lines of a request: those of its head with their CR, and those of the body. -/
theorem getlines_requestText (hmethod : isWord method = true) (htarget : isWord target = true)
    (hversion : isWord version = true) (hheaders : ∀ line ∈ headers, '\n' ∉ line)
    (body : Text) :
    getlines (requestText method target version headers body) =
      (((method ++ [' '] ++ target ++ [' '] ++ version) :: headers) ++ [[]]).map (· ++ ['\r']) ++
        getlines body := by
  have hlines : ∀ line ∈ ((method ++ [' '] ++ target ++ [' '] ++ version) :: headers) ++ [[]],
      '\n' ∉ line := by
    intro line hmem
    rcases List.mem_append.mp hmem with hmem | hmem
    · rcases List.mem_cons.mp hmem with rfl | hmem
      · have hfeed : isSpace '\n' = true := rfl
        simp [space_notMem hmethod hfeed, space_notMem htarget hfeed,
          space_notMem hversion hfeed]
      · exact hheaders line hmem
    · rw [List.mem_singleton.mp hmem]
      exact List.not_mem_nil
  have htext : requestText method target version headers body =
      (((method ++ [' '] ++ target ++ [' '] ++ version) :: headers) ++ [[]]).flatMap
        (· ++ crlf) ++ body := by
    simp [requestText]
  rw [htext, getlines_lines hlines]

/-- The request line comes out as it was. Every line behind it, the empty line as well,
comes out with a second CR; every line of the body gets a line break, and another empty
line follows. -/
theorem parseHttpRequest_requestText (hmethod : isWord method = true)
    (htarget : isWord target = true) (hversion : isWord version = true)
    (hheaders : ∀ line ∈ headers, '\n' ∉ line) (body : Text) :
    parseHttpRequest (requestText method target version headers body) =
      method ++ [' '] ++ target ++ [' '] ++ version ++ crlf ++
        (headers ++ [[]]).flatMap (fun line : Text => line ++ ['\r'] ++ crlf) ++
        (getlines body).flatMap (· ++ crlf) ++ crlf := by
  have hline : newRequestLine (method ++ [' '] ++ target ++ [' '] ++ version ++ ['\r']) =
      method ++ [' '] ++ target ++ [' '] ++ version ++ crlf := by
    have hfront : method ++ [' '] ++ target ++ [' '] ++ version ++ ['\r'] =
        method ++ ' ' :: (target ++ ' ' :: (version ++ '\r' :: [])) := by simp
    rw [hfront, newRequestLine, extract_word hmethod rfl]
    dsimp only
    rw [extract_space rfl, extract_word htarget rfl]
    dsimp only
    rw [extract_space rfl, extract_word hversion rfl]
  rw [parseHttpRequest, getlines_requestText hmethod htarget hversion hheaders, List.cons_append,
    List.map_cons, List.cons_append, newLines, hline, List.flatMap_append, List.flatMap_map]
  simp

/-- What comes out is never what came in: it is longer. -/
theorem parseHttpRequest_ne (hmethod : isWord method = true) (htarget : isWord target = true)
    (hversion : isWord version = true) (hheaders : ∀ line ∈ headers, '\n' ∉ line)
    (body : Text) :
    parseHttpRequest (requestText method target version headers body) ≠
      requestText method target version headers body := by
  intro heq
  have hbody := length_le_getlines body
  have hheader := length_lines_le headers
  rw [parseHttpRequest_requestText hmethod htarget hversion hheaders] at heq
  have hlength := congrArg List.length heq
  simp only [requestText, List.flatMap_cons, List.flatMap_append, List.flatMap_nil,
    List.length_append, List.length_cons, List.length_nil] at hlength hheader
  omega

end

/-- A request without a body: each line behind the first comes out with one CR more. -/
theorem parseHttpRequest_ne_get :
    parseHttpRequest
        (requestText "GET".toList "/".toList "HTTP/1.1".toList ["Host: a".toList] []) ≠
      requestText "GET".toList "/".toList "HTTP/1.1".toList ["Host: a".toList] [] :=
  parseHttpRequest_ne rfl rfl rfl
    (fun line hmem => by rw [List.mem_singleton.mp hmem]; decide) []

/-- A request line and an empty line come out as a request line, a line that is a CR, and
an empty line. -/
theorem parseHttpRequest_root :
    parseHttpRequest "GET / HTTP/1.1\r\n\r\n".toList =
        "GET / HTTP/1.1\r\n\r\r\n\r\n".toList ∧
      parseHttpRequest "GET / HTTP/1.1\r\n\r\n".toList ≠ "GET / HTTP/1.1\r\n\r\n".toList :=
  ⟨rfl, by decide⟩

end ServerAsync
