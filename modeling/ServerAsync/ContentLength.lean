import ServerAsync.RequestText
import ServerAsync.Misc.Numeral

/-!
# `get_content_length`

The lines of a request are searched for `Content-Length:`, up to the empty one, and what
follows the 16th character of a line that contains it is read as an `int`.
-/

namespace ServerAsync

open Misc

/-- The exceptions of `std::stoi` and `substr`. -/
inductive NumberExn where
  | invalidArgument
  | outOfRange
  deriving DecidableEq, Repr

/-- `std::stoi`. -/
def stoi (str : Text) : Except NumberExn Int :=
  match scanInt isSpace str with
  | none => .error .invalidArgument
  | some i => if -2 ^ 31 ≤ i ∧ i < 2 ^ 31 then .ok i else .error .outOfRange

/-- What a line is searched for. -/
def lengthKey : Text := "Content-Length:".toList

def hasKey (line : Text) : Bool := line.contains lengthKey

/-- `std::stoi(line.substr(16))`. -/
def readLength (line : Text) : Except NumberExn Int :=
  match line.substr 16 line.length with
  | .error _ => .error .outOfRange
  | .ok value => stoi value

/-- The loop over the lines. -/
def contentLengthLoop : List Text → Nat → Except NumberExn Nat
  | [], contentLength => .ok contentLength
  | line :: lines, contentLength =>
    if line = ['\r'] then .ok contentLength
    else if hasKey line then
      match readLength line with
      | .error e => .error e
      | .ok n => contentLengthLoop lines (Text.toSize n)
    else contentLengthLoop lines contentLength

def getContentLength (request : Text) : Except NumberExn Nat :=
  contentLengthLoop (getlines request) 0

/-! ## Requests with their fields -/

/-- A character of a field name. -/
def isNameChar (c : Char) : Bool := c != ':' && !isSpace c

/-- A character of the optional white space around a value. -/
def isPadding (c : Char) : Bool := c == ' ' || c == '\t'

/-- A header field: `lead` and `trail` are the optional white space around its value. -/
structure HeaderField where
  name : Text
  lead : Text
  value : Text
  trail : Text
  name_ok : name ≠ [] ∧ name.all isNameChar = true
  padding_ok : (lead ++ trail).all isPadding = true
  value_ok : '\r' ∉ value ∧ '\n' ∉ value

namespace HeaderField

def text (f : HeaderField) : Text := f.name ++ ':' :: (f.lead ++ f.value ++ f.trail)

/-- A field with this name, in any letter case. -/
def isContentLength (f : HeaderField) : Bool :=
  f.name.map Char.toLower == "content-length".toList

end HeaderField

/-- A request with a well-formed header block. It has at most one `Content-Length` field,
and that one has a number. -/
structure FieldRequest where
  method : Text
  target : Text
  version : Text
  fields : List HeaderField
  body : Text
  words_ok : isWord method = true ∧ isWord target = true ∧ isWord version = true
  single : (fields.filter HeaderField.isContentLength).length ≤ 1
  number_ok : ∀ f ∈ fields, f.isContentLength = true →
    f.value ≠ [] ∧ f.value.all Char.isDigit = true

namespace FieldRequest

def requestLine (r : FieldRequest) : Text :=
  r.method ++ [' '] ++ r.target ++ [' '] ++ r.version

def text (r : FieldRequest) : Text :=
  requestText r.method r.target r.version (r.fields.map HeaderField.text) r.body

/-- The lines of the head as `getline` gets them, each with its CR. -/
def lines (r : FieldRequest) : List Text :=
  (r.requestLine :: r.fields.map HeaderField.text).map (· ++ ['\r'])

/-- The value of the `Content-Length` field, 0 without one. -/
def contentLength (r : FieldRequest) : Nat :=
  ((r.fields.find? HeaderField.isContentLength).map fun f => number f.value).getD 0

end FieldRequest

/-! ## The int in a line -/

/-- Behind the 16th character, a line has an `int`. -/
def HasInt (line : Text) (i : Int) : Prop :=
  IsInt isSpace (line.drop 16) i ∧ -2 ^ 31 ≤ i ∧ i < 2 ^ 31

theorem isSpace_ok (c : Char) (h : isSpace c = true) : c ∉ ['+', '-'] ∧ c.isDigit = false := by
  rw [isSpace, List.contains_iff_mem] at h
  simp only [List.mem_cons, List.not_mem_nil, or_false] at h
  rcases h with rfl | rfl | rfl | rfl | rfl | rfl <;> decide

theorem stoi_eq_ok_iff {str : Text} {i : Int} :
    stoi str = .ok i ↔ IsInt isSpace str i ∧ -2 ^ 31 ≤ i ∧ i < 2 ^ 31 := by
  rw [← scanInt_eq_some_iff isSpace_ok, stoi]
  cases hscan : scanInt isSpace str with
  | none => exact iff_of_false nofun fun h => nomatch h.1
  | some j =>
    dsimp only
    by_cases hfit : -2 ^ 31 ≤ j ∧ j < 2 ^ 31
    · rw [if_pos hfit]
      constructor
      · rintro ⟨⟩
        exact ⟨rfl, hfit⟩
      · rintro ⟨⟨⟩, -⟩
        rfl
    · rw [if_neg hfit]
      refine iff_of_false nofun ?_
      rintro ⟨⟨⟩, hrange⟩
      exact hfit hrange

theorem readLength_eq_ok_iff {line : Text} {i : Int} : readLength line = .ok i ↔ HasInt line i := by
  rw [readLength, HasInt, ← stoi_eq_ok_iff]
  by_cases hlen : 16 ≤ line.length
  · have hrest : (line.drop 16).length ≤ line.length := by
      rw [List.length_drop]
      exact Nat.sub_le _ _
    rw [Text.substr_ok hlen, List.take_of_length_le hrest]
  · rw [Text.substr, if_neg hlen, List.drop_eq_nil_of_le (by omega)]
    exact iff_of_false nofun nofun

/-- A line has one int at most. -/
theorem HasInt.unique {line : Text} {i j : Int} (h : HasInt line i) (h' : HasInt line j) :
    i = j := by
  have hi := readLength_eq_ok_iff.mpr h
  rw [readLength_eq_ok_iff.mpr h'] at hi
  exact (Except.ok.inj hi).symm

/-! ## The loop -/

/-- The lines that contain the key. -/
def keyLines (lines : List Text) : List Text := lines.filter hasKey

/-- What the last of the lines with the key gives, `n` if there is none. -/
def LastGives (lines : List Text) (n m : Nat) : Prop :=
  (keyLines lines).getLast?.elim (m = n) fun line => ∃ i, HasInt line i ∧ Text.toSize i = m

theorem lastGives_cons_of_not {line : Text} (h : ¬ hasKey line = true)
    (lines : List Text) (n m : Nat) : LastGives (line :: lines) n m ↔ LastGives lines n m := by
  rw [LastGives, LastGives, keyLines, List.filter_cons_of_neg h, keyLines]

/-- A line with the key takes the place of what was there before. -/
theorem lastGives_cons {line : Text} (h : hasKey line = true) {i : Int}
    (hint : HasInt line i) (lines : List Text) (n m : Nat) :
    LastGives (line :: lines) n m ↔ LastGives lines (Text.toSize i) m := by
  rw [LastGives, LastGives, keyLines, List.filter_cons_of_pos h, ← keyLines, List.getLast?_cons]
  cases (keyLines lines).getLast? with
  | none =>
    constructor
    · rintro ⟨j, hj, rfl⟩
      exact congrArg Text.toSize (hj.unique hint)
    · rintro rfl
      exact ⟨i, hint, rfl⟩
  | some last => exact Iff.rfl

/-- The loop returns if every line with the key has an int, and then it returns the last. -/
theorem contentLengthLoop_eq_ok_iff {lines : List Text} (h : ∀ line ∈ lines, line ≠ ['\r'])
    (rest : List Text) (n m : Nat) :
    contentLengthLoop (lines ++ ['\r'] :: rest) n = .ok m ↔
      (∀ line ∈ keyLines lines, ∃ i, HasInt line i) ∧ LastGives lines n m := by
  induction lines generalizing n with
  | nil =>
    rw [List.nil_append, contentLengthLoop, if_pos rfl, Except.ok.injEq]
    exact ⟨fun heq => ⟨nofun, heq.symm⟩, fun hlast => Eq.symm hlast.2⟩
  | cons line lines ih =>
    rw [List.forall_mem_cons] at h
    rw [List.cons_append, contentLengthLoop, if_neg h.1]
    by_cases hkey : hasKey line = true
    · rw [if_pos hkey, keyLines, List.filter_cons_of_pos hkey, ← keyLines, List.forall_mem_cons]
      cases hread : readLength line with
      | error e =>
        refine iff_of_false nofun ?_
        rintro ⟨⟨⟨i, hi⟩, -⟩, -⟩
        rw [readLength_eq_ok_iff.mpr hi] at hread
        cases hread
      | ok i =>
        have hint := readLength_eq_ok_iff.mp hread
        rw [lastGives_cons hkey hint]
        dsimp only
        rw [ih h.2]
        exact ⟨fun hall => ⟨⟨⟨i, hint⟩, hall.1⟩, hall.2⟩, fun hall => ⟨hall.1.2, hall.2⟩⟩
    · rw [if_neg hkey, lastGives_cons_of_not hkey, keyLines, List.filter_cons_of_neg hkey,
        ← keyLines]
      exact ih h.2 n

/-- When every line with the key has an int, there is a last one, or none. -/
theorem exists_lastGives {lines : List Text} (h : ∀ line ∈ keyLines lines, ∃ i, HasInt line i)
    (n : Nat) : ∃ m, LastGives lines n m := by
  unfold LastGives
  cases hlast : (keyLines lines).getLast? with
  | none => exact ⟨n, rfl⟩
  | some line =>
    obtain ⟨i, hi⟩ := h line (List.mem_of_getLast? hlast)
    exact ⟨Text.toSize i, i, hi, rfl⟩

namespace FieldRequest

theorem requestLine_ne_nil (r : FieldRequest) : r.requestLine ≠ [] := by simp [requestLine]

theorem lines_ne (r : FieldRequest) : ∀ line ∈ r.lines, line ≠ ['\r'] := by
  have hshort : ∀ {u : Text}, u ≠ [] → u ++ ['\r'] ≠ ['\r'] := by
    intro u hu heq
    exact hu (List.append_left_eq_self.mp heq)
  intro line hline
  obtain ⟨u, hu, rfl⟩ := List.mem_map.mp hline
  apply hshort
  rcases List.mem_cons.mp hu with rfl | hu
  · exact r.requestLine_ne_nil
  · obtain ⟨f, -, rfl⟩ := List.mem_map.mp hu
    simp [HeaderField.text]

theorem lineFeed_notMem (f : HeaderField) : '\n' ∉ f.text := by
  have hname : '\n' ∉ f.name := Text.notMem_of_all f.name_ok.2 rfl
  have hpadding : '\n' ∉ f.lead ++ f.trail := Text.notMem_of_all f.padding_ok rfl
  rw [List.mem_append, not_or] at hpadding
  simp [HeaderField.text, hname, hpadding.1, hpadding.2, f.value_ok.2]

/-- The loop gets the lines of the head, and then the empty one. -/
theorem getlines_text (r : FieldRequest) :
    getlines r.text = r.lines ++ ['\r'] :: getlines r.body := by
  have hheaders : ∀ line ∈ r.fields.map HeaderField.text, '\n' ∉ line := by
    intro line hline
    obtain ⟨f, -, rfl⟩ := List.mem_map.mp hline
    exact lineFeed_notMem f
  rw [text, getlines_requestText r.words_ok.1 r.words_ok.2.1 r.words_ok.2.2 hheaders,
    List.map_append, List.append_assoc]
  rfl

/-- Every line of the head that contains the key has an int behind its 16th character, and
the last of them has the content length there; without such a line, that is 0. -/
structure Legible (r : FieldRequest) : Prop where
  ints : ∀ line ∈ keyLines r.lines, ∃ i, HasInt line i
  last : r.contentLength < 2 ^ 64 → LastGives r.lines 0 r.contentLength

/-- `get_content_length` returns, and returns the content length if a `size_t` holds it,
if and only if the lines with the key are legible. -/
theorem getContentLength_iff (r : FieldRequest) :
    (∃ n, getContentLength r.text = .ok n ∧ (r.contentLength < 2 ^ 64 → n = r.contentLength)) ↔
      r.Legible := by
  have hloop : ∀ n, getContentLength r.text = .ok n ↔
      (∀ line ∈ keyLines r.lines, ∃ i, HasInt line i) ∧ LastGives r.lines 0 n := by
    intro n
    rw [getContentLength, getlines_text]
    exact contentLengthLoop_eq_ok_iff r.lines_ne _ 0 n
  constructor
  · rintro ⟨n, hn, hvalue⟩
    obtain ⟨hints, hlast⟩ := (hloop n).mp hn
    refine ⟨hints, ?_⟩
    intro hfit
    rw [← hvalue hfit]
    exact hlast
  · rintro ⟨hints, hlast⟩
    by_cases hfit : r.contentLength < 2 ^ 64
    · exact ⟨r.contentLength, (hloop _).mpr ⟨hints, hlast hfit⟩, fun _ => rfl⟩
    · obtain ⟨n, hn⟩ := exists_lastGives hints 0
      exact ⟨n, (hloop n).mpr ⟨hints, hn⟩, fun h => absurd h hfit⟩

end FieldRequest

/-! ## The field itself -/

namespace HeaderField

/-- The digits that are read: one character behind the colon is skipped. -/
def digits (f : HeaderField) : Text := if f.lead = [] then f.value.tail else f.value

/-- A field with this value, between colon and CR, has no other colon. -/
theorem colon_notMem {f : HeaderField} (hvalue : f.value.all Char.isDigit = true) :
    ':' ∉ f.lead ++ f.value ++ f.trail ++ ['\r'] := by
  have hpadding : ':' ∉ f.lead ++ f.trail := Text.notMem_of_all f.padding_ok rfl
  have hdigit : ':' ∉ f.value := Text.notMem_of_all hvalue rfl
  rw [List.mem_append, not_or] at hpadding
  simp [hpadding.1, hpadding.2, hdigit]

theorem text_cr (f : HeaderField) :
    f.text ++ ['\r'] = f.name ++ ':' :: (f.lead ++ f.value ++ f.trail ++ ['\r']) := by
  simp [text]

theorem lengthKey_eq : lengthKey = "Content-Length".toList ++ [':'] := rfl

/-- A `Content-Length` field has the key in it when its name is written with these capital
letters. -/
theorem hasKey_iff {f : HeaderField} (hname : f.isContentLength = true)
    (hvalue : f.value.all Char.isDigit = true) :
    hasKey (f.text ++ ['\r']) = true ↔ f.name = "Content-Length".toList := by
  rw [hasKey, Text.contains_iff, text_cr]
  constructor
  · rintro ⟨s, t, h⟩
    have hcolon : ':' ∉ f.name := Text.notMem_of_all f.name_ok.2 rfl
    rw [lengthKey_eq, ← List.append_assoc, List.append_assoc _ [':'], List.singleton_append] at h
    -- the colon of the key is the only one of the line
    obtain ⟨heq, -, -⟩ := (List.append_cons_inj_of_notMem hcolon (colon_notMem hvalue)).mp h.symm
    have hlength := congrArg List.length (beq_iff_eq.mp hname)
    rw [heq, List.length_map, List.length_append] at hlength
    have hsame : "Content-Length".toList.length = "content-length".toList.length := by
      decide
    have hnil : s = [] := List.length_eq_zero_iff.mp (by omega)
    rw [heq, hnil, List.nil_append]
  · intro hexact
    refine ⟨[], f.lead ++ f.value ++ f.trail ++ ['\r'], ?_⟩
    rw [hexact, lengthKey_eq, List.nil_append, List.append_assoc, List.singleton_append]

/-- What is behind the 16th character of such a field. -/
theorem drop_text {f : HeaderField} (hexact : f.name = "Content-Length".toList)
    (hne : f.value ≠ []) :
    (f.text ++ ['\r']).drop 16 = f.lead.tail ++ ([] ++ (f.digits ++ (f.trail ++ ['\r']))) := by
  obtain ⟨c, value, hvalue⟩ := List.exists_cons_of_ne_nil hne
  rw [text_cr, hexact, digits, hvalue]
  cases f.lead with
  | nil => simp
  | cons b lead => simp

/-- White space around a value, and the CR behind it. -/
theorem isSpace_of_padding {f : HeaderField} {c : Char} (hc : c ∈ f.lead ++ f.trail ++ ['\r']) :
    isSpace c = true ∧ c.isDigit = false := by
  rcases List.mem_append.mp hc with hc | hc
  · have hpadding := List.all_eq_true.mp f.padding_ok c hc
    rw [isPadding, Bool.or_eq_true, beq_iff_eq, beq_iff_eq] at hpadding
    rcases hpadding with rfl | rfl <;> decide
  · rw [List.mem_singleton.mp hc]
    decide

theorem digits_isDigit {f : HeaderField} (hvalue : f.value.all Char.isDigit = true) :
    ∀ c ∈ f.digits, c.isDigit = true := by
  intro c hc
  rw [List.all_eq_true] at hvalue
  unfold digits at hc
  split at hc
  · exact hvalue c (List.mem_of_mem_tail hc)
  · exact hvalue c hc

/-- Its int is the number of the digits that are read. -/
theorem hasInt_iff {f : HeaderField} (hexact : f.name = "Content-Length".toList)
    (hne : f.value ≠ []) (hvalue : f.value.all Char.isDigit = true) {i : Int} :
    HasInt (f.text ++ ['\r']) i ↔
      f.digits ≠ [] ∧ i = number f.digits ∧ number f.digits < 2 ^ 31 := by
  have hlead : ∀ c ∈ f.lead.tail, isSpace c = true ∧ c.isDigit = false := by
    intro c hc
    apply @isSpace_of_padding f
    simp [List.mem_of_mem_tail hc]
  have hrest : ∀ c ∈ f.trail ++ ['\r'], isSpace c = true ∧ c.isDigit = false := by
    intro c hc
    apply @isSpace_of_padding f
    rw [List.append_assoc]
    exact List.mem_append_right _ hc
  rw [HasInt, drop_text hexact hne]
  by_cases hempty : f.digits = []
  · refine iff_of_false ?_ fun h => h.1 hempty
    rintro ⟨hint, -⟩
    obtain ⟨c, hc, hdigit⟩ := hint.exists_digit
    rw [hempty, List.nil_append, List.nil_append] at hc
    have hnot : c.isDigit = false := by
      rcases List.mem_append.mp hc with hc | hc
      · exact (hlead c hc).2
      · exact (hrest c hc).2
    rw [hnot] at hdigit
    cases hdigit
  · have hint : IsInt isSpace (f.lead.tail ++ ([] ++ (f.digits ++ (f.trail ++ ['\r']))))
        (signed [] (number f.digits)) := by
      refine IsInt.mk (fun c hc => (hlead c hc).1) (by decide) hempty (digits_isDigit hvalue) ?_
      intro c hc
      exact (hrest c (List.mem_of_mem_head? hc)).2
    change IsInt isSpace _ (number f.digits : Int) at hint
    constructor
    · rintro ⟨hi, -, hlt⟩
      have heq := hi.unique isSpace_ok hint
      exact ⟨hempty, heq, by omega⟩
    · rintro ⟨-, rfl, hlt⟩
      exact ⟨hint, by omega, by omega⟩

/-- A field that is read as it is written: with these capital letters, as an `int`, and
with a first digit that may be skipped if it stands right behind the colon. In other
letters it is taken for absent. -/
def Legible (f : HeaderField) : Prop :=
  if f.name = "Content-Length".toList then
    f.digits ≠ [] ∧ number f.digits = number f.value ∧ number f.value < 2 ^ 31
  else number f.value = 0

end HeaderField

/-! ## Requests without other lines that contain the key -/

theorem toSize_natCast {n : Nat} (h : n < 2 ^ 31) : Text.toSize n = n := by
  unfold Text.toSize
  omega

namespace FieldRequest

variable {r : FieldRequest}

/-- Without a line that has the key, 0 is returned. -/
theorem legible_iff_of_nil (h : keyLines r.lines = []) :
    r.Legible ↔ (r.contentLength < 2 ^ 64 → r.contentLength = 0) := by
  have hlast : LastGives r.lines 0 r.contentLength ↔ r.contentLength = 0 := by
    rw [LastGives, h]
    exact Iff.rfl
  constructor
  · intro hlegible hfit
    exact hlast.mp (hlegible.last hfit)
  · intro hzero
    refine ⟨?_, fun hfit => hlast.mpr (hzero hfit)⟩
    rw [h]
    exact nofun

/-- With one such line, its int is returned. -/
theorem legible_iff_of_all {line : Text} (hmem : line ∈ keyLines r.lines)
    (hall : ∀ other ∈ keyLines r.lines, other = line) :
    r.Legible ↔
      ∃ i, HasInt line i ∧ (r.contentLength < 2 ^ 64 → Text.toSize i = r.contentLength) := by
  have hlast : LastGives r.lines 0 r.contentLength ↔
      ∃ i, HasInt line i ∧ Text.toSize i = r.contentLength := by
    rw [LastGives]
    cases hgetLast : (keyLines r.lines).getLast? with
    | none =>
      rw [List.getLast?_eq_none_iff.mp hgetLast] at hmem
      cases hmem
    | some last =>
      rw [hall last (List.mem_of_getLast? hgetLast)]
      exact Iff.rfl
  constructor
  · rintro ⟨hints, hgives⟩
    obtain ⟨i, hi⟩ := hints line hmem
    refine ⟨i, hi, ?_⟩
    intro hfit
    obtain ⟨j, hj, hsize⟩ := hlast.mp (hgives hfit)
    rwa [hi.unique hj]
  · rintro ⟨i, hi, hsize⟩
    refine ⟨?_, fun hfit => hlast.mpr ⟨i, hi, hsize hfit⟩⟩
    intro other hother
    rw [hall other hother]
    exact ⟨i, hi⟩

/-- There is one `Content-Length` field. -/
theorem eq_of_isContentLength {f g : HeaderField} (hf : f ∈ r.fields) (hg : g ∈ r.fields)
    (hfname : f.isContentLength = true) (hgname : g.isContentLength = true) : g = f := by
  have hsingle := r.single
  have hmem := List.mem_filter.mpr ⟨hf, hfname⟩
  have hmem' := List.mem_filter.mpr ⟨hg, hgname⟩
  cases hfilter : r.fields.filter HeaderField.isContentLength with
  | nil =>
    rw [hfilter] at hmem
    cases hmem
  | cons e rest =>
    rw [hfilter] at hsingle hmem hmem'
    have hrest : rest = [] := List.length_eq_zero_iff.mp (by simpa using hsingle)
    rw [hrest, List.mem_singleton] at hmem hmem'
    rw [hmem, hmem']

/-- When nothing but the `Content-Length` field contains the key, it depends on how that
field is written whether its value is returned. -/
theorem legible_iff (honly : ∀ line ∈ keyLines r.lines, ∃ f ∈ r.fields,
      f.isContentLength = true ∧ line = f.text ++ ['\r'])
    (hfit : r.contentLength < 2 ^ 64) :
    r.Legible ↔ ∀ f ∈ r.fields, f.isContentLength = true → f.Legible := by
  cases hfind : r.fields.find? HeaderField.isContentLength with
  | none =>
    have hnone := List.find?_eq_none.mp hfind
    have hnil : keyLines r.lines = [] := by
      rw [List.eq_nil_iff_forall_not_mem]
      intro line hline
      obtain ⟨f, hf, hname, -⟩ := honly line hline
      exact hnone f hf hname
    have hzero : r.contentLength = 0 := by
      rw [contentLength, hfind]
      rfl
    rw [legible_iff_of_nil hnil]
    exact iff_of_true (fun _ => hzero) fun f hf hname => absurd hname (hnone f hf)
  | some f =>
    have hf := List.mem_of_find?_eq_some hfind
    have hname := List.find?_some hfind
    obtain ⟨hne, hvalue⟩ := r.number_ok f hf hname
    have hlength : r.contentLength = number f.value := by
      rw [contentLength, hfind]
      rfl
    have hline : ∀ line ∈ keyLines r.lines, line = f.text ++ ['\r'] := by
      intro line hmem
      obtain ⟨g, hg, hgname, rfl⟩ := honly line hmem
      rw [eq_of_isContentLength hf hg hname hgname]
    have hfield : (∀ g ∈ r.fields, g.isContentLength = true → g.Legible) ↔ f.Legible := by
      constructor
      · exact fun hall => hall f hf hname
      · intro hlegible g hg hgname
        rwa [eq_of_isContentLength hf hg hname hgname]
    rw [hfield, HeaderField.Legible]
    by_cases hexact : f.name = "Content-Length".toList
    · have hmem : f.text ++ ['\r'] ∈ keyLines r.lines := by
        refine List.mem_filter.mpr ⟨?_, (HeaderField.hasKey_iff hname hvalue).mpr hexact⟩
        apply List.mem_map_of_mem
        exact List.mem_cons_of_mem _ (List.mem_map_of_mem hf)
      rw [if_pos hexact, legible_iff_of_all hmem hline]
      simp only [HeaderField.hasInt_iff hexact hne hvalue]
      constructor
      · rintro ⟨i, ⟨hdigits, rfl, hlt⟩, hsize⟩
        have hsame := hsize hfit
        rw [toSize_natCast hlt, hlength] at hsame
        exact ⟨hdigits, hsame, hsame ▸ hlt⟩
      · rintro ⟨hdigits, hsame, hlt⟩
        refine ⟨number f.digits, ⟨hdigits, rfl, hsame ▸ hlt⟩, ?_⟩
        intro _
        rw [hsame, toSize_natCast hlt, hlength]
    · have hnil : keyLines r.lines = [] := by
        rw [List.eq_nil_iff_forall_not_mem]
        intro line hmem
        have hkey := (List.mem_filter.mp hmem).2
        rw [hline line hmem, HeaderField.hasKey_iff hname hvalue] at hkey
        exact hexact hkey
      rw [if_neg hexact, legible_iff_of_nil hnil, hlength]
      exact ⟨fun hzero => hzero (hlength ▸ hfit), fun hzero _ => hzero⟩

/-- A request with a field name in small letters. -/
def lowercaseRequest : FieldRequest where
  method := "POST".toList
  target := "/".toList
  version := "HTTP/1.1".toList
  fields := [⟨"content-length".toList, [' '], ['5'], [], by decide, by decide, by decide⟩]
  body := "hello".toList
  words_ok := by decide
  single := by decide
  number_ok := by decide

/-- The same request without a space behind the colon. -/
def unspacedRequest : FieldRequest where
  method := "POST".toList
  target := "/".toList
  version := "HTTP/1.1".toList
  fields := [⟨"Content-Length".toList, [], ['5'], [], by decide, by decide, by decide⟩]
  body := "hello".toList
  words_ok := by decide
  single := by decide
  number_ok := by decide

/-- The field in small letters is not found, and the one without a space has no digit where
it is looked for. -/
theorem getContentLength_lowercase :
    lowercaseRequest.text = "POST / HTTP/1.1\r\ncontent-length: 5\r\n\r\nhello".toList ∧
      lowercaseRequest.contentLength = 5 ∧
      getContentLength lowercaseRequest.text = .ok 0 ∧
      unspacedRequest.contentLength = 5 ∧
      getContentLength unspacedRequest.text = .error .invalidArgument := by
  decide +kernel

end FieldRequest

end ServerAsync
