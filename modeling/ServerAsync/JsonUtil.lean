import ServerAsync.Misc.JsonReader
import ServerAsync.Text

/-!
# `json_util.hpp`

`pretty_print` writes a value to a stream, with the indent in a string that its calls
share: a container makes it longer before its elements and shorter behind them, and the
call that finds it empty at its end ends the line. The output is a text of the value, so
white space is all that it has more than the compact serialization.

Boost.JSON writes the strings and the numbers; `JsonLib` is what is used of it. The
program does not parse what it prints; `JsonLib.parse` is whoever reads it.
-/

namespace ServerAsync

open Misc.Json

/-- A `json::value`: an object keeps one member under a key. -/
abbrev JsonValue (ν : Type*) := {jv : Value ν // jv.keysDistinct = true}

/-- What `json::serialize` and `operator<<` write, and a parser. -/
structure JsonLib (ν : Type*) where
  /-- The serialization of a string or key, and of a number, which is one token. -/
  tokens : Tokens ν
  parse : Text → Option (JsonValue ν)
  /-- The parser takes every text of a value. It has no limit on the depth, unlike
  `boost::json::parse` with its default options, whose `max_depth` is 32. -/
  parse_text : ∀ (jv : JsonValue ν) t, IsText tokens jv.1 t → parse t = some jv

/-- A library for values with natural numbers. -/
def JsonLib.plain : JsonLib Nat where
  tokens := decimal
  parse t := (readAll (strip .outside t)).bind fun jv =>
    if h : jv.keysDistinct = true then some ⟨jv, h⟩ else none
  parse_text jv t h := by
    rw [h.strips.eq, readAll_compact, Option.bind_some, dif_pos jv.2]

variable {ν : Type*} (tok : Tokens ν)

/-- `append(4, ' ')`. -/
def deeper (indent : Text) : Text := indent ++ "    ".toList

/-- `resize(size() - 4)`, of a string that is at least as long. -/
def shallower (indent : Text) : Text := indent.take (indent.length - 4)

/-- The end of a call, which ends the line when the indent is empty. -/
def endCall (out indent : Text) : Text × Text :=
  (if indent = [] then out ++ "\n".toList else out, indent)

mutual

/-- `pretty_print` on a string for the indent: the output, and the string behind it. -/
def prettyPrintAt : Value ν → Text → Text × Text
  | .object obj, indent =>
    let (members, indent) := prettyMembers obj (deeper indent)
    let indent := shallower indent
    endCall (['{', '\n'] ++ members ++ "\n".toList ++ indent ++ ['}']) indent
  | .array arr, indent =>
    let (elements, indent) := prettyElements arr (deeper indent)
    let indent := shallower indent
    endCall (['[', '\n'] ++ elements ++ "\n".toList ++ indent ++ [']']) indent
  | .string s, indent => endCall (tok.string s) indent
  | .number n, indent => endCall (tok.number n) indent
  | .bool b, indent => endCall (if b then "true".toList else "false".toList) indent
  | .null, indent => endCall "null".toList indent

/-- The loop over the members of an object. -/
def prettyMembers : List (Text × Value ν) → Text → Text × Text
  | [], indent => ([], indent)
  | [(key, value)], indent =>
    let os := indent ++ tok.string key ++ " : ".toList
    let (out, indent) := prettyPrintAt value indent
    (os ++ out, indent)
  | (key, value) :: next :: obj, indent =>
    let os := indent ++ tok.string key ++ " : ".toList
    let (out, indent) := prettyPrintAt value indent
    let (rest, indent) := prettyMembers (next :: obj) indent
    (os ++ out ++ ",\n".toList ++ rest, indent)

/-- The loop over the elements of an array. -/
def prettyElements : List (Value ν) → Text → Text × Text
  | [], indent => ([], indent)
  | [value], indent =>
    let (out, indent') := prettyPrintAt value indent
    (indent ++ out, indent')
  | value :: next :: arr, indent =>
    let (out, indent') := prettyPrintAt value indent
    let (rest, indent'') := prettyElements (next :: arr) indent'
    (indent ++ out ++ ",\n".toList ++ rest, indent'')

end

/-- `pretty_print`, what it writes. Without a string for the indent it uses an empty one
of its own. -/
def prettyPrint (jv : Value ν) (indent : Option Text) : Text :=
  (prettyPrintAt tok jv (indent.getD [])).1

variable {tok}

/-! ## The indent -/

theorem shallower_deeper (indent : Text) : shallower (deeper indent) = indent := by
  unfold shallower deeper
  rw [List.length_append, show "    ".toList.length = 4 by decide, Nat.add_sub_cancel,
    List.take_left]

theorem blank_deeper {indent : Text} (h : Blank indent) : Blank (deeper indent) :=
  h.append (by decide)

mutual

/-- A call leaves the indent as it was. -/
theorem prettyPrintAt_indent (jv : Value ν) (indent : Text) :
    (prettyPrintAt tok jv indent).2 = indent := by
  cases jv with
  | object obj => exact (congrArg shallower (prettyMembers_indent obj _)).trans (shallower_deeper _)
  | array arr => exact (congrArg shallower (prettyElements_indent arr _)).trans (shallower_deeper _)
  | string s => rfl
  | number n => rfl
  | bool b => rfl
  | null => rfl

theorem prettyMembers_indent (obj : List (Text × Value ν)) (indent : Text) :
    (prettyMembers tok obj indent).2 = indent := by
  match obj with
  | [] => rfl
  | [(key, value)] => exact prettyPrintAt_indent value indent
  | (key, value) :: next :: obj =>
    have hvalue := prettyPrintAt_indent value indent
    have hrest := prettyMembers_indent (next :: obj) indent
    change (prettyMembers tok (next :: obj) (prettyPrintAt tok value indent).2).2 = indent
    rw [hvalue, hrest]

theorem prettyElements_indent (arr : List (Value ν)) (indent : Text) :
    (prettyElements tok arr indent).2 = indent := by
  match arr with
  | [] => rfl
  | [value] => exact prettyPrintAt_indent value indent
  | value :: next :: arr =>
    have hvalue := prettyPrintAt_indent value indent
    have hrest := prettyElements_indent (next :: arr) indent
    change (prettyElements tok (next :: arr) (prettyPrintAt tok value indent).2).2 = indent
    rw [hvalue, hrest]

end

theorem prettyMembers_cons (key : Text) (value : Value ν) (next : Text × Value ν)
    (obj : List (Text × Value ν)) (indent : Text) :
    (prettyMembers tok ((key, value) :: next :: obj) indent).1 =
      indent ++ tok.string key ++ " : ".toList ++ (prettyPrintAt tok value indent).1 ++
        ",\n".toList ++ (prettyMembers tok (next :: obj) indent).1 := by
  change _ ++ (prettyMembers tok (next :: obj) (prettyPrintAt tok value indent).2).1 = _
  rw [prettyPrintAt_indent]

theorem prettyElements_cons (value next : Value ν) (arr : List (Value ν)) (indent : Text) :
    (prettyElements tok (value :: next :: arr) indent).1 =
      indent ++ (prettyPrintAt tok value indent).1 ++ ",\n".toList ++
        (prettyElements tok (next :: arr) indent).1 := by
  change _ ++ (prettyElements tok (next :: arr) (prettyPrintAt tok value indent).2).1 = _
  rw [prettyPrintAt_indent]

theorem prettyPrintAt_object (obj : List (Text × Value ν)) (indent : Text) :
    (prettyPrintAt tok (.object obj) indent).1 =
      (endCall (['{', '\n'] ++ (prettyMembers tok obj (deeper indent)).1 ++ "\n".toList ++ indent
        ++ ['}']) indent).1 := by
  change (endCall (_ ++ shallower (prettyMembers tok obj (deeper indent)).2 ++ _)
    (shallower (prettyMembers tok obj (deeper indent)).2)).1 = _
  rw [prettyMembers_indent, shallower_deeper]

theorem prettyPrintAt_array (arr : List (Value ν)) (indent : Text) :
    (prettyPrintAt tok (.array arr) indent).1 =
      (endCall (['[', '\n'] ++ (prettyElements tok arr (deeper indent)).1 ++ "\n".toList ++ indent
        ++ [']']) indent).1 := by
  change (endCall (_ ++ shallower (prettyElements tok arr (deeper indent)).2 ++ _)
    (shallower (prettyElements tok arr (deeper indent)).2)).1 = _
  rw [prettyElements_indent, shallower_deeper]

/-! ## The output is a text of the value -/

theorem blank_newline : Blank "\n".toList := by decide

theorem endCall_isText {jv : Value ν} {out : Text} (h : IsText tok jv out) (indent : Text) :
    IsText tok jv (endCall out indent).1 := by
  unfold endCall
  split
  · exact IsText.padded (l := []) (by decide) h blank_newline
  · exact h

/-- A key with its value, as the loop over the members writes them. -/
theorem prettyMember_isMember (key : Text) {value : Value ν} {indent out : Text}
    (hindent : Blank indent) (h : IsText tok value out) :
    IsMember tok key value (indent ++ tok.string key ++ " : ".toList ++ out) := by
  have hspace : Blank " ".toList := by decide
  have hmember := IsMember.mk key hindent hspace (h.blank_append hspace)
  simpa using hmember

mutual

theorem prettyPrintAt_isText (jv : Value ν) {indent : Text} (h : Blank indent) :
    IsText tok jv (prettyPrintAt tok jv indent).1 := by
  cases jv with
  | object obj =>
    have hmembers := prettyMembers_isMembers obj (blank_deeper h)
    have hbody := hmembers.padded blank_newline (blank_newline.append h)
    rw [prettyPrintAt_object]
    apply endCall_isText
    have htext := IsText.object hbody
    simpa using htext
  | array arr =>
    have helements := prettyElements_isElements arr (blank_deeper h)
    have hbody := helements.padded blank_newline (blank_newline.append h)
    rw [prettyPrintAt_array]
    apply endCall_isText
    have htext := IsText.array hbody
    simpa using htext
  | string s => exact endCall_isText (IsText.string s) indent
  | number n => exact endCall_isText (IsText.number n) indent
  | bool b => exact endCall_isText (IsText.bool b) indent
  | null => exact endCall_isText IsText.null indent

theorem prettyMembers_isMembers (obj : List (Text × Value ν)) {indent : Text} (h : Blank indent) :
    IsMembers tok obj (prettyMembers tok obj indent).1 := by
  match obj with
  | [] => exact IsMembers.nil
  | [(key, value)] =>
    exact IsMembers.one (prettyMember_isMember key h (prettyPrintAt_isText value h))
  | (key, value) :: next :: obj =>
    have hvalue := prettyMember_isMember key h (prettyPrintAt_isText value h)
    have hrest := prettyMembers_isMembers (next :: obj) h
    have hall := IsMembers.cons hvalue (hrest.blank_append blank_newline)
    rw [prettyMembers_cons]
    simpa using hall

theorem prettyElements_isElements (arr : List (Value ν)) {indent : Text} (h : Blank indent) :
    IsElements tok arr (prettyElements tok arr indent).1 := by
  match arr with
  | [] => exact IsElements.nil
  | [value] =>
    exact IsElements.one ((prettyPrintAt_isText value h).blank_append h)
  | value :: next :: arr =>
    have hvalue := prettyPrintAt_isText value h
    have hrest := prettyElements_isElements (next :: arr) h
    have hall := IsElements.cons (hvalue.blank_append h) (hrest.blank_append blank_newline)
    rw [prettyElements_cons]
    simpa using hall

end

theorem prettyPrint_isText (jv : Value ν) {indent : Option Text}
    (h : ∀ c ∈ indent.getD [], c = ' ') : IsText tok jv (prettyPrint tok jv indent) := by
  apply prettyPrintAt_isText
  intro c hc
  rw [h c hc]
  rfl

theorem parse_prettyPrint (lib : JsonLib ν) (jv : JsonValue ν) {indent : Option Text}
    (h : ∀ c ∈ indent.getD [], c = ' ') :
    lib.parse (prettyPrint lib.tokens jv.1 indent) = some jv :=
  lib.parse_text jv _ (prettyPrint_isText jv.1 h)

/-- Values that are printed alike are equal. -/
theorem prettyPrint_injective (lib : JsonLib ν) :
    Function.Injective fun jv : JsonValue ν => prettyPrint lib.tokens jv.1 none := by
  intro jv jv' h
  have hnone : ∀ c ∈ (none : Option Text).getD [], c = ' ' := by
    intro c hc
    cases hc
  have hjv := parse_prettyPrint lib jv hnone
  have hjv' := parse_prettyPrint lib jv' hnone
  dsimp only at h
  rw [← h, hjv] at hjv'
  exact Option.some.inj hjv'

/-- Without its white space, the output is the compact serialization, and the parser gives
the value back. -/
theorem prettyPrint_faithful (lib : JsonLib ν) (jv : JsonValue ν) {indent : Option Text}
    (h : ∀ c ∈ indent.getD [], c = ' ') :
    strip .outside (prettyPrint lib.tokens jv.1 indent) = compact lib.tokens jv.1 ∧
      lib.parse (prettyPrint lib.tokens jv.1 indent) = some jv := by
  have htext : IsText lib.tokens jv.1 _ := prettyPrint_isText jv.1 h
  exact ⟨htext.strips.eq, parse_prettyPrint lib jv h⟩

theorem prettyPrint_faithful_nested :
    let jv : JsonValue Nat :=
      ⟨.object [("a b".toList, .array [.object [], .number 12, .array []]),
        ("c".toList, .string "\"\n ".toList)], rfl⟩
    strip .outside (prettyPrint decimal jv.1 (some "  ".toList)) =
        "\x7b\"a b\":[\x7b\x7d,12,[]],\"c\":\"\\\"\\n \"\x7d".toList ∧
      JsonLib.plain.parse (prettyPrint decimal jv.1 (some "  ".toList)) = some jv :=
  prettyPrint_faithful JsonLib.plain _ fun _ hc => List.eq_of_mem_replicate (n := 2) hc

/-- An empty container has an empty line of its own. -/
example : prettyPrint decimal (.object [("a".toList, .array [.null, .array []])]) none =
    "\x7b\n    \"a\" : [\n        null,\n        [\n\n        ]\n    ]\n\x7d\n".toList := by
  decide

end ServerAsync
