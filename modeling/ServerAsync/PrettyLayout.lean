import ServerAsync.JsonUtil
import ServerAsync.Misc.JsonLayout

/-!
# The layout of `pretty_print`

Each line of the output is indented by four spaces for every container around it, on top
of the indent that the outermost call finds. A call that finds an indent does not end its
line: only the outermost call without one does.
-/

namespace ServerAsync

open Misc.Json

variable {ν : Type*} (tok : Tokens ν)

/-! ## The calls -/

mutual

/-- The calls that a call makes, and those that these make, each with the indent that it
finds. -/
def nestedCalls : Value ν → Text → List (Value ν × Text)
  | .object obj, indent => memberCalls obj (deeper indent)
  | .array arr, indent => elementCalls arr (deeper indent)
  | .string _, _ => []
  | .number _, _ => []
  | .bool _, _ => []
  | .null, _ => []

def memberCalls : List (Text × Value ν) → Text → List (Value ν × Text)
  | [], _ => []
  | (_, value) :: obj, indent =>
    (value, indent) ::
      (nestedCalls value indent ++ memberCalls obj (prettyPrintAt tok value indent).2)

def elementCalls : List (Value ν) → Text → List (Value ν × Text)
  | [], _ => []
  | value :: arr, indent =>
    (value, indent) ::
      (nestedCalls value indent ++ elementCalls arr (prettyPrintAt tok value indent).2)

end

variable {tok}

theorem deeper_ne_nil (indent : Text) : deeper indent ≠ [] := by simp [deeper]

mutual

/-- A nested call finds an indent. -/
theorem nestedCalls_indent (jv : Value ν) (indent : Text) :
    ∀ call ∈ nestedCalls tok jv indent, call.2 ≠ [] := by
  cases jv with
  | object obj => exact memberCalls_indent obj (deeper_ne_nil indent)
  | array arr => exact elementCalls_indent arr (deeper_ne_nil indent)
  | string s => exact nofun
  | number n => exact nofun
  | bool b => exact nofun
  | null => exact nofun

theorem memberCalls_indent (obj : List (Text × Value ν)) {indent : Text} (h : indent ≠ []) :
    ∀ call ∈ memberCalls tok obj indent, call.2 ≠ [] := by
  match obj with
  | [] => exact nofun
  | (key, value) :: obj =>
    have hvalue := nestedCalls_indent value indent
    have hrest := memberCalls_indent obj h
    intro call hcall
    rw [memberCalls, prettyPrintAt_indent, List.mem_cons, List.mem_append] at hcall
    rcases hcall with rfl | hcall | hcall
    · exact h
    · exact hvalue call hcall
    · exact hrest call hcall

theorem elementCalls_indent (arr : List (Value ν)) {indent : Text} (h : indent ≠ []) :
    ∀ call ∈ elementCalls tok arr indent, call.2 ≠ [] := by
  match arr with
  | [] => exact nofun
  | value :: arr =>
    have hvalue := nestedCalls_indent value indent
    have hrest := elementCalls_indent arr h
    intro call hcall
    rw [elementCalls, prettyPrintAt_indent, List.mem_cons, List.mem_append] at hcall
    rcases hcall with rfl | hcall | hcall
    · exact h
    · exact hvalue call hcall
    · exact hrest call hcall

end

/-! ## The end of the output -/

theorem getLast?_ne_of_notMem {t : Text} {c : Char} (h : c ∉ t) : t.getLast? ≠ some c :=
  fun heq => h (List.mem_of_getLast? heq)

/-- What a call writes before its end does not end in a line break. -/
theorem prettyPrintAt_eq_endCall (jv : Value ν) (indent : Text) : ∃ body : Text,
    body.getLast? ≠ some '\n' ∧ (prettyPrintAt tok jv indent).1 = (endCall body indent).1 := by
  cases jv with
  | object obj =>
    refine ⟨_, ?_, prettyPrintAt_object obj indent⟩
    rw [List.getLast?_concat]
    decide
  | array arr =>
    refine ⟨_, ?_, prettyPrintAt_array arr indent⟩
    rw [List.getLast?_concat]
    decide
  | string s =>
    obtain ⟨body, -, hs⟩ := tok.string_ok s
    refine ⟨tok.string s, ?_, rfl⟩
    rw [hs, ← List.cons_append, List.getLast?_concat]
    decide
  | number n =>
    exact ⟨tok.number n, getLast?_ne_of_notMem (Text.notMem_of_all (tok.number_ok n) rfl), rfl⟩
  | bool b => exact ⟨if b then "true".toList else "false".toList, by cases b <;> decide, rfl⟩
  | null => exact ⟨"null".toList, by decide, rfl⟩

/-- A call that finds an indent does not end its line. -/
theorem prettyPrintAt_getLast? (jv : Value ν) {indent : Text} (h : indent ≠ []) :
    (prettyPrintAt tok jv indent).1.getLast? ≠ some '\n' := by
  obtain ⟨body, hbody, heq⟩ := @prettyPrintAt_eq_endCall _ tok jv indent
  rw [heq, endCall, if_neg h]
  exact hbody

/-! ## The lines -/

variable {k d : Nat} {column : Option Nat}

/-- The indent of a call inside `d` containers. -/
def indentAt (k d : Nat) : Text := List.replicate (k + 4 * d) ' '

theorem deeper_indentAt (k d : Nat) : deeper (indentAt k d) = indentAt k (d + 1) := by
  have hfour : "    ".toList = List.replicate 4 ' ' := by decide
  rw [deeper, indentAt, indentAt, hfour, List.replicate_append_replicate]
  rfl

theorem indentAt_ne_nil (k d : Nat) : indentAt k (d + 1) ≠ [] := by simp [indentAt]

/-- The column behind a call that finds this indent. -/
def columnAfter (indent : Text) : Option Nat := if indent = [] then some 0 else none

theorem endCall_lays {p : Spot} {out : Text}
    (h : Lays k p out ⟨.outside, d, none⟩) (indent : Text) :
    Lays k p (endCall out indent).1 ⟨.outside, d, columnAfter indent⟩ := by
  unfold endCall columnAfter
  by_cases hindent : indent = []
  · rw [if_pos hindent, if_pos hindent]
    exact h.append (Lays.lineBreak k d none)
  · rw [if_neg hindent, if_neg hindent]
    exact h

/-- The start of a line that is indented for what comes next. -/
theorem indentAt_lays (k d e : Nat) :
    Lays k ⟨.outside, e, some 0⟩ (indentAt k d) ⟨.outside, e, some (k + 4 * d)⟩ := by
  have hspaces := Lays.spaces k e 0 (k + 4 * d)
  rwa [Nat.zero_add] at hspaces

/-- A container: its brackets, with what is between them in lines of their own. -/
theorem container_lays {o c : Char} (hopening : isOpening o = true) (hclosing : isClosing c = true)
    (hready : Lays.Ready k d column) {inside : Text}
    (h : ∃ column, Lays k ⟨.outside, d + 1, some 0⟩ inside ⟨.outside, d + 1, column⟩) :
    Lays k ⟨.outside, d, column⟩ ([o, '\n'] ++ inside ++ "\n".toList ++ indentAt k d ++ [c])
      ⟨.outside, d, none⟩ := by
  obtain ⟨last, hinside⟩ := h
  have hfront : Lays k ⟨.outside, d, column⟩ [o, '\n'] ⟨.outside, d + 1, some 0⟩ :=
    (Lays.opening hready hopening).append (Lays.lineBreak k (d + 1) none)
  have hbreak : Lays k ⟨.outside, d + 1, last⟩ "\n".toList ⟨.outside, d + 1, some 0⟩ :=
    Lays.lineBreak k (d + 1) last
  have hindent := indentAt_lays k d (d + 1)
  have hend := Lays.closing (Lays.ready_some k d) hclosing
  exact (((hfront.append hinside).append hbreak).append hindent).append hend

/-- A separator, and the line break behind it. -/
theorem separator_lays (k d : Nat) :
    Lays k ⟨.outside, d, none⟩ ",\n".toList ⟨.outside, d, some 0⟩ :=
  (Lays.char (Lays.ready_none k d) (by decide)).append (Lays.lineBreak k d none)

/-- A key, on a line of its own. -/
theorem key_lays (htok : tok.OneLine) (k d : Nat) (key : Text) :
    Lays k ⟨.outside, d, some 0⟩ (indentAt k d ++ tok.string key ++ " : ".toList)
      ⟨.outside, d, none⟩ := by
  have hcolon : Lays k ⟨.outside, d, none⟩ " : ".toList ⟨.outside, d, none⟩ :=
    (Lays.space k d).append
      ((Lays.char (Lays.ready_none k d) (by decide)).append (Lays.space k d))
  exact ((indentAt_lays k d d).append (Lays.string htok (Lays.ready_some k d) key)).append hcolon

mutual

/-- A call at depth `d` writes lines that are laid out, and ends at depth `d`. -/
theorem prettyPrintAt_lays (htok : tok.OneLine) (jv : Value ν) {k d : Nat} {column : Option Nat}
    (hready : Lays.Ready k d column) :
    Lays k ⟨.outside, d, column⟩ (prettyPrintAt tok jv (indentAt k d)).1
      ⟨.outside, d, columnAfter (indentAt k d)⟩ := by
  cases jv with
  | object obj =>
    have hmembers := prettyMembers_lays htok obj k d
    rw [prettyPrintAt_object, deeper_indentAt]
    exact endCall_lays (container_lays rfl rfl hready hmembers) _
  | array arr =>
    have helements := prettyElements_lays htok arr k d
    rw [prettyPrintAt_array, deeper_indentAt]
    exact endCall_lays (container_lays rfl rfl hready helements) _
  | string s => exact endCall_lays (Lays.string htok hready s) _
  | number n => exact endCall_lays (Lays.number htok hready n) _
  | bool b =>
    apply endCall_lays
    cases b with
    | true => exact Lays.word hready (by decide) (by decide)
    | false => exact Lays.word hready (by decide) (by decide)
  | null => exact endCall_lays (Lays.word hready (by decide) (by decide)) _

theorem prettyMembers_lays (htok : tok.OneLine) (obj : List (Text × Value ν)) (k d : Nat) :
    ∃ column, Lays k ⟨.outside, d + 1, some 0⟩ (prettyMembers tok obj (indentAt k (d + 1))).1
      ⟨.outside, d + 1, column⟩ := by
  match obj with
  | [] => exact ⟨_, Lays.nil _⟩
  | [(key, value)] =>
    have hvalue := prettyPrintAt_lays htok value (Lays.ready_none k (d + 1))
    exact ⟨_, (key_lays htok k (d + 1) key).append hvalue⟩
  | (key, value) :: next :: obj =>
    have hvalue := prettyPrintAt_lays htok value (Lays.ready_none k (d + 1))
    obtain ⟨column, hrest⟩ := prettyMembers_lays htok (next :: obj) k d
    rw [columnAfter, if_neg (indentAt_ne_nil k d)] at hvalue
    rw [prettyMembers_cons]
    exact ⟨column, (((key_lays htok k (d + 1) key).append hvalue).append
      (separator_lays k (d + 1))).append hrest⟩

theorem prettyElements_lays (htok : tok.OneLine) (arr : List (Value ν)) (k d : Nat) :
    ∃ column, Lays k ⟨.outside, d + 1, some 0⟩ (prettyElements tok arr (indentAt k (d + 1))).1
      ⟨.outside, d + 1, column⟩ := by
  match arr with
  | [] => exact ⟨_, Lays.nil _⟩
  | [value] =>
    have hvalue := prettyPrintAt_lays htok value (Lays.ready_some k (d + 1))
    exact ⟨_, (indentAt_lays k (d + 1) (d + 1)).append hvalue⟩
  | value :: next :: arr =>
    have hvalue := prettyPrintAt_lays htok value (Lays.ready_some k (d + 1))
    obtain ⟨column, hrest⟩ := prettyElements_lays htok (next :: arr) k d
    rw [columnAfter, if_neg (indentAt_ne_nil k d)] at hvalue
    rw [prettyElements_cons]
    exact ⟨column, (((indentAt_lays k (d + 1) (d + 1)).append hvalue).append
      (separator_lays k (d + 1))).append hrest⟩

end

/-- `pretty_print` on an indent of `k` spaces leaves it as it was and writes lines that are
indented by their depth on top of it. Without an indent the output ends in one line break;
no nested call ends in one. -/
theorem prettyPrint_layout (htok : tok.OneLine) (jv : Value ν) (k : Nat) :
    let indent := List.replicate k ' '
    (prettyPrintAt tok jv indent).2 = indent ∧
      LinesIndented k (prettyPrintAt tok jv indent).1 ∧
      (k = 0 → ∃ body : Text, body.getLast? ≠ some '\n' ∧
        (prettyPrintAt tok jv indent).1 = body ++ ['\n']) ∧
      ∀ call ∈ nestedCalls tok jv indent,
        (prettyPrintAt tok call.1 call.2).1.getLast? ≠ some '\n' := by
  refine ⟨prettyPrintAt_indent jv _, ?_, ?_, ?_⟩
  · exact (prettyPrintAt_lays htok jv (Lays.ready_none k 0)).linesIndented
  · rintro rfl
    obtain ⟨body, hbody, heq⟩ := @prettyPrintAt_eq_endCall _ tok jv []
    exact ⟨body, hbody, heq⟩
  · intro call hcall
    exact prettyPrintAt_getLast? call.1 (nestedCalls_indent jv _ call hcall)

theorem prettyPrint_layout_nested :
    let jv : Value Nat := .object [("a\n".toList, .array [.null, .array []])]
    let indent := List.replicate 2 ' '
    (prettyPrintAt decimal jv indent).2 = indent ∧
      LinesIndented 2 (prettyPrintAt decimal jv indent).1 ∧
      (2 = 0 → ∃ body : Text, body.getLast? ≠ some '\n' ∧
        (prettyPrintAt decimal jv indent).1 = body ++ ['\n']) ∧
      ∀ call ∈ nestedCalls decimal jv indent,
        (prettyPrintAt decimal call.1 call.2).1.getLast? ≠ some '\n' :=
  prettyPrint_layout decimal_oneLine _ 2

end ServerAsync
