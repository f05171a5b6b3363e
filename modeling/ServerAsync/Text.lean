import Mathlib.Algebra.Ring.Int.Defs
import Mathlib.Algebra.Ring.Nat
import Mathlib.Data.List.Basic
import Mathlib.Data.List.Infix

/-!
# Strings and exceptions

`std::string` and `beast::string_view` are lists of characters, one for each
`char`. Only the operations the server uses are here, under their C++ names:
`find` answers `npos` when there is nothing to find, and `substr` throws when it
starts beyond the end.
-/

namespace ServerAsync

/-- A `std::string` or `string_view`. -/
abbrev Text := List Char

/-- The exceptions that the server's code can meet. -/
inductive Exn where
  /-- `std::out_of_range`, from `substr`. -/
  | outOfRange
  /-- `boost::system::system_error`, from the constructor of `url_view`. -/
  | systemError
  deriving DecidableEq, Repr

namespace Text

/-- `std::string::npos`. -/
def npos : Nat := 2 ^ 64 - 1

/-- `find` of a single character. -/
def find (t : Text) (c : Char) : Nat :=
  (t.findIdx? (· == c)).getD npos

/-- `find(needle) != npos`. -/
def contains (t needle : Text) : Bool :=
  t.tails.any fun rest => needle.isPrefixOf rest

/-- `substr(pos, n)`. -/
def substr (t : Text) (pos n : Nat) : Except Exn Text :=
  if pos ≤ t.length then .ok ((t.drop pos).take n) else .error .outOfRange

/-- The conversion of a `size_t` to an `int`. -/
def toInt (n : Nat) : Int := Int.bmod n (2 ^ 32)

/-- The conversion of an `int` to a `size_t`. -/
def toSize (i : Int) : Nat := (i % 2 ^ 64).toNat

theorem find_of_mem {t : Text} {c : Char} (h : c ∈ t) : t.find c < t.length := by
  unfold find
  cases hfind : t.findIdx? (· == c) with
  | none =>
    have hnone := List.findIdx?_eq_none_iff.mp hfind c h
    simp at hnone
  | some i =>
    obtain ⟨hlt, -⟩ := List.findIdx?_eq_some_iff_getElem.mp hfind
    exact hlt

/-- A text of one kind of characters has none of another kind. -/
theorem notMem_of_all {t : Text} {p : Char → Bool} (h : t.all p = true) {c : Char}
    (hc : p c = false) : c ∉ t := by
  intro hmem
  rw [List.all_eq_true.mp h c hmem] at hc
  cases hc

theorem findIdx?_of_notMem {t : Text} {c : Char} (h : c ∉ t) : t.findIdx? (· == c) = none := by
  rw [List.findIdx?_eq_none_iff]
  intro x hx
  exact beq_false_of_ne fun heq => h (heq ▸ hx)

theorem find_of_notMem {t : Text} {c : Char} (h : c ∉ t) : t.find c = npos := by
  rw [find, findIdx?_of_notMem h, Option.getD_none]

/-- The first one is the one behind a text without any. -/
theorem find_append {u : Text} {c : Char} (h : c ∉ u) (v : Text) :
    find (u ++ c :: v) c = u.length := by
  rw [find, List.findIdx?_append, findIdx?_of_notMem h, List.findIdx?_cons, beq_self_eq_true]
  simp

/-- What is found is a part of the text. -/
theorem contains_iff {t needle : Text} : contains t needle = true ↔ needle <:+: t := by
  simp only [contains, List.any_eq_true, List.mem_tails, List.isPrefixOf_iff_prefix]
  constructor
  · rintro ⟨rest, hsuffix, hprefix⟩
    exact hprefix.isInfix.trans hsuffix.isInfix
  · rintro ⟨front, back, rfl⟩
    exact ⟨needle ++ back, ⟨front, by simp⟩, List.prefix_append _ _⟩

/-- An `int` holds every position in a string of less than 2^31 characters. -/
theorem toSize_toInt {n : Nat} (h : n < 2 ^ 31) : toSize (toInt n) = n := by
  have hsmall : toInt n = n := by
    unfold toInt
    rw [Int.bmod_eq_of_le_mul_two] <;> omega
  rw [hsmall]
  unfold toSize
  omega

theorem toSize_toInt_succ {n : Nat} (h : n < 2 ^ 31) : toSize (toInt n + 1) = n + 1 := by
  have hsmall : toInt n = n := by
    unfold toInt
    rw [Int.bmod_eq_of_le_mul_two] <;> omega
  rw [hsmall]
  unfold toSize
  omega

/-- `npos` becomes the `int` -1, which compares equal to `npos` again. -/
theorem toSize_toInt_npos : toSize (toInt npos) = npos := by decide

theorem substr_ok {t : Text} {pos n : Nat} (h : pos ≤ t.length) :
    t.substr pos n = .ok ((t.drop pos).take n) := if_pos h

/-- `substr(pos)` is the rest of the string. -/
theorem substr_npos {t : Text} {pos : Nat} (h : pos ≤ t.length) (hlen : t.length ≤ npos) :
    t.substr pos npos = .ok (t.drop pos) := by
  rw [substr_ok h, List.take_of_length_le]
  rw [List.length_drop]
  omega

end Text

end ServerAsync
