import Mathlib.Data.List.Infix
import Mathlib.Algebra.Ring.Int.Defs

/-!
# Decimal numerals

A number at the front of a text: blanks, perhaps a sign, and digits, as many as there are.
`scanInt` finds it and `IsInt` says what it is.
-/

namespace ServerAsync.Misc

/-- The number that digits denote. -/
def number (digits : List Char) : Nat := Nat.ofDigitChars 10 digits 0

/-- The number with a sign, which may be empty. -/
def signed (sign : List Char) (n : Nat) : Int := if sign = ['-'] then -n else n

/-- A sign at the front of a text, and the text behind it. -/
def splitSign : List Char → List Char × List Char
  | '+' :: t => (['+'], t)
  | '-' :: t => (['-'], t)
  | t => ([], t)

/-- The number at the front of a text, `none` when there are no digits. -/
def scanInt (blank : Char → Bool) (t : List Char) : Option Int :=
  let (sign, t) := splitSign (t.dropWhile blank)
  let digits := t.takeWhile Char.isDigit
  if digits = [] then none else some (signed sign (number digits))

/-- A text with a number at its front. -/
inductive IsInt (blank : Char → Bool) : List Char → Int → Prop
  | mk {blanks sign digits rest : List Char} (hblanks : ∀ c ∈ blanks, blank c = true)
      (hsign : sign ∈ [[], ['+'], ['-']]) (hne : digits ≠ [])
      (hdigits : ∀ c ∈ digits, c.isDigit = true) (hrest : ∀ c ∈ rest.head?, c.isDigit = false) :
      IsInt blank (blanks ++ (sign ++ (digits ++ rest))) (signed sign (number digits))

theorem splitSign_spec (t : List Char) :
    (splitSign t).1 ∈ [[], ['+'], ['-']] ∧ (splitSign t).1 ++ (splitSign t).2 = t := by
  fun_cases splitSign t with
  | case1 t => exact ⟨by simp, rfl⟩
  | case2 t => exact ⟨by simp, rfl⟩
  | case3 t hplus hminus => exact ⟨by simp, rfl⟩

theorem splitSign_append {sign : List Char} (hsign : sign ∈ [[], ['+'], ['-']]) {c : Char}
    (hc : c.isDigit = true) (t : List Char) : splitSign (sign ++ c :: t) = (sign, c :: t) := by
  simp only [List.mem_cons, List.not_mem_nil, or_false] at hsign
  rcases hsign with rfl | rfl | rfl
  · rw [List.nil_append, splitSign]
    · rintro u heq
      rw [List.head_eq_of_cons_eq heq] at hc
      cases hc
    · rintro u heq
      rw [List.head_eq_of_cons_eq heq] at hc
      cases hc
  · rfl
  · rfl

theorem takeWhile_digits {digits rest : List Char} (hdigits : ∀ c ∈ digits, c.isDigit = true)
    (hrest : ∀ c ∈ rest.head?, c.isDigit = false) :
    (digits ++ rest).takeWhile Char.isDigit = digits := by
  rw [List.takeWhile_append_of_pos hdigits]
  cases rest with
  | nil => exact List.append_nil digits
  | cons c rest =>
    have hc := hrest c rfl
    rw [List.takeWhile_cons_of_neg (by rw [hc]; exact Bool.false_ne_true), List.append_nil]

/-- What is found is what is there. -/
theorem scanInt_eq_some_iff {blank : Char → Bool}
    (hblank : ∀ c, blank c = true → c ∉ ['+', '-'] ∧ c.isDigit = false) {t : List Char} {i : Int} :
    scanInt blank t = some i ↔ IsInt blank t i := by
  constructor
  · intro h
    unfold scanInt at h
    obtain ⟨hsign, hsplit⟩ := splitSign_spec (t.dropWhile blank)
    generalize hpair : splitSign (t.dropWhile blank) = pair at h hsign hsplit
    obtain ⟨sign, u⟩ := pair
    dsimp only at h hsign hsplit
    split at h
    · cases h
    · rename_i hne
      have htext : t = t.takeWhile blank ++
          (sign ++ (u.takeWhile Char.isDigit ++ u.dropWhile Char.isDigit)) := by
        rw [List.takeWhile_append_dropWhile, hsplit, List.takeWhile_append_dropWhile]
      rw [← Option.some.inj h, htext]
      refine IsInt.mk ?_ hsign hne ?_ ?_
      · exact List.all_eq_true.mp List.all_takeWhile
      · exact List.all_eq_true.mp List.all_takeWhile
      · intro c hc
        have hrest := List.head?_dropWhile_not Char.isDigit u
        rwa [Option.mem_def.mp hc] at hrest
  · rintro ⟨hblanks, hsign, hne, hdigits, hrest⟩
    rename_i blanks sign digits rest
    obtain ⟨c, more, rfl⟩ := List.exists_cons_of_ne_nil hne
    have hc := hdigits c List.mem_cons_self
    have hstart : (sign ++ (c :: more ++ rest)).dropWhile blank = sign ++ (c :: more ++ rest) := by
      have hnot : ∀ d, blank d = true → d ≠ '+' ∧ d ≠ '-' ∧ d ≠ c := by
        intro d hd
        obtain ⟨hsigns, hdigit⟩ := hblank d hd
        simp only [List.mem_cons, List.not_mem_nil, or_false, not_or] at hsigns
        refine ⟨hsigns.1, hsigns.2, ?_⟩
        rintro rfl
        rw [hc] at hdigit
        cases hdigit
      simp only [List.mem_cons, List.not_mem_nil, or_false] at hsign
      rcases hsign with rfl | rfl | rfl
      · exact List.dropWhile_cons_of_neg fun hd => (hnot c hd).2.2 rfl
      · exact List.dropWhile_cons_of_neg fun hd => (hnot '+' hd).1 rfl
      · exact List.dropWhile_cons_of_neg fun hd => (hnot '-' hd).2.1 rfl
    rw [scanInt, List.dropWhile_append_of_pos hblanks, hstart, List.cons_append,
      splitSign_append hsign hc]
    dsimp only
    rw [← List.cons_append, takeWhile_digits hdigits hrest, if_neg hne]

/-- A text has one number at its front. -/
theorem IsInt.unique {blank : Char → Bool}
    (hblank : ∀ c, blank c = true → c ∉ ['+', '-'] ∧ c.isDigit = false) {t : List Char} {i j : Int}
    (h : IsInt blank t i) (h' : IsInt blank t j) : i = j := by
  have hi := (scanInt_eq_some_iff hblank).mpr h
  rw [(scanInt_eq_some_iff hblank).mpr h'] at hi
  exact (Option.some.inj hi).symm

theorem IsInt.exists_digit {blank : Char → Bool} {t : List Char} {i : Int} (h : IsInt blank t i) :
    ∃ c ∈ t, c.isDigit = true := by
  cases h with
  | @mk blanks sign digits rest hblanks hsign hne hdigits hrest =>
    obtain ⟨c, hc⟩ := List.exists_mem_of_ne_nil digits hne
    exact ⟨c, by simp [hc], hdigits c hc⟩

end ServerAsync.Misc
