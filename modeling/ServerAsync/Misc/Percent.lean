import Mathlib.Data.List.Basic

/-!
# Percent-encoding

Texts in which some octets are written `%XY` with two hexadecimal digits. Decoding
replaces each of these by its octet, so it makes a text shorter, and leaves it as it
is exactly when nothing was encoded. In a query a plus may stand for a space as well.
-/

namespace ServerAsync.Misc.Percent

/-- The value of a hexadecimal digit. -/
def hexValue (c : Char) : Option Nat :=
  if c.isDigit then some (c.toNat - '0'.toNat)
  else if 'a' ≤ c ∧ c ≤ 'f' then some (c.toNat - 'a'.toNat + 10)
  else if 'A' ≤ c ∧ c ≤ 'F' then some (c.toNat - 'A'.toNat + 10)
  else none

/-- A text of allowed characters and encoded octets. -/
def wellEncoded (allowed : Char → Bool) : List Char → Bool
  | '%' :: a :: b :: rest =>
    (hexValue a).isSome && (hexValue b).isSome && wellEncoded allowed rest
  | c :: rest => c != '%' && allowed c && wellEncoded allowed rest
  | [] => true

/-- Replace every encoded octet by the character it stands for. -/
def decode : List Char → List Char
  | '%' :: a :: b :: rest =>
    Char.ofNat (16 * (hexValue a).getD 0 + (hexValue b).getD 0) :: decode rest
  | c :: rest => c :: decode rest
  | [] => []

theorem decode_cons {c : Char} (h : c ≠ '%') (rest : List Char) :
    decode (c :: rest) = c :: decode rest := by
  rw [decode]
  rintro a b more rfl
  exact absurd rfl h

theorem length_decode_le (t : List Char) : (decode t).length ≤ t.length := by
  fun_induction decode t with
  | case1 a b rest ih =>
    simp only [List.length_cons]
    omega
  | case2 c rest _ ih => exact Nat.succ_le_succ ih
  | case3 => exact Nat.le_refl _

theorem decode_of_notMem {t : List Char} (h : '%' ∉ t) : decode t = t := by
  induction t with
  | nil => rfl
  | cons c rest ih =>
    rw [List.mem_cons, not_or] at h
    rw [decode_cons (Ne.symm h.1), ih h.2]

/-- An encoded octet takes more room than the octet. -/
theorem length_decode_lt {allowed : Char → Bool} {t : List Char}
    (hwell : wellEncoded allowed t = true) (h : '%' ∈ t) : (decode t).length < t.length := by
  fun_induction wellEncoded allowed t with
  | case1 a b rest ih =>
    have hle := length_decode_le rest
    simp only [decode, List.length_cons]
    omega
  | case2 c rest _ ih =>
    simp only [Bool.and_eq_true, bne_iff_ne] at hwell
    obtain ⟨⟨hne, -⟩, hrest⟩ := hwell
    rcases List.mem_cons.mp h with heq | hmem
    · exact absurd heq.symm hne
    · rw [decode_cons hne]
      exact Nat.succ_lt_succ (ih hrest hmem)
  | case3 => cases h

/-- Decoding a well-encoded text keeps its length exactly when nothing is encoded. -/
theorem length_decode_eq_iff {allowed : Char → Bool} {t : List Char}
    (hwell : wellEncoded allowed t = true) : (decode t).length = t.length ↔ '%' ∉ t := by
  constructor
  · intro hlen hmem
    have hlt := length_decode_lt hwell hmem
    omega
  · intro h
    rw [decode_of_notMem h]

theorem isAlphanum_of_hexValue {c : Char} (h : (hexValue c).isSome = true) :
    c.isAlphanum = true := by
  unfold hexValue at h
  split at h
  · rename_i hdigit
    simp [Char.isAlphanum, hdigit]
  split at h
  · rename_i hlower
    have hle : c ≤ 'z' := Char.le_trans hlower.2 (by decide)
    have hlow : c.isLower = true :=
      Bool.and_eq_true_iff.mpr ⟨decide_eq_true hlower.1, decide_eq_true hle⟩
    show (c.isUpper || c.isLower || c.isDigit) = true
    rw [hlow, Bool.or_true, Bool.true_or]
  split at h
  · rename_i hupper
    have hle : c ≤ 'Z' := Char.le_trans hupper.2 (by decide)
    have hup : c.isUpper = true := decide_eq_true ⟨hupper.1, hle⟩
    show (c.isUpper || c.isLower || c.isDigit) = true
    rw [hup, Bool.true_or, Bool.true_or]
  · cases h

/-- The characters of a well-encoded text. -/
theorem mem_wellEncoded {allowed : Char → Bool} {t : List Char}
    (hwell : wellEncoded allowed t = true) {c : Char} (hc : c ∈ t) :
    allowed c = true ∨ c = '%' ∨ (hexValue c).isSome = true := by
  fun_induction wellEncoded allowed t with
  | case1 a b rest ih =>
    rw [Bool.and_eq_true, Bool.and_eq_true] at hwell
    obtain ⟨⟨ha, hb⟩, hrest⟩ := hwell
    simp only [List.mem_cons] at hc
    rcases hc with rfl | rfl | rfl | hc
    · exact Or.inr (Or.inl rfl)
    · exact Or.inr (Or.inr ha)
    · exact Or.inr (Or.inr hb)
    · exact ih hrest hc
  | case2 d rest _ ih =>
    rw [Bool.and_eq_true, Bool.and_eq_true] at hwell
    obtain ⟨⟨-, hd⟩, hrest⟩ := hwell
    rcases List.mem_cons.mp hc with rfl | hc
    · exact Or.inl hd
    · exact ih hrest hc
  | case3 => cases hc

/-! ## Plus signs -/

/-- The space that a plus stands for. -/
def spaced (c : Char) : Char := if c = '+' then ' ' else c

/-- Decoding in which a plus that is not encoded stands for a space. -/
def decodePlus (t : List Char) : List Char := decode (t.map spaced)

theorem spaced_of_hexValue {c : Char} (h : (hexValue c).isSome = true) : spaced c = c := by
  refine if_neg ?_
  rintro rfl
  exact absurd h (by decide)

theorem wellEncoded_cons {allowed : Char → Bool} {c : Char} (h : c ≠ '%') (rest : List Char) :
    wellEncoded allowed (c :: rest) = (allowed c && wellEncoded allowed rest) := by
  rw [wellEncoded]
  · rw [bne_iff_ne.mpr h, Bool.true_and]
  · rintro a b more rfl
    exact absurd rfl h

theorem wellEncoded_spaced {allowed : Char → Bool} {t : List Char}
    (hwell : wellEncoded allowed t = true) :
    wellEncoded (fun c => c == ' ' || allowed c) (t.map spaced) = true := by
  fun_induction wellEncoded allowed t with
  | case1 a b rest ih =>
    simp only [Bool.and_eq_true] at hwell
    obtain ⟨⟨ha, hb⟩, hrest⟩ := hwell
    rw [List.map_cons, List.map_cons, List.map_cons, spaced_of_hexValue ha, spaced_of_hexValue hb]
    change ((hexValue a).isSome && (hexValue b).isSome && wellEncoded _ (rest.map spaced)) = true
    rw [ha, hb, ih hrest]
    rfl
  | case2 c rest _ ih =>
    simp only [Bool.and_eq_true, bne_iff_ne] at hwell
    obtain ⟨⟨hne, hc⟩, hrest⟩ := hwell
    have hspaced : spaced c ≠ '%' ∧ (spaced c == ' ' || allowed (spaced c)) = true := by
      unfold spaced
      split
      · exact ⟨by decide, rfl⟩
      · exact ⟨hne, by rw [hc, Bool.or_true]⟩
    rw [List.map_cons, wellEncoded_cons hspaced.1, hspaced.2, ih hrest]
    rfl
  | case3 => rfl

theorem length_decodePlus_le (t : List Char) : (decodePlus t).length ≤ t.length := by
  have hle := length_decode_le (t.map spaced)
  rwa [List.length_map] at hle

/-- It keeps the length of a well-encoded text only when nothing is encoded. -/
theorem notMem_of_length_decodePlus {allowed : Char → Bool} {t : List Char}
    (hwell : wellEncoded allowed t = true) (hlen : (decodePlus t).length = t.length) :
    '%' ∉ t := by
  intro hmem
  have hspaced : spaced '%' ∈ t.map spaced := List.mem_map_of_mem hmem
  have hlt := length_decode_lt (wellEncoded_spaced hwell) hspaced
  rw [List.length_map] at hlt
  exact absurd hlen (Nat.ne_of_lt hlt)

/-- A text in which nothing is encoded stays as it is exactly when it has no plus. -/
theorem decodePlus_eq_iff {t : List Char} (h : '%' ∉ t) : decodePlus t = t ↔ '+' ∉ t := by
  have hnone : '%' ∉ t.map spaced := by
    intro hmem
    obtain ⟨c, hc, hspaced⟩ := List.mem_map.mp hmem
    unfold spaced at hspaced
    split at hspaced
    · exact absurd hspaced (by decide)
    · exact h (hspaced ▸ hc)
  rw [decodePlus, decode_of_notMem hnone]
  constructor
  · intro hsame hmem
    rw [← hsame] at hmem
    obtain ⟨c, -, hspaced⟩ := List.mem_map.mp hmem
    unfold spaced at hspaced
    split at hspaced
    · exact absurd hspaced (by decide)
    · contradiction
  · intro hplus
    have hid : ∀ c ∈ t, spaced c = id c := by
      rintro c hc
      refine if_neg ?_
      rintro rfl
      exact hplus hc
    rw [List.map_congr_left hid, List.map_id]

end ServerAsync.Misc.Percent
