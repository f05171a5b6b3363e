import Mathlib.Data.List.Infix

/-!
# JSON

Values over some type of numbers, their compact serialization, and their texts: a text of
a value is what the JSON grammar derives for it, with white space around values, keys and
separators. How a string and a number are written is left to `Tokens`. White space makes
no difference: what remains of a text without it is the compact serialization
(`IsText.strips`).
-/

namespace ServerAsync.Misc.Json

/-- JSON values. The members of an object are in the order in which they are kept. -/
inductive Value (ν : Type*) where
  | null
  | bool (b : Bool)
  | number (n : ν)
  | string (s : List Char)
  | array (elements : List (Value ν))
  | object (members : List (List Char × Value ν))

mutual

/-- No object has two members under one key. -/
def Value.keysDistinct {ν : Type*} : Value ν → Bool
  | .array vs => elementsDistinct vs
  | .object ms => decide (ms.map Prod.fst).Nodup && membersDistinct ms
  | _ => true

def elementsDistinct {ν : Type*} : List (Value ν) → Bool
  | [] => true
  | v :: vs => v.keysDistinct && elementsDistinct vs

def membersDistinct {ν : Type*} : List (List Char × Value ν) → Bool
  | [] => true
  | (_, v) :: ms => v.keysDistinct && membersDistinct ms

end

/-! ## White space -/

/-- The white space that is used here. -/
def isBlank (c : Char) : Bool := c == ' ' || c == '\n'

/-- A character of a number, a literal or a separator. -/
def isPlain (c : Char) : Bool := c != '"' && !isBlank c

def Blank (t : List Char) : Prop := ∀ c ∈ t, isBlank c = true

instance (t : List Char) : Decidable (Blank t) :=
  decidable_of_iff (t.all isBlank = true) List.all_eq_true

theorem Blank.append {t u : List Char} (h : Blank t) (h' : Blank u) : Blank (t ++ u) := by
  intro c hc
  rcases List.mem_append.mp hc with hc | hc
  · exact h c hc
  · exact h' c hc

/-- Where a text stands: outside strings, in a string, or behind a backslash in one. -/
inductive Mode where
  | outside
  | string
  | escape
  deriving DecidableEq, Repr

def Mode.next : Mode → Char → Mode
  | .outside, c => if c = '"' then .string else .outside
  | .string, c => if c = '"' then .outside else if c = '\\' then .escape else .string
  | .escape, _ => .string

def Mode.after (m : Mode) (t : List Char) : Mode := t.foldl Mode.next m

/-- A text without the white space outside its strings. -/
def strip : Mode → List Char → List Char
  | _, [] => []
  | m, c :: t =>
    if m = .outside ∧ isBlank c = true then strip m t else c :: strip (m.next c) t

theorem Mode.after_cons (m : Mode) (c : Char) (t : List Char) :
    m.after (c :: t) = (m.next c).after t := rfl

theorem Mode.after_append (m : Mode) (t u : List Char) : m.after (t ++ u) = (m.after t).after u :=
  List.foldl_append

theorem Mode.next_of_isBlank {c : Char} (h : isBlank c = true) :
    Mode.outside.next c = .outside := by
  have hquote : c ≠ '"' := by
    rintro rfl
    cases h
  exact if_neg hquote

theorem strip_append (m : Mode) (t u : List Char) :
    strip m (t ++ u) = strip m t ++ strip (m.after t) u := by
  induction t generalizing m with
  | nil => rfl
  | cons c t ih =>
    rw [List.cons_append, strip, strip, Mode.after_cons]
    by_cases h : m = .outside ∧ isBlank c = true
    · obtain ⟨rfl, hc⟩ := h
      rw [if_pos ⟨rfl, hc⟩, if_pos ⟨rfl, hc⟩, ih, Mode.next_of_isBlank hc]
    · rw [if_neg h, if_neg h, ih, List.cons_append]

/-- A text that starts and ends outside strings, and what it is without white space. -/
structure Strips (t u : List Char) : Prop where
  closed : Mode.outside.after t = .outside
  eq : strip .outside t = u

namespace Strips

variable {t t' u u' : List Char}

theorem nil : Strips [] [] := ⟨rfl, rfl⟩

theorem append (h : Strips t u) (h' : Strips t' u') : Strips (t ++ t') (u ++ u') where
  closed := by rw [Mode.after_append, h.closed, h'.closed]
  eq := by rw [strip_append, h.closed, h.eq, h'.eq]

theorem cons {c : Char} (hc : isPlain c = true) (h : Strips t u) :
    Strips (c :: t) (c :: u) := by
  rw [isPlain, Bool.and_eq_true, bne_iff_ne, Bool.not_eq_true'] at hc
  obtain ⟨hquote, hblank⟩ := hc
  have hnext : Mode.outside.next c = .outside := if_neg hquote
  constructor
  · rw [Mode.after_cons, hnext, h.closed]
  · rw [strip, if_neg (by simp [hblank]), hnext, h.eq]

theorem word (h : t.all isPlain = true) : Strips t t := by
  induction t with
  | nil => exact nil
  | cons c t ih =>
    rw [List.all_cons, Bool.and_eq_true] at h
    exact cons h.1 (ih h.2)

theorem blank (h : Blank t) : Strips t [] := by
  induction t with
  | nil => exact nil
  | cons c t ih =>
    have hc := h c List.mem_cons_self
    obtain ⟨hclosed, heq⟩ := ih fun d hd => h d (List.mem_cons_of_mem c hd)
    constructor
    · rw [Mode.after_cons, Mode.next_of_isBlank hc, hclosed]
    · rw [strip, if_pos ⟨rfl, hc⟩, heq]

end Strips

/-! ## Serialization -/

/-- What may stand between the quotes of a string: a quote or a backslash only behind a
backslash. -/
inductive IsBody : List Char → Prop where
  | nil : IsBody []
  | char {c : Char} {t : List Char} (hquote : c ≠ '"') (hescape : c ≠ '\\') :
      IsBody t → IsBody (c :: t)
  | escape (c : Char) {t : List Char} : IsBody t → IsBody ('\\' :: c :: t)

/-- How the strings and the numbers of a value are written. -/
structure Tokens (ν : Type*) where
  string : List Char → List Char
  number : ν → List Char
  string_ok : ∀ s, ∃ body, IsBody body ∧ string s = '"' :: (body ++ ['"'])
  number_ok : ∀ n, (number n).all isPlain = true

variable {ν : Type*} (tok : Tokens ν)

mutual

/-- The serialization without white space. -/
def compact : Value ν → List Char
  | .null => "null".toList
  | .bool b => if b then "true".toList else "false".toList
  | .number n => tok.number n
  | .string s => tok.string s
  | .array vs => '[' :: ([','].intercalate (compactElements vs) ++ [']'])
  | .object ms => '{' :: ([','].intercalate (compactMembers ms) ++ ['}'])

def compactElements : List (Value ν) → List (List Char)
  | [] => []
  | v :: vs => compact v :: compactElements vs

def compactMembers : List (List Char × Value ν) → List (List Char)
  | [] => []
  | (key, v) :: ms => (tok.string key ++ ':' :: compact v) :: compactMembers ms

end

theorem intercalate_compactElements_cons (v w : Value ν) (vs : List (Value ν)) :
    [','].intercalate (compactElements tok (v :: w :: vs)) =
      compact tok v ++ ',' :: [','].intercalate (compactElements tok (w :: vs)) := by
  rw [compactElements, compactElements, List.intercalate_cons_cons, List.append_assoc]
  rfl

theorem intercalate_compactMembers_cons (key : List Char) (v : Value ν)
    (m : List Char × Value ν) (ms : List (List Char × Value ν)) :
    [','].intercalate (compactMembers tok ((key, v) :: m :: ms)) =
      tok.string key ++ ':' :: compact tok v ++
        ',' :: [','].intercalate (compactMembers tok (m :: ms)) := by
  rw [compactMembers, compactMembers, List.intercalate_cons_cons, List.append_assoc]
  rfl

theorem Strips.body {body t u : List Char} (h : IsBody body) (hrest : Strips t u) :
    Mode.string.after (body ++ '"' :: t) = .outside ∧
      strip .string (body ++ '"' :: t) = body ++ '"' :: u := by
  induction h with
  | nil => exact ⟨hrest.closed, congrArg (List.cons '"') hrest.eq⟩
  | @char c body hquote hescape _ ih =>
    have hnext : Mode.string.next c = .string := by
      rw [Mode.next, if_neg hquote, if_neg hescape]
    rw [List.cons_append, Mode.after_cons, strip, if_neg (by simp), hnext, ih.2]
    exact ⟨ih.1, rfl⟩
  | escape c _ ih => exact ⟨ih.1, congrArg (fun t => '\\' :: c :: t) ih.2⟩

theorem Strips.string (s : List Char) : Strips (tok.string s) (tok.string s) := by
  obtain ⟨body, hbody, hs⟩ := tok.string_ok s
  obtain ⟨hclosed, heq⟩ := Strips.body hbody Strips.nil
  rw [hs]
  exact ⟨hclosed, congrArg (List.cons '"') heq⟩

theorem Strips.number (n : ν) : Strips (tok.number n) (tok.number n) :=
  Strips.word (tok.number_ok n)

/-! ## Texts -/

mutual

/-- The texts of a value. -/
inductive IsText : Value ν → List Char → Prop where
  | null : IsText .null "null".toList
  | bool (b : Bool) : IsText (.bool b) (if b then "true".toList else "false".toList)
  | number (n : ν) : IsText (.number n) (tok.number n)
  | string (s : List Char) : IsText (.string s) (tok.string s)
  | array {vs : List (Value ν)} {t : List Char} (h : IsElements vs t) :
      IsText (.array vs) ('[' :: (t ++ [']']))
  | object {ms : List (List Char × Value ν)} {t : List Char} (h : IsMembers ms t) :
      IsText (.object ms) ('{' :: (t ++ ['}']))
  | padded {v : Value ν} {l t r : List Char} (hl : Blank l) (h : IsText v t) (hr : Blank r) :
      IsText v (l ++ t ++ r)

inductive IsElements : List (Value ν) → List Char → Prop where
  | nil : IsElements [] []
  | one {v : Value ν} {t : List Char} (h : IsText v t) : IsElements [v] t
  | cons {v w : Value ν} {vs : List (Value ν)} {t u : List Char} (h : IsText v t)
      (hrest : IsElements (w :: vs) u) : IsElements (v :: w :: vs) (t ++ ',' :: u)
  | padded {vs : List (Value ν)} {l t r : List Char} (hl : Blank l) (h : IsElements vs t)
      (hr : Blank r) : IsElements vs (l ++ t ++ r)

inductive IsMember : List Char → Value ν → List Char → Prop where
  | mk (key : List Char) {v : Value ν} {l r t : List Char} (hl : Blank l) (hr : Blank r)
      (h : IsText v t) : IsMember key v (l ++ tok.string key ++ r ++ ':' :: t)

inductive IsMembers : List (List Char × Value ν) → List Char → Prop where
  | nil : IsMembers [] []
  | one {key : List Char} {v : Value ν} {t : List Char} (h : IsMember key v t) :
      IsMembers [(key, v)] t
  | cons {key : List Char} {v : Value ν} {m : List Char × Value ν}
      {ms : List (List Char × Value ν)} {t u : List Char} (h : IsMember key v t)
      (hrest : IsMembers (m :: ms) u) : IsMembers ((key, v) :: m :: ms) (t ++ ',' :: u)
  | padded {ms : List (List Char × Value ν)} {l t r : List Char} (hl : Blank l)
      (h : IsMembers ms t) (hr : Blank r) : IsMembers ms (l ++ t ++ r)

end

variable {tok}

theorem IsText.blank_append {v : Value ν} {l t : List Char} (hl : Blank l) (h : IsText tok v t) :
    IsText tok v (l ++ t) := by
  have hpadded := IsText.padded (r := []) hl h (by decide)
  rwa [List.append_nil] at hpadded

theorem IsElements.blank_append {vs : List (Value ν)} {l t : List Char} (hl : Blank l)
    (h : IsElements tok vs t) : IsElements tok vs (l ++ t) := by
  have hpadded := IsElements.padded (r := []) hl h (by decide)
  rwa [List.append_nil] at hpadded

theorem IsMembers.blank_append {ms : List (List Char × Value ν)} {l t : List Char} (hl : Blank l)
    (h : IsMembers tok ms t) : IsMembers tok ms (l ++ t) := by
  have hpadded := IsMembers.padded (r := []) hl h (by decide)
  rwa [List.append_nil] at hpadded

/-- Brackets around, and separators between, what white space has been taken from. -/
theorem Strips.bracket {c d : Char} {t u : List Char} (hc : isPlain c = true)
    (hd : isPlain d = true) (h : Strips t u) : Strips (c :: (t ++ [d])) (c :: (u ++ [d])) :=
  Strips.cons hc (h.append (Strips.cons hd Strips.nil))

theorem Strips.pad {l t r u : List Char} (hl : Blank l) (h : Strips t u) (hr : Blank r) :
    Strips (l ++ t ++ r) u := by
  have hwhole := ((Strips.blank hl).append h).append (Strips.blank hr)
  rwa [List.nil_append, List.append_nil] at hwhole

theorem Strips.separated {t u t' u' : List Char} {c : Char} (hc : isPlain c = true)
    (h : Strips t u) (h' : Strips t' u') : Strips (t ++ c :: t') (u ++ c :: u') :=
  h.append (Strips.cons hc h')

mutual

/-- Without its white space, a text of a value is its compact serialization. -/
theorem IsText.strips {v : Value ν} {t : List Char} : IsText tok v t → Strips t (compact tok v)
  | .null => Strips.word (by decide)
  | .bool true => Strips.word (by decide)
  | .bool false => Strips.word (by decide)
  | .number n => Strips.number tok n
  | .string s => Strips.string tok s
  | .array h => Strips.bracket (by decide) (by decide) h.strips
  | .object h => Strips.bracket (by decide) (by decide) h.strips
  | .padded hl h hr => Strips.pad hl h.strips hr

theorem IsElements.strips {vs : List (Value ν)} {t : List Char} :
    IsElements tok vs t → Strips t ([','].intercalate (compactElements tok vs))
  | .nil => Strips.nil
  | .one h => by
    rw [compactElements, compactElements, List.intercalate_singleton]
    exact h.strips
  | .cons h hrest => by
    rw [intercalate_compactElements_cons]
    exact Strips.separated (by decide) h.strips hrest.strips
  | .padded hl h hr => Strips.pad hl h.strips hr

theorem IsMember.strips {key : List Char} {v : Value ν} {t : List Char} :
    IsMember tok key v t → Strips t (tok.string key ++ ':' :: compact tok v)
  | .mk key hl hr h =>
    Strips.separated (by decide) (Strips.pad hl (Strips.string tok key) hr) h.strips

theorem IsMembers.strips {ms : List (List Char × Value ν)} {t : List Char} :
    IsMembers tok ms t → Strips t ([','].intercalate (compactMembers tok ms))
  | .nil => Strips.nil
  | .one h => by
    rw [compactMembers, compactMembers, List.intercalate_singleton]
    exact h.strips
  | .cons h hrest => by
    rw [intercalate_compactMembers_cons]
    exact Strips.separated (by decide) h.strips hrest.strips
  | .padded hl h hr => Strips.pad hl h.strips hr

end

end ServerAsync.Misc.Json
