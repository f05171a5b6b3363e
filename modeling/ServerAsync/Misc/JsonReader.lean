import ServerAsync.Misc.Json

/-!
# A reader

Values with natural numbers, written in decimal, and a recursive descent over compact
serializations that gives them back. The recursion is on a number of steps, and as many as
the text has characters are enough.
-/

namespace ServerAsync.Misc.Json

/-! ## Tokens -/

/-- The characters that are written behind a backslash, and the character that stands
there. -/
def escapes : List (Char × Char) :=
  [('"', '"'), ('\\', '\\'), ('\x08', 'b'), ('\x0c', 'f'), ('\n', 'n'), ('\r', 'r'), ('\t', 't')]

def escape (c : Char) : List Char :=
  match escapes.find? (·.1 == c) with
  | some e => ['\\', e.2]
  | none => [c]

def unescape (c : Char) : Char :=
  match escapes.find? (·.2 == c) with
  | some e => e.1
  | none => c

/-- A string up to its closing quote, and what is behind it. -/
def readBody : List Char → Option (List Char × List Char)
  | [] => none
  | '"' :: t => some ([], t)
  | '\\' :: c :: t => (readBody t).map fun r => (unescape c :: r.1, r.2)
  | c :: t => (readBody t).map fun r => (c :: r.1, r.2)

theorem escape_eq (c : Char) :
    (∃ d, escape c = ['\\', d] ∧ unescape d = c) ∨ (escape c = [c] ∧ c ≠ '"' ∧ c ≠ '\\') := by
  unfold escape
  cases hfind : escapes.find? (·.1 == c) with
  | some e =>
    have hmem := List.mem_of_find?_eq_some hfind
    have hc := List.find?_some hfind
    have hback : ∀ e ∈ escapes, unescape e.2 = e.1 := by decide
    exact Or.inl ⟨e.2, rfl, (hback e hmem).trans (beq_iff_eq.mp hc)⟩
  | none =>
    rw [List.find?_eq_none] at hfind
    refine Or.inr ⟨rfl, ?_, ?_⟩
    · rintro rfl
      exact hfind ('"', '"') (by decide) rfl
    · rintro rfl
      exact hfind ('\\', '\\') (by decide) rfl

theorem isBody_escape (s : List Char) : IsBody (s.flatMap escape) := by
  induction s with
  | nil => exact IsBody.nil
  | cons c s ih =>
    rw [List.flatMap_cons]
    rcases escape_eq c with ⟨d, heq, -⟩ | ⟨heq, hquote, hescape⟩
    · rw [heq]
      exact IsBody.escape d ih
    · rw [heq]
      exact IsBody.char hquote hescape ih

theorem readBody_escape (s t : List Char) :
    readBody (s.flatMap escape ++ '"' :: t) = some (s, t) := by
  induction s with
  | nil => rfl
  | cons c s ih =>
    rw [List.flatMap_cons, List.append_assoc]
    rcases escape_eq c with ⟨d, heq, hback⟩ | ⟨heq, hquote, hescape⟩
    · rw [heq, List.cons_append, List.cons_append, List.nil_append, readBody, ih, Option.map_some,
        hback]
    · rw [heq, List.singleton_append, readBody, ih, Option.map_some]
      · exact hquote
      · intro d u hc _
        exact hescape hc

/-- Strings with the escapes above, and numbers in decimal. -/
def decimal : Tokens Nat where
  string s := '"' :: (s.flatMap escape ++ ['"'])
  number n := Nat.toDigits 10 n
  string_ok s := ⟨s.flatMap escape, isBody_escape s, rfl⟩
  number_ok n := by
    rw [List.all_eq_true]
    intro c hc
    have hdigit := Nat.isDigit_of_mem_toDigits (by decide) (by decide) hc
    rw [isPlain, isBlank, Bool.and_eq_true, Bool.not_eq_true', Bool.or_eq_false_iff, bne_iff_ne,
      beq_eq_false_iff_ne, beq_eq_false_iff_ne]
    refine ⟨?_, ?_, ?_⟩
    · rintro rfl
      cases hdigit
    · rintro rfl
      cases hdigit
    · rintro rfl
      cases hdigit

theorem readBody_string (s t : List Char) :
    readBody ((decimal.string s ++ t).drop 1) = some (s, t) := by
  change readBody (s.flatMap escape ++ ['"'] ++ t) = _
  rw [List.append_assoc, List.singleton_append, readBody_escape]

/-! ## Values -/

/-- The words for values. -/
def words : List (List Char × Value Nat) :=
  [("null".toList, .null), ("true".toList, .bool true), ("false".toList, .bool false)]

def readWord (t : List Char) : Option (Value Nat × List Char) :=
  (words.find? fun w => w.1.isPrefixOf t).map fun w => (w.2, t.drop w.1.length)

def readNumber (t : List Char) : Value Nat × List Char :=
  (.number (Nat.ofDigitChars 10 (t.takeWhile Char.isDigit) 0), t.dropWhile Char.isDigit)

/-- What has been read between brackets; if nothing, the closing bracket. -/
def orClosed {α : Type*} (bracket : Char) (t : List Char) :
    Option (List α × List Char) → Option (List α × List Char)
  | some r => some r
  | none => if t.head? = some bracket then some ([], t.drop 1) else none

mutual

/-- A value at the start of a text, and what is behind it. -/
def read : Nat → List Char → Option (Value Nat × List Char)
  | 0, _ => none
  | _ + 1, [] => none
  | n + 1, c :: t =>
    if c.isDigit then some (readNumber (c :: t))
    else if c = '"' then (readBody t).map fun r => (.string r.1, r.2)
    else if c = '[' then
      (orClosed ']' t (readElements n t)).map fun r => (.array r.1, r.2)
    else if c = '{' then
      (orClosed '}' t (readMembers n t)).map fun r => (.object r.1, r.2)
    else readWord (c :: t)

/-- The elements of an array, at least one. -/
def readElements : Nat → List Char → Option (List (Value Nat) × List Char)
  | 0, _ => none
  | n + 1, t => (read n t).bind fun
    | (v, ',' :: t) => (readElements n t).map fun r => (v :: r.1, r.2)
    | (v, ']' :: t) => some ([v], t)
    | _ => none

/-- The members of an object, at least one. -/
def readMembers : Nat → List Char → Option (List (List Char × Value Nat) × List Char)
  | 0, _ => none
  | n + 1, t =>
    (if t.head? = some '"' then readBody (t.drop 1) else none).bind fun
    | (key, ':' :: t) => (read n t).bind fun
      | (v, ',' :: t) => (readMembers n t).map fun r => ((key, v) :: r.1, r.2)
      | (v, '}' :: t) => some ([(key, v)], t)
      | _ => none
    | _ => none

end

/-- The value that a text without white space is the serialization of. -/
def readAll (t : List Char) : Option (Value Nat) :=
  (read (t.length + 1) t).bind fun r => if r.2 = [] then some r.1 else none

/-- What is behind a value: nothing that would make a number longer. -/
def Ends (t : List Char) : Prop := ∀ c, t.head? = some c → c.isDigit = false

theorem readNumber_toDigits (k : Nat) {t : List Char} (h : Ends t) :
    readNumber (Nat.toDigits 10 k ++ t) = (.number k, t) := by
  have hdigits : ∀ c ∈ Nat.toDigits 10 k, c.isDigit = true := fun c hc =>
    Nat.isDigit_of_mem_toDigits (by decide) (by decide) hc
  have hend : t.takeWhile Char.isDigit = [] ∧ t.dropWhile Char.isDigit = t := by
    cases t with
    | nil => exact ⟨rfl, rfl⟩
    | cons c t =>
      have hc := h c rfl
      constructor
      · rw [List.takeWhile_cons, hc]
        rfl
      · rw [List.dropWhile_cons, hc]
        rfl
  unfold readNumber
  rw [List.takeWhile_append_of_pos hdigits, List.dropWhile_append_of_pos hdigits, hend.1, hend.2,
    List.append_nil, Nat.ofDigitChars_ten_toDigits]

theorem read_number (k n : Nat) {t : List Char} (h : Ends t) :
    read (n + 1) (Nat.toDigits 10 k ++ t) = some (.number k, t) := by
  have hnumber := readNumber_toDigits k h
  cases hk : Nat.toDigits 10 k with
  | nil => exact absurd hk Nat.toDigits_ne_nil
  | cons c ds =>
    have hc : c.isDigit = true :=
      Nat.isDigit_of_mem_toDigits (by decide) (by decide) (hk ▸ List.mem_cons_self)
    rw [hk] at hnumber
    rw [List.cons_append, read, if_pos hc, ← List.cons_append, hnumber]

theorem read_string (s : List Char) (n : Nat) (t : List Char) :
    read (n + 1) (decimal.string s ++ t) = some (.string s, t) := by
  have hbody := readBody_string s t
  change (readBody ((decimal.string s ++ t).drop 1)).map _ = _
  rw [hbody]
  rfl

theorem read_array {n : Nat} {t u : List Char} {vs : List (Value Nat)}
    (h : orClosed ']' t (readElements n t) = some (vs, u)) :
    read (n + 1) ('[' :: t) = some (.array vs, u) := by
  change (orClosed ']' t (readElements n t)).map _ = _
  rw [h]
  rfl

theorem read_object {n : Nat} {t u : List Char} {ms : List (List Char × Value Nat)}
    (h : orClosed '}' t (readMembers n t) = some (ms, u)) :
    read (n + 1) ('{' :: t) = some (.object ms, u) := by
  change (orClosed '}' t (readMembers n t)).map _ = _
  rw [h]
  rfl

theorem readElements_closed (n : Nat) (t : List Char) : readElements n (']' :: t) = none := by
  match n with
  | 0 => rfl
  | 1 => rfl
  | n + 2 => rfl

theorem readMembers_closed (n : Nat) (t : List Char) : readMembers n ('}' :: t) = none := by
  cases n with
  | zero => rfl
  | succ n => rfl

theorem readElements_last {n : Nat} {t u : List Char} {v : Value Nat}
    (h : read n t = some (v, ']' :: u)) : readElements (n + 1) t = some ([v], u) := by
  change (read n t).bind _ = _
  rw [h]
  rfl

theorem readElements_cons {n : Nat} {t u w : List Char} {v : Value Nat} {vs : List (Value Nat)}
    (h : read n t = some (v, ',' :: u)) (hrest : readElements n u = some (vs, w)) :
    readElements (n + 1) t = some (v :: vs, w) := by
  change (read n t).bind _ = _
  rw [h]
  change (readElements n u).map _ = _
  rw [hrest]
  rfl

theorem readMembers_last {n : Nat} {t u : List Char} {key : List Char} {v : Value Nat}
    (h : read n t = some (v, '}' :: u)) :
    readMembers (n + 1) (decimal.string key ++ ':' :: t) = some ([(key, v)], u) := by
  have hkey := readBody_string key (':' :: t)
  change (readBody ((decimal.string key ++ ':' :: t).drop 1)).bind _ = _
  rw [hkey]
  change (read n t).bind _ = _
  rw [h]
  rfl

theorem readMembers_cons {n : Nat} {t u w : List Char} {key : List Char} {v : Value Nat}
    {ms : List (List Char × Value Nat)}
    (h : read n t = some (v, ',' :: u)) (hrest : readMembers n u = some (ms, w)) :
    readMembers (n + 1) (decimal.string key ++ ':' :: t) = some ((key, v) :: ms, w) := by
  have hkey := readBody_string key (':' :: t)
  change (readBody ((decimal.string key ++ ':' :: t).drop 1)).bind _ = _
  rw [hkey]
  change (read n t).bind _ = _
  rw [h]
  change (readMembers n u).map _ = _
  rw [hrest]
  rfl

theorem ends_cons {c : Char} (h : c.isDigit = false) (t : List Char) : Ends (c :: t) := by
  intro d hd
  rw [List.head?_cons, Option.some.injEq] at hd
  rw [← hd, h]

mutual

theorem read_compact (v : Value Nat) {n : Nat} {t : List Char}
    (hn : (compact decimal v).length < n) (ht : Ends t) :
    read n (compact decimal v ++ t) = some (v, t) := by
  cases n with
  | zero => cases hn
  | succ n =>
    match v with
    | .null => rfl
    | .bool true => rfl
    | .bool false => rfl
    | .number k => exact read_number k n ht
    | .string s => exact read_string s n t
    | .array [] =>
      apply read_array
      change orClosed ']' (']' :: t) (readElements n (']' :: t)) = _
      rw [readElements_closed]
      rfl
    | .array (v :: vs) =>
      rw [compact, List.length_cons, List.length_append] at hn
      have helements := readElements_compact (v :: vs) (n := n) (t := t) (List.cons_ne_nil v vs)
        (by simpa using hn)
      rw [compact, List.cons_append, List.append_assoc, List.singleton_append]
      apply read_array
      rw [helements]
      rfl
    | .object [] =>
      apply read_object
      change orClosed '}' ('}' :: t) (readMembers n ('}' :: t)) = _
      rw [readMembers_closed]
      rfl
    | .object (m :: ms) =>
      rw [compact, List.length_cons, List.length_append] at hn
      have hmembers := readMembers_compact (m :: ms) (n := n) (t := t) (List.cons_ne_nil m ms)
        (by simpa using hn)
      rw [compact, List.cons_append, List.append_assoc, List.singleton_append]
      apply read_object
      rw [hmembers]
      rfl

theorem readElements_compact (vs : List (Value Nat)) {n : Nat} {t : List Char} (hne : vs ≠ [])
    (hn : ([','].intercalate (compactElements decimal vs)).length + 1 < n) :
    readElements n ([','].intercalate (compactElements decimal vs) ++ ']' :: t) =
      some (vs, t) := by
  cases n with
  | zero => cases hn
  | succ n =>
    match vs with
    | [] => exact absurd rfl hne
    | [v] =>
      rw [compactElements, compactElements, List.intercalate_singleton] at hn ⊢
      exact readElements_last (read_compact v (by omega) (ends_cons (by decide) t))
    | v :: w :: vs =>
      rw [intercalate_compactElements_cons, List.length_append, List.length_cons] at hn
      have hrest := readElements_compact (w :: vs) (n := n) (t := t) (List.cons_ne_nil w vs)
        (by omega)
      rw [intercalate_compactElements_cons, List.append_assoc, List.cons_append]
      exact readElements_cons (read_compact v (by omega) (ends_cons (by decide) _)) hrest

theorem readMembers_compact (ms : List (List Char × Value Nat)) {n : Nat} {t : List Char}
    (hne : ms ≠ []) (hn : ([','].intercalate (compactMembers decimal ms)).length + 1 < n) :
    readMembers n ([','].intercalate (compactMembers decimal ms) ++ '}' :: t) =
      some (ms, t) := by
  cases n with
  | zero => cases hn
  | succ n =>
    match ms with
    | [] => exact absurd rfl hne
    | [(key, v)] =>
      rw [compactMembers, compactMembers, List.intercalate_singleton, List.length_append,
        List.length_cons] at hn
      rw [compactMembers, compactMembers, List.intercalate_singleton, List.append_assoc,
        List.cons_append]
      exact readMembers_last (read_compact v (by omega) (ends_cons (by decide) t))
    | (key, v) :: m :: ms =>
      rw [intercalate_compactMembers_cons, List.length_append, List.length_append,
        List.length_cons, List.length_cons] at hn
      have hrest := readMembers_compact (m :: ms) (n := n) (t := t) (List.cons_ne_nil m ms)
        (by omega)
      rw [intercalate_compactMembers_cons, List.append_assoc, List.append_assoc, List.cons_append,
        List.cons_append]
      exact readMembers_cons (read_compact v (by omega) (ends_cons (by decide) _)) hrest

end

/-- Reading gives back what has been serialized. -/
theorem readAll_compact (v : Value Nat) : readAll (compact decimal v) = some v := by
  have hread := read_compact v (t := []) (Nat.lt_succ_self _) (by intro c hc; cases hc)
  rw [List.append_nil] at hread
  unfold readAll
  rw [hread, Option.bind_some, if_pos rfl]

end ServerAsync.Misc.Json
