import ServerAsync.Misc.JsonReader

/-!
# The layout of a text of JSON

Where a text stands: in which mode, inside how many containers, and how far behind a line
break when only spaces have come since. A text is laid out if each of its lines that is
not blank starts behind as many spaces as the depth asks for; pieces that are laid out can
be put together, where each starts as the one before it ends.
-/

namespace ServerAsync.Misc.Json

structure Spot where
  mode : Mode
  /-- How many containers are open. -/
  depth : Nat
  /-- The spaces since the line break, `none` behind any other character. -/
  column : Option Nat
  deriving DecidableEq, Repr

/-- Where a text starts, on a line that nothing is asked of. -/
def Spot.start : Spot := ⟨.outside, 0, none⟩

def isOpening (c : Char) : Bool := c == '{' || c == '['

def isClosing (c : Char) : Bool := c == '}' || c == ']'

namespace Spot

def next (p : Spot) (c : Char) : Spot where
  mode := p.mode.next c
  depth :=
    if p.mode = .outside ∧ isOpening c = true then p.depth + 1
    else if p.mode = .outside ∧ isClosing c = true then p.depth - 1
    else p.depth
  column := if c = '\n' then some 0 else if c = ' ' then p.column.map (· + 1) else none

def after (p : Spot) (t : List Char) : Spot := t.foldl next p

/-- The containers around the token that starts here with `c`. A closing bracket is outside
its own. -/
def around (p : Spot) (c : Char) : Nat := if isClosing c = true then p.depth - 1 else p.depth

end Spot

/-- Each line behind the first that is not blank starts with `k` spaces and four for each
container around its first token. -/
def LinesIndented (k : Nat) (t : List Char) : Prop :=
  ∀ before spaces c rest, t = before ++ '\n' :: (spaces ++ c :: rest) →
    (∀ x ∈ spaces, x = ' ') → c ≠ ' ' → c ≠ '\n' →
      spaces.length = k + 4 * (Spot.start.after before).around c

namespace Spot

/-- A first character of a line stands behind `k` spaces and four for each container around
it. -/
def Indented (k : Nat) (p : Spot) (c : Char) : Prop :=
  c ≠ ' ' → c ≠ '\n' → ∀ n ∈ p.column, n = k + 4 * p.around c

theorem after_append (p : Spot) (t u : List Char) : p.after (t ++ u) = (p.after t).after u :=
  List.foldl_append

/-- Spaces do not open or close anything. -/
theorem after_spaces {p : Spot} {n : Nat} (hcolumn : p.column = some n) {spaces : List Char}
    (h : ∀ c ∈ spaces, c = ' ') :
    (p.after spaces).depth = p.depth ∧ (p.after spaces).column = some (n + spaces.length) := by
  induction spaces generalizing p n with
  | nil => exact ⟨rfl, hcolumn⟩
  | cons c spaces ih =>
    rw [List.forall_mem_cons] at h
    obtain ⟨rfl, hspaces⟩ := h
    have hnext : (p.next ' ').column = some (n + 1) := by simp [next, hcolumn]
    obtain ⟨hdepth, hlast⟩ := ih hnext hspaces
    constructor
    · exact hdepth.trans (by simp [next, isOpening, isClosing])
    · rw [List.length_cons, Nat.add_comm spaces.length, ← Nat.add_assoc]
      exact hlast

end Spot

/-- A text that starts at `p`, has its lines indented, and ends at `q`. -/
inductive Lays (k : Nat) : Spot → List Char → Spot → Prop where
  | nil (p : Spot) : Lays k p [] p
  | cons {p : Spot} {c : Char} {t : List Char} {q : Spot} (hc : p.Indented k c)
      (ht : Lays k (p.next c) t q) : Lays k p (c :: t) q

namespace Lays

variable {k : Nat} {p q r : Spot} {t u : List Char}

theorem append (h : Lays k p t q) (h' : Lays k q u r) : Lays k p (t ++ u) r := by
  induction h with
  | nil p => exact h'
  | cons hc ht ih => exact cons hc (ih h')

/-- Every character of a text that is laid out may stand where it does. -/
theorem indented {c : Char} (h : Lays k p (t ++ c :: u) q) : (p.after t).Indented k c := by
  induction t generalizing p with
  | nil =>
    cases h with
    | cons hc ht => exact hc
  | cons d t ih =>
    cases h with
    | cons hd ht => exact ih ht

/-- The lines of a text that is laid out. -/
theorem linesIndented (h : Lays k .start t q) : LinesIndented k t := by
  rintro before spaces c rest rfl hspaces hspace hbreak
  have hsplit : before ++ '\n' :: (spaces ++ c :: rest) =
      (before ++ ['\n']) ++ spaces ++ c :: rest := by simp
  rw [hsplit] at h
  have hc := h.indented hspace hbreak
  have hcolumn : (Spot.start.after (before ++ ['\n'])).column = some 0 := by
    rw [Spot.after_append]
    rfl
  have hdepth : (Spot.start.after (before ++ ['\n'])).depth =
      (Spot.start.after before).depth := by
    rw [Spot.after_append]
    simp [Spot.after, Spot.next, isOpening, isClosing]
  obtain ⟨hsame, hlast⟩ := Spot.after_spaces hcolumn hspaces
  rw [Spot.after_append, Spot.around, hsame, hdepth, hlast, Nat.zero_add] at hc
  exact hc _ rfl

/-! ## Pieces -/

variable {d : Nat} {column : Option Nat}

theorem lineBreak (k d : Nat) (column : Option Nat) :
    Lays k ⟨.outside, d, column⟩ ['\n'] ⟨.outside, d, some 0⟩ :=
  cons (fun _ hbreak => absurd rfl hbreak) (nil _)

theorem spaces (k d n m : Nat) :
    Lays k ⟨.outside, d, some n⟩ (List.replicate m ' ') ⟨.outside, d, some (n + m)⟩ := by
  induction m generalizing n with
  | zero => exact nil _
  | succ m ih =>
    rw [List.replicate_succ, Nat.add_comm m, ← Nat.add_assoc]
    exact cons (fun hspace => absurd rfl hspace) (ih (n + 1))

/-- A token at depth `d` may stand here: in a line, or where a line of that depth is to
start. -/
def Ready (k d : Nat) (column : Option Nat) : Prop := ∀ n ∈ column, n = k + 4 * d

theorem ready_none (k d : Nat) : Ready k d none := nofun

theorem ready_some (k d : Nat) : Ready k d (some (k + 4 * d)) := by
  intro n hn
  exact (Option.mem_some_iff.mp hn).symm

/-- A character of a word or a separator. -/
def isFlat (c : Char) : Bool := isPlain c && !isOpening c && !isClosing c

theorem char {c : Char} (hready : Ready k d column) (hc : isFlat c = true) :
    Lays k ⟨.outside, d, column⟩ [c] ⟨.outside, d, none⟩ := by
  simp only [isFlat, isPlain, isBlank, Bool.and_eq_true, Bool.not_eq_true', bne_iff_ne,
    Bool.or_eq_false_iff, beq_eq_false_iff_ne] at hc
  obtain ⟨⟨⟨hquote, hspace, hbreak⟩, hopening⟩, hclosing⟩ := hc
  have hnext : Spot.next ⟨.outside, d, column⟩ c = ⟨.outside, d, none⟩ := by
    simp [Spot.next, Mode.next, hquote, hopening, hclosing, hbreak, hspace]
  refine cons ?_ (hnext ▸ nil _)
  intro _ _
  rw [Spot.around, if_neg (by rw [hclosing]; exact Bool.false_ne_true)]
  exact hready

theorem word (hready : Ready k d column) (hne : t ≠ []) (h : t.all isFlat = true) :
    Lays k ⟨.outside, d, column⟩ t ⟨.outside, d, none⟩ := by
  induction t generalizing column with
  | nil => exact absurd rfl hne
  | cons c t ih =>
    rw [List.all_cons, Bool.and_eq_true] at h
    have hc := char hready h.1
    cases t with
    | nil => exact hc
    | cons e t => exact hc.append (ih (ready_none k d) (List.cons_ne_nil e t) h.2)

/-- A space in a line. -/
theorem space (k d : Nat) : Lays k ⟨.outside, d, none⟩ [' '] ⟨.outside, d, none⟩ :=
  cons (fun hspace => absurd rfl hspace) (nil _)

theorem opening {c : Char} (hready : Ready k d column) (hc : isOpening c = true) :
    Lays k ⟨.outside, d, column⟩ [c] ⟨.outside, d + 1, none⟩ := by
  rw [isOpening, Bool.or_eq_true, beq_iff_eq, beq_iff_eq] at hc
  rcases hc with rfl | rfl
  · exact cons (fun _ _ => hready) (nil _)
  · exact cons (fun _ _ => hready) (nil _)

theorem closing {c : Char} (hready : Ready k d column) (hc : isClosing c = true) :
    Lays k ⟨.outside, d + 1, column⟩ [c] ⟨.outside, d, none⟩ := by
  rw [isClosing, Bool.or_eq_true, beq_iff_eq, beq_iff_eq] at hc
  rcases hc with rfl | rfl
  · exact cons (fun _ _ => hready) (nil _)
  · exact cons (fun _ _ => hready) (nil _)

/-- The inside of a string, as long as there is no line break in it. -/
theorem body {m : Mode} (hm : m ≠ .outside) {c : Char} (hc : c ≠ '\n') :
    Lays k ⟨m, d, none⟩ [c] ⟨m.next c, d, none⟩ := by
  have hnext : Spot.next ⟨m, d, none⟩ c = ⟨m.next c, d, none⟩ := by
    simp [Spot.next, hm, hc]
  exact cons (fun _ _ => ready_none k _) (hnext ▸ nil _)

theorem isBody (h : IsBody t) (hline : '\n' ∉ t) :
    Lays k ⟨.string, d, none⟩ t ⟨.string, d, none⟩ := by
  induction h with
  | nil => exact nil _
  | @char c t hquote hescape _ ih =>
    rw [List.mem_cons, not_or] at hline
    have hc : Lays k ⟨.string, d, none⟩ [c] ⟨Mode.string.next c, d, none⟩ :=
      body (by decide) (Ne.symm hline.1)
    rw [Mode.next, if_neg hquote, if_neg hescape] at hc
    exact hc.append (ih hline.2)
  | @escape c t _ ih =>
    rw [List.mem_cons, List.mem_cons, not_or, not_or] at hline
    have hbackslash : Lays k ⟨.string, d, none⟩ ['\\'] ⟨.escape, d, none⟩ :=
      body (by decide) (by decide)
    have hc : Lays k ⟨.escape, d, none⟩ [c] ⟨.string, d, none⟩ :=
      body (by decide) (Ne.symm hline.2.1)
    exact hbackslash.append (hc.append (ih hline.2.2))

end Lays

/-! ## Tokens -/

/-- A string is written in one line, and a number is at least one character and has no
brackets. -/
structure Tokens.OneLine {ν : Type*} (tok : Tokens ν) : Prop where
  string_line : ∀ s, '\n' ∉ tok.string s
  number_ne_nil : ∀ n, tok.number n ≠ []
  number_flat : ∀ n, ∀ c ∈ tok.number n, isOpening c = false ∧ isClosing c = false

namespace Lays

variable {ν : Type*} {tok : Tokens ν} {k d : Nat} {column : Option Nat}

theorem string (htok : tok.OneLine) (hready : Ready k d column) (s : List Char) :
    Lays k ⟨.outside, d, column⟩ (tok.string s) ⟨.outside, d, none⟩ := by
  obtain ⟨body, hbody, hs⟩ := tok.string_ok s
  have hline := htok.string_line s
  rw [hs] at hline ⊢
  have hinside : '\n' ∉ body := by
    intro hmem
    apply hline
    simp [hmem]
  have hquote : Lays k ⟨.outside, d, column⟩ ['"'] ⟨.string, d, none⟩ :=
    cons (fun _ _ => hready) (nil _)
  have hend : Lays k ⟨.string, d, none⟩ ['"'] ⟨.outside, d, none⟩ :=
    Lays.body (by decide) (by decide)
  exact hquote.append ((isBody hbody hinside).append hend)

theorem number (htok : tok.OneLine) (hready : Ready k d column) (n : ν) :
    Lays k ⟨.outside, d, column⟩ (tok.number n) ⟨.outside, d, none⟩ := by
  apply word hready (htok.number_ne_nil n)
  rw [List.all_eq_true]
  intro c hc
  obtain ⟨hopening, hclosing⟩ := htok.number_flat n c hc
  have hplain := List.all_eq_true.mp (tok.number_ok n) c hc
  simp [isFlat, hplain, hopening, hclosing]

end Lays

theorem lineFeed_notMem_escape (c : Char) : '\n' ∉ escape c := by
  unfold escape
  cases hfind : escapes.find? (·.1 == c) with
  | some e =>
    have hnone : ∀ e ∈ escapes, '\n' ∉ ['\\', e.2] := by decide
    exact hnone e (List.mem_of_find?_eq_some hfind)
  | none =>
    rw [List.find?_eq_none] at hfind
    rw [List.mem_singleton]
    rintro rfl
    exact hfind ('\n', 'n') (by decide) rfl

theorem decimal_oneLine : decimal.OneLine where
  string_line s := by
    have hbody : '\n' ∉ s.flatMap escape := by
      rw [List.mem_flatMap]
      rintro ⟨c, -, hc⟩
      exact lineFeed_notMem_escape c hc
    simp [decimal, hbody]
  number_ne_nil n := Nat.toDigits_ne_nil
  number_flat n c hc := by
    have hdigit := Nat.isDigit_of_mem_toDigits (by decide) (by decide) hc
    have hne : ∀ d, d.isDigit = false → c ≠ d := by
      rintro d hd rfl
      rw [hdigit] at hd
      cases hd
    simp [isOpening, isClosing, hne '{' rfl, hne '[' rfl, hne '}' rfl, hne ']' rfl]

end ServerAsync.Misc.Json
