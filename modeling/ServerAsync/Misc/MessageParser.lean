import Mathlib.Data.List.Infix

/-!
# Messages read from a stream

A parser looks at what has been received so far: it wants more, or finds a message at
the front and says how much of it that is, or gives up. A reader puts the pieces of a
stream in a buffer until there is a message, and leaves in the buffer what it got beyond
it. The message depends on the bytes alone and not on how they were cut; what is left
depends on the cut.
-/

namespace ServerAsync.Misc

variable {α β γ κ : Type*}

/-- What a parser makes of what has been received. -/
inductive Front (α : Type*) where
  | needMore
  | done (message : α) (used : Nat)
  | failed
  deriving DecidableEq, Repr

/-- A parser of messages. Once it has an answer, more bytes do not change it. -/
structure MessageParser (β α : Type*) where
  parse : List β → Front α
  /-- The message that the end of the stream makes of what has been received. -/
  atEnd : List β → Option α
  parse_nil : parse [] = .needMore
  used_le : ∀ t message used, parse t = .done message used → used ≤ t.length
  parse_append : ∀ t message used rest, parse t = .done message used →
    parse (t ++ rest) = .done message used
  failed_append : ∀ t rest, parse t = .failed → parse (t ++ rest) = .failed

/-- What a reader has when it is done: a message, what is in the buffer behind it, and the
pieces that have not been read. -/
structure Taken (β α : Type*) where
  message : α
  left : List β
  unread : List (List β)
  deriving DecidableEq, Repr

namespace MessageParser

variable (p : MessageParser β α)

/-- Read pieces into a buffer until there is a message. Behind the last piece the stream
ends, or nothing ever comes. -/
def read (ends : Bool) : List (List β) → List β → Option (Taken β α)
  | [], buffer =>
    match p.parse buffer with
    | .done message used => some ⟨message, buffer.drop used, []⟩
    | .failed => none
    | .needMore => if ends then (p.atEnd buffer).map fun message => ⟨message, [], []⟩ else none
  | piece :: pieces, buffer =>
    match p.parse buffer with
    | .done message used => some ⟨message, buffer.drop used, piece :: pieces⟩
    | .failed => none
    | .needMore => read ends pieces (buffer ++ piece)

/-- The first message of a whole stream. -/
def first (ends : Bool) (t : List β) : Option α :=
  match p.parse t with
  | .done message _ => some message
  | .failed => none
  | .needMore => if ends then p.atEnd t else none

variable {p}

theorem first_of_done {t : List β} {message : α} {used : Nat}
    (h : p.parse t = .done message used) (ends : Bool) : p.first ends t = some message := by
  rw [first, h]

theorem first_of_failed {t : List β} (h : p.parse t = .failed) (ends : Bool) :
    p.first ends t = none := by
  rw [first, h]

/-- As long as the stream goes on, a message is one that the parser found. -/
theorem first_false {t : List β} {message : α} (h : p.first false t = some message) :
    ∃ used, p.parse t = .done message used := by
  unfold first at h
  cases hparse : p.parse t with
  | needMore =>
    rw [hparse] at h
    cases h
  | done found used =>
    rw [hparse] at h
    cases h
    exact ⟨used, rfl⟩
  | failed =>
    rw [hparse] at h
    cases h

theorem read_of_done {buffer : List β} {message : α} {used : Nat}
    (h : p.parse buffer = .done message used) (ends : Bool) (pieces : List (List β)) :
    p.read ends pieces buffer = some ⟨message, buffer.drop used, pieces⟩ := by
  cases pieces with
  | nil => rw [read, h]
  | cons piece pieces => rw [read, h]

theorem read_of_failed {buffer : List β} (h : p.parse buffer = .failed) (ends : Bool)
    (pieces : List (List β)) : p.read ends pieces buffer = none := by
  cases pieces with
  | nil => rw [read, h]
  | cons piece pieces => rw [read, h]

/-- The message that is read is the first one of the stream, however it was cut. -/
theorem read_message (ends : Bool) (pieces : List (List β)) (buffer : List β) :
    (p.read ends pieces buffer).map Taken.message =
      p.first ends (buffer ++ pieces.flatten) := by
  induction pieces generalizing buffer with
  | nil =>
    rw [List.flatten_nil, List.append_nil, read, first]
    cases p.parse buffer with
    | needMore =>
      cases ends with
      | true => cases p.atEnd buffer <;> rfl
      | false => rfl
    | done message used => rfl
    | failed => rfl
  | cons piece pieces ih =>
    cases hparse : p.parse buffer with
    | needMore =>
      rw [read, hparse, List.flatten_cons, ← List.append_assoc]
      exact ih (buffer ++ piece)
    | done message used =>
      rw [read_of_done hparse, first_of_done (p.parse_append _ _ _ _ hparse), Option.map_some]
    | failed =>
      rw [read_of_failed hparse, first_of_failed (p.failed_append _ _ hparse), Option.map_none]

/-- The message at the front of the buffer is all of it if and only if it is all of the buffer
and some pieces behind it, which are empty then. -/
theorem drop_eq_nil_iff {buffer : List β} {message : α} {used : Nat}
    (h : p.parse buffer = .done message used) (pieces : List (List β)) :
    buffer.drop used = [] ↔ ∃ k, p.parse (buffer ++ (pieces.take k).flatten) =
      .done message (buffer ++ (pieces.take k).flatten).length := by
  have hused := p.used_le _ _ _ h
  rw [List.drop_eq_nil_iff]
  constructor
  · intro hle
    refine ⟨0, ?_⟩
    rw [List.take_zero, List.flatten_nil, List.append_nil, h, Nat.le_antisymm hused hle]
  · rintro ⟨k, hk⟩
    rw [p.parse_append _ _ _ _ h, Front.done.injEq, List.length_append] at hk
    omega

/-- Nothing is left in the buffer if and only if some first pieces are exactly the
message. -/
theorem read_left_eq_nil_iff {ends : Bool} {pieces : List (List β)} {buffer : List β}
    {taken : Taken β α} (hend : ∀ t, p.atEnd t = none)
    (h : p.read ends pieces buffer = some taken) :
    taken.left = [] ↔ ∃ k, p.parse (buffer ++ (pieces.take k).flatten) =
      .done taken.message (buffer ++ (pieces.take k).flatten).length := by
  induction pieces generalizing buffer with
  | nil =>
    cases hparse : p.parse buffer with
    | needMore =>
      rw [read, hparse] at h
      simp [hend] at h
    | done message used =>
      rw [read_of_done hparse] at h
      cases h
      exact drop_eq_nil_iff hparse []
    | failed =>
      rw [read_of_failed hparse] at h
      cases h
  | cons piece pieces ih =>
    cases hparse : p.parse buffer with
    | needMore =>
      rw [read, hparse] at h
      rw [ih h]
      constructor
      · rintro ⟨k, hk⟩
        refine ⟨k + 1, ?_⟩
        rwa [List.take_succ_cons, List.flatten_cons, ← List.append_assoc]
      · rintro ⟨k, hk⟩
        cases k with
        | zero =>
          rw [List.take_zero, List.flatten_nil, List.append_nil, hparse] at hk
          cases hk
        | succ k =>
          rw [List.take_succ_cons, List.flatten_cons, ← List.append_assoc] at hk
          exact ⟨k, hk⟩
    | done message used =>
      rw [read_of_done hparse] at h
      cases h
      exact drop_eq_nil_iff hparse (piece :: pieces)
    | failed =>
      rw [read_of_failed hparse] at h
      cases h

/-- When a front in the buffer does not matter, neither does any number of them. -/
theorem first_replicate {write : α → γ} {left : List β} {ends : Bool}
    (h : ∀ t, (p.first ends (left ++ t)).map write = (p.first ends t).map write) (k : Nat)
    (t : List β) :
    (p.first ends ((List.replicate k left).flatten ++ t)).map write =
      (p.first ends t).map write := by
  induction k with
  | zero => rfl
  | succ k ih => rw [List.replicate_succ, List.flatten_cons, List.append_assoc, h, ih]

/-- Bytes in front of a stream change its first message, when the first so many bytes
decide something about the message that can be seen and that is not the same for all
messages. -/
theorem exists_first_ne {write : α → γ} {key : α → κ} {limit : Nat}
    (hwrite : ∀ m m', write m = write m' → key m = key m')
    (hfront : ∀ t t' m m' n n', p.parse t = .done m n → p.parse t' = .done m' n' →
      t.take limit = t'.take limit → key m = key m')
    {t₁ t₂ : List β} {m₁ m₂ : α} {n₁ n₂ : Nat} (h₁ : p.parse t₁ = .done m₁ n₁)
    (h₂ : p.parse t₂ = .done m₂ n₂) (hne : key m₁ ≠ key m₂) {left : List β}
    (hleft : left ≠ []) :
    ∃ t, (p.first false (left ++ t)).map write ≠ (p.first false t).map write := by
  by_contra hsame
  push Not at hsame
  -- with enough of it in front, the first message does not depend on the stream
  have hlong : limit ≤ (List.replicate limit left).flatten.length := by
    rw [List.length_flatten, List.map_replicate, List.sum_replicate_nat]
    exact Nat.le_mul_of_pos_right limit (List.length_pos_iff.mpr hleft)
  have hfound : ∀ {t : List β} {m : α} {n : Nat}, p.parse t = .done m n →
      ∃ m' n', p.parse ((List.replicate limit left).flatten ++ t) = .done m' n' ∧
        key m' = key m := by
    intro t m n hparse
    have hmap := first_replicate hsame limit t
    rw [first_of_done hparse, Option.map_some] at hmap
    obtain ⟨m', hfirst, hm'⟩ := Option.map_eq_some_iff.mp hmap
    obtain ⟨n', hparse'⟩ := first_false hfirst
    exact ⟨m', n', hparse', hwrite _ _ hm'⟩
  obtain ⟨m₁', n₁', hparse₁, hkey₁⟩ := hfound h₁
  obtain ⟨m₂', n₂', hparse₂, hkey₂⟩ := hfound h₂
  have hkey := hfront _ _ _ _ _ _ hparse₁ hparse₂ (by
    rw [List.take_append_of_le_length hlong, List.take_append_of_le_length hlong])
  rw [hkey₁, hkey₂] at hkey
  exact hne hkey

/-! ## A parser that knows its messages -/

section

variable [DecidableEq β] {texts : List (List β × α)}

/-- The message whose text ends first at the front of a stream, and the length of its
text. -/
def knownFront (texts : List (List β × α)) (t : List β) : Option (α × Nat) :=
  t.inits.findSome? fun front =>
    (texts.find? fun e => e.1 == front && front != []).map fun e => (e.2, front.length)

theorem knownFront_eq_some {t : List β} {message : α} {used : Nat}
    (h : knownFront texts t = some (message, used)) :
    ∃ e ∈ texts, e.2 = message ∧ e.1 <+: t ∧ e.1.length = used ∧ e.1 ≠ [] := by
  obtain ⟨front, hfront, hmap⟩ := List.exists_of_findSome?_eq_some h
  obtain ⟨e, hfind, he⟩ := Option.map_eq_some_iff.mp hmap
  rw [Prod.mk.injEq] at he
  have hfound := List.find?_some hfind
  rw [Bool.and_eq_true, beq_iff_eq, bne_iff_ne] at hfound
  obtain ⟨htext, hne⟩ := hfound
  rw [← htext] at hne hfront he
  exact ⟨e, List.mem_of_find?_eq_some hfind, he.1, (List.mem_inits _ _).mp hfront, he.2, hne⟩

theorem knownFront_isSome {t : List β} {e : List β × α} (he : e ∈ texts) (hfront : e.1 <+: t)
    (hne : e.1 ≠ []) : (knownFront texts t).isSome := by
  rw [knownFront, List.findSome?_isSome_iff]
  refine ⟨e.1, (List.mem_inits _ _).mpr hfront, ?_⟩
  rw [Option.isSome_map, List.find?_isSome]
  exact ⟨e, he, by rw [Bool.and_eq_true, beq_iff_eq, bne_iff_ne]; exact ⟨rfl, hne⟩⟩

theorem knownFront_append {t : List β} {found : α × Nat} (h : knownFront texts t = some found)
    (rest : List β) : knownFront texts (t ++ rest) = some found := by
  unfold knownFront at h ⊢
  rw [List.inits_append, List.findSome?_append, h]
  rfl

/-- No text goes beyond a front that is not the start of any. -/
theorem knownFront_append_eq_none {t : List β} (h : knownFront texts t = none)
    (hno : ∀ e ∈ texts, ¬ t <+: e.1) (rest : List β) : knownFront texts (t ++ rest) = none := by
  by_contra hfound
  obtain ⟨⟨message, used⟩, hsome⟩ := Option.ne_none_iff_exists'.mp hfound
  obtain ⟨e, he, -, hfront, -, hne⟩ := knownFront_eq_some hsome
  rcases List.prefix_or_prefix_of_prefix hfront (List.prefix_append t rest) with hin | hout
  · have hshort := knownFront_isSome he hin hne
    rw [h] at hshort
    cases hshort
  · exact hno e he hout

/-- A parser of messages that are known with their texts. -/
def among (texts : List (List β × α)) : MessageParser β α where
  parse t :=
    match knownFront texts t with
    | some found => .done found.1 found.2
    | none => if t = [] ∨ ∃ e ∈ texts, t <+: e.1 then .needMore else .failed
  atEnd _ := none
  parse_nil := by
    have hnone : knownFront texts ([] : List β) = none := by simp [knownFront]
    rw [hnone]
    exact if_pos (Or.inl rfl)
  used_le t message used h := by
    split at h
    · rename_i found hfound
      cases h
      obtain ⟨e, -, -, hfront, hlen, -⟩ := knownFront_eq_some hfound
      rw [← hlen]
      exact hfront.length_le
    · split at h <;> cases h
  parse_append t message used rest h := by
    split at h
    · rename_i found hfound
      rw [knownFront_append hfound]
      exact h
    · split at h <;> cases h
  failed_append t rest h := by
    split at h
    · cases h
    · rename_i hnone
      split at h
      · cases h
      · rename_i hmore
        rw [not_or] at hmore
        have hno : ∀ e ∈ texts, ¬ t <+: e.1 := fun e he hpre => hmore.2 ⟨e, he, hpre⟩
        rw [knownFront_append_eq_none hnone hno]
        refine if_neg ?_
        rintro (hnil | ⟨e, he, hpre⟩)
        · exact hmore.1 (List.append_eq_nil_iff.mp hnil).1
        · exact hno e he ((List.prefix_append t rest).trans hpre)

theorem among_done {t : List β} {message : α} {used : Nat} :
    (among texts).parse t = .done message used ↔ knownFront texts t = some (message, used) := by
  change (match knownFront texts t with
    | some found => Front.done found.1 found.2
    | none => if t = [] ∨ ∃ e ∈ texts, t <+: e.1 then .needMore else .failed) = _ ↔ _
  cases hfound : knownFront texts t with
  | none =>
    dsimp only
    split <;> simp
  | some found => simp [Prod.ext_iff]

/-- Texts that are not longer than the limit are found in what is not longer. -/
theorem among_done_take {limit : Nat} (hlimit : ∀ e ∈ texts, e.1.length ≤ limit) {t : List β}
    {message : α} {used : Nat} (h : (among texts).parse t = .done message used) :
    (among texts).parse (t.take limit) = .done message used := by
  rw [among_done] at h ⊢
  obtain ⟨e, he, -, hfront, -, hne⟩ := knownFront_eq_some h
  have hshort : e.1 <+: t.take limit := by
    rw [List.prefix_take_iff]
    exact ⟨hfront, hlimit e he⟩
  obtain ⟨found, hfound⟩ := Option.isSome_iff_exists.mp (knownFront_isSome he hshort hne)
  have hwhole := knownFront_append hfound (t.drop limit)
  rw [List.take_append_drop, h] at hwhole
  rw [hfound, hwhole]

end

end MessageParser

end ServerAsync.Misc
