import Mathlib.Data.List.Basic

/-!
# Messages behind each other

A stream of messages, each with a head that can be read off the front of a stream and a
body behind it. A reader knows how to take the size of a body from its head, which may
differ from message to message, or that there is none in it: then the body is everything
up to the end of the stream.
-/

namespace ServerAsync.Misc

/-- Heads, with a reader that stops at the end of a head that it can read back. -/
structure HeadCoding (η β : Type*) where
  Legal : η → Prop
  write : η → List β
  read : List β → Option (η × List β)
  read_write : ∀ head rest, Legal head → read (write head ++ rest) = some (head, rest)

namespace HeadCoding

variable {η β : Type*}

/-- The coding that knows one head. -/
def only [DecidableEq β] (known : η) (text : List β) : HeadCoding η β where
  Legal head := head = known
  write _ := text
  read t := if text.isPrefixOf t then some (known, t.drop text.length) else none
  read_write head rest h := by
    rw [if_pos (List.isPrefixOf_iff_prefix.mpr (List.prefix_append text rest)), List.drop_left, h]

variable (c : HeadCoding η β)

/-- A message as it is sent. -/
def text (m : η × List β) : List β := c.write m.1 ++ m.2

def stream (ms : List (η × List β)) : List β := ms.flatMap c.text

/-- As many messages as the reader waits for; `size` is what it makes of a head. A body of
which a part is missing is not read. -/
def messages : List (η → Option Nat) → List β → List (η × List β)
  | [], _ => []
  | size :: sizes, t =>
    match c.read t with
    | none => []
    | some (head, rest) =>
      match size head with
      | none => [(head, rest)]
      | some n =>
        if n ≤ rest.length then (head, rest.take n) :: messages sizes (rest.drop n) else []

/-- The reader takes the right size from the head. -/
def Sized (size : η → Option Nat) (m : η × List β) : Prop := size m.1 = some m.2.length

/-- Every message has its size in its head, but that the last may end with the stream. -/
def Delimited : List ((η → Option Nat) × (η × List β)) → Prop
  | [] => True
  | [x] => x.1 x.2.1 = none ∨ Sized x.1 x.2
  | x :: xs => Sized x.1 x.2 ∧ Delimited xs

variable {c}

theorem messages_text (size : η → Option Nat) (sizes : List (η → Option Nat)) {m : η × List β}
    (hlegal : c.Legal m.1) (t : List β) : c.messages (size :: sizes) (c.text m ++ t) =
      match size m.1 with
      | none => [(m.1, m.2 ++ t)]
      | some n =>
        if n ≤ (m.2 ++ t).length then
          (m.1, (m.2 ++ t).take n) :: c.messages sizes ((m.2 ++ t).drop n)
        else [] := by
  rw [messages, text, List.append_assoc, c.read_write _ _ hlegal]

/-- A message that has its size in its head is read as it is. -/
theorem messages_of_sized {size : η → Option Nat} {m : η × List β} (hlegal : c.Legal m.1)
    (h : Sized size m) (sizes : List (η → Option Nat)) (t : List β) :
    c.messages (size :: sizes) (c.text m ++ t) = m :: c.messages sizes t := by
  have hfits : m.2.length ≤ (m.2 ++ t).length := by
    rw [List.length_append]
    exact Nat.le_add_right _ _
  rw [messages_text _ _ hlegal, show size m.1 = some m.2.length from h]
  dsimp only
  rw [if_pos hfits, List.take_left, List.drop_left]

/-- A message that is read as it is has its size in its head, or ends with the stream. -/
theorem sized_of_messages {size : η → Option Nat} {sizes : List (η → Option Nat)}
    {m : η × List β} (hlegal : c.Legal m.1) {ms : List (η × List β)} {t : List β}
    (h : c.messages (size :: sizes) (c.text m ++ t) = m :: ms) :
    Sized size m ∨ size m.1 = none ∧ t = [] ∧ ms = [] := by
  rw [messages_text _ _ hlegal] at h
  cases hsize : size m.1 with
  | none =>
    rw [hsize] at h
    obtain ⟨hm, hms⟩ := List.cons.inj h
    have hbody : m.2 ++ t = m.2 := congrArg Prod.snd hm
    exact Or.inr ⟨rfl, List.append_right_eq_self.mp hbody, hms.symm⟩
  | some n =>
    rw [hsize] at h
    dsimp only at h
    split at h
    · rename_i hfits
      obtain ⟨hm, -⟩ := List.cons.inj h
      have hbody : (m.2 ++ t).take n = m.2 := congrArg Prod.snd hm
      left
      rw [Sized, hsize, ← List.length_take_of_le hfits, hbody]
    · cases h

/-- The messages of a stream can be read back exactly when they are delimited. -/
theorem messages_stream_iff {xs : List ((η → Option Nat) × (η × List β))}
    (hlegal : ∀ x ∈ xs, c.Legal x.2.1) :
    c.messages (xs.map Prod.fst) (c.stream (xs.map Prod.snd)) = xs.map Prod.snd ↔
      Delimited xs := by
  induction xs with
  | nil => exact iff_of_true rfl trivial
  | cons x xs ih =>
    obtain ⟨hx, hxs⟩ := List.forall_mem_cons.mp hlegal
    simp only [List.map_cons, stream, List.flatMap_cons]
    change _ ↔ Delimited (x :: xs)
    cases xs with
    | nil =>
      constructor
      · intro h
        rcases sized_of_messages hx h with hsized | ⟨hnone, -, -⟩
        · exact Or.inr hsized
        · exact Or.inl hnone
      · rintro (hnone | hsized)
        · rw [messages_text _ _ hx, hnone]
          simp
        · rw [messages_of_sized hx hsized]
          rfl
    | cons y ys =>
      constructor
      · intro h
        rcases sized_of_messages hx h with hsized | ⟨-, -, hnil⟩
        · rw [messages_of_sized hx hsized] at h
          exact ⟨hsized, (ih hxs).mp (List.cons.inj h).2⟩
        · cases hnil
      · rintro ⟨hsized, hrest⟩
        rw [messages_of_sized hx hsized]
        exact congrArg (x.2 :: ·) ((ih hxs).mpr hrest)

/-- All but the last, and the last. -/
theorem delimited_iff {xs : List ((η → Option Nat) × (η × List β))} :
    Delimited xs ↔ (∀ x ∈ xs.dropLast, Sized x.1 x.2) ∧
      ∀ x ∈ xs, x.1 x.2.1 = none ∨ Sized x.1 x.2 := by
  induction xs with
  | nil => simp [Delimited]
  | cons x xs ih =>
    cases xs with
    | nil => simp [Delimited]
    | cons y ys =>
      change Sized x.1 x.2 ∧ Delimited (y :: ys) ↔ _
      rw [ih, List.dropLast_cons_cons]
      simp only [List.forall_mem_cons]
      constructor
      · rintro ⟨hx, hall, hy, hys⟩
        exact ⟨⟨hx, hall⟩, Or.inr hx, hy, hys⟩
      · rintro ⟨⟨hx, hall⟩, -, hy, hys⟩
        exact ⟨hx, hall, hy, hys⟩

end HeadCoding

end ServerAsync.Misc
