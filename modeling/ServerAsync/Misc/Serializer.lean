import Mathlib.Data.List.Infix

/-!
# Serializers and output streams

A serializer presents the front of a message in a sequence of buffers, and moves on by as
much as it is told to. An output stream receives what is written to it until a write
fails; then it receives nothing any more.
-/

namespace ServerAsync.Misc

variable {σ α : Type*}

/-- A serializer with the states `σ`. The fields from `presents` on say what a call of
`next` presents before the serializer is done. -/
structure Serializer (σ α : Type*) where
  /-- The state behind the call, and the buffers that are presented. -/
  next : σ → σ × List (List α)
  consume : σ → Nat → σ
  isDone : σ → Bool
  /-- The rest of the message. -/
  unconsumed : σ → List α
  presents : ∀ s, isDone s = false → (next s).2.flatten <+: unconsumed s
  progress : ∀ s, isDone s = false → (next s).2.flatten ≠ []
  advances : ∀ s n, isDone s = false → n ≤ (next s).2.flatten.length →
    unconsumed (consume (next s).1 n) = (unconsumed s).drop n
  done_ok : ∀ s, isDone s = true → unconsumed s = []

namespace Serializer

variable (sr : Serializer σ α)

/-- The state when all that was presented has been consumed. -/
def advance (s : σ) : σ := sr.consume (sr.next s).1 (sr.next s).2.flatten.length

variable {sr}

/-- What is presented comes out of the rest. -/
theorem presented_append {s : σ} (h : sr.isDone s = false) :
    (sr.next s).2.flatten ++ sr.unconsumed (sr.advance s) = sr.unconsumed s := by
  have hfront := List.prefix_iff_eq_take.mp (sr.presents s h)
  rw [advance, sr.advances s _ h (Nat.le_refl _)]
  nth_rewrite 1 [hfront]
  exact List.take_append_drop _ _

/-- The rest gets shorter. -/
theorem length_advance_lt {s : σ} (h : sr.isDone s = false) :
    (sr.unconsumed (sr.advance s)).length < (sr.unconsumed s).length := by
  have hpos := List.length_pos_of_ne_nil (sr.progress s h)
  have hlength := congrArg List.length (presented_append h)
  rw [List.length_append] at hlength
  omega

/-- A serializer whose state is the rest, which presents two buffers of at most `size + 1`
elements each. -/
def pairs (size : Nat) : Serializer (List α) α where
  next s := (s, [s.take (size + 1), (s.drop (size + 1)).take (size + 1)])
  consume s n := s.drop n
  isDone s := s.isEmpty
  unconsumed s := s
  presents s _ := by
    rw [List.flatten_cons, List.flatten_singleton, ← List.take_add]
    exact List.take_prefix _ s
  progress s h := by
    cases s with
    | nil => cases h
    | cons c s => exact List.cons_ne_nil _ _
  advances _ _ _ _ := rfl
  done_ok _ h := List.isEmpty_iff.mp h

end Serializer

/-- An output stream: the writes that there have been, what it has received, and whether
one of them has failed. -/
structure OStream (α : Type*) where
  writes : List (List α)
  received : List α
  failed : Bool
  deriving DecidableEq, Repr

/-- How a stream behaves: behind the writes so far, the next one succeeds (`none`) or fails
when so many elements have been received. -/
abbrev Device (α : Type*) := List (List α) → List α → Option Nat

namespace OStream

variable (dev : Device α)

def write (os : OStream α) (buffer : List α) : OStream α :=
  if os.failed then { os with writes := os.writes ++ [buffer] }
  else
    match dev os.writes buffer with
    | none => ⟨os.writes ++ [buffer], os.received ++ buffer, false⟩
    | some n => ⟨os.writes ++ [buffer], os.received ++ buffer.take n, true⟩

/-- Some writes, one after another. -/
def writeAll (os : OStream α) (buffers : List (List α)) : OStream α := buffers.foldl (write dev) os

/-- None of these writes fails. -/
def Takes (os : OStream α) (buffers : List (List α)) : Prop :=
  buffers = [] ∨ (os.writeAll dev buffers).failed = false

variable {dev}

@[simp] theorem write_writes (os : OStream α) (buffer : List α) :
    (os.write dev buffer).writes = os.writes ++ [buffer] := by
  unfold write
  split
  · rfl
  · split <;> rfl

theorem write_eq_of_not_failed {os : OStream α} {buffer : List α}
    (h : (os.write dev buffer).failed = false) :
    os.failed = false ∧
      os.write dev buffer = ⟨os.writes ++ [buffer], os.received ++ buffer, false⟩ := by
  unfold write at h ⊢
  cases hos : os.failed with
  | true =>
    rw [hos, if_pos rfl] at h
    cases h
  | false =>
    rw [hos, if_neg Bool.false_ne_true] at h
    rw [if_neg Bool.false_ne_true]
    refine ⟨rfl, ?_⟩
    cases hdev : dev os.writes buffer with
    | none => rfl
    | some n =>
      rw [hdev] at h
      cases h

theorem writeAll_append (os : OStream α) (buffers more : List (List α)) :
    os.writeAll dev (buffers ++ more) = (os.writeAll dev buffers).writeAll dev more :=
  List.foldl_append

theorem writeAll_writes (os : OStream α) (buffers : List (List α)) :
    (os.writeAll dev buffers).writes = os.writes ++ buffers := by
  induction buffers generalizing os with
  | nil => exact (List.append_nil _).symm
  | cons buffer buffers ih =>
    change ((os.write dev buffer).writeAll dev buffers).writes = _
    rw [ih, write_writes, List.append_assoc, List.singleton_append]

/-- Writes that do not fail are received, each as a whole, in their order. -/
theorem writeAll_received {os : OStream α} {buffers : List (List α)}
    (h : (os.writeAll dev buffers).failed = false) :
    os.failed = false ∧ (os.writeAll dev buffers).received = os.received ++ buffers.flatten := by
  induction buffers generalizing os with
  | nil => exact ⟨h, (List.append_nil _).symm⟩
  | cons buffer buffers ih =>
    obtain ⟨hfirst, hrest⟩ := @ih (os.write dev buffer) h
    obtain ⟨hos, hwrite⟩ := write_eq_of_not_failed hfirst
    refine ⟨hos, ?_⟩
    change ((os.write dev buffer).writeAll dev buffers).received = _
    rw [hrest, hwrite, List.flatten_cons, List.append_assoc]

theorem Takes.received {os : OStream α} {buffers : List (List α)} (h : os.Takes dev buffers) :
    (os.writeAll dev buffers).received = os.received ++ buffers.flatten := by
  rcases h with rfl | h
  · exact (List.append_nil _).symm
  · exact (writeAll_received h).2

/-- More writes behind some that have not failed. -/
theorem Takes.append {os : OStream α} {buffers more : List (List α)}
    (h : (os.writeAll dev buffers).failed = false)
    (hmore : (os.writeAll dev buffers).Takes dev more) : os.Takes dev (buffers ++ more) := by
  right
  rw [writeAll_append]
  rcases hmore with rfl | hmore
  · exact h
  · exact hmore

end OStream

end ServerAsync.Misc
