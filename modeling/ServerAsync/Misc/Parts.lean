import Mathlib.Data.List.Basic

/-!
# Systems of numbered parts

The parts of a system, such as its connections, in the order in which they came in: a
list that grows at its end and in which one part changes at a time. What holds of every
part is shown of the part that is new or has changed, and of the others as they were.
-/

namespace ServerAsync.Misc.Parts

variable {α : Type*}

theorem getElem?_set_cases {l : List α} {i k : Nat} {a b : α}
    (h : (l.set i a)[k]? = some b) : k = i ∧ b = a ∨ k ≠ i ∧ l[k]? = some b := by
  by_cases hk : k = i
  · subst hk
    obtain ⟨hlt, hb⟩ := List.getElem?_eq_some_iff.mp h
    rw [List.getElem_set_self] at hb
    exact Or.inl ⟨rfl, hb.symm⟩
  · rw [List.getElem?_set_ne (Ne.symm hk)] at h
    exact Or.inr ⟨hk, h⟩

theorem getElem?_concat_cases {l : List α} {k : Nat} {a b : α}
    (h : (l ++ [a])[k]? = some b) : k = l.length ∧ b = a ∨ l[k]? = some b := by
  by_cases hk : k < l.length
  · rw [List.getElem?_append_left hk] at h
    exact Or.inr h
  · obtain ⟨hlt, -⟩ := List.getElem?_eq_some_iff.mp h
    rw [List.length_append, List.length_singleton] at hlt
    obtain rfl : k = l.length := by omega
    rw [List.getElem?_concat_length] at h
    exact Or.inl ⟨rfl, (Option.some.inj h).symm⟩

/-- One part changes. -/
theorem forall_set {P : Nat → α → Prop} {l : List α} {i : Nat} {a : α}
    (hold : ∀ k b, k ≠ i → l[k]? = some b → P k b) (hnew : P i a) :
    ∀ k b, (l.set i a)[k]? = some b → P k b := by
  intro k b hb
  rcases getElem?_set_cases hb with ⟨rfl, rfl⟩ | ⟨hne, hb⟩
  · exact hnew
  · exact hold k b hne hb

/-- A part comes in. -/
theorem forall_concat {P : Nat → α → Prop} {l : List α} {a : α}
    (hold : ∀ k b, l[k]? = some b → P k b) (hnew : P l.length a) :
    ∀ k b, (l ++ [a])[k]? = some b → P k b := by
  intro k b hb
  rcases getElem?_concat_cases hb with ⟨rfl, rfl⟩ | hb
  · exact hnew
  · exact hold k b hb

theorem getElem?_set_of_some {l : List α} {i : Nat} {a b : α} (h : l[i]? = some b) :
    (l.set i a)[i]? = some a :=
  List.getElem?_set_self (List.getElem?_eq_some_iff.mp h).1

theorem set_of_getElem? {l : List α} {i : Nat} {a : α} (h : l[i]? = some a) : l.set i a = l := by
  obtain ⟨hlt, rfl⟩ := List.getElem?_eq_some_iff.mp h
  exact List.set_getElem_self hlt

theorem getElem?_concat_of_some {l : List α} {k : Nat} {a b : α} (h : l[k]? = some b) :
    (l ++ [a])[k]? = some b := by
  rw [List.getElem?_append_left (List.getElem?_eq_some_iff.mp h).1]
  exact h

end ServerAsync.Misc.Parts
