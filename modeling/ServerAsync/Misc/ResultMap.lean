import ServerAsync.Misc.Machine
import Mathlib.Data.List.Basic
import Mathlib.Logic.Function.Basic

/-!
# Maps of results

Work is submitted under a key, executed in the order of submission, and its result is
fetched under the key. A later submission under a key hides an earlier one, and what
has been fetched is gone. This is what a pool of workers with one future per submission
is for; how the results get from the workers to the keys is not said here.
-/

namespace ServerAsync.Misc

/-- The number of the submission that a key stands for, the number of submissions, and
the results in the order of execution. -/
structure ResultMap (κ ρ : Type*) where
  slots : κ → Option Nat
  submitted : Nat
  results : List ρ

namespace ResultMap

variable {κ ρ : Type*}

/-- The operations, with what the callers are told. -/
inductive Event (κ ρ : Type*) where
  | submit (key : κ)
  | execute (result : ρ)
  /-- Whether there is a result, `none` when there is nothing under the key. -/
  | query (key : κ) (answer : Option Bool)
  | fetch (key : κ) (answer : ρ)
  | silent

def empty : ResultMap κ ρ where
  slots _ := none
  submitted := 0
  results := []

def query (m : ResultMap κ ρ) (key : κ) : Option Bool :=
  (m.slots key).map fun n => decide (n < m.results.length)

/-- What is to be fetched under a key: `absent` when there is nothing, and no answer yet
when the work is still to be executed. -/
def fetch (absent : ρ) (m : ResultMap κ ρ) (key : κ) : Option ρ :=
  match m.slots key with
  | none => some absent
  | some n => m.results[n]?

variable [DecidableEq κ]

def submit (m : ResultMap κ ρ) (key : κ) : ResultMap κ ρ :=
  { m with slots := Function.update m.slots key (some m.submitted), submitted := m.submitted + 1 }

def remove (m : ResultMap κ ρ) (key : κ) : ResultMap κ ρ :=
  { m with slots := Function.update m.slots key none }

@[simp] theorem submit_slots_self (m : ResultMap κ ρ) (key : κ) :
    (m.submit key).slots key = some m.submitted := Function.update_self ..

@[simp] theorem submit_slots_of_ne (m : ResultMap κ ρ) {key other : κ} (h : other ≠ key) :
    (m.submit key).slots other = m.slots other := Function.update_of_ne h ..

@[simp] theorem remove_slots_self (m : ResultMap κ ρ) (key : κ) :
    (m.remove key).slots key = none := Function.update_self ..

@[simp] theorem remove_slots_of_ne (m : ResultMap κ ρ) {key other : κ} (h : other ≠ key) :
    (m.remove key).slots other = m.slots other := Function.update_of_ne h ..

variable [DecidableEq ρ]

def step (absent : ρ) (m : ResultMap κ ρ) : Event κ ρ → Option (ResultMap κ ρ)
  | .submit key => some (m.submit key)
  | .execute result =>
    if m.results.length < m.submitted then some { m with results := m.results ++ [result] }
    else none
  | .query key answer => if m.query key = answer then some m else none
  | .fetch key answer => if m.fetch absent key = some answer then some (m.remove key) else none
  | .silent => some m

/-- The map as a machine. -/
def machine (κ : Type*) {ρ : Type*} [DecidableEq κ] [DecidableEq ρ] (absent : ρ) :
    Machine (ResultMap κ ρ) (Event κ ρ) where
  step := step absent

/-! ## The map and its history -/

section History

omit [DecidableEq κ] [DecidableEq ρ]

def Event.submits : Event κ ρ → Bool
  | .submit _ => true
  | _ => false

def Event.result : Event κ ρ → Option ρ
  | .execute result => some result
  | _ => none

/-- A submission under the key, or a fetch. -/
def Event.Touches (key : κ) : Event κ ρ → Prop
  | .submit other => other = key
  | .fetch other _ => other = key
  | _ => False

/-- The results of what has been executed. -/
def executed (es : List (Event κ ρ)) : List ρ := es.filterMap Event.result

/-- The last submission under `key` is submission number `n`, and nothing has been
fetched under `key` since. -/
def Latest (es : List (Event κ ρ)) (key : κ) (n : Nat) : Prop :=
  ∃ before after, es = before ++ .submit key :: after ∧
    before.countP Event.submits = n ∧ ∀ e ∈ after, ¬ e.Touches key

theorem not_latest_nil (key : κ) (n : Nat) : ¬ Latest ([] : List (Event κ ρ)) key n := by
  rintro ⟨before, after, hes, -⟩
  cases before <;> cases hes

theorem latest_append {es : List (Event κ ρ)} {e : Event κ ρ} {key : κ} {n : Nat} :
    Latest (es ++ [e]) key n ↔
      e = .submit key ∧ es.countP Event.submits = n ∨ ¬ e.Touches key ∧ Latest es key n := by
  constructor
  · rintro ⟨before, after, hes, hcount, hafter⟩
    rcases List.eq_nil_or_concat after with rfl | ⟨rest, last, rfl⟩
    · obtain ⟨rfl, hlast⟩ := List.append_inj' hes rfl
      exact Or.inl ⟨List.singleton_inj.mp hlast, hcount⟩
    · rw [List.concat_eq_append] at hes hafter
      rw [← List.cons_append, ← List.append_assoc] at hes
      obtain ⟨rfl, hlast⟩ := List.append_inj' hes rfl
      cases List.singleton_inj.mp hlast
      refine Or.inr ⟨hafter e (List.mem_append_right rest (List.mem_singleton_self e)), ?_⟩
      exact ⟨before, rest, rfl, hcount, fun e he => hafter e (List.mem_append_left _ he)⟩
  · rintro (⟨rfl, hcount⟩ | ⟨hkeeps, before, after, rfl, hcount, hafter⟩)
    · refine ⟨es, [], rfl, hcount, ?_⟩
      intro e he
      cases he
    · refine ⟨before, after ++ [e], by simp, hcount, ?_⟩
      intro e' he'
      rcases List.mem_append.mp he' with he' | he'
      · exact hafter e' he'
      · rwa [List.mem_singleton.mp he']

/-- What holds of the map after the events `past`. -/
structure History (past : List (Event κ ρ)) (m : ResultMap κ ρ) : Prop where
  slots : ∀ key n, m.slots key = some n ↔ Latest past key n
  submitted : m.submitted = past.countP Event.submits
  results : m.results = executed past

theorem history_empty : History [] (empty : ResultMap κ ρ) := by
  refine ⟨fun key n => ?_, rfl, rfl⟩
  constructor
  · intro h
    cases h
  · intro h
    exact absurd h (not_latest_nil key n)

theorem History.slots_eq_none {past : List (Event κ ρ)} {m : ResultMap κ ρ}
    (h : History past m) (key : κ) : m.slots key = none ↔ ∀ n, ¬ Latest past key n := by
  rw [Option.eq_none_iff_forall_ne_some]
  exact forall_congr' fun n => not_congr (h.slots key n)

/-- An event that touches no key keeps what the keys stand for. -/
theorem History.slots_append {past : List (Event κ ρ)} {m : ResultMap κ ρ} {e : Event κ ρ}
    (h : History past m) (hkeeps : ∀ key, ¬ e.Touches key) (key : κ) (n : Nat) :
    m.slots key = some n ↔ Latest (past ++ [e]) key n := by
  rw [h.slots, latest_append]
  constructor
  · intro hlatest
    exact Or.inr ⟨hkeeps key, hlatest⟩
  · rintro (⟨rfl, -⟩ | ⟨-, hlatest⟩)
    · exact absurd rfl (hkeeps key)
    · exact hlatest

end History

variable {absent : ρ}

theorem history_step {past : List (Event κ ρ)} {m m' : ResultMap κ ρ} {e : Event κ ρ}
    (h : History past m) (hstep : step absent m e = some m') : History (past ++ [e]) m' := by
  cases e with
  | submit key =>
    cases Option.some.inj hstep
    refine ⟨fun other n => ?_, ?_, ?_⟩
    · rw [latest_append]
      by_cases hother : other = key
      · subst hother
        simp [h.submitted, Event.Touches]
      · rw [submit_slots_of_ne m hother, h.slots]
        simp [Event.Touches, Ne.symm hother]
    · simp [submit, h.submitted, Event.submits]
    · simp [submit, h.results, executed, Event.result]
  | execute result =>
    obtain ⟨-, rfl⟩ := Machine.taken hstep
    refine ⟨h.slots_append fun _ => id, ?_, ?_⟩
    · simp [h.submitted, Event.submits]
    · simp [h.results, executed, Event.result]
  | query key answer =>
    obtain ⟨-, rfl⟩ := Machine.taken hstep
    refine ⟨h.slots_append fun _ => id, ?_, ?_⟩
    · simp [h.submitted, Event.submits]
    · simp [h.results, executed, Event.result]
  | fetch key answer =>
    obtain ⟨-, rfl⟩ := Machine.taken hstep
    refine ⟨fun other n => ?_, ?_, ?_⟩
    · rw [latest_append]
      by_cases hother : other = key
      · subst hother
        simp [Event.Touches]
      · rw [remove_slots_of_ne m hother, h.slots]
        simp [Event.Touches, Ne.symm hother]
    · simp [remove, h.submitted, Event.submits]
    · simp [remove, h.results, executed, Event.result]
  | silent =>
    cases Option.some.inj hstep
    refine ⟨h.slots_append fun _ => id, ?_, ?_⟩
    · simp [h.submitted, Event.submits]
    · simp [h.results, executed, Event.result]

theorem history_of_run {m : ResultMap κ ρ} {es : List (Event κ ρ)}
    (hrun : (machine κ absent).run empty es = some m) : History es m :=
  Machine.run_history (R := History) (fun _ _ _ _ h hstep => history_step h hstep) history_empty
    hrun

end ResultMap

end ServerAsync.Misc
