import Mathlib.Logic.Basic
import Mathlib.Tactic.Common

/-!
# Machines driven by their environment

An event-driven program is a partial step function: `step s e` is the state
after the event `e`, and `none` when `e` cannot happen in `s`. The events carry
every choice the environment makes, so a list of events determines a run, and
"every run" is "every list of events". This file has the runs, the invariant
and relation rules for them, runs whose steps all meet a condition, and the
refinement and simulation rules between two machines.
-/

namespace ServerAsync.Misc

/-- A deterministic machine whose nondeterminism is its environment's choice of
events. -/
structure Machine (σ ε : Type*) where
  step : σ → ε → Option σ

namespace Machine

variable {σ ε τ δ : Type*}

/-- The state after a list of events, `none` when one of them cannot happen. -/
def run (m : Machine σ ε) : σ → List ε → Option σ
  | s, [] => some s
  | s, e :: es => (m.step s e).bind fun t => run m t es

@[simp] theorem run_nil (m : Machine σ ε) (s : σ) : m.run s [] = some s := rfl

theorem run_cons (m : Machine σ ε) (s : σ) (e : ε) (es : List ε) :
    m.run s (e :: es) = (m.step s e).bind fun t => m.run t es := rfl

theorem run_cons_eq_some {m : Machine σ ε} {s u : σ} {e : ε} {es : List ε} :
    m.run s (e :: es) = some u ↔ ∃ t, m.step s e = some t ∧ m.run t es = some u := by
  rw [run_cons, Option.bind_eq_some_iff]

theorem run_append {m : Machine σ ε} {s t u : σ} {es fs : List ε} (first : m.run s es = some t)
    (second : m.run t fs = some u) : m.run s (es ++ fs) = some u := by
  induction es generalizing s with
  | nil =>
    cases Option.some.inj first
    exact second
  | cons e es ih =>
    obtain ⟨mid, hmid, hrest⟩ := run_cons_eq_some.mp first
    exact run_cons_eq_some.mpr ⟨mid, hmid, ih hrest⟩

theorem run_append_eq_some {m : Machine σ ε} {s u : σ} {es fs : List ε} :
    m.run s (es ++ fs) = some u ↔ ∃ t, m.run s es = some t ∧ m.run t fs = some u := by
  constructor
  · intro h
    induction es generalizing s with
    | nil => exact ⟨s, rfl, h⟩
    | cons e es ih =>
      obtain ⟨mid, hmid, hrest⟩ := run_cons_eq_some.mp h
      obtain ⟨t, ht, hend⟩ := ih hrest
      exact ⟨t, run_cons_eq_some.mpr ⟨mid, hmid, ht⟩, hend⟩
  · rintro ⟨t, first, second⟩
    exact run_append first second

/-- An invariant holds in the last state of every run that starts in it. -/
theorem run_invariant {m : Machine σ ε} {I : σ → Prop}
    (hstep : ∀ s e t, I s → m.step s e = some t → I t) {s t : σ} {es : List ε}
    (h : I s) (hrun : m.run s es = some t) : I t := by
  induction es generalizing s with
  | nil =>
    cases Option.some.inj hrun
    exact h
  | cons e es ih =>
    obtain ⟨mid, hmid, hrest⟩ := run_cons_eq_some.mp hrun
    exact ih (hstep s e mid h hmid) hrest

/-- A reflexive and transitive relation that every step from an invariant state
stays in relates the two ends of a run. -/
theorem run_relation {m : Machine σ ε} {I : σ → Prop} {R : σ → σ → Prop}
    (hrefl : ∀ s, R s s) (htrans : ∀ s t u, R s t → R t u → R s u)
    (hstep : ∀ s e t, I s → m.step s e = some t → I t ∧ R s t) {s t : σ} {es : List ε}
    (h : I s) (hrun : m.run s es = some t) : R s t := by
  induction es generalizing s with
  | nil =>
    cases Option.some.inj hrun
    exact hrefl _
  | cons e es ih =>
    obtain ⟨mid, hmid, hrest⟩ := run_cons_eq_some.mp hrun
    obtain ⟨hI, hR⟩ := hstep s e mid h hmid
    exact htrans s mid t hR (ih hI hrest)

/-- `m` on the states that satisfy an invariant its steps keep. -/
def restrict (m : Machine σ ε) (I : σ → Prop)
    (hstep : ∀ s e t, I s → m.step s e = some t → I t) : Machine {s // I s} ε where
  step s e :=
    match h : m.step s.1 e with
    | none => none
    | some t => some ⟨t, hstep s.1 e t s.2 h⟩

theorem restrict_step {m : Machine σ ε} {I : σ → Prop}
    {hstep : ∀ s e t, I s → m.step s e = some t → I t} {s t : {s // I s}} {e : ε} :
    (m.restrict I hstep).step s e = some t ↔ m.step s.1 e = some t.1 := by
  simp only [restrict]
  split
  · rename_i h
    simp [h]
  · rename_i u h
    simp [h, Subtype.ext_iff]

/-- A run of `m` from a state with the invariant is a run on the states with the
invariant. -/
theorem restrict_run {m : Machine σ ε} {I : σ → Prop}
    (hstep : ∀ s e t, I s → m.step s e = some t → I t) {s : {s // I s}} {t : σ} {es : List ε}
    (hrun : m.run s.1 es = some t) :
    ∃ ht : I t, (m.restrict I hstep).run s es = some ⟨t, ht⟩ := by
  induction es generalizing s with
  | nil =>
    cases Option.some.inj hrun
    exact ⟨s.2, rfl⟩
  | cons e es ih =>
    obtain ⟨mid, hmid, hrest⟩ := run_cons_eq_some.mp hrun
    have hI : I mid := hstep s.1 e mid s.2 hmid
    obtain ⟨ht, hrun'⟩ := ih (s := ⟨mid, hI⟩) hrest
    exact ⟨ht, run_cons_eq_some.mpr ⟨⟨mid, hI⟩, restrict_step.mpr hmid, hrun'⟩⟩

/-- `m` with some of its steps only, such as those that nobody outside has to make. -/
def only (m : Machine σ ε) (p : σ → ε → Bool) : Machine σ ε where
  step s e := if p s e then m.step s e else none

theorem only_step {m : Machine σ ε} {p : σ → ε → Bool} {s t : σ} {e : ε} :
    (m.only p).step s e = some t ↔ p s e = true ∧ m.step s e = some t := by
  by_cases h : p s e = true
  · simp [only, h]
  · simp [only, h]

theorem only_run {m : Machine σ ε} {p : σ → ε → Bool} {s t : σ} {es : List ε}
    (hrun : (m.only p).run s es = some t) : m.run s es = some t := by
  induction es generalizing s with
  | nil => exact hrun
  | cons e es ih =>
    obtain ⟨mid, hmid, hrest⟩ := run_cons_eq_some.mp hrun
    exact run_cons_eq_some.mpr ⟨mid, (only_step.mp hmid).2, ih hrest⟩

/-! ## Guarded steps and outstanding operations -/

/-- A guarded step that was taken: the guard holds, and the step led where it leads. -/
theorem taken {c : Prop} [Decidable c] {s t : σ} (h : (if c then some s else none) = some t) :
    c ∧ s = t := by
  rwa [Option.ite_none_right_eq_some, Option.some.injEq] at h

/-- When at most one operation is outstanding, an outstanding operation is the only
one. -/
theorem outstanding_eq {ops : List δ} (hle : ops.length ≤ 1) {op : δ} (hop : op ∈ ops) :
    ops = [op] := by
  cases ops with
  | nil => cases hop
  | cons first rest =>
    rw [List.length_cons] at hle
    have hrest : rest = [] := List.length_eq_zero_iff.mp (by omega)
    rw [hrest, List.mem_singleton] at hop
    rw [hrest, hop]

/-- What a step from an invariant state demands of its event holds of every event of
a run. -/
theorem run_events {m : Machine σ ε} {I : σ → Prop} {Q : ε → Prop}
    (hstep : ∀ s e t, I s → m.step s e = some t → I t ∧ Q e) {s t : σ} {es : List ε}
    (h : I s) (hrun : m.run s es = some t) : ∀ e ∈ es, Q e := by
  induction es generalizing s with
  | nil =>
    intro e he
    cases he
  | cons first es ih =>
    obtain ⟨mid, hmid, hrest⟩ := run_cons_eq_some.mp hrun
    obtain ⟨hI, hQ⟩ := hstep s first mid h hmid
    intro e he
    rcases List.mem_cons.mp he with rfl | he
    · exact hQ
    · exact ih hI hrest e he

/-- A relation between the events so far and the state, kept by every further step,
holds at the end of a run. -/
theorem run_history {m : Machine σ ε} {R : List ε → σ → Prop}
    (hstep : ∀ past s e t, R past s → m.step s e = some t → R (past ++ [e]) t) {s t : σ}
    {es : List ε} (h : R [] s) (hrun : m.run s es = some t) : R es t := by
  have hpast : ∀ past s, R past s → m.run s es = some t → R (past ++ es) t := by
    clear h hrun
    induction es with
    | nil =>
      intro past s h hrun
      cases Option.some.inj hrun
      rwa [List.append_nil]
    | cons e es ih =>
      intro past s h hrun
      obtain ⟨mid, hmid, hrest⟩ := run_cons_eq_some.mp hrun
      have hall := ih (past ++ [e]) mid (hstep past s e mid h hmid) hrest
      rwa [List.append_assoc] at hall
  exact hpast [] s h hrun

/-! ## What a run counts -/

/-- A counter that goes up at the events of a kind, in states with an invariant, has
counted these events. -/
theorem run_countP {m : Machine σ ε} {I : σ → Prop} {p : ε → Bool} {f : σ → Nat}
    (hI : ∀ s e t, I s → m.step s e = some t → I t)
    (hstep : ∀ s e t, I s → m.step s e = some t → f t = f s + if p e then 1 else 0)
    {s t : σ} {es : List ε} (h : I s) (hrun : m.run s es = some t) :
    f t = f s + es.countP p := by
  induction es generalizing s with
  | nil =>
    cases Option.some.inj hrun
    rfl
  | cons e es ih =>
    obtain ⟨mid, hmid, hrest⟩ := run_cons_eq_some.mp hrun
    rw [ih (hI s e mid h hmid) hrest, hstep s e mid h hmid, List.countP_cons]
    omega

/-- A flag that is raised at the events of a kind tells whether one occurred. -/
theorem run_any {m : Machine σ ε} {p : ε → Bool} {f : σ → Bool}
    (hstep : ∀ s e t, m.step s e = some t → f t = (f s || p e))
    {s t : σ} {es : List ε} (hrun : m.run s es = some t) : f t = (f s || es.any p) := by
  induction es generalizing s with
  | nil =>
    cases Option.some.inj hrun
    rw [List.any_nil, Bool.or_false]
  | cons e es ih =>
    obtain ⟨mid, hmid, hrest⟩ := run_cons_eq_some.mp hrun
    rw [ih hrest, hstep s e mid hmid, List.any_cons, Bool.or_assoc]

/-- When every step makes a number smaller, no run is longer than it. -/
theorem run_length_le {m : Machine σ ε} {I : σ → Prop} {f : σ → Nat}
    (hstep : ∀ s e t, I s → m.step s e = some t → I t ∧ f t < f s) {s t : σ} {es : List ε}
    (h : I s) (hrun : m.run s es = some t) : es.length + f t ≤ f s := by
  induction es generalizing s with
  | nil =>
    cases Option.some.inj hrun
    exact Nat.le_of_eq (Nat.zero_add _)
  | cons e es ih =>
    obtain ⟨mid, hmid, hrest⟩ := run_cons_eq_some.mp hrun
    obtain ⟨hI, hlt⟩ := hstep s e mid h hmid
    have hle := ih hI hrest
    rw [List.length_cons]
    omega

/-- Evaluating a run: it gets somewhere, and there a test succeeds. -/
theorem run_of_any (m : Machine σ ε) (s : σ) (es : List ε) (p : σ → Bool)
    (h : (m.run s es).any p = true) : ∃ t, m.run s es = some t ∧ p t = true := by
  cases hrun : m.run s es with
  | none =>
    rw [hrun] at h
    cases h
  | some t =>
    rw [hrun] at h
    exact ⟨t, rfl, h⟩

/-! ## Runs whose steps meet a condition -/

/-- Every step of the run over `es` from `s` meets `P`, a condition on the state
before the step and the event. -/
def Meets (m : Machine σ ε) (P : σ → ε → Prop) : σ → List ε → Prop
  | _, [] => True
  | s, e :: es => P s e ∧ ∀ t, m.step s e = some t → Meets m P t es

@[simp] theorem meets_nil (m : Machine σ ε) (P : σ → ε → Prop) (s : σ) : m.Meets P s [] :=
  trivial

theorem meets_cons (m : Machine σ ε) (P : σ → ε → Prop) (s : σ) (e : ε) (es : List ε) :
    m.Meets P s (e :: es) ↔ P s e ∧ ∀ t, m.step s e = some t → m.Meets P t es := Iff.rfl

/-- A run can be tested for a condition that can be tested. -/
instance Meets.decidable (m : Machine σ ε) (P : σ → ε → Prop) [∀ s e, Decidable (P s e)] :
    ∀ s es, Decidable (m.Meets P s es)
  | _, [] => isTrue trivial
  | s, e :: es =>
    match h : m.step s e with
    | none => decidable_of_iff (P s e) (by simp [meets_cons, h])
    | some t =>
      have := Meets.decidable m P t es
      decidable_of_iff (P s e ∧ m.Meets P t es) (by simp [meets_cons, h])

theorem meets_of_forall {m : Machine σ ε} {P : σ → ε → Prop} {s : σ} {es : List ε}
    (h : ∀ s, ∀ e ∈ es, P s e) : m.Meets P s es := by
  induction es generalizing s with
  | nil => trivial
  | cons e es ih =>
    exact ⟨h s e List.mem_cons_self, fun t _ => ih fun s e he => h s e (List.mem_cons_of_mem _ he)⟩

theorem meets_append {m : Machine σ ε} {P : σ → ε → Prop} {s : σ} {es fs : List ε}
    (first : m.Meets P s es) (second : ∀ t, m.run s es = some t → m.Meets P t fs) :
    m.Meets P s (es ++ fs) := by
  induction es generalizing s with
  | nil => exact second s rfl
  | cons e es ih =>
    refine ⟨first.1, fun mid hmid => ?_⟩
    exact ih (first.2 mid hmid) fun t ht => second t (run_cons_eq_some.mpr ⟨mid, hmid, ht⟩)

theorem Meets.of_append {m : Machine σ ε} {P : σ → ε → Prop} {s : σ} {es fs : List ε}
    (h : m.Meets P s (es ++ fs)) : m.Meets P s es := by
  induction es generalizing s with
  | nil => trivial
  | cons e es ih => exact ⟨h.1, fun t ht => ih (h.2 t ht)⟩

/-- The invariant rule for an invariant that only steps meeting `P` keep. -/
theorem run_invariant_of_meets {m : Machine σ ε} {P : σ → ε → Prop} {I : σ → Prop}
    (hstep : ∀ s e t, I s → P s e → m.step s e = some t → I t) {s t : σ} {es : List ε}
    (h : I s) (hP : m.Meets P s es) (hrun : m.run s es = some t) : I t := by
  induction es generalizing s with
  | nil =>
    cases Option.some.inj hrun
    exact h
  | cons e es ih =>
    obtain ⟨mid, hmid, hrest⟩ := run_cons_eq_some.mp hrun
    exact ih (hstep s e mid h hP.1 hmid) (hP.2 mid hmid) hrest

/-- A condition on the steps of a run implies another one, when it does so in the states
with an invariant that its steps keep. -/
theorem Meets.mono {m : Machine σ ε} {P Q : σ → ε → Prop} {I : σ → Prop}
    (hstep : ∀ s e t, I s → P s e → m.step s e = some t → I t)
    (himp : ∀ s e t, I s → m.step s e = some t → P s e → Q s e) {s t : σ} {es : List ε}
    (h : I s) (hP : m.Meets P s es) (hrun : m.run s es = some t) : m.Meets Q s es := by
  induction es generalizing s with
  | nil => trivial
  | cons e es ih =>
    obtain ⟨mid, hmid, hrest⟩ := run_cons_eq_some.mp hrun
    refine ⟨himp s e mid h hmid hP.1, fun mid' hmid' => ?_⟩
    cases Option.some.inj (hmid.symm.trans hmid')
    exact ih (hstep s e mid h hP.1 hmid) (hP.2 mid hmid) hrest

/-- A property of the states of a run holds in all of them exactly when all steps meet a
condition, if steps that meet it keep an invariant that implies the property, and no other
step leads to a state with the property. -/
theorem always_iff_meets {m : Machine σ ε} {P : σ → ε → Prop} {I Q : σ → Prop}
    (hkeep : ∀ s e t, I s → P s e → m.step s e = some t → I t) (hholds : ∀ s, I s → Q s)
    (hbreak : ∀ s e t, I s → m.step s e = some t → Q t → P s e) {s u : σ} {es : List ε}
    (h : I s) (hrun : m.run s es = some u) :
    (∀ past t, past <+: es → m.run s past = some t → Q t) ↔ m.Meets P s es := by
  constructor
  · intro hall
    induction es generalizing s with
    | nil => trivial
    | cons e es ih =>
      obtain ⟨mid, hmid, hrest⟩ := run_cons_eq_some.mp hrun
      have hP : P s e := hbreak s e mid h hmid
        (hall [e] mid ⟨es, rfl⟩ (run_cons_eq_some.mpr ⟨mid, hmid, rfl⟩))
      refine ⟨hP, fun mid' hmid' => ?_⟩
      cases Option.some.inj (hmid.symm.trans hmid')
      refine ih (hkeep s e mid h hP hmid) hrest ?_
      intro past t hpast hrun'
      exact hall (e :: past) t ((List.prefix_cons_inj e).mpr hpast)
        (run_cons_eq_some.mpr ⟨mid, hmid, hrun'⟩)
  · rintro hmeets past t ⟨later, rfl⟩ hrun'
    exact hholds t (run_invariant_of_meets hkeep h hmeets.of_append hrun')

/-! ## Refinement -/

/-- The events of the abstract machine that a concrete run stands for. -/
def labels (m : Machine σ ε) (lab : σ → ε → δ) : σ → List ε → List δ
  | _, [] => []
  | s, e :: es => lab s e :: ((m.step s e).map fun t => labels m lab t es).getD []

/-- `m` refines `m'` through `abs`: the abstraction of a step of `m` is a step of
`m'`, on the event `lab` names. -/
def Refines (m : Machine σ ε) (m' : Machine τ δ) (abs : σ → τ) (lab : σ → ε → δ) : Prop :=
  ∀ s e t, m.step s e = some t → m'.step (abs s) (lab s e) = some (abs t)

theorem Refines.run {m : Machine σ ε} {m' : Machine τ δ} {abs : σ → τ} {lab : σ → ε → δ}
    (hm : m.Refines m' abs lab) {s t : σ} {es : List ε} (hrun : m.run s es = some t) :
    m'.run (abs s) (m.labels lab s es) = some (abs t) := by
  induction es generalizing s with
  | nil =>
    cases Option.some.inj hrun
    rfl
  | cons e es ih =>
    obtain ⟨mid, hmid, hrest⟩ := run_cons_eq_some.mp hrun
    simp only [labels, hmid, Option.map_some, Option.getD_some]
    exact run_cons_eq_some.mpr ⟨abs mid, hm s e mid hmid, ih hrest⟩

/-- An invariant of the abstract machine holds of the abstraction of every state
a concrete run reaches. -/
theorem Refines.invariant {m : Machine σ ε} {m' : Machine τ δ} {abs : σ → τ}
    {lab : σ → ε → δ} (hm : m.Refines m' abs lab) {I : τ → Prop}
    (hstep : ∀ s e t, I s → m'.step s e = some t → I t) {s t : σ} {es : List ε}
    (h : I (abs s)) (hrun : m.run s es = some t) : I (abs t) :=
  run_invariant hstep h (hm.run hrun)

/-- A condition on the steps of a concrete run carries over to the abstract run. -/
theorem Refines.meets {m : Machine σ ε} {m' : Machine τ δ} {abs : σ → τ} {lab : σ → ε → δ}
    (hm : m.Refines m' abs lab) {P : σ → ε → Prop} {Q : τ → δ → Prop}
    (hPQ : ∀ s e, P s e → Q (abs s) (lab s e)) {s t : σ} {es : List ε}
    (hP : m.Meets P s es) (hrun : m.run s es = some t) :
    m'.Meets Q (abs s) (m.labels lab s es) := by
  induction es generalizing s with
  | nil => trivial
  | cons e es ih =>
    obtain ⟨mid, hmid, hrest⟩ := run_cons_eq_some.mp hrun
    simp only [labels, hmid, Option.map_some, Option.getD_some]
    refine ⟨hPQ s e hP.1, fun t' ht' => ?_⟩
    rw [hm s e mid hmid] at ht'
    cases Option.some.inj ht'
    exact ih (hP.2 mid hmid) hrest

/-- A relation between the states of two machines that every step of `m` meeting `P`
keeps, when `m'` takes the step `lab` names: so does every run. -/
theorem run_simulates {m : Machine σ ε} {m' : Machine τ δ} {P : σ → ε → Prop}
    {R : σ → τ → Prop} {lab : ε → δ}
    (hstep : ∀ s e t a, R s a → P s e → m.step s e = some t →
      ∃ b, m'.step a (lab e) = some b ∧ R t b) {s t : σ} {a : τ} {es : List ε} (h : R s a)
    (hP : m.Meets P s es) (hrun : m.run s es = some t) :
    ∃ b, m'.run a (es.map lab) = some b ∧ R t b := by
  induction es generalizing s a with
  | nil =>
    cases Option.some.inj hrun
    exact ⟨a, rfl, h⟩
  | cons e es ih =>
    obtain ⟨mid, hmid, hrest⟩ := run_cons_eq_some.mp hrun
    obtain ⟨b, hb, hR⟩ := hstep s e mid a h hP.1 hmid
    obtain ⟨c, hc, hend⟩ := ih hR (hP.2 mid hmid) hrest
    exact ⟨c, run_cons_eq_some.mpr ⟨b, hb, hc⟩, hend⟩

/-- A simulation in which some events of `m` are none of `m'`. -/
theorem run_stutters {m : Machine σ ε} {m' : Machine τ δ} {R : σ → τ → Prop} {lab : ε → Option δ}
    (hstep : ∀ s e t a, R s a → m.step s e = some t →
      (lab e = none ∧ R t a) ∨ ∃ d b, lab e = some d ∧ m'.step a d = some b ∧ R t b)
    {s t : σ} {a : τ} {es : List ε} (h : R s a) (hrun : m.run s es = some t) :
    ∃ b, m'.run a (es.filterMap lab) = some b ∧ R t b := by
  induction es generalizing s a with
  | nil =>
    cases Option.some.inj hrun
    exact ⟨a, rfl, h⟩
  | cons e es ih =>
    obtain ⟨mid, hmid, hrest⟩ := run_cons_eq_some.mp hrun
    rcases hstep s e mid a h hmid with ⟨hno, hR⟩ | ⟨d, b, hd, hb, hR⟩
    · rw [List.filterMap_cons_none hno]
      exact ih hR hrest
    · obtain ⟨c, hc, hend⟩ := ih hR hrest
      rw [List.filterMap_cons_some hd]
      exact ⟨c, run_cons_eq_some.mpr ⟨b, hb, hc⟩, hend⟩

end Machine

end ServerAsync.Misc
