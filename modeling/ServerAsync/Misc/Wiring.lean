import ServerAsync.Misc.Machine
import Mathlib.Data.List.Infix

/-!
# Machines wired to each other

A station stands between two peers. It takes symbols from each of them, and puts symbols to
it. When two stations are wired, what either takes from the other is a front of what that
one has put: on the wire nothing is reordered, doubled or made up, but the last symbols may
never arrive. A station conveys a stream when it puts to the far peer what it should,
whatever front of the stream it takes from the near peer, and puts to the near peer what it
takes from the far one. Stations that convey, wired one behind the other, convey.
-/

namespace ServerAsync.Misc

/-- The two peers of a station. -/
inductive Port where
  | near
  | far
  deriving DecidableEq, Repr

/-- A machine with all that it has taken from its peers and put to them. It starts with
nothing taken, and what has been taken and put stays so. -/
structure Station (α : Type*) where
  State : Type
  Event : Type
  machine : Machine State Event
  start : State
  taken : State → Port → List α
  put : State → Port → List α
  fresh : ∀ p, taken start p = []
  grows : ∀ s e t, machine.step s e = some t → ∀ p,
    taken s p <+: taken t p ∧ put s p <+: put t p

namespace Station

variable {α : Type*}

section Join

variable [DecidableEq α]

/-- A step of either of two stations, the far peer of `A` being `B`. -/
def joinStep (A B : Station α) (s : A.State × B.State) :
    A.Event ⊕ B.Event → Option (A.State × B.State)
  | .inl e => (A.machine.step s.1 e).bind fun a =>
    if A.taken a .far <+: B.put s.2 .near then some (a, s.2) else none
  | .inr e => (B.machine.step s.2 e).bind fun b =>
    if B.taken b .near <+: A.put s.1 .far then some (s.1, b) else none

variable {A B : Station α} {s t : A.State × B.State}

theorem joinStep_inl {e : A.Event} : joinStep A B s (.inl e) = some t ↔
    ∃ a, A.machine.step s.1 e = some a ∧ A.taken a .far <+: B.put s.2 .near ∧ t = (a, s.2) := by
  simp only [joinStep, Option.bind_eq_some_iff, Option.ite_none_right_eq_some, Option.some.injEq,
    eq_comm (a := t)]

theorem joinStep_inr {e : B.Event} : joinStep A B s (.inr e) = some t ↔
    ∃ b, B.machine.step s.2 e = some b ∧ B.taken b .near <+: A.put s.1 .far ∧ t = (s.1, b) := by
  simp only [joinStep, Option.bind_eq_some_iff, Option.ite_none_right_eq_some, Option.some.injEq,
    eq_comm (a := t)]

/-- The two as one station. -/
def join (A B : Station α) : Station α where
  State := A.State × B.State
  Event := A.Event ⊕ B.Event
  machine := ⟨joinStep A B⟩
  start := (A.start, B.start)
  taken s
    | .near => A.taken s.1 .near
    | .far => B.taken s.2 .far
  put s
    | .near => A.put s.1 .near
    | .far => B.put s.2 .far
  fresh
    | .near => A.fresh .near
    | .far => B.fresh .far
  grows s e t hstep p := by
    cases e with
    | inl e =>
      obtain ⟨a, ha, -, rfl⟩ := joinStep_inl.mp hstep
      cases p with
      | near => exact A.grows _ _ _ ha .near
      | far => exact ⟨List.prefix_rfl, List.prefix_rfl⟩
    | inr e =>
      obtain ⟨b, hb, -, rfl⟩ := joinStep_inr.mp hstep
      cases p with
      | near => exact ⟨List.prefix_rfl, List.prefix_rfl⟩
      | far => exact B.grows _ _ _ hb .far

/-- What each of the two has taken from the other has been put. -/
structure Wired (A B : Station α) (s : A.State × B.State) : Prop where
  forth : B.taken s.2 .near <+: A.put s.1 .far
  back : A.taken s.1 .far <+: B.put s.2 .near

theorem wired_start (A B : Station α) : Wired A B (A.join B).start where
  forth := by
    rw [show (A.join B).start.2 = B.start from rfl, B.fresh]
    exact List.nil_prefix
  back := by
    rw [show (A.join B).start.1 = A.start from rfl, A.fresh]
    exact List.nil_prefix

theorem Wired.step (h : Wired A B s) {e : A.Event ⊕ B.Event}
    (hstep : (A.join B).machine.step s e = some t) : Wired A B t := by
  cases e with
  | inl e =>
    obtain ⟨a, ha, hback, rfl⟩ := joinStep_inl.mp hstep
    exact ⟨h.forth.trans (A.grows _ _ _ ha .far).2, hback⟩
  | inr e =>
    obtain ⟨b, hb, hforth, rfl⟩ := joinStep_inr.mp hstep
    exact ⟨hforth, h.back.trans (B.grows _ _ _ hb .near).2⟩

/-- A run of the two is a run of either, with the wire between them. -/
theorem join_run {es : List (A.Event ⊕ B.Event)}
    (hrun : (A.join B).machine.run (A.join B).start es = some t) :
    A.machine.run A.start (es.filterMap Sum.getLeft?) = some t.1 ∧
      B.machine.run B.start (es.filterMap Sum.getRight?) = some t.2 ∧ Wired A B t := by
  refine ⟨?_, ?_, Machine.run_invariant (I := Wired A B) (fun _ _ _ h hstep => h.step hstep)
    (wired_start A B) hrun⟩
  · have hpart : ∃ a, A.machine.run A.start (es.filterMap Sum.getLeft?) = some a ∧ t.1 = a := by
      refine Machine.run_stutters (R := fun s a => s.1 = a) ?_ rfl hrun
      rintro s e t a rfl hstep
      cases e with
      | inl e =>
        obtain ⟨a, ha, -, rfl⟩ := joinStep_inl.mp hstep
        exact Or.inr ⟨e, a, rfl, ha, rfl⟩
      | inr e =>
        obtain ⟨b, -, -, rfl⟩ := joinStep_inr.mp hstep
        exact Or.inl ⟨rfl, rfl⟩
    obtain ⟨a, ha, rfl⟩ := hpart
    exact ha
  · have hpart : ∃ b, B.machine.run B.start (es.filterMap Sum.getRight?) = some b ∧ t.2 = b := by
      refine Machine.run_stutters (R := fun s b => s.2 = b) ?_ rfl hrun
      rintro s e t b rfl hstep
      cases e with
      | inl e =>
        obtain ⟨a, -, -, rfl⟩ := joinStep_inl.mp hstep
        exact Or.inl ⟨rfl, rfl⟩
      | inr e =>
        obtain ⟨b, hb, -, rfl⟩ := joinStep_inr.mp hstep
        exact Or.inr ⟨e, b, rfl, hb, rfl⟩
    obtain ⟨b, hb, rfl⟩ := hpart
    exact hb

end Join

/-- In every run, as long as `A` has taken a front of `w` from the near peer, it has put a
front of `w'` to the far one, and to the near one `lead` and then what it has taken from the
far one. -/
def Conveys (A : Station α) (w w' lead : List α) : Prop :=
  ∀ es s, A.machine.run A.start es = some s → A.taken s .near <+: w →
    A.put s .far <+: w' ∧ A.put s .near <+: lead ++ A.taken s .far

variable [DecidableEq α] {A B : Station α} {w w' w'' lead lead' : List α}

/-- Whatever is wired behind a station that conveys. -/
theorem Conveys.attached (h : A.Conveys w w' lead) {s : A.State × B.State}
    {es : List (A.Event ⊕ B.Event)} (hrun : (A.join B).machine.run (A.join B).start es = some s)
    (htaken : A.taken s.1 .near <+: w) :
    B.taken s.2 .near <+: w' ∧ A.put s.1 .near <+: lead ++ B.put s.2 .near := by
  obtain ⟨hA, -, hwired⟩ := join_run hrun
  obtain ⟨hforth, hback⟩ := h _ _ hA htaken
  exact ⟨hwired.forth.trans hforth,
    hback.trans ((List.prefix_append_right_inj lead).mpr hwired.back)⟩

theorem Conveys.join (hA : A.Conveys w w' lead) (hB : B.Conveys w' w'' lead') :
    (A.join B).Conveys w w'' (lead ++ lead') := by
  intro es s hrun htaken
  obtain ⟨hnear, hput⟩ := hA.attached hrun htaken
  obtain ⟨-, hrunB, -⟩ := join_run hrun
  obtain ⟨hfar, hback⟩ := hB _ _ hrunB hnear
  refine ⟨hfar, hput.trans ?_⟩
  rw [List.append_assoc]
  exact (List.prefix_append_right_inj lead).mpr hback

end Station

end ServerAsync.Misc
