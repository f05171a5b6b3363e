import ServerAsync.Misc.Wiring
import Mathlib.Order.Monotone.Defs

/-!
# What gets through wired machines

A station is at rest when it has no step that takes no more than its peers have put. One that
relays has done everything when it is at rest: the far peer has got all that the near one's
symbols stand for, and the near peer all that the far one has put. It also comes to rest,
whatever its steps are and in whatever order it takes them. Stations that relay, wired one
behind the other, relay.
-/

namespace ServerAsync.Misc

/-- The events of a sum are those of its two parts. -/
theorem length_filterMap_sum {β γ : Type*} (es : List (β ⊕ γ)) :
    es.length = (es.filterMap Sum.getLeft?).length + (es.filterMap Sum.getRight?).length := by
  induction es with
  | nil => rfl
  | cons e es ih =>
    cases e with
    | inl b =>
      rw [List.filterMap_cons_some (show Sum.getLeft? (Sum.inl b : β ⊕ γ) = some b from rfl),
        List.filterMap_cons_none (show Sum.getRight? (Sum.inl b : β ⊕ γ) = none from rfl),
        List.length_cons, List.length_cons]
      omega
    | inr c =>
      rw [List.filterMap_cons_none (show Sum.getLeft? (Sum.inr c : β ⊕ γ) = none from rfl),
        List.filterMap_cons_some (show Sum.getRight? (Sum.inr c : β ⊕ γ) = some c from rfl),
        List.length_cons, List.length_cons]
      omega

namespace Station

variable {α : Type*}

/-- A station that takes only some of its steps. -/
def only (A : Station α) (p : A.State → A.Event → Bool) : Station α where
  State := A.State
  Event := A.Event
  machine := A.machine.only p
  start := A.start
  taken := A.taken
  put := A.put
  fresh := A.fresh
  grows s e t hstep := A.grows s e t (Machine.only_step.mp hstep).2

theorem Conveys.only {A : Station α} {w w' lead : List α} (h : A.Conveys w w' lead)
    (p : A.State → A.Event → Bool) : (A.only p).Conveys w w' lead :=
  fun es s hrun htaken => h es s (Machine.only_run hrun) htaken

/-- No step is left for the station, the near peer having put `w` and the far one `u`. -/
def Rests (A : Station α) (w u : List α) (s : A.State) : Prop :=
  ∀ e t, A.machine.step s e = some t → A.taken t .near <+: w → ¬A.taken t .far <+: u

/-- At rest everything has got through. -/
def Delivers (A : Station α) (w w' lead : List α) : Prop :=
  ∀ es s u, A.machine.run A.start es = some s → A.taken s .near <+: w → A.taken s .far <+: u →
    A.Rests w u s → A.put s .far = w' ∧ A.put s .near = lead ++ u

/-- A run is only as long as what it has taken allows. -/
def Ends (A : Station α) (w : List α) : Prop :=
  ∃ limit : Nat → Nat, Monotone limit ∧ ∀ es s, A.machine.run A.start es = some s →
    A.taken s .near <+: w → es.length ≤ limit (A.taken s .far).length

/-- What has gone through a station. -/
def load (A : Station α) (s : A.State) : Nat :=
  2 * (A.taken s .near).length + 2 * (A.taken s .far).length + (A.put s .near).length +
    (A.put s .far).length

theorem taken_run {A : Station α} {s t : A.State} {es : List A.Event}
    (hrun : A.machine.run s es = some t) (p : Port) : A.taken s p <+: A.taken t p :=
  Machine.run_invariant (I := fun t => A.taken s p <+: A.taken t p)
    (fun _ _ _ h hstep => h.trans (A.grows _ _ _ hstep p).1) List.prefix_rfl hrun

/-- When every step lets something through, or gets the station to a higher rank, no run is
longer than what has got through. -/
theorem length_le_load {A : Station α} {w : List α} {I : A.State → Prop} (rank : A.State → Nat)
    (hstep : ∀ s e t, I s → A.machine.step s e = some t → A.taken t .near <+: w →
      I t ∧ A.load s + rank s < A.load t + rank t) {s t : A.State} {es : List A.Event} (h : I s)
    (hrun : A.machine.run s es = some t) (htaken : A.taken t .near <+: w) :
    es.length + (A.load s + rank s) ≤ A.load t + rank t := by
  induction es generalizing s with
  | nil =>
    cases Option.some.inj hrun
    exact Nat.le_of_eq (Nat.zero_add _)
  | cons e es ih =>
    obtain ⟨mid, hmid, hrest⟩ := Machine.run_cons_eq_some.mp hrun
    obtain ⟨hI, hlt⟩ := hstep s e mid h hmid ((taken_run hrest .near).trans htaken)
    have hle := ih hI hrest
    rw [List.length_cons]
    omega

/-- A station that conveys ends when that holds of its steps and there is a highest rank. -/
theorem Conveys.ends {A : Station α} {w w' lead : List α} (h : A.Conveys w w' lead)
    {I : A.State → Prop} (rank : A.State → Nat) (top : Nat) (hI : I A.start)
    (hstep : ∀ s e t, I s → A.machine.step s e = some t → A.taken t .near <+: w →
      I t ∧ A.load s + rank s < A.load t + rank t) (htop : ∀ s, rank s ≤ top) : A.Ends w := by
  refine ⟨fun k => 2 * w.length + 2 * k + (lead.length + k) + w'.length + top,
    fun a b hab => by dsimp only; omega, fun es s hrun htaken => ?_⟩
  have hlength := length_le_load rank hstep hI hrun htaken
  obtain ⟨hfar, hnear⟩ := h es s hrun htaken
  have hnear := hnear.length_le
  rw [List.length_append] at hnear
  have hfar := hfar.length_le
  have htaken := htaken.length_le
  have hrank := htop s
  unfold load at hlength
  dsimp only
  omega

/-- What a relay is for. -/
structure Relays (A : Station α) (w w' lead : List α) : Prop where
  conveys : A.Conveys w w' lead
  delivers : A.Delivers w w' lead
  ends : A.Ends w

section Join

variable [DecidableEq α] {A B : Station α} {w w' w'' lead lead' u : List α}

/-- Two stations at rest: either rests with what the other has put. -/
theorem rests_join {s : A.State × B.State} (h : (A.join B).Rests w u s)
    (hnear : A.taken s.1 .near <+: w) (hfar : B.taken s.2 .far <+: u) :
    A.Rests w (B.put s.2 .near) s.1 ∧ B.Rests (A.put s.1 .far) u s.2 := by
  constructor
  · intro e a ha htaken hput
    exact h (.inl e) (a, s.2) (joinStep_inl.mpr ⟨a, ha, hput, rfl⟩) htaken hfar
  · intro e b hb hput htaken
    exact h (.inr e) (s.1, b) (joinStep_inr.mpr ⟨b, hb, hput, rfl⟩) hnear htaken

theorem Delivers.join (hA : A.Delivers w w' lead) (hB : B.Delivers w' w'' lead') :
    (A.join B).Delivers w w'' (lead ++ lead') := by
  intro es s u hrun hnear hfar hrests
  obtain ⟨hrunA, hrunB, hwired⟩ := join_run hrun
  obtain ⟨hrestsA, hrestsB⟩ := rests_join hrests hnear hfar
  obtain ⟨hforth, hback⟩ := hA _ _ _ hrunA hnear hwired.back hrestsA
  have hwire := hwired.forth
  rw [hforth] at hwire hrestsB
  obtain ⟨hput, hgot⟩ := hB _ _ _ hrunB hwire hfar hrestsB
  refine ⟨hput, hback.trans ?_⟩
  rw [hgot, List.append_assoc]

theorem Relays.join (hA : A.Relays w w' lead) (hB : B.Relays w' w'' lead') :
    (A.join B).Relays w w'' (lead ++ lead') where
  conveys := hA.conveys.join hB.conveys
  delivers := hA.delivers.join hB.delivers
  ends := by
    obtain ⟨limitA, hmonoA, hlimitA⟩ := hA.ends
    obtain ⟨limitB, hmonoB, hlimitB⟩ := hB.ends
    refine ⟨fun k => limitA (lead'.length + k) + limitB k, fun a b hab =>
      Nat.add_le_add (hmonoA (Nat.add_le_add_left hab _)) (hmonoB hab), fun es s hrun hnear => ?_⟩
    obtain ⟨hrunA, hrunB, hwired⟩ := join_run hrun
    obtain ⟨hwire, -⟩ := hA.conveys.attached hrun hnear
    have hleA := hlimitA _ _ hrunA hnear
    have hleB := hlimitB _ _ hrunB hwire
    -- what `A` has taken from `B` is bounded by what `B` has taken
    have hback := (hwired.back.trans (hB.conveys _ _ hrunB hwire).2).length_le
    rw [List.length_append] at hback
    have hsum : es.length = _ := length_filterMap_sum (es : List (A.Event ⊕ B.Event))
    rw [hsum]
    exact Nat.add_le_add (hleA.trans (hmonoA hback)) hleB

end Join

/-- A station that makes at most `n` steps before it gets to a state with `P` gets to one, or
comes to rest. -/
theorem rests_or {A : Station α} {w u : List α} {P : A.State → Prop} : ∀ (n : Nat) (s : A.State),
    A.taken s .near <+: w → A.taken s .far <+: u →
    (∀ fs t, A.machine.run s fs = some t → A.taken t .near <+: w → A.taken t .far <+: u →
      ¬P t → fs.length < n) → ∃ fs t, A.machine.run s fs = some t ∧ A.taken t .near <+: w ∧
        A.taken t .far <+: u ∧ (A.Rests w u t ∨ P t) := by
  intro n
  induction n with
  | zero =>
    intro s hnear hfar hlimit
    by_cases hP : P s
    · exact ⟨[], s, rfl, hnear, hfar, Or.inr hP⟩
    · exact absurd (hlimit [] s rfl hnear hfar hP) (Nat.lt_irrefl 0)
  | succ n ih =>
    intro s hnear hfar hlimit
    by_cases hrests : A.Rests w u s
    · exact ⟨[], s, rfl, hnear, hfar, Or.inl hrests⟩
    · simp only [Rests, not_forall, not_not] at hrests
      obtain ⟨e, t, hstep, hnear', hfar'⟩ := hrests
      obtain ⟨fs, v, hrest, hend⟩ := ih t hnear' hfar' fun fs v hrun hnear hfar hP =>
        Nat.lt_of_succ_lt_succ (hlimit (e :: fs) v
          (Machine.run_cons_eq_some.mpr ⟨t, hstep, hrun⟩) hnear hfar hP)
      exact ⟨e :: fs, v, Machine.run_cons_eq_some.mpr ⟨t, hstep, hrest⟩, hend⟩

/-- A station that makes at most `n` steps comes to rest. -/
theorem rests_within {A : Station α} {w u : List α} {n : Nat} {s : A.State}
    (hnear : A.taken s .near <+: w) (hfar : A.taken s .far <+: u)
    (hlimit : ∀ fs t, A.machine.run s fs = some t → A.taken t .near <+: w →
      A.taken t .far <+: u → fs.length ≤ n) : ∃ fs t, A.machine.run s fs = some t ∧
        A.taken t .near <+: w ∧ A.taken t .far <+: u ∧ A.Rests w u t := by
  obtain ⟨fs, t, hrun, hnear, hfar, hend⟩ := rests_or (P := fun _ => False) (n + 1) s hnear hfar
    fun fs t hrun hnear hfar _ => Nat.lt_succ_of_le (hlimit fs t hrun hnear hfar)
  exact ⟨fs, t, hrun, hnear, hfar, hend.resolve_right id⟩

/-- A relay comes to rest, whatever it has done so far. -/
theorem Relays.comes_to_rest {A : Station α} {w w' lead u : List α} (h : A.Relays w w' lead)
    {es : List A.Event} {s : A.State} (hrun : A.machine.run A.start es = some s)
    (hnear : A.taken s .near <+: w) (hfar : A.taken s .far <+: u) :
    ∃ fs t, A.machine.run s fs = some t ∧ A.taken t .near <+: w ∧ A.taken t .far <+: u ∧
      A.Rests w u t := by
  obtain ⟨limit, hmono, hlimit⟩ := h.ends
  refine rests_within (n := limit u.length) hnear hfar fun fs t hmore hnear hfar => ?_
  have hle := (hlimit _ _ (Machine.run_append hrun hmore) hnear).trans (hmono hfar.length_le)
  rw [List.length_append] at hle
  omega

end Station

end ServerAsync.Misc
