import ServerAsync.Misc.Machine
import ServerAsync.Misc.Parts
import Mathlib.Data.List.Basic

/-!
# Machines that host others

A server is a machine whose parts are machines too, one for each connection. Its parts
come in one after the other, and an event is for one of them or for none. As long as the
server is up, a part that is in can take every step that it could take alone. Then what a
part has done is a run of its own, and whatever the server has done, a part can go on as if
it were alone unless it is down.
-/

namespace ServerAsync.Misc

variable {σ ε τ δ : Type*}

/-- In the states with the invariant `I`, `m` hosts copies of `p`: `part s k` is the one
with the number `k`, if it is in, `event k e` is what `e` is for it, and `toPart k d` is `d`
for it. Parts come in as `born` says. A part takes `m` down only with its own last step. -/
structure Hosts (m : Machine σ ε) (p : Machine τ δ) (I up : σ → Prop)
    (part : σ → Nat → Option τ) (event : Nat → ε → Option δ) (toPart : Nat → δ → ε)
    (born : τ → Prop) : Prop where
  keeps : ∀ s e t, I s → m.step s e = some t → I t
  absent : ∀ s e t k, I s → m.step s e = some t → part s k = none →
    event k e = none ∧ ∀ c, part t k = some c → born c
  present : ∀ s e t k b, m.step s e = some t → part s k = some b → ∃ c, part t k = some c ∧
    (event k e = none ∧ c = b ∨ ∃ d, event k e = some d ∧ p.step b d = some c)
  hosted : ∀ s k b d c, up s → part s k = some b → p.step b d = some c →
    ∃ t, m.step s (toPart k d) = some t ∧ part t k = some c ∧
      (∀ j, j ≠ k → part t j = part s j) ∧ (up t ∨ ∀ d', p.step c d' = none)

namespace Hosts

variable {m : Machine σ ε} {p : Machine τ δ} {I up : σ → Prop} {part : σ → Nat → Option τ}
  {event : Nat → ε → Option δ} {toPart : Nat → δ → ε} {born : τ → Prop}

/-- Parts that are not in have had no event, and the others have done what the events for
them say. -/
def Attributed (p : Machine τ δ) (part : σ → Nat → Option τ) (event : Nat → ε → Option δ)
    (born : τ → Prop) (past : List ε) (s : σ) : Prop :=
  ∀ k, (part s k = none → past.filterMap (event k) = []) ∧
    ∀ c, part s k = some c → ∃ c₀, born c₀ ∧ p.run c₀ (past.filterMap (event k)) = some c

theorem attributed_step (h : Hosts m p I up part event toPart born) {past : List ε} {s t : σ}
    {e : ε} (hI : I s) (hpast : Attributed p part event born past s) (hstep : m.step s e = some t) :
    Attributed p part event born (past ++ [e]) t := by
  intro k
  obtain ⟨hout, hin⟩ := hpast k
  rw [List.filterMap_append]
  cases hpart : part s k with
  | none =>
    obtain ⟨hno, hborn⟩ := h.absent s e t k hI hstep hpart
    rw [hout hpart, List.filterMap_cons_none hno]
    exact ⟨fun _ => rfl, fun c hc => ⟨c, hborn c hc, rfl⟩⟩
  | some b =>
    obtain ⟨c₀, hborn, hb⟩ := hin b hpart
    obtain ⟨c', hc', hmoved⟩ := h.present s e t k b hstep hpart
    constructor
    · intro hnone
      rw [hc'] at hnone
      cases hnone
    · intro c hc
      cases Option.some.inj (hc'.symm.trans hc)
      refine ⟨c₀, hborn, ?_⟩
      rcases hmoved with ⟨hno, rfl⟩ | ⟨d, hd, hb'⟩
      · rw [List.filterMap_cons_none hno, List.filterMap_nil, List.append_nil]
        exact hb
      · rw [List.filterMap_cons_some hd, List.filterMap_nil]
        exact Machine.run_append hb (Machine.run_cons_eq_some.mpr ⟨_, hb', rfl⟩)

/-- What a part has done by the end of a run is a run of its own, over the events for
it. -/
theorem run (h : Hosts m p I up part event toPart born) {s t : σ} {es : List ε} (hI : I s)
    (hempty : ∀ k, part s k = none) (hrun : m.run s es = some t) {k : Nat} {c : τ}
    (hc : part t k = some c) : ∃ c₀, born c₀ ∧ p.run c₀ (es.filterMap (event k)) = some c := by
  have hstart : Attributed p part event born [] s := by
    intro k
    refine ⟨fun _ => rfl, fun c hc => ?_⟩
    rw [hempty k] at hc
    cases hc
  have hend := Machine.run_history (R := fun past s => I s ∧ Attributed p part event born past s)
    (fun _ s e t hpast hstep =>
      ⟨h.keeps s e t hpast.1 hstep, h.attributed_step hpast.1 hpast.2 hstep⟩)
    ⟨hI, hstart⟩ hrun
  exact (hend.2 k).2 c hc

/-- What holds of the parts that come in, and is kept by a part's own steps, holds of all
parts. -/
theorem forall_part (h : Hosts m p I up part event toPart born) {J : Nat → τ → Prop} {s t : σ}
    {e : ε} (hI : I s) (hstart : ∀ k c, born c → J k c)
    (hkeep : ∀ k b d c, part s k = some b → J k b → event k e = some d → p.step b d = some c →
      J k c)
    (hall : ∀ k b, part s k = some b → J k b) (hstep : m.step s e = some t) :
    ∀ k c, part t k = some c → J k c := by
  intro k c hc
  cases hpart : part s k with
  | none => exact hstart k c ((h.absent s e t k hI hstep hpart).2 c hc)
  | some b =>
    obtain ⟨c', hc', hmoved⟩ := h.present s e t k b hstep hpart
    cases Option.some.inj (hc'.symm.trans hc)
    rcases hmoved with ⟨-, rfl⟩ | ⟨d, hd, hb⟩
    · exact hall k _ hpart
    · exact hkeep k b d _ hpart (hall k b hpart) hd hb

/-- Parts in a list: a step leaves them as they are, adds one that was born, or is one of a
part of its own. -/
theorem ofList {m : Machine σ ε} {p : Machine τ δ} {I : σ → Prop} {parts : σ → List τ}
    {event : Nat → ε → Option δ} {toPart : Nat → δ → ε} {born : τ → Prop}
    (hkeeps : ∀ s e t, I s → m.step s e = some t → I t)
    (hstep : ∀ s e t, m.step s e = some t →
      ((∀ k, event k e = none) ∧
        (parts t = parts s ∨ ∃ c, (I s → born c) ∧ parts t = parts s ++ [c])) ∨
      ∃ k d b c, (∀ j, event j e = if k = j then some d else none) ∧ (parts s)[k]? = some b ∧
        p.step b d = some c ∧ parts t = (parts s).set k c)
    (hhosted : ∀ s k b d c, (parts s)[k]? = some b → p.step b d = some c →
      ∃ t, m.step s (toPart k d) = some t ∧ parts t = (parts s).set k c) :
    Hosts m p I (fun _ => True) (fun s k => (parts s)[k]?) event toPart born where
  keeps := hkeeps
  absent := by
    intro s e t k hI he hnone
    rcases hstep s e t he with
      ⟨hno, hsame | ⟨c, hborn, hadded⟩⟩ | ⟨j, d, b, c, hfor, hb, -, hset⟩
    · refine ⟨hno k, fun c hc => ?_⟩
      rw [hsame, hnone] at hc
      cases hc
    · refine ⟨hno k, fun c' hc => ?_⟩
      rw [hadded] at hc
      rcases Parts.getElem?_concat_cases hc with ⟨-, rfl⟩ | hold
      · exact hborn hI
      · rw [hnone] at hold
        cases hold
    · have hother : j ≠ k := by
        rintro rfl
        rw [hb] at hnone
        cases hnone
      refine ⟨(hfor k).trans (if_neg hother), fun c' hc => ?_⟩
      rw [hset, List.getElem?_set_ne hother, hnone] at hc
      cases hc
  present := by
    intro s e t k b he hb
    rcases hstep s e t he with
      ⟨hno, hsame | ⟨c, -, hadded⟩⟩ | ⟨j, d, b', c, hfor, hb', hc, hset⟩
    · exact ⟨b, hsame ▸ hb, Or.inl ⟨hno k, rfl⟩⟩
    · exact ⟨b, hadded ▸ Parts.getElem?_concat_of_some hb, Or.inl ⟨hno k, rfl⟩⟩
    · by_cases heq : j = k
      · subst heq
        cases Option.some.inj (hb'.symm.trans hb)
        exact ⟨c, hset ▸ Parts.getElem?_set_of_some hb,
          Or.inr ⟨d, (hfor j).trans (if_pos rfl), hc⟩⟩
      · refine ⟨b, ?_, Or.inl ⟨(hfor k).trans (if_neg heq), rfl⟩⟩
        rw [hset, List.getElem?_set_ne heq]
        exact hb
  hosted := by
    intro s k b d c _ hb hc
    obtain ⟨t, he, hset⟩ := hhosted s k b d c hb hc
    refine ⟨t, he, hset ▸ Parts.getElem?_set_of_some hb, fun j hj => ?_, Or.inl trivial⟩
    rw [hset]
    exact List.getElem?_set_ne (Ne.symm hj)

/-- As long as the machine is up, a part can go on as if it were alone, and the others stay
as they are. -/
theorem goesOn (h : Hosts m p I up part event toPart born) {s : σ} {k : Nat} {b c : τ}
    {ds : List δ} (hup : up s) (hb : part s k = some b) (hrun : p.run b ds = some c) :
    ∃ t, m.run s (ds.map (toPart k)) = some t ∧ part t k = some c ∧
      ∀ j, j ≠ k → part t j = part s j := by
  induction ds generalizing s b with
  | nil =>
    cases Option.some.inj hrun
    exact ⟨s, rfl, hb, fun _ _ => rfl⟩
  | cons d ds ih =>
    obtain ⟨mid, hmid, hrest⟩ := Machine.run_cons_eq_some.mp hrun
    obtain ⟨s', hs', hpart, hothers, hup' | hlast⟩ := h.hosted s k b d mid hup hb hmid
    · obtain ⟨t, ht, hc, hothers'⟩ := ih hup' hpart hrest
      exact ⟨t, Machine.run_cons_eq_some.mpr ⟨s', hs', ht⟩, hc,
        fun j hj => (hothers' j hj).trans (hothers j hj)⟩
    · -- there is no step behind the one that took the machine down
      cases ds with
      | nil =>
        cases Option.some.inj hrest
        exact ⟨s', Machine.run_cons_eq_some.mpr ⟨s', hs', rfl⟩, hpart, hothers⟩
      | cons d' ds =>
        obtain ⟨c', hc', -⟩ := Machine.run_cons_eq_some.mp hrest
        cases (hlast d').symm.trans hc'

end Hosts

end ServerAsync.Misc
