import ServerAsync.Misc.Machine
import Mathlib.Data.List.Basic

/-!
# First-in first-out channels

A channel over its whole life: everything put in and everything taken out so
far. That the second is a prefix of the first is part of the type, so a channel
that loses, repeats or reorders cannot be built. A program that moves data
refines `Fifo.machine` when each of its steps puts something in or takes out what
has waited longest.
-/

namespace ServerAsync.Misc

/-- What went into a channel, and what has come out of it. -/
@[ext] structure Fifo (α : Type*) where
  put : List α
  got : List α
  ordered : got <+: put

namespace Fifo

variable {α : Type*}

/-- What has gone in and not come out. -/
def pending (f : Fifo α) : List α := f.put.drop f.got.length

theorem got_append_pending (f : Fifo α) : f.got ++ f.pending = f.put := by
  obtain ⟨rest, hrest⟩ := f.ordered
  rw [pending, ← hrest, List.drop_left]

def enqueue (f : Fifo α) (xs : List α) : Fifo α where
  put := f.put ++ xs
  got := f.got
  ordered := f.ordered.trans (List.prefix_append _ _)

/-- Take out the `n` elements that have waited longest. -/
def dequeue (f : Fifo α) (n : Nat) : Fifo α where
  put := f.put
  got := f.put.take (f.got.length + n)
  ordered := List.take_prefix _ _

theorem dequeue_got (f : Fifo α) (n : Nat) : (f.dequeue n).got = f.got ++ f.pending.take n := by
  obtain ⟨rest, hrest⟩ := f.ordered
  simp only [dequeue, pending, ← hrest, List.drop_left]
  rw [List.take_length_add_append]

/-- What a channel does. -/
inductive Event (α : Type*) where
  | put (xs : List α)
  | get (n : Nat)

def step (f : Fifo α) : Event α → Option (Fifo α)
  | .put xs => some (f.enqueue xs)
  | .get n => if n ≤ f.pending.length then some (f.dequeue n) else none

/-- The channel as a machine. -/
def machine (α : Type*) : Machine (Fifo α) (Event α) where
  step := step

/-- Taking out the next elements, as a step between two given channels. -/
theorem step_get {f g : Fifo α} {out : List α} (hput : g.put = f.put)
    (hgot : g.got = f.got ++ out) : f.step (.get out.length) = some g := by
  have hout : out <+: f.pending := by
    have hordered := g.ordered
    rw [hgot, hput, ← f.got_append_pending, List.prefix_append_right_inj] at hordered
    exact hordered
  have hle := hout.length_le
  simp only [step, hle, if_true, Option.some.injEq]
  ext1
  · exact hput.symm
  · rw [dequeue_got, hgot, ← List.prefix_iff_eq_take.mp hout]

/-- Nothing that has come out is taken back, and nothing that has gone in is
changed. -/
theorem run_prefix {f g : Fifo α} {es : List (Event α)} (hrun : (machine α).run f es = some g) :
    f.put <+: g.put ∧ f.got <+: g.got := by
  refine Machine.run_relation (I := fun _ => True)
    (R := fun (f g : Fifo α) => f.put <+: g.put ∧ f.got <+: g.got)
    (fun _ => ⟨List.prefix_rfl, List.prefix_rfl⟩)
    (fun _ _ _ h₁ h₂ => ⟨h₁.1.trans h₂.1, h₁.2.trans h₂.2⟩) ?_ trivial hrun
  intro f e g _ hstep
  refine ⟨trivial, ?_⟩
  cases e with
  | put xs =>
    cases Option.some.inj hstep
    exact ⟨List.prefix_append _ _, List.prefix_rfl⟩
  | get n =>
    change (if n ≤ f.pending.length then some (f.dequeue n) else none) = some g at hstep
    rw [Option.ite_none_right_eq_some] at hstep
    obtain ⟨-, hg⟩ := hstep
    cases Option.some.inj hg
    exact ⟨List.prefix_rfl, by rw [dequeue_got]; exact List.prefix_append _ _⟩

end Fifo

end ServerAsync.Misc
