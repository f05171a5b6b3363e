import ServerAsync.Text
import ServerAsync.Misc.Machine

/-!
# `relay_data`

How `boost_relay` relays one direction of a tunnel: a loop without end around one
`read_some` and one `write_some`. The loop keeps nothing from one round to the next,
neither the bytes that the write did not take nor an error.
-/

namespace ServerAsync

open Misc

/-- The loop of one direction. `offered` are the bytes that a `write_some` has been given,
none while a `read_some` is in progress. `failed` is whether an error or the end of the
stream has been reported, and `lateReads` counts the reads that were started after that. -/
structure RelayLoop where
  offered : Option Text
  received : Text
  accepted : Text
  failed : Bool
  lateReads : Nat
  deriving DecidableEq, Repr

/-- What the two calls return. A write takes some of the bytes it is offered. -/
inductive RelayLoopEvent where
  | read (chunk : Text)
  | readFailed
  | wrote (count : Nat)
  | writeFailed
  deriving DecidableEq, Repr

namespace RelayLoop

/-- The size of `buffer`. -/
def bufferSize : Nat := 4096

/-- The next round: `read_some` is called. -/
def round (s : RelayLoop) : RelayLoop :=
  { s with offered := none, lateReads := if s.failed then s.lateReads + 1 else s.lateReads }

/-- The loop before its first round, which is started. -/
def start : RelayLoop := ⟨none, [], [], false, 0⟩

/-- The rest of a round when a call has returned, `none` when it cannot return that. -/
def step (s : RelayLoop) : RelayLoopEvent → Option RelayLoop
  | .read chunk =>
    if s.offered = none ∧ chunk.length ≤ bufferSize then
      if chunk = [] then some s.round
      else some { s with received := s.received ++ chunk, offered := some chunk }
    else none
  | .readFailed => if s.offered = none then some { s with failed := true }.round else none
  | .wrote count =>
    s.offered.bind fun chunk =>
      if 0 < count ∧ count ≤ chunk.length then
        some { s with accepted := s.accepted ++ chunk.take count }.round
      else none
  | .writeFailed => s.offered.map fun _ => { s with failed := true }.round

/-- A loop as a machine. -/
def machine : Machine RelayLoop RelayLoopEvent := ⟨step⟩

/-- What a relay is for: as long as there is no error, what was accepted are the first bytes
that were read, and all of them when a read is in progress; and no read is started after an
error. -/
structure Lossless (s : RelayLoop) : Prop where
  ordered : s.failed = false → s.accepted <+: s.received
  drained : s.failed = false → s.offered = none → s.accepted = s.received
  stops : s.lateReads = 0

/-- A write takes all that it is offered, and nothing fails. -/
def Whole (s : RelayLoop) : RelayLoopEvent → Prop
  | .read _ => True
  | .readFailed => False
  | .wrote count => s.offered.map List.length = some count
  | .writeFailed => False

instance (s : RelayLoop) : ∀ e, Decidable (Whole s e)
  | .read _ => isTrue trivial
  | .readFailed => isFalse id
  | .wrote count => inferInstanceAs (Decidable (s.offered.map List.length = some count))
  | .writeFailed => isFalse id

/-- Nothing has failed, and what has not been accepted is what is offered. -/
structure Inv (s : RelayLoop) : Prop where
  live : s.failed = false
  pending : s.received = s.accepted ++ s.offered.getD []
  stops : s.lateReads = 0

theorem inv_start : Inv start := ⟨rfl, rfl, rfl⟩

theorem Inv.lossless {s : RelayLoop} (h : Inv s) : Lossless s := by
  refine ⟨fun _ => ?_, fun _ hreading => ?_, h.stops⟩
  · rw [h.pending]
    exact List.prefix_append _ _
  · rw [h.pending, hreading, Option.getD_none, List.append_nil]

/-- A round that starts with everything accepted. -/
theorem inv_round {s : RelayLoop} (hlive : s.failed = false) (hall : s.received = s.accepted)
    (hstops : s.lateReads = 0) : Inv s.round := by
  refine ⟨hlive, ?_, ?_⟩
  · change s.received = s.accepted ++ []
    rw [hall, List.append_nil]
  · rw [round, hlive]
    exact hstops

theorem step_wrote {s t : RelayLoop} {count : Nat}
    (hstep : machine.step s (.wrote count) = some t) :
    ∃ chunk, s.offered = some chunk ∧ count ≤ chunk.length ∧
      t = { s with accepted := s.accepted ++ chunk.take count }.round := by
  obtain ⟨chunk, hoffered, htaken⟩ := Option.bind_eq_some_iff.mp hstep
  obtain ⟨⟨-, hcount⟩, rfl⟩ := Machine.taken htaken
  exact ⟨chunk, hoffered, hcount, rfl⟩

theorem inv_step {s t : RelayLoop} {e : RelayLoopEvent} (h : Inv s) (hwhole : Whole s e)
    (hstep : machine.step s e = some t) : Inv t := by
  cases e with
  | read chunk =>
    obtain ⟨⟨hreading, hlen⟩, hnext⟩ := Option.ite_none_right_eq_some.mp hstep
    have hall : s.received = s.accepted := by
      rw [h.pending, hreading, Option.getD_none, List.append_nil]
    by_cases hchunk : chunk = []
    · rw [if_pos hchunk] at hnext
      cases hnext
      exact inv_round h.live hall h.stops
    · rw [if_neg hchunk] at hnext
      cases hnext
      refine ⟨h.live, ?_, h.stops⟩
      change s.received ++ chunk = s.accepted ++ chunk
      rw [hall]
  | readFailed => exact hwhole.elim
  | wrote count =>
    obtain ⟨chunk, hoffered, -, rfl⟩ := step_wrote hstep
    rw [Whole, hoffered, Option.map_some, Option.some_inj] at hwhole
    refine inv_round ?_ ?_ ?_
    · exact h.live
    · change s.received = s.accepted ++ chunk.take count
      rw [h.pending, hoffered, Option.getD_some, ← hwhole, List.take_length]
    · exact h.stops
  | writeFailed => exact hwhole.elim

/-- A round after a failure reads again. -/
theorem not_lossless_round {s : RelayLoop} (hfailed : s.failed = true) : ¬ Lossless s.round := by
  intro h
  have hstops := h.stops
  rw [round, hfailed] at hstops
  exact Nat.succ_ne_zero _ hstops

/-- Any other step shows at once: the next read is in progress. -/
theorem whole_of_lossless {s t : RelayLoop} {e : RelayLoopEvent} (h : Inv s)
    (hstep : machine.step s e = some t) (hlossless : Lossless t) : Whole s e := by
  cases e with
  | read chunk => trivial
  | readFailed =>
    obtain ⟨-, rfl⟩ := Machine.taken hstep
    exact not_lossless_round rfl hlossless
  | wrote count =>
    obtain ⟨chunk, hoffered, hcount, rfl⟩ := step_wrote hstep
    have hall := hlossless.drained h.live rfl
    change s.accepted ++ chunk.take count = s.received at hall
    rw [h.pending, hoffered, Option.getD_some, List.append_cancel_left_eq,
      List.take_eq_self_iff] at hall
    rw [Whole, hoffered, Option.map_some, Nat.le_antisymm hcount hall]
  | writeFailed =>
    obtain ⟨chunk, -, rfl⟩ := Option.map_eq_some_iff.mp hstep
    exact not_lossless_round rfl hlossless

/-- A run loses nothing and reads nothing after an error if and only if every write in it
takes all that it is offered and nothing fails. -/
theorem lossless_iff {es : List RelayLoopEvent} {s : RelayLoop}
    (hrun : machine.run start es = some s) :
    (∀ past t, past <+: es → machine.run start past = some t → Lossless t) ↔
      machine.Meets Whole start es :=
  Machine.always_iff_meets (fun _ _ _ => inv_step) (fun _ => Inv.lossless)
    (fun _ _ _ => whole_of_lossless) inv_start hrun

/-- Two chunks, each taken at once. -/
theorem lossless_iff_twice : ∃ s,
    machine.run start [.read "ab".toList, .wrote 2, .read ['c'], .wrote 1] = some s ∧
    ((∀ past t, past <+: [.read "ab".toList, .wrote 2, .read ['c'], .wrote 1] →
        machine.run start past = some t → Lossless t) ↔
      machine.Meets Whole start [.read "ab".toList, .wrote 2, .read ['c'], .wrote 1]) :=
  ⟨_, rfl, lossless_iff rfl⟩

/-- A write that takes one byte of two, and an end of stream: the other byte is lost, and the
loop reads on. -/
theorem short_write_loses : ∃ s,
    machine.run start [.read "ab".toList, .wrote 1, .read ['c'], .wrote 1] = some s ∧
    s.failed = false ∧ s.received = "abc".toList ∧ s.accepted = "ac".toList ∧
    ∃ t, machine.step s .readFailed = some t ∧ t.lateReads = 1 :=
  ⟨_, rfl, rfl, rfl, rfl, _, rfl, rfl⟩

end RelayLoop

end ServerAsync
