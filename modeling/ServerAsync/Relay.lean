import ServerAsync.Misc.Fifo
import Mathlib.Data.List.TakeDrop

/-!
# `do_relay`

One direction of the relay of `socket_copier.h`: read some bytes from `source`
into the direction's buffer, write exactly these bytes to `dest`, and start over.
The asynchronous write takes its bytes from the buffer when it sends them, so a
read that overlapped a write would change what is sent; that this never happens
is proved, not assumed. Each direction is a first-in first-out channel
(`relay_refines`).
-/

namespace ServerAsync

open Misc

/-- What `do_relay` can have outstanding: `source.async_read_some` into the buffer,
or `async_write` to `dest`, of whose bytes `[0, len)` of the buffer `off` have
been accepted. -/
inductive RelayOp where
  | asyncReadSome
  | asyncWrite (off len : Nat)
  deriving DecidableEq, Repr

/-- One direction: its buffer, its outstanding operations, the bytes it has read
from `source` and those that `dest` has accepted. -/
structure Half (α : Type*) where
  buffer : List α
  ops : List RelayOp
  fetched : List α
  written : List α

/-- The completions, and the progress of a write. -/
inductive RelayEvent (α : Type*) where
  | read (bytes : List α)
  | readFailed (eof : Bool)
  | accepted (off len count : Nat)
  | wrote (len : Nat)
  | writeFailed (off len : Nat)

/-- A failure, or the end of `source`. -/
def RelayEvent.ends {α : Type*} : RelayEvent α → Bool
  | .readFailed _ => true
  | .writeFailed _ _ => true
  | _ => false

namespace Half

variable {α : Type*}

/-- A direction that has not started. -/
def idle (buffer : List α) : Half α := ⟨buffer, [], [], []⟩

/-- `do_relay`: read into the buffer. -/
def doRelay (h : Half α) : Half α := { h with ops := h.ops ++ [.asyncReadSome] }

/-- The read handler: the bytes are at the front of the buffer, and are written
from there. -/
def onRead (h : Half α) (bytes : List α) : Half α :=
  { h with
    buffer := bytes ++ h.buffer.drop bytes.length
    fetched := h.fetched ++ bytes
    ops := h.ops ++ [.asyncWrite 0 bytes.length] }

/-- The write sends the next `count` bytes from the buffer. -/
def send (h : Half α) (off len count : Nat) : Half α :=
  { h with
    written := h.written ++ (h.buffer.take (off + count)).drop off
    ops := h.ops ++ [.asyncWrite (off + count) len] }

def finish (h : Half α) (op : RelayOp) : Half α := { h with ops := h.ops.erase op }

/-- One direction's reaction to each event. After a failure, or at the end of
`source`, it starts nothing more. -/
def step (h : Half α) : RelayEvent α → Option (Half α)
  | .read bytes =>
    if .asyncReadSome ∈ h.ops ∧ bytes.length ≤ h.buffer.length then
      some ((h.finish .asyncReadSome).onRead bytes)
    else none
  | .readFailed _ =>
    if .asyncReadSome ∈ h.ops then some (h.finish .asyncReadSome) else none
  | .accepted off len count =>
    if .asyncWrite off len ∈ h.ops ∧ 0 < count ∧ off + count ≤ len then
      some ((h.finish (.asyncWrite off len)).send off len count)
    else none
  | .wrote len =>
    if .asyncWrite len len ∈ h.ops then some (h.finish (.asyncWrite len len)).doRelay else none
  | .writeFailed off len =>
    if .asyncWrite off len ∈ h.ops then some (h.finish (.asyncWrite off len)) else none

/-- One direction as a machine. -/
def machine (α : Type*) : Machine (Half α) (RelayEvent α) where
  step := step

/-- `lead` is what was written before the relay started. At most one operation is
outstanding; while reading, everything read before has been written; while
writing, what is left of the buffer is exactly what is missing. -/
structure Inv (lead : List α) (h : Half α) : Prop where
  ops_le : h.ops.length ≤ 1
  reading : .asyncReadSome ∈ h.ops → h.written = lead ++ h.fetched
  writing : ∀ off len, .asyncWrite off len ∈ h.ops → off ≤ len ∧ len ≤ h.buffer.length ∧
    h.written ++ (h.buffer.take len).drop off = lead ++ h.fetched
  ordered : h.written <+: lead ++ h.fetched

theorem Inv.ops_eq {lead : List α} {h : Half α} (hinv : Inv lead h) {op : RelayOp}
    (hop : op ∈ h.ops) : h.ops = [op] :=
  Machine.outstanding_eq hinv.ops_le hop

theorem Inv.of_idle {lead : List α} {h : Half α} (hops : h.ops = [])
    (hord : h.written <+: lead ++ h.fetched) : Inv lead h where
  ops_le := by simp [hops]
  reading hop := by simp [hops] at hop
  writing off len hop := by simp [hops] at hop
  ordered := hord

/-- The relay starts, or goes on, once everything read has been written. -/
theorem Inv.doRelay {lead : List α} {h : Half α} (hops : h.ops = [])
    (hall : h.written = lead ++ h.fetched) : Inv lead h.doRelay where
  ops_le := by simp [Half.doRelay, hops]
  reading _ := hall
  writing off len hop := by simp [Half.doRelay, hops] at hop
  ordered := ⟨[], by simpa [Half.doRelay] using hall⟩

theorem inv_step {lead : List α} {h h' : Half α} {e : RelayEvent α} (hinv : Inv lead h)
    (hstep : h.step e = some h') : Inv lead h' := by
  cases e with
  | read bytes =>
    rcases Machine.taken hstep with ⟨⟨hop, hlen⟩, rfl⟩
    have hops := hinv.ops_eq hop
    have hall := hinv.reading hop
    constructor
    · simp [onRead, finish, hops]
    · intro hread
      simp [onRead, finish, hops] at hread
    · intro off len hwrite
      simp only [onRead, finish, hops, List.erase_cons_head, List.nil_append, List.mem_singleton,
        RelayOp.asyncWrite.injEq] at hwrite
      obtain ⟨rfl, rfl⟩ := hwrite
      refine ⟨Nat.zero_le _, by simp [onRead, finish], ?_⟩
      simp [onRead, finish, hall, List.take_left']
    · simp only [onRead, finish, hall]
      rw [← List.append_assoc]
      exact List.prefix_append _ _
  | readFailed eof =>
    rcases Machine.taken hstep with ⟨hop, rfl⟩
    exact .of_idle (by simp [finish, hinv.ops_eq hop]) hinv.ordered
  | accepted off len count =>
    rcases Machine.taken hstep with ⟨⟨hop, -, hle⟩, rfl⟩
    have hops := hinv.ops_eq hop
    obtain ⟨-, hlen, hall⟩ := hinv.writing off len hop
    -- the bytes that go out now and those still owed make up what was owed before
    have hsplit : (h.buffer.take (off + count)).drop off ++ (h.buffer.take len).drop (off + count) =
        (h.buffer.take len).drop off := by
      have htake : (h.buffer.take (off + count)).drop off =
          ((h.buffer.take len).drop off).take count := by
        rw [List.take_drop, List.take_take, Nat.min_eq_left hle]
      rw [htake, ← List.drop_drop, List.take_append_drop]
    have hnow : h.written ++ (h.buffer.take (off + count)).drop off ++
        (h.buffer.take len).drop (off + count) = lead ++ h.fetched := by
      rw [List.append_assoc, hsplit, hall]
    constructor
    · simp [send, finish, hops]
    · intro hread
      simp [send, finish, hops] at hread
    · intro off' len' hwrite
      simp only [send, finish, hops, List.erase_cons_head, List.nil_append, List.mem_singleton,
        RelayOp.asyncWrite.injEq] at hwrite
      obtain ⟨rfl, rfl⟩ := hwrite
      exact ⟨hle, hlen, hnow⟩
    · exact ⟨_, hnow⟩
  | wrote len =>
    rcases Machine.taken hstep with ⟨hop, rfl⟩
    obtain ⟨-, -, hall⟩ := hinv.writing len len hop
    refine .doRelay (by simp [finish, hinv.ops_eq hop]) ?_
    rw [List.drop_eq_nil_of_le (List.length_take_le _ _), List.append_nil] at hall
    exact hall
  | writeFailed off len =>
    rcases Machine.taken hstep with ⟨hop, rfl⟩
    exact .of_idle (by simp [finish, hinv.ops_eq hop]) hinv.ordered

/-- A direction with nothing outstanding has no event. -/
theorem ops_of_step {h h' : Half α} {e : RelayEvent α} (hstep : h.step e = some h') :
    h.ops ≠ [] := by
  intro hnil
  cases e <;> simp [step, hnil] at hstep

/-- A direction that does not end goes on with another operation. -/
theorem step_ops {h h' : Half α} {e : RelayEvent α} (hstep : h.step e = some h')
    (hgoes : e.ends = false) : h'.ops ≠ [] := by
  cases e with
  | readFailed eof => cases hgoes
  | writeFailed off len => cases hgoes
  | _ =>
    rcases Machine.taken hstep with ⟨-, rfl⟩
    simp [onRead, send, doRelay]

/-- Only the completion of a read changes the buffer. -/
theorem step_buffer {h h' : Half α} {e : RelayEvent α} (hstep : h.step e = some h')
    (hread : .asyncReadSome ∉ h.ops) : h'.buffer = h.buffer := by
  cases e with
  | read bytes =>
    simp only [step, Option.ite_none_right_eq_some] at hstep
    exact absurd hstep.1.1 hread
  | _ =>
    rcases Machine.taken hstep with ⟨-, rfl⟩
    rfl

/-! ## A direction is a channel -/

/-- The channel a direction stands for: what was there before and what was read
has gone in, what `dest` accepted has come out. -/
def fifo (lead : List α) (h : {h : Half α // Inv lead h}) : Fifo α where
  put := lead ++ h.1.fetched
  got := h.1.written
  ordered := h.2.ordered

/-- What an event does to the channel. -/
def channelEvent : RelayEvent α → Fifo.Event α
  | .read bytes => .put bytes
  | .accepted _ _ count => .get count
  | _ => .get 0

theorem relay_refines (lead : List α) :
    ((machine α).restrict (Inv lead) fun _ _ _ h hstep => inv_step h hstep).Refines
      (Fifo.machine α) (fifo lead) (fun _ e => channelEvent e) := by
  rintro ⟨h, hinv⟩ e ⟨h', hinv'⟩ hstep
  have hstep : h.step e = some h' := Machine.restrict_step.mp hstep
  have hsame : h'.fetched = h.fetched → h'.written = h.written →
      (fifo lead ⟨h, hinv⟩).step (.get 0) = some (fifo lead ⟨h', hinv'⟩) := by
    intro hf hw
    have hget : (fifo lead ⟨h, hinv⟩).step (.get ([] : List α).length) =
        some (fifo lead ⟨h', hinv'⟩) := Fifo.step_get (by simp [fifo, hf]) (by simp [fifo, hw])
    exact hget
  cases e with
  | read bytes =>
    rcases Machine.taken hstep with ⟨-, rfl⟩
    refine congrArg some ?_
    ext1 <;> simp [fifo, Fifo.enqueue, onRead, finish]
  | accepted off len count =>
    rcases Machine.taken hstep with ⟨⟨hop, -, hle⟩, rfl⟩
    obtain ⟨-, hlen, -⟩ := hinv.writing off len hop
    have hcount : ((h.buffer.take (off + count)).drop off).length = count := by
      simp only [List.length_drop, List.length_take]
      omega
    have hget : (fifo lead ⟨h, hinv⟩).step (.get ((h.buffer.take (off + count)).drop off).length) =
        some (fifo lead ⟨(h.finish (.asyncWrite off len)).send off len count, hinv'⟩) :=
      Fifo.step_get rfl rfl
    rwa [hcount] at hget
  | _ =>
    rcases Machine.taken hstep with ⟨-, rfl⟩
    exact hsame rfl rfl

/-- In every run of a direction, what it has read and what it has written only get
longer. -/
theorem run_grows {lead : List α} {h h' : Half α} {es : List (RelayEvent α)} (hinv : Inv lead h)
    (hrun : (machine α).run h es = some h') :
    h.fetched <+: h'.fetched ∧ h.written <+: h'.written := by
  obtain ⟨hinv', hrun'⟩ := Machine.restrict_run (I := Inv lead) (s := ⟨h, hinv⟩)
    (fun _ _ _ hkept hstep => inv_step hkept hstep) hrun
  obtain ⟨hput, hgot⟩ := Fifo.run_prefix ((relay_refines lead).run hrun')
  exact ⟨(List.prefix_append_right_inj lead).mp hput, hgot⟩

end Half

end ServerAsync
