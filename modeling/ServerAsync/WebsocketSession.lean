import ServerAsync.Text
import ServerAsync.Misc.Machine

/-!
# `websocket_session`

The session that echoes messages. One message is read into the buffer, written back from
there, and only then the buffer is cleared and the next message read. A write has no copy
of the message: what goes out is what the buffer holds.
-/

namespace ServerAsync

open Misc

/-- A WebSocket message. -/
structure WsMessage where
  payload : Text
  text : Bool
  deriving DecidableEq, Repr

/-- The asynchronous operations. A write is of the first `size` bytes of the buffer, as
text or as binary. -/
inductive WsOp where
  | accept
  | read
  | write (size : Nat) (text : Bool)
  deriving DecidableEq, Repr

/-- `websocket_session`. `textMode` is the option that `text(bool)` sets. `received` are the
messages that were read, `written` those that were written back, and `readStarts` has what
was in the buffer whenever a read was started. -/
structure WebsocketSession where
  buffer : Text
  textMode : Bool
  ops : List WsOp
  received : List WsMessage
  written : List WsMessage
  readStarts : List Text
  deriving DecidableEq, Repr

/-- The completions. A read that fails or finds the peer closing has perhaps put a part of a
message in the buffer; of a write that fails all may be out or not. -/
inductive WsEvent where
  | accepted (ok : Bool)
  | messageRead (m : WsMessage)
  | readClosed (part : Text)
  | readFailed (part : Text)
  | written
  | writeFailed (out : Bool)
  deriving DecidableEq, Repr

namespace WebsocketSession

/-- `run`, that is `do_accept`: the session has been made with an empty buffer. -/
def run : WebsocketSession where
  buffer := []
  textMode := true
  ops := [.accept]
  received := []
  written := []
  readStarts := []

def asyncOp (s : WebsocketSession) (op : WsOp) : WebsocketSession := { s with ops := s.ops ++ [op] }

def finish (s : WebsocketSession) (op : WsOp) : WebsocketSession :=
  { s with ops := s.ops.erase op }

/-- `do_read`. -/
def doRead (s : WebsocketSession) : WebsocketSession :=
  { s.asyncOp .read with readStarts := s.readStarts ++ [s.buffer] }

/-- `on_accept`. -/
def onAccept (s : WebsocketSession) (ok : Bool) : WebsocketSession := if ok then s.doRead else s

/-- `on_read` without an error: the message is written in the mode of the last one read. -/
def onRead (s : WebsocketSession) (gotText : Bool) : WebsocketSession :=
  { s with textMode := gotText }.asyncOp (.write s.buffer.length gotText)

/-- `on_write` without an error. -/
def onWrite (s : WebsocketSession) : WebsocketSession :=
  { s with buffer := s.buffer.drop s.buffer.length }.doRead

/-- A message is read into the buffer. -/
def receive (s : WebsocketSession) (m : WsMessage) : WebsocketSession :=
  { s with buffer := s.buffer ++ m.payload, received := s.received ++ [m] }

/-- A message goes out. -/
def send (s : WebsocketSession) (size : Nat) (text : Bool) : WebsocketSession :=
  { s with written := s.written ++ [⟨s.buffer.take size, text⟩] }

/-- The write in flight, if there is one. -/
def writing (s : WebsocketSession) : Option (Nat × Bool) :=
  s.ops.findSome? fun
    | .accept => none
    | .read => none
    | .write size text => some (size, text)

/-- The reaction to a completion, `none` when it cannot happen. -/
def step (s : WebsocketSession) : WsEvent → Option WebsocketSession
  | .accepted ok => if .accept ∈ s.ops then some ((s.finish .accept).onAccept ok) else none
  | .messageRead m =>
    if .read ∈ s.ops then some (((s.finish .read).receive m).onRead m.text) else none
  | .readClosed part =>
    if .read ∈ s.ops then some { s.finish .read with buffer := s.buffer ++ part } else none
  | .readFailed part =>
    if .read ∈ s.ops then some { s.finish .read with buffer := s.buffer ++ part } else none
  | .written =>
    s.writing.map fun w => ((s.finish (.write w.1 w.2)).send w.1 w.2).onWrite
  | .writeFailed out =>
    s.writing.map fun w =>
      if out then (s.finish (.write w.1 w.2)).send w.1 w.2 else s.finish (.write w.1 w.2)

/-- A session as a machine. -/
def machine : Machine WebsocketSession WsEvent := ⟨step⟩

/-! ## One message at a time -/

/-- What holds while an operation is in flight. A message that is being written is the last
one that was read, and it is what the buffer holds. -/
def During (s : WebsocketSession) : WsOp → Prop
  | .accept => s.buffer = [] ∧ s.written = s.received
  | .read => s.buffer = [] ∧ s.written = s.received
  | .write size text =>
    size = s.buffer.length ∧ s.received = s.written ++ [⟨s.buffer, text⟩]

/-- There is one operation in flight, or none any more; every read was started with an empty
buffer. -/
structure Inv (s : WebsocketSession) : Prop where
  reads : ∀ b ∈ s.readStarts, b = []
  echoed : (s.ops = [] ∧ s.written <+: s.received) ∨ ∃ op, s.ops = [op] ∧ During s op

theorem inv_run : Inv run := ⟨nofun, Or.inr ⟨.accept, rfl, rfl, rfl⟩⟩

theorem Inv.during {s : WebsocketSession} (h : Inv s) {op : WsOp} (hop : op ∈ s.ops) :
    s.ops = [op] ∧ During s op := by
  rcases h.echoed with ⟨hnil, -⟩ | ⟨op', hops, hduring⟩
  · rw [hnil] at hop
    cases hop
  · rw [hops] at hop
    rw [List.mem_singleton.mp hop]
    exact ⟨hops, hduring⟩

theorem writing_eq_some {s : WebsocketSession} {size : Nat} {text : Bool}
    (h : s.writing = some (size, text)) : .write size text ∈ s.ops := by
  obtain ⟨op, hop, hsome⟩ := List.exists_of_findSome?_eq_some h
  cases op with
  | accept => cases hsome
  | read => cases hsome
  | write size' text' =>
    cases hsome
    exact hop

theorem finish_ops {s : WebsocketSession} {op : WsOp} (hops : s.ops = [op]) :
    (s.finish op).ops = [] := by
  rw [finish, hops, List.erase_cons_head]

/-- A read is started when nothing else is in flight and everything has been echoed. -/
theorem inv_doRead {s : WebsocketSession} (hops : s.ops = []) (hbuffer : s.buffer = [])
    (hreads : ∀ b ∈ s.readStarts, b = []) (hall : s.written = s.received) : Inv s.doRead := by
  constructor
  · intro b hb
    rcases List.mem_append.mp hb with hold | hnew
    · exact hreads b hold
    · rw [List.mem_singleton.mp hnew, hbuffer]
  · refine Or.inr ⟨.read, ?_, hbuffer, hall⟩
    rw [doRead, asyncOp, hops, List.nil_append]

/-- A session that does nothing any more has echoed what it has echoed. -/
theorem inv_stopped {s : WebsocketSession} (hops : s.ops = [])
    (hreads : ∀ b ∈ s.readStarts, b = []) (hfirst : s.written <+: s.received) : Inv s :=
  ⟨hreads, Or.inl ⟨hops, hfirst⟩⟩

theorem inv_step {s t : WebsocketSession} {e : WsEvent} (h : Inv s)
    (hstep : machine.step s e = some t) : Inv t := by
  cases e with
  | accepted ok =>
    obtain ⟨hop, rfl⟩ := Machine.taken hstep
    obtain ⟨hops, hbuffer, hall⟩ := h.during hop
    have hfinish := finish_ops hops
    cases ok with
    | true => exact inv_doRead hfinish hbuffer h.reads hall
    | false => exact inv_stopped hfinish h.reads (hall ▸ List.prefix_rfl)
  | messageRead m =>
    obtain ⟨hop, rfl⟩ := Machine.taken hstep
    obtain ⟨hops, hbuffer, hall⟩ := h.during hop
    refine ⟨h.reads, Or.inr ⟨.write (s.buffer ++ m.payload).length m.text, ?_, rfl, ?_⟩⟩
    · change (s.finish .read).ops ++ [_] = _
      rw [finish_ops hops]
      rfl
    · change s.received ++ [m] = s.written ++ [⟨s.buffer ++ m.payload, m.text⟩]
      rw [hall, hbuffer]
      rfl
  | readClosed part =>
    obtain ⟨hop, rfl⟩ := Machine.taken hstep
    obtain ⟨hops, hbuffer, hall⟩ := h.during hop
    exact inv_stopped (finish_ops hops) h.reads (hall ▸ List.prefix_rfl)
  | readFailed part =>
    obtain ⟨hop, rfl⟩ := Machine.taken hstep
    obtain ⟨hops, hbuffer, hall⟩ := h.during hop
    exact inv_stopped (finish_ops hops) h.reads (hall ▸ List.prefix_rfl)
  | written =>
    obtain ⟨⟨size, text⟩, hwriting, rfl⟩ := Option.map_eq_some_iff.mp hstep
    obtain ⟨hops, hsize, hlast⟩ := h.during (writing_eq_some hwriting)
    refine inv_doRead (finish_ops hops) List.drop_length h.reads ?_
    change s.written ++ [⟨s.buffer.take size, text⟩] = s.received
    rw [hlast, hsize, List.take_length]
  | writeFailed out =>
    obtain ⟨⟨size, text⟩, hwriting, rfl⟩ := Option.map_eq_some_iff.mp hstep
    obtain ⟨hops, hsize, hlast⟩ := h.during (writing_eq_some hwriting)
    cases out with
    | true =>
      refine inv_stopped (finish_ops hops) h.reads ?_
      change s.written ++ [⟨s.buffer.take size, text⟩] <+: s.received
      rw [hlast, hsize, List.take_length]
    | false =>
      refine inv_stopped (finish_ops hops) h.reads ?_
      change s.written <+: s.received
      rw [hlast]
      exact List.prefix_append _ _

theorem inv_of_run {es : List WsEvent} {s : WebsocketSession}
    (hrun : machine.run run es = some s) : Inv s :=
  Machine.run_invariant (fun _ _ _ => inv_step) inv_run hrun

/-- In every run, the messages written back are the first ones that were received, each of
its kind and in their order; every read was started with an empty buffer; and there is
never more than one operation in flight. -/
theorem echo {es : List WsEvent} {s : WebsocketSession} (hrun : machine.run run es = some s) :
    s.written <+: s.received ∧ (∀ b ∈ s.readStarts, b = []) ∧ s.ops.length ≤ 1 := by
  have hinv := inv_of_run hrun
  refine ⟨?_, hinv.reads, ?_⟩
  · rcases hinv.echoed with ⟨-, hprefix⟩ | ⟨op, -, hduring⟩
    · exact hprefix
    · cases op with
      | accept => exact hduring.2 ▸ List.prefix_rfl
      | read => exact hduring.2 ▸ List.prefix_rfl
      | write size text => exact hduring.2 ▸ List.prefix_append _ _
  · rcases hinv.echoed with ⟨hops, -⟩ | ⟨op, hops, -⟩
    · rw [hops]
      exact Nat.zero_le 1
    · rw [hops]
      exact Nat.le_refl 1

/-- A text and a binary message, the peer closes. -/
theorem echo_twice : ∃ s, machine.run run [.accepted true, .messageRead ⟨"ab".toList, true⟩,
      .written, .messageRead ⟨['c'], false⟩, .written, .readClosed []] = some s ∧
    s.written.length = 2 ∧
    s.written <+: s.received ∧ (∀ b ∈ s.readStarts, b = []) ∧ s.ops.length ≤ 1 := by
  obtain ⟨s, hrun, htest⟩ := Machine.run_of_any machine run [.accepted true,
      .messageRead ⟨"ab".toList, true⟩, .written, .messageRead ⟨['c'], false⟩, .written,
      .readClosed []] (fun s => s.written.length == 2) (by decide +kernel)
  exact ⟨s, hrun, beq_iff_eq.mp htest, echo hrun⟩

/-- Whenever the session waits for a message, it has echoed every message so far. -/
theorem echoed_all {es : List WsEvent} {s : WebsocketSession}
    (hrun : machine.run run es = some s) (hread : .read ∈ s.ops) : s.written = s.received :=
  ((inv_of_run hrun).during hread).2.2

end WebsocketSession

end ServerAsync
