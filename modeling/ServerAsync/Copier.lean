import ServerAsync.Http
import ServerAsync.Relay

/-!
# What the two copiers share

`socket_copier` and `http_copier` take a client's stream over from an
`http_session`, connect to a remote, write what has to go out first, and then run
`do_relay` in both directions. Both have the state `Copier`, the same resolve and
connect chain, and the same `write_unconsumed`; they differ in their constructors,
in `start`, and in the write that follows the connect. `Copier.step` is the
shared part, with the class's own continuation of a completed write as a
parameter.
-/

namespace ServerAsync

open Misc

/-- The `to_remote` flag of `do_relay`. -/
inductive Dir where
  | toClient
  | toRemote
  deriving DecidableEq, Repr

def Dir.other : Dir → Dir
  | .toClient => .toRemote
  | .toRemote => .toClient

theorem Dir.eq_or_other (d dir : Dir) : d = dir ∨ d = dir.other := by
  cases d <;> cases dir <;> simp [Dir.other]

/-- The writes before the relay: `write200ok_to_client`, `send_parsed_request` and
`write_unconsumed`. -/
inductive Stage where
  | response
  | request
  | unconsumed
  deriving DecidableEq, Repr

/-- The side a write goes to. -/
def Stage.dest : Stage → Dir
  | .response => .toClient
  | .request => .toRemote
  | .unconsumed => .toRemote

/-- The outstanding operations outside the relay. An `async_write` carries the
bytes it has yet to send. -/
inductive CopierOp where
  | asyncResolve (host port : Text)
  | asyncConnect
  | asyncWrite (stage : Stage) (rest : Text)
  deriving DecidableEq, Repr

/-- A `socket_copier` or an `http_copier`. `toClient` and `toRemote` are the two
directions, each with its `std::array` buffer, what it has read, and everything
written to its destination; `eofs` counts the calls of `do_eof`. -/
structure Copier where
  req : Request
  buffer : Text
  ops : List CopierOp
  toClient : Half Char
  toRemote : Half Char
  eofs : Nat

/-- The events both classes react to. -/
inductive CopierEvent where
  | resolved (host port : Text) (ok : Bool)
  | connectFailed
  | accepted (stage : Stage) (rest : Text) (count : Nat)
  | wrote (stage : Stage)
  | writeFailed (stage : Stage) (rest : Text)
  | relay (dir : Dir) (e : RelayEvent Char)

namespace Copier

/-- The members that both constructors initialise alike; `maxLength` is the
template parameter `max_length`. -/
def init (maxLength : Nat) (req : Request) (buffer : Text) : Copier where
  req := req
  buffer := buffer
  ops := []
  toClient := .idle (List.replicate maxLength '\x00')
  toRemote := .idle (List.replicate maxLength '\x00')
  eofs := 0

def half (c : Copier) : Dir → Half Char
  | .toClient => c.toClient
  | .toRemote => c.toRemote

def setHalf (c : Copier) (dir : Dir) (h : Half Char) : Copier :=
  match dir with
  | .toClient => { c with toClient := h }
  | .toRemote => { c with toRemote := h }

/-- Bytes that a side has accepted outside the relay. -/
def deliver (c : Copier) (dir : Dir) (bytes : Text) : Copier :=
  c.setHalf dir { c.half dir with written := (c.half dir).written ++ bytes }

def begin (c : Copier) (op : CopierOp) : Copier := { c with ops := c.ops ++ [op] }

def finish (c : Copier) (op : CopierOp) : Copier := { c with ops := c.ops.erase op }

/-- `do_eof`: the client's sending side is shut down. -/
def doEof (c : Copier) : Copier := { c with eofs := c.eofs + 1 }

/-- `write_unconsumed`. -/
def writeUnconsumed (c : Copier) : Copier := c.begin (.asyncWrite .unconsumed c.buffer)

/-- The handler of `write_unconsumed`: both directions of the relay start. -/
def startRelay (c : Copier) : Copier :=
  { c with toClient := c.toClient.doRelay, toRemote := c.toRemote.doRelay }

/-- Whether the handler of a relay operation calls `do_eof`. -/
def callsEof : RelayEvent Char → Bool
  | .readFailed _ => true
  | .writeFailed _ _ => true
  | _ => false

/-- An event of one direction of the relay. -/
def stepRelay (c : Copier) (dir : Dir) (e : RelayEvent Char) : Option Copier :=
  ((c.half dir).step e).map fun h =>
    if callsEof e then (c.setHalf dir h).doEof else c.setHalf dir h

/-- The shared reactions; `next` is what the class does when the write of a stage
has completed. Failures are only reported. -/
def step (next : Stage → Copier → Copier) (c : Copier) : CopierEvent → Option Copier
  | .resolved host port ok =>
    if .asyncResolve host port ∈ c.ops then
      let c := c.finish (.asyncResolve host port)
      some (if ok then c.begin .asyncConnect else c)
    else none
  | .connectFailed =>
    if .asyncConnect ∈ c.ops then some (c.finish .asyncConnect) else none
  | .accepted stage rest count =>
    if .asyncWrite stage rest ∈ c.ops ∧ 0 < count ∧ count ≤ rest.length then
      some (((c.finish (.asyncWrite stage rest)).deliver stage.dest (rest.take count)).begin
        (.asyncWrite stage (rest.drop count)))
    else none
  | .wrote stage =>
    if .asyncWrite stage [] ∈ c.ops then some (next stage (c.finish (.asyncWrite stage [])))
    else none
  | .writeFailed stage rest =>
    if .asyncWrite stage rest ∈ c.ops then some (c.finish (.asyncWrite stage rest)) else none
  | .relay dir e => c.stepRelay dir e

/-! ## What the operations change -/

@[simp] theorem finish_frame (c : Copier) (op : CopierOp) :
    (c.finish op).req = c.req ∧ (c.finish op).buffer = c.buffer ∧
    (c.finish op).ops = c.ops.erase op ∧ (c.finish op).toClient = c.toClient ∧
    (c.finish op).toRemote = c.toRemote :=
  ⟨rfl, rfl, rfl, rfl, rfl⟩

@[simp] theorem begin_frame (c : Copier) (op : CopierOp) :
    (c.begin op).req = c.req ∧ (c.begin op).buffer = c.buffer ∧
    (c.begin op).ops = c.ops ++ [op] ∧ (c.begin op).toClient = c.toClient ∧
    (c.begin op).toRemote = c.toRemote :=
  ⟨rfl, rfl, rfl, rfl, rfl⟩

@[simp] theorem deliver_frame (c : Copier) (dir : Dir) (bytes : Text) :
    (c.deliver dir bytes).req = c.req ∧ (c.deliver dir bytes).buffer = c.buffer ∧
    (c.deliver dir bytes).ops = c.ops := by
  cases dir <;> exact ⟨rfl, rfl, rfl⟩

theorem stepRelay_eq_some {c c' : Copier} {dir : Dir} {e : RelayEvent Char}
    (h : c.stepRelay dir e = some c') : ∃ half', (c.half dir).step e = some half' ∧
      c'.req = c.req ∧ c'.buffer = c.buffer ∧ c'.ops = c.ops ∧
      c'.toClient = (c.setHalf dir half').toClient ∧
      c'.toRemote = (c.setHalf dir half').toRemote := by
  obtain ⟨half', hhalf, hc'⟩ := Option.map_eq_some_iff.mp h
  refine ⟨half', hhalf, ?_⟩
  subst hc'
  split <;> cases dir <;> exact ⟨rfl, rfl, rfl, rfl, rfl⟩

end Copier

end ServerAsync
