import ServerAsync.Misc.Machine

/-!
# Pipelined request and reply connections

One side of a connection reads requests and queues replies, the other side
writes the queued replies one at a time. The two run concurrently: a read may
complete before or after any write. `State` is what such a connection knows
about itself, with the outstanding reads and writes as lists (nothing in the
definitions keeps them to one element) and the history of the replies. `step` is
the connection's reaction to each completion.

`limit` is the number of queued replies at which reading pauses, and
`keepAlive` tells whether the connection may go on after a reply.
-/

namespace ServerAsync.Misc.Pipeline

/-- What an outstanding read is for: opening the connection, the next request's
header, or the body of the request with the given number. -/
inductive Read (ρ : Type*) where
  | opening
  | header
  | body (request : Nat) (header : ρ)
  deriving DecidableEq, Repr

/-- A reply, with the number of the request it answers (requests are numbered
from 0 in the order in which their headers were read). -/
structure Reply (α : Type*) where
  request : Nat
  message : α
  deriving DecidableEq, Repr

/-- A connection: its outstanding operations, its queue, and its history.
`uses` counts the operations it started on the stream, `eofs` the times its
reading side shut the stream down. `closed` is set when the writing side has
ended, `ended` when either side has. -/
structure State (ρ α : Type*) where
  reads : List (Read ρ)
  writes : List (Reply α)
  queue : List (Reply α)
  headers : Nat
  dispatched : Nat
  uses : Nat
  eofs : Nat
  closed : Bool
  ended : Bool
  queued : List (Reply α)
  handed : List (Reply α)
  answered : List (Reply α)

/-- The completions a connection reacts to. -/
inductive Label (ρ α : Type*) where
  /-- Nothing the connection's control depends on. -/
  | tick
  /-- The connection is open; the first header read starts. -/
  | opened
  /-- A read failed. -/
  | readFailed (op : Read ρ)
  /-- The header read met the end of the stream. -/
  | endOfStream
  /-- A header was read and the stream was given away. -/
  | released
  /-- A header was read, and the connection is shut down without a reply. -/
  | refused
  /-- A header was read, and the body is read next. -/
  | uploading (header : ρ)
  /-- A header was read, and the reply is queued at once. -/
  | replied (message : α)
  /-- A body was read and the reply is queued. -/
  | uploaded (request : Nat) (header : ρ) (message : α)
  /-- A write completed. -/
  | wrote (reply : Reply α) (ok : Bool)

variable {ρ α : Type*}

/-- A connection before its first completion, with one read outstanding. -/
def State.start (op : Read ρ) : State ρ α where
  reads := [op]
  writes := []
  queue := []
  headers := 0
  dispatched := 0
  uses := 1
  eofs := 0
  closed := false
  ended := false
  queued := []
  handed := []
  answered := []

namespace State

/-- Start a read. -/
def read (op : Read ρ) (p : State ρ α) : State ρ α :=
  { p with reads := p.reads ++ [op], uses := p.uses + 1 }

/-- Hand the front of the queue, if any, to a write. It stays in the queue until
the write has completed. -/
def write (p : State ρ α) : State ρ α :=
  match p.queue with
  | [] => p
  | q :: _ =>
    { p with writes := p.writes ++ [q], handed := p.handed ++ [q], uses := p.uses + 1 }

/-- Queue a reply, and start the write loop when it is the only one. -/
def push (q : Reply α) (p : State ρ α) : State ρ α :=
  let p := { p with queue := p.queue ++ [q], queued := p.queued ++ [q] }
  if p.queue.length = 1 then p.write else p

/-- Read the next header unless the queue is full. -/
def readOn (limit : Nat) (p : State ρ α) : State ρ α :=
  if p.queue.length < limit then p.read .header else p

/-- Drop the front of the queue and go on writing. -/
def pop (p : State ρ α) : State ρ α :=
  { p with queue := p.queue.tail }.write

end State

variable [DecidableEq ρ] [DecidableEq α]

/-- The header read is over, and its request has the next number. -/
def State.headerDone (p : State ρ α) : State ρ α :=
  { p with reads := p.reads.erase .header, headers := p.headers + 1 }

/-- The write of `q` is over. -/
def State.writeDone (q : Reply α) (p : State ρ α) : State ρ α :=
  { p with writes := p.writes.erase q }

/-- The reaction to a completed write: a failure ends the writing side, and so
does a reply after which the connection may not go on; otherwise reading resumes
if the queue was full, and the next reply is written. -/
def State.afterWrite (keepAlive : α → Bool) (limit : Nat) (q : Reply α) (ok : Bool)
    (p : State ρ α) : State ρ α :=
  if ok = false then { p with closed := true, ended := true }
  else if keepAlive q.message = false then
    { p with closed := true, ended := true, uses := p.uses + 1 }
  else
    let p := if limit ≤ p.queue.length then p.read .header else p
    { p with answered := p.answered ++ [q] }.pop

/-- The reaction to each completion, `none` when its operation is not
outstanding. -/
def step (keepAlive : α → Bool) (limit : Nat) (p : State ρ α) :
    Label ρ α → Option (State ρ α)
  | .tick => some p
  | .opened =>
    if .opening ∈ p.reads then
      some ({ p with reads := p.reads.erase .opening }.read .header)
    else none
  | .readFailed op =>
    if op ∈ p.reads then some { p with reads := p.reads.erase op, ended := true } else none
  | .endOfStream =>
    if .header ∈ p.reads then
      some { p with
        reads := p.reads.erase .header, ended := true, uses := p.uses + 1, eofs := p.eofs + 1 }
    else none
  | .released =>
    if .header ∈ p.reads then some { p.headerDone with ended := true } else none
  | .refused =>
    if .header ∈ p.reads then
      some { p.headerDone with
        dispatched := p.dispatched + 1, ended := true, uses := p.uses + 1, eofs := p.eofs + 1 }
    else none
  | .uploading header =>
    if .header ∈ p.reads then
      some ({ p.headerDone with dispatched := p.dispatched + 1 }.read (.body p.headers header))
    else none
  | .replied message =>
    if .header ∈ p.reads then
      some ({ p.headerDone with dispatched := p.dispatched + 1 }.push ⟨p.headers, message⟩)
    else none
  | .uploaded request header message =>
    if .body request header ∈ p.reads then
      some (({ p with reads := p.reads.erase (.body request header) }.push
        ⟨request, message⟩).readOn limit)
    else none
  | .wrote q ok =>
    if q ∈ p.writes then some ((p.writeDone q).afterWrite keepAlive limit q ok) else none

/-- The pipelined connection as a machine. -/
def machine (ρ : Type*) {α : Type*} [DecidableEq ρ] [DecidableEq α] (keepAlive : α → Bool)
    (limit : Nat) : Machine (State ρ α) (Label ρ α) where
  step := step keepAlive limit

end ServerAsync.Misc.Pipeline
