import ServerAsync.Copier
import ServerAsync.RequestText

/-!
# `tcp_connection`

A connection of `server-async-simple`: two loops, one from the client to the proxy
server and one back, that both call `cleanup` when anything fails or ends. In debug
mode the first loop collects what it reads in `request_buffer_`, and rewrites and
sends it when there is a blank line in it.
-/

namespace ServerAsync

open Misc

/-- The buffer gets the bytes that a read completed with. -/
def Half.fill {α : Type*} (h : Half α) (bytes : List α) : Half α :=
  { h with
    buffer := bytes ++ h.buffer.drop bytes.length
    fetched := h.fetched ++ bytes }

/-- An `async_write` of the first `len` bytes of the buffer starts. -/
def Half.beginWrite {α : Type*} (h : Half α) (len : Nat) : Half α :=
  { h with ops := h.ops ++ [.asyncWrite 0 len] }

/-- `HeaderState`. -/
inductive HeaderState where
  | readingHeaders
  | readingBody
  deriving DecidableEq, Repr

/-- A `tcp_connection`. `toProxy` is the loop of `do_read_client` and `do_write_proxy`
with `data_client_`, `toClient` that of `do_read_proxy` and `do_write_client` with
`data_proxy_`; the bytes that `toProxy` has written to `remote_socket_` include those of
`request_buffer_`. A write of `request_buffer_` is given by the number of its bytes that
have been accepted. `cleanup` closes both sockets.

The last two fields are the history of `remote_socket_`: what has been handed to
`async_write`, and what has been read from the client since then. -/
structure TcpConnection where
  debugMode : Bool
  headerState : HeaderState
  requestBuffer : Text
  connects : Nat
  toProxy : Half Char
  requestWrites : List Nat
  toClient : Half Char
  closed : Bool
  handed : Text
  withheld : Text

/-- The completions, and the progress of the writes. -/
inductive TcpEvent where
  | connected (ok : Bool)
  | client (e : RelayEvent Char)
  | requestAccepted (off count : Nat)
  | requestWrote
  | requestFailed (off : Nat)
  | proxy (e : RelayEvent Char)

namespace TcpConnection

/-- `max_length`. -/
def maxLength : Nat := 4096

/-- `start`: the socket of the client is open, and the connect is under way. -/
def start (debugMode : Bool) : TcpConnection where
  debugMode := debugMode
  headerState := .readingHeaders
  requestBuffer := []
  connects := 1
  toProxy := .idle (List.replicate maxLength '\x00')
  requestWrites := []
  toClient := .idle (List.replicate maxLength '\x00')
  closed := false
  handed := []
  withheld := []

def cleanup (s : TcpConnection) : TcpConnection := { s with closed := true }

/-- `do_read_client`. -/
def doReadClient (s : TcpConnection) : TcpConnection := { s with toProxy := s.toProxy.doRelay }

/-- `do_write_proxy`: a length of 0 stands for `request_buffer_`. -/
def doWriteProxy (s : TcpConnection) (length : Nat) : TcpConnection :=
  if length = 0 then
    if s.requestBuffer ≠ [] then
      { s with
        requestWrites := s.requestWrites ++ [0]
        handed := s.handed ++ s.requestBuffer
        withheld := [] }
    else s.doReadClient
  else
    { s with
      toProxy := s.toProxy.beginWrite length
      handed := s.handed ++ s.toProxy.buffer.take length
      withheld := [] }

/-- The handler of `do_read_client`'s read, when it got bytes. -/
def onReadClient (s : TcpConnection) (length : Nat) : TcpConnection :=
  if s.debugMode then
    match s.headerState with
    | .readingHeaders =>
      let s := { s with requestBuffer := s.requestBuffer ++ s.toProxy.buffer.take length }
      if hasCompleteHttpRequest s.requestBuffer then
        ({ s with requestBuffer := parseHttpRequest s.requestBuffer } : TcpConnection).doWriteProxy
          0
      else s.doReadClient
    | .readingBody => s.doWriteProxy length
  else s.doWriteProxy length

/-- `do_read_proxy`. -/
def doReadProxy (s : TcpConnection) : TcpConnection := { s with toClient := s.toClient.doRelay }

/-- `do_write_client`. -/
def doWriteClient (s : TcpConnection) (length : Nat) : TcpConnection :=
  { s with toClient := s.toClient.beginWrite length }

/-- The reaction to an event, `none` when it cannot happen. A read completes with at
least a byte, and a closed socket accepts none. -/
def step (s : TcpConnection) : TcpEvent → Option TcpConnection
  | .connected ok =>
    if 0 < s.connects then
      let s := { s with connects := s.connects - 1 }
      some (if ok then s.doReadClient.doReadProxy else s.cleanup)
    else none
  | .client (.read bytes) =>
    if .asyncReadSome ∈ s.toProxy.ops ∧ bytes ≠ [] ∧ bytes.length ≤ s.toProxy.buffer.length then
      some ({ s with
        toProxy := (s.toProxy.finish .asyncReadSome).fill bytes
        withheld := s.withheld ++ bytes }.onReadClient bytes.length)
    else none
  | .client (.readFailed _) =>
    if .asyncReadSome ∈ s.toProxy.ops then
      some { s with toProxy := s.toProxy.finish .asyncReadSome }.cleanup
    else none
  | .client (.accepted off len count) =>
    if .asyncWrite off len ∈ s.toProxy.ops ∧ 0 < count ∧ off + count ≤ len ∧ s.closed = false then
      some { s with toProxy := (s.toProxy.finish (.asyncWrite off len)).send off len count }
    else none
  | .client (.wrote len) =>
    if .asyncWrite len len ∈ s.toProxy.ops then
      some { s with toProxy := s.toProxy.finish (.asyncWrite len len) }.doReadClient
    else none
  | .client (.writeFailed off len) =>
    if .asyncWrite off len ∈ s.toProxy.ops then
      some { s with toProxy := s.toProxy.finish (.asyncWrite off len) }.cleanup
    else none
  | .requestAccepted off count =>
    if off ∈ s.requestWrites ∧ 0 < count ∧ off + count ≤ s.requestBuffer.length ∧
        s.closed = false then
      some { s with
        requestWrites := s.requestWrites.erase off ++ [off + count]
        toProxy := { s.toProxy with
          written := s.toProxy.written ++ (s.requestBuffer.take (off + count)).drop off } }
    else none
  | .requestWrote =>
    if s.requestBuffer.length ∈ s.requestWrites then
      some { s with
        requestWrites := s.requestWrites.erase s.requestBuffer.length
        requestBuffer := [] }.doReadClient
    else none
  | .requestFailed off =>
    if off ∈ s.requestWrites then
      some { s with requestWrites := s.requestWrites.erase off }.cleanup
    else none
  | .proxy (.read bytes) =>
    if .asyncReadSome ∈ s.toClient.ops ∧ bytes ≠ [] ∧ bytes.length ≤ s.toClient.buffer.length then
      some ({ s with toClient := (s.toClient.finish .asyncReadSome).fill bytes }.doWriteClient
        bytes.length)
    else none
  | .proxy (.readFailed _) =>
    if .asyncReadSome ∈ s.toClient.ops then
      some { s with toClient := s.toClient.finish .asyncReadSome }.cleanup
    else none
  | .proxy (.accepted off len count) =>
    if .asyncWrite off len ∈ s.toClient.ops ∧ 0 < count ∧ off + count ≤ len ∧
        s.closed = false then
      some { s with toClient := (s.toClient.finish (.asyncWrite off len)).send off len count }
    else none
  | .proxy (.wrote len) =>
    if .asyncWrite len len ∈ s.toClient.ops then
      some { s with toClient := s.toClient.finish (.asyncWrite len len) }.doReadProxy
    else none
  | .proxy (.writeFailed off len) =>
    if .asyncWrite off len ∈ s.toClient.ops then
      some { s with toClient := s.toClient.finish (.asyncWrite off len) }.cleanup
    else none

/-- A `tcp_connection` as a machine. -/
def machine : Machine TcpConnection TcpEvent where
  step := step

end TcpConnection

/-- The bytes that a read completed with. -/
def RelayEvent.bytes {α : Type*} : RelayEvent α → List α
  | .read bytes => bytes
  | _ => []

namespace TcpEvent

/-- An event of one of the two loops. -/
def inDir : Dir → TcpEvent → Option (RelayEvent Char)
  | .toRemote, .client e => some e
  | .toClient, .proxy e => some e
  | _, _ => none

/-- What an event gets from a loop's source. -/
def bytes (dir : Dir) (e : TcpEvent) : Text := ((e.inDir dir).map RelayEvent.bytes).getD []

/-- The end of a loop's source. -/
def endOf : Dir → TcpEvent
  | .toRemote => .client (.readFailed true)
  | .toClient => .proxy (.readFailed true)

end TcpEvent

end ServerAsync
