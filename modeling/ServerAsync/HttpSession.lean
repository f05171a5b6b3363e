import ServerAsync.HandlerFile
import ServerAsync.HttpCopier
import ServerAsync.SocketCopier
import ServerAsync.StringUtil
import ServerAsync.Misc.Pipeline

/-!
# `http_session`

A client connection of the server, plain or over SSL, with the handler the
repository gives it. The functions below are those of `http_session.hpp`, of the
`handler` of `http_server_async.hpp`, and of `FileUploadHandler`; `step` is what a
completion makes of a session. Operations in flight are kept in lists, so that
two reads or two writes at once are states like any other.

The last fields of `Session` are its history. No function of the source reads
them.
-/

namespace ServerAsync

open Misc Misc.Pipeline

/-- `plain_http_session` or `ssl_http_session`. -/
inductive Kind where
  | plain
  | ssl
  deriving DecidableEq, Repr

/-- Who has got the stream of a session. -/
inductive Owner where
  | websocket (req : Request)
  | socketCopier (c : Copier)
  | httpCopier (c : Copier)

/-- Whether the completion handlers of a session have all returned. -/
inductive Fate where
  | live
  /-- An exception left a handler, and `ioc.run()` with it. -/
  | threw (e : Exn)
  /-- A handler does not return. -/
  | hung
  deriving DecidableEq, Repr

/-- The two loops of a session, as the callers of `do_eof`. -/
inductive Side where
  | request
  | response
  deriving DecidableEq, Repr

/-- A session. Responses are queued with the number of their request.

The history: the bytes `received` into the buffer for the parsers (over SSL without
those the handshake used), how many of them the parsers have `consumed`, and how
many bytes of the last request's body nobody has; the positions at which a header
parse started; the requests whose headers were read and those given to the handler;
how often the stream was used, given away, and shut down from the request side;
whether the write loop has `closed`, and whether the connection has `ended` in any
way; and the responses that were queued, handed to `async_write`, and written and
followed by more. -/
structure Session where
  kind : Kind
  responseQueue : List (Reply Response)
  buffer : Text
  reads : List (Read Request)
  writes : List (Reply Response)
  shutdowns : Nat
  owner : Option Owner
  fate : Fate
  received : Text
  consumed : Nat
  bodyLeft : Nat
  parses : List Nat
  headers : List Request
  dispatched : List Request
  uses : Nat
  releases : Nat
  eofs : Nat
  closed : Bool
  ended : Bool
  queued : List (Reply Response)
  handed : List (Reply Response)
  answered : List (Reply Response)

/-- What the server gets from the libraries. -/
structure Lib where
  beast : Beast
  urls : BoostUrl

/-- `queue_limit`. -/
def queueLimit : Nat := 8

/-- `max_length` of the copiers, by default. -/
def maxLength : Nat := 4096

namespace Session

/-- The constructor. The bytes that were read to detect SSL are in the buffer: the
first of the client's stream, or of its handshake. -/
def new (kind : Kind) (buffer : Text) : Session where
  kind := kind
  responseQueue := []
  buffer := buffer
  reads := []
  writes := []
  shutdowns := 0
  owner := none
  fate := .live
  received := if kind = .plain then buffer else []
  consumed := 0
  bodyLeft := 0
  parses := []
  headers := []
  dispatched := []
  uses := 0
  releases := 0
  eofs := 0
  closed := false
  ended := false
  queued := []
  handed := []
  answered := []

/-- Start a read on the stream. -/
def asyncRead (s : Session) (op : Read Request) : Session :=
  { s with reads := s.reads ++ [op], uses := s.uses + 1 }

/-- `do_read`: parse the next header from here. -/
def doRead (s : Session) : Session :=
  { s.asyncRead .header with parses := s.parses ++ [s.consumed] }

/-- `run`. -/
def run (kind : Kind) (buffer : Text) : Session :=
  match kind with
  | .plain => (new kind buffer).doRead
  | .ssl => (new kind buffer).asyncRead .opening

/-- `do_eof`. Over SSL the shutdown is an operation of its own. -/
def doEof (s : Session) (side : Side) : Session :=
  { s with
    shutdowns := if s.kind = .ssl then s.shutdowns + 1 else s.shutdowns
    ended := true
    uses := s.uses + 1
    eofs := if side = .request then s.eofs + 1 else s.eofs }

/-- `fail`: the handler reports and returns. -/
def fail (s : Session) : Session := { s with ended := true }

/-- `do_write`. The response stays in the queue until it has been written. -/
def doWrite (s : Session) : Session :=
  match s.responseQueue with
  | [] => s
  | q :: _ => { s with writes := s.writes ++ [q], handed := s.handed ++ [q], uses := s.uses + 1 }

/-- `queue_write`. -/
def queueWrite (s : Session) (q : Reply Response) : Session :=
  let s := { s with responseQueue := s.responseQueue ++ [q], queued := s.queued ++ [q] }
  if s.responseQueue.length = 1 then s.doWrite else s

/-- `continue_read_if_needed`. -/
def continueReadIfNeeded (s : Session) : Session :=
  if s.responseQueue.length < queueLimit then s.doRead else s

/-- `on_write`. -/
def onWrite (s : Session) (q : Reply Response) (ok : Bool) : Session :=
  if ok = false then { s.fail with closed := true }
  else if q.message.keepAlive = false then { s.doEof .response with closed := true }
  else
    -- the size still counts the response that has just been written
    let s := if queueLimit ≤ s.responseQueue.length then s.doRead else s
    { s with responseQueue := s.responseQueue.tail, answered := s.answered ++ [q] }.doWrite

/-- `release_stream`. -/
def releaseStream (s : Session) : Session :=
  { s with releases := s.releases + 1, ended := true }

/-- The stream and the buffer move to a copier, which is started. -/
def startCopier (s : Session) (started : Except Exn Copier) (owner : Copier → Owner) : Session :=
  match started with
  | .ok c => { s.releaseStream with buffer := [], owner := some (owner c) }
  | .error e => { s.releaseStream with buffer := [], fate := .threw e }

end Session

open Session

/-- The requests that `handler::operator()` gives to `FileUploadHandler`. -/
def isUpload (ebr : Request) : Prop :=
  Text.contains (ebr.get .contentType) "multipart/form-data".toList ∨
    ebr.target = "/upload/data".toList

instance (ebr : Request) : Decidable (isUpload ebr) :=
  inferInstanceAs (Decidable (_ ∨ _))

/-- `FileUploadHandler::handle_request`: open the file, then read the body. -/
def FileUploadHandler.handleRequest (s : Session) (number : Nat) (req0 : Request) (files : Files) :
    Session :=
  match files.write with
  | some _ => s.doEof .request
  | none => s.asyncRead (.body number req0)

/-- `FileUploadHandler::on_read`, once the body has been read. -/
def FileUploadHandler.onRead (s : Session) (number : Nat) (req0 : Request) : Session :=
  (s.queueWrite ⟨number, FileUploadHandler.response req0⟩).continueReadIfNeeded

namespace Session

variable (lib : Lib)

/-- The handler is called. -/
def dispatch (s : Session) (ebr : Request) : Session :=
  { s with dispatched := s.dispatched ++ [ebr] }

/-- `handler::operator()`. The router only reports what it finds. -/
def handler (s : Session) (number : Nat) (ebr : Request) (files : Files) : Session :=
  let s := s.dispatch ebr
  match lib.urls.parseOriginForm ebr.target with
  | none => s.doEof .request
  | some path =>
    match allSegments path with
    | none => { s with fate := .hung }
    | some _ =>
      if isUpload ebr then
        FileUploadHandler.handleRequest s number ebr files
      else
        s.queueWrite ⟨number, FileRequestHandler.handleRequest lib.beast ".".toList ebr files.scan⟩

/-- `on_read` for a header that was read without an error. -/
def onRead (s : Session) (number : Nat) (req : Request) (files : Files) : Session :=
  if lib.beast.isUpgrade req then { s.releaseStream with owner := some (.websocket req) }
  else if req.method = .connect then
    s.startCopier (SocketCopier.start (SocketCopier.new maxLength s.buffer req)) .socketCopier
  else if "http".toList.isPrefixOf req.target then
    s.startCopier (HttpCopier.start lib.urls (HttpCopier.new maxLength req s.buffer)) .httpCopier
  else s.handler lib number req files

/-- `async_read_header` completes: the header leaves the buffer. -/
def takeHeader (s : Session) (req : Request) (bytes : Nat) : Session :=
  { s with
    reads := s.reads.erase .header
    buffer := s.buffer.drop bytes
    consumed := s.consumed + bytes
    bodyLeft := lib.beast.bodyLength req
    headers := s.headers ++ [req] }

/-- `async_read` with the continued parser completes: the body has left the buffer. -/
def takeBody (s : Session) (number : Nat) (req : Request) : Session :=
  { s with
    reads := s.reads.erase (.body number req)
    buffer := s.buffer.drop (lib.beast.bodyLength req)
    consumed := s.consumed + lib.beast.bodyLength req
    bodyLeft := 0 }

end Session

/-- What can happen to a session: bytes of the client arrive for the read in
flight, or an operation completes. -/
inductive SessionEvent where
  | arrive (bytes : Text)
  | handshake (bytesUsed : Nat)
  | headerRead (req : Request) (bytes : Nat) (files : Files)
  | endOfStream
  | bodyRead (number : Nat) (req : Request)
  | readFailed (op : Read Request)
  | written (q : Reply Response) (ok : Bool)
  | shutdown

namespace Session

variable (lib : Lib)

/-- The reaction to an event, `none` when it cannot happen. -/
def react (s : Session) : SessionEvent → Option Session
  | .arrive bytes =>
    if s.reads.any (· ≠ .opening) then
      some { s with buffer := s.buffer ++ bytes, received := s.received ++ bytes }
    else none
  | .handshake bytesUsed =>
    if .opening ∈ s.reads then
      some { s with
        reads := s.reads.erase .opening
        buffer := s.buffer.drop bytesUsed
        received := s.received ++ s.buffer.drop bytesUsed }.doRead
    else none
  | .headerRead req bytes files =>
    if .header ∈ s.reads ∧ lib.beast.parseHeader s.buffer = .done req bytes then
      some ((s.takeHeader lib req bytes).onRead lib s.headers.length req files)
    else none
  | .endOfStream =>
    if .header ∈ s.reads then
      some ({ s with reads := s.reads.erase .header }.doEof .request)
    else none
  | .bodyRead number req =>
    if .body number req ∈ s.reads ∧ lib.beast.bodyLength req ≤ s.buffer.length then
      some (FileUploadHandler.onRead (s.takeBody lib number req) number req)
    else none
  | .readFailed op =>
    if op ∈ s.reads then some ({ s with reads := s.reads.erase op }.fail) else none
  | .written q ok =>
    if q ∈ s.writes then some ({ s with writes := s.writes.erase q }.onWrite q ok) else none
  | .shutdown =>
    if 0 < s.shutdowns then some { s with shutdowns := s.shutdowns - 1 } else none

/-- A session goes on as long as its handlers return. -/
def step (s : Session) (e : SessionEvent) : Option Session :=
  if s.fate = .live then s.react lib e else none

/-- A session as a machine. -/
def machine : Machine Session SessionEvent where
  step := step lib

end Session

end ServerAsync
