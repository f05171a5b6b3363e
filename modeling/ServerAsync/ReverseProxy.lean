import ServerAsync.Http
import ServerAsync.Misc.Machine

/-!
# `ProxyServer::Session`

The reverse proxy of `http_proxy_server_side.hpp`. A session reads one request, sends it
to the target, reads the header of the response with a parser and writes it to the
client. Then it goes round: read some more with the parser, and write to the client what
is in the buffer then.
-/

namespace ServerAsync

open Misc

/-- `http::response_header`. -/
structure ResponseHeader where
  status : Nat
  version : Nat
  fields : List (Field × Text)
  deriving DecidableEq, Repr

/-- What the parse of a response header finds at the front of a buffer. -/
inductive HeaderParse where
  | needMore
  | done (header : ResponseHeader) (bytes : Nat)
  | failed
  deriving DecidableEq, Repr

/-- What the session uses of Boost.Beast. -/
structure ResponseLib where
  /-- The header parse of `async_read_header` on what has been received. -/
  parse : Text → HeaderParse
  /-- The header as `async_write` of a response writes it. -/
  serialize : ResponseHeader → Text
  /-- The declared length of the body that follows a header. -/
  contentLength : ResponseHeader → Nat
  /-- A complete header is what the parser consumed. -/
  bytes_le : ∀ t header bytes, parse t = .done header bytes → bytes ≤ t.length
  /-- The parser stops at the end of the header, whatever follows. -/
  parse_append : ∀ t header bytes rest, parse t = .done header bytes →
    parse (t ++ rest) = .done header bytes

/-- The text is one response with this header and this body. -/
def ResponseLib.IsResponse (lib : ResponseLib) (header : ResponseHeader) (body t : Text) : Prop :=
  ∃ bytes, lib.parse t = .done header bytes ∧ bytes + body.length = t.length ∧
    t.drop bytes = body ∧ lib.contentLength header = body.length

/-- `http::response_parser<http::string_body>`. -/
structure ResponseParser where
  header : Option ResponseHeader
  body : Text
  remaining : Nat
  deriving DecidableEq, Repr

/-- `put` behind the header: the body takes what belongs to it, and the parser says how
much that was. -/
def ResponseParser.put (p : ResponseParser) (buffer : Text) : ResponseParser × Nat :=
  let used := min p.remaining buffer.length
  ({ p with body := p.body ++ buffer.take used, remaining := p.remaining - used }, used)

namespace ProxyServer

/-- The asynchronous operations of a session, of which it has one at a time. -/
inductive Op where
  | readRequest
  | resolve
  | connect
  | writeRequest
  | readHeader
  | writeHeader (bytes : Text)
  | readSome
  | writeChunk (bytes : Text) (transferred : Nat)
  deriving DecidableEq, Repr

/-- `ProxyServer::Session`. `forwarded` is the request that the target got, `received`
what the target has sent, and `toClient` what has been written to the client. -/
structure Session where
  targetHost : Text
  req : Request
  reqBody : Text
  targetBuffer : Text
  parser : ResponseParser
  op : Option Op
  shutDown : Bool
  forwarded : Option (Request × Text)
  received : Text
  toClient : Text
  deriving DecidableEq, Repr

/-- The completions. `parsed` is that of a read that finds bytes in the buffer. -/
inductive Event where
  | requestRead (req : Request) (body : Text)
  | resolved
  | connected
  | requestWritten
  | received (bytes : Text)
  | parsed
  | endOfStream
  | clientWritten
  | failed
  deriving DecidableEq, Repr

/-- The argument of `body_limit`. -/
def bodyLimit : Nat := 1024 * 1024 * 100

namespace Session

variable (lib : ResponseLib)

/-- The constructor and `start`. -/
def start (targetHost : Text) : Session where
  targetHost := targetHost
  req := ⟨.other [], [], 11, []⟩
  reqBody := []
  targetBuffer := []
  parser := ⟨none, [], 0⟩
  op := some .readRequest
  shutDown := false
  forwarded := none
  received := []
  toClient := []

/-- `do_send_request`. -/
def doSendRequest (s : Session) : Session :=
  { s with req := s.req.set .host s.targetHost, op := some .writeRequest }

/-- `do_send_response_header`: what is written is the message in the parser. -/
def doSendResponseHeader (s : Session) (header : ResponseHeader) : Session :=
  { s with op := some (.writeHeader (lib.serialize header ++ s.parser.body)) }

/-- The read of `do_read_response_header` gets some bytes. -/
def readHeader (s : Session) (bytes : Text) : Session :=
  let s := { s with
    targetBuffer := s.targetBuffer ++ bytes
    received := s.received ++ bytes }
  match lib.parse s.targetBuffer with
  | .needMore => s
  | .failed => { s with op := none }
  | .done header used =>
    if lib.contentLength header ≤ bodyLimit then
      { s with
        targetBuffer := s.targetBuffer.drop used
        parser := ⟨some header, [], lib.contentLength header⟩ }.doSendResponseHeader lib header
    else { s with op := none }

/-- `async_forward_chunk`. -/
def asyncForwardChunk (s : Session) (transferred : Nat) : Session :=
  { s with op := some (.writeChunk s.targetBuffer transferred) }

/-- The read of `do_stream_body` has bytes in the buffer and parses them. -/
def parseSome (s : Session) : Session :=
  let (parser, used) := s.parser.put s.targetBuffer
  { s with
    parser := parser
    targetBuffer := s.targetBuffer.drop used }.asyncForwardChunk used

/-- The reaction to a completion, `none` when it cannot happen. -/
def step (s : Session) : Event → Option Session
  | .requestRead req body =>
    if s.op = some .readRequest then
      some { s with req := req, reqBody := body, op := some .resolve }
    else none
  | .resolved => if s.op = some .resolve then some { s with op := some .connect } else none
  | .connected => if s.op = some .connect then some s.doSendRequest else none
  | .requestWritten =>
    if s.op = some .writeRequest then
      some { s with forwarded := some (s.req, s.reqBody), op := some .readHeader }
    else none
  | .received bytes =>
    if bytes = [] then none
    else
      match s.op with
      | some .readHeader => some (s.readHeader lib bytes)
      | some .readSome =>
        if s.targetBuffer = [] then
          some { s with targetBuffer := bytes, received := s.received ++ bytes }.parseSome
        else none
      | some _ => none
      | none => none
  | .parsed =>
    if s.op = some .readSome ∧ s.targetBuffer ≠ [] then some s.parseSome else none
  | .endOfStream =>
    match s.op with
    | some .readHeader => some { s with op := none }
    | some .readSome =>
      -- the parser has got something, so a complete body is no error, again and again
      if s.targetBuffer ≠ [] then none
      else if s.parser.remaining = 0 then some (s.asyncForwardChunk 0)
      else some { s with op := none }
    | some _ => none
    | none => none
  | .clientWritten =>
    match s.op with
    | some (.writeHeader bytes) =>
      some { s with toClient := s.toClient ++ bytes, op := some .readSome }
    | some (.writeChunk bytes transferred) =>
      some { s with
        toClient := s.toClient ++ bytes
        targetBuffer := s.targetBuffer.drop transferred
        op := some .readSome }
    | some _ => none
    | none => none
  | .failed =>
    match s.op with
    | some (.writeChunk _ _) => some { s with op := none, shutDown := true }
    | some _ => some { s with op := none }
    | none => none

/-- A session as a machine. -/
def machine : Machine Session Event := ⟨step lib⟩

/-! ## What gets to the client -/

/-- Behind the header, what the target has sent is in the body of the parser or in the
buffer. -/
def Parsed (header : ResponseHeader) (bytes : Nat) (s : Session) : Prop :=
  bytes ≤ s.received.length ∧ s.parser.body ++ s.targetBuffer = s.received.drop bytes ∧
    s.parser.remaining + s.parser.body.length = lib.contentLength header

/-- What holds while an operation is in flight, when the target sends a response with
this header, which is so many bytes long. -/
def During (header : ResponseHeader) (bytes : Nat) (s : Session) : Op → Prop
  | .readHeader => s.targetBuffer = s.received ∧ s.parser.body = [] ∧ s.toClient = []
  | .writeHeader text => Parsed lib header bytes s ∧ text = lib.serialize header ∧ s.toClient = []
  | .readSome => Parsed lib header bytes s ∧ s.toClient = lib.serialize header
  | .writeChunk text _ =>
    Parsed lib header bytes s ∧ text = [] ∧ s.targetBuffer = [] ∧
      s.toClient = lib.serialize header
  | _ => s.targetBuffer = [] ∧ s.received = [] ∧ s.parser.body = [] ∧ s.toClient = []

/-- The invariant, as long as the target sends this stream. -/
def Inv (header : ResponseHeader) (bytes : Nat) (stream : Text) (s : Session) : Prop :=
  s.received <+: stream → ∀ op, s.op = some op → During lib header bytes s op

variable {lib} {header : ResponseHeader} {bytes : Nat} {body stream : Text}

/-- The front of a response on which a header parse succeeds is that response's header. -/
theorem parse_front (hstream : lib.parse stream = .done header bytes) {front : Text}
    (hfront : front <+: stream) {header' : ResponseHeader} {used : Nat}
    (hparse : lib.parse front = .done header' used) : header' = header ∧ used = bytes := by
  obtain ⟨rest, rfl⟩ := hfront
  have hwhole := lib.parse_append front header' used rest hparse
  rw [hstream, HeaderParse.done.injEq] at hwhole
  exact ⟨hwhole.1.symm, hwhole.2.symm⟩

/-- Bytes in the buffer that belong to the response all go to the body, and there is
nothing in the buffer for the client. -/
theorem parseSome_eq {s : Session} (hfits : s.targetBuffer.length ≤ s.parser.remaining) :
    s.parseSome = { s with
      parser := { s.parser with
        body := s.parser.body ++ s.targetBuffer
        remaining := s.parser.remaining - s.targetBuffer.length }
      targetBuffer := []
      op := some (.writeChunk [] s.targetBuffer.length) } := by
  have hused : min s.parser.remaining s.targetBuffer.length = s.targetBuffer.length :=
    Nat.min_eq_right hfits
  simp [parseSome, ResponseParser.put, hused, asyncForwardChunk]

theorem inv_start (targetHost : Text) : Inv lib header bytes stream (start targetHost) := by
  intro _ op hop
  cases Option.some.inj hop
  exact ⟨rfl, rfl, rfl, rfl⟩

/-- What belongs to the response fits into the body. -/
theorem Parsed.fits {s : Session} (h : Parsed lib header bytes s)
    (hstream : lib.IsResponse header body stream) (hparse : lib.parse stream = .done header bytes)
    (hreceived : s.received <+: stream) :
    s.targetBuffer.length ≤ s.parser.remaining := by
  obtain ⟨bytes', hparse', hlen, -, hdeclared⟩ := hstream
  rw [hparse, HeaderParse.done.injEq] at hparse'
  obtain ⟨-, rfl⟩ := hparse'
  obtain ⟨hbytes, hparts, hremaining⟩ := h
  have hle := congrArg List.length hparts
  rw [List.length_append, List.length_drop] at hle
  have hfront := hreceived.length_le
  omega

theorem readHeader_received (s : Session) (more : Text) :
    (s.readHeader lib more).received = s.received ++ more := by
  unfold readHeader
  dsimp only
  split
  · rfl
  · rfl
  · split <;> rfl

/-- A read of the header. -/
theorem inv_readHeader {s : Session} (hparse : lib.parse stream = .done header bytes)
    (hduring : During lib header bytes s .readHeader) (more : Text)
    (hop : s.op = some .readHeader) :
    Inv lib header bytes stream (s.readHeader lib more) := by
  intro hreceived op hop'
  rw [readHeader_received] at hreceived
  obtain ⟨hbuffer, hbody, hclient⟩ := hduring
  cases hfound : lib.parse (s.targetBuffer ++ more) with
  | needMore =>
    simp only [readHeader, hfound] at hop' ⊢
    rw [hop] at hop'
    cases Option.some.inj hop'
    exact ⟨by rw [hbuffer], hbody, hclient⟩
  | failed =>
    simp only [readHeader, hfound] at hop'
    cases hop'
  | done header' used =>
    simp only [readHeader, hfound] at hop' ⊢
    have hused := lib.bytes_le _ _ _ hfound
    rw [hbuffer] at hfound hused
    obtain ⟨rfl, rfl⟩ := parse_front hparse hreceived hfound
    by_cases hlimit : lib.contentLength header' ≤ bodyLimit
    · rw [if_pos hlimit] at hop' ⊢
      cases Option.some.inj hop'
      refine ⟨⟨hused, ?_, Nat.add_zero _⟩, List.append_nil _, hclient⟩
      change [] ++ (s.targetBuffer ++ more).drop used = (s.received ++ more).drop used
      rw [List.nil_append, hbuffer]
    · rw [if_neg hlimit] at hop'
      cases hop'

/-- A read of the body. -/
theorem inv_parseSome {s : Session} (hstream : lib.IsResponse header body stream)
    (hparse : lib.parse stream = .done header bytes) (hparsed : Parsed lib header bytes s)
    (hclient : s.toClient = lib.serialize header) : Inv lib header bytes stream s.parseSome := by
  intro hreceived op hop
  have hsame : s.parseSome.received = s.received := rfl
  rw [hsame] at hreceived
  have hfits := hparsed.fits hstream hparse hreceived
  obtain ⟨hbytes, hparts, hremaining⟩ := hparsed
  rw [parseSome_eq hfits] at hop ⊢
  cases Option.some.inj hop
  refine ⟨⟨hbytes, ?_, ?_⟩, rfl, rfl, hclient⟩
  · rw [List.append_nil]
    exact hparts
  · rw [List.length_append]
    change s.parser.remaining - s.targetBuffer.length + _ = _
    omega

theorem inv_step {s t : Session} {e : Event} (hstream : lib.IsResponse header body stream)
    (hparse : lib.parse stream = .done header bytes) (h : Inv lib header bytes stream s)
    (hstep : s.step lib e = some t) : Inv lib header bytes stream t := by
  cases e with
  | requestRead req reqBody =>
    obtain ⟨hop, rfl⟩ := Machine.taken hstep
    intro hreceived op hop'
    cases Option.some.inj hop'
    exact h hreceived _ hop
  | resolved =>
    obtain ⟨hop, rfl⟩ := Machine.taken hstep
    intro hreceived op hop'
    cases Option.some.inj hop'
    exact h hreceived _ hop
  | connected =>
    obtain ⟨hop, rfl⟩ := Machine.taken hstep
    intro hreceived op hop'
    cases Option.some.inj hop'
    exact h hreceived _ hop
  | requestWritten =>
    obtain ⟨hop, rfl⟩ := Machine.taken hstep
    intro hreceived op hop'
    cases Option.some.inj hop'
    obtain ⟨hbuffer, hnothing, hbody, hclient⟩ := h hreceived _ hop
    exact ⟨hbuffer.trans hnothing.symm, hbody, hclient⟩
  | received more =>
    simp only [step] at hstep
    split at hstep
    · cases hstep
    split at hstep
    · rename_i hop
      cases Option.some.inj hstep
      intro hreceived
      have hfront : s.received <+: stream := by
        rw [readHeader_received] at hreceived
        exact (List.prefix_append s.received more).trans hreceived
      exact inv_readHeader hparse (h hfront _ hop) more hop hreceived
    · rename_i hop
      obtain ⟨hempty, rfl⟩ := Machine.taken hstep
      intro hreceived
      have hfront : s.received <+: stream := (List.prefix_append s.received more).trans hreceived
      obtain ⟨⟨hbytes, hparts, hremaining⟩, hclient⟩ := h hfront _ hop
      refine inv_parseSome hstream hparse ⟨?_, ?_, hremaining⟩ hclient hreceived
      · exact Nat.le_trans hbytes (List.prefix_append s.received more).length_le
      · rw [hempty, List.append_nil] at hparts
        rw [List.drop_append_of_le_length hbytes, ← hparts]
    · cases hstep
    · cases hstep
  | parsed =>
    obtain ⟨⟨hop, -⟩, rfl⟩ := Machine.taken hstep
    intro hreceived
    obtain ⟨hparsed, hclient⟩ := h hreceived _ hop
    exact inv_parseSome hstream hparse hparsed hclient hreceived
  | endOfStream =>
    simp only [step] at hstep
    split at hstep
    · cases Option.some.inj hstep
      intro _ op hop'
      cases hop'
    · rename_i hop
      split at hstep
      · cases hstep
      rename_i hempty
      rw [not_not] at hempty
      split at hstep
      · cases Option.some.inj hstep
        intro hreceived op hop'
        cases Option.some.inj hop'
        obtain ⟨hparsed, hclient⟩ := h hreceived _ hop
        exact ⟨hparsed, hempty, hempty, hclient⟩
      · cases Option.some.inj hstep
        intro _ op hop'
        cases hop'
    · cases hstep
    · cases hstep
  | clientWritten =>
    simp only [step] at hstep
    split at hstep
    · rename_i text hop
      cases Option.some.inj hstep
      intro hreceived op hop'
      cases Option.some.inj hop'
      obtain ⟨hparsed, htext, hclient⟩ := h hreceived _ hop
      refine ⟨hparsed, ?_⟩
      change s.toClient ++ text = _
      rw [hclient, htext, List.nil_append]
    · rename_i text transferred hop
      cases Option.some.inj hstep
      intro hreceived op hop'
      cases Option.some.inj hop'
      obtain ⟨⟨hbytes, hparts, hremaining⟩, htext, hempty, hclient⟩ := h hreceived _ hop
      refine ⟨⟨hbytes, ?_, hremaining⟩, ?_⟩
      · change s.parser.body ++ s.targetBuffer.drop transferred = _
        rw [hempty, List.drop_nil, ← hempty]
        exact hparts
      · change s.toClient ++ text = _
        rw [hclient, htext, List.append_nil]
    · cases hstep
    · cases hstep
  | failed =>
    simp only [step] at hstep
    split at hstep
    · cases Option.some.inj hstep
      intro _ op hop'
      cases hop'
    · cases Option.some.inj hstep
      intro _ op hop'
      cases hop'
    · cases hstep

/-- The session is through with the response: the parser has all of it, and what was
there to be written has been written. -/
def Through (s : Session) : Prop :=
  s.op = some .readSome ∧ s.targetBuffer = [] ∧ s.parser.remaining = 0

/-- Once the session is through with a response, the client has got the response exactly
when there is no body. -/
theorem forwards_response_iff {targetHost : Text} {s : Session} {es : List Event}
    (hstream : lib.IsResponse header body stream)
    (hserialize : lib.parse (lib.serialize header) =
      .done header (lib.serialize header).length)
    (hrun : (machine lib).run (start targetHost) es = some s) (hreceived : s.received = stream)
    (hthrough : s.Through) : lib.IsResponse header body s.toClient ↔ body = [] := by
  have hresponse := hstream
  obtain ⟨bytes, hparse, -, -, hdeclared⟩ := hstream
  have hinv : Inv lib header bytes stream s :=
    Machine.run_invariant (I := Inv lib header bytes stream)
      (fun _ _ _ h hstep => inv_step hresponse hparse h hstep) (inv_start targetHost) hrun
  obtain ⟨-, hclient⟩ := hinv (hreceived ▸ List.prefix_rfl) _ hthrough.1
  rw [hclient]
  constructor
  · rintro ⟨used, hused, hlen, -, -⟩
    rw [hserialize, HeaderParse.done.injEq] at hused
    obtain ⟨-, rfl⟩ := hused
    exact List.length_eq_zero_iff.mp (by omega)
  · rintro rfl
    exact ⟨_, hserialize, Nat.add_zero _, List.drop_length, hdeclared⟩

end Session

end ProxyServer

/-! ## Plain responses -/

/-- `obsolete_reason`, for the statuses of the responses below. -/
def obsoleteReason : Nat → Text
  | 200 => "OK".toList
  | 404 => "Not Found".toList
  | _ => "<unknown-status>".toList

/-- The status line and the fields of an HTTP/1.1 response. -/
def ResponseHeader.text (h : ResponseHeader) : Text :=
  "HTTP/1.1 ".toList ++ Nat.toDigits 10 h.status ++ ' ' :: obsoleteReason h.status ++ crlf ++
    h.fields.flatMap (fun f => f.1.text ++ ": ".toList ++ f.2 ++ crlf) ++ crlf

/-- A Beast that parses the given header. -/
def ResponseLib.plain (header : ResponseHeader) : ResponseLib where
  parse t :=
    if header.text.isPrefixOf t then .done header header.text.length
    else if t.isPrefixOf header.text then .needMore else .failed
  serialize := ResponseHeader.text
  contentLength h := declaredLength ⟨.other [], [], h.version, h.fields⟩
  bytes_le t h bytes hparse := by
    split at hparse
    · rename_i hfront
      rw [HeaderParse.done.injEq] at hparse
      rw [← hparse.2]
      exact (List.isPrefixOf_iff_prefix.mp hfront).length_le
    · split at hparse <;> cases hparse
  parse_append t h bytes rest hparse := by
    split at hparse
    · rename_i hfront
      have hmore : header.text <+: t ++ rest :=
        (List.isPrefixOf_iff_prefix.mp hfront).trans (List.prefix_append t rest)
      rw [if_pos (List.isPrefixOf_iff_prefix.mpr hmore)]
      exact hparse
    · split at hparse <;> cases hparse

namespace ProxyServer.Session

/-- A header that declares a body of this length. -/
def okHeader (length : Text) : ResponseHeader := ⟨200, 11, [(.contentLength, length)]⟩

/-- A client's request, up to the target's response. -/
def request : List Event :=
  [.requestRead ⟨.get, ['/'], 11, []⟩ [], .resolved, .connected, .requestWritten]

/-- A response without a body. -/
theorem forwards_response_iff_empty : ∃ s,
    (machine (ResponseLib.plain (okHeader ['0']))).run (start ['h'])
      (request ++ [.received (okHeader ['0']).text, .clientWritten]) = some s ∧
    (ResponseLib.plain (okHeader ['0'])).IsResponse (okHeader ['0']) [] s.toClient := by
  obtain ⟨s, hrun, htest⟩ := Machine.run_of_any (machine (ResponseLib.plain (okHeader ['0'])))
    (start ['h']) (request ++ [.received (okHeader ['0']).text, .clientWritten])
    (fun s => s.received == (okHeader ['0']).text && (s.op == some .readSome &&
      (s.targetBuffer == [] && s.parser.remaining == 0))) (by decide +kernel)
  simp only [Bool.and_eq_true, beq_iff_eq] at htest
  have hresponse : (ResponseLib.plain (okHeader ['0'])).IsResponse (okHeader ['0']) []
      (okHeader ['0']).text :=
    ⟨(okHeader ['0']).text.length, by decide +kernel, by decide +kernel, by decide +kernel,
      by decide +kernel⟩
  exact ⟨s, hrun, (forwards_response_iff hresponse (by decide +kernel) hrun htest.1 htest.2).mpr
    rfl⟩

/-- A response with a body of one byte, in one read: the client gets the header. -/
theorem body_not_forwarded : ∃ s,
    (machine (ResponseLib.plain (okHeader ['1']))).run (start ['h'])
      (request ++ [.received ((okHeader ['1']).text ++ ['x']), .clientWritten, .parsed,
        .clientWritten]) = some s ∧
    s.Through ∧ s.toClient = (okHeader ['1']).text ∧
    (ResponseLib.plain (okHeader ['1'])).IsResponse (okHeader ['1']) ['x']
      ((okHeader ['1']).text ++ ['x']) ∧
    ¬ (ResponseLib.plain (okHeader ['1'])).IsResponse (okHeader ['1']) ['x'] s.toClient := by
  obtain ⟨s, hrun, htest⟩ := Machine.run_of_any (machine (ResponseLib.plain (okHeader ['1'])))
    (start ['h']) (request ++ [.received ((okHeader ['1']).text ++ ['x']), .clientWritten, .parsed,
        .clientWritten])
    (fun s => (s.op == some .readSome && (s.targetBuffer == [] && s.parser.remaining == 0)) &&
      s.toClient == (okHeader ['1']).text) (by decide +kernel)
  simp only [Bool.and_eq_true, beq_iff_eq] at htest
  refine ⟨s, hrun, htest.1, htest.2, ?_, ?_⟩
  · exact ⟨(okHeader ['1']).text.length, by decide +kernel, by decide +kernel, by decide +kernel,
      by decide +kernel⟩
  · rintro ⟨bytes, hparse, hlen, -, -⟩
    rw [htest.2] at hparse hlen
    have hwhole : (ResponseLib.plain (okHeader ['1'])).parse (okHeader ['1']).text =
        .done (okHeader ['1']) (okHeader ['1']).text.length := by decide +kernel
    rw [hwhole, HeaderParse.done.injEq] at hparse
    rw [← hparse.2, List.length_singleton] at hlen
    omega

end ProxyServer.Session

end ServerAsync
