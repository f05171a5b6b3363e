import ServerAsync.SessionFrame
import ServerAsync.Misc.Framing

/-!
# Where the header parses start

The client's stream is a concatenation of messages. A session stays in step with
it as long as the header read that follows a message starts where the message
ends. The body of a message that goes to `FileUploadHandler` is read before that;
`FileRequestHandler` leaves it in the stream and no read follows, except the one
that `on_write` starts when the queue was full.
-/

namespace ServerAsync

open Misc Misc.Pipeline

/-- A well-formed message: a header that the parser reads whole, and a body of the
length it declares. -/
structure Message (beast : Beast) where
  header : Request
  text : Text
  body : Text
  parses : beast.parseHeader text = .done header text.length
  body_length : body.length = beast.bodyLength header

def Message.bytes {beast : Beast} (m : Message beast) : Text := m.text ++ m.body

/-- The bytes that a client sends. -/
def clientStream {beast : Beast} (ms : List (Message beast)) : Text :=
  (ms.map Message.bytes).flatten

/-- Where a message of the client starts in its stream. -/
def messageStart {beast : Beast} (ms : List (Message beast)) (k : Nat) : Nat :=
  Framing.start (ms.map Message.bytes) k

/-- What a parser finds at the front of some messages is the first one's header. -/
theorem parse_front {beast : Beast} {ms : List (Message beast)} {buffer : Text} {req : Request}
    {bytes : Nat} (hbuffer : buffer <+: clientStream ms)
    (hparse : beast.parseHeader buffer = .done req bytes) :
    ∃ m rest, ms = m :: rest ∧ req = m.header ∧ bytes = m.text.length := by
  cases ms with
  | nil =>
    have hnil : buffer = [] := List.prefix_nil.mp hbuffer
    have hle := beast.bytes_le _ _ _ hparse
    rw [hnil, List.length_nil] at hle
    omega
  | cons m rest =>
    refine ⟨m, rest, rfl, ?_⟩
    obtain ⟨more, hmore⟩ := hbuffer
    have hfront := beast.parse_append _ _ _ more hparse
    have hwhole : clientStream (m :: rest) = m.text ++ (m.body ++ clientStream rest) := by
      simp [clientStream, Message.bytes]
    rw [hmore, hwhole, beast.parse_append _ _ _ _ m.parses] at hfront
    cases hfront
    exact ⟨rfl, rfl⟩

namespace Session

variable {lib : Lib} {ms : List (Message lib.beast)} {s s' : Session}

/-- No write that completes will resume reading. -/
def NoResume (s : Session) : Prop :=
  s.responseQueue.length < queueLimit ∨ ∀ q ∈ s.writes, q.message.keepAlive = false

/-- How far a session has got in the client's stream. A session that has left a body
unread, or has given the stream away, reads nothing more. -/
structure Sync (ms : List (Message lib.beast)) (s : Session) : Prop where
  headers : s.headers <+: ms.map Message.header
  position : s.consumed + s.bodyLeft = messageStart ms s.headers.length
  buffer : s.dispatched = s.headers → .header ∈ s.reads ∨ s.headers ≠ [] →
    s.buffer = s.received.drop s.consumed ∧ s.consumed ≤ s.received.length
  dispatched : s.dispatched <+: s.headers
  reading : s.reads ≠ [] → s.dispatched = s.headers
  opening : .opening ∈ s.reads → s.received = []
  header : .header ∈ s.reads → s.bodyLeft = 0
  body : ∀ number req, .body number req ∈ s.reads → s.bodyLeft = lib.beast.bodyLength req
  stuck : s.reads = [] → s.bodyLeft ≠ 0 ∨ s.dispatched ≠ s.headers → s.NoResume
  parses : ∀ p ∈ s.parses, ∃ k ≤ ms.length, p = messageStart ms k

/-- While nothing is read, only the last message and the buffer are left to check. -/
theorem Sync.of_idle (hreads : s.reads = []) (hheaders : s.headers <+: ms.map Message.header)
    (hposition : s.consumed + s.bodyLeft = messageStart ms s.headers.length)
    (hbuffer : s.dispatched = s.headers → s.headers ≠ [] →
      s.buffer = s.received.drop s.consumed ∧ s.consumed ≤ s.received.length)
    (hdispatched : s.dispatched <+: s.headers)
    (hstuck : s.bodyLeft ≠ 0 ∨ s.dispatched ≠ s.headers → s.NoResume)
    (hparses : ∀ p ∈ s.parses, ∃ k ≤ ms.length, p = messageStart ms k) : Sync ms s where
  headers := hheaders
  position := hposition
  buffer heq hor := hbuffer heq (hor.resolve_left (by simp [hreads]))
  dispatched := hdispatched
  reading hne := absurd hreads hne
  opening hmem := by simp [hreads] at hmem
  header hmem := by simp [hreads] at hmem
  body _ _ hmem := by simp [hreads] at hmem
  stuck _ := hstuck
  parses := hparses

/-- `Sync` reads the input side, and `NoResume`. -/
theorem Sync.frame (h : Sync ms s) (hsame : SameInput s s')
    (hstuck : s.reads = [] → s.bodyLeft ≠ 0 ∨ s.dispatched ≠ s.headers → s'.NoResume) :
    Sync ms s' := by
  constructor
  · rw [hsame.headers]
    exact h.headers
  · rw [hsame.consumed, hsame.bodyLeft, hsame.headers]
    exact h.position
  · rw [hsame.dispatched, hsame.headers, hsame.reads, hsame.buffer, hsame.received, hsame.consumed]
    exact h.buffer
  · rw [hsame.dispatched, hsame.headers]
    exact h.dispatched
  · rw [hsame.reads, hsame.dispatched, hsame.headers]
    exact h.reading
  · rw [hsame.reads, hsame.received]
    exact h.opening
  · rw [hsame.reads, hsame.bodyLeft]
    exact h.header
  · rw [hsame.reads, hsame.bodyLeft]
    exact h.body
  · rw [hsame.reads, hsame.bodyLeft, hsame.dispatched, hsame.headers]
    exact hstuck
  · rw [hsame.parses]
    exact h.parses

/-- A header read that starts after the last message was read whole. -/
theorem Sync.doRead (h : Sync ms s) (hreads : s.reads = []) (hleft : s.bodyLeft = 0)
    (hdispatched : s.dispatched = s.headers)
    (hbuffer : s.buffer = s.received.drop s.consumed ∧ s.consumed ≤ s.received.length) :
    Sync ms s.doRead where
  headers := h.headers
  position := h.position
  buffer _ _ := hbuffer
  dispatched := h.dispatched
  reading _ := hdispatched
  opening hop := by simp [Session.doRead, asyncRead, hreads] at hop
  header _ := hleft
  body number req hop := by simp [Session.doRead, asyncRead, hreads] at hop
  stuck hnil := by simp [Session.doRead, asyncRead] at hnil
  parses := by
    intro p hp
    simp only [Session.doRead, asyncRead, List.mem_append, List.mem_singleton] at hp
    rcases hp with hp | rfl
    · exact h.parses p hp
    · refine ⟨s.headers.length, ?_, ?_⟩
      · have hle := h.headers.length_le
        rwa [List.length_map] at hle
      · have hposition := h.position
        rwa [hleft, Nat.add_zero] at hposition

/-- A body read that starts after its header was read. -/
theorem Sync.readBody {number : Nat} {req : Request} (h : Sync ms s) (hreads : s.reads = [])
    (hleft : s.bodyLeft = lib.beast.bodyLength req) (hdispatched : s.dispatched = s.headers)
    (hbuffer : s.buffer = s.received.drop s.consumed ∧ s.consumed ≤ s.received.length) :
    Sync ms (s.asyncRead (.body number req)) where
  headers := h.headers
  position := h.position
  buffer _ _ := hbuffer
  dispatched := h.dispatched
  reading _ := hdispatched
  opening hop := by simp [asyncRead, hreads] at hop
  header hop := by simp [asyncRead, hreads] at hop
  body number' req' hop := by
    simp only [asyncRead, hreads, List.nil_append, List.mem_singleton, Read.body.injEq] at hop
    rw [hop.2]
    exact hleft
  stuck hnil := by simp [asyncRead] at hnil
  parses := h.parses

/-! ## A header is read -/

/-- The header of the next message is taken out of the buffer, and nobody has its
body yet. -/
theorem Sync.takeHeader {req : Request} {bytes : Nat} (hinv : Pipeline.Inv queueLimit s.core)
    (h : Sync ms s) (hclient : s.received <+: clientStream ms) (hop : .header ∈ s.reads)
    (hparse : lib.beast.parseHeader s.buffer = .done req bytes) :
    Sync ms (s.takeHeader lib req bytes) ∧
    s.buffer.drop bytes = s.received.drop (s.consumed + bytes) ∧
    s.consumed + bytes ≤ s.received.length := by
  have hdispatched := h.reading (List.ne_nil_of_mem hop)
  obtain ⟨hbuffer, hle⟩ := h.buffer hdispatched (Or.inl hop)
  have hconsumed : s.consumed = messageStart ms s.headers.length := by
    rw [← h.position, h.header hop, Nat.add_zero]
  have hfront : s.buffer <+: clientStream (ms.drop s.headers.length) := by
    have hdrop := hclient.drop s.consumed
    rw [← hbuffer, hconsumed] at hdrop
    unfold clientStream messageStart at hdrop
    rwa [Framing.drop_start, ← List.map_drop] at hdrop
  obtain ⟨m, rest, hms, rfl, rfl⟩ := parse_front hfront hparse
  have hbytes := (lib.beast.bytes_le _ _ _ hparse).2
  rw [hbuffer, List.length_drop] at hbytes
  have hreads : (s.takeHeader lib m.header m.text.length).reads = [] := hinv.read.erase_eq hop
  have hlength : (s.headers ++ [m.header]).length = s.headers.length + 1 := by simp
  refine ⟨?_, by rw [hbuffer, List.drop_drop], by omega⟩
  apply Sync.of_idle hreads
  · -- the header read is that of the next message
    obtain ⟨later, hlater⟩ := h.headers
    have hnext : later = m.header :: rest.map Message.header := by
      have hdrop := congrArg (List.drop s.headers.length) hlater
      rw [List.drop_left, ← List.map_drop, hms] at hdrop
      exact hdrop
    refine ⟨rest.map Message.header, ?_⟩
    rw [← hlater, hnext]
    simp [Session.takeHeader]
  · have hpieces : (ms.map Message.bytes).drop s.headers.length =
        m.bytes :: rest.map Message.bytes := by
      rw [← List.map_drop, hms]
      rfl
    show s.consumed + m.text.length + lib.beast.bodyLength m.header =
      messageStart ms (s.headers ++ [m.header]).length
    rw [hlength, messageStart, Framing.start_succ hpieces, ← m.body_length, Message.bytes,
      List.length_append, hconsumed, messageStart]
    omega
  · intro heq _
    have hlen := congrArg List.length heq
    change s.dispatched.length = (s.headers ++ [m.header]).length at hlen
    rw [hdispatched, hlength] at hlen
    omega
  · show s.dispatched <+: s.headers ++ [m.header]
    rw [hdispatched]
    exact List.prefix_append _ _
  · intro _
    exact Or.inl (hinv.read.room (List.ne_nil_of_mem hop))
  · exact h.parses

/-- The stream is given away after a header that was not dispatched. -/
theorem Sync.handOff {t : Session} (h : Sync ms s) (hreads : s.reads = [])
    (hnot : s.dispatched ≠ s.headers) (hsame : SameProgress s t) : Sync ms t := by
  have hno := h.stuck hreads (Or.inr hnot)
  apply Sync.of_idle (hsame.reads.trans hreads)
  · rw [hsame.headers]
    exact h.headers
  · rw [hsame.consumed, hsame.bodyLeft, hsame.headers]
    exact h.position
  · rw [hsame.dispatched, hsame.headers]
    exact fun heq => absurd heq hnot
  · rw [hsame.dispatched, hsame.headers]
    exact h.dispatched
  · unfold NoResume at hno ⊢
    rw [hsame.responseQueue, hsame.writes]
    exact fun _ => hno
  · rw [hsame.parses]
    exact h.parses

/-- A header that has been taken is given to the handler. -/
theorem Sync.dispatch {req : Request} (h : Sync ms s) (hreads : s.reads = [])
    (hdispatched : s.dispatched ++ [req] = s.headers)
    (hbuffer : s.buffer = s.received.drop s.consumed ∧ s.consumed ≤ s.received.length) :
    Sync ms (s.dispatch req) where
  headers := h.headers
  position := h.position
  buffer _ _ := hbuffer
  dispatched := by
    show s.dispatched ++ [req] <+: s.headers
    rw [hdispatched]
  reading _ := hdispatched
  opening := h.opening
  header := h.header
  body := h.body
  stuck _ _ := h.stuck hreads (Or.inr fun heq => by
    rw [← heq, List.append_right_eq_self] at hdispatched
    cases hdispatched)
  parses := h.parses

/-- A request with a body goes to `FileRequestHandler` only while the queue has more
than one place left, or when the response being written closes the connection. -/
def DrainsBodies (lib : Lib) (s : Session) : SessionEvent → Prop
  | .headerRead req _ files => ∀ r, route lib req files = .reply r →
      lib.beast.bodyLength req ≠ 0 → queueLimit ≤ s.responseQueue.length + 1 →
      ∀ q ∈ s.writes, q.message.keepAlive = false
  | _ => True

theorem queueWrite_queue (s : Session) (q : Reply Response) :
    (s.queueWrite q).responseQueue = s.responseQueue ++ [q] ∧
    (s.responseQueue ≠ [] → (s.queueWrite q).writes = s.writes) := by
  have hcore := core_queueWrite s q
  refine ⟨(congrArg State.queue hcore).trans (push_frame q s.core).2.1, fun hne => ?_⟩
  refine (congrArg State.writes hcore).trans ?_
  rw [push_ne_nil (by exact hne)]
  rfl

theorem Sync.headerRead {req : Request} {bytes : Nat} {files : Files}
    (hinv : Pipeline.Inv queueLimit s.core) (h : Sync ms s)
    (hclient : s.received <+: clientStream ms) (hop : .header ∈ s.reads)
    (hparse : lib.beast.parseHeader s.buffer = .done req bytes)
    (hdrains : DrainsBodies lib s (.headerRead req bytes files)) :
    Sync ms ((s.takeHeader lib req bytes).onRead lib s.headers.length req files) := by
  obtain ⟨htaken, hbuffer⟩ := h.takeHeader hinv hclient hop hparse
  have hreads : (s.takeHeader lib req bytes).reads = [] := hinv.read.erase_eq hop
  have hroom : s.responseQueue.length < queueLimit :=
    hinv.read.room (List.ne_nil_of_mem hop)
  have hdispatched : (s.takeHeader lib req bytes).dispatched ++ [req] =
      (s.takeHeader lib req bytes).headers := by
    show s.dispatched ++ [req] = s.headers ++ [req]
    rw [h.reading (List.ne_nil_of_mem hop)]
  have hnot : (s.takeHeader lib req bytes).dispatched ≠ (s.takeHeader lib req bytes).headers := by
    rw [← hdispatched]
    exact fun heq => List.cons_ne_nil _ _ (List.self_eq_append_right.mp heq)
  have hgiven := htaken.dispatch hreads hdispatched hbuffer
  rw [onRead_eq]
  cases hroute : route lib req files with
  | websocket => exact htaken.handOff hreads hnot ⟨rfl, rfl, rfl, rfl, rfl, rfl, rfl, rfl, rfl⟩
  | tunnel =>
    rw [onRoute]
    exact htaken.handOff hreads hnot (startCopier_sameProgress _ _ _)
  | proxy =>
    rw [onRoute]
    exact htaken.handOff hreads hnot (startCopier_sameProgress _ _ _)
  | refuse =>
    rw [onRoute]
    exact hgiven.frame (doEof_sameInput _ _) fun _ _ => Or.inl hroom
  | upload =>
    rw [onRoute]
    exact hgiven.readBody hreads rfl hdispatched hbuffer
  | reply r =>
    rw [onRoute]
    refine hgiven.frame (queueWrite_sameInput _ _) fun _ hstuck => ?_
    obtain ⟨hqueue, hwrites⟩ := queueWrite_queue ((s.takeHeader lib req bytes).dispatch req)
      ⟨s.headers.length, r⟩
    have hlength : (s.responseQueue ++ [(⟨s.headers.length, r⟩ : Reply Response)]).length =
        s.responseQueue.length + 1 := by simp
    by_cases hmore : s.responseQueue.length + 1 < queueLimit
    · left
      rw [hqueue]
      exact hlength.trans_lt hmore
    · right
      have hfull : queueLimit ≤ s.responseQueue.length + 1 := Nat.not_lt.mp hmore
      have hne : s.responseQueue ≠ [] := by
        intro hnil
        rw [hnil] at hfull
        exact absurd hfull (by decide)
      have hleft : lib.beast.bodyLength req ≠ 0 := by
        rcases hstuck with hleft | hbehind
        · exact hleft
        · exact absurd hdispatched hbehind
      rw [hwrites hne]
      exact hdrains r hroute hleft hfull

/-! ## The other completions -/

/-- A read that ends without a message to go on with. -/
theorem Sync.stop {op : Read Request} (hinv : Pipeline.Inv queueLimit s.core) (h : Sync ms s)
    (hop : op ∈ s.reads) : Sync ms { s with reads := s.reads.erase op } := by
  apply Sync.of_idle
  · exact hinv.read.erase_eq hop
  · exact h.headers
  · exact h.position
  · intro heq hne
    exact h.buffer heq (Or.inr hne)
  · exact h.dispatched
  · intro _
    exact Or.inl (hinv.read.room (List.ne_nil_of_mem hop))
  · exact h.parses

/-- Bytes arrive for a header or a body read. -/
theorem Sync.arrive {op : Read Request} (hinv : Pipeline.Inv queueLimit s.core) (h : Sync ms s)
    (hop : op ∈ s.reads) (hne : op ≠ .opening) (bytes : Text) :
    Sync ms { s with buffer := s.buffer ++ bytes, received := s.received ++ bytes } where
  headers := h.headers
  position := h.position
  buffer := by
    intro heq hor
    obtain ⟨hbuffer, hle⟩ := h.buffer heq hor
    refine ⟨?_, ?_⟩
    · show s.buffer ++ bytes = (s.received ++ bytes).drop s.consumed
      rw [List.drop_append_of_le_length hle, ← hbuffer]
    · show s.consumed ≤ (s.received ++ bytes).length
      rw [List.length_append]
      omega
  dispatched := h.dispatched
  reading := h.reading
  opening := by
    intro hmem
    have hreads : s.reads = [op] := hinv.read.reads_eq hop
    change .opening ∈ s.reads at hmem
    rw [hreads, List.mem_singleton] at hmem
    exact absurd hmem.symm hne
  header := h.header
  body := h.body
  stuck := h.stuck
  parses := h.parses

/-- The handshake is over; the stream starts with what it left in the buffer. -/
theorem Sync.handshake (hinv : Pipeline.Inv queueLimit s.core) (h : Sync ms s)
    (hop : .opening ∈ s.reads) (bytesUsed : Nat) :
    Sync ms (({ s with
      reads := s.reads.erase .opening
      buffer := s.buffer.drop bytesUsed
      received := s.received ++ s.buffer.drop bytesUsed } : Session).doRead) := by
  have hheaders : s.headers = [] := List.length_eq_zero_iff.mp (hinv.read.opening_count hop).2
  have hposition : s.consumed + s.bodyLeft = 0 := by
    have hpos := h.position
    rwa [hheaders] at hpos
  have hconsumed : s.consumed = 0 := by omega
  have hleft : s.bodyLeft = 0 := by omega
  have hreads : s.reads.erase .opening = [] := hinv.read.erase_eq hop
  have hbuffer : s.buffer.drop bytesUsed = (s.received ++ s.buffer.drop bytesUsed).drop s.consumed ∧
      s.consumed ≤ (s.received ++ s.buffer.drop bytesUsed).length := by
    rw [h.opening hop, hconsumed]
    exact ⟨rfl, Nat.zero_le _⟩
  refine Sync.doRead ?_ hreads hleft (h.reading (List.ne_nil_of_mem hop)) hbuffer
  apply Sync.of_idle
  · exact hreads
  · exact h.headers
  · exact h.position
  · exact fun _ _ => hbuffer
  · exact h.dispatched
  · intro _
    exact Or.inl (hinv.read.room (List.ne_nil_of_mem hop))
  · exact h.parses

/-- A body is read whole, and its response queued. -/
theorem Sync.bodyRead {number : Nat} {req : Request} (hinv : Pipeline.Inv queueLimit s.core)
    (h : Sync ms s) (hop : .body number req ∈ s.reads)
    (hlength : lib.beast.bodyLength req ≤ s.buffer.length) :
    Sync ms (FileUploadHandler.onRead (s.takeBody lib number req) number req) := by
  have hreads : s.reads.erase (.body number req) = [] := hinv.read.erase_eq hop
  have hleft := h.body number req hop
  have hdispatched := h.reading (List.ne_nil_of_mem hop)
  have hheaders : s.headers ≠ [] := by
    intro hnil
    have hcount : s.headers.length = number + 1 := (hinv.read.body_count number req hop).2
    rw [hnil] at hcount
    cases hcount
  obtain ⟨hbuffer, hle⟩ := h.buffer hdispatched (Or.inr hheaders)
  have hafter : s.buffer.drop (lib.beast.bodyLength req) =
      s.received.drop (s.consumed + lib.beast.bodyLength req) ∧
      s.consumed + lib.beast.bodyLength req ≤ s.received.length := by
    rw [hbuffer, List.length_drop] at hlength
    rw [hbuffer, List.drop_drop]
    exact ⟨rfl, by omega⟩
  have htaken : Sync ms (s.takeBody lib number req) := by
    apply Sync.of_idle
    · exact hreads
    · exact h.headers
    · show s.consumed + lib.beast.bodyLength req + 0 = _
      rw [← hleft]
      exact h.position
    · exact fun _ _ => hafter
    · exact h.dispatched
    · intro _
      exact Or.inl (hinv.read.room (List.ne_nil_of_mem hop))
    · exact h.parses
  have hsame := queueWrite_sameInput (s.takeBody lib number req)
    ⟨number, FileUploadHandler.response req⟩
  have hqueued := htaken.frame hsame fun _ hstuck => by
    rcases hstuck with hbody | hbehind
    · exact absurd rfl hbody
    · exact absurd hdispatched hbehind
  unfold FileUploadHandler.onRead continueReadIfNeeded
  split
  · apply hqueued.doRead
    · rw [hsame.reads]
      exact hreads
    · rw [hsame.bodyLeft]
      rfl
    · rw [hsame.dispatched, hsame.headers]
      exact hdispatched
    · rw [hsame.buffer, hsame.received, hsame.consumed]
      exact hafter
  · exact hqueued

theorem doWrite_queue (s : Session) : s.doWrite.responseQueue = s.responseQueue := by
  unfold doWrite
  split <;> simp_all

/-- A write that does not resume reading leaves it that way. -/
theorem onWrite_noResume {q : Reply Response} {ok : Bool} (hq : q ∈ s.writes)
    (hno : s.NoResume) :
    ({ s with writes := s.writes.erase q }.onWrite q ok).NoResume := by
  have hwrites : s.responseQueue.length < queueLimit ∨
      ∀ r ∈ s.writes.erase q, r.message.keepAlive = false :=
    hno.imp_right fun hall r hr => hall r (List.mem_of_mem_erase hr)
  unfold onWrite
  split
  · exact hwrites
  split
  · exact hwrites
  · rename_i hka
    left
    rcases hno with hroom | hall
    · rw [doWrite_queue]
      have hnot : ¬ queueLimit ≤ s.responseQueue.length := Nat.not_le.mpr hroom
      simp only [hnot, if_false, List.length_tail]
      omega
    · exact absurd (hall q hq) hka

/-- A write completes; one that resumes reading does so between two messages. -/
theorem Sync.written {q : Reply Response} (ok : Bool) (hinv : Pipeline.Inv queueLimit s.core)
    (h : Sync ms s) (hq : q ∈ s.writes) :
    Sync ms ({ s with writes := s.writes.erase q }.onWrite q ok) := by
  have hsame : SameInput s { s with writes := s.writes.erase q } :=
    ⟨rfl, rfl, rfl, rfl, rfl, rfl, rfl, rfl, rfl, rfl, rfl⟩
  have herased : Sync ms { s with writes := s.writes.erase q } :=
    h.frame hsame fun hreads hstuck =>
      (h.stuck hreads hstuck).imp_right fun hall r hr => hall r (List.mem_of_mem_erase hr)
  by_cases hresuming : ({ s with writes := s.writes.erase q } : Session).Resuming q ok
  · have hfull : queueLimit ≤ s.responseQueue.length := hresuming.2.2
    have hreads : s.reads = [] := by
      by_contra hne
      exact absurd (hinv.read.room hne) (Nat.not_lt.mpr hfull)
    have hclean : ¬ (s.bodyLeft ≠ 0 ∨ s.dispatched ≠ s.headers) := by
      intro hstuck
      rcases h.stuck hreads hstuck with hroom | hall
      · exact absurd hroom (Nat.not_lt.mpr hfull)
      · have hka := hresuming.2.1
        rw [hall q hq] at hka
        cases hka
    rw [not_or, not_not, not_not] at hclean
    have hheaders : s.headers ≠ [] := by
      intro hnil
      have hcount : s.responseQueue.length ≤ s.headers.length := by
        have hanswered := congrArg List.length hinv.write.answered_eq
        rw [List.length_append] at hanswered
        have hle := hinv.read.count_le
        change s.queued.length ≤ s.headers.length at hle
        change s.answered.length + s.responseQueue.length = s.queued.length at hanswered
        omega
      rw [hnil, List.length_nil] at hcount
      exact absurd (hfull.trans hcount) (by decide)
    have hread : Sync ms ({ s with writes := s.writes.erase q } : Session).doRead :=
      herased.doRead hreads hclean.1 hclean.2 (h.buffer hclean.2 (Or.inr hheaders))
    refine hread.frame (onWrite_resuming hresuming) fun hnil => ?_
    simp [Session.doRead, asyncRead] at hnil
  · refine herased.frame (onWrite_sameInput hresuming) fun hreads hstuck => ?_
    exact onWrite_noResume hq (h.stuck hreads hstuck)

end Session

end ServerAsync
