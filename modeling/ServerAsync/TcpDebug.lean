import ServerAsync.TcpConnection

/-!
# `tcp_connection` in debug mode

`feed` is what the reads of a run amount to: the bytes handed to `remote_socket_` and
those still in `request_buffer_`, as a function of how the client's stream was cut. As
`header_state_` never changes, a body is taken for the start of a request, and only
a single request without one is handed on in the same way however it is cut.
-/

namespace ServerAsync

open Misc

/-! ## Cuttings -/

/-- What a read adds to what has been handed on, and what it leaves in the buffer. -/
def feedStep (p : Text × Text) (chunk : Text) : Text × Text :=
  if hasCompleteHttpRequest (p.2 ++ chunk) then (p.1 ++ parseHttpRequest (p.2 ++ chunk), [])
  else (p.1, p.2 ++ chunk)

def feed (chunks : List Text) : Text × Text := chunks.foldl feedStep ([], [])

theorem feedStep_out (out : Text) (p : Text × Text) (chunk : Text) :
    feedStep (out ++ p.1, p.2) chunk = (out ++ (feedStep p chunk).1, (feedStep p chunk).2) := by
  unfold feedStep
  split <;> simp

/-- What was handed on before stays in front. -/
theorem foldl_feedStep_out (chunks : List Text) (out : Text) (p : Text × Text) :
    chunks.foldl feedStep (out ++ p.1, p.2) =
      (out ++ (chunks.foldl feedStep p).1, (chunks.foldl feedStep p).2) := by
  induction chunks generalizing p with
  | nil => rfl
  | cons chunk chunks ih =>
    rw [List.foldl_cons, List.foldl_cons, feedStep_out, ih]

/-- Reads that do not complete a request are collected. -/
theorem foldl_feedStep_incomplete {chunks : List Text} {out buffer : Text}
    (h : hasCompleteHttpRequest (buffer ++ chunks.flatten) = false) :
    chunks.foldl feedStep (out, buffer) = (out, buffer ++ chunks.flatten) := by
  induction chunks generalizing buffer with
  | nil => simp
  | cons chunk chunks ih =>
    rw [List.flatten_cons, ← List.append_assoc] at h
    have hfirst := hasComplete_of_prefix (List.prefix_append _ _) h
    rw [List.foldl_cons, feedStep, if_neg (by simp [hfirst]), ih h, List.flatten_cons,
      List.append_assoc]

/-- Reads of one byte each. -/
def bytewise (t : Text) : List Text := t.map fun c => [c]

theorem flatten_bytewise (t : Text) : (bytewise t).flatten = t := by
  induction t with
  | nil => rfl
  | cons c t ih => exact congrArg (c :: ·) ih

/-- What is handed on from a buffer that starts with a line feed starts with a space. -/
theorem foldl_feedStep_lineFeed (chunks : List Text) (buffer : Text) :
    (chunks.foldl feedStep ([], '\n' :: buffer)).1 = [] ∨
      ∃ rest, (chunks.foldl feedStep ([], '\n' :: buffer)).1 = ' ' :: rest := by
  induction chunks generalizing buffer with
  | nil => exact Or.inl rfl
  | cons chunk chunks ih =>
    rw [List.foldl_cons, feedStep]
    split
    · right
      have hparse : ∃ more, parseHttpRequest ('\n' :: buffer ++ chunk) = ' ' :: more :=
        ⟨_, rfl⟩
      obtain ⟨more, hmore⟩ := hparse
      have hout := foldl_feedStep_out chunks (' ' :: more) ([], [])
      rw [List.append_nil] at hout
      rw [List.nil_append, hmore, hout]
      exact ⟨_, rfl⟩
    · exact ih (buffer ++ chunk)

/-- The parser takes a byte behind a head for one more line. -/
theorem parse_append (front : Text) (c : Char) : ∃ lines,
    parseHttpRequest (front ++ ['\n']) = lines ++ crlf ∧
    parseHttpRequest (front ++ ['\n', c]) =
      lines ++ ((getlines [c]).flatMap (· ++ crlf) ++ crlf) := by
  refine ⟨newLines (getlines (front ++ ['\n'])), rfl, ?_⟩
  have hne : getlines (front ++ ['\n']) ≠ [] := by
    rw [Ne, getlines_eq_nil]
    simp
  rw [parseHttpRequest, getlines_append front [c], newLines_append hne, List.append_assoc]

/-- A read that completes a request starts the rest over. -/
theorem feed_complete {front chunk : Text} (hfront : hasCompleteHttpRequest front = false)
    (hchunk : hasCompleteHttpRequest (front ++ chunk) = true) (chunks : List Text) :
    feed (bytewise front ++ chunk :: chunks) =
      (parseHttpRequest (front ++ chunk) ++ (feed chunks).1, (feed chunks).2) := by
  have hcollect : (bytewise front).foldl feedStep ([], []) = ([], front) := by
    have hnone : hasCompleteHttpRequest ([] ++ (bytewise front).flatten) = false := by
      rwa [flatten_bytewise]
    have hcollected : (bytewise front).foldl feedStep ([], []) =
        ([], [] ++ (bytewise front).flatten) := foldl_feedStep_incomplete hnone
    rwa [flatten_bytewise] at hcollected
  have hout := foldl_feedStep_out chunks (parseHttpRequest (front ++ chunk)) ([], [])
  rw [List.append_nil] at hout
  rw [feed, List.foldl_append, hcollect, List.foldl_cons, feedStep, if_pos hchunk,
    List.nil_append, hout]
  rfl

/-- Behind a head, it shows in what is handed on whether the next byte was read with
it. -/
theorem feed_ne {front tail : Text} {c : Char} (hfront : hasCompleteHttpRequest front = false)
    (hhead : hasCompleteHttpRequest (front ++ ['\n']) = true) :
    (feed (bytewise front ++ ['\n'] :: bytewise (c :: tail))).1 ≠
      (feed (bytewise front ++ ['\n', c] :: bytewise tail)).1 := by
  obtain ⟨lines, halone, hboth⟩ := parse_append front c
  have hlonger : hasCompleteHttpRequest (front ++ ['\n', c]) = true :=
    Text.contains_iff.mpr ((Text.contains_iff.mp hhead).trans
      (List.IsPrefix.isInfix ⟨[c], by simp⟩))
  rw [feed_complete hfront hhead, feed_complete hfront hlonger, halone, hboth, List.append_assoc,
    List.append_assoc]
  intro heq
  have hrest := List.append_cancel_left heq
  by_cases hc : c = '\n'
  · -- the second head then starts with this line feed
    subst hc
    have hline : getlines ['\n'] = [[]] := rfl
    have hout : (feed (bytewise ('\n' :: tail))).1 = crlf ++ (feed (bytewise tail)).1 := by
      rw [hline] at hrest
      simpa [crlf] using hrest
    have hspace := foldl_feedStep_lineFeed (bytewise tail) []
    change (feed (bytewise ('\n' :: tail))).1 = [] ∨
      ∃ rest, (feed (bytewise ('\n' :: tail))).1 = ' ' :: rest at hspace
    rw [hout] at hspace
    rcases hspace with hnil | ⟨rest, hrest⟩
    · cases hnil
    · exact absurd (List.head_eq_of_cons_eq hrest) (by decide)
  · have hline : getlines [c] = [[c]] := by
      rw [getlines_cons hc]
      rfl
    rw [hline] at hrest
    change '\r' :: '\n' :: _ = c :: '\r' :: _ at hrest
    have hfeed := List.head_eq_of_cons_eq (List.tail_eq_of_cons_eq hrest)
    exact absurd hfeed (by decide)

/-- A single head is handed on as a whole, however it is cut. -/
theorem feed_head {front : Text} (hfront : hasCompleteHttpRequest front = false)
    (hhead : hasCompleteHttpRequest (front ++ ['\n']) = true) {chunks : List Text}
    (hne : ∀ chunk ∈ chunks, chunk ≠ []) (hflatten : chunks.flatten = front ++ ['\n']) :
    feed chunks = (parseHttpRequest (front ++ ['\n']), []) := by
  rcases List.eq_nil_or_concat' chunks with rfl | ⟨init, last, rfl⟩
  · simp at hflatten
  have hlast := hne last (by simp)
  rw [List.flatten_append, List.flatten_cons, List.flatten_nil, List.append_nil] at hflatten
  -- the last read brings at least the last byte of the head
  have hinit : init.flatten <+: front := by
    have hlength := congrArg List.length hflatten
    rw [List.length_append, List.length_append, List.length_singleton] at hlength
    have hpos := List.length_pos_of_ne_nil hlast
    refine List.prefix_of_prefix_length_le ⟨last, hflatten⟩ (List.prefix_append _ _) ?_
    omega
  have hnone : hasCompleteHttpRequest ([] ++ init.flatten) = false :=
    hasComplete_of_prefix hinit hfront
  rw [feed, List.foldl_append, foldl_feedStep_incomplete hnone, List.foldl_cons, List.foldl_nil,
    feedStep, List.nil_append, hflatten, if_pos hhead, List.nil_append]

/-! ## Runs -/

/-- The bytes of a read from the client. -/
def TcpEvent.chunk? : TcpEvent → Option Text
  | .client (.read bytes) => some bytes
  | _ => none

/-- How a run has cut the client's stream. -/
def chunks (es : List TcpEvent) : List Text := es.filterMap TcpEvent.chunk?

theorem flatten_chunks (es : List TcpEvent) :
    (chunks es).flatten = es.flatMap (TcpEvent.bytes .toRemote) := by
  induction es with
  | nil => rfl
  | cons e es ih =>
    rw [List.flatMap_cons, ← ih, chunks, List.filterMap_cons]
    cases e with
    | client e =>
      cases e with
      | read bytes => rfl
      | _ => rfl
    | _ => rfl

namespace TcpConnection

variable {es : List TcpEvent} {s s' : TcpConnection} {e : TcpEvent}

/-- The loop of the client in debug mode: it reads, or `request_buffer_` is written,
and `feed` gives what has been handed on and what is still in the buffer. -/
structure Debugging (es : List TcpEvent) (s : TcpConnection) : Prop where
  mode : s.debugMode = true
  state : s.headerState = .readingHeaders
  ops_le : s.connects + s.toProxy.ops.length + s.requestWrites.length ≤ 1
  only_reads : ∀ op ∈ s.toProxy.ops, op = .asyncReadSome
  buffer : s.withheld ≠ [] ∨ .asyncReadSome ∈ s.toProxy.ops ∨ 0 < s.connects →
    s.requestBuffer = s.withheld
  writing : s.requestWrites ≠ [] → s.withheld = []
  fed : feed (chunks es) = (s.handed, s.withheld)

theorem Debugging.start : Debugging [] (start true) where
  mode := rfl
  state := rfl
  ops_le := Nat.le_refl 1
  only_reads op hop := by cases hop
  buffer _ := rfl
  writing hne := absurd rfl hne
  fed := rfl

/-- Nothing but a read adds to what has been handed on or collected. -/
theorem Debugging.quiet (h : Debugging es s) (hchunk : e.chunk? = none)
    (hmode : s'.debugMode = s.debugMode) (hstate : s'.headerState = s.headerState)
    (hhanded : s'.handed = s.handed) (hwithheld : s'.withheld = s.withheld)
    (hops : s'.connects + s'.toProxy.ops.length + s'.requestWrites.length ≤ 1)
    (honly : ∀ op ∈ s'.toProxy.ops, op = .asyncReadSome)
    (hbuffer : s.withheld ≠ [] ∨ .asyncReadSome ∈ s'.toProxy.ops ∨ 0 < s'.connects →
      s'.requestBuffer = s.withheld)
    (hwriting : s'.requestWrites ≠ [] → s.withheld = []) : Debugging (es ++ [e]) s' where
  mode := hmode.trans h.mode
  state := hstate.trans h.state
  ops_le := hops
  only_reads := honly
  buffer := by
    rw [hwithheld]
    exact hbuffer
  writing := by
    rw [hwithheld]
    exact hwriting
  fed := by
    have hsame : chunks (es ++ [e]) = chunks es := by
      simp [chunks, hchunk]
    rw [hsame, hhanded, hwithheld]
    exact h.fed

/-- What is outstanding when the client is read: nothing else. -/
theorem Debugging.of_reading (h : Debugging es s) (hop : .asyncReadSome ∈ s.toProxy.ops) :
    s.connects = 0 ∧ s.toProxy.ops = [.asyncReadSome] ∧ s.requestWrites = [] := by
  have hle := h.ops_le
  have hops := Machine.outstanding_eq (by omega) hop
  rw [hops, List.length_singleton] at hle
  exact ⟨by omega, hops, List.length_eq_zero_iff.mp (by omega)⟩

/-- What is outstanding while `request_buffer_` is written: nothing else. -/
theorem Debugging.of_writing (h : Debugging es s) {off : Nat} (hoff : off ∈ s.requestWrites) :
    s.connects = 0 ∧ s.toProxy.ops = [] ∧ s.requestWrites = [off] ∧ s.withheld = [] := by
  have hle := h.ops_le
  have hwrites := Machine.outstanding_eq (by omega) hoff
  have hwithheld := h.writing (List.ne_nil_of_mem hoff)
  rw [hwrites, List.length_singleton] at hle
  exact ⟨by omega, List.length_eq_zero_iff.mp (by omega), hwrites, hwithheld⟩

/-- The handler of a read in debug mode. -/
theorem onReadClient_debug {bytes : Text} (hmode : s.debugMode = true)
    (hstate : s.headerState = .readingHeaders)
    (hbytes : s.toProxy.buffer.take bytes.length = bytes) :
    s.onReadClient bytes.length =
      if hasCompleteHttpRequest (s.requestBuffer ++ bytes) then
        { s with
          requestBuffer := parseHttpRequest (s.requestBuffer ++ bytes)
          requestWrites := s.requestWrites ++ [0]
          handed := s.handed ++ parseHttpRequest (s.requestBuffer ++ bytes)
          withheld := [] }
      else { s with requestBuffer := s.requestBuffer ++ bytes }.doReadClient := by
  have hparse : parseHttpRequest (s.requestBuffer ++ bytes) ≠ [] := by
    simp [parseHttpRequest, crlf]
  rw [onReadClient, if_pos hmode]
  simp only [hstate, hbytes]
  split
  · exact (if_pos rfl).trans (if_pos hparse)
  · rfl

theorem Debugging.read {bytes : Text} (h : Debugging es s) (hop : .asyncReadSome ∈ s.toProxy.ops) :
    Debugging (es ++ [.client (.read bytes)]) ({ s with
      toProxy := (s.toProxy.finish .asyncReadSome).fill bytes
      withheld := s.withheld ++ bytes }.onReadClient bytes.length) := by
  obtain ⟨hconnects, hops, hwrites⟩ := h.of_reading hop
  have hbuffer : s.requestBuffer = s.withheld := h.buffer (Or.inr (Or.inl hop))
  have hfed : feed (chunks (es ++ [.client (.read bytes)])) =
      feedStep (s.handed, s.withheld) bytes := by
    rw [chunks, List.filterMap_append, feed, List.foldl_append]
    exact congrArg (feedStep · bytes) h.fed
  have hnone : (s.toProxy.finish .asyncReadSome).ops = [] := by simp [Half.finish, hops]
  have hread := onReadClient_debug (s := { s with
    toProxy := (s.toProxy.finish .asyncReadSome).fill bytes
    withheld := s.withheld ++ bytes }) h.mode h.state
    (show (bytes ++ _).take bytes.length = bytes from List.take_left)
  rw [hread, show s.requestBuffer = s.withheld from hbuffer]
  rw [feedStep] at hfed
  split
  · rename_i hcomplete
    rw [if_pos hcomplete] at hfed
    refine ⟨h.mode, h.state, ?_, ?_, ?_, fun _ => rfl, hfed⟩
    · simp [Half.fill, hnone, hconnects, hwrites]
    · intro op hop
      simp [Half.fill, hnone] at hop
    · rintro (hne | hread | hmore)
      · exact absurd rfl hne
      · simp [Half.fill, hnone] at hread
      · exact absurd hmore (by simp [hconnects])
  · rename_i hcomplete
    rw [if_neg hcomplete] at hfed
    refine ⟨h.mode, h.state, ?_, ?_, fun _ => rfl, ?_, hfed⟩
    · simp [doReadClient, Half.doRelay, Half.fill, hnone, hconnects, hwrites]
    · intro op hop
      simpa [doReadClient, Half.doRelay, Half.fill, hnone] using hop
    · intro hne
      exact absurd hwrites hne

theorem Debugging.step (h : Debugging es s) (hstep : s.step e = some s') :
    Debugging (es ++ [e]) s' := by
  cases e with
  | connected ok =>
    rcases Machine.taken hstep with ⟨hconnects, rfl⟩
    have hle := h.ops_le
    have hops : s.toProxy.ops = [] := List.length_eq_zero_iff.mp (by omega)
    have hwrites : s.requestWrites = [] := List.length_eq_zero_iff.mp (by omega)
    have hbuffer := h.buffer (Or.inr (Or.inr hconnects))
    cases ok with
    | true =>
      refine h.quiet rfl rfl rfl rfl rfl ?_ ?_ ?_ ?_
      · simp only [if_true, doReadProxy, doReadClient, Half.doRelay, hops, hwrites,
          List.nil_append, List.length_singleton, List.length_nil]
        omega
      · intro op hop
        simpa [doReadProxy, doReadClient, Half.doRelay, hops] using hop
      · exact fun _ => hbuffer
      · exact fun hne => absurd hwrites hne
    | false =>
      refine h.quiet rfl rfl rfl rfl rfl ?_ ?_ ?_ ?_
      · simp only [Bool.false_eq_true, if_false, cleanup, hops, hwrites, List.length_nil]
        omega
      · exact h.only_reads
      · exact fun _ => hbuffer
      · exact fun hne => absurd hwrites hne
  | client e =>
    cases e with
    | read bytes =>
      rcases Machine.taken hstep with ⟨⟨hop, -⟩, rfl⟩
      exact h.read hop
    | readFailed eof =>
      rcases Machine.taken hstep with ⟨hop, rfl⟩
      obtain ⟨hconnects, hops, hwrites⟩ := h.of_reading hop
      refine h.quiet rfl rfl rfl rfl rfl ?_ ?_ ?_ ?_
      · simp [cleanup, Half.finish, hops, hconnects, hwrites]
      · intro op hop
        simp [cleanup, Half.finish, hops] at hop
      · exact fun _ => h.buffer (Or.inr (Or.inl hop))
      · exact fun hne => absurd hwrites hne
    | accepted off len count => cases h.only_reads _ (Machine.taken hstep).1.1
    | wrote len => cases h.only_reads _ (Machine.taken hstep).1
    | writeFailed off len => cases h.only_reads _ (Machine.taken hstep).1
  | requestAccepted off count =>
    rcases Machine.taken hstep with ⟨⟨hoff, -⟩, rfl⟩
    obtain ⟨hconnects, hops, hwrites, hwithheld⟩ := h.of_writing hoff
    refine h.quiet rfl rfl rfl rfl rfl ?_ ?_ ?_ ?_
    · simp [hconnects, hops, hwrites]
    · exact h.only_reads
    · exact h.buffer
    · exact fun _ => hwithheld
  | requestWrote =>
    rcases Machine.taken hstep with ⟨hoff, rfl⟩
    obtain ⟨hconnects, hops, hwrites, hwithheld⟩ := h.of_writing hoff
    refine h.quiet rfl rfl rfl rfl rfl ?_ ?_ ?_ ?_
    · simp [doReadClient, Half.doRelay, hconnects, hops, hwrites]
    · intro op hop
      simpa [doReadClient, Half.doRelay, hops] using hop
    · exact fun _ => hwithheld.symm
    · exact fun _ => hwithheld
  | requestFailed off =>
    rcases Machine.taken hstep with ⟨hoff, rfl⟩
    obtain ⟨hconnects, hops, hwrites, hwithheld⟩ := h.of_writing hoff
    refine h.quiet rfl rfl rfl rfl rfl ?_ ?_ ?_ ?_
    · simp [cleanup, hconnects, hops, hwrites]
    · exact h.only_reads
    · exact h.buffer
    · exact fun _ => hwithheld
  | proxy e =>
    cases e with
    | _ =>
      rcases Machine.taken hstep with ⟨-, rfl⟩
      exact h.quiet rfl rfl rfl rfl rfl h.ops_le h.only_reads h.buffer h.writing

theorem debugging_of_run (hrun : machine.run (start true) es = some s) : Debugging es s :=
  Machine.run_history (R := Debugging) (fun _ _ _ _ h hstep => h.step hstep) .start hrun

/-! ## Every cutting has a run -/

/-- A connection that waits for the client, with open sockets. -/
structure Ready (s : TcpConnection) : Prop where
  mode : s.debugMode = true
  state : s.headerState = .readingHeaders
  reading : s.toProxy.ops = [.asyncReadSome]
  room : s.toProxy.buffer.length = maxLength
  idle : s.requestWrites = []
  isOpen : s.closed = false

/-- `request_buffer_` is written at once, and the client is read again. -/
theorem ready_of_write (hmode : s.debugMode = true) (hstate : s.headerState = .readingHeaders)
    (hops : s.toProxy.ops = []) (hroom : s.toProxy.buffer.length = maxLength)
    (hwrites : s.requestWrites = [0]) (hopen : s.closed = false) (hbuffer : s.requestBuffer ≠ []) :
    ∃ s', machine.run s [.requestAccepted 0 s.requestBuffer.length, .requestWrote] = some s' ∧
      Ready s' := by
  have hpos := List.length_pos_of_ne_nil hbuffer
  have haccepted : s.step (.requestAccepted 0 s.requestBuffer.length) = some { s with
      requestWrites := s.requestWrites.erase 0 ++ [0 + s.requestBuffer.length]
      toProxy := { s.toProxy with
        written := s.toProxy.written ++
          (s.requestBuffer.take (0 + s.requestBuffer.length)).drop 0 } } :=
    if_pos ⟨by simp [hwrites], hpos, by omega, hopen⟩
  rw [hwrites, List.erase_cons_head, List.nil_append, Nat.zero_add] at haccepted
  refine ⟨_, Machine.run_cons_eq_some.mpr ⟨_, haccepted, Machine.run_cons_eq_some.mpr
    ⟨_, if_pos List.mem_cons_self, rfl⟩⟩, ?_⟩
  exact ⟨hmode, hstate, by simp [doReadClient, Half.doRelay, hops], hroom,
    List.erase_cons_head _ _, hopen⟩

/-- A read completes, and what it lets through is written. -/
theorem Ready.read (h : Ready s) {chunk : Text} (hne : chunk ≠ [])
    (hlength : chunk.length ≤ maxLength) :
    ∃ es s', machine.run s es = some s' ∧ Ready s' ∧ chunks es = [chunk] := by
  have hop : .asyncReadSome ∈ s.toProxy.ops := by simp [h.reading]
  have hfirst : s.step (.client (.read chunk)) = some ({ s with
      toProxy := (s.toProxy.finish .asyncReadSome).fill chunk
      withheld := s.withheld ++ chunk }.onReadClient chunk.length) :=
    if_pos ⟨hop, hne, by rw [h.room]; exact hlength⟩
  have hread := onReadClient_debug (s := { s with
    toProxy := (s.toProxy.finish .asyncReadSome).fill chunk
    withheld := s.withheld ++ chunk }) h.mode h.state
    (show (chunk ++ _).take chunk.length = chunk from List.take_left)
  rw [hread] at hfirst
  have hroom : ((s.toProxy.finish .asyncReadSome).fill chunk).buffer.length = maxLength := by
    have hold : (s.toProxy.finish .asyncReadSome).buffer.length = maxLength := h.room
    simp only [Half.fill, List.length_append, List.length_drop]
    omega
  have hnone : ((s.toProxy.finish .asyncReadSome).fill chunk).ops = [] := by
    simp [Half.fill, Half.finish, h.reading]
  split at hfirst
  · have hparse : parseHttpRequest (s.requestBuffer ++ chunk) ≠ [] := by
      simp [parseHttpRequest, crlf]
    rw [h.idle, List.nil_append] at hfirst
    obtain ⟨s', hrun, hready⟩ := ready_of_write (s := { s with
      requestBuffer := parseHttpRequest (s.requestBuffer ++ chunk)
      toProxy := (s.toProxy.finish .asyncReadSome).fill chunk
      requestWrites := [0]
      handed := s.handed ++ parseHttpRequest (s.requestBuffer ++ chunk)
      withheld := [] }) h.mode h.state hnone hroom rfl h.isOpen hparse
    exact ⟨.client (.read chunk) :: _, s', Machine.run_cons_eq_some.mpr ⟨_, hfirst, hrun⟩,
      hready, rfl⟩
  · refine ⟨[.client (.read chunk)], _, Machine.run_cons_eq_some.mpr ⟨_, hfirst, rfl⟩, ?_, rfl⟩
    exact ⟨h.mode, h.state, by simp [doReadClient, Half.doRelay, hnone], hroom, h.idle, h.isOpen⟩

theorem Ready.run (h : Ready s) {cuts : List Text}
    (hcuts : ∀ chunk ∈ cuts, chunk ≠ [] ∧ chunk.length ≤ maxLength) :
    ∃ es s', machine.run s es = some s' ∧ chunks es = cuts := by
  induction cuts generalizing s with
  | nil => exact ⟨[], s, rfl, rfl⟩
  | cons chunk cuts ih =>
    obtain ⟨hne, hlength⟩ := hcuts chunk List.mem_cons_self
    obtain ⟨es, mid, hrun, hready, hchunks⟩ := h.read hne hlength
    obtain ⟨fs, s', hrun', hchunks'⟩ :=
      ih hready fun c hc => hcuts c (List.mem_cons_of_mem _ hc)
    refine ⟨es ++ fs, s', Machine.run_append hrun hrun', ?_⟩
    rw [chunks, List.filterMap_append]
    change chunks es ++ chunks fs = _
    rw [hchunks, hchunks']
    rfl

/-- However the client's stream is cut, it can be read in this way. -/
theorem exists_run {cuts : List Text}
    (hcuts : ∀ chunk ∈ cuts, chunk ≠ [] ∧ chunk.length ≤ maxLength) :
    ∃ es s, machine.run (start true) es = some s ∧ chunks es = cuts := by
  have hready : Ready { start true with connects := 0 }.doReadClient.doReadProxy :=
    ⟨rfl, rfl, rfl, List.length_replicate, rfl, rfl⟩
  obtain ⟨es, s', hrun, hchunks⟩ := hready.run hcuts
  refine ⟨.connected true :: es, s', Machine.run_cons_eq_some.mpr ⟨_, rfl, ?_⟩, hchunks⟩
  exact hrun

/-! ## Chunking independence -/

/-- In any two runs that read the same stream, the same bytes are handed on, and nothing
is withheld. -/
def ChunkingIndependent (stream : Text) : Prop :=
  ∀ es es' s s', machine.run (start true) es = some s → machine.run (start true) es' = some s' →
    es.flatMap (TcpEvent.bytes .toRemote) = stream →
    es'.flatMap (TcpEvent.bytes .toRemote) = stream → s.handed = s'.handed ∧ s.withheld = []

/-- A read completes with at least a byte. -/
theorem chunks_ne_nil (hrun : machine.run s es = some s') : ∀ chunk ∈ chunks es, chunk ≠ [] := by
  have hevents := Machine.run_events (I := fun _ => True)
    (Q := fun e : TcpEvent => ∀ chunk, e.chunk? = some chunk → chunk ≠ []) ?_ trivial hrun
  · intro chunk hchunk
    obtain ⟨e, he, hsome⟩ := List.mem_filterMap.mp hchunk
    exact hevents e he chunk hsome
  · intro s e t _ hstep
    refine ⟨trivial, fun chunk hchunk => ?_⟩
    cases e with
    | client e =>
      cases e with
      | read bytes =>
        cases hchunk
        exact (Machine.taken hstep).1.2.1
      | _ => cases hchunk
    | _ => cases hchunk

/-- When anything follows the first head, two cuttings tell where it was read. -/
theorem not_independent {r : ClientRequest} {c : Char} {tail : Text} :
    ¬ ChunkingIndependent (r.head ++ c :: tail) := by
  obtain ⟨front, hhead, hfront, hcomplete⟩ := r.head_eq
  rw [hhead] at hcomplete ⊢
  intro hindependent
  have hsingle : ∀ t : Text, ∀ chunk ∈ bytewise t, chunk ≠ [] ∧ chunk.length ≤ maxLength := by
    intro t chunk hchunk
    obtain ⟨x, -, rfl⟩ := List.mem_map.mp hchunk
    exact ⟨List.cons_ne_nil _ _, by simp [maxLength]⟩
  have hcuts : ∀ chunk : Text, chunk ≠ [] ∧ chunk.length ≤ maxLength → ∀ t u : Text,
      ∀ cut ∈ bytewise t ++ chunk :: bytewise u, cut ≠ [] ∧ cut.length ≤ maxLength := by
    intro chunk hchunk t u cut hcut
    rcases List.mem_append.mp hcut with hcut | hcut
    · exact hsingle t cut hcut
    · rcases List.mem_cons.mp hcut with rfl | hcut
      · exact hchunk
      · exact hsingle u cut hcut
  obtain ⟨es, s, hrun, hchunks⟩ :=
    exists_run (hcuts ['\n'] ⟨by simp, by decide⟩ front (c :: tail))
  obtain ⟨es', s', hrun', hchunks'⟩ :=
    exists_run (hcuts ['\n', c] ⟨by simp, by simp [maxLength]⟩ front tail)
  obtain ⟨hhanded, -⟩ := hindependent es es' s s' hrun hrun'
    (by rw [← flatten_chunks, hchunks]; simp [flatten_bytewise])
    (by rw [← flatten_chunks, hchunks']; simp [flatten_bytewise])
  have hfed := (debugging_of_run hrun).fed
  have hfed' := (debugging_of_run hrun').fed
  have hne := @feed_ne front tail c hfront hcomplete
  rw [← hchunks, ← hchunks', hfed, hfed'] at hne
  exact hne hhanded

/-- What is handed on does not depend on how the stream was cut exactly for no request
at all, and for a single one without a body. -/
theorem chunking_independent_iff (rs : List ClientRequest) :
    ChunkingIndependent (ClientRequest.stream rs) ↔ rs = [] ∨ ∃ r, rs = [r] ∧ r.body = [] := by
  constructor
  · intro h
    cases rs with
    | nil => exact Or.inl rfl
    | cons r rest =>
      right
      cases htail : r.body ++ ClientRequest.stream rest with
      | nil =>
        obtain ⟨hbody, hrest⟩ := List.append_eq_nil_iff.mp htail
        cases rest with
        | nil => exact ⟨r, rfl, hbody⟩
        | cons r' rest =>
          -- every request has a head
          obtain ⟨front, hhead, -⟩ := r'.head_eq
          simp [ClientRequest.stream, ClientRequest.text, hhead] at hrest
      | cons c tail =>
        have hsplit : ClientRequest.stream (r :: rest) = r.head ++ c :: tail := by
          rw [← htail]
          simp [ClientRequest.stream, ClientRequest.text]
        rw [hsplit] at h
        exact absurd h not_independent
  · have hfed : ∀ fed stream, (∀ cuts : List Text, (∀ cut ∈ cuts, cut ≠ []) →
        cuts.flatten = stream → feed cuts = (fed, [])) → ChunkingIndependent stream := by
      intro fed stream hall es es' s s' hrun hrun' hread hread'
      rw [← flatten_chunks] at hread hread'
      have hfirst := (debugging_of_run hrun).fed
      have hsecond := (debugging_of_run hrun').fed
      rw [hall _ (chunks_ne_nil hrun) hread, Prod.mk.injEq] at hfirst
      rw [hall _ (chunks_ne_nil hrun') hread', Prod.mk.injEq] at hsecond
      exact ⟨hfirst.1.symm.trans hsecond.1, hfirst.2.symm⟩
    rintro (rfl | ⟨r, rfl, hbody⟩)
    · refine hfed [] _ fun cuts hne hflatten => ?_
      cases cuts with
      | nil => rfl
      | cons cut cuts =>
        have hcut := (List.append_eq_nil_iff.mp hflatten).1
        exact absurd hcut (hne cut List.mem_cons_self)
    · obtain ⟨front, hhead, hfront, hcomplete⟩ := r.head_eq
      rw [hhead] at hcomplete
      refine hfed (parseHttpRequest (front ++ ['\n'])) _ fun cuts hne hflatten => ?_
      refine feed_head hfront hcomplete hne (hflatten.trans ?_)
      simp [ClientRequest.stream, ClientRequest.text, hbody, hhead]

/-- A request with a body of one byte. -/
def postRequest : ClientRequest where
  method := "POST".toList
  target := ['/']
  version := "HTTP/1.1".toList
  headers := ["Content-Length: 1".toList]
  body := ['x']
  words_ok := by decide
  headers_ok := by decide
  body_ok := by decide

/-- The body, read after the head, stays in `request_buffer_`; read with it, it is
handed on. -/
theorem body_withheld : ¬ ChunkingIndependent (ClientRequest.stream [postRequest]) := by
  have hstream : ClientRequest.stream [postRequest] = postRequest.head ++ ['x'] := by
    simp [ClientRequest.stream, ClientRequest.text, postRequest]
  rw [hstream]
  exact not_independent

end TcpConnection

end ServerAsync
