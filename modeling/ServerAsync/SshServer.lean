import ServerAsync.Text
import ServerAsync.Misc.Machine
import ServerAsync.Misc.Parts

/-!
# `SSHServer`

The command server of `ssl-server.cpp`. Behind its handshake every connection is read up
to a line feed, once, and the line is a command. All connections are read into the
`buffer_` of the server. In the model a byte in the buffer carries the connection that
sent it, which no function of the source sees.
-/

namespace ServerAsync

open Misc

namespace SSHServer

/-- How far a connection has come. -/
inductive Phase where
  | handshaking
  /-- `async_read_until` is reading, and has looked for a line feed up to here. -/
  | reading (searched : Nat)
  /-- `async_read_until` has found a line feed before it has read anything. -/
  | matched
  | done
  deriving DecidableEq, Repr

/-- A connection, and what its client has sent so far. -/
structure Connection where
  phase : Phase
  sent : Text
  deriving DecidableEq, Repr

/-- What `std::getline` has taken out of the buffer for a connection. -/
structure Line where
  connection : Nat
  taken : List (Nat × Char)
  deriving DecidableEq, Repr

/-- The message. -/
def Line.message (l : Line) : Text := (l.taken.map Prod.snd).takeWhile (· != '\n')

end SSHServer

/-- `SSHServer`. `writes` are the acknowledgements in flight, `lines` the lines that have
been read. -/
structure SSHServer where
  buffer : List (Nat × Char)
  connections : List SSHServer.Connection
  writes : List Nat
  lines : List SSHServer.Line
  deriving DecidableEq, Repr

/-- The completions. -/
inductive SSHEvent where
  | accepted
  | acceptFailed
  | handshaken (c : Nat) (ok : Bool)
  | received (c : Nat) (bytes : Text)
  | completed (c : Nat)
  | readFailed (c : Nat)
  | written (c : Nat) (ok : Bool)
  deriving DecidableEq, Repr

namespace SSHServer

/-- The constructor. -/
def new : SSHServer := ⟨[], [], [], []⟩

def hasLine (buffer : List (Nat × Char)) : Bool := buffer.any (·.2 == '\n')

/-- The front of a buffer up to its first line feed, and including it. -/
def takeLine (buffer : List (Nat × Char)) : List (Nat × Char) :=
  buffer.takeWhile (·.2 != '\n') ++ (buffer.dropWhile (·.2 != '\n')).take 1

def setConnection (s : SSHServer) (c : Nat) (conn : Connection) : SSHServer :=
  { s with connections := s.connections.set c conn }

/-- `authenticate_client`. -/
def authenticateClient (s : SSHServer) (c : Nat) : SSHServer := { s with writes := s.writes ++ [c] }

/-- The handler of `start_read` without an error. `setup_port_forwarding` only reports
that it was called. -/
def onRead (s : SSHServer) (c : Nat) (conn : Connection) : SSHServer :=
  let line : Line := ⟨c, takeLine s.buffer⟩
  let s := { s with
    buffer := s.buffer.drop line.taken.length
    lines := s.lines ++ [line] }.setConnection c { conn with phase := .done }
  if line.message = "login".toList then s.authenticateClient c else s

/-- `start_read`. -/
def startRead (s : SSHServer) (c : Nat) (conn : Connection) : SSHServer :=
  if hasLine s.buffer then s.setConnection c { conn with phase := .matched }
  else s.setConnection c { conn with phase := .reading s.buffer.length }

/-- The read of `async_read_until` completes: look for a line feed in what is new. -/
def readSome (s : SSHServer) (c : Nat) (conn : Connection) (searched : Nat) (bytes : Text) :
    SSHServer :=
  let s := { s with buffer := s.buffer ++ bytes.map fun b => (c, b) }
  let conn := { conn with sent := conn.sent ++ bytes }
  if hasLine (s.buffer.drop searched) then s.onRead c conn
  else s.setConnection c { conn with phase := .reading s.buffer.length }

/-- The reaction to a completion, `none` when it cannot happen. -/
def step (s : SSHServer) : SSHEvent → Option SSHServer
  | .accepted => some { s with connections := s.connections ++ [⟨.handshaking, []⟩] }
  | .acceptFailed => some s
  | .handshaken c ok =>
    (s.connections[c]?).bind fun conn =>
      match conn.phase with
      | .handshaking =>
        if ok then some (s.startRead c conn)
        else some (s.setConnection c { conn with phase := .done })
      | _ => none
  | .received c bytes =>
    (s.connections[c]?).bind fun conn =>
      match conn.phase with
      | .reading searched => if bytes ≠ [] then some (s.readSome c conn searched bytes) else none
      | _ => none
  | .completed c =>
    (s.connections[c]?).bind fun conn =>
      if conn.phase = .matched then some (s.onRead c conn) else none
  | .readFailed c =>
    (s.connections[c]?).bind fun conn =>
      match conn.phase with
      | .reading _ => some (s.setConnection c { conn with phase := .done })
      | _ => none
  | .written c _ => if c ∈ s.writes then some { s with writes := s.writes.erase c } else none

/-- The server as a machine. -/
def machine : Machine SSHServer SSHEvent := ⟨step⟩

/-- The line was sent by its connection, every byte of it, as a complete line. -/
def Own (s : SSHServer) (l : Line) : Prop :=
  (∀ b ∈ l.taken, b.1 = l.connection) ∧
    ∃ conn before behind, s.connections[l.connection]? = some conn ∧
      conn.sent = before ++ l.message ++ '\n' :: behind ∧
      (before = [] ∨ before.getLast? = some '\n')

/-- Every line that was read for a connection is its own. -/
def Isolated (s : SSHServer) : Prop := ∀ l ∈ s.lines, s.Own l

/-- `async_read_until` is under way for the connection. -/
def Phase.busy : Phase → Bool
  | .reading _ => true
  | .matched => true
  | _ => false

/-- A connection starts to be read when there is nothing in the buffer and no other
connection is being read. -/
def StartsAlone (s : SSHServer) : SSHEvent → Prop
  | .handshaken _ true => s.buffer = [] ∧ ∀ conn ∈ s.connections, conn.phase.busy = false
  | _ => True

instance (s : SSHServer) : ∀ e, Decidable (StartsAlone s e)
  | .handshaken _ true => inferInstanceAs (Decidable (s.buffer = [] ∧
      ∀ conn ∈ s.connections, conn.phase.busy = false))
  | .handshaken _ false => isTrue trivial
  | .accepted => isTrue trivial
  | .acceptFailed => isTrue trivial
  | .received _ _ => isTrue trivial
  | .completed _ => isTrue trivial
  | .readFailed _ => isTrue trivial
  | .written _ _ => isTrue trivial

/-! ## Lines -/

theorem takeWhile_cons_of_ne {c : Char} (h : c ≠ '\n') (rest : Text) :
    (c :: rest).takeWhile (· != '\n') = c :: rest.takeWhile (· != '\n') := by
  have hkept : (c != '\n') = true := bne_iff_ne.mpr h
  exact List.takeWhile_cons_of_pos (p := fun x => x != '\n') hkept

theorem hasLine_iff {buffer : List (Nat × Char)} :
    hasLine buffer = true ↔ '\n' ∈ buffer.map Prod.snd := by
  simp [hasLine, List.any_eq_true]

theorem takeLine_isPrefix (buffer : List (Nat × Char)) : takeLine buffer <+: buffer := by
  obtain ⟨rest, hrest⟩ := List.take_prefix 1 (buffer.dropWhile (·.2 != '\n'))
  refine ⟨rest, ?_⟩
  rw [takeLine, List.append_assoc, hrest, List.takeWhile_append_dropWhile]

theorem takeLine_cons_of_ne {b : Nat × Char} (h : b.2 ≠ '\n') (rest : List (Nat × Char)) :
    takeLine (b :: rest) = b :: takeLine rest := by
  have hb : (b.2 != '\n') = true := bne_iff_ne.mpr h
  simp [takeLine, List.takeWhile_cons_of_pos, List.dropWhile_cons_of_pos, hb]

theorem takeLine_cons_lineFeed {b : Nat × Char} (h : b.2 = '\n') (rest : List (Nat × Char)) :
    takeLine (b :: rest) = [b] := by
  have hb : ¬ (b.2 != '\n') = true := by simp [h]
  simp [takeLine, List.takeWhile_cons_of_neg, List.dropWhile_cons_of_neg, hb]

theorem message_takeLine (c : Nat) (buffer : List (Nat × Char)) :
    (Line.mk c (takeLine buffer)).message =
      (buffer.map Prod.snd).takeWhile (· != '\n') := by
  induction buffer with
  | nil => rfl
  | cons b rest ih =>
    by_cases hb : b.2 = '\n'
    · rw [takeLine_cons_lineFeed hb]
      simp [Line.message, hb]
    · rw [takeLine_cons_of_ne hb]
      simp only [Line.message, List.map_cons] at ih ⊢
      rw [takeWhile_cons_of_ne hb, takeWhile_cons_of_ne hb, ih]

/-- A text with a line feed is its first line, and what follows. -/
theorem exists_firstLine {t : Text} (h : '\n' ∈ t) :
    ∃ behind, t = t.takeWhile (· != '\n') ++ '\n' :: behind := by
  induction t with
  | nil => cases h
  | cons c rest ih =>
    by_cases hc : c = '\n'
    · subst hc
      exact ⟨rest, rfl⟩
    · obtain ⟨behind, hbehind⟩ := ih ((List.mem_cons.mp h).resolve_left (Ne.symm hc))
      refine ⟨behind, ?_⟩
      rw [takeWhile_cons_of_ne hc, List.cons_append, ← hbehind]

/-! ## What a step does -/

theorem step_handshaken {s t : SSHServer} {c : Nat} {ok : Bool}
    (hstep : s.step (.handshaken c ok) = some t) :
    ∃ conn, s.connections[c]? = some conn ∧ conn.phase = .handshaking ∧
      t = if ok then s.startRead c conn else s.setConnection c { conn with phase := .done } := by
  obtain ⟨conn, hconn, hreact⟩ := Option.bind_eq_some_iff.mp hstep
  split at hreact
  · rename_i hphase
    refine ⟨conn, hconn, hphase, ?_⟩
    cases ok <;> exact (Option.some.inj hreact).symm
  · cases hreact

theorem step_received {s t : SSHServer} {c : Nat} {bytes : Text}
    (hstep : s.step (.received c bytes) = some t) :
    ∃ conn searched, s.connections[c]? = some conn ∧ conn.phase = .reading searched ∧
      bytes ≠ [] ∧ t = s.readSome c conn searched bytes := by
  obtain ⟨conn, hconn, hreact⟩ := Option.bind_eq_some_iff.mp hstep
  split at hreact
  · rename_i searched hphase
    obtain ⟨hbytes, rfl⟩ := Machine.taken hreact
    exact ⟨conn, searched, hconn, hphase, hbytes, rfl⟩
  · cases hreact

theorem step_completed {s t : SSHServer} {c : Nat} (hstep : s.step (.completed c) = some t) :
    ∃ conn, s.connections[c]? = some conn ∧ conn.phase = .matched ∧ t = s.onRead c conn := by
  obtain ⟨conn, hconn, hreact⟩ := Option.bind_eq_some_iff.mp hstep
  obtain ⟨hphase, rfl⟩ := Machine.taken hreact
  exact ⟨conn, hconn, hphase, rfl⟩

theorem step_readFailed {s t : SSHServer} {c : Nat} (hstep : s.step (.readFailed c) = some t) :
    ∃ conn, s.connections[c]? = some conn ∧ conn.phase ≠ .handshaking ∧
      t = s.setConnection c { conn with phase := .done } := by
  obtain ⟨conn, hconn, hreact⟩ := Option.bind_eq_some_iff.mp hstep
  split at hreact
  · rename_i searched hphase
    refine ⟨conn, hconn, ?_, (Option.some.inj hreact).symm⟩
    rw [hphase]
    exact Phase.noConfusion
  · cases hreact

/-- The handler takes a line out of the buffer; what it does with the message changes
nothing of that. -/
theorem onRead_frame (s : SSHServer) (c : Nat) (conn : Connection) :
    (s.onRead c conn).buffer = s.buffer.drop (takeLine s.buffer).length ∧
      (s.onRead c conn).connections = s.connections.set c { conn with phase := .done } ∧
      (s.onRead c conn).lines = s.lines ++ [⟨c, takeLine s.buffer⟩] := by
  unfold onRead
  dsimp only
  split <;> exact ⟨rfl, rfl, rfl⟩

/-! ## One connection at a time -/

/-- When a connection is being read, no other one is, and the buffer is what its client
has sent, without a line feed so far. -/
structure Alone (s : SSHServer) (c : Nat) (conn : Connection) : Prop where
  reading : conn.phase = .reading conn.sent.length
  buffer : s.buffer = conn.sent.map fun b => (c, b)
  noLine : '\n' ∉ conn.sent
  only : ∀ (d : Nat) (other : Connection), s.connections[d]? = some other →
    other.phase.busy = true → d = c

/-- What holds of a server whose connections have all started alone. -/
structure Inv (s : SSHServer) : Prop where
  fresh : ∀ (c : Nat) (conn : Connection), s.connections[c]? = some conn →
    conn.phase = .handshaking → conn.sent = []
  alone : ∀ (c : Nat) (conn : Connection), s.connections[c]? = some conn →
    conn.phase.busy = true → s.Alone c conn
  senders : ∀ b ∈ s.buffer, ∃ conn : Connection, s.connections[b.1]? = some conn ∧
    conn.phase ≠ .handshaking
  isolated : s.Isolated

theorem inv_new : Inv new := by
  refine ⟨fun c conn h => ?_, fun c conn h => ?_, fun b hb => ?_, fun l hl => ?_⟩
  · cases h
  · cases h
  · cases hb
  · cases hl

/-- A line stays its connection's own when the connection keeps what it has sent. -/
theorem Own.mono {s t : SSHServer} {l : Line} (h : s.Own l)
    (hsent : ∀ conn, s.connections[l.connection]? = some conn →
      ∃ conn' more, t.connections[l.connection]? = some conn' ∧ conn'.sent = conn.sent ++ more) :
    t.Own l := by
  obtain ⟨htags, conn, before, behind, hconn, hline, hbefore⟩ := h
  obtain ⟨conn', more, hconn', hmore⟩ := hsent conn hconn
  refine ⟨htags, conn', before, behind ++ more, hconn', ?_, hbefore⟩
  rw [hmore, hline, List.append_assoc, List.cons_append]

/-- What a connection has sent only grows when one of them changes. -/
theorem sent_setConnection {s : SSHServer} {c : Nat} {conn : Connection} (conn' : Connection)
    {more : Text} (hconn : s.connections[c]? = some conn) (hsent : conn'.sent = conn.sent ++ more)
    (d : Nat) (other : Connection) (hother : s.connections[d]? = some other) :
    ∃ other' more', (s.connections.set c conn')[d]? = some other' ∧
      other'.sent = other.sent ++ more' := by
  by_cases hd : d = c
  · subst hd
    cases Option.some.inj (hconn.symm.trans hother)
    exact ⟨conn', more, Parts.getElem?_set_of_some hconn, hsent⟩
  · refine ⟨other, [], ?_, (List.append_nil _).symm⟩
    rw [List.getElem?_set_ne (Ne.symm hd)]
    exact hother

/-- The connections that are behind their handshake may change. -/
theorem Inv.fresh_set {s : SSHServer} (h : Inv s) (c : Nat) {conn : Connection}
    (hphase : conn.phase ≠ .handshaking) :
    ∀ (d : Nat) (other : Connection), (s.connections.set c conn)[d]? = some other →
      other.phase = .handshaking → other.sent = [] :=
  Parts.forall_set (fun d other _ hother => h.fresh d other hother)
    fun hhandshaking => absurd hhandshaking hphase

/-- The lines that were read before stay their connections' own. -/
theorem Inv.isolated_set {s t : SSHServer} (h : Inv s) {c : Nat} {conn conn' : Connection}
    {more : Text} (hconn : s.connections[c]? = some conn)
    (ht : t.connections = s.connections.set c conn') (hsent : conn'.sent = conn.sent ++ more) :
    ∀ l ∈ s.lines, t.Own l := by
  intro l hl
  apply (h.isolated l hl).mono
  intro other hother
  rw [ht]
  exact sent_setConnection conn' hconn hsent l.connection other hother

/-- A connection ends. -/
theorem Inv.setDone {s : SSHServer} (h : Inv s) {c : Nat} {conn : Connection}
    (hconn : s.connections[c]? = some conn) :
    Inv (s.setConnection c { conn with phase := .done }) := by
  refine ⟨h.fresh_set c Phase.noConfusion, ?_, fun b hb => ?_,
    h.isolated_set hconn rfl (List.append_nil _).symm⟩
  · refine Parts.forall_set (fun d other hd hother hbusy => ?_) fun hbusy => ?_
    · obtain ⟨hreading, hbuffer, hline, honly⟩ := h.alone d other hother hbusy
      refine ⟨hreading, hbuffer, hline, Parts.forall_set (fun e third _ hthird => ?_) ?_⟩
      · exact honly e third hthird
      · intro hdone
        cases hdone
    · cases hbusy
  · obtain ⟨sender, hsender, hphase⟩ := h.senders b hb
    by_cases hb' : b.1 = c
    · rw [hb']
      exact ⟨_, Parts.getElem?_set_of_some hconn, Phase.noConfusion⟩
    · refine ⟨sender, ?_, hphase⟩
      rw [setConnection, List.getElem?_set_ne (Ne.symm hb')]
      exact hsender

/-- A connection starts to be read alone. -/
theorem Inv.startRead {s : SSHServer} (h : Inv s) {c : Nat} {conn : Connection}
    (hconn : s.connections[c]? = some conn) (hphase : conn.phase = .handshaking)
    (hbuffer : s.buffer = []) (hidle : ∀ conn ∈ s.connections, conn.phase.busy = false) :
    Inv (s.startRead c conn) := by
  have hsent : conn.sent = [] := h.fresh c conn hconn hphase
  have hnone : hasLine s.buffer = false := by rw [hbuffer]; rfl
  rw [SSHServer.startRead, hnone, hbuffer]
  refine ⟨h.fresh_set c Phase.noConfusion, ?_, fun b hb => ?_,
    h.isolated_set hconn rfl (List.append_nil _).symm⟩
  · refine Parts.forall_set (fun d other hd hother hbusy => ?_) fun _ => ?_
    · rw [hidle other (List.mem_of_getElem? hother)] at hbusy
      cases hbusy
    · refine ⟨by simp [hsent], by simp [hsent, setConnection, hbuffer], by simp [hsent], ?_⟩
      refine Parts.forall_set (fun d other _ hother hbusy => ?_) fun _ => rfl
      rw [hidle other (List.mem_of_getElem? hother)] at hbusy
      cases hbusy
  · change b ∈ s.buffer at hb
    rw [hbuffer] at hb
    cases hb

/-- The line that is read for the only connection is its own. -/
theorem own_of_alone {s : SSHServer} {c : Nat} {conn : Connection}
    (hbuffer : s.buffer = conn.sent.map fun b => (c, b)) (hline : '\n' ∈ conn.sent)
    (hconn : c < s.connections.length) :
    (s.onRead c conn).Own ⟨c, takeLine s.buffer⟩ := by
  obtain ⟨-, hconnections, -⟩ := s.onRead_frame c conn
  obtain ⟨behind, hbehind⟩ := exists_firstLine hline
  refine ⟨fun b hb => ?_, { conn with phase := .done }, [], behind, ?_, ?_, Or.inl rfl⟩
  · have hmem := (takeLine_isPrefix s.buffer).subset hb
    rw [hbuffer, List.mem_map] at hmem
    obtain ⟨x, -, rfl⟩ := hmem
    rfl
  · rw [hconnections]
    exact List.getElem?_set_self hconn
  · have hsent : s.buffer.map Prod.snd = conn.sent := by
      rw [hbuffer, List.map_map]
      exact List.map_id _
    rw [message_takeLine, hsent, List.nil_append]
    exact hbehind

/-- The first line of the only connection is read. -/
theorem Inv.onRead {s : SSHServer} (h : Inv s) {c : Nat} {conn : Connection}
    (hconn : s.connections[c]? = some conn) (hbusy : conn.phase.busy = true) {bytes : Text}
    (hline : '\n' ∈ conn.sent ++ bytes) {t : SSHServer}
    (ht : t = { s with buffer := s.buffer ++ bytes.map fun b => (c, b) }) :
    Inv (t.onRead c { conn with sent := conn.sent ++ bytes }) := by
  obtain ⟨-, hbuffer, -, honly⟩ := h.alone c conn hconn hbusy
  have hconn' : t.connections[c]? = some conn := by rw [ht]; exact hconn
  have hbuffer' : t.buffer = (conn.sent ++ bytes).map fun b => (c, b) := by
    rw [ht, List.map_append, ← hbuffer]
  have hold : t.lines = s.lines := by rw [ht]
  have hothers : t.connections = s.connections := by rw [ht]
  obtain ⟨hdrop, hconnections, hlines⟩ :=
    t.onRead_frame c { conn with sent := conn.sent ++ bytes }
  have hown : (t.onRead c { conn with sent := conn.sent ++ bytes }).Own ⟨c, takeLine t.buffer⟩ :=
    own_of_alone hbuffer' hline (List.getElem?_eq_some_iff.mp hconn').1
  rw [hothers] at hconnections
  refine ⟨?_, ?_, fun b hb => ?_, fun l hl => ?_⟩
  · rw [hconnections]
    exact h.fresh_set c Phase.noConfusion
  · rw [hconnections]
    refine Parts.forall_set (fun d other hd hother hbusy' => ?_) fun hbusy' => ?_
    · exact absurd (honly d other hother hbusy') hd
    · cases hbusy'
  · rw [hdrop] at hb
    have hmem := List.mem_of_mem_drop hb
    rw [hbuffer', List.mem_map] at hmem
    obtain ⟨x, -, rfl⟩ := hmem
    rw [hconnections]
    exact ⟨_, Parts.getElem?_set_of_some hconn, Phase.noConfusion⟩
  · rw [hlines, hold] at hl
    rcases List.mem_append.mp hl with hl | hl
    · exact h.isolated_set hconn hconnections rfl l hl
    · rw [List.mem_singleton] at hl
      rw [hl]
      exact hown

/-- A read of the only connection. -/
theorem Inv.readSome {s : SSHServer} (h : Inv s) {c : Nat} {conn : Connection} {searched : Nat}
    (hconn : s.connections[c]? = some conn) (hphase : conn.phase = .reading searched)
    (bytes : Text) : Inv (s.readSome c conn searched bytes) := by
  have hbusy : conn.phase.busy = true := by rw [hphase]; rfl
  obtain ⟨hreading, hbuffer, hnone, honly⟩ := h.alone c conn hconn hbusy
  rw [hphase, Phase.reading.injEq] at hreading
  have hbuffer' : s.buffer ++ bytes.map (fun b => (c, b)) =
      (conn.sent ++ bytes).map fun b => (c, b) := by
    rw [hbuffer, List.map_append]
  -- the search goes over what is new, and there was no line feed before
  have hnew : hasLine ((s.buffer ++ bytes.map fun b => (c, b)).drop searched) = true ↔
      '\n' ∈ conn.sent ++ bytes := by
    have hlen : searched = s.buffer.length := by rw [hreading, hbuffer, List.length_map]
    have hbytes : (bytes.map fun b => (c, b)).map Prod.snd = bytes := by
      rw [List.map_map]
      exact List.map_id _
    rw [hlen, List.drop_left, hasLine_iff, hbytes, List.mem_append]
    constructor
    · intro hmem
      exact Or.inr hmem
    · intro hmem
      exact hmem.resolve_left hnone
  unfold SSHServer.readSome
  dsimp only
  split
  · rename_i hline
    exact h.onRead hconn hbusy (hnew.mp hline) rfl
  · rename_i hline
    refine ⟨h.fresh_set c Phase.noConfusion, ?_, fun b hb => ?_, h.isolated_set hconn rfl rfl⟩
    · refine Parts.forall_set (fun d other hd hother hbusy' => ?_) fun _ => ?_
      · exact absurd (honly d other hother hbusy') hd
      · refine ⟨?_, hbuffer', fun hmem => hline (hnew.mpr hmem), ?_⟩
        · simp [hbuffer]
        · exact Parts.forall_set (fun d other _ hother => honly d other hother) fun _ => rfl
    · change b ∈ s.buffer ++ bytes.map (fun b => (c, b)) at hb
      rw [hbuffer', List.mem_map] at hb
      obtain ⟨x, -, rfl⟩ := hb
      exact ⟨_, Parts.getElem?_set_of_some hconn, Phase.noConfusion⟩

theorem inv_step {s t : SSHServer} {e : SSHEvent} (h : Inv s) (halone : s.StartsAlone e)
    (hstep : s.step e = some t) : Inv t := by
  cases e with
  | accepted =>
    cases Option.some.inj hstep
    refine ⟨?_, ?_, fun b hb => ?_, fun l hl => ?_⟩
    · exact Parts.forall_concat (fun c conn hconn => h.fresh c conn hconn) fun _ => rfl
    · refine Parts.forall_concat (fun c conn hconn hbusy => ?_) fun hbusy => ?_
      · obtain ⟨hreading, hbuffer, hline, honly⟩ := h.alone c conn hconn hbusy
        refine ⟨hreading, hbuffer, hline, Parts.forall_concat honly fun hbusy' => ?_⟩
        cases hbusy'
      · cases hbusy
    · obtain ⟨sender, hsender, hphase⟩ := h.senders b hb
      exact ⟨sender, Parts.getElem?_concat_of_some hsender, hphase⟩
    · refine (h.isolated l hl).mono fun conn hconn => ?_
      exact ⟨conn, [], Parts.getElem?_concat_of_some hconn, (List.append_nil _).symm⟩
  | acceptFailed =>
    cases Option.some.inj hstep
    exact h
  | handshaken c ok =>
    obtain ⟨conn, hconn, hphase, rfl⟩ := step_handshaken hstep
    cases ok with
    | true => exact h.startRead hconn hphase halone.1 halone.2
    | false => exact h.setDone hconn
  | received c bytes =>
    obtain ⟨conn, searched, hconn, hphase, -, rfl⟩ := step_received hstep
    exact h.readSome hconn hphase bytes
  | completed c =>
    obtain ⟨conn, hconn, hphase, rfl⟩ := step_completed hstep
    have hreading := (h.alone c conn hconn (by rw [hphase]; rfl)).reading
    rw [hphase] at hreading
    cases hreading
  | readFailed c =>
    obtain ⟨conn, hconn, -, rfl⟩ := step_readFailed hstep
    exact h.setDone hconn
  | written c ok =>
    obtain ⟨-, rfl⟩ := Machine.taken hstep
    refine ⟨h.fresh, fun c conn hconn hbusy => ?_, h.senders, h.isolated⟩
    obtain ⟨hreading, hbuffer, hline, honly⟩ := h.alone c conn hconn hbusy
    exact ⟨hreading, hbuffer, hline, honly⟩

theorem inv_of_meets {s : SSHServer} {es : List SSHEvent}
    (halone : machine.Meets StartsAlone new es) (hrun : machine.run new es = some s) : Inv s :=
  Machine.run_invariant_of_meets (fun _ _ _ => inv_step) inv_new halone hrun

/-- Connections are isolated when each of them starts to be read with nothing in the
buffer and no other connection being read. -/
theorem connections_isolated {s : SSHServer} {es : List SSHEvent}
    (halone : machine.Meets StartsAlone new es) (hrun : machine.run new es = some s) :
    s.Isolated := (inv_of_meets halone hrun).isolated

/-- Two clients, one behind the other. -/
theorem connections_isolated_two : ∃ s,
    machine.run new [.accepted, .handshaken 0 true, .received 0 "login\n".toList, .accepted,
      .handshaken 1 true, .received 1 "forw".toList, .received 1 "ard\n".toList] = some s ∧
      s.lines.map Line.message = ["login".toList, "forward".toList] ∧ s.Isolated := by
  obtain ⟨s, hrun, hlines⟩ := Machine.run_of_any machine new
    [.accepted, .handshaken 0 true, .received 0 "login\n".toList, .accepted,
      .handshaken 1 true, .received 1 "forw".toList, .received 1 "ard\n".toList]
    (fun s => s.lines.map Line.message == ["login".toList, "forward".toList])
    (by decide +kernel)
  exact ⟨s, hrun, beq_iff_eq.mp hlines, connections_isolated (by decide +kernel) hrun⟩

/-- What the first client has sent behind its command becomes the front of the command of
the next one. -/
theorem command_completed : ∃ s,
    machine.run new [.accepted, .handshaken 0 true, .received 0 "login\nforw".toList, .accepted,
      .handshaken 1 true, .received 1 "ard\n".toList] = some s ∧
      s.connections.map Connection.sent = ["login\nforw".toList, "ard\n".toList] ∧
      s.lines.map (fun l => (l.connection, l.message)) =
        [(0, "login".toList), (1, "forward".toList)] ∧ ¬ s.Isolated := by
  obtain ⟨s, hrun, htest⟩ := Machine.run_of_any machine new
    [.accepted, .handshaken 0 true, .received 0 "login\nforw".toList, .accepted,
      .handshaken 1 true, .received 1 "ard\n".toList]
    (fun s => s.connections.map Connection.sent == ["login\nforw".toList, "ard\n".toList] &&
      (s.lines.map (fun l => (l.connection, l.message)) ==
        [(0, "login".toList), (1, "forward".toList)] &&
      s.lines.any fun l => l.taken.any fun b => b.1 != l.connection))
    (by decide +kernel)
  rw [Bool.and_eq_true, Bool.and_eq_true, beq_iff_eq, beq_iff_eq, List.any_eq_true] at htest
  obtain ⟨hsent, hlines, l, hl, hother⟩ := htest
  refine ⟨s, hrun, hsent, hlines, fun hisolated => ?_⟩
  obtain ⟨b, hb, hne⟩ := List.any_eq_true.mp hother
  exact absurd ((hisolated l hl).1 b hb) (bne_iff_ne.mp hne)

/-! ## Connections that share the buffer -/

theorem mem_takeLine_cons (b : Nat × Char) (rest : List (Nat × Char)) :
    b ∈ takeLine (b :: rest) := by
  by_cases hb : b.2 = '\n'
  · rw [takeLine_cons_lineFeed hb]
    exact List.mem_singleton_self b
  · rw [takeLine_cons_of_ne hb]
    exact List.mem_cons_self

/-- Whoever takes the next line gets the first byte in the buffer. -/
theorem onRead_not_isolated {s : SSHServer} {c : Nat} {b : Nat × Char}
    {rest : List (Nat × Char)} (hbuffer : s.buffer = b :: rest) (hb : b.1 ≠ c)
    (conn : Connection) : ¬ (s.onRead c conn).Isolated := by
  intro hisolated
  obtain ⟨-, -, hlines⟩ := s.onRead_frame c conn
  have hl : (⟨c, takeLine s.buffer⟩ : Line) ∈ (s.onRead c conn).lines := by
    rw [hlines]
    exact List.mem_append_right _ (List.mem_singleton_self _)
  refine hb ((hisolated _ hl).1 b ?_)
  rw [hbuffer]
  exact mem_takeLine_cons b rest

/-- A read that ends with a line feed takes a line. -/
theorem step_lineFeed {s : SSHServer} {c searched : Nat} {conn : Connection}
    (hconn : s.connections[c]? = some conn) (hphase : conn.phase = .reading searched)
    (hsearched : searched ≤ s.buffer.length) :
    machine.step s (.received c ['\n']) =
      some (onRead { s with buffer := s.buffer ++ [(c, '\n')] } c
        { conn with sent := conn.sent ++ ['\n'] }) := by
  have hline : hasLine ((s.buffer ++ [(c, '\n')]).drop searched) = true := by
    rw [List.drop_append_of_le_length hsearched, hasLine_iff]
    simp
  simp [machine, step, hconn, hphase, readSome, hline]

theorem startRead_buffer (s : SSHServer) (c : Nat) (conn : Connection) :
    (s.startRead c conn).buffer = s.buffer := by
  unfold startRead
  split <;> rfl

theorem step_startRead {s : SSHServer} {c : Nat} {conn : Connection}
    (hconn : s.connections[c]? = some conn) (hphase : conn.phase = .handshaking) :
    machine.step s (.handshaken c true) = some (s.startRead c conn) := by
  simp [machine, step, hconn, hphase]

/-- A connection that finds something in the buffer takes it. -/
theorem leftover_taken {s : SSHServer} {c : Nat} {conn : Connection} {b : Nat × Char}
    {rest : List (Nat × Char)} (hconn : s.connections[c]? = some conn)
    (hphase : conn.phase = .handshaking) (hbuffer : s.buffer = b :: rest) (hb : b.1 ≠ c) :
    ∃ fs t, machine.run s (.handshaken c true :: fs) = some t ∧ ¬ t.Isolated := by
  have hstart := step_startRead hconn hphase
  have hkept : (s.startRead c conn).buffer = b :: rest := (s.startRead_buffer c conn).trans hbuffer
  by_cases hline : hasLine s.buffer = true
  · have hcompleted : machine.step (s.startRead c conn) (.completed c) =
        some ((s.startRead c conn).onRead c { conn with phase := .matched }) := by
      rw [startRead, if_pos hline]
      simp [machine, step, setConnection, Parts.getElem?_set_of_some hconn]
    exact ⟨[.completed c], _, Machine.run_cons_eq_some.mpr
      ⟨_, hstart, Machine.run_cons_eq_some.mpr ⟨_, hcompleted, rfl⟩⟩,
      onRead_not_isolated hkept hb _⟩
  · have hreading : (s.startRead c conn).connections[c]? =
        some { conn with phase := .reading s.buffer.length } := by
      rw [startRead, if_neg hline]
      exact Parts.getElem?_set_of_some hconn
    have hread := step_lineFeed hreading rfl (Nat.le_of_eq (by rw [startRead_buffer]))
    have hfront : (s.startRead c conn).buffer ++ [(c, '\n')] = b :: (rest ++ [(c, '\n')]) := by
      rw [hkept, List.cons_append]
    exact ⟨[.received c ['\n']], _, Machine.run_cons_eq_some.mpr
      ⟨_, hstart, Machine.run_cons_eq_some.mpr ⟨_, hread, rfl⟩⟩,
      onRead_not_isolated hfront hb _⟩

/-- A connection that is being read takes what another one has begun. -/
theorem begun_taken {s : SSHServer} {c d : Nat} {conn other : Connection}
    (hconn : s.connections[c]? = some conn) (hphase : conn.phase = .handshaking)
    (hother : s.connections[d]? = some other) (hreading : other.phase = .reading 0)
    (hbuffer : s.buffer = []) :
    ∃ fs t, machine.run s (.handshaken c true :: fs) = some t ∧ ¬ t.Isolated := by
  have hcd : c ≠ d := by
    rintro rfl
    cases Option.some.inj (hconn.symm.trans hother)
    rw [hphase] at hreading
    cases hreading
  have hstart := step_startRead hconn hphase
  have halone : s.startRead c conn = s.setConnection c { conn with phase := .reading 0 } := by
    rw [startRead, hbuffer]
    rfl
  rw [halone] at hstart
  have hself : (s.setConnection c { conn with phase := .reading 0 }).connections[c]? =
      some { conn with phase := .reading 0 } := Parts.getElem?_set_of_some hconn
  have hfirst : machine.step (s.setConnection c { conn with phase := .reading 0 })
      (.received c ['a']) = some ((s.setConnection c { conn with phase := .reading 0 }).readSome c
        { conn with phase := .reading 0 } 0 ['a']) := by
    simp [machine, step, hself]
  have hbegun : (s.setConnection c { conn with phase := .reading 0 }).readSome c
      { conn with phase := .reading 0 } 0 ['a'] =
        { s with
          buffer := [(c, 'a')]
          connections := (s.connections.set c { conn with phase := .reading 0 }).set c
            { phase := .reading 1, sent := conn.sent ++ ['a'] } } := by
    rw [readSome]
    simp only [setConnection, hbuffer]
    rfl
  rw [hbegun] at hfirst
  have hother' : ((s.connections.set c { conn with phase := .reading 0 }).set c
      { phase := .reading 1, sent := conn.sent ++ ['a'] })[d]? = some other := by
    rw [List.getElem?_set_ne hcd, List.getElem?_set_ne hcd]
    exact hother
  have hread := step_lineFeed (s := { s with
    buffer := [(c, 'a')]
    connections := (s.connections.set c { conn with phase := .reading 0 }).set c
      { phase := .reading 1, sent := conn.sent ++ ['a'] } }) hother' hreading (Nat.zero_le _)
  exact ⟨[.received c ['a'], .received d ['\n']], _, Machine.run_cons_eq_some.mpr
    ⟨_, hstart, Machine.run_cons_eq_some.mpr
      ⟨_, hfirst, Machine.run_cons_eq_some.mpr ⟨_, hread, rfl⟩⟩⟩,
    onRead_not_isolated rfl hcd _⟩

/-- Whenever a connection starts to be read while there is something in the buffer or
another connection is being read, a line can get to the wrong one. -/
theorem shared_buffer_mixes {s : SSHServer} {es : List SSHEvent} {c : Nat} {conn : Connection}
    (halone : machine.Meets StartsAlone new es) (hrun : machine.run new es = some s)
    (hconn : s.connections[c]? = some conn) (hphase : conn.phase = .handshaking)
    (hshared : ¬ s.StartsAlone (.handshaken c true)) :
    ∃ fs t, machine.run s (.handshaken c true :: fs) = some t ∧ ¬ t.Isolated := by
  have h := inv_of_meets halone hrun
  cases hbuffer : s.buffer with
  | cons b rest =>
    refine leftover_taken hconn hphase hbuffer ?_
    intro heq
    obtain ⟨sender, hsender, hsent⟩ := h.senders b (by rw [hbuffer]; exact List.mem_cons_self)
    rw [heq, hconn] at hsender
    cases Option.some.inj hsender
    exact hsent hphase
  | nil =>
    obtain ⟨d, other, hother, hbusy⟩ : ∃ (d : Nat) (other : Connection),
        s.connections[d]? = some other ∧ other.phase.busy = true := by
      by_contra hnone
      refine hshared ⟨hbuffer, fun other hmem => ?_⟩
      obtain ⟨d, hd⟩ := List.getElem?_of_mem hmem
      rw [← Bool.not_eq_true]
      exact fun hbusy => hnone ⟨d, other, hd, hbusy⟩
    obtain ⟨hreading, hempty, -, -⟩ := h.alone d other hother hbusy
    have hsent : other.sent = [] := by
      rw [hbuffer] at hempty
      exact List.map_eq_nil_iff.mp hempty.symm
    rw [hsent] at hreading
    exact begun_taken hconn hphase hother hreading hbuffer

end SSHServer

end ServerAsync
