import ServerAsync.TcpConnection

/-!
# `tcp_connection` as a pass-through

Without debug mode both loops are directions of a relay. Each passes on what it reads,
in order and once. But `cleanup` closes both sockets under the other loop: what that
one is writing when a side ends is lost.
-/

namespace ServerAsync

open Misc

namespace RelayEvent

variable {α : Type*}

def isRead : RelayEvent α → Bool
  | .read _ => true
  | _ => false

def isWrote : RelayEvent α → Bool
  | .wrote _ => true
  | _ => false

end RelayEvent

namespace Half

variable {α : Type*} {lead : List α} {h h' : Half α} {e : RelayEvent α}

/-- How many writes a direction has in flight. -/
def pending (h : Half α) : Nat := h.ops.countP fun op => op != .asyncReadSome

theorem step_fetched (hstep : h.step e = some h') : h'.fetched = h.fetched ++ e.bytes := by
  cases e with
  | read bytes =>
    rcases Machine.taken hstep with ⟨-, rfl⟩
    rfl
  | _ =>
    rcases Machine.taken hstep with ⟨-, rfl⟩
    exact (List.append_nil _).symm

/-- While a direction does not end, its reads and writes alternate. -/
theorem step_pending (hinv : Inv lead h) (hstep : h.step e = some h') (hgoes : e.ends = false) :
    h'.pending + (if e.isWrote then 1 else 0) = h.pending + if e.isRead then 1 else 0 := by
  cases e with
  | readFailed eof => cases hgoes
  | writeFailed off len => cases hgoes
  | read bytes =>
    rcases Machine.taken hstep with ⟨⟨hop, -⟩, rfl⟩
    simp [pending, onRead, finish, hinv.ops_eq hop, RelayEvent.isWrote, RelayEvent.isRead]
  | accepted off len count =>
    rcases Machine.taken hstep with ⟨⟨hop, -⟩, rfl⟩
    simp [pending, send, finish, hinv.ops_eq hop, RelayEvent.isWrote, RelayEvent.isRead]
  | wrote len =>
    rcases Machine.taken hstep with ⟨hop, rfl⟩
    simp [pending, doRelay, finish, hinv.ops_eq hop, RelayEvent.isWrote, RelayEvent.isRead]

/-- A direction with one operation has no write in flight exactly when it is reading,
and then it has written everything. -/
theorem pending_eq_zero_iff (hinv : Inv [] h) (hops : h.ops ≠ []) :
    h.pending = 0 ↔ h.written = h.fetched ∧ ∀ off len, .asyncWrite off len ∉ h.ops := by
  obtain ⟨op, hop⟩ := List.exists_mem_of_ne_nil _ hops
  have hsingle := hinv.ops_eq hop
  constructor
  · intro hnone
    cases op with
    | asyncReadSome =>
      refine ⟨hinv.reading hop, fun off len hwrite => ?_⟩
      rw [hsingle] at hwrite
      simp at hwrite
    | asyncWrite off len => simp [pending, hsingle] at hnone
  · rintro ⟨-, hnone⟩
    cases op with
    | asyncReadSome => simp [pending, hsingle]
    | asyncWrite off len => exact absurd hop (hnone off len)

end Half

namespace TcpEvent

def reads (dir : Dir) (e : TcpEvent) : Bool := (e.inDir dir).any RelayEvent.isRead

/-- A write of a loop has completed. -/
def wrote (dir : Dir) (e : TcpEvent) : Bool := (e.inDir dir).any RelayEvent.isWrote

end TcpEvent

namespace TcpConnection

def half (s : TcpConnection) : Dir → Half Char
  | .toRemote => s.toProxy
  | .toClient => s.toClient

variable {s s' : TcpConnection} {es : List TcpEvent}

/-- What a step of one loop leaves alone. -/
structure OtherLoop (dir : Dir) (e : RelayEvent Char) (s s' : TcpConnection) : Prop where
  step : (s.half dir).step e = some (s'.half dir)
  other : s'.half dir.other = s.half dir.other
  debugMode : s'.debugMode = s.debugMode
  connects : s'.connects = s.connects
  requestWrites : s'.requestWrites = s.requestWrites
  closed : s'.closed = (s.closed || e.ends)

/-- Without debug mode, the loop of `do_read_client` is a relay. -/
theorem step_client {e : RelayEvent Char} (hmode : s.debugMode = false)
    (hstep : s.step (.client e) = some s') : OtherLoop .toRemote e s s' := by
  cases e with
  | read bytes =>
    rcases Machine.taken hstep with ⟨⟨hop, hne, hlen⟩, rfl⟩
    have hlength : bytes.length ≠ 0 := by simpa using hne
    have hread : s.toProxy.step (.read bytes) =
        some (((s.toProxy.finish .asyncReadSome).fill bytes).beginWrite bytes.length) :=
      if_pos ⟨hop, hlen⟩
    have hnot : ¬ s.debugMode = true := by simp [hmode]
    rw [onReadClient, if_neg (by exact hnot), doWriteProxy, if_neg hlength]
    exact ⟨hread, rfl, rfl, rfl, rfl, (Bool.or_false _).symm⟩
  | readFailed eof =>
    rcases Machine.taken hstep with ⟨hop, rfl⟩
    exact ⟨if_pos hop, rfl, rfl, rfl, rfl, (Bool.or_true _).symm⟩
  | accepted off len count =>
    rcases Machine.taken hstep with ⟨⟨hop, hcount, hle, -⟩, rfl⟩
    exact ⟨if_pos ⟨hop, hcount, hle⟩, rfl, rfl, rfl, rfl, (Bool.or_false _).symm⟩
  | wrote len =>
    rcases Machine.taken hstep with ⟨hop, rfl⟩
    exact ⟨if_pos hop, rfl, rfl, rfl, rfl, (Bool.or_false _).symm⟩
  | writeFailed off len =>
    rcases Machine.taken hstep with ⟨hop, rfl⟩
    exact ⟨if_pos hop, rfl, rfl, rfl, rfl, (Bool.or_true _).symm⟩

/-- The loop of `do_read_proxy` always is one. -/
theorem step_proxy {e : RelayEvent Char} (hstep : s.step (.proxy e) = some s') :
    OtherLoop .toClient e s s' := by
  cases e with
  | read bytes =>
    rcases Machine.taken hstep with ⟨⟨hop, -, hlen⟩, rfl⟩
    have hread : s.toClient.step (.read bytes) =
        some (((s.toClient.finish .asyncReadSome).fill bytes).beginWrite bytes.length) :=
      if_pos ⟨hop, hlen⟩
    exact ⟨hread, rfl, rfl, rfl, rfl, (Bool.or_false _).symm⟩
  | readFailed eof =>
    rcases Machine.taken hstep with ⟨hop, rfl⟩
    exact ⟨if_pos hop, rfl, rfl, rfl, rfl, (Bool.or_true _).symm⟩
  | accepted off len count =>
    rcases Machine.taken hstep with ⟨⟨hop, hcount, hle, -⟩, rfl⟩
    exact ⟨if_pos ⟨hop, hcount, hle⟩, rfl, rfl, rfl, rfl, (Bool.or_false _).symm⟩
  | wrote len =>
    rcases Machine.taken hstep with ⟨hop, rfl⟩
    exact ⟨if_pos hop, rfl, rfl, rfl, rfl, (Bool.or_false _).symm⟩
  | writeFailed off len =>
    rcases Machine.taken hstep with ⟨hop, rfl⟩
    exact ⟨if_pos hop, rfl, rfl, rfl, rfl, (Bool.or_true _).symm⟩

/-! ## The invariant -/

/-- Both loops are relays that start with the connect. -/
structure PassThrough (s : TcpConnection) : Prop where
  mode : s.debugMode = false
  requests : s.requestWrites = []
  connecting : 0 < s.connects → s.connects = 1 ∧ ∀ dir, (s.half dir).ops = [] ∧
    (s.half dir).written = [] ∧ (s.half dir).fetched = []
  loop : ∀ dir, (s.half dir).Inv []

theorem PassThrough.start : PassThrough (start false) where
  mode := rfl
  requests := rfl
  connecting _ := ⟨rfl, fun dir => by cases dir <;> exact ⟨rfl, rfl, rfl⟩⟩
  loop dir := by cases dir <;> exact .of_idle rfl List.nil_prefix

theorem PassThrough.connected (h : PassThrough s) (hconnects : 0 < s.connects) :
    PassThrough ({ s with connects := s.connects - 1 }.doReadClient.doReadProxy) := by
  obtain ⟨hone, hidle⟩ := h.connecting hconnects
  refine ⟨h.mode, h.requests, fun hmore => ?_, fun dir => ?_⟩
  · change 0 < s.connects - 1 at hmore
    omega
  · have hloop : ∀ dir, ((s.half dir).doRelay).Inv [] := by
      intro dir
      obtain ⟨hops, hwritten, hfetched⟩ := hidle dir
      exact .doRelay hops (by rw [hwritten, hfetched]; rfl)
    cases dir with
    | toClient => exact hloop .toClient
    | toRemote => exact hloop .toRemote

/-- A step of one loop keeps the invariant. -/
theorem PassThrough.loop_step {dir : Dir} {e : RelayEvent Char} (h : PassThrough s)
    (hloop : OtherLoop dir e s s') : PassThrough s' := by
  refine ⟨hloop.debugMode.trans h.mode, hloop.requestWrites.trans h.requests, ?_, fun d => ?_⟩
  · intro hconnects
    rw [hloop.connects] at hconnects
    exact absurd ((h.connecting hconnects).2 dir).1 (Half.ops_of_step hloop.step)
  · rcases d.eq_or_other dir with rfl | rfl
    · exact Half.inv_step (h.loop d) hloop.step
    · rw [hloop.other]
      exact h.loop dir.other

/-- Every step is that of the connect, or of one of the loops. -/
theorem PassThrough.step_cases {e : TcpEvent} (h : PassThrough s) (hstep : s.step e = some s') :
    (∃ ok, e = .connected ok ∧ 0 < s.connects ∧
      s' = if ok then { s with connects := s.connects - 1 }.doReadClient.doReadProxy
        else { s with connects := s.connects - 1 }.cleanup) ∨
    ∃ dir e', e.inDir dir = some e' ∧ e.inDir dir.other = none ∧ OtherLoop dir e' s s' := by
  have hnone : ∀ off, off ∉ s.requestWrites := by
    rw [h.requests]
    exact fun off => List.not_mem_nil
  cases e with
  | connected ok =>
    rcases Machine.taken hstep with ⟨hconnects, rfl⟩
    exact Or.inl ⟨ok, rfl, hconnects, rfl⟩
  | client e => exact Or.inr ⟨.toRemote, e, rfl, rfl, step_client h.mode hstep⟩
  | proxy e => exact Or.inr ⟨.toClient, e, rfl, rfl, step_proxy hstep⟩
  | requestAccepted off count => exact absurd (Machine.taken hstep).1.1 (hnone off)
  | requestWrote => exact absurd (Machine.taken hstep).1 (hnone _)
  | requestFailed off => exact absurd (Machine.taken hstep).1 (hnone off)

theorem PassThrough.step {e : TcpEvent} (h : PassThrough s) (hstep : s.step e = some s') :
    PassThrough s' := by
  rcases h.step_cases hstep with ⟨ok, -, hconnects, rfl⟩ | ⟨dir, e', -, -, hloop⟩
  · cases ok with
    | true => exact h.connected hconnects
    | false =>
      refine ⟨h.mode, h.requests, fun hmore => ?_, h.loop⟩
      have hone := (h.connecting hconnects).1
      change 0 < s.connects - 1 at hmore
      omega
  · exact h.loop_step hloop

/-! ## Runs -/

/-- What the loops of a run have read, and, while the sockets are open, how many reads
and writes of each have completed. -/
structure Progress (es : List TcpEvent) (s : TcpConnection) : Prop where
  passes : PassThrough s
  fetched : ∀ dir, (s.half dir).fetched = es.flatMap (TcpEvent.bytes dir)
  balance : s.closed = false → ∀ dir,
    es.countP (TcpEvent.reads dir) = es.countP (TcpEvent.wrote dir) + (s.half dir).pending
  live : s.closed = false → s.connects = 0 → ∀ dir, (s.half dir).ops ≠ []

theorem Progress.start : Progress [] (start false) where
  passes := .start
  fetched dir := by cases dir <;> rfl
  balance _ dir := by cases dir <;> rfl
  live _ hconnects := by cases hconnects

/-- The connect ends without a byte from either side. -/
theorem Progress.connected (h : Progress es s) (ok : Bool) (hconnects : 0 < s.connects)
    (hstep : s.step (.connected ok) = some s') : Progress (es ++ [.connected ok]) s' := by
  have hpasses := h.passes.step hstep
  rcases Machine.taken hstep with ⟨-, rfl⟩
  have hnothing : ∀ dir, (es ++ [TcpEvent.connected ok]).flatMap (TcpEvent.bytes dir) =
      es.flatMap (TcpEvent.bytes dir) := by
    intro dir
    cases dir <;> simp [TcpEvent.bytes, TcpEvent.inDir]
  cases ok with
  | false =>
    refine ⟨hpasses, fun dir => (h.fetched dir).trans (hnothing dir).symm, ?_, ?_⟩
    · intro hopen
      cases hopen
    · intro hopen
      cases hopen
  | true =>
    refine ⟨hpasses, fun dir => ?_, fun hopen dir => ?_, fun _ _ dir => ?_⟩
    · rw [hnothing, ← h.fetched]
      cases dir <;> rfl
    · have hbalance := h.balance hopen dir
      obtain ⟨-, hidle⟩ := h.passes.connecting hconnects
      obtain ⟨hops, -, -⟩ := hidle dir
      cases dir <;>
        simpa [List.countP_append, TcpEvent.reads, TcpEvent.wrote, TcpEvent.inDir, half,
          Half.pending, doReadClient, doReadProxy, Half.doRelay] using hbalance
    · cases dir <;> simp [half, doReadClient, doReadProxy, Half.doRelay]

/-- One loop goes on, the other stays as it is. -/
theorem Progress.loop_step {dir : Dir} {e : TcpEvent} {e' : RelayEvent Char}
    (h : Progress es s) (he : e.inDir dir = some e') (hother : e.inDir dir.other = none)
    (hloop : OtherLoop dir e' s s') : Progress (es ++ [e]) s' := by
  refine ⟨h.passes.loop_step hloop, fun d => ?_, fun hopen d => ?_, fun hopen hconnects d => ?_⟩
  · rw [List.flatMap_append, ← h.fetched]
    rcases d.eq_or_other dir with rfl | rfl
    · rw [Half.step_fetched hloop.step]
      simp [TcpEvent.bytes, he]
    · rw [hloop.other]
      simp [TcpEvent.bytes, hother]
  · rw [hloop.closed, Bool.or_eq_false_iff] at hopen
    have hbalance := h.balance hopen.1 d
    rw [List.countP_append, List.countP_append, List.countP_singleton, List.countP_singleton]
    rcases d.eq_or_other dir with rfl | rfl
    · have hpending := Half.step_pending (h.passes.loop d) hloop.step hopen.2
      simp only [TcpEvent.reads, TcpEvent.wrote, he, Option.any_some]
      omega
    · rw [hloop.other]
      simp only [TcpEvent.reads, TcpEvent.wrote, hother, Option.any_none]
      exact hbalance
  · rw [hloop.closed, Bool.or_eq_false_iff] at hopen
    rw [hloop.connects] at hconnects
    rcases d.eq_or_other dir with rfl | rfl
    · exact Half.step_ops hloop.step hopen.2
    · rw [hloop.other]
      exact h.live hopen.1 hconnects dir.other

theorem progress_of_run (hrun : machine.run (start false) es = some s) : Progress es s := by
  refine Machine.run_history (R := Progress) ?_ Progress.start hrun
  intro past s e t h hstep
  rcases h.passes.step_cases hstep with ⟨ok, rfl, hconnects, -⟩ | ⟨dir, e', he, hother, hloop⟩
  · exact h.connected ok hconnects hstep
  · exact h.loop_step he hother hloop

/-- In every run, what a loop has written is a prefix of what it has got from its
source; it has one operation in flight at most, its buffer stays as it is while it is
written, and at the end of its source it has written everything. -/
theorem passthrough_fidelity (hrun : machine.run (start false) es = some s) (dir : Dir) :
    (s.half dir).written <+: es.flatMap (TcpEvent.bytes dir) ∧
    (s.half dir).ops.length + s.requestWrites.length ≤ 1 ∧
    (∀ off len e s', .asyncWrite off len ∈ (s.half dir).ops → s.step e = some s' →
      (s'.half dir).buffer = (s.half dir).buffer) ∧
    ∀ s', s.step (TcpEvent.endOf dir) = some s' →
      (s'.half dir).written = es.flatMap (TcpEvent.bytes dir) := by
  have h := progress_of_run hrun
  have hinv := h.passes.loop dir
  refine ⟨?_, ?_, ?_, ?_⟩
  · rw [← h.fetched]
    exact hinv.ordered
  · rw [h.passes.requests]
    exact hinv.ops_le
  · intro off len e s' hop hstep
    have hbusy : .asyncReadSome ∉ (s.half dir).ops := by
      rw [hinv.ops_eq hop]
      simp
    rcases h.passes.step_cases hstep with ⟨ok, -, hconnects, -⟩ | ⟨d, e', -, -, hloop⟩
    · have hidle := ((h.passes.connecting hconnects).2 dir).1
      rw [hidle] at hop
      cases hop
    · rcases dir.eq_or_other d with rfl | rfl
      · exact Half.step_buffer hloop.step hbusy
      · rw [hloop.other]
  · intro s' hstep
    rw [← h.fetched]
    cases dir with
    | toRemote =>
      rcases Machine.taken hstep with ⟨hop, rfl⟩
      exact hinv.reading hop
    | toClient =>
      rcases Machine.taken hstep with ⟨hop, rfl⟩
      exact hinv.reading hop

/-- A request and its response, each a byte, and the end of the client's stream. -/
def exchange : List TcpEvent :=
  [.connected true, .client (.read ['q']), .client (.accepted 0 1 1), .client (.wrote 1),
    .proxy (.read ['r']), .proxy (.accepted 0 1 1), .proxy (.wrote 1)]

theorem passthrough_fidelity_exchange : ∃ s, machine.run (start false) exchange = some s ∧
    s.toProxy.written = ['q'] ∧ s.toProxy.written <+: ['q'] ∧ s.toProxy.ops.length ≤ 1 := by
  obtain ⟨s, hrun, htest⟩ := Machine.run_of_any machine (start false) exchange
    (fun s => s.toProxy.written == ['q']) (by decide +kernel)
  obtain ⟨hwritten, hops, -⟩ := passthrough_fidelity hrun .toRemote
  exact ⟨s, hrun, beq_iff_eq.mp htest, hwritten, Nat.le_of_add_right_le hops⟩

/-! ## Closing -/

/-- All that has been read for a loop's destination has been written to it, and no
write is in flight. -/
def LosesNothing (dir : Dir) (es : List TcpEvent) (s : TcpConnection) : Prop :=
  (s.half dir).written = es.flatMap (TcpEvent.bytes dir) ∧
    ∀ off len, .asyncWrite off len ∉ (s.half dir).ops

/-- When the end of one side's stream closes the sockets, what has been read from the
other side has all been written to the closing one exactly when as many writes of the
other loop have completed as reads. -/
theorem closing_loses_nothing_iff {dir : Dir} (hrun : machine.run (start false) es = some s)
    (hopen : s.closed = false) (hstep : s.step (TcpEvent.endOf dir) = some s') :
    LosesNothing dir.other (es ++ [TcpEvent.endOf dir]) s' ↔
      es.countP (TcpEvent.reads dir.other) = es.countP (TcpEvent.wrote dir.other) := by
  have h := progress_of_run hrun
  have hend : (TcpEvent.endOf dir).inDir dir = some (.readFailed true) := by cases dir <;> rfl
  rcases h.passes.step_cases hstep with ⟨ok, he, -, -⟩ | ⟨d, e', he, hother, hloop⟩
  · cases dir <;> cases he
  have hd : d = dir := by
    cases d <;> cases dir <;> first | rfl | cases he
  subst hd
  have hconnects : s.connects = 0 := by
    by_contra hne
    have hidle := (h.passes.connecting (Nat.pos_of_ne_zero hne)).2 d
    exact Half.ops_of_step hloop.step hidle.1
  have hlive := h.live hopen hconnects d.other
  have hbalance := h.balance hopen d.other
  have hzero := Half.pending_eq_zero_iff (h.passes.loop d.other) hlive
  rw [h.fetched] at hzero
  have hbytes : (es ++ [TcpEvent.endOf d]).flatMap (TcpEvent.bytes d.other) =
      es.flatMap (TcpEvent.bytes d.other) := by
    simp [TcpEvent.bytes, hother]
  unfold LosesNothing
  rw [hloop.other, hbytes, ← hzero]
  omega

/-- The client ends after the response has been written. -/
theorem closing_loses_nothing_iff_exchange : ∃ s s',
    machine.run (start false) exchange = some s ∧
    s.step (TcpEvent.endOf .toRemote) = some s' ∧ s'.closed = true ∧
    LosesNothing .toClient (exchange ++ [TcpEvent.endOf .toRemote]) s' := by
  obtain ⟨s, hrun, htest⟩ := Machine.run_of_any machine (start false) exchange
    (fun s => !s.closed && (s.step (TcpEvent.endOf .toRemote)).any fun s' => s'.closed)
    (by decide +kernel)
  rw [Bool.and_eq_true, Bool.not_eq_true', Option.any_eq_true] at htest
  obtain ⟨hopen, s', hstep, hclosed⟩ := htest
  exact ⟨s, s', hrun, hstep, hclosed,
    (closing_loses_nothing_iff hrun hopen hstep).mpr (by decide)⟩

/-- The client half-closes while the response is being written: the sockets are closed
and the client does not get it. -/
theorem closing_loses_response : ∃ s s',
    machine.run (start false) [.connected true, .proxy (.read ['r'])] = some s ∧
    s.closed = false ∧ s.step (TcpEvent.endOf .toRemote) = some s' ∧ s'.closed = true ∧
    s'.toClient.written = [] ∧
    ¬ LosesNothing .toClient [.connected true, .proxy (.read ['r']), TcpEvent.endOf .toRemote]
      s' := by
  obtain ⟨s, hrun, htest⟩ := Machine.run_of_any machine (start false)
    [.connected true, .proxy (.read ['r'])]
    (fun s => !s.closed && (s.step (TcpEvent.endOf .toRemote)).any fun s' =>
      s'.closed && s'.toClient.written == []) (by decide +kernel)
  rw [Bool.and_eq_true, Bool.not_eq_true', Option.any_eq_true] at htest
  obtain ⟨hopen, s', hstep, hlost⟩ := htest
  rw [Bool.and_eq_true, beq_iff_eq] at hlost
  refine ⟨s, s', hrun, hopen, hstep, hlost.1, hlost.2, ?_⟩
  rintro ⟨hwritten, -⟩
  change s'.toClient.written = _ at hwritten
  rw [hlost.2] at hwritten
  exact absurd hwritten (by decide)

end TcpConnection

end ServerAsync
