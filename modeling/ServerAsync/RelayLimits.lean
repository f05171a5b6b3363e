import ServerAsync.HalfClose
import ServerAsync.TcpDebug
import ServerAsync.TcpPassThrough

/-!
# What a relay keeps

A direction of a relay never has more bytes that it has read and not written than its
buffer holds. That bounds what a copier and a `tcp_connection` keep for a client, but not
in debug mode, where `request_buffer_` grows until there is a blank line in it.
-/

namespace ServerAsync

open Misc

/-! ## One direction -/

namespace Half

variable {α : Type*} {lead : List α} {limit : Nat} {h h' : Half α} {e : RelayEvent α}

/-- At most `limit` bytes, which is what the buffer holds, are read and not written. -/
structure Within (lead : List α) (limit : Nat) (h : Half α) : Prop where
  inv : h.Inv lead
  room : h.buffer.length = limit
  le : lead.length + h.fetched.length ≤ h.written.length + limit

/-- No event changes the size of the buffer. -/
theorem step_room (hstep : h.step e = some h') : h'.buffer.length = h.buffer.length := by
  cases e with
  | read bytes =>
    obtain ⟨⟨-, hle⟩, rfl⟩ := Machine.taken hstep
    simp only [onRead, finish, List.length_append, List.length_drop]
    omega
  | _ =>
    obtain ⟨-, rfl⟩ := Machine.taken hstep
    rfl

theorem Within.step (h₀ : Within lead limit h) (hstep : h.step e = some h') :
    Within lead limit h' := by
  refine ⟨inv_step h₀.inv hstep, (step_room hstep).trans h₀.room, ?_⟩
  have hle := h₀.le
  cases e with
  | read bytes =>
    obtain ⟨⟨hop, hbytes⟩, rfl⟩ := Machine.taken hstep
    -- everything before has been written
    have hall := congrArg List.length (h₀.inv.reading hop)
    rw [h₀.room] at hbytes
    rw [List.length_append] at hall
    simp only [onRead, finish, List.length_append]
    omega
  | accepted off len count =>
    obtain ⟨-, rfl⟩ := Machine.taken hstep
    simp only [send, finish, List.length_append]
    omega
  | _ =>
    obtain ⟨-, rfl⟩ := Machine.taken hstep
    exact hle

/-- Of a direction's one operation nothing is left when it ends, and otherwise one. -/
theorem step_length (hinv : h.Inv lead) (hstep : h.step e = some h') :
    h'.ops.length + (if e.ends then 1 else 0) = h.ops.length := by
  have hone : h.ops.length = 1 :=
    Nat.le_antisymm hinv.ops_le (List.length_pos_of_ne_nil (ops_of_step hstep))
  have hle := (inv_step hinv hstep).ops_le
  by_cases hends : e.ends = true
  · have hnil : h'.ops = [] := by
      cases e with
      | readFailed eof =>
        obtain ⟨hop, rfl⟩ := Machine.taken hstep
        simp [finish, hinv.ops_eq hop]
      | writeFailed off len =>
        obtain ⟨hop, rfl⟩ := Machine.taken hstep
        simp [finish, hinv.ops_eq hop]
      | _ => cases hends
    rw [hnil, if_pos hends, hone]
    rfl
  · have hpos := List.length_pos_of_ne_nil (step_ops hstep (Bool.not_eq_true _ ▸ hends))
    rw [if_neg hends]
    omega

end Half

/-! ## The copiers -/

namespace Copier

variable {leadClient leadRemote : Text} {maxLength : Nat} {c c' : Copier}

/-- The bytes that a side gets before anything relayed. -/
def lead (leadClient leadRemote : Text) : Dir → Text
  | .toClient => leadClient
  | .toRemote => leadRemote

/-- Before the relay nothing has been read, and nothing has ended. -/
structure Connecting (maxLength : Nat) (c : Copier) : Prop where
  eofs : c.eofs = 0
  idle : ∀ dir, (c.half dir).ops = [] ∧ (c.half dir).fetched = []
  room : ∀ dir, (c.half dir).buffer.length = maxLength

/-- In the relay `do_eof` has been called for each direction that has ended. -/
structure Relaying (leadClient leadRemote : Text) (maxLength : Nat) (c : Copier) : Prop where
  ops : c.ops = []
  ends : c.eofs + c.toClient.ops.length + c.toRemote.ops.length = 2
  within : ∀ dir, (c.half dir).Within (lead leadClient leadRemote dir) maxLength

/-- What holds of a copier of one of the two classes in every state that it reaches. -/
structure Accounts (leadClient leadRemote : Text) (maxLength : Nat) (c : Copier) : Prop where
  inv : c.Inv leadClient leadRemote
  phase : Connecting maxLength c ∨ Relaying leadClient leadRemote maxLength c

/-- Something outside the relay happens: the two directions are not concerned. -/
theorem Connecting.congr (h : Connecting maxLength c) (heofs : c'.eofs = c.eofs)
    (hhalf : ∀ dir, (c'.half dir).ops = (c.half dir).ops ∧
      (c'.half dir).fetched = (c.half dir).fetched ∧
      (c'.half dir).buffer = (c.half dir).buffer) : Connecting maxLength c' where
  eofs := heofs.trans h.eofs
  idle dir := ⟨(hhalf dir).1.trans (h.idle dir).1, (hhalf dir).2.1.trans (h.idle dir).2⟩
  room dir := by
    rw [(hhalf dir).2.2]
    exact h.room dir

/-- Both directions start. -/
theorem Connecting.startRelay (h : Connecting maxLength c) (hinv : c.Inv leadClient leadRemote)
    (hop : .asyncWrite .unconsumed [] ∈ c.ops) :
    Relaying leadClient leadRemote maxLength
      (c.finish (.asyncWrite .unconsumed [])).startRelay := by
  have hinv' := hinv.startRelay hop
  have hreading : ∀ dir, .asyncReadSome ∈
      (((c.finish (.asyncWrite .unconsumed [])).startRelay).half dir).ops := by
    intro dir
    cases dir <;> exact List.mem_append_right _ List.mem_cons_self
  have hside : ∀ dir, (((c.finish (.asyncWrite .unconsumed [])).startRelay).half dir).Inv
      (lead leadClient leadRemote dir) := by
    intro dir
    cases dir with
    | toClient => exact hinv'.client
    | toRemote => exact hinv'.remote
  refine ⟨?_, ?_, fun dir => ⟨hside dir, ?_, ?_⟩⟩
  · change c.ops.erase _ = []
    rw [hinv.ops_eq hop, List.erase_cons_head]
  · change c.eofs + (c.toClient.ops ++ [_]).length + (c.toRemote.ops ++ [_]).length = 2
    rw [h.eofs, show c.toClient.ops = [] from (h.idle .toClient).1,
      show c.toRemote.ops = [] from (h.idle .toRemote).1]
    rfl
  · cases dir with
    | toClient => exact h.room .toClient
    | toRemote => exact h.room .toRemote
  · have hall := congrArg List.length ((hside dir).reading (hreading dir))
    rw [List.length_append] at hall
    omega

/-- A step of the relay. -/
theorem Relaying.step (h : Relaying leadClient leadRemote maxLength c) {dir : Dir}
    {e : RelayEvent Char} (hstep : c.stepRelay dir e = some c') :
    Relaying leadClient leadRemote maxLength c' := by
  obtain ⟨half', hhalf, -, -, hops, hclient, hremote⟩ := stepRelay_eq_some hstep
  have hwithin := (h.within dir).step hhalf
  have hlength := Half.step_length (h.within dir).inv hhalf
  have heofs := stepRelay_eofs hstep
  rw [callsEof_eq] at heofs
  have hends := h.ends
  cases dir with
  | toClient =>
    refine ⟨hops.trans h.ops, ?_, fun d => ?_⟩
    · change half'.ops.length + _ = c.toClient.ops.length at hlength
      rw [hclient, hremote]
      change c'.eofs + half'.ops.length + c.toRemote.ops.length = 2
      omega
    · cases d with
      | toClient =>
        change c'.toClient.Within _ _
        rw [hclient]
        exact hwithin
      | toRemote =>
        change c'.toRemote.Within _ _
        rw [hremote]
        exact h.within .toRemote
  | toRemote =>
    refine ⟨hops.trans h.ops, ?_, fun d => ?_⟩
    · change half'.ops.length + _ = c.toRemote.ops.length at hlength
      rw [hclient, hremote]
      change c'.eofs + c.toClient.ops.length + half'.ops.length = 2
      omega
    · cases d with
      | toClient =>
        change c'.toClient.Within _ _
        rw [hclient]
        exact h.within .toClient
      | toRemote =>
        change c'.toRemote.Within _ _
        rw [hremote]
        exact hwithin

/-- An operation outside the relay is in flight: there is no relay. -/
theorem Accounts.connecting (h : Accounts leadClient leadRemote maxLength c) {op : CopierOp}
    (hop : op ∈ c.ops) : Connecting maxLength c := by
  refine h.phase.resolve_right fun hrelaying => ?_
  rw [hrelaying.ops] at hop
  cases hop

theorem accounts_step {next : Stage → Copier → Copier} (hnext : Continues next)
    {e : CopierEvent} (h : Accounts leadClient leadRemote maxLength c)
    (hstep : c.step next e = some c') : Accounts leadClient leadRemote maxLength c' := by
  refine ⟨inv_step hnext h.inv hstep, ?_⟩
  cases e with
  | resolved host port ok =>
    obtain ⟨hop, rfl⟩ := Machine.taken hstep
    refine Or.inl ((h.connecting hop).congr ?_ fun dir => ?_)
    · cases ok <;> rfl
    · cases ok <;> cases dir <;> exact ⟨rfl, rfl, rfl⟩
  | connectFailed =>
    obtain ⟨hop, rfl⟩ := Machine.taken hstep
    exact Or.inl ((h.connecting hop).congr rfl fun dir => by
      cases dir <;> exact ⟨rfl, rfl, rfl⟩)
  | accepted stage rest count =>
    obtain ⟨⟨hop, -, -⟩, rfl⟩ := Machine.taken hstep
    refine Or.inl ((h.connecting hop).congr ?_ fun dir => ?_)
    · cases stage <;> rfl
    · cases stage <;> cases dir <;> exact ⟨rfl, rfl, rfl⟩
  | wrote stage =>
    obtain ⟨hop, rfl⟩ := Machine.taken hstep
    have hconnecting := h.connecting hop
    rcases hnext stage (c.finish (.asyncWrite stage [])) with ⟨-, hgo⟩ | ⟨rfl, hgo⟩ | hgo
    · rw [hgo]
      exact Or.inl (hconnecting.congr rfl fun dir => by cases dir <;> exact ⟨rfl, rfl, rfl⟩)
    · rw [hgo]
      exact Or.inr (hconnecting.startRelay h.inv hop)
    · rw [hgo]
      exact Or.inl (hconnecting.congr rfl fun dir => by cases dir <;> exact ⟨rfl, rfl, rfl⟩)
  | writeFailed stage rest =>
    obtain ⟨hop, rfl⟩ := Machine.taken hstep
    exact Or.inl ((h.connecting hop).congr rfl fun dir => by
      cases dir <;> exact ⟨rfl, rfl, rfl⟩)
  | relay dir e =>
    rcases h.phase with hconnecting | hrelaying
    · obtain ⟨half', hhalf, -⟩ := stepRelay_eq_some hstep
      exact absurd (hconnecting.idle dir).1 (Half.ops_of_step hhalf)
    · exact Or.inr (hrelaying.step hstep)

/-- What a client and a remote can see of the accounts. Before the relay nothing has been read
and `do_eof` has not been called. In the relay it has been called once for each direction that
has ended; each direction has one operation at most, writes its lead and then what it reads, and
has never read more than its buffer holds beyond what it has written. -/
def Balanced (leadClient leadRemote : Text) (maxLength : Nat) (c : Copier) : Prop :=
  (c.eofs = 0 ∧ ∀ dir, (c.half dir).ops = [] ∧ (c.half dir).fetched = []) ∨
  (c.ops = [] ∧ c.eofs + c.toClient.ops.length + c.toRemote.ops.length = 2 ∧
    ∀ dir, (c.half dir).ops.length ≤ 1 ∧
      (c.half dir).written <+: lead leadClient leadRemote dir ++ (c.half dir).fetched ∧
      (lead leadClient leadRemote dir).length + (c.half dir).fetched.length ≤
        (c.half dir).written.length + maxLength)

theorem Accounts.balanced (h : Accounts leadClient leadRemote maxLength c) :
    Balanced leadClient leadRemote maxLength c := by
  rcases h.phase with hconnecting | hrelaying
  · exact Or.inl ⟨hconnecting.eofs, hconnecting.idle⟩
  · refine Or.inr ⟨hrelaying.ops, hrelaying.ends, fun dir => ?_⟩
    have hwithin := hrelaying.within dir
    exact ⟨hwithin.inv.ops_le, hwithin.inv.ordered, hwithin.le⟩

theorem connecting_init (maxLength : Nat) (req : Request) (buffer : Text) :
    Connecting maxLength (init maxLength req buffer) where
  eofs := rfl
  idle dir := by cases dir <;> exact ⟨rfl, rfl⟩
  room dir := by cases dir <;> exact List.length_replicate

end Copier

/-! The tunnel: nothing precedes what is relayed to the remote. -/

namespace SocketCopier

variable {maxLength : Nat} {c c' : Copier}

theorem accounts_start {buffer : Text} {req : Request} (hlen : req.target.length < 2 ^ 31)
    (hstart : start (new maxLength buffer req) = .ok c) : c.Accounts ok200 [] maxLength := by
  refine ⟨(inv_start hlen hstart).1, Or.inl ?_⟩
  by_cases hcolon : ':' ∈ req.target
  · rw [start_of_mem hlen hcolon] at hstart
    cases hstart
    exact (Copier.connecting_init maxLength req []).congr rfl fun dir => by
      cases dir <;> exact ⟨rfl, rfl, rfl⟩
  · rw [start_of_notMem hcolon] at hstart
    cases hstart
    exact Copier.connecting_init maxLength req []

/-- What the client gets in front of the relay is as long as the 200 response. -/
theorem accounts_step {e : SocketCopierEvent}
    (h : (∃ lead, lead.length = ok200.length ∧ c.Accounts lead [] maxLength) ∧ c.buffer = [])
    (hstep : step c e = some c') :
    (∃ lead, lead.length = ok200.length ∧ c'.Accounts lead [] maxLength) ∧ c'.buffer = [] := by
  obtain ⟨⟨lead, hlength, haccounts⟩, hbuffer⟩ := h
  cases e with
  | connected count stale =>
    obtain ⟨⟨hop, hcount⟩, rfl⟩ := Machine.taken hstep
    refine ⟨⟨ok200.take count ++ stale, ?_, inv_connected haccounts.inv hbuffer hop count stale,
      Or.inl ?_⟩, hbuffer⟩
    · rw [List.length_append, List.length_take]
      omega
    · exact (haccounts.connecting hop).congr rfl fun dir => by
        cases dir <;> exact ⟨rfl, rfl, rfl⟩
  | shared e =>
    refine ⟨⟨lead, hlength, Copier.accounts_step next_continues haccounts hstep⟩, ?_⟩
    rw [(Copier.step_frame next_continues hstep).2]
    exact hbuffer

theorem balanced_of_run {buffer : Text} {req : Request} {es : List SocketCopierEvent}
    (hlen : req.target.length < 2 ^ 31) (hstart : start (new maxLength buffer req) = .ok c)
    (hrun : machine.run c es = some c') :
    ∃ lead, lead.length = ok200.length ∧ c'.Balanced lead [] maxLength := by
  have hinv := Machine.run_invariant
    (I := fun c : Copier =>
      (∃ lead, lead.length = ok200.length ∧ c.Accounts lead [] maxLength) ∧ c.buffer = [])
    (fun _ _ _ h hstep => accounts_step h hstep)
    ⟨⟨ok200, rfl, accounts_start hlen hstart⟩, (inv_start hlen hstart).2⟩ hrun
  obtain ⟨⟨lead, hlength, haccounts⟩, -⟩ := hinv
  exact ⟨lead, hlength, haccounts.balanced⟩

end SocketCopier

namespace HttpCopier

variable {maxLength : Nat} {beast : Beast} {urls : BoostUrl} {req : Request} {buffer : Text}
  {c c' : Copier}

theorem accounts_step {e : HttpCopierEvent}
    (h : Inv beast req buffer c ∧ c.Accounts [] (beast.serialize req ++ buffer) maxLength)
    (hstep : step beast c e = some c') :
    Inv beast req buffer c' ∧ c'.Accounts [] (beast.serialize req ++ buffer) maxLength := by
  have hinv := inv_step h.1 hstep
  cases e with
  | connected =>
    obtain ⟨hop, rfl⟩ := Machine.taken hstep
    refine ⟨hinv, hinv.1, Or.inl ?_⟩
    exact (h.2.connecting hop).congr rfl fun dir => by cases dir <;> exact ⟨rfl, rfl, rfl⟩
  | shared e => exact ⟨hinv, Copier.accounts_step next_continues h.2 hstep⟩

theorem balanced_of_run {es : List HttpCopierEvent}
    (hstart : start urls (new maxLength req buffer) = .ok c)
    (hrun : (machine beast).run c es = some c') :
    c'.Balanced [] (beast.serialize c.req ++ buffer) maxLength := by
  have hinv : Inv beast c.req buffer c := inv_start hstart
  have haccounts : c.Accounts [] (beast.serialize c.req ++ buffer) maxLength := by
    refine ⟨hinv.1, Or.inl ?_⟩
    unfold start at hstart
    split at hstart
    · cases hstart
    · cases hstart
      exact (Copier.connecting_init maxLength req buffer).congr rfl fun dir => by
        cases dir <;> exact ⟨rfl, rfl, rfl⟩
  exact (Machine.run_invariant
    (I := fun d : Copier => Inv beast c.req buffer d ∧
      d.Accounts [] (beast.serialize c.req ++ buffer) maxLength)
    (fun _ _ _ h hstep => accounts_step h hstep) ⟨hinv, haccounts⟩ hrun).2.balanced

end HttpCopier

namespace Copier

/-- The relay of either class is balanced in every run. In front of it the client of a tunnel
gets as many bytes as the 200 response has, and the remote of an `http_copier` the request and
what was behind its header. -/
theorem relay_balanced (maxLength : Nat) (buffer : Text) {req : Request} (urls : BoostUrl)
    (beast : Beast) (hlen : req.target.length < 2 ^ 31) :
    (∀ c es c', SocketCopier.start (SocketCopier.new maxLength buffer req) = .ok c →
      SocketCopier.machine.run c es = some c' →
        ∃ lead, lead.length = ok200.length ∧ c'.Balanced lead [] maxLength) ∧
    ∀ c es c', HttpCopier.start urls (HttpCopier.new maxLength req buffer) = .ok c →
      (HttpCopier.machine beast).run c es = some c' →
        c'.Balanced [] (beast.serialize c.req ++ buffer) maxLength :=
  ⟨fun _ _ _ hstart hrun => SocketCopier.balanced_of_run hlen hstart hrun,
    fun _ _ _ hstart hrun => HttpCopier.balanced_of_run hstart hrun⟩

theorem relay_balanced_request : ∃ c c',
    HttpCopier.start BoostUrl.plain (HttpCopier.new 2 HttpCopier.absoluteRequest ['x', 'y']) =
      .ok c ∧
    (HttpCopier.machine (Beast.plain [])).run c HttpCopier.relayRequest = some c' ∧
    c'.ops = [] ∧ c'.Balanced [] ((Beast.plain []).serialize c.req ++ ['x', 'y']) 2 := by
  have hevaluates : ((HttpCopier.start BoostUrl.plain
      (HttpCopier.new 2 HttpCopier.absoluteRequest ['x', 'y'])).toOption.any fun c =>
        ((HttpCopier.machine (Beast.plain [])).run c HttpCopier.relayRequest).any
          fun c' => c'.ops == []) = true := by decide +kernel
  cases hstart : HttpCopier.start BoostUrl.plain
      (HttpCopier.new 2 HttpCopier.absoluteRequest ['x', 'y']) with
  | error e =>
    rw [hstart] at hevaluates
    cases hevaluates
  | ok c =>
    rw [hstart] at hevaluates
    obtain ⟨c', hrun, htest⟩ := Machine.run_of_any _ _ _ _ hevaluates
    have hlen : HttpCopier.absoluteRequest.target.length < 2 ^ 31 := by decide
    have hbalanced := (relay_balanced 2 ['x', 'y'] BoostUrl.plain (Beast.plain []) hlen).2
    exact ⟨c, c', rfl, hrun, beq_iff_eq.mp htest, hbalanced c _ c' hstart hrun⟩

end Copier

/-! ## `tcp_connection` -/

namespace TcpConnection

variable {s s' : TcpConnection}

/-- Without the debug path both loops are relays. -/
structure Bounded (s : TcpConnection) : Prop where
  passes : PassThrough s
  within : ∀ dir, (s.half dir).Within [] maxLength

theorem Bounded.step {e : TcpEvent} (h : Bounded s) (hstep : s.step e = some s') : Bounded s' := by
  have hpasses := h.passes.step hstep
  refine ⟨hpasses, fun dir => ?_⟩
  rcases h.passes.step_cases hstep with ⟨ok, -, -, rfl⟩ | ⟨d, e', -, -, hloop⟩
  · have hwithin := h.within dir
    cases ok <;> cases dir <;> exact ⟨hpasses.loop _, hwithin.room, hwithin.le⟩
  · rcases dir.eq_or_other d with rfl | rfl
    · exact (h.within dir).step hloop.step
    · rw [hloop.other]
      exact h.within d.other

theorem bounded_start : Bounded (start false) where
  passes := .start
  within dir := by
    cases dir <;> exact ⟨PassThrough.start.loop _, List.length_replicate, Nat.zero_le _⟩

/-- In debug mode, when `count` bytes without a line feed have been read. -/
structure Collecting (count : Nat) (s : TcpConnection) : Prop where
  ready : Ready s
  buffer : s.requestBuffer = List.replicate count 'a'
  fetched : s.toProxy.fetched.length = count
  written : s.toProxy.written = []

theorem not_complete (count : Nat) :
    hasCompleteHttpRequest (List.replicate count 'a') = false := by
  rw [hasCompleteHttpRequest, ← Bool.not_eq_true, Text.contains_iff]
  intro hblank
  have hmem : '\n' ∈ List.replicate count 'a' := hblank.subset (by decide)
  cases List.eq_of_mem_replicate hmem

/-- One more byte is read, and collected. -/
theorem Collecting.read {count : Nat} (h : Collecting count s) :
    ∃ s', s.step (.client (.read ['a'])) = some s' ∧ Collecting (count + 1) s' := by
  have hop : .asyncReadSome ∈ s.toProxy.ops := by
    rw [h.ready.reading]
    exact List.mem_cons_self
  have hroom : ['a'].length ≤ s.toProxy.buffer.length := by
    rw [h.ready.room]
    decide
  have hstep : s.step (.client (.read ['a'])) = some ({ s with
      toProxy := (s.toProxy.finish .asyncReadSome).fill ['a']
      withheld := s.withheld ++ ['a'] }.onReadClient ['a'].length) :=
    if_pos ⟨hop, List.cons_ne_nil _ _, hroom⟩
  have hmore : s.requestBuffer ++ ['a'] = List.replicate (count + 1) 'a' := by
    rw [h.buffer, List.replicate_succ']
  have hread := onReadClient_debug (s := { s with
    toProxy := (s.toProxy.finish .asyncReadSome).fill ['a']
    withheld := s.withheld ++ ['a'] }) h.ready.mode h.ready.state
    (show (['a'] ++ _).take ['a'].length = ['a'] from List.take_left)
  have hincomplete : ¬hasCompleteHttpRequest (List.replicate (count + 1) 'a') = true := by
    rw [not_complete]
    exact Bool.false_ne_true
  rw [hread, hmore, if_neg hincomplete] at hstep
  refine ⟨_, hstep, ⟨h.ready.mode, h.ready.state, ?_, ?_, h.ready.idle, h.ready.isOpen⟩, rfl, ?_,
    h.written⟩
  · simp [doReadClient, Half.doRelay, Half.fill, Half.finish, h.ready.reading]
  · have hold : s.toProxy.buffer.length = maxLength := h.ready.room
    simp only [doReadClient, Half.doRelay, Half.fill, Half.finish, List.length_append,
      List.length_drop]
    rw [hold]
    decide
  · simp only [doReadClient, Half.doRelay, Half.fill, Half.finish, List.length_append, h.fetched]
    rfl

theorem exists_collecting (count : Nat) : ∃ es s,
    machine.run (start true) es = some s ∧ Collecting count s := by
  induction count with
  | zero =>
    exact ⟨[.connected true], _, rfl, ⟨rfl, rfl, rfl, List.length_replicate, rfl, rfl⟩, rfl, rfl,
      rfl⟩
  | succ count ih =>
    obtain ⟨es, s, hrun, h⟩ := ih
    obtain ⟨s', hstep, h'⟩ := h.read
    have hlast : machine.run s [.client (.read ['a'])] = some s' :=
      Machine.run_cons_eq_some.mpr ⟨s', hstep, rfl⟩
    exact ⟨_, s', Machine.run_append hrun hlast, h'⟩

/-- What a connection has read and not written is bounded over all runs exactly without the
debug mode. -/
theorem bounded_iff (debugMode : Bool) :
    (∃ limit, ∀ es s, machine.run (start debugMode) es = some s → ∀ dir,
      (s.half dir).fetched.length ≤ (s.half dir).written.length + limit) ↔ debugMode = false := by
  constructor
  · rintro ⟨limit, hbound⟩
    by_contra hmode
    rw [Bool.not_eq_false] at hmode
    subst hmode
    obtain ⟨es, s, hrun, h⟩ := exists_collecting (limit + 1)
    have hle := hbound es s hrun .toRemote
    change s.toProxy.fetched.length ≤ s.toProxy.written.length + limit at hle
    rw [h.fetched, h.written, List.length_nil] at hle
    omega
  · rintro rfl
    refine ⟨maxLength, fun es s hrun dir => ?_⟩
    have h := Machine.run_invariant (I := Bounded) (fun _ _ _ h hstep => h.step hstep)
      bounded_start hrun
    have hle := (h.within dir).le
    rwa [List.length_nil, Nat.zero_add] at hle

end TcpConnection

end ServerAsync
