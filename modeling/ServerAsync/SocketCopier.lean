import ServerAsync.CopierInvariant

/-!
# `socket_copier`

The tunnel behind a CONNECT request. After the connect it answers the client with
a 200 response and then relays. The bytes the session had already read past the
CONNECT header are not among what it writes to the remote, see `new`.
-/

namespace ServerAsync

open Misc Text

/-- The response that `start` hands to `write200ok_to_client`. -/
def ok200 : Text := "HTTP/1.1 200 OK\r\nConnection: keep-alive\r\n\r\n".toList

/-- The events of a `socket_copier`. The string that `connected` writes is a
temporary, which is gone when the call that starts the write returns: of the
response only the `count` bytes that this call sent are certain, and what follows
is whatever `stale` bytes the memory holds. -/
inductive SocketCopierEvent where
  | connected (count : Nat) (stale : Text)
  | shared (e : CopierEvent)

namespace SocketCopier

/-- The constructor. Its parameter `buffer_` has the name of the member, and the
initialiser list has no entry for the member, which starts empty. -/
def new (maxLength : Nat) (_buffer : Text) (req : Request) : Copier := .init maxLength req []

/-- `start`: split the target at its first colon and resolve. Without a colon
nothing is started. -/
def start (c : Copier) : Except Exn Copier := do
  let deliminator := toInt (c.req.target.find ':')
  if toSize deliminator = npos then
    return c
  let host ← c.req.target.substr 0 (toSize deliminator)
  let port ← c.req.target.substr (toSize (deliminator + 1)) npos
  return c.begin (.asyncResolve host port)

/-- `write200ok_to_client`. -/
def write200okToClient (c : Copier) (response : Text) (count : Nat) (stale : Text) : Copier :=
  (c.deliver .toClient (response.take count)).begin (.asyncWrite .response stale)

/-- The handlers of the two writes. -/
def next : Stage → Copier → Copier
  | .response, c => c.writeUnconsumed
  | .request, c => c
  | .unconsumed, c => c.startRelay

def step (c : Copier) : SocketCopierEvent → Option Copier
  | .connected count stale =>
    if .asyncConnect ∈ c.ops ∧ count + stale.length = ok200.length then
      some (write200okToClient (c.finish .asyncConnect) ok200 count stale)
    else none
  | .shared e => c.step next e

/-- A `socket_copier` as a machine. -/
def machine : Machine Copier SocketCopierEvent where
  step := step

/-! ## `start` -/

theorem start_of_mem {c : Copier} (hlen : c.req.target.length < 2 ^ 31)
    (hcolon : ':' ∈ c.req.target) :
    start c = .ok (c.begin (.asyncResolve (c.req.target.take (c.req.target.find ':'))
      (c.req.target.drop (c.req.target.find ':' + 1)))) := by
  have hfind := find_of_mem hcolon
  have hsize : toSize (toInt (c.req.target.find ':')) = c.req.target.find ':' :=
    toSize_toInt (by omega)
  have hsucc : toSize (toInt (c.req.target.find ':') + 1) = c.req.target.find ':' + 1 :=
    toSize_toInt_succ (by omega)
  have hnpos : c.req.target.length < npos := by
    unfold npos
    omega
  have hne : c.req.target.find ':' ≠ npos := by omega
  unfold start
  simp only [hsize, hsucc, if_neg hne, substr_ok (Nat.zero_le _),
    substr_npos hfind (Nat.le_of_lt hnpos), List.drop_zero]
  rfl

theorem start_of_notMem {c : Copier} (hcolon : ':' ∉ c.req.target) : start c = .ok c := by
  unfold start
  rw [find_of_notMem hcolon]
  simp only [toSize_toInt_npos, if_true]
  rfl

/-- No target that fits in a header makes `start` throw. -/
theorem start_ok {c : Copier} (hlen : c.req.target.length < 2 ^ 31) : ∃ c', start c = .ok c' := by
  by_cases hcolon : ':' ∈ c.req.target
  · exact ⟨_, start_of_mem hlen hcolon⟩
  · exact ⟨_, start_of_notMem hcolon⟩

/-! ## Runs -/

theorem next_continues : Copier.Continues next := by
  intro stage c
  cases stage with
  | response => exact Or.inl ⟨by simp, rfl⟩
  | request => exact Or.inr (Or.inr rfl)
  | unconsumed => exact Or.inr (Or.inl ⟨rfl, rfl⟩)

/-- The call that starts the 200 response sends all of it, so that nothing is read
from the string later. -/
def SentWhole (_ : Copier) : SocketCopierEvent → Prop
  | .connected count _ => count = ok200.length
  | .shared _ => True

/-- The 200 response is what the client gets first, and nothing precedes what is
relayed to the remote. -/
def Inv (c : Copier) : Prop := c.Inv ok200 [] ∧ c.buffer = []

/-- The client is to get what the call that starts the 200 response sends, and what
the memory holds later. -/
theorem inv_connected {lead : Text} {c : Copier} (hinv : c.Inv lead []) (hbuffer : c.buffer = [])
    (hop : .asyncConnect ∈ c.ops) (count : Nat) (stale : Text) :
    (write200okToClient (c.finish .asyncConnect) ok200 count stale).Inv
      (ok200.take count ++ stale) [] := by
  obtain ⟨hclientOps, hremoteOps, hclientIn, hremoteIn⟩ := hinv.staging (List.ne_nil_of_mem hop)
  obtain ⟨hclient, hremote⟩ := hinv.connecting (Or.inr hop)
  have hwritten : (write200okToClient (c.finish .asyncConnect) ok200 count
      stale).toClient.written = ok200.take count := by
    change c.toClient.written ++ ok200.take count = _
    rw [hclient, List.nil_append]
  constructor
  · simp [write200okToClient, hinv.ops_eq hop]
  · exact fun _ => ⟨hclientOps, hremoteOps, hclientIn, hremoteIn⟩
  · intro hmem
    simp [write200okToClient, hinv.ops_eq hop] at hmem
  · intro stage rest hmem
    simp only [write200okToClient, Copier.begin_frame, Copier.deliver_frame,
      Copier.finish_frame, hinv.ops_eq hop, List.erase_cons_head, List.nil_append,
      List.mem_singleton, CopierOp.asyncWrite.injEq] at hmem
    obtain ⟨rfl, rfl⟩ := hmem
    refine ⟨?_, ?_⟩
    · rw [hwritten]
      rfl
    · change c.toRemote.written ++ c.buffer = []
      rw [hremote, hbuffer, List.append_nil]
  · refine .of_idle hclientOps ?_
    rw [hwritten, List.append_assoc]
    exact List.prefix_append _ _
  · refine .of_idle hremoteOps ?_
    change c.toRemote.written <+: _
    rw [hremote]
    exact List.nil_prefix

theorem Inv.connected {c : Copier} (h : Inv c) (hop : .asyncConnect ∈ c.ops) :
    Inv (write200okToClient (c.finish .asyncConnect) ok200 ok200.length []) := by
  obtain ⟨hinv, hbuffer⟩ := h
  have hconnected := inv_connected hinv hbuffer hop ok200.length []
  rw [List.take_length, List.append_nil] at hconnected
  exact ⟨hconnected, hbuffer⟩

theorem inv_step {c c' : Copier} {e : SocketCopierEvent} (h : Inv c) (hwhole : SentWhole c e)
    (hstep : step c e = some c') : Inv c' := by
  cases e with
  | connected count stale =>
    rcases Machine.taken hstep with ⟨⟨hop, hlen⟩, rfl⟩
    change count = ok200.length at hwhole
    subst hwhole
    have hstale : stale = [] := List.length_eq_zero_iff.mp (by omega)
    subst hstale
    exact h.connected hop
  | shared e =>
    refine ⟨Copier.inv_step next_continues h.1 hstep, ?_⟩
    rw [(Copier.step_frame next_continues hstep).2]
    exact h.2

theorem inv_run {c c' : Copier} {es : List SocketCopierEvent} (h : Inv c)
    (hwhole : machine.Meets SentWhole c es) (hrun : machine.run c es = some c') : Inv c' :=
  Machine.run_invariant_of_meets (I := Inv) (fun _ _ _ hc hp hstep => inv_step hc hp hstep)
    h hwhole hrun

/-- A started copier has written nothing. -/
theorem inv_start {maxLength : Nat} {buffer : Text} {req : Request} {c : Copier}
    (hlen : req.target.length < 2 ^ 31) (hstart : start (new maxLength buffer req) = .ok c) :
    Inv c := by
  by_cases hcolon : ':' ∈ req.target
  · rw [start_of_mem hlen hcolon] at hstart
    cases hstart
    exact ⟨(Copier.inv_init maxLength req []).beginResolve rfl ⟨rfl, rfl, rfl, rfl⟩
      ⟨rfl, rfl⟩ _ _, rfl⟩
  · rw [start_of_notMem hcolon] at hstart
    cases hstart
    exact ⟨Copier.inv_init maxLength req [], rfl⟩

/-- Without the condition on the 200 response, the client still gets something before
what is relayed, and the remote nothing. -/
theorem exists_lead {c c' : Copier} {es : List SocketCopierEvent} (h : Inv c)
    (hrun : machine.run c es = some c') : ∃ lead, c'.Inv lead [] := by
  have hinv := Machine.run_invariant
    (I := fun c : Copier => (∃ lead, c.Inv lead []) ∧ c.buffer = []) ?_
    ⟨⟨ok200, h.1⟩, h.2⟩ hrun
  · exact hinv.1
  · rintro c e c' ⟨⟨lead, hlead⟩, hbuffer⟩ hstep
    cases e with
    | connected count stale =>
      rcases Machine.taken hstep with ⟨⟨hop, -⟩, rfl⟩
      exact ⟨⟨_, inv_connected hlead hbuffer hop count stale⟩, hbuffer⟩
    | shared e =>
      refine ⟨⟨lead, Copier.inv_step next_continues hlead hstep⟩, ?_⟩
      rw [(Copier.step_frame next_continues hstep).2]
      exact hbuffer

/-! ## What the remote gets -/

/-- What a tunnel is for: the remote gets what the client sent after its request,
and the client the 200 response and then what the remote sent. `unconsumed` are
the bytes that had been read with the request. -/
def Faithful (unconsumed : Text) (c : Copier) : Prop :=
  c.toRemote.written <+: unconsumed ++ c.toRemote.fetched ∧
    c.toClient.written <+: ok200 ++ c.toClient.fetched

/-- A copier without any operation stays as it is. -/
theorem idle_step {c c' : Copier} {e : SocketCopierEvent} (hops : c.ops = [])
    (hclient : c.toClient.ops = []) (hremote : c.toRemote.ops = []) : step c e ≠ some c' := by
  intro hstep
  cases e with
  | connected count stale => simp [step, hops] at hstep
  | shared e =>
    cases e with
    | relay dir e =>
      have hrelay : c.stepRelay dir e = some c' := hstep
      obtain ⟨half', hhalf, -⟩ := Copier.stepRelay_eq_some hrelay
      cases dir with
      | toClient => exact Half.ops_of_step hhalf hclient
      | toRemote => exact Half.ops_of_step hhalf hremote
    | _ => simp [step, Copier.step, hops] at hstep

/-- Nothing runs for a target without a colon. -/
theorem run_of_notMem {maxLength : Nat} {buffer : Text} {req : Request} {c c' : Copier}
    (hcolon : ':' ∉ req.target) (hstart : start (new maxLength buffer req) = .ok c)
    {es : List SocketCopierEvent} (hrun : machine.run c es = some c') :
    c' = .init maxLength req [] := by
  rw [start_of_notMem hcolon] at hstart
  cases hstart
  refine Machine.run_invariant (I := fun d => d = .init maxLength req []) ?_ rfl hrun
  rintro d e d' rfl hstep
  exact absurd hstep (idle_step rfl rfl rfl)

/-- The run of a tunnel up to the first byte it relays to the remote. -/
def relayOne (host port : Text) (x : Char) : List SocketCopierEvent :=
  [.shared (.resolved host port true), .connected ok200.length [], .shared (.wrote .response),
    .shared (.wrote .unconsumed), .shared (.relay .toRemote (.read [x])),
    .shared (.relay .toRemote (.accepted 0 1 1))]

/-- The first byte the remote gets is the first that the relay reads. -/
theorem run_relayOne {maxLength : Nat} (hmax : 0 < maxLength) (req : Request)
    (host port : Text) (x : Char) : ∃ c',
      machine.run ((Copier.init maxLength req []).begin (.asyncResolve host port))
        (relayOne host port x) = some c' ∧
      c'.toRemote.written = [x] ∧ c'.toRemote.fetched = [x] := by
  have hbytes : 1 ≤ maxLength := hmax
  have hends : (machine.run ((Copier.init maxLength req []).begin (.asyncResolve host port))
      (relayOne host port x)).map (fun c => (c.toRemote.written, c.toRemote.fetched)) =
        some ([x], [x]) := by
    simp [relayOne, Machine.run_cons, machine, step, Copier.step, Copier.init, Copier.begin,
      Copier.finish, write200okToClient, Copier.deliver, Copier.setHalf, Copier.half, next,
      Copier.writeUnconsumed, Copier.startRelay, Copier.stepRelay, Half.step, Half.idle,
      Half.doRelay, Half.finish, Half.onRead, Half.send, hbytes, Copier.callsEof]
  obtain ⟨c', hrun, hpair⟩ := Option.map_eq_some_iff.mp hends
  rw [Prod.mk.injEq] at hpair
  exact ⟨c', hrun, hpair.1, hpair.2⟩

theorem relayOne_sentWhole (c : Copier) (host port : Text) (x : Char) :
    machine.Meets SentWhole c (relayOne host port x) := by
  simp [relayOne, Machine.meets_cons, SentWhole]

/-- A started tunnel is faithful in every run in which the 200 response leaves at
once, unless the session had read bytes beyond the request. -/
theorem faithful_iff {maxLength : Nat} {buffer : Text} {req : Request} {c : Copier}
    (hmax : 0 < maxLength) (hlen : req.target.length < 2 ^ 31)
    (hstart : start (new maxLength buffer req) = .ok c) :
    (∀ es c', machine.Meets SentWhole c es → machine.run c es = some c' → Faithful buffer c') ↔
      buffer = [] ∨ ':' ∉ req.target := by
  constructor
  · intro hall
    cases hbuffer : buffer with
    | nil => exact Or.inl rfl
    | cons b rest =>
      right
      intro hcolon
      rw [start_of_mem hlen hcolon] at hstart
      cases hstart
      -- the client goes on with a byte other than the one that got lost
      obtain ⟨x, hx⟩ : ∃ x : Char, x ≠ b := by
        by_cases ha : b = 'a'
        · exact ⟨'b', by rw [ha]; decide⟩
        · exact ⟨'a', fun h => ha h.symm⟩
      obtain ⟨c', hrun, hwritten, hfetched⟩ := run_relayOne hmax req _ _ x
      have hpre := (hall _ c' (relayOne_sentWhole _ _ _ x) hrun).1
      rw [hwritten, hfetched, hbuffer, List.cons_append, List.cons_prefix_cons] at hpre
      exact hx hpre.1
  · rintro (rfl | hcolon) es c' hwhole hrun
    · have hinv := inv_run (inv_start hlen hstart) hwhole hrun
      exact ⟨hinv.1.remote.ordered, hinv.1.client.ordered⟩
    · rw [run_of_notMem hcolon hstart hrun]
      exact ⟨List.nil_prefix, List.nil_prefix⟩

end SocketCopier

end ServerAsync
