import ServerAsync.TcpPassThrough
import ServerAsync.Misc.Hosting

/-!
# `tcp_server`

The acceptor of `server-async-simple`. `start_accept` makes a connection and accepts into
it; once a client is there the connection is started, and the next one is made. When an
accept fails, no other follows.
-/

namespace ServerAsync

open Misc

/-- `tcp_server`. `accepts` counts the accepts in flight, each of them with the connection
it accepts into; `connections` are those that were started, in their order. -/
structure TcpServer where
  debugMode : Bool
  accepts : Nat
  connections : List TcpConnection

/-- The completions of the accepts, and the events of the connections. -/
inductive TcpServerEvent where
  | accepted
  | acceptFailed
  | connection (k : Nat) (e : TcpEvent)

/-- What an event is for a connection. -/
def TcpServerEvent.of (k : Nat) : TcpServerEvent → Option TcpEvent
  | .connection j e => if j = k then some e else none
  | _ => none

def TcpServerEvent.failsAccept : TcpServerEvent → Bool
  | .acceptFailed => true
  | _ => false

namespace TcpServer

/-- `start_accept`. -/
def startAccept (s : TcpServer) : TcpServer := { s with accepts := s.accepts + 1 }

/-- The constructor. -/
def new (debugMode : Bool) : TcpServer := startAccept ⟨debugMode, 0, []⟩

/-- The handler of `start_accept` without an error. -/
def onAccept (s : TcpServer) : TcpServer :=
  { s with connections := s.connections ++ [TcpConnection.start s.debugMode] }.startAccept

/-- The reaction to an event, `none` when it cannot happen. -/
def step (s : TcpServer) : TcpServerEvent → Option TcpServer
  | .accepted => if 0 < s.accepts then some { s with accepts := s.accepts - 1 }.onAccept else none
  | .acceptFailed => if 0 < s.accepts then some { s with accepts := s.accepts - 1 } else none
  | .connection k e =>
    (s.connections[k]?).bind fun c =>
      (c.step e).map fun c' => { s with connections := s.connections.set k c' }

/-- A server as a machine. -/
def machine : Machine TcpServer TcpServerEvent := ⟨step⟩

theorem step_connection {s t : TcpServer} {k : Nat} {e : TcpEvent} :
    s.step (.connection k e) = some t ↔ ∃ c c', s.connections[k]? = some c ∧
      c.step e = some c' ∧ t = { s with connections := s.connections.set k c' } := by
  constructor
  · intro hstep
    obtain ⟨c, hc, hreact⟩ := Option.bind_eq_some_iff.mp hstep
    obtain ⟨c', hc', rfl⟩ := Option.map_eq_some_iff.mp hreact
    exact ⟨c, c', hc, hc', rfl⟩
  · rintro ⟨c, c', hc, hc', rfl⟩
    exact Option.bind_eq_some_iff.mpr ⟨c, hc, Option.map_eq_some_iff.mpr ⟨c', hc', rfl⟩⟩

/-! ## Every connection is one of its own -/

/-- Each connection is started in the mode of the server. -/
theorem hosts (debugMode : Bool) :
    Hosts machine TcpConnection.machine (fun s => s.debugMode = debugMode)
      (fun _ => True) (fun s k => s.connections[k]?) TcpServerEvent.of .connection
      (fun c => c = TcpConnection.start debugMode) := by
  refine Hosts.ofList ?_ ?_ ?_
  · intro s e t hmode hstep
    cases e with
    | accepted =>
      obtain ⟨-, rfl⟩ := Machine.taken hstep
      exact hmode
    | acceptFailed =>
      obtain ⟨-, rfl⟩ := Machine.taken hstep
      exact hmode
    | connection k e =>
      obtain ⟨c, c', -, -, rfl⟩ := step_connection.mp hstep
      exact hmode
  · intro s e t hstep
    cases e with
    | accepted =>
      obtain ⟨-, rfl⟩ := Machine.taken hstep
      exact Or.inl ⟨fun _ => rfl,
        Or.inr ⟨TcpConnection.start s.debugMode, congrArg TcpConnection.start, rfl⟩⟩
    | acceptFailed =>
      obtain ⟨-, rfl⟩ := Machine.taken hstep
      exact Or.inl ⟨fun _ => rfl, Or.inl rfl⟩
    | connection k e =>
      obtain ⟨c, c', hc, hc', rfl⟩ := step_connection.mp hstep
      exact Or.inr ⟨k, e, c, c', fun _ => rfl, hc, hc', rfl⟩
  · intro s k b d c hb hc
    exact ⟨_, step_connection.mpr ⟨b, c, hb, hc, rfl⟩, rfl⟩

variable {s : TcpServer} {es : List TcpServerEvent}

/-- In every run of a server without debug mode, each connection passes on to either side
what it has read from the other, in order and once, whatever the other connections do; and
however they are, it can go on as it could alone, without changing them. -/
theorem connections_pass_through (hrun : machine.run (new false) es = some s) {k : Nat}
    {c : TcpConnection} (hc : s.connections[k]? = some c) :
    (∀ dir, (c.half dir).written <+:
      (es.filterMap (TcpServerEvent.of k)).flatMap (TcpEvent.bytes dir)) ∧
    ∀ ds c', TcpConnection.machine.run c ds = some c' →
      ∃ t, machine.run s (ds.map (.connection k)) = some t ∧ t.connections[k]? = some c' ∧
        ∀ j, j ≠ k → t.connections[j]? = s.connections[j]? := by
  refine ⟨fun dir => ?_, fun ds c' hds => (hosts false).goesOn trivial hc hds⟩
  obtain ⟨c₀, rfl, hown⟩ := (hosts false).run rfl (fun _ => rfl) hrun hc
  have hprogress := TcpConnection.progress_of_run hown
  rw [← hprogress.fetched]
  exact (hprogress.passes.loop dir).ordered

/-- Two clients, one of which is refused by the proxy server while the other's byte is
passed on. -/
def twoClients : List TcpServerEvent :=
  [.accepted, .connection 0 (.connected true), .accepted, .connection 0 (.client (.read ['q'])),
    .connection 1 (.connected false), .connection 0 (.client (.accepted 0 1 1))]

theorem connections_pass_through_two : ∃ s c, machine.run (new false) twoClients = some s ∧
    s.connections[0]? = some c ∧ c.toProxy.written = ['q'] ∧ c.toProxy.written <+: ['q'] := by
  obtain ⟨s, hrun, htest⟩ := Machine.run_of_any machine (new false) twoClients
    (fun s => (s.connections[0]?).any fun c => c.toProxy.written == ['q']) (by decide +kernel)
  rw [Option.any_eq_true] at htest
  obtain ⟨c, hc, hwritten⟩ := htest
  exact ⟨s, c, hrun, hc, beq_iff_eq.mp hwritten, (connections_pass_through hrun hc).1 .toRemote⟩

/-! ## How long clients are accepted -/

/-- An accept is in flight as long as none has failed, and then never more than one. -/
theorem accepts_eq {debugMode : Bool} (hrun : machine.run (new debugMode) es = some s) :
    s.accepts = if es.any TcpServerEvent.failsAccept then 0 else 1 := by
  refine Machine.run_history (R := fun past s =>
    s.accepts = if past.any TcpServerEvent.failsAccept then 0 else 1) ?_ rfl hrun
  intro past s e t hpast hstep
  have hany : (past ++ [e]).any TcpServerEvent.failsAccept =
      (past.any TcpServerEvent.failsAccept || e.failsAccept) := by simp
  rw [hany]
  cases e with
  | accepted =>
    obtain ⟨hpending, rfl⟩ := Machine.taken hstep
    change s.accepts - 1 + 1 = if (_ || false) = true then 0 else 1
    rw [Bool.or_false, ← hpast]
    exact Nat.sub_add_cancel hpending
  | acceptFailed =>
    obtain ⟨hpending, rfl⟩ := Machine.taken hstep
    change s.accepts - 1 = if (_ || true) = true then 0 else 1
    rw [Bool.or_true, if_pos rfl]
    split at hpast <;> omega
  | connection k e =>
    obtain ⟨c, c', -, -, rfl⟩ := step_connection.mp hstep
    change s.accepts = if (_ || false) = true then 0 else 1
    rw [Bool.or_false]
    exact hpast

/-- Without an accept in flight no connection comes in. -/
theorem deaf_step {t : TcpServer} {e : TcpServerEvent} (hdeaf : s.accepts = 0)
    (hstep : machine.step s e = some t) :
    t.accepts = 0 ∧ t.connections.length = s.connections.length := by
  cases e with
  | accepted =>
    obtain ⟨hpending, -⟩ := Machine.taken hstep
    omega
  | acceptFailed =>
    obtain ⟨hpending, -⟩ := Machine.taken hstep
    omega
  | connection k e =>
    obtain ⟨c, c', -, -, rfl⟩ := step_connection.mp hstep
    exact ⟨hdeaf, List.length_set⟩

/-- In every run, clients are accepted exactly until an accept fails: up to then the next
one can always be, and from then on no run gets another connection, although those that
are there go on. -/
theorem accepts_until_failure {debugMode : Bool}
    (hrun : machine.run (new debugMode) es = some s) :
    (es.any TcpServerEvent.failsAccept = false ↔ ∃ t, machine.step s .accepted = some t) ∧
    (es.any TcpServerEvent.failsAccept = true →
      (∀ fs t, machine.run s fs = some t → t.connections.length = s.connections.length) ∧
      ∀ k c e c', s.connections[k]? = some c → c.step e = some c' →
        ∃ t, machine.step s (.connection k e) = some t ∧ t.connections[k]? = some c') := by
  have haccepts := accepts_eq hrun
  constructor
  · constructor
    · intro hnone
      rw [hnone, if_neg Bool.false_ne_true] at haccepts
      exact ⟨_, if_pos (by omega)⟩
    · rintro ⟨t, hstep⟩
      obtain ⟨hpending, -⟩ := Machine.taken hstep
      by_contra hfailed
      rw [Bool.not_eq_false] at hfailed
      rw [hfailed, if_pos rfl] at haccepts
      omega
  · intro hfailed
    rw [hfailed, if_pos rfl] at haccepts
    refine ⟨fun fs t hmore => ?_, fun k c e c' hc hc' => ?_⟩
    · exact (Machine.run_invariant (I := fun t : TcpServer =>
        t.accepts = 0 ∧ t.connections.length = s.connections.length)
        (fun u e v hu hstep => ⟨(deaf_step hu.1 hstep).1, (deaf_step hu.1 hstep).2.trans hu.2⟩)
        ⟨haccepts, rfl⟩ hmore).2
    · obtain ⟨t, hstep, hpart, -⟩ := (hosts debugMode).hosted s k c e c' trivial hc hc'
      exact ⟨t, hstep, hpart⟩

/-- After a failed accept no second client gets in, and the first one is served. -/
theorem accepts_until_failure_one : ∃ s, machine.run (new true) [.accepted, .acceptFailed] =
      some s ∧ s.connections.length = 1 ∧
    ∀ fs t, machine.run s fs = some t → t.connections.length = s.connections.length := by
  obtain ⟨s, hrun, htest⟩ := Machine.run_of_any machine (new true) [.accepted, .acceptFailed]
    (fun s => s.connections.length == 1) (by decide +kernel)
  exact ⟨s, hrun, beq_iff_eq.mp htest, ((accepts_until_failure hrun).2 rfl).1⟩

end TcpServer

end ServerAsync
