import ServerAsync.ReverseProxyRuns
import ServerAsync.Misc.Hosting

/-!
# `ProxyServer`

The acceptor of the reverse proxy. The handler of `start_accept` calls it again whether the
accept has failed or not. So clients are accepted for ever, and as a session does not end
without a failure, none of those that were served is let go.
-/

namespace ServerAsync

open Misc

/-- `ProxyServer`. `accepts` counts the accepts in flight, and `sessions` are those that were
started, in their order. -/
structure ProxyServer where
  targetHost : Text
  accepts : Nat
  sessions : List ProxyServer.Session

/-- The completions of the accepts, and the events of the sessions. -/
inductive ProxyServerEvent where
  | accepted
  | acceptFailed
  | session (k : Nat) (e : ProxyServer.Event)

/-- What an event is for a session. -/
def ProxyServerEvent.of (k : Nat) : ProxyServerEvent → Option ProxyServer.Event
  | .session j e => if j = k then some e else none
  | _ => none

def ProxyServerEvent.accepts : ProxyServerEvent → Bool
  | .accepted => true
  | _ => false

namespace ProxyServer

/-- `start_accept`. -/
def startAccept (s : ProxyServer) : ProxyServer := { s with accepts := s.accepts + 1 }

/-- The constructor. -/
def new (targetHost : Text) : ProxyServer := startAccept ⟨targetHost, 0, []⟩

/-- The handler of `start_accept`. -/
def onAccept (s : ProxyServer) (failed : Bool) : ProxyServer :=
  (if failed then s
    else { s with sessions := s.sessions ++ [Session.start s.targetHost] }).startAccept

variable (lib : ResponseLib)

/-- The reaction to an event, `none` when it cannot happen. -/
def step (s : ProxyServer) : ProxyServerEvent → Option ProxyServer
  | .accepted =>
    if 0 < s.accepts then some ({ s with accepts := s.accepts - 1 }.onAccept false) else none
  | .acceptFailed =>
    if 0 < s.accepts then some ({ s with accepts := s.accepts - 1 }.onAccept true) else none
  | .session k e =>
    (s.sessions[k]?).bind fun c =>
      (c.step lib e).map fun c' => { s with sessions := s.sessions.set k c' }

/-- A server as a machine. -/
def machine : Machine ProxyServer ProxyServerEvent := ⟨step lib⟩

variable {lib}

theorem step_session {s t : ProxyServer} {k : Nat} {e : Event} :
    s.step lib (.session k e) = some t ↔ ∃ c c', s.sessions[k]? = some c ∧
      c.step lib e = some c' ∧ t = { s with sessions := s.sessions.set k c' } := by
  constructor
  · intro hstep
    obtain ⟨c, hc, hreact⟩ := Option.bind_eq_some_iff.mp hstep
    obtain ⟨c', hc', rfl⟩ := Option.map_eq_some_iff.mp hreact
    exact ⟨c, c', hc, hc', rfl⟩
  · rintro ⟨c, c', hc, hc', rfl⟩
    exact Option.bind_eq_some_iff.mpr ⟨c, hc, Option.map_eq_some_iff.mpr ⟨c', hc', rfl⟩⟩

/-- Each session is started with the target of the server. -/
theorem hosts (lib : ResponseLib) (targetHost : Text) :
    Hosts (machine lib) (Session.machine lib) (fun s => s.targetHost = targetHost)
      (fun _ => True) (fun s k => s.sessions[k]?) ProxyServerEvent.of .session
      (fun c => c = Session.start targetHost) := by
  refine Hosts.ofList ?_ ?_ ?_
  · intro s e t htarget hstep
    cases e with
    | accepted =>
      obtain ⟨-, rfl⟩ := Machine.taken hstep
      exact htarget
    | acceptFailed =>
      obtain ⟨-, rfl⟩ := Machine.taken hstep
      exact htarget
    | session k e =>
      obtain ⟨c, c', -, -, rfl⟩ := step_session.mp hstep
      exact htarget
  · intro s e t hstep
    cases e with
    | accepted =>
      obtain ⟨-, rfl⟩ := Machine.taken hstep
      exact Or.inl ⟨fun _ => rfl,
        Or.inr ⟨Session.start s.targetHost, congrArg Session.start, rfl⟩⟩
    | acceptFailed =>
      obtain ⟨-, rfl⟩ := Machine.taken hstep
      exact Or.inl ⟨fun _ => rfl, Or.inl rfl⟩
    | session k e =>
      obtain ⟨c, c', hc, hc', rfl⟩ := step_session.mp hstep
      exact Or.inr ⟨k, e, c, c', fun _ => rfl, hc, hc', rfl⟩
  · intro s k b d c hb hc
    exact ⟨_, step_session.mpr ⟨b, c, hb, hc, rfl⟩, rfl⟩

variable {s : ProxyServer} {es : List ProxyServerEvent} {targetHost : Text}

/-- One accept is always in flight, and every client that was accepted has a session. -/
theorem accepts_eq (hrun : (machine lib).run (new targetHost) es = some s) :
    s.accepts = 1 ∧ s.sessions.length = es.countP ProxyServerEvent.accepts := by
  refine Machine.run_history (R := fun past s =>
    s.accepts = 1 ∧ s.sessions.length = past.countP ProxyServerEvent.accepts) ?_ ⟨rfl, rfl⟩ hrun
  rintro past s e t ⟨haccepts, hlength⟩ hstep
  rw [List.countP_append, List.countP_singleton]
  cases e with
  | accepted =>
    obtain ⟨-, rfl⟩ := Machine.taken hstep
    refine ⟨?_, ?_⟩
    · change s.accepts - 1 + 1 = 1
      omega
    · change (s.sessions ++ [_]).length = _
      rw [List.length_append, hlength]
      rfl
  | acceptFailed =>
    obtain ⟨-, rfl⟩ := Machine.taken hstep
    refine ⟨?_, hlength⟩
    change s.accepts - 1 + 1 = 1
    omega
  | session k e =>
    obtain ⟨c, c', -, -, rfl⟩ := step_session.mp hstep
    refine ⟨haccepts, ?_⟩
    change (s.sessions.set k c').length = _
    rw [List.length_set, hlength]
    rfl

/-- In every run, whatever accepts and whichever sessions have failed: another client can be
accepted, and each one that was has a session. One whose own operations have not failed, and
whose target has sent a response, in whatever pieces, and closed or not, has neither ended
nor shut anything down, and can go on. -/
theorem sessions_remain (hrun : (machine lib).run (new targetHost) es = some s) :
    (∃ t, s.step lib .accepted = some t) ∧
      s.sessions.length = es.countP ProxyServerEvent.accepts ∧
      ∀ k c header body stream, s.sessions[k]? = some c →
        Session.Readable lib header body stream →
        (Session.machine lib).Meets (Session.Orderly stream) (Session.start targetHost)
          (es.filterMap (ProxyServerEvent.of k)) → c.received <+: stream →
        c.op ≠ none ∧ c.shutDown = false ∧ ∃ e c' t, Session.Orderly stream c e ∧
          c'.received <+: stream ∧ s.step lib (.session k e) = some t ∧
          t.sessions[k]? = some c' := by
  obtain ⟨haccepts, hlength⟩ := accepts_eq hrun
  refine ⟨⟨_, if_pos (by omega)⟩, hlength, ?_⟩
  intro k c header body stream hc hreadable horderly hreceived
  obtain ⟨c₀, rfl, hown⟩ := (hosts lib targetHost).run rfl (fun _ => rfl) hrun hc
  obtain ⟨hop, hopen, e, c', he, hstep, hreceived'⟩ :=
    Session.never_shuts_down hreadable hown horderly hreceived
  obtain ⟨t, ht, hpart, -⟩ := (hosts lib targetHost).hosted s k c e c' trivial hc hstep
  exact ⟨hop, hopen, e, c', t, he, hreceived', ht, hpart⟩

/-- A target sends its response and closes, and the session reads the end again. -/
def closedTarget : List Event :=
  Session.request ++ [.received ((Session.okHeader ['1']).text ++ ['x']), .clientWritten, .parsed,
    .clientWritten, .endOfStream, .clientWritten]

/-- An accept fails, and so does the request of the second client. -/
def twoClients : List ProxyServerEvent :=
  [.accepted, .acceptFailed, .accepted, .session 1 .failed] ++ closedTarget.map (.session 0)

theorem sessions_remain_closed : ∃ s c,
    (machine (ResponseLib.plain (Session.okHeader ['1']))).run (new ['h']) twoClients = some s ∧
    s.sessions[0]? = some c ∧ s.sessions.length = 2 ∧ c.op ≠ none ∧ c.shutDown = false := by
  obtain ⟨s, hrun, htest⟩ := Machine.run_of_any
    (machine (ResponseLib.plain (Session.okHeader ['1']))) (new ['h']) twoClients
    (fun s => (s.sessions[0]?).any fun c =>
      c.received == (Session.okHeader ['1']).text ++ ['x']) (by decide +kernel)
  rw [Option.any_eq_true] at htest
  obtain ⟨c, hc, hreceived⟩ := htest
  have hresponse : (ResponseLib.plain (Session.okHeader ['1'])).IsResponse
      (Session.okHeader ['1']) ['x'] ((Session.okHeader ['1']).text ++ ['x']) :=
    ⟨(Session.okHeader ['1']).text.length, by decide +kernel, by decide +kernel,
      by decide +kernel, by decide +kernel⟩
  have hmeets : (Session.machine (ResponseLib.plain (Session.okHeader ['1']))).Meets
      (Session.Orderly ((Session.okHeader ['1']).text ++ ['x'])) (Session.start ['h'])
      (twoClients.filterMap (ProxyServerEvent.of 0)) := by decide +kernel
  obtain ⟨-, hlength, hremain⟩ := sessions_remain hrun
  obtain ⟨hop, hopen, -⟩ := hremain 0 c _ _ _ hc
    (Session.readable_plain hresponse (by decide +kernel)) hmeets
    (beq_iff_eq.mp hreceived ▸ List.prefix_rfl)
  exact ⟨s, c, hrun, hc, hlength, hop, hopen⟩

end ProxyServer

end ServerAsync
