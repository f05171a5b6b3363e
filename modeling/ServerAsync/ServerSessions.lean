import ServerAsync.HttpServer
import ServerAsync.SessionQueue
import ServerAsync.Misc.Hosting
import ServerAsync.Misc.Parts

/-!
# The sessions of a server

A connection of an `HttpServer` that has been told plain from SSL is a session of its own:
what holds in all runs of a session holds of all sessions of a server at once. As long as
every handler returns, no connection can keep another one from going on.
-/

namespace ServerAsync

open Misc

/-- What an event is for the session of a connection. -/
def ServerEvent.of (k : Nat) : ServerEvent → Option SessionEvent
  | .session j e => if j = k then some e else none
  | _ => none

namespace HttpServer

variable {lib : Lib}

/-- The session of a connection, if it has got that far. -/
def session (s : HttpServer) (k : Nat) : Option Session :=
  (s.connections[k]?).bind fun
    | .session c => some c
    | _ => none

theorem session_eq_some {s : HttpServer} {k : Nat} {c : Session} :
    s.session k = some c ↔ s.connections[k]? = some (.session c) := by
  unfold session
  rw [Option.bind_eq_some_iff]
  constructor
  · rintro ⟨conn, hconn, hc⟩
    cases conn with
    | session c' =>
      cases Option.some.inj hc
      exact hconn
    | detecting d => cases hc
    | dropped => cases hc
  · exact fun h => ⟨_, h, rfl⟩

theorem session_setConnection {s : HttpServer} {k : Nat} {conn : Connection} {c : Session}
    (h : s.connections[k]? = some conn) : (s.setConnection k (.session c)).session k = some c :=
  session_eq_some.mpr (Parts.getElem?_set_of_some h)

theorem session_setConnection_of_ne {s : HttpServer} {j k : Nat} (h : j ≠ k) (conn : Connection) :
    (s.setConnection j conn).session k = s.session k := by
  unfold session setConnection
  dsimp only
  rw [List.getElem?_set_ne h]

/-- A connection that is no session yet changes, into no session. -/
theorem session_setConnection_of_not {s : HttpServer} {j : Nat} {conn conn' : Connection}
    (h : s.connections[j]? = some conn) (hconn : ∀ c, conn ≠ .session c)
    (hconn' : ∀ c, conn' ≠ .session c) (k : Nat) :
    (s.setConnection j conn').session k = s.session k := by
  by_cases heq : j = k
  · subst heq
    have hnone : ∀ u : HttpServer, (∀ c, u.connections[j]? ≠ some (.session c)) →
        u.session j = none := by
      intro u hu
      rw [Option.eq_none_iff_forall_ne_some]
      exact fun c hc => hu c (session_eq_some.mp hc)
    rw [hnone s, hnone]
    · intro c hc
      rw [setConnection, Parts.getElem?_set_of_some h] at hc
      exact hconn' c (Option.some.inj hc)
    · intro c hc
      rw [h] at hc
      exact hconn c (Option.some.inj hc)
  · exact session_setConnection_of_ne heq conn'

/-- A connection comes in. -/
theorem session_concat (s : HttpServer) (d : DetectSession) (k : Nat) :
    ({ s with connections := s.connections ++ [.detecting d] } : HttpServer).session k =
      s.session k := by
  apply Option.ext
  intro c
  rw [session_eq_some, session_eq_some]
  constructor
  · intro hc
    rcases Parts.getElem?_concat_cases hc with ⟨-, hnew⟩ | hold
    · cases hnew
    · exact hold
  · exact fun hc => Parts.getElem?_concat_of_some hc

/-- What a step does to the session of a connection. -/
theorem session_step {s t : HttpServer} {e : ServerEvent} (hstep : s.step lib e = some t)
    (k : Nat) :
    (e.of k = none ∧ t.session k = s.session k) ∨
    (e.of k = none ∧ s.session k = none ∧
      ∃ kind buffer, t.session k = some (Session.run kind buffer)) ∨
    ∃ c e' c', s.session k = some c ∧ e.of k = some e' ∧ c.step lib e' = some c' ∧
      t.session k = some c' := by
  obtain ⟨-, hreact⟩ := step_eq_some.mp hstep
  cases e with
  | start =>
    obtain ⟨-, rfl⟩ := Machine.taken hreact
    exact Or.inl ⟨rfl, rfl⟩
  | accepted =>
    obtain ⟨l, -, rfl⟩ := Option.map_eq_some_iff.mp hreact
    exact Or.inl ⟨rfl, session_concat s ⟨l.docRoot⟩ k⟩
  | acceptFailed =>
    obtain ⟨l, -, rfl⟩ := Option.map_eq_some_iff.mp hreact
    exact Or.inl ⟨rfl, rfl⟩
  | detected j result buffer =>
    obtain ⟨d, hd, rfl⟩ := step_detected hstep
    by_cases heq : j = k
    · subst heq
      refine Or.inr (Or.inl ⟨rfl, ?_, if result then .ssl else .plain, buffer, ?_⟩)
      · rw [Option.eq_none_iff_forall_ne_some]
        intro c hc
        rw [session_eq_some, hd] at hc
        cases hc
      · rw [session_setConnection hd, DetectSession.onDetect]
        cases result <;> rfl
    · exact Or.inl ⟨rfl, session_setConnection_of_ne heq _⟩
  | detectFailed j =>
    obtain ⟨d, hd, rfl⟩ := step_detectFailed hstep
    exact Or.inl ⟨rfl, session_setConnection_of_not hd (by simp) (by simp) k⟩
  | session j e =>
    obtain ⟨c, c', hc, hread, rfl⟩ := step_session hstep
    by_cases heq : j = k
    · subst heq
      exact Or.inr (Or.inr
        ⟨c, e, c', session_eq_some.mpr hc, if_pos rfl, hread, session_setConnection hc⟩)
    · exact Or.inl ⟨if_neg heq, session_setConnection_of_ne heq _⟩

/-- Where an exception has left a handler of a session, there is nothing more for it. -/
theorem step_of_threw {c : Session} (h : (Connection.session c).threw = true) (e : SessionEvent) :
    c.step lib e = none := by
  rw [Session.step, if_neg]
  intro hlive
  rw [Connection.threw, hlive] at h
  cases h

/-- A server hosts its sessions until an exception ends it. -/
theorem hosts_sessions (lib : Lib) :
    Hosts (machine lib) (Session.machine lib) (fun _ => True) (fun s => s.terminated = false)
      session ServerEvent.of .session (fun c => ∃ kind buffer, c = Session.run kind buffer) where
  keeps _ _ _ _ _ := trivial
  absent := by
    intro s e t k _ hstep hnone
    rcases session_step hstep k with ⟨hno, hsame⟩ | ⟨hno, -, kind, buffer, hnew⟩ | ⟨c, -, -, hc, -⟩
    · refine ⟨hno, fun c hc => ?_⟩
      rw [hsame, hnone] at hc
      cases hc
    · refine ⟨hno, fun c hc => ⟨kind, buffer, ?_⟩⟩
      exact Option.some.inj (hc.symm.trans hnew)
    · rw [hnone] at hc
      cases hc
  present := by
    intro s e t k b hstep hb
    rcases session_step hstep k with ⟨hno, hsame⟩ | ⟨-, hnone, -⟩ | ⟨c, e', c', hc, he, hread, hc'⟩
    · exact ⟨b, hsame.trans hb, Or.inl ⟨hno, rfl⟩⟩
    · rw [hnone] at hb
      cases hb
    · cases Option.some.inj (hc.symm.trans hb)
      exact ⟨c', hc', Or.inr ⟨e', he, hread⟩⟩
  hosted := by
    intro s k b d c hup hb hread
    have hconn := session_eq_some.mp hb
    refine ⟨s.setConnection k (.session c), ?_, session_setConnection hconn, fun j hj => ?_, ?_⟩
    · refine step_eq_some.mpr ⟨hup, ?_⟩
      simp only [react, hconn]
      rw [show b.step lib d = some c from hread, Option.map_some]
    · exact session_setConnection_of_ne (Ne.symm hj) _
    · cases hthrew : (Connection.session c).threw with
      | false => exact Or.inl (terminated_setConnection hup hthrew)
      | true => exact Or.inr (step_of_threw hthrew)

/-- A server all of whose handlers have returned is up. -/
theorem terminated_of_live {s : HttpServer}
    (hlive : ∀ j d, s.session j = some d → d.fate = .live) : s.terminated = false := by
  rw [terminated, List.any_eq_false]
  intro conn hconn
  obtain ⟨j, hj⟩ := List.mem_iff_getElem?.mp hconn
  cases conn with
  | session d =>
    rw [Connection.threw, hlive j d (session_eq_some.mpr hj)]
    exact Bool.false_ne_true
  | detecting d => exact Bool.false_ne_true
  | dropped => exact Bool.false_ne_true

/-- In every run of a server, each session has done what the events of its connection say
and nothing else: it has one read and one write in flight at most, and its responses leave
in the order of its requests. And as long as every handler has returned, it can go on as it
could alone, without changing the others. -/
theorem sessions_independent {docRoot : Text} {s : HttpServer} {es : List ServerEvent}
    (hrun : (machine lib).run (new docRoot) es = some s) {k : Nat} {c : Session}
    (hc : s.session k = some c) :
    (∃ kind buffer, (Session.machine lib).run (Session.run kind buffer)
      (es.filterMap (ServerEvent.of k)) = some c) ∧
    (c.reads.length ≤ 1 ∧ c.writes.length ≤ 1 ∧ c.handed <+: c.responsesInHeaderOrder) ∧
    ((∀ j d, s.session j = some d → d.fate = .live) →
      ∀ ds c', (Session.machine lib).run c ds = some c' →
        ∃ t, (machine lib).run s (ds.map (.session k)) = some t ∧ t.session k = some c' ∧
          ∀ j, j ≠ k → t.session j = s.session j) := by
  have hempty : ∀ k, (new docRoot).session k = none := fun _ => rfl
  obtain ⟨c₀, ⟨kind, buffer, rfl⟩, hown⟩ := (hosts_sessions lib).run trivial hempty hrun hc
  have hinv := Session.inv_of_run hown
  refine ⟨⟨kind, buffer, hown⟩, ⟨hinv.read.reads_le, ?_, ?_⟩,
    fun hlive ds c' hds =>
      (hosts_sessions lib).goesOn (terminated_of_live hlive) hc hds⟩
  · change c.core.writes.length ≤ 1
    rw [hinv.write.writes_eq]
    split
    · exact Nat.zero_le _
    · exact List.length_take_le _ _
  · rw [Session.responsesInHeaderOrder_eq hinv]
    exact hinv.handed_prefix

/-- A client over SSL whose handshake has failed does not keep the other one from its
upload. -/
def twoConnections : List ServerEvent :=
  [.start, .accepted, .accepted, .detected 1 true [], .detected 0 false [],
    .session 1 (.readFailed .opening)] ++ (upload 0).map (.session 0)

theorem sessions_independent_two : ∃ s t c c',
    (machine (Lib.plain [uploadRequest])).run (new ".".toList) twoConnections = some s ∧
    s.session 0 = some c ∧ c.handed ≠ [] ∧ c.reads.length ≤ 1 ∧ c.writes.length ≤ 1 ∧
    c.handed <+: c.responsesInHeaderOrder ∧
    (machine (Lib.plain [uploadRequest])).run s [.session 0 (.arrive ['x'])] = some t ∧
    t.session 0 = some c' ∧ c'.received = c.received ++ ['x'] ∧ t.session 1 = s.session 1 := by
  obtain ⟨s, hrun, htest⟩ := Machine.run_of_any (machine (Lib.plain [uploadRequest]))
    (new ".".toList) twoConnections (fun s => (s.connections.length == 2) &&
      ((List.range 2).all fun j => (s.session j).all fun d => d.fate == .live) &&
      (s.session 0).any fun c => !c.handed.isEmpty &&
        ((Session.machine (Lib.plain [uploadRequest])).run c [.arrive ['x']]).any fun c' =>
          c'.received == c.received ++ ['x'])
    (by decide +kernel)
  simp only [Bool.and_eq_true, Option.any_eq_true, List.all_eq_true, List.mem_range, beq_iff_eq,
    Bool.not_eq_true', List.isEmpty_eq_false_iff] at htest
  obtain ⟨⟨hlength, hall⟩, c, hc, hhanded, c', hc', hreceived⟩ := htest
  have hlive (j : Nat) (d : Session) (hd : s.session j = some d) : d.fate = .live := by
    have hj := (List.getElem?_eq_some_iff.mp (session_eq_some.mp hd)).1
    have hreturned := hall j (hlength ▸ hj)
    rwa [hd, Option.all_some, beq_iff_eq] at hreturned
  obtain ⟨-, ⟨hreads, hwrites, horder⟩, hgoes⟩ := sessions_independent hrun hc
  obtain ⟨t, ht, htc, hothers⟩ := hgoes hlive _ _ hc'
  exact ⟨s, t, c, c', hrun, hc, hhanded, hreads, hwrites, horder, ht, htc, hreceived,
    hothers 1 (by decide)⟩

end HttpServer

end ServerAsync
