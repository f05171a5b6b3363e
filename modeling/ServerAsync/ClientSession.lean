import ServerAsync.Http
import ServerAsync.Misc.Machine

/-!
# `client_async::session` and `session_ssl`

The two clients of `http_client_async.hpp`: a chain of callbacks from `run` to the
response, which settles the promise behind `get_response_future`. They differ in the
host name that SSL sends, the handshake and the shutdown. A callback that gets an error
reports it and returns.
-/

namespace ServerAsync

open Misc

/-- `session` or `session_ssl`. -/
inductive ClientKind where
  | session
  | sessionSsl
  deriving DecidableEq, Repr

/-- The asynchronous operations of a client. -/
inductive ClientOp where
  | asyncResolve (host port : Text)
  | asyncConnect
  | asyncHandshake
  | asyncWrite (req : Request)
  | asyncRead
  | asyncShutdown
  deriving DecidableEq, Repr

/-- A client. `ρ` are the responses, which it hands on as they are. `settlements` is
what `set_value` and `set_exception` were called with. -/
structure ClientSession (ρ : Type*) where
  kind : ClientKind
  started : Bool
  req : Request
  ops : List ClientOp
  settlements : List (Except Text ρ)

/-- What happens to a client: the call of `run`, with the answer of
`SSL_set_tlsext_host_name`, and the completions. -/
inductive ClientEvent (ρ : Type*) where
  | run (host port target : Text) (version : Nat) (hostNameSet : Bool)
  | resolved (host port : Text) (ok : Bool)
  | connected (ok : Bool)
  | handshaken (ok : Bool)
  | written (req : Request) (ok : Bool)
  | read (result : Except Text ρ)
  | shutDown (ok : Bool)

namespace ClientSession

variable {ρ : Type*} (versionString : Text)

/-- The constructor. -/
def new (kind : ClientKind) : ClientSession ρ where
  kind := kind
  started := false
  req := ⟨.other [], [], 11, []⟩
  ops := []
  settlements := []

def begin (s : ClientSession ρ) (op : ClientOp) : ClientSession ρ := { s with ops := s.ops ++ [op] }

def finish (s : ClientSession ρ) (op : ClientOp) : ClientSession ρ :=
  { s with ops := s.ops.erase op }

theorem begin_ops {s : ClientSession ρ} (h : s.ops = []) (op : ClientOp) :
    (s.begin op).ops = [op] := by
  rw [begin, h, List.nil_append]

/-- `set_value` or `set_exception` of the promise. -/
def settle (s : ClientSession ρ) (result : Except Text ρ) : ClientSession ρ :=
  { s with settlements := s.settlements ++ [result] }

/-- The GET request that `run` sets up. -/
def request (host target : Text) (version : Nat) : Request :=
  (Request.mk .get target version []).set .host host |>.set (.other "User-Agent".toList)
    versionString

/-- `run`. -/
def run (s : ClientSession ρ) (host port target : Text) (version : Nat) (hostNameSet : Bool) :
    ClientSession ρ :=
  let s := { s with started := true }
  if s.kind = .sessionSsl ∧ hostNameSet = false then s
  else { s with req := request versionString host target version }.begin (.asyncResolve host port)

/-- `on_resolve`. -/
def onResolve (s : ClientSession ρ) (ok : Bool) : ClientSession ρ :=
  if ok then s.begin .asyncConnect else s

/-- `on_connect`. -/
def onConnect (s : ClientSession ρ) (ok : Bool) : ClientSession ρ :=
  if ok then
    match s.kind with
    | .session => s.begin (.asyncWrite s.req)
    | .sessionSsl => s.begin .asyncHandshake
  else s

/-- `on_handshake`. -/
def onHandshake (s : ClientSession ρ) (ok : Bool) : ClientSession ρ :=
  if ok then s.begin (.asyncWrite s.req) else s

/-- `on_write`. -/
def onWrite (s : ClientSession ρ) (ok : Bool) : ClientSession ρ :=
  if ok then s.begin .asyncRead else s

/-- `on_read`. The shutdown of a plain socket is not an operation, and what comes of it
does not matter. -/
def onRead (s : ClientSession ρ) (result : Except Text ρ) : ClientSession ρ :=
  match result with
  | .error what => s.settle (.error what)
  | .ok res =>
    match s.kind with
    | .session => s.settle (.ok res)
    | .sessionSsl => (s.settle (.ok res)).begin .asyncShutdown

/-- The reaction to an event, `none` when it cannot happen. -/
def step (s : ClientSession ρ) : ClientEvent ρ → Option (ClientSession ρ)
  | .run host port target version hostNameSet =>
    if s.started = false then some (s.run versionString host port target version hostNameSet)
    else none
  | .resolved host port ok =>
    if .asyncResolve host port ∈ s.ops then
      some ((s.finish (.asyncResolve host port)).onResolve ok)
    else none
  | .connected ok =>
    if .asyncConnect ∈ s.ops then some ((s.finish .asyncConnect).onConnect ok) else none
  | .handshaken ok =>
    if .asyncHandshake ∈ s.ops then some ((s.finish .asyncHandshake).onHandshake ok) else none
  | .written req ok =>
    if .asyncWrite req ∈ s.ops then some ((s.finish (.asyncWrite req)).onWrite ok) else none
  | .read result =>
    if .asyncRead ∈ s.ops then some ((s.finish .asyncRead).onRead result) else none
  | .shutDown _ =>
    if .asyncShutdown ∈ s.ops then some (s.finish .asyncShutdown) else none

/-- A client as a machine. -/
def machine (ρ : Type*) (versionString : Text) : Machine (ClientSession ρ) (ClientEvent ρ) where
  step := step versionString

/-- `run` has been called and nothing is in flight: nothing will happen any more. -/
def Terminal (s : ClientSession ρ) : Prop := s.started = true ∧ s.ops = []

/-- The event is a failure before the response is read. -/
def failsEarly (kind : ClientKind) : ClientEvent ρ → Bool
  | .run _ _ _ _ hostNameSet => kind == .sessionSsl && !hostNameSet
  | .resolved _ _ ok => !ok
  | .connected ok => !ok
  | .handshaken ok => !ok
  | .written _ ok => !ok
  | .read _ => false
  | .shutDown _ => false

/-! ## The promise -/

/-- How often the promise has been settled while an operation is in flight. -/
def settledAt : ClientOp → Nat
  | .asyncShutdown => 1
  | _ => 0

/-- What holds of a client after the events `past`. -/
structure History (kind : ClientKind) (past : List (ClientEvent ρ)) (s : ClientSession ρ) :
    Prop where
  kind_eq : s.kind = kind
  fresh : s.started = false → past = [] ∧ s.ops = [] ∧ s.settlements = []
  ops_le : s.ops.length ≤ 1
  busy : ∀ op ∈ s.ops, past.any (failsEarly kind) = false ∧ s.settlements.length = settledAt op
  terminal : s.Terminal → s.settlements.length = if past.any (failsEarly kind) then 0 else 1

theorem history_new (kind : ClientKind) : History kind [] (new kind : ClientSession ρ) := by
  refine ⟨rfl, fun _ => ⟨rfl, rfl, rfl⟩, Nat.zero_le _, ?_, ?_⟩
  · intro op hop
    cases hop
  · rintro ⟨hstarted, -⟩
    cases hstarted

/-- With an operation in flight, `run` has been called, nothing has failed, and nothing
is in flight behind the operation's completion. -/
theorem History.busy_of_mem {kind : ClientKind} {past : List (ClientEvent ρ)}
    {s : ClientSession ρ} (h : History kind past s) {op : ClientOp} (hop : op ∈ s.ops) :
    s.started = true ∧ past.any (failsEarly kind) = false ∧
      s.settlements.length = settledAt op ∧ (s.finish op).ops = [] := by
  obtain ⟨hfailed, hsettled⟩ := h.busy op hop
  refine ⟨?_, hfailed, hsettled, ?_⟩
  · by_contra hfresh
    obtain ⟨-, hops, -⟩ := h.fresh (Bool.not_eq_true _ ▸ hfresh)
    rw [hops] at hop
    cases hop
  · rw [finish, Machine.outstanding_eq h.ops_le hop, List.erase_cons_head]

/-- A completion leads to the next operation, or it is the last. -/
theorem History.completed {kind : ClientKind} {past : List (ClientEvent ρ)}
    {s s' : ClientSession ρ} {e : ClientEvent ρ} (h : History kind past s) {op : ClientOp}
    (hop : op ∈ s.ops) (hkind : s'.kind = s.kind) (hstarted : s'.started = s.started)
    (hnext : (∃ op', s'.ops = [op'] ∧ failsEarly kind e = false ∧
        s'.settlements.length = settledAt op') ∨
      s'.ops = [] ∧ s'.settlements.length = if failsEarly kind e then 0 else 1) :
    History kind (past ++ [e]) s' := by
  obtain ⟨hrun, hfailed, -, -⟩ := h.busy_of_mem hop
  have hany : (past ++ [e]).any (failsEarly kind) = failsEarly kind e := by
    rw [List.any_append, hfailed, List.any_cons, List.any_nil, Bool.or_false, Bool.false_or]
  refine ⟨hkind.trans h.kind_eq, fun hfresh => ?_, ?_, ?_, ?_⟩
  · rw [hstarted, hrun] at hfresh
    cases hfresh
  · rcases hnext with ⟨op', hops, -⟩ | ⟨hops, -⟩
    · rw [hops]
      exact Nat.le_refl 1
    · rw [hops]
      exact Nat.zero_le 1
  · intro op₁ hop₁
    rcases hnext with ⟨op', hops, hok, hsettled⟩ | ⟨hops, -⟩
    · rw [hops, List.mem_singleton] at hop₁
      rw [hop₁, hany]
      exact ⟨hok, hsettled⟩
    · rw [hops] at hop₁
      cases hop₁
  · rintro ⟨-, hnone⟩
    rcases hnext with ⟨op', hops, -⟩ | ⟨-, hsettled⟩
    · rw [hops] at hnone
      cases hnone
    · rw [hany]
      exact hsettled

theorem history_step {kind : ClientKind} {past : List (ClientEvent ρ)} {s s' : ClientSession ρ}
    {e : ClientEvent ρ} (h : History kind past s) (hstep : s.step versionString e = some s') :
    History kind (past ++ [e]) s' := by
  cases e with
  | run host port target version hostNameSet =>
    obtain ⟨hfresh, rfl⟩ := Machine.taken hstep
    obtain ⟨rfl, hops, hsettled⟩ := h.fresh hfresh
    unfold run
    dsimp only
    split
    · rename_i hrefused
      refine ⟨h.kind_eq, fun hfresh' => ?_, h.ops_le, fun op hop => ?_, fun _ => ?_⟩
      · cases hfresh'
      · rw [hops] at hop
        cases hop
      · simp [hsettled, failsEarly, ← h.kind_eq, hrefused]
    · rename_i hgoes
      have hfails : failsEarly kind (.run host port target version hostNameSet :
          ClientEvent ρ) = false := by
        rw [h.kind_eq] at hgoes
        simp only [failsEarly, Bool.and_eq_false_iff, beq_eq_false_iff_ne, Bool.not_eq_false']
        by_contra hboth
        rw [not_or, not_not, Bool.not_eq_true] at hboth
        exact hgoes hboth
      refine ⟨h.kind_eq, fun hfresh' => ?_, ?_, ?_, ?_⟩
      · cases hfresh'
      · simp [begin, hops]
      · intro op hop
        simp only [begin, hops, List.nil_append, List.mem_singleton] at hop
        rw [hop, List.nil_append, List.any_cons, hfails]
        exact ⟨rfl, congrArg List.length hsettled⟩
      · rintro ⟨-, hnone⟩
        simp [begin] at hnone
  | resolved host port ok =>
    obtain ⟨hop, rfl⟩ := Machine.taken hstep
    obtain ⟨-, -, hsettled, hops⟩ := h.busy_of_mem hop
    cases ok with
    | true =>
      exact h.completed hop rfl rfl (Or.inl ⟨_, begin_ops hops .asyncConnect, rfl, hsettled⟩)
    | false => exact h.completed hop rfl rfl (Or.inr ⟨hops, hsettled⟩)
  | connected ok =>
    obtain ⟨hop, rfl⟩ := Machine.taken hstep
    obtain ⟨-, -, hsettled, hops⟩ := h.busy_of_mem hop
    cases ok with
    | true =>
      simp only [onConnect, if_true]
      split
      · exact h.completed hop rfl rfl
          (Or.inl ⟨_, begin_ops hops (.asyncWrite s.req), rfl, hsettled⟩)
      · exact h.completed hop rfl rfl (Or.inl ⟨_, begin_ops hops .asyncHandshake, rfl, hsettled⟩)
    | false => exact h.completed hop rfl rfl (Or.inr ⟨hops, hsettled⟩)
  | handshaken ok =>
    obtain ⟨hop, rfl⟩ := Machine.taken hstep
    obtain ⟨-, -, hsettled, hops⟩ := h.busy_of_mem hop
    cases ok with
    | true =>
      exact h.completed hop rfl rfl
        (Or.inl ⟨_, begin_ops hops (.asyncWrite s.req), rfl, hsettled⟩)
    | false => exact h.completed hop rfl rfl (Or.inr ⟨hops, hsettled⟩)
  | written req ok =>
    obtain ⟨hop, rfl⟩ := Machine.taken hstep
    obtain ⟨-, -, hsettled, hops⟩ := h.busy_of_mem hop
    cases ok with
    | true =>
      exact h.completed hop rfl rfl (Or.inl ⟨_, begin_ops hops .asyncRead, rfl, hsettled⟩)
    | false => exact h.completed hop rfl rfl (Or.inr ⟨hops, hsettled⟩)
  | read result =>
    obtain ⟨hop, rfl⟩ := Machine.taken hstep
    obtain ⟨-, -, hsettled, hops⟩ := h.busy_of_mem hop
    have honce : ((s.finish .asyncRead).settle result).settlements.length = 1 := by
      rw [settle, List.length_append]
      change s.settlements.length + 1 = 1
      rw [hsettled]
      rfl
    cases result with
    | error what => exact h.completed hop rfl rfl (Or.inr ⟨hops, honce⟩)
    | ok res =>
      simp only [onRead]
      split
      · exact h.completed hop rfl rfl (Or.inr ⟨hops, honce⟩)
      · exact h.completed hop rfl rfl
          (Or.inl ⟨_, begin_ops (s := (s.finish .asyncRead).settle (.ok res)) hops .asyncShutdown,
            rfl, honce⟩)
  | shutDown ok =>
    obtain ⟨hop, rfl⟩ := Machine.taken hstep
    obtain ⟨-, -, hsettled, hops⟩ := h.busy_of_mem hop
    exact h.completed hop rfl rfl (Or.inr ⟨hops, hsettled⟩)

theorem history_of_run {kind : ClientKind} {s : ClientSession ρ} {es : List (ClientEvent ρ)}
    (hrun : (machine ρ versionString).run (new kind) es = some s) : History kind es s :=
  Machine.run_history (R := History kind)
    (fun _ _ _ _ h hstep => history_step versionString h hstep) (history_new kind) hrun

/-- The promise is never settled twice, whatever fails. -/
theorem History.settled_le {kind : ClientKind} {past : List (ClientEvent ρ)}
    {s : ClientSession ρ} (h : History kind past s) : s.settlements.length ≤ 1 := by
  by_cases hstarted : s.started = true
  · cases hops : s.ops with
    | nil =>
      rw [h.terminal ⟨hstarted, hops⟩]
      split
      · exact Nat.zero_le 1
      · exact Nat.le_refl 1
    | cons op rest =>
      have hop : op ∈ s.ops := by
        rw [hops]
        exact List.mem_cons_self
      rw [(h.busy op hop).2]
      cases op <;> simp [settledAt]
  · rw [(h.fresh (Bool.not_eq_true _ ▸ hstarted)).2.2]
    exact Nat.zero_le 1

/-- The promise is settled at most once, and by the time nothing happens any more, in
exactly those runs in which nothing fails before the response is read. -/
theorem future_resolved_iff {kind : ClientKind} {s : ClientSession ρ} {es : List (ClientEvent ρ)}
    (hrun : (machine ρ versionString).run (new kind) es = some s) :
    s.settlements.length ≤ 1 ∧ (s.Terminal → s.settlements.length = 1) ↔
      ∀ e ∈ es, failsEarly kind e = false := by
  have h := history_of_run versionString hrun
  have hany : (∀ e ∈ es, failsEarly kind e = false) ↔ es.any (failsEarly kind) = false := by
    rw [List.any_eq_false]
    exact forall₂_congr fun e _ => (Bool.not_eq_true _).symm ▸ Iff.rfl
  rw [hany]
  constructor
  · rintro ⟨-, hsettled⟩
    by_contra hfailed
    have hstarted : s.started = true := by
      by_contra hfresh
      obtain ⟨rfl, -, -⟩ := h.fresh (Bool.not_eq_true _ ▸ hfresh)
      exact hfailed rfl
    have hops : s.ops = [] := by
      rw [List.eq_nil_iff_forall_not_mem]
      intro op hop
      exact hfailed (h.busy op hop).1
    have hzero := h.terminal ⟨hstarted, hops⟩
    rw [hsettled ⟨hstarted, hops⟩, if_pos (by simpa using hfailed)] at hzero
    cases hzero
  · intro hok
    refine ⟨h.settled_le, fun hterminal => ?_⟩
    rw [h.terminal hterminal, hok]
    rfl

/-- A response over SSL. -/
theorem future_resolved_iff_ssl : ∃ s : ClientSession Unit,
    (machine Unit []).run (new .sessionSsl)
      [.run ['h'] ['1'] ['/'] 11 true, .resolved ['h'] ['1'] true, .connected true,
        .handshaken true, .written (request [] ['h'] ['/'] 11) true, .read (.ok ()),
        .shutDown false] = some s ∧
    s.Terminal ∧ s.settlements.length = 1 := by
  obtain ⟨s, hrun, htest⟩ := Machine.run_of_any (machine Unit []) (new .sessionSsl)
    [.run ['h'] ['1'] ['/'] 11 true, .resolved ['h'] ['1'] true, .connected true,
      .handshaken true, .written (request [] ['h'] ['/'] 11) true, .read (.ok ()),
      .shutDown false]
    (fun s => s.started && s.ops == []) (by decide +kernel)
  rw [Bool.and_eq_true, beq_iff_eq] at htest
  refine ⟨s, hrun, htest, ((future_resolved_iff [] hrun).mpr ?_).2 htest⟩
  simp [failsEarly]

/-- The name of the host is not found: nothing is in flight any more, and whoever waits
for the response waits for ever. -/
theorem future_pending : ∃ s : ClientSession Unit,
    (machine Unit []).run (new .session)
      [.run ['h'] ['1'] ['/'] 11 true, .resolved ['h'] ['1'] false] = some s ∧
    s.Terminal ∧ s.settlements = [] := by
  obtain ⟨s, hrun, htest⟩ := Machine.run_of_any (machine Unit []) (new .session)
    [.run ['h'] ['1'] ['/'] 11 true, .resolved ['h'] ['1'] false]
    (fun s => (s.started && s.ops == []) && s.settlements.isEmpty) (by decide +kernel)
  rw [Bool.and_eq_true, Bool.and_eq_true, beq_iff_eq, List.isEmpty_iff] at htest
  exact ⟨s, hrun, htest.1, htest.2⟩

end ClientSession

end ServerAsync
