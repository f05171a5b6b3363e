import ServerAsync.Misc.ResultMap
import ServerAsync.TaskQueue
import ServerAsync.Text

/-!
# Commands and their results

`run_command_async`, `query_task_result` and `get_task_result` of `dic_task.hpp`, as one
client thread calls them while the worker executes the commands. A `packaged_task`
is the number of its shared state, so the queue holds numbers. Only the client looks at
`task_results`, so what it does there between two accesses to the queue is one step.
-/

namespace ServerAsync

open Misc

/-- What a command leaves in its shared state. -/
inductive Outcome (ε : Type*) where
  | returned (result : Text)
  | threw (exception : ε)
  deriving DecidableEq, Repr

/-- A `std::future`. `valid` until its result is taken. -/
structure Future where
  state : Nat
  valid : Bool
  deriving DecidableEq, Repr

/-- How a call of the client ends. -/
inductive Answer (ε α : Type*) where
  | returns (value : α)
  /-- What the command threw. -/
  | rethrows (exception : ε)
  /-- `std::out_of_range`, from `at`. -/
  | outOfRange
  /-- `std::future_error`, from a future that has been consumed. -/
  | noState
  deriving DecidableEq, Repr

/-- Where the client is. -/
inductive Client where
  | idle
  /-- In `add_task`, behind the critical section. -/
  | notifying
  /-- In `get_task_result`. -/
  | getting (taskId : Text)
  deriving DecidableEq, Repr

/-- A `TaskQueue` with the shared states of all its tasks, `none` while a task has not
been executed. -/
structure TaskResults (ε : Type*) where
  queue : TaskQueue Nat
  states : List (Option (Outcome ε))
  taskResults : Text → Option Future
  client : Client

/-- The steps of the client and of the worker. -/
inductive ResultEvent (ε : Type*) where
  | runCommandAsync (taskId : Text)
  | notifyOne
  | queryTaskResult (taskId : Text) (answer : Answer ε Int)
  | getTaskResult (taskId : Text)
  | getReturn (taskId : Text) (answer : Answer ε Text)
  | enter
  | wake
  /-- The command that the worker executes is over. -/
  | execute (outcome : Outcome ε)
  deriving DecidableEq

namespace TaskResults

variable {ε : Type*}

/-- The constructor. -/
def new : TaskResults ε where
  queue := .new
  states := []
  taskResults _ := none
  client := .idle

/-- What the shared state of a future holds, `none` when it is not ready. -/
def outcome (s : TaskResults ε) (future : Future) : Option (Outcome ε) :=
  s.states[future.state]?.join

/-- `queue` is the queue behind the critical section of `add_task`. -/
def runCommandAsync (s : TaskResults ε) (taskId : Text) (queue : TaskQueue Nat) :
    TaskResults ε where
  queue := queue
  states := s.states ++ [none]
  taskResults := Function.update s.taskResults taskId (some ⟨s.states.length, true⟩)
  client := .notifying

theorem runCommandAsync_taskResults_self (s : TaskResults ε) (taskId : Text)
    (queue : TaskQueue Nat) : (s.runCommandAsync taskId queue).taskResults taskId =
      some ⟨s.states.length, true⟩ := Function.update_self ..

theorem runCommandAsync_taskResults_of_ne (s : TaskResults ε) {taskId other : Text}
    (queue : TaskQueue Nat) (h : other ≠ taskId) :
    (s.runCommandAsync taskId queue).taskResults other = s.taskResults other :=
  Function.update_of_ne h ..

def queryTaskResult (s : TaskResults ε) (taskId : Text) : Answer ε Int :=
  match s.taskResults taskId with
  | none => .outOfRange
  | some future =>
    if future.valid then
      match s.outcome future with
      | some _ => .returns 1
      | none => .returns 0
    else .noState

/-- The answer and `task_results` behind it, `none` while the call blocks. An exception
from `future.get()` leaves the function before `erase`. -/
def getTaskResult (s : TaskResults ε) (taskId : Text) :
    Option (Answer ε Text × (Text → Option Future)) :=
  match s.taskResults taskId with
  | none => some (.returns [], s.taskResults)
  | some future =>
    if future.valid then
      match s.outcome future with
      | none => none
      | some (.returned result) =>
        some (.returns result, Function.update s.taskResults taskId none)
      | some (.threw exception) =>
        some (.rethrows exception,
          Function.update s.taskResults taskId (some { future with valid := false }))
    else some (.noState, s.taskResults)

theorem getTaskResult_of_none {s : TaskResults ε} {taskId : Text}
    (hentry : s.taskResults taskId = none) :
    s.getTaskResult taskId = some (.returns [], s.taskResults) := by
  rw [getTaskResult, hentry]

theorem getTaskResult_of_threw {s : TaskResults ε} {taskId : Text} {future : Future}
    {exception : ε} (hentry : s.taskResults taskId = some future) (hvalid : future.valid = true)
    (hthrew : s.outcome future = some (.threw exception)) :
    s.getTaskResult taskId = some (.rethrows exception,
      Function.update s.taskResults taskId (some { future with valid := false })) := by
  simp [getTaskResult, hentry, hvalid, hthrew]

theorem getTaskResult_of_returned {s : TaskResults ε} {taskId : Text} {future : Future}
    {result : Text} (hentry : s.taskResults taskId = some future) (hvalid : future.valid = true)
    (hreturned : s.outcome future = some (.returned result)) :
    s.getTaskResult taskId =
      some (.returns result, Function.update s.taskResults taskId none) := by
  simp [getTaskResult, hentry, hvalid, hreturned]

theorem getTaskResult_of_pending {s : TaskResults ε} {taskId : Text} {future : Future}
    (hentry : s.taskResults taskId = some future) (hvalid : future.valid = true)
    (hpending : s.outcome future = none) : s.getTaskResult taskId = none := by
  simp [getTaskResult, hentry, hvalid, hpending]

/-! ## Consumed futures -/

/-- Every entry of `task_results` holds a future that has not been consumed. -/
def AllValid (s : TaskResults ε) : Prop :=
  ∀ taskId future, s.taskResults taskId = some future → future.valid = true

/-- The step takes the result of a command that threw. -/
def FetchesFailure (s : TaskResults ε) : ResultEvent ε → Prop
  | .getReturn taskId _ => ∃ future exception, s.taskResults taskId = some future ∧
      s.outcome future = some (.threw exception)
  | _ => False

/-- The call has acted on a consumed future. -/
def OnConsumed : ResultEvent ε → Prop
  | .queryTaskResult _ answer => answer = .noState
  | .getReturn _ answer => answer = .noState
  | _ => False

theorem allValid_new : AllValid (new : TaskResults ε) := by
  intro taskId future hentry
  cases hentry

theorem allValid_update {s : TaskResults ε} (hvalid : s.AllValid) {taskId : Text}
    {entry : Option Future} (hentry : ∀ future, entry = some future → future.valid = true)
    (other : Text) (future : Future)
    (hother : Function.update s.taskResults taskId entry other = some future) :
    future.valid = true := by
  by_cases hsame : other = taskId
  · subst hsame
    rw [Function.update_self] at hother
    exact hentry future hother
  · rw [Function.update_of_ne hsame] at hother
    exact hvalid other future hother

/-- The answer of `get_task_result` when its future has not been consumed and its command
has not thrown. -/
theorem getTaskResult_cases {s : TaskResults ε} (hvalid : s.AllValid) {taskId : Text}
    {answer : Answer ε Text} {taskResults : Text → Option Future}
    (hfetch : ¬ s.FetchesFailure (.getReturn taskId answer))
    (hget : s.getTaskResult taskId = some (answer, taskResults)) :
    (s.taskResults taskId = none ∧ answer = .returns [] ∧ taskResults = s.taskResults) ∨
    ∃ future result, s.taskResults taskId = some future ∧
      s.outcome future = some (.returned result) ∧ answer = .returns result ∧
      taskResults = Function.update s.taskResults taskId none := by
  cases hentry : s.taskResults taskId with
  | none =>
    rw [getTaskResult_of_none hentry] at hget
    cases Option.some.inj hget
    exact Or.inl ⟨rfl, rfl, rfl⟩
  | some future =>
    have hfuture := hvalid taskId future hentry
    cases houtcome : s.outcome future with
    | none =>
      rw [getTaskResult_of_pending hentry hfuture houtcome] at hget
      cases hget
    | some outcome =>
      cases outcome with
      | threw exception => exact absurd ⟨future, exception, hentry, houtcome⟩ hfetch
      | returned result =>
        rw [getTaskResult_of_returned hentry hfuture houtcome] at hget
        cases Option.some.inj hget
        exact Or.inr ⟨future, result, rfl, houtcome, rfl, rfl⟩

/-! ## Steps -/

variable [DecidableEq ε]

/-- The step of the client or the worker, `none` when it is not there. -/
def step (s : TaskResults ε) : ResultEvent ε → Option (TaskResults ε)
  | .runCommandAsync taskId =>
    if s.client = .idle then
      (s.queue.step (.push s.states.length)).map fun queue => s.runCommandAsync taskId queue
    else none
  | .notifyOne =>
    if s.client = .notifying then
      (s.queue.step .notifyOne).map fun queue => { s with queue := queue, client := .idle }
    else none
  | .queryTaskResult taskId answer =>
    if s.client = .idle ∧ s.queryTaskResult taskId = answer then some s else none
  | .getTaskResult taskId =>
    if s.client = .idle then some { s with client := .getting taskId } else none
  | .getReturn taskId answer =>
    match s.client, s.getTaskResult taskId with
    | .getting called, some (answer', taskResults) =>
      if called = taskId ∧ answer' = answer then
        some { s with taskResults := taskResults, client := .idle }
      else none
    | _, _ => none
  | .enter => (s.queue.step .enter).map fun queue => { s with queue := queue }
  | .wake => (s.queue.step .wake).map fun queue => { s with queue := queue }
  | .execute outcome =>
    match s.queue.worker with
    | .executing n =>
      (s.queue.step .finish).map fun queue =>
        { s with queue := queue, states := s.states.set n (some outcome) }
    | _ => none

/-- The client and the worker as a machine. -/
def machine (ε : Type*) [DecidableEq ε] : Machine (TaskResults ε) (ResultEvent ε) where
  step := step

/-- What the steps of the client need, and what they do. -/
theorem step_client {s s' : TaskResults ε} :
    (∀ taskId, s.step (.runCommandAsync taskId) = some s' ↔ s.client = .idle ∧
      ∃ queue, s.queue.step (.push s.states.length) = some queue ∧
        s' = s.runCommandAsync taskId queue) ∧
    (s.step .notifyOne = some s' ↔ s.client = .notifying ∧
      ∃ queue, s.queue.step .notifyOne = some queue ∧
        s' = { s with queue := queue, client := .idle }) ∧
    (∀ taskId answer, s.step (.getReturn taskId answer) = some s' ↔ s.client = .getting taskId ∧
      ∃ taskResults, s.getTaskResult taskId = some (answer, taskResults) ∧
        s' = { s with taskResults := taskResults, client := .idle }) := by
  refine ⟨fun taskId => ?_, ?_, fun taskId answer => ?_⟩
  · simp only [step, Option.ite_none_right_eq_some, Option.map_eq_some_iff, @eq_comm _ s']
  · simp only [step, Option.ite_none_right_eq_some, Option.map_eq_some_iff, @eq_comm _ s']
  · simp only [step]
    constructor
    · intro hstep
      split at hstep
      · rename_i called answer' taskResults hclient hget
        obtain ⟨⟨rfl, rfl⟩, rfl⟩ := Machine.taken hstep
        exact ⟨hclient, taskResults, hget, rfl⟩
      · cases hstep
    · rintro ⟨hclient, taskResults, hget, rfl⟩
      simp [hclient, hget]

/-- What the steps of the worker need, and what they do. -/
theorem step_worker {s s' : TaskResults ε} :
    (s.step .enter = some s' ↔
      ∃ queue, s.queue.step .enter = some queue ∧ s' = { s with queue := queue }) ∧
    (s.step .wake = some s' ↔
      ∃ queue, s.queue.step .wake = some queue ∧ s' = { s with queue := queue }) ∧
    (∀ outcome, s.step (.execute outcome) = some s' ↔ ∃ n queue,
      s.queue.worker = .executing n ∧ s.queue.step .finish = some queue ∧
        s' = { s with queue := queue, states := s.states.set n (some outcome) }) := by
  refine ⟨?_, ?_, fun outcome => ?_⟩
  · simp only [step, Option.map_eq_some_iff, @eq_comm _ s']
  · simp only [step, Option.map_eq_some_iff, @eq_comm _ s']
  · simp only [step]
    cases s.queue.worker <;> simp [@eq_comm _ s']

/-- What a step does to the shared states and to `task_results`. -/
theorem step_effects {s s' : TaskResults ε} {e : ResultEvent ε} (hstep : s.step e = some s') :
    (s'.states = s.states ∨ s'.states = s.states ++ [none] ∨
      ∃ n outcome, e = .execute outcome ∧ s'.states = s.states.set n (some outcome)) ∧
    (s'.taskResults = s.taskResults ∨
      (∃ taskId, s'.taskResults =
        Function.update s.taskResults taskId (some ⟨s.states.length, true⟩)) ∨
      ∃ taskId answer, e = .getReturn taskId answer ∧
        s.getTaskResult taskId = some (answer, s'.taskResults)) := by
  cases e with
  | runCommandAsync taskId =>
    obtain ⟨-, queue, -, rfl⟩ := (step_client.1 taskId).mp hstep
    exact ⟨Or.inr (Or.inl rfl), Or.inr (Or.inl ⟨taskId, rfl⟩)⟩
  | notifyOne =>
    obtain ⟨-, queue, -, rfl⟩ := step_client.2.1.mp hstep
    exact ⟨Or.inl rfl, Or.inl rfl⟩
  | queryTaskResult taskId answer =>
    obtain ⟨-, rfl⟩ := Machine.taken hstep
    exact ⟨Or.inl rfl, Or.inl rfl⟩
  | getTaskResult taskId =>
    obtain ⟨-, rfl⟩ := Machine.taken hstep
    exact ⟨Or.inl rfl, Or.inl rfl⟩
  | getReturn taskId answer =>
    obtain ⟨-, taskResults, hget, rfl⟩ := (step_client.2.2 taskId answer).mp hstep
    exact ⟨Or.inl rfl, Or.inr (Or.inr ⟨taskId, answer, rfl, hget⟩)⟩
  | enter =>
    obtain ⟨queue, -, rfl⟩ := step_worker.1.mp hstep
    exact ⟨Or.inl rfl, Or.inl rfl⟩
  | wake =>
    obtain ⟨queue, -, rfl⟩ := step_worker.2.1.mp hstep
    exact ⟨Or.inl rfl, Or.inl rfl⟩
  | execute outcome =>
    obtain ⟨n, queue, -, -, rfl⟩ := (step_worker.2.2 outcome).mp hstep
    exact ⟨Or.inr (Or.inr ⟨n, outcome, rfl, rfl⟩), Or.inl rfl⟩

/-! ## A failing command -/

/-- A step behind which the client can go on: no call acts on a consumed future, every
entry is valid behind the step, and where a command's exception was rethrown the entry is
gone. -/
structure Usable (s : TaskResults ε) (e : ResultEvent ε) : Prop where
  unconsumed : ¬ OnConsumed e
  valid : ∀ s', s.step e = some s' → AllValid s'
  gone : ∀ taskId exception s', e = .getReturn taskId (.rethrows exception) →
    s.step e = some s' → s'.taskResults taskId = none ∧
      s'.getTaskResult taskId = some (.returns [], s'.taskResults)

theorem allValid_step {s s' : TaskResults ε} {e : ResultEvent ε} (hvalid : s.AllValid)
    (hfetch : ¬ s.FetchesFailure e) (hstep : s.step e = some s') : s'.AllValid := by
  unfold AllValid
  rcases (step_effects hstep).2 with hsame | ⟨taskId, hentry⟩ | ⟨taskId, answer, rfl, hget⟩
  · rwa [hsame]
  · rw [hentry]
    refine allValid_update hvalid fun future hfuture => ?_
    cases Option.some.inj hfuture
    rfl
  · rcases getTaskResult_cases hvalid hfetch hget with ⟨-, -, hsame⟩ | ⟨_, _, -, -, -, hgone⟩
    · rwa [hsame]
    · rw [hgone]
      refine allValid_update hvalid fun future hfuture => ?_
      cases hfuture

/-- A call that finds its future valid and its command not failed does not act on a
consumed future, and rethrows nothing. -/
theorem step_answers {s s' : TaskResults ε} {e : ResultEvent ε} (hvalid : s.AllValid)
    (hfetch : ¬ s.FetchesFailure e) (hstep : s.step e = some s') :
    ¬ OnConsumed e ∧ ∀ taskId exception, e ≠ .getReturn taskId (.rethrows exception) := by
  cases e with
  | queryTaskResult taskId answer =>
    obtain ⟨⟨-, hanswer⟩, -⟩ := Machine.taken hstep
    refine ⟨fun hconsumed => ?_, fun _ _ he => by cases he⟩
    rw [← show s.queryTaskResult taskId = answer from hanswer] at hconsumed
    change s.queryTaskResult taskId = .noState at hconsumed
    unfold queryTaskResult at hconsumed
    split at hconsumed
    · cases hconsumed
    · rename_i future hentry
      rw [if_pos (hvalid taskId future hentry)] at hconsumed
      split at hconsumed <;> cases hconsumed
  | getReturn taskId answer =>
    obtain ⟨-, taskResults, hget, -⟩ := (step_client.2.2 taskId answer).mp hstep
    rcases getTaskResult_cases hvalid hfetch hget with ⟨-, rfl, -⟩ | ⟨_, _, -, -, rfl, -⟩
    · refine ⟨fun hconsumed => ?_, fun _ _ he => ?_⟩
      · cases hconsumed
      · cases he
    · refine ⟨fun hconsumed => ?_, fun _ _ he => ?_⟩
      · cases hconsumed
      · cases he
  | _ => exact ⟨id, fun _ _ he => by cases he⟩

/-- A step that takes the result of a command that threw leaves its entry behind. -/
theorem step_fetchesFailure {s s' : TaskResults ε} {e : ResultEvent ε} (hvalid : s.AllValid)
    (hfetch : s.FetchesFailure e) (hstep : s.step e = some s') : ¬ s'.AllValid := by
  cases e with
  | getReturn taskId answer =>
    obtain ⟨future, exception, hentry, hthrew⟩ := hfetch
    obtain ⟨-, taskResults, hget, rfl⟩ := (step_client.2.2 taskId answer).mp hstep
    rw [getTaskResult_of_threw hentry (hvalid taskId future hentry) hthrew] at hget
    cases Option.some.inj hget
    intro hvalid'
    have hleft := hvalid' taskId { future with valid := false } (Function.update_self ..)
    cases hleft
  | _ => exact absurd hfetch id

/-- A run leaves the client able to go on behind each of its steps if and only if it
never takes the result of a command that threw. -/
theorem usable_iff {s : TaskResults ε} {es : List (ResultEvent ε)}
    (hrun : (machine ε).run new es = some s) :
    (machine ε).Meets Usable new es ↔
      (machine ε).Meets (fun s e => ¬ s.FetchesFailure e) new es := by
  constructor
  · intro husable
    refine husable.mono (I := AllValid) ?_ ?_ allValid_new hrun
    · intro s e s' _ hstep' hstep
      exact hstep'.valid s' hstep
    · intro s e s' hvalid hstep huses hfetch
      exact step_fetchesFailure hvalid hfetch hstep (huses.valid s' hstep)
  · intro hmeets
    refine hmeets.mono (I := AllValid) (fun _ _ _ h hfetch hstep => allValid_step h hfetch hstep)
      ?_ allValid_new hrun
    intro s e s' hvalid hstep hfetch
    obtain ⟨hconsumed, hrethrows⟩ := step_answers hvalid hfetch hstep
    refine ⟨hconsumed, fun t ht => allValid_step hvalid hfetch ht, ?_⟩
    intro taskId exception _ he
    exact absurd he (hrethrows taskId exception)

/-- A command throws, and its result is asked for but not taken. -/
theorem usable_iff_query : ∃ s, (machine Unit).run new
    [.runCommandAsync ['a'], .notifyOne, .enter, .execute (.threw ()),
      .queryTaskResult ['a'] (.returns 1)] = some s ∧
    (machine Unit).Meets Usable new
      [.runCommandAsync ['a'], .notifyOne, .enter, .execute (.threw ()),
        .queryTaskResult ['a'] (.returns 1)] := by
  obtain ⟨s, hrun, -⟩ := Machine.run_of_any (machine Unit) new
    [.runCommandAsync ['a'], .notifyOne, .enter, .execute (.threw ()),
      .queryTaskResult ['a'] (.returns 1)] (fun _ => true) (by decide)
  refine ⟨s, hrun, (usable_iff hrun).mpr (Machine.meets_of_forall ?_)⟩
  intro s e he hfetch
  cases e with
  | getReturn taskId answer => simp at he
  | _ => exact hfetch

/-- A command throws and its exception is fetched: the entry is left with a consumed
future, on which the next query and the next fetch act. -/
theorem stale_entry : ∃ s, (machine Unit).run new
    [.runCommandAsync ['a'], .notifyOne, .enter, .execute (.threw ()), .getTaskResult ['a'],
      .getReturn ['a'] (.rethrows ())] = some s ∧
    s.taskResults ['a'] = some ⟨0, false⟩ ∧
    (s.step (.queryTaskResult ['a'] .noState)).isSome = true ∧
    ((machine Unit).run s [.getTaskResult ['a'], .getReturn ['a'] .noState]).isSome = true ∧
    ¬ (machine Unit).Meets Usable new
      [.runCommandAsync ['a'], .notifyOne, .enter, .execute (.threw ()), .getTaskResult ['a'],
        .getReturn ['a'] (.rethrows ())] := by
  obtain ⟨s, hrun, htest⟩ := Machine.run_of_any (machine Unit) new
    [.runCommandAsync ['a'], .notifyOne, .enter, .execute (.threw ()), .getTaskResult ['a'],
      .getReturn ['a'] (.rethrows ())]
    (fun s => s.taskResults ['a'] == some ⟨0, false⟩ &&
      ((s.step (.queryTaskResult ['a'] .noState)).isSome &&
        ((machine Unit).run s [.getTaskResult ['a'], .getReturn ['a'] .noState]).isSome))
    (by decide)
  rw [Bool.and_eq_true, Bool.and_eq_true, beq_iff_eq] at htest
  obtain ⟨hentry, hquery, hget⟩ := htest
  refine ⟨s, hrun, hentry, hquery, hget, fun husable => ?_⟩
  have hvalid : s.AllValid := Machine.run_invariant_of_meets (I := AllValid)
    (fun _ _ s' _ h hstep => h.valid s' hstep) allValid_new husable hrun
  have hleft := hvalid ['a'] ⟨0, false⟩ hentry
  cases hleft

end TaskResults

end ServerAsync
