import ServerAsync.Misc.Fifo

/-!
# `TaskQueue`

The queue of `dic_task.hpp` with its worker thread: any number of threads push tasks,
the worker takes them out one by one, and the destructor sets `stop`, wakes the worker
and joins it. A critical section is one step. A notification is a step of its own
behind it, and a wait that is over, for whatever reason, leads to another look at the
queue.
-/

namespace ServerAsync

open Misc

/-- Where the worker is in `process_tasks`. -/
inductive Worker (τ : Type*) where
  /-- Before the critical section, from the start, after a task or after a wait. -/
  | entering
  /-- In `cv.wait`, with the lock released. -/
  | waiting (notified : Bool)
  | executing (task : τ)
  | exited
  deriving DecidableEq, Repr

/-- Where the destructor is. -/
inductive Destructor where
  | notCalled
  /-- `stop` is set. -/
  | stopping
  /-- `notify_all` has been called. -/
  | joining
  | returned
  deriving DecidableEq, Repr

/-- A `TaskQueue`. `notifies` is the number of calls of `add_task` between their
critical section and `notify_one`. The last three fields are its history: the tasks
pushed, those taken out by the worker, and those executed. -/
structure TaskQueue (τ : Type*) where
  tasks : List τ
  stop : Bool
  worker : Worker τ
  destructor : Destructor
  notifies : Nat
  pushed : List τ
  started : List τ
  finished : List τ

/-- The steps of the threads. -/
inductive QueueEvent (τ : Type*) where
  | push (task : τ)
  | notifyOne
  | setStop
  | notifyAll
  | join
  | enter
  | wake
  | finish

/-- The steps of the destructor. -/
def QueueEvent.ofDestructor {τ : Type*} : QueueEvent τ → Bool
  | .setStop | .notifyAll | .join => true
  | _ => false

namespace Worker

variable {τ : Type*}

/-- A notification reaches the worker when it waits. -/
def notify : Worker τ → Worker τ
  | .waiting _ => .waiting true
  | w => w

/-- The task in the worker's hands. -/
def current : Worker τ → List τ
  | .executing task => [task]
  | _ => []

theorem current_length (w : Worker τ) : w.current.length ≤ 1 := by
  cases w <;> simp [current]

theorem notify_current (w : Worker τ) : w.notify.current = w.current := by
  cases w <;> rfl

theorem notify_eq_exited {w : Worker τ} : w.notify = .exited ↔ w = .exited := by
  cases w <;> simp [notify]

theorem notify_not_waiting (w : Worker τ) : w.notify ≠ .waiting false := by
  cases w <;> simp [notify]

end Worker

namespace TaskQueue

variable {τ : Type*}

/-- The constructor. -/
def new : TaskQueue τ where
  tasks := []
  stop := false
  worker := .entering
  destructor := .notCalled
  notifies := 0
  pushed := []
  started := []
  finished := []

/-- The critical section of `add_task`. -/
def addTask (q : TaskQueue τ) (task : τ) : TaskQueue τ :=
  { q with
    tasks := q.tasks ++ [task]
    notifies := q.notifies + 1
    pushed := q.pushed ++ [task] }

/-- The critical section of `process_tasks`: wait, leave, or take the front task. -/
def processTasks (q : TaskQueue τ) : TaskQueue τ :=
  match q.tasks with
  | [] => if q.stop then { q with worker := .exited } else { q with worker := .waiting false }
  | task :: tasks =>
    { q with tasks := tasks, worker := .executing task, started := q.started ++ [task] }

/-- What the critical section of `process_tasks` leaves alone. -/
theorem processTasks_frame (q : TaskQueue τ) : q.processTasks.pushed = q.pushed ∧
    q.processTasks.finished = q.finished ∧ q.processTasks.destructor = q.destructor := by
  unfold processTasks
  split
  · split <;> exact ⟨rfl, rfl, rfl⟩
  · exact ⟨rfl, rfl, rfl⟩

/-- The step of a thread, `none` when it is not there. A wait may be over without a
notification. -/
def step (q : TaskQueue τ) : QueueEvent τ → Option (TaskQueue τ)
  | .push task => if q.destructor ≠ .returned then some (q.addTask task) else none
  | .notifyOne =>
    if 0 < q.notifies then
      some { q with notifies := q.notifies - 1, worker := q.worker.notify }
    else none
  | .setStop =>
    if q.destructor = .notCalled then some { q with stop := true, destructor := .stopping }
    else none
  | .notifyAll =>
    if q.destructor = .stopping then
      some { q with destructor := .joining, worker := q.worker.notify }
    else none
  | .join =>
    match q.destructor, q.worker with
    | .joining, .exited => some { q with destructor := .returned }
    | _, _ => none
  | .enter =>
    match q.worker with
    | .entering => some q.processTasks
    | _ => none
  | .wake =>
    match q.worker with
    | .waiting _ => some { q with worker := .entering }
    | _ => none
  | .finish =>
    match q.worker with
    | .executing task => some { q with worker := .entering, finished := q.finished ++ [task] }
    | _ => none

/-- A `TaskQueue` and its threads as a machine. -/
def machine (τ : Type*) : Machine (TaskQueue τ) (QueueEvent τ) where
  step := step

/-- What the steps of the worker and of `join` need, and what they do. -/
theorem step_worker {q q' : TaskQueue τ} :
    (q.step .join = some q' ↔ q.destructor = .joining ∧ q.worker = .exited ∧
      q' = { q with destructor := .returned }) ∧
    (q.step .enter = some q' ↔ q.worker = .entering ∧ q' = q.processTasks) ∧
    (q.step .wake = some q' ↔ (∃ n, q.worker = .waiting n) ∧
      q' = { q with worker := .entering }) ∧
    (q.step .finish = some q' ↔ ∃ task, q.worker = .executing task ∧
      q' = { q with worker := .entering, finished := q.finished ++ [task] }) := by
  refine ⟨?_, ?_, ?_, ?_⟩
  · unfold step
    cases q.destructor <;> cases q.worker <;> simp [eq_comm]
  · unfold step
    cases q.worker <;> simp [eq_comm]
  · unfold step
    cases q.worker <;> simp [eq_comm]
  · unfold step
    cases q.worker <;> simp [eq_comm]

/-! ## The invariant -/

/-- What is queued and what is in the worker's hands is what has been pushed and not
been executed. The worker is gone only behind `stop`, and the destructor is through only
behind the worker. A wait that has not been notified is one with nothing to do, or its
notification is still to come. -/
structure Inv (q : TaskQueue τ) : Prop where
  queued : q.started ++ q.tasks = q.pushed
  current : q.finished ++ q.worker.current = q.started
  stopped : q.stop = true ↔ q.destructor ≠ .notCalled
  exited : q.worker = .exited → q.stop = true
  joined : q.destructor = .returned → q.worker = .exited
  idle : q.worker = .waiting false →
    (q.tasks ≠ [] → 0 < q.notifies) ∧ (q.stop = true → q.destructor = .stopping)

theorem inv_new : Inv (new : TaskQueue τ) := by
  refine ⟨rfl, rfl, ?_, ?_, ?_, ?_⟩ <;> simp [new]

theorem Inv.not_returned {q : TaskQueue τ} (hinv : Inv q) (hworker : q.worker ≠ .exited) :
    q.destructor ≠ .returned := fun hreturned => hworker (hinv.joined hreturned)

theorem inv_processTasks {q : TaskQueue τ} (hinv : Inv q) (hworker : q.worker = .entering) :
    Inv q.processTasks := by
  have hall : q.finished = q.started := by
    have hcurrent := hinv.current
    rw [hworker] at hcurrent
    simpa [Worker.current] using hcurrent
  have hjoined : q.destructor ≠ .returned := hinv.not_returned (by simp [hworker])
  unfold processTasks
  split
  · rename_i htasks
    by_cases hstop : q.stop = true
    · rw [if_pos hstop]
      refine ⟨hinv.queued, ?_, hinv.stopped, fun _ => hstop, fun _ => rfl, ?_⟩
      · simp [Worker.current, hall]
      · intro hwaiting
        cases hwaiting
    · rw [if_neg hstop]
      refine ⟨hinv.queued, ?_, hinv.stopped, ?_, fun h => absurd h hjoined, ?_⟩
      · simp [Worker.current, hall]
      · intro hexited
        cases hexited
      · intro _
        exact ⟨fun h => absurd htasks h, fun h => absurd h hstop⟩
  · rename_i task rest htasks
    refine ⟨?_, ?_, hinv.stopped, ?_, fun h => absurd h hjoined, ?_⟩
    · rw [← hinv.queued, htasks, List.append_assoc, List.singleton_append]
    · rw [hall]
      rfl
    · intro hexited
      cases hexited
    · intro hwaiting
      cases hwaiting

/-- A notification. -/
theorem Inv.notify {q : TaskQueue τ} (hinv : Inv q) (notifies : Nat) :
    Inv { q with notifies := notifies, worker := q.worker.notify } := by
  refine ⟨hinv.queued, ?_, hinv.stopped, fun hexited => ?_, fun hreturned => ?_, ?_⟩
  · rw [q.worker.notify_current, hinv.current]
  · exact hinv.exited (Worker.notify_eq_exited.mp hexited)
  · exact Worker.notify_eq_exited.mpr (hinv.joined hreturned)
  · intro hwaiting
    exact absurd hwaiting q.worker.notify_not_waiting

/-- The worker is back from a wait or a task, with nothing in its hands. -/
theorem Inv.entering {q : TaskQueue τ} (hinv : Inv q) (hworker : q.worker ≠ .exited)
    {finished : List τ} (hfinished : finished = q.started) :
    Inv { q with worker := .entering, finished := finished } := by
  refine ⟨hinv.queued, ?_, hinv.stopped, fun hexited => ?_, fun hreturned => ?_, fun hwaiting => ?_⟩
  · rw [hfinished]
    exact List.append_nil _
  · cases hexited
  · exact absurd hreturned (hinv.not_returned hworker)
  · cases hwaiting

theorem inv_step {q q' : TaskQueue τ} {e : QueueEvent τ} (hinv : Inv q)
    (hstep : q.step e = some q') : Inv q' := by
  cases e with
  | push task =>
    obtain ⟨-, rfl⟩ := Machine.taken hstep
    refine ⟨?_, hinv.current, hinv.stopped, hinv.exited, hinv.joined, fun hwaiting => ?_⟩
    · simp [addTask, ← hinv.queued]
    · exact ⟨fun _ => Nat.succ_pos _, (hinv.idle hwaiting).2⟩
  | notifyOne =>
    obtain ⟨-, rfl⟩ := Machine.taken hstep
    exact hinv.notify _
  | setStop =>
    obtain ⟨hcalled, rfl⟩ := Machine.taken hstep
    refine ⟨hinv.queued, hinv.current, by simp, fun _ => rfl, fun hreturned => ?_, ?_⟩
    · cases hreturned
    · intro hwaiting
      exact ⟨(hinv.idle hwaiting).1, fun _ => rfl⟩
  | notifyAll =>
    obtain ⟨hstopping, rfl⟩ := Machine.taken hstep
    have hnotified := hinv.notify q.notifies
    refine ⟨hnotified.queued, hnotified.current, ?_, hnotified.exited, fun hreturned => ?_, ?_⟩
    · simp [hinv.stopped, hstopping]
    · cases hreturned
    · intro hwaiting
      exact absurd hwaiting q.worker.notify_not_waiting
  | join =>
    obtain ⟨hjoining, hexited, rfl⟩ := step_worker.1.mp hstep
    refine ⟨hinv.queued, hinv.current, ?_, hinv.exited, fun _ => hexited, ?_⟩
    · simp [hinv.stopped, hjoining]
    · intro hwaiting
      rw [hexited] at hwaiting
      cases hwaiting
  | enter =>
    obtain ⟨hworker, rfl⟩ := step_worker.2.1.mp hstep
    exact inv_processTasks hinv hworker
  | wake =>
    obtain ⟨⟨n, hworker⟩, rfl⟩ := step_worker.2.2.1.mp hstep
    refine hinv.entering (by simp [hworker]) ?_
    rw [← hinv.current, hworker]
    exact (List.append_nil _).symm
  | finish =>
    obtain ⟨task, hworker, rfl⟩ := step_worker.2.2.2.mp hstep
    refine hinv.entering (by simp [hworker]) ?_
    rw [← hinv.current, hworker]
    rfl

/-! ## The queue is a channel -/

/-- The channel between those who push and the worker. -/
def fifo (q : {q : TaskQueue τ // Inv q}) : Fifo τ where
  put := q.1.pushed
  got := q.1.started
  ordered := ⟨q.1.tasks, q.2.queued⟩

/-- What a step does to the channel. -/
def channelEvent (q : TaskQueue τ) : QueueEvent τ → Fifo.Event τ
  | .push task => .put [task]
  | .enter => .get (q.tasks.take 1).length
  | _ => .get 0

theorem queue_refines :
    ((machine τ).restrict Inv fun _ _ _ h hstep => inv_step h hstep).Refines
      (Fifo.machine τ) fifo (fun q e => channelEvent q.1 e) := by
  rintro ⟨q, hinv⟩ e ⟨q', hinv'⟩ hstep
  have hstep : q.step e = some q' := Machine.restrict_step.mp hstep
  have hsame : q'.pushed = q.pushed → q'.started = q.started →
      (fifo ⟨q, hinv⟩).step (.get 0) = some (fifo ⟨q', hinv'⟩) := by
    intro hpushed hstarted
    have hget : (fifo ⟨q, hinv⟩).step (.get ([] : List τ).length) = some (fifo ⟨q', hinv'⟩) :=
      Fifo.step_get hpushed (by simp [fifo, hstarted])
    exact hget
  cases e with
  | push task =>
    obtain ⟨-, rfl⟩ := Machine.taken hstep
    rfl
  | enter =>
    obtain ⟨-, rfl⟩ := step_worker.2.1.mp hstep
    refine Fifo.step_get ?_ ?_
    · exact q.processTasks_frame.1
    · simp only [fifo, processTasks]
      split
      · rename_i htasks
        rw [htasks, List.take_nil, List.append_nil]
        split <;> rfl
      · rename_i task rest htasks
        rw [htasks]
        rfl
  | join =>
    obtain ⟨-, -, rfl⟩ := step_worker.1.mp hstep
    exact hsame rfl rfl
  | wake =>
    obtain ⟨-, rfl⟩ := step_worker.2.2.1.mp hstep
    exact hsame rfl rfl
  | finish =>
    obtain ⟨task, -, rfl⟩ := step_worker.2.2.2.mp hstep
    exact hsame rfl rfl
  | _ =>
    obtain ⟨-, rfl⟩ := Machine.taken hstep
    exact hsame rfl rfl

/-! ## The worker -/

/-- The tasks a list of events pushes. -/
def pushes : List (QueueEvent τ) → List τ
  | [] => []
  | .push task :: es => task :: pushes es
  | _ :: es => pushes es

theorem pushes_append (es fs : List (QueueEvent τ)) :
    pushes (es ++ fs) = pushes es ++ pushes fs := by
  induction es with
  | nil => rfl
  | cons e es ih => cases e <;> simp [pushes, ih]

/-- The worker leaves `process_tasks` only when `stop` is set and the queue is empty. -/
theorem step_exits {q q' : TaskQueue τ} {e : QueueEvent τ} (hstep : q.step e = some q')
    (hbefore : q.worker ≠ .exited) (hafter : q'.worker = .exited) :
    e = .enter ∧ q.stop = true ∧ q.tasks = [] := by
  cases e with
  | enter =>
    obtain ⟨-, rfl⟩ := step_worker.2.1.mp hstep
    refine ⟨rfl, ?_⟩
    unfold processTasks at hafter
    split at hafter
    · rename_i htasks
      by_cases hstop : q.stop = true
      · exact ⟨hstop, htasks⟩
      · rw [if_neg hstop] at hafter
        cases hafter
    · cases hafter
  | join =>
    obtain ⟨-, -, rfl⟩ := step_worker.1.mp hstep
    exact absurd hafter hbefore
  | wake =>
    obtain ⟨-, rfl⟩ := step_worker.2.2.1.mp hstep
    cases hafter
  | finish =>
    obtain ⟨task, -, rfl⟩ := step_worker.2.2.2.mp hstep
    cases hafter
  | notifyOne =>
    obtain ⟨-, rfl⟩ := Machine.taken hstep
    exact absurd (Worker.notify_eq_exited.mp hafter) hbefore
  | notifyAll =>
    obtain ⟨-, rfl⟩ := Machine.taken hstep
    exact absurd (Worker.notify_eq_exited.mp hafter) hbefore
  | _ =>
    obtain ⟨-, rfl⟩ := Machine.taken hstep
    exact absurd hafter hbefore

/-- The task that a step completes. -/
def executes (q : TaskQueue τ) : QueueEvent τ → List τ
  | .finish => q.worker.current
  | _ => []

/-- What a step adds to the history, and who moves the destructor on. -/
theorem step_records {q q' : TaskQueue τ} {e : QueueEvent τ} (hstep : q.step e = some q') :
    q'.pushed = q.pushed ++ pushes [e] ∧ q'.finished = q.finished ++ q.executes e ∧
    (e.ofDestructor = false → q'.destructor = q.destructor) := by
  have hnone (xs : List τ) : xs = xs ++ [] := (List.append_nil xs).symm
  cases e with
  | push task =>
    obtain ⟨-, rfl⟩ := Machine.taken hstep
    exact ⟨rfl, hnone _, fun _ => rfl⟩
  | notifyOne =>
    obtain ⟨-, rfl⟩ := Machine.taken hstep
    exact ⟨hnone _, hnone _, fun _ => rfl⟩
  | setStop =>
    obtain ⟨-, rfl⟩ := Machine.taken hstep
    exact ⟨hnone _, hnone _, fun hmoves => by cases hmoves⟩
  | notifyAll =>
    obtain ⟨-, rfl⟩ := Machine.taken hstep
    exact ⟨hnone _, hnone _, fun hmoves => by cases hmoves⟩
  | join =>
    obtain ⟨-, -, rfl⟩ := step_worker.1.mp hstep
    exact ⟨hnone _, hnone _, fun hmoves => by cases hmoves⟩
  | enter =>
    obtain ⟨-, rfl⟩ := step_worker.2.1.mp hstep
    obtain ⟨hpushed, hfinished, hdestructor⟩ := q.processTasks_frame
    exact ⟨hpushed.trans (hnone _), hfinished.trans (hnone _), fun _ => hdestructor⟩
  | wake =>
    obtain ⟨-, rfl⟩ := step_worker.2.2.1.mp hstep
    exact ⟨hnone _, hnone _, fun _ => rfl⟩
  | finish =>
    obtain ⟨task, hworker, rfl⟩ := step_worker.2.2.2.mp hstep
    refine ⟨hnone _, ?_, fun _ => rfl⟩
    rw [executes, hworker]
    rfl

/-! ## Runs -/

/-- What holds of the queue after the events `past`: all that was pushed before `stop`
was set has been executed when the worker leaves. -/
structure History (past : List (QueueEvent τ)) (q : TaskQueue τ) : Prop where
  inv : Inv q
  pushed : q.pushed = pushes past
  drained : q.worker = .exited → ∀ before after, past = before ++ .setStop :: after →
    pushes before <+: q.finished

theorem history_new : History [] (new : TaskQueue τ) := by
  refine ⟨inv_new, rfl, ?_⟩
  intro hexited
  cases hexited

/-- When the worker leaves, it has executed all that was pushed. -/
theorem finished_of_step_exits {q q' : TaskQueue τ} {e : QueueEvent τ} (hinv : Inv q)
    (hstep : q.step e = some q') (hbefore : q.worker ≠ .exited) (hafter : q'.worker = .exited) :
    q'.finished = q'.pushed := by
  have hinv' := inv_step hinv hstep
  obtain ⟨rfl, hstop, htasks⟩ := step_exits hstep hbefore hafter
  obtain ⟨-, rfl⟩ := step_worker.2.1.mp hstep
  have htasks' : q.processTasks.tasks = [] := by
    simp [processTasks, htasks, hstop]
  have hqueued := hinv'.queued
  have hcurrent := hinv'.current
  rw [htasks', List.append_nil] at hqueued
  rw [hafter] at hcurrent
  change _ ++ [] = _ at hcurrent
  rw [List.append_nil] at hcurrent
  rw [hcurrent, hqueued]

theorem history_step {past : List (QueueEvent τ)} {q q' : TaskQueue τ} {e : QueueEvent τ}
    (h : History past q) (hstep : q.step e = some q') : History (past ++ [e]) q' := by
  have hpushed : q'.pushed = pushes (past ++ [e]) := by
    rw [(step_records hstep).1, h.pushed, pushes_append]
  refine ⟨inv_step h.inv hstep, hpushed, ?_⟩
  intro hafter before after hpast
  by_cases hbefore : q.worker = .exited
  · have hsame : q'.finished = q.finished := by
      rw [(step_records hstep).2.1]
      cases e <;> simp [executes, hbefore, Worker.current]
    rw [hsame]
    rcases List.eq_nil_or_concat after with rfl | ⟨rest, last, rfl⟩
    · -- `stop` is not set twice
      obtain ⟨-, hlast⟩ := List.append_inj' hpast rfl
      cases List.singleton_inj.mp hlast
      obtain ⟨hcalled, -⟩ := Machine.taken hstep
      exact absurd hcalled (h.inv.stopped.mp (h.inv.exited hbefore))
    · refine h.drained hbefore before rest ?_
      rw [List.concat_eq_append, ← List.cons_append, ← List.append_assoc] at hpast
      exact (List.append_inj' hpast rfl).1
  · rw [finished_of_step_exits h.inv hstep hbefore hafter, hpushed, hpast, pushes_append]
    exact List.prefix_append _ _

theorem history_of_run {q : TaskQueue τ} {es : List (QueueEvent τ)}
    (hrun : (machine τ).run new es = some q) : History es q :=
  Machine.run_history (R := History) (fun _ _ _ _ h hstep => history_step h hstep) history_new hrun

/-- No wake-up is lost: a worker that waits and has not been notified has nothing to do, or
the notification is still to come. -/
theorem no_lost_wakeup {q : TaskQueue τ} {es : List (QueueEvent τ)}
    (hrun : (machine τ).run new es = some q) (hworker : q.worker = .waiting false) :
    (q.tasks ≠ [] → 0 < q.notifies) ∧ (q.stop = true → q.destructor = .stopping) :=
  (history_of_run hrun).inv.idle hworker

/-- The tasks are executed in the order in which they were pushed, each once and never
two at a time. The worker leaves only when `stop` is set and the queue is empty, and
when the destructor returns, all that was pushed before it set `stop` has been executed. -/
theorem runs_in_order {q : TaskQueue τ} {es : List (QueueEvent τ)}
    (hrun : (machine τ).run new es = some q) :
    q.started ++ q.tasks = pushes es ∧ q.finished ++ q.worker.current = q.started ∧
    q.started.length ≤ q.finished.length + 1 ∧
    (∀ e q', q.step e = some q' → q.worker ≠ .exited → q'.worker = .exited →
      q.stop = true ∧ q.tasks = []) ∧
    (q.destructor = .returned → ∀ before after, es = before ++ .setStop :: after →
      pushes before <+: q.finished) := by
  have h := history_of_run hrun
  refine ⟨?_, h.inv.current, ?_, ?_, ?_⟩
  · rw [h.inv.queued, h.pushed]
  · rw [← h.inv.current, List.length_append]
    exact Nat.add_le_add_left q.worker.current_length _
  · intro e q' hstep hbefore hafter
    exact (step_exits hstep hbefore hafter).2
  · intro hreturned
    exact h.drained (h.inv.joined hreturned)

/-- `stop` is set while a task is executed, another waits and a third is still to be
pushed. -/
theorem runs_in_order_joined : ∃ q, (machine Nat).run new
    [.push 1, .notifyOne, .enter, .push 2, .setStop, .push 3, .notifyAll, .finish, .enter,
      .finish, .enter, .finish, .enter, .join] = some q ∧
    q.destructor = .returned ∧ q.started ++ q.tasks = [1, 2, 3] ∧ [1, 2] <+: q.finished := by
  obtain ⟨q, hrun, htest⟩ := Machine.run_of_any (machine Nat) new
    [.push 1, .notifyOne, .enter, .push 2, .setStop, .push 3, .notifyAll, .finish, .enter,
      .finish, .enter, .finish, .enter, .join]
    (fun q => q.destructor == .returned) (by decide)
  rw [beq_iff_eq] at htest
  obtain ⟨hall, -, -, -, hdrained⟩ := runs_in_order hrun
  exact ⟨q, hrun, htest, hall, hdrained htest [.push 1, .notifyOne, .enter, .push 2] _ rfl⟩

/-! ## Progress -/

/-- How many steps the worker may still take before it has nothing to do. -/
def work (q : TaskQueue τ) : Nat :=
  3 * q.tasks.length +
    match q.worker with
    | .executing _ => 3
    | .waiting _ => 2
    | .entering => 1
    | .exited => 0

/-- A worker that is there and has something to do goes on with it. -/
theorem exists_step_work {q : TaskQueue τ} (hworker : q.worker ≠ .exited)
    (hwork : q.worker.current ++ q.tasks ≠ []) :
    (∃ q', q.step .enter = some q' ∧ q'.work < q.work) ∨
    (∃ q', q.step .wake = some q' ∧ q'.work < q.work) ∨
    ∃ task q', q.worker = .executing task ∧ q.step .finish = some q' ∧ q'.work < q.work := by
  cases hat : q.worker with
  | entering =>
    left
    refine ⟨q.processTasks, step_worker.2.1.mpr ⟨hat, rfl⟩, ?_⟩
    rw [hat] at hwork
    cases htasks : q.tasks with
    | nil => exact absurd htasks hwork
    | cons task rest =>
      simp only [work, processTasks, htasks, hat, List.length_cons]
      omega
  | waiting notified =>
    right
    left
    refine ⟨{ q with worker := .entering }, step_worker.2.2.1.mpr ⟨⟨notified, hat⟩, rfl⟩, ?_⟩
    simp only [work, hat]
    omega
  | executing task =>
    right
    right
    refine ⟨task, _, rfl, step_worker.2.2.2.mpr ⟨task, hat, rfl⟩, ?_⟩
    simp only [work, hat]
    omega
  | exited => exact absurd hat hworker

/-! ## Wake-ups -/

/-- The steps that the threads make by themselves: no new call, and no return of
`cv.wait` without a notification. -/
def prompted (q : TaskQueue τ) : QueueEvent τ → Bool
  | .push _ => false
  | .setStop => false
  | .wake =>
    match q.worker with
    | .waiting notified => notified
    | _ => false
  | _ => true

/-- The threads by themselves. -/
def threads (τ : Type*) : Machine (TaskQueue τ) (QueueEvent τ) := (machine τ).only prompted

/-- The steps of the worker until it waits, when there is no task. -/
def workerLeft : Worker τ → Nat
  | .executing _ => 3
  | .waiting notified => if notified then 3 else 0
  | .entering => 2
  | .exited => 0

/-- The steps of the destructor, and of the worker that it wakes. -/
def destructorLeft : Destructor → Nat
  | .stopping => 5
  | .joining => 1
  | _ => 0

/-- How many steps the threads have left by themselves at most. -/
def left (q : TaskQueue τ) : Nat :=
  4 * q.tasks.length + 4 * q.notifies + workerLeft q.worker + destructorLeft q.destructor

theorem workerLeft_notify (w : Worker τ) : workerLeft w.notify ≤ workerLeft w + 3 := by
  cases w with
  | waiting notified => exact Nat.le_add_left _ _
  | _ => exact Nat.le_add_right _ _

theorem left_step {q q' : TaskQueue τ} {e : QueueEvent τ} (hprompted : q.prompted e = true)
    (hstep : q.step e = some q') : q'.left < q.left := by
  cases e with
  | push task => cases hprompted
  | setStop => cases hprompted
  | notifyOne =>
    obtain ⟨hpending, rfl⟩ := Machine.taken hstep
    have hworker := workerLeft_notify q.worker
    simp only [left]
    omega
  | notifyAll =>
    obtain ⟨hstopping, rfl⟩ := Machine.taken hstep
    have hworker := workerLeft_notify q.worker
    simp only [left, hstopping, destructorLeft]
    omega
  | join =>
    obtain ⟨hjoining, -, rfl⟩ := step_worker.1.mp hstep
    simp only [left, hjoining, destructorLeft]
    omega
  | enter =>
    obtain ⟨hworker, rfl⟩ := step_worker.2.1.mp hstep
    unfold processTasks
    split
    · rename_i htasks
      split <;> simp [left, hworker, htasks, workerLeft]
    · rename_i task rest htasks
      simp only [left, hworker, htasks, workerLeft, List.length_cons]
      omega
  | wake =>
    obtain ⟨⟨notified, hworker⟩, rfl⟩ := step_worker.2.2.1.mp hstep
    simp only [prompted, hworker] at hprompted
    simp only [left, hworker, workerLeft, hprompted, if_true]
    omega
  | finish =>
    obtain ⟨task, hworker, rfl⟩ := step_worker.2.2.2.mp hstep
    simp only [left, hworker, workerLeft]
    omega

/-- When the threads have no step left, the worker is gone or waits with nothing to do,
and the destructor has not been called or has returned. -/
theorem at_rest {q : TaskQueue τ} (hinv : Inv q) (hrest : ∀ e, (threads τ).step q e = none) :
    (q.worker = .exited ∨ q.tasks = []) ∧
      (q.destructor = .notCalled ∨ q.destructor = .returned) := by
  have hnone : ∀ e q', q.prompted e = true → q.step e ≠ some q' := by
    intro e q' hprompted hstep
    have htaken : (threads τ).step q e = some q' := Machine.only_step.mpr ⟨hprompted, hstep⟩
    rw [hrest e] at htaken
    cases htaken
  have hpending : q.notifies = 0 := by
    by_contra hpending
    exact hnone .notifyOne _ rfl (if_pos (Nat.pos_of_ne_zero hpending))
  have hstopping : q.destructor ≠ .stopping := fun hstopping =>
    hnone .notifyAll _ rfl (if_pos hstopping)
  cases hworker : q.worker with
  | entering => exact absurd (step_worker.2.1.mpr ⟨hworker, rfl⟩) (hnone .enter _ rfl)
  | executing task =>
    exact absurd (step_worker.2.2.2.mpr ⟨task, hworker, rfl⟩) (hnone .finish _ rfl)
  | waiting notified =>
    cases notified with
    | true =>
      have hprompted : q.prompted .wake = true := by
        simp only [prompted, hworker]
      exact absurd (step_worker.2.2.1.mpr ⟨⟨true, hworker⟩, rfl⟩) (hnone .wake _ hprompted)
    | false =>
      obtain ⟨htasks, hstop⟩ := hinv.idle hworker
      refine ⟨Or.inr ?_, Or.inl ?_⟩
      · by_contra hmore
        have hlater := htasks hmore
        omega
      · by_contra hcalled
        exact hstopping (hstop (hinv.stopped.mpr hcalled))
  | exited =>
    refine ⟨Or.inl rfl, ?_⟩
    have hcalled := hinv.stopped.mp (hinv.exited hworker)
    cases hdestructor : q.destructor with
    | notCalled => exact absurd hdestructor hcalled
    | stopping => exact absurd hdestructor hstopping
    | joining =>
      exact absurd (step_worker.1.mpr ⟨hdestructor, hworker, rfl⟩) (hnone .join _ rfl)
    | returned => exact Or.inr rfl

/-- A worker that waits without a notification while there is something to do will get
one from a thread that is behind its critical section. By themselves the threads come to
rest, and then no task is left to a worker that waits and no destructor waits for it. -/
theorem wakeup_to_come {q : TaskQueue τ} {es : List (QueueEvent τ)}
    (hrun : (machine τ).run new es = some q) :
    (q.worker = .waiting false → q.tasks ≠ [] ∨ q.stop = true →
      0 < q.notifies ∨ q.destructor = .stopping) ∧
    ∀ fs q', (threads τ).run q fs = some q' →
      fs.length ≤ q.left ∧
      ((∀ e, (threads τ).step q' e = none) →
        (q'.worker = .exited ∨ q'.tasks = []) ∧
          (q'.destructor = .notCalled ∨ q'.destructor = .returned)) := by
  constructor
  · intro hworker hwork
    obtain ⟨htasks, hstop⟩ := no_lost_wakeup hrun hworker
    rcases hwork with hwork | hwork
    · exact Or.inl (htasks hwork)
    · exact Or.inr (hstop hwork)
  · intro fs q' hrun'
    constructor
    · have hle := Machine.run_length_le (m := threads τ) (I := fun _ => True) (f := left)
        (fun s e t _ hstep => by
          obtain ⟨hprompted, hstep⟩ := Machine.only_step.mp hstep
          exact ⟨trivial, left_step hprompted hstep⟩) trivial hrun'
      omega
    · exact at_rest (history_of_run (Machine.run_append hrun (Machine.only_run hrun'))).inv

/-- A task is pushed while the worker waits. -/
theorem wakeup_to_come_pushed : ∃ q, (machine Nat).run new [.enter, .push 1] = some q ∧
    q.worker = .waiting false ∧ q.tasks = [1] ∧ (0 < q.notifies ∨ q.destructor = .stopping) := by
  obtain ⟨q, hrun, htest⟩ := Machine.run_of_any (machine Nat) new [.enter, .push 1]
    (fun q => q.worker == .waiting false && q.tasks == [1]) (by decide)
  rw [Bool.and_eq_true, beq_iff_eq, beq_iff_eq] at htest
  refine ⟨q, hrun, htest.1, htest.2, (wakeup_to_come hrun).1 htest.1 (Or.inl ?_)⟩
  rw [htest.2]
  exact List.cons_ne_nil 1 []

end TaskQueue

end ServerAsync
