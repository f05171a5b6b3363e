import ServerAsync.TaskResults

/-!
# `TaskQueue` is a map of results

What the client is told is what a `ResultMap` tells it: the shared states are filled in
the order of submission, and an entry of `task_results` is the number of a submission. The
simulation holds on every run that does not take the result of a command that threw.
-/

namespace ServerAsync

open Misc

namespace TaskResults

variable {ε : Type*}

/-- What an event is to the map. -/
def label : ResultEvent ε → ResultMap.Event Text (Outcome ε)
  | .runCommandAsync taskId => .submit taskId
  | .queryTaskResult taskId (.returns status) => .query taskId (some (decide (status = 1)))
  | .queryTaskResult taskId _ => .query taskId none
  | .getReturn taskId (.returns result) => .fetch taskId (.returned result)
  | .getReturn taskId (.rethrows exception) => .fetch taskId (.threw exception)
  | .execute outcome => .execute outcome
  | _ => .silent

/-- The state `s` of the queue and the client stands for the map `m`. -/
structure Simulates (s : TaskResults ε) (m : ResultMap Text (Outcome ε)) : Prop where
  inv : s.queue.Inv
  alive : s.queue.destructor = .notCalled
  pushed : s.queue.pushed = List.range m.submitted
  finished : s.queue.finished.length = m.results.length
  length : s.states.length = m.submitted
  states : ∀ n < m.submitted, s.states[n]? = some m.results[n]?
  entries : ∀ taskId, (s.taskResults taskId = none ∧ m.slots taskId = none) ∨
    ∃ n, s.taskResults taskId = some ⟨n, true⟩ ∧ m.slots taskId = some n ∧ n < m.submitted

theorem simulates_new : Simulates (new : TaskResults ε) .empty := by
  refine ⟨TaskQueue.inv_new, rfl, rfl, rfl, rfl, ?_, fun _ => Or.inl ⟨rfl, rfl⟩⟩
  intro n hn
  cases hn

theorem Simulates.allValid {s : TaskResults ε} {m : ResultMap Text (Outcome ε)}
    (h : Simulates s m) : s.AllValid := by
  intro taskId future hentry
  rcases h.entries taskId with ⟨hnone, -⟩ | ⟨n, hsome, -, -⟩
  · rw [hnone] at hentry
    cases hentry
  · rw [hsome] at hentry
    cases Option.some.inj hentry
    rfl

/-- A future is ready when the map has a result for its submission. -/
theorem Simulates.outcome {s : TaskResults ε} {m : ResultMap Text (Outcome ε)}
    (h : Simulates s m) {n : Nat} (hn : n < m.submitted) (valid : Bool) :
    s.outcome ⟨n, valid⟩ = m.results[n]? := by
  rw [TaskResults.outcome, h.states n hn, Option.join_some]

/-- No more is executed than was submitted. -/
theorem Simulates.results_le {s : TaskResults ε} {m : ResultMap Text (Outcome ε)}
    (h : Simulates s m) : m.results.length ≤ m.submitted := by
  have hqueued := congrArg List.length h.inv.queued
  have hcurrent := congrArg List.length h.inv.current
  rw [h.pushed, List.length_range, List.length_append] at hqueued
  rw [List.length_append, h.finished] at hcurrent
  omega

/-- The worker executes the submissions in order. -/
theorem Simulates.executing {s : TaskResults ε} {m : ResultMap Text (Outcome ε)}
    (h : Simulates s m) {n : Nat} (hworker : s.queue.worker = .executing n) :
    n = m.results.length ∧ n < m.submitted := by
  have hqueued := h.inv.queued
  rw [← h.inv.current, hworker, h.pushed] at hqueued
  have hat : (List.range m.submitted)[s.queue.finished.length]? = some n := by
    rw [← hqueued]
    simp [Worker.current]
  rw [List.getElem?_eq_some_iff] at hat
  obtain ⟨hlt, hn⟩ := hat
  rw [List.getElem_range] at hn
  rw [List.length_range] at hlt
  rw [← hn, ← h.finished]
  exact ⟨rfl, hlt⟩

theorem Simulates.worker_alive {s : TaskResults ε} {m : ResultMap Text (Outcome ε)}
    (h : Simulates s m) : s.queue.worker ≠ .exited := by
  intro hexited
  exact h.inv.stopped.mp (h.inv.exited hexited) h.alive

/-- While a result is missing, the worker has something to do. -/
theorem Simulates.left_to_do {s : TaskResults ε} {m : ResultMap Text (Outcome ε)}
    (h : Simulates s m) {n : Nat} (hn : n < m.submitted) (hmissing : m.results.length ≤ n) :
    s.queue.worker.current ++ s.queue.tasks ≠ [] := by
  intro hnil
  have hqueued := congrArg List.length h.inv.queued
  rw [← h.inv.current, List.append_assoc, hnil, List.append_nil, h.pushed, List.length_range,
    h.finished] at hqueued
  omega

/-- A step of the queue that neither pushes nor completes a task is silent. -/
theorem Simulates.of_queue {s : TaskResults ε} {m : ResultMap Text (Outcome ε)}
    (h : Simulates s m) {e : QueueEvent Nat} {queue : TaskQueue Nat} (client : Client)
    (hstep : s.queue.step e = some queue) (hpush : TaskQueue.pushes [e] = [])
    (hfinish : s.queue.executes e = []) (hmoves : e.ofDestructor = false) :
    Simulates { s with queue := queue, client := client } m := by
  obtain ⟨hpushed, hfinished, hdestructor⟩ := TaskQueue.step_records hstep
  rw [hpush, List.append_nil] at hpushed
  rw [hfinish, List.append_nil] at hfinished
  refine ⟨TaskQueue.inv_step h.inv hstep, ?_, ?_, ?_, h.length, h.states, h.entries⟩
  · exact (hdestructor hmoves).trans h.alive
  · exact hpushed.trans h.pushed
  · exact (congrArg List.length hfinished).trans h.finished

/-- A new submission. -/
theorem Simulates.submit {s : TaskResults ε} {m : ResultMap Text (Outcome ε)}
    (h : Simulates s m) {queue : TaskQueue Nat} (taskId : Text)
    (hstep : s.queue.step (.push s.states.length) = some queue) :
    Simulates (s.runCommandAsync taskId queue) (m.submit taskId) := by
  obtain ⟨hpushed, hfinished, hdestructor⟩ := TaskQueue.step_records hstep
  refine ⟨TaskQueue.inv_step h.inv hstep, (hdestructor rfl).trans h.alive, ?_, ?_, ?_, ?_, ?_⟩
  · change queue.pushed = List.range (m.submitted + 1)
    rw [hpushed, h.pushed, h.length, List.range_succ]
    rfl
  · change queue.finished.length = m.results.length
    rw [hfinished, ← h.finished]
    exact congrArg List.length (List.append_nil _)
  · simp [runCommandAsync, ResultMap.submit, h.length]
  · intro n hn
    change (s.states ++ [none])[n]? = some m.results[n]?
    by_cases hlast : n < m.submitted
    · rw [List.getElem?_append_left (by rwa [h.length])]
      exact h.states n hlast
    · have hnth : n = s.states.length := by
        change n < m.submitted + 1 at hn
        rw [h.length]
        omega
      rw [hnth, List.getElem?_concat_length, List.getElem?_eq_none]
      rw [h.length]
      exact h.results_le
  · intro other
    by_cases hother : other = taskId
    · subst hother
      refine Or.inr ⟨m.submitted, ?_, m.submit_slots_self other, Nat.lt_succ_self _⟩
      rw [s.runCommandAsync_taskResults_self, h.length]
    · rw [s.runCommandAsync_taskResults_of_ne queue hother, m.submit_slots_of_ne hother]
      rcases h.entries other with hnone | ⟨n, hentry, hslot, hn⟩
      · exact Or.inl hnone
      · exact Or.inr ⟨n, hentry, hslot, Nat.lt_succ_of_lt hn⟩

/-- A command is over. -/
theorem Simulates.execute {s : TaskResults ε} {m : ResultMap Text (Outcome ε)}
    (h : Simulates s m) {queue : TaskQueue Nat} {n : Nat} (outcome : Outcome ε)
    (hworker : s.queue.worker = .executing n) (hstep : s.queue.step .finish = some queue) :
    Simulates { s with queue := queue, states := s.states.set n (some outcome) }
      { m with results := m.results ++ [outcome] } := by
  obtain ⟨hpushed, hfinished, hdestructor⟩ := TaskQueue.step_records hstep
  obtain ⟨hn, hlt⟩ := h.executing hworker
  refine ⟨TaskQueue.inv_step h.inv hstep, (hdestructor rfl).trans h.alive, ?_, ?_, ?_, ?_,
    h.entries⟩
  · change queue.pushed = List.range m.submitted
    rw [hpushed, h.pushed]
    exact List.append_nil _
  · change queue.finished.length = (m.results ++ [outcome]).length
    rw [hfinished, List.length_append, List.length_append, h.finished, TaskQueue.executes, hworker]
    rfl
  · change (s.states.set n (some outcome)).length = m.submitted
    rw [List.length_set, h.length]
  · intro i hi
    change (s.states.set n (some outcome))[i]? = some (m.results ++ [outcome])[i]?
    by_cases hat : i = n
    · rw [hat, List.getElem?_set_self (by rwa [h.length]), hn, List.getElem?_concat_length]
    · rw [List.getElem?_set_ne (Ne.symm hat), h.states i hi]
      by_cases hbefore : i < m.results.length
      · rw [List.getElem?_append_left hbefore]
      · rw [List.getElem?_eq_none (by omega), List.getElem?_eq_none]
        rw [List.length_append, List.length_singleton]
        omega

/-- An entry is gone. -/
theorem Simulates.remove {s : TaskResults ε} {m : ResultMap Text (Outcome ε)}
    (h : Simulates s m) (taskId : Text) (client : Client) :
    Simulates { s with
      taskResults := Function.update s.taskResults taskId none, client := client }
      (m.remove taskId) := by
  refine ⟨h.inv, h.alive, h.pushed, h.finished, h.length, h.states, fun other => ?_⟩
  by_cases hother : other = taskId
  · subst hother
    exact Or.inl ⟨Function.update_self .., m.remove_slots_self other⟩
  · change (Function.update s.taskResults taskId none other = none ∧ _) ∨ ∃ n,
      Function.update s.taskResults taskId none other = _ ∧ _
    rw [Function.update_of_ne hother, m.remove_slots_of_ne hother]
    exact h.entries other

/-- What `query_task_result` tells. -/
theorem Simulates.queryTaskResult {s : TaskResults ε} {m : ResultMap Text (Outcome ε)}
    (h : Simulates s m) (taskId : Text) :
    (m.slots taskId = none ∧ s.queryTaskResult taskId = .outOfRange) ∨
    ∃ n, m.slots taskId = some n ∧
      s.queryTaskResult taskId = .returns (if n < m.results.length then 1 else 0) := by
  unfold TaskResults.queryTaskResult
  rcases h.entries taskId with ⟨hentry, hslot⟩ | ⟨n, hentry, hslot, hn⟩
  · rw [hentry]
    exact Or.inl ⟨hslot, rfl⟩
  · refine Or.inr ⟨n, hslot, ?_⟩
    simp only [hentry, if_true, h.outcome hn]
    by_cases hready : n < m.results.length
    · rw [List.getElem?_eq_getElem hready, if_pos hready]
    · rw [List.getElem?_eq_none (Nat.le_of_not_lt hready), if_neg hready]

/-- What `get_task_result` tells, and that it removes the entry. -/
theorem Simulates.getTaskResult {s : TaskResults ε} {m : ResultMap Text (Outcome ε)}
    (h : Simulates s m) {taskId : Text} {answer : Answer ε Text}
    {taskResults : Text → Option Future} (hfetch : ¬ s.FetchesFailure (.getReturn taskId answer))
    (hget : s.getTaskResult taskId = some (answer, taskResults)) :
    ((m.slots taskId = none ∧ answer = .returns []) ∨
      ∃ n result, m.slots taskId = some n ∧ m.results[n]? = some (.returned result) ∧
        answer = .returns result) ∧
    taskResults = Function.update s.taskResults taskId none := by
  rcases getTaskResult_cases h.allValid hfetch hget with
    ⟨hnone, rfl, rfl⟩ | ⟨future, result, hsome, houtcome, rfl, rfl⟩
  · rcases h.entries taskId with ⟨-, hslot⟩ | ⟨n, hentry, -, -⟩
    · refine ⟨Or.inl ⟨hslot, rfl⟩, ?_⟩
      exact (Function.update_eq_self_iff.mpr hnone.symm).symm
    · rw [hnone] at hentry
      cases hentry
  · rcases h.entries taskId with ⟨hentry, -⟩ | ⟨n, hentry, hslot, hn⟩
    · rw [hsome] at hentry
      cases hentry
    · rw [hsome] at hentry
      cases Option.some.inj hentry
      rw [h.outcome hn] at houtcome
      exact ⟨Or.inr ⟨n, result, hslot, houtcome, rfl⟩, rfl⟩

/-! ## Commands that return -/

/-- The command that the worker executes throws. -/
def Throws : ResultEvent ε → Prop
  | .execute (.threw _) => True
  | _ => False

/-- No shared state holds an exception. -/
def NoFailure (s : TaskResults ε) : Prop :=
  ∀ exception, some (.threw exception) ∉ s.states

theorem NoFailure.not_fetches {s : TaskResults ε} (h : s.NoFailure) (e : ResultEvent ε) :
    ¬ s.FetchesFailure e := by
  intro hfetch
  cases e with
  | getReturn taskId answer =>
    obtain ⟨future, exception, -, hthrew⟩ := hfetch
    rw [outcome, Option.join_eq_some_iff] at hthrew
    exact h exception (List.mem_of_getElem? hthrew)
  | _ => exact hfetch

/-! ## The simulation -/

variable [DecidableEq ε]

/-- Each step is one of the map. -/
theorem simulates_step {s s' : TaskResults ε} {m : ResultMap Text (Outcome ε)}
    {e : ResultEvent ε} (h : Simulates s m) (hfetch : ¬ s.FetchesFailure e)
    (hstep : s.step e = some s') :
    ∃ m', (ResultMap.machine Text (.returned [])).step m (label e) = some m' ∧
      Simulates s' m' := by
  cases e with
  | runCommandAsync taskId =>
    obtain ⟨-, queue, hpush, rfl⟩ := (step_client.1 taskId).mp hstep
    exact ⟨_, rfl, h.submit taskId hpush⟩
  | notifyOne =>
    obtain ⟨-, queue, hnotify, rfl⟩ := step_client.2.1.mp hstep
    exact ⟨m, rfl, h.of_queue .idle hnotify rfl rfl rfl⟩
  | queryTaskResult taskId answer =>
    obtain ⟨⟨-, rfl⟩, rfl⟩ := Machine.taken hstep
    refine ⟨m, ?_, h⟩
    rcases h.queryTaskResult taskId with ⟨hslot, hanswer⟩ | ⟨n, hslot, hanswer⟩
    · rw [hanswer]
      simp [ResultMap.machine, ResultMap.step, label, ResultMap.query, hslot]
    · rw [hanswer]
      simp [ResultMap.machine, ResultMap.step, label, ResultMap.query, hslot]
  | getTaskResult taskId =>
    obtain ⟨-, rfl⟩ := Machine.taken hstep
    exact ⟨m, rfl, h.inv, h.alive, h.pushed, h.finished, h.length, h.states, h.entries⟩
  | getReturn taskId answer =>
    obtain ⟨-, taskResults, hget, rfl⟩ := (step_client.2.2 taskId answer).mp hstep
    obtain ⟨hanswer, rfl⟩ := h.getTaskResult hfetch hget
    refine ⟨m.remove taskId, ?_, h.remove taskId .idle⟩
    rcases hanswer with ⟨hslot, rfl⟩ | ⟨n, result, hslot, hresult, rfl⟩
    · simp [ResultMap.machine, ResultMap.step, label, ResultMap.fetch, hslot]
    · simp [ResultMap.machine, ResultMap.step, label, ResultMap.fetch, hslot, hresult]
  | enter =>
    obtain ⟨queue, henter, rfl⟩ := step_worker.1.mp hstep
    exact ⟨m, rfl, h.of_queue s.client henter rfl rfl rfl⟩
  | wake =>
    obtain ⟨queue, hwake, rfl⟩ := step_worker.2.1.mp hstep
    exact ⟨m, rfl, h.of_queue s.client hwake rfl rfl rfl⟩
  | execute outcome =>
    obtain ⟨n, queue, hworker, hfinish, rfl⟩ := (step_worker.2.2 outcome).mp hstep
    refine ⟨{ m with results := m.results ++ [outcome] }, ?_, h.execute outcome hworker hfinish⟩
    obtain ⟨rfl, hlt⟩ := h.executing hworker
    exact if_pos hlt

/-- So is each run that does not take the result of a command that threw. -/
theorem simulates_of_run {s : TaskResults ε} {es : List (ResultEvent ε)}
    (hmeets : (machine ε).Meets (fun s e => ¬ s.FetchesFailure e) new es)
    (hrun : (machine ε).run new es = some s) :
    ∃ m, (ResultMap.machine Text (.returned [])).run .empty (es.map label) = some m ∧
      Simulates s m :=
  Machine.run_simulates (R := Simulates)
    (fun _ _ _ _ h hfetch hstep => simulates_step h hfetch hstep) simulates_new hmeets hrun

/-! ## A blocked call is answered -/

/-- A step of the worker brings it nearer to having nothing to do, whatever comes of the
command it executes. -/
theorem Simulates.step_worker {s : TaskResults ε} {m : ResultMap Text (Outcome ε)}
    (h : Simulates s m) (outcome : Outcome ε) {n : Nat} (hn : n < m.submitted)
    (hmissing : m.results.length ≤ n) :
    ∃ e s' m', (e = .enter ∨ e = .wake ∨ e = .execute outcome) ∧ s.step e = some s' ∧
      Simulates s' m' ∧ s'.queue.work < s.queue.work ∧ s'.client = s.client := by
  rcases TaskQueue.exists_step_work h.worker_alive (h.left_to_do hn hmissing) with
    ⟨queue, hstep, hwork⟩ | ⟨queue, hstep, hwork⟩ | ⟨task, queue, hworker, hstep, hwork⟩
  · exact ⟨.enter, _, m, Or.inl rfl, TaskResults.step_worker.1.mpr ⟨queue, hstep, rfl⟩,
      h.of_queue s.client hstep rfl rfl rfl, hwork, rfl⟩
  · exact ⟨.wake, _, m, Or.inr (Or.inl rfl), TaskResults.step_worker.2.1.mpr ⟨queue, hstep, rfl⟩,
      h.of_queue s.client hstep rfl rfl rfl, hwork, rfl⟩
  · exact ⟨.execute outcome, _, _, Or.inr (Or.inr rfl),
      (TaskResults.step_worker.2.2 outcome).mpr ⟨task, queue, hworker, hstep, rfl⟩,
      h.execute outcome hworker hstep, hwork, rfl⟩

/-- Steps of the worker alone get a blocked `get_task_result` answered. -/
theorem Simulates.answered {s : TaskResults ε} {m : ResultMap Text (Outcome ε)}
    (h : Simulates s m) (outcome : Outcome ε) {taskId : Text}
    (hclient : s.client = .getting taskId) :
    ∃ ws s' answer, (∀ e ∈ ws, e = .enter ∨ e = .wake ∨ e = .execute outcome) ∧
      (machine ε).run s ws = some s' ∧ (s'.step (.getReturn taskId answer)).isSome = true := by
  induction hwork : s.queue.work using Nat.strongRecOn generalizing s m with
  | ind k ih =>
    have hready : ∀ answer taskResults, s.getTaskResult taskId = some (answer, taskResults) →
        ∃ ws s' answer, (∀ e ∈ ws, e = .enter ∨ e = .wake ∨ e = .execute outcome) ∧
          (machine ε).run s ws = some s' ∧
          (s'.step (.getReturn taskId answer)).isSome = true := by
      intro answer taskResults hget
      refine ⟨[], s, answer, ?_, rfl, ?_⟩
      · intro e he
        cases he
      · exact Option.isSome_iff_exists.mpr
          ⟨_, (step_client.2.2 taskId answer).mpr ⟨hclient, taskResults, hget, rfl⟩⟩
    rcases h.entries taskId with ⟨hentry, -⟩ | ⟨n, hentry, -, hn⟩
    · exact hready _ _ (getTaskResult_of_none hentry)
    · cases houtcome : s.outcome ⟨n, true⟩ with
      | some left =>
        cases left with
        | returned result => exact hready _ _ (getTaskResult_of_returned hentry rfl houtcome)
        | threw exception => exact hready _ _ (getTaskResult_of_threw hentry rfl houtcome)
      | none =>
        rw [h.outcome hn, List.getElem?_eq_none_iff] at houtcome
        obtain ⟨e, s₁, m₁, he, hstep, h₁, hless, hsame⟩ := h.step_worker outcome hn houtcome
        rw [hwork] at hless
        obtain ⟨ws, s', answer, hws, hrun, hanswered⟩ :=
          ih s₁.queue.work hless h₁ (hsame.trans hclient) rfl
        refine ⟨e :: ws, s', answer, ?_, Machine.run_cons_eq_some.mpr ⟨s₁, hstep, hrun⟩,
          hanswered⟩
        intro e' he'
        rcases List.mem_cons.mp he' with rfl | he'
        · exact he
        · exact hws e' he'

theorem noFailure_step {s s' : TaskResults ε} {e : ResultEvent ε} (h : s.NoFailure)
    (hreturns : ¬ Throws e) (hstep : s.step e = some s') : s'.NoFailure := by
  intro exception hmem
  rcases (step_effects hstep).1 with hsame | hsubmitted | ⟨n, outcome, rfl, hexecuted⟩
  · rw [hsame] at hmem
    exact h exception hmem
  · rw [hsubmitted] at hmem
    rcases List.mem_append.mp hmem with hmem | hmem
    · exact h exception hmem
    · cases List.mem_singleton.mp hmem
  · rw [hexecuted] at hmem
    rcases List.mem_or_eq_of_mem_set hmem with hmem | hmem
    · exact h exception hmem
    · cases Option.some.inj hmem
      exact hreturns trivial

theorem noFailure_of_run {s : TaskResults ε} {es : List (ResultEvent ε)}
    (hreturns : ∀ e ∈ es, ¬ Throws e) (hrun : (machine ε).run new es = some s) :
    s.NoFailure ∧ (machine ε).Meets (fun s e => ¬ s.FetchesFailure e) new es := by
  have hnew : NoFailure (new : TaskResults ε) := fun exception => List.not_mem_nil
  have hmeets : (machine ε).Meets (fun _ e => ¬ Throws e) new es :=
    Machine.meets_of_forall fun _ => hreturns
  have hstep : ∀ (s : TaskResults ε) (e : ResultEvent ε) (s' : TaskResults ε), s.NoFailure →
      ¬ Throws e → (machine ε).step s e = some s' → s'.NoFailure :=
    fun _ _ _ h hreturns hstep => noFailure_step h hreturns hstep
  exact ⟨Machine.run_invariant_of_meets hstep hnew hmeets hrun,
    hmeets.mono hstep (fun _ e _ h _ _ => h.not_fetches e) hnew hrun⟩

/-! ## Runs -/

omit [DecidableEq ε] in
/-- The last submission under `taskId` is submission number `n`, and its result has not
been fetched. -/
def Latest (es : List (ResultEvent ε)) (taskId : Text) (n : Nat) : Prop :=
  ResultMap.Latest (es.map label) taskId n

omit [DecidableEq ε] in
/-- What the commands executed so far have left. -/
def outcomes (es : List (ResultEvent ε)) : List (Outcome ε) :=
  ResultMap.executed (es.map label)

/-- When the commands return, the queue refines a map of results: the worker executes the
submissions in order, `query_task_result` and `get_task_result` tell what has come of the
last submission under the id that has not been fetched, a fetch removes this one entry
and is answered once the worker has gone on, and no call acts on a consumed future. -/
theorem refines_result_map {s : TaskResults ε} {es : List (ResultEvent ε)}
    (hreturns : ∀ e ∈ es, ¬ Throws e) (hrun : (machine ε).run new es = some s) :
    (∃ m, (ResultMap.machine Text (.returned [])).run .empty (es.map label) = some m ∧
      Simulates s m) ∧
    (∀ n, s.queue.worker = .executing n → n = (outcomes es).length) ∧
    (∀ taskId answer s', s.step (.queryTaskResult taskId answer) = some s' → s' = s ∧
      ((∀ n, ¬ Latest es taskId n) ∧ answer = .outOfRange ∨ ∃ n, Latest es taskId n ∧
        answer = .returns (if n < (outcomes es).length then 1 else 0))) ∧
    (∀ taskId answer s', s.step (.getReturn taskId answer) = some s' →
      ((∀ n, ¬ Latest es taskId n) ∧ answer = .returns [] ∨ ∃ n result, Latest es taskId n ∧
        (outcomes es)[n]? = some (.returned result) ∧ answer = .returns result) ∧
      s'.taskResults = Function.update s.taskResults taskId none) ∧
    (∀ taskId result, s.client = .getting taskId → ∃ ws s' answer,
      (∀ e ∈ ws, e = .enter ∨ e = .wake ∨ e = .execute (.returned result)) ∧
      (machine ε).run s ws = some s' ∧
      (s'.step (.getReturn taskId answer)).isSome = true) ∧
    (∀ e s', s.step e = some s' → ¬ OnConsumed e) := by
  obtain ⟨hfailure, hmeets⟩ := noFailure_of_run hreturns hrun
  obtain ⟨m, hmap, h⟩ := simulates_of_run hmeets hrun
  have hhistory := ResultMap.history_of_run hmap
  have hresults : m.results = outcomes es := hhistory.results
  refine ⟨⟨m, hmap, h⟩, ?_, ?_, ?_, ?_, ?_⟩
  · intro n hworker
    rw [← hresults]
    exact (h.executing hworker).1
  · intro taskId answer s' hstep
    obtain ⟨⟨-, rfl⟩, rfl⟩ := Machine.taken hstep
    refine ⟨rfl, ?_⟩
    rw [← hresults]
    rcases h.queryTaskResult taskId with ⟨hslot, hanswer⟩ | ⟨n, hslot, hanswer⟩
    · exact Or.inl ⟨(hhistory.slots_eq_none taskId).mp hslot, hanswer⟩
    · exact Or.inr ⟨n, (hhistory.slots taskId n).mp hslot, hanswer⟩
  · intro taskId answer s' hstep
    obtain ⟨-, taskResults, hget, rfl⟩ := (step_client.2.2 taskId answer).mp hstep
    obtain ⟨hanswer, hremoved⟩ := h.getTaskResult (hfailure.not_fetches _) hget
    refine ⟨?_, hremoved⟩
    rw [← hresults]
    rcases hanswer with ⟨hslot, rfl⟩ | ⟨n, result, hslot, hresult, rfl⟩
    · exact Or.inl ⟨(hhistory.slots_eq_none taskId).mp hslot, rfl⟩
    · exact Or.inr ⟨n, result, (hhistory.slots taskId n).mp hslot, hresult, rfl⟩
  · intro taskId result hclient
    exact h.answered (.returned result) hclient
  · intro e s' hstep
    exact (step_answers h.allValid (hfailure.not_fetches e) hstep).1

/-- A second submission under an id whose first one is still queued. -/
theorem refines_result_map_resubmitted : ∃ (s s' : TaskResults Unit) (m : ResultMap Text _),
    (machine Unit).run new
      [.runCommandAsync ['a'], .notifyOne, .runCommandAsync ['a'], .notifyOne, .enter,
        .execute (.returned ['x']), .enter, .queryTaskResult ['a'] (.returns 0),
        .execute (.returned ['y']), .getTaskResult ['a']] = some s ∧
    s.step (.getReturn ['a'] (.returns ['y'])) = some s' ∧ s'.taskResults ['a'] = none ∧
    Simulates s m := by
  obtain ⟨s, hrun, htest⟩ := Machine.run_of_any (machine Unit) new
    [.runCommandAsync ['a'], .notifyOne, .runCommandAsync ['a'], .notifyOne, .enter,
      .execute (.returned ['x']), .enter, .queryTaskResult ['a'] (.returns 0),
      .execute (.returned ['y']), .getTaskResult ['a']]
    (fun s => (s.step (.getReturn ['a'] (.returns ['y']))).isSome) (by decide)
  obtain ⟨s', hstep⟩ := Option.isSome_iff_exists.mp htest
  obtain ⟨⟨m, -, h⟩, -, -, hget, -, -⟩ := refines_result_map (by simp [Throws]) hrun
  refine ⟨s, s', m, hrun, hstep, ?_, h⟩
  rw [(hget ['a'] _ s' hstep).2, Function.update_self]

end TaskResults

end ServerAsync
