import ServerAsync.Misc.Machine
import ServerAsync.Misc.Parts

/-!
# `HttpServer::start` and `stop`

Behind the launch of the workers, `start` runs the `io_context` like them. `stop`, called
by another thread, and the handler of SIGINT and SIGTERM stop the `io_context`, behind
which its `run` returns in every thread. Both functions go through the workers in `v`
and join each of them: a `join` starts, and it returns once its thread has exited.
-/

namespace ServerAsync

open Misc

/-- The two functions that join the workers. -/
inductive Caller where
  | start
  | stop
  deriving DecidableEq, Repr

/-- A `std::thread` as the functions see it. -/
inductive ThreadState where
  | joinable
  | joining (c : Caller)
  | joined
  deriving DecidableEq, Repr

/-- A worker in `v`, with the number of times it was joined and the number of joins of it
that began while it was joined or had been. -/
structure WorkerThread where
  exited : Bool
  thread : ThreadState
  joins : Nat
  misjoins : Nat
  deriving DecidableEq, Repr

/-- Where one of the functions is. -/
inductive Place where
  /-- In `ioc.run()`, or not called yet. -/
  | running
  /-- In the loop, before the join of a worker or behind the last one. -/
  | looping (k : Nat)
  | blocked (k : Nat)
  | returned
  /-- Left with the `std::system_error` of a join of a thread that was joined before. -/
  | threw
  /-- In a join of a thread that is being joined, of which nothing is known. -/
  | undefined
  deriving DecidableEq, Repr

/-- The threads of a server whose workers have been launched. -/
structure ServerThreads where
  stopped : Bool
  v : List WorkerThread
  start : Place
  stop : Place
  deriving DecidableEq, Repr

/-- The steps of the threads. -/
inductive ThreadEvent where
  | signal
  | workerExits (k : Nat)
  | runReturns
  | stopCalled
  | join (c : Caller)
  | joined (c : Caller)
  deriving DecidableEq, Repr

namespace ServerThreads

/-- The state behind the launch of the workers. -/
def launched (threads : Nat) : ServerThreads where
  stopped := false
  v := List.replicate (threads - 1) ⟨false, .joinable, 0, 0⟩
  start := .running
  stop := .running

def place (s : ServerThreads) : Caller → Place
  | .start => s.start
  | .stop => s.stop

def goTo (s : ServerThreads) (c : Caller) (p : Place) : ServerThreads :=
  match c with
  | .start => { s with start := p }
  | .stop => { s with stop := p }

def setWorker (s : ServerThreads) (k : Nat) (w : WorkerThread) : ServerThreads :=
  { s with v := s.v.set k w }

/-- The next iteration of the loop, up to the call of `join`. -/
def join (s : ServerThreads) (c : Caller) (k : Nat) : ServerThreads :=
  match s.v[k]? with
  | none => s.goTo c .returned
  | some w =>
    match w.thread with
    | .joinable => (s.setWorker k { w with thread := .joining c }).goTo c (.blocked k)
    | .joined => (s.setWorker k { w with misjoins := w.misjoins + 1 }).goTo c .threw
    | .joining _ => (s.setWorker k { w with misjoins := w.misjoins + 1 }).goTo c .undefined

/-- `join` returns. -/
def joined (s : ServerThreads) (c : Caller) (k : Nat) (w : WorkerThread) : ServerThreads :=
  (s.setWorker k { w with thread := .joined, joins := w.joins + 1 }).goTo c (.looping (k + 1))

/-- The step of a thread, `none` when it is not there. -/
def step (s : ServerThreads) : ThreadEvent → Option ServerThreads
  | .signal => if s.stopped = false then some { s with stopped := true } else none
  | .workerExits k =>
    (s.v[k]?).bind fun w =>
      if s.stopped = true ∧ w.exited = false then some (s.setWorker k { w with exited := true })
      else none
  | .runReturns =>
    if s.start = .running ∧ s.stopped = true then some (s.goTo .start (.looping 0)) else none
  | .stopCalled =>
    if s.stop = .running then some ({ s with stopped := true }.goTo .stop (.looping 0)) else none
  | .join c =>
    match s.place c with
    | .looping k => some (s.join c k)
    | _ => none
  | .joined c =>
    match s.place c with
    | .blocked k =>
      (s.v[k]?).bind fun w => if w.exited = true then some (s.joined c k w) else none
    | _ => none

/-- The threads of a server as a machine. -/
def machine : Machine ServerThreads ThreadEvent := ⟨step⟩

/-- Every worker has been joined once, nobody has tried to join it twice, and both
functions have returned. -/
def Clean (s : ServerThreads) : Prop :=
  (∀ w ∈ s.v, w.joins = 1 ∧ w.misjoins = 0) ∧ s.start = .returned ∧ s.stop = .returned

/-- There is no step left. -/
def Final (s : ServerThreads) : Prop := ∀ e, s.step e = none

/-! ## The invariant -/

/-- Whether a function has called `join` for the first worker. -/
def tried : Place → Nat
  | .running => 0
  | .looping 0 => 0
  | _ => 1

/-- How often `join` was called for a worker. -/
def tries (w : WorkerThread) : Nat := (if w.thread = .joinable then 0 else 1) + w.misjoins

@[simp] theorem goTo_v (s : ServerThreads) (c : Caller) (p : Place) : (s.goTo c p).v = s.v := by
  cases c <;> rfl

@[simp] theorem goTo_stopped (s : ServerThreads) (c : Caller) (p : Place) :
    (s.goTo c p).stopped = s.stopped := by
  cases c <;> rfl

@[simp] theorem goTo_place_self (s : ServerThreads) (c : Caller) (p : Place) :
    (s.goTo c p).place c = p := by
  cases c <;> rfl

theorem goTo_place_of_ne {s : ServerThreads} {c d : Caller} (h : d ≠ c) (p : Place) :
    (s.goTo c p).place d = s.place d := by
  cases c <;> cases d <;> first | rfl | exact absurd rfl h

@[simp] theorem setWorker_length (s : ServerThreads) (k : Nat) (w : WorkerThread) :
    (s.setWorker k w).v.length = s.v.length := List.length_set

@[simp] theorem setWorker_place (s : ServerThreads) (k : Nat) (w : WorkerThread) (c : Caller) :
    (s.setWorker k w).place c = s.place c := by
  cases c <;> rfl

theorem goTo_tried (s : ServerThreads) (c : Caller) (p : Place) :
    tried (s.goTo c p).start + tried (s.goTo c p).stop + tried (s.place c) =
      tried s.start + tried s.stop + tried p := by
  cases c with
  | start =>
    change tried p + tried s.stop + tried s.start = tried s.start + tried s.stop + tried p
    omega
  | stop =>
    change tried s.start + tried p + tried s.stop = tried s.start + tried s.stop + tried p
    omega

/-- What holds of the threads of a server with `workers` workers. -/
structure Inv (workers : Nat) (s : ServerThreads) : Prop where
  length_eq : s.v.length = workers
  stopped : ∀ c, s.place c ≠ .running → s.stopped = true
  blocked : ∀ c k, s.place c = .blocked k → ∃ w, s.v[k]? = some w ∧ w.thread ≠ .joinable
  left : ∀ c, s.place c = .threw ∨ s.place c = .undefined → 0 < workers
  first : ∀ w, s.v[0]? = some w → tries w = tried s.start + tried s.stop

theorem inv_launched (threads : Nat) : Inv (threads - 1) (launched threads) := by
  refine ⟨List.length_replicate, fun c h => ?_, fun c k h => ?_, fun c h => ?_, ?_⟩
  · cases c <;> exact absurd rfl h
  · cases c <;> cases h
  · cases c <;> rcases h with h | h <;> cases h
  · intro w hw
    rw [List.eq_of_mem_replicate (List.mem_of_getElem? hw)]
    rfl

/-- A function goes on to another place, and nothing else happens. -/
theorem Inv.goTo {workers : Nat} {s : ServerThreads} (h : Inv workers s) {c : Caller} {p : Place}
    (hstopped : s.stopped = true) (hblocked : ∀ k, p ≠ .blocked k)
    (hleft : p = .threw ∨ p = .undefined → 0 < workers)
    (htried : 0 < workers → tried p = tried (s.place c)) : Inv workers (s.goTo c p) := by
  refine ⟨?_, fun _ _ => ?_, fun d k hd => ?_, fun d hd => ?_, fun w hw => ?_⟩
  · rw [goTo_v]
    exact h.length_eq
  · rw [goTo_stopped]
    exact hstopped
  · rw [goTo_v]
    by_cases heq : d = c
    · rw [heq, goTo_place_self] at hd
      exact absurd hd (hblocked k)
    · rw [goTo_place_of_ne heq] at hd
      exact h.blocked d k hd
  · by_cases heq : d = c
    · rw [heq, goTo_place_self] at hd
      exact hleft hd
    · rw [goTo_place_of_ne heq] at hd
      exact h.left d hd
  · rw [goTo_v] at hw
    have hlt : 0 < workers := by
      rw [← h.length_eq]
      exact (List.getElem?_eq_some_iff.mp hw).1
    have hsum := s.goTo_tried c p
    rw [htried hlt] at hsum
    rw [h.first w hw]
    omega

/-- A worker changes, and a function goes on with as many calls of `join` as the worker
has got. -/
theorem Inv.setWorker {workers : Nat} {s : ServerThreads} (h : Inv workers s) {c : Caller}
    {p : Place} {k : Nat} {w w' : WorkerThread} (hw : s.v[k]? = some w)
    (hstopped : s.stopped = true) (hthread : w.thread ≠ .joinable → w'.thread ≠ .joinable)
    (hblocked : ∀ j, p = .blocked j → s.place c = p ∨ j = k ∧ w'.thread ≠ .joinable)
    (htries : k = 0 → tries w' + tried (s.place c) = tries w + tried p)
    (htried : k ≠ 0 → tried p = tried (s.place c)) :
    Inv workers ((s.setWorker k w').goTo c p) := by
  have hself : (s.setWorker k w').v[k]? = some w' := Parts.getElem?_set_of_some hw
  have hold : ∀ d j, s.place d = .blocked j →
      ∃ u, (s.setWorker k w').v[j]? = some u ∧ u.thread ≠ .joinable := by
    intro d j hd
    obtain ⟨u, hu, hjoined⟩ := h.blocked d j hd
    by_cases heq : j = k
    · rw [heq, hw] at hu
      cases Option.some.inj hu
      exact ⟨w', by rw [heq, hself], hthread hjoined⟩
    · exact ⟨u, (List.getElem?_set_ne (Ne.symm heq)).trans hu, hjoined⟩
  refine ⟨?_, fun _ _ => ?_, fun d j hd => ?_, fun d hd => ?_, fun u hu => ?_⟩
  · rw [goTo_v, setWorker_length]
    exact h.length_eq
  · rw [goTo_stopped]
    exact hstopped
  · rw [goTo_v]
    by_cases heq : d = c
    · rw [heq, goTo_place_self] at hd
      rcases hblocked j hd with hsame | ⟨rfl, hjoined⟩
      · exact hold c j (hsame.trans hd)
      · exact ⟨w', hself, hjoined⟩
    · rw [goTo_place_of_ne heq, setWorker_place] at hd
      exact hold d j hd
  · rw [← h.length_eq]
    exact Nat.zero_lt_of_lt (List.getElem?_eq_some_iff.mp hw).1
  · rw [goTo_v] at hu
    have hsum := (s.setWorker k w').goTo_tried c p
    rw [setWorker_place] at hsum
    change tried ((s.setWorker k w').goTo c p).start + tried ((s.setWorker k w').goTo c p).stop +
      tried (s.place c) = tried s.start + tried s.stop + tried p at hsum
    by_cases hzero : k = 0
    · subst hzero
      rw [← Option.some.inj (hself.symm.trans hu)]
      have hfirst := h.first w hw
      have hcalls := htries rfl
      omega
    · rw [ServerThreads.setWorker, List.getElem?_set_ne hzero] at hu
      rw [h.first u hu]
      have hsame := htried hzero
      omega

theorem step_workerExits {s t : ServerThreads} {k : Nat}
    (hstep : s.step (.workerExits k) = some t) :
    ∃ w, s.v[k]? = some w ∧ s.stopped = true ∧ w.exited = false ∧
      t = s.setWorker k { w with exited := true } := by
  obtain ⟨w, hw, htaken⟩ := Option.bind_eq_some_iff.mp hstep
  obtain ⟨⟨hstopped, hexited⟩, rfl⟩ := Machine.taken htaken
  exact ⟨w, hw, hstopped, hexited, rfl⟩

theorem step_join {s t : ServerThreads} {c : Caller} (hstep : s.step (.join c) = some t) :
    ∃ k, s.place c = .looping k ∧ t = s.join c k := by
  simp only [step] at hstep
  split at hstep
  · rename_i k hk
    exact ⟨k, hk, (Option.some.inj hstep).symm⟩
  · cases hstep

theorem step_joined {s t : ServerThreads} {c : Caller} (hstep : s.step (.joined c) = some t) :
    ∃ k w, s.place c = .blocked k ∧ s.v[k]? = some w ∧ w.exited = true ∧ t = s.joined c k w := by
  simp only [step] at hstep
  split at hstep
  · rename_i k hk
    obtain ⟨w, hw, htaken⟩ := Option.bind_eq_some_iff.mp hstep
    obtain ⟨hexited, rfl⟩ := Machine.taken htaken
    exact ⟨k, w, hk, hw, hexited, rfl⟩
  · cases hstep

theorem inv_join {workers : Nat} {s : ServerThreads} (h : Inv workers s) {c : Caller} {k : Nat}
    (hstopped : s.stopped = true) (hc : s.place c = .looping k) : Inv workers (s.join c k) := by
  unfold join
  split
  · rename_i hnone
    refine h.goTo hstopped (fun j hj => ?_) (fun hleft => ?_) fun hworkers => ?_
    · cases hj
    · rcases hleft with hleft | hleft <;> cases hleft
    · rw [hc]
      rw [List.getElem?_eq_none_iff, h.length_eq] at hnone
      cases k with
      | zero => omega
      | succ k => rfl
  · rename_i w hw
    have htried : k ≠ 0 → 1 = tried (s.place c) := by
      intro hk
      rw [hc]
      cases k with
      | zero => exact absurd rfl hk
      | succ k => rfl
    split
    · rename_i hthread
      refine h.setWorker hw hstopped (fun _ => ?_) (fun j hj => ?_) (fun hk => ?_) htried
      · simp
      · cases hj
        exact Or.inr ⟨rfl, by simp⟩
      · rw [hc, hk]
        simp [tries, tried, hthread, Nat.add_comm]
    · rename_i hthread
      refine h.setWorker hw hstopped (fun hold => hold) (fun j hj => ?_) (fun hk => ?_) htried
      · cases hj
      · rw [hc, hk]
        simp [tries, tried, hthread, Nat.add_assoc]
    · rename_i d hthread
      refine h.setWorker hw hstopped (fun hold => hold) (fun j hj => ?_) (fun hk => ?_) htried
      · cases hj
      · rw [hc, hk]
        simp [tries, tried, hthread, Nat.add_assoc]

theorem Inv.stop {workers : Nat} {s : ServerThreads} (h : Inv workers s) :
    Inv workers { s with stopped := true } := by
  refine ⟨h.length_eq, fun _ _ => rfl, fun c k hc => ?_, fun c hc => ?_, h.first⟩
  · exact h.blocked c k (by cases c <;> exact hc)
  · exact h.left c (by cases c <;> exact hc)

theorem inv_step {workers : Nat} {s t : ServerThreads} {e : ThreadEvent} (h : Inv workers s)
    (hstep : s.step e = some t) : Inv workers t := by
  cases e with
  | signal =>
    obtain ⟨-, rfl⟩ := Machine.taken hstep
    exact h.stop
  | workerExits k =>
    obtain ⟨w, hw, hstopped, -, rfl⟩ := step_workerExits hstep
    have hsame : (s.setWorker k { w with exited := true }).goTo .start s.start =
        s.setWorker k { w with exited := true } := rfl
    rw [← hsame]
    exact h.setWorker (c := .start) hw hstopped (fun hold => hold) (fun _ _ => Or.inl rfl)
      (fun _ => rfl) fun _ => rfl
  | runReturns =>
    obtain ⟨⟨hrunning, hstopped⟩, rfl⟩ := Machine.taken hstep
    refine h.goTo hstopped (fun k hk => ?_) (fun hleft => ?_) fun _ => ?_
    · cases hk
    · rcases hleft with hleft | hleft <;> cases hleft
    · rw [place, hrunning]
      rfl
  | stopCalled =>
    obtain ⟨hrunning, rfl⟩ := Machine.taken hstep
    refine h.stop.goTo rfl (fun k hk => ?_) (fun hleft => ?_) fun _ => ?_
    · cases hk
    · rcases hleft with hleft | hleft <;> cases hleft
    · change tried (.looping 0) = tried s.stop
      rw [hrunning]
      rfl
  | join c =>
    obtain ⟨k, hk, rfl⟩ := step_join hstep
    exact inv_join h (h.stopped c (by simp [hk])) hk
  | joined c =>
    obtain ⟨k, w, hk, hw, -, rfl⟩ := step_joined hstep
    obtain ⟨u, hu, hjoined⟩ := h.blocked c k hk
    cases Option.some.inj (hw.symm.trans hu)
    refine h.setWorker hw (h.stopped c (by simp [hk])) (fun _ => ?_) (fun j hj => ?_)
      (fun _ => ?_) fun _ => ?_
    · simp
    · cases hj
    · rw [hk]
      simp [tries, tried, hjoined]
    · rw [hk]
      rfl

theorem inv_of_run {threads : Nat} {s : ServerThreads} {es : List ThreadEvent}
    (hrun : machine.run (launched threads) es = some s) : Inv (threads - 1) s :=
  Machine.run_invariant (I := Inv (threads - 1)) (fun _ _ _ => inv_step) (inv_launched threads)
    hrun

/-! ## The end of a run -/

/-- The steps that a function has left, with so many workers. -/
def stepsLeft (workers : Nat) : Place → Nat
  | .running => 2 * workers + 2
  | .looping k => 2 * (workers - k) + 1
  | .blocked k => 2 * (workers - k)
  | _ => 0

/-- The steps that the threads have left at most. -/
def work (s : ServerThreads) : Nat :=
  (if s.stopped then 0 else 1) + (s.v.countP fun w => !w.exited) +
    (stepsLeft s.v.length s.start + stepsLeft s.v.length s.stop)

theorem stepsLeft_goTo {s t : ServerThreads} {c : Caller} {p : Place} (ht : t = s.goTo c p)
    (n : Nat) :
    stepsLeft n t.start + stepsLeft n t.stop + stepsLeft n (s.place c) =
      stepsLeft n s.start + stepsLeft n s.stop + stepsLeft n p := by
  subst ht
  cases c with
  | start =>
    change stepsLeft n p + stepsLeft n s.stop + stepsLeft n s.start = _
    omega
  | stop =>
    change stepsLeft n s.start + stepsLeft n p + stepsLeft n s.stop = _
    omega

/-- A function that goes on has less left to do. -/
theorem work_goTo {s : ServerThreads} {c : Caller} {p : Place}
    (hless : stepsLeft s.v.length p < stepsLeft s.v.length (s.place c)) :
    (s.goTo c p).work < s.work := by
  have hsum := stepsLeft_goTo (s := s) (c := c) (p := p) rfl s.v.length
  rw [work, work, goTo_v, goTo_stopped]
  omega

/-- A worker that changes leaves as much to do as before, up to its own exit. -/
theorem work_setWorker {s : ServerThreads} {k : Nat} {w w' : WorkerThread}
    (hw : s.v[k]? = some w) :
    (s.setWorker k w').work + w'.exited.toNat = s.work + w.exited.toNat := by
  obtain ⟨hk, hget⟩ := List.getElem?_eq_some_iff.mp hw
  have hpos : w.exited = false → 0 < s.v.countP fun w => !w.exited := by
    intro hexited
    rw [List.countP_pos_iff]
    exact ⟨w, List.mem_of_getElem? hw, by rw [hexited]; rfl⟩
  have hcount : ((s.v.set k w').countP fun w => !w.exited) + w'.exited.toNat =
      (s.v.countP fun w => !w.exited) + w.exited.toNat := by
    rw [List.countP_set hk, hget]
    cases hold : w.exited with
    | true => cases w'.exited <;> simp
    | false =>
      have hle := hpos hold
      cases w'.exited with
      | true => simp; omega
      | false => simp; omega
  have hlen : (s.v.set k w').length = s.v.length := List.length_set
  change (if s.stopped then 0 else 1) + (s.v.set k w').countP (fun w => !w.exited) +
    (stepsLeft (s.v.set k w').length s.start + stepsLeft (s.v.set k w').length s.stop) +
    w'.exited.toNat = _
  rw [hlen, work]
  omega

theorem work_step {s t : ServerThreads} {e : ThreadEvent} (hstep : s.step e = some t) :
    t.work < s.work := by
  cases e with
  | signal =>
    obtain ⟨hrunning, rfl⟩ := Machine.taken hstep
    simp only [work, hrunning, if_true, Bool.false_eq_true, if_false]
    omega
  | workerExits k =>
    obtain ⟨w, hw, -, hexited, rfl⟩ := step_workerExits hstep
    have hwork : (s.setWorker k { w with exited := true }).work + 1 = s.work + w.exited.toNat :=
      work_setWorker hw
    rw [hexited, Bool.toNat_false] at hwork
    omega
  | runReturns =>
    obtain ⟨⟨hrunning, -⟩, rfl⟩ := Machine.taken hstep
    apply work_goTo
    rw [place, hrunning]
    exact Nat.lt_succ_self _
  | stopCalled =>
    obtain ⟨hrunning, rfl⟩ := Machine.taken hstep
    have hgoes : ({ s with stopped := true }.goTo .stop (.looping 0)).work <
        { s with stopped := true }.work := by
      apply work_goTo
      change _ < stepsLeft s.v.length s.stop
      rw [hrunning]
      exact Nat.lt_succ_self _
    have hstopped : { s with stopped := true }.work ≤ s.work := by
      simp only [work, if_true]
      omega
    exact Nat.lt_of_lt_of_le hgoes hstopped
  | join c =>
    obtain ⟨k, hk, rfl⟩ := step_join hstep
    unfold join
    split
    · apply work_goTo
      rw [hk]
      exact Nat.succ_pos _
    · rename_i w hw
      have hgoes : ∀ w' : WorkerThread, ∀ p, w'.exited = w.exited →
          stepsLeft s.v.length p ≤ 2 * (s.v.length - k) →
          ((s.setWorker k w').goTo c p).work < s.work := by
        intro w' p hexited hp
        have hsame : (s.setWorker k w').work + w'.exited.toNat = s.work + w.exited.toNat :=
          work_setWorker hw
        rw [hexited] at hsame
        have hless : ((s.setWorker k w').goTo c p).work < (s.setWorker k w').work := by
          apply work_goTo
          rw [setWorker_place, setWorker_length, hk]
          exact Nat.lt_succ_of_le hp
        omega
      split
      · exact hgoes _ _ rfl (Nat.le_refl _)
      · exact hgoes _ _ rfl (Nat.zero_le _)
      · exact hgoes _ _ rfl (Nat.zero_le _)
  | joined c =>
    obtain ⟨k, w, hk, hw, -, rfl⟩ := step_joined hstep
    have hsame : (s.setWorker k { w with thread := .joined, joins := w.joins + 1 }).work +
        w.exited.toNat = s.work + w.exited.toNat := work_setWorker hw
    have hless : (s.joined c k w).work <
        (s.setWorker k { w with thread := .joined, joins := w.joins + 1 }).work := by
      apply work_goTo
      have hlt : k < s.v.length := (List.getElem?_eq_some_iff.mp hw).1
      rw [setWorker_place, setWorker_length, hk]
      simp only [stepsLeft]
      omega
    omega

/-- When there is no step left, neither function is under way. -/
theorem place_of_final {workers : Nat} {s : ServerThreads} (h : Inv workers s) (hfinal : Final s)
    (c : Caller) : s.place c = .returned ∨ s.place c = .threw ∨ s.place c = .undefined := by
  have hstop : s.stop ≠ .running := by
    intro hrunning
    have hnone := hfinal .stopCalled
    simp [step, hrunning] at hnone
  have hstopped : s.stopped = true := h.stopped .stop hstop
  cases hplace : s.place c with
  | running =>
    cases c with
    | start =>
      have hnone := hfinal .runReturns
      change s.start = .running at hplace
      simp [step, hplace, hstopped] at hnone
    | stop => exact absurd hplace hstop
  | looping k =>
    have hnone := hfinal (.join c)
    simp [step, hplace] at hnone
  | blocked k =>
    obtain ⟨w, hw, -⟩ := h.blocked c k hplace
    cases hexited : w.exited with
    | true =>
      have hnone := hfinal (.joined c)
      simp [step, hplace, hw, hexited] at hnone
    | false =>
      have hnone := hfinal (.workerExits k)
      simp [step, hw, hstopped, hexited] at hnone
  | returned => exact Or.inl rfl
  | threw => exact Or.inr (Or.inl rfl)
  | undefined => exact Or.inr (Or.inr rfl)

/-- Both functions call `join` for every worker. -/
theorem misjoined_of_final {workers : Nat} {s : ServerThreads} (h : Inv workers s)
    (hfinal : Final s) (hworkers : 0 < workers) : ∃ w ∈ s.v, 0 < w.misjoins := by
  rw [← h.length_eq] at hworkers
  have hw : s.v[0]? = some s.v[0] := List.getElem?_eq_getElem hworkers
  have htried : ∀ c, tried (s.place c) = 1 := by
    intro c
    rcases place_of_final h hfinal c with hplace | hplace | hplace <;> rw [hplace] <;> rfl
  have hcalls := h.first _ hw
  have hstart := htried .start
  have hstop := htried .stop
  change tried s.start = 1 at hstart
  change tried s.stop = 1 at hstop
  refine ⟨s.v[0], List.mem_of_getElem? hw, ?_⟩
  rw [tries, hstart, hstop] at hcalls
  split at hcalls <;> omega

/-- The threads come to an end, and the shutdown is clean exactly when there are no
workers to join. -/
theorem shutdown_clean_iff {threads : Nat} (hthreads : 1 ≤ threads) {s : ServerThreads}
    {es : List ThreadEvent} (hrun : machine.run (launched threads) es = some s) :
    es.length ≤ (launched threads).work ∧ (s.Final → (s.Clean ↔ threads = 1)) := by
  have h := inv_of_run hrun
  constructor
  · have hle := Machine.run_length_le (I := fun _ => True) (f := work)
      (fun _ _ _ _ hstep => ⟨trivial, work_step hstep⟩) trivial hrun
    omega
  · intro hfinal
    constructor
    · rintro ⟨hjoined, -, -⟩
      by_contra hmore
      obtain ⟨w, hw, hmisjoins⟩ := misjoined_of_final h hfinal (by omega)
      rw [(hjoined w hw).2] at hmisjoins
      exact Nat.lt_irrefl 0 hmisjoins
    · rintro rfl
      have hreturned : ∀ c, s.place c = .returned := by
        intro c
        rcases place_of_final h hfinal c with hplace | hplace
        · exact hplace
        · exact absurd (h.left c hplace) (Nat.lt_irrefl 0)
      refine ⟨fun w hw => ?_, hreturned .start, hreturned .stop⟩
      rw [List.length_eq_zero_iff.mp h.length_eq] at hw
      cases hw

/-- One thread, stopped by another one. -/
theorem shutdown_clean_iff_one : ∃ s,
    machine.run (launched 1) [.stopCalled, .join .stop, .runReturns, .join .start] = some s ∧
      s.Final ∧ s.Clean := by
  have hfinal : Final ⟨true, [], .returned, .returned⟩ := by
    intro e
    cases e with
    | join c => cases c <;> rfl
    | joined c => cases c <;> rfl
    | _ => rfl
  have hrun : machine.run (launched 1) [.stopCalled, .join .stop, .runReturns, .join .start] =
      some ⟨true, [], .returned, .returned⟩ := rfl
  exact ⟨_, hrun, hfinal, ((shutdown_clean_iff (Nat.le_refl 1) hrun).2 hfinal).mpr rfl⟩

/-- With a worker, `stop` is left with an exception when `start` has joined it before. -/
theorem worker_joined_twice : ∃ s,
    machine.run (launched 2) [.stopCalled, .workerExits 0, .runReturns, .join .start,
      .joined .start, .join .start, .join .stop] = some s ∧
      s.Final ∧ s.stop = .threw ∧ ¬ s.Clean := by
  have hfinal : Final ⟨true, [⟨true, .joined, 1, 1⟩], .returned, .threw⟩ := by
    intro e
    cases e with
    | join c => cases c <;> rfl
    | joined c => cases c <;> rfl
    | workerExits k => cases k <;> rfl
    | _ => rfl
  refine ⟨_, rfl, hfinal, rfl, ?_⟩
  rintro ⟨-, -, hstop⟩
  cases hstop

end ServerThreads

end ServerAsync
