import ServerAsync.Misc.Machine
import ServerAsync.Misc.Parts
import ServerAsync.Text

/-!
# The threads of the client

`start` of `ClientPoolSsl` launches threads that run the `io_context`, and then goes through
all threads of the pool: it joins them, or, when it is not to block, detaches them. The work
guard keeps the `io_context` running until `stop`, which waits for nobody.
-/

namespace ServerAsync

open Misc

/-- What a `std::thread` stands for. -/
inductive Handle where
  | joinable
  | joined
  | detached
  deriving DecidableEq, Repr

/-- An element of `thread_pool`, and whether its `ioc.run()` has returned. -/
structure PoolThread where
  exited : Bool
  handle : Handle
  deriving DecidableEq, Repr

/-- Where `start` is: not called, before the launch of a thread, before the visit of one, or
in the `join` of one. -/
inductive StartPlace where
  | outside
  | launching (blocking : Bool) (i : Nat)
  | visiting (blocking : Bool) (k : Nat)
  | joining (k : Nat)
  deriving DecidableEq, Repr

/-- A pool; `threw` counts the calls of `start` that an exception has left. -/
structure ClientPoolSsl where
  threads : Int
  stopped : Bool
  threadPool : List PoolThread
  place : StartPlace
  threw : Nat

/-- The calls, the steps of `start`, and the end of a thread. -/
inductive PoolEvent where
  | start (blocking : Bool)
  | launch
  | visit
  | joined
  | exits (k : Nat)
  | stop

/-- The argument of a call of `start`. -/
def PoolEvent.mode : PoolEvent → Option Bool
  | .start blocking => some blocking
  | _ => none

namespace ClientPoolSsl

def new (threads : Int) : ClientPoolSsl := ⟨threads, false, [], .outside, 0⟩

/-- How many threads are launched: `threads` is compared to a `size_t`. -/
def launches (s : ClientPoolSsl) : Nat := Text.toSize s.threads

def setHandle (s : ClientPoolSsl) (k : Nat) (t : PoolThread) (handle : Handle) : ClientPoolSsl :=
  { s with threadPool := s.threadPool.set k { t with handle := handle } }

/-- An iteration of the first loop, or its end. The constructor of `std::thread` is taken to
succeed: it throws when the system has no thread left. -/
def launch (s : ClientPoolSsl) (blocking : Bool) (i : Nat) : ClientPoolSsl :=
  if i < s.launches then
    { s with
      threadPool := s.threadPool ++ [⟨false, .joinable⟩]
      place := .launching blocking (i + 1) }
  else { s with place := .visiting blocking 0 }

/-- An iteration of the second loop up to the `join`, or its end. `detach` throws for a thread
that is not joinable. -/
def visit (s : ClientPoolSsl) (blocking : Bool) (k : Nat) : ClientPoolSsl :=
  match s.threadPool[k]? with
  | none => { s with place := .outside }
  | some t =>
    if blocking then
      if t.handle = .joinable then { s with place := .joining k }
      else { s with place := .visiting true (k + 1) }
    else if t.handle = .joinable then
      { s.setHandle k t .detached with place := .visiting false (k + 1) }
    else { s with place := .outside, threw := s.threw + 1 }

/-- The reaction to an event, `none` when it cannot happen. -/
def step (s : ClientPoolSsl) : PoolEvent → Option ClientPoolSsl
  | .start blocking =>
    if s.place = .outside then some { s with place := .launching blocking 0 } else none
  | .launch =>
    match s.place with
    | .launching blocking i => some (s.launch blocking i)
    | _ => none
  | .visit =>
    match s.place with
    | .visiting blocking k => some (s.visit blocking k)
    | _ => none
  | .joined =>
    match s.place with
    | .joining k => (s.threadPool[k]?).bind fun t =>
      if t.exited = true then
        some { s.setHandle k t .joined with place := .visiting true (k + 1) }
      else none
    | _ => none
  | .exits k => (s.threadPool[k]?).bind fun t =>
    if s.stopped = true ∧ t.exited = false then
      some { s with threadPool := s.threadPool.set k { t with exited := true } }
    else none
  | .stop => some { s with stopped := true }

/-- A pool as a machine. -/
def machine : Machine ClientPoolSsl PoolEvent := ⟨step⟩

/-- The destructor may run: no thread uses the pool any more, and no `std::thread` ends the
program because it is joinable. -/
def Safe (s : ClientPoolSsl) : Prop :=
  ∀ t ∈ s.threadPool, t.exited = true ∧ t.handle ≠ .joinable

variable {s t : ClientPoolSsl}

theorem step_launch (hstep : s.step .launch = some t) :
    ∃ blocking i, s.place = .launching blocking i ∧ s.launch blocking i = t := by
  simp only [step] at hstep
  split at hstep
  · rename_i blocking i hplace
    exact ⟨blocking, i, hplace, Option.some.inj hstep⟩
  · cases hstep

theorem step_visit (hstep : s.step .visit = some t) :
    ∃ blocking k, s.place = .visiting blocking k ∧ s.visit blocking k = t := by
  simp only [step] at hstep
  split at hstep
  · rename_i blocking k hplace
    exact ⟨blocking, k, hplace, Option.some.inj hstep⟩
  · cases hstep

theorem step_joined (hstep : s.step .joined = some t) : ∃ k w, s.place = .joining k ∧
    s.threadPool[k]? = some w ∧ w.exited = true ∧
    { s.setHandle k w .joined with place := .visiting true (k + 1) } = t := by
  simp only [step] at hstep
  split at hstep
  · rename_i k hplace
    obtain ⟨w, hw, htaken⟩ := Option.bind_eq_some_iff.mp hstep
    obtain ⟨hexited, ht⟩ := Machine.taken htaken
    exact ⟨k, w, hplace, hw, hexited, ht⟩
  · cases hstep

theorem step_exits {k : Nat} (hstep : s.step (.exits k) = some t) : ∃ w,
    s.threadPool[k]? = some w ∧ s.stopped = true ∧
    { s with threadPool := s.threadPool.set k { w with exited := true } } = t := by
  obtain ⟨w, hw, htaken⟩ := Option.bind_eq_some_iff.mp hstep
  obtain ⟨⟨hstopped, -⟩, ht⟩ := Machine.taken htaken
  exact ⟨w, hw, hstopped, ht⟩

/-! ## Blocking calls -/

/-- How many threads have been joined when `start` is at a place. -/
def Passed (s : ClientPoolSsl) : StartPlace → Prop
  | .outside => ∀ (k : Nat) (w : PoolThread), s.threadPool[k]? = some w → w.handle = .joined
  | .launching blocking _ => blocking = true
  | .visiting blocking k =>
    blocking = true ∧ ∀ (j : Nat) (w : PoolThread), s.threadPool[j]? = some w → j < k →
      w.handle = .joined
  | .joining k =>
    ∀ (j : Nat) (w : PoolThread), s.threadPool[j]? = some w → j < k → w.handle = .joined

/-- What holds as long as every call of `start` blocks. -/
structure Blocking (s : ClientPoolSsl) : Prop where
  threads : ∀ (k : Nat) (w : PoolThread), s.threadPool[k]? = some w →
    w.handle ≠ .detached ∧ (w.handle = .joined → w.exited = true)
  passed : s.Passed s.place

theorem blocking_new (threads : Int) : (new threads).Blocking where
  threads k w hw := by cases hw
  passed k w hw := by cases hw

/-- Only blocking calls. -/
def Blocks (_ : ClientPoolSsl) (e : PoolEvent) : Prop := e ≠ .start false

theorem Blocking.visit (h : s.Blocking) {blocking : Bool} {k : Nat}
    (hplace : s.place = .visiting blocking k) : (s.visit blocking k).Blocking := by
  have hpassed := h.passed
  rw [hplace] at hpassed
  obtain ⟨rfl, hjoined⟩ := hpassed
  unfold ClientPoolSsl.visit
  split
  · rename_i hnone
    refine ⟨h.threads, fun j w hw => hjoined j w hw ?_⟩
    rw [List.getElem?_eq_none_iff] at hnone
    exact Nat.lt_of_lt_of_le (List.getElem?_eq_some_iff.mp hw).1 hnone
  · rename_i w hw
    rw [if_pos rfl]
    split
    · exact ⟨h.threads, hjoined⟩
    · rename_i hnot
      refine ⟨h.threads, rfl, fun j u hu hj => ?_⟩
      rcases Nat.lt_succ_iff_lt_or_eq.mp hj with hlt | rfl
      · exact hjoined j u hu hlt
      · -- it is not detached either
        cases Option.some.inj (hu.symm.trans hw)
        cases hhandle : w.handle with
        | joinable => exact absurd hhandle hnot
        | joined => rfl
        | detached => exact absurd hhandle (h.threads j w hw).1

theorem blocking_step {e : PoolEvent} (h : s.Blocking) (hblocks : s.Blocks e)
    (hstep : s.step e = some t) : t.Blocking := by
  cases e with
  | start blocking =>
    obtain ⟨-, rfl⟩ := Machine.taken hstep
    refine ⟨h.threads, ?_⟩
    cases blocking with
    | true => rfl
    | false => exact absurd rfl hblocks
  | launch =>
    obtain ⟨blocking, i, hplace, rfl⟩ := step_launch hstep
    have hpassed := h.passed
    rw [hplace] at hpassed
    obtain rfl : blocking = true := hpassed
    unfold ClientPoolSsl.launch
    split
    · refine ⟨Parts.forall_concat h.threads ⟨by simp, fun hno => ?_⟩, rfl⟩
      cases hno
    · exact ⟨h.threads, rfl, fun j w _ hj => absurd hj (Nat.not_lt_zero j)⟩
  | visit =>
    obtain ⟨blocking, k, hplace, rfl⟩ := step_visit hstep
    exact h.visit hplace
  | joined =>
    obtain ⟨k, w, hplace, hw, hexited, rfl⟩ := step_joined hstep
    have hpassed := h.passed
    rw [hplace] at hpassed
    refine ⟨Parts.forall_set (fun j u _ hu => h.threads j u hu) ⟨by simp, fun _ => hexited⟩,
      rfl, ?_⟩
    refine Parts.forall_set (fun j u hne hu hj => hpassed j u hu ?_) fun _ => rfl
    omega
  | exits k =>
    obtain ⟨w, hw, -, rfl⟩ := step_exits hstep
    have hset {P : Nat → PoolThread → Prop} (hold : ∀ j u, s.threadPool[j]? = some u → P j u)
        (hsame : P k w → P k { w with exited := true }) :
        ∀ j u, (s.threadPool.set k { w with exited := true })[j]? = some u → P j u :=
      Parts.forall_set (fun j u _ hu => hold j u hu) (hsame (hold k w hw))
    refine ⟨hset h.threads fun hk => ⟨hk.1, fun _ => rfl⟩, ?_⟩
    have hpassed := h.passed
    change ClientPoolSsl.Passed _ s.place
    cases hplace : s.place with
    | outside =>
      rw [hplace] at hpassed
      exact hset hpassed id
    | launching blocking i =>
      rw [hplace] at hpassed
      exact hpassed
    | visiting blocking k' =>
      rw [hplace] at hpassed
      exact ⟨hpassed.1, hset hpassed.2 id⟩
    | joining k' =>
      rw [hplace] at hpassed
      exact hset hpassed id
  | stop =>
    cases Option.some.inj hstep
    refine ⟨h.threads, ?_⟩
    have hpassed := h.passed
    change ClientPoolSsl.Passed _ s.place
    cases hplace : s.place <;> rw [hplace] at hpassed <;> exact hpassed

theorem Blocking.safe (h : s.Blocking) (hplace : s.place = .outside) : s.Safe := by
  intro w hw
  obtain ⟨k, hk⟩ := List.getElem?_of_mem hw
  have hpassed := h.passed
  rw [hplace] at hpassed
  have hjoined : w.handle = .joined := hpassed k w hk
  refine ⟨(h.threads k w hk).2 hjoined, ?_⟩
  rw [hjoined]
  simp

/-- A pool for which no thread is launched stays empty. -/
def Unmanned (threads : Int) (s : ClientPoolSsl) : Prop :=
  s.threads = threads ∧ s.threadPool = []

theorem unmanned_step {threads : Int} {e : PoolEvent} (hnone : (new threads).launches = 0)
    (h : s.Unmanned threads) (hstep : s.step e = some t) : t.Unmanned threads := by
  obtain ⟨hthreads, hempty⟩ := h
  cases e with
  | start blocking =>
    obtain ⟨-, rfl⟩ := Machine.taken hstep
    exact ⟨hthreads, hempty⟩
  | launch =>
    obtain ⟨blocking, i, -, rfl⟩ := step_launch hstep
    have hnot : ¬ i < s.launches := by
      change ¬ i < Text.toSize s.threads
      rw [hthreads]
      change ¬ i < (new threads).launches
      omega
    rw [ClientPoolSsl.launch, if_neg hnot]
    exact ⟨hthreads, hempty⟩
  | visit =>
    obtain ⟨blocking, k, -, rfl⟩ := step_visit hstep
    have hnot : s.threadPool[k]? = none := by rw [hempty, List.getElem?_nil]
    rw [ClientPoolSsl.visit, hnot]
    exact ⟨hthreads, hempty⟩
  | joined =>
    obtain ⟨k, w, -, hw, -, rfl⟩ := step_joined hstep
    rw [hempty] at hw
    cases hw
  | exits k =>
    obtain ⟨w, hw, -, rfl⟩ := step_exits hstep
    rw [hempty] at hw
    cases hw
  | stop =>
    cases Option.some.inj hstep
    exact ⟨hthreads, hempty⟩

/-! ## Calls that do not block -/

/-- The threads of a call are launched. -/
theorem run_launch {blocking : Bool} : ∀ (more i : Nat) (s : ClientPoolSsl),
    s.place = .launching blocking i → i + more = s.launches → ∃ es t, machine.run s es = some t ∧
      es.filterMap PoolEvent.mode = [] ∧ t.place = .visiting blocking 0 ∧ t.threads = s.threads ∧
      t.stopped = s.stopped ∧
      t.threadPool = s.threadPool ++ List.replicate more ⟨false, .joinable⟩ := by
  intro more
  induction more with
  | zero =>
    intro i s hplace hmore
    have hstep : s.step .launch = some { s with place := .visiting blocking 0 } := by
      simp only [step, hplace, ClientPoolSsl.launch]
      rw [if_neg (by omega)]
    exact ⟨[.launch], _, Machine.run_cons_eq_some.mpr ⟨_, hstep, rfl⟩, rfl, rfl, rfl, rfl,
      (List.append_nil _).symm⟩
  | succ more ih =>
    intro i s hplace hmore
    have hstep : s.step .launch = some { s with
        threadPool := s.threadPool ++ [⟨false, .joinable⟩]
        place := .launching blocking (i + 1) } := by
      simp only [step, hplace, ClientPoolSsl.launch]
      rw [if_pos (by omega)]
    obtain ⟨es, t, hrun, hmodes, hvisiting, hthreads, hstopped, hpool⟩ := ih (i + 1)
      { s with
        threadPool := s.threadPool ++ [⟨false, .joinable⟩]
        place := .launching blocking (i + 1) }
      rfl (show i + 1 + more = s.launches by omega)
    refine ⟨.launch :: es, t, Machine.run_cons_eq_some.mpr ⟨_, hstep, hrun⟩, hmodes, hvisiting,
      hthreads, hstopped, ?_⟩
    rw [hpool, List.append_assoc]
    rfl

/-- Behind a `stop`, a thread ends unless it has, and is joined. -/
theorem run_joinOne {k : Nat} {w : PoolThread} (hplace : s.place = .visiting true k)
    (hstopped : s.stopped = true) (hw : s.threadPool[k]? = some w)
    (hhandle : w.handle = .joinable) : ∃ es, machine.run s es = some { s with
        threadPool := s.threadPool.set k ⟨true, .joined⟩
        place := .visiting true (k + 1) } ∧ es.filterMap PoolEvent.mode = [] := by
  obtain ⟨exited, handle⟩ := w
  obtain rfl : handle = .joinable := hhandle
  have hvisit : s.step .visit = some { s with place := .joining k } := by
    simp only [step, hplace, ClientPoolSsl.visit, hw, if_true]
  cases exited with
  | true =>
    refine ⟨[.visit, .joined], Machine.run_cons_eq_some.mpr ⟨_, hvisit, ?_⟩, rfl⟩
    refine Machine.run_cons_eq_some.mpr ⟨_, ?_, rfl⟩
    change (s.threadPool[k]?).bind _ = _
    rw [hw, Option.bind_some, if_pos rfl]
    rfl
  | false =>
    refine ⟨[.visit, .exits k, .joined], Machine.run_cons_eq_some.mpr ⟨_, hvisit,
      Machine.run_cons_eq_some.mpr ⟨{ s with
        threadPool := s.threadPool.set k ⟨true, .joinable⟩
        place := .joining k }, ?_, Machine.run_cons_eq_some.mpr ⟨_, ?_, rfl⟩⟩⟩, rfl⟩
    · change (s.threadPool[k]?).bind _ = _
      rw [hw, Option.bind_some, if_pos ⟨hstopped, rfl⟩]
    · change ((s.threadPool.set k ⟨true, .joinable⟩)[k]?).bind _ = _
      rw [Parts.getElem?_set_of_some hw, Option.bind_some, if_pos rfl]
      simp only [setHandle, List.set_set]

/-- Behind a `stop`, a blocking call gets through. -/
theorem run_join : ∀ (left k : Nat) (s : ClientPoolSsl), s.place = .visiting true k →
    s.stopped = true → s.threadPool.length = k + left → ∃ es t, machine.run s es = some t ∧
      es.filterMap PoolEvent.mode = [] ∧ t.place = .outside ∧ t.threads = s.threads ∧
      t.stopped = true := by
  intro left
  induction left with
  | zero =>
    intro k s hplace hstopped hlength
    have hstep : s.step .visit = some { s with place := .outside } := by
      simp only [step, hplace, ClientPoolSsl.visit]
      rw [List.getElem?_eq_none_iff.mpr (by omega)]
    exact ⟨[.visit], _, Machine.run_cons_eq_some.mpr ⟨_, hstep, rfl⟩, rfl, rfl, rfl, hstopped⟩
  | succ left ih =>
    intro k s hplace hstopped hlength
    obtain ⟨w, hw⟩ : ∃ w, s.threadPool[k]? = some w :=
      ⟨_, List.getElem?_eq_getElem (by omega)⟩
    by_cases hhandle : w.handle = .joinable
    · obtain ⟨es, hfirst, hnone⟩ := run_joinOne hplace hstopped hw hhandle
      obtain ⟨fs, t, hrest, hmodes, hend⟩ := ih (k + 1) { s with
          threadPool := s.threadPool.set k ⟨true, .joined⟩
          place := .visiting true (k + 1) } rfl hstopped (by
        change (s.threadPool.set k _).length = _
        rw [List.length_set]
        omega)
      refine ⟨es ++ fs, t, Machine.run_append hfirst hrest, ?_, hend⟩
      rw [List.filterMap_append, hnone, hmodes, List.nil_append]
    · have hvisit : s.step .visit = some { s with place := .visiting true (k + 1) } := by
        simp only [step, hplace, ClientPoolSsl.visit, hw, hhandle, if_true, if_false]
      obtain ⟨es, t, hrun, hmodes, hend⟩ := ih (k + 1)
        { s with place := .visiting true (k + 1) } rfl hstopped
        (show s.threadPool.length = k + 1 + left by omega)
      exact ⟨.visit :: es, t, Machine.run_cons_eq_some.mpr ⟨_, hvisit, hrun⟩, hmodes, hend⟩

/-- Blocking calls one after the other, behind a `stop`. -/
theorem run_blocking {modes : List Bool} (hall : ∀ b ∈ modes, b = true) :
    ∀ s : ClientPoolSsl, s.place = .outside → s.stopped = true → ∃ es t,
      machine.run s es = some t ∧ es.filterMap PoolEvent.mode = modes ∧ t.place = .outside ∧
      t.threads = s.threads ∧ t.stopped = true := by
  induction modes with
  | nil =>
    intro s hplace hstopped
    exact ⟨[], s, rfl, rfl, hplace, rfl, hstopped⟩
  | cons mode modes ih =>
    intro s hplace hstopped
    obtain ⟨rfl, hmodes⟩ := List.forall_mem_cons.mp hall
    obtain ⟨es, t, hlaunch, hes, hvisiting, hthreads, hstill, -⟩ := run_launch s.launches 0
      { s with place := .launching true 0 } rfl (Nat.zero_add _)
    obtain ⟨fs, u, hjoin, hfs, houtside, hthreads', hstill'⟩ := run_join t.threadPool.length 0 t
      hvisiting (hstill.trans hstopped) (Nat.zero_add _).symm
    obtain ⟨gs, v, hrest, hgs, hend, hthreads'', hstill''⟩ := ih hmodes u houtside hstill'
    refine ⟨.start true :: (es ++ (fs ++ gs)), v, Machine.run_cons_eq_some.mpr ⟨_,
      if_pos hplace, Machine.run_append hlaunch (Machine.run_append hjoin hrest)⟩, ?_, hend,
      hthreads''.trans (hthreads'.trans hthreads), hstill''⟩
    rw [List.filterMap_cons_some (show (PoolEvent.start true).mode = some true from rfl),
      List.filterMap_append, List.filterMap_append, hes, hfs, hgs, List.nil_append, List.nil_append]

/-- A call that does not block gets through at once, and its threads are left running. -/
theorem run_detach : ∀ (left k : Nat) (s : ClientPoolSsl), s.place = .visiting false k →
    s.threadPool.length = k + left → ∃ es t, machine.run s es = some t ∧
      es.filterMap PoolEvent.mode = [] ∧ t.place = .outside ∧
      t.threadPool.map PoolThread.exited = s.threadPool.map PoolThread.exited := by
  intro left
  induction left with
  | zero =>
    intro k s hplace hlength
    have hstep : s.step .visit = some { s with place := .outside } := by
      simp only [step, hplace, ClientPoolSsl.visit]
      rw [List.getElem?_eq_none_iff.mpr (by omega)]
    exact ⟨[.visit], _, Machine.run_cons_eq_some.mpr ⟨_, hstep, rfl⟩, rfl, rfl, rfl⟩
  | succ left ih =>
    intro k s hplace hlength
    obtain ⟨w, hw⟩ : ∃ w, s.threadPool[k]? = some w :=
      ⟨_, List.getElem?_eq_getElem (by omega)⟩
    by_cases hhandle : w.handle = .joinable
    · have hvisit : s.step .visit =
          some { s.setHandle k w .detached with place := .visiting false (k + 1) } := by
        simp only [step, hplace, ClientPoolSsl.visit, hw, hhandle, if_true, Bool.false_eq_true,
          if_false]
      obtain ⟨es, t, hrun, hmodes, hend, hsame⟩ := ih (k + 1)
        { s.setHandle k w .detached with place := .visiting false (k + 1) } rfl (by
          change (s.threadPool.set k _).length = _
          rw [List.length_set]
          omega)
      refine ⟨.visit :: es, t, Machine.run_cons_eq_some.mpr ⟨_, hvisit, hrun⟩, hmodes, hend,
        hsame.trans ?_⟩
      change (s.threadPool.set k { w with handle := .detached }).map PoolThread.exited = _
      rw [List.map_set]
      refine Parts.set_of_getElem? ?_
      rw [List.getElem?_map, hw]
      rfl
    · -- `detach` throws
      have hvisit : s.step .visit =
          some { s with place := .outside, threw := s.threw + 1 } := by
        simp only [step, hplace, ClientPoolSsl.visit, hw, hhandle, Bool.false_eq_true, if_false]
      exact ⟨[.visit], _, Machine.run_cons_eq_some.mpr ⟨_, hvisit, rfl⟩, rfl, rfl, rfl⟩

/-- Whatever the threads do, the pool can be destroyed whenever no call of `start` is under
way, exactly when all calls block, or no thread is launched. -/
theorem destruction_safe_iff (threads : Int) (modes : List Bool) :
    (∀ es s, es.filterMap PoolEvent.mode <+: modes → machine.run (new threads) es = some s →
      s.place = .outside → s.Safe) ↔ (new threads).launches = 0 ∨ ∀ b ∈ modes, b = true := by
  constructor
  · intro hsafe
    by_contra hneither
    obtain ⟨hlaunches, hsome⟩ := not_or.mp hneither
    have hmem : false ∈ modes := by
      by_contra hno
      exact hsome fun b hb => by
        cases b with
        | false => exact absurd hb hno
        | true => rfl
    obtain ⟨first, rest, rfl, hfirst⟩ := List.eq_append_cons_of_mem hmem
    have hall : ∀ b ∈ first, b = true := by
      intro b hb
      cases b with
      | false => exact absurd hb hfirst
      | true => rfl
    -- the pool is stopped before anything else, so that the calls that block return
    obtain ⟨es, s, hes, hmodes, houtside, hthreads, -⟩ := run_blocking hall
      { new threads with stopped := true } rfl rfl
    obtain ⟨fs, t, hlaunch, hfs, hvisiting, -, -, hpool⟩ := run_launch s.launches 0
      { s with place := .launching false 0 } rfl (Nat.zero_add _)
    obtain ⟨gs, u, hdetach, hgs, hend, hsame⟩ := run_detach t.threadPool.length 0 t hvisiting
      (Nat.zero_add _).symm
    have hrun : machine.run (new threads) (.stop :: (es ++ (.start false :: (fs ++ gs)))) =
        some u :=
      Machine.run_cons_eq_some.mpr ⟨_, rfl, Machine.run_append hes
        (Machine.run_cons_eq_some.mpr ⟨_, if_pos houtside, Machine.run_append hlaunch hdetach⟩)⟩
    have hcalls : (PoolEvent.stop :: (es ++ (.start false :: (fs ++ gs)))).filterMap
        PoolEvent.mode = first ++ [false] := by
      rw [List.filterMap_cons_none rfl, List.filterMap_append,
        List.filterMap_cons_some (show (PoolEvent.start false).mode = some false from rfl),
        List.filterMap_append, hmodes, hfs, hgs, List.nil_append]
    have hfront : (PoolEvent.stop :: (es ++ (.start false :: (fs ++ gs)))).filterMap
        PoolEvent.mode <+: first ++ false :: rest := by
      rw [hcalls]
      exact ⟨rest, by rw [List.append_assoc, List.singleton_append]⟩
    have hexited := hsafe _ u hfront hrun hend
    have hrunning : false ∈ u.threadPool.map PoolThread.exited := by
      have hcount : s.launches = (new threads).launches := by
        change Text.toSize s.threads = _
        rw [hthreads]
        rfl
      rw [hsame, hpool, List.map_append, List.map_replicate]
      refine List.mem_append_right _ (List.mem_replicate.mpr ⟨?_, rfl⟩)
      rw [hcount]
      exact hlaunches
    obtain ⟨w, hw, hfalse⟩ := List.mem_map.mp hrunning
    rw [(hexited w hw).1] at hfalse
    cases hfalse
  · rintro (hnone | hall) es s hmodes hrun hplace
    · obtain ⟨-, hempty⟩ := Machine.run_invariant
        (fun _ _ _ h hstep => unmanned_step hnone h hstep) ⟨rfl, rfl⟩ hrun
      intro w hw
      rw [hempty] at hw
      cases hw
    · have hblocks : machine.Meets Blocks (new threads) es := by
        refine Machine.meets_of_forall fun s e he hno => ?_
        subst hno
        have hmode : false ∈ es.filterMap PoolEvent.mode := List.mem_filterMap.mpr ⟨_, he, rfl⟩
        cases hall _ (hmodes.subset hmode)
      exact (Machine.run_invariant_of_meets (I := Blocking)
        (fun _ _ _ h hP hstep => blocking_step h hP hstep) (blocking_new threads) hblocks
        hrun).safe hplace

end ClientPoolSsl

end ServerAsync
