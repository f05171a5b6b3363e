import ServerAsync.Misc.Pipeline
import Mathlib.Data.List.Nodup

/-!
# The invariant of a pipelined connection

Two halves. `WriteInv` speaks of the write loop: a reply is in flight exactly
while the queue is not empty, until the writing side ends, and from then on the
queue keeps its front and nothing is written. `ReadInv` speaks of the read side:
one read at most, room in the queue while it is outstanding, and replies numbered
in the order of the headers. Every step keeps both.
-/

namespace ServerAsync.Misc.Pipeline

variable {ρ α : Type*}

/-- The write loop: what is in flight, and where every queued reply has got to. -/
structure WriteInv (p : State ρ α) : Prop where
  writes_eq : p.writes = if p.closed then [] else p.queue.take 1
  closed_queue : p.closed = true → p.queue ≠ []
  closed_ended : p.closed = true → p.ended = true
  handed_eq : p.handed ++ p.queue.tail = p.queued
  answered_eq : p.answered ++ p.queue = p.queued

/-- The read side: what is outstanding, and how many headers and replies there
are. -/
structure ReadInv (limit : Nat) (p : State ρ α) : Prop where
  reads_le : p.reads.length ≤ 1
  room : p.reads ≠ [] → p.queue.length < limit
  queue_le : p.queue.length ≤ limit
  opening_count : .opening ∈ p.reads → p.queued = [] ∧ p.headers = 0
  header_count : .header ∈ p.reads → p.queued.length = p.headers
  body_count : ∀ i r, .body i r ∈ p.reads → p.queued.length = i ∧ p.headers = i + 1
  full_count : limit ≤ p.queue.length → p.queued.length = p.headers
  count_le : p.queued.length ≤ p.headers
  numbers : p.queued.map Reply.request = List.range p.queued.length

/-- Both halves. -/
structure Inv (limit : Nat) (p : State ρ α) : Prop where
  write : WriteInv p
  read : ReadInv limit p

/-! ## What the operations change -/

@[simp] theorem read_frame (op : Read ρ) (p : State ρ α) :
    (p.read op).reads = p.reads ++ [op] ∧ (p.read op).writes = p.writes ∧
    (p.read op).queue = p.queue ∧ (p.read op).headers = p.headers ∧
    (p.read op).dispatched = p.dispatched ∧ (p.read op).uses = p.uses + 1 ∧
    (p.read op).eofs = p.eofs ∧ (p.read op).closed = p.closed ∧ (p.read op).ended = p.ended ∧
    (p.read op).queued = p.queued ∧ (p.read op).handed = p.handed ∧
    (p.read op).answered = p.answered :=
  ⟨rfl, rfl, rfl, rfl, rfl, rfl, rfl, rfl, rfl, rfl, rfl, rfl⟩

@[simp] theorem write_frame (p : State ρ α) :
    p.write.reads = p.reads ∧ p.write.queue = p.queue ∧ p.write.headers = p.headers ∧
    p.write.dispatched = p.dispatched ∧ p.write.eofs = p.eofs ∧ p.write.closed = p.closed ∧
    p.write.ended = p.ended ∧ p.write.queued = p.queued ∧ p.write.answered = p.answered := by
  unfold State.write
  split <;> exact ⟨rfl, rfl, rfl, rfl, rfl, rfl, rfl, rfl, rfl⟩

@[simp] theorem write_writes (p : State ρ α) : p.write.writes = p.writes ++ p.queue.take 1 := by
  unfold State.write
  split <;> simp_all

@[simp] theorem write_handed (p : State ρ α) : p.write.handed = p.handed ++ p.queue.take 1 := by
  unfold State.write
  split <;> simp_all

theorem push_nil {q : Reply α} {p : State ρ α} (h : p.queue = []) :
    p.push q = { p with queue := [q], queued := p.queued ++ [q] }.write := by
  simp [State.push, h]

theorem push_ne_nil {q : Reply α} {p : State ρ α} (h : p.queue ≠ []) :
    p.push q = { p with queue := p.queue ++ [q], queued := p.queued ++ [q] } := by
  simp [State.push, h]

@[simp] theorem push_frame (q : Reply α) (p : State ρ α) :
    (p.push q).reads = p.reads ∧ (p.push q).queue = p.queue ++ [q] ∧
    (p.push q).headers = p.headers ∧ (p.push q).dispatched = p.dispatched ∧
    (p.push q).eofs = p.eofs ∧ (p.push q).closed = p.closed ∧ (p.push q).ended = p.ended ∧
    (p.push q).queued = p.queued ++ [q] ∧ (p.push q).answered = p.answered := by
  by_cases h : p.queue = []
  · simp [push_nil h, h]
  · simp [push_ne_nil h]

theorem readOn_room {limit : Nat} {p : State ρ α} (h : p.queue.length < limit) :
    p.readOn limit = p.read .header := if_pos h

theorem readOn_full {limit : Nat} {p : State ρ α} (h : ¬ p.queue.length < limit) :
    p.readOn limit = p := if_neg h

@[simp] theorem readOn_frame (limit : Nat) (p : State ρ α) :
    (p.readOn limit).writes = p.writes ∧ (p.readOn limit).queue = p.queue ∧
    (p.readOn limit).headers = p.headers ∧ (p.readOn limit).dispatched = p.dispatched ∧
    (p.readOn limit).eofs = p.eofs ∧ (p.readOn limit).closed = p.closed ∧
    (p.readOn limit).ended = p.ended ∧ (p.readOn limit).queued = p.queued ∧
    (p.readOn limit).handed = p.handed ∧ (p.readOn limit).answered = p.answered := by
  by_cases h : p.queue.length < limit
  · simp [readOn_room h]
  · simp [readOn_full h]

/-! ## The write loop keeps its half -/

/-- `WriteInv` reads seven fields; the rest of the state may change. -/
theorem WriteInv.frame {p p' : State ρ α} (h : WriteInv p)
    (hsame : p'.writes = p.writes ∧ p'.queue = p.queue ∧ p'.closed = p.closed ∧
      p'.queued = p.queued ∧ p'.handed = p.handed ∧ p'.answered = p.answered)
    (hended : p.ended = true → p'.ended = true) : WriteInv p' := by
  obtain ⟨hw, hq, hc, hqd, hh, ha⟩ := hsame
  constructor
  · rw [hw, hc, hq]
    exact h.writes_eq
  · rw [hc, hq]
    exact h.closed_queue
  · rw [hc]
    exact fun hclosed => hended (h.closed_ended hclosed)
  · rw [hh, hq, hqd]
    exact h.handed_eq
  · rw [ha, hq, hqd]
    exact h.answered_eq

theorem WriteInv.push {p : State ρ α} (h : WriteInv p) (q : Reply α) : WriteInv (p.push q) := by
  obtain ⟨hw, hcq, hce, hh, ha⟩ := h
  by_cases hq : p.queue = []
  · have hopen : p.closed = false := by
      by_contra hc
      exact hcq (by simpa using hc) hq
    rw [push_nil hq]
    simp only [hq, List.tail_nil, List.append_nil, List.take_nil, ite_self] at hh ha hw
    constructor <;> simp [hopen, hh, ha, hw]
  · obtain ⟨front, rest, hfront⟩ := List.exists_cons_of_ne_nil hq
    rw [push_ne_nil hq]
    constructor
    · simpa [hfront] using hw
    · simp
    · exact hce
    · simp [← hh, hfront]
    · simp [← ha]

theorem WriteInv.readOn {p : State ρ α} (h : WriteInv p) (limit : Nat) :
    WriteInv (p.readOn limit) := by
  by_cases hroom : p.queue.length < limit
  · rw [readOn_room hroom]
    exact h.frame ⟨rfl, rfl, rfl, rfl, rfl, rfl⟩ id
  · rwa [readOn_full hroom]

/-- While a write is outstanding the writing side has not ended, and the reply in
flight is the front of the queue. -/
theorem WriteInv.front {p : State ρ α} (h : WriteInv p) {q : Reply α} (hq : q ∈ p.writes) :
    p.closed = false ∧ p.writes = [q] ∧ ∃ rest, p.queue = q :: rest := by
  have hw := h.writes_eq
  cases hc : p.closed with
  | true =>
    rw [hc] at hw
    simp [hw] at hq
  | false =>
    cases hqueue : p.queue with
    | nil => simp [hw, hc, hqueue] at hq
    | cons front rest =>
      simp only [hc, hqueue, Bool.false_eq_true, if_false, List.take_succ_cons,
        List.take_zero] at hw
      rw [hw, List.mem_singleton] at hq
      exact ⟨rfl, by rw [hw, hq], rest, by rw [hq]⟩

theorem WriteInv.writes_ne_nil_iff {p : State ρ α} (h : WriteInv p) (hopen : p.closed = false) :
    p.writes ≠ [] ↔ p.queue ≠ [] := by
  rw [h.writes_eq, hopen]
  simp

variable {limit : Nat}

/-! ## The read side keeps its half -/

theorem ReadInv.reads_eq {p : State ρ α} (h : ReadInv limit p) {op : Read ρ}
    (hop : op ∈ p.reads) : p.reads = [op] :=
  Machine.outstanding_eq h.reads_le hop

/-- No two replies have the same number. -/
theorem ReadInv.reply_unique {p : State ρ α} (h : ReadInv limit p) {q q' : Reply α}
    (hq : q ∈ p.queued) (hq' : q' ∈ p.queued) (heq : q.request = q'.request) : q = q' :=
  List.inj_on_of_nodup_map (h.numbers ▸ List.nodup_range) hq hq' heq

/-- With no read outstanding only the counts are left to check. -/
theorem ReadInv.of_idle {p : State ρ α} (hreads : p.reads = []) (hq : p.queue.length ≤ limit)
    (hfull : limit ≤ p.queue.length → p.queued.length = p.headers)
    (hle : p.queued.length ≤ p.headers)
    (hnum : p.queued.map Reply.request = List.range p.queued.length) : ReadInv limit p where
  reads_le := by simp [hreads]
  room h := absurd hreads h
  queue_le := hq
  opening_count h := by simp [hreads] at h
  header_count h := by simp [hreads] at h
  body_count i r h := by simp [hreads] at h
  full_count := hfull
  count_le := hle
  numbers := hnum

/-- The next reply in number joins a queue that has room. -/
theorem ReadInv.push {p : State ρ α} (h : ReadInv limit p) (hreads : p.reads = [])
    (hroom : p.queue.length < limit) (hcount : p.queued.length + 1 = p.headers) (m : α) :
    ReadInv limit (p.push ⟨p.queued.length, m⟩) := by
  apply ReadInv.of_idle
  · simp [hreads]
  · simpa using Nat.succ_le_of_lt hroom
  · intro _
    simpa using hcount
  · simp [hcount]
  · simp [h.numbers, List.range_succ]

theorem ReadInv.readOn {p : State ρ α} (h : ReadInv limit p) (hreads : p.reads = [])
    (hcount : p.queued.length = p.headers) : ReadInv limit (p.readOn limit) := by
  by_cases hroom : p.queue.length < limit
  · rw [readOn_room hroom]
    constructor <;> simp [hreads, hroom, hcount, h.queue_le]
    rw [← hcount]
    exact h.numbers
  · rwa [readOn_full hroom]

/-! ## The completions -/

section Reads

variable [DecidableEq ρ]

theorem ReadInv.erase_eq {p : State ρ α} (h : ReadInv limit p) {op : Read ρ}
    (hop : op ∈ p.reads) : p.reads.erase op = [] := by
  simp [h.reads_eq hop]

theorem ReadInv.headerDone {p : State ρ α} (h : ReadInv limit p) (hop : .header ∈ p.reads) :
    ReadInv limit p.headerDone := by
  have hroom := h.room (List.ne_nil_of_mem hop)
  have hcount := h.header_count hop
  apply ReadInv.of_idle
  · exact h.erase_eq hop
  · exact h.queue_le
  · intro hfull
    exact absurd hfull (Nat.not_le.mpr hroom)
  · simp [State.headerDone, hcount]
  · exact h.numbers

end Reads

section Writes

variable [DecidableEq α] {keepAlive : α → Bool}

theorem WriteInv.afterWrite {p : State ρ α} (h : WriteInv p) {q : Reply α} (hq : q ∈ p.writes)
    (ok : Bool) : WriteInv ((p.writeDone q).afterWrite keepAlive limit q ok) := by
  obtain ⟨hopen, hwrites, rest, hqueue⟩ := h.front hq
  obtain ⟨hw, hcq, hce, hh, ha⟩ := h
  simp only [hqueue, List.tail_cons] at hh ha
  unfold State.afterWrite State.writeDone
  split
  · exact ⟨by simp [hwrites], by simp [hqueue], fun _ => rfl, by simp [hqueue, hh],
      by simp [hqueue, ha]⟩
  split
  · exact ⟨by simp [hwrites], by simp [hqueue], fun _ => rfl, by simp [hqueue, hh],
      by simp [hqueue, ha]⟩
  -- the reply is popped: what was behind the front becomes the queue
  · have htail : rest.take 1 ++ rest.tail = rest := by cases rest <;> rfl
    have hsame : p.answered ++ q :: rest = p.handed ++ rest := ha.trans hh.symm
    split <;> constructor <;>
      simp [State.pop, hwrites, hqueue, hopen, ← hh, htail, hsame]

theorem ReadInv.afterWrite {p : State ρ α} (h : ReadInv limit p) {q : Reply α}
    {rest : List (Reply α)} (hqueue : p.queue = q :: rest) (ok : Bool) :
    ReadInv limit ((p.writeDone q).afterWrite keepAlive limit q ok) := by
  obtain ⟨hle, hroom, hq, ho, hhead, hbody, hfull, hcle, hnum⟩ := h
  rw [hqueue, List.length_cons] at hroom hq hfull
  unfold State.afterWrite State.writeDone
  split
  · exact ⟨hle, by simpa [hqueue] using hroom, by simpa [hqueue] using hq, ho, hhead, hbody,
      by simpa [hqueue] using hfull, hcle, hnum⟩
  split
  · exact ⟨hle, by simpa [hqueue] using hroom, by simpa [hqueue] using hq, ho, hhead, hbody,
      by simpa [hqueue] using hfull, hcle, hnum⟩
  · by_cases hlimit : limit ≤ rest.length + 1
    -- the queue was full, so no read was outstanding and every header is answered
    · have hreads : p.reads = [] := by
        by_contra hne
        have := hroom hne
        omega
      have hcount := hfull hlimit
      constructor <;> simp [State.pop, hqueue, hlimit, hreads, hcount]
      · omega
      · omega
      · rw [← hcount]
        exact hnum
    · constructor <;> simp [State.pop, hqueue, hlimit]
      · exact hle
      · intro hne
        have := hroom hne
        omega
      · omega
      · exact ho
      · exact hhead
      · exact hbody
      · intro hlim
        omega
      · exact hcle
      · exact hnum

end Writes

/-! ## Steps and runs -/

theorem inv_start (hlimit : 0 < limit) {op : Read ρ} (hop : ∀ i r, op ≠ .body i r) :
    Inv limit (State.start op : State ρ α) where
  write := ⟨rfl, by simp [State.start], by simp [State.start], rfl, rfl⟩
  read := by
    constructor <;> simp [State.start, hlimit]
    intro i r h
    exact absurd h.symm (hop i r)

variable [DecidableEq ρ] [DecidableEq α] {keepAlive : α → Bool}

theorem inv_step {p p' : State ρ α} {l : Label ρ α} (h : Inv limit p)
    (hstep : step keepAlive limit p l = some p') : Inv limit p' := by
  obtain ⟨hw, hr⟩ := h
  cases l with
  | tick =>
    cases Option.some.inj hstep
    exact ⟨hw, hr⟩
  | opened =>
    rcases Machine.taken hstep with ⟨hop, rfl⟩
    obtain ⟨hqueued, hheaders⟩ := hr.opening_count hop
    have hroom := hr.room (List.ne_nil_of_mem hop)
    refine ⟨hw.frame ⟨rfl, rfl, rfl, rfl, rfl, rfl⟩ id, ?_⟩
    constructor <;> simp [hr.erase_eq hop, hroom, hr.queue_le, hqueued, hheaders]
  | readFailed op =>
    rcases Machine.taken hstep with ⟨hop, rfl⟩
    exact ⟨hw.frame ⟨rfl, rfl, rfl, rfl, rfl, rfl⟩ fun _ => rfl,
      .of_idle (hr.erase_eq hop) hr.queue_le hr.full_count hr.count_le hr.numbers⟩
  | endOfStream =>
    rcases Machine.taken hstep with ⟨hop, rfl⟩
    exact ⟨hw.frame ⟨rfl, rfl, rfl, rfl, rfl, rfl⟩ fun _ => rfl,
      .of_idle (hr.erase_eq hop) hr.queue_le hr.full_count hr.count_le hr.numbers⟩
  | released =>
    rcases Machine.taken hstep with ⟨hop, rfl⟩
    have hdone := hr.headerDone hop
    exact ⟨hw.frame ⟨rfl, rfl, rfl, rfl, rfl, rfl⟩ fun _ => rfl,
      .of_idle (hr.erase_eq hop) hr.queue_le hdone.full_count hdone.count_le hr.numbers⟩
  | refused =>
    rcases Machine.taken hstep with ⟨hop, rfl⟩
    have hdone := hr.headerDone hop
    exact ⟨hw.frame ⟨rfl, rfl, rfl, rfl, rfl, rfl⟩ fun _ => rfl,
      .of_idle (hr.erase_eq hop) hr.queue_le hdone.full_count hdone.count_le hr.numbers⟩
  | uploading header =>
    rcases Machine.taken hstep with ⟨hop, rfl⟩
    have hcount := hr.header_count hop
    have hroom := hr.room (List.ne_nil_of_mem hop)
    refine ⟨hw.frame ⟨rfl, rfl, rfl, rfl, rfl, rfl⟩ id, ?_⟩
    constructor <;> simp [State.headerDone, hr.erase_eq hop, hroom, hr.queue_le, hcount]
    rw [← hcount]
    exact hr.numbers
  | replied message =>
    rcases Machine.taken hstep with ⟨hop, rfl⟩
    have hcount := hr.header_count hop
    have hdone := hr.headerDone hop
    have hnext : ReadInv limit { p.headerDone with dispatched := p.dispatched + 1 } :=
      .of_idle (hr.erase_eq hop) hr.queue_le hdone.full_count hdone.count_le hr.numbers
    have hpush := hnext.push (hr.erase_eq hop) (hr.room (List.ne_nil_of_mem hop))
      (by simp [State.headerDone, hcount]) message
    have hwrite : WriteInv { p.headerDone with dispatched := p.dispatched + 1 } :=
      hw.frame ⟨rfl, rfl, rfl, rfl, rfl, rfl⟩ id
    rw [← hcount]
    exact ⟨hwrite.push _, hpush⟩
  | uploaded i header message =>
    rcases Machine.taken hstep with ⟨hop, rfl⟩
    obtain ⟨rfl, hheaders⟩ := hr.body_count i header hop
    have hreads := hr.erase_eq hop
    have hidle : ReadInv limit { p with reads := p.reads.erase (.body p.queued.length header) } :=
      .of_idle hreads hr.queue_le hr.full_count hr.count_le hr.numbers
    have hpush := hidle.push hreads (hr.room (List.ne_nil_of_mem hop)) hheaders.symm message
    have hwrite : WriteInv { p with reads := p.reads.erase (.body p.queued.length header) } :=
      hw.frame ⟨rfl, rfl, rfl, rfl, rfl, rfl⟩ id
    refine ⟨(hwrite.push _).readOn limit, hpush.readOn ?_ ?_⟩
    · simpa using hreads
    · simp [hheaders]
  | wrote q ok =>
    rcases Machine.taken hstep with ⟨hq, rfl⟩
    obtain ⟨-, -, rest, hqueue⟩ := hw.front hq
    exact ⟨hw.afterWrite hq ok, hr.afterWrite hqueue ok⟩

end ServerAsync.Misc.Pipeline
