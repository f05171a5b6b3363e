import ServerAsync.Misc.Delivery
import ServerAsync.RelayLimits
import ServerAsync.RelayPath

/-!
# Relays in which nothing fails

As long as nothing fails and neither side ends, every step of a relay gets something on: a
direction lets bytes through, and a copier gets nearer to its relay. A relay that has no step
left waits for its sources, and has written all that they have sent.
-/

namespace ServerAsync

open Misc Misc.Pipeline

/-! ## One direction -/

/-- Neither a failure nor the end of the source. A read gets a byte at least. -/
def RelayEvent.sound {α : Type*} : RelayEvent α → Bool
  | .read bytes => !bytes.isEmpty
  | .accepted _ _ _ => true
  | .wrote _ => true
  | _ => false

theorem RelayEvent.sound_goes {α : Type*} {e : RelayEvent α} (h : e.sound = true) :
    e.ends = false := by
  cases e with
  | readFailed eof => cases h
  | writeFailed off len => cases h
  | _ => rfl

namespace Half

variable {α : Type*} {lead : List α} {h h' : Half α} {e : RelayEvent α}

/-- Whether a direction reads. -/
def reading (h : Half α) : Nat := if .asyncReadSome ∈ h.ops then 1 else 0

theorem reading_le (h : Half α) : h.reading ≤ 1 := by
  unfold reading
  split <;> omega

/-- Whatever a direction does, something gets on. -/
theorem step_load (hinv : Inv lead h) (hsound : e.sound = true) (hstep : h.step e = some h') :
    2 * h.fetched.length + h.written.length + h.reading <
      2 * h'.fetched.length + h'.written.length + h'.reading := by
  cases e with
  | readFailed eof => cases hsound
  | writeFailed off len => cases hsound
  | read bytes =>
    obtain ⟨⟨hop, -⟩, rfl⟩ := Machine.taken hstep
    have hpos : 0 < bytes.length := by
      cases bytes with
      | nil => cases hsound
      | cons b bytes => exact Nat.succ_pos _
    have hle := reading_le h
    simp only [onRead, finish, List.length_append]
    omega
  | accepted off len count =>
    obtain ⟨⟨hop, hpos, hle⟩, rfl⟩ := Machine.taken hstep
    obtain ⟨-, hroom, -⟩ := hinv.writing off len hop
    have hnot : h.reading = 0 := by
      rw [reading, hinv.ops_eq hop, if_neg (by simp)]
    have hcount : ((h.buffer.take (off + count)).drop off).length = count := by
      rw [List.length_drop, List.length_take]
      omega
    rw [hnot]
    change _ < 2 * h.fetched.length +
      (h.written ++ (h.buffer.take (off + count)).drop off).length + _
    rw [List.length_append, hcount]
    omega
  | wrote len =>
    obtain ⟨hop, rfl⟩ := Machine.taken hstep
    have hnot : h.reading = 0 := by
      rw [reading, hinv.ops_eq hop, if_neg (by simp)]
    have hnow : (h.finish (.asyncWrite len len)).doRelay.reading = 1 :=
      if_pos (List.mem_append_right _ List.mem_cons_self)
    rw [hnot, hnow]
    exact Nat.lt_succ_self _

/-- A direction that writes can go on, whatever its source does. -/
theorem goesOn (hinv : Inv lead h) (hops : h.ops ≠ []) : .asyncReadSome ∈ h.ops ∨
    ∃ e h', e.sound = true ∧ e.bytes = [] ∧ h.step e = some h' := by
  obtain ⟨op, hop⟩ := List.exists_mem_of_ne_nil _ hops
  cases op with
  | asyncReadSome => exact Or.inl hop
  | asyncWrite off len =>
    right
    obtain ⟨hle, -, -⟩ := hinv.writing off len hop
    rcases Nat.eq_or_lt_of_le hle with rfl | hlt
    · exact ⟨.wrote off, _, rfl, rfl, if_pos hop⟩
    · exact ⟨.accepted off len 1, _, rfl, rfl, if_pos ⟨hop, Nat.one_pos, hlt⟩⟩

/-- A direction that reads takes the next symbol. -/
theorem step_next (hop : .asyncReadSome ∈ h.ops) (hroom : 0 < h.buffer.length) (x : α) :
    ∃ h', h.step (.read [x]) = some h' :=
  ⟨_, if_pos ⟨hop, hroom⟩⟩

/-- A direction that cannot go on has read and written all of its source's stream. -/
theorem drained {stream : List α} (hinv : Inv lead h) (hops : h.ops ≠ [])
    (hroom : 0 < h.buffer.length) (hfront : h.fetched <+: stream)
    (hstuck : ∀ e h', e.sound = true → h.step e = some h' → ¬h.fetched ++ e.bytes <+: stream) :
    h.written = lead ++ stream := by
  have hreading : .asyncReadSome ∈ h.ops := by
    rcases goesOn hinv hops with hop | ⟨e, h', hsound, hnone, hstep⟩
    · exact hop
    · refine absurd ?_ (hstuck e h' hsound hstep)
      rwa [hnone, List.append_nil]
  rw [hinv.reading hreading]
  obtain ⟨rest, rfl⟩ := hfront
  cases rest with
  | nil => rw [List.append_nil]
  | cons x rest =>
    obtain ⟨h', hstep⟩ := step_next hreading hroom x
    refine absurd ⟨rest, ?_⟩ (hstuck (.read [x]) h' rfl hstep)
    exact List.append_assoc _ _ _

end Half

/-! ## `tcp_connection` -/

/-- Neither a failure nor the end of a side. -/
def TcpEvent.sound : TcpEvent → Bool
  | .connected ok => ok
  | .client e => e.sound
  | .proxy e => e.sound
  | .requestFailed _ => false
  | _ => true

/-- An event of a loop. -/
def TcpEvent.ofDir : Dir → RelayEvent Char → TcpEvent
  | .toRemote, e => .client e
  | .toClient, e => .proxy e

namespace TcpConnection

variable {s s' : TcpConnection} {e : TcpEvent}

/-- A connection in which nothing has failed. -/
structure Running (s : TcpConnection) : Prop where
  bounded : Bounded s
  isOpen : s.closed = false
  live : s.connects = 0 → ∀ dir, (s.half dir).ops ≠ []

theorem running_start : Running (start false) where
  bounded := bounded_start
  isOpen := rfl
  live hconnects := by cases hconnects

/-- What a connection counts beyond what has gone through it. -/
def rank (s : TcpConnection) : Nat :=
  (if s.connects = 0 then 1 else 0) + s.toProxy.reading + s.toClient.reading

theorem rank_le (s : TcpConnection) : s.rank ≤ 3 := by
  have htoProxy := Half.reading_le s.toProxy
  have htoClient := Half.reading_le s.toClient
  unfold rank
  split <;> omega

/-- What has gone through a connection. -/
def through (s : TcpConnection) : Nat :=
  2 * s.toProxy.fetched.length + 2 * s.toClient.fetched.length + s.toClient.written.length +
    s.toProxy.written.length

theorem Running.step (h : Running s) (hsound : e.sound = true) (hstep : s.step e = some s') :
    Running s' ∧ s.through + s.rank < s'.through + s'.rank := by
  have hbounded := h.bounded.step hstep
  rcases h.bounded.passes.step_cases hstep with
    ⟨ok, rfl, hconnects, rfl⟩ | ⟨dir, e', he, -, hloop⟩
  · obtain rfl : ok = true := hsound
    obtain ⟨hone, hidle⟩ := h.bounded.passes.connecting hconnects
    refine ⟨⟨hbounded, h.isOpen, fun _ dir => ?_⟩, ?_⟩
    · cases dir <;> exact List.append_ne_nil_of_right_ne_nil _ (List.cons_ne_nil _ _)
    · have hbefore : s.rank = 0 := by
        have htoProxy : s.toProxy.ops = [] := (hidle .toRemote).1
        have htoClient : s.toClient.ops = [] := (hidle .toClient).1
        rw [rank, if_neg (by omega), Half.reading, Half.reading, htoProxy, htoClient]
        rfl
      rw [hbefore, if_pos rfl]
      change s.through + 0 < s.through + ((if s.connects - 1 = 0 then 1 else 0) + _ + _)
      rw [if_pos (by omega)]
      omega
  · have hgoes : e'.sound = true := by
      cases dir with
      | toRemote =>
        cases e with
        | client e₀ => exact (Option.some.inj he) ▸ hsound
        | _ => cases he
      | toClient =>
        cases e with
        | proxy e₀ => exact (Option.some.inj he) ▸ hsound
        | _ => cases he
    have hmoved := Half.step_load (h.bounded.passes.loop dir) hgoes hloop.step
    have hsame := hloop.other
    refine ⟨⟨hbounded, ?_, fun hconnects d => ?_⟩, ?_⟩
    · rw [hloop.closed, h.isOpen, RelayEvent.sound_goes hgoes]
      rfl
    · rcases d.eq_or_other dir with rfl | rfl
      · exact Half.step_ops hloop.step (RelayEvent.sound_goes hgoes)
      · rw [hsame]
        exact h.live (hloop.connects ▸ hconnects) dir.other
    · rw [through, through, rank, rank, hloop.connects]
      cases dir with
      | toRemote =>
        change 2 * s.toProxy.fetched.length + s.toProxy.written.length + s.toProxy.reading <
          2 * s'.toProxy.fetched.length + s'.toProxy.written.length + s'.toProxy.reading at hmoved
        change s'.toClient = s.toClient at hsame
        rw [hsame]
        omega
      | toClient =>
        change 2 * s.toClient.fetched.length + s.toClient.written.length + s.toClient.reading <
          2 * s'.toClient.fetched.length + s'.toClient.written.length + s'.toClient.reading
          at hmoved
        change s'.toProxy = s.toProxy at hsame
        rw [hsame]
        omega

/-- An event of a direction is one of the connection. -/
theorem Running.step_ofDir (h : Running s) (dir : Dir) {e : RelayEvent Char} {half' : Half Char}
    (hsound : e.sound = true) (hhalf : (s.half dir).step e = some half') :
    ∃ s', s.step (.ofDir dir e) = some s' ∧ (s'.half dir).fetched =
      (s.half dir).fetched ++ e.bytes ∧ (s'.half dir.other).fetched =
        (s.half dir.other).fetched := by
  have hexists : ∃ s', s.step (.ofDir dir e) = some s' := by
    cases e with
    | readFailed eof => cases hsound
    | writeFailed off len => cases hsound
    | read bytes =>
      obtain ⟨⟨hop, hle⟩, -⟩ := Machine.taken hhalf
      have hne : bytes ≠ [] := by
        rintro rfl
        cases hsound
      cases dir <;> exact ⟨_, if_pos ⟨hop, hne, hle⟩⟩
    | accepted off len count =>
      obtain ⟨⟨hop, hpos, hle⟩, -⟩ := Machine.taken hhalf
      cases dir <;> exact ⟨_, if_pos ⟨hop, hpos, hle, h.isOpen⟩⟩
    | wrote len =>
      obtain ⟨hop, -⟩ := Machine.taken hhalf
      cases dir <;> exact ⟨_, if_pos hop⟩
  obtain ⟨s', hstep⟩ := hexists
  have hloop : OtherLoop dir e s s' := by
    cases dir with
    | toRemote => exact step_client h.bounded.passes.mode hstep
    | toClient => exact step_proxy hstep
  exact ⟨s', hstep, Half.step_fetched hloop.step, by rw [hloop.other]⟩

/-- The steps of a connection in which nothing fails. -/
def soundly (_ : station.State) (e : TcpEvent) : Bool := e.sound

/-- A step of the station. -/
theorem sound_step {s t : station.State} :
    (station.only soundly).machine.step s e = some t ↔ e.sound = true ∧ s.1.step e = some t.1 := by
  refine Machine.only_step.trans (and_congr_right fun _ => ?_)
  change (machine.restrict PassThrough fun _ _ _ h hstep => h.step hstep).step s e = some t ↔ _
  exact Machine.restrict_step

theorem running_of_run {es : List TcpEvent} {s : station.State}
    (hrun : (station.only soundly).machine.run station.start es = some s) : Running s.1 :=
  Machine.run_invariant (I := fun s : station.State => Running s.1)
    (fun _ _ _ h hstep => (h.step (sound_step.mp hstep).1 (sound_step.mp hstep).2).1)
    running_start hrun

theorem delivers_tcp (w : Text) : (station.only soundly).Delivers w w [] := by
  intro es s u hrun hnear hfar hrests
  have h := running_of_run hrun
  change s.1.toProxy.fetched <+: w at hnear
  change s.1.toClient.fetched <+: u at hfar
  have hstuck : ∀ e s', e.sound = true → s.1.step e = some s' →
      s'.toProxy.fetched <+: w → ¬s'.toClient.fetched <+: u := fun e s' hsound hstep =>
    hrests e ⟨s', s.2.step hstep⟩ (sound_step.mpr ⟨hsound, hstep⟩)
  have hconnected : s.1.connects = 0 := by
    by_contra hconnects
    exact hstuck (.connected true) _ rfl (if_pos (Nat.pos_of_ne_zero hconnects)) hnear hfar
  have hroom (dir : Dir) : 0 < (s.1.half dir).buffer.length := by
    rw [(h.bounded.within dir).room]
    decide
  constructor
  · refine Half.drained (s.2.loop .toRemote) (h.live hconnected .toRemote) (hroom .toRemote) hnear
      ?_
    intro e half' hsound hhalf htaken
    obtain ⟨s', hstep, hmine, hother⟩ := h.step_ofDir .toRemote hsound hhalf
    refine hstuck (.client e) s' hsound hstep ?_ ?_
    · change (s'.half .toRemote).fetched <+: w
      rw [hmine]
      exact htaken
    · change (s'.half Dir.toRemote.other).fetched <+: u
      rw [hother]
      exact hfar
  · refine Half.drained (s.2.loop .toClient) (h.live hconnected .toClient) (hroom .toClient) hfar ?_
    intro e half' hsound hhalf htaken
    obtain ⟨s', hstep, hmine, hother⟩ := h.step_ofDir .toClient hsound hhalf
    refine hstuck (.proxy e) s' hsound hstep ?_ ?_
    · change (s'.half Dir.toClient.other).fetched <+: w
      rw [hother]
      exact hnear
    · change (s'.half .toClient).fetched <+: u
      rw [hmine]
      exact htaken

theorem relays_tcp (w : Text) : (station.only soundly).Relays w w [] where
  conveys := (conveys_tcp w).only soundly
  delivers := delivers_tcp w
  ends := ((conveys_tcp w).only soundly).ends (I := fun s : station.State => Running s.1)
    (fun s : station.State => s.1.rank) 3 running_start
    (fun _ _ _ h hstep _ => h.step (sound_step.mp hstep).1 (sound_step.mp hstep).2)
    fun s => s.1.rank_le

end TcpConnection

/-! ## The copiers -/

/-- Neither a failure nor the end of a side. -/
def CopierEvent.sound : CopierEvent → Bool
  | .resolved _ _ ok => ok
  | .accepted _ _ _ => true
  | .wrote _ => true
  | .relay _ e => e.sound
  | _ => false

/-- What an event gets from the source of a direction. -/
def CopierEvent.takes (dir : Dir) : CopierEvent → Text
  | .relay d e => if d = dir then e.bytes else []
  | _ => []

/-- How far a copier with an operation in flight is. -/
def CopierOp.place : CopierOp → Nat
  | .asyncResolve _ _ => 0
  | .asyncConnect => 1
  | .asyncWrite .unconsumed _ => 3
  | .asyncWrite _ _ => 2

theorem CopierOp.place_le (op : CopierOp) : op.place ≤ 3 := by
  cases op with
  | asyncWrite stage rest => cases stage <;> exact Nat.le_of_ble_eq_true rfl
  | _ => exact Nat.le_of_ble_eq_true rfl

theorem CopierOp.place_write {stage : Stage} (h : stage ≠ .unconsumed) (rest : Text) :
    (CopierOp.asyncWrite stage rest).place = 2 := by
  cases stage with
  | unconsumed => exact absurd rfl h
  | _ => rfl

namespace Copier

variable {first : Stage} {next : Stage → Copier → Copier} {leadClient leadRemote : Text}
  {c c' : Copier} {e : CopierEvent}

/-- A class that writes `first` and the unconsumed bytes before the relay. -/
structure GoesThrough (first : Stage) (next : Stage → Copier → Copier) : Prop where
  continues : Continues next
  ne : first ≠ .unconsumed
  writes : ∀ c, next first c = c.writeUnconsumed
  relays : ∀ c, next .unconsumed c = c.startRelay

/-- A copier in which nothing has failed. -/
structure Alive (first : Stage) (c : Copier) : Prop where
  relaying : c.ops = [] → ∀ dir, (c.half dir).ops ≠ []
  stages : ∀ stage rest, .asyncWrite stage rest ∈ c.ops → stage = first ∨ stage = .unconsumed
  room : ∀ dir, 0 < (c.half dir).buffer.length

def place (c : Copier) : Nat := (c.ops.head?.map CopierOp.place).getD 4

/-- What a copier counts beyond what has gone through it. -/
def rank (c : Copier) : Nat := c.place + c.toRemote.reading + c.toClient.reading

theorem rank_le (c : Copier) : c.rank ≤ 6 := by
  have hplace : c.place ≤ 4 := by
    unfold place
    cases c.ops with
    | nil => exact Nat.le_refl 4
    | cons op ops => exact Nat.le_succ_of_le op.place_le
  have htoRemote := Half.reading_le c.toRemote
  have htoClient := Half.reading_le c.toClient
  unfold rank
  omega

/-- What has gone through a copier. -/
def through (c : Copier) : Nat :=
  2 * c.toRemote.fetched.length + 2 * c.toClient.fetched.length + c.toClient.written.length +
    c.toRemote.written.length

theorem place_of_mem (hinv : c.Inv leadClient leadRemote) {op : CopierOp} (hop : op ∈ c.ops) :
    c.place = op.place := by
  rw [place, hinv.ops_eq hop]
  rfl

/-- Before the relay: another operation follows, and at least the place is further. -/
theorem Alive.staged (h : Alive first c) {op : CopierOp} (hops : c'.ops = [op])
    (hstage : ∀ stage rest, op = .asyncWrite stage rest → stage = first ∨ stage = .unconsumed)
    (hroom : ∀ dir, (c'.half dir).buffer = (c.half dir).buffer) : Alive first c' := by
  refine ⟨fun hnone => ?_, fun stage rest hmem => ?_, fun dir => ?_⟩
  · rw [hops] at hnone
    cases hnone
  · rw [hops, List.mem_singleton] at hmem
    exact hstage stage rest hmem.symm
  · rw [hroom]
    exact h.room dir

theorem Alive.step (hgoes : GoesThrough first next) (hinv : c.Inv leadClient leadRemote)
    (h : Alive first c) (hsound : e.sound = true) (hstep : c.step next e = some c') :
    Alive first c' ∧ c.through + c.rank < c'.through + c'.rank := by
  cases e with
  | connectFailed => cases hsound
  | writeFailed stage rest => cases hsound
  | resolved host port ok =>
    obtain ⟨hop, rfl⟩ := Machine.taken hstep
    obtain rfl : ok = true := hsound
    rw [if_pos rfl]
    have hops : ((c.finish (.asyncResolve host port)).begin .asyncConnect).ops =
        [.asyncConnect] := by
      simp [hinv.ops_eq hop]
    refine ⟨h.staged hops nofun fun dir => by cases dir <;> rfl, ?_⟩
    have hplace : c.place = 0 := place_of_mem hinv hop
    have hplace' : ((c.finish (.asyncResolve host port)).begin .asyncConnect).place = 1 := by
      rw [place, hops]
      rfl
    change c.through + (c.place + c.toRemote.reading + c.toClient.reading) <
      c.through + (_ + c.toRemote.reading + c.toClient.reading)
    omega
  | accepted stage rest count =>
    obtain ⟨⟨hop, hpos, hle⟩, rfl⟩ := Machine.taken hstep
    have hops : (((c.finish (.asyncWrite stage rest)).deliver stage.dest (rest.take count)).begin
        (.asyncWrite stage (rest.drop count))).ops = [.asyncWrite stage (rest.drop count)] := by
      simp [hinv.ops_eq hop]
    refine ⟨h.staged hops (fun stage' rest' heq => ?_) fun dir => ?_, ?_⟩
    · cases heq
      exact h.stages stage rest hop
    · cases stage <;> cases dir <;> rfl
    · have hplace : c.place = (CopierOp.asyncWrite stage rest).place := place_of_mem hinv hop
      have hplace' : (((c.finish (.asyncWrite stage rest)).deliver stage.dest
          (rest.take count)).begin (.asyncWrite stage (rest.drop count))).place =
            (CopierOp.asyncWrite stage rest).place := by
        rw [place, hops]
        cases stage <;> rfl
      have hcount : (rest.take count).length = count := by
        rw [List.length_take]
        omega
      rw [rank, rank, hplace, hplace']
      cases stage with
      | response =>
        change _ < 2 * c.toRemote.fetched.length + 2 * c.toClient.fetched.length +
          (c.toClient.written ++ rest.take count).length + c.toRemote.written.length +
          (_ + c.toRemote.reading + c.toClient.reading)
        rw [List.length_append, hcount, through]
        omega
      | _ =>
        change _ < 2 * c.toRemote.fetched.length + 2 * c.toClient.fetched.length +
          c.toClient.written.length + (c.toRemote.written ++ rest.take count).length +
          (_ + c.toRemote.reading + c.toClient.reading)
        rw [List.length_append, hcount, through]
        omega
  | wrote stage =>
    obtain ⟨hop, rfl⟩ := Machine.taken hstep
    have hplace := place_of_mem hinv hop
    rcases h.stages stage [] hop with rfl | rfl
    · rw [hgoes.writes]
      have hops : (c.finish (.asyncWrite stage [])).writeUnconsumed.ops =
          [.asyncWrite .unconsumed c.buffer] := by
        simp [writeUnconsumed, hinv.ops_eq hop]
      refine ⟨h.staged hops (fun stage' rest' heq => ?_) fun dir => by cases dir <;> rfl, ?_⟩
      · cases heq
        exact Or.inr rfl
      · have hplace' : (c.finish (.asyncWrite stage [])).writeUnconsumed.place = 3 := by
          rw [place, hops]
          rfl
        rw [CopierOp.place_write hgoes.ne] at hplace
        change c.through + (c.place + c.toRemote.reading + c.toClient.reading) <
          c.through + (_ + c.toRemote.reading + c.toClient.reading)
        omega
    · rw [hgoes.relays]
      have hops : (c.finish (.asyncWrite .unconsumed [])).startRelay.ops = [] := by
        simp [startRelay, hinv.ops_eq hop]
      have hreading (dir : Dir) :
          .asyncReadSome ∈ ((c.finish (.asyncWrite .unconsumed [])).startRelay.half dir).ops := by
        cases dir <;> exact List.mem_append_right _ List.mem_cons_self
      refine ⟨⟨fun _ dir => List.ne_nil_of_mem (hreading dir), fun stage rest hmem => ?_,
        fun dir => ?_⟩, ?_⟩
      · rw [hops] at hmem
        cases hmem
      · have hroom := h.room dir
        cases dir <;> exact hroom
      · have hplace' : (c.finish (.asyncWrite .unconsumed [])).startRelay.place = 4 := by
          rw [place, hops]
          rfl
        have htoRemote : (c.finish (.asyncWrite .unconsumed [])).startRelay.toRemote.reading = 1 :=
          if_pos (hreading .toRemote)
        have htoClient : (c.finish (.asyncWrite .unconsumed [])).startRelay.toClient.reading = 1 :=
          if_pos (hreading .toClient)
        have hle := Half.reading_le c.toRemote
        have hle' := Half.reading_le c.toClient
        change c.place = 3 at hplace
        change c.through + c.rank < c.through + _
        rw [rank, rank]
        omega
  | relay dir e =>
    obtain ⟨half', hhalf, -, -, hops, hclient, hremote⟩ := stepRelay_eq_some hstep
    have hnone : c.ops = [] := PlainCopy.ops_of_relaying hinv (Half.ops_of_step hhalf)
    have hplace : c'.place = c.place := by rw [place, place, hops]
    have hends : e.ends = false := RelayEvent.sound_goes hsound
    have hmine : c'.half dir = half' := by
      cases dir
      · exact hclient
      · exact hremote
    have hother : c'.half dir.other = c.half dir.other := by
      cases dir
      · exact hremote
      · exact hclient
    have hmoved : 2 * (c.half dir).fetched.length + (c.half dir).written.length +
        (c.half dir).reading < 2 * half'.fetched.length + half'.written.length +
          half'.reading := by
      cases dir
      · exact Half.step_load hinv.client hsound hhalf
      · exact Half.step_load hinv.remote hsound hhalf
    refine ⟨⟨fun _ d => ?_, fun stage rest hmem => ?_, fun d => ?_⟩, ?_⟩
    · rcases d.eq_or_other dir with rfl | rfl
      · rw [hmine]
        exact Half.step_ops hhalf hends
      · rw [hother]
        exact h.relaying hnone dir.other
    · rw [hops, hnone] at hmem
      cases hmem
    · rcases d.eq_or_other dir with rfl | rfl
      · rw [hmine, Half.step_room hhalf]
        exact h.room d
      · rw [hother]
        exact h.room dir.other
    · rw [through, through, rank, rank, hplace]
      cases dir with
      | toClient =>
        change c'.toClient = half' at hmine
        change c'.toRemote = c.toRemote at hother
        change 2 * c.toClient.fetched.length + c.toClient.written.length +
          c.toClient.reading < _ at hmoved
        rw [hmine, hother]
        omega
      | toRemote =>
        change c'.toRemote = half' at hmine
        change c'.toClient = c.toClient at hother
        change 2 * c.toRemote.fetched.length + c.toRemote.written.length +
          c.toRemote.reading < _ at hmoved
        rw [hmine, hother]
        omega

theorem step_fetched (hnext : Continues next) (hstep : c.step next e = some c') (dir : Dir) :
    (c'.half dir).fetched = (c.half dir).fetched ++ e.takes dir := by
  cases e with
  | resolved host port ok =>
    obtain ⟨-, rfl⟩ := Machine.taken hstep
    refine Eq.trans ?_ (List.append_nil _).symm
    cases ok <;> cases dir <;> rfl
  | accepted stage rest count =>
    obtain ⟨-, rfl⟩ := Machine.taken hstep
    refine Eq.trans ?_ (List.append_nil _).symm
    cases stage <;> cases dir <;> rfl
  | wrote stage =>
    obtain ⟨-, rfl⟩ := Machine.taken hstep
    refine Eq.trans ?_ (List.append_nil _).symm
    rcases hnext stage (c.finish (.asyncWrite stage [])) with ⟨-, hgo⟩ | ⟨-, hgo⟩ | hgo <;>
      rw [hgo] <;> cases dir <;> rfl
  | relay d e =>
    obtain ⟨half', hhalf, -, -, -, hclient, hremote⟩ := stepRelay_eq_some hstep
    have hmine := Half.step_fetched hhalf
    cases d <;> cases dir
    · exact (congrArg Half.fetched hclient).trans hmine
    · exact (congrArg Half.fetched hremote).trans (List.append_nil _).symm
    · exact (congrArg Half.fetched hclient).trans (List.append_nil _).symm
    · exact (congrArg Half.fetched hremote).trans hmine
  | _ =>
    obtain ⟨-, rfl⟩ := Machine.taken hstep
    refine Eq.trans ?_ (List.append_nil _).symm
    cases dir <;> rfl

/-- A copier that waits for nothing but its sources, and cannot go on, has relayed all that
they have. -/
theorem Alive.drained (h : Alive first c) (hinv : c.Inv leadClient leadRemote)
    {stream : Dir → Text} (hfront : ∀ dir, (c.half dir).fetched <+: stream dir)
    (hconnected : .asyncConnect ∉ c.ops)
    (hstuck : ∀ e c', e.sound = true → c.step next e = some c' →
      ¬∀ dir, (c.half dir).fetched ++ e.takes dir <+: stream dir) :
    c.toClient.written = leadClient ++ stream .toClient ∧
      c.toRemote.written = leadRemote ++ stream .toRemote := by
  -- an event that takes nothing can happen
  have hquiet {e : CopierEvent} {c' : Copier} (hsound : e.sound = true)
      (hstep : c.step next e = some c') (hnone : ∀ dir, e.takes dir = []) : False := by
    refine hstuck e c' hsound hstep fun dir => ?_
    rw [hnone, List.append_nil]
    exact hfront dir
  have hops : c.ops = [] := by
    by_contra hne
    obtain ⟨op, hop⟩ := List.exists_mem_of_ne_nil _ hne
    cases op with
    | asyncResolve host port =>
      exact hquiet (e := .resolved host port true) rfl (if_pos hop) fun _ => rfl
    | asyncConnect => exact hconnected hop
    | asyncWrite stage rest =>
      cases rest with
      | nil => exact hquiet (e := .wrote stage) rfl (if_pos hop) fun _ => rfl
      | cons x rest =>
        exact hquiet (e := .accepted stage (x :: rest) 1) rfl
          (if_pos ⟨hop, Nat.one_pos, Nat.succ_le_succ (Nat.zero_le _)⟩) fun _ => rfl
  have hrelay (dir : Dir) {e : RelayEvent Char} {half' : Half Char} (hsound : e.sound = true)
      (hhalf : (c.half dir).step e = some half') :
      ¬(c.half dir).fetched ++ e.bytes <+: stream dir := by
    intro htaken
    obtain ⟨c', hstep⟩ : ∃ c', c.step next (.relay dir e) = some c' :=
      ⟨_, Option.map_eq_some_iff.mpr ⟨half', hhalf, rfl⟩⟩
    refine hstuck (.relay dir e) c' hsound hstep fun d => ?_
    rw [CopierEvent.takes]
    split
    · rename_i heq
      exact heq ▸ htaken
    · rw [List.append_nil]
      exact hfront d
  exact ⟨Half.drained hinv.client (h.relaying hops .toClient) (h.room .toClient)
      (hfront .toClient) fun e half' hsound hhalf => hrelay .toClient hsound hhalf,
    Half.drained hinv.remote (h.relaying hops .toRemote) (h.room .toRemote)
      (hfront .toRemote) fun e half' hsound hhalf => hrelay .toRemote hsound hhalf⟩

theorem alive_init (maxLength : Nat) (hpos : 0 < maxLength) (req : Request)
    (buffer host port : Text) :
    Alive first ((init maxLength req buffer).begin (.asyncResolve host port)) := by
  refine ⟨nofun, fun stage rest hmem => ?_, fun dir => ?_⟩
  · cases List.mem_singleton.mp hmem
  · cases dir <;> exact Nat.lt_of_lt_of_eq hpos List.length_replicate.symm

end Copier

/-! Each of the two classes, with its own write behind the connect. -/

def HttpCopierEvent.sound : HttpCopierEvent → Bool
  | .connected => true
  | .shared e => e.sound

/-- What an event gets from the source of a direction. -/
def HttpCopierEvent.takes (dir : Dir) : HttpCopierEvent → Text
  | .connected => []
  | .shared e => e.takes dir

namespace HttpCopier

variable {beast : Beast} {req : Request} {buffer : Text} {c c' : Copier} {e : HttpCopierEvent}

theorem goesThrough : Copier.GoesThrough .request next where
  continues := next_continues
  ne := nofun
  writes _ := rfl
  relays _ := rfl

theorem alive_start {urls : BoostUrl} (hstart : start urls (new maxLength req buffer) = .ok c) :
    c.Alive .request := by
  unfold start at hstart
  split at hstart
  · cases hstart
  · rename_i url _
    cases hstart
    exact Copier.alive_init maxLength (by decide) (rewrite url req) buffer _ _

theorem alive_step (hinv : Inv beast req buffer c) (h : c.Alive .request)
    (hsound : e.sound = true) (hstep : step beast c e = some c') :
    c'.Alive .request ∧ c.through + c.rank < c'.through + c'.rank := by
  cases e with
  | connected =>
    obtain ⟨hop, rfl⟩ := Machine.taken hstep
    have hops : (sendParsedRequest beast (c.finish .asyncConnect)).ops =
        [.asyncWrite .request (beast.serialize c.req)] := by
      simp [sendParsedRequest, hinv.1.ops_eq hop]
    refine ⟨h.staged hops (fun stage rest heq => ?_) fun dir => by cases dir <;> rfl, ?_⟩
    · cases heq
      exact Or.inl rfl
    · have hplace : c.place = 1 := Copier.place_of_mem hinv.1 hop
      have hplace' : (sendParsedRequest beast (c.finish .asyncConnect)).place = 2 := by
        rw [Copier.place, hops]
        rfl
      change c.through + (c.place + c.toRemote.reading + c.toClient.reading) <
        c.through + (_ + c.toRemote.reading + c.toClient.reading)
      omega
  | shared e => exact h.step goesThrough hinv.1 hsound hstep

theorem step_fetched (hstep : step beast c e = some c') (dir : Dir) :
    (c'.half dir).fetched = (c.half dir).fetched ++ e.takes dir := by
  cases e with
  | connected =>
    obtain ⟨-, rfl⟩ := Machine.taken hstep
    refine Eq.trans ?_ (List.append_nil _).symm
    cases dir <;> rfl
  | shared e => exact Copier.step_fetched next_continues hstep dir

theorem drained (hinv : Inv beast req buffer c) (h : c.Alive .request)
    (stream : Dir → Text) (hfront : ∀ dir, (c.half dir).fetched <+: stream dir)
    (hstuck : ∀ e c', e.sound = true → step beast c e = some c' →
      ¬∀ dir, (c.half dir).fetched ++ e.takes dir <+: stream dir) :
    c.toClient.written = stream .toClient ∧
      c.toRemote.written = beast.serialize req ++ buffer ++ stream .toRemote := by
  refine h.drained hinv.1 hfront (fun hop => ?_) fun e c' hsound hstep =>
    hstuck (.shared e) c' hsound hstep
  refine hstuck .connected _ rfl (if_pos hop) fun dir => ?_
  change (c.half dir).fetched ++ [] <+: stream dir
  rw [List.append_nil]
  exact hfront dir

end HttpCopier

/-- The call that starts the 200 response sends all of it. -/
def SocketCopierEvent.sound : SocketCopierEvent → Bool
  | .connected count _ => count == ok200.length
  | .shared e => e.sound

/-- What an event gets from the source of a direction. -/
def SocketCopierEvent.takes (dir : Dir) : SocketCopierEvent → Text
  | .connected _ _ => []
  | .shared e => e.takes dir

namespace SocketCopier

variable {req : Request} {buffer : Text} {c c' : Copier} {e : SocketCopierEvent}

theorem goesThrough : Copier.GoesThrough .response next where
  continues := next_continues
  ne := nofun
  writes _ := rfl
  relays _ := rfl

theorem alive_start (hlen : req.target.length < 2 ^ 31) (hcolon : ':' ∈ req.target)
    (hstart : start (new maxLength buffer req) = .ok c) : c.Alive .response := by
  rw [start_of_mem hlen hcolon] at hstart
  cases hstart
  exact Copier.alive_init maxLength (by decide) req [] _ _

theorem alive_step (hinv : Inv c) (h : c.Alive .response) (hsound : e.sound = true)
    (hstep : step c e = some c') :
    c'.Alive .response ∧ c.through + c.rank < c'.through + c'.rank := by
  cases e with
  | connected count stale =>
    obtain ⟨⟨hop, -⟩, rfl⟩ := Machine.taken hstep
    have hops : (write200okToClient (c.finish .asyncConnect) ok200 count stale).ops =
        [.asyncWrite .response stale] := by
      simp [write200okToClient, hinv.1.ops_eq hop]
    refine ⟨h.staged hops (fun stage rest heq => ?_) fun dir => by cases dir <;> rfl, ?_⟩
    · cases heq
      exact Or.inl rfl
    · have hplace : c.place = 1 := Copier.place_of_mem hinv.1 hop
      have hplace' : (write200okToClient (c.finish .asyncConnect) ok200 count stale).place =
          2 := by
        rw [Copier.place, hops]
        rfl
      change c.through + (c.place + c.toRemote.reading + c.toClient.reading) <
        2 * c.toRemote.fetched.length + 2 * c.toClient.fetched.length +
          (c.toClient.written ++ ok200.take count).length + c.toRemote.written.length +
          (_ + c.toRemote.reading + c.toClient.reading)
      rw [List.length_append, Copier.through]
      omega
  | shared e => exact h.step goesThrough hinv.1 hsound hstep

theorem step_fetched (hstep : step c e = some c') (dir : Dir) :
    (c'.half dir).fetched = (c.half dir).fetched ++ e.takes dir := by
  cases e with
  | connected count stale =>
    obtain ⟨-, rfl⟩ := Machine.taken hstep
    refine Eq.trans ?_ (List.append_nil _).symm
    cases dir <;> rfl
  | shared e => exact Copier.step_fetched next_continues hstep dir

theorem drained (hinv : Inv c) (h : c.Alive .response) (stream : Dir → Text)
    (hfront : ∀ dir, (c.half dir).fetched <+: stream dir)
    (hstuck : ∀ e c', e.sound = true → step c e = some c' →
      ¬∀ dir, (c.half dir).fetched ++ e.takes dir <+: stream dir) :
    c.toClient.written = ok200 ++ stream .toClient ∧ c.toRemote.written = stream .toRemote := by
  refine h.drained hinv.1 hfront (fun hop => ?_) fun e c' hsound hstep =>
    hstuck (.shared e) c' hsound hstep
  refine hstuck (.connected ok200.length []) _ (beq_self_eq_true _) (if_pos ⟨hop, rfl⟩)
    fun dir => ?_
  change (c.half dir).fetched ++ [] <+: stream dir
  rw [List.append_nil]
  exact hfront dir

end SocketCopier

end ServerAsync
