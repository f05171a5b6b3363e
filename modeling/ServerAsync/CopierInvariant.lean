import ServerAsync.Copier

/-!
# The invariant of a copier

`leadClient` and `leadRemote` are the bytes each side is to get before anything
relayed. Until the relay starts one operation is outstanding at a time, and the
write in progress, together with what `write_unconsumed` will send, is exactly
what is missing; from then on each direction keeps its own invariant.
-/

namespace ServerAsync

open Misc

/-- The bytes the client is still owed while a stage has `rest` to send. -/
def Stage.clientOwed : Stage → Text → Text
  | .response, rest => rest
  | .request, _ => []
  | .unconsumed, _ => []

/-- The bytes the remote is still owed while a stage has `rest` to send, before
anything relayed. -/
def Stage.remoteOwed : Stage → Text → Text → Text
  | .response, _, buffer => buffer
  | .request, rest, buffer => rest ++ buffer
  | .unconsumed, rest, _ => rest

namespace Copier

/-- Where a copier is between its hand-off and the relay. -/
structure Inv (leadClient leadRemote : Text) (c : Copier) : Prop where
  ops_le : c.ops.length ≤ 1
  staging : c.ops ≠ [] → c.toClient.ops = [] ∧ c.toRemote.ops = [] ∧
    c.toClient.fetched = [] ∧ c.toRemote.fetched = []
  connecting : (∃ host port, .asyncResolve host port ∈ c.ops) ∨ .asyncConnect ∈ c.ops →
    c.toClient.written = [] ∧ c.toRemote.written = []
  owed : ∀ stage rest, .asyncWrite stage rest ∈ c.ops →
    c.toClient.written ++ stage.clientOwed rest = leadClient ∧
    c.toRemote.written ++ stage.remoteOwed rest c.buffer = leadRemote
  client : c.toClient.Inv leadClient
  remote : c.toRemote.Inv leadRemote

variable {leadClient leadRemote : Text}

theorem Inv.ops_eq {c : Copier} (h : Inv leadClient leadRemote c) {op : CopierOp}
    (hop : op ∈ c.ops) : c.ops = [op] :=
  Machine.outstanding_eq h.ops_le hop

theorem Inv.of_idle {c : Copier} (hops : c.ops = []) (hclient : c.toClient.Inv leadClient)
    (hremote : c.toRemote.Inv leadRemote) : Inv leadClient leadRemote c where
  ops_le := by simp [hops]
  staging h := absurd hops h
  connecting h := by simp [hops] at h
  owed stage rest h := by simp [hops] at h
  client := hclient
  remote := hremote

/-- A freshly constructed copier. -/
theorem inv_init (maxLength : Nat) (req : Request) (buffer : Text) :
    Inv leadClient leadRemote (init maxLength req buffer) := by
  apply Inv.of_idle rfl
  · exact .of_idle rfl (List.nil_prefix)
  · exact .of_idle rfl (List.nil_prefix)

/-- A copier with nothing outstanding and nothing written starts to resolve. -/
theorem Inv.beginResolve {c : Copier} (h : Inv leadClient leadRemote c) (hops : c.ops = [])
    (hidle : c.toClient.ops = [] ∧ c.toRemote.ops = [] ∧
      c.toClient.fetched = [] ∧ c.toRemote.fetched = [])
    (hw : c.toClient.written = [] ∧ c.toRemote.written = []) (host port : Text) :
    Inv leadClient leadRemote (c.begin (.asyncResolve host port)) where
  ops_le := by simp [hops]
  staging _ := hidle
  connecting _ := hw
  owed stage rest hop := by simp [hops] at hop
  client := h.client
  remote := h.remote

/-- The outstanding operation is over and nothing follows it. -/
theorem Inv.finish {c : Copier} (h : Inv leadClient leadRemote c) {op : CopierOp}
    (hop : op ∈ c.ops) : Inv leadClient leadRemote (c.finish op) :=
  .of_idle (by simp [h.ops_eq hop]) h.client h.remote

theorem Inv.resolved {c : Copier} (h : Inv leadClient leadRemote c) {host port : Text}
    (hop : .asyncResolve host port ∈ c.ops) :
    Inv leadClient leadRemote ((c.finish (.asyncResolve host port)).begin .asyncConnect) where
  ops_le := by simp [h.ops_eq hop]
  staging _ := h.staging (List.ne_nil_of_mem hop)
  connecting _ := h.connecting (Or.inl ⟨host, port, hop⟩)
  owed stage rest hmem := by simp [h.ops_eq hop] at hmem
  client := h.client
  remote := h.remote

/-- What a stage sends is no longer owed to the client. -/
theorem deliver_clientOwed (c : Copier) (stage : Stage) (rest : Text) (count : Nat) :
    (c.deliver stage.dest (rest.take count)).toClient.written ++
      stage.clientOwed (rest.drop count) = c.toClient.written ++ stage.clientOwed rest := by
  cases stage with
  | response =>
    show (c.toClient.written ++ rest.take count) ++ rest.drop count = c.toClient.written ++ rest
    rw [List.append_assoc, List.take_append_drop]
  | request => rfl
  | unconsumed => rfl

/-- What a stage sends is no longer owed to the remote. -/
theorem deliver_remoteOwed (c : Copier) (stage : Stage) (rest buffer : Text) (count : Nat) :
    (c.deliver stage.dest (rest.take count)).toRemote.written ++
      stage.remoteOwed (rest.drop count) buffer =
        c.toRemote.written ++ stage.remoteOwed rest buffer := by
  cases stage with
  | response => rfl
  | request =>
    show (c.toRemote.written ++ rest.take count) ++ (rest.drop count ++ buffer) =
      c.toRemote.written ++ (rest ++ buffer)
    rw [← List.append_assoc, List.append_assoc _ (rest.take count), List.take_append_drop,
      List.append_assoc]
  | unconsumed =>
    show (c.toRemote.written ++ rest.take count) ++ rest.drop count = c.toRemote.written ++ rest
    rw [List.append_assoc, List.take_append_drop]

theorem Inv.accepted {c : Copier} (h : Inv leadClient leadRemote c) {stage : Stage} {rest : Text}
    (hop : .asyncWrite stage rest ∈ c.ops) (count : Nat) :
    Inv leadClient leadRemote
      (((c.finish (.asyncWrite stage rest)).deliver stage.dest (rest.take count)).begin
        (.asyncWrite stage (rest.drop count))) := by
  have hops := h.ops_eq hop
  obtain ⟨hclient, hremote⟩ := h.owed stage rest hop
  rw [← deliver_clientOwed c stage rest count] at hclient
  rw [← deliver_remoteOwed c stage rest c.buffer count] at hremote
  have hidle : (c.deliver stage.dest (rest.take count)).toClient.ops = [] ∧
      (c.deliver stage.dest (rest.take count)).toRemote.ops = [] ∧
      (c.deliver stage.dest (rest.take count)).toClient.fetched = [] ∧
      (c.deliver stage.dest (rest.take count)).toRemote.fetched = [] := by
    have hstaging := h.staging (List.ne_nil_of_mem hop)
    cases stage <;> exact hstaging
  -- the operation that is over does not matter to the two directions
  have hclientSame : (((c.finish (.asyncWrite stage rest)).deliver stage.dest
      (rest.take count)).begin (.asyncWrite stage (rest.drop count))).toClient =
        (c.deliver stage.dest (rest.take count)).toClient := by cases stage <;> rfl
  have hremoteSame : (((c.finish (.asyncWrite stage rest)).deliver stage.dest
      (rest.take count)).begin (.asyncWrite stage (rest.drop count))).toRemote =
        (c.deliver stage.dest (rest.take count)).toRemote := by cases stage <;> rfl
  constructor
  · simp [hops]
  · intro _
    rw [hclientSame, hremoteSame]
    exact hidle
  · intro hmem
    simp [hops] at hmem
  · intro stage' rest' hmem
    simp only [begin_frame, deliver_frame, finish_frame, hops, List.erase_cons_head,
      List.nil_append, List.mem_singleton, CopierOp.asyncWrite.injEq] at hmem
    obtain ⟨rfl, rfl⟩ := hmem
    rw [hclientSame, hremoteSame, (begin_frame _ _).2.1, (deliver_frame _ _ _).2.1,
      (finish_frame _ _).2.1]
    exact ⟨hclient, hremote⟩
  · rw [hclientSame]
    refine .of_idle hidle.1 ⟨stage.clientOwed (rest.drop count), ?_⟩
    rw [hidle.2.2.1, List.append_nil]
    exact hclient
  · rw [hremoteSame]
    refine .of_idle hidle.2.1 ⟨stage.remoteOwed (rest.drop count) c.buffer, ?_⟩
    rw [hidle.2.2.2, List.append_nil]
    exact hremote

/-- The first write is over, and `write_unconsumed` follows. -/
theorem Inv.writeUnconsumed {c : Copier} (h : Inv leadClient leadRemote c) {stage : Stage}
    (hop : .asyncWrite stage [] ∈ c.ops) (hstage : stage ≠ .unconsumed) :
    Inv leadClient leadRemote (c.finish (.asyncWrite stage [])).writeUnconsumed where
  ops_le := by simp [Copier.writeUnconsumed, h.ops_eq hop]
  staging _ := h.staging (List.ne_nil_of_mem hop)
  connecting hmem := by simp [Copier.writeUnconsumed, h.ops_eq hop] at hmem
  owed stage' rest' hmem := by
    obtain ⟨hclient, hremote⟩ := h.owed stage [] hop
    simp only [Copier.writeUnconsumed, begin_frame, finish_frame, h.ops_eq hop,
      List.erase_cons_head, List.nil_append, List.mem_singleton, CopierOp.asyncWrite.injEq] at hmem
    obtain ⟨rfl, rfl⟩ := hmem
    cases stage with
    | response => exact ⟨hclient, hremote⟩
    | request => exact ⟨hclient, hremote⟩
    | unconsumed => exact absurd rfl hstage
  client := h.client
  remote := h.remote

/-- `write_unconsumed` is over: each side has got its lead, and the relay starts. -/
theorem Inv.startRelay {c : Copier} (h : Inv leadClient leadRemote c)
    (hop : .asyncWrite .unconsumed [] ∈ c.ops) :
    Inv leadClient leadRemote (c.finish (.asyncWrite .unconsumed [])).startRelay := by
  obtain ⟨hclientOps, hremoteOps, hclientIn, hremoteIn⟩ := h.staging (List.ne_nil_of_mem hop)
  obtain ⟨hclient, hremote⟩ := h.owed .unconsumed [] hop
  simp only [Stage.clientOwed, Stage.remoteOwed, List.append_nil] at hclient hremote
  apply Inv.of_idle
  · simp [Copier.startRelay, h.ops_eq hop]
  · exact .doRelay hclientOps (by simp [hclientIn, hclient])
  · exact .doRelay hremoteOps (by simp [hremoteIn, hremote])

theorem Inv.relay {c c' : Copier} {dir : Dir} {e : RelayEvent Char}
    (h : Inv leadClient leadRemote c) (hstep : c.stepRelay dir e = some c') :
    Inv leadClient leadRemote c' := by
  obtain ⟨half', hhalf, -, -, hops, hclient', hremote'⟩ := stepRelay_eq_some hstep
  have hactive : (c.half dir).ops ≠ [] := Half.ops_of_step hhalf
  have hidle : c.ops = [] := by
    by_contra hne
    obtain ⟨hclientOps, hremoteOps, -, -⟩ := h.staging hne
    cases dir with
    | toClient => exact hactive hclientOps
    | toRemote => exact hactive hremoteOps
  apply Inv.of_idle (hops.trans hidle)
  · rw [hclient']
    cases dir with
    | toClient => exact Half.inv_step h.client hhalf
    | toRemote => exact h.client
  · rw [hremote']
    cases dir with
    | toClient => exact h.remote
    | toRemote => exact Half.inv_step h.remote hhalf

/-- A continuation that goes on as both classes do: `write_unconsumed` after a
first write, the relay after `write_unconsumed`, or nothing. -/
def Continues (next : Stage → Copier → Copier) : Prop :=
  ∀ stage c, (stage ≠ .unconsumed ∧ next stage c = c.writeUnconsumed) ∨
    (stage = .unconsumed ∧ next stage c = c.startRelay) ∨ next stage c = c

theorem inv_step {next : Stage → Copier → Copier} (hnext : Continues next) {c c' : Copier}
    {e : CopierEvent} (h : Inv leadClient leadRemote c) (hstep : c.step next e = some c') :
    Inv leadClient leadRemote c' := by
  cases e with
  | resolved host port ok =>
    rcases Machine.taken hstep with ⟨hop, rfl⟩
    cases ok with
    | true => exact h.resolved hop
    | false => exact h.finish hop
  | connectFailed =>
    rcases Machine.taken hstep with ⟨hop, rfl⟩
    exact h.finish hop
  | accepted stage rest count =>
    rcases Machine.taken hstep with ⟨⟨hop, -, -⟩, rfl⟩
    exact h.accepted hop count
  | wrote stage =>
    rcases Machine.taken hstep with ⟨hop, rfl⟩
    rcases hnext stage (c.finish (.asyncWrite stage [])) with ⟨hstage, hgo⟩ | ⟨rfl, hgo⟩ | hgo
    · rw [hgo]
      exact h.writeUnconsumed hop hstage
    · rw [hgo]
      exact h.startRelay hop
    · rw [hgo]
      exact h.finish hop
  | writeFailed stage rest =>
    rcases Machine.taken hstep with ⟨hop, rfl⟩
    exact h.finish hop
  | relay dir e => exact h.relay hstep

/-- The request and the unconsumed buffer stay what they were. -/
theorem step_frame {next : Stage → Copier → Copier} (hnext : Continues next) {c c' : Copier}
    {e : CopierEvent} (hstep : c.step next e = some c') :
    c'.req = c.req ∧ c'.buffer = c.buffer := by
  cases e with
  | resolved host port ok =>
    rcases Machine.taken hstep with ⟨-, rfl⟩
    cases ok <;> exact ⟨rfl, rfl⟩
  | wrote stage =>
    rcases Machine.taken hstep with ⟨-, rfl⟩
    rcases hnext stage (c.finish (.asyncWrite stage [])) with ⟨-, hgo⟩ | ⟨-, hgo⟩ | hgo <;>
      rw [hgo] <;> exact ⟨rfl, rfl⟩
  | relay dir e =>
    obtain ⟨-, -, hreq, hbuffer, -⟩ := stepRelay_eq_some hstep
    exact ⟨hreq, hbuffer⟩
  | _ =>
    rcases Machine.taken hstep with ⟨-, rfl⟩
    simp

/-- A direction's buffer stays as it is while the direction is not reading. -/
theorem step_buffer {next : Stage → Copier → Copier} (hnext : Continues next) {c c' : Copier}
    {e : CopierEvent} (hstep : c.step next e = some c') {dir : Dir}
    (hread : .asyncReadSome ∉ (c.half dir).ops) : (c'.half dir).buffer = (c.half dir).buffer := by
  cases e with
  | resolved host port ok =>
    rcases Machine.taken hstep with ⟨-, rfl⟩
    cases ok <;> cases dir <;> rfl
  | accepted stage rest count =>
    rcases Machine.taken hstep with ⟨-, rfl⟩
    cases stage <;> cases dir <;> rfl
  | wrote stage =>
    rcases Machine.taken hstep with ⟨-, rfl⟩
    rcases hnext stage (c.finish (.asyncWrite stage [])) with ⟨-, hgo⟩ | ⟨-, hgo⟩ | hgo
    · rw [hgo]
      cases dir <;> rfl
    · rw [hgo]
      cases dir <;> rfl
    · rw [hgo]
      cases dir <;> rfl
  | relay d e =>
    obtain ⟨half', hhalf, -, -, -, hclient, hremote⟩ := stepRelay_eq_some hstep
    cases d with
    | toClient =>
      cases dir with
      | toClient =>
        show c'.toClient.buffer = _
        rw [hclient]
        exact Half.step_buffer hhalf hread
      | toRemote =>
        show c'.toRemote.buffer = _
        rw [hremote]
        rfl
    | toRemote =>
      cases dir with
      | toClient =>
        show c'.toClient.buffer = _
        rw [hclient]
        rfl
      | toRemote =>
        show c'.toRemote.buffer = _
        rw [hremote]
        exact Half.step_buffer hhalf hread
  | _ =>
    rcases Machine.taken hstep with ⟨-, rfl⟩
    cases dir <;> rfl

/-- One operation at most is outstanding for each direction, the writes before the
relay included. -/
theorem Inv.ops_add_le {c : Copier} (h : Inv leadClient leadRemote c) (dir : Dir) :
    c.ops.length + (c.half dir).ops.length ≤ 1 := by
  have hle := h.ops_le
  by_cases hops : c.ops = []
  · rw [hops, List.length_nil, Nat.zero_add]
    cases dir with
    | toClient => exact h.client.ops_le
    | toRemote => exact h.remote.ops_le
  · obtain ⟨hclient, hremote, -, -⟩ := h.staging hops
    have hnil : (c.half dir).ops = [] := by
      cases dir with
      | toClient => exact hclient
      | toRemote => exact hremote
    rw [hnil]
    exact hle

/-- A direction that writes does not read. -/
theorem Inv.not_reading {c : Copier} (h : Inv leadClient leadRemote c) {dir : Dir}
    {off len : Nat} (hop : .asyncWrite off len ∈ (c.half dir).ops) :
    .asyncReadSome ∉ (c.half dir).ops := by
  have hops : (c.half dir).ops = [.asyncWrite off len] := by
    cases dir with
    | toClient => exact h.client.ops_eq hop
    | toRemote => exact h.remote.ops_eq hop
  rw [hops]
  simp

end Copier

end ServerAsync
