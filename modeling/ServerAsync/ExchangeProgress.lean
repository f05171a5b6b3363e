import ServerAsync.Exchange

/-!
# A client gets its response

When nothing fails, and the server's handler replies, the client and its server have
finitely many steps to make, and have no step left only when the client has got its
response.
-/

namespace ServerAsync

open Misc Misc.Pipeline

/-- Nothing fails with this event, and the client does not close its end. -/
def ExchangeEvent.smooth : ExchangeEvent → Bool
  | .client (.resolved _ _ ok) => ok
  | .client (.connected ok) => ok
  | .client (.written _ ok) => ok
  | .client (.read (.error _)) => false
  | .server .endOfStream => false
  | .server (.readFailed _) => false
  | .server (.written _ ok) => ok
  | _ => true

namespace Session

variable {lib : Lib} {req : Request} {s s' : Session} {e : SessionEvent}

/-- What is in flight in a plain session that has not been given away. -/
structure InFlight (reads : List (Read Request)) (writes : List (Reply Response))
    (s : Session) : Prop where
  kind : s.kind = .plain
  fate : s.fate = .live
  shutdowns : s.shutdowns = 0
  reads_eq : s.reads = reads
  writes_eq : s.writes = writes

/-- With no operation in flight nothing happens to a session. -/
theorem InFlight.stuck (h : InFlight [] [] s) (hstep : s.step lib e = some s') : False := by
  obtain ⟨-, hreact⟩ := (step_eq_some lib).mp hstep
  have hreads : ∀ op, op ∉ s.reads := fun op => h.reads_eq ▸ List.not_mem_nil
  cases e with
  | arrive bytes =>
    obtain ⟨hany, -⟩ := Machine.taken hreact
    rw [h.reads_eq] at hany
    cases hany
  | handshake bytesUsed => exact hreads _ (Machine.taken hreact).1
  | headerRead req bytes files => exact hreads _ (Machine.taken hreact).1.1
  | endOfStream => exact hreads _ (Machine.taken hreact).1
  | bodyRead number req => exact hreads _ (Machine.taken hreact).1.1
  | readFailed op => exact hreads _ (Machine.taken hreact).1
  | written q ok =>
    have hq := (Machine.taken hreact).1
    rw [h.writes_eq] at hq
    cases hq
  | shutdown =>
    have hpos := (Machine.taken hreact).1
    rw [h.shutdowns] at hpos
    exact Nat.lt_irrefl 0 hpos

/-- A session that has queued nothing has an empty queue. -/
theorem queue_nil (hinv : Pipeline.Inv queueLimit s.core) (hqueued : s.queued = []) :
    s.responseQueue = [] := by
  have hsplit : s.answered ++ s.responseQueue = s.queued := hinv.write.answered_eq
  rw [hqueued] at hsplit
  exact (List.append_eq_nil_iff.mp hsplit).2

/-- What an event without a failure makes of a session that waits for its request, when the
handler replies: more of it has arrived, or the response is being written. -/
theorem waiting_step (hinv : Pipeline.Inv queueLimit s.core) (hwaiting : Waiting s)
    (h : InFlight [.header] [] s)
    (hreply : ∀ files, ∃ r, route lib req files = .reply r)
    (hread : ∀ req' bytes, lib.beast.parseHeader s.buffer = .done req' bytes → req' = req)
    (hsmooth : (ExchangeEvent.server e).smooth = true) (hstep : s.step lib e = some s') :
    (e.isArrival = true ∧ Waiting s' ∧ InFlight [.header] [] s') ∨
      ∃ q, e.isArrival = false ∧ e.delivered = [] ∧ s'.headers = [req] ∧
        s'.responseQueue = [q] ∧ InFlight [] [q] s' := by
  obtain ⟨-, hreact⟩ := (step_eq_some lib).mp hstep
  cases e with
  | arrive bytes =>
    obtain ⟨-, rfl⟩ := Machine.taken hreact
    refine Or.inl ⟨rfl, ⟨hwaiting.headers, hwaiting.dispatched, ?_, hwaiting.queued,
      hwaiting.reads⟩, h.kind, h.fate, h.shutdowns, h.reads_eq, h.writes_eq⟩
    change s.buffer ++ bytes = s.received ++ bytes
    rw [hwaiting.buffer]
  | handshake bytesUsed => cases hwaiting.reads _ (Machine.taken hreact).1
  | headerRead req' bytes files =>
    obtain ⟨⟨hop, hparse⟩, rfl⟩ := Machine.taken hreact
    have hreq := hread req' bytes hparse
    subst hreq
    obtain ⟨r, hroute⟩ := hreply files
    rw [onRead_eq, hroute, onRoute, hwaiting.headers, List.length_nil]
    have hqueue : ((s.takeHeader lib req' bytes).dispatch req').responseQueue = [] := by
      change s.responseQueue = []
      exact queue_nil hinv hwaiting.queued
    have hreads : (s.takeHeader lib req' bytes).reads = [] := by
      change s.reads.erase .header = []
      rw [h.reads_eq, List.erase_cons_head]
    have hheaders : (s.takeHeader lib req' bytes).headers = [req'] := by
      change s.headers ++ [req'] = [req']
      rw [hwaiting.headers, List.nil_append]
    refine Or.inr ⟨⟨0, r⟩, rfl, rfl, ?_⟩
    unfold queueWrite
    rw [hqueue, List.nil_append, if_pos (by rfl)]
    refine ⟨hheaders, rfl, h.kind, h.fate, h.shutdowns, hreads, ?_⟩
    change s.writes ++ [_] = _
    rw [h.writes_eq, List.nil_append]
  | endOfStream => cases hsmooth
  | bodyRead number req' => cases hwaiting.reads _ (Machine.taken hreact).1.1
  | readFailed op => cases hsmooth
  | written q ok =>
    have hq := (Machine.taken hreact).1
    rw [h.writes_eq] at hq
    cases hq
  | shutdown =>
    have hpos := (Machine.taken hreact).1
    rw [h.shutdowns] at hpos
    exact absurd hpos (Nat.lt_irrefl 0)

/-- While its only response is being written, a session only waits for that. -/
theorem writing_step {q : Reply Response} (h : InFlight [] [q] s) (hqueue : s.responseQueue = [q])
    (hsmooth : (ExchangeEvent.server e).smooth = true) (hstep : s.step lib e = some s') :
    e.isArrival = false ∧ e.delivered = [q.message] ∧ s'.headers = s.headers ∧
      InFlight [] [] s' := by
  obtain ⟨-, hreact⟩ := (step_eq_some lib).mp hstep
  have hreads : ∀ op, op ∉ s.reads := fun op => h.reads_eq ▸ List.not_mem_nil
  cases e with
  | arrive bytes =>
    obtain ⟨hany, -⟩ := Machine.taken hreact
    rw [h.reads_eq] at hany
    cases hany
  | handshake bytesUsed => exact absurd (Machine.taken hreact).1 (hreads _)
  | headerRead req' bytes files => exact absurd (Machine.taken hreact).1.1 (hreads _)
  | endOfStream => exact absurd (Machine.taken hreact).1 (hreads _)
  | bodyRead number req' => exact absurd (Machine.taken hreact).1.1 (hreads _)
  | readFailed op => exact absurd (Machine.taken hreact).1 (hreads _)
  | written q' ok =>
    obtain ⟨hq, rfl⟩ := Machine.taken hreact
    rw [h.writes_eq, List.mem_singleton] at hq
    subst hq
    have hok : ok = true := hsmooth
    subst hok
    have hwrites : s.writes.erase q' = [] := by
      rw [h.writes_eq, List.erase_cons_head]
    refine ⟨rfl, rfl, ?_⟩
    unfold onWrite
    rw [if_neg Bool.true_eq_false.mp]
    split
    · refine ⟨rfl, h.kind, h.fate, ?_, h.reads_eq, hwrites⟩
      change (if s.kind = .ssl then s.shutdowns + 1 else s.shutdowns) = 0
      rw [h.kind, if_neg (by decide), h.shutdowns]
    · -- the queue is empty behind the response
      have hroom : ¬queueLimit ≤ s.responseQueue.length := by
        rw [hqueue, List.length_singleton]
        decide
      rw [if_neg hroom]
      simp only [doWrite, hqueue, List.tail_cons]
      exact ⟨trivial, h.kind, h.fate, h.shutdowns, h.reads_eq, hwrites⟩
  | shutdown =>
    have hpos := (Machine.taken hreact).1
    rw [h.shutdowns] at hpos
    exact absurd hpos (Nat.lt_irrefl 0)

end Session

namespace Exchange

variable {lib : Lib} {req : Request}

/-- What holds while the client's operation is in flight, with `sent` bytes of `len` on
their way. -/
def AtOp (req : Request) (len sent : Nat) : ClientOp → Prop
  | .asyncResolve _ _ => sent = 0
  | .asyncConnect => sent = 0
  | .asyncWrite r => r = req
  | .asyncRead => sent = len
  | _ => False

/-- How far the client has got. -/
def ClientAt (req : Request) (len sent : Nat) (c : ClientSession Response) : Prop :=
  (∃ op, c.ops = [op] ∧ c.settlements = [] ∧ AtOp req len sent op) ∨
    c.ops = [] ∧ ∃ res, c.settlements = [.ok res]

/-- How far the server has got, with these responses on their way, and with or without the
client waiting. -/
inductive ServerAt (req : Request) (server : Option Session) (down : List Response)
    (busy : Bool) : Prop
  | detecting (hserver : server = none) (hdown : down = []) (hbusy : busy = true)
  | waiting (c : Session) (hserver : server = some c) (hdown : down = []) (hbusy : busy = true)
    (hwaiting : c.Waiting) (hops : c.InFlight [.header] [])
  | writing (c : Session) (q : Reply Response) (hserver : server = some c) (hdown : down = [])
    (hbusy : busy = true) (hheaders : c.headers = [req]) (hqueue : c.responseQueue = [q])
    (hops : c.InFlight [] [q])
  | written (c : Session) (hserver : server = some c) (hheaders : c.headers = [req])
    (hops : c.InFlight [] [])
    (hdown : (∃ res, down = [res] ∧ busy = true) ∨ down = [] ∧ busy = false)

/-- What holds as long as nothing has failed. -/
structure Flow (lib : Lib) (req : Request) (s : Exchange) : Prop where
  inv : Inv lib req s
  kind : s.client.kind = .session
  client : ClientAt req (lib.beast.serialize req).length s.sent s.client
  server : ServerAt req s.server s.down !s.client.ops.isEmpty

/-- How many operations a client has to complete, from this one on. -/
def opRank : ClientOp → Nat
  | .asyncResolve _ _ => 4
  | .asyncConnect => 3
  | .asyncHandshake => 3
  | .asyncWrite _ => 2
  | .asyncRead => 1
  | .asyncShutdown => 0

def serverRank : Option Session → Nat
  | none => 2
  | some c => if c.headers = [] then 2 else c.writes.length

/-- How many steps are left at most. A byte of the request is sent, and arrives. -/
def rank (len : Nat) (s : Exchange) : Nat :=
  2 * (len - s.sent) + s.up.length + (s.client.ops.map opRank).sum + serverRank s.server

/-- The operation in flight says how far the client has got. -/
theorem ClientAt.of_mem {len sent : Nat} {c : ClientSession Response}
    (h : ClientAt req len sent c) {op : ClientOp} (hop : op ∈ c.ops) :
    c.ops = [op] ∧ c.settlements = [] ∧ AtOp req len sent op := by
  rcases h with ⟨op', hops, hnone, hat⟩ | ⟨hops, -⟩
  · rw [hops, List.mem_singleton] at hop
    subst hop
    exact ⟨hops, hnone, hat⟩
  · rw [hops] at hop
    cases hop

/-- One operation is followed by another. -/
theorem ClientAt.next {len sent : Nat} {c : ClientSession Response} {op op' : ClientOp}
    (hops : c.ops = [op]) (hnone : c.settlements = []) (hat : AtOp req len sent op') :
    ClientAt req len sent ((c.finish op).begin op') ∧ ((c.finish op).begin op').ops = [op'] := by
  have hnext : ((c.finish op).begin op').ops = [op'] := by
    refine ClientSession.begin_ops ?_ op'
    rw [ClientSession.finish, hops, List.erase_cons_head]
  exact ⟨Or.inl ⟨op', hnext, hnone, hat⟩, hnext⟩

theorem Flow.advance {s : Exchange} (h : Flow lib req s) {op : ClientOp}
    (hop : op ∈ s.client.ops) (op' : ClientOp)
    (hat : AtOp req (lib.beast.serialize req).length s.sent op') (hlt : opRank op' < opRank op)
    (hinv : Inv lib req { s with client := (s.client.finish op).begin op' }) (len : Nat) :
    Flow lib req { s with client := (s.client.finish op).begin op' } ∧
      rank len { s with client := (s.client.finish op).begin op' } < rank len s := by
  obtain ⟨hops, hnone, -⟩ := h.client.of_mem hop
  obtain ⟨hnext, hops'⟩ := ClientAt.next hops hnone hat
  refine ⟨⟨hinv, h.kind, hnext, ?_⟩, ?_⟩
  · have hserver := h.server
    rw [hops] at hserver
    rw [hops']
    exact hserver
  · simp only [rank, hops, hops', List.map_cons, List.map_nil, List.sum_cons, List.sum_nil]
    omega

theorem flow_client (hlegible : Legible lib req) (hhandler : ForHandler lib req) {s t : Exchange}
    {e : ClientEvent Response} (h : Flow lib req s)
    (hsmooth : (ExchangeEvent.client e).smooth = true)
    (hstep : s.step lib (.client e) = some t) (len : Nat) :
    Flow lib req t ∧ rank len t < rank len s := by
  have hinv := inv_step hlegible hhandler h.inv hstep
  obtain ⟨down, c, hdown, hreact, rfl⟩ := step_client.mp hstep
  cases e with
  | run host port target version hostNameSet =>
    obtain ⟨hfresh, -⟩ := Machine.taken hreact
    rw [h.inv.started] at hfresh
    cases hfresh
  | resolved host port ok =>
    obtain ⟨hop, rfl⟩ := Machine.taken hreact
    obtain rfl : s.down = down := Option.some.inj hdown
    obtain rfl : ok = true := hsmooth
    exact h.advance hop .asyncConnect (h.client.of_mem hop).2.2 (Nat.lt_succ_self 3) hinv len
  | connected ok =>
    obtain ⟨hop, rfl⟩ := Machine.taken hreact
    obtain rfl : s.down = down := Option.some.inj hdown
    obtain rfl : ok = true := hsmooth
    have hwrite : (s.client.finish .asyncConnect).onConnect true =
        (s.client.finish .asyncConnect).begin (.asyncWrite s.client.req) := by
      simp only [ClientSession.onConnect, if_true]
      rw [show (s.client.finish .asyncConnect).kind = .session from h.kind]
      rfl
    rw [hwrite] at hinv ⊢
    exact h.advance hop (.asyncWrite s.client.req) h.inv.req_eq (Nat.lt_succ_self 2) hinv len
  | handshaken ok =>
    obtain ⟨hop, -⟩ := Machine.taken hreact
    exact (h.client.of_mem hop).2.2.elim
  | written r ok =>
    obtain ⟨hop, rfl⟩ := Machine.taken hreact
    obtain rfl : ok = true := hsmooth
    obtain ⟨hsent, rfl⟩ := Machine.taken hdown
    have hlen : s.sent = (lib.beast.serialize req).length := by
      rw [hsent, text, h.inv.req_eq]
    exact h.advance hop .asyncRead hlen (Nat.lt_succ_self 1) hinv len
  | read result =>
    obtain ⟨hop, rfl⟩ := Machine.taken hreact
    cases result with
    | error what => cases hsmooth
    | ok res =>
      obtain ⟨hhead, rfl⟩ := Machine.taken hdown
      obtain ⟨hops, hnone, -⟩ := h.client.of_mem hop
      have hread : (s.client.finish .asyncRead).onRead (.ok res) =
          (s.client.finish .asyncRead).settle (.ok res) := by
        simp only [ClientSession.onRead]
        rw [show (s.client.finish .asyncRead).kind = .session from h.kind]
      rw [hread] at hinv ⊢
      have hops' : ((s.client.finish .asyncRead).settle (.ok res)).ops = [] := by
        change s.client.ops.erase .asyncRead = []
        rw [hops, List.erase_cons_head]
      have hsettled : ((s.client.finish .asyncRead).settle (.ok res)).settlements = [.ok res] := by
        change s.client.settlements ++ [.ok res] = [.ok res]
        rw [hnone, List.nil_append]
      refine ⟨⟨hinv, h.kind, Or.inr ⟨hops', res, hsettled⟩, ?_⟩, ?_⟩
      · change ServerAt req s.server s.down.tail _
        rw [hops']
        -- a response is on its way, so the server has written it
        cases h.server with
        | detecting hserver hdown hbusy =>
          rw [hdown] at hhead
          cases hhead
        | waiting c hserver hdown hbusy hwaiting hinFlight =>
          rw [hdown] at hhead
          cases hhead
        | writing c q hserver hdown hbusy hheaders hqueue hinFlight =>
          rw [hdown] at hhead
          cases hhead
        | written c hserver hheaders hinFlight hdown =>
          refine .written c hserver hheaders hinFlight (Or.inr ⟨?_, rfl⟩)
          rcases hdown with ⟨res', hdown, -⟩ | ⟨hdown, -⟩
          · rw [hdown, List.tail_cons]
          · rw [hdown, List.tail_nil]
      · simp only [rank, hops, hops', List.map_cons, List.map_nil, List.sum_cons, List.sum_nil]
        rw [opRank]
        omega
  | shutDown ok =>
    obtain ⟨hop, -⟩ := Machine.taken hreact
    exact (h.client.of_mem hop).2.2.elim

theorem flow_send (hlegible : Legible lib req) (hhandler : ForHandler lib req) {s t : Exchange}
    {count : Nat} (h : Flow lib req s) (hstep : s.step lib (.send count) = some t) :
    Flow lib req t ∧
      rank (lib.beast.serialize req).length t < rank (lib.beast.serialize req).length s := by
  have hinv := inv_step hlegible hhandler h.inv hstep
  obtain ⟨⟨hop, hpos, hle⟩, rfl⟩ := Machine.taken hstep
  obtain ⟨hops, hnone, hat⟩ := h.client.of_mem hop
  have htext : s.text lib = lib.beast.serialize req := congrArg _ h.inv.req_eq
  refine ⟨⟨hinv, h.kind, Or.inl ⟨_, hops, hnone, hat⟩, h.server⟩, ?_⟩
  rw [htext] at hle ⊢
  simp only [rank, List.length_append, List.length_drop, List.length_take]
  omega

theorem flow_detected (hlegible : Legible lib req) (hhandler : ForHandler lib req)
    {s t : Exchange} {count : Nat} (h : Flow lib req s)
    (hstep : s.step lib (.detected count) = some t) (len : Nat) :
    Flow lib req t ∧ rank len t < rank len s := by
  have hinv := inv_step hlegible hhandler h.inv hstep
  obtain ⟨⟨hnone, hpos, hle⟩, rfl⟩ := Machine.taken hstep
  have hfresh : (Session.run .plain (s.up.take count)).Waiting :=
    ⟨rfl, rfl, rfl, rfl, fun op hop => List.mem_singleton.mp hop⟩
  refine ⟨⟨hinv, h.kind, h.client, ?_⟩, ?_⟩
  · cases h.server with
    | detecting hserver hdown hbusy =>
      exact .waiting _ rfl hdown hbusy hfresh ⟨rfl, rfl, rfl, rfl, rfl⟩
    | waiting c hserver => cases hnone.symm.trans hserver
    | writing c q hserver => cases hnone.symm.trans hserver
    | written c hserver => cases hnone.symm.trans hserver
  · have hrank : serverRank (some (Session.run .plain (s.up.take count))) = 2 := rfl
    simp only [rank, hnone, hrank, List.length_drop]
    rw [serverRank]
    omega

/-- What an event of its session makes of the server: it gets on, or it has only received
something. -/
theorem flow_session (hlegible : Legible lib req)
    (hreply : ∀ files, ∃ r, route lib req files = .reply r) {s : Exchange} (h : Flow lib req s)
    {c c' : Session} (hserver : s.server = some c) {e : SessionEvent}
    (hsmooth : (ExchangeEvent.server e).smooth = true) (hstep : c.step lib e = some c') :
    ServerAt req (some c') (s.down ++ e.delivered) (!s.client.ops.isEmpty) ∧
      serverRank (some c') + (if e.isArrival then 0 else 1) ≤ serverRank s.server := by
  have hone := h.inv.server c hserver
  cases h.server with
  | detecting hnone => cases hnone.symm.trans hserver
  | waiting d hd hdown hbusy hwaiting hops =>
    cases hserver.symm.trans hd
    have hread : ∀ req' bytes, lib.beast.parseHeader c.buffer = .done req' bytes → req' = req := by
      intro req' bytes hparse
      refine (Session.parse_legible hlegible ?_ hparse).1
      rw [hwaiting.buffer]
      exact hone.received
    have hrank : serverRank s.server = 2 := by
      rw [hserver, serverRank, if_pos hwaiting.headers]
    rcases Session.waiting_step hone.core hwaiting hops hreply hread hsmooth hstep with
      ⟨harrival, hwaiting', hops'⟩ | ⟨q, harrival, hnone, hheaders, hqueue, hops'⟩
    · have hdelivered : e.delivered = [] := by
        cases e with
        | arrive bytes => rfl
        | _ => cases harrival
      rw [hdelivered, List.append_nil, harrival, if_pos rfl, hrank, serverRank,
        if_pos hwaiting'.headers]
      exact ⟨.waiting c' rfl hdown hbusy hwaiting' hops', Nat.le_refl 2⟩
    · rw [hnone, List.append_nil, harrival, hrank, serverRank, hheaders,
        if_neg (List.cons_ne_nil _ _), hops'.writes_eq]
      exact ⟨.writing c' q rfl hdown hbusy hheaders hqueue hops', Nat.le_refl 2⟩
  | writing d q hd hdown hbusy hheaders hqueue hops =>
    cases hserver.symm.trans hd
    obtain ⟨harrival, hdelivered, hheaders', hops'⟩ :=
      Session.writing_step hops hqueue hsmooth hstep
    rw [hheaders] at hheaders'
    rw [hdelivered, hdown, harrival, hserver, serverRank, serverRank, hheaders, hheaders',
      hops.writes_eq, hops'.writes_eq, if_neg (List.cons_ne_nil _ _),
      if_neg (List.cons_ne_nil _ _)]
    exact ⟨.written c' rfl hheaders' hops' (Or.inl ⟨q.message, rfl, hbusy⟩), Nat.le_refl 1⟩
  | written d hd hheaders hops hdown =>
    cases hserver.symm.trans hd
    exact (hops.stuck hstep).elim

/-- A step without a failure, from a state without one. -/
theorem flow_step (hlegible : Legible lib req)
    (hreply : ∀ files, ∃ r, route lib req files = .reply r) {s t : Exchange} {e : ExchangeEvent}
    (h : Flow lib req s) (hsmooth : e.smooth = true) (hstep : s.step lib e = some t) :
    Flow lib req t ∧
      rank (lib.beast.serialize req).length t < rank (lib.beast.serialize req).length s := by
  obtain ⟨r, hr⟩ := hreply noFiles
  have hhandler := forHandler_of_reply hr
  have hinv := inv_step hlegible hhandler h.inv hstep
  cases e with
  | client e => exact flow_client hlegible hhandler h hsmooth hstep _
  | send count => exact flow_send hlegible hhandler h hstep
  | detected count => exact flow_detected hlegible hhandler h hstep _
  | arrive count =>
    obtain ⟨⟨hpos, hle⟩, c, c', hc, hreact, rfl⟩ := step_arrive.mp hstep
    obtain ⟨hat, hrank⟩ := flow_session hlegible hreply h hc rfl hreact
    refine ⟨⟨hinv, h.kind, h.client, ?_⟩, ?_⟩
    · change ServerAt req (some c') (s.down ++ []) _ at hat
      rwa [List.append_nil] at hat
    · rw [SessionEvent.isArrival, if_pos rfl] at hrank
      simp only [rank, List.length_drop]
      omega
  | server e =>
    obtain ⟨harrival, c, c', hc, hreact, rfl⟩ := step_server.mp hstep
    obtain ⟨hat, hrank⟩ := flow_session hlegible hreply h hc hsmooth hreact
    refine ⟨⟨hinv, h.kind, h.client, hat⟩, ?_⟩
    rw [harrival, if_neg Bool.false_ne_true] at hrank
    simp only [rank]
    omega
  | relayed res =>
    obtain ⟨c, hc, howner⟩ := step_relayed hstep
    exact absurd (h.inv.kept c hc) howner

theorem flow_start (lib : Lib) (host port target : Text) (version : Nat) :
    Flow lib (ClientSession.request lib.beast.versionString host target version)
      (start lib host port target version) where
  inv := inv_start lib host port target version
  kind := rfl
  client := Or.inl ⟨.asyncResolve host port, rfl, rfl, rfl⟩
  server := .detecting rfl rfl rfl

/-- A server that the client waits for can go on. -/
theorem server_goesOn (hlegible : Legible lib req) {s : Exchange} (h : Flow lib req s)
    (hop : .asyncRead ∈ s.client.ops) : ∃ e t, e.smooth = true ∧ s.step lib e = some t := by
  obtain ⟨hops, -, hsent⟩ := h.client.of_mem hop
  have hbytes : s.received ++ s.up = lib.beast.serialize req := by
    rw [h.inv.bytes, hsent, List.take_length]
  cases h.server with
  | detecting hserver hdown hbusy =>
    have hup : s.up = lib.beast.serialize req := by
      rwa [received, hserver, Option.map_none, Option.getD_none, List.nil_append] at hbytes
    have hpos : 0 < s.up.length := by
      rw [hup]
      exact (lib.beast.bytes_le _ _ _ hlegible).1
    exact ⟨.detected s.up.length, _, rfl, if_pos ⟨hserver, hpos, Nat.le_refl _⟩⟩
  | waiting c hserver hdown hbusy hwaiting hinFlight =>
    have hlive {e : SessionEvent} {c' : Session} (hreact : c.react lib e = some c') :
        c.step lib e = some c' := (Session.step_eq_some lib).mpr ⟨hinFlight.fate, hreact⟩
    cases hup : s.up with
    | cons b rest =>
      have hpos : 0 < s.up.length := by
        rw [hup]
        exact Nat.succ_pos _
      have hany : c.reads.any (· ≠ .opening) = true := by
        rw [hinFlight.reads_eq]
        rfl
      exact ⟨.arrive s.up.length, _, rfl,
        step_arrive.mpr ⟨⟨hpos, Nat.le_refl _⟩, c, _, hserver, hlive (if_pos hany), rfl⟩⟩
    | nil =>
      -- all of the request has been received
      have hbuffer : c.buffer = lib.beast.serialize req := by
        rwa [received, hserver, Option.map_some, Option.getD_some, hup, List.append_nil,
          ← hwaiting.buffer] at hbytes
      have hheader : .header ∈ c.reads := by
        rw [hinFlight.reads_eq]
        exact List.mem_cons_self
      have hparse : lib.beast.parseHeader c.buffer =
          .done req (lib.beast.serialize req).length := by
        rw [hbuffer]
        exact hlegible
      exact ⟨.server (.headerRead req _ noFiles), _, rfl,
        step_server.mpr ⟨rfl, c, _, hserver, hlive (if_pos ⟨hheader, hparse⟩), rfl⟩⟩
  | writing c q hserver hdown hbusy hheaders hqueue hinFlight =>
    have hq : q ∈ c.writes := by
      rw [hinFlight.writes_eq]
      exact List.mem_cons_self
    have hstep : c.step lib (.written q true) = some _ :=
      (Session.step_eq_some lib).mpr ⟨hinFlight.fate, if_pos hq⟩
    exact ⟨.server (.written q true), _, rfl,
      step_server.mpr ⟨rfl, c, _, hserver, hstep, rfl⟩⟩
  | written c hserver hheaders hinFlight hdown =>
    rcases hdown with ⟨res, hdown, -⟩ | ⟨-, hbusy⟩
    · have hhead : s.leaves lib (.read (.ok res)) = some s.down.tail := by
        refine if_pos ?_
        rw [hdown, List.head?_cons]
      exact ⟨.client (.read (.ok res)), _, rfl, step_client.mpr ⟨_, _, hhead, if_pos hop, rfl⟩⟩
    · rw [hops] at hbusy
      cases hbusy

/-- As long as the client waits for something, something can happen without a failure. -/
theorem goesOn (hlegible : Legible lib req) {s : Exchange} (h : Flow lib req s)
    {op : ClientOp} (hop : op ∈ s.client.ops) :
    ∃ e t, e.smooth = true ∧ s.step lib e = some t := by
  obtain ⟨-, -, hat⟩ := h.client.of_mem hop
  cases op with
  | asyncResolve host port =>
    exact ⟨.client (.resolved host port true), _, rfl,
      step_client.mpr ⟨_, _, rfl, if_pos hop, rfl⟩⟩
  | asyncConnect =>
    exact ⟨.client (.connected true), _, rfl, step_client.mpr ⟨_, _, rfl, if_pos hop, rfl⟩⟩
  | asyncHandshake => exact hat.elim
  | asyncWrite r =>
    obtain rfl : r = req := hat
    have htext : s.text lib = lib.beast.serialize r := congrArg _ h.inv.req_eq
    rcases Nat.lt_or_ge s.sent (lib.beast.serialize r).length with hlt | hge
    · have hwrite : .asyncWrite s.client.req ∈ s.client.ops := by
        rw [h.inv.req_eq]
        exact hop
      refine ⟨.send ((lib.beast.serialize r).length - s.sent), _, rfl,
        if_pos ⟨hwrite, Nat.sub_pos_of_lt hlt, ?_⟩⟩
      rw [htext]
      omega
    · have hall : s.leaves lib (.written r true) = some s.down := by
        refine if_pos ?_
        rw [htext]
        exact Nat.le_antisymm h.inv.sent_le hge
      exact ⟨.client (.written r true), _, rfl, step_client.mpr ⟨_, _, hall, if_pos hop, rfl⟩⟩
  | asyncRead => exact server_goesOn hlegible h hop
  | asyncShutdown => exact hat.elim

/-- The steps without a failure. -/
def smoothly (lib : Lib) : Machine Exchange ExchangeEvent :=
  (machine lib).only fun _ e => e.smooth

theorem flow_run {host port target : Text} {version : Nat}
    (hlegible : Legible lib (ClientSession.request lib.beast.versionString host target version))
    (hreply : ∀ files, ∃ r,
      route lib (ClientSession.request lib.beast.versionString host target version) files =
        .reply r)
    {s : Exchange} {es : List ExchangeEvent}
    (hrun : (smoothly lib).run (start lib host port target version) es = some s) :
    Flow lib (ClientSession.request lib.beast.versionString host target version) s :=
  Machine.run_invariant (I := Flow lib _)
    (fun _ _ _ h hstep => (flow_step hlegible hreply h (Machine.only_step.mp hstep).1
      (Machine.only_step.mp hstep).2).1)
    (flow_start lib host port target version) hrun

/-- Without failures every run is bounded, and when nothing can happen any more the client
has got an answer to its request. -/
theorem response_arrives {host port target : Text} {version : Nat}
    (hlegible : Legible lib (ClientSession.request lib.beast.versionString host target version))
    (hreply : ∀ files, ∃ r,
      route lib (ClientSession.request lib.beast.versionString host target version) files =
        .reply r)
    {s : Exchange} {es : List ExchangeEvent}
    (hrun : (smoothly lib).run (start lib host port target version) es = some s) :
    es.length ≤ 2 * (lib.beast.serialize
        (ClientSession.request lib.beast.versionString host target version)).length + 6 ∧
      ((∀ e, (smoothly lib).step s e = none) → ∃ res, s.client.settlements = [.ok res] ∧
        Answers lib (ClientSession.request lib.beast.versionString host target version) res) := by
  constructor
  · have hlen := Machine.run_length_le (I := Flow lib _) (fun _ _ _ h hstep =>
      flow_step hlegible hreply h (Machine.only_step.mp hstep).1 (Machine.only_step.mp hstep).2)
      (flow_start lib host port target version) hrun
    exact Nat.le_trans (Nat.le_add_right _ _) hlen
  · intro hrest
    have h := flow_run hlegible hreply hrun
    rcases h.client with ⟨op, hops, -, -⟩ | ⟨-, res, hsettled⟩
    · have hop : op ∈ s.client.ops := by
        rw [hops]
        exact List.mem_cons_self
      obtain ⟨e, t, hsmooth, hstep⟩ := goesOn hlegible h hop
      have hnone := hrest e
      rw [show (smoothly lib).step s e = some t from Machine.only_step.mpr ⟨hsmooth, hstep⟩]
        at hnone
      cases hnone
    · refine ⟨res, hsettled, h.inv.settled res ?_⟩
      rw [hsettled]
      exact List.mem_cons_self

theorem file_reply (files : Files) : ∃ r,
    route (Lib.plain [fileRequest]) fileRequest files = .reply r := by
  unfold route
  rw [if_neg (by decide +kernel), if_neg (by decide +kernel), if_neg (by decide +kernel),
    if_neg (by decide +kernel), if_neg (by decide +kernel)]
  exact ⟨_, rfl⟩

theorem response_arrives_file : ∃ s res,
    (smoothly (Lib.plain [fileRequest])).run
      (start (Lib.plain [fileRequest]) ['h'] ['1'] ['/', 'a'] 11) oneExchange = some s ∧
    s.client.settlements = [.ok res] ∧ Answers (Lib.plain [fileRequest]) fileRequest res := by
  obtain ⟨s, hrun, htest⟩ := Machine.run_of_any (smoothly (Lib.plain [fileRequest]))
    (start (Lib.plain [fileRequest]) ['h'] ['1'] ['/', 'a'] 11) oneExchange
    (fun s => rank fileRequest.text.length s == 0) (by decide +kernel)
  have hrest (e : ExchangeEvent) : (smoothly (Lib.plain [fileRequest])).step s e = none := by
    cases hstep : (smoothly (Lib.plain [fileRequest])).step s e with
    | none => rfl
    | some t =>
      obtain ⟨hsmooth, hstep⟩ := Machine.only_step.mp hstep
      have hlt := (flow_step file_legible file_reply (flow_run file_legible file_reply hrun)
        hsmooth hstep).2
      have hzero : rank fileRequest.text.length s = 0 := beq_iff_eq.mp htest
      exact absurd (Nat.lt_of_lt_of_eq hlt hzero) (Nat.not_lt_zero _)
  obtain ⟨res, hsettled, hanswers⟩ := (response_arrives file_legible file_reply hrun).2 hrest
  exact ⟨s, res, hrun, hsettled, hanswers⟩

end Exchange

end ServerAsync
