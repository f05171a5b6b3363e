import ServerAsync.SessionDesync
import ServerAsync.HttpServer

/-!
# A session that gets one request

What a session does for a client that sends one request without a body, in whatever
pieces, and nothing more: it dispatches no other request, and it answers with what the
handler makes of this one.
-/

namespace ServerAsync

open Misc Misc.Pipeline

/-- A response that the repository's handler may give to a request, depending on the
files. -/
def Answers (lib : Lib) (req : Request) (res : Response) : Prop :=
  ∃ files, route lib req files = .reply res ∨
    (route lib req files = .upload ∧ res = FileUploadHandler.response req)

/-- The parser reads back the request that was serialized. -/
def Legible (lib : Lib) (req : Request) : Prop :=
  lib.beast.parseHeader (lib.beast.serialize req) =
    .done req (lib.beast.serialize req).length

/-- A request for the handler: it is no upgrade, and the stream does not go to a copier. -/
def ForHandler (lib : Lib) (req : Request) : Prop :=
  lib.beast.isUpgrade req = false ∧ req.method ≠ .connect ∧
    "http".toList.isPrefixOf req.target = false

instance (lib : Lib) (req : Request) : Decidable (ForHandler lib req) :=
  inferInstanceAs (Decidable (_ ∧ _))

theorem ForHandler.not_handsOff {lib : Lib} {req : Request} (h : ForHandler lib req)
    (files : Files) : (route lib req files).handsOff ≠ true := by
  obtain ⟨hupgrade, hconnect, htarget⟩ := h
  unfold route
  rw [hupgrade, if_neg Bool.false_ne_true, if_neg hconnect, htarget,
    if_neg Bool.false_ne_true]
  split_ifs <;> exact Bool.false_ne_true

theorem forHandler_of_reply {lib : Lib} {req : Request} {files : Files} {r : Response}
    (h : route lib req files = .reply r) : ForHandler lib req := by
  unfold route at h
  split at h
  · cases h
  rename_i hupgrade
  split at h
  · cases h
  rename_i hconnect
  split at h
  · cases h
  rename_i htarget
  exact ⟨Bool.not_eq_true _ ▸ hupgrade, hconnect, Bool.not_eq_true _ ▸ htarget⟩

namespace Session

variable {lib : Lib} {req : Request} {s s' : Session} {e : SessionEvent}

theorem doWrite_queued (s : Session) : s.doWrite.queued = s.queued := by
  unfold doWrite
  split <;> rfl

theorem onWrite_queued (s : Session) (q : Reply Response) (ok : Bool) :
    (s.onWrite q ok).queued = s.queued := by
  unfold onWrite
  split
  · rfl
  split
  · rfl
  · rw [doWrite_queued]
    change Session.queued (if _ then _ else _) = _
    split <;> rfl

/-- A response that is being written is the first in the queue. -/
theorem mem_queue_of_mem_writes (hinv : Pipeline.Inv queueLimit s.core) {q : Reply Response}
    (hq : q ∈ s.writes) : q ∈ s.responseQueue := by
  have hwrites : s.writes = if s.closed then [] else s.responseQueue.take 1 :=
    hinv.write.writes_eq
  rw [hwrites] at hq
  split at hq
  · cases hq
  · exact List.mem_of_mem_take hq

theorem mem_queued_of_mem_writes (hinv : Pipeline.Inv queueLimit s.core) {q : Reply Response}
    (hq : q ∈ s.writes) : q ∈ s.queued := by
  have hqueued : s.answered ++ s.responseQueue = s.queued := hinv.write.answered_eq
  rw [← hqueued]
  exact List.mem_append_right _ (mem_queue_of_mem_writes hinv hq)

/-- Before the header has been read: what was received is in the buffer. -/
structure Waiting (s : Session) : Prop where
  headers : s.headers = []
  dispatched : s.dispatched = []
  buffer : s.buffer = s.received
  queued : s.queued = []
  reads : ∀ op ∈ s.reads, op = .header

/-- Afterwards: there is nothing in the buffer, and what was queued answers the request. -/
structure Served (lib : Lib) (req : Request) (s : Session) : Prop where
  headers : s.headers = [req]
  dispatched : s.dispatched <+: [req]
  received : s.received = lib.beast.serialize req
  buffer : s.buffer = []
  queued : ∀ q ∈ s.queued, q.request = 0 ∧ Answers lib req q.message
  reads : ∀ op ∈ s.reads, op = .header ∨ (op = .body 0 req ∧
    ∃ files, route lib req files = .upload)

/-- A text that the parser takes a header from is not empty. -/
theorem parse_nil (lib : Lib) (req : Request) (bytes : Nat) :
    lib.beast.parseHeader [] ≠ .done req bytes := by
  intro h
  obtain ⟨hpos, hle⟩ := lib.beast.bytes_le _ _ _ h
  rw [List.length_nil] at hle
  omega

/-- A header that is found in a front of the serialized request is that request, and the
front is all of it. -/
theorem parse_legible (h : Legible lib req) {front : Text}
    (hfront : front <+: lib.beast.serialize req) {req' : Request} {bytes : Nat}
    (hparse : lib.beast.parseHeader front = .done req' bytes) :
    req' = req ∧ bytes = front.length ∧ front = lib.beast.serialize req := by
  obtain ⟨rest, hrest⟩ := hfront
  have hwhole := lib.beast.parse_append front req' bytes rest hparse
  rw [hrest, h, Parse.done.injEq] at hwhole
  obtain ⟨rfl, hbytes⟩ := hwhole
  obtain ⟨-, hle⟩ := lib.beast.bytes_le _ _ _ hparse
  have hlen := congrArg List.length hrest
  rw [List.length_append] at hlen
  have hnil : rest = [] := List.length_eq_zero_iff.mp (by omega)
  rw [hnil, List.append_nil] at hrest
  exact ⟨rfl, by omega, hrest⟩

/-- The write loop changes nothing of either. -/
theorem Waiting.congr (h : Waiting s) (hsame : SameInput s s') (hqueued : s'.queued = s.queued) :
    Waiting s' where
  headers := hsame.headers.trans h.headers
  dispatched := hsame.dispatched.trans h.dispatched
  buffer := hsame.buffer.trans (h.buffer.trans hsame.received.symm)
  queued := hqueued.trans h.queued
  reads := hsame.reads ▸ h.reads

theorem Served.congr (h : Served lib req s) (hsame : SameInput s s')
    (hqueued : s'.queued = s.queued) : Served lib req s' where
  headers := hsame.headers.trans h.headers
  dispatched := hsame.dispatched ▸ h.dispatched
  received := hsame.received.trans h.received
  buffer := hsame.buffer.trans h.buffer
  queued := hqueued ▸ h.queued
  reads := hsame.reads ▸ h.reads

/-- A read ends without leading to anything. -/
theorem Waiting.erase (h : Waiting s) (op : Read Request) :
    Waiting { s with reads := s.reads.erase op } :=
  ⟨h.headers, h.dispatched, h.buffer, h.queued,
    fun op' hop => h.reads op' (List.mem_of_mem_erase hop)⟩

theorem Served.erase (h : Served lib req s) (op : Read Request) :
    Served lib req { s with reads := s.reads.erase op } :=
  ⟨h.headers, h.dispatched, h.received, h.buffer, h.queued,
    fun op' hop => h.reads op' (List.mem_of_mem_erase hop)⟩

/-- The header is read, and goes its way. -/
theorem Waiting.headerRead (hlegible : Legible lib req) (hinv : Pipeline.Inv queueLimit s.core)
    (h : Waiting s) (hreceived : s.received <+: lib.beast.serialize req) {req' : Request}
    {bytes : Nat} {files : Files} (hop : .header ∈ s.reads)
    (hparse : lib.beast.parseHeader s.buffer = .done req' bytes) :
    Served lib req ((s.takeHeader lib req' bytes).onRoute lib s.headers.length req'
      (route lib req' files)) := by
  rw [← h.buffer] at hreceived
  obtain ⟨rfl, rfl, hall⟩ := parse_legible hlegible hreceived hparse
  have hreads : s.reads.erase .header = [] := hinv.read.erase_eq hop
  have htaken : Served lib req' (s.takeHeader lib req' s.buffer.length) := by
    refine ⟨?_, ?_, h.buffer.symm.trans hall, List.drop_length, fun q hq => ?_, fun op hop => ?_⟩
    · change s.headers ++ [req'] = [req']
      rw [h.headers, List.nil_append]
    · change s.dispatched <+: [req']
      rw [h.dispatched]
      exact List.nil_prefix
    · rw [show (s.takeHeader lib req' s.buffer.length).queued = [] from h.queued] at hq
      cases hq
    · change op ∈ s.reads.erase .header at hop
      rw [hreads] at hop
      cases hop
  have hdispatched : Served lib req'
      ((s.takeHeader lib req' s.buffer.length).dispatch req') := by
    refine ⟨htaken.headers, ?_, htaken.received, htaken.buffer, htaken.queued, htaken.reads⟩
    change s.dispatched ++ [req'] <+: [req']
    rw [h.dispatched, List.nil_append]
  have hcopier : ∀ started owner, Served lib req'
      ((s.takeHeader lib req' s.buffer.length).startCopier started owner) := by
    intro started owner
    cases started <;>
      exact ⟨htaken.headers, htaken.dispatched, htaken.received, rfl, htaken.queued, htaken.reads⟩
  rw [h.headers]
  cases hroute : route lib req' files with
  | websocket =>
    exact ⟨htaken.headers, htaken.dispatched, htaken.received, htaken.buffer, htaken.queued,
      htaken.reads⟩
  | tunnel =>
    rw [onRoute]
    exact hcopier _ _
  | proxy =>
    rw [onRoute]
    exact hcopier _ _
  | refuse => exact hdispatched.congr (doEof_sameInput _ .request) rfl
  | upload =>
    refine ⟨hdispatched.headers, hdispatched.dispatched, hdispatched.received, hdispatched.buffer,
      hdispatched.queued, fun op hop => ?_⟩
    rcases List.mem_append.mp hop with hold | hnew
    · exact hdispatched.reads op hold
    · exact Or.inr ⟨List.mem_singleton.mp hnew, files, hroute⟩
  | reply r =>
    rw [onRoute]
    have hsame := queueWrite_sameInput
      ((s.takeHeader lib req' s.buffer.length).dispatch req') ⟨0, r⟩
    refine ⟨hsame.headers.trans hdispatched.headers, hsame.dispatched ▸ hdispatched.dispatched,
      hsame.received.trans hdispatched.received, hsame.buffer.trans hdispatched.buffer,
      fun q hq => ?_, hsame.reads ▸ hdispatched.reads⟩
    rw [HttpServer.queueWrite_queued] at hq
    rcases List.mem_append.mp hq with hold | hnew
    · exact hdispatched.queued q hold
    · rw [List.mem_singleton.mp hnew]
      exact ⟨rfl, files, Or.inl hroute⟩

/-- Only an arrival, and what a handshake leaves, is received. -/
theorem received_unchanged (hstep : s.step lib e = some s') (harrive : ∀ bytes, e ≠ .arrive bytes)
    (hopening : .opening ∉ s.reads) : s'.received = s.received := by
  obtain ⟨-, hreact⟩ := (step_eq_some lib).mp hstep
  cases e with
  | arrive bytes => exact absurd rfl (harrive bytes)
  | handshake bytesUsed => exact absurd (Machine.taken hreact).1 hopening
  | headerRead req' bytes files =>
    obtain ⟨-, rfl⟩ := Machine.taken hreact
    exact onRead_received ..
  | bodyRead number req' =>
    obtain ⟨-, rfl⟩ := Machine.taken hreact
    exact uploadOnRead_received ..
  | written q ok =>
    obtain ⟨-, rfl⟩ := Machine.taken hreact
    exact onWrite_received ..
  | _ =>
    obtain ⟨-, rfl⟩ := Machine.taken hreact
    rfl

/-- What holds of a session whose client sends one request. -/
structure OneRequest (lib : Lib) (req : Request) (s : Session) : Prop where
  core : Pipeline.Inv queueLimit s.core
  received : s.received <+: lib.beast.serialize req
  phase : Waiting s ∨ Served lib req s

theorem oneRequest_run (lib : Lib) {req : Request} {buffer : Text}
    (h : buffer <+: lib.beast.serialize req) : OneRequest lib req (run .plain buffer) := by
  refine ⟨inv_run_start, h, Or.inl ⟨rfl, rfl, rfl, rfl, fun op hop => ?_⟩⟩
  exact List.mem_singleton.mp hop

/-- The body of an upload, of no length, has been read. -/
theorem Served.bodyRead (hinv : Pipeline.Inv queueLimit s.core) (h : Served lib req s)
    {number : Nat} {req' : Request} (hop : .body number req' ∈ s.reads) :
    Served lib req (FileUploadHandler.onRead (s.takeBody lib number req') number req') := by
  obtain ⟨hbody, files, hroute⟩ := (h.reads _ hop).resolve_left (by simp)
  cases hbody
  have hreads : s.reads.erase (.body 0 req) = [] := hinv.read.erase_eq hop
  have hbuffer : s.buffer.drop (lib.beast.bodyLength req) = [] := by
    rw [h.buffer, List.drop_nil]
  have htaken : Served lib req (s.takeBody lib 0 req) :=
    ⟨h.headers, h.dispatched, h.received, hbuffer, h.queued, fun op hop' => by
      rw [show (s.takeBody lib 0 req).reads = [] from hreads] at hop'
      cases hop'⟩
  have hsame := queueWrite_sameInput (s.takeBody lib 0 req) ⟨0, FileUploadHandler.response req⟩
  have hqueued : Served lib req
      ((s.takeBody lib 0 req).queueWrite ⟨0, FileUploadHandler.response req⟩) := by
    refine ⟨hsame.headers.trans htaken.headers, hsame.dispatched ▸ htaken.dispatched,
      hsame.received.trans htaken.received, hsame.buffer.trans htaken.buffer, fun q hq => ?_,
      hsame.reads ▸ htaken.reads⟩
    rw [HttpServer.queueWrite_queued] at hq
    rcases List.mem_append.mp hq with hold | hnew
    · exact htaken.queued q hold
    · rw [List.mem_singleton.mp hnew]
      exact ⟨rfl, files, Or.inr ⟨hroute, rfl⟩⟩
  rw [FileUploadHandler.onRead, continueReadIfNeeded]
  split
  · refine ⟨hqueued.headers, hqueued.dispatched, hqueued.received, hqueued.buffer, hqueued.queued,
      fun op hop' => ?_⟩
    rcases List.mem_append.mp hop' with hold | hnew
    · exact hqueued.reads op hold
    · exact Or.inl (List.mem_singleton.mp hnew)
  · exact hqueued

/-- A write has completed. -/
theorem Served.written (h : Served lib req s) (q : Reply Response) (ok : Bool) :
    Served lib req (s.onWrite q ok) := by
  by_cases hresumes : s.Resuming q ok
  · have hread : Served lib req s.doRead := by
      refine ⟨h.headers, h.dispatched, h.received, h.buffer, h.queued, fun op hop => ?_⟩
      rcases List.mem_append.mp hop with hold | hnew
      · exact h.reads op hold
      · exact Or.inl (List.mem_singleton.mp hnew)
    exact hread.congr (onWrite_resuming hresumes) (onWrite_queued s q ok)
  · exact h.congr (onWrite_sameInput hresumes) (onWrite_queued s q ok)

/-- A step, as long as the client has sent nothing else. -/
theorem oneRequest_step (hlegible : Legible lib req) (h : OneRequest lib req s)
    (hstep : s.step lib e = some s') (hreceived : s'.received <+: lib.beast.serialize req) :
    OneRequest lib req s' := by
  refine ⟨inv_step_core s e s' h.core hstep, hreceived, ?_⟩
  obtain ⟨-, hreact⟩ := (step_eq_some lib).mp hstep
  cases e with
  | arrive bytes =>
    obtain ⟨-, rfl⟩ := Machine.taken hreact
    rcases h.phase with hwaiting | hserved
    · refine Or.inl ⟨hwaiting.headers, hwaiting.dispatched, ?_, hwaiting.queued, hwaiting.reads⟩
      change s.buffer ++ bytes = s.received ++ bytes
      rw [hwaiting.buffer]
    · -- everything has been received
      change s.received ++ bytes <+: _ at hreceived
      rw [hserved.received] at hreceived
      have hnil : bytes = [] := by
        have hle := hreceived.length_le
        rw [List.length_append] at hle
        exact List.length_eq_zero_iff.mp (by omega)
      subst hnil
      refine Or.inr ⟨hserved.headers, hserved.dispatched, ?_, ?_, hserved.queued, hserved.reads⟩
      · exact (List.append_nil _).trans hserved.received
      · exact (List.append_nil _).trans hserved.buffer
  | handshake bytesUsed =>
    obtain ⟨hop, -⟩ := Machine.taken hreact
    rcases h.phase with hwaiting | hserved
    · cases hwaiting.reads _ hop
    · rcases hserved.reads _ hop with hno | ⟨hno, -⟩ <;> cases hno
  | headerRead req' bytes files =>
    obtain ⟨⟨hop, hparse⟩, rfl⟩ := Machine.taken hreact
    rcases h.phase with hwaiting | hserved
    · rw [onRead_eq]
      exact Or.inr (hwaiting.headerRead hlegible h.core h.received hop hparse)
    · rw [hserved.buffer] at hparse
      exact absurd hparse (parse_nil lib req' bytes)
  | endOfStream =>
    obtain ⟨-, rfl⟩ := Machine.taken hreact
    exact h.phase.imp (fun hw => (hw.erase _).congr (doEof_sameInput _ .request) rfl)
      fun hs => (hs.erase _).congr (doEof_sameInput _ .request) rfl
  | bodyRead number req' =>
    obtain ⟨⟨hop, -⟩, rfl⟩ := Machine.taken hreact
    rcases h.phase with hwaiting | hserved
    · cases hwaiting.reads _ hop
    · exact Or.inr (hserved.bodyRead h.core hop)
  | readFailed op =>
    obtain ⟨-, rfl⟩ := Machine.taken hreact
    exact h.phase.imp (fun hw => (hw.erase op).congr ⟨rfl, rfl, rfl, rfl, rfl, rfl, rfl, rfl, rfl,
      rfl, rfl⟩ rfl) fun hs => (hs.erase op).congr ⟨rfl, rfl, rfl, rfl, rfl, rfl, rfl, rfl, rfl,
      rfl, rfl⟩ rfl
  | written q ok =>
    obtain ⟨hq, rfl⟩ := Machine.taken hreact
    rcases h.phase with hwaiting | hserved
    · have hqueued := mem_queued_of_mem_writes h.core hq
      rw [hwaiting.queued] at hqueued
      cases hqueued
    · have hpopped : Served lib req { s with writes := s.writes.erase q } :=
        hserved.congr ⟨rfl, rfl, rfl, rfl, rfl, rfl, rfl, rfl, rfl, rfl, rfl⟩ rfl
      exact Or.inr (hpopped.written q ok)
  | shutdown =>
    obtain ⟨-, rfl⟩ := Machine.taken hreact
    exact h.phase.imp (fun hw => hw.congr ⟨rfl, rfl, rfl, rfl, rfl, rfl, rfl, rfl, rfl,
      rfl, rfl⟩ rfl) fun hs => hs.congr ⟨rfl, rfl, rfl, rfl, rfl, rfl, rfl, rfl, rfl,
      rfl, rfl⟩ rfl

theorem startCopier_owner (started : Except Exn Copier) (owner : Copier → Owner) :
    (s.startCopier started owner).owner = s.owner ∨ (s.startCopier started owner).owner ≠ none := by
  cases started with
  | ok c => exact Or.inr nofun
  | error e => exact Or.inl rfl

/-- A session keeps its stream, unless it reads a header that is not for the handler. -/
theorem owner_cases (hstep : s.step lib e = some s') : s'.owner = s.owner ∨ s'.owner ≠ none ∧
    ∃ req bytes files, e = .headerRead req bytes files ∧ ¬ForHandler lib req := by
  obtain ⟨-, hreact⟩ := (step_eq_some lib).mp hstep
  cases e with
  | headerRead req bytes files =>
    obtain ⟨-, rfl⟩ := Machine.taken hreact
    rw [onRead_eq]
    cases hroute : route lib req files with
    | websocket =>
      refine Or.inr ⟨nofun, req, bytes, files, rfl, fun hkeeps => ?_⟩
      exact hkeeps.not_handsOff files (by rw [hroute]; rfl)
    | tunnel =>
      rw [onRoute]
      refine (startCopier_owner _ _).imp (fun hsame => ?_) fun hgiven =>
        ⟨hgiven, req, bytes, files, rfl, fun hkeeps => ?_⟩
      · exact hsame
      · exact hkeeps.not_handsOff files (by rw [hroute]; rfl)
    | proxy =>
      rw [onRoute]
      refine (startCopier_owner _ _).imp (fun hsame => ?_) fun hgiven =>
        ⟨hgiven, req, bytes, files, rfl, fun hkeeps => ?_⟩
      · exact hsame
      · exact hkeeps.not_handsOff files (by rw [hroute]; rfl)
    | refuse => exact Or.inl rfl
    | upload => exact Or.inl rfl
    | reply r => exact Or.inl (queueWrite_sameInput _ _).owner
  | bodyRead number req =>
    obtain ⟨-, rfl⟩ := Machine.taken hreact
    have hsame := queueWrite_sameInput (s.takeBody lib number req)
      ⟨number, FileUploadHandler.response req⟩
    rw [FileUploadHandler.onRead, continueReadIfNeeded]
    split <;> exact Or.inl hsame.owner
  | written q ok =>
    obtain ⟨-, rfl⟩ := Machine.taken hreact
    by_cases hresumes : ({ s with writes := s.writes.erase q } : Session).Resuming q ok
    · exact Or.inl (onWrite_resuming hresumes).owner
    · exact Or.inl (onWrite_sameInput hresumes).owner
  | _ =>
    obtain ⟨-, rfl⟩ := Machine.taken hreact
    exact Or.inl rfl

/-- A session whose one request is for the handler keeps its stream. -/
theorem OneRequest.owner_step (hlegible : Legible lib req) (hhandler : ForHandler lib req)
    (h : OneRequest lib req s) (howner : s.owner = none) (hstep : s.step lib e = some s') :
    s'.owner = none := by
  rcases owner_cases hstep with hsame | ⟨-, req', bytes, files, rfl, hother⟩
  · exact hsame.trans howner
  · obtain ⟨-, hparse, -⟩ := step_headerRead lib hstep
    rcases h.phase with hwaiting | hserved
    · rw [hwaiting.buffer] at hparse
      rw [(parse_legible hlegible h.received hparse).1] at hother
      exact absurd hhandler hother
    · rw [hserved.buffer] at hparse
      exact absurd hparse (parse_nil lib req' bytes)

end Session

end ServerAsync
