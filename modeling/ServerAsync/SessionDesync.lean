import ServerAsync.SessionSync

/-!
# Runs of a session on a client's stream

Every step keeps a session in step with the client's stream, except for a request
with a body that `FileRequestHandler` answers as the eighth: when one of the eight
responses has been written, `on_write` starts a header read at the first byte of
that body.
-/

namespace ServerAsync.Session

open Misc Misc.Pipeline

variable {lib : Lib} {ms : List (Message lib.beast)} {kind : Kind} {buffer : Text}
  {es : List SessionEvent} {s s' : Session} {e : SessionEvent}

theorem onRead_received (s : Session) (number : Nat) (req : Request) (files : Files) :
    (s.onRead lib number req files).received = s.received := by
  rw [onRead_eq]
  cases route lib req files with
  | tunnel => rw [onRoute, (startCopier_sameProgress _ _ _).received]
  | proxy => rw [onRoute, (startCopier_sameProgress _ _ _).received]
  | reply r => exact (queueWrite_sameInput _ _).received
  | _ => rfl

theorem uploadOnRead_received (s : Session) (number : Nat) (req : Request) :
    (FileUploadHandler.onRead s number req).received = s.received := by
  have hsame := queueWrite_sameInput s ⟨number, FileUploadHandler.response req⟩
  unfold FileUploadHandler.onRead continueReadIfNeeded
  split <;> exact hsame.received

theorem onWrite_received (s : Session) (q : Reply Response) (ok : Bool) :
    (s.onWrite q ok).received = s.received := by
  by_cases h : s.Resuming q ok
  · exact (onWrite_resuming h).received
  · exact (onWrite_sameInput h).received

/-- In step with a client that sends these messages, as long as what was received is
what this client sends. -/
def InStep (ms : List (Message lib.beast)) (s : Session) : Prop :=
  Pipeline.Inv queueLimit s.core ∧ (s.received <+: clientStream ms → Sync ms s)

theorem inStep_step (h : InStep ms s) (hdrains : DrainsBodies lib s e)
    (hstep : s.step lib e = some s') : InStep ms s' := by
  obtain ⟨hinv, hsync⟩ := h
  refine ⟨inv_step hinv (core_step hstep), fun hclient => ?_⟩
  obtain ⟨-, hreact⟩ := (step_eq_some lib).mp hstep
  cases e with
  | arrive bytes =>
    rcases Machine.taken hreact with ⟨hany, rfl⟩
    obtain ⟨op, hop, hne⟩ := List.any_eq_true.mp hany
    have hbefore : s.received <+: clientStream ms := (List.prefix_append _ _).trans hclient
    exact (hsync hbefore).arrive hinv hop (by simpa using hne) bytes
  | handshake bytesUsed =>
    rcases Machine.taken hreact with ⟨hop, rfl⟩
    have hbefore : s.received <+: clientStream ms := (List.prefix_append _ _).trans hclient
    exact (hsync hbefore).handshake hinv hop bytesUsed
  | headerRead req bytes files =>
    rcases Machine.taken hreact with ⟨⟨hop, hparse⟩, rfl⟩
    rw [onRead_received] at hclient
    exact (hsync hclient).headerRead hinv hclient hop hparse hdrains
  | endOfStream =>
    rcases Machine.taken hreact with ⟨hop, rfl⟩
    refine ((hsync hclient).stop hinv hop).frame (doEof_sameInput _ _) fun _ _ => ?_
    exact Or.inl (hinv.read.room (List.ne_nil_of_mem hop))
  | bodyRead number req =>
    rcases Machine.taken hreact with ⟨⟨hop, hlength⟩, rfl⟩
    rw [uploadOnRead_received] at hclient
    exact (hsync hclient).bodyRead hinv hop hlength
  | readFailed op =>
    rcases Machine.taken hreact with ⟨hop, rfl⟩
    refine ((hsync hclient).stop hinv hop).frame
      ⟨rfl, rfl, rfl, rfl, rfl, rfl, rfl, rfl, rfl, rfl, rfl⟩ fun _ _ => ?_
    exact Or.inl (hinv.read.room (List.ne_nil_of_mem hop))
  | written q ok =>
    rcases Machine.taken hreact with ⟨hq, rfl⟩
    rw [onWrite_received] at hclient
    exact (hsync hclient).written ok hinv hq
  | shutdown =>
    rcases Machine.taken hreact with ⟨-, rfl⟩
    refine (hsync hclient).frame
      ⟨rfl, rfl, rfl, rfl, rfl, rfl, rfl, rfl, rfl, rfl, rfl⟩ fun hreads hstuck => ?_
    exact (hsync hclient).stuck hreads hstuck

theorem inStep_start (ms : List (Message lib.beast)) : InStep ms (run kind buffer) := by
  refine ⟨inv_run_start, fun _ => ?_⟩
  have hzero : 0 = messageStart ms 0 := rfl
  cases kind with
  | plain =>
    constructor
    · exact List.nil_prefix
    · exact hzero
    · exact fun _ _ => ⟨rfl, Nat.zero_le _⟩
    · exact List.nil_prefix
    · exact fun _ => rfl
    · intro hop
      simp [run, Session.doRead, asyncRead, new] at hop
    · exact fun _ => rfl
    · intro number req hop
      simp [run, Session.doRead, asyncRead, new] at hop
    · intro hnil
      simp [run, Session.doRead, asyncRead, new] at hnil
    · intro p hp
      have hp0 : p = 0 := by simpa [run, Session.doRead, asyncRead, new] using hp
      exact ⟨0, Nat.zero_le _, hp0⟩
  | ssl =>
    constructor
    · exact List.nil_prefix
    · exact hzero
    · exact fun _ hor => by simp [run, asyncRead, new] at hor
    · exact List.nil_prefix
    · exact fun _ => rfl
    · exact fun _ => rfl
    · exact fun _ => rfl
    · intro number req hop
      simp [run, asyncRead, new] at hop
    · intro hnil
      simp [run, asyncRead, new] at hnil
    · intro p hp
      simp [run, asyncRead, new] at hp

/-- In a run on a client's stream in which no request with a body goes to
`FileRequestHandler` while a write is going to resume reading, every header parse
starts at the first byte of a message, or where the last one ends, and the headers
read and the requests dispatched are the first ones of the client. -/
theorem requests_in_step (hdrains : (machine lib).Meets (DrainsBodies lib) (run kind buffer) es)
    (hrun : (machine lib).run (run kind buffer) es = some s)
    (hclient : s.received <+: clientStream ms) :
    (∀ p ∈ s.parses, ∃ k ≤ ms.length, p = messageStart ms k) ∧
    s.headers <+: ms.map Message.header ∧ s.dispatched <+: ms.map Message.header := by
  obtain ⟨-, hsync⟩ := Machine.run_invariant_of_meets (I := InStep ms)
    (fun _ _ _ h hd hstep => inStep_step h hd hstep) (inStep_start ms) hdrains hrun
  have h := hsync hclient
  exact ⟨h.parses, h.headers, h.dispatched.trans h.headers⟩

/-- A request for a file that has a body of one byte. -/
def bodiedRequest : Request where
  method := .get
  target := "/a".toList
  version := 11
  fields := [(.contentLength, ['1'])]

/-- Libraries that know both requests of the following runs. -/
def twoRequests : Lib := Lib.plain [uploadRequest, bodiedRequest]

def uploadMessage : Message twoRequests.beast where
  header := uploadRequest
  text := uploadRequest.text
  body := []
  parses := by decide +kernel
  body_length := by decide +kernel

def bodiedMessage : Message twoRequests.beast where
  header := bodiedRequest
  text := bodiedRequest.text
  body := ['x']
  parses := by decide +kernel
  body_length := by decide +kernel

theorem requests_in_step_upload : ∃ s,
    (machine twoRequests).run (run .plain []) (upload 0 ++ [uploadWritten 0 true]) = some s ∧
    s.received = clientStream [uploadMessage] ∧
    (∀ p ∈ s.parses, ∃ k ≤ 1, p = messageStart [uploadMessage] k) ∧
    s.dispatched <+: [uploadRequest] := by
  obtain ⟨s, hrun, htest⟩ := Machine.run_of_any (machine twoRequests) (run .plain [])
    (upload 0 ++ [uploadWritten 0 true])
    (fun s => s.received == clientStream [uploadMessage]) (by decide +kernel)
  have hreceived : s.received = clientStream [uploadMessage] := beq_iff_eq.mp htest
  have hroute : route twoRequests uploadRequest noFiles = .upload := by decide +kernel
  have hdrains : (machine twoRequests).Meets (DrainsBodies twoRequests) (run .plain [])
      (upload 0 ++ [uploadWritten 0 true]) := by
    apply meets_upload
    · intro t e he
      cases e with
      | headerRead req bytes files => cases he
      | _ => trivial
    · intro t r hr
      rw [hroute] at hr
      cases hr
  have hclient : s.received <+: clientStream [uploadMessage] := by rw [hreceived]
  obtain ⟨hparses, -, hdispatched⟩ := requests_in_step hdrains hrun hclient
  exact ⟨s, hrun, hreceived, hparses, hdispatched⟩

/-- The messages of a client that sends seven uploads and a request with a body. -/
def eightMessages : List (Message twoRequests.beast) :=
  List.replicate 7 uploadMessage ++ [bodiedMessage]

/-- The eight messages arrive, and the first response has been written. -/
def eightRequests : List SessionEvent :=
  (List.range 7).flatMap upload ++
    [.arrive bodiedMessage.bytes, .headerRead bodiedRequest bodiedRequest.text.length noFiles,
      uploadWritten 0 true]

/-- The body of the eighth message is about to be parsed as a header. -/
theorem body_parsed_as_header : ∃ s,
    (machine twoRequests).run (run .plain []) eightRequests = some s ∧
    s.received = clientStream eightMessages ∧ s.reads = [.header] ∧ s.buffer = ['x'] ∧
    ∃ p ∈ s.parses, ∀ k ≤ eightMessages.length, p ≠ messageStart eightMessages k := by
  obtain ⟨s, hrun, htest⟩ := Machine.run_of_any (machine twoRequests) (run .plain [])
    eightRequests
    (fun s => s.received == clientStream eightMessages && s.reads == [.header] &&
      s.buffer == ['x'] && s.parses.any fun p =>
        (List.range (eightMessages.length + 1)).all fun k => p != messageStart eightMessages k)
    (by decide +kernel)
  simp only [Bool.and_eq_true, beq_iff_eq, List.any_eq_true, List.all_eq_true, List.mem_range,
    bne_iff_ne] at htest
  obtain ⟨⟨⟨hreceived, hreads⟩, hbuffer⟩, p, hp, hall⟩ := htest
  exact ⟨s, hrun, hreceived, hreads, hbuffer, p, hp, fun k hk => hall k (Nat.lt_succ_of_le hk)⟩

end ServerAsync.Session
