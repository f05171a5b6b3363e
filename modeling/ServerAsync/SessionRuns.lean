import ServerAsync.SessionCore
import ServerAsync.Misc.PipelineHistory

/-!
# Runs of a session

Every state that a session reaches from `run` satisfies the invariant of pipelined
connections, and its history counts the completions of the run.
-/

namespace ServerAsync

open Misc Misc.Pipeline

/-- A header was read without an error. -/
def SessionEvent.readsHeader : SessionEvent → Bool
  | .headerRead _ _ _ => true
  | _ => false

/-- A response was written, and its `keep_alive` lets the connection go on. -/
def SessionEvent.answers : SessionEvent → Bool
  | .written q ok => ok && q.message.keepAlive
  | _ => false

/-- A write completed, with or without an error. -/
def SessionEvent.writes : SessionEvent → Bool
  | .written _ _ => true
  | _ => false

/-- A write failed, or wrote a response with `keep_alive` false. -/
def SessionEvent.closes : SessionEvent → Bool
  | .written q ok => !ok || !q.message.keepAlive
  | _ => false

variable (lib : Lib)

theorem label_readsHeader (e : SessionEvent) : (label lib e).readsHeader = e.readsHeader := by
  cases e with
  | headerRead req bytes files =>
    show ((route lib req files).label req).readsHeader = _
    cases route lib req files <;> rfl
  | _ => rfl

theorem label_answers (e : SessionEvent) :
    (label lib e).answers Response.keepAlive = e.answers := by
  cases e with
  | headerRead req bytes files =>
    show ((route lib req files).label req).answers Response.keepAlive = _
    cases route lib req files <;> rfl
  | _ => rfl

theorem label_closes (e : SessionEvent) :
    (label lib e).closes Response.keepAlive = e.closes := by
  cases e with
  | headerRead req bytes files =>
    show ((route lib req files).label req).closes Response.keepAlive = _
    cases route lib req files <;> rfl
  | _ => rfl

namespace Session

variable {lib} {kind : Kind} {buffer : Text} {es : List SessionEvent} {s : Session}

theorem core_step {s' : Session} {e : SessionEvent} (hstep : s.step lib e = some s') :
    Pipeline.step Response.keepAlive queueLimit s.core (label lib e) = some s'.core :=
  session_refines lib s e s' hstep

theorem core_run {s' : Session} (hrun : (machine lib).run s es = some s') :
    pipeline.run s.core ((machine lib).labels (fun _ e => label lib e) s es) = some s'.core :=
  (session_refines lib).run hrun

theorem inv_run_start : Pipeline.Inv queueLimit (run kind buffer).core := by
  cases kind with
  | plain =>
    show Pipeline.Inv queueLimit (State.start .header)
    exact inv_start (by decide) (by simp)
  | ssl =>
    show Pipeline.Inv queueLimit (State.start .opening)
    exact inv_start (by decide) (by simp)

/-- The invariant in every state that a session reaches. -/
theorem inv_of_run (hrun : (machine lib).run (run kind buffer) es = some s) :
    Pipeline.Inv queueLimit s.core :=
  (session_refines lib).invariant (I := Pipeline.Inv queueLimit)
    (fun _ _ _ h hstep => inv_step h hstep) inv_run_start hrun

theorem inv_step_core (s : Session) (e : SessionEvent) (t : Session)
    (h : Pipeline.Inv queueLimit s.core) (hstep : (machine lib).step s e = some t) :
    Pipeline.Inv queueLimit t.core :=
  inv_step h (core_step hstep)

theorem headers_length_step {s s' : Session} {e : SessionEvent} (hstep : s.step lib e = some s') :
    s'.headers.length = s.headers.length + if e.readsHeader then 1 else 0 := by
  have hheaders := (history_step (core_step hstep)).1
  rw [label_readsHeader] at hheaders
  exact hheaders

theorem headers_length (hrun : (machine lib).run (run kind buffer) es = some s) :
    s.headers.length = es.countP SessionEvent.readsHeader := by
  have hcount := Machine.run_countP (p := SessionEvent.readsHeader)
    (f := fun s : Session => s.headers.length) inv_step_core (fun s e t _ hstep =>
      headers_length_step hstep) inv_run_start hrun
  rw [hcount]
  cases kind <;> exact Nat.zero_add _

theorem answered_length (hrun : (machine lib).run (run kind buffer) es = some s) :
    s.answered.length = es.countP SessionEvent.answers := by
  have hcount := Machine.run_countP (p := SessionEvent.answers)
    (f := fun s : Session => s.answered.length) inv_step_core (fun s e t _ hstep => by
      have hanswered := (history_step (core_step hstep)).2.2.1
      rw [label_answers] at hanswered
      exact hanswered) inv_run_start hrun
  rw [hcount]
  cases kind <;> exact Nat.zero_add _

/-- Every completed write either leaves an answered request or closes. -/
theorem writes_count (hrun : (machine lib).run (run kind buffer) es = some s) :
    s.answered.length + s.closed.toNat = es.countP SessionEvent.writes := by
  have hcount := Machine.run_countP (p := SessionEvent.writes)
    (f := fun s : Session => s.answered.length + s.closed.toNat) inv_step_core
    (fun s e t hinv hstep => by
      obtain ⟨-, -, hanswered, hclosed⟩ := history_step (core_step hstep)
      rw [label_answers] at hanswered
      rw [label_closes] at hclosed
      change t.answered.length = s.answered.length + _ at hanswered
      change t.closed = (s.closed || _) at hclosed
      rw [hanswered, hclosed]
      cases e with
      | written q ok =>
        have hopen : s.closed = false := wrote_open hinv (core_step hstep)
        cases ok <;> cases hka : q.message.keepAlive <;>
          simp [SessionEvent.answers, SessionEvent.closes, SessionEvent.writes, hopen, hka]
      | _ => simp [SessionEvent.answers, SessionEvent.closes, SessionEvent.writes])
    inv_run_start hrun
  rw [hcount]
  cases kind <;> exact Nat.zero_add _

theorem closed_eq (hrun : (machine lib).run (run kind buffer) es = some s) :
    s.closed = es.any SessionEvent.closes := by
  have hany := Machine.run_any (p := SessionEvent.closes)
    (f := fun s : Session => s.closed) (fun s e t hstep => by
      have hclosed := (history_step (core_step hstep)).2.2.2
      rw [label_closes] at hclosed
      exact hclosed) hrun
  rw [hany]
  cases kind <;> exact Bool.false_or _

end Session

/-! ## Plain requests -/

/-- Libraries that know the given requests. -/
def Lib.plain (headers : List Request) : Lib := ⟨Beast.plain headers, BoostUrl.plain⟩

/-- A file system without files, in which the upload file can be written. -/
def noFiles : Files := ⟨fun _ => .noSuchFile, none⟩

/-- A header arrives in one piece, and its read completes. -/
def receive (req : Request) : List SessionEvent :=
  [.arrive req.text, .headerRead req req.text.length noFiles]

/-- An upload after which the connection goes on. -/
def uploadRequest : Request where
  method := .put
  target := "/upload/data".toList
  version := 11
  fields := [(.connection, "keep-alive".toList)]

/-- An upload that arrives and is stored. -/
def upload (number : Nat) : List SessionEvent :=
  receive uploadRequest ++ [.bodyRead number uploadRequest]

/-- The write of the response to an upload completes. -/
def uploadWritten (number : Nat) (ok : Bool) : SessionEvent :=
  .written ⟨number, FileUploadHandler.response uploadRequest⟩ ok

/-- On an upload and its write, a condition that speaks of header reads is left to
check at the one header. -/
theorem meets_upload {lib : Lib} {P : Session → SessionEvent → Prop} {s : Session}
    (number : Nat) (ok : Bool) (hother : ∀ t e, e.readsHeader = false → P t e)
    (hheader : ∀ t, P t (.headerRead uploadRequest uploadRequest.text.length noFiles)) :
    (Session.machine lib).Meets P s (upload number ++ [uploadWritten number ok]) := by
  apply Machine.meets_of_forall
  intro t e he
  simp only [upload, receive, List.cons_append, List.nil_append, List.mem_cons,
    List.not_mem_nil, or_false] at he
  rcases he with rfl | rfl | rfl | rfl
  · exact hother t _ rfl
  · exact hheader t
  · exact hother t _ rfl
  · exact hother t _ rfl

/-- A request for a tunnel. -/
def tunnelRequest : Request where
  method := .connect
  target := "h:1".toList
  version := 11
  fields := []

end ServerAsync
