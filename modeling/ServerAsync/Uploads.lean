import ServerAsync.HandlerFile
import ServerAsync.Misc.FileStore
import ServerAsync.Misc.Machine
import ServerAsync.Misc.Parts

/-!
# The uploads of all sessions

A `FileUploadHandler` opens its file, reads the body of its request into it, one part
after the other, and queues its response behind the last one. The handlers of the server
take these steps in any order, and all of them have the same file.
-/

namespace ServerAsync

open Misc

namespace FileUploadHandler

/-- The file that every upload is stored in. -/
def uploadFile : Text := "upload_tmp_file".toList

/-- What a file gets where nothing was written before a write. -/
def hole : Char := '\x00'

/-- How far a handler has come. -/
inductive Phase where
  | reading
  | answered
  | failed
  deriving DecidableEq, Repr

end FileUploadHandler

/-- A `FileUploadHandler` behind its `open`. The body of its request is what it has read
and what is still to come. -/
structure Upload where
  req0 : Request
  received : Text
  rest : Text
  file : FileHandle Text
  phase : FileUploadHandler.Phase
  ours : file = ⟨FileUploadHandler.uploadFile, received.length⟩

/-- The body of the request. -/
def Upload.body (u : Upload) : Text := u.received ++ u.rest

/-- The files, the handlers in the order of their opens, and the responses that they
have queued, each with the place of its handler. -/
structure Uploads where
  files : FileStore Text Char
  handlers : List Upload
  queued : List (Nat × Response)

/-- What the handlers do: one opens its file or fails to, a part of a body is read into
its file, the read of a body ends. -/
inductive UploadEvent where
  | opened (req0 : Request) (body : Text)
  | openFailed (req0 : Request) (message : Text)
  | chunkRead (i : Nat) (chunk : Text)
  | bodyRead (i : Nat)
  | readFailed (i : Nat) (message : Text)
  deriving DecidableEq, Repr

namespace Uploads

open FileUploadHandler

/-- The server before its first upload. -/
def new : Uploads := ⟨fun _ => none, [], []⟩

/-- `handle_request`: the file is opened, and the body of the request is read into it. -/
def handleRequest (s : Uploads) (req0 : Request) (body : Text) : Uploads :=
  { s with
    files := (s.files.openWrite uploadFile).1
    handlers := s.handlers ++ [⟨req0, [], body, (s.files.openWrite uploadFile).2, .reading, rfl⟩] }

/-- A part of the body is written to the file of the handler. -/
def put (s : Uploads) (i : Nat) (u : Upload) (chunk : Text) : Uploads :=
  { s with
    files := (s.files.write hole u.file chunk).1
    handlers := s.handlers.set i
      { u with
        received := u.received ++ chunk
        rest := u.rest.drop chunk.length
        file := (s.files.write hole u.file chunk).2
        ours := by simp [FileStore.write, u.ours] } }

/-- `on_read`, without and with an error. -/
def onRead (s : Uploads) (i : Nat) (u : Upload) (ok : Bool) : Uploads :=
  if ok then
    { s with
      handlers := s.handlers.set i { u with phase := .answered }
      queued := s.queued ++ [(i, response u.req0)] }
  else { s with handlers := s.handlers.set i { u with phase := .failed } }

/-- The reaction to an event, `none` when it cannot happen. -/
def step (s : Uploads) : UploadEvent → Option Uploads
  | .opened req0 body => some (s.handleRequest req0 body)
  | .openFailed _ _ => some s
  | .chunkRead i chunk =>
    (s.handlers[i]?).bind fun u =>
      if u.phase = .reading ∧ chunk ≠ [] ∧ chunk <+: u.rest then some (s.put i u chunk) else none
  | .bodyRead i =>
    (s.handlers[i]?).bind fun u =>
      if u.phase = .reading ∧ u.rest = [] then some (s.onRead i u true) else none
  | .readFailed i _ =>
    (s.handlers[i]?).bind fun u =>
      if u.phase = .reading then some (s.onRead i u false) else none

/-- The uploads of a server as a machine. -/
def machine : Machine Uploads UploadEvent := ⟨step⟩

/-- Nothing is mixed up in a run: when a handler queues its response, the file is the
body of the request it answers, and a handler that was there before an upload was
answered no longer changes the file behind the answer. -/
structure Unmixed (es : List UploadEvent) : Prop where
  stored : ∀ past i later s t, es = past ++ .bodyRead i :: later →
    machine.run new past = some s → s.step (.bodyRead i) = some t →
    ∃ u, s.handlers[i]? = some u ∧ t.queued = s.queued ++ [(i, response u.req0)] ∧
      t.files uploadFile = some u.body
  kept : ∀ past j mid i chunk later s t t', es = past ++ .bodyRead j :: (mid ++
      .chunkRead i chunk :: later) →
    machine.run new past = some s → i < s.handlers.length →
    machine.run new (past ++ .bodyRead j :: mid) = some t →
    t.step (.chunkRead i chunk) = some t' → t'.files uploadFile = t.files uploadFile

/-- No upload opens the file while another one reads its body. -/
def Apart (s : Uploads) : UploadEvent → Prop
  | .opened _ _ => ∀ u ∈ s.handlers, u.phase ≠ .reading
  | _ => True

instance (s : Uploads) : ∀ e, Decidable (Apart s e)
  | .opened _ _ => inferInstanceAs (Decidable (∀ u ∈ s.handlers, u.phase ≠ .reading))
  | .openFailed _ _ => isTrue trivial
  | .chunkRead _ _ => isTrue trivial
  | .bodyRead _ => isTrue trivial
  | .readFailed _ _ => isTrue trivial

/-! ## What a step does -/

/-- The handler of a new upload comes last. -/
theorem handleRequest_last (s : Uploads) (req0 : Request) (body : Text) :
    (s.handleRequest req0 body).handlers[s.handlers.length]? =
      some ⟨req0, [], body, ⟨uploadFile, 0⟩, .reading, rfl⟩ := by
  simp [handleRequest]

theorem step_chunkRead {s t : Uploads} {i : Nat} {chunk : Text}
    (hstep : s.step (.chunkRead i chunk) = some t) :
    ∃ u, s.handlers[i]? = some u ∧ u.phase = .reading ∧ chunk ≠ [] ∧ chunk <+: u.rest ∧
      t = s.put i u chunk := by
  obtain ⟨u, hu, htaken⟩ := Option.bind_eq_some_iff.mp hstep
  obtain ⟨⟨hreading, hchunk, hprefix⟩, rfl⟩ := Machine.taken htaken
  exact ⟨u, hu, hreading, hchunk, hprefix, rfl⟩

theorem step_bodyRead {s t : Uploads} {i : Nat} (hstep : s.step (.bodyRead i) = some t) :
    ∃ u, s.handlers[i]? = some u ∧ u.phase = .reading ∧ u.rest = [] ∧ t = s.onRead i u true := by
  obtain ⟨u, hu, htaken⟩ := Option.bind_eq_some_iff.mp hstep
  obtain ⟨⟨hreading, hrest⟩, rfl⟩ := Machine.taken htaken
  exact ⟨u, hu, hreading, hrest, rfl⟩

theorem step_readFailed {s t : Uploads} {i : Nat} (message : Text)
    (hstep : s.step (.readFailed i message) = some t) :
    ∃ u, s.handlers[i]? = some u ∧ u.phase = .reading ∧ t = s.onRead i u false := by
  obtain ⟨u, hu, htaken⟩ := Option.bind_eq_some_iff.mp hstep
  obtain ⟨hreading, rfl⟩ := Machine.taken htaken
  exact ⟨u, hu, hreading, rfl⟩

/-- A handler at the end of its file appends what it has read. -/
theorem put_files {s : Uploads} {i : Nat} {u : Upload}
    (hfile : s.files uploadFile = some u.received) (chunk : Text) :
    (s.put i u chunk).files uploadFile = some (u.received ++ chunk) := by
  have hpath : u.file.path = uploadFile := congrArg FileHandle.path u.ours
  have hend : u.file.position = u.received.length := congrArg FileHandle.position u.ours
  have happend := FileStore.write_append hole (hpath ▸ hfile) hend chunk
  rw [hpath] at happend
  exact happend

/-! ## One upload at a time -/

/-- A handler that reads its body is the last one that opened the file, and the file is
what it has read. -/
def Inv (s : Uploads) : Prop :=
  ∀ i u, s.handlers[i]? = some u → u.phase = .reading →
    i + 1 = s.handlers.length ∧ s.files uploadFile = some u.received

theorem inv_new : Inv new := by
  intro i u hu
  cases hu

theorem inv_onRead {s : Uploads} {i : Nat} {u : Upload} {ok : Bool} (h : Inv s) :
    Inv (s.onRead i u ok) := by
  intro k v hv hreading
  have hset : ∃ phase, phase ≠ .reading ∧
      (s.onRead i u ok).handlers = s.handlers.set i { u with phase := phase } ∧
      (s.onRead i u ok).files = s.files := by
    cases ok with
    | true => exact ⟨.answered, by decide, rfl, rfl⟩
    | false => exact ⟨.failed, by decide, rfl, rfl⟩
  obtain ⟨phase, hphase, hhandlers, hfiles⟩ := hset
  rw [hhandlers] at hv
  rw [hhandlers, hfiles, List.length_set]
  rcases Parts.getElem?_set_cases hv with ⟨-, rfl⟩ | ⟨-, hold⟩
  · exact absurd hreading hphase
  · exact h k v hold hreading

theorem inv_step {s t : Uploads} {e : UploadEvent} (h : Inv s) (hapart : Apart s e)
    (hstep : machine.step s e = some t) : Inv t := by
  cases e with
  | opened req0 body =>
    cases Option.some.inj hstep
    intro i u hu hreading
    rw [handleRequest] at hu ⊢
    rcases Parts.getElem?_concat_cases hu with ⟨rfl, rfl⟩ | hold
    · refine ⟨?_, FileStore.openWrite_self s.files uploadFile⟩
      rw [List.length_append, List.length_singleton]
    · exact absurd hreading (hapart u (List.mem_of_getElem? hold))
  | openFailed req0 message =>
    cases Option.some.inj hstep
    exact h
  | chunkRead i chunk =>
    obtain ⟨u, hu, hreading, -, -, rfl⟩ := step_chunkRead hstep
    obtain ⟨hlast, hfile⟩ := h i u hu hreading
    intro k v hv hreading'
    rcases Parts.getElem?_set_cases hv with ⟨rfl, rfl⟩ | ⟨hne, hold⟩
    · refine ⟨?_, ?_⟩
      · rw [put, List.length_set]
        exact hlast
      · exact put_files hfile chunk
    · obtain ⟨hlast', -⟩ := h k v hold hreading'
      omega
  | bodyRead i =>
    obtain ⟨u, -, -, -, rfl⟩ := step_bodyRead hstep
    exact inv_onRead h
  | readFailed i message =>
    obtain ⟨u, -, -, rfl⟩ := step_readFailed message hstep
    exact inv_onRead h

theorem inv_of_meets {es : List UploadEvent} {s : Uploads} (hapart : machine.Meets Apart new es)
    (hrun : machine.run new es = some s) : Inv s :=
  Machine.run_invariant_of_meets (fun _ _ _ => inv_step) inv_new hapart hrun

/-- `t` is a later state than `s`: handlers only come in, and none of them starts to read
again. -/
structure Later (s t : Uploads) : Prop where
  length_le : s.handlers.length ≤ t.handlers.length
  reading : ∀ i v, i < s.handlers.length → t.handlers[i]? = some v → v.phase = .reading →
    ∃ u, s.handlers[i]? = some u ∧ u.phase = .reading

theorem later_refl (s : Uploads) : Later s s :=
  ⟨Nat.le_refl _, fun _ v _ hv hreading => ⟨v, hv, hreading⟩⟩

theorem Later.trans {s t u : Uploads} (first : Later s t) (second : Later t u) : Later s u := by
  refine ⟨first.length_le.trans second.length_le, fun i v hi hv hreading => ?_⟩
  obtain ⟨w, hw, hreading'⟩ := second.reading i v (hi.trans_le first.length_le) hv hreading
  exact first.reading i w hi hw hreading'

/-- A handler that was changed was reading before. -/
theorem later_set {s t : Uploads} {i : Nat} {u v : Upload} (hu : s.handlers[i]? = some u)
    (hreading : u.phase = .reading) (hset : t.handlers = s.handlers.set i v) : Later s t := by
  refine ⟨?_, fun k w _ hw hreading' => ?_⟩
  · rw [hset, List.length_set]
  · rw [hset] at hw
    rcases Parts.getElem?_set_cases hw with ⟨rfl, -⟩ | ⟨-, hold⟩
    · exact ⟨u, hu, hreading⟩
    · exact ⟨w, hold, hreading'⟩

theorem later_step {s t : Uploads} {e : UploadEvent} (hstep : machine.step s e = some t) :
    Later s t := by
  cases e with
  | opened req0 body =>
    cases Option.some.inj hstep
    refine ⟨?_, fun i v hi hv hreading => ?_⟩
    · rw [handleRequest, List.length_append]
      exact Nat.le_add_right ..
    · rw [handleRequest, List.getElem?_append_left hi] at hv
      exact ⟨v, hv, hreading⟩
  | openFailed req0 message =>
    cases Option.some.inj hstep
    exact later_refl s
  | chunkRead i chunk =>
    obtain ⟨u, hu, hreading, -, -, rfl⟩ := step_chunkRead hstep
    exact later_set hu hreading rfl
  | bodyRead i =>
    obtain ⟨u, hu, hreading, -, rfl⟩ := step_bodyRead hstep
    exact later_set hu hreading rfl
  | readFailed i message =>
    obtain ⟨u, hu, hreading, rfl⟩ := step_readFailed message hstep
    exact later_set hu hreading rfl

theorem later_run {s t : Uploads} {es : List UploadEvent} (hrun : machine.run s es = some t) :
    Later s t :=
  Machine.run_relation (I := fun _ => True) later_refl (fun _ _ _ => Later.trans)
    (fun _ _ _ _ hstep => ⟨trivial, later_step hstep⟩) trivial hrun

/-- The file at the end of a read. -/
theorem stored_of_inv {s t : Uploads} {i : Nat} (h : Inv s)
    (hstep : s.step (.bodyRead i) = some t) :
    ∃ u, s.handlers[i]? = some u ∧ t.queued = s.queued ++ [(i, response u.req0)] ∧
      t.files uploadFile = some u.body := by
  obtain ⟨u, hu, hreading, hrest, rfl⟩ := step_bodyRead hstep
  obtain ⟨-, hfile⟩ := h i u hu hreading
  refine ⟨u, hu, rfl, ?_⟩
  rw [Upload.body, hrest, List.append_nil]
  exact hfile

/-- Behind an answer, no handler that was there before reads any more. -/
theorem none_reading {s t : Uploads} {j : Nat} (h : Inv s)
    (hstep : s.step (.bodyRead j) = some t) {i : Nat} {v : Upload}
    (hi : t.handlers[i]? = some v) : v.phase ≠ .reading := by
  intro hreading
  obtain ⟨u, hu, hreading', -, rfl⟩ := step_bodyRead hstep
  obtain ⟨hlast, -⟩ := h j u hu hreading'
  rcases Parts.getElem?_set_cases hi with ⟨-, rfl⟩ | ⟨hne, hold⟩
  · cases hreading
  · obtain ⟨hlast', -⟩ := h i v hold hreading
    omega

/-- Uploads do not mix as long as none opens the file while another one reads its body. -/
theorem uploads_unmixed {es : List UploadEvent} (hapart : machine.Meets Apart new es) :
    Unmixed es := by
  constructor
  · intro past i later s t hes hrun hstep
    subst hes
    exact stored_of_inv (inv_of_meets hapart.of_append hrun) hstep
  · intro past j mid i chunk later s t t' hes hrun hi hrun' hstep
    subst hes
    have hinv := inv_of_meets hapart.of_append hrun
    obtain ⟨s₁, hfirst, hrest⟩ := Machine.run_append_eq_some.mp hrun'
    cases Option.some.inj (hrun.symm.trans hfirst)
    obtain ⟨answered, hanswered, hmid⟩ := Machine.run_cons_eq_some.mp hrest
    -- a handler that goes on reading was reading when the other one was answered
    obtain ⟨u, hu, hreading, -, -, -⟩ := step_chunkRead hstep
    have hi' : i < answered.handlers.length :=
      hi.trans_le (later_step hanswered).length_le
    obtain ⟨v, hv, hreading'⟩ := (later_run hmid).reading i u hi' hu hreading
    exact absurd hreading' (none_reading hinv hanswered hv)

/-- One upload behind the other. -/
theorem uploads_unmixed_twice :
    Unmixed [.opened ⟨.put, "/upload/data".toList, 11, []⟩ "ab".toList, .chunkRead 0 ['a'],
      .chunkRead 0 ['b'], .bodyRead 0, .opened ⟨.put, "/upload/data".toList, 11, []⟩ ['c'],
      .chunkRead 1 ['c'], .bodyRead 1] :=
  uploads_unmixed (by decide +kernel)

/-- The second upload is stored and answered between two parts of the first one, which
writes on behind it. -/
theorem overlapping_uploads_mix :
    ¬ Unmixed [.opened ⟨.put, "/upload/data".toList, 11, []⟩ "ab".toList, .chunkRead 0 ['a'],
      .opened ⟨.put, "/upload/data".toList, 11, []⟩ ['c'], .chunkRead 1 ['c'], .bodyRead 1,
      .chunkRead 0 ['b'], .bodyRead 0] := by
  intro h
  obtain ⟨s, hrun, htest⟩ := Machine.run_of_any machine new
    [.opened ⟨.put, "/upload/data".toList, 11, []⟩ "ab".toList, .chunkRead 0 ['a'],
      .opened ⟨.put, "/upload/data".toList, 11, []⟩ ['c'], .chunkRead 1 ['c'], .bodyRead 1]
    (fun s => s.files uploadFile == some ['c'] && (s.step (.chunkRead 0 ['b'])).any
      fun t => t.files uploadFile == some ['c', 'b']) (by decide +kernel)
  rw [Bool.and_eq_true, beq_iff_eq, Option.any_eq_true] at htest
  obtain ⟨hbefore, t, hstep, hafter⟩ := htest
  obtain ⟨s₁, hrun₁, htest₁⟩ := Machine.run_of_any machine new
    [.opened ⟨.put, "/upload/data".toList, 11, []⟩ "ab".toList, .chunkRead 0 ['a'],
      .opened ⟨.put, "/upload/data".toList, 11, []⟩ ['c'], .chunkRead 1 ['c']]
    (fun s => decide (0 < s.handlers.length)) (by decide +kernel)
  have hkept := h.kept _ 1 [] 0 ['b'] [.bodyRead 0] s₁ s t rfl hrun₁ (of_decide_eq_true htest₁)
    hrun hstep
  rw [hbefore, beq_iff_eq.mp hafter] at hkept
  cases hkept

/-! ## Overlapping uploads -/

/-- The read of what is left of a body, if there is anything left. -/
def readAll (i : Nat) (rest : Text) : List UploadEvent :=
  if rest = [] then [] else [.chunkRead i rest]

/-- Every handler can come to the end of its body. When it has its file for itself, the
file is the body then. -/
theorem run_readAll {s : Uploads} {i : Nat} {u : Upload} (hu : s.handlers[i]? = some u)
    (hreading : u.phase = .reading) :
    ∃ t v, machine.run s (readAll i u.rest) = some t ∧ t.handlers[i]? = some v ∧
      v.phase = .reading ∧ v.rest = [] ∧ v.body = u.body ∧
      (∀ k, k ≠ i → t.handlers[k]? = s.handlers[k]?) ∧
      (s.files uploadFile = some u.received → t.files uploadFile = some u.body) := by
  by_cases hrest : u.rest = []
  · refine ⟨s, u, ?_, hu, hreading, hrest, rfl, fun k _ => rfl, fun hfile => ?_⟩
    · rw [readAll, if_pos hrest, Machine.run_nil]
    · rw [hfile, Upload.body, hrest, List.append_nil]
  · have hstep : machine.step s (.chunkRead i u.rest) = some (s.put i u u.rest) := by
      simp [machine, step, hu, hreading, hrest]
    refine ⟨s.put i u u.rest, _, ?_,
      List.getElem?_set_self (List.getElem?_eq_some_iff.mp hu).1, hreading, ?_, ?_, ?_, ?_⟩
    · rw [readAll, if_neg hrest]
      exact Machine.run_cons_eq_some.mpr ⟨_, hstep, rfl⟩
    · exact List.drop_length
    · simp [Upload.body]
    · intro k hk
      exact List.getElem?_set_ne (Ne.symm hk)
    · intro hfile
      exact put_files hfile u.rest

/-- A handler at the end of its body can answer. -/
theorem step_bodyRead_of_rest {s : Uploads} {i : Nat} {u : Upload}
    (hu : s.handlers[i]? = some u) (hreading : u.phase = .reading) (hrest : u.rest = []) :
    machine.step s (.bodyRead i) = some (s.onRead i u true) := by
  simp [machine, step, hu, hreading, hrest]

/-- Whenever an upload opens the file while another one reads a different body, they can
mix. -/
theorem overlap_mixes {es : List UploadEvent} {s : Uploads} {i : Nat} {u : Upload}
    (hrun : machine.run new es = some s) (hu : s.handlers[i]? = some u)
    (hreading : u.phase = .reading) (req0 : Request) {body : Text} (hbody : body ≠ u.body) :
    ∃ fs t, machine.run new (es ++ .opened req0 body :: fs) = some t ∧
      ¬ Unmixed (es ++ .opened req0 body :: fs) := by
  have hi : i < s.handlers.length := (List.getElem?_eq_some_iff.mp hu).1
  -- the new upload reads its body and answers, and then the other one does
  have hnew := handleRequest_last s req0 body
  obtain ⟨t₁, v₁, hrun₁, hv₁, hreading₁, hrest₁, hbody₁, hothers₁, hfile₁⟩ :=
    run_readAll hnew rfl
  have hstored₁ : t₁.files uploadFile = some body :=
    hfile₁ (FileStore.openWrite_self s.files uploadFile)
  have hanswer₁ := step_bodyRead_of_rest hv₁ hreading₁ hrest₁
  have hu₂ : (t₁.onRead s.handlers.length v₁ true).handlers[i]? = some u := by
    have hset : (t₁.handlers.set s.handlers.length { v₁ with phase := .answered })[i]? =
        t₁.handlers[i]? := List.getElem?_set_ne (Nat.ne_of_gt hi)
    exact hset.trans ((hothers₁ i (Nat.ne_of_lt hi)).trans (Parts.getElem?_concat_of_some hu))
  obtain ⟨t₃, v₃, hrun₃, hv₃, hreading₃, hrest₃, hbody₃, -, -⟩ := run_readAll hu₂ hreading
  have hanswer₃ := step_bodyRead_of_rest hv₃ hreading₃ hrest₃
  have hopened : machine.run new (es ++ .opened req0 body :: readAll s.handlers.length body) =
      some t₁ :=
    Machine.run_append hrun (Machine.run_cons_eq_some.mpr ⟨_, rfl, hrun₁⟩)
  have hanswered := Machine.run_append hopened
    (Machine.run_cons_eq_some.mpr ⟨_, hanswer₁, Machine.run_nil ..⟩)
  have hread := Machine.run_append hanswered hrun₃
  have hend := Machine.run_append hread
    (Machine.run_cons_eq_some.mpr ⟨_, hanswer₃, Machine.run_nil ..⟩)
  refine ⟨readAll s.handlers.length body ++ .bodyRead s.handlers.length ::
    (readAll i u.rest ++ [.bodyRead i]), t₃.onRead i v₃ true, ?_, fun hunmixed => hbody ?_⟩
  · simpa using hend
  · -- the answered upload stays what it is, so the other one finds it in the file
    have hkept : t₃.files uploadFile =
        (t₁.onRead s.handlers.length v₁ true).files uploadFile := by
      by_cases hrest : u.rest = []
      · rw [readAll, if_pos hrest, Machine.run_nil] at hrun₃
        cases Option.some.inj hrun₃
        rfl
      · rw [readAll, if_neg hrest] at hrun₃
        obtain ⟨mid, hmid, hnil⟩ := Machine.run_cons_eq_some.mp hrun₃
        cases Option.some.inj hnil
        refine hunmixed.kept _ s.handlers.length [] i u.rest [.bodyRead i] t₁ _ t₃ ?_ hopened
          ?_ hanswered hmid
        · simp [readAll, hrest]
        · have hlater := later_run hrun₁
          have hlen := hlater.length_le
          rw [handleRequest, List.length_append] at hlen
          omega
    obtain ⟨w, hw, -, hstored⟩ := hunmixed.stored _ i [] t₃ _ (by simp) hread hanswer₃
    cases Option.some.inj (hv₃.symm.trans hw)
    change t₃.files uploadFile = some v₃.body at hstored
    rw [hkept, hbody₃] at hstored
    exact Option.some.inj (hstored₁.symm.trans hstored)

end Uploads

end ServerAsync
