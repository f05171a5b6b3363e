import ServerAsync.ReverseProxy

/-!
# The end of a reverse proxy's session

A read that meets the end of the target's stream behind a whole response is no error for
the parser, so `do_stream_body` and `async_forward_chunk` go on in turns, and `shutdown`
is not reached.
-/

namespace ServerAsync.ProxyServer.Session

open Misc

variable {lib : ResponseLib} {header : ResponseHeader} {bytes : Nat} {body stream : Text}
  {s t : Session} {e : Event}

/-- No operation fails, and the target's stream does not end before its response. -/
def Orderly (stream : Text) (s : Session) (e : Event) : Prop :=
  e ≠ .failed ∧ (e = .endOfStream → s.received = stream)

instance (stream : Text) (s : Session) (e : Event) : Decidable (Orderly stream s e) :=
  inferInstanceAs (Decidable (_ ∧ (_ → _)))

/-- What the parser makes of a response in pieces: it wants more of nothing, and no front of
the response is wrong. -/
structure Readable (lib : ResponseLib) (header : ResponseHeader) (body stream : Text) : Prop where
  response : lib.IsResponse header body stream
  limit : lib.contentLength header ≤ bodyLimit
  nothing : lib.parse [] = .needMore
  fronts : ∀ front, front <+: stream → lib.parse front ≠ .failed

/-- What has been received stays received. -/
theorem received_grows (hstep : s.step lib e = some t) : s.received <+: t.received := by
  cases e with
  | received more =>
    simp only [step] at hstep
    split at hstep
    · cases hstep
    split at hstep
    · cases Option.some.inj hstep
      rw [readHeader_received]
      exact List.prefix_append _ _
    · obtain ⟨-, rfl⟩ := Machine.taken hstep
      exact List.prefix_append _ _
    · cases hstep
    · cases hstep
  | endOfStream =>
    simp only [step] at hstep
    split at hstep
    · cases Option.some.inj hstep
      exact List.prefix_rfl
    · split at hstep
      · cases hstep
      split at hstep
      · cases Option.some.inj hstep
        exact List.prefix_rfl
      · cases Option.some.inj hstep
        exact List.prefix_rfl
    · cases hstep
    · cases hstep
  | clientWritten =>
    simp only [step] at hstep
    split at hstep
    · cases Option.some.inj hstep
      exact List.prefix_rfl
    · cases Option.some.inj hstep
      exact List.prefix_rfl
    · cases hstep
    · cases hstep
  | failed =>
    simp only [step] at hstep
    split at hstep
    · cases Option.some.inj hstep
      exact List.prefix_rfl
    · cases Option.some.inj hstep
      exact List.prefix_rfl
    · cases hstep
  | _ =>
    obtain ⟨-, rfl⟩ := Machine.taken hstep
    exact List.prefix_rfl

/-- What holds of a session as long as nothing fails. -/
structure Live (lib : ResponseLib) (header : ResponseHeader) (bytes : Nat) (stream : Text)
    (s : Session) : Prop where
  busy : s.op ≠ none
  isOpen : s.shutDown = false
  waiting : s.op = some .readHeader → lib.parse s.targetBuffer = .needMore

/-- While the body is read and all of the response has been received, nothing of it is left. -/
theorem remaining_eq_zero (h : Readable lib header body stream)
    (hparse : lib.parse stream = .done header bytes) (hinv : Inv lib header bytes stream s)
    (hreceived : s.received = stream) (hop : s.op = some .readSome)
    (hempty : s.targetBuffer = []) : s.parser.remaining = 0 := by
  obtain ⟨bytes', hparse', -, hbody, hdeclared⟩ := h.response
  rw [hparse, HeaderParse.done.injEq] at hparse'
  obtain ⟨-, rfl⟩ := hparse'
  obtain ⟨⟨-, hparts, hremaining⟩, -⟩ := hinv (hreceived ▸ List.prefix_rfl) _ hop
  rw [hempty, List.append_nil, hreceived, hbody] at hparts
  rw [hparts, hdeclared] at hremaining
  omega

/-- A read of the header leads to another one, or to the write of the header. -/
theorem live_readHeader (h : Readable lib header body stream)
    (hparse : lib.parse stream = .done header bytes) (hinv : Inv lib header bytes stream s)
    (hlive : Live lib header bytes stream s) (hop : s.op = some .readHeader) (more : Text)
    (hreceived : (s.readHeader lib more).received <+: stream) :
    Live lib header bytes stream (s.readHeader lib more) := by
  rw [readHeader_received] at hreceived
  obtain ⟨hbuffer, -, -⟩ := hinv ((List.prefix_append _ _).trans hreceived) _ hop
  rw [← hbuffer] at hreceived
  cases hfound : lib.parse (s.targetBuffer ++ more) with
  | needMore =>
    simp only [readHeader, hfound]
    exact ⟨hlive.busy, hlive.isOpen, fun _ => hfound⟩
  | failed => exact absurd hfound (h.fronts _ hreceived)
  | done header' used =>
    simp only [readHeader, hfound]
    obtain ⟨rfl, -⟩ := parse_front hparse hreceived hfound
    rw [if_pos h.limit]
    exact ⟨Option.some_ne_none _, hlive.isOpen, fun hno => by cases hno⟩

theorem live_step (h : Readable lib header body stream)
    (hparse : lib.parse stream = .done header bytes) (hinv : Inv lib header bytes stream s)
    (hlive : Live lib header bytes stream s) (horderly : Orderly stream s e)
    (hstep : s.step lib e = some t) (hreceived : t.received <+: stream) :
    Live lib header bytes stream t := by
  cases e with
  | requestRead req reqBody =>
    obtain ⟨-, rfl⟩ := Machine.taken hstep
    exact ⟨Option.some_ne_none _, hlive.isOpen, fun hno => by cases hno⟩
  | resolved =>
    obtain ⟨-, rfl⟩ := Machine.taken hstep
    exact ⟨Option.some_ne_none _, hlive.isOpen, fun hno => by cases hno⟩
  | connected =>
    obtain ⟨-, rfl⟩ := Machine.taken hstep
    exact ⟨Option.some_ne_none _, hlive.isOpen, fun hno => by cases hno⟩
  | requestWritten =>
    have hbefore := (received_grows hstep).trans hreceived
    obtain ⟨hop, rfl⟩ := Machine.taken hstep
    refine ⟨Option.some_ne_none _, hlive.isOpen, fun _ => ?_⟩
    change lib.parse s.targetBuffer = .needMore
    obtain ⟨hbuffer, -⟩ := hinv hbefore _ hop
    rw [hbuffer]
    exact h.nothing
  | received more =>
    simp only [step] at hstep
    split at hstep
    · cases hstep
    split at hstep
    · rename_i hop
      cases Option.some.inj hstep
      exact live_readHeader h hparse hinv hlive hop more hreceived
    · obtain ⟨-, rfl⟩ := Machine.taken hstep
      exact ⟨Option.some_ne_none _, hlive.isOpen, fun hno => by cases hno⟩
    · cases hstep
    · cases hstep
  | parsed =>
    obtain ⟨-, rfl⟩ := Machine.taken hstep
    exact ⟨Option.some_ne_none _, hlive.isOpen, fun hno => by cases hno⟩
  | endOfStream =>
    have hall := horderly.2 rfl
    simp only [step] at hstep
    split at hstep
    · -- the header would have been found
      rename_i hop
      obtain ⟨hbuffer, -, -⟩ := hinv (hall ▸ List.prefix_rfl) _ hop
      have hmore := hlive.waiting hop
      rw [hbuffer, hall, hparse] at hmore
      cases hmore
    · rename_i hop
      split at hstep
      · cases hstep
      rename_i hempty
      rw [not_not] at hempty
      rw [if_pos (remaining_eq_zero h hparse hinv hall hop hempty)] at hstep
      cases Option.some.inj hstep
      exact ⟨Option.some_ne_none _, hlive.isOpen, fun hno => by cases hno⟩
    · cases hstep
    · cases hstep
  | clientWritten =>
    simp only [step] at hstep
    split at hstep
    · cases Option.some.inj hstep
      exact ⟨Option.some_ne_none _, hlive.isOpen, fun hno => by cases hno⟩
    · cases Option.some.inj hstep
      exact ⟨Option.some_ne_none _, hlive.isOpen, fun hno => by cases hno⟩
    · cases hstep
    · cases hstep
  | failed => exact absurd rfl horderly.1

/-- Whatever a session waits for can happen without a failure. -/
theorem goesOn (h : Readable lib header body stream)
    (hparse : lib.parse stream = .done header bytes) (hinv : Inv lib header bytes stream s)
    (hlive : Live lib header bytes stream s) (hreceived : s.received <+: stream) :
    ∃ e t, Orderly stream s e ∧ s.step lib e = some t ∧ t.received <+: stream := by
  obtain ⟨rest, hrest⟩ := hreceived
  have hfront : s.received <+: stream := ⟨rest, hrest⟩
  have hquiet {e : Event} (hne : e ≠ .failed) (hend : e ≠ .endOfStream) : Orderly stream s e :=
    ⟨hne, fun he => absurd he hend⟩
  obtain ⟨op, hop⟩ := Option.ne_none_iff_exists'.mp hlive.busy
  cases op with
  | readRequest =>
    exact ⟨.requestRead ⟨.get, ['/'], 11, []⟩ [], _, hquiet (by simp) (by simp), if_pos hop, hfront⟩
  | resolve => exact ⟨.resolved, _, hquiet (by simp) (by simp), if_pos hop, hfront⟩
  | connect => exact ⟨.connected, _, hquiet (by simp) (by simp), if_pos hop, hfront⟩
  | writeRequest => exact ⟨.requestWritten, _, hquiet (by simp) (by simp), if_pos hop, hfront⟩
  | readHeader =>
    have hmore : rest ≠ [] := by
      rintro rfl
      rw [List.append_nil] at hrest
      have hneed := hlive.waiting hop
      rw [(hinv hfront _ hop).1, hrest, hparse] at hneed
      cases hneed
    refine ⟨.received rest, s.readHeader lib rest, hquiet (by simp) (by simp), ?_, ?_⟩
    · simp only [step, if_neg hmore, hop]
    · rw [readHeader_received, hrest]
  | writeHeader text =>
    refine ⟨.clientWritten, { s with toClient := s.toClient ++ text, op := some .readSome },
      hquiet (by simp) (by simp), ?_, hfront⟩
    simp only [step, hop]
  | readSome =>
    by_cases hempty : s.targetBuffer = []
    · cases hmore : rest with
      | nil =>
        rw [hmore, List.append_nil] at hrest
        refine ⟨.endOfStream, s.asyncForwardChunk 0, ⟨by simp, fun _ => hrest⟩, ?_, hfront⟩
        have hnone := remaining_eq_zero h hparse hinv hrest hop hempty
        simp only [step, hop, hempty, hnone, ne_eq, not_true_eq_false, if_false, if_true]
      | cons b more =>
        rw [hmore] at hrest
        refine ⟨.received (b :: more),
          { s with targetBuffer := b :: more, received := s.received ++ b :: more }.parseSome,
          hquiet (by simp) (by simp), ?_, ?_⟩
        · simp only [step, hop, hempty, reduceCtorEq, if_false, if_true]
        · change s.received ++ b :: more <+: stream
          rw [hrest]
    · exact ⟨.parsed, s.parseSome, hquiet (by simp) (by simp), if_pos ⟨hop, hempty⟩, hfront⟩
  | writeChunk text transferred =>
    refine ⟨.clientWritten,
      { s with
        toClient := s.toClient ++ text
        targetBuffer := s.targetBuffer.drop transferred
        op := some .readSome },
      hquiet (by simp) (by simp), ?_, hfront⟩
    simp only [step, hop]

/-- Whatever response the target sends, and however it comes: without a failure a session
never ends, and never shuts down the client's connection. -/
theorem never_shuts_down {targetHost : Text} {es : List Event}
    (h : Readable lib header body stream)
    (hrun : (machine lib).run (start targetHost) es = some s)
    (horderly : (machine lib).Meets (Orderly stream) (start targetHost) es)
    (hreceived : s.received <+: stream) :
    s.op ≠ none ∧ s.shutDown = false ∧
      ∃ e t, Orderly stream s e ∧ s.step lib e = some t ∧ t.received <+: stream := by
  obtain ⟨bytes, hparse, -⟩ := h.response
  have hboth := Machine.run_invariant_of_meets (I := fun s : Session =>
    Inv lib header bytes stream s ∧ (s.received <+: stream → Live lib header bytes stream s))
    ?_ ⟨inv_start targetHost, fun _ => ⟨Option.some_ne_none _, rfl, fun hno => by cases hno⟩⟩
    horderly hrun
  · obtain ⟨hinv, hlive⟩ := hboth
    have hlive := hlive hreceived
    exact ⟨hlive.busy, hlive.isOpen, goesOn h hparse hinv hlive hreceived⟩
  · rintro s e t ⟨hinv, hlive⟩ hP hstep
    refine ⟨inv_step h.response hparse hinv hstep, fun hreceived => ?_⟩
    have hbefore := (received_grows hstep).trans hreceived
    exact live_step h hparse hinv (hlive hbefore) hP hstep hreceived

/-- A plain response can be read in pieces. -/
theorem readable_plain {body : Text}
    (hresponse : (ResponseLib.plain header).IsResponse header body (header.text ++ body))
    (hlimit : (ResponseLib.plain header).contentLength header ≤ bodyLimit) :
    Readable (ResponseLib.plain header) header body (header.text ++ body) where
  response := hresponse
  limit := hlimit
  nothing := by
    have htext : header.text ≠ [] :=
      List.append_ne_nil_of_right_ne_nil _ (List.cons_ne_nil _ _)
    have hno : ¬header.text <+: [] := fun h => htext (List.prefix_nil.mp h)
    have hyes : [] <+: header.text := List.nil_prefix
    simp only [ResponseLib.plain, List.isPrefixOf_iff_prefix, hno, hyes, if_false, if_true]
  fronts front hfront hfailed := by
    rcases List.prefix_or_prefix_of_prefix hfront (List.prefix_append header.text body) with
      hshort | hlong
    · simp only [ResponseLib.plain, List.isPrefixOf_iff_prefix, hshort, if_true] at hfailed
      split at hfailed <;> cases hfailed
    · simp only [ResponseLib.plain, List.isPrefixOf_iff_prefix, hlong, if_true] at hfailed
      cases hfailed

end ServerAsync.ProxyServer.Session
