import ServerAsync.SessionRuns

/-!
# Plain and SSL sessions

`http_session` is one code for both streams. Behind the handshake an SSL session does what
a plain one does that has been given the bytes which the handshake left in the buffer; it
differs in the shutdowns that `do_eof` starts. So what is proved of one kind holds of the
other.
-/

namespace ServerAsync

open Misc Misc.Pipeline

/-- The completion of an SSL shutdown, the only event that a plain session does not have. -/
def SessionEvent.isShutdown : SessionEvent → Bool
  | .shutdown => true
  | _ => false

namespace Session

/-- A session as it would be over SSL, with so many shutdowns in flight and so many uses of
its stream. -/
def overSsl (p : Session) (shutdowns uses : Nat) : Session :=
  { p with kind := .ssl, shutdowns := shutdowns, uses := uses }

/-- `s` is what `p` is, but over SSL. -/
def Mirrors (s p : Session) : Prop := ∃ shutdowns uses, s = p.overSsl shutdowns uses

/-- A plain session has no shutdown in flight: that of its socket is no operation. -/
def IsPlain (p : Session) : Prop := p.kind = .plain ∧ p.shutdowns = 0

namespace Mirrors

variable {s p : Session}

theorem asyncRead (h : Mirrors s p) (op : Read Request) :
    Mirrors (s.asyncRead op) (p.asyncRead op) := by
  obtain ⟨n, u, rfl⟩ := h
  exact ⟨n, u + 1, rfl⟩

theorem doRead (h : Mirrors s p) : Mirrors s.doRead p.doRead := by
  obtain ⟨n, u, rfl⟩ := h
  exact ⟨n, u + 1, rfl⟩

theorem doEof (h : Mirrors s p) (side : Side) : Mirrors (s.doEof side) (p.doEof side) := by
  obtain ⟨n, u, rfl⟩ := h
  exact ⟨n + 1, u + 1, rfl⟩

theorem fail (h : Mirrors s p) : Mirrors s.fail p.fail := by
  obtain ⟨n, u, rfl⟩ := h
  exact ⟨n, u, rfl⟩

theorem doWrite (h : Mirrors s p) : Mirrors s.doWrite p.doWrite := by
  obtain ⟨n, u, rfl⟩ := h
  cases hqueue : p.responseQueue with
  | nil => exact ⟨n, u, by simp [Session.doWrite, overSsl, hqueue]⟩
  | cons q rest => exact ⟨n, u + 1, by simp [Session.doWrite, overSsl, hqueue]⟩

theorem queueWrite (h : Mirrors s p) (q : Reply Response) :
    Mirrors (s.queueWrite q) (p.queueWrite q) := by
  obtain ⟨n, u, rfl⟩ := h
  have hpushed : Mirrors
      { p.overSsl n u with
        responseQueue := p.responseQueue ++ [q], queued := p.queued ++ [q] }
      { p with responseQueue := p.responseQueue ++ [q], queued := p.queued ++ [q] } :=
    ⟨n, u, rfl⟩
  by_cases hone : (p.responseQueue ++ [q]).length = 1
  · simp only [Session.queueWrite, overSsl, hone, if_true]
    exact hpushed.doWrite
  · simp only [Session.queueWrite, overSsl, hone, if_false]
    exact hpushed

theorem continueReadIfNeeded (h : Mirrors s p) :
    Mirrors s.continueReadIfNeeded p.continueReadIfNeeded := by
  have hqueue : s.responseQueue = p.responseQueue := by
    obtain ⟨n, u, rfl⟩ := h
    rfl
  unfold Session.continueReadIfNeeded
  rw [hqueue]
  split
  · exact h.doRead
  · exact h

theorem onWrite (h : Mirrors s p) (q : Reply Response) (ok : Bool) :
    Mirrors (s.onWrite q ok) (p.onWrite q ok) := by
  have hqueue : s.responseQueue = p.responseQueue := by
    obtain ⟨n, u, rfl⟩ := h
    rfl
  unfold Session.onWrite
  split
  · obtain ⟨n, u, hfail⟩ := h.fail
    exact ⟨n, u, by rw [hfail]; rfl⟩
  split
  · obtain ⟨n, u, heof⟩ := h.doEof .response
    exact ⟨n, u, by rw [heof]; rfl⟩
  · have hresumed : Mirrors (if queueLimit ≤ s.responseQueue.length then s.doRead else s)
        (if queueLimit ≤ p.responseQueue.length then p.doRead else p) := by
      rw [hqueue]
      split
      · exact h.doRead
      · exact h
    obtain ⟨n, u, heq⟩ := hresumed
    refine Mirrors.doWrite ⟨n, u, ?_⟩
    rw [heq]
    rfl

theorem startCopier (h : Mirrors s p) (started : Except Exn Copier) (owner : Copier → Owner) :
    Mirrors (s.startCopier started owner) (p.startCopier started owner) := by
  obtain ⟨n, u, rfl⟩ := h
  cases started <;> exact ⟨n, u, rfl⟩

theorem onRoute (h : Mirrors s p) (lib : Lib) (number : Nat) (req : Request) (way : Route) :
    Mirrors (s.onRoute lib number req way) (p.onRoute lib number req way) := by
  have hbuffer : s.buffer = p.buffer := by
    obtain ⟨n, u, rfl⟩ := h
    rfl
  have hdispatch : Mirrors (s.dispatch req) (p.dispatch req) := by
    obtain ⟨n, u, rfl⟩ := h
    exact ⟨n, u, rfl⟩
  cases way with
  | websocket =>
    obtain ⟨n, u, rfl⟩ := h
    exact ⟨n, u, rfl⟩
  | tunnel =>
    rw [Session.onRoute, Session.onRoute, hbuffer]
    exact h.startCopier _ _
  | proxy =>
    rw [Session.onRoute, Session.onRoute, hbuffer]
    exact h.startCopier _ _
  | refuse => exact hdispatch.doEof .request
  | upload => exact hdispatch.asyncRead _
  | reply r => exact hdispatch.queueWrite _

/-- A step of either session is one of the other, unless it is the completion of a
shutdown. -/
theorem step (h : Mirrors s p) {lib : Lib} {e : SessionEvent} (he : e.isShutdown = false) :
    (s.step lib e = none ∧ p.step lib e = none) ∨
    ∃ s' p', s.step lib e = some s' ∧ p.step lib e = some p' ∧ Mirrors s' p' := by
  obtain ⟨n, u, hs⟩ := id h
  have hreads : s.reads = p.reads := by rw [hs]; rfl
  have hwrites : s.writes = p.writes := by rw [hs]; rfl
  have hbuffer : s.buffer = p.buffer := by rw [hs]; rfl
  have hfate : s.fate = p.fate := by rw [hs]; rfl
  have hcount : s.headers = p.headers := by rw [hs]; rfl
  have hguarded : ∀ {c : Prop} [Decidable c] {s' p' : Session}, Mirrors s' p' →
      ((if c then some s' else none) = none ∧ (if c then some p' else none) = none) ∨
      ∃ t q, (if c then some s' else none) = some t ∧ (if c then some p' else none) = some q ∧
        Mirrors t q := by
    intro c _ s' p' hmirrors
    by_cases hc : c
    · exact Or.inr ⟨s', p', if_pos hc, if_pos hc, hmirrors⟩
    · exact Or.inl ⟨if_neg hc, if_neg hc⟩
  unfold Session.step
  rw [hfate]
  by_cases hlive : p.fate = .live
  · rw [if_pos hlive, if_pos hlive]
    cases e with
    | arrive bytes =>
      simp only [react, hreads]
      exact hguarded ⟨n, u, by rw [hs]; rfl⟩
    | handshake bytesUsed =>
      simp only [react, hreads]
      exact hguarded (Mirrors.doRead ⟨n, u, by rw [hs]; rfl⟩)
    | headerRead req bytes files =>
      simp only [react, hreads, hbuffer, hcount, onRead_eq]
      exact hguarded (Mirrors.onRoute ⟨n, u, by rw [hs]; rfl⟩ _ _ _ _)
    | endOfStream =>
      simp only [react, hreads]
      exact hguarded (Mirrors.doEof ⟨n, u, by rw [hs]; rfl⟩ _)
    | bodyRead number req =>
      simp only [react, hreads, hbuffer, FileUploadHandler.onRead]
      have htaken : Mirrors (s.takeBody lib number req) (p.takeBody lib number req) :=
        ⟨n, u, by rw [hs]; rfl⟩
      exact hguarded (htaken.queueWrite _).continueReadIfNeeded
    | readFailed op =>
      simp only [react, hreads]
      exact hguarded (Mirrors.fail ⟨n, u, by rw [hs]; rfl⟩)
    | written q ok =>
      simp only [react, hwrites]
      exact hguarded (Mirrors.onWrite ⟨n, u, by rw [hs]; rfl⟩ _ _)
    | shutdown => cases he
  · rw [if_neg hlive, if_neg hlive]
    exact Or.inl ⟨rfl, rfl⟩

end Mirrors

/-! ## The plain session stays plain -/

/-- What is not the stream's kind or its shutdowns makes no difference. -/
theorem IsPlain.congr {p q : Session} (h : IsPlain p) (hkind : q.kind = p.kind)
    (hshutdowns : q.shutdowns = p.shutdowns) : IsPlain q :=
  ⟨hkind.trans h.1, hshutdowns.trans h.2⟩

theorem isPlain_doEof {p : Session} (h : IsPlain p) (side : Side) : IsPlain (p.doEof side) := by
  refine h.congr rfl ?_
  change (if p.kind = .ssl then _ else _) = _
  rw [h.1, if_neg (by decide)]

theorem isPlain_doWrite {p : Session} (h : IsPlain p) : IsPlain p.doWrite := by
  unfold doWrite
  split <;> exact h.congr rfl rfl

theorem isPlain_queueWrite {p : Session} (h : IsPlain p) (q : Reply Response) :
    IsPlain (p.queueWrite q) := by
  unfold queueWrite
  dsimp only
  split
  · exact isPlain_doWrite (h.congr rfl rfl)
  · exact h.congr rfl rfl

theorem isPlain_onWrite {p : Session} (h : IsPlain p) (q : Reply Response) (ok : Bool) :
    IsPlain (p.onWrite q ok) := by
  unfold onWrite
  split
  · exact h.congr rfl rfl
  split
  · exact (isPlain_doEof h .response).congr rfl rfl
  · refine isPlain_doWrite (h.congr ?_ ?_)
    · change Session.kind (if _ then _ else _) = _
      split <;> rfl
    · change Session.shutdowns (if _ then _ else _) = _
      split <;> rfl

theorem isPlain_onRoute {p : Session} (h : IsPlain p) (lib : Lib) (number : Nat) (req : Request)
    (way : Route) : IsPlain (p.onRoute lib number req way) := by
  have hstarted : ∀ started owner, IsPlain (p.startCopier started owner) := by
    intro started owner
    cases started <;> exact h.congr rfl rfl
  have hdispatch : IsPlain (p.dispatch req) := h.congr rfl rfl
  cases way with
  | websocket => exact h.congr rfl rfl
  | tunnel =>
    rw [onRoute]
    exact hstarted _ _
  | proxy =>
    rw [onRoute]
    exact hstarted _ _
  | refuse => exact isPlain_doEof hdispatch .request
  | upload => exact hdispatch.congr rfl rfl
  | reply r => exact isPlain_queueWrite hdispatch _

theorem isPlain_step {lib : Lib} {p p' : Session} {e : SessionEvent} (h : IsPlain p)
    (hstep : p.step lib e = some p') : IsPlain p' := by
  obtain ⟨-, hreact⟩ := (step_eq_some lib).mp hstep
  cases e with
  | headerRead req bytes files =>
    obtain ⟨-, rfl⟩ := Machine.taken hreact
    rw [onRead_eq]
    exact isPlain_onRoute (p := p.takeHeader lib req bytes) (h.congr rfl rfl) ..
  | endOfStream =>
    obtain ⟨-, rfl⟩ := Machine.taken hreact
    exact isPlain_doEof (h.congr rfl rfl) .request
  | bodyRead number req =>
    obtain ⟨-, rfl⟩ := Machine.taken hreact
    have hqueued := isPlain_queueWrite (p := p.takeBody lib number req) (h.congr rfl rfl)
      ⟨number, FileUploadHandler.response req⟩
    rw [FileUploadHandler.onRead, continueReadIfNeeded]
    split <;> exact hqueued.congr rfl rfl
  | written q ok =>
    obtain ⟨-, rfl⟩ := Machine.taken hreact
    exact isPlain_onWrite (p := { p with writes := p.writes.erase q }) (h.congr rfl rfl) ..
  | shutdown =>
    obtain ⟨hpending, -⟩ := Machine.taken hreact
    rw [h.2] at hpending
    exact absurd hpending (Nat.lt_irrefl 0)
  | _ =>
    obtain ⟨-, rfl⟩ := Machine.taken hreact
    exact h.congr rfl rfl

/-! ## Runs -/

variable {lib : Lib} {buffer : Text} {es : List SessionEvent} {s p : Session}

/-- What a plain session sees of an event. -/
def SessionEvent.onPlain (e : SessionEvent) : Option SessionEvent :=
  if e.isShutdown then none else some e

/-- What an SSL session does from a mirrored state on, the plain one does too, the shutdowns
apart. -/
theorem Mirrors.run_plain (h : Mirrors s p) {t : Session}
    (hrun : (machine lib).run s es = some t) :
    ∃ q, (machine lib).run p (es.filterMap SessionEvent.onPlain) = some q ∧ Mirrors t q := by
  refine Machine.run_stutters (R := Mirrors) ?_ h hrun
  intro s e t p h hstep
  cases hshut : e.isShutdown with
  | true =>
    cases e with
    | shutdown =>
      obtain ⟨-, hreact⟩ := (step_eq_some lib).mp hstep
      obtain ⟨-, rfl⟩ := Machine.taken hreact
      obtain ⟨n, u, rfl⟩ := h
      exact Or.inl ⟨rfl, n - 1, u, rfl⟩
    | _ => cases hshut
  | false =>
    rcases h.step hshut with ⟨hnone, -⟩ | ⟨t', q, ht', hq, hmirrors⟩
    · exact absurd (hnone.symm.trans hstep) (by simp)
    · cases Option.some.inj (ht'.symm.trans hstep)
      exact Or.inr ⟨e, q, by simp [SessionEvent.onPlain, hshut], hq, hmirrors⟩

/-- What a plain session does from a mirrored state on, the SSL session can do too. -/
theorem Mirrors.run_ssl (h : Mirrors s p) (hplain : IsPlain p) {q : Session}
    (hrun : (machine lib).run p es = some q) :
    ∃ t, (machine lib).run s es = some t ∧ Mirrors t q := by
  have hstep' : ∀ p e q s, IsPlain p ∧ Mirrors s p → (machine lib).step p e = some q →
      (some e = none ∧ IsPlain q ∧ Mirrors s q) ∨
        ∃ d t, some e = some d ∧ (machine lib).step s d = some t ∧ IsPlain q ∧ Mirrors t q := by
    rintro p e q s ⟨hplain, h⟩ hstep
    have hplain' := isPlain_step hplain hstep
    cases hshut : e.isShutdown with
    | true =>
      cases e with
      | shutdown =>
        obtain ⟨-, hreact⟩ := (step_eq_some lib).mp hstep
        obtain ⟨hpending, -⟩ := Machine.taken hreact
        rw [hplain.2] at hpending
        exact absurd hpending (Nat.lt_irrefl 0)
      | _ => cases hshut
    | false =>
      rcases h.step hshut with ⟨-, hnone⟩ | ⟨t, q', ht, hq', hmirrors⟩
      · exact absurd (hnone.symm.trans hstep) (by simp)
      · cases Option.some.inj (hq'.symm.trans hstep)
        exact Or.inr ⟨e, t, rfl, ht, hplain', hmirrors⟩
  have hboth := Machine.run_stutters hstep' ⟨hplain, h⟩ hrun
  rw [List.filterMap_some] at hboth
  obtain ⟨t, ht, -, hmirrors⟩ := hboth
  exact ⟨t, ht, hmirrors⟩

/-- Behind its handshake an SSL session is like a plain one that starts with what the
handshake left. -/
theorem mirrors_handshake (lib : Lib) (buffer : Text) (bytesUsed : Nat) :
    ∃ s, (run .ssl buffer).step lib (.handshake bytesUsed) = some s ∧
      Mirrors s (run .plain (buffer.drop bytesUsed)) :=
  ⟨_, rfl, 0, 2, rfl⟩

/-- The first event of an SSL session is the end of its handshake. -/
theorem step_opening {e : SessionEvent} (hstep : (run .ssl buffer).step lib e = some s) :
    (∃ bytesUsed, e = .handshake bytesUsed) ∨
      (e = .readFailed .opening ∧ s.reads = [] ∧ s.writes = [] ∧ s.shutdowns = 0) := by
  obtain ⟨-, hreact⟩ := (step_eq_some lib).mp hstep
  have hreads : (run .ssl buffer).reads = [.opening] := rfl
  have hwrites : (run .ssl buffer).writes = [] := rfl
  have hshutdowns : (run .ssl buffer).shutdowns = 0 := rfl
  cases e with
  | handshake bytesUsed => exact Or.inl ⟨bytesUsed, rfl⟩
  | readFailed op =>
    obtain ⟨hop, rfl⟩ := Machine.taken hreact
    cases List.mem_singleton.mp hop
    exact Or.inr ⟨rfl, rfl, rfl, rfl⟩
  | _ => simp [react, hreads, hwrites, hshutdowns] at hreact

/-- With nothing in flight nothing happens any more. -/
theorem run_of_idle (hreads : s.reads = []) (hwrites : s.writes = []) (hshutdowns : s.shutdowns = 0)
    {t : Session} (hrun : (machine lib).run s es = some t) : es = [] := by
  cases es with
  | nil => rfl
  | cons e rest =>
    obtain ⟨next, hnext, -⟩ := Machine.run_cons_eq_some.mp hrun
    obtain ⟨-, hreact⟩ := (step_eq_some lib).mp hnext
    cases e <;> simp [react, hreads, hwrites, hshutdowns] at hreact

/-- Every run of an SSL session is empty, or its handshake fails and nothing happens any
more, or behind the handshake it is, the completions of shutdowns apart, a run of the plain
session that starts with what the handshake left, with the same requests dispatched and the
same responses written; and it can do everything that this plain session can do. -/
theorem ssl_like_plain (lib : Lib) (buffer : Text) :
    (∀ es s, (machine lib).run (run .ssl buffer) es = some s →
      es = [] ∨ es = [.readFailed .opening] ∨
      ∃ bytesUsed rest p, es = .handshake bytesUsed :: rest ∧
        (machine lib).run (run .plain (buffer.drop bytesUsed))
          (rest.filterMap SessionEvent.onPlain) = some p ∧ Mirrors s p) ∧
    ∀ bytesUsed es p,
      (machine lib).run (run .plain (buffer.drop bytesUsed)) es = some p →
      ∃ s, (machine lib).run (run .ssl buffer) (.handshake bytesUsed :: es) = some s ∧
        Mirrors s p := by
  constructor
  · intro es s hrun
    cases es with
    | nil => exact Or.inl rfl
    | cons e rest =>
      right
      obtain ⟨mid, hmid, hrest⟩ := Machine.run_cons_eq_some.mp hrun
      rcases step_opening hmid with ⟨bytesUsed, rfl⟩ | ⟨rfl, hreads, hwrites, hshutdowns⟩
      · obtain ⟨mid', hmid', hmirrors⟩ := mirrors_handshake lib buffer bytesUsed
        cases Option.some.inj (hmid.symm.trans hmid')
        obtain ⟨p, hp, hend⟩ := hmirrors.run_plain hrest
        exact Or.inr ⟨bytesUsed, rest, p, rfl, hp, hend⟩
      · rw [run_of_idle hreads hwrites hshutdowns hrest]
        exact Or.inl rfl
  · intro bytesUsed es p hrun
    obtain ⟨mid, hmid, hmirrors⟩ := mirrors_handshake lib buffer bytesUsed
    obtain ⟨s, hs, hend⟩ := hmirrors.run_ssl ⟨rfl, rfl⟩ hrun
    exact ⟨s, Machine.run_cons_eq_some.mpr ⟨mid, hmid, hs⟩, hend⟩

end Session

end ServerAsync
