import ServerAsync.SessionFrame

/-!
# Handing a request to a copier

`on_read` gives the stream and the buffer to a copier and starts it. Of the
starts, only the URL constructor of `http_copier` can throw; and of the buffers,
that of `socket_copier` is lost.
-/

namespace ServerAsync.Session

open Misc Misc.Pipeline

variable {lib : Lib} {s s' : Session} {req : Request} {bytes : Nat} {files : Files}

theorem route_eq_proxy : route lib req files = .proxy ↔
    lib.beast.isUpgrade req = false ∧ req.method ≠ .connect ∧ "http".toList <+: req.target := by
  unfold route
  cases hup : lib.beast.isUpgrade req with
  | true => simp
  | false =>
    by_cases hconnect : req.method = .connect
    · simp [hconnect]
    · by_cases hhttp : "http".toList.isPrefixOf req.target = true
      · have hpre := List.isPrefixOf_iff_prefix.mp hhttp
        simp only [Bool.false_eq_true, if_false, hconnect, hhttp, if_true, ne_eq,
          not_false_eq_true, true_and, true_iff]
        exact hpre
      · have hpre : ¬ "http".toList <+: req.target :=
          fun h => hhttp (List.isPrefixOf_iff_prefix.mpr h)
        simp only [Bool.false_eq_true, if_false, hconnect, hhttp, ne_eq, not_false_eq_true,
          true_and]
        constructor
        · intro h
          split at h
          · cases h
          split at h
          · split at h <;> cases h
          · cases h
        · exact fun h => absurd h hpre

theorem route_tunnel (hup : lib.beast.isUpgrade req = false) (hconnect : req.method = .connect) :
    route lib req files = .tunnel := by
  simp [route, hup, hconnect]

theorem startCopier_fate (hlive : s.fate = .live) (started : Except Exn Copier)
    (owner : Copier → Owner) :
    (s.startCopier started owner).fate = .live ↔ ∃ c, started = .ok c := by
  cases started with
  | ok c => exact ⟨fun _ => ⟨c, rfl⟩, fun _ => hlive⟩
  | error e => simp [startCopier]

/-- A header that the parser accepts is far too short to disturb the positions that
`socket_copier` keeps in an `int`. -/
theorem target_lt (hparse : lib.beast.parseHeader s.buffer = .done req bytes) :
    req.target.length < 2 ^ 31 :=
  Nat.lt_of_le_of_lt (lib.beast.target_le _ _ _ hparse) (by decide)

/-- Processing a header ends without an exception, except for a request to
`http_copier` whose target is not a URI-reference. -/
theorem headerRead_returns_iff
    (hstep : s.step lib (.headerRead req bytes files) = some s') :
    s'.fate = .live ↔ ¬ (lib.beast.isUpgrade req = false ∧ req.method ≠ .connect ∧
      "http".toList <+: req.target ∧ lib.urls.isUriReference req.target = false) := by
  obtain ⟨hlive, hparse, rfl⟩ := step_headerRead lib hstep
  have hcond : (lib.beast.isUpgrade req = false ∧ req.method ≠ .connect ∧
      "http".toList <+: req.target ∧ lib.urls.isUriReference req.target = false) ↔
      route lib req files = .proxy ∧ lib.urls.isUriReference req.target = false := by
    rw [route_eq_proxy, and_assoc, and_assoc]
  rw [hcond]
  cases hroute : route lib req files with
  | proxy =>
    rw [onRoute, startCopier_fate (by exact hlive)]
    rw [HttpCopier.start_ok_iff]
    simp only [true_and, Bool.not_eq_false]
    rfl
  | tunnel =>
    rw [onRoute, startCopier_fate (by exact hlive)]
    obtain ⟨c, hc⟩ := SocketCopier.start_ok
      (c := SocketCopier.new maxLength (s.takeHeader lib req bytes).buffer req)
      (target_lt hparse)
    simp [hc]
  | websocket => simpa [onRoute, releaseStream, takeHeader] using hlive
  | refuse => simpa [onRoute, doEof, dispatch, takeHeader] using hlive
  | upload => simpa [onRoute, asyncRead, dispatch, takeHeader] using hlive
  | reply r =>
    rw [onRoute, (queueWrite_sameInput _ _).fate]
    simpa [dispatch, takeHeader] using hlive

/-- A request for another server. -/
def proxyRequest : Request where
  method := .get
  target := "http://h/".toList
  version := 11
  fields := []

theorem headerRead_returns_iff_proxy : ∃ s',
    (run .plain proxyRequest.text).step (Lib.plain [proxyRequest])
      (.headerRead proxyRequest proxyRequest.text.length noFiles) = some s' ∧
    s'.fate = .live := by
  obtain ⟨s', hstep⟩ := Option.isSome_iff_exists.mp (by decide +kernel :
    ((run .plain proxyRequest.text).step (Lib.plain [proxyRequest])
      (.headerRead proxyRequest proxyRequest.text.length noFiles)).isSome = true)
  refine ⟨s', hstep, (headerRead_returns_iff hstep).mpr ?_⟩
  rintro ⟨-, -, -, huri⟩
  exact absurd huri (by decide +kernel)

/-- A request whose target starts like a URL and is none. -/
def brokenRequest : Request where
  method := .get
  target := "http^".toList
  version := 11
  fields := []

/-- The exception of the URL constructor leaves `on_read`. -/
theorem headerRead_throws : ∃ s',
    (run .plain brokenRequest.text).step (Lib.plain [brokenRequest])
      (.headerRead brokenRequest brokenRequest.text.length noFiles) = some s' ∧
    s'.fate = .threw .systemError := by
  obtain ⟨s', hrun, hfate⟩ := Machine.run_of_any (machine (Lib.plain [brokenRequest]))
    (run .plain brokenRequest.text)
    [.headerRead brokenRequest brokenRequest.text.length noFiles]
    (fun s => s.fate == .threw .systemError) (by decide +kernel)
  obtain ⟨t, hstep, hnil⟩ := Machine.run_cons_eq_some.mp hrun
  obtain rfl : t = s' := Option.some.inj hnil
  exact ⟨t, hstep, beq_iff_eq.mp hfate⟩

/-! ## Tunnels -/

/-- For a CONNECT request the stream goes to a `socket_copier`. In every run of it
in which the 200 response leaves at once, it gives the remote what the client sent
after the header, and the client the response and what the remote sent, exactly
when no byte of this had been read with the header, or the target has no colon and
nothing is relayed. -/
theorem tunnel_faithful_iff (hstep : s.step lib (.headerRead req bytes files) = some s')
    (hup : lib.beast.isUpgrade req = false) (hconnect : req.method = .connect) :
    ∃ c, s'.owner = some (.socketCopier c) ∧
      ((∀ es c', SocketCopier.machine.Meets SocketCopier.SentWhole c es →
        SocketCopier.machine.run c es = some c' →
        SocketCopier.Faithful (s.buffer.drop bytes) c') ↔
      s.buffer.drop bytes = [] ∨ ':' ∉ req.target) := by
  obtain ⟨-, hparse, rfl⟩ := step_headerRead lib hstep
  obtain ⟨c, hc⟩ := SocketCopier.start_ok
    (c := SocketCopier.new maxLength (s.takeHeader lib req bytes).buffer req) (target_lt hparse)
  refine ⟨c, ?_, SocketCopier.faithful_iff (by decide) (target_lt hparse) hc⟩
  rw [route_tunnel hup hconnect, onRoute, hc]
  rfl

theorem tunnel_faithful_iff_empty : ∃ s' c,
    (run .plain tunnelRequest.text).step (Lib.plain [tunnelRequest])
      (.headerRead tunnelRequest tunnelRequest.text.length noFiles) = some s' ∧
    s'.owner = some (.socketCopier c) ∧
    ∀ es c', SocketCopier.machine.Meets SocketCopier.SentWhole c es →
      SocketCopier.machine.run c es = some c' → SocketCopier.Faithful [] c' := by
  obtain ⟨s', hstep⟩ := Option.isSome_iff_exists.mp (by decide +kernel :
    ((run .plain tunnelRequest.text).step (Lib.plain [tunnelRequest])
      (.headerRead tunnelRequest tunnelRequest.text.length noFiles)).isSome = true)
  obtain ⟨c, howner, hiff⟩ := tunnel_faithful_iff hstep (by decide +kernel) rfl
  have hnone : (run .plain tunnelRequest.text).buffer.drop tunnelRequest.text.length = [] := by
    decide
  rw [hnone] at hiff
  exact ⟨s', c, hstep, howner, hiff.mpr (Or.inl rfl)⟩

/-- The client sends `x` with its CONNECT header and `y` later: the remote gets `y`
first. -/
theorem tunnel_loses_buffer : ∃ s' c c',
    (run .plain (tunnelRequest.text ++ ['x'])).step (Lib.plain [tunnelRequest])
      (.headerRead tunnelRequest tunnelRequest.text.length noFiles) = some s' ∧
    s'.owner = some (.socketCopier c) ∧
    SocketCopier.machine.run c (SocketCopier.relayOne ['h'] ['1'] 'y') = some c' ∧
    c'.toRemote.fetched = ['y'] ∧ ¬ SocketCopier.Faithful ['x'] c' := by
  obtain ⟨s', hstep⟩ := Option.isSome_iff_exists.mp (by decide +kernel :
    ((run .plain (tunnelRequest.text ++ ['x'])).step (Lib.plain [tunnelRequest])
      (.headerRead tunnelRequest tunnelRequest.text.length noFiles)).isSome = true)
  have hstart : ∀ buffer, SocketCopier.start (SocketCopier.new maxLength buffer tunnelRequest) =
      .ok ((Copier.init maxLength tunnelRequest []).begin (.asyncResolve ['h'] ['1'])) :=
    fun buffer => SocketCopier.start_of_mem (c := SocketCopier.new maxLength buffer tunnelRequest)
      (by show tunnelRequest.target.length < 2 ^ 31; decide)
      (by show ':' ∈ tunnelRequest.target; decide)
  obtain ⟨c', hrun, hwritten, hfetched⟩ :=
    SocketCopier.run_relayOne (show 0 < maxLength by decide) tunnelRequest ['h'] ['1'] 'y'
  refine ⟨s', _, c', hstep, ?_, hrun, hfetched, ?_⟩
  · obtain ⟨-, -, rfl⟩ := step_headerRead _ hstep
    rw [route_tunnel (by decide +kernel) rfl, onRoute, hstart]
    rfl
  · rintro ⟨hremote, -⟩
    rw [hwritten, hfetched] at hremote
    exact absurd hremote (by decide)

end ServerAsync.Session
