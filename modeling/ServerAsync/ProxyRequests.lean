import ServerAsync.HttpUri
import ServerAsync.SessionCopiers
import ServerAsync.SessionDesync

/-!
# Proxy requests on one connection

A client that uses the server as a proxy may send many requests on one connection,
for different hosts. The session reads the header of the first one only; then the
connection is a relay, and all that follows goes to the first one's host.
-/

namespace ServerAsync

open Misc Misc.Pipeline

/-- A request that goes to an `http_copier`, which can parse its target. -/
def AbsoluteForm (lib : Lib) (req : Request) : Prop :=
  lib.beast.isUpgrade req = false ∧ req.method ≠ .connect ∧ "http".toList <+: req.target ∧
    lib.urls.isUriReference req.target = true

/-! ## What a copier resolves -/

/-- Only `start` resolves. -/
theorem Copier.step_resolves {next : Stage → Copier → Copier} (hnext : Continues next)
    {c c' : Copier} {e : CopierEvent} (hstep : c.step next e = some c') {host port : Text}
    (hop : .asyncResolve host port ∈ c'.ops) : .asyncResolve host port ∈ c.ops := by
  cases e with
  | resolved host' port' ok =>
    rcases Machine.taken hstep with ⟨-, rfl⟩
    cases ok with
    | false => exact List.mem_of_mem_erase hop
    | true =>
      rcases List.mem_append.mp hop with hop | hop
      · exact List.mem_of_mem_erase hop
      · simp at hop
  | connectFailed =>
    rcases Machine.taken hstep with ⟨-, rfl⟩
    exact List.mem_of_mem_erase hop
  | accepted stage rest count =>
    rcases Machine.taken hstep with ⟨-, rfl⟩
    rw [(begin_frame _ _).2.2.1, (deliver_frame _ _ _).2.2] at hop
    rcases List.mem_append.mp hop with hop | hop
    · exact List.mem_of_mem_erase hop
    · simp at hop
  | wrote stage =>
    rcases Machine.taken hstep with ⟨-, rfl⟩
    rcases hnext stage (c.finish (.asyncWrite stage [])) with ⟨-, hgo⟩ | ⟨-, hgo⟩ | hgo
    · rw [hgo] at hop
      rcases List.mem_append.mp hop with hop | hop
      · exact List.mem_of_mem_erase hop
      · simp at hop
    · rw [hgo] at hop
      exact List.mem_of_mem_erase hop
    · rw [hgo] at hop
      exact List.mem_of_mem_erase hop
  | writeFailed stage rest =>
    rcases Machine.taken hstep with ⟨-, rfl⟩
    exact List.mem_of_mem_erase hop
  | relay dir e =>
    obtain ⟨-, -, -, -, hops, -⟩ := stepRelay_eq_some hstep
    rwa [hops] at hop

namespace HttpCopier

variable {urls : BoostUrl} {beast : Beast} {url : UrlView} {maxLength : Nat} {req : Request}
  {buffer : Text}

theorem step_resolves {c c' : Copier} {e : HttpCopierEvent} (hstep : step beast c e = some c')
    {host port : Text} (hop : .asyncResolve host port ∈ c'.ops) :
    .asyncResolve host port ∈ c.ops := by
  cases e with
  | connected =>
    rcases Machine.taken hstep with ⟨-, rfl⟩
    rcases List.mem_append.mp hop with hop | hop
    · exact List.mem_of_mem_erase hop
    · simp at hop
  | shared e => exact Copier.step_resolves next_continues hstep hop

/-- In every run of a started copier, only the host and the port of the request's
target are resolved. -/
theorem resolved_of_run {c c' : Copier} {es : List HttpCopierEvent}
    (hview : urls.urlView req.target = some url)
    (hstart : start urls (new maxLength req buffer) = .ok c)
    (hrun : (machine beast).run c es = some c') {host port : Text} {ok : Bool}
    (hmem : .shared (.resolved host port ok) ∈ es) : host = url.host ∧ port = portOf url := by
  have hevents := Machine.run_events
    (I := fun c : Copier => ∀ host port, .asyncResolve host port ∈ c.ops →
      host = url.host ∧ port = portOf url)
    (Q := fun e => ∀ host port ok, e = .shared (.resolved host port ok) →
      host = url.host ∧ port = portOf url) ?_ ?_ hrun
  · exact hevents _ hmem host port ok rfl
  · intro s e t hs hstep
    refine ⟨fun host port hop => hs host port (step_resolves hstep hop), ?_⟩
    rintro host port ok rfl
    rcases Machine.taken hstep with ⟨hop, -⟩
    exact hs host port hop
  · intro host port hop
    rw [start_eq_ok hview hstart] at hop
    have hfirst : .asyncResolve host port = CopierOp.asyncResolve url.host (portOf url) := by
      simpa [new, Copier.init] using hop
    injection hfirst with hhost hport
    exact ⟨hhost, hport⟩

end HttpCopier

/-! ## The first request of a connection -/

namespace Session

variable {lib : Lib} {ms : List (Message lib.beast)} {kind : Kind} {buffer : Text}
  {es : List SessionEvent} {s s' : Session} {e : SessionEvent} {c : Copier}

/-- The client's first message has gone to an `http_copier`, with what had been
received behind its header, and no other header was read. -/
def HandedOff (ms : List (Message lib.beast)) (s : Session) : Prop :=
  ∃ m rest buffer c, ms = m :: rest ∧ s.headers = [m.header] ∧ s.received = m.text ++ buffer ∧
    HttpCopier.start lib.urls (HttpCopier.new maxLength m.header buffer) = .ok c ∧
    s.owner = some (.httpCopier c)

/-- Until the first header has been read, everything received is in the buffer; from
then on the session neither reads nor writes. -/
def FirstRequest (ms : List (Message lib.beast)) (s : Session) : Prop :=
  (s.headers = [] ∧ s.owner = none ∧ (.opening ∈ s.reads → s.received = []) ∧
    (.header ∈ s.reads → s.buffer = s.received)) ∨
  (s.reads = [] ∧ s.writes = [] ∧ HandedOff ms s)

/-- Before the first header nothing is written. -/
theorem writes_of_headers_nil (hinv : Pipeline.Inv queueLimit s.core) (hheaders : s.headers = []) :
    s.writes = [] := by
  have hcount : s.queued.length ≤ s.headers.length := hinv.read.count_le
  rw [hheaders, List.length_nil, Nat.le_zero, List.length_eq_zero_iff] at hcount
  have hqueued : s.answered ++ s.responseQueue = s.queued := hinv.write.answered_eq
  rw [hcount, List.append_eq_nil_iff] at hqueued
  exact hinv.writes_eq_nil hqueued.2

theorem received_step (hstep : s.step lib e = some s') : s.received <+: s'.received := by
  obtain ⟨-, hreact⟩ := (step_eq_some lib).mp hstep
  cases e with
  | arrive bytes =>
    rcases Machine.taken hreact with ⟨-, rfl⟩
    exact List.prefix_append _ _
  | handshake bytesUsed =>
    rcases Machine.taken hreact with ⟨-, rfl⟩
    exact List.prefix_append _ _
  | headerRead req bytes files =>
    rcases Machine.taken hreact with ⟨-, rfl⟩
    exact (onRead_received _ _ _ _).symm ▸ List.prefix_rfl
  | bodyRead number req =>
    rcases Machine.taken hreact with ⟨-, rfl⟩
    exact (uploadOnRead_received _ _ _).symm ▸ List.prefix_rfl
  | written q ok =>
    rcases Machine.taken hreact with ⟨-, rfl⟩
    exact (onWrite_received _ _ _).symm ▸ List.prefix_rfl
  | _ =>
    rcases Machine.taken hreact with ⟨-, rfl⟩
    exact List.prefix_rfl

/-- A request that goes to an `http_copier`, with a target that it can parse. -/
theorem onRead_proxy {req : Request} {files : Files} (hroute : route lib req files = .proxy)
    (huri : lib.urls.isUriReference req.target = true) (s : Session) (number : Nat) :
    SameProgress s (s.onRead lib number req files) ∧
    ∃ c, HttpCopier.start lib.urls (HttpCopier.new maxLength req s.buffer) = .ok c ∧
      (s.onRead lib number req files).owner = some (.httpCopier c) := by
  obtain ⟨c, hstart⟩ :=
    HttpCopier.start_ok_iff (c := HttpCopier.new maxLength req s.buffer) |>.mpr huri
  rw [onRead_eq, hroute, onRoute]
  refine ⟨startCopier_sameProgress _ _ _, c, hstart, ?_⟩
  rw [hstart]
  rfl

/-- The header of an absolute-form request leaves the buffer, and the rest goes to a
copier. -/
theorem handedOff_of_headerRead {req : Request} {bytes : Nat}
    (habs : ∀ m ∈ ms, AbsoluteForm lib m.header) (hclient : s.received <+: clientStream ms)
    (hheaders : s.headers = []) (hbuffer : s.buffer = s.received)
    (hparse : lib.beast.parseHeader s.buffer = .done req bytes) (files : Files) :
    SameProgress (s.takeHeader lib req bytes)
      ((s.takeHeader lib req bytes).onRead lib s.headers.length req files) ∧
    HandedOff ms ((s.takeHeader lib req bytes).onRead lib s.headers.length req files) := by
  rw [← hbuffer] at hclient
  obtain ⟨m, rest, rfl, rfl, rfl⟩ := parse_front hclient hparse
  obtain ⟨hup, hconnect, hhttp, huri⟩ := habs m List.mem_cons_self
  have hroute : route lib m.header files = .proxy := route_eq_proxy.mpr ⟨hup, hconnect, hhttp⟩
  obtain ⟨hsame, c, hstart, howner⟩ := onRead_proxy hroute huri
    (s.takeHeader lib m.header m.text.length) s.headers.length
  have hfront : m.text <+: s.buffer := by
    have hwhole : m.text <+: clientStream (m :: rest) := by
      simp [clientStream, Message.bytes, List.append_assoc]
    exact List.prefix_of_prefix_length_le hwhole hclient (lib.beast.bytes_le _ _ _ hparse).2
  refine ⟨hsame, m, rest, s.buffer.drop m.text.length, c, rfl, ?_, ?_, hstart, howner⟩
  · rw [hsame.headers]
    change s.headers ++ [m.header] = _
    rw [hheaders, List.nil_append]
  · rw [hsame.received]
    change s.received = _
    rw [← hbuffer]
    exact (List.prefix_iff_eq_append.mp hfront).symm

theorem firstRequest_step (habs : ∀ m ∈ ms, AbsoluteForm lib m.header)
    (hinv : Pipeline.Inv queueLimit s.core) (hclient : s.received <+: clientStream ms)
    (h : FirstRequest ms s) (hstep : s.step lib e = some s') : FirstRequest ms s' := by
  obtain ⟨-, hreact⟩ := (step_eq_some lib).mp hstep
  rcases h with ⟨hheaders, howner, hopening, hheader⟩ | ⟨hreads, hwrites, hgiven⟩
  · cases e with
    | arrive bytes =>
      rcases Machine.taken hreact with ⟨hany, rfl⟩
      obtain ⟨op, hop, hne⟩ := List.any_eq_true.mp hany
      have hreads : s.reads = [op] := hinv.read.reads_eq hop
      refine Or.inl ⟨hheaders, howner, ?_, fun hop' => ?_⟩
      · intro hop'
        change .opening ∈ s.reads at hop'
        rw [hreads, List.mem_singleton] at hop'
        exact absurd hop'.symm (by simpa using hne)
      · show s.buffer ++ bytes = s.received ++ bytes
        rw [hheader hop']
    | handshake bytesUsed =>
      rcases Machine.taken hreact with ⟨hop, rfl⟩
      refine Or.inl ⟨hheaders, howner, fun hop' => ?_, fun _ => ?_⟩
      · have herase : s.reads.erase .opening = [] := hinv.read.erase_eq hop
        change .opening ∈ s.reads.erase .opening ++ [.header] at hop'
        rw [herase] at hop'
        simp at hop'
      · show s.buffer.drop bytesUsed = s.received ++ s.buffer.drop bytesUsed
        rw [hopening hop, List.nil_append]
    | headerRead req bytes files =>
      rcases Machine.taken hreact with ⟨⟨hop, hparse⟩, rfl⟩
      obtain ⟨hsame, hgiven⟩ := handedOff_of_headerRead habs hclient hheaders (hheader hop)
        hparse files
      refine Or.inr ⟨?_, ?_, hgiven⟩
      · rw [hsame.reads]
        exact hinv.read.erase_eq hop
      · rw [hsame.writes]
        exact writes_of_headers_nil (s := s) hinv hheaders
    | bodyRead number req =>
      rcases Machine.taken hreact with ⟨⟨hop, -⟩, -⟩
      have hcount : s.headers.length = number + 1 := (hinv.read.body_count number req hop).2
      rw [hheaders] at hcount
      cases hcount
    | written q ok =>
      rcases Machine.taken hreact with ⟨hq, -⟩
      rw [writes_of_headers_nil hinv hheaders] at hq
      cases hq
    | endOfStream =>
      rcases Machine.taken hreact with ⟨-, rfl⟩
      exact Or.inl ⟨hheaders, howner, fun hop => hopening (List.mem_of_mem_erase hop),
        fun hop => hheader (List.mem_of_mem_erase hop)⟩
    | readFailed op =>
      rcases Machine.taken hreact with ⟨-, rfl⟩
      exact Or.inl ⟨hheaders, howner, fun hop => hopening (List.mem_of_mem_erase hop),
        fun hop => hheader (List.mem_of_mem_erase hop)⟩
    | shutdown =>
      rcases Machine.taken hreact with ⟨-, rfl⟩
      exact Or.inl ⟨hheaders, howner, hopening, hheader⟩
  · cases e with
    | shutdown =>
      rcases Machine.taken hreact with ⟨-, rfl⟩
      exact Or.inr ⟨hreads, hwrites, hgiven⟩
    | written q ok =>
      rcases Machine.taken hreact with ⟨hq, -⟩
      rw [hwrites] at hq
      cases hq
    | arrive bytes =>
      rcases Machine.taken hreact with ⟨hany, -⟩
      rw [hreads] at hany
      cases hany
    | _ =>
      simp [react, hreads] at hreact

theorem firstRequest_start (ms : List (Message lib.beast)) :
    FirstRequest ms (run kind buffer) := by
  cases kind with
  | plain =>
    refine Or.inl ⟨rfl, rfl, fun hop => ?_, fun _ => rfl⟩
    simp [run, Session.doRead, asyncRead, new] at hop
  | ssl =>
    refine Or.inl ⟨rfl, rfl, fun _ => rfl, fun hop => ?_⟩
    simp [run, asyncRead, new] at hop

theorem firstRequest_of_run (habs : ∀ m ∈ ms, AbsoluteForm lib m.header)
    (hrun : (machine lib).run (run kind buffer) es = some s)
    (hclient : s.received <+: clientStream ms) : FirstRequest ms s := by
  have hinvariant := Machine.run_invariant
    (I := fun s => Pipeline.Inv queueLimit s.core ∧
      (s.received <+: clientStream ms → FirstRequest ms s)) ?_
    ⟨inv_run_start, fun _ => firstRequest_start ms⟩ hrun
  · exact hinvariant.2 hclient
  · rintro s e t ⟨hinv, hfirst⟩ hstep
    refine ⟨inv_step hinv (core_step hstep), fun hclient => ?_⟩
    have hbefore := (received_step hstep).trans hclient
    exact firstRequest_step habs hinv hbefore (hfirst hbefore) hstep

/-- When a client sends proxy requests on a connection and the stream has gone to an
`http_copier`, then the session has read no header but the first one. In every run of
the copier only the host and the port that the first request names are resolved, and
this server gets the first request, with its target rewritten, and then, unchanged,
what the client sends behind its header: its body and all the later requests. -/
theorem proxied_requests (habs : ∀ m ∈ ms, AbsoluteForm lib m.header)
    (hrun : (machine lib).run (run kind buffer) es = some s)
    (hclient : s.received <+: clientStream ms) (howner : s.owner = some (.httpCopier c)) :
    ∃ m rest url, ms = m :: rest ∧ s.headers = [m.header] ∧
      lib.urls.urlView m.header.target = some url ∧
      ∀ fs c', (HttpCopier.machine lib.beast).run c fs = some c' →
        (∀ host port ok, .shared (.resolved host port ok) ∈ fs →
          host = url.host ∧ port = HttpCopier.portOf url) ∧
        c'.req = HttpCopier.rewrite url m.header ∧
        (s.received ++ c'.toRemote.fetched <+: clientStream ms →
          c'.toRemote.written <+:
            lib.beast.serialize c'.req ++ m.body ++ clientStream rest) := by
  rcases firstRequest_of_run habs hrun hclient with ⟨-, hnone, -, -⟩ | ⟨-, -, hgiven⟩
  · rw [hnone] at howner
    cases howner
  obtain ⟨m, rest, behind, c₀, rfl, hheaders, hreceived, hstart, hc₀⟩ := hgiven
  obtain rfl : c₀ = c := by
    rw [hc₀] at howner
    cases howner
    rfl
  obtain ⟨-, -, -, huri⟩ := habs m List.mem_cons_self
  rw [← lib.urls.urlView_isSome, Option.isSome_iff_exists] at huri
  obtain ⟨url, hview⟩ := huri
  refine ⟨m, rest, url, rfl, hheaders, hview, fun fs c' hrun' => ⟨?_, ?_, fun hsent => ?_⟩⟩
  · intro host port ok hmem
    exact HttpCopier.resolved_of_run hview hstart hrun' hmem
  · exact HttpUri.req_of_run hview hstart hrun'
  · obtain ⟨hordered, -⟩ := HttpCopier.proxy_stream_fidelity hstart hrun'
    obtain ⟨-, hreq, -⟩ := HttpCopier.inv_run (HttpCopier.inv_start hstart) hrun'
    have hbehind : behind ++ c'.toRemote.fetched <+: m.body ++ clientStream rest := by
      rw [hreceived] at hsent
      have hwhole : clientStream (m :: rest) = m.text ++ (m.body ++ clientStream rest) := by
        simp [clientStream, Message.bytes]
      rw [hwhole, List.append_assoc] at hsent
      exact (List.prefix_append_right_inj m.text).mp hsent
    rw [List.append_assoc] at hordered ⊢
    rw [hreq]
    exact hordered.trans ((List.prefix_append_right_inj _).mpr hbehind)

/-- A request for another server than that of `proxyRequest`. -/
def otherRequest : Request where
  method := .get
  target := "http://o/".toList
  version := 11
  fields := []

/-- Libraries that know both requests. -/
def twoHosts : Lib := Lib.plain [proxyRequest, otherRequest]

def proxyMessage : Message twoHosts.beast where
  header := proxyRequest
  text := proxyRequest.text
  body := []
  parses := by decide +kernel
  body_length := by decide +kernel

def otherMessage : Message twoHosts.beast where
  header := otherRequest
  text := otherRequest.text
  body := []
  parses := by decide +kernel
  body_length := by decide +kernel

/-- Both requests arrive before the first one's header is read. -/
def pipelined : List SessionEvent :=
  [.arrive (clientStream [proxyMessage, otherMessage]),
    .headerRead proxyRequest proxyRequest.text.length noFiles]

/-- The events of a copier that sends the first request and what was received behind
it. -/
def sendBehind : List HttpCopierEvent :=
  [.shared (.resolved ['h'] "80".toList true), .connected,
    .shared (.accepted .request HttpCopier.originRequest.text
      HttpCopier.originRequest.text.length),
    .shared (.wrote .request),
    .shared (.accepted .unconsumed otherRequest.text otherRequest.text.length)]

/-- Both requests are received, the first one's copier sends both. -/
theorem pipelined_run : ∃ s c c', (machine twoHosts).run (run .plain []) pipelined = some s ∧
    s.received = clientStream [proxyMessage, otherMessage] ∧ s.owner = some (.httpCopier c) ∧
    (HttpCopier.machine twoHosts.beast).run c sendBehind = some c' ∧
    c'.toRemote.fetched = [] ∧
    c'.toRemote.written = HttpCopier.originRequest.text ++ otherRequest.text := by
  obtain ⟨s, hrun, htest⟩ := Machine.run_of_any (machine twoHosts) (run .plain []) pipelined
    (fun s => s.received == clientStream [proxyMessage, otherMessage] &&
      match s.owner with
      | some (.httpCopier c) =>
        ((HttpCopier.machine twoHosts.beast).run c sendBehind).any fun c' =>
          c'.toRemote.fetched == [] &&
            c'.toRemote.written == HttpCopier.originRequest.text ++ otherRequest.text
      | _ => false) (by decide +kernel)
  rw [Bool.and_eq_true, beq_iff_eq] at htest
  obtain ⟨hreceived, hcopier⟩ := htest
  split at hcopier
  · rename_i c howner
    obtain ⟨c', hrun', hwritten⟩ := Machine.run_of_any _ _ _ _ hcopier
    rw [Bool.and_eq_true, beq_iff_eq, beq_iff_eq] at hwritten
    exact ⟨s, c, c', hrun, hreceived, howner, hrun', hwritten.1, hwritten.2⟩
  · cases hcopier

theorem absoluteForm_twoHosts :
    ∀ m ∈ [proxyMessage, otherMessage], AbsoluteForm twoHosts m.header := by
  intro m hm
  rcases List.mem_cons.mp hm with rfl | hm
  · exact ⟨by decide +kernel, by decide, by decide, by decide +kernel⟩
  · rw [List.mem_singleton.mp hm]
    exact ⟨by decide +kernel, by decide, by decide, by decide +kernel⟩

theorem proxied_requests_twoHosts : ∃ s c c',
    (machine twoHosts).run (run .plain []) pipelined = some s ∧
    s.owner = some (.httpCopier c) ∧ s.headers = [proxyRequest] ∧
    (HttpCopier.machine twoHosts.beast).run c sendBehind = some c' ∧
    c'.toRemote.written <+: twoHosts.beast.serialize c'.req ++ clientStream [otherMessage] := by
  obtain ⟨s, c, c', hrun, hreceived, howner, hrun', hfetched, -⟩ := pipelined_run
  have hclient : s.received <+: clientStream [proxyMessage, otherMessage] := by rw [hreceived]
  obtain ⟨m, rest, url, hms, hheaders, -, hall⟩ :=
    proxied_requests absoluteForm_twoHosts hrun hclient howner
  obtain ⟨-, -, hwritten⟩ := hall sendBehind c' hrun'
  cases hms
  refine ⟨s, c, c', hrun, howner, hheaders, hrun', ?_⟩
  have hdelivered := hwritten (by rwa [hfetched, List.append_nil])
  rwa [show proxyMessage.body = [] from rfl, List.append_nil] at hdelivered

/-- Nothing delivered to `host` is the header of a request for another host. -/
def OnlyFor (urls : BoostUrl) {beast : Beast} (ms : List (Message beast)) (host written : Text) :
    Prop :=
  ∀ m ∈ ms, ∀ url, urls.urlView m.header.target = some url → url.host ≠ host →
    ¬ m.text <:+: written

/-- The host of the first request gets the second one, which is for another host. -/
theorem delivered_to_first_host : ∃ s c c',
    (machine twoHosts).run (run .plain []) pipelined = some s ∧
    s.received = clientStream [proxyMessage, otherMessage] ∧
    s.owner = some (.httpCopier c) ∧
    (HttpCopier.machine twoHosts.beast).run c sendBehind = some c' ∧
    .shared (.resolved ['h'] "80".toList true) ∈ sendBehind ∧
    ¬ OnlyFor twoHosts.urls [proxyMessage, otherMessage] ['h'] c'.toRemote.written := by
  obtain ⟨s, c, c', hrun, hreceived, howner, hrun', -, hwritten⟩ := pipelined_run
  refine ⟨s, c, c', hrun, hreceived, howner, hrun', List.mem_cons_self, fun honly => ?_⟩
  rw [hwritten] at honly
  have hview : twoHosts.urls.urlView otherMessage.header.target =
      some ⟨['o'], [], ['/'], []⟩ := by decide +kernel
  refine honly otherMessage (by simp) _ hview (by decide) ?_
  exact (List.suffix_append _ _).isInfix

end Session

end ServerAsync
