import ServerAsync.CopierInvariant

/-!
# `http_copier`

The proxy behind a request with an absolute-form target. It connects to the host
the target names, sends the request with the target rewritten, then the bytes the
session had read past the request's header, and then relays.
-/

namespace ServerAsync

open Misc

/-- The events of an `http_copier`. -/
inductive HttpCopierEvent where
  | connected
  | shared (e : CopierEvent)

namespace HttpCopier

/-- The constructor. -/
def new (maxLength : Nat) (req : Request) (buffer : Text) : Copier := .init maxLength req buffer

/-- What `start` makes of the request: the URL's host as `Host` field, and its
decoded path and query as target. -/
def rewrite (url : UrlView) (req : Request) : Request :=
  { req.set .host url.host with
    target := if url.query ≠ [] then url.path ++ ['?'] ++ url.query else url.path }

/-- The port that `start` resolves. -/
def portOf (url : UrlView) : Text := if url.port = [] then "80".toList else url.port

/-- `start`: the `url_view` constructor throws when the target is not a
URI-reference. -/
def start (urls : BoostUrl) (c : Copier) : Except Exn Copier :=
  match urls.urlView c.req.target with
  | none => .error .systemError
  | some url =>
    .ok (({ c with req := rewrite url c.req } : Copier).begin
      (.asyncResolve url.host (portOf url)))

/-- `send_parsed_request`. -/
def sendParsedRequest (beast : Beast) (c : Copier) : Copier :=
  c.begin (.asyncWrite .request (beast.serialize c.req))

/-- The handlers of the two writes. -/
def next : Stage → Copier → Copier
  | .response, c => c
  | .request, c => c.writeUnconsumed
  | .unconsumed, c => c.startRelay

def step (beast : Beast) (c : Copier) : HttpCopierEvent → Option Copier
  | .connected =>
    if .asyncConnect ∈ c.ops then some (sendParsedRequest beast (c.finish .asyncConnect))
    else none
  | .shared e => c.step next e

/-- An `http_copier` as a machine. -/
def machine (beast : Beast) : Machine Copier HttpCopierEvent where
  step := step beast

/-- `start` throws exactly on a target that is not a URI-reference. -/
theorem start_ok_iff {urls : BoostUrl} {c : Copier} :
    (∃ c', start urls c = .ok c') ↔ urls.isUriReference c.req.target = true := by
  rw [← urls.urlView_isSome]
  unfold start
  cases urls.urlView c.req.target <;> simp

/-- A started copier resolves the URL's host. -/
theorem start_eq_ok {urls : BoostUrl} {url : UrlView} {c c' : Copier}
    (hview : urls.urlView c.req.target = some url) (hstart : start urls c = .ok c') :
    c' = ({ c with req := rewrite url c.req } : Copier).begin
      (.asyncResolve url.host (portOf url)) := by
  unfold start at hstart
  rw [hview] at hstart
  cases hstart
  rfl

/-! ## Runs -/

theorem next_continues : Copier.Continues next := by
  intro stage c
  cases stage with
  | response => exact Or.inr (Or.inr rfl)
  | request => exact Or.inl ⟨by simp, rfl⟩
  | unconsumed => exact Or.inr (Or.inl ⟨rfl, rfl⟩)

/-- The remote gets the request and the unconsumed bytes before anything relayed,
the client nothing. -/
def Inv (beast : Beast) (req : Request) (buffer : Text) (c : Copier) : Prop :=
  c.Inv [] (beast.serialize req ++ buffer) ∧ c.req = req ∧ c.buffer = buffer

variable {beast : Beast} {req : Request} {buffer : Text}

theorem Inv.connected {c : Copier} (h : Inv beast req buffer c) (hop : .asyncConnect ∈ c.ops) :
    Inv beast req buffer (sendParsedRequest beast (c.finish .asyncConnect)) := by
  obtain ⟨hinv, hreq, hbuffer⟩ := h
  obtain ⟨hclient, hremote⟩ := hinv.connecting (Or.inr hop)
  refine ⟨?_, hreq, hbuffer⟩
  constructor
  · simp [sendParsedRequest, hinv.ops_eq hop]
  · exact fun _ => hinv.staging (List.ne_nil_of_mem hop)
  · intro hmem
    simp [sendParsedRequest, hinv.ops_eq hop] at hmem
  · intro stage rest hmem
    simp only [sendParsedRequest, Copier.begin_frame, Copier.finish_frame, hinv.ops_eq hop,
      List.erase_cons_head, List.nil_append, List.mem_singleton,
      CopierOp.asyncWrite.injEq] at hmem
    obtain ⟨rfl, rfl⟩ := hmem
    refine ⟨?_, ?_⟩
    · change c.toClient.written ++ [] = []
      rw [hclient, List.append_nil]
    · change c.toRemote.written ++ (beast.serialize c.req ++ c.buffer) = _
      rw [hremote, hreq, hbuffer, List.nil_append]
  · exact hinv.client
  · exact hinv.remote

theorem inv_step {c c' : Copier} {e : HttpCopierEvent} (h : Inv beast req buffer c)
    (hstep : step beast c e = some c') : Inv beast req buffer c' := by
  cases e with
  | connected =>
    rcases Machine.taken hstep with ⟨hop, rfl⟩
    exact h.connected hop
  | shared e =>
    obtain ⟨hreq, hbuffer⟩ := Copier.step_frame next_continues hstep
    exact ⟨Copier.inv_step next_continues h.1 hstep, hreq.trans h.2.1, hbuffer.trans h.2.2⟩

theorem inv_run {c c' : Copier} {es : List HttpCopierEvent} (h : Inv beast req buffer c)
    (hrun : (machine beast).run c es = some c') : Inv beast req buffer c' :=
  Machine.run_invariant (I := Inv beast req buffer) (fun _ _ _ hc hstep => inv_step hc hstep)
    h hrun

/-- A started copier has written nothing. -/
theorem inv_start {urls : BoostUrl} {maxLength : Nat} {c : Copier}
    (hstart : start urls (new maxLength req buffer) = .ok c) : Inv beast c.req buffer c := by
  unfold start at hstart
  split at hstart
  · cases hstart
  · rename_i url _
    cases hstart
    exact ⟨(Copier.inv_init maxLength (rewrite url req) buffer).beginResolve rfl
      ⟨rfl, rfl, rfl, rfl⟩ ⟨rfl, rfl⟩ _ _, rfl, rfl⟩

/-- In every run of a started copier the remote gets the request, the bytes that had
been read with it, and what the relay reads from the client, and the client gets
what the relay reads from the remote: nothing is lost or reordered, and whatever
was read has been written before the next read. Each direction has at most one
operation outstanding, and its buffer does not change while it is written. -/
theorem proxy_stream_fidelity {urls : BoostUrl} {maxLength : Nat} {c c' : Copier}
    {es : List HttpCopierEvent} (hstart : start urls (new maxLength req buffer) = .ok c)
    (hrun : (machine beast).run c es = some c') :
    c'.toRemote.written <+: beast.serialize c.req ++ buffer ++ c'.toRemote.fetched ∧
    c'.toClient.written <+: c'.toClient.fetched ∧
    (.asyncReadSome ∈ c'.toRemote.ops →
      c'.toRemote.written = beast.serialize c.req ++ buffer ++ c'.toRemote.fetched) ∧
    (.asyncReadSome ∈ c'.toClient.ops → c'.toClient.written = c'.toClient.fetched) ∧
    (∀ dir, c'.ops.length + (c'.half dir).ops.length ≤ 1) ∧
    ∀ dir off len e c'', .asyncWrite off len ∈ (c'.half dir).ops → step beast c' e = some c'' →
      (c''.half dir).buffer = (c'.half dir).buffer := by
  obtain ⟨hinv, -, -⟩ := inv_run (inv_start hstart) hrun
  refine ⟨hinv.remote.ordered, hinv.client.ordered, hinv.remote.reading, hinv.client.reading,
    hinv.ops_add_le, ?_⟩
  intro dir off len e c'' hop hstep
  cases e with
  | connected =>
    rcases Machine.taken hstep with ⟨-, rfl⟩
    cases dir <;> rfl
  | shared e => exact Copier.step_buffer next_continues hstep (hinv.not_reading hop)

/-- A request for another server, and what `start` makes of it. -/
def absoluteRequest : Request := ⟨.get, "http://h/".toList, 11, []⟩

def originRequest : Request := ⟨.get, "/".toList, 11, [(.host, ['h'])]⟩

/-- The events of a run that relays a request, two bytes read with its header, and
one that the client sends later. -/
def relayRequest : List HttpCopierEvent :=
  [.shared (.resolved ['h'] ['8', '0'] true), .connected,
    .shared (.accepted .request originRequest.text originRequest.text.length),
    .shared (.wrote .request), .shared (.accepted .unconsumed ['x', 'y'] 2),
    .shared (.wrote .unconsumed), .shared (.relay .toRemote (.read ['z'])),
    .shared (.relay .toRemote (.accepted 0 1 1))]

theorem proxy_stream_fidelity_request : ∃ c c',
    start BoostUrl.plain (new 2 absoluteRequest ['x', 'y']) = .ok c ∧
    (machine (Beast.plain [])).run c relayRequest = some c' ∧
    c'.toRemote.written <+: c.req.text ++ ['x', 'y'] ++ c'.toRemote.fetched ∧
    c'.toClient.written <+: c'.toClient.fetched := by
  have hevaluates : (match start BoostUrl.plain (new 2 absoluteRequest ['x', 'y']) with
      | .ok c => ((machine (Beast.plain [])).run c relayRequest).any fun c' =>
          c'.toRemote.written == originRequest.text ++ ['x', 'y', 'z']
      | .error _ => false) = true := by decide +kernel
  cases hstart : start BoostUrl.plain (new 2 absoluteRequest ['x', 'y']) with
  | error e =>
    rw [hstart] at hevaluates
    cases hevaluates
  | ok c =>
    rw [hstart] at hevaluates
    obtain ⟨c', hrun, -⟩ := Machine.run_of_any _ _ _ _ hevaluates
    obtain ⟨hremote, hclient, -⟩ := proxy_stream_fidelity hstart hrun
    exact ⟨c, c', rfl, hrun, hremote, hclient⟩

end HttpCopier

end ServerAsync
