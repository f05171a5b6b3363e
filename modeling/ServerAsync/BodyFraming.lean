import ServerAsync.ProxyRequests
import ServerAsync.Misc.Chunked

/-!
# The body of a proxied request

`send_parsed_request` has the library write a header, `write_unconsumed` and the
relay send the body as it came. The two agree on where the body starts, except for a
chunked body: behind its header the library writes a last chunk, and for the server
that is where the body ends.
-/

namespace ServerAsync

open Misc

def transferEncoding : Field := .other "Transfer-Encoding".toList

/-- `message::chunked()`: the last transfer coding of a message is `chunked`. -/
def Request.chunked (r : Request) : Bool :=
  match ((r.get transferEncoding).splitOn ',').getLast? with
  | some coding => (trimSpaces coding).map Char.toLower == "chunked".toList
  | none => false

/-- How the end of a body is found. -/
inductive Framing where
  | length (bytes : Nat)
  | chunked
  deriving DecidableEq, Repr

/-- The framing that a header declares. -/
def Request.framing (r : Request) : Framing :=
  if r.chunked then .chunked else .length (declaredLength r)

/-- The body at the front of a text, and what follows it. -/
def decodeBody : Framing → Text → Option (Text × Text)
  | .length bytes, t => if bytes ≤ t.length then some (t.take bytes, t.drop bytes) else none
  | .chunked, t => Chunked.decode t

/-- `t` is how a body is sent: whatever follows it, a parser gets the body and stops
there. -/
def Encodes (framing : Framing) (t body : Text) : Prop :=
  ∀ next, decodeBody framing (t ++ next) = some (body, next)

/-- What an HTTP parser gets from a text: a body, behind a header, and the rest. -/
def Reads (beast : Beast) (t body next : Text) : Prop :=
  ∃ r bytes, beast.parseHeader t = .done r bytes ∧
    decodeBody r.framing (t.drop bytes) = some (body, next)

/-- What Beast writes for a request with `empty_body`: its header, and a last chunk
when it is marked chunked. -/
def WritesHeader (beast : Beast) (head : Request → Text) : Prop :=
  ∀ r, beast.serialize r = head r ++ if r.chunked then Chunked.lastChunk else []

theorem encodes_length (body : Text) : Encodes (.length body.length) body body := by
  intro next
  have hle : body.length ≤ (body ++ next).length := by simp
  rw [decodeBody, if_pos hle, List.take_left, List.drop_left]

theorem encodes_chunks (chunks : List Chunked.Chunk) :
    Encodes .chunked (Chunked.encode chunks) (chunks.flatMap Chunked.Chunk.data) :=
  Chunked.decode_encode chunks

/-- A chunked body has at least its last chunk. -/
theorem Encodes.ne_nil {t body : Text} (h : Encodes .chunked t body) : t ≠ [] := by
  rintro rfl
  have hnone := h []
  rw [List.append_nil, decodeBody, Chunked.decode_nil] at hnone
  cases hnone

/-- Rewriting the target and the `Host` field leaves the framing. -/
theorem framing_rewrite (url : UrlView) (req : Request) :
    (HttpCopier.rewrite url req).chunked = req.chunked ∧
    (HttpCopier.rewrite url req).framing = req.framing := by
  have hget : ∀ name, name ≠ .host → (HttpCopier.rewrite url req).get name = req.get name :=
    fun name hne => Request.get_set_of_ne hne url.host
  have hchunked : (HttpCopier.rewrite url req).chunked = req.chunked := by
    unfold Request.chunked
    rw [hget transferEncoding (by decide)]
  refine ⟨hchunked, ?_⟩
  unfold Request.framing declaredLength
  rw [hchunked, hget .contentLength (by decide)]

theorem Reads.unique {beast : Beast} {t body body' next next' : Text}
    (h : Reads beast t body next) (h' : Reads beast t body' next') :
    body = body' ∧ next = next' := by
  obtain ⟨r, bytes, hparse, hdecode⟩ := h
  obtain ⟨r', bytes', hparse', hdecode'⟩ := h'
  rw [hparse] at hparse'
  cases hparse'
  rw [hdecode] at hdecode'
  cases hdecode'
  exact ⟨rfl, rfl⟩

section

variable {beast : Beast} {head : Request → Text} {r : Request}

/-- A parser that reads a header back finds what is behind it. -/
theorem reads_serialize (hwrites : WritesHeader beast head)
    (hreads : beast.parseHeader (head r) = .done r (head r).length) {more body next : Text}
    (hbody : decodeBody r.framing ((if r.chunked then Chunked.lastChunk else []) ++ more) =
      some (body, next)) : Reads beast (beast.serialize r ++ more) body next := by
  refine ⟨r, (head r).length, ?_, ?_⟩
  · rw [hwrites r, List.append_assoc]
    exact beast.parse_append _ _ _ _ hreads
  · rw [hwrites r, List.append_assoc, List.drop_left]
    exact hbody

/-- Behind the header of a chunked request a parser finds an empty body. -/
theorem reads_chunked (hwrites : WritesHeader beast head)
    (hreads : beast.parseHeader (head r) = .done r (head r).length) (hchunked : r.chunked = true)
    (more : Text) : Reads beast (beast.serialize r ++ more) [] more := by
  apply reads_serialize hwrites hreads
  rw [Request.framing, hchunked, if_pos rfl, if_pos rfl]
  exact Chunked.decode_lastChunk more

/-- A header that Beast writes and a parser reads back, and a body behind it: the
parser gets this body exactly when the request is not chunked. -/
theorem reads_iff (hwrites : WritesHeader beast head)
    (hreads : beast.parseHeader (head r) = .done r (head r).length)
    {t body : Text} (hbody : Encodes r.framing t body) (next : Text) :
    Reads beast (beast.serialize r ++ (t ++ next)) body next ↔ r.chunked = false := by
  constructor
  · intro h
    by_contra hne
    have hchunked : r.chunked = true := by simpa using hne
    -- a parser that stops behind the header leaves the whole body
    have hleft := (h.unique (reads_chunked hwrites hreads hchunked (t ++ next))).2
    have hframing : r.framing = .chunked := by rw [Request.framing, hchunked, if_pos rfl]
    rw [hframing] at hbody
    exact hbody.ne_nil (List.self_eq_append_left.mp hleft)
  · intro hchunked
    apply reads_serialize hwrites hreads
    rw [hchunked]
    exact hbody next

end

namespace Session

variable {lib : Lib} {s s' : Session} {req : Request} {bytes : Nat} {files : Files}

/-- A session reads the header of a proxy request. In every run of the copier in which
the client sends a body and more, however much of it was read with the header, and
all has been written, the server gets this body and what follows it exactly when the
request is not chunked. -/
theorem framing_survives_iff {head : Request → Text} {url : UrlView}
    (hstep : s.step lib (.headerRead req bytes files) = some s')
    (hroute : route lib req files = .proxy) (hview : lib.urls.urlView req.target = some url)
    (hwrites : WritesHeader lib.beast head)
    (hreads : lib.beast.parseHeader (head (HttpCopier.rewrite url req)) =
      .done (HttpCopier.rewrite url req) (head (HttpCopier.rewrite url req)).length) :
    ∃ c, s'.owner = some (.httpCopier c) ∧
      ∀ fs c' t body next, (HttpCopier.machine lib.beast).run c fs = some c' →
        Encodes req.framing t body → s.buffer.drop bytes ++ c'.toRemote.fetched = t ++ next →
        c'.toRemote.written = lib.beast.serialize c'.req ++ (t ++ next) →
        (Reads lib.beast c'.toRemote.written body next ↔ req.chunked = false) := by
  obtain ⟨-, -, rfl⟩ := step_headerRead lib hstep
  have huri : lib.urls.isUriReference req.target = true := by
    rw [← lib.urls.urlView_isSome, hview]
    rfl
  obtain ⟨-, c, hstart, howner⟩ :=
    onRead_proxy hroute huri (s.takeHeader lib req bytes) s.headers.length
  rw [onRead_eq] at howner
  refine ⟨c, howner, fun fs c' t body next hrun hbody hsent hall => ?_⟩
  obtain ⟨hchunked, hframing⟩ := framing_rewrite url req
  rw [← hframing] at hbody
  rw [hall, HttpUri.req_of_run hview hstart hrun, reads_iff hwrites hreads hbody, hchunked]

/-- A Beast that knows the given headers, and writes a last chunk for a message marked
chunked. -/
def chunkingBeast (headers : List Request) : Beast :=
  { Beast.plain headers with
    serialize := fun r => r.text ++ if r.chunked then Chunked.lastChunk else [] }

/-- A request with a body of two bytes. -/
def lengthRequest : Request where
  method := .post
  target := "http://h/".toList
  version := 11
  fields := [(.contentLength, ['2'])]

/-- A request with a chunked body. -/
def chunkedRequest : Request where
  method := .post
  target := "http://h/".toList
  version := 11
  fields := [(transferEncoding, "chunked".toList)]

def hostUrl : UrlView := ⟨['h'], [], ['/'], []⟩

/-- Libraries that know both requests, and what a copier makes of them. -/
def bodyLib : Lib where
  beast := chunkingBeast [lengthRequest, chunkedRequest, HttpCopier.rewrite hostUrl lengthRequest,
    HttpCopier.rewrite hostUrl chunkedRequest]
  urls := BoostUrl.plain

/-- One chunk with one byte. -/
def oneChunk : Chunked.Chunk where
  line := ['1']
  data := ['x']
  line_ok := by decide
  size_ok := by decide
  data_ok := by decide

/-- The events of a copier that sends a header and what was read with it, and relays a
byte. -/
def sendBody (header front : Text) (c : Char) : List HttpCopierEvent :=
  [.shared (.resolved ['h'] "80".toList true), .connected,
    .shared (.accepted .request header header.length), .shared (.wrote .request),
    .shared (.accepted .unconsumed front front.length), .shared (.wrote .unconsumed),
    .shared (.relay .toRemote (.read [c])), .shared (.relay .toRemote (.accepted 0 1 1))]

/-- A run of the copier for a request, part of whose body was read with its header. -/
def sendsBody (req : Request) (front : Text) (last : Char) : Bool :=
  ((run .plain (req.text ++ front)).step bodyLib (.headerRead req req.text.length noFiles)).any
    fun s => match s.owner with
      | some (.httpCopier c) =>
        ((HttpCopier.machine bodyLib.beast).run c (sendBody (bodyLib.beast.serialize
          (HttpCopier.rewrite hostUrl req)) front last)).any fun c' =>
            c'.toRemote.fetched == [last] && c'.req == HttpCopier.rewrite hostUrl req &&
              c'.toRemote.written == bodyLib.beast.serialize c'.req ++ (front ++ [last])
      | _ => false

theorem exists_of_sendsBody {req : Request} {front : Text} {last : Char}
    (h : sendsBody req front last = true) : ∃ s' c fs c',
      (run .plain (req.text ++ front)).step bodyLib
        (.headerRead req req.text.length noFiles) = some s' ∧
      s'.owner = some (.httpCopier c) ∧
      (HttpCopier.machine bodyLib.beast).run c fs = some c' ∧ c'.toRemote.fetched = [last] ∧
      c'.req = HttpCopier.rewrite hostUrl req ∧
      c'.toRemote.written = bodyLib.beast.serialize c'.req ++ (front ++ [last]) := by
  unfold sendsBody at h
  rw [Option.any_eq_true] at h
  obtain ⟨s', hstep, hcopier⟩ := h
  split at hcopier
  · rename_i c howner
    obtain ⟨c', hrun, htest⟩ := Machine.run_of_any _ _ _ _ hcopier
    simp only [Bool.and_eq_true, beq_iff_eq] at htest
    exact ⟨s', c, _, c', hstep, howner, hrun, htest.1.1, htest.1.2, htest.2⟩
  · cases hcopier

theorem writesHeader_bodyLib : WritesHeader bodyLib.beast Request.text := fun _ => rfl

/-- A body of two bytes, one of them read with the header, arrives as it was sent. -/
theorem framing_survives_iff_length : ∃ s' c fs c',
    (run .plain (lengthRequest.text ++ ['x'])).step bodyLib
      (.headerRead lengthRequest lengthRequest.text.length noFiles) = some s' ∧
    s'.owner = some (.httpCopier c) ∧
    (HttpCopier.machine bodyLib.beast).run c fs = some c' ∧
    Reads bodyLib.beast c'.toRemote.written ['x', 'y'] [] := by
  obtain ⟨s', c, fs, c', hstep, howner, hrun, hfetched, -, hwritten⟩ :=
    exists_of_sendsBody (show sendsBody lengthRequest ['x'] 'y' = true by decide +kernel)
  have hview : bodyLib.urls.urlView lengthRequest.target = some hostUrl := by decide +kernel
  have hreads : bodyLib.beast.parseHeader (HttpCopier.rewrite hostUrl lengthRequest).text =
      .done (HttpCopier.rewrite hostUrl lengthRequest)
        (HttpCopier.rewrite hostUrl lengthRequest).text.length := by decide +kernel
  obtain ⟨c₀, howner₀, hall⟩ := framing_survives_iff hstep
    (by decide +kernel) hview writesHeader_bodyLib hreads
  have hsame : c₀ = c := by
    rw [howner₀] at howner
    cases howner
    rfl
  rw [hsame] at hall
  refine ⟨s', c, fs, c', hstep, howner, hrun, ?_⟩
  have hbody : Encodes lengthRequest.framing ['x', 'y'] ['x', 'y'] :=
    encodes_length ['x', 'y']
  have hbehind : (run .plain (lengthRequest.text ++ ['x'])).buffer.drop
      lengthRequest.text.length = ['x'] := List.drop_left
  refine (hall fs c' ['x', 'y'] ['x', 'y'] [] hrun hbody ?_ hwritten).mpr (by decide +kernel)
  rw [hbehind, hfetched]
  rfl

/-- The server finds the end of a chunked body where the body starts. -/
theorem chunked_body_cut_off : ∃ s' c fs c',
    (run .plain (chunkedRequest.text ++ (Chunked.encode [oneChunk]).dropLast)).step bodyLib
      (.headerRead chunkedRequest chunkedRequest.text.length noFiles) = some s' ∧
    s'.owner = some (.httpCopier c) ∧
    (HttpCopier.machine bodyLib.beast).run c fs = some c' ∧
    Encodes chunkedRequest.framing (Chunked.encode [oneChunk]) ['x'] ∧
    c'.toRemote.written = bodyLib.beast.serialize c'.req ++ Chunked.encode [oneChunk] ∧
    Reads bodyLib.beast c'.toRemote.written [] (Chunked.encode [oneChunk]) ∧
    ¬ Reads bodyLib.beast c'.toRemote.written ['x'] [] := by
  obtain ⟨s', c, fs, c', hstep, howner, hrun, -, hreq, hwritten⟩ :=
    exists_of_sendsBody (show sendsBody chunkedRequest (Chunked.encode [oneChunk]).dropLast
      '\n' = true by decide +kernel)
  have hframing : chunkedRequest.framing = .chunked := by decide +kernel
  have hencodes : Encodes chunkedRequest.framing (Chunked.encode [oneChunk]) ['x'] := by
    rw [hframing]
    exact encodes_chunks [oneChunk]
  have hreads : bodyLib.beast.parseHeader c'.req.text = .done c'.req c'.req.text.length := by
    rw [hreq]
    decide +kernel
  have hchunked : c'.req.chunked = true := by
    rw [hreq]
    decide +kernel
  have hcut : Reads bodyLib.beast c'.toRemote.written [] (Chunked.encode [oneChunk]) := by
    rw [hwritten]
    exact reads_chunked writesHeader_bodyLib hreads hchunked _
  refine ⟨s', c, fs, c', hstep, howner, hrun, hencodes, hwritten, hcut, fun hwhole => ?_⟩
  exact absurd (hwhole.unique hcut).1 (by decide)

end Session

end ServerAsync
