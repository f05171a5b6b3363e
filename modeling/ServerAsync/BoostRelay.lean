import ServerAsync.ReverseProxy
import ServerAsync.StringUtil
import ServerAsync.Misc.MessageParser

/-!
# `boost_relay`

The blocking proxy. A thread reads one request from its client; for CONNECT it
connects the two sides, and for GET with an absolute target it sends a request of its
own to the server and the server's response to the client. Both reads go through one
buffer. Whatever throws ends the connection.
-/

namespace ServerAsync

open Misc

/-- `http::response<http::string_body>`. -/
structure ResponseMessage where
  header : ResponseHeader
  body : Text
  deriving DecidableEq, Repr

/-- What `boost_relay` uses of Boost.Beast. -/
structure RelayLib where
  /-- The parse of `http::read` into a request; its body is not used. -/
  request : MessageParser Char Request
  /-- The parse of `http::read` into a response. -/
  response : MessageParser Char ResponseMessage
  /-- What `http::write` of a request writes. -/
  serializeRequest : Request → Text
  /-- What `http::write` of a response writes. -/
  serializeResponse : ResponseMessage → Text
  /-- A header is not longer than the limit, and its target is part of it. -/
  target_le : ∀ t req used, request.parse t = .done req used → req.target.length ≤ headerLimit
  /-- No request ends with the stream. -/
  request_atEnd : ∀ t, request.atEnd t = none
  /-- The status line is in the header, which is not longer than the limit. -/
  response_status : ∀ t t' m m' used used', response.parse t = .done m used →
    response.parse t' = .done m' used' → t.take headerLimit = t'.take headerLimit →
      m.header.status = m'.header.status
  /-- The status line is written. -/
  serialize_status : ∀ m m', serializeResponse m = serializeResponse m' →
    m.header.status = m'.header.status
  /-- Responses are not all of one status. -/
  response_ok : ∃ t t' m m' used used', response.parse t = .done m used ∧
    response.parse t' = .done m' used' ∧ m.header.status ≠ m'.header.status

/-- What arrives at a socket: the pieces that the reads get, and whether the stream ends
behind them. -/
structure Incoming where
  pieces : List Text
  ends : Bool
  deriving DecidableEq, Repr

/-- `http::read`. -/
def Incoming.read {α : Type} (p : MessageParser Char α) (socket : Incoming) (buffer : Text) :
    Option (Taken Char α) :=
  p.read socket.ends socket.pieces buffer

/-- What a resolved and connected host and port sends after it has got a request; `none`
where there is nothing to connect to. -/
abbrev Network := Text → Text → Option (Text → Incoming)

/-- What a connection does, in this order. -/
inductive RelayAction where
  | resolve (host port : Text)
  | toServer (bytes : Text)
  | toClient (bytes : Text)
  | relayData
  deriving DecidableEq, Repr

/-- What an action writes to the client. -/
def RelayAction.written : RelayAction → Option Text
  | .resolve _ _ => none
  | .toServer _ => none
  | .toClient bytes => some bytes
  | .relayData => none

/-- `find` of a string. -/
def Text.findText (t needle : Text) : Nat :=
  (t.tails.findIdx? fun rest => needle.isPrefixOf rest).getD npos

namespace BoostRelay

/-- The host and the port of a CONNECT target, `none` where the code throws. -/
def connectTarget (target : Text) : Option (Text × Text) :=
  let colonPos := target.find ':'
  if colonPos = Text.npos then none
  else
    (target.substr 0 colonPos).toOption.bind fun host =>
      (target.substr (colonPos + 1) Text.npos).toOption.map fun port => (host, port)

/-- The host and the path of a GET target, `none` where the code throws. -/
def getTarget (target : Text) : Option (Text × Text) :=
  let startPos := target.findText "//".toList + 2
  let endPos := (target.findFrom '/' startPos).getD Text.npos
  (target.substr startPos (endPos - startPos)).toOption.bind fun host =>
    (target.substr endPos Text.npos).toOption.map fun path => (host, path)

/-- The responses of the proxy itself. -/
def ownResponse (status : Nat) (req : Request) : ResponseMessage :=
  ⟨⟨status, req.version, [(.contentLength, ['0'])]⟩, []⟩

/-- The request that goes to the server. -/
def forwardReq (req : Request) (host path : Text) : Request :=
  ((Request.mk .get path req.version []).set .host host).set (.other "User-Agent".toList)
    (req.get (.other "User-Agent".toList))

variable (lib : RelayLib) (net : Network)

/-- The CONNECT branch. -/
def handleConnect (req : Request) : List RelayAction :=
  match connectTarget req.target with
  | none => []
  | some target =>
    .resolve target.1 target.2 ::
      match net target.1 target.2 with
      | none => []
      | some _ => [.toClient (lib.serializeResponse (ownResponse 200 req)), .relayData]

/-- The GET branch. The response is read into the buffer that the request was read
into. -/
def handleGet (req : Request) (buffer : Text) : List RelayAction :=
  if req.target.findText "http://".toList = 0 ∨ req.target.findText "https://".toList = 0 then
    match getTarget req.target with
    | none => []
    | some target =>
      .resolve target.1 "80".toList ::
        match net target.1 "80".toList with
        | none => []
        | some server =>
          let sent := lib.serializeRequest (forwardReq req target.1 target.2)
          .toServer sent ::
            match (server sent).read lib.response buffer with
            | none => []
            | some answer => [.toClient (lib.serializeResponse answer.message)]
  else [.toClient (lib.serializeResponse (ownResponse 400 req))]

/-- `handle_connection`. -/
def handleConnection (client : Incoming) : List RelayAction :=
  match client.read lib.request [] with
  | none => []
  | some taken =>
    if taken.message.method = .connect then handleConnect lib net taken.message
    else if taken.message.method = .get then handleGet lib net taken.message taken.left
    else []

/-! ## Where the response comes from -/

theorem toList_inj {α : Type} {o o' : Option α} : o.toList = o'.toList ↔ o = o' := by
  constructor
  · intro h
    have hhead := congrArg List.head? h
    rwa [Option.head?_toList, Option.head?_toList] at hhead
  · rintro rfl
    rfl

/-- The responses that are written to the client. -/
def answers (actions : List RelayAction) : List Text := actions.filterMap RelayAction.written

/-- The first response in what a server sends, as it is written. -/
def firstResponse (server : Incoming) : Option Text :=
  (lib.response.first server.ends server.pieces.flatten).map lib.serializeResponse

/-- A GET target that names a server and a path. -/
def Proxied (req : Request) (host path : Text) : Prop :=
  (req.target.findText "http://".toList = 0 ∨ req.target.findText "https://".toList = 0) ∧
    getTarget req.target = some (host, path)

section

variable {lib net}

theorem handleGet_of_none {req : Request} {host path : Text} (htarget : Proxied req host path)
    (hserver : net host "80".toList = none) (buffer : Text) :
    handleGet lib net req buffer = [.resolve host "80".toList] := by
  rw [handleGet, if_pos htarget.1, htarget.2]
  dsimp only
  rw [hserver]

/-- A server that is there gets the request, and its answer goes to the client. -/
theorem handleGet_of_some {req : Request} {host path : Text} (htarget : Proxied req host path)
    {server : Text → Incoming} (hserver : net host "80".toList = some server) (buffer : Text) :
    handleGet lib net req buffer =
      .resolve host "80".toList :: .toServer (lib.serializeRequest (forwardReq req host path)) ::
        (((server (lib.serializeRequest (forwardReq req host path))).read lib.response buffer).map
          fun answer => RelayAction.toClient (lib.serializeResponse answer.message)).toList := by
  rw [handleGet, if_pos htarget.1, htarget.2]
  dsimp only
  rw [hserver]
  dsimp only
  cases (server (lib.serializeRequest (forwardReq req host path))).read lib.response buffer with
  | none => rfl
  | some answer => rfl

/-- The client gets the first response in what was in the buffer and what the server sends
then. -/
theorem answers_handleGet {req : Request} {host path : Text} (htarget : Proxied req host path)
    {server : Text → Incoming} (hserver : net host "80".toList = some server) (buffer : Text) :
    answers (handleGet lib net req buffer) =
      ((lib.response.first (server (lib.serializeRequest (forwardReq req host path))).ends
        (buffer ++ (server (lib.serializeRequest (forwardReq req host path))).pieces.flatten)).map
          lib.serializeResponse).toList := by
  rw [handleGet_of_some htarget hserver, ← MessageParser.read_message, Incoming.read]
  cases lib.response.read (server (lib.serializeRequest (forwardReq req host path))).ends
      (server (lib.serializeRequest (forwardReq req host path))).pieces buffer with
  | none => rfl
  | some taken => rfl

theorem handleConnection_get {client : Incoming} {taken : Taken Char Request}
    (hread : client.read lib.request [] = some taken) (hget : taken.message.method = .get) :
    handleConnection lib net client = handleGet lib net taken.message taken.left := by
  have hconnect : ¬ taken.message.method = .connect := by
    rw [hget]
    exact nofun
  rw [handleConnection, hread]
  dsimp only
  rw [if_neg hconnect, if_pos hget]

/-- Bytes in front of what servers send change the first response of some server. -/
theorem exists_firstResponse_ne {left : Text} (hleft : left ≠ []) : ∃ server : Incoming,
    (lib.response.first server.ends (left ++ server.pieces.flatten)).map
      lib.serializeResponse ≠ firstResponse lib server := by
  obtain ⟨t, t', m, m', used, used', hparse, hparse', hstatus⟩ := lib.response_ok
  obtain ⟨stream, hne⟩ := MessageParser.exists_first_ne lib.serialize_status
    lib.response_status hparse hparse' hstatus hleft
  refine ⟨⟨[stream], false⟩, ?_⟩
  rw [firstResponse, List.flatten_singleton]
  exact hne

/-- The client gets the first response in what the server sends, whatever that is, if and
only if the reads of the request got nothing beyond it: some first pieces of what the
client sent are exactly the request. -/
theorem answer_from_server_iff {client : Incoming} {taken : Taken Char Request}
    {host path : Text} (hread : client.read lib.request [] = some taken)
    (hget : taken.message.method = .get) (htarget : Proxied taken.message host path) :
    (∀ (net : Network) (server : Text → Incoming), net host "80".toList = some server →
        answers (handleConnection lib net client) =
          (firstResponse lib
            (server (lib.serializeRequest (forwardReq taken.message host path)))).toList) ↔
      ∃ k, lib.request.parse (client.pieces.take k).flatten =
        .done taken.message (client.pieces.take k).flatten.length := by
  have hexact := MessageParser.read_left_eq_nil_iff lib.request_atEnd hread
  simp only [List.nil_append] at hexact
  rw [← hexact]
  constructor
  · intro hall
    by_contra hleft
    obtain ⟨stream, hne⟩ := @exists_firstResponse_ne lib _ hleft
    have hanswer := hall (fun _ _ => some fun _ => stream) (fun _ => stream) rfl
    rw [handleConnection_get hread hget, answers_handleGet htarget rfl] at hanswer
    exact hne (toList_inj.mp hanswer)
  · intro hleft net server hserver
    rw [handleConnection_get hread hget, answers_handleGet htarget hserver, hleft,
      List.nil_append]
    rfl

/-- Two clients with the same request get the same answer, whatever they send behind it,
when the reads of the request got nothing of that. -/
theorem answers_eq_of_exact {client client' : Incoming} {taken taken' : Taken Char Request}
    (hread : client.read lib.request [] = some taken)
    (hread' : client'.read lib.request [] = some taken')
    (hsame : taken'.message = taken.message) (hget : taken.message.method = .get)
    (hleft : taken.left = []) (hleft' : taken'.left = []) :
    answers (handleConnection lib net client) = answers (handleConnection lib net client') := by
  rw [handleConnection_get hread hget, handleConnection_get hread' (hsame ▸ hget), hsame, hleft,
    hleft']

end

end BoostRelay

/-! ## A library for plain messages -/

def ResponseMessage.text (m : ResponseMessage) : Text := m.header.text ++ m.body

/-- The text of a response starts with its status. -/
theorem ResponseMessage.text_eq (m : ResponseMessage) : ∃ rest,
    m.text = "HTTP/1.1 ".toList ++ (Nat.toDigits 10 m.header.status ++ ' ' :: rest) := by
  refine ⟨obsoleteReason m.header.status ++ (crlf ++ (m.header.fields.flatMap
    (fun f => f.1.text ++ ": ".toList ++ f.2 ++ crlf) ++ (crlf ++ m.body))), ?_⟩
  unfold ResponseMessage.text ResponseHeader.text
  generalize "HTTP/1.1 ".toList = front
  generalize m.header.fields.flatMap _ = fields
  simp only [List.append_assoc, List.cons_append]

theorem ResponseMessage.status_of_text {m m' : ResponseMessage} (h : m.text = m'.text) :
    m.header.status = m'.header.status := by
  have hdigits : ∀ n (rest : Text),
      (Nat.toDigits 10 n ++ ' ' :: rest).takeWhile Char.isDigit = Nat.toDigits 10 n := by
    intro n rest
    have hall : ∀ c ∈ Nat.toDigits 10 n, c.isDigit = true := fun c hc =>
      Nat.isDigit_of_mem_toDigits (by decide) (by decide) hc
    have hstop : ¬ Char.isDigit ' ' = true := by decide
    rw [List.takeWhile_append_of_pos hall, List.takeWhile_cons_of_neg hstop, List.append_nil]
  obtain ⟨rest, hrest⟩ := m.text_eq
  obtain ⟨rest', hrest'⟩ := m'.text_eq
  rw [hrest, hrest'] at h
  have hsame := congrArg (List.takeWhile Char.isDigit) (List.append_cancel_left h)
  rw [hdigits, hdigits] at hsame
  have hvalue := congrArg (fun digits => Nat.ofDigitChars 10 digits 0) hsame
  rwa [Nat.ofDigitChars_ten_toDigits, Nat.ofDigitChars_ten_toDigits] at hvalue

/-- A response without a body. -/
def emptyResponse (status : Nat) : ResponseMessage :=
  ⟨⟨status, 11, [(.contentLength, ['0'])]⟩, []⟩

/-- Two responses with their texts. -/
def plainResponses : List (Text × ResponseMessage) :=
  [200, 404].map fun status => ((emptyResponse status).text, emptyResponse status)

/-- A Beast that parses the given requests and these two responses. -/
def RelayLib.plain (requests : List Request) : RelayLib where
  request := .among
    ((requests.filter fun r => r.target.length ≤ headerLimit).map fun r => (r.text, r))
  response := .among plainResponses
  serializeRequest := Request.text
  serializeResponse := ResponseMessage.text
  target_le t req used h := by
    obtain ⟨e, he, rfl, -⟩ := MessageParser.knownFront_eq_some (MessageParser.among_done.mp h)
    obtain ⟨r, hr, rfl⟩ := List.mem_map.mp he
    exact of_decide_eq_true (List.mem_filter.mp hr).2
  request_atEnd _ := rfl
  response_status t t' m m' used used' h h' hfront := by
    have hlimit : ∀ e ∈ plainResponses, e.1.length ≤ headerLimit := by decide
    have hm := MessageParser.among_done_take hlimit h
    rw [hfront, MessageParser.among_done_take hlimit h', Front.done.injEq] at hm
    rw [hm.1]
  serialize_status _ _ h := ResponseMessage.status_of_text h
  response_ok := by
    refine ⟨(emptyResponse 200).text, (emptyResponse 404).text, emptyResponse 200,
      emptyResponse 404, (emptyResponse 200).text.length, (emptyResponse 404).text.length,
      ?_, ?_, by decide⟩
    · exact MessageParser.among_done.mpr rfl
    · exact MessageParser.among_done.mpr rfl

namespace BoostRelay

/-- A request for a page of a server. -/
def pageRequest : Request := ⟨.get, "http://a/".toList, 11, []⟩

/-- The server that sends an empty page. -/
def pageServer (_ : Text) : Incoming := ⟨[(emptyResponse 200).text], false⟩

/-- A client that waits for the response. -/
theorem answer_from_server_iff_page :
    (∀ (net : Network) (server : Text → Incoming), net "a".toList "80".toList = some server →
        answers (handleConnection (.plain [pageRequest]) net ⟨[pageRequest.text], false⟩) =
          (firstResponse (.plain [pageRequest]) (server
            (Request.text (forwardReq pageRequest "a".toList "/".toList)))).toList) ↔
      ∃ k, (RelayLib.plain [pageRequest]).request.parse ([pageRequest.text].take k).flatten =
        .done pageRequest ([pageRequest.text].take k).flatten.length :=
  @answer_from_server_iff (.plain [pageRequest]) ⟨[pageRequest.text], false⟩ ⟨pageRequest, [], []⟩
    "a".toList "/".toList (by decide +kernel) rfl ⟨Or.inl rfl, rfl⟩

/-- A client that sends a response right behind its request gets that one. -/
theorem answer_pipelined :
    answers (handleConnection (.plain [pageRequest]) (fun _ _ => some pageServer)
        ⟨[pageRequest.text ++ (emptyResponse 404).text], false⟩) = [(emptyResponse 404).text] ∧
      firstResponse (.plain [pageRequest]) (pageServer
        (Request.text (forwardReq pageRequest "a".toList "/".toList))) =
          some (emptyResponse 200).text := by
  decide +kernel

end BoostRelay

end ServerAsync
