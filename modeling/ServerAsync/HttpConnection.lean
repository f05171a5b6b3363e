import ServerAsync.ExchangeProgress
import ServerAsync.Misc.Wiring
import ServerAsync.SessionCopiers

/-!
# A connection of the server, and where its stream goes

The session that gets a connection, and the copier that it may give the stream to, with
everything that is taken from the client and from the remote and put to them. A connection
is a station between the two.
-/

namespace ServerAsync

open Misc Misc.Pipeline

/-- A connection. Its session is there once plain has been told from SSL; `part` counts what
has been put to the client of the response in flight. -/
structure HttpConnection where
  session : Option Session
  part : Nat
  fromClient : Text
  toClient : Text
  fromRemote : Text
  toRemote : Text

/-- The first bytes for the detector, the events of the session, the progress of the write of a
response, and the events of a copier. -/
inductive HttpConnectionEvent where
  | detected (bytes : Text)
  | session (e : SessionEvent)
  | send (count : Nat)
  | httpCopier (e : HttpCopierEvent)
  | socketCopier (e : SocketCopierEvent)

/-- What an event takes from the client. -/
def SessionEvent.arrived : SessionEvent → Text
  | .arrive bytes => bytes
  | _ => []

def SessionEvent.isWritten : SessionEvent → Bool
  | .written _ _ => true
  | _ => false

/-! What Beast writes for a response on HTTP/1.1, with the fields in the order in which the
handlers set them. -/

def Status.text : Status → Text
  | .ok => "200 OK".toList
  | .badRequest => "400 Bad Request".toList
  | .notFound => "404 Not Found".toList
  | .internalServerError => "500 Internal Server Error".toList

def Response.text (r : Response) : Text :=
  "HTTP/1.1 ".toList ++ r.status.text ++ crlf ++
    fieldText .server r.server ++ fieldText .contentType r.contentType ++
    (if r.keepAlive then [] else fieldText .connection (some "close".toList)) ++
    fieldText .contentLength (r.contentLength.map (Nat.toDigits 10)) ++ crlf ++ r.body
where
  fieldText (name : Field) (value : Option Text) : Text :=
    (value.map fun v => name.text ++ ": ".toList ++ v ++ crlf).getD []

namespace HttpConnection

/-- What has been added to the first of two texts to get the second one. -/
def added (old new : Text) : Text := new.drop old.length

/-- Before anything has been received. -/
def accepted : HttpConnection := ⟨none, 0, [], [], [], []⟩

/-- A response has been written with its last byte. `text` is what Beast writes for it. -/
def MayComplete (text : Response → Text) (s : HttpConnection) : SessionEvent → Prop
  | .written q true => s.part = (text q.message).length
  | _ => True

instance (text : Response → Text) (s : HttpConnection) (e : SessionEvent) :
    Decidable (s.MayComplete text e) := by
  unfold MayComplete
  split <;> infer_instance

/-- Behind an event of the session. -/
def after (s : HttpConnection) (e : SessionEvent) (c : Session) : HttpConnection :=
  { s with
    session := some c
    part := if e.isWritten then 0 else s.part
    fromClient := s.fromClient ++ e.arrived }

/-- The next bytes of the response in flight are put. -/
def sent (s : HttpConnection) (response : Text) (count : Nat) : HttpConnection :=
  { s with
    part := s.part + count
    toClient := s.toClient ++ (response.drop s.part).take count }

/-- Behind an event of the copier that has got the stream of `c`. -/
def relayed (s : HttpConnection) (c : Session) (owner : Copier → Owner) (d d' : Copier) :
    HttpConnection :=
  { s with
    session := some { c with owner := some (owner d') }
    fromClient := s.fromClient ++ added d.toRemote.fetched d'.toRemote.fetched
    toClient := s.toClient ++ added d.toClient.written d'.toClient.written
    fromRemote := s.fromRemote ++ added d.toClient.fetched d'.toClient.fetched
    toRemote := s.toRemote ++ added d.toRemote.written d'.toRemote.written }

variable (lib : Lib) (text : Response → Text)

/-- The reaction to an event, `none` when it cannot happen. -/
def step (s : HttpConnection) : HttpConnectionEvent → Option HttpConnection
  | .detected bytes =>
    if s.session.isNone ∧ bytes ≠ [] then
      some { s with
        session := some (Session.run .plain bytes)
        fromClient := s.fromClient ++ bytes }
    else none
  | .session e =>
    s.session.bind fun c =>
      if s.MayComplete text e then (c.step lib e).map (s.after e) else none
  | .send count =>
    s.session.bind fun c => c.writes.head?.bind fun q =>
      if 0 < count ∧ s.part + count ≤ (text q.message).length then
        some (s.sent (text q.message) count)
      else none
  | .httpCopier e =>
    s.session.bind fun c =>
      match c.owner with
      | some (.httpCopier d) => (HttpCopier.step lib.beast d e).map (s.relayed c .httpCopier d)
      | _ => none
  | .socketCopier e =>
    s.session.bind fun c =>
      match c.owner with
      | some (.socketCopier d) => (SocketCopier.step d e).map (s.relayed c .socketCopier d)
      | _ => none

/-- A connection as a machine. -/
def machine : Machine HttpConnection HttpConnectionEvent := ⟨step lib text⟩

variable {lib text} {s t : HttpConnection}

theorem step_session {e : SessionEvent} : s.step lib text (.session e) = some t ↔
    ∃ c c', s.session = some c ∧ s.MayComplete text e ∧ c.step lib e = some c' ∧
      s.after e c' = t := by
  simp only [step, Option.bind_eq_some_iff, Option.ite_none_right_eq_some, Option.map_eq_some_iff]
  constructor
  · rintro ⟨c, hc, hmay, c', hstep, ht⟩
    exact ⟨c, c', hc, hmay, hstep, ht⟩
  · rintro ⟨c, c', hc, hmay, hstep, ht⟩
    exact ⟨c, hc, hmay, c', hstep, ht⟩

theorem step_send {count : Nat} (hstep : s.step lib text (.send count) = some t) :
    ∃ c q, s.session = some c ∧ c.writes.head? = some q ∧
      s.part + count ≤ (text q.message).length ∧ s.sent (text q.message) count = t := by
  obtain ⟨c, hc, hstep⟩ := Option.bind_eq_some_iff.mp hstep
  obtain ⟨q, hq, hstep⟩ := Option.bind_eq_some_iff.mp hstep
  obtain ⟨⟨-, hle⟩, ht⟩ := Machine.taken hstep
  exact ⟨c, q, hc, hq, hle, ht⟩

theorem step_httpCopier {e : HttpCopierEvent} (hstep : s.step lib text (.httpCopier e) = some t) :
    ∃ c d d', s.session = some c ∧ c.owner = some (.httpCopier d) ∧
      HttpCopier.step lib.beast d e = some d' ∧ s.relayed c .httpCopier d d' = t := by
  obtain ⟨c, hc, hstep⟩ := Option.bind_eq_some_iff.mp hstep
  split at hstep
  · rename_i d howner
    obtain ⟨d', hd, ht⟩ := Option.map_eq_some_iff.mp hstep
    exact ⟨c, d, d', hc, howner, hd, ht⟩
  · cases hstep

theorem step_socketCopier {e : SocketCopierEvent}
    (hstep : s.step lib text (.socketCopier e) = some t) :
    ∃ c d d', s.session = some c ∧ c.owner = some (.socketCopier d) ∧
      SocketCopier.step d e = some d' ∧ s.relayed c .socketCopier d d' = t := by
  obtain ⟨c, hc, hstep⟩ := Option.bind_eq_some_iff.mp hstep
  split at hstep
  · rename_i d howner
    obtain ⟨d', hd, ht⟩ := Option.map_eq_some_iff.mp hstep
    exact ⟨c, d, d', hc, howner, hd, ht⟩
  · cases hstep

theorem grows {e : HttpConnectionEvent} (hstep : s.step lib text e = some t) :
    s.fromClient <+: t.fromClient ∧ s.toClient <+: t.toClient ∧
      s.fromRemote <+: t.fromRemote ∧ s.toRemote <+: t.toRemote := by
  cases e with
  | detected bytes =>
    obtain ⟨-, rfl⟩ := Machine.taken hstep
    exact ⟨List.prefix_append _ _, List.prefix_rfl, List.prefix_rfl, List.prefix_rfl⟩
  | session e =>
    obtain ⟨c, c', -, -, -, rfl⟩ := step_session.mp hstep
    exact ⟨List.prefix_append _ _, List.prefix_rfl, List.prefix_rfl, List.prefix_rfl⟩
  | send count =>
    obtain ⟨c, q, -, -, -, rfl⟩ := step_send hstep
    exact ⟨List.prefix_rfl, List.prefix_append _ _, List.prefix_rfl, List.prefix_rfl⟩
  | httpCopier e =>
    obtain ⟨c, d, d', -, -, -, rfl⟩ := step_httpCopier hstep
    exact ⟨List.prefix_append _ _, List.prefix_append _ _, List.prefix_append _ _,
      List.prefix_append _ _⟩
  | socketCopier e =>
    obtain ⟨c, d, d', -, -, -, rfl⟩ := step_socketCopier hstep
    exact ⟨List.prefix_append _ _, List.prefix_append _ _, List.prefix_append _ _,
      List.prefix_append _ _⟩

variable (lib text) in
/-- A connection between its client and the remote, taking the steps that `p` allows. -/
def station (p : HttpConnection → HttpConnectionEvent → Bool) : Station Char where
  State := HttpConnection
  Event := HttpConnectionEvent
  machine := (machine lib text).only p
  start := accepted
  taken s
    | .near => s.fromClient
    | .far => s.fromRemote
  put s
    | .near => s.toClient
    | .far => s.toRemote
  fresh
    | .near => rfl
    | .far => rfl
  grows s e t hstep port := by
    obtain ⟨hfromClient, htoClient, hfromRemote, htoRemote⟩ :=
      HttpConnection.grows (Machine.only_step.mp hstep).2
    cases port with
    | near => exact ⟨hfromClient, htoClient⟩
    | far => exact ⟨hfromRemote, htoRemote⟩

end HttpConnection

end ServerAsync
