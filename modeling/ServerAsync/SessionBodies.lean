import ServerAsync.ProxyRequests
import ServerAsync.ResponseFraming

/-!
# The bodies that a session reads

While the body of an upload is read, its session reads nothing else, and what arrives is only
added to its buffer. When the body has arrived, it is the one that the client has sent in this
message.
-/

namespace ServerAsync

open Misc Misc.Pipeline

/-- The read of a body ends. -/
def SessionEvent.endsBody : SessionEvent → Bool
  | .bodyRead _ _ => true
  | .readFailed (.body _ _) => true
  | _ => false

namespace Session

/-- Whether the next event may leave a body in the stream can be tested. -/
instance (lib : Lib) (s : Session) : ∀ e, Decidable (s.DrainsBodies lib e)
  | .headerRead req _ files =>
    match h : route lib req files with
    | .reply _ =>
      decidable_of_iff (lib.beast.bodyLength req ≠ 0 → queueLimit ≤ s.responseQueue.length + 1 →
        ∀ q ∈ s.writes, q.message.keepAlive = false) (by simp [DrainsBodies, h])
    | .websocket | .tunnel | .proxy | .refuse | .upload =>
      isTrue (by simp [DrainsBodies, h])
  | .arrive _ | .handshake _ | .endOfStream | .bodyRead _ _ | .readFailed _ | .written _ _
  | .shutdown => isTrue trivial

variable {lib : Lib} {ms : List (Message lib.beast)} {s s' : Session} {e : SessionEvent}

/-- While a body is read, its session goes on receiving it. -/
theorem body_waits (hinv : Pipeline.Inv queueLimit s.core) {number : Nat} {req : Request}
    (hop : .body number req ∈ s.reads) (hends : e.endsBody = false)
    (hstep : s.step lib e = some s') :
    .body number req ∈ s'.reads ∧ s.buffer <+: s'.buffer := by
  have honly : s.reads = [.body number req] := hinv.read.reads_eq hop
  have hroom : s.responseQueue.length < queueLimit := hinv.read.room (List.ne_nil_of_mem hop)
  obtain ⟨-, hreact⟩ := (step_eq_some lib).mp hstep
  cases e with
  | arrive bytes =>
    obtain ⟨-, rfl⟩ := Machine.taken hreact
    exact ⟨hop, List.prefix_append _ _⟩
  | handshake bytesUsed =>
    have hopening := (Machine.taken hreact).1
    rw [honly, List.mem_singleton] at hopening
    cases hopening
  | headerRead req' bytes files =>
    have hheader := (Machine.taken hreact).1.1
    rw [honly, List.mem_singleton] at hheader
    cases hheader
  | endOfStream =>
    have hheader := (Machine.taken hreact).1
    rw [honly, List.mem_singleton] at hheader
    cases hheader
  | bodyRead number' req' => cases hends
  | readFailed op =>
    have hfailed := (Machine.taken hreact).1
    rw [honly, List.mem_singleton] at hfailed
    subst hfailed
    cases hends
  | written q ok =>
    obtain ⟨-, rfl⟩ := Machine.taken hreact
    have hno : ¬({ s with writes := s.writes.erase q } : Session).Resuming q ok := fun hresumes =>
      Nat.not_le.mpr hroom hresumes.2.2
    have hsame := onWrite_sameInput hno
    refine ⟨?_, ?_⟩
    · rw [hsame.reads]
      exact hop
    · rw [hsame.buffer]
  | shutdown =>
    obtain ⟨-, rfl⟩ := Machine.taken hreact
    exact ⟨hop, List.prefix_rfl⟩

/-- The response to an upload is queued when its body has been read. -/
theorem uploadOnRead_queued (s : Session) (number : Nat) (req : Request) :
    (FileUploadHandler.onRead s number req).queued =
      s.queued ++ [⟨number, FileUploadHandler.response req⟩] := by
  rw [← HttpServer.queueWrite_queued, FileUploadHandler.onRead, continueReadIfNeeded]
  split <;> rfl

/-- What has been queued stays queued. -/
theorem queued_step (hstep : s.step lib e = some s') : s.queued <+: s'.queued := by
  obtain ⟨-, hreact⟩ := (step_eq_some lib).mp hstep
  cases e with
  | headerRead req bytes files =>
    obtain ⟨-, -, rfl⟩ := step_headerRead lib hstep
    rcases HttpServer.onRoute_queued lib (s.takeHeader lib req bytes) s.headers.length req
      (route lib req files) with hsame | ⟨r, -, hmore⟩
    · rw [hsame]
      exact List.prefix_rfl
    · rw [hmore]
      exact List.prefix_append _ _
  | bodyRead number req =>
    obtain ⟨-, rfl⟩ := Machine.taken hreact
    rw [uploadOnRead_queued]
    exact List.prefix_append _ _
  | written q ok =>
    obtain ⟨-, rfl⟩ := Machine.taken hreact
    rw [onWrite_queued]
  | _ =>
    obtain ⟨-, rfl⟩ := Machine.taken hreact
    exact List.prefix_rfl

/-- A body that has arrived is that of its message. -/
theorem body_at_front (hinv : Pipeline.Inv queueLimit s.core) (hreplies : Replies lib s)
    (hsync : Sync ms s) (hclient : s.received <+: clientStream ms) {number : Nat}
    {req : Request} (hop : .body number req ∈ s.reads)
    (harrived : lib.beast.bodyLength req ≤ s.buffer.length) :
    ∃ m, ms[number]? = some m ∧ m.header = req ∧
      s.buffer.take (lib.beast.bodyLength req) = m.body := by
  obtain ⟨hreq, -⟩ := hreplies.bodies number req hop
  have hcount : s.headers.length = number + 1 := (hinv.read.body_count number req hop).2
  obtain ⟨m, hm, rfl⟩ : ∃ m, ms[number]? = some m ∧ m.header = req := by
    have hheader := getElem?_of_front hsync.headers hreq
    rw [List.getElem?_map] at hheader
    exact Option.map_eq_some_iff.mp hheader
  refine ⟨m, hm, rfl, ?_⟩
  have hsplit : ms.drop number = m :: ms.drop (number + 1) := by
    obtain ⟨hlt, hget⟩ := List.getElem?_eq_some_iff.mp hm
    rw [← hget]
    exact List.drop_eq_getElem_cons hlt
  have hpieces : (ms.map Message.bytes).drop number =
      m.bytes :: (ms.drop (number + 1)).map Message.bytes := by
    rw [← List.map_drop, hsplit, List.map_cons]
  have hstart : messageStart ms (number + 1) = messageStart ms number + m.bytes.length :=
    Framing.start_succ hpieces
  -- the header is behind, and the body is all that is left of the message
  have hconsumed : s.consumed = messageStart ms number + m.text.length := by
    have hposition := hsync.position
    rw [hsync.body number _ hop, hcount, hstart, Message.bytes, List.length_append,
      m.body_length] at hposition
    omega
  have hne : s.headers ≠ [] := List.ne_nil_of_length_eq_add_one hcount
  obtain ⟨hbuffer, -⟩ := hsync.buffer (hsync.reading (List.ne_nil_of_mem hop)) (Or.inr hne)
  have hfront : s.buffer <+: m.body ++ clientStream (ms.drop (number + 1)) := by
    have hdrop := hclient.drop s.consumed
    rw [← hbuffer, hconsumed, ← List.drop_drop] at hdrop
    unfold clientStream messageStart at hdrop
    rw [Framing.drop_start, hpieces, List.flatten_cons, Message.bytes, List.append_assoc,
      List.drop_left] at hdrop
    exact hdrop
  obtain ⟨more, hmore⟩ := hfront
  rw [← List.take_append_of_le_length harrived, hmore, ← m.body_length, List.take_left]

end Session

end ServerAsync
