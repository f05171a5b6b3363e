import ServerAsync.SocketCopier
import ServerAsync.BoostRelay

/-!
# The authority of a CONNECT request

A CONNECT target is a host and perhaps a port behind a colon. Both programs split it at
the first colon it has, which is the one between host and port unless the host is an
IPv6 literal.
-/

namespace ServerAsync

open Misc

/-! ## Authorities -/

/-- A character of a registered name or an IPv4 address. -/
def nameCharacter (c : Char) : Bool := c.isAlphanum || "-._~%!$&'()*+,;=".toList.contains c

/-- The text of an IPv6 address. -/
def isIpv6 (t : Text) : Bool :=
  decide (2 ≤ t.count ':') &&
    t.all fun c => c.isDigit || "abcdefABCDEF:.".toList.contains c

inductive AuthorityHost where
  /-- A registered name or an IPv4 address. -/
  | name (t : Text) (ok : t.all nameCharacter = true)
  | ipv6 (address : Text) (ok : isIpv6 address = true)

namespace AuthorityHost

/-- The host as it is written in an authority. -/
def text : AuthorityHost → Text
  | .name t _ => t
  | .ipv6 address _ => '[' :: (address ++ [']'])

/-- What a resolver is to be asked for. -/
def denoted : AuthorityHost → Text
  | .name t _ => t
  | .ipv6 address _ => address

def isName : AuthorityHost → Bool
  | .name _ _ => true
  | .ipv6 _ _ => false

end AuthorityHost

/-- A host and, behind a colon, its port, which may be left out or empty. -/
structure Authority where
  host : AuthorityHost
  port : Option Text
  port_ok : ∀ digits ∈ port, digits.all Char.isDigit = true

namespace Authority

def text (a : Authority) : Text :=
  match a.port with
  | none => a.host.text
  | some digits => a.host.text ++ ':' :: digits

/-- The host and port of an authority that has a port. -/
def endpoint (a : Authority) : Option (Text × Text) :=
  match a.port with
  | none => none
  | some digits => if digits = [] then none else some (a.host.denoted, digits)

/-- The host is no IPv6 literal, and there is no colon without a port behind it. -/
def Plain (a : Authority) : Prop := a.host.isName = true ∧ a.port ≠ some []

end Authority

/-! ## The first colon -/

/-- What is in front of the first colon and what is behind it. -/
def splitColon (t : Text) : Option (Text × Text) :=
  if ':' ∈ t then some (t.take (t.find ':'), t.drop (t.find ':' + 1)) else none

theorem splitColon_append {u : Text} (h : ':' ∉ u) (v : Text) :
    splitColon (u ++ ':' :: v) = some (u, v) := by
  have hmem : ':' ∈ u ++ ':' :: v := List.mem_append_right u List.mem_cons_self
  rw [splitColon, if_pos hmem, Text.find_append h, List.take_left, ← List.drop_drop,
    List.drop_left]
  rfl

theorem splitColon_of_notMem {t : Text} (h : ':' ∉ t) : splitColon t = none := if_neg h

theorem name_notMem {t : Text} (h : t.all nameCharacter = true) : ':' ∉ t :=
  Text.notMem_of_all h rfl

/-- The first colon of a text that starts with a bracket is not in front of it. -/
theorem splitColon_bracket {t : Text} (h : ':' ∈ t) : ∃ host port,
    splitColon ('[' :: t) = some ('[' :: host, port) := by
  obtain ⟨host, port, rfl, hnot⟩ := List.eq_append_cons_of_mem h
  refine ⟨host, port, ?_⟩
  rw [← List.cons_append]
  refine splitColon_append ?_ port
  rw [List.mem_cons, not_or]
  exact ⟨by decide, hnot⟩

/-- The first colon of an IPv6 literal is in the address. -/
theorem splitColon_ipv6 {address : Text} (h : isIpv6 address = true) (rest : Text) :
    splitColon ('[' :: (address ++ rest)) ≠ none ∧
      ∀ port, splitColon ('[' :: (address ++ rest)) ≠ some (address, port) := by
  rw [isIpv6, Bool.and_eq_true, decide_eq_true_iff, List.all_eq_true] at h
  obtain ⟨hcolons, haddress⟩ := h
  have hcolon : ':' ∈ address := List.count_pos_iff.mp (by omega)
  obtain ⟨front, back, hsplit⟩ := splitColon_bracket (List.mem_append_left rest hcolon)
  rw [hsplit]
  refine ⟨nofun, ?_⟩
  intro port heq
  rw [Option.some_inj, Prod.mk.injEq] at heq
  cases haddress '[' (heq.1 ▸ List.mem_cons_self)

/-- Splitting at the first colon finds host and port, and no port where there is none, if
and only if the host is no IPv6 literal and the port is not left empty. -/
theorem splitColon_text_iff (a : Authority) : splitColon a.text = a.endpoint ↔ a.Plain := by
  obtain ⟨host, port, hport⟩ := a
  cases host with
  | name t ok =>
    have hnot := name_notMem ok
    cases port with
    | none => exact iff_of_true (splitColon_of_notMem hnot) ⟨rfl, nofun⟩
    | some digits =>
      have hsplit : splitColon (t ++ ':' :: digits) = some (t, digits) :=
        splitColon_append hnot digits
      change splitColon (t ++ ':' :: digits) = (if digits = [] then none else some (t, digits)) ↔ _
      rw [hsplit]
      by_cases hempty : digits = []
      · rw [if_pos hempty]
        exact iff_of_false nofun fun hplain => hplain.2 (congrArg some hempty)
      · rw [if_neg hempty]
        exact iff_of_true rfl ⟨rfl, fun hsome => hempty (Option.some.inj hsome)⟩
  | ipv6 address ok =>
    refine iff_of_false ?_ fun hplain => nomatch hplain.1
    cases port with
    | none => exact (splitColon_ipv6 ok [']']).1
    | some digits =>
      obtain ⟨hnone, hsome⟩ := splitColon_ipv6 ok (']' :: ':' :: digits)
      change splitColon ('[' :: (address ++ [']']) ++ ':' :: digits) ≠
        if digits = [] then none else some (address, digits)
      rw [List.cons_append, List.append_assoc, List.singleton_append]
      by_cases hempty : digits = []
      · rw [if_pos hempty]
        exact hnone
      · rw [if_neg hempty]
        exact hsome digits

/-! ## What the programs resolve -/

/-- A copier that resolves this host and port, if there are any. -/
def resolving (c : Copier) : Option (Text × Text) → Copier
  | none => c
  | some target => c.begin (.asyncResolve target.1 target.2)

/-- `socket_copier::start` splits the target at its first colon. -/
theorem start_eq_splitColon {c : Copier} (hlen : c.req.target.length < 2 ^ 31) :
    SocketCopier.start c = .ok (resolving c (splitColon c.req.target)) := by
  by_cases hcolon : ':' ∈ c.req.target
  · rw [SocketCopier.start_of_mem hlen hcolon, splitColon, if_pos hcolon]
    rfl
  · rw [SocketCopier.start_of_notMem hcolon, splitColon, if_neg hcolon]
    rfl

/-- What a copier resolves can be read off its operations. -/
theorem resolving_inj {c : Copier} (hops : c.ops = []) {e e' : Option (Text × Text)} :
    resolving c e = resolving c e' ↔ e = e' := by
  constructor
  · intro heq
    have hsame := congrArg Copier.ops heq
    cases e with
    | none =>
      cases e' with
      | none => rfl
      | some target' => simp [resolving, Copier.begin, hops] at hsame
    | some target =>
      cases e' with
      | none => simp [resolving, Copier.begin, hops] at hsame
      | some target' =>
        simp only [resolving, Copier.begin, hops, List.nil_append, List.cons.injEq,
          CopierOp.asyncResolve.injEq, and_true] at hsame
        rw [Option.some_inj]
        exact Prod.ext hsame.1 hsame.2
  · rintro rfl
    rfl

/-- What a connection resolves. -/
def RelayAction.resolved : RelayAction → Option (Text × Text)
  | .resolve host port => some (host, port)
  | .toServer _ => none
  | .toClient _ => none
  | .relayData => none

namespace BoostRelay

/-- The CONNECT branch splits the target at its first colon. -/
theorem connectTarget_eq_splitColon {target : Text} (hlen : target.length ≤ headerLimit) :
    connectTarget target = splitColon target := by
  have hlimit : headerLimit < Text.npos := by decide
  rw [connectTarget, splitColon]
  by_cases hcolon : ':' ∈ target
  · have hfind := Text.find_of_mem hcolon
    have hne : target.find ':' ≠ Text.npos := by omega
    have hnpos : target.length ≤ Text.npos := by omega
    rw [if_pos hcolon, if_neg hne, Text.substr_ok (Nat.zero_le _),
      Text.substr_npos hfind hnpos, List.drop_zero]
    rfl
  · rw [if_neg hcolon]
    exact if_pos (Text.find_of_notMem hcolon)

/-- Nothing but the target is resolved. -/
theorem resolved_handleConnect (lib : RelayLib) (net : Network) (req : Request) :
    (handleConnect lib net req).filterMap RelayAction.resolved =
      (connectTarget req.target).toList := by
  rw [handleConnect]
  cases htarget : connectTarget req.target with
  | none => rfl
  | some target =>
    dsimp only
    cases hnet : net target.1 target.2 with
    | none => rfl
    | some server => rfl

/-- A request that has been read fits in a header. -/
theorem target_le_of_read {lib : RelayLib} {client : Incoming} {taken : Taken Char Request}
    (hread : client.read lib.request [] = some taken) :
    taken.message.target.length ≤ headerLimit := by
  have hfirst := MessageParser.read_message (p := lib.request) client.ends client.pieces []
  rw [show lib.request.read client.ends client.pieces [] = some taken from hread, Option.map_some,
    List.nil_append, MessageParser.first] at hfirst
  cases hparse : lib.request.parse client.pieces.flatten with
  | needMore =>
    rw [hparse, lib.request_atEnd, ite_self] at hfirst
    cases hfirst
  | done message used =>
    rw [hparse] at hfirst
    rw [Option.some.inj hfirst]
    exact lib.target_le _ _ _ hparse
  | failed =>
    rw [hparse] at hfirst
    cases hfirst

end BoostRelay

/-- For a CONNECT request to an authority, `socket_copier` resolves its host and port, and
nothing when it has no port, if and only if the host is no IPv6 literal and the port is
not left empty. The same holds for `boost_relay`. -/
theorem connect_authority_iff {beast : Beast} {t : Text} {req : Request} {bytes : Nat}
    (hparse : beast.parseHeader t = .done req bytes) {lib : RelayLib} {client : Incoming}
    {taken : Taken Char Request} (hread : client.read lib.request [] = some taken)
    (hconnect : taken.message.method = .connect) (a : Authority) (htarget : req.target = a.text)
    (htaken : taken.message.target = a.text) (maxLength : Nat) (buffer : Text) (net : Network) :
    (SocketCopier.start (SocketCopier.new maxLength buffer req) =
        .ok (resolving (SocketCopier.new maxLength buffer req) a.endpoint) ↔ a.Plain) ∧
      ((BoostRelay.handleConnection lib net client).filterMap RelayAction.resolved =
        a.endpoint.toList ↔ a.Plain) := by
  constructor
  · have hlimit : headerLimit < 2 ^ 31 := by decide
    have hlen := beast.target_le t req bytes hparse
    rw [start_eq_splitColon (show req.target.length < 2 ^ 31 by omega), Except.ok.injEq,
      resolving_inj rfl, ← splitColon_text_iff a, ← htarget]
    rfl
  · have hhandle : BoostRelay.handleConnection lib net client =
        BoostRelay.handleConnect lib net taken.message := by
      rw [BoostRelay.handleConnection, hread]
      exact if_pos hconnect
    rw [hhandle, BoostRelay.resolved_handleConnect,
      BoostRelay.connectTarget_eq_splitColon (BoostRelay.target_le_of_read hread), htaken,
      ← splitColon_text_iff a]
    exact BoostRelay.toList_inj

/-- The CONNECT request to a target. -/
def connectRequest (target : Text) : Request := ⟨.connect, target, 11, []⟩

/-- A name and a port. -/
def namedAuthority : Authority := ⟨.name ['a'] rfl, some "443".toList, by simp⟩

theorem connect_authority_iff_named :
    (SocketCopier.start (SocketCopier.new 1 [] (connectRequest "a:443".toList)) =
        .ok (resolving (SocketCopier.new 1 [] (connectRequest "a:443".toList))
          namedAuthority.endpoint) ↔ namedAuthority.Plain) ∧
      ((BoostRelay.handleConnection (.plain [connectRequest "a:443".toList]) (fun _ _ => none)
          ⟨[(connectRequest "a:443".toList).text], false⟩).filterMap RelayAction.resolved =
        namedAuthority.endpoint.toList ↔ namedAuthority.Plain) :=
  have hparse : (Beast.plain [connectRequest "a:443".toList]).parseHeader
      (connectRequest "a:443".toList).text =
        .done (connectRequest "a:443".toList) (connectRequest "a:443".toList).text.length := by
    decide +kernel
  have hread : Incoming.read (RelayLib.plain [connectRequest "a:443".toList]).request
      ⟨[(connectRequest "a:443".toList).text], false⟩ [] =
        some ⟨connectRequest "a:443".toList, [], []⟩ := by
    decide +kernel
  connect_authority_iff hparse hread rfl namedAuthority rfl rfl 1 [] (fun _ _ => none)

/-- The loopback address and a port. -/
def loopbackAuthority : Authority := ⟨.ipv6 "::1".toList rfl, some "443".toList, by simp⟩

/-- An IPv6 literal is cut at the first colon of the address, by both programs. -/
theorem connect_authority_loopback :
    loopbackAuthority.text = "[::1]:443".toList ∧
      loopbackAuthority.endpoint = some ("::1".toList, "443".toList) ∧
      SocketCopier.start (SocketCopier.new 1 [] (connectRequest "[::1]:443".toList)) =
        .ok (resolving (SocketCopier.new 1 [] (connectRequest "[::1]:443".toList))
          (some (['['], ":1]:443".toList))) ∧
      (BoostRelay.handleConnection (.plain [connectRequest "[::1]:443".toList]) (fun _ _ => none)
          ⟨[(connectRequest "[::1]:443".toList).text], false⟩).filterMap RelayAction.resolved =
        [(['['], ":1]:443".toList)] := by
  refine ⟨rfl, rfl, start_eq_splitColon (by decide), ?_⟩
  decide +kernel

end ServerAsync
