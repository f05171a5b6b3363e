import ServerAsync.ConnectAuthority

/-!
# The URL of a GET request to `boost_relay`

`handle_connection` takes what is between the two slashes of the target and the next
slash for the host, asks for it at port 80, and forwards what starts at that slash.
-/

namespace ServerAsync

open Misc

/-- A character of a host. -/
def hostCharacter (c : Char) : Bool := c != ':' && c != '/' && c != '?'

/-- A URL with the scheme `http`. -/
structure RelayUrl where
  scheme : Text
  host : Text
  port : Option Text
  path : Text
  query : Option Text
  scheme_ok : scheme.map Char.toLower = "http".toList
  host_ok : host ≠ [] ∧ host.all hostCharacter = true
  port_ok : (port.getD []).all Char.isDigit = true
  path_ok : (path = [] ∨ path.head? = some '/') ∧ '?' ∉ path

namespace RelayUrl

def portText (u : RelayUrl) : Text :=
  match u.port with
  | none => []
  | some digits => ':' :: digits

def queryText (u : RelayUrl) : Text :=
  match u.query with
  | none => []
  | some q => '?' :: q

/-- What follows the two slashes. -/
def rest (u : RelayUrl) : Text := u.host ++ (u.portText ++ (u.path ++ u.queryText))

/-- The URL as it is written. -/
def text (u : RelayUrl) : Text := u.scheme ++ "://".toList ++ u.rest

/-- The port of the server, 80 when none is given. -/
def serverPort (u : RelayUrl) : Text :=
  if u.port.getD [] = [] then "80".toList else u.port.getD []

/-- The path, a slash when that is empty, and the query. -/
def originForm (u : RelayUrl) : Text := (if u.path = [] then ['/'] else u.path) ++ u.queryText

/-- The scheme is in lower case, no port is given, and the path is not left out. -/
def Plain (u : RelayUrl) : Prop := u.scheme = "http".toList ∧ u.port = none ∧ u.path ≠ []

end RelayUrl

/-- What an action sends to a server. -/
def RelayAction.sent : RelayAction → Option Text
  | .resolve _ _ => none
  | .toServer bytes => some bytes
  | .toClient _ => none
  | .relayData => none

namespace BoostRelay

/-- A connection resolves this host and port and nothing else, and when they are there it
sends one request, a GET of this target. -/
def Fetches (lib : RelayLib) (net : Network) (client : Incoming) (host port target : Text) :
    Prop :=
  (handleConnection lib net client).filterMap RelayAction.resolved = [(host, port)] ∧
    ∃ forwarded : Request, forwarded.method = .get ∧ forwarded.target = target ∧
      (handleConnection lib net client).filterMap RelayAction.sent =
        if (net host port).isSome then [lib.serializeRequest forwarded] else []

/-! ## Where the target is cut -/

theorem findText_eq_zero_iff {t needle : Text} : t.findText needle = 0 ↔ needle <+: t := by
  rw [Text.findText, ← List.isPrefixOf_iff_prefix]
  have hnpos : Text.npos ≠ 0 := by decide
  cases t with
  | nil =>
    rw [List.tails, List.findIdx?_cons, List.findIdx?_nil]
    cases needle.isPrefixOf [] with
    | true => exact iff_of_true rfl rfl
    | false => exact iff_of_false hnpos Bool.false_ne_true
  | cons c t =>
    rw [List.tails, List.findIdx?_cons]
    cases needle.isPrefixOf (c :: t) with
    | true => exact iff_of_true rfl rfl
    | false =>
      refine iff_of_false ?_ Bool.false_ne_true
      cases t.tails.findIdx? fun rest => needle.isPrefixOf rest with
      | none => exact hnpos
      | some i => exact Nat.succ_ne_zero i

/-- The text up to its first slash, and the text from there on. -/
def splitSlash (t : Text) : Option (Text × Text) :=
  if '/' ∈ t then some (t.take (t.find '/'), t.drop (t.find '/')) else none

theorem splitSlash_append {u : Text} (h : '/' ∉ u) (v : Text) :
    splitSlash (u ++ '/' :: v) = some (u, '/' :: v) := by
  have hmem : '/' ∈ u ++ '/' :: v := List.mem_append_right u List.mem_cons_self
  rw [splitSlash, if_pos hmem, Text.find_append h, List.take_left, List.drop_left]

/-- Host and path are cut at the first slash behind the two; without one the code
throws. -/
theorem getTarget_http {rest : Text}
    (hlen : ("http://".toList ++ rest).length ≤ headerLimit) :
    getTarget ("http://".toList ++ rest) = splitSlash rest := by
  have hstart : Text.findText ("http://".toList ++ rest) "//".toList = 5 := rfl
  have hdrop : ("http://".toList ++ rest).drop 7 = rest := rfl
  have hlimit : headerLimit < Text.npos := by decide
  have hlength : ("http://".toList ++ rest).length = 7 + rest.length := List.length_append
  rw [getTarget, hstart, Text.findFrom, hdrop, Text.substr_ok (by omega), hdrop]
  by_cases hslash : '/' ∈ rest
  · obtain ⟨front, back, rfl, hfront⟩ := List.eq_append_cons_of_mem hslash
    have hidx : (front ++ '/' :: back).findIdx? (· == '/') = some front.length := by
      rw [List.findIdx?_append, Text.findIdx?_of_notMem hfront, List.findIdx?_cons,
        beq_self_eq_true]
      simp
    have hfront_le : front.length ≤ (front ++ '/' :: back).length := by
      rw [List.length_append]
      exact Nat.le_add_right _ _
    rw [splitSlash_append hfront, hidx, Option.map_some, Option.getD_some, Nat.add_sub_cancel_left,
      List.take_left, Text.substr_npos (by omega) (by omega), ← List.drop_drop, hdrop,
      List.drop_left]
    rfl
  · rw [Text.findIdx?_of_notMem hslash, splitSlash, if_neg hslash, Option.map_none,
      Option.getD_none, Text.substr, if_neg (by omega)]
    rfl

theorem scheme_length (u : RelayUrl) : u.scheme.length = 4 := by
  have hlength := congrArg List.length u.scheme_ok
  rwa [List.length_map] at hlength

/-- A URL is taken for one of these if its scheme is in lower case. -/
theorem proxied_iff (u : RelayUrl) :
    (u.text.findText "http://".toList = 0 ∨ u.text.findText "https://".toList = 0) ↔
      u.scheme = "http".toList := by
  have hlength := scheme_length u
  rw [findText_eq_zero_iff, findText_eq_zero_iff, RelayUrl.text, List.append_assoc]
  constructor
  · rintro (⟨more, heq⟩ | ⟨more, heq⟩)
    · change "http".toList ++ ("://".toList ++ more) = _ at heq
      exact (List.append_inj_left heq hlength.symm).symm
    · change "http".toList ++ ("s://".toList ++ more) = _ at heq
      cases List.append_inj_right heq hlength.symm
  · intro hscheme
    rw [hscheme]
    exact Or.inl ⟨u.rest, rfl⟩

/-! ## What is fetched -/

/-- What is resolved for a request, and what is sent to the server that is there. -/
theorem fetched_handleGet (lib : RelayLib) (net : Network) {req : Request} {host path : Text}
    (htarget : Proxied req host path) (buffer : Text) :
    (handleGet lib net req buffer).filterMap RelayAction.resolved = [(host, "80".toList)] ∧
      (handleGet lib net req buffer).filterMap RelayAction.sent =
        if (net host "80".toList).isSome then [lib.serializeRequest (forwardReq req host path)]
        else [] := by
  cases hserver : net host "80".toList with
  | none =>
    rw [handleGet_of_none htarget hserver]
    exact ⟨rfl, rfl⟩
  | some server =>
    rw [handleGet_of_some htarget hserver]
    cases (server _).read lib.response buffer with
    | none => exact ⟨rfl, rfl⟩
    | some answer => exact ⟨rfl, rfl⟩

/-- Something is resolved only if the target can be cut. -/
theorem resolved_handleGet (lib : RelayLib) (net : Network) {req : Request}
    (hproxy : req.target.findText "http://".toList = 0 ∨
      req.target.findText "https://".toList = 0) (buffer : Text) :
    (handleGet lib net req buffer).filterMap RelayAction.resolved =
      ((getTarget req.target).map fun target => (target.1, "80".toList)).toList := by
  cases htarget : getTarget req.target with
  | none =>
    rw [handleGet, if_pos hproxy, htarget]
    rfl
  | some target => exact (fetched_handleGet lib net ⟨hproxy, htarget⟩ buffer).1

/-- Nothing comes between the host and the path: they are cut there. -/
theorem splitSlash_rest {u : RelayUrl} (hport : u.port = none) (hpath : u.path ≠ []) :
    splitSlash u.rest = some (u.host, u.originForm) := by
  have hhost : '/' ∉ u.host := Text.notMem_of_all u.host_ok.2 rfl
  obtain ⟨more, hmore⟩ := List.head?_eq_some_iff.mp (u.path_ok.1.resolve_left hpath)
  have hrest : u.rest = u.host ++ '/' :: (more ++ u.queryText) := by
    rw [RelayUrl.rest, RelayUrl.portText, hport, hmore]
    rfl
  rw [hrest, splitSlash_append hhost, RelayUrl.originForm, if_neg hpath, hmore]
  rfl

/-- Only then is the host what is in front of the first slash. -/
theorem of_splitSlash_rest {u : RelayUrl} {path : Text}
    (h : splitSlash u.rest = some (u.host, path)) : u.port = none ∧ u.path ≠ [] := by
  by_cases hslash : '/' ∈ u.rest
  · obtain ⟨front, back, hrest, hfront⟩ := List.eq_append_cons_of_mem hslash
    rw [hrest, splitSlash_append hfront, Option.some_inj, Prod.mk.injEq] at h
    rw [RelayUrl.rest, h.1] at hrest
    have hback := List.append_cancel_left hrest
    cases hport : u.port with
    | some digits =>
      rw [RelayUrl.portText, hport] at hback
      exact absurd (List.head_eq_of_cons_eq hback) (by decide)
    | none =>
      refine ⟨rfl, ?_⟩
      intro hpath
      rw [RelayUrl.portText, hport, hpath, RelayUrl.queryText] at hback
      cases hquery : u.query with
      | none =>
        rw [hquery] at hback
        cases hback
      | some q =>
        rw [hquery] at hback
        exact absurd (List.head_eq_of_cons_eq hback) (by decide)
  · rw [splitSlash, if_neg hslash] at h
    cases h

/-- A GET request for a URL has its host resolved, at its port, and its path and query
forwarded to that server, if and only if the scheme is in lower case, no port is given and
the path is not left out. -/
theorem fetches_iff {lib : RelayLib} {client : Incoming} {taken : Taken Char Request}
    (hread : client.read lib.request [] = some taken) (hget : taken.message.method = .get)
    (u : RelayUrl) (htarget : taken.message.target = u.text) :
    (∀ net, Fetches lib net client u.host u.serverPort u.originForm) ↔ u.Plain := by
  have hcut : u.scheme = "http".toList → getTarget taken.message.target = splitSlash u.rest := by
    intro hscheme
    have htext : u.text = "http://".toList ++ u.rest := by
      rw [RelayUrl.text, hscheme]
      rfl
    have hlen := target_le_of_read hread
    rw [htarget, htext] at hlen ⊢
    exact getTarget_http hlen
  have hproxied := proxied_iff u
  rw [← htarget] at hproxied
  constructor
  · intro hall
    have hresolved := (hall fun _ _ => none).1
    rw [handleConnection_get hread hget] at hresolved
    by_cases hscheme : u.scheme = "http".toList
    · rw [resolved_handleGet lib _ (hproxied.mpr hscheme), hcut hscheme] at hresolved
      refine ⟨hscheme, ?_⟩
      cases hsplit : splitSlash u.rest with
      | none =>
        rw [hsplit] at hresolved
        cases hresolved
      | some target =>
        obtain ⟨host, path⟩ := target
        rw [hsplit] at hresolved
        have hhost : host = u.host := (Prod.mk.inj (List.head_eq_of_cons_eq hresolved)).1
        rw [hhost] at hsplit
        exact of_splitSlash_rest hsplit
    · rw [handleGet, if_neg (mt hproxied.mp hscheme)] at hresolved
      cases hresolved
  · rintro ⟨hscheme, hport, hpath⟩ net
    have hserver : u.serverPort = "80".toList := by
      rw [RelayUrl.serverPort, hport]
      rfl
    have hproxy := hproxied.mpr hscheme
    have htaken := (hcut hscheme).trans (splitSlash_rest hport hpath)
    rw [hserver, Fetches, handleConnection_get hread hget]
    obtain ⟨hresolved, hsent⟩ := fetched_handleGet lib net ⟨hproxy, htaken⟩ taken.left
    exact ⟨hresolved, forwardReq taken.message u.host u.originForm, rfl, rfl, hsent⟩

/-- The GET request for a target. -/
def getRequest (target : Text) : Request := ⟨.get, target, 11, []⟩

/-- A URL with two slashes in its query. -/
def searchUrl : RelayUrl where
  scheme := "http".toList
  host := "a".toList
  port := none
  path := "/b".toList
  query := some "u=http://c/".toList
  scheme_ok := rfl
  host_ok := by decide
  port_ok := rfl
  path_ok := by decide

theorem fetches_iff_search :
    (∀ net, Fetches (.plain [getRequest searchUrl.text]) net
        ⟨[(getRequest searchUrl.text).text], false⟩ "a".toList "80".toList
        "/b?u=http://c/".toList) ↔ searchUrl.Plain :=
  have hread : Incoming.read (RelayLib.plain [getRequest searchUrl.text]).request
      ⟨[(getRequest searchUrl.text).text], false⟩ [] =
        some ⟨getRequest searchUrl.text, [], []⟩ := by
    decide +kernel
  fetches_iff hread rfl searchUrl rfl

/-- A URL with a port. -/
def portUrl : RelayUrl where
  scheme := "http".toList
  host := "a".toList
  port := some "8080".toList
  path := "/".toList
  query := none
  scheme_ok := rfl
  host_ok := by decide
  port_ok := rfl
  path_ok := by decide

/-- A port is taken for a part of the host, and without a path nothing is resolved. -/
theorem fetches_port :
    portUrl.text = "http://a:8080/".toList ∧
      handleConnection (.plain [getRequest portUrl.text]) (fun _ _ => none)
        ⟨[(getRequest portUrl.text).text], false⟩ =
          [.resolve "a:8080".toList "80".toList] ∧
      ¬ Fetches (.plain [getRequest portUrl.text]) (fun _ _ => none)
        ⟨[(getRequest portUrl.text).text], false⟩ "a".toList "8080".toList "/".toList ∧
      handleConnection (.plain [getRequest "http://a".toList]) (fun _ _ => none)
        ⟨[(getRequest "http://a".toList).text], false⟩ = [] := by
  have hport : handleConnection (.plain [getRequest portUrl.text]) (fun _ _ => none)
      ⟨[(getRequest portUrl.text).text], false⟩ = [.resolve "a:8080".toList "80".toList] := by
    decide +kernel
  refine ⟨rfl, hport, ?_, by decide +kernel⟩
  intro h
  have hresolved := h.1
  rw [hport] at hresolved
  exact absurd hresolved (by decide)

end BoostRelay

end ServerAsync
