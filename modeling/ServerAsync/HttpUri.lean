import ServerAsync.HttpCopier
import ServerAsync.Misc.Percent

/-!
# What `http_copier` makes of a request's target

An `http` URI, as the target of a proxy request has it, and the origin-form and the
`Host` value that stand for it in a request to its host. `start` takes `path()`,
`query()` and `host()` of the URI, which are decoded, and no port: that is the same
only for URIs without anything encoded.
-/

namespace ServerAsync

open Misc

/-- `unreserved` and `sub-delims`, the characters of a registered name. -/
def regNameChar (c : Char) : Bool := c.isAlphanum || "-._~!$&'()*+,;=".toList.contains c

def pathChar (c : Char) : Bool := regNameChar c || ":@/".toList.contains c

def queryChar (c : Char) : Bool := pathChar c || c == '?'

/-- The characters of an address in brackets. -/
def literalChar (c : Char) : Bool := (Percent.hexValue c).isSome || ":.[]".toList.contains c

/-- A registered name, an IPv4 address, or an address in brackets. -/
def isHost (h : Text) : Bool :=
  Percent.wellEncoded regNameChar h ||
    (h.head? == some '[' && h.getLast? == some ']' && h.all literalChar)

/-- An `http` URI: a host, an optional port, a path, and an optional query, as they
are written. -/
structure HttpUri where
  host : Text
  port : Option Text
  path : Text
  query : Option Text
  host_ok : host ≠ [] ∧ isHost host = true
  port_ok : ∀ p ∈ port, p.all Char.isDigit = true
  path_ok : Percent.wellEncoded pathChar path = true ∧ (path = [] ∨ path.head? = some '/')
  query_ok : ∀ q ∈ query, Percent.wellEncoded queryChar q = true

namespace HttpUri

def portText (u : HttpUri) : Text :=
  match u.port with
  | none => []
  | some p => ':' :: p

def queryText (u : HttpUri) : Text :=
  match u.query with
  | none => []
  | some q => '?' :: q

/-- The URI as it is written. -/
def text (u : HttpUri) : Text := "http://".toList ++ u.host ++ u.portText ++ u.path ++ u.queryText

/-- The components that a `url_view` of the URI gives, decoded. In a query a plus stands for a
space. -/
def view (u : HttpUri) : UrlView where
  host := Percent.decode u.host
  port := u.port.getD []
  path := Percent.decode u.path
  query := (u.query.map Percent.decodePlus).getD []

/-- The URI's origin-form: its path, a slash when that is empty, and its query. -/
def originForm (u : HttpUri) : Text := (if u.path = [] then ['/'] else u.path) ++ u.queryText

/-- The value of a `Host` field: the host, with the port when one is given. -/
def hostPort (u : HttpUri) : Text :=
  if u.port.getD [] = [] then u.host else u.host ++ u.portText

/-- A request for the URI: its target is the origin-form, of characters that may
stand in a URI, and its `Host` field names host and port. -/
def RequestFor (u : HttpUri) (req : Request) : Prop :=
  req.target = u.originForm ∧ (∀ c ∈ req.target, uriCharacter c = true) ∧
    req.get .host = u.hostPort

/-- A URI with a path and without anything encoded, an empty query, a plus in its query, or a
port. -/
def Plain (u : HttpUri) : Prop :=
  u.path ≠ [] ∧ '%' ∉ u.path ∧ u.query ≠ some [] ∧ (∀ q ∈ u.query, '%' ∉ q ∧ '+' ∉ q) ∧
    '%' ∉ u.host ∧ u.port.getD [] = []

/-! ## Decoded components -/

theorem queryChar_uriCharacter {c : Char} (h : queryChar c = true) : uriCharacter c = true := by
  have hsub : ∀ a b : List Char, a.all b.contains = true → ∀ c ∈ a, c ∈ b := by
    intro a b hall c hc
    exact List.contains_iff_mem.mp (List.all_eq_true.mp hall c hc)
  simp only [queryChar, pathChar, regNameChar, uriCharacter, Bool.or_eq_true, beq_iff_eq,
    List.contains_iff_mem] at h ⊢
  rcases h with ((halnum | hname) | hpath) | rfl
  · exact Or.inl halnum
  · exact Or.inr (hsub _ _ (by decide) c hname)
  · exact Or.inr (hsub _ _ (by decide) c hpath)
  · right
    decide

/-- The characters of a well-encoded path or query may stand in a URI. -/
theorem encoded_uriCharacter {allowed : Char → Bool} {t : Text}
    (hallowed : ∀ c, allowed c = true → queryChar c = true)
    (hwell : Percent.wellEncoded allowed t = true) : ∀ c ∈ t, uriCharacter c = true := by
  intro c hc
  rcases Percent.mem_wellEncoded hwell hc with hchar | rfl | hhex
  · exact queryChar_uriCharacter (hallowed c hchar)
  · decide
  · unfold uriCharacter
    rw [Percent.isAlphanum_of_hexValue hhex, Bool.true_or]

theorem originForm_uriCharacter (u : HttpUri) : ∀ c ∈ u.originForm, uriCharacter c = true := by
  intro c hc
  have hpath := encoded_uriCharacter (t := u.path)
    (fun c h => by simp [queryChar, h]) u.path_ok.1
  unfold originForm at hc
  rcases List.mem_append.mp hc with hc | hc
  · split at hc
    · rw [List.mem_singleton] at hc
      rw [hc]
      decide
    · exact hpath c hc
  · unfold queryText at hc
    cases hquery : u.query with
    | none =>
      rw [hquery] at hc
      cases hc
    | some q =>
      rw [hquery] at hc
      rcases List.mem_cons.mp hc with rfl | hc
      · decide
      · exact encoded_uriCharacter (fun _ h => h) (u.query_ok q hquery) c hc

/-- A host keeps its length when it is decoded exactly when nothing is encoded in
it. -/
theorem length_decode_host (u : HttpUri) :
    (Percent.decode u.host).length = u.host.length ↔ '%' ∉ u.host := by
  have hhost := u.host_ok.2
  unfold isHost at hhost
  rcases Bool.or_eq_true _ _ ▸ hhost with hname | hliteral
  · exact Percent.length_decode_eq_iff hname
  · have hnone : '%' ∉ u.host := by
      intro hmem
      simp only [Bool.and_eq_true, List.all_eq_true] at hliteral
      exact absurd (hliteral.2 _ hmem) (by decide)
    rw [Percent.decode_of_notMem hnone]
    exact ⟨fun _ => hnone, fun _ => rfl⟩

/-- The length of the target that `send_parsed_request` sends. -/
theorem length_target (u : HttpUri) (req : Request) :
    (HttpCopier.rewrite u.view req).target.length = (Percent.decode u.path).length +
      match u.query with
      | none => 0
      | some q => if Percent.decodePlus q = [] then 0 else (Percent.decodePlus q).length + 1 := by
  cases hquery : u.query with
  | none => simp [HttpCopier.rewrite, view, hquery]
  | some q =>
    by_cases hempty : Percent.decodePlus q = []
    · simp [HttpCopier.rewrite, view, hquery, hempty]
    · simp only [HttpCopier.rewrite, view, hquery, Option.map_some, Option.getD_some, hempty, ne_eq,
        not_false_eq_true, if_true, if_false, List.length_append, List.length_singleton]
      omega

theorem length_originForm (u : HttpUri) :
    u.originForm.length = (if u.path = [] then 1 else u.path.length) +
      match u.query with
      | none => 0
      | some q => q.length + 1 := by
  unfold originForm queryText
  rw [List.length_append, apply_ite List.length]
  cases u.query <;> rfl

/-- The decoded path and query are the origin-form exactly when the path is there,
nothing is encoded, and the query is not empty and without a plus. -/
theorem target_eq_iff (u : HttpUri) (req : Request) :
    (HttpCopier.rewrite u.view req).target = u.originForm ↔
      u.path ≠ [] ∧ '%' ∉ u.path ∧ u.query ≠ some [] ∧ ∀ q ∈ u.query, '%' ∉ q ∧ '+' ∉ q := by
  have hpath := Percent.length_decode_eq_iff u.path_ok.1
  have hpathLe := Percent.length_decode_le u.path
  constructor
  · -- decoding only takes characters away, so that equal lengths leave nothing encoded
    intro heq
    have hlen := congrArg List.length heq
    rw [length_target, length_originForm] at hlen
    have hne : u.path ≠ [] := by
      intro hnil
      rw [hnil, List.length_nil] at hpathLe
      rw [hnil, if_pos rfl] at hlen
      cases hquery : u.query with
      | none =>
        simp only [hquery] at hlen
        omega
      | some q =>
        have hqLe := Percent.length_decodePlus_le q
        simp only [hquery] at hlen
        split at hlen <;> omega
    rw [if_neg hne] at hlen
    cases hquery : u.query with
    | none =>
      simp only [hquery] at hlen
      exact ⟨hne, hpath.mp hlen, by simp, by simp⟩
    | some q =>
      have hqLe := Percent.length_decodePlus_le q
      simp only [hquery] at hlen
      split at hlen
      · omega
      · rename_i hempty
        have hplain : '%' ∉ u.path := hpath.mp (by omega)
        have hq : '%' ∉ q :=
          Percent.notMem_of_length_decodePlus (u.query_ok q hquery) (by omega)
        refine ⟨hne, hplain, ?_, ?_⟩
        · intro hsome
          cases Option.some.inj hsome
          exact hempty rfl
        · intro q' hq'
          cases hq'
          refine ⟨hq, (Percent.decodePlus_eq_iff hq).mp ?_⟩
          simpa [HttpCopier.rewrite, view, originForm, queryText, hne, hquery, hempty,
            Percent.decode_of_notMem hplain] using heq
  · rintro ⟨hne, hplain, hsome, hqplain⟩
    simp only [HttpCopier.rewrite, view, originForm, queryText, hne, if_false,
      Percent.decode_of_notMem hplain]
    cases hquery : u.query with
    | none => simp
    | some q =>
      have hqne : q ≠ [] := by
        rintro rfl
        exact hsome hquery
      obtain ⟨hq, hplus⟩ := hqplain q hquery
      simp [(Percent.decodePlus_eq_iff hq).mpr hplus, hqne]

theorem host_eq_iff (u : HttpUri) (req : Request) :
    (HttpCopier.rewrite u.view req).get .host = u.hostPort ↔
      '%' ∉ u.host ∧ u.port.getD [] = [] := by
  have hget : (HttpCopier.rewrite u.view req).get .host = Percent.decode u.host :=
    req.get_set_self .host (Percent.decode u.host)
  have hle := Percent.length_decode_le u.host
  rw [hget, ← length_decode_host]
  unfold hostPort
  by_cases hport : u.port.getD [] = []
  · rw [if_pos hport]
    constructor
    · intro heq
      exact ⟨congrArg List.length heq, hport⟩
    · rintro ⟨hlen, -⟩
      exact Percent.decode_of_notMem (u.length_decode_host.mp hlen)
  · rw [if_neg hport]
    constructor
    · intro heq
      have hlen := congrArg List.length heq
      cases hp : u.port with
      | none => exact absurd (by rw [hp]; rfl) hport
      | some p =>
        rw [List.length_append, portText, hp, List.length_cons] at hlen
        omega
    · rintro ⟨-, hnil⟩
      exact absurd hnil hport

/-- `start` rewrites the request, and no step changes it afterwards. -/
theorem req_of_run {urls : BoostUrl} {beast : Beast} {url : UrlView} {req : Request}
    {maxLength : Nat} {buffer : Text} {c c' : Copier} {es : List HttpCopierEvent}
    (hview : urls.urlView req.target = some url)
    (hstart : HttpCopier.start urls (HttpCopier.new maxLength req buffer) = .ok c)
    (hrun : (HttpCopier.machine beast).run c es = some c') :
    c'.req = HttpCopier.rewrite url req := by
  obtain ⟨-, hsame, -⟩ := HttpCopier.inv_run (HttpCopier.inv_start hstart) hrun
  rw [hsame, HttpCopier.start_eq_ok hview hstart]
  rfl

/-- In every run, the request that `send_parsed_request` sends is a request for the
URI that was asked for exactly when the URI is plain. -/
theorem requestFor_iff {urls : BoostUrl} {beast : Beast} {u : HttpUri} {req : Request}
    {maxLength : Nat} {buffer : Text} {c c' : Copier} {es : List HttpCopierEvent}
    (hview : urls.urlView u.text = some u.view) (htarget : req.target = u.text)
    (hstart : HttpCopier.start urls (HttpCopier.new maxLength req buffer) = .ok c)
    (hrun : (HttpCopier.machine beast).run c es = some c') : u.RequestFor c'.req ↔ u.Plain := by
  rw [← htarget] at hview
  rw [req_of_run hview hstart hrun]
  have htargetIff := u.target_eq_iff req
  have hhostIff := u.host_eq_iff req
  unfold RequestFor Plain
  constructor
  · rintro ⟨heq, -, hhost⟩
    obtain ⟨hne, hpath, hempty, hquery⟩ := htargetIff.mp heq
    obtain ⟨hplain, hport⟩ := hhostIff.mp hhost
    exact ⟨hne, hpath, hempty, hquery, hplain, hport⟩
  · rintro ⟨hne, hpath, hempty, hquery, hplain, hport⟩
    have heq := htargetIff.mpr ⟨hne, hpath, hempty, hquery⟩
    refine ⟨heq, ?_, hhostIff.mpr ⟨hplain, hport⟩⟩
    rw [heq]
    exact u.originForm_uriCharacter

/-! ## A URL library for `http` URIs -/

/-- A Boost.URL for `http` URIs with a registered name as host. -/
def boostUrl : BoostUrl where
  isUriReference t := t.all uriCharacter
  urlView t :=
    if t.all uriCharacter then
      let rest := (t.dropWhile (· != '/')).drop 2
      let authority := rest.takeWhile fun c => c != '/' && c != '?'
      let more := rest.dropWhile fun c => c != '/' && c != '?'
      some {
        host := Percent.decode (authority.takeWhile (· != ':'))
        port := (authority.dropWhile (· != ':')).drop 1
        path := Percent.decode (more.takeWhile (· != '?'))
        query := Percent.decodePlus ((more.dropWhile (· != '?')).drop 1) }
    else none
  parseOriginForm := BoostUrl.plain.parseOriginForm
  urlView_isSome t := by
    split <;> simp_all
  originForm_slash := BoostUrl.plain.originForm_slash

/-- `http://h/a?b`. -/
def plainUri : HttpUri where
  host := ['h']
  port := none
  path := "/a".toList
  query := some ['b']
  host_ok := by decide
  port_ok := by simp
  path_ok := by decide
  query_ok := by
    intro q hq
    cases hq
    decide

/-- `http://h/%0D%0AX:y`. -/
def encodedUri : HttpUri where
  host := ['h']
  port := none
  path := "/%0D%0AX:y".toList
  query := none
  host_ok := by decide
  port_ok := by simp
  path_ok := by decide
  query_ok := by simp

/-- The request that asks a proxy for a URI. -/
def request (u : HttpUri) : Request := ⟨.get, u.text, 11, []⟩

theorem requestFor_iff_plain : ∃ c,
    HttpCopier.start boostUrl (HttpCopier.new 4096 plainUri.request []) = .ok c ∧
    plainUri.RequestFor c.req := by
  have hview : boostUrl.urlView plainUri.text = some plainUri.view := by decide +kernel
  have hvalid : boostUrl.isUriReference plainUri.text = true := by decide +kernel
  obtain ⟨c, hstart⟩ := HttpCopier.start_ok_iff (c := HttpCopier.new 4096 plainUri.request [])
    |>.mpr hvalid
  have hrun : (HttpCopier.machine (Beast.plain [])).run c [] = some c := rfl
  refine ⟨c, hstart, (requestFor_iff hview rfl hstart hrun).mpr ?_⟩
  refine ⟨by decide, by decide, by decide, ?_, by decide, rfl⟩
  intro q hq
  cases hq
  exact ⟨by decide, by decide⟩

/-- An encoded line break goes out as a line break. -/
theorem target_decoded : ∃ c,
    HttpCopier.start boostUrl (HttpCopier.new 4096 encodedUri.request []) = .ok c ∧
    c.req.target = "/\r\nX:y".toList ∧ ¬ encodedUri.RequestFor c.req := by
  have hview : boostUrl.urlView encodedUri.text = some encodedUri.view := by decide +kernel
  have hvalid : boostUrl.isUriReference encodedUri.text = true := by decide +kernel
  obtain ⟨c, hstart⟩ := HttpCopier.start_ok_iff (c := HttpCopier.new 4096 encodedUri.request [])
    |>.mpr hvalid
  have htarget : c.req.target = "/\r\nX:y".toList := by
    rw [HttpCopier.start_eq_ok hview hstart]
    decide +kernel
  refine ⟨c, hstart, htarget, ?_⟩
  rintro ⟨heq, -, -⟩
  rw [htarget] at heq
  exact absurd heq (by decide)

end HttpUri

end ServerAsync
