import ServerAsync.Text
import Mathlib.Data.List.Infix

/-!
# HTTP messages and the Boost libraries

The parts of `boost::beast::http` messages that the server reads and sets, and
the functions it calls in Boost.Beast and Boost.URL. Those libraries are not part
of the repository: `Beast` and `BoostUrl` are what the server gets from them,
with what their documentation promises as fields. `Beast.plain` and
`BoostUrl.plain` behave as documented on plain requests, so that the definitions
over them can be evaluated.
-/

namespace ServerAsync

/-- `http::verb`, as far as the server tells methods apart. -/
inductive Verb where
  | get
  | head
  | post
  | put
  | connect
  | other (name : Text)
  deriving DecidableEq, Repr

/-- `http::field`, as far as the server reads or sets fields. -/
inductive Field where
  | connection
  | contentLength
  | contentType
  | host
  | server
  | upgrade
  | other (name : Text)
  deriving DecidableEq, Repr

/-- `http::request<http::empty_body>`: a request header. `version` is 10 or 11. -/
structure Request where
  method : Verb
  target : Text
  version : Nat
  fields : List (Field × Text)
  deriving DecidableEq, Repr

/-- `operator[]`: the value of the first field with the name, empty without one. -/
def Request.get (r : Request) (name : Field) : Text :=
  ((r.fields.find? fun f => f.1 == name).map Prod.snd).getD []

/-- `set`: replace every field with the name by one. -/
def Request.set (r : Request) (name : Field) (value : Text) : Request :=
  { r with fields := (r.fields.filter fun f => f.1 != name) ++ [(name, value)] }

theorem Request.get_set_self (r : Request) (name : Field) (value : Text) :
    (r.set name value).get name = value := by
  have hnone : (r.fields.filter fun f => f.1 != name).find? (fun f => f.1 == name) = none := by
    rw [List.find?_eq_none]
    intro f hf
    simpa using (List.mem_filter.mp hf).2
  simp only [Request.get, Request.set, List.find?_append, hnone]
  simp

theorem Request.get_set_of_ne {r : Request} {name other : Field} (h : other ≠ name) (value : Text) :
    (r.set name value).get other = r.get other := by
  have hlast : [(name, value)].find? (fun f => f.1 == other) = none := by
    simp [Ne.symm h]
  have hkept : (r.fields.filter fun f => f.1 != name).find? (fun f => f.1 == other) =
      r.fields.find? fun f => f.1 == other := by
    rw [List.find?_filter]
    congr 1
    funext f
    by_cases hf : f.1 = other
    · simp [hf, h]
    · simp [hf]
  simp only [Request.get, Request.set, List.find?_append, hlast, hkept, Option.or_none]

/-- `http::status`, the codes the server sends. -/
inductive Status where
  | ok
  | badRequest
  | notFound
  | internalServerError
  deriving DecidableEq, Repr

/-- `http::response`: status line, the fields the handlers set, and the body.
`keepAlive` is what `keep_alive(bool)` set, which `keep_alive()` reads back. -/
structure Response where
  status : Status
  version : Nat
  server : Option Text
  contentType : Option Text
  contentLength : Option Nat
  keepAlive : Bool
  body : Text
  deriving DecidableEq, Repr

/-- What a header parse finds at the front of a buffer. -/
inductive Parse where
  | needMore
  | done (header : Request) (bytes : Nat)
  | failed
  deriving DecidableEq, Repr

/-- The longest header Beast's parser accepts: its default `header_limit`, which
the server leaves as it is. -/
def headerLimit : Nat := 8192

/-- What the server uses of Boost.Beast. -/
structure Beast where
  /-- `websocket::is_upgrade`. -/
  isUpgrade : Request → Bool
  /-- `message::keep_alive()` of a request. -/
  keepAlive : Request → Bool
  /-- The bytes that `async_write` of a request with `empty_body` writes. -/
  serialize : Request → Text
  /-- The header parse of `async_read_header` on what has been received. -/
  parseHeader : Text → Parse
  /-- The declared length of the body that follows a header. -/
  bodyLength : Request → Nat
  /-- `BOOST_BEAST_VERSION_STRING`. -/
  versionString : Text
  /-- A header is not longer than the limit, and its target is part of it. -/
  target_le : ∀ t header bytes, parseHeader t = .done header bytes →
    header.target.length ≤ headerLimit
  /-- A complete header is what the parser consumed, at least a byte. -/
  bytes_le : ∀ t header bytes, parseHeader t = .done header bytes → 0 < bytes ∧ bytes ≤ t.length
  /-- The parser stops at the end of the header, whatever follows. -/
  parse_append : ∀ t header bytes rest, parseHeader t = .done header bytes →
    parseHeader (t ++ rest) = .done header bytes

/-- The components of a `urls::url_view`, percent-decoded, as `host()`, `port()`,
`path()` and `query()` return them. -/
structure UrlView where
  host : Text
  port : Text
  path : Text
  query : Text
  deriving DecidableEq, Repr

/-- What the server uses of Boost.URL. -/
structure BoostUrl where
  /-- Whether a string matches the URI-reference grammar. -/
  isUriReference : Text → Bool
  /-- The constructor of `urls::url_view`, `none` when it throws. -/
  urlView : Text → Option UrlView
  /-- `urls::parse_origin_form`: the decoded path, `none` for an error result. -/
  parseOriginForm : Text → Option Text
  urlView_isSome : ∀ t, (urlView t).isSome = isUriReference t
  /-- An origin-form is an absolute path, optionally with a query. -/
  originForm_slash : ∀ t path, parseOriginForm t = some path → ∃ rest, path = '/' :: rest

/-! ## Libraries for plain requests -/

/-- A string without the spaces around it. -/
def trimSpaces (t : Text) : Text :=
  ((t.dropWhile (· == ' ')).reverse.dropWhile (· == ' ')).reverse

/-- Whether a comma-separated list has a token, in any letter case. -/
def tokenListed (list token : Text) : Bool :=
  (list.splitOn ',').any fun item => (trimSpaces item).map Char.toLower == token

def Verb.text : Verb → Text
  | .get => "GET".toList
  | .head => "HEAD".toList
  | .post => "POST".toList
  | .put => "PUT".toList
  | .connect => "CONNECT".toList
  | .other name => name

def Field.text : Field → Text
  | .connection => "Connection".toList
  | .contentLength => "Content-Length".toList
  | .contentType => "Content-Type".toList
  | .host => "Host".toList
  | .server => "Server".toList
  | .upgrade => "Upgrade".toList
  | .other name => name

def crlf : Text := ['\r', '\n']

/-- The request line and the fields of an HTTP/1.1 request. -/
def Request.text (r : Request) : Text :=
  r.method.text ++ [' '] ++ r.target ++ " HTTP/1.1".toList ++ crlf ++
    r.fields.flatMap (fun f => f.1.text ++ ": ".toList ++ f.2 ++ crlf) ++ crlf

/-- The header that ends first among the given ones at the front of a buffer. -/
def firstHeader (headers : List Request) (buffer : Text) : Option Request :=
  buffer.inits.findSome? fun front =>
    headers.find? fun r => r.text == front && decide (r.target.length ≤ headerLimit)

/-- The parse of a buffer by a parser that knows the given headers. -/
def parseAmong (headers : List Request) (buffer : Text) : Parse :=
  match firstHeader headers buffer with
  | some r => .done r r.text.length
  | none => if headers.any fun r => buffer.isPrefixOf r.text then .needMore else .failed

theorem firstHeader_eq_some {headers : List Request} {buffer : Text} {r : Request}
    (h : firstHeader headers buffer = some r) :
    r.text.length ≤ buffer.length ∧ r.target.length ≤ headerLimit := by
  obtain ⟨front, hfront, hfind⟩ := List.exists_of_findSome?_eq_some h
  have hfound := List.find?_some hfind
  rw [Bool.and_eq_true, beq_iff_eq, decide_eq_true_iff] at hfound
  obtain ⟨htext, htarget⟩ := hfound
  refine ⟨?_, htarget⟩
  rw [htext]
  exact ((List.mem_inits front buffer).mp hfront).length_le

theorem firstHeader_append {headers : List Request} {buffer : Text} {r : Request}
    (h : firstHeader headers buffer = some r) (rest : Text) :
    firstHeader headers (buffer ++ rest) = some r := by
  unfold firstHeader at h ⊢
  rw [List.inits_append, List.findSome?_append, h]
  rfl

theorem parseAmong_eq_done {headers : List Request} {buffer : Text} {r : Request} {bytes : Nat} :
    parseAmong headers buffer = .done r bytes ↔
      firstHeader headers buffer = some r ∧ bytes = r.text.length := by
  unfold parseAmong
  cases hfirst : firstHeader headers buffer with
  | none =>
    simp only [reduceCtorEq, false_and, iff_false]
    split <;> simp
  | some r' =>
    simp only [Parse.done.injEq, Option.some.injEq]
    constructor
    · rintro ⟨rfl, rfl⟩
      exact ⟨rfl, rfl⟩
    · rintro ⟨rfl, rfl⟩
      exact ⟨rfl, rfl⟩

theorem Request.text_pos (r : Request) : 0 < r.text.length := by
  simp only [Request.text, crlf, List.length_append, List.length_cons]
  omega

/-- The value of a `Content-Length` field, 0 without one. -/
def declaredLength (r : Request) : Nat :=
  (r.get .contentLength).foldl (fun n c => 10 * n + (c.toNat - '0'.toNat)) 0

/-- A Beast that parses the given headers, and otherwise does what Beast
documents. -/
def Beast.plain (headers : List Request) : Beast where
  isUpgrade r := r.method == .get && r.version == 11 &&
    tokenListed (r.get .connection) "upgrade".toList &&
    tokenListed (r.get .upgrade) "websocket".toList
  keepAlive r :=
    if r.version < 11 then tokenListed (r.get .connection) "keep-alive".toList
    else !tokenListed (r.get .connection) "close".toList
  serialize := Request.text
  parseHeader := parseAmong headers
  bodyLength := declaredLength
  versionString := "Boost.Beast".toList
  target_le _ _ _ h := (firstHeader_eq_some (parseAmong_eq_done.mp h).1).2
  bytes_le _ r _ h := by
    obtain ⟨hfirst, rfl⟩ := parseAmong_eq_done.mp h
    exact ⟨r.text_pos, (firstHeader_eq_some hfirst).1⟩
  parse_append _ _ _ rest h := by
    obtain ⟨hfirst, hbytes⟩ := parseAmong_eq_done.mp h
    exact parseAmong_eq_done.mpr ⟨firstHeader_append hfirst rest, hbytes⟩

/-- The characters that may stand in a URI. -/
def uriCharacter (c : Char) : Bool :=
  c.isAlphanum || "-._~:/?#[]@!$&'()*+,;=%".toList.contains c

/-- A Boost.URL for targets without percent-encoding, of the forms
`scheme://host/path` and `/path`. -/
def BoostUrl.plain : BoostUrl where
  isUriReference t := t.all uriCharacter
  urlView t :=
    if t.all uriCharacter then
      let authority := (t.dropWhile (· != '/')).drop 2
      some ⟨authority.takeWhile (· != '/'), [], authority.dropWhile (· != '/'), []⟩
    else none
  parseOriginForm t :=
    if t.head? = some '/' ∧ t.all uriCharacter then some (t.takeWhile (· != '?')) else none
  urlView_isSome t := by
    split <;> simp_all
  originForm_slash t path h := by
    split at h
    · rename_i hcond
      cases t with
      | nil => simp at hcond
      | cons c rest =>
        simp only [List.head?_cons, Option.some.injEq] at hcond
        obtain ⟨rfl, -⟩ := hcond
        exact ⟨rest.takeWhile (· != '?'), by simpa using h.symm⟩
    · cases h

end ServerAsync
