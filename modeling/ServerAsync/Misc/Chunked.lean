import ServerAsync.Misc.Percent

/-!
# The chunked transfer coding

A body in chunks, each behind a line that gives its size, then an empty chunk, and a
trailer of any number of lines that ends with an empty one. What `encode` writes,
`decode` reads, however the data was cut into chunks, and it stops where the body
ends.
-/

namespace ServerAsync.Misc.Chunked

/-- The text before the first line break, and what follows it. -/
def splitLine : List Char → Option (List Char × List Char)
  | '\r' :: '\n' :: rest => some ([], rest)
  | c :: rest => (splitLine rest).map fun p => (c :: p.1, p.2)
  | [] => none

def isHex (c : Char) : Bool := (Percent.hexValue c).isSome

/-- The size that a line gives: hexadecimal digits, and after them nothing or an
extension. -/
def chunkSize (line : List Char) : Option Nat :=
  if line.takeWhile isHex ≠ [] ∧ (line.dropWhile isHex).head?.getD ';' = ';' then
    some ((line.takeWhile isHex).foldl (fun n c => 16 * n + (Percent.hexValue c).getD 0) 0)
  else none

/-- What follows the first empty line. -/
def skipTrailer : Nat → List Char → Option (List Char)
  | 0, _ => none
  | fuel + 1, t =>
    match splitLine t with
    | none => none
    | some ([], rest) => some rest
    | some (_ :: _, rest) => skipTrailer fuel rest

def decodeWith : Nat → List Char → Option (List Char × List Char)
  | 0, _ => none
  | fuel + 1, t =>
    match splitLine t with
    | none => none
    | some (line, rest) =>
      match chunkSize line with
      | none => none
      | some 0 => (skipTrailer fuel rest).map fun next => ([], next)
      | some n =>
        if n + 2 ≤ rest.length ∧ (rest.drop n).take 2 = ['\r', '\n'] then
          (decodeWith fuel (rest.drop (n + 2))).map fun p => (rest.take n ++ p.1, p.2)
        else none

/-- The body at the front of a text, and what follows it. Every line takes at least a
line break, so the fuel suffices. -/
def decode (t : List Char) : Option (List Char × List Char) := decodeWith (t.length + 1) t

/-- A chunk with data, and the line before it. -/
structure Chunk where
  line : List Char
  data : List Char
  line_ok : '\r' ∉ line
  size_ok : chunkSize line = some data.length
  data_ok : data ≠ []

def Chunk.text (c : Chunk) : List Char := c.line ++ ['\r', '\n'] ++ c.data ++ ['\r', '\n']

/-- The empty chunk and an empty trailer. -/
def lastChunk : List Char := ['0', '\r', '\n', '\r', '\n']

def encode (chunks : List Chunk) : List Char := chunks.flatMap Chunk.text ++ lastChunk

/-! ## What was encoded is decoded -/

theorem splitLine_append {line : List Char} (h : '\r' ∉ line) (rest : List Char) :
    splitLine (line ++ '\r' :: '\n' :: rest) = some (line, rest) := by
  induction line with
  | nil => rfl
  | cons c line ih =>
    rw [List.mem_cons, not_or] at h
    rw [List.cons_append, splitLine, ih h.2, Option.map_some]
    rintro more rfl
    exact absurd rfl h.1

theorem decodeWith_lastChunk {fuel : Nat} (hfuel : 2 ≤ fuel) (next : List Char) :
    decodeWith fuel (lastChunk ++ next) = some ([], next) := by
  obtain ⟨k, rfl⟩ := Nat.exists_eq_add_of_le' hfuel
  have hline : splitLine (lastChunk ++ next) = some (['0'], '\r' :: '\n' :: next) :=
    splitLine_append (show '\r' ∉ ['0'] by decide) _
  have hsize : chunkSize ['0'] = some 0 := by decide
  have htrailer : splitLine ('\r' :: '\n' :: next) = some ([], next) :=
    splitLine_append (List.not_mem_nil (a := '\r')) _
  simp only [decodeWith, hline, hsize, skipTrailer, htrailer, Option.map_some]

theorem decodeWith_chunk (c : Chunk) (fuel : Nat) (rest : List Char) :
    decodeWith (fuel + 1) (c.text ++ rest) =
      (decodeWith fuel rest).map fun p => (c.data ++ p.1, p.2) := by
  have htext : c.text ++ rest = c.line ++ '\r' :: '\n' :: (c.data ++ '\r' :: '\n' :: rest) := by
    simp [Chunk.text]
  have hline := splitLine_append c.line_ok (c.data ++ '\r' :: '\n' :: rest)
  have hdata : c.data.length ≠ 0 := by
    rw [Ne, List.length_eq_zero_iff]
    exact c.data_ok
  have hbreak : ((c.data ++ '\r' :: '\n' :: rest).drop c.data.length).take 2 = ['\r', '\n'] := by
    rw [List.drop_left]
    rfl
  have hlength : c.data.length + 2 ≤ (c.data ++ '\r' :: '\n' :: rest).length := by
    simp only [List.length_append, List.length_cons]
    omega
  have hafter : (c.data ++ '\r' :: '\n' :: rest).drop (c.data.length + 2) = rest := by
    rw [← List.drop_drop, List.drop_left]
    rfl
  rw [htext, decodeWith, hline]
  simp only [c.size_ok]
  rw [if_pos ⟨hlength, hbreak⟩, hafter, List.take_left]

theorem decodeWith_encode (chunks : List Chunk) {fuel : Nat} (hfuel : chunks.length + 2 ≤ fuel)
    (next : List Char) :
    decodeWith fuel (encode chunks ++ next) = some (chunks.flatMap Chunk.data, next) := by
  induction chunks generalizing fuel with
  | nil => exact decodeWith_lastChunk hfuel next
  | cons c chunks ih =>
    rw [List.length_cons] at hfuel
    obtain ⟨k, rfl⟩ := Nat.exists_eq_add_of_le' hfuel
    have hrest := ih (show chunks.length + 2 ≤ k + (chunks.length + 2) by omega)
    have hsplit : encode (c :: chunks) ++ next = c.text ++ (encode chunks ++ next) := by
      simp [encode]
    rw [hsplit, show k + (chunks.length + 1 + 2) = k + (chunks.length + 2) + 1 by omega,
      decodeWith_chunk, hrest]
    rfl

theorem length_le_flatMap_text (chunks : List Chunk) :
    chunks.length ≤ (chunks.flatMap Chunk.text).length := by
  induction chunks with
  | nil => exact Nat.le_refl _
  | cons c chunks ih =>
    rw [List.flatMap_cons, List.length_append, List.length_cons]
    have htext : 1 ≤ c.text.length := by
      simp only [Chunk.text, List.length_append, List.length_cons]
      omega
    omega

/-- The decoder gets the data back and stops at the end of the body. -/
theorem decode_encode (chunks : List Chunk) (next : List Char) :
    decode (encode chunks ++ next) = some (chunks.flatMap Chunk.data, next) := by
  apply decodeWith_encode
  have hle := length_le_flatMap_text chunks
  simp only [encode, lastChunk, List.length_append, List.length_cons, List.length_nil]
  omega

theorem decode_lastChunk (next : List Char) : decode (lastChunk ++ next) = some ([], next) :=
  decode_encode [] next

/-- There is no body without a byte. -/
theorem decode_nil : decode [] = none := rfl

end ServerAsync.Misc.Chunked
