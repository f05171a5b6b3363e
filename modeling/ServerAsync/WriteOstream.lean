import ServerAsync.Text
import ServerAsync.Misc.Serializer

/-!
# `write_ostream`

A message is written to a `std::ostream`, buffer after buffer as its serializer presents
them. A failed write ends everything; the serializer is told of the buffers of one call
when all of them have been written.
-/

namespace ServerAsync

open Misc

/-- The error codes that `write_ostream` sets. -/
inductive Errc where
  | ioError
  deriving DecidableEq, Repr

variable {σ : Type*} (sr : Serializer σ Char) (dev : Device Char)

/-- The loop over the buffers of one call, with the running total: how much was written,
`none` when the stream failed. -/
def writeBuffers : List Text → Nat → OStream Char → OStream Char × Option Nat
  | [], bytesTransferred, os => (os, some bytesTransferred)
  | buffer :: buffers, bytesTransferred, os =>
    let os := os.write dev buffer
    if os.failed then (os, none)
    else writeBuffers buffers (bytesTransferred + buffer.length) os

/-- `write_ostream_helper::operator()`, on the serializer and the stream. -/
def writeOstreamHelper (s : σ) (os : OStream Char) (buffers : List Text) :
    σ × OStream Char × Option Errc :=
  match writeBuffers dev buffers 0 os with
  | (os, none) => (s, os, some .ioError)
  | (os, some bytesTransferred) => (sr.consume s bytesTransferred, os, none)

/-- The loop of `write_ostream`, for at most `rounds` rounds: the stream and the error
code. -/
def writeOstream : Nat → σ → OStream Char → Option (OStream Char × Option Errc)
  | 0, _, _ => none
  | rounds + 1, s, os =>
    let (s, buffers) := sr.next s
    let (s, os, ec) := writeOstreamHelper sr dev s os buffers
    if ec.isSome then some (os, ec)
    else if sr.isDone s then some (os, ec)
    else writeOstream rounds s os

variable {sr dev}

/-! ## One call -/

/-- The loop goes through if no write fails, and stops behind the first that does. -/
theorem writeBuffers_cases (buffers : List Text) (bytesTransferred : Nat) (os : OStream Char) :
    (os.Takes dev buffers ∧ writeBuffers dev buffers bytesTransferred os =
      (os.writeAll dev buffers, some (bytesTransferred + buffers.flatten.length))) ∨
    ∃ written last rest, buffers = written ++ last :: rest ∧ os.Takes dev written ∧
      ((os.writeAll dev written).write dev last).failed = true ∧
      writeBuffers dev buffers bytesTransferred os =
        ((os.writeAll dev written).write dev last, none) := by
  induction buffers generalizing bytesTransferred os with
  | nil => exact Or.inl ⟨Or.inl rfl, rfl⟩
  | cons buffer buffers ih =>
    cases hfailed : (os.write dev buffer).failed with
    | true =>
      refine Or.inr ⟨[], buffer, buffers, rfl, Or.inl rfl, hfailed, ?_⟩
      rw [writeBuffers]
      exact if_pos hfailed
    | false =>
      have hloop : writeBuffers dev (buffer :: buffers) bytesTransferred os =
          writeBuffers dev buffers (bytesTransferred + buffer.length) (os.write dev buffer) := by
        rw [writeBuffers]
        exact if_neg (by rw [hfailed]; exact Bool.false_ne_true)
      have hbefore : (os.writeAll dev [buffer]).failed = false := hfailed
      rcases ih (bytesTransferred + buffer.length) (os.write dev buffer) with
        ⟨htakes, heq⟩ | ⟨written, last, rest, rfl, htakes, hlast, heq⟩
      · left
        refine ⟨OStream.Takes.append hbefore htakes, ?_⟩
        rw [hloop, heq, List.flatten_cons, List.length_append, Nat.add_assoc]
        rfl
      · right
        refine ⟨buffer :: written, last, rest, rfl, OStream.Takes.append hbefore htakes, hlast, ?_⟩
        rw [hloop, heq]
        rfl

/-! ## The whole message -/

/-- What a message leaves in a stream: all of it and no error, or an error behind a write
that failed, with the bytes that were in front of it. -/
inductive Written (dev : Device Char) (message : Text) (os : OStream Char) :
    OStream Char × Option Errc → Prop
  | whole {os' : OStream Char} (hfailed : os'.failed = false)
      (hreceived : os'.received = os.received ++ message) : Written dev message os (os', none)
  | stopped {written : List Text} {last : Text} (htakes : os.Takes dev written)
      (hfailed : ((os.writeAll dev written).write dev last).failed = true)
      (hfront : written.flatten <+: message) :
      Written dev message os ((os.writeAll dev written).write dev last, some .ioError)

/-- The first buffers of a message, and then the rest. -/
theorem Written.append {buffers : List Text} {os : OStream Char} {message : Text}
    {result : OStream Char × Option Errc} (hbuffers : (os.writeAll dev buffers).failed = false)
    (h : Written dev message (os.writeAll dev buffers) result) :
    Written dev (buffers.flatten ++ message) os result := by
  cases h with
  | whole hfailed hreceived =>
    rw [(OStream.writeAll_received hbuffers).2, List.append_assoc] at hreceived
    exact Written.whole hfailed hreceived
  | @stopped written last htakes hfailed hfront =>
    rw [← OStream.writeAll_append] at hfailed ⊢
    refine Written.stopped (OStream.Takes.append hbuffers htakes) hfailed ?_
    rw [List.flatten_append]
    exact (List.prefix_append_right_inj _).mpr hfront

/-- A round in which all buffers are written. -/
theorem writeOstream_of_taken {s : σ} {os os' : OStream Char} {n : Nat}
    (h : writeBuffers dev (sr.next s).2 0 os = (os', some n)) (rounds : Nat) :
    writeOstream sr dev (rounds + 1) s os =
      if sr.isDone (sr.consume (sr.next s).1 n) then some (os', none)
      else writeOstream sr dev rounds (sr.consume (sr.next s).1 n) os' := by
  cases hnext : sr.next s with
  | mk s' buffers =>
    rw [hnext] at h
    rw [writeOstream, hnext]
    dsimp only
    rw [writeOstreamHelper, h]
    rfl

/-- A round in which the stream fails is the last one. -/
theorem writeOstream_of_stopped {s : σ} {os os' : OStream Char}
    (h : writeBuffers dev (sr.next s).2 0 os = (os', none)) (rounds : Nat) :
    writeOstream sr dev (rounds + 1) s os = some (os', some .ioError) := by
  cases hnext : sr.next s with
  | mk s' buffers =>
    rw [hnext] at h
    rw [writeOstream, hnext]
    dsimp only
    rw [writeOstreamHelper, h]
    rfl

/-- A round is the last one, or what it leaves is written by the rounds behind it. -/
theorem writeOstream_round {s : σ} (hnot : sr.isDone s = false) (os : OStream Char) :
    (∃ result, (∀ rounds, writeOstream sr dev (rounds + 1) s os = some result) ∧
      Written dev (sr.unconsumed s) os result) ∨
    (sr.isDone (sr.advance s) = false ∧ (os.writeAll dev (sr.next s).2).failed = false ∧
      ∀ rounds, writeOstream sr dev (rounds + 1) s os =
        writeOstream sr dev rounds (sr.advance s) (os.writeAll dev (sr.next s).2)) := by
  have hmessage := Serializer.presented_append hnot
  rcases writeBuffers_cases (sr.next s).2 0 os with
    ⟨htakes, hround⟩ | ⟨written, last, rest, hbuffers, htakes, hlast, hround⟩
  · have hne : (sr.next s).2 ≠ [] := by
      intro hnil
      apply sr.progress s hnot
      rw [hnil, List.flatten_nil]
    have hok := htakes.resolve_left hne
    rw [Nat.zero_add] at hround
    cases hdone : sr.isDone (sr.advance s) with
    | true =>
      left
      refine ⟨(os.writeAll dev (sr.next s).2, none), ?_, ?_⟩
      · intro rounds
        rw [writeOstream_of_taken hround]
        exact if_pos hdone
      · rw [sr.done_ok _ hdone, List.append_nil] at hmessage
        apply Written.whole hok
        rw [htakes.received, hmessage]
    | false =>
      right
      refine ⟨rfl, hok, ?_⟩
      intro rounds
      rw [writeOstream_of_taken hround]
      apply if_neg
      change ¬ sr.isDone (sr.advance s) = true
      rw [hdone]
      exact Bool.false_ne_true
  · left
    refine ⟨_, writeOstream_of_stopped hround, Written.stopped htakes hlast ?_⟩
    have hpresented := sr.presents s hnot
    rw [hbuffers, List.flatten_append] at hpresented
    exact (List.prefix_append _ _).trans hpresented

/-- The loop ends within as many rounds as the message has characters. -/
theorem writeOstream_written (n : Nat) {s : σ} (hnot : sr.isDone s = false)
    (hle : (sr.unconsumed s).length ≤ n) (os : OStream Char) : ∃ result,
    (∀ rounds, n ≤ rounds → writeOstream sr dev rounds s os = some result) ∧
      Written dev (sr.unconsumed s) os result := by
  have hlt := Serializer.length_advance_lt hnot
  -- each round takes from the message what the serializer presents
  induction n generalizing s os with
  | zero => omega
  | succ n ih =>
    rcases writeOstream_round hnot os with ⟨result, hrun, hwritten⟩ | ⟨hnext, hok, hrun⟩
    · refine ⟨result, ?_, hwritten⟩
      intro rounds hrounds
      obtain ⟨more, rfl⟩ := Nat.exists_eq_add_of_le' (Nat.le_trans (Nat.le_add_left 1 n) hrounds)
      exact hrun more
    · obtain ⟨result, hrest, hwritten⟩ := ih hnext (by omega)
        (os.writeAll dev (sr.next s).2) (Serializer.length_advance_lt hnext)
      refine ⟨result, ?_, ?_⟩
      · intro rounds hrounds
        obtain ⟨more, rfl⟩ := Nat.exists_eq_add_of_le' (Nat.le_trans (Nat.le_add_left 1 n) hrounds)
        rw [hrun]
        exact hrest more (by omega)
      · rw [← Serializer.presented_append hnot]
        exact Written.append hok hwritten

/-- `write_ostream` ends. Unless the stream fails there is no error; without an error the
stream has received the message and nothing else; when the stream fails, the error is set,
the write that failed is the last one, and what was received before it is a prefix of the
message. A new serializer is not done, as a message has a start line. -/
theorem writeOstream_serializes {s : σ} (hnot : sr.isDone s = false) (os : OStream Char) :
    ∃ result,
      (∀ rounds, (sr.unconsumed s).length ≤ rounds →
        writeOstream sr dev rounds s os = some result) ∧
      (result.1.failed = false → result.2 = none) ∧
      (result.2 = none → result.1.received = os.received ++ sr.unconsumed s) ∧
      (result.1.failed = true → result.2 = some .ioError ∧ ∃ written last,
        result.1 = (os.writeAll dev written).write dev last ∧
        result.1.writes = os.writes ++ written ++ [last] ∧ os.Takes dev written ∧
        (os.writeAll dev written).received = os.received ++ written.flatten ∧
        written.flatten <+: sr.unconsumed s) := by
  obtain ⟨result, hrun, hwritten⟩ :=
    @writeOstream_written _ sr dev _ s hnot (Nat.le_refl _) os
  refine ⟨result, hrun, ?_, ?_, ?_⟩
  · intro hok
    cases hwritten with
    | whole hfailed hreceived => rfl
    | stopped htakes hfailed hfront => cases hok.symm.trans hfailed
  · intro hnone
    cases hwritten with
    | whole hfailed hreceived => exact hreceived
    | stopped htakes hfailed hfront => cases hnone
  · intro hfailed
    cases hwritten with
    | whole hok hreceived => cases hok.symm.trans hfailed
    | @stopped written last htakes hlast hfront =>
      refine ⟨rfl, written, last, rfl, ?_, htakes, htakes.received, hfront⟩
      rw [OStream.write_writes, OStream.writeAll_writes]

/-- A stream that fails at the third write, of which it receives one character. -/
def thirdFails : Device Char := fun writes _ => if writes.length = 2 then some 1 else none

theorem writeOstream_serializes_third :
    ∃ result,
      (∀ rounds, 18 ≤ rounds → writeOstream (.pairs 3) thirdFails rounds
        "GET / HTTP/1.1\r\n\r\n".toList ⟨[], [], false⟩ = some result) ∧
      (result.1.failed = false → result.2 = none) ∧
      (result.2 = none → result.1.received = "GET / HTTP/1.1\r\n\r\n".toList) ∧
      (result.1.failed = true → result.2 = some .ioError ∧ ∃ written last,
        result.1 = (OStream.writeAll thirdFails ⟨[], [], false⟩ written).write thirdFails last ∧
        result.1.writes = written ++ [last] ∧
        OStream.Takes thirdFails ⟨[], [], false⟩ written ∧
        (OStream.writeAll thirdFails ⟨[], [], false⟩ written).received = written.flatten ∧
        written.flatten <+: "GET / HTTP/1.1\r\n\r\n".toList) :=
  @writeOstream_serializes _ (.pairs 3) thirdFails "GET / HTTP/1.1\r\n\r\n".toList rfl
    ⟨[], [], false⟩

example : writeOstream (.pairs 3) thirdFails 18 "GET / HTTP/1.1\r\n\r\n".toList
    ⟨[], [], false⟩ = some (⟨["GET ".toList, "/ HT".toList, "TP/1".toList],
      "GET / HTT".toList, true⟩, some .ioError) := by
  decide

end ServerAsync
