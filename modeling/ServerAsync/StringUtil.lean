import ServerAsync.Text
import ServerAsync.Misc.Path

/-!
# `string_util.hpp`

The router's path splitter. `all_segments` loops as long as the position is inside
the path; the loop is given a number of rounds here and answers `none` when they
run out. From a slash every round moves on to the next slash or to the end, so a
path that starts with one is split in as many rounds as it has characters.
-/

namespace ServerAsync

open Misc.Path

/-- `find(c, start)`, `none` for `npos`. -/
def Text.findFrom (t : Text) (c : Char) (start : Nat) : Option Nat :=
  ((t.drop start).findIdx? (· == c)).map (start + ·)

/-- `next_segment`: the segment that starts at `pos`, and the position after it.
Away from a slash it is empty and the position stays. -/
def nextSegment (path : Text) (pos : Nat) : Text × Nat :=
  if path[pos]? ≠ some '/' then ([], pos)
  else
    let startPos := pos + 1
    let pos := (path.findFrom '/' startPos).getD path.length
    ((path.drop startPos).take (pos - startPos), pos)

/-- The loop of `all_segments`, for at most `rounds` rounds. -/
def allSegmentsLoop (path : Text) : Nat → Nat → List Text → Option (List Text)
  | 0, _, _ => none
  | rounds + 1, pos, segments =>
    if pos < path.length then
      let (seg, pos) := nextSegment path pos
      allSegmentsLoop path rounds pos (if seg ≠ [] then segments ++ [seg] else segments)
    else some segments

/-- `all_segments`, `none` when it does not end. -/
def allSegments (path : Text) : Option (List Text) :=
  allSegmentsLoop path (path.length + 1) 0 []

/-- Calling `next_segment` from `pos` until it returns an empty view, at most `rounds`
times: the views it returned before that. -/
def nextSegmentsFrom (path : Text) : Nat → Nat → Option (List Text)
  | 0, _ => none
  | rounds + 1, pos =>
    let (seg, pos) := nextSegment path pos
    if seg = [] then some [] else (nextSegmentsFrom path rounds pos).map (seg :: ·)

/-- Calling `next_segment` from the start until it returns an empty view. -/
def nextSegments (path : Text) : Option (List Text) := nextSegmentsFrom path (path.length + 1) 0

/-- Where the loop of `all_segments` calls `next_segment`. -/
inductive CalledAt (path : Text) : Nat → Prop
  | start (h : 0 < path.length) : CalledAt path 0
  | next {pos : Nat} (h : CalledAt path pos) (hlt : (nextSegment path pos).2 < path.length) :
      CalledAt path (nextSegment path pos).2

theorem findFrom_eq_some {t : Text} {c : Char} {start i : Nat} (h : t.findFrom c start = some i) :
    start ≤ i ∧ t[i]? = some c ∧ c ∉ (t.drop start).take (i - start) := by
  obtain ⟨j, hfind, rfl⟩ := Option.map_eq_some_iff.mp h
  obtain ⟨hlt, hc, hbefore⟩ := List.findIdx?_eq_some_iff_getElem.mp hfind
  refine ⟨by omega, ?_, ?_⟩
  · have hget : (t.drop start)[j]? = t[start + j]? := List.getElem?_drop
    rw [List.getElem?_eq_getElem hlt] at hget
    rw [← hget]
    exact congrArg some (beq_iff_eq.mp hc)
  · intro hmem
    rw [Nat.add_sub_cancel_left] at hmem
    obtain ⟨k, hk, hget⟩ := List.mem_take_iff_getElem.mp hmem
    have hkj : k < j := by omega
    exact hbefore k hkj (beq_iff_eq.mpr hget)

theorem findFrom_eq_none {t : Text} {c : Char} {start : Nat} (h : t.findFrom c start = none) :
    c ∉ t.drop start := by
  have hnone := List.findIdx?_eq_none_iff.mp (Option.map_eq_none_iff.mp h)
  intro hmem
  have hc := hnone c hmem
  rw [beq_self_eq_true] at hc
  cases hc

/-- The loop stands at a slash or at the end. -/
def AtSlash (path : Text) (pos : Nat) : Prop := path[pos]? = some '/' ∨ pos = path.length

/-- From a slash, a segment is what is before the next slash or the end. -/
theorem nextSegment_slash {path : Text} {pos : Nat} (h : path[pos]? = some '/') :
    pos < (nextSegment path pos).2 ∧ AtSlash path (nextSegment path pos).2 ∧
      '/' ∉ (nextSegment path pos).1 ∧
      path.drop pos = '/' :: ((nextSegment path pos).1 ++ path.drop (nextSegment path pos).2) := by
  obtain ⟨hlt, hget⟩ := List.getElem?_eq_some_iff.mp h
  have hdrop : path.drop pos = '/' :: path.drop (pos + 1) := by
    rw [List.drop_eq_getElem_cons hlt, hget]
  unfold nextSegment
  rw [if_neg (not_not_intro h), hdrop, List.cons_inj_right]
  dsimp only
  cases hfind : path.findFrom '/' (pos + 1) with
  | none =>
    have hnone := findFrom_eq_none hfind
    have hwhole : (path.drop (pos + 1)).take (path.length - (pos + 1)) = path.drop (pos + 1) := by
      rw [← List.length_drop, List.take_length]
    rw [Option.getD_none, hwhole, List.drop_length, List.append_nil]
    exact ⟨hlt, Or.inr rfl, hnone, rfl⟩
  | some i =>
    obtain ⟨hle, hslash, hbefore⟩ := findFrom_eq_some hfind
    refine ⟨hle, Or.inl hslash, hbefore, ?_⟩
    have hrest : path.drop i = (path.drop (pos + 1)).drop (i - (pos + 1)) := by
      rw [List.drop_drop, Nat.add_sub_cancel' hle]
    rw [Option.getD_some, hrest, List.take_append_drop]

/-- The segment of a slash is the first piece behind it, unless it is empty. -/
theorem pieces_nextSegment {path : Text} {pos : Nat} (h : path[pos]? = some '/') :
    pieces '/' (path.drop pos) =
      (if (nextSegment path pos).1 ≠ [] then [(nextSegment path pos).1] else []) ++
        pieces '/' (path.drop (nextSegment path pos).2) := by
  obtain ⟨-, hat, hsegment, hdrop⟩ := nextSegment_slash h
  have hpieces := pieces_of_notMem hsegment
  rw [hdrop, pieces_cons_self, ite_not, ← hpieces]
  rcases hat with hslash | hend
  · obtain ⟨hlt, hget⟩ := List.getElem?_eq_some_iff.mp hslash
    rw [List.drop_eq_getElem_cons hlt, hget, pieces_append_cons, pieces_cons_self]
  · rw [hend, List.drop_length, pieces_nil, List.append_nil, List.append_nil]

/-- The loop adds the pieces from its position on, and each round moves on. -/
theorem allSegmentsLoop_eq {path : Text} (rounds : Nat) :
    ∀ pos segments, AtSlash path pos → path.length < pos + rounds →
      allSegmentsLoop path rounds pos segments =
        some (segments ++ pieces '/' (path.drop pos)) := by
  induction rounds with
  | zero =>
    intro pos segments hat hle
    rcases hat with hslash | hend
    · have hlt := (List.getElem?_eq_some_iff.mp hslash).1
      omega
    · omega
  | succ rounds ih =>
    intro pos segments hat hle
    unfold allSegmentsLoop
    rcases hat with hslash | hend
    · have hlt : pos < path.length := (List.getElem?_eq_some_iff.mp hslash).1
      obtain ⟨hnext, hat', -⟩ := nextSegment_slash hslash
      rw [if_pos hlt, pieces_nextSegment hslash]
      dsimp only
      rw [ih _ _ hat' (by omega), ← List.append_assoc]
      split
      · rfl
      · rw [List.append_nil]
    · rw [if_neg (by omega), hend, List.drop_length, pieces_nil, List.append_nil]

theorem allSegments_eq {path : Text} (h : AtSlash path 0) :
    allSegments path = some (pieces '/' path) := by
  unfold allSegments
  rw [allSegmentsLoop_eq _ _ _ h (by omega), List.nil_append, List.drop_zero]

/-- A path that starts with a slash is split. -/
theorem allSegments_isSome (rest : Text) : (allSegments ('/' :: rest)).isSome := by
  rw [allSegments_eq (Or.inl rfl)]
  rfl

/-- A path that is empty or starts with a slash is split at every slash, and the empty
pieces are dropped. -/
theorem allSegments_eq_split {path : Text} (h : path = [] ∨ path.head? = some '/') :
    allSegments path = some ((path.splitOn '/').filter (· ≠ [])) := by
  rcases h with rfl | hslash
  · exact allSegments_eq (Or.inr rfl)
  · obtain ⟨rest, rfl⟩ := List.head?_eq_some_iff.mp hslash
    exact allSegments_eq (Or.inl rfl)

theorem allSegments_eq_split_repeated :
    allSegments "/a//b/".toList = some ["a".toList, "b".toList] :=
  allSegments_eq_split (Or.inr rfl)

/-- No slash is passed over on the way to the next one. -/
theorem slash_suffix_append {s t u : Text} (h : '/' ∉ s) (hsuffix : '/' :: t <:+ s ++ u) :
    '/' :: t <:+ u := by
  induction s with
  | nil => exact hsuffix
  | cons c s ih =>
    rw [List.mem_cons, not_or] at h
    rcases List.suffix_cons_iff.mp hsuffix with heq | hrest
    · exact absurd (List.cons.inj heq).1 h.1
    · exact ih h.2 hrest

/-- Only slashes come after two slashes in a row. -/
def DoubledAtEnd (t : Text) : Prop := ∀ rest, '/' :: '/' :: rest <:+ t → ∀ c ∈ rest, c = '/'

/-- A segment that is not empty keeps the slashes on its sides apart. -/
theorem doubledAtEnd_segment {s u : Text} (hne : s ≠ []) (h : '/' ∉ s) :
    DoubledAtEnd ('/' :: (s ++ u)) ↔ DoubledAtEnd u := by
  constructor
  · intro hend rest hsuffix
    exact hend rest ((hsuffix.trans (List.suffix_append s u)).trans (List.suffix_cons _ _))
  · intro hend rest hsuffix
    rcases List.suffix_cons_iff.mp hsuffix with heq | hrest
    · obtain ⟨c, s', rfl⟩ := List.exists_cons_of_ne_nil hne
      have hc : '/' = c := (List.cons.inj (List.cons.inj heq).2).1
      rw [hc] at h
      exact absurd List.mem_cons_self h
    · exact hend rest (slash_suffix_append h hrest)

/-- Two slashes at the front: nothing but slashes may come. -/
theorem doubledAtEnd_doubled {u : Text} :
    DoubledAtEnd ('/' :: '/' :: u) ↔ ∀ c ∈ u, c = '/' := by
  constructor
  · intro hend
    exact hend u List.suffix_rfl
  · intro hall rest hsuffix c hc
    have hmem : c ∈ '/' :: '/' :: u :=
      hsuffix.subset (List.mem_cons_of_mem _ (List.mem_cons_of_mem _ hc))
    rcases List.mem_cons.mp hmem with rfl | hmem
    · rfl
    · rcases List.mem_cons.mp hmem with rfl | hmem
      · rfl
      · exact hall c hmem

/-- Called until an empty view, `next_segment` has returned every piece when the only
empty pieces are the last ones. -/
theorem nextSegmentsFrom_eq_iff {path : Text} (rounds : Nat) :
    ∀ pos, AtSlash path pos → path.length < pos + rounds →
      (nextSegmentsFrom path rounds pos = some (pieces '/' (path.drop pos)) ↔
        DoubledAtEnd (path.drop pos)) := by
  induction rounds with
  | zero =>
    intro pos hat hle
    rcases hat with hslash | hend
    · have hlt := (List.getElem?_eq_some_iff.mp hslash).1
      omega
    · omega
  | succ rounds ih =>
    intro pos hat hle
    rw [nextSegmentsFrom]
    rcases hat with hslash | hend
    · obtain ⟨hnext, hat', hsegment, hdrop⟩ := nextSegment_slash hslash
      rw [pieces_nextSegment hslash]
      dsimp only
      by_cases hempty : (nextSegment path pos).1 = []
      · -- the loop ends here, before the pieces behind the next slash
        rw [if_pos hempty, if_neg (not_not_intro hempty), List.nil_append, hdrop, hempty,
          List.nil_append]
        rcases hat' with hslash' | hend'
        · obtain ⟨hlt, hget⟩ := List.getElem?_eq_some_iff.mp hslash'
          rw [List.drop_eq_getElem_cons hlt, hget, doubledAtEnd_doubled, pieces_cons_self,
            Option.some_inj, eq_comm, pieces_eq_nil_iff]
        · rw [hend', List.drop_length, pieces_nil]
          refine iff_of_true rfl ?_
          intro rest hsuffix
          have hlength := hsuffix.length_le
          rw [List.length_cons, List.length_cons, List.length_singleton] at hlength
          omega
      · rw [if_neg hempty, if_pos hempty, hdrop, doubledAtEnd_segment hempty hsegment,
          ← ih _ hat' (by omega), List.singleton_append]
        constructor
        · intro hmap
          obtain ⟨segments, hsegments, heq⟩ := Option.map_eq_some_iff.mp hmap
          rw [hsegments, (List.cons.inj heq).2]
        · intro heq
          rw [heq, Option.map_some]
    · have hnone : path[pos]? ≠ some '/' := by
        rw [hend, List.getElem?_length]
        exact nofun
      have hnext : nextSegment path pos = ([], pos) := if_pos hnone
      rw [hnext, hend, List.drop_length, pieces_nil]
      refine iff_of_true rfl ?_
      intro rest hsuffix
      cases List.suffix_nil.mp hsuffix

/-- On a path that is empty or starts with a slash, calling `next_segment` until it
returns an empty view gives what `all_segments` returns if and only if slashes in a row
stand at the end only. -/
theorem nextSegments_eq_allSegments_iff {path : Text}
    (h : path = [] ∨ path.head? = some '/') :
    (∃ segments, nextSegments path = some segments ∧ allSegments path = some segments) ↔
      DoubledAtEnd path := by
  have hat : AtSlash path 0 := by
    rcases h with rfl | hslash
    · exact Or.inr rfl
    · obtain ⟨rest, rfl⟩ := List.head?_eq_some_iff.mp hslash
      exact Or.inl rfl
  have hiff := nextSegmentsFrom_eq_iff (path.length + 1) 0 hat (by omega)
  rw [List.drop_zero] at hiff
  rw [allSegments_eq hat]
  constructor
  · rintro ⟨segments, hnext, hall⟩
    rw [← Option.some_inj.mp hall] at hnext
    exact hiff.mp hnext
  · intro hend
    exact ⟨_, hiff.mpr hend, rfl⟩

theorem nextSegments_eq_allSegments_iff_end :
    (∃ segments, nextSegments "/a//".toList = some segments ∧
        allSegments "/a//".toList = some segments) ↔ DoubledAtEnd "/a//".toList :=
  nextSegments_eq_allSegments_iff (Or.inr rfl)

/-- The empty view between two slashes is not the end of the path. -/
theorem nextSegments_doubled :
    nextSegments "/a//b".toList = some ["a".toList] ∧
      allSegments "/a//b".toList = some ["a".toList, "b".toList] :=
  ⟨rfl, rfl⟩

/-- Away from a slash `next_segment` returns an empty view and does not move. -/
theorem nextSegment_of_ne {path : Text} {pos : Nat} (h : path[pos]? ≠ some '/') :
    nextSegment path pos = ([], pos) :=
  if_pos h

/-- Inside a path and away from a slash, the loop never ends. -/
theorem allSegmentsLoop_stuck {path : Text} {pos : Nat} (hlt : pos < path.length)
    (h : path[pos]? ≠ some '/') (rounds : Nat) (segments : List Text) :
    allSegmentsLoop path rounds pos segments = none := by
  induction rounds generalizing segments with
  | zero => rfl
  | succ rounds ih =>
    rw [allSegmentsLoop, if_pos hlt, nextSegment_of_ne h]
    exact ih _

/-- From a slash on, the loop calls `next_segment` at slashes only. -/
theorem CalledAt.slash {path : Text} (h : path.head? = some '/') {pos : Nat}
    (hcalled : CalledAt path pos) : path[pos]? = some '/' := by
  induction hcalled with
  | start _ => rwa [List.head?_eq_getElem?] at h
  | next _ hlt ih =>
    rcases (nextSegment_slash ih).2.1 with hslash | hend
    · exact hslash
    · omega

/-- The loop of `all_segments` ends, and every call of `next_segment` it makes moves on, if
and only if the path is empty or starts with a slash: for any other path it does not end,
and no call moves on. -/
theorem allSegments_ends_iff (path : Text) :
    ((∃ rounds segments, allSegmentsLoop path rounds 0 [] = some segments) ↔
        path = [] ∨ path.head? = some '/') ∧
      ((∀ pos, CalledAt path pos → pos < (nextSegment path pos).2) ↔
        path = [] ∨ path.head? = some '/') := by
  by_cases hstart : path = [] ∨ path.head? = some '/'
  · refine ⟨iff_of_true ?_ hstart, iff_of_true ?_ hstart⟩
    · exact ⟨_, _, allSegments_eq_split hstart⟩
    · intro pos hcalled
      rcases hstart with rfl | hslash
      · cases hcalled with
        | start hlt => cases hlt
        | next _ hlt => cases hlt
      · exact (nextSegment_slash (hcalled.slash hslash)).1
  · have hne : path ≠ [] := fun hnil => hstart (Or.inl hnil)
    have hlt : 0 < path.length := List.length_pos_iff.mpr hne
    have haway : path[0]? ≠ some '/' := by
      rw [← List.head?_eq_getElem?]
      exact fun hslash => hstart (Or.inr hslash)
    refine ⟨iff_of_false ?_ hstart, iff_of_false ?_ hstart⟩
    · rintro ⟨rounds, segments, hsome⟩
      rw [allSegmentsLoop_stuck hlt haway] at hsome
      cases hsome
    · intro hmoves
      have hmove := hmoves 0 (.start hlt)
      rw [nextSegment_of_ne haway] at hmove
      exact absurd hmove (Nat.lt_irrefl 0)

/-- A path of one letter: the first call moves nothing, and the loop repeats it. -/
theorem allSegments_letter :
    ¬ (∃ rounds segments, allSegmentsLoop "a".toList rounds 0 [] = some segments) ∧
      CalledAt "a".toList 0 ∧ (nextSegment "a".toList 0).2 = 0 := by
  refine ⟨?_, .start (by decide), by decide⟩
  rintro ⟨rounds, segments, hsome⟩
  rw [allSegmentsLoop_stuck (by decide) (by decide)] at hsome
  cases hsome

end ServerAsync
