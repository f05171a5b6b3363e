import Mathlib.Data.List.Infix

/-!
# Paths

A path is a list of characters, of which one separates its components and another one
makes the two special components, "." and "..". Its resolution is lexical: it drops
empty components and ".", and lets ".." take back the component before it. Above the
root of an absolute path is the root; a relative path keeps the ".." that take nothing
back.
-/

namespace ServerAsync.Misc.Path

variable {α : Type*} [DecidableEq α]

/-- The pieces of a list between separators, without the empty ones. -/
def pieces (sep : α) (t : List α) : List (List α) := (t.splitOn sep).filter (· ≠ [])

section

variable {sep : α}

@[simp] theorem pieces_nil : pieces sep [] = [] := rfl

theorem pieces_append_cons (t u : List α) :
    pieces sep (t ++ sep :: u) = pieces sep t ++ pieces sep u := by
  rw [pieces, List.splitOn_append_cons_self, List.filter_append]
  rfl

theorem pieces_cons_self (t : List α) : pieces sep (sep :: t) = pieces sep t :=
  pieces_append_cons [] t

theorem pieces_concat_self (t : List α) : pieces sep (t ++ [sep]) = pieces sep t := by
  rw [pieces_append_cons, pieces_nil, List.append_nil]

theorem pieces_of_notMem {t : List α} (h : sep ∉ t) :
    pieces sep t = if t = [] then [] else [t] := by
  rw [pieces, List.splitOn_eq_singleton h]
  by_cases ht : t = []
  · rw [ht]
    rfl
  · simp [ht]

/-- A list without a piece is made of separators. -/
theorem pieces_eq_nil_iff {t : List α} : pieces sep t = [] ↔ ∀ x ∈ t, x = sep := by
  induction t with
  | nil => exact iff_of_true rfl (fun _ h => nomatch h)
  | cons x t ih =>
    rw [List.forall_mem_cons]
    by_cases hx : x = sep
    · rw [hx, pieces_cons_self, ih]
      exact (and_iff_right rfl).symm
    · refine iff_of_false ?_ (fun h => hx h.1)
      rw [pieces, List.splitOn_cons_eq_if_modifyHead, if_neg (mt beq_iff_eq.mp hx)]
      cases hsplit : t.splitOn sep with
      | nil => exact absurd hsplit (List.splitOn_ne_nil sep t)
      | cons d ds =>
        rw [List.modifyHead_cons]
        exact List.ne_nil_of_mem (List.mem_filter.mpr ⟨List.mem_cons_self, by simp⟩)

/-- A piece is a part of the list. -/
theorem isInfix_of_mem_pieces {t c : List α} (h : c ∈ pieces sep t) : c <:+: t := by
  have hmem : c ∈ t.splitOn sep := List.mem_of_mem_filter h
  have hparts : ∀ cs : List (List α), c ∈ cs → c <:+: [sep].intercalate cs := by
    intro cs hc
    induction cs with
    | nil => cases hc
    | cons d rest ih =>
      cases rest with
      | nil =>
        rw [List.mem_singleton.mp hc]
        simp
      | cons e more =>
        rw [List.intercalate_cons_cons]
        rcases List.mem_cons.mp hc with rfl | hc
        · exact ⟨[], [sep] ++ [sep].intercalate (e :: more), by simp⟩
        · exact (ih hc).trans (List.suffix_append _ _).isInfix
  have hwhole := hparts _ hmem
  rwa [List.intercalate_splitOn] at hwhole

theorem sep_notMem_of_mem_pieces {t c : List α} (h : c ∈ pieces sep t) : sep ∉ c := by
  have hmem : c ∈ t.splitOn sep := List.mem_of_mem_filter h
  clear h
  induction t generalizing c with
  | nil =>
    rw [List.splitOn_nil, List.mem_singleton] at hmem
    rw [hmem]
    exact List.not_mem_nil
  | cons x t ih =>
    rw [List.splitOn_cons_eq_if_modifyHead] at hmem
    by_cases hx : x = sep
    · rw [if_pos (beq_iff_eq.mpr hx)] at hmem
      rcases List.mem_cons.mp hmem with rfl | hmem
      · exact List.not_mem_nil
      · exact ih hmem
    · rw [if_neg (mt beq_iff_eq.mp hx)] at hmem
      cases hsplit : t.splitOn sep with
      | nil => exact absurd hsplit (List.splitOn_ne_nil sep t)
      | cons d ds =>
        rw [hsplit, List.modifyHead_cons] at hmem
        rw [hsplit] at ih
        rcases List.mem_cons.mp hmem with rfl | hmem
        · rw [List.mem_cons, not_or]
          exact ⟨Ne.symm hx, ih List.mem_cons_self⟩
        · exact ih (List.mem_cons_of_mem d hmem)

theorem ne_nil_of_mem_pieces {t c : List α} (h : c ∈ pieces sep t) : c ≠ [] :=
  of_decide_eq_true (List.mem_filter.mp h).2

end

/-! ## Resolution -/

/-- What a path resolves to. -/
structure Resolved (α : Type*) where
  absolute : Bool
  components : List (List α)
  deriving DecidableEq, Repr

/-- The path that goes on from here. -/
def Resolved.extend (r : Resolved α) (below : List (List α)) : Resolved α :=
  { r with components := r.components ++ below }

/-- One component further. -/
def enter (dot : α) (absolute : Bool) (sofar : List (List α)) (c : List α) : List (List α) :=
  if c = [dot] then sofar
  else if c = [dot, dot] then
    match sofar.getLast? with
    | none => if absolute then [] else [c]
    | some last => if last = [dot, dot] then sofar ++ [c] else sofar.dropLast
  else sofar ++ [c]

def absolute (slash : α) (t : List α) : Bool := t.head? == some slash

/-- The resolution of a path. -/
def resolve (slash dot : α) (t : List α) : Resolved α where
  absolute := absolute slash t
  components := (pieces slash t).foldl (enter dot (absolute slash t)) []

/-- A component that names a file or a directory of its directory. -/
def Ordinary (slash dot : α) (c : List α) : Prop :=
  c ≠ [] ∧ c ≠ [dot] ∧ c ≠ [dot, dot] ∧ slash ∉ c

variable {slash dot : α}

/-- Components other than ".." only go down. -/
theorem foldl_enter {absolute : Bool} {cs : List (List α)} (h : ∀ c ∈ cs, c ≠ [dot, dot])
    (sofar : List (List α)) :
    cs.foldl (enter dot absolute) sofar = sofar ++ cs.filter (· ≠ [dot]) := by
  induction cs generalizing sofar with
  | nil => exact (List.append_nil sofar).symm
  | cons c cs ih =>
    have hc : c ≠ [dot, dot] := h c List.mem_cons_self
    have hcs : ∀ d ∈ cs, d ≠ [dot, dot] := fun d hd => h d (List.mem_cons_of_mem c hd)
    rw [List.foldl_cons, ih hcs]
    by_cases hdot : c = [dot]
    · simp [enter, hdot]
    · simp [enter, hdot, hc]

/-- A path tells by its first character whether it is absolute. -/
theorem absolute_append {t : List α} (h : t ≠ []) (u : List α) :
    absolute slash (t ++ u) = absolute slash t := by
  cases t with
  | nil => exact absurd rfl h
  | cons x t => rfl

/-- A slash at the end of a path makes no difference. -/
theorem resolve_concat_slash {t : List α} (h : t ≠ []) :
    resolve slash dot (t ++ [slash]) = resolve slash dot t := by
  unfold resolve
  rw [absolute_append h, pieces_concat_self]

/-- Behind a slash, a path without ".." goes on from what is before it. -/
theorem resolve_append_cons (t : List α) {u : List α} (h : [dot, dot] ∉ pieces slash u) :
    resolve slash dot (t ++ slash :: u) =
      (resolve slash dot (t ++ [slash])).extend ((pieces slash u).filter (· ≠ [dot])) := by
  have hcs : ∀ c ∈ pieces slash u, c ≠ [dot, dot] := fun c hc heq => h (heq ▸ hc)
  have habs : absolute slash (t ++ slash :: u) = absolute slash (t ++ [slash]) := by
    rw [← absolute_append (List.concat_ne_nil slash t) u, List.append_assoc, List.singleton_append]
  unfold resolve Resolved.extend
  rw [habs, pieces_append_cons, List.foldl_append, foldl_enter hcs, pieces_concat_self]

/-! ## Containment -/

/-- The paths that resolve to what a path resolves to, or to something below it. -/
def Below (slash dot : α) (root t : List α) : Prop :=
  ∃ below : List (List α), (∀ c ∈ below, Ordinary slash dot c) ∧
    resolve slash dot t = (resolve slash dot root).extend below

theorem below_concat_slash (t : List α) {u : List α} (h : [dot, dot] ∉ pieces slash u) :
    Below slash dot (t ++ [slash]) (t ++ slash :: u) := by
  refine ⟨(pieces slash u).filter (· ≠ [dot]), ?_, resolve_append_cons t h⟩
  intro c hc
  obtain ⟨hmem, hdot⟩ := List.mem_filter.mp hc
  refine ⟨ne_nil_of_mem_pieces hmem, of_decide_eq_true hdot, ?_, sep_notMem_of_mem_pieces hmem⟩
  rintro rfl
  exact h hmem

theorem below_append_cons {t u : List α} (ht : t ≠ []) (hu : [dot, dot] ∉ pieces slash u) :
    Below slash dot t (t ++ slash :: u) := by
  obtain ⟨below, hordinary, hresolve⟩ := below_concat_slash t hu
  refine ⟨below, hordinary, ?_⟩
  rw [hresolve, resolve_concat_slash ht]

end ServerAsync.Misc.Path
