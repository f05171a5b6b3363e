import ServerAsync.HandlerFile
import ServerAsync.Misc.Path

/-!
# What the file handler can open

The handler looks for ".." anywhere in the target and then takes the target as a path
below its root. The path is resolved component by component, so what keeps it below
the root is that a component is a part of the target between two slashes, the root ends
before the first of them, and `index.html` comes after the last.
-/

namespace ServerAsync

open Misc.Path

namespace FileRequestHandler

/-- A target without ".." in it has no component "..". -/
theorem dots_notMem_pieces {target : Text} (h : Text.contains target "..".toList = false) :
    ['.', '.'] ∉ pieces '/' target := by
  intro hmem
  have hcontains : Text.contains target "..".toList = true :=
    Text.contains_iff.mpr (isInfix_of_mem_pieces hmem)
  rw [h] at hcontains
  cases hcontains

/-- Neither has it one with `index.html` behind its last slash. -/
theorem dots_notMem_pieces_index {target : Text} (h : Text.contains target "..".toList = false)
    (hslash : target.getLast? = some '/') :
    ['.', '.'] ∉ pieces '/' (target ++ "index.html".toList) := by
  obtain ⟨front, rfl⟩ := List.getLast?_eq_some_iff.mp hslash
  have hfront := dots_notMem_pieces h
  rw [pieces_concat_self] at hfront
  rw [List.append_assoc, List.singleton_append, pieces_append_cons,
    pieces_of_notMem (show '/' ∉ "index.html".toList by decide), List.mem_append, not_or]
  exact ⟨hfront, by decide⟩

theorem pathCat_append (base target page : Text) :
    pathCat base (target ++ page) = pathCat base target ++ page := by
  unfold pathCat
  split
  · rfl
  split
  · exact (List.append_assoc _ _ _).symm
  · exact (List.append_assoc _ _ _).symm

/-- The seam: whether or not the root ends in a slash, there is one slash between it and
what is below. -/
theorem pathCat_below {docRoot rest : Text} (hroot : docRoot ≠ [])
    (hrest : ['.', '.'] ∉ pieces '/' ('/' :: rest)) :
    Below '/' '.' docRoot (pathCat docRoot ('/' :: rest)) := by
  rw [pieces_cons_self] at hrest
  unfold pathCat
  rw [if_neg hroot]
  by_cases hslash : docRoot.getLast? = some '/'
  · rw [if_pos hslash]
    obtain ⟨front, rfl⟩ := List.getLast?_eq_some_iff.mp hslash
    rw [List.dropLast_concat]
    exact below_concat_slash front hrest
  · rw [if_neg hslash]
    exact below_append_cons hroot hrest

theorem path_below {docRoot : Text} (hroot : docRoot ≠ []) {req0 : Request}
    (hslash : req0.target.head? = some '/')
    (hdots : Text.contains req0.target "..".toList = false) :
    Below '/' '.' docRoot (path docRoot req0) := by
  obtain ⟨rest, hrest⟩ := List.head?_eq_some_iff.mp hslash
  unfold path
  by_cases hdirectory : req0.target.getLast? = some '/'
  · have hpieces := dots_notMem_pieces_index hdots hdirectory
    rw [if_pos hdirectory, ← pathCat_append]
    rw [hrest, List.cons_append] at hpieces ⊢
    exact pathCat_below hroot hpieces
  · have hpieces := dots_notMem_pieces hdots
    rw [if_neg hdirectory]
    rw [hrest] at hpieces ⊢
    exact pathCat_below hroot hpieces

/-- What a request makes the handler open is at or below the root, and the handler sees
nothing else of the files. -/
theorem path_contained {docRoot : Text} (hroot : docRoot ≠ []) {req0 : Request}
    (hslash : req0.target.head? = some '/')
    (hdots : Text.contains req0.target "..".toList = false) :
    Below '/' '.' docRoot (path docRoot req0) ∧
      ∀ (beast : Beast) (scan scan' : Text → Opened),
        scan (path docRoot req0) = scan' (path docRoot req0) →
          handleRequest beast docRoot req0 scan = handleRequest beast docRoot req0 scan' :=
  ⟨path_below hroot hslash hdots,
    fun beast _ _ h => handleRequest_congr beast docRoot req0 fun _ => h⟩

/-- A root that steps back itself, and a target with empty and "." components. -/
theorem path_contained_index :
    let docRoot := "../srv/".toList
    let req0 : Request := ⟨.get, "/.//docs/".toList, 11, []⟩
    Below '/' '.' docRoot (path docRoot req0) ∧
      resolve '/' '.' (path docRoot req0) =
        ⟨false, ["..".toList, "srv".toList, "docs".toList, "index.html".toList]⟩ :=
  ⟨(path_contained (by decide) (by decide) (by decide)).1, by decide +kernel⟩

/-- Two file systems that differ above the root only give the same responses. -/
theorem handleRequest_contained {docRoot : Text} (hroot : docRoot ≠ []) (beast : Beast)
    (req0 : Request) {scan scan' : Text → Opened}
    (h : ∀ t, Below '/' '.' docRoot t → scan t = scan' t) :
    handleRequest beast docRoot req0 scan = handleRequest beast docRoot req0 scan' := by
  apply handleRequest_congr
  rintro ⟨-, hslash, hdots⟩
  exact h _ (path_below hroot hslash hdots)

end FileRequestHandler

end ServerAsync
