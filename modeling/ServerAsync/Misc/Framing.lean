import Mathlib.Data.List.Infix

/-!
# Streams that are made of pieces

A stream that is the concatenation of pieces, such as the messages a peer sends,
and the positions in it at which the pieces start.
-/

namespace ServerAsync.Misc.Framing

variable {β : Type*}

/-- Where the piece with the number `k` starts. -/
def start (pieces : List (List β)) (k : Nat) : Nat := (pieces.take k).flatten.length

theorem start_succ {pieces : List (List β)} {k : Nat} {piece : List β} {rest : List (List β)}
    (h : pieces.drop k = piece :: rest) : start pieces (k + 1) = start pieces k + piece.length := by
  have hpiece : pieces[k]? = some piece := by
    rw [← List.head?_drop, h]
    rfl
  unfold start
  rw [List.take_add_one, hpiece]
  simp

/-- From the start of a piece on, the stream is made of the pieces from there. -/
theorem drop_start (pieces : List (List β)) (k : Nat) :
    pieces.flatten.drop (start pieces k) = (pieces.drop k).flatten := by
  have hsplit : pieces.flatten = (pieces.take k).flatten ++ (pieces.drop k).flatten := by
    rw [← List.flatten_append, List.take_append_drop]
  rw [hsplit]
  exact List.drop_left

end ServerAsync.Misc.Framing
