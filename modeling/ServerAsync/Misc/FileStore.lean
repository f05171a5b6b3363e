import Mathlib.Data.List.Basic
import Mathlib.Logic.Function.Basic

/-!
# Files and their handles

A store maps paths to contents. An open file has a position, from which the next bytes are
written or read; two handles on one path know nothing of each other. What matters of a write
is that it appends when the handle is at the end of its file, and of the reads through a
handle that together they are a front of a content which stays as it is.
-/

namespace ServerAsync.Misc

/-- The files that there are, with their contents. -/
abbrev FileStore (π α : Type*) := π → Option (List α)

/-- An open file. -/
structure FileHandle (π : Type*) where
  path : π
  position : Nat
  deriving DecidableEq, Repr

namespace FileStore

variable {π α : Type*}

/-- A content after a write at a position. A hole before it is filled with `pad`. -/
def writeAt (pad : α) (content : List α) (position : Nat) (chunk : List α) : List α :=
  content.take position ++ List.replicate (position - content.length) pad ++ chunk ++
    content.drop (position + chunk.length)

/-- A write at the end of a content. -/
@[simp] theorem writeAt_length (pad : α) (content chunk : List α) :
    writeAt pad content content.length chunk = content ++ chunk := by
  have hrest : content.drop (content.length + chunk.length) = [] :=
    List.drop_eq_nil_of_le (Nat.le_add_right _ _)
  simp [writeAt, hrest]

/-- Opening a file for reading. -/
def openScan (path : π) : FileHandle π := ⟨path, 0⟩

/-- A read of up to `count` bytes through a handle. -/
def read (fs : FileStore π α) (handle : FileHandle π) (count : Nat) : List α × FileHandle π :=
  let chunk := (((fs handle.path).getD []).drop handle.position).take count
  (chunk, { handle with position := handle.position + chunk.length })

@[simp] theorem read_path (fs : FileStore π α) (handle : FileHandle π) (count : Nat) :
    (fs.read handle count).2.path = handle.path := rfl

@[simp] theorem read_position (fs : FileStore π α) (handle : FileHandle π) (count : Nat) :
    (fs.read handle count).2.position =
      handle.position + (fs.read handle count).1.length := rfl

/-- What is read from the end of a front on makes it longer. -/
theorem read_front {fs : FileStore π α} {handle : FileHandle π} {content front : List α}
    (hcontent : fs handle.path = some content) (hfront : front <+: content)
    (hposition : handle.position = front.length) (count : Nat) :
    front ++ (fs.read handle count).1 <+: content := by
  obtain ⟨rest, rfl⟩ := hfront
  have hread : (fs.read handle count).1 = rest.take count := by
    simp [read, hcontent, hposition]
  rw [hread, List.prefix_append_right_inj]
  exact List.take_prefix count rest

variable [DecidableEq π]

/-- Opening a file for writing, which creates it or leaves nothing of its content. -/
def openWrite (fs : FileStore π α) (path : π) : FileStore π α × FileHandle π :=
  (Function.update fs path (some []), ⟨path, 0⟩)

/-- A write through a handle. -/
def write (pad : α) (fs : FileStore π α) (handle : FileHandle π) (chunk : List α) :
    FileStore π α × FileHandle π :=
  (Function.update fs handle.path
      (some (writeAt pad ((fs handle.path).getD []) handle.position chunk)),
    { handle with position := handle.position + chunk.length })

@[simp] theorem openWrite_self (fs : FileStore π α) (path : π) :
    (fs.openWrite path).1 path = some [] := Function.update_self ..

@[simp] theorem openWrite_handle (fs : FileStore π α) (path : π) :
    (fs.openWrite path).2 = ⟨path, 0⟩ := rfl

theorem write_self (pad : α) {fs : FileStore π α} {handle : FileHandle π} {content : List α}
    (hcontent : fs handle.path = some content) (chunk : List α) :
    (fs.write pad handle chunk).1 handle.path =
      some (writeAt pad content handle.position chunk) := by
  simp [write, hcontent]

/-- A handle that is at the end of its file appends to it. -/
theorem write_append (pad : α) {fs : FileStore π α} {handle : FileHandle π} {content : List α}
    (hcontent : fs handle.path = some content) (hend : handle.position = content.length)
    (chunk : List α) :
    (fs.write pad handle chunk).1 handle.path = some (content ++ chunk) := by
  rw [write_self pad hcontent, hend, writeAt_length]

end FileStore

end ServerAsync.Misc
