import ScriptFront.Text.Bytes

/-!
# ScriptFront.Source.Cursor

A **cursor** in a source text: the characters that are still to be read and the number of bytes
before them. The number of bytes still to be read is kept beside the characters, since every loop
of a reader asks for it; `skip` is the one way to move.
-/

namespace ScriptFront

open Text (byteSize)

/-- A place between two characters of a text. -/
structure Cursor where
  /-- The characters behind the place. -/
  unread : List Char
  /-- The number of bytes before the place. -/
  offset : Nat
  /-- The number of bytes behind the place. -/
  left : Nat
  /-- The count agrees with the characters. -/
  left_eq : left = byteSize unread

namespace Cursor

/-- The place before the first character of a text. -/
def start (text : List Char) : Cursor where
  unread := text
  offset := 0
  left := byteSize text
  left_eq := rfl

/-- The place some characters further on, or the end if fewer are left. -/
def skip (count : Nat) (cursor : Cursor) : Cursor where
  unread := cursor.unread.drop count
  offset := cursor.offset + byteSize (cursor.unread.take count)
  left := cursor.left - byteSize (cursor.unread.take count)
  left_eq := by
    have := Text.byteSize_take_add_drop count cursor.unread
    have := cursor.left_eq
    omega

/-- Whether nothing is left. -/
def atEnd (cursor : Cursor) : Bool :=
  cursor.unread.isEmpty

@[simp] theorem unread_skip (count : Nat) (cursor : Cursor) :
    (cursor.skip count).unread = cursor.unread.drop count := rfl

@[simp] theorem offset_skip (count : Nat) (cursor : Cursor) :
    (cursor.skip count).offset = cursor.offset + byteSize (cursor.unread.take count) := rfl

/-- A move over at least one character leaves less to read. -/
theorem left_skip_lt {count : Nat} {cursor : Cursor} (some_count : count ≠ 0)
    (some_unread : cursor.unread ≠ []) : (cursor.skip count).left < cursor.left := by
  have size := cursor.left_eq
  have moved : 0 < byteSize (cursor.unread.take count) :=
    Text.byteSize_pos (by simp [some_count, some_unread])
  have total : 0 < byteSize cursor.unread := Text.byteSize_pos some_unread
  simp only [skip]
  omega

theorem left_eq_zero {cursor : Cursor} : cursor.left = 0 ↔ cursor.unread = [] := by
  rw [cursor.left_eq, Text.byteSize_eq_zero]

end Cursor

end ScriptFront
