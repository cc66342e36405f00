/-!
# ScriptFront.Text.Bytes

The **size of a text in bytes** of its UTF-8 form, which is the unit of every offset in this
library. The size is additive (`byteSize_append`), it is zero only for the empty text
(`byteSize_eq_zero`), and it is never smaller than the number of characters
(`length_le_byteSize`).
-/

namespace ScriptFront.Text

/-- The number of bytes that the UTF-8 form of a text takes. -/
def byteSize (text : List Char) : Nat :=
  text.foldr (fun c size => c.utf8Size + size) 0

@[simp] theorem byteSize_nil : byteSize [] = 0 := rfl

@[simp] theorem byteSize_cons (c : Char) (cs : List Char) :
    byteSize (c :: cs) = c.utf8Size + byteSize cs := rfl

@[simp] theorem byteSize_append (cs ds : List Char) :
    byteSize (cs ++ ds) = byteSize cs + byteSize ds := by
  induction cs with
  | nil => simp
  | cons c cs ih => simp [ih, Nat.add_assoc]

theorem length_le_byteSize (cs : List Char) : cs.length ≤ byteSize cs := by
  induction cs with
  | nil => simp
  | cons c cs ih =>
    have := c.utf8Size_pos
    simp only [List.length_cons, byteSize_cons]
    omega

@[simp] theorem byteSize_eq_zero {cs : List Char} : byteSize cs = 0 ↔ cs = [] := by
  constructor
  · intro h
    have := length_le_byteSize cs
    exact List.eq_nil_of_length_eq_zero (by omega)
  · rintro rfl
    rfl

theorem byteSize_pos {cs : List Char} (h : cs ≠ []) : 0 < byteSize cs :=
  Nat.pos_of_ne_zero (mt byteSize_eq_zero.mp h)

/-- A text cut at any character keeps its size. -/
theorem byteSize_take_add_drop (n : Nat) (cs : List Char) :
    byteSize (cs.take n) + byteSize (cs.drop n) = byteSize cs := by
  rw [← byteSize_append, List.take_append_drop]

end ScriptFront.Text
