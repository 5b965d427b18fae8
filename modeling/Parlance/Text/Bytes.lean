/-! Texts by their bytes. Offsets into a text count bytes of UTF-8, and a text can be cut only
between two characters. -/

namespace Parlance.Text

def byteSize : List Char → Nat
  | [] => 0
  | char :: rest => char.utf8Size + byteSize rest

/-- The text before and the text after an offset, unless it is inside a character or behind the
end. -/
def cut? : Nat → List Char → Option (List Char × List Char)
  | 0, text => some ([], text)
  | _ + 1, [] => none
  | offset + 1, char :: rest =>
      if char.utf8Size ≤ offset + 1 then
        (cut? (offset + 1 - char.utf8Size) rest).map fun (before, after) => (char :: before, after)
      else none

def after? (offset : Nat) (text : List Char) : Option (List Char) :=
  (cut? offset text).map Prod.snd

def slice? (start stop : Nat) (text : List Char) : Option (List Char) :=
  if stop < start then none
  else (after? start text).bind fun rest => (cut? (stop - start) rest).map Prod.fst

@[simp] theorem byteSize_append (before after : List Char) :
    byteSize (before ++ after) = byteSize before + byteSize after := by
  induction before with
  | nil => simp [byteSize]
  | cons char rest ih => simp [byteSize, ih, Nat.add_assoc]

theorem byteSize_pos {text : List Char} (some : text ≠ []) : 0 < byteSize text := by
  cases text with
  | nil => contradiction
  | cons char rest => exact Nat.add_pos_left char.utf8Size_pos _

theorem cut?_append (before after : List Char) :
    cut? (byteSize before) (before ++ after) = some (before, after) := by
  induction before with
  | nil => cases after <;> rfl
  | cons char rest ih =>
      obtain ⟨size, total⟩ := Nat.exists_eq_add_one.mpr (byteSize_pos (List.cons_ne_nil char rest))
      have within : char.utf8Size ≤ size + 1 := by rw [← total]; exact Nat.le_add_right _ _
      have left : size + 1 - char.utf8Size = byteSize rest := by
        rw [← total, byteSize, Nat.add_sub_cancel_left]
      rw [total, List.cons_append, cut?, if_pos within, left, ih]
      rfl

theorem after?_append (before after : List Char) :
    after? (byteSize before) (before ++ after) = some after := by
  rw [after?, cut?_append]
  rfl

theorem slice?_append (before inner after : List Char) :
    slice? (byteSize before) (byteSize before + byteSize inner) (before ++ (inner ++ after)) =
      some inner := by
  rw [slice?, if_neg (by omega), after?_append, Option.bind_some, Nat.add_sub_cancel_left, cut?_append]
  rfl

theorem slice?_prefix (inner after : List Char) :
    slice? 0 (byteSize inner) (inner ++ after) = some inner := by
  simpa only [byteSize, Nat.zero_add, List.nil_append] using slice?_append [] inner after

end Parlance.Text
