import CommandGrammar.Text.Basic

/-! The UTF-8 form of a text and the stretch of it that a range stands for. -/
namespace CommandGrammar.Text

def utf8 (t : Text) : List UInt8 := t.flatMap String.utf8EncodeChar

/-- The bytes of a text inside a range. -/
def bytesIn (t : Text) (r : Range) : List UInt8 := (t.utf8.take r.stop).drop r.start

@[simp] theorem utf8_append (s t : Text) : utf8 (s ++ t) = utf8 s ++ utf8 t :=
  List.flatMap_append

/-- The size in bytes is the length of the UTF-8 form. -/
@[simp] theorem length_utf8 (t : Text) : t.utf8.length = t.byteSize := by
  induction t with
  | nil => rfl
  | cons c t ih =>
    rw [utf8, List.flatMap_cons, List.length_append, String.length_utf8EncodeChar, ← utf8, ih,
      byteSize_cons]

theorem byteSize_pos {t : Text} (h : t ≠ []) : 0 < t.byteSize := by
  obtain ⟨c, t, rfl⟩ := List.exists_cons_of_ne_nil h
  have := c.utf8Size_pos
  rw [byteSize_cons]
  omega

theorem take_utf8_append (s t : Text) : (utf8 (s ++ t)).take s.byteSize = s.utf8 := by
  rw [utf8_append, ← length_utf8, List.take_left]

/-- A range that begins and ends with a part of a text has the bytes of that part. -/
theorem bytesIn_append (before middle after : Text) :
    bytesIn (before ++ middle ++ after) ⟨before.byteSize, (before ++ middle).byteSize⟩ =
      middle.utf8 := by
  rw [bytesIn, take_utf8_append, utf8_append, ← length_utf8, List.drop_left]

theorem bytesIn_point (t : Text) (position : Nat) : bytesIn t (.point position) = [] := by
  rw [bytesIn, Range.point, List.drop_eq_nil_iff, List.length_take]
  exact Nat.min_le_left _ _

end CommandGrammar.Text
