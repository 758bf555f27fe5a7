/-! Parts of a text before and after a byte offset. An offset that lies inside a character or beyond
the end of the text has none. -/

namespace RegisterIR.Text

def splitAt? (text : String) (offset : Nat) : Option (String × String) :=
  if valid : String.Pos.Raw.IsValid text ⟨offset⟩ then
    some ((text.sliceTo ⟨⟨offset⟩, valid⟩).copy, (text.sliceFrom ⟨⟨offset⟩, valid⟩).copy)
  else none

def before? (text : String) (offset : Nat) : Option String := (splitAt? text offset).map Prod.fst

def after? (text : String) (offset : Nat) : Option String := (splitAt? text offset).map Prod.snd

def between? (text : String) (start stop : Nat) : Option String :=
  (before? text stop).bind (after? · start)

variable {text before rest part : String} {offset start stop : Nat}

theorem splitAt?_eq_some_iff :
    splitAt? text offset = some (before, rest) ↔
      text = before ++ rest ∧ offset = before.utf8ByteSize := by
  constructor
  · intro h
    rw [splitAt?] at h
    split at h
    · rename_i valid
      have splits := String.Pos.splits (⟨⟨offset⟩, valid⟩ : text.Pos)
      obtain ⟨rfl, rfl⟩ := Prod.mk.inj (Option.some.inj h)
      exact ⟨splits.eq_append, congrArg String.Pos.Raw.byteIdx splits.offset_eq_rawEndPos⟩
    · cases h
  · rintro ⟨parts, rfl⟩
    have valid : String.Pos.Raw.IsValid text ⟨before.utf8ByteSize⟩ :=
      String.Pos.Raw.isValid_iff_exists_append.mpr ⟨before, rest, parts, rfl⟩
    have splits : String.Pos.Splits (⟨_, valid⟩ : text.Pos) before rest := ⟨parts, rfl⟩
    have whole := String.Pos.splits (⟨_, valid⟩ : text.Pos)
    rw [splitAt?, dif_pos valid, whole.eq_left splits, whole.eq_right splits]

theorem before?_eq_some_iff : before? text offset = some before ↔
    ∃ rest, text = before ++ rest ∧ offset = before.utf8ByteSize := by
  simp only [before?, Option.map_eq_some_iff, Prod.exists, exists_and_right, exists_eq_right,
    splitAt?_eq_some_iff]

theorem after?_eq_some_iff : after? text offset = some rest ↔
    ∃ before, text = before ++ rest ∧ offset = before.utf8ByteSize := by
  simp only [after?, Option.map_eq_some_iff, Prod.exists, exists_eq_right, splitAt?_eq_some_iff]

theorem between?_of_append (parts : text = before ++ part ++ rest) :
    between? text before.utf8ByteSize (before ++ part).utf8ByteSize = some part := by
  have first : before? text (before ++ part).utf8ByteSize = some (before ++ part) :=
    before?_eq_some_iff.mpr ⟨rest, parts, rfl⟩
  rw [between?, first]
  exact after?_eq_some_iff.mpr ⟨before, rfl, rfl⟩

end RegisterIR.Text
