import Mathlib.Data.List.Forall2
import RegisterIR.Proofs.ReaderMotions

/-! Quoted texts are lossless and end by themselves. Between its quotes such a text is a row of
parts, one for each character that was written; only escapes contain quotes and backslashes, and
nothing contains a control character. So it can stand in front of anything. -/

namespace RegisterIR.Text

/-- A part of a quoted text and the character that it stands for: a visible character for itself,
or an escape. -/
inductive Stands : List Char → Char → Prop
  | itself {c : Char} : c ≠ '"' → c ≠ '\\' → isControl c = false → Stands [c] c
  | quote : Stands ['\\', '"'] '"'
  | backslash : Stands ['\\', '\\'] '\\'
  | newline : Stands ['\\', 'n'] '\n'
  | carriage : Stands ['\\', 'r'] '\r'
  | tab : Stands ['\\', 't'] '\t'
  | number {digits : List Char} {c : Char} : digits ≠ [] → (∀ d ∈ digits, isHexDigit d = true) →
      ofDigits 16 digits = c.toNat → Stands (['\\', 'u', '\x7b'] ++ digits ++ ['\x7d']) c

theorem stands_escaped (c : Char) : Stands (escaped c) c := by
  by_cases quote : c = '"'
  · subst quote
    exact .quote
  by_cases backslash : c = '\\'
  · subst backslash
    exact .backslash
  by_cases newline : c = '\n'
  · subst newline
    exact .newline
  by_cases carriage : c = '\r'
  · subst carriage
    exact .carriage
  by_cases tab : c = '\t'
  · subst tab
    exact .tab
  rw [escaped, if_neg quote, if_neg backslash, if_neg newline, if_neg carriage, if_neg tab]
  split
  · exact .number Nat.toDigits_ne_nil (isHexDigit_of_mem_toDigits c.toNat)
      (ofDigits_toDigits (by decide) (by decide) c.toNat)
  · rename_i visible
    exact .itself quote backslash (Bool.eq_false_iff.mpr visible)

theorem isControl_of_isHexDigit {d : Char} (h : isHexDigit d = true) : isControl d = false := by
  have range := Reading.toNat_of_isWordChar (Reading.isWordChar_of_isHexDigit h)
  simp only [isControl, Bool.or_eq_false_iff, Bool.and_eq_false_iff, decide_eq_false_iff_not]
  omega

theorem visible_of_all {part : List Char} (h : part.all (!isControl ·) = true) :
    ∀ d ∈ part, isControl d = false := fun d member => by
  have here := List.all_eq_true.mp h d member
  rwa [Bool.not_eq_true'] at here

theorem Stands.visible {part : List Char} {c : Char} (h : Stands part c) :
    ∀ d ∈ part, isControl d = false := by
  cases h with
  | itself quote backslash visible => simpa using visible
  | quote => exact visible_of_all (by decide)
  | backslash => exact visible_of_all (by decide)
  | newline => exact visible_of_all (by decide)
  | carriage => exact visible_of_all (by decide)
  | tab => exact visible_of_all (by decide)
  | number nonempty hexadecimal value =>
    have opening : ∀ d ∈ ['\\', 'u', '\x7b'], isControl d = false :=
      visible_of_all (by decide)
    have closing : ∀ d ∈ ['\x7d'], isControl d = false := visible_of_all (by decide)
    have digits : ∀ d ∈ _, isControl d = false := fun d digit =>
      isControl_of_isHexDigit (hexadecimal d digit)
    exact List.forall_mem_append.mpr ⟨List.forall_mem_append.mpr ⟨opening, digits⟩, closing⟩

theorem forall₂_stands (content : List Char) :
    List.Forall₂ Stands (content.map escaped) content := by
  induction content with
  | nil => exact .nil
  | cons c content ih => exact .cons (stands_escaped c) ih

theorem isControl_of_mem_quotedChars (content : List Char) :
    ∀ d ∈ quotedChars content, isControl d = false := by
  have written : ∀ d ∈ content.flatMap escaped, isControl d = false := by
    intro d member
    obtain ⟨c, _, shown⟩ := List.mem_flatMap.mp member
    exact (stands_escaped c).visible d shown
  have ends : ∀ d ∈ ['"'], isControl d = false := visible_of_all (by decide)
  exact List.forall_mem_append.mpr ⟨List.forall_mem_cons.mpr ⟨by decide, written⟩, ends⟩

/-- Quoted text has no control character, and no quote or backslash but its two ends and those in
escapes. It is read back as it was written whatever follows it, and nothing of that is read; so two
quoted texts with something after them are the same only if they agree in both. -/
theorem quoted_selfDelimiting (content : String) (rest : List Char) :
    (∀ d ∈ (quoted content).toList, isControl d = false) ∧
    (∃ parts : List (List Char), (quoted content).toList = ['"'] ++ parts.flatten ++ ['"'] ∧
      List.Forall₂ Stands parts content.toList) ∧
    Reading.Reads Reading.quoted ((quoted content).toList ++ rest) content rest ∧
    ∀ (other : String) (rest' : List Char),
      (quoted content).toList ++ rest = (quoted other).toList ++ rest' →
        content = other ∧ rest = rest' := by
  have reads (content : String) (rest : List Char) :
      Reading.Reads Reading.quoted ((quoted content).toList ++ rest) content rest := by
    refine Reading.reads_quoted ?_
    rw [toList_quoted]
    exact Reading.skipFrom_solid (by decide) _
  refine ⟨?_, ⟨content.toList.map escaped, ?_, forall₂_stands content.toList⟩,
    reads content rest, fun other rest' same => ?_⟩
  · rw [toList_quoted]
    exact isControl_of_mem_quotedChars content.toList
  · rw [toList_quoted, quotedChars, List.flatMap_def]
    rfl
  · have read := reads content rest
    rw [same] at read
    exact Prod.mk.inj (Except.ok.inj (read.symm.trans (reads other rest')))

end RegisterIR.Text
