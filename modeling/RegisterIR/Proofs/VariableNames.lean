import RegisterIR.Proofs.MembershipTests
import RegisterIR.Script.Compile

/-! Names of variables. Sanitizing a name loses what it was, and tables may give one name to many
registers; it is the number that keeps variables apart. Its digits end where the name ends or has an
underscore, so they can be told from what follows, and the digit after the first letter sets a
variable apart from every other word of a script. -/

namespace RegisterIR

namespace Script

/-- A text of the form `r`, decimal digits of the given value, and then nothing or an underscore
with letters, digits and underscores behind it. -/
def IsVariable (number : Nat) (text : List Char) : Prop :=
  ∃ digits suffix, text = 'r' :: digits ++ suffix ∧
    (digits ≠ [] ∧ digits.all Char.isDigit = true ∧ Text.ofDigits 10 digits = number) ∧
    (suffix = [] ∨ ∃ word, suffix = '_' :: word ∧ word.all Reading.isWordChar = true)

namespace IsVariable

variable {number other : Nat} {text : List Char}

theorem takeWhile_isDigit {digits suffix : List Char} (all : digits.all Char.isDigit = true)
    (behind : suffix = [] ∨ ∃ word, suffix = '_' :: word ∧ word.all Reading.isWordChar = true) :
    (digits ++ suffix).takeWhile Char.isDigit = digits := by
  have ends : ∀ c ∈ suffix.head?, c.isDigit = false := by
    rcases behind with rfl | ⟨word, rfl, _⟩
    · simp
    · rintro _ ⟨⟩
      rfl
  exact (Reading.takeWhile_append_of_ends (List.all_eq_true.mp all) ends).1

theorem number_eq (h : IsVariable number text) :
    Text.ofDigits 10 (text.tail.takeWhile Char.isDigit) = number := by
  obtain ⟨digits, suffix, rfl, ⟨_, all, value⟩, behind⟩ := h
  rw [List.cons_append, List.tail_cons, takeWhile_isDigit all behind, value]

theorem unique (h : IsVariable number text) (h' : IsVariable other text) : number = other := by
  rw [← h.number_eq, h'.number_eq]

theorem exists_digit (h : IsVariable number text) :
    ∃ d rest, text = 'r' :: d :: rest ∧ d.isDigit = true := by
  obtain ⟨digits, suffix, rfl, ⟨nonempty, all, _⟩, _⟩ := h
  obtain ⟨d, digits, rfl⟩ := List.exists_cons_of_ne_nil nonempty
  exact ⟨d, digits ++ suffix, rfl, List.all_eq_true.mp all d List.mem_cons_self⟩

theorem all_isWordChar (h : IsVariable number text) : text.all isWordChar = true := by
  obtain ⟨digits, suffix, rfl, ⟨_, all, _⟩, behind⟩ := h
  have numeral : ∀ c ∈ digits, isWordChar c = true := fun c member => by
    simp [isWordChar, Char.isAlphanum, List.all_eq_true.mp all c member]
  have name : ∀ c ∈ suffix, isWordChar c = true := by
    rcases behind with rfl | ⟨word, rfl, letters⟩
    · simp
    · refine List.forall_mem_cons.mpr ⟨by decide, fun c member => ?_⟩
      rw [isWordChar, ← Reading.isWordChar, List.all_eq_true.mp letters c member, Bool.true_or]
  exact List.all_eq_true.mpr
    (List.forall_mem_append.mpr ⟨List.forall_mem_cons.mpr ⟨by decide, numeral⟩, name⟩)

end IsVariable

/-- Whether the second character is no digit, as in all words of a script but variables. -/
def isSpelled (word : String) : Bool := (word.toList.tail.head?.map Char.isDigit) != some true

theorem IsVariable.ne_of_isSpelled {number : Nat} {name word : String}
    (h : IsVariable number name.toList) (spelled : isSpelled word = true) : name ≠ word := by
  rintro rfl
  obtain ⟨d, rest, shape, digit⟩ := h.exists_digit
  simp [isSpelled, shape, digit] at spelled

theorem isSpelled_lambdaName (id : Nat) : isSpelled (lambdaName id) = true := by
  simp [isSpelled, lambdaName]

theorem IsVariable.isName {number : Nat} {name : String} (h : IsVariable number name.toList) :
    IsName name := by
  have keywordsSpelled : keywords.all (fun entry => isSpelled entry.1) = true := by decide
  have reservedSpelled : reserved.all isSpelled = true := by decide
  have noKeyword : keywords.lookup name = none := by
    refine List.lookup_eq_none_iff.mpr fun entry member => ?_
    exact bne_iff_ne.mpr (h.ne_of_isSpelled (List.all_eq_true.mp keywordsSpelled entry member))
  have notReserved : name ∉ reserved := fun member =>
    h.ne_of_isSpelled (List.all_eq_true.mp reservedSpelled name member) rfl
  refine ⟨h.all_isWordChar, ?_, ?_⟩
  · obtain ⟨d, rest, shape, _⟩ := h.exists_digit
    exact ⟨'r', by simp [shape], rfl⟩
  · rw [Token.ofWord, noKeyword]
    exact if_neg notReserved

end Script

namespace Function

open Script

variable {φ : Type}

theorem isVariable_variableName (function : Function φ) (register : Register) :
    IsVariable register (function.variableName register).toList := by
  have number : (toString register).toList ≠ [] ∧
      (toString register).toList.all Char.isDigit = true ∧
      Text.ofDigits 10 (toString register).toList = register :=
    ⟨(Reading.isWord_toString register).1, Reading.all_isDigit_toString register,
      Reading.ofDigits_toString register⟩
  rw [variableName]
  cases function.registerName? register with
  | none => exact ⟨_, [], by simp, number, .inl rfl⟩
  | some name =>
    have sanitized : (name.toList.map fun c => if c.isAlphanum then c else '_').all
        Reading.isWordChar = true := by
      refine List.all_eq_true.mpr fun c member => ?_
      obtain ⟨original, _, rfl⟩ := List.mem_map.mp member
      split <;> simp_all [Reading.isWordChar]
    exact ⟨_, _, by simp, number, .inr ⟨_, rfl, sanitized⟩⟩

/-- Two different registers, of one function or of two and under any names, have variables with
different names. A variable has a name that the script language allows, with the number of its
register; it is none of the words that scripts hold otherwise, and no lambda. -/
theorem variableName_never_clashes (function : Function φ) (register : Register) :
    (∀ {ψ : Type} (other : Function ψ) (register' : Register), register ≠ register' →
      function.variableName register ≠ other.variableName register') ∧
    IsVariable register (function.variableName register).toList ∧
    IsName (function.variableName register) ∧
    (∀ word ∈ ["globals", "fail", "state", "undefined", "Array"],
      function.variableName register ≠ word) ∧
    ∀ id, function.variableName register ≠ lambdaName id := by
  have form := function.isVariable_variableName register
  have spelled : ["globals", "fail", "state", "undefined", "Array"].all isSpelled = true := by
    decide
  refine ⟨fun other register' different same => ?_, form, form.isName, fun word member => ?_,
    fun id => form.ne_of_isSpelled (isSpelled_lambdaName id)⟩
  · have form' := other.isVariable_variableName register'
    rw [← same] at form'
    exact different (form.unique form')
  · exact form.ne_of_isSpelled (List.all_eq_true.mp spelled word member)

/-- Two names that come out the same, and one that could be taken for the end of a number. -/
example :
    let function : Function Nat := ⟨"f", 0, 3, 0, [some "a b", some "a_b", some "1"], []⟩
    (function.variableName 0, function.variableName 1, function.variableName 2,
      function.variableName 21) = ("r0_a_b", "r1_a_b", "r2_1", "r21") := by decide +kernel

end Function

end RegisterIR
