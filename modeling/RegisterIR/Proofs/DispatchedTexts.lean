import RegisterIR.Proofs.EncodingDisjointness
import RegisterIR.Proofs.MembershipTests

/-! The texts that build the values of an enum, test them and take their payloads out. Each of them
has a reading, and in every reading it dispatches a value to the element it was built for. -/

namespace RegisterIR

open Script (Value Environment Written)

namespace Script

variable {inner : String} {tokens : List Token}

theorem Cuts.item (h : Cuts inner tokens) {index : Nat} (safe : index ≤ maxSafeInteger) :
    Cuts (inner ++ "[" ++ toString index ++ "]")
      (tokens ++ [.openingBracket, .constant (.integer index), .closingBracket]) := by
  intro rest more _ lexed
  have number : Cuts (toString index) [.constant (.integer index)] :=
    .constant (.integer index) fun n same => Tag.integer.inj same ▸ safe
  have closed : Lexes (']' :: rest) (.closingBracket :: more) := .token rfl lexed
  have opened : Lexes ('[' :: ((toString index).toList ++ ']' :: rest))
      (.openingBracket :: .constant (.integer index) :: .closingBracket :: more) :=
    .token rfl (number (ends_cons (by decide) _) closed)
  simpa using h (ends_cons (by decide) _) opened

theorem lexes_listed {texts : List String} {parts : List (List Token)}
    (each : List.Forall₂ Cuts texts parts) {rest : List Char} {more : List Token}
    (lexed : Lexes rest more) :
    Lexes ((Text.listed texts).toList ++ ']' :: rest)
      ([.comma].intercalate parts ++ .closingBracket :: more) := by
  have closed : Lexes (']' :: rest) (.closingBracket :: more) := .token rfl lexed
  induction each with
  | nil => exact closed
  | @cons text part texts parts cut others ih =>
    cases others with
    | nil => simpa [Text.listed, List.intercalate] using cut (ends_cons (by decide) _) closed
    | @cons text' part' texts parts cut' others =>
      have shown : (Text.listed (text :: text' :: texts)).toList ++ ']' :: rest =
          text.toList ++ ',' :: ' ' :: ((Text.listed (text' :: texts)).toList ++ ']' :: rest) := by
        simp [Text.listed, List.intercalate]
      have joined : [.comma].intercalate (part :: part' :: parts) ++ .closingBracket :: more =
          part ++ .comma :: ([.comma].intercalate (part' :: parts) ++ .closingBracket :: more) := by
        simp [List.intercalate]
      have spaced : Lexes (' ' :: ((Text.listed (text' :: texts)).toList ++ ']' :: rest))
          ([.comma].intercalate (part' :: parts) ++ .closingBracket :: more) := .blank rfl ih
      rw [shown, joined]
      exact cut (ends_cons (by decide) _) (.token rfl spaced)

theorem Cuts.array {texts : List String} {parts : List (List Token)}
    (each : List.Forall₂ Cuts texts parts) :
    Cuts ("[" ++ Text.listed texts ++ "]")
      (.openingBracket :: [.comma].intercalate parts ++ [.closingBracket]) := by
  intro rest more _ lexed
  have opened : Lexes ('[' :: ((Text.listed texts).toList ++ ']' :: rest))
      (.openingBracket :: ([.comma].intercalate parts ++ .closingBracket :: more)) :=
    .token rfl (lexes_listed each lexed)
  simpa using opened

namespace Expr

variable {subject : Expr}

theorem written_item (h : Written 6 subject) {index : Nat} (safe : index ≤ maxSafeInteger) :
    Written 6 (item subject index) := by
  obtain ⟨tokens, cut, parsed⟩ := h
  exact ⟨_, cut.item safe, .item parsed⟩

theorem written_array {elements : List Expr} (each : ∀ element ∈ elements, Written 1 element) :
    Written 6 (array elements) := by
  obtain ⟨parts, rfl, written⟩ : ∃ parts : List (List Token × Expr), parts.map Prod.snd = elements ∧
      ∀ part ∈ parts, Cuts part.2.render part.1 ∧ Parses 1 part.1 part.2 := by
    induction elements with
    | nil => exact ⟨[], rfl, by simp⟩
    | cons element elements ih =>
      obtain ⟨⟨tokens, own⟩, others⟩ := List.forall_mem_cons.mp each
      obtain ⟨parts, rfl, written⟩ := ih others
      exact ⟨(tokens, element) :: parts, rfl, List.forall_mem_cons.mpr ⟨own, written⟩⟩
  refine ⟨_, ?_, .array fun part member => (written part member).2⟩
  rw [render, renderAll_eq_map, List.map_map]
  refine Cuts.array ?_
  rw [List.forall₂_map_left_iff, List.forall₂_map_right_iff, List.forall₂_same]
  exact fun part member => (written part member).1

end Expr

/-- The text has a reading, and in every reading it evaluates to the value. -/
def Gives (environment : Environment) (text : String) (value : Value) : Prop :=
  (∃ reading, Reads text reading) ∧
    ∀ reading, Reads text reading → reading.eval environment = some value

theorem Written.gives {expression : Expr} (h : Written 6 expression) {environment : Environment}
    {value : Value} (evaluated : expression.eval environment = some value) :
    Gives environment expression.render value := by
  have read : Reads expression.render expression := (h.mono (by decide)).reads
  refine ⟨⟨_, read⟩, fun reading other => ?_⟩
  rw [other.unique read]
  exact evaluated

end Script

namespace ElementEncoding

def IsExact : ElementEncoding → Prop
  | stateless tag => ∀ n, tag = .integer n → n ≤ maxSafeInteger
  | direct _ => True
  | indirect tag => tag ≤ maxSafeInteger

variable {encoding : ElementEncoding} {subject payload : Script.Expr}

theorem written_construct (exact : encoding.IsExact) (h : Written 6 payload) :
    Written 6 (encoding.construct payload) := by
  cases encoding with
  | stateless tag => exact Script.Expr.written_constant tag exact
  | direct set => exact h
  | indirect tag =>
    have number : Written 6 (.number tag) :=
      Script.Expr.written_constant (.integer tag) fun n same => Tag.integer.inj same ▸ exact
    refine Script.Expr.written_array ?_
    simp only [List.forall_mem_cons]
    exact ⟨number.mono (by decide), h.mono (by decide), by simp⟩

theorem written_check (exact : encoding.IsExact) (h : Written 6 subject) :
    Written 6 (encoding.check subject) := by
  cases encoding with
  | stateless tag => exact Script.Expr.written_compared_constant .same h tag exact
  | direct set => exact set.written_check h
  | indirect tag =>
    have noNumber : Written 6 (.compared .differs (.typeOf subject) (.text "number")) :=
      Script.Expr.written_compared .differs (Script.Expr.written_typeOf (h.mono (by decide)))
        ((Script.Expr.written_text (by decide)).mono (by decide))
    have tagged : Written 6 (.same (.item subject 0) (.number tag)) :=
      Script.Expr.written_compared_constant .same (Script.Expr.written_item h (by decide))
        (.integer tag) fun n same => Tag.integer.inj same ▸ exact
    have all : Written 2 (.both (.compared .differs (.typeOf subject) (.text "number"))
        (.same (.item subject 0) (.number tag))) :=
      Script.Expr.written_apply .both (noNumber.mono (by decide)) (tagged.mono (by decide))
    exact Script.Expr.written_group (all.mono (by decide))

theorem written_payload (h : Written 6 subject) (encoding : ElementEncoding) :
    Written 6 (encoding.payload subject) := by
  cases encoding with
  | stateless tag => exact Script.Expr.written_constant .undefined (by simp)
  | direct set => exact h
  | indirect tag => exact Script.Expr.written_item h (by decide)

end ElementEncoding

theorem Strategy.Chosen.isExact {enums : List Enumeration} {id : EnumId} {strategy : Strategy}
    {enumeration : Enumeration} (h : Chosen enums id strategy)
    (declared : enums[id]? = some enumeration)
    (small : enumeration.elements.length ≤ maxSafeInteger + 1) :
    ∀ encoding ∈ strategy, encoding.IsExact := by
  intro encoding member
  obtain ⟨_, inner, declared', suits⟩ := h.suits
  obtain rfl := Option.some.inj (declared.symm.trans declared')
  rcases suits.apart with byValues | byOrdinals
  · cases encoding with
    | stateless tag =>
      rintro n rfl
      -- An integer that is not exact has no set of values, and every element has one.
      obtain ⟨set, listed, _⟩ := byValues.nonempty _ member
      by_contra beyond
      simp [ElementEncoding.valueSet, Tag.valueSet, SafeRange.ofBounds, beyond, Functor.map,
        Except.map] at listed
    | direct set => trivial
    | indirect tag => exact absurd member (byValues.unwrapped tag)
  · obtain ⟨i, encoded⟩ := List.mem_iff_getElem?.mp member
    obtain ⟨inside, rfl | rfl⟩ := Strategy.ApartByOrdinals.shape byOrdinals
      (h.fits declared).length_eq.symm encoded
    · exact Nat.le_of_lt_succ (Nat.lt_of_lt_of_le inside small)
    · rintro _ ⟨⟩
      exact Nat.le_of_lt_succ (Nat.lt_of_lt_of_le inside small)

/-- Enum values are dispatched correctly: what the text for an element builds from a payload passes
the test written for this element and for no other, and the text for its payload takes the payload
out of it again. The names in the texts are those of variables, and there are no more elements than
script numbers count. -/
theorem require_dispatches (enums : List Enumeration) (cache after : Cache)
    (reachable : Strategy.Reachable enums cache) (id : EnumId) (strategy : Strategy)
    (returned : ((Strategy.require enums id).run cache).outcome = .ok (strategy, after))
    (enumeration : Enumeration) (declared : enums[id]? = some enumeration)
    (small : enumeration.elements.length ≤ maxSafeInteger + 1) (i : Nat) (element : Element)
    (found : enumeration.elements[i]? = some element) (payload : Value)
    (represented : ∀ type ∈ element.state, Represents enums type payload) :
    strategy.length = enumeration.elements.length ∧
    ∃ encoding value, strategy[i]? = some encoding ∧
      (∀ environment source, Script.IsName source → environment source = some payload →
        Script.Gives environment (encoding.construct (.name source)).render value) ∧
      ∀ environment subject, Script.IsName subject → environment subject = some value →
        (∀ (k : Nat) (other : ElementEncoding), strategy[k]? = some other →
          Script.Gives environment (other.check (.name subject)).render
            (.boolean (decide (k = i)))) ∧
        Script.Gives environment (encoding.payload (.name subject)).render
          (if element.state.isSome then payload else .undefined) := by
  have chosen := Strategy.chosen_of_require reachable returned
  have exact := chosen.isExact declared small
  have length := (chosen.fits declared).length_eq.symm
  obtain ⟨inside, _⟩ := List.getElem?_eq_some_iff.mp found
  have encoded : strategy[i]? = some (strategy[i]) := List.getElem?_eq_getElem (length ▸ inside)
  have fits := chosen.fits_at declared found encoded
  have accepts := ElementEncoding.accepts_built fits fun type member =>
    (represented type member).mem
  refine ⟨length, _, strategy[i].built payload, encoded, fun environment source named known => ?_,
    fun environment subject named known => ⟨fun k other encoded' => ?_, ?_⟩⟩
  · have written := ElementEncoding.written_construct (exact _ (List.mem_of_getElem? encoded))
      (Script.Expr.written_name named)
    exact written.gives (ElementEncoding.eval_construct known _)
  · have written := ElementEncoding.written_check (exact _ (List.mem_of_getElem? encoded'))
      (Script.Expr.written_name named)
    obtain ⟨_, _, _, suits⟩ := chosen
    have testable := suits.testable (List.mem_of_getElem? encoded) (List.mem_of_getElem? encoded')
      accepts
    have tests := ElementEncoding.tests_check known (ElementEncoding.ne_other_of_accepts accepts)
      testable
    refine written.gives (tests.congr ⟨fun accepts' => ?_, ?_⟩).eval_eq_decide
    · exact suits.separated encoded' encoded accepts' accepts
    · rintro rfl
      obtain rfl := Option.some.inj (encoded.symm.trans encoded')
      exact accepts
  · have written := ElementEncoding.written_payload (Script.Expr.written_name named) strategy[i]
    exact written.gives (ElementEncoding.eval_payload fits known)

theorem require_dispatches_nestedEnums :
    ∃ strategy after,
      ((Strategy.require nestedEnums 1).run .empty).outcome = .ok (strategy, after) ∧
      Represents nestedEnums (.enumeration 0) .undefined ∧ strategy.length = 3 ∧
      ∃ encoding value, strategy[1]? = some encoding ∧
        (∀ environment source, Script.IsName source → environment source = some .undefined →
          Script.Gives environment (encoding.construct (.name source)).render value) ∧
        ∀ environment subject, Script.IsName subject → environment subject = some value →
          (∀ (k : Nat) (other : ElementEncoding), strategy[k]? = some other →
            Script.Gives environment (other.check (.name subject)).render
              (.boolean (decide (k = 1)))) ∧
          Script.Gives environment (encoding.payload (.name subject)).render .undefined := by
  have inner : Represents nestedEnums (.enumeration 0) .undefined := by
    refine @Represents.element nestedEnums 0 .empty _ _ _ 1 _ _ .undefined .undefined
      (fun _ => some .undefined) "payload" .empty rfl rfl rfl rfl ?_ rfl rfl
    rintro _ ⟨⟩
    exact .unit
  refine ⟨_, _, rfl, inner, require_dispatches nestedEnums .empty _ .empty 1 _ rfl _ rfl (by decide)
    1 _ rfl .undefined ?_⟩
  rintro _ ⟨⟩
  exact inner

end RegisterIR
