import RegisterIR.Proofs.EncodingChoice
import RegisterIR.Proofs.Separation

/-! Enum values are dispatched to the element they were built for. A value that represents a type
lies in the set computed for that type, so the payloads of an enum stay in the sets that its
strategy keeps apart. -/

namespace RegisterIR

open Script (Value Environment)
open Script.Expr (Tests)
open Cached (Yields)

namespace ElementEncoding

variable {environment : Environment} {name : String} {value payload : Value}

def built (payload : Value) : ElementEncoding → Value
  | stateless tag => tag.value
  | direct _ => payload
  | indirect tag => .array [.number tag, payload]

theorem eval_construct (known : environment name = some payload) (encoding : ElementEncoding) :
    (encoding.construct (.name name)).eval environment = some (encoding.built payload) := by
  cases encoding <;>
    simp [construct, Script.Expr.eval, Script.Expr.evalAll, Script.Expr.number, known, built,
      Tag.value]

theorem ne_other_of_accepts {encoding : ElementEncoding} (h : encoding.Accepts value)
    (type : String) : value ≠ .other type := by
  cases encoding with
  | stateless tag =>
    rw [show value = tag.value from h]
    cases tag <;> simp [Tag.value]
  | direct set => exact ValueSet.ne_other_of_mem h type
  | indirect tag =>
    obtain ⟨rest, rfl⟩ := h
    simp

/-- An encoding by tagged arrays can be tested on numbers and arrays only. -/
def Testable (value : Value) : ElementEncoding → Prop
  | indirect _ => value.typeName = "number" ∨ ∃ elements, value = .array elements
  | _ => True

theorem tests_check (known : environment name = some value)
    (ordinary : ∀ type, value ≠ .other type) {encoding : ElementEncoding}
    (testable : encoding.Testable value) :
    Tests environment (encoding.check (.name name)) (encoding.Accepts value) := by
  have subject : (Script.Expr.name name).eval environment = some value := known
  cases encoding with
  | stateless tag => exact Script.Expr.tests_same subject tag
  | direct set => exact set.tests_check subject ordinary
  | indirect tag =>
    have differs := Script.Expr.tests_typeOf_differs subject "number"
    rcases testable with number | ⟨elements, rfl⟩
    · refine (differs.both_of_not (not_not_intro number)).congr ⟨False.elim, ?_⟩
      rintro ⟨rest, rfl⟩
      simp [Value.typeName] at number
    · have first : (Script.Expr.item (.name name) 0).eval environment =
          some (elements.getD 0 .undefined) := Script.Expr.eval_item subject 0
      have tagged := Script.Expr.tests_same first (.integer tag)
      refine (differs.both fun _ => tagged).congr ?_
      cases elements <;> simp [Accepts, Value.typeName, Tag.value]

theorem mem_of_accepts {encoding : ElementEncoding} {own : ValueSet}
    (single : encoding.valueSet = .ok own) (accepts : encoding.Accepts value) : value ∈ own := by
  cases encoding with
  | stateless tag => exact (Tag.mem_valueSet single value).mpr accepts
  | direct payload =>
    obtain rfl := Except.ok.inj single
    exact accepts
  | indirect tag =>
    obtain rfl := Except.ok.inj single
    obtain ⟨elements, rfl⟩ := accepts
    exact .inr ⟨.array, rfl, by simp [ValueSet.ofKind]⟩

end ElementEncoding

theorem SafeRange.mem_clamped {minimum maximum n : Nat} :
    n ∈ SafeRange.clamped minimum maximum ↔ minimum ≤ n ∧ n ≤ maximum ∧ n ≤ maxSafeInteger := by
  rw [clamped]
  split
  · rename_i nothing
    simp only [not_mem_empty, false_iff]
    omega
  · rw [mem_def]
    simp only [Nat.lt_succ_iff, Nat.le_min]

namespace Strategy

inductive Fits (chosen : EnumId → Strategy → Prop) : Option ValueType → ElementEncoding → Prop
  | stateless {tag} : Fits chosen none (.stateless tag)
  | direct {type set} : type.HasSet chosen set → Fits chosen (some type) (.direct set)
  | indirect {type tag} : Fits chosen (some type) (.indirect tag)

variable {chosen : EnumId → Strategy → Prop}

theorem Settles.forall₂ {used : ValueSet} {elements : List Element}
    {result : Option (List (Option ValueSet) × ValueSet)}
    (h : Settles chosen used elements result) :
    ∀ sets used', result = some (sets, used') →
      List.Forall₂ (fun element set => Option.Rel (ValueType.HasSet chosen) element.state set)
        elements sets := by
  induction h with
  | nil =>
    rintro _ _ ⟨⟩
    exact .nil
  | skip _ ih =>
    intro sets used' equation
    obtain ⟨⟨sets, _⟩, rfl, found⟩ := Option.map_eq_some_iff.mp equation
    cases found
    exact .cons .none (ih _ _ rfl)
  | empty => simp
  | collide => simp
  | add values _ _ _ ih =>
    intro sets used' equation
    obtain ⟨⟨sets, _⟩, rfl, found⟩ := Option.map_eq_some_iff.mp equation
    cases found
    exact .cons (.some values) (ih _ _ rfl)

theorem Settles.apart {used : ValueSet} {elements : List Element}
    {result : Option (List (Option ValueSet) × ValueSet)}
    (h : Settles chosen used elements result) :
    ∀ sets used', result = some (sets, used') →
      (∀ value : Value, value ∈ used → value ∈ used') ∧
      (∀ set, some set ∈ sets → ∀ value : Value, value ∈ set → value ∈ used' ∧ value ∉ used) ∧
      sets.Pairwise fun a b => ∀ set ∈ a, ∀ other ∈ b, ∀ value : Value, value ∈ set →
        value ∉ other := by
  induction h with
  | nil =>
    rintro _ _ ⟨⟩
    simp
  | skip _ ih =>
    intro sets used' equation
    obtain ⟨⟨sets, _⟩, rfl, found⟩ := Option.map_eq_some_iff.mp equation
    cases found
    obtain ⟨grows, inUse, apart⟩ := ih _ _ rfl
    exact ⟨grows, by simpa using inUse, by simpa using apart⟩
  | empty => simp
  | collide => simp
  | @add used between name type elements set rest values _ merged _ ih =>
    intro sets used' equation
    obtain ⟨⟨sets, _⟩, rfl, found⟩ := Option.map_eq_some_iff.mp equation
    cases found
    obtain ⟨grows, inUse, apart⟩ := ih _ _ rfl
    obtain ⟨new, extended⟩ := ValueSet.merge_spec merged
    refine ⟨fun value old => grows value (extended value (.inl old)), ?_, ?_⟩
    · intro other member value inside
      rcases List.mem_cons.mp member with same | later
      · obtain rfl := Option.some.inj same
        exact ⟨grows value (extended value (.inr inside)), fun old => new value old inside⟩
      · obtain ⟨final, unused⟩ := inUse other later value inside
        exact ⟨final, fun old => unused (extended value (.inl old))⟩
    · refine List.pairwise_cons.mpr ⟨?_, apart⟩
      rintro _ member _ ⟨⟩ other ⟨⟩ value inside inside'
      exact (inUse other member value inside').2 (extended value (.inr inside))

theorem forall₂_of_getElem? {α β : Type} {R : α → β → Prop} {first : List α} {second : List β}
    (length : first.length = second.length)
    (each : ∀ (i : Nat) a b, first[i]? = some a → second[i]? = some b → R a b) :
    List.Forall₂ R first second :=
  List.forall₂_iff_get.mpr ⟨length, fun i inside inside' => each i _ _ (by simp) (by simp)⟩

theorem rel_of_forall₂ {α β : Type} {R : α → β → Prop} {first : List α} {second : List β}
    (h : List.Forall₂ R first second) {i : Nat} {a : α} {b : β} (found : first[i]? = some a)
    (found' : second[i]? = some b) : R a b := by
  obtain ⟨inside, rfl⟩ := List.getElem?_eq_some_iff.mp found
  obtain ⟨inside', rfl⟩ := List.getElem?_eq_some_iff.mp found'
  exact (List.forall₂_iff_get.mp h).2 i inside inside'

theorem forall₂_fits {elements : List Element} {sets : List (Option ValueSet)} {strategy : Strategy}
    (settled : List.Forall₂
      (fun element set => Option.Rel (ValueType.HasSet chosen) element.state set) elements sets)
    (direct : List.Forall₂ Direct sets strategy) :
    List.Forall₂ (fun element encoding => Fits chosen element.state encoding) elements
      strategy := by
  induction settled generalizing strategy with
  | nil =>
    cases direct
    exact .nil
  | @cons element set elements sets head _ ih =>
    cases direct with
    | cons fits rest =>
      refine .cons ?_ (ih rest)
      cases fits with
      | payload =>
        cases stateful : element.state with
        | none =>
          rw [stateful] at head
          cases head
        | some type =>
          rw [stateful] at head
          cases head with
          | some values => exact .direct values
      | constant =>
        cases stateful : element.state with
        | none => exact .stateless
        | some type =>
          rw [stateful] at head
          cases head

variable {enumeration : Enumeration} {strategy : Strategy}

theorem Suits.fits (h : Suits chosen enumeration strategy) :
    List.Forall₂ (fun element encoding => Fits chosen element.state encoding)
      enumeration.elements strategy := by
  cases h with
  | constants plain =>
    refine forall₂_of_getElem? (by simp [Strategy.constants])
      fun i element encoding found encoded => ?_
    have stateless : element.state = none := by
      have each := List.any_eq_false.mp plain element (List.mem_of_getElem? found)
      simpa using each
    obtain ⟨_, rfl⟩ := getElem?_constants.mp encoded
    rw [stateless]
    exact .stateless
  | direct _ settled found => exact forall₂_fits (settled.forall₂ _ _ rfl) (forall₂_direct found)
  | tagged =>
    refine forall₂_of_getElem? (by simp [Strategy.tagged])
      fun i element encoding found encoded => ?_
    obtain ⟨same, found', rfl⟩ := getElem?_tagged.mp encoded
    obtain rfl := Option.some.inj (found.symm.trans found')
    cases element.state with
    | none => exact .stateless
    | some type => exact .indirect

theorem Suits.separated (h : Suits chosen enumeration strategy) : strategy.Separated := by
  cases h with
  | constants => exact separated_constants _
  | direct _ settled found =>
    obtain ⟨_, inUse, apart⟩ := settled.apart _ _ rfl
    exact separated_of_pairwise (separated_direct found
      (fun set member value inside => (inUse set member value inside).1) apart).1
  | tagged => exact separated_tagged _

theorem not_mem_indirect {sets : List (Option ValueSet)} (h : List.Forall₂ Direct sets strategy)
    (tag : Nat) : ElementEncoding.indirect tag ∉ strategy := by
  induction h with
  | nil => simp
  | cons head _ ih => cases head <;> simpa using ih

theorem Suits.testable (h : Suits chosen enumeration strategy) {a b : ElementEncoding}
    (first : a ∈ strategy) (second : b ∈ strategy) {value : Value} (accepts : a.Accepts value) :
    b.Testable value := by
  cases h with
  | constants =>
    obtain ⟨i, found⟩ := List.mem_iff_getElem?.mp second
    obtain ⟨_, rfl⟩ := getElem?_constants.mp found
    trivial
  | direct _ _ found =>
    cases b with
    | indirect tag => exact absurd second (not_mem_indirect (forall₂_direct found) tag)
    | _ => trivial
  | tagged =>
    obtain ⟨i, found⟩ := List.mem_iff_getElem?.mp first
    obtain ⟨element, _, rfl⟩ := getElem?_tagged.mp found
    have shape : value.typeName = "number" ∨ ∃ elements, value = .array elements := by
      split at accepts
      · obtain ⟨rest, rfl⟩ := accepts
        exact .inr ⟨_, rfl⟩
      · rw [show value = .number i from accepts]
        exact .inl rfl
    cases b with
    | indirect => exact shape
    | _ => trivial

theorem Fits.mono {chosen' : EnumId → Strategy → Prop}
    (sub : ∀ id strategy, chosen id strategy → chosen' id strategy) {state : Option ValueType}
    {encoding : ElementEncoding} (h : Fits chosen state encoding) :
    Fits chosen' state encoding := by
  cases h with
  | stateless => exact .stateless
  | indirect => exact .indirect
  | direct values => exact .direct (values.mono sub)

theorem foldlM_addValues_cons {encoding : ElementEncoding} {start set : ValueSet}
    (h : (encoding :: strategy).foldlM addValues start = .ok set) :
    ∃ own, encoding.valueSet = .ok own ∧
      strategy.foldlM addValues (start.union own) = .ok set := by
  obtain ⟨joined, added, rest⟩ := bind_eq_ok_iff.mp h
  obtain ⟨own, single, union⟩ := bind_eq_ok_iff.mp added
  obtain rfl := Except.ok.inj union
  exact ⟨own, single, rest⟩

theorem mem_foldlM_addValues {start set : ValueSet}
    (h : strategy.foldlM addValues start = .ok set) {value : Value} (old : value ∈ start) :
    value ∈ set := by
  induction strategy generalizing start with
  | nil =>
    obtain rfl := Except.ok.inj h
    exact old
  | cons encoding rest ih =>
    obtain ⟨own, _, later⟩ := foldlM_addValues_cons h
    exact ih later (ValueSet.mem_union (.inl old))

theorem mem_valueSet {start set : ValueSet} (h : strategy.foldlM addValues start = .ok set)
    {encoding : ElementEncoding} (member : encoding ∈ strategy) {value : Value}
    (accepts : encoding.Accepts value) : value ∈ set := by
  induction strategy generalizing start with
  | nil => simp at member
  | cons first rest ih =>
    obtain ⟨own, single, later⟩ := foldlM_addValues_cons h
    rcases List.mem_cons.mp member with rfl | member
    · exact mem_foldlM_addValues later
        (ValueSet.mem_union (.inr (ElementEncoding.mem_of_accepts single accepts)))
    · exact ih later member

end Strategy

/-- A script value represents a value of a type. -/
inductive Represents (enums : List Enumeration) : ValueType → Value → Prop
  | unit : Represents enums .unit .undefined
  | string {content} : Represents enums .string (.string content)
  | host {value : Value} : value ∈ ValueSet.anything → Represents enums .host value
  | integer {range : IntegerRange} {n : Nat} : range.minimum ≤ n → n ≤ range.maximum →
      n ≤ maxSafeInteger → Represents enums (.integer range) (.number n)
  | constructor {element identity} : Represents enums (.constructor element) (.function identity)
  | function {parameters result identity} :
      Represents enums (.function parameters result) (.function identity)
  | tuple {types elements} : Represents enums (.tuple types) (.array elements)
  | record {id elements} : Represents enums (.record id) (.array elements)
  | interface {id identity} : Represents enums (.interface id) (.object identity)
  | element {id : EnumId} {cache after : Cache} {strategy : Strategy} {enumeration : Enumeration}
      {i : Nat} {element : Element} {encoding : ElementEncoding} {payload value : Value}
      {environment : Environment} {source : String} :
      Strategy.Reachable enums cache → Yields (Strategy.require enums id) cache strategy after →
      enums[id]? = some enumeration → enumeration.elements[i]? = some element →
      strategy[i]? = some encoding → (∀ type ∈ element.state, Represents enums type payload) →
      environment source = some payload →
      (encoding.construct (.name source)).eval environment = some value →
      Represents enums (.enumeration id) value

namespace Strategy

variable {enums : List Enumeration} {id : EnumId} {strategy : Strategy} {enumeration : Enumeration}

theorem Chosen.fits (h : Chosen enums id strategy) (declared : enums[id]? = some enumeration) :
    List.Forall₂ (fun element encoding => Fits (Chosen enums) element.state encoding)
      enumeration.elements strategy := by
  cases h with
  | mk chosen declared' inner suits =>
    obtain rfl := Option.some.inj (declared.symm.trans declared')
    exact suits.fits.imp fun _ _ => Fits.mono inner

theorem Chosen.fits_at (h : Chosen enums id strategy) (declared : enums[id]? = some enumeration)
    {i : Nat} {element : Element} {encoding : ElementEncoding}
    (found : enumeration.elements[i]? = some element) (encoded : strategy[i]? = some encoding) :
    Fits (Chosen enums) element.state encoding :=
  rel_of_forall₂ (h.fits declared) found encoded

end Strategy

theorem ElementEncoding.accepts_built {chosen : EnumId → Strategy → Prop} {state : Option ValueType}
    {encoding : ElementEncoding} (fits : Strategy.Fits chosen state encoding) {payload : Value}
    (inside : ∀ type ∈ state, ∀ set, type.HasSet chosen set → payload ∈ set) :
    encoding.Accepts (encoding.built payload) := by
  cases fits with
  | stateless => rfl
  | direct values => exact inside _ rfl _ values
  | indirect => exact ⟨[payload], rfl⟩

/-- What represents a type lies in the set of the type. -/
theorem Represents.mem {enums : List Enumeration} {type : ValueType} {value : Value}
    (h : Represents enums type value) :
    ∀ set, type.HasSet (Strategy.Chosen enums) set → value ∈ set := by
  induction h with
  | host member =>
    rintro set ⟨⟩
    exact member
  | @integer range n above below safe =>
    rintro set ⟨⟩
    exact .inl ⟨n, rfl, SafeRange.mem_clamped.mpr ⟨above, below, safe⟩⟩
  | element reachable asked declared found encoded _ known evaluated ih =>
    intro set typed
    have own := Strategy.chosen_of_require reachable asked
    rw [ElementEncoding.eval_construct known] at evaluated
    obtain rfl := Option.some.inj evaluated
    cases typed with
    | enumeration chosen values =>
      obtain rfl := own.unique chosen
      exact Strategy.mem_valueSet values (List.mem_of_getElem? encoded)
        (ElementEncoding.accepts_built (own.fits_at declared found encoded) ih)
  | _ =>
    rintro set ⟨⟩
    exact .inr ⟨_, rfl, by simp [ValueSet.ofKind]⟩

theorem ElementEncoding.eval_payload {chosen : EnumId → Strategy → Prop} {state : Option ValueType}
    {encoding : ElementEncoding} (fits : Strategy.Fits chosen state encoding)
    {environment : Environment} {subject : String} {payload : Value}
    (known : environment subject = some (encoding.built payload)) :
    (encoding.payload (.name subject)).eval environment =
      some (if state.isSome then payload else .undefined) := by
  cases fits <;> simp_all [ElementEncoding.payload, built, Script.Expr.eval, Tag.value]

end RegisterIR
