import RegisterIR.Proofs.EnumDispatch

/-! Encodings never collide and are complete. Either all elements keep their payloads as they are,
and then their sets of values are non-empty and share neither a kind nor an integer, or every
element is told apart by its ordinal. -/

namespace RegisterIR

open Script (Value)

def Kind.specimen : Kind → Value
  | undefined => .undefined
  | null => .null
  | string => .string ""
  | array => .array []
  | object => .object 0
  | function => .function 0
  | isTrue => .boolean true
  | isFalse => .boolean false

theorem Kind.kind?_specimen (kind : Kind) : kind.specimen.kind? = some kind := by
  cases kind <;> rfl

namespace ValueSet

variable {set other : ValueSet}

theorem mem_of_integers {n : Nat} (h : n ∈ set.integers) : Value.number n ∈ set :=
  .inl ⟨n, rfl, h⟩

theorem mem_of_has {kind : Kind} (h : set.has kind) : kind.specimen ∈ set :=
  .inr ⟨kind, kind.kind?_specimen, h⟩

theorem isEmpty_eq_false_iff : set.isEmpty = false ↔ ∃ value : Value, value ∈ set := by
  constructor
  · intro filled
    cases nothing : set.integers.isEmpty with
    | false =>
      rw [SafeRange.isEmpty, decide_eq_false_iff_not] at nothing
      have inside : set.integers.first ∈ set.integers := ⟨Nat.le_refl _, by omega⟩
      exact ⟨_, mem_of_integers inside⟩
    | true =>
      have kinds : set.kinds ≠ [] := by
        intro none
        simp [isEmpty, nothing, none] at filled
      obtain ⟨kind, member⟩ := List.exists_mem_of_ne_nil _ kinds
      exact ⟨_, mem_of_has (List.mem_filter.mp member).2⟩
  · rintro ⟨value, ⟨n, _, inside⟩ | ⟨kind, _, has⟩⟩
    · rw [isEmpty, SafeRange.isEmpty_eq_false_of_mem inside, Bool.false_and]
    · have member : kind ∈ set.kinds := List.mem_filter.mpr ⟨kind.mem_all, has⟩
      have kinds : set.kinds.isEmpty = false :=
        List.isEmpty_eq_false_iff.mpr (List.ne_nil_of_mem member)
      rw [isEmpty, kinds, Bool.and_false]

def Disjoint (set other : ValueSet) : Prop :=
  (∀ kind, ¬ (set.has kind ∧ other.has kind)) ∧ ∀ n, n ∈ set.integers → n ∉ other.integers

theorem disjoint_of_not_mem (h : ∀ value : Value, value ∈ set → value ∉ other) :
    set.Disjoint other where
  left _ both := h _ (mem_of_has both.1) (mem_of_has both.2)
  right _ inside inside' := h _ (mem_of_integers inside) (mem_of_integers inside')

end ValueSet

theorem Tag.isEmpty_valueSet {tag : Tag} {set : ValueSet} (h : tag.valueSet = .ok set) :
    set.isEmpty = false :=
  ValueSet.isEmpty_eq_false_iff.mpr ⟨tag.value, (tag.mem_valueSet h _).mpr rfl⟩

namespace ElementEncoding

def isStateful : ElementEncoding → Bool
  | stateless _ => false
  | direct _ => true
  | indirect _ => true

theorem accepts_iff_mem {encoding : ElementEncoding} {set : ValueSet}
    (plain : ∀ tag, encoding ≠ .indirect tag) (h : encoding.valueSet = .ok set) (value : Value) :
    encoding.Accepts value ↔ value ∈ set := by
  cases encoding with
  | stateless tag => exact (Tag.mem_valueSet h value).symm
  | direct payload =>
    obtain rfl := Except.ok.inj h
    rfl
  | indirect tag => exact absurd rfl (plain tag)

end ElementEncoding

namespace Strategy

variable {strategy : Strategy}

/-- The elements are told apart by their values: none is wrapped, each of them has a value, and no
two of them share a kind or an integer. -/
structure ApartByValues (strategy : Strategy) : Prop where
  unwrapped : ∀ tag, .indirect tag ∉ strategy
  nonempty : ∀ encoding ∈ strategy, ∃ set, encoding.valueSet = .ok set ∧ set.isEmpty = false
  apart : ∀ {i k : Nat} {a b : ElementEncoding} {set other : ValueSet}, i ≠ k →
    strategy[i]? = some a → strategy[k]? = some b → a.valueSet = .ok set →
    b.valueSet = .ok other → set.Disjoint other

/-- The elements are told apart by their ordinals: a payload is wrapped with it, and an element
without payload is the number itself. -/
def ApartByOrdinals (elements : List Element) (strategy : Strategy) : Prop :=
  ∀ (i : Nat) (element : Element), elements[i]? = some element →
    strategy[i]? = some (if element.state.isSome then .indirect i else .stateless (.integer i))

theorem apartByValues_of_separated (separated : strategy.Separated)
    (unwrapped : ∀ tag, .indirect tag ∉ strategy)
    (nonempty : ∀ encoding ∈ strategy, ∃ set, encoding.valueSet = .ok set ∧ set.isEmpty = false) :
    strategy.ApartByValues where
  unwrapped := unwrapped
  nonempty := nonempty
  apart {i k a b set other} different first second values values' := by
    have plain : ∀ encoding ∈ strategy, ∀ tag, encoding ≠ .indirect tag :=
      fun _ member tag same => unwrapped tag (same ▸ member)
    refine ValueSet.disjoint_of_not_mem fun value inside inside' => different ?_
    have accepts := (ElementEncoding.accepts_iff_mem
      (plain a (List.mem_of_getElem? first)) values value).mpr inside
    have accepts' := (ElementEncoding.accepts_iff_mem
      (plain b (List.mem_of_getElem? second)) values' value).mpr inside'
    exact separated first second accepts accepts'

theorem nonempty_direct {index : Nat} {used : ValueSet} {sets : List (Option ValueSet)}
    (h : direct index used sets = .ok (some strategy))
    (filled : ∀ set, some set ∈ sets → set.isEmpty = false) :
    ∀ encoding ∈ strategy, ∃ set, encoding.valueSet = .ok set ∧ set.isEmpty = false := by
  induction sets generalizing index used strategy with
  | nil =>
    cases h
    simp
  | cons set sets ih =>
    obtain ⟨encoding, rest, used', rfl, fits, ⟨values, single⟩, equation, _⟩ := direct_cons h
    refine List.forall_mem_cons.mpr ⟨⟨values, single, ?_⟩,
      ih equation fun other member => filled other (List.mem_cons_of_mem _ member)⟩
    cases fits with
    | payload =>
      obtain rfl := Except.ok.inj single
      exact filled _ (List.mem_cons_self ..)
    | constant => exact Tag.isEmpty_valueSet single

variable {chosen : EnumId → Strategy → Prop} {enumeration : Enumeration}

theorem Settles.nonempty {used : ValueSet} {elements : List Element}
    {result : Option (List (Option ValueSet) × ValueSet)}
    (h : Settles chosen used elements result) :
    ∀ sets used', result = some (sets, used') → ∀ set, some set ∈ sets → set.isEmpty = false := by
  induction h with
  | nil =>
    rintro _ _ ⟨⟩
    simp
  | skip _ ih =>
    intro sets used' equation
    obtain ⟨⟨sets, _⟩, rfl, found⟩ := Option.map_eq_some_iff.mp equation
    cases found
    simpa using ih _ _ rfl
  | empty => simp
  | collide => simp
  | add _ filled _ _ ih =>
    intro sets used' equation
    obtain ⟨⟨sets, _⟩, rfl, found⟩ := Option.map_eq_some_iff.mp equation
    cases found
    intro set member
    rcases List.mem_cons.mp member with same | later
    · exact Option.some.inj same ▸ filled
    · exact ih _ _ rfl set later

theorem apartByValues_booleans : (constants 2).ApartByValues := by
  refine apartByValues_of_separated (separated_constants 2) (by simp [constants]) ?_
  intro encoding member
  obtain ⟨i, found⟩ := List.mem_iff_getElem?.mp member
  obtain ⟨_, rfl⟩ := getElem?_constants.mp found
  have single : (Tag.boolean (i == 1)).valueSet = .ok (.ofBool (i == 1)) := rfl
  exact ⟨_, single, Tag.isEmpty_valueSet single⟩

theorem apartByOrdinals_constants (plain : enumeration.hasState = false)
    (count : enumeration.elements.length ≠ 2) :
    ApartByOrdinals enumeration.elements (constants enumeration.elements.length) := by
  intro i element found
  have stateless : element.state.isSome = false :=
    Bool.eq_false_iff.mpr (List.any_eq_false.mp plain element (List.mem_of_getElem? found))
  rw [getElem?_constants, stateless, if_neg count]
  exact ⟨(List.getElem?_eq_some_iff.mp found).1, rfl⟩

theorem apartByOrdinals_tagged (elements : List Element) :
    ApartByOrdinals elements (tagged elements) :=
  fun _ element found => getElem?_tagged.mpr ⟨element, found, rfl⟩

theorem Suits.apart (h : Suits chosen enumeration strategy) :
    strategy.ApartByValues ∨ strategy.ApartByOrdinals enumeration.elements := by
  have separated : strategy.Separated := h.separated
  cases h with
  | constants plain =>
    by_cases count : enumeration.elements.length = 2
    · rw [count]
      exact .inl apartByValues_booleans
    · exact .inr (apartByOrdinals_constants plain count)
  | direct _ settled found =>
    exact .inl (apartByValues_of_separated separated (not_mem_indirect (forall₂_direct found))
      (nonempty_direct found (settled.nonempty _ _ rfl)))
  | tagged => exact .inr (apartByOrdinals_tagged _)

theorem exists_valueSet (each : ∀ encoding ∈ strategy, ∃ set, encoding.valueSet = .ok set)
    (start : ValueSet) : ∃ set, strategy.foldlM addValues start = .ok set := by
  induction strategy generalizing start with
  | nil => exact ⟨start, rfl⟩
  | cons encoding rest ih =>
    obtain ⟨⟨own, single⟩, others⟩ := List.forall_mem_cons.mp each
    obtain ⟨set, later⟩ := ih others (start.union own)
    refine ⟨set, ?_⟩
    rw [List.foldlM_cons, addValues, single]
    exact later

theorem valueSet_nonempty (each : ∀ encoding ∈ strategy, ∃ set, encoding.valueSet = .ok set)
    {encoding : ElementEncoding} (member : encoding ∈ strategy) (value : Value)
    (accepts : encoding.Accepts value) :
    ∃ set, strategy.valueSet = .ok set ∧ set.isEmpty = false := by
  obtain ⟨set, values⟩ := exists_valueSet each .empty
  exact ⟨set, values, ValueSet.isEmpty_eq_false_iff.mpr ⟨value, mem_valueSet values member accepts⟩⟩

theorem ApartByValues.valueSet_nonempty (h : strategy.ApartByValues)
    (inhabited : 0 < strategy.length) :
    ∃ set, strategy.valueSet = .ok set ∧ set.isEmpty = false := by
  have member := List.getElem_mem inhabited
  obtain ⟨set, values, filled⟩ := h.nonempty _ member
  obtain ⟨value, inside⟩ := ValueSet.isEmpty_eq_false_iff.mp filled
  have plain : ∀ tag, strategy[0] ≠ .indirect tag := fun tag same => h.unwrapped tag (same ▸ member)
  refine Strategy.valueSet_nonempty (fun encoding inside => ?_) member value
    ((ElementEncoding.accepts_iff_mem plain values value).mpr inside)
  obtain ⟨set, values, _⟩ := h.nonempty encoding inside
  exact ⟨set, values⟩

theorem ApartByOrdinals.shape {elements : List Element} (h : strategy.ApartByOrdinals elements)
    (length : strategy.length = elements.length) {i : Nat} {encoding : ElementEncoding}
    (encoded : strategy[i]? = some encoding) :
    i < elements.length ∧ (encoding = .indirect i ∨ encoding = .stateless (.integer i)) := by
  have inside : i < elements.length := length ▸ (List.getElem?_eq_some_iff.mp encoded).1
  have own := h i _ (List.getElem?_eq_getElem inside)
  rw [encoded, Option.some.injEq] at own
  refine ⟨inside, ?_⟩
  split at own
  · exact .inl own
  · exact .inr own

/-- An ordinal that is not a safe integer is the only obstacle to listing the values. -/
theorem ApartByOrdinals.valueSet_nonempty {elements : List Element}
    (h : strategy.ApartByOrdinals elements) (length : strategy.length = elements.length)
    (inhabited : 0 < strategy.length) :
    (∃ set, strategy.valueSet = .ok set ∧ set.isEmpty = false) ∨
      ∃ i, maxSafeInteger < i ∧ strategy[i]? = some (.stateless (.integer i)) := by
  by_cases beyond : ∃ i, maxSafeInteger < i ∧ strategy[i]? = some (.stateless (.integer i))
  · exact .inr beyond
  · left
    have each : ∀ encoding ∈ strategy, ∃ set, encoding.valueSet = .ok set := by
      intro encoding member
      obtain ⟨i, encoded⟩ := List.mem_iff_getElem?.mp member
      rcases (h.shape length encoded).2 with rfl | rfl
      · exact ⟨_, rfl⟩
      · have isSafe : i ≤ maxSafeInteger := Nat.not_lt.mp fun above =>
          beyond ⟨i, above, encoded⟩
        exact ⟨.ofRange ⟨i, i + 1, Nat.succ_le_succ isSafe⟩, by
          simp [ElementEncoding.valueSet, Tag.valueSet, SafeRange.ofBounds, isSafe, Functor.map,
            Except.map]⟩
    have first := List.getElem?_eq_getElem inhabited
    have member := List.getElem_mem inhabited
    rcases (h.shape length first).2 with wrapped | number
    · exact Strategy.valueSet_nonempty each member (.array [.number 0]) (wrapped ▸ ⟨[], rfl⟩)
    · exact Strategy.valueSet_nonempty each member (.number 0) (number ▸ rfl)

theorem Chosen.suits {enums : List Enumeration} {id : EnumId} (h : Chosen enums id strategy) :
    ∃ enumeration inner, enums[id]? = some enumeration ∧ Suits inner enumeration strategy := by
  cases h with
  | mk inner declared _ suits => exact ⟨_, inner, declared, suits⟩

theorem Fits.isStateful {state : Option ValueType} {encoding : ElementEncoding}
    (h : Fits chosen state encoding) : encoding.isStateful = state.isSome := by
  cases h <;> rfl

end Strategy

/-- Encodings never collide and are complete. A request that returns has one encoding for each
element, of the kind that the element needs; the enum has values, unless one of more than `2 ^ 53`
elements is numbered beyond the safe integers; and the elements are told apart by their values or
by their ordinals. -/
theorem require_never_collides (enums : List Enumeration) (cache after : Cache)
    (reachable : Strategy.Reachable enums cache) (id : EnumId) (strategy : Strategy)
    (returned : ((Strategy.require enums id).run cache).outcome = .ok (strategy, after)) :
    ∃ enumeration, enums[id]? = some enumeration ∧
      strategy.length = enumeration.elements.length ∧
      (∀ (i : Nat) (element : Element) (encoding : ElementEncoding),
        enumeration.elements[i]? = some element → strategy[i]? = some encoding →
        encoding.isStateful = element.state.isSome) ∧
      (1 ≤ enumeration.elements.length →
        (∃ set, strategy.valueSet = .ok set ∧ set.isEmpty = false) ∨
          ∃ i, maxSafeInteger < i ∧ strategy[i]? = some (.stateless (.integer i))) ∧
      (strategy.ApartByValues ∨ strategy.ApartByOrdinals enumeration.elements) := by
  have chosen := Strategy.chosen_of_require reachable returned
  obtain ⟨enumeration, inner, declared, suits⟩ := chosen.suits
  have length := (chosen.fits declared).length_eq.symm
  refine ⟨enumeration, declared, length, ?_, ?_, suits.apart⟩
  · intro i element encoding found encoded
    exact (chosen.fits_at declared found encoded).isStateful
  · intro inhabited
    rw [← length] at inhabited
    rcases suits.apart with byValues | byOrdinals
    · exact .inl (byValues.valueSet_nonempty inhabited)
    · exact byOrdinals.valueSet_nonempty length inhabited

/-- An enum whose payload is another one. Its first element has to avoid the values of that. -/
def nestedEnums : List Enumeration :=
  [⟨"Inner", [⟨"text", some .string⟩, ⟨"nothing", some .unit⟩]⟩,
    ⟨"Outer", [⟨"missing", none⟩, ⟨"inner", some (.enumeration 0)⟩,
      ⟨"count", some (.integer ⟨5, 9, by decide⟩)⟩]⟩]

theorem require_never_collides_nestedEnums :
    ∃ strategy after,
      ((Strategy.require nestedEnums 1).run .empty).outcome = .ok (strategy, after) ∧
      ∃ enumeration, nestedEnums[1]? = some enumeration ∧
        strategy.length = enumeration.elements.length ∧
        (∀ (i : Nat) (element : Element) (encoding : ElementEncoding),
          enumeration.elements[i]? = some element → strategy[i]? = some encoding →
          encoding.isStateful = element.state.isSome) ∧
        (1 ≤ enumeration.elements.length →
          (∃ set, strategy.valueSet = .ok set ∧ set.isEmpty = false) ∨
            ∃ i, maxSafeInteger < i ∧ strategy[i]? = some (.stateless (.integer i))) ∧
        (strategy.ApartByValues ∨ strategy.ApartByOrdinals enumeration.elements) :=
  ⟨_, _, rfl, require_never_collides nestedEnums .empty _ .empty 1 _ rfl⟩

end RegisterIR
