import RegisterIR.Encoding.Element

/-! What script expressions evaluate to. The meaning is partial: an expression that throws, or
whose value depends on more than is modelled here (the identity of references, properties of
objects, functions), has no value. -/

namespace RegisterIR

namespace Script

inductive Value
  | undefined
  | null
  | boolean (value : Bool)
  | number (value : Int)
  | string (content : String)
  | array (elements : List Value)
  | object (identity : Nat)
  | function (identity : Nat)
  /-- Every other value, such as a fraction or a symbol, of which only the type is known. -/
  | other (type : String)
deriving Repr

namespace Value

def typeName : Value → String
  | undefined => "undefined"
  | null => "object"
  | boolean _ => "boolean"
  | number _ => "number"
  | string _ => "string"
  | array _ => "object"
  | object _ => "object"
  | function _ => "function"
  | other type => type

def isArray : Value → Bool
  | array _ => true
  | _ => false

/-- What `===` gives, except that references are not compared with one another. -/
def same? : Value → Value → Option Bool
  | undefined, undefined => some true
  | null, null => some true
  | boolean a, boolean b => some (a == b)
  | number a, number b => some (a == b)
  | string a, string b => some (a == b)
  | array _, array _ => none
  | object _, object _ => none
  | function _, function _ => none
  | other _, other _ => none
  | _, _ => some false

end Value

def Comparison.apply : Comparison → Value → Value → Option Bool
  | same, a, b => a.same? b
  | differs, a, b => (a.same? b).map not
  | atLeast, .number a, .number b => some (decide (b ≤ a))
  | atMost, .number a, .number b => some (decide (a ≤ b))
  | _, _, _ => none

abbrev Environment := String → Option Value

end Script

def Tag.value : Tag → Script.Value
  | integer n => .number n
  | boolean b => .boolean b
  | undefined => .undefined
  | null => .null

theorem Script.Value.same?_constant (value : Value) (tag : Tag) :
    ∃ holds, value.same? tag.value = some holds ∧ (holds = true ↔ value = tag.value) := by
  cases tag with
  | integer n => cases value <;> exact ⟨_, rfl, by simp [Tag.value]⟩
  | boolean b => cases value <;> exact ⟨_, rfl, by simp [Tag.value]⟩
  | undefined => cases value <;> exact ⟨_, rfl, by simp [Tag.value]⟩
  | null => cases value <;> exact ⟨_, rfl, by simp [Tag.value]⟩

namespace Script.Expr

mutual

def eval (environment : Environment) : Expr → Option Value
  | name identifier => environment identifier
  | constant tag => some tag.value
  | text content => some (.string content)
  | array elements => (evalAll environment elements).map .array
  | item subject index => do
    match ← subject.eval environment with
    | .array elements => some (elements.getD index .undefined)
    | _ => none
  | typeOf subject => (subject.eval environment).map fun value => .string value.typeName
  | isArray subject => (subject.eval environment).map fun value => .boolean value.isArray
  | negate operand => do
    match ← operand.eval environment with
    | .boolean holds => some (.boolean !holds)
    | _ => none
  | compare comparison left right => do
    let left ← left.eval environment
    let right ← right.eval environment
    (comparison.apply left right).map .boolean
  | both left right => do
    match ← left.eval environment with
    | .boolean true => right.eval environment
    | .boolean false => some (.boolean false)
    | _ => none
  | either left right => do
    match ← left.eval environment with
    | .boolean true => some (.boolean true)
    | .boolean false => right.eval environment
    | _ => none
  | group inner => inner.eval environment
  | call .. => none
  | function .. => none

def evalAll (environment : Environment) : List Expr → Option (List Value)
  | [] => some []
  | element :: elements => do
    let value ← element.eval environment
    let values ← evalAll environment elements
    some (value :: values)

end

section Equations

variable (environment : Environment) (subject left right : Expr)

@[simp] theorem eval_name (identifier : String) :
    (name identifier).eval environment = environment identifier := rfl

@[simp] theorem eval_constant (tag : Tag) : (constant tag).eval environment = some tag.value := rfl

@[simp] theorem eval_text (content : String) :
    (text content).eval environment = some (.string content) := rfl

@[simp] theorem eval_group : (group subject).eval environment = subject.eval environment := rfl

@[simp] theorem eval_typeOf : (typeOf subject).eval environment =
    (subject.eval environment).map fun value => .string value.typeName := rfl

@[simp] theorem eval_isArray : (isArray subject).eval environment =
    (subject.eval environment).map fun value => .boolean value.isArray := rfl

variable {environment subject left right} {value value' : Value} {holds : Bool}

theorem eval_item {elements : List Value}
    (known : subject.eval environment = some (.array elements)) (index : Nat) :
    (item subject index).eval environment = some (elements.getD index .undefined) := by
  change (subject.eval environment).bind _ = _
  rw [known]
  rfl

theorem eval_negate (known : subject.eval environment = some (.boolean holds)) :
    (negate subject).eval environment = some (.boolean !holds) := by
  change (subject.eval environment).bind _ = _
  rw [known]
  rfl

theorem eval_compared (known : left.eval environment = some value)
    (known' : right.eval environment = some value') (comparison : Comparison) :
    (compared comparison left right).eval environment =
      (comparison.apply value value').map .boolean := by
  change (left.eval environment).bind (fun value => (right.eval environment).bind _) = _
  rw [known, known']
  rfl

theorem eval_both (known : left.eval environment = some (.boolean holds)) :
    (both left right).eval environment =
      if holds then right.eval environment else some (.boolean false) := by
  change (left.eval environment).bind _ = _
  rw [known]
  cases holds <;> rfl

theorem eval_either (known : left.eval environment = some (.boolean holds)) :
    (either left right).eval environment =
      if holds then some (.boolean true) else right.eval environment := by
  change (left.eval environment).bind _ = _
  rw [known]
  cases holds <;> rfl

end Equations

/-- The expression evaluates to a Boolean, which is the truth of the proposition. -/
def Tests (environment : Environment) (expression : Expr) (p : Prop) : Prop :=
  ∃ holds : Bool, expression.eval environment = some (.boolean holds) ∧ (holds = true ↔ p)

variable {environment : Environment} {subject left right : Expr} {value : Value} {p q : Prop}

theorem Tests.congr (h : Tests environment subject p) (same : p ↔ q) :
    Tests environment subject q := by
  obtain ⟨holds, evaluated, meaning⟩ := h
  exact ⟨holds, evaluated, meaning.trans same⟩

theorem Tests.eval_eq_true_iff (h : Tests environment subject p) :
    subject.eval environment = some (.boolean true) ↔ p := by
  obtain ⟨holds, evaluated, meaning⟩ := h
  rw [evaluated, ← meaning]
  simp

theorem Tests.eval_eq_decide [Decidable p] (h : Tests environment subject p) :
    subject.eval environment = some (.boolean (decide p)) := by
  obtain ⟨holds, evaluated, meaning⟩ := h
  rw [evaluated, Bool.eq_iff_iff.mpr (meaning.trans decide_eq_true_iff.symm)]

theorem tests_group : Tests environment (group subject) p ↔ Tests environment subject p := Iff.rfl

theorem Tests.negate (h : Tests environment subject p) :
    Tests environment (Expr.negate subject) (¬ p) := by
  obtain ⟨holds, evaluated, meaning⟩ := h
  refine ⟨!holds, eval_negate evaluated, ?_⟩
  rw [← meaning]
  simp

theorem Tests.both (first : Tests environment left p) (second : p → Tests environment right q) :
    Tests environment (Expr.both left right) (p ∧ q) := by
  obtain ⟨_ | _, evaluated, meaning⟩ := first
  · exact ⟨false, eval_both evaluated, by simp [← meaning]⟩
  · have holds : p := meaning.mp rfl
    obtain ⟨result, evaluated', meaning'⟩ := second holds
    exact ⟨result, (eval_both evaluated).trans evaluated', by simp [meaning', holds]⟩

theorem Tests.both_of_not (first : Tests environment left p) (fails : ¬ p) :
    Tests environment (Expr.both left right) False := by
  obtain ⟨_ | _, evaluated, meaning⟩ := first
  · exact ⟨false, eval_both evaluated, by simp⟩
  · exact absurd (meaning.mp rfl) fails

theorem Tests.either (first : Tests environment left p) (second : Tests environment right q) :
    Tests environment (Expr.either left right) (p ∨ q) := by
  obtain ⟨_ | _, evaluated, meaning⟩ := first
  · obtain ⟨result, evaluated', meaning'⟩ := second
    have fails : ¬ p := fun holds => by simpa using meaning.mpr holds
    exact ⟨result, (eval_either evaluated).trans evaluated', by simp [meaning', fails]⟩
  · exact ⟨true, eval_either evaluated, by simp [← meaning]⟩

theorem tests_foldl_either : ∀ (tests : List Expr) {first : Expr} {p : Prop},
    Tests environment first p → (∀ test ∈ tests, ∃ q, Tests environment test q) →
    Tests environment (tests.foldl Expr.either first)
      (p ∨ ∃ test ∈ tests, test.eval environment = some (.boolean true))
  | [], _, _, h, _ => h.congr (by simp)
  | test :: tests, _, _, h, each => by
    obtain ⟨q, head⟩ := each test (List.mem_cons_self ..)
    have rest := tests_foldl_either tests (h.either head) fun other member =>
      each other (List.mem_cons_of_mem _ member)
    refine rest.congr ?_
    rw [← head.eval_eq_true_iff, or_assoc]
    simp

theorem tests_compared {value value' : Value} {comparison : Comparison} {holds : Bool}
    (known : left.eval environment = some value) (known' : right.eval environment = some value')
    (decided : comparison.apply value value' = some holds) :
    Tests environment (compared comparison left right) (holds = true) :=
  ⟨holds, by rw [eval_compared known known', decided, Option.map_some], Iff.rfl⟩

section Subject

variable (known : subject.eval environment = some value)
include known

theorem tests_same (tag : Tag) :
    Tests environment (same subject (constant tag)) (value = tag.value) := by
  obtain ⟨holds, decided, meaning⟩ := value.same?_constant tag
  have decided' : Comparison.same.apply value tag.value = some holds := decided
  exact (tests_compared known (eval_constant environment tag) decided').congr meaning

theorem tests_differs_null :
    Tests environment (compared .differs subject (constant .null)) (value ≠ .null) := by
  obtain ⟨holds, decided, meaning⟩ := value.same?_constant .null
  have decided' : Comparison.differs.apply value .null = some !holds := by
    simp only [Comparison.apply, show value.same? .null = some holds from decided, Option.map_some]
  refine (tests_compared known (eval_constant environment .null) decided').congr ?_
  rw [Bool.not_eq_true', Bool.eq_false_iff, Ne, meaning]
  rfl

theorem tests_hasType (type : String) :
    Tests environment (hasType subject type) (value.typeName = type) := by
  have typed : (typeOf subject).eval environment = some (.string value.typeName) := by
    rw [eval_typeOf, known, Option.map_some]
  exact (tests_compared typed (eval_text environment type) rfl).congr beq_iff_eq

theorem tests_typeOf_differs (type : String) :
    Tests environment (compared .differs (typeOf subject) (text type)) (value.typeName ≠ type) := by
  have typed : (typeOf subject).eval environment = some (.string value.typeName) := by
    rw [eval_typeOf, known, Option.map_some]
  exact (tests_compared typed (eval_text environment type) rfl).congr (by simp)

theorem tests_isArray : Tests environment (isArray subject) (value.isArray = true) :=
  ⟨value.isArray, by rw [eval_isArray, known, Option.map_some], Iff.rfl⟩

end Subject

section Bounds

variable {n : Int} (known : subject.eval environment = some (.number n))
include known

theorem tests_atLeast (bound : Nat) :
    Tests environment (compared .atLeast subject (number bound)) (bound ≤ n) :=
  (tests_compared known (eval_constant environment (.integer bound)) rfl).congr decide_eq_true_iff

theorem tests_atMost (bound : Nat) :
    Tests environment (compared .atMost subject (number bound)) (n ≤ bound) :=
  (tests_compared known (eval_constant environment (.integer bound)) rfl).congr decide_eq_true_iff

end Bounds

end Script.Expr

namespace Script.Value

def kind? : Value → Option Kind
  | undefined => some .undefined
  | null => some .null
  | boolean true => some .isTrue
  | boolean false => some .isFalse
  | number _ => none
  | string _ => some .string
  | array _ => some .array
  | object _ => some .object
  | function _ => some .function
  | other _ => none

def natural? : Value → Option Nat
  | number (.ofNat n) => some n
  | _ => none

theorem natural?_eq_some_iff {value : Value} {n : Nat} :
    value.natural? = some n ↔ value = .number n := by
  constructor
  · intro h
    rcases value with _ | _ | _ | (m | _) | _ | _ | _ | _ | _ <;> cases h
    rfl
  · rintro rfl
    rfl

theorem eq_number_of_typeName {value : Value} (ordinary : ∀ type, value ≠ .other type)
    (h : value.typeName = "number") : ∃ n, value = .number n := by
  cases value with
  | number n => exact ⟨n, rfl⟩
  | other type => exact absurd rfl (ordinary type)
  | _ => simp [typeName] at h

end Script.Value

open Script (Value Environment)
open Script.Expr (Tests)

variable {environment : Environment} {subject : Script.Expr} {value : Value}

namespace Kind

def Describes (value : Value) : Kind → Prop
  | undefined => value = .undefined
  | null => value = .null
  | string => value.typeName = "string"
  | array => value.isArray = true
  | object => (value.typeName = "object" ∧ value ≠ .null) ∧ ¬ value.isArray = true
  | function => value.typeName = "function"
  | isTrue => value = .boolean true
  | isFalse => value = .boolean false

theorem tests_check (known : subject.eval environment = some value) (kind : Kind) :
    Tests environment (kind.check subject) (kind.Describes value) := by
  have isArray := Script.Expr.tests_isArray known
  cases kind with
  | undefined => exact Script.Expr.tests_same known .undefined
  | null => exact Script.Expr.tests_same known .null
  | string => exact Script.Expr.tests_hasType known "string"
  | array => exact isArray
  | object =>
    have isObject := Script.Expr.tests_hasType known "object"
    have nonNull := Script.Expr.tests_differs_null known
    exact (isObject.both fun _ => nonNull).both fun _ => isArray.negate
  | function => exact Script.Expr.tests_hasType known "function"
  | isTrue => exact Script.Expr.tests_same known (.boolean true)
  | isFalse => exact Script.Expr.tests_same known (.boolean false)

theorem describes_iff (ordinary : ∀ type, value ≠ .other type) (kind : Kind) :
    kind.Describes value ↔ value.kind? = some kind := by
  rcases value with _ | _ | (_ | _) | _ | _ | _ | _ | _ | type
  case other => exact absurd rfl (ordinary type)
  all_goals cases kind <;> simp [Describes, Value.typeName, Value.isArray, Value.kind?]

end Kind

namespace SafeRange

variable {range : SafeRange} {n : Nat}

/-- A range with members is tested by the first and the last of them, and another range not at
all. -/
theorem checks_eq (subject : Script.Expr) (range : SafeRange) : range.checks subject =
    if range.isEmpty then []
    else if range.first = range.afterLast - 1 then [.same subject (.number range.first)]
    else [.group (.both (.both (.hasType subject "number")
      (.compared .atLeast subject (.number range.first)))
      (.compared .atMost subject (.number (range.afterLast - 1))))] := by
  cases nothing : range.isEmpty <;> simp [checks, first?, last?, nothing]

theorem tests_checks (known : subject.eval environment = some value)
    (ordinary : ∀ type, value ≠ .other type) (range : SafeRange) :
    ∀ test ∈ range.checks subject, Tests environment test (∃ n ∈ value.natural?, n ∈ range) := by
  intro test member
  rw [checks_eq] at member
  split at member
  · simp at member
  rename_i filled
  rw [isEmpty, decide_eq_true_iff] at filled
  simp only [Option.mem_def, Value.natural?_eq_some_iff, mem_def]
  split at member
  · rename_i single
    obtain rfl := List.mem_singleton.mp member
    refine (Script.Expr.tests_same known (.integer range.first)).congr ?_
    simp only [Tag.value]
    constructor
    · rintro rfl
      exact ⟨range.first, rfl, by omega, by omega⟩
    · rintro ⟨n, rfl, above, below⟩
      obtain rfl : n = range.first := by omega
      rfl
  · obtain rfl := List.mem_singleton.mp member
    have isNumber := Script.Expr.tests_hasType known "number"
    by_cases number : value.typeName = "number"
    · obtain ⟨n, rfl⟩ := Value.eq_number_of_typeName ordinary number
      have above := Script.Expr.tests_atLeast known range.first
      have below := Script.Expr.tests_atMost known (range.afterLast - 1)
      refine ((isNumber.both fun _ => above).both fun _ => below).congr ⟨?_, ?_⟩
      · rintro ⟨⟨_, atLeast⟩, atMost⟩
        exact ⟨n.toNat, congrArg Value.number (by omega), by omega, by omega⟩
      · rintro ⟨m, same, atLeast, atMost⟩
        obtain rfl := Value.number.inj same
        exact ⟨⟨rfl, by omega⟩, by omega⟩
    · refine ((isNumber.both_of_not number).both_of_not id).congr ⟨False.elim, ?_⟩
      rintro ⟨m, rfl, _⟩
      exact number rfl

theorem exists_check (subject : Script.Expr) (h : n ∈ range) :
    ∃ test, test ∈ range.checks subject := by
  have filled : ¬ range.isEmpty = true := by
    rw [mem_def] at h
    rw [isEmpty, decide_eq_true_iff]
    omega
  rw [checks_eq, if_neg filled]
  split <;> exact ⟨_, List.mem_singleton_self _⟩

end SafeRange

namespace ValueSet

instance : Membership Value ValueSet where
  mem set value :=
    (∃ n ∈ value.natural?, n ∈ set.integers) ∨ ∃ kind ∈ value.kind?, set.has kind = true

theorem mem_def {set : ValueSet} : value ∈ set ↔
    (∃ n ∈ value.natural?, n ∈ set.integers) ∨ ∃ kind ∈ value.kind?, set.has kind = true := Iff.rfl

theorem ne_other_of_mem {set : ValueSet} (h : value ∈ set) (type : String) :
    value ≠ .other type := by
  rintro rfl
  simp [mem_def, Value.natural?, Value.kind?] at h

theorem tests_check (known : subject.eval environment = some value)
    (ordinary : ∀ type, value ≠ .other type) (set : ValueSet) :
    Tests environment (set.check subject) (value ∈ set) := by
  have ranges := set.integers.tests_checks known ordinary
  have each : ∀ test ∈ set.integers.checks subject ++ set.kinds.map (Kind.check subject),
      ∃ p, Tests environment test p := by
    intro test member
    rcases List.mem_append.mp member with range | mapped
    · exact ⟨_, ranges test range⟩
    · obtain ⟨kind, _, rfl⟩ := List.mem_map.mp mapped
      exact ⟨_, kind.tests_check known⟩
  have integers : (∃ test ∈ set.integers.checks subject,
      test.eval environment = some (.boolean true)) ↔ ∃ n ∈ value.natural?, n ∈ set.integers := by
    constructor
    · rintro ⟨test, member, holds⟩
      exact (ranges test member).eval_eq_true_iff.mp holds
    · rintro ⟨n, natural, inside⟩
      obtain ⟨test, member⟩ := set.integers.exists_check subject inside
      exact ⟨test, member, (ranges test member).eval_eq_true_iff.mpr ⟨n, natural, inside⟩⟩
  have kinds : (∃ test ∈ set.kinds.map (Kind.check subject),
      test.eval environment = some (.boolean true)) ↔
        ∃ kind ∈ value.kind?, set.has kind = true := by
    simp only [List.mem_map, kinds, List.mem_filter, Kind.mem_all, true_and]
    constructor
    · rintro ⟨_, ⟨kind, has, rfl⟩, holds⟩
      have described := (kind.tests_check known).eval_eq_true_iff.mp holds
      exact ⟨kind, (kind.describes_iff ordinary).mp described, has⟩
    · rintro ⟨kind, described, has⟩
      exact ⟨_, ⟨kind, has, rfl⟩,
        (kind.tests_check known).eval_eq_true_iff.mpr ((kind.describes_iff ordinary).mpr described)⟩
  have meaning : (∃ test ∈ set.integers.checks subject ++ set.kinds.map (Kind.check subject),
      test.eval environment = some (.boolean true)) ↔ value ∈ set := by
    simp only [List.mem_append, or_and_right, exists_or, integers, kinds, mem_def]
  rw [check]
  split
  · rename_i none
    rw [none] at meaning
    exact ⟨false, rfl, by simp [← meaning]⟩
  · rename_i test only
    rw [only] at meaning each
    obtain ⟨p, tested⟩ := each test (List.mem_singleton_self _)
    refine tested.congr ?_
    rw [← meaning, ← tested.eval_eq_true_iff]
    simp
  · rename_i first rest _ several
    rw [several] at meaning each
    obtain ⟨p, tested⟩ := each first (List.mem_cons_self ..)
    have all := Script.Expr.tests_foldl_either rest tested fun test member =>
      each test (List.mem_cons_of_mem _ member)
    refine Script.Expr.tests_group.mpr (all.congr ?_)
    rw [← meaning, ← tested.eval_eq_true_iff]
    simp

end ValueSet

end RegisterIR
