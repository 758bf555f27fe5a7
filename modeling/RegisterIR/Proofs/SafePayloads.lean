import RegisterIR.Proofs.CacheTransparency
import RegisterIR.Proofs.EnumDispatch

/-! Which payloads of a direct encoding are recognised. The set of a type of integers ends at the
largest safe integer, while a type may go on beyond it, and values are built from all integers of
the type; likewise the host may give any integer. So a payload is recognised exactly when it is not
an integer outside the safe ones. -/

namespace RegisterIR

open Script (Value Environment)
open Script.Expr (Tests)
open Cached (Yields Fails yields_pure yields_bind yields_liftExcept Agrees)

/-- A value is safe unless it is an integer below zero or beyond the largest safe one. -/
def Script.Value.IsSafe (value : Value) : Prop :=
  ∀ n : Int, value = .number n → 0 ≤ n ∧ n ≤ maxSafeInteger

theorem Script.Value.IsSafe.mem_anything {value : Value} (h : value.IsSafe)
    (ordinary : ∀ type, value ≠ .other type) : value ∈ ValueSet.anything := by
  cases value with
  | number n =>
    obtain ⟨natural, safe⟩ := h n rfl
    obtain ⟨m, rfl⟩ := Int.eq_ofNat_of_zero_le natural
    have inside : m ∈ SafeRange.full := ⟨Nat.zero_le m, Nat.lt_succ_of_le (by omega)⟩
    exact .inl ⟨m, rfl, inside⟩
  | boolean value => cases value <;> exact .inr ⟨_, rfl, rfl⟩
  | other type => exact absurd rfl (ordinary type)
  | _ => exact .inr ⟨_, rfl, rfl⟩

theorem SafeRange.le_maxSafeInteger {range : SafeRange} {n : Nat} (h : n ∈ range) :
    n ≤ maxSafeInteger :=
  Nat.le_of_lt_succ (Nat.lt_of_lt_of_le h.2 range.safe)

theorem ValueSet.isSafe_of_mem {set : ValueSet} {value : Value} (h : value ∈ set) :
    value.IsSafe := by
  rintro n rfl
  rcases h with ⟨m, natural, inside⟩ | ⟨kind, described, _⟩
  · have same := Value.number.inj (Value.natural?_eq_some_iff.mp natural)
    have := SafeRange.le_maxSafeInteger inside
    omega
  · simp [Value.kind?] at described

/-- A script value stands for a value of a type, where a type of integers has all integers between
its bounds, and the host has all values but those of which only the type is known. -/
inductive Inhabits (enums : List Enumeration) : ValueType → Value → Prop
  | integer {range : IntegerRange} {n : Nat} : range.minimum ≤ n → n ≤ range.maximum →
      Inhabits enums (.integer range) (.number n)
  | host {value : Value} : (∀ type, value ≠ .other type) → Inhabits enums .host value
  | element {id : EnumId} {cache after : Cache} {strategy : Strategy} {enumeration : Enumeration}
      {i : Nat} {element : Element} {encoding : ElementEncoding} {payload value : Value}
      {environment : Environment} {source : String} :
      Strategy.Reachable enums cache → Yields (Strategy.require enums id) cache strategy after →
      enums[id]? = some enumeration → enumeration.elements[i]? = some element →
      strategy[i]? = some encoding → (∀ type ∈ element.state, Inhabits enums type payload) →
      environment source = some payload →
      (encoding.construct (.name source)).eval environment = some value →
      Inhabits enums (.enumeration id) value
  | represented {type : ValueType} {value : Value} :
      Represents enums type value → Inhabits enums type value

namespace Inhabits

variable {enums : List Enumeration} {type : ValueType} {value : Value}

/-- The set of a type has all safe values of the type. -/
theorem mem (h : Inhabits enums type value) :
    value.IsSafe → ∀ set, type.HasSet (Strategy.Chosen enums) set → value ∈ set := by
  induction h with
  | @integer range n above below =>
    rintro isSafe set ⟨⟩
    have safe := (isSafe n rfl).2
    exact .inl ⟨n, rfl, SafeRange.mem_clamped.mpr ⟨above, below, by omega⟩⟩
  | host ordinary =>
    rintro isSafe set ⟨⟩
    exact isSafe.mem_anything ordinary
  | @element _ _ _ _ _ _ element _ payload _ _ _ reachable asked declared found encoded _ known
      evaluated ih =>
    intro isSafe set typed
    have own := Strategy.chosen_of_require reachable asked
    have fits := own.fits_at declared found encoded
    rw [ElementEncoding.eval_construct known] at evaluated
    obtain rfl := Option.some.inj evaluated
    cases typed with
    | enumeration chosen values =>
      obtain rfl := own.unique chosen
      refine Strategy.mem_valueSet values (List.mem_of_getElem? encoded) ?_
      -- A payload has to be safe only where it stands for itself.
      generalize element.state = state at fits ih
      cases fits with
      | stateless => rfl
      | direct typed => exact ih _ rfl isSafe _ typed
      | indirect => exact ⟨[payload], rfl⟩
  | represented represents => exact fun _ => represents.mem

variable {set : ValueSet} (h : Inhabits enums type value)
  (typed : type.HasSet (Strategy.Chosen enums) set)
include h typed

theorem mem_iff : value ∈ set ↔ value.IsSafe :=
  ⟨ValueSet.isSafe_of_mem, fun isSafe => h.mem isSafe set typed⟩

theorem tests_check {environment : Environment} {subject : Script.Expr}
    (known : subject.eval environment = some value) :
    Tests environment (set.check subject) value.IsSafe := by
  have ordinary : ∀ other, value ≠ .other other := by
    rintro other rfl
    exact ValueSet.ne_other_of_mem ((h.mem_iff typed).mpr nofun) other rfl
  exact (set.tests_check known ordinary).congr (h.mem_iff typed)

end Inhabits

theorem ValueType.HasSet.exists_yields {enums : List Enumeration} {type : ValueType}
    {set : ValueSet} (h : type.HasSet (Strategy.Answered enums) set) {cache : Cache}
    (reachable : Strategy.Reachable enums cache) :
    ∃ after, Yields (type.valueSet (Strategy.require enums)) cache set after := by
  cases h with
  | enumeration answered values =>
    obtain ⟨after, returned⟩ := answered.exists_require reachable
    exact ⟨after, yields_bind.mpr ⟨_, after, returned, yields_liftExcept.mpr ⟨values, rfl⟩⟩⟩
  | _ => exact ⟨cache, yields_pure.mpr ⟨rfl, rfl⟩⟩

namespace Strategy

theorem Fits.exists_direct {chosen : EnumId → Strategy → Prop} {type : ValueType}
    {encoding : ElementEncoding} (h : Fits chosen (some type) encoding)
    (unwrapped : ∀ tag, encoding ≠ .indirect tag) :
    ∃ set, encoding = .direct set ∧ type.HasSet chosen set := by
  cases h with
  | direct values => exact ⟨_, rfl, values⟩
  | indirect => exact absurd rfl (unwrapped _)

theorem Answered.chosen {enums : List Enumeration} {id : EnumId} {strategy : Strategy}
    (h : Answered enums id strategy) : Chosen enums id strategy := by
  obtain ⟨after, returned⟩ := h.exists_require .empty
  exact chosen_of_require .empty returned

end Strategy

/-- Where payloads stand for themselves, the set of the type of a payload can be had and is that of
its element; a payload of the type belongs to the set, and the element is recognised in what is
built from the payload, exactly if the payload is no integer outside the safe ones. -/
theorem require_recognises_safe_payloads (enums : List Enumeration) (cache after : Cache)
    (reachable : Strategy.Reachable enums cache) (id : EnumId) (strategy : Strategy)
    (returned : ((Strategy.require enums id).run cache).outcome = .ok (strategy, after))
    (unwrapped : ∀ tag, .indirect tag ∉ strategy)
    (enumeration : Enumeration) (declared : enums[id]? = some enumeration) (i : Nat)
    (element : Element) (found : enumeration.elements[i]? = some element) (type : ValueType)
    (stateful : element.state = some type) (payload : Value)
    (inhabits : Inhabits enums type payload) :
    ∃ set, strategy[i]? = some (.direct set) ∧
      (∀ other, Strategy.Reachable enums other → ∃ later,
        ((type.valueSet (Strategy.require enums)).run other).outcome = .ok (set, later)) ∧
      (payload ∈ set ↔ payload.IsSafe) ∧
      ∀ environment source subject value, environment source = some payload →
        ((ElementEncoding.direct set).construct (.name source)).eval environment = some value →
        environment subject = some value →
        Tests environment ((ElementEncoding.direct set).check (.name subject)) payload.IsSafe := by
  obtain ⟨enumeration', declared', suits⟩ :=
    (Strategy.answered_of_require reachable returned).suits
  obtain rfl := Option.some.inj (declared.symm.trans declared')
  have inside : i < strategy.length := by
    rw [← suits.fits.length_eq]
    exact (List.getElem?_eq_some_iff.mp found).1
  have encoded := List.getElem?_eq_getElem inside
  have fits := Strategy.rel_of_forall₂ suits.fits found encoded
  rw [stateful] at fits
  obtain ⟨set, same, answered⟩ := fits.exists_direct fun tag same =>
    unwrapped tag (same ▸ List.getElem_mem inside)
  have typed : type.HasSet (Strategy.Chosen enums) set :=
    answered.mono fun _ _ strategy => strategy.chosen
  refine ⟨set, by rw [encoded, same], fun other reachable => answered.exists_yields reachable,
    inhabits.mem_iff typed, ?_⟩
  intro environment source subject value sourced built subjected
  rw [ElementEncoding.eval_construct sourced] at built
  obtain rfl := Option.some.inj built
  exact inhabits.tests_check typed subjected

def wideRange : IntegerRange := ⟨0, 9007199254740992, by decide⟩

def wideEnums : List Enumeration :=
  [⟨"Wide", [⟨"count", some (.integer wideRange)⟩]⟩,
    ⟨"Outer", [⟨"wide", some (.enumeration 0)⟩, ⟨"text", some .string⟩]⟩]

def wideNumber : Value := .number 9007199254740992

theorem not_isSafe_wideNumber : ¬ wideNumber.IsSafe := fun isSafe =>
  absurd (isSafe 9007199254740992 rfl).2 (by decide)

theorem inhabits_wideRange : Inhabits wideEnums (.integer wideRange) wideNumber :=
  @Inhabits.integer wideEnums wideRange 9007199254740992 (by decide) (by decide)

theorem inhabits_wide : Inhabits wideEnums (.enumeration 0) wideNumber := by
  refine @Inhabits.element wideEnums 0 .empty _ _ _ 0 _ _ wideNumber _
    (fun _ => some wideNumber) "payload" .empty rfl rfl rfl rfl ?_ rfl rfl
  rintro _ ⟨⟩
  exact inhabits_wideRange

theorem require_recognises_safe_payloads_wideEnums :
    ∃ strategy after,
      ((Strategy.require wideEnums 1).run .empty).outcome = .ok (strategy, after) ∧
      (∀ tag, .indirect tag ∉ strategy) ∧ Inhabits wideEnums (.enumeration 0) wideNumber ∧
      ∃ set, strategy[0]? = some (.direct set) ∧
        (∀ other, Strategy.Reachable wideEnums other → ∃ later,
          (((ValueType.enumeration 0).valueSet (Strategy.require wideEnums)).run other).outcome =
            .ok (set, later)) ∧
        (wideNumber ∈ set ↔ wideNumber.IsSafe) ∧
        ∀ environment source subject value, environment source = some wideNumber →
          ((ElementEncoding.direct set).construct (.name source)).eval environment = some value →
          environment subject = some value →
          Tests environment ((ElementEncoding.direct set).check (.name subject))
            wideNumber.IsSafe := by
  have unwrapped (a b : ValueSet) (tag : Nat) :
      ElementEncoding.indirect tag ∉ [ElementEncoding.direct a, .direct b] := by simp
  exact ⟨_, _, rfl, unwrapped _ _, inhabits_wide, require_recognises_safe_payloads wideEnums
    .empty _ .empty 1 _ rfl (unwrapped _ _) _ rfl 0 _ rfl _ rfl _ inhabits_wide⟩

/-- Not every payload of the declared type is recognised. -/
theorem wideEnums_count_unrecognised :
    ∃ strategy after set later,
      ((Strategy.require wideEnums 0).run .empty).outcome = .ok (strategy, after) ∧
      (∀ tag, .indirect tag ∉ strategy) ∧ strategy[0]? = some (.direct set) ∧
      (((ValueType.integer wideRange).valueSet (Strategy.require wideEnums)).run after).outcome =
        .ok (set, later) ∧
      Inhabits wideEnums (.integer wideRange) wideNumber ∧ wideNumber ∉ set ∧
      ∀ environment subject, environment subject = some wideNumber →
        ((ElementEncoding.direct set).check (.name subject)).eval environment =
          some (.boolean false) := by
  refine ⟨_, _, _, _, rfl, ?_, rfl, rfl, inhabits_wideRange, ?_, ?_⟩
  · intro tag
    simp
  · exact fun inside => not_isSafe_wideNumber (ValueSet.isSafe_of_mem inside)
  · intro environment subject known
    have evaluated : (Script.Expr.name subject).eval environment = some wideNumber := known
    have tests := inhabits_wideRange.tests_check .integer evaluated
    exact (tests.congr (iff_false_intro not_isSafe_wideNumber)).eval_eq_decide

end RegisterIR
