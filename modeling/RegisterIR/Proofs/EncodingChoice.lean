import RegisterIR.Encoding.Cache

/-! Which strategy an enum gets. The choice is first stated as a relation that knows nothing of
caches, and that has at most one strategy for each enum. A request that returns, on any cache that
requests have filled, returns that strategy. -/

namespace RegisterIR

namespace Cached

variable {α β : Type}

def Yields (x : Cached α) (cache : Cache) (result : α) (after : Cache) : Prop :=
  (x.run cache).outcome = .ok (result, after)

variable {cache after : Cache}

theorem yields_pure {value result : α} :
    Yields (pure value) cache result after ↔ result = value ∧ after = cache := by
  simp [Yields, eq_comm]

theorem yields_bind {x : Cached α} {f : α → Cached β} {result : β} :
    Yields (x >>= f) cache result after ↔
      ∃ value between, Yields x cache value between ∧ Yields (f value) between result after := by
  simp [Yields, Traced.outcome_bind_eq_ok_iff]

theorem yields_lift {x : Traced α} {result : α} :
    Yields (liftM x) cache result after ↔ x.outcome = .ok result ∧ after = cache := by
  simp only [Yields, StateT.run_monadLift, monadLift_self, Traced.outcome_bind_eq_ok_iff,
    Traced.outcome_pure, Except.ok.injEq, Prod.mk.injEq]
  constructor
  · rintro ⟨value, outcome, rfl, rfl⟩
    exact ⟨outcome, rfl⟩
  · rintro ⟨outcome, rfl⟩
    exact ⟨result, outcome, rfl, rfl⟩

theorem yields_liftExcept {x : Except Fault α} {result : α} :
    Yields (liftM x) cache result after ↔ x = .ok result ∧ after = cache :=
  yields_lift (x := Traced.ofExcept x)

theorem not_yields_fault {fault : Fault} {result : α} :
    ¬ Yields (liftM (Traced.fault fault : Traced α)) cache result after := by
  rw [yields_lift]
  simp [Traced.fault]

theorem yields_record {event : Event} {value result : α} :
    Yields (liftM (Traced.record event) >>= fun _ => pure value) cache result after ↔
      result = value ∧ after = cache := by
  rw [yields_bind]
  simp [yields_lift, yields_pure, Traced.record]

def Fails (x : Cached α) (cache : Cache) (fault : Fault) : Prop :=
  (x.run cache).outcome = .error fault

variable {fault : Fault}

theorem fails_bind {x : Cached α} {f : α → Cached β} :
    Fails (x >>= f) cache fault ↔ Fails x cache fault ∨
      ∃ value between, Yields x cache value between ∧ Fails (f value) between fault := by
  rw [Fails, StateT.run_bind, Traced.outcome_bind, bind_eq_error_iff]
  simp [Fails, Yields]

theorem fails_lift {x : Traced α} :
    Fails (liftM x) cache fault ↔ x.outcome = .error fault := by
  rw [Fails, StateT.run_monadLift, monadLift_self, Traced.outcome_bind, bind_eq_error_iff]
  simp

end Cached

open Cached (Yields yields_pure yields_bind yields_liftExcept yields_record)

inductive ValueType.HasSet (chosen : EnumId → Strategy → Prop) : ValueType → ValueSet → Prop
  | unit : HasSet chosen unit (.ofKind .undefined)
  | string : HasSet chosen string (.ofKind .string)
  | host : HasSet chosen host .anything
  | integer {range} :
      HasSet chosen (integer range) (.ofRange (.clamped range.minimum range.maximum))
  | enumeration {id strategy set} : chosen id strategy → strategy.valueSet = .ok set →
      HasSet chosen (enumeration id) set
  | constructor {element} : HasSet chosen (constructor element) (.ofKind .function)
  | function {parameters result} : HasSet chosen (function parameters result) (.ofKind .function)
  | tuple {elements} : HasSet chosen (tuple elements) (.ofKind .array)
  | record {id} : HasSet chosen (record id) (.ofKind .array)
  | interface {id} : HasSet chosen (interface id) (.ofKind .object)

theorem ValueType.HasSet.mono {chosen chosen' : EnumId → Strategy → Prop}
    (sub : ∀ id strategy, chosen id strategy → chosen' id strategy) {type : ValueType}
    {set : ValueSet} (h : type.HasSet chosen set) : type.HasSet chosen' set := by
  cases h with
  | enumeration known values => exact .enumeration (sub _ _ known) values
  | _ => constructor

namespace Strategy

/-- The sets of the payloads and all values used by them, or none if one of them is empty or not
apart from those before it. -/
inductive Settles (chosen : EnumId → Strategy → Prop) :
    ValueSet → List Element → Option (List (Option ValueSet) × ValueSet) → Prop
  | nil {used} : Settles chosen used [] (some ([], used))
  | skip {used name elements rest} : Settles chosen used elements rest →
      Settles chosen used (⟨name, none⟩ :: elements)
        (rest.map fun (sets, used) => (none :: sets, used))
  | empty {used name type elements set} : type.HasSet chosen set → set.isEmpty = true →
      Settles chosen used (⟨name, some type⟩ :: elements) none
  | collide {used used' name type elements set} : type.HasSet chosen set →
      used.merge set = (false, used') → Settles chosen used (⟨name, some type⟩ :: elements) none
  | add {used used' name type elements set rest} : type.HasSet chosen set → set.isEmpty = false →
      used.merge set = (true, used') → Settles chosen used' elements rest →
      Settles chosen used (⟨name, some type⟩ :: elements)
        (rest.map fun (sets, used) => (some set :: sets, used))

/-- The strategy of an enum, when those of the enums in its payloads are in the relation. -/
inductive Suits (chosen : EnumId → Strategy → Prop) (enumeration : Enumeration) : Strategy → Prop
  | constants : enumeration.hasState = false →
      Suits chosen enumeration (constants enumeration.elements.length)
  | direct {sets used strategy} : enumeration.hasState = true →
      Settles chosen .empty enumeration.elements (some (sets, used)) →
      Strategy.direct 0 used sets = .ok (some strategy) → Suits chosen enumeration strategy
  | tagged {result} : enumeration.hasState = true →
      Settles chosen .empty enumeration.elements result →
      (∀ sets used, result = some (sets, used) → Strategy.direct 0 used sets = .ok none) →
      Suits chosen enumeration (tagged enumeration.elements)

/-- The strategy of an enum in a table. -/
inductive Chosen (enums : List Enumeration) : EnumId → Strategy → Prop
  | mk {id enumeration strategy} (chosen : EnumId → Strategy → Prop) :
      enums[id]? = some enumeration →
      (∀ id strategy, chosen id strategy → Chosen enums id strategy) →
      Suits chosen enumeration strategy → Chosen enums id strategy

end Strategy

section Unique

variable {chosen chosen' : EnumId → Strategy → Prop}
  (agree : ∀ id a b, chosen id a → chosen' id b → a = b)
include agree

theorem ValueType.HasSet.unique {type : ValueType} {set set' : ValueSet}
    (h : type.HasSet chosen set) (h' : type.HasSet chosen' set') : set = set' := by
  cases h with
  | enumeration strategy values =>
    cases h' with
    | enumeration strategy' values' =>
      obtain rfl := agree _ _ _ strategy strategy'
      exact Except.ok.inj (values.symm.trans values')
  | _ => cases h'; rfl

namespace Strategy

theorem Settles.unique {used : ValueSet} {elements : List Element}
    {result result' : Option (List (Option ValueSet) × ValueSet)}
    (h : Settles chosen used elements result) (h' : Settles chosen' used elements result') :
    result = result' := by
  induction h generalizing result' with
  | nil => cases h'; rfl
  | skip _ ih =>
    cases h' with
    | skip rest => rw [ih rest]
  | empty values nothing =>
    cases h' with
    | empty => rfl
    | collide => rfl
    | add values' something =>
      rw [values.unique agree values', something] at nothing
      simp at nothing
  | collide values clash =>
    cases h' with
    | empty => rfl
    | collide => rfl
    | add values' _ fits =>
      rw [values.unique agree values', fits] at clash
      simp at clash
  | add values something fits _ ih =>
    cases h' with
    | empty values' nothing =>
      rw [values.unique agree values', nothing] at something
      simp at something
    | collide values' clash =>
      rw [values.unique agree values', clash] at fits
      simp at fits
    | add values' _ fits' rest =>
      obtain rfl := values.unique agree values'
      cases fits.symm.trans fits'
      rw [ih rest]

theorem Suits.unique {enumeration : Enumeration} {strategy strategy' : Strategy}
    (h : Suits chosen enumeration strategy) (h' : Suits chosen' enumeration strategy') :
    strategy = strategy' := by
  cases h with
  | constants plain =>
    cases h' with
    | constants => rfl
    | direct stateful => simp [plain] at stateful
    | tagged stateful => simp [plain] at stateful
  | direct stateful settled found =>
    cases h' with
    | constants plain => simp [plain] at stateful
    | direct _ settled' found' =>
      cases settled.unique agree settled'
      exact Option.some.inj (Except.ok.inj (found.symm.trans found'))
    | tagged _ settled' fails =>
      have none := fails _ _ (settled.unique agree settled').symm
      simp [none] at found
  | tagged stateful settled fails =>
    cases h' with
    | constants plain => simp [plain] at stateful
    | direct _ settled' found =>
      have none := fails _ _ (settled.unique agree settled')
      simp [none] at found
    | tagged => rfl

end Strategy

end Unique

namespace Strategy

theorem Chosen.unique {enums : List Enumeration} {id : EnumId} {strategy strategy' : Strategy}
    (h : Chosen enums id strategy) (h' : Chosen enums id strategy') : strategy = strategy' := by
  induction h generalizing strategy' with
  | mk chosen declared _ suits ih =>
    cases h' with
    | mk chosen' declared' inner' suits' =>
      obtain rfl := Option.some.inj (declared.symm.trans declared')
      exact suits.unique (fun id a b known known' => ih id a known (inner' id b known')) suits'

end Strategy

section Sound

variable {require : EnumId → Cached Strategy} {Sound : Cache → Prop}
  {chosen : EnumId → Strategy → Prop}
  (sound : ∀ id cache strategy after, Sound cache → Yields (require id) cache strategy after →
    chosen id strategy ∧ Sound after)
include sound

theorem ValueType.hasSet_of_yields {type : ValueType} {cache after : Cache} {set : ValueSet}
    (start : Sound cache) (h : Yields (type.valueSet require) cache set after) :
    type.HasSet chosen set ∧ Sound after := by
  cases type with
  | enumeration id =>
    obtain ⟨strategy, between, asked, h⟩ := yields_bind.mp h
    obtain ⟨known, sound'⟩ := sound _ _ _ _ start asked
    obtain ⟨values, rfl⟩ := yields_liftExcept.mp h
    exact ⟨.enumeration known values, sound'⟩
  | _ =>
    obtain ⟨rfl, rfl⟩ := yields_pure.mp h
    exact ⟨by constructor, start⟩

namespace Strategy

theorem settles_of_yields {elements : List Element} {used : ValueSet} {cache after : Cache}
    {result : Option (List (Option ValueSet) × ValueSet)} (start : Sound cache)
    (h : Yields (payloads require used elements) cache result after) :
    Settles chosen used elements result ∧ Sound after := by
  induction elements generalizing used cache result with
  | nil =>
    obtain ⟨rfl, rfl⟩ := yields_pure.mp h
    exact ⟨.nil, start⟩
  | cons element elements ih =>
    obtain ⟨name, _ | type⟩ := element
    · obtain ⟨rest, between, traversed, h⟩ := yields_bind.mp h
      obtain ⟨rfl, rfl⟩ := yields_pure.mp h
      obtain ⟨settles, sound'⟩ := ih start traversed
      exact ⟨.skip settles, sound'⟩
    · obtain ⟨set, between, computed, h⟩ := yields_bind.mp h
      obtain ⟨values, sound'⟩ := type.hasSet_of_yields sound start computed
      split at h
      · rename_i nothing
        obtain ⟨rfl, rfl⟩ := yields_pure.mp h
        exact ⟨.empty values nothing, sound'⟩
      · rename_i something
        split at h
        rename_i merged used' fits
        cases merged with
        | false =>
          obtain ⟨rfl, rfl⟩ := yields_pure.mp h
          exact ⟨.collide values fits, sound'⟩
        | true =>
          obtain ⟨rest, later, traversed, h⟩ := yields_bind.mp h
          obtain ⟨rfl, rfl⟩ := yields_pure.mp h
          obtain ⟨settles, sound''⟩ := ih sound' traversed
          exact ⟨.add values (Bool.eq_false_iff.mpr something) fits settles, sound''⟩

theorem suits_of_yields {enumeration : Enumeration} {cache after : Cache} {strategy : Strategy}
    (start : Sound cache)
    (h : Yields (ofEnumeration require enumeration) cache strategy after) :
    Suits chosen enumeration strategy ∧ Sound after := by
  rw [ofEnumeration] at h
  split at h
  · rename_i stateful
    obtain ⟨result, between, traversed, h⟩ := yields_bind.mp h
    obtain ⟨settles, sound'⟩ := settles_of_yields sound start traversed
    cases result with
    | none =>
      obtain ⟨candidate, later, nothing, recorded⟩ := yields_bind.mp h
      obtain ⟨rfl, rfl⟩ := yields_pure.mp nothing
      obtain ⟨rfl, rfl⟩ := yields_record.mp recorded
      exact ⟨.tagged stateful settles (by simp), sound'⟩
    | some pair =>
      obtain ⟨sets, used⟩ := pair
      obtain ⟨candidate, later, lifted, recorded⟩ := yields_bind.mp h
      obtain ⟨computed, rfl⟩ := yields_liftExcept.mp lifted
      cases candidate with
      | none =>
        obtain ⟨rfl, rfl⟩ := yields_record.mp recorded
        refine ⟨.tagged stateful settles ?_, sound'⟩
        rintro _ _ ⟨⟩
        exact computed
      | some candidate =>
        obtain ⟨rfl, rfl⟩ := yields_record.mp recorded
        exact ⟨.direct stateful settles computed, sound'⟩
  · rename_i plain
    obtain ⟨rfl, rfl⟩ := yields_pure.mp h
    exact ⟨.constants (Bool.eq_false_iff.mpr plain), start⟩

end Strategy

end Sound

def Cache.Sound (enums : List Enumeration) (cache : Cache) : Prop :=
  ∀ entry ∈ cache.known, Strategy.Chosen enums entry.1 entry.2

namespace Strategy

variable {enums : List Enumeration}

section Request

variable {nested : EnumId → Cached Strategy} {id : EnumId} {cache : Cache}
  {enumeration : Enumeration}

theorem requireVia_undeclared (undeclared : enums[id]? = none) :
    requireVia enums nested id =
      liftM (Traced.fault (.unknownEnum id enums.length) : Traced Strategy) := by
  simp [requireVia, undeclared]

variable (declared : enums[id]? = some enumeration)
include declared

theorem requireVia_known {strategy : Strategy} (known : cache.known.lookup id = some strategy) :
    (requireVia enums nested id).run cache = pure (strategy, cache) := by
  simp [requireVia, declared, known]

variable (unknown : cache.known.lookup id = none)
include unknown

theorem requireVia_active (active : id ∈ cache.active) :
    Cached.Fails (requireVia enums nested id) cache (.recursiveEnum id) := by
  have run : (requireVia enums nested id).run cache =
      (liftM (Traced.fault (.recursiveEnum id) : Traced Strategy) : Cached Strategy).run cache := by
    simp [requireVia, declared, unknown, active]
  rw [Cached.Fails, run]
  exact Cached.fails_lift.mpr rfl

theorem requireVia_new (idle : id ∉ cache.active) :
    (requireVia enums nested id).run cache =
      (fun (strategy, after) => (strategy, after.finish id strategy)) <$>
        (ofEnumeration nested enumeration).run (cache.enter id) := by
  simp [requireVia, declared, unknown, idle]

end Request

theorem chosen_of_requireWithin (depth : Nat) {id : EnumId} {cache after : Cache}
    {strategy : Strategy} (sound : cache.Sound enums)
    (h : Yields (requireWithin enums depth id) cache strategy after) :
    Chosen enums id strategy ∧ after.Sound enums := by
  induction depth generalizing id cache after strategy with
  | zero => exact absurd h Cached.not_yields_fault
  | succ depth ih =>
    rw [requireWithin] at h
    cases declared : enums[id]? with
    | none =>
      rw [requireVia_undeclared declared] at h
      exact absurd h Cached.not_yields_fault
    | some enumeration =>
      cases known : cache.known.lookup id with
      | some found =>
        rw [Yields, requireVia_known declared known] at h
        obtain ⟨rfl, rfl⟩ := Prod.mk.inj (Except.ok.inj h)
        obtain ⟨before, later, split, _⟩ := List.lookup_eq_some_iff.mp known
        exact ⟨sound (id, found) (by simp [split]), sound⟩
      | none =>
        by_cases active : id ∈ cache.active
        · cases (requireVia_active declared known active).symm.trans h
        · rw [Yields, requireVia_new declared known active] at h
          obtain ⟨⟨computed, between⟩, run, finished⟩ := Traced.outcome_map_eq_ok_iff.mp h
          obtain ⟨rfl, rfl⟩ := Prod.mk.inj finished
          obtain ⟨suits, sound'⟩ :=
            suits_of_yields (fun _ _ _ _ => ih) (show (cache.enter id).Sound enums from sound) run
          have chosen : Chosen enums id computed := .mk _ declared (fun _ _ known => known) suits
          exact ⟨chosen, List.forall_mem_cons.mpr ⟨chosen, sound'⟩⟩

/-- The caches that requests leave when they start from an empty one and return. -/
inductive Reachable (enums : List Enumeration) : Cache → Prop
  | empty : Reachable enums .empty
  | require {cache id strategy after} : Reachable enums cache →
      Yields (require enums id) cache strategy after → Reachable enums after

theorem Reachable.sound {cache : Cache} (h : Reachable enums cache) : cache.Sound enums := by
  induction h with
  | empty => simp [Cache.Sound, Cache.empty]
  | require _ run ih => exact (chosen_of_requireWithin _ ih run).2

theorem chosen_of_require {id : EnumId} {cache after : Cache} {strategy : Strategy}
    (reachable : Reachable enums cache) (h : Yields (require enums id) cache strategy after) :
    Chosen enums id strategy :=
  (chosen_of_requireWithin _ reachable.sound h).1

end Strategy

end RegisterIR
