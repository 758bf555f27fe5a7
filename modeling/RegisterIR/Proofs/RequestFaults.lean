import Mathlib.Logic.Relation
import RegisterIR.Proofs.CacheTransparency
import RegisterIR.Proofs.EncodingDisjointness

/-! Why a request for a strategy stops. The enums under way always form a chain of payloads that
leads to the requested one, so meeting one of them again closes a cycle. Ordinals apart, nothing
else but an enum outside the table stops a request. Every nested request enters an enum that is not
under way, which bounds their depth by the size of the table. -/

namespace RegisterIR

open Relation (ReflTransGen TransGen)

theorem Tag.valueSet_eq_error {tag : Tag} {fault : Fault} (h : tag.valueSet = .error fault) :
    ∃ value, tag = .integer value ∧ maxSafeInteger < value ∧ fault = .beyondSafe value := by
  cases tag with
  | integer value =>
    by_cases isSafe : value ≤ maxSafeInteger
    · simp [valueSet, SafeRange.ofBounds, isSafe, Functor.map, Except.map] at h
    · refine ⟨value, rfl, Nat.not_le.mp isSafe, ?_⟩
      simpa [valueSet, SafeRange.ofBounds, isSafe, Functor.map, Except.map, eq_comm] using h
  | boolean value => cases h
  | undefined => cases h
  | null => cases h

namespace Strategy

variable {enums : List Enumeration} {enumeration : Enumeration} {id : EnumId}

theorem valueSet_eq_error {strategy : Strategy} {start : ValueSet} {fault : Fault}
    (h : strategy.foldlM addValues start = .error fault) :
    ∃ value, .stateless (.integer value) ∈ strategy ∧ maxSafeInteger < value ∧
      fault = .beyondSafe value := by
  induction strategy generalizing start with
  | nil => cases h
  | cons encoding rest ih =>
    rcases bind_eq_error_iff.mp h with first | ⟨set, _, later⟩
    · rcases bind_eq_error_iff.mp first with own | ⟨own, _, joined⟩
      · cases encoding with
        | stateless tag =>
          obtain ⟨value, rfl, above, rfl⟩ := Tag.valueSet_eq_error own
          exact ⟨value, List.mem_cons_self, above, rfl⟩
        | direct payload => cases own
        | indirect tag => cases own
      · cases joined
    · obtain ⟨value, member, above, rfl⟩ := ih later
      exact ⟨value, List.mem_cons_of_mem _ member, above, rfl⟩

theorem firstFree_eq_error {used : ValueSet} {tags : List Tag} {fault : Fault}
    (h : firstFree used tags = .error fault) :
    ∃ value, .integer value ∈ tags ∧ maxSafeInteger < value ∧ fault = .beyondSafe value := by
  induction tags generalizing used with
  | nil => cases h
  | cons tag tags ih =>
    rcases bind_eq_error_iff.mp h with own | ⟨set, _, later⟩
    · obtain ⟨value, rfl, above, rfl⟩ := Tag.valueSet_eq_error own
      exact ⟨value, List.mem_cons_self, above, rfl⟩
    · split at later
      rename_i merged left _
      cases merged with
      | true => cases later
      | false =>
        obtain ⟨value, member, above, rfl⟩ := ih later
        exact ⟨value, List.mem_cons_of_mem _ member, above, rfl⟩

theorem direct_eq_error {sets : List (Option ValueSet)} {index : Nat} {used : ValueSet}
    {fault : Fault} (h : direct index used sets = .error fault) :
    ∃ ordinal < index + sets.length, maxSafeInteger < ordinal ∧ fault = .beyondSafe ordinal := by
  induction sets generalizing index used with
  | nil => cases h
  | cons set sets ih =>
    have later {used : ValueSet} (h : direct (index + 1) used sets = .error fault) :
        ∃ ordinal < index + (sets.length + 1), maxSafeInteger < ordinal ∧
          fault = .beyondSafe ordinal := by
      obtain ⟨ordinal, inside, beyond⟩ := ih h
      exact ⟨ordinal, by omega, beyond⟩
    cases set with
    | some payload =>
      rcases bind_eq_error_iff.mp h with failed | ⟨rest, _, joined⟩
      · exact later failed
      · cases joined
    | none =>
      rcases bind_eq_error_iff.mp h with failed | ⟨free, _, next⟩
      · obtain ⟨ordinal, member, above, rfl⟩ := firstFree_eq_error failed
        obtain rfl : ordinal = index := by simpa using member
        exact ⟨ordinal, by simp, above, rfl⟩
      · cases free with
        | none => cases next
        | some pair =>
          rcases bind_eq_error_iff.mp next with failed | ⟨rest, _, joined⟩
          · exact later failed
          · cases joined

theorem Chosen.ordinal_lt {strategy : Strategy} (h : Chosen enums id strategy)
    (declared : enums[id]? = some enumeration) {value : Nat} (above : maxSafeInteger < value)
    (member : .stateless (.integer value) ∈ strategy) : value < enumeration.elements.length := by
  obtain ⟨_, inner, declared', suits⟩ := h.suits
  obtain rfl := Option.some.inj (declared.symm.trans declared')
  rcases suits.apart with byValues | byOrdinals
  · obtain ⟨set, listed, _⟩ := byValues.nonempty _ member
    have beyond : ¬ value ≤ maxSafeInteger := Nat.not_le.mpr above
    simp [ElementEncoding.valueSet, Tag.valueSet, SafeRange.ofBounds, beyond, Functor.map,
      Except.map] at listed
  · obtain ⟨i, encoded⟩ := List.mem_iff_getElem?.mp member
    obtain ⟨inside, wrapped | number⟩ := ApartByOrdinals.shape byOrdinals
      (h.fits declared).length_eq.symm encoded
    · cases wrapped
    · cases number
      exact inside

def Overflows (enums : List Enumeration) (id : EnumId) (fault : Fault) : Prop :=
  ∃ enumeration, enums[id]? = some enumeration ∧ ∃ ordinal < enumeration.elements.length,
    maxSafeInteger < ordinal ∧ fault = .beyondSafe ordinal

theorem Chosen.overflows {strategy : Strategy} {fault : Fault} (h : Chosen enums id strategy)
    (failed : strategy.valueSet = .error fault) : Overflows enums id fault := by
  obtain ⟨ordinal, member, above, rfl⟩ := valueSet_eq_error failed
  obtain ⟨enumeration, _, declared, _⟩ := h.suits
  exact ⟨enumeration, declared, ordinal, h.ordinal_lt declared above member, above, rfl⟩

end Strategy

namespace Cached

variable {α β : Type}

/-- On sound caches with the given active enums, results have the property and leave such a cache,
and there are no faults but the given ones. -/
def Ends (enums : List Enumeration) (active : List EnumId) (faults : Fault → Prop) (x : Cached α)
    (P : α → Prop) : Prop :=
  ∀ cache : Cache, cache.Sound enums → cache.active = active →
    (∀ result after, Yields x cache result after →
      P result ∧ after.Sound enums ∧ after.active = active) ∧
    ∀ fault, Fails x cache fault → faults fault

variable {enums : List Enumeration} {active : List EnumId} {faults faults' : Fault → Prop}
  {P : α → Prop} {Q : β → Prop}

theorem ends_pure {value : α} (h : P value) : Ends enums active faults (pure value) P := by
  intro cache sound same
  refine ⟨fun result after yields => ?_, fun fault failed => by cases failed⟩
  obtain ⟨rfl, rfl⟩ := yields_pure.mp yields
  exact ⟨h, sound, same⟩

theorem Ends.bind {x : Cached α} {f : α → Cached β} (first : Ends enums active faults x P)
    (next : ∀ value, P value → Ends enums active faults (f value) Q) :
    Ends enums active faults (x >>= f) Q := by
  intro cache sound same
  obtain ⟨returns, fails⟩ := first cache sound same
  refine ⟨fun result after yields => ?_, fun fault failed => ?_⟩
  · obtain ⟨value, between, ran, yields⟩ := yields_bind.mp yields
    obtain ⟨holds, sound', same'⟩ := returns value between ran
    exact (next value holds between sound' same').1 result after yields
  · rcases fails_bind.mp failed with failed | ⟨value, between, ran, failed⟩
    · exact fails fault failed
    · obtain ⟨holds, sound', same'⟩ := returns value between ran
      exact (next value holds between sound' same').2 fault failed

theorem ends_lift {x : Except Fault α} (returns : ∀ value, x = .ok value → P value)
    (fails : ∀ fault, x = .error fault → faults fault) :
    Ends enums active faults (liftM x) P := by
  refine fun cache sound same => ⟨fun result after yields => ?_, fun fault failed => ?_⟩
  · obtain ⟨computed, rfl⟩ := yields_liftExcept.mp yields
    exact ⟨returns result computed, sound, same⟩
  · exact fails fault (fails_lift (x := Traced.ofExcept x).mp failed)

theorem ends_record {event : Event} :
    Ends enums active faults (liftM (Traced.record event)) fun _ => True := by
  intro cache sound same
  refine ⟨fun result after yields => ?_, fun fault failed => by cases failed⟩
  obtain ⟨_, rfl⟩ := yields_lift.mp yields
  exact ⟨trivial, sound, same⟩

theorem Ends.mono {x : Cached α} (h : Ends enums active faults x P)
    (weaker : ∀ fault, faults fault → faults' fault) : Ends enums active faults' x P :=
  fun cache sound same =>
    ⟨(h cache sound same).1, fun fault failed => weaker fault ((h cache sound same).2 fault failed)⟩

theorem Ends.outcome {x : Cached α} (h : Ends enums active faults x P) {cache : Cache}
    (sound : cache.Sound enums) (same : cache.active = active) :
    (∃ result after, (x.run cache).outcome = .ok (result, after)) ∨
      ∃ fault, faults fault ∧ (x.run cache).outcome = .error fault := by
  cases ran : (x.run cache).outcome with
  | ok pair => exact .inl ⟨pair.1, pair.2, rfl⟩
  | error fault => exact .inr ⟨fault, (h cache sound same).2 fault ran, rfl⟩

end Cached

open Cached (Yields Fails Ends ends_pure ends_lift ends_record)

section Traversal

variable {enums : List Enumeration} {active : List EnumId} {faults : Fault → Prop}
  {require : EnumId → Cached Strategy}

theorem ValueType.ends_valueSet {type : ValueType}
    (answered : ∀ id, type = .enumeration id →
      Ends enums active faults (require id) (Strategy.Chosen enums id) ∧
        ∀ fault, Strategy.Overflows enums id fault → faults fault) :
    Ends enums active faults (type.valueSet require) fun _ => True := by
  cases type with
  | enumeration id =>
    obtain ⟨strategies, overflows⟩ := answered id rfl
    exact strategies.bind fun strategy chosen => ends_lift (fun _ _ => trivial) fun fault failed =>
      overflows fault (chosen.overflows failed)
  | _ => exact ends_pure trivial

namespace Strategy

theorem ends_payloads {elements : List Element} (used : ValueSet)
    (answered : ∀ element ∈ elements, ∀ id, element.state = some (.enumeration id) →
      Ends enums active faults (require id) (Chosen enums id) ∧
        ∀ fault, Overflows enums id fault → faults fault) :
    Ends enums active faults (payloads require used elements) fun result =>
      ∀ sets used', result = some (sets, used') → sets.length = elements.length := by
  induction elements generalizing used with
  | nil =>
    refine ends_pure ?_
    rintro _ _ ⟨⟩
    rfl
  | cons element elements ih =>
    obtain ⟨first, others⟩ := List.forall_mem_cons.mp answered
    have joined (set : Option ValueSet) (used : ValueSet) : Ends enums active faults
        (do
          let rest ← payloads require used elements
          pure (rest.map fun pair => (set :: pair.1, pair.2)))
        fun result => ∀ sets used', result = some (sets, used') →
          sets.length = (element :: elements).length := by
      refine (ih used others).bind fun rest length => ends_pure fun sets used' equation => ?_
      obtain ⟨⟨later, _⟩, found, shape⟩ := Option.map_eq_some_iff.mp equation
      cases shape
      rw [List.length_cons, List.length_cons, length _ _ found]
    obtain ⟨name, _ | type⟩ := element
    · exact joined none used
    · have listed : Ends enums active faults (type.valueSet require) fun _ => True :=
        type.ends_valueSet fun id same => first id (congrArg some same)
      refine listed.bind fun set _ => ?_
      split
      · exact ends_pure (by simp)
      · split
        rename_i merged used' _
        cases merged with
        | false => exact ends_pure (by simp)
        | true => exact joined (some set) used'

theorem ends_ofEnumeration {id : EnumId} {enumeration : Enumeration}
    (declared : enums[id]? = some enumeration)
    (own : ∀ fault, Overflows enums id fault → faults fault)
    (answered : ∀ element ∈ enumeration.elements, ∀ inner,
      element.state = some (.enumeration inner) →
      Ends enums active faults (require inner) (Chosen enums inner) ∧
        ∀ fault, Overflows enums inner fault → faults fault) :
    Ends enums active faults (ofEnumeration require enumeration) fun _ => True := by
  rw [ofEnumeration]
  split
  · refine (ends_payloads .empty answered).bind fun result length => ?_
    cases result with
    | none =>
      refine (ends_pure trivial).bind fun chosen (_ : True) => ?_
      cases chosen <;> exact ends_record.bind fun _ _ => ends_pure trivial
    | some pair =>
      refine (ends_lift (P := fun _ => True) (fun _ _ => trivial) fun fault failed => ?_).bind
        fun chosen _ => ?_
      · obtain ⟨ordinal, inside, beyond⟩ := direct_eq_error failed
        rw [length _ _ rfl, Nat.zero_add] at inside
        exact own fault ⟨enumeration, declared, ordinal, inside, beyond⟩
      · cases chosen <;> exact ends_record.bind fun _ _ => ends_pure trivial
  · exact ends_pure trivial

end Strategy

end Traversal

namespace Strategy

variable {enums : List Enumeration} {active : List EnumId} {id inner : EnumId} {fault : Fault}

def Contains (enums : List Enumeration) (outer inner : EnumId) : Prop :=
  ∃ enumeration, enums[outer]? = some enumeration ∧ ∃ element ∈ enumeration.elements,
    element.state = some (.enumeration inner)

/-- What a fault says about the table when a request for the strategy of an enum stops at it. -/
def Accounts (enums : List Enumeration) (id : EnumId) : Fault → Prop
  | .recursiveEnum n => ReflTransGen (Contains enums) id n ∧ TransGen (Contains enums) n n
  | .unknownEnum n count =>
    (n = id ∨ ∃ outer, ReflTransGen (Contains enums) id outer ∧ Contains enums outer n) ∧
      enums.length ≤ n ∧ count = enums.length
  | .beyondSafe n =>
    ∃ outer, ReflTransGen (Contains enums) id outer ∧ Overflows enums outer (.beyondSafe n)
  | _ => False

theorem Overflows.accounts (h : Overflows enums inner fault)
    (reached : ReflTransGen (Contains enums) id inner) : Accounts enums id fault := by
  obtain ⟨enumeration, declared, ordinal, inside, above, rfl⟩ := h
  exact ⟨inner, reached, enumeration, declared, ordinal, inside, above, rfl⟩

theorem Accounts.head (contains : Contains enums id inner) (h : Accounts enums inner fault) :
    Accounts enums id fault := by
  cases fault with
  | recursiveEnum n => exact ⟨h.1.head contains, h.2⟩
  | unknownEnum n count =>
    obtain ⟨rfl | ⟨outer, reached, holds⟩, beyond⟩ := h
    · exact ⟨.inr ⟨id, .refl, contains⟩, beyond⟩
    · exact ⟨.inr ⟨outer, reached.head contains, holds⟩, beyond⟩
  | beyondSafe n =>
    obtain ⟨outer, reached, overflows⟩ := h
    exact ⟨outer, reached.head contains, overflows⟩
  | _ => exact h

theorem ends_requireVia {nested : EnumId → Cached Strategy} {faults : Fault → Prop}
    (undeclared : enums[id]? = none → faults (.unknownEnum id enums.length))
    (again : id ∈ active → faults (.recursiveEnum id))
    (entered : ∀ enumeration, enums[id]? = some enumeration → id ∉ active →
      Ends enums (id :: active) faults (ofEnumeration nested enumeration) fun _ => True)
    {cache : Cache} (sound : cache.Sound enums) (same : cache.active = active) :
    (∀ strategy after, Yields (requireVia enums nested id) cache strategy after →
      after.active = active) ∧
    ∀ fault, Fails (requireVia enums nested id) cache fault → faults fault := by
  subst same
  cases declared : enums[id]? with
  | none =>
    rw [requireVia_undeclared declared]
    refine ⟨fun _ _ yields => absurd yields Cached.not_yields_fault, fun fault failed => ?_⟩
    obtain rfl := Except.error.inj (Cached.fails_lift.mp failed)
    exact undeclared declared
  | some enumeration =>
    cases known : cache.known.lookup id with
    | some strategy =>
      simp only [Yields, Fails, requireVia_known declared known, Traced.outcome_pure]
      refine ⟨?_, by simp⟩
      rintro _ _ ⟨⟩
      rfl
    | none =>
      by_cases member : id ∈ cache.active
      · have refused : Fails (requireVia enums nested id) cache (.recursiveEnum id) :=
          requireVia_active declared known member
        refine ⟨fun _ _ yields => ?_, fun fault failed => ?_⟩
        · cases refused.symm.trans yields
        · obtain rfl := Except.error.inj (refused.symm.trans failed)
          exact again member
      · obtain ⟨returns, fails⟩ := entered enumeration declared member (cache.enter id) sound rfl
        simp only [Yields, Fails, requireVia_new declared known member]
        refine ⟨fun strategy after outcome => ?_, fun fault outcome => ?_⟩
        · obtain ⟨⟨computed, between⟩, ran, finished⟩ := Traced.outcome_map_eq_ok_iff.mp outcome
          obtain ⟨_, rfl⟩ := Prod.mk.inj finished
          rw [Cache.finish, (returns computed between ran).2.2, List.erase_cons_head]
        · exact fails fault (Traced.outcome_map_eq_error_iff.mp outcome)

/-- The enums under way contain the requested one, directly or through others. The induction is on
the depth, as for the agreement with the plain computation. -/
theorem ends_requireWithin {depth : Nat} (enough : (aside enums active).card < depth)
    (around : ∀ outer ∈ active, TransGen (Contains enums) outer id) :
    Ends enums active (Accounts enums id) (requireWithin enums depth id) (Chosen enums id) := by
  induction depth generalizing id active with
  | zero => exact absurd enough (Nat.not_lt_zero _)
  | succ depth ih =>
    have entered : ∀ enumeration, enums[id]? = some enumeration → id ∉ active →
        Ends enums (id :: active) (Accounts enums id)
          (ofEnumeration (requireWithin enums depth) enumeration) fun _ => True := by
      intro enumeration declared idle
      have fewer : (aside enums (id :: active)).card < depth := by
        have := card_aside_lt (List.getElem?_eq_some_iff.mp declared).1 idle
        omega
      refine ends_ofEnumeration declared (fun _ overflows => overflows.accounts .refl) ?_
      intro element inside inner state
      have contains : Contains enums id inner := ⟨enumeration, declared, element, inside, state⟩
      have outside : ∀ outer ∈ id :: active, TransGen (Contains enums) outer inner :=
        List.forall_mem_cons.mpr
          ⟨.single contains, fun outer member => (around outer member).tail contains⟩
      exact ⟨(ih fewer outside).mono fun _ accounts => accounts.head contains,
        fun _ overflows => overflows.accounts (.single contains)⟩
    intro cache sound same
    obtain ⟨unchanged, stops⟩ := ends_requireVia
      (fun undeclared => ⟨.inl rfl, List.getElem?_eq_none_iff.mp undeclared, rfl⟩)
      (fun member => ⟨.refl, around id member⟩) entered sound same
    -- That a result has been chosen rightly is known of any depth.
    refine ⟨fun strategy after yields => ?_, stops⟩
    obtain ⟨chosen, sound'⟩ := chosen_of_requireWithin (depth + 1) sound yields
    exact ⟨chosen, sound', unchanged strategy after yields⟩

theorem ends_require (id : EnumId) :
    Ends enums [] (Accounts enums id) (require enums id) (Chosen enums id) :=
  ends_requireWithin (by simp [aside]) (by simp)

theorem Accounts.overflows (h : Accounts enums id fault)
    (acyclic : ∀ n, ReflTransGen (Contains enums) id n → ¬ TransGen (Contains enums) n n)
    (declared : ∀ n, ReflTransGen (Contains enums) id n → n < enums.length) :
    ∃ outer, ReflTransGen (Contains enums) id outer ∧ Overflows enums outer fault := by
  cases fault with
  | recursiveEnum n => exact absurd h.2 (acyclic n h.1)
  | unknownEnum n count =>
    obtain ⟨reached, beyond, _⟩ := h
    have inside : n < enums.length := by
      rcases reached with rfl | ⟨outer, reached, contains⟩
      · exact declared n .refl
      · exact declared n (reached.tail contains)
    omega
  | beyondSafe n => exact h
  | _ => exact h.elim

/-- The answer does not depend on what requests below the depth of the table would answer. -/
theorem outcome_iterate {cache : Cache} (reachable : Reachable enums cache) {depth : Nat}
    (deep : enums.length < depth) (bottom : EnumId → Cached Strategy) (id : EnumId) :
    (((requireVia enums)^[depth] bottom id).run' cache).outcome =
      ((require enums id).run' cache).outcome := by
  obtain ⟨settled, idle⟩ := reachable.settled
  have enough : (aside enums []).card < depth := by simpa [aside] using deep
  rw [(agrees_iterate bottom enough id).outcome_eq settled idle,
    (agrees_require id).outcome_eq settled idle]

end Strategy

open Strategy (Contains Overflows requireVia)

/-- Requests end on every table, and their faults tell the truth. Requests nest no deeper than the
table is long, so that whatever would answer deeper ones, the answer is the same. An enum that is
said to contain itself is reached and lies on a cycle of payloads; an enum that is said to be
missing is requested, or is the payload of an enum that is reached, and is not in the table. If
neither can be reached, the request returns, unless an enum that is reached has so many elements
that an ordinal is no safe integer. -/
theorem require_faults_truthfully (enums : List Enumeration) (cache : Cache)
    (reachable : Strategy.Reachable enums cache) (id : EnumId) :
    (∀ (bottom : EnumId → Cached Strategy) (depth : Nat), enums.length < depth →
      (((requireVia enums)^[depth] bottom id).run' cache).outcome =
        ((Strategy.require enums id).run' cache).outcome) ∧
    (∀ n, ((Strategy.require enums id).run cache).outcome = .error (.recursiveEnum n) →
      (Fault.recursiveEnum n).message =
        some s!"enum {n} contains itself through its payload types" ∧
      ReflTransGen (Contains enums) id n ∧ TransGen (Contains enums) n n) ∧
    (∀ n count, ((Strategy.require enums id).run cache).outcome = .error (.unknownEnum n count) →
      (Fault.unknownEnum n count).message =
        some s!"enum {n} is not part of the program ({count} enums)" ∧
      (n = id ∨ ∃ outer, ReflTransGen (Contains enums) id outer ∧ Contains enums outer n) ∧
      enums.length ≤ n ∧ count = enums.length) ∧
    ((∀ n, ReflTransGen (Contains enums) id n → ¬ TransGen (Contains enums) n n) →
      (∀ n, ReflTransGen (Contains enums) id n → n < enums.length) →
      (∃ strategy after,
        ((Strategy.require enums id).run cache).outcome = .ok (strategy, after)) ∨
      ∃ outer fault, ReflTransGen (Contains enums) id outer ∧ Overflows enums outer fault ∧
        ((Strategy.require enums id).run cache).outcome = .error fault) := by
  obtain ⟨settled, idle⟩ := reachable.settled
  obtain ⟨_, accounts⟩ := Strategy.ends_require id cache reachable.sound idle
  refine ⟨fun bottom depth deep => Strategy.outcome_iterate reachable deep bottom id,
    fun n stopped => ⟨rfl, accounts _ stopped⟩, fun n count stopped => ⟨rfl, accounts _ stopped⟩,
    fun acyclic declared => ?_⟩
  cases ran : ((Strategy.require enums id).run cache).outcome with
  | ok result => exact .inl ⟨result.1, result.2, rfl⟩
  | error fault =>
    obtain ⟨outer, reached, overflows⟩ := (accounts fault ran).overflows acyclic declared
    exact .inr ⟨outer, fault, reached, overflows, rfl⟩

/-- Two enums that contain each other, one with a payload that is not in the table, and one that
contains none. -/
def brokenEnums : List Enumeration :=
  [⟨"Chain", [⟨"text", some .string⟩, ⟨"link", some (.enumeration 1)⟩]⟩,
    ⟨"Link", [⟨"chain", some (.enumeration 0)⟩]⟩,
    ⟨"Loose", [⟨"reply", some (.enumeration 3)⟩, ⟨"lost", some (.enumeration 7)⟩]⟩,
    ⟨"Reply", [⟨"nothing", none⟩, ⟨"some", some .host⟩]⟩]

theorem require_faults_truthfully_brokenEnums :
    ∃ cache, Strategy.Reachable brokenEnums cache ∧ cache.known.length = 1 ∧
      ((Strategy.require brokenEnums 0).run cache).outcome = .error (.recursiveEnum 0) ∧
      TransGen (Contains brokenEnums) 0 0 ∧
      ((Strategy.require brokenEnums 2).run cache).outcome = .error (.unknownEnum 7 4) ∧
      (∃ outer, ReflTransGen (Contains brokenEnums) 2 outer ∧ Contains brokenEnums outer 7) ∧
      brokenEnums.length ≤ 7 := by
  have reachable : Strategy.Reachable brokenEnums _ := .require .empty (show Yields
    (Strategy.require brokenEnums 3) .empty _ _ from rfl)
  obtain ⟨_, recursive, _⟩ := require_faults_truthfully brokenEnums _ reachable 0
  obtain ⟨_, _, unknown, _⟩ := require_faults_truthfully brokenEnums _ reachable 2
  obtain ⟨_, requested | payload, beyond, _⟩ := unknown 7 4 rfl
  · cases requested
  · exact ⟨_, reachable, rfl, rfl, (recursive 0 rfl).2.2, rfl, payload, beyond⟩

end RegisterIR
