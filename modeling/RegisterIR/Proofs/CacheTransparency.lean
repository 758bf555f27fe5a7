import Mathlib.Data.Finset.Card
import Mathlib.Data.Finset.Range
import RegisterIR.Proofs.EncodingChoice

/-! The cache of strategies is transparent. Requests are compared with a computation that stores
nothing and knows only the enums it is inside of. An entry of the cache is the answer of that
computation inside any enums that have no entry themselves: all that an entry rests on has an entry
too, so an enum under way is never met below one. -/

namespace RegisterIR

open Cached (Yields Fails yields_pure yields_bind yields_lift fails_bind fails_lift)

namespace Strategy

variable {enums : List Enumeration} {path : List EnumId} {id : EnumId}

def aside (enums : List Enumeration) (path : List EnumId) : Finset EnumId :=
  Finset.range enums.length \ path.toFinset

theorem card_aside_lt (inside : id < enums.length) (new : id ∉ path) :
    (aside enums (id :: path)).card < (aside enums path).card := by
  apply Finset.card_lt_card
  rw [Finset.ssubset_iff_of_subset]
  · exact ⟨id, by simp [aside, inside, new], by simp [aside]⟩
  · intro other
    simp only [aside, Finset.mem_sdiff, List.toFinset_cons, Finset.mem_insert, not_or]
    exact fun member => ⟨member.1, member.2.2⟩

/-- The strategy of an enum, computed without a cache inside the enums of the path. -/
def unaided (enums : List Enumeration) (path : List EnumId) (id : EnumId) : Cached Strategy :=
  match _ : enums[id]? with
  | none => Traced.fault (.unknownEnum id enums.length)
  | some enumeration =>
    if id ∈ path then Traced.fault (.recursiveEnum id)
    else ofEnumeration (unaided enums (id :: path)) enumeration
termination_by (aside enums path).card
decreasing_by exact card_aside_lt (List.getElem?_eq_some_iff.mp ‹_›).1 ‹_›

theorem unaided_of_none (undeclared : enums[id]? = none) :
    unaided enums path id = Traced.fault (.unknownEnum id enums.length) := by
  rw [unaided]
  split
  · rfl
  · simp_all

theorem unaided_of_some {enumeration : Enumeration} (declared : enums[id]? = some enumeration) :
    unaided enums path id =
      if id ∈ path then liftM (Traced.fault (.recursiveEnum id) : Traced Strategy)
      else ofEnumeration (unaided enums (id :: path)) enumeration := by
  rw [unaided]
  split
  · simp_all
  · rename_i found
    obtain rfl := Option.some.inj (found.symm.trans declared)
    rfl

end Strategy

namespace Cache

def Clear (cache : Cache) (path : List EnumId) : Prop :=
  ∀ id ∈ path, cache.known.lookup id = none

/-- The enums under way have no entry, and an entry is what is computed without the cache, inside
any enums that have no entry. -/
structure Settled (enums : List Enumeration) (cache : Cache) : Prop where
  clear : cache.Clear cache.active
  answers : ∀ {id strategy}, cache.known.lookup id = some strategy → ∀ path, cache.Clear path →
    ∀ other, Yields (Strategy.unaided enums path id) other strategy other

theorem settled_empty (enums : List Enumeration) : Settled enums .empty where
  clear := by simp [Clear, empty]
  answers known := by simp [empty] at known

theorem clear_nil (cache : Cache) : cache.Clear [] := nofun

theorem clear_cons {cache : Cache} {id : EnumId} {path : List EnumId} :
    cache.Clear (id :: path) ↔ cache.known.lookup id = none ∧ cache.Clear path :=
  List.forall_mem_cons

theorem Settled.enter {enums : List Enumeration} {cache : Cache} {id : EnumId}
    (settled : cache.Settled enums) (new : cache.known.lookup id = none) :
    (cache.enter id).Settled enums where
  clear := clear_cons.mpr ⟨new, settled.clear⟩
  answers := settled.answers

theorem lookup_finish {cache : Cache} {id other : EnumId} {strategy : Strategy} :
    (cache.finish id strategy).known.lookup other =
      if other = id then some strategy else cache.known.lookup other := by
  rw [finish, List.lookup_cons]
  split <;> simp_all

theorem clear_finish {cache : Cache} {id : EnumId} {strategy : Strategy} {path : List EnumId} :
    (cache.finish id strategy).Clear path ↔ id ∉ path ∧ cache.Clear path := by
  simp only [Clear, lookup_finish]
  constructor
  · intro clear
    constructor
    · intro member
      simpa using clear id member
    · intro other member
      have none := clear other member
      split at none
      · simp at none
      · exact none
  · rintro ⟨new, clear⟩ other member
    have different : other ≠ id := fun same => new (same ▸ member)
    rw [if_neg different]
    exact clear other member

end Cache

namespace Cached

variable {α β : Type}

/-- On the cache, the computation has the outcome of the plain one inside the active enums. It
leaves a settled cache with the same active enums, and a result is that of the plain computation
inside any enums that have no entry then. -/
structure AgreesOn (enums : List Enumeration) (cache : Cache) (x : Cached α)
    (plain : List EnumId → Cached α) : Prop where
  returns : ∀ {result after}, Yields x cache result after →
    after.Settled enums ∧ after.active = cache.active ∧ ∀ path, after.Clear path →
      cache.Clear path ∧ ∀ other, Yields (plain path) other result other
  fails : ∀ {fault}, Fails x cache fault → ∀ other, Fails (plain cache.active) other fault

def Agrees (enums : List Enumeration) (active : List EnumId) (x : Cached α)
    (plain : List EnumId → Cached α) : Prop :=
  ∀ cache : Cache, cache.Settled enums → cache.active = active → AgreesOn enums cache x plain

variable {enums : List Enumeration} {active : List EnumId}

theorem AgreesOn.yields_plain {cache after : Cache} {x : Cached α} {plain : List EnumId → Cached α}
    (h : AgreesOn enums cache x plain) {result : α} (yields : Yields x cache result after)
    (other : Cache) : Yields (plain []) other result other :=
  ((h.returns yields).2.2 [] (Cache.clear_nil _)).2 other

theorem agrees_lift (x : Traced α) : Agrees enums active (liftM x) fun _ => liftM x := by
  intro cache settled _
  constructor
  · intro result after yields
    obtain ⟨outcome, rfl⟩ := yields_lift.mp yields
    exact ⟨settled, rfl, fun path clear => ⟨clear, fun _ => yields_lift.mpr ⟨outcome, rfl⟩⟩⟩
  · intro fault failed other
    exact fails_lift.mpr (fails_lift.mp failed)

theorem agrees_pure (value : α) : Agrees enums active (pure value) fun _ => pure value :=
  agrees_lift (pure value)

theorem Agrees.bind {x : Cached α} {f : α → Cached β} {plain : List EnumId → Cached α}
    {next : List EnumId → α → Cached β} (first : Agrees enums active x plain)
    (later : ∀ value, Agrees enums active (f value) fun path => next path value) :
    Agrees enums active (x >>= f) fun path => plain path >>= next path := by
  intro cache settled same
  have agrees := first cache settled same
  constructor
  · intro result after yields
    obtain ⟨value, between, ran, yields⟩ := yields_bind.mp yields
    obtain ⟨settled', same', answers⟩ := agrees.returns ran
    obtain ⟨settled'', same'', answers'⟩ :=
      (later value between settled' (same'.trans same)).returns yields
    refine ⟨settled'', same''.trans same', fun path clear => ?_⟩
    obtain ⟨clear', second⟩ := answers' path clear
    obtain ⟨clear'', first⟩ := answers path clear'
    exact ⟨clear'', fun other => yields_bind.mpr ⟨value, other, first other, second other⟩⟩
  · intro fault failed other
    rcases fails_bind.mp failed with failed | ⟨value, between, ran, failed⟩
    · exact fails_bind.mpr (.inl (agrees.fails failed other))
    · -- The active enums have no entry still, so the plain computation gets past the first part.
      obtain ⟨settled', same', answers⟩ := agrees.returns ran
      have first := (answers cache.active (same' ▸ settled'.clear)).2 other
      have second := (later value between settled' (same'.trans same)).fails failed other
      rw [same'] at second
      exact fails_bind.mpr (.inr ⟨value, other, first, second⟩)

end Cached

open Cached (AgreesOn Agrees agrees_lift agrees_pure)

section Traversal

variable {enums : List Enumeration} {active : List EnumId} {require : EnumId → Cached Strategy}
  {plain : List EnumId → EnumId → Cached Strategy}
  (answered : ∀ id, Agrees enums active (require id) fun path => plain path id)
include answered

theorem ValueType.agrees_valueSet (type : ValueType) :
    Agrees enums active (type.valueSet require) fun path => type.valueSet (plain path) := by
  cases type with
  | enumeration id => exact (answered id).bind fun strategy => agrees_lift (Traced.ofExcept _)
  | _ => exact agrees_pure _

namespace Strategy

theorem agrees_payloads (used : ValueSet) (elements : List Element) :
    Agrees enums active (payloads require used elements)
      fun path => payloads (plain path) used elements := by
  induction elements generalizing used with
  | nil => exact agrees_pure _
  | cons element elements ih =>
    obtain ⟨name, _ | type⟩ := element
    · exact (ih used).bind fun rest => agrees_pure _
    · refine (type.agrees_valueSet answered).bind fun set => ?_
      split
      · exact agrees_pure _
      · split
        rename_i merged used' _
        cases merged with
        | false => exact agrees_pure _
        | true => exact (ih used').bind fun rest => agrees_pure _

theorem agrees_ofEnumeration (enumeration : Enumeration) :
    Agrees enums active (ofEnumeration require enumeration)
      fun path => ofEnumeration (plain path) enumeration := by
  unfold ofEnumeration
  split
  · refine (agrees_payloads answered .empty enumeration.elements).bind fun result => ?_
    cases result with
    | none =>
      refine (agrees_pure none).bind fun chosen => ?_
      cases chosen <;> exact (agrees_lift _).bind fun _ => agrees_pure _
    | some pair =>
      refine (agrees_lift (Traced.ofExcept _)).bind fun chosen => ?_
      cases chosen <;> exact (agrees_lift _).bind fun _ => agrees_pure _
  · exact agrees_pure _

end Strategy

end Traversal

section Finish

variable {enums : List Enumeration} {active : List EnumId} {id : EnumId} {strategy : Strategy}
  {enumeration : Enumeration} {after : Cache} (declared : enums[id]? = some enumeration)
  (settled : after.Settled enums) (same : after.active = id :: active)
  (answers : ∀ path, after.Clear path → ∀ other,
    Yields (Strategy.ofEnumeration (Strategy.unaided enums path) enumeration) other strategy other)
include declared settled same answers

/-- The enum that is finished has been under way, so nothing that it rests on needs it. -/
theorem Strategy.yields_unaided_of_finish {path : List EnumId}
    (clear : (after.finish id strategy).Clear path) (other : Cache) :
    Yields (unaided enums path id) other strategy other := by
  obtain ⟨new, clear⟩ := Cache.clear_finish.mp clear
  have unknown : after.known.lookup id = none := settled.clear id (by simp [same])
  rw [unaided_of_some declared, if_neg new]
  exact answers (id :: path) (Cache.clear_cons.mpr ⟨unknown, clear⟩) other

theorem Cache.Settled.finish (new : id ∉ active) : (after.finish id strategy).Settled enums where
  clear := by
    rw [Cache.finish, same, List.erase_cons_head]
    exact clear_finish.mpr ⟨new, (clear_cons.mp (same ▸ settled.clear)).2⟩
  answers {entry known} found path clear := by
    rw [lookup_finish] at found
    split at found
    · rename_i own
      obtain rfl := Option.some.inj found
      obtain rfl := own
      exact Strategy.yields_unaided_of_finish declared settled same answers clear
    · exact settled.answers found path (clear_finish.mp clear).2

end Finish

namespace Strategy

variable {enums : List Enumeration} {active : List EnumId} {id : EnumId} {cache : Cache}
  {depth : Nat}

section Request

variable {nested : EnumId → Cached Strategy} {enumeration : Enumeration} {strategy : Strategy}
  (declared : enums[id]? = some enumeration) (settled : cache.Settled enums)
include declared

include settled in
theorem agreesOn_known (known : cache.known.lookup id = some strategy) :
    AgreesOn enums cache (requireVia enums nested id)
      fun path => unaided enums path id := by
  constructor
  · intro found after yields
    rw [Yields, requireVia_known declared known] at yields
    obtain ⟨rfl, rfl⟩ := Prod.mk.inj (Except.ok.inj yields)
    exact ⟨settled, rfl, fun path clear => ⟨clear, settled.answers known path clear⟩⟩
  · intro fault failed
    rw [Fails, requireVia_known declared known] at failed
    cases failed

theorem agreesOn_active (unknown : cache.known.lookup id = none) (member : id ∈ cache.active) :
    AgreesOn enums cache (requireVia enums nested id)
      fun path => unaided enums path id := by
  have refused : Fails (requireVia enums nested id) cache (.recursiveEnum id) :=
    requireVia_active declared unknown member
  constructor
  · intro found after yields
    cases refused.symm.trans yields
  · intro fault failed other
    obtain rfl := Except.error.inj (refused.symm.trans failed)
    rw [unaided_of_some declared, if_pos member]
    exact fails_lift.mpr rfl

theorem agreesOn_new (unknown : cache.known.lookup id = none) (idle : id ∉ cache.active)
    (agrees : AgreesOn enums (cache.enter id)
      (ofEnumeration nested enumeration)
      fun path => ofEnumeration (unaided enums path) enumeration) :
    AgreesOn enums cache (requireVia enums nested id)
      fun path => unaided enums path id := by
  constructor
  · intro found after yields
    rw [Yields, requireVia_new declared unknown idle] at yields
    obtain ⟨⟨computed, between⟩, ran, finished⟩ := Traced.outcome_map_eq_ok_iff.mp yields
    obtain ⟨rfl, rfl⟩ := Prod.mk.inj finished
    obtain ⟨settled, same, answers⟩ := agrees.returns ran
    have plain := fun path clear => (answers path clear).2
    refine ⟨settled.finish declared same plain idle, ?_, fun path clear => ⟨?_, ?_⟩⟩
    · rw [Cache.finish, same, Cache.enter, List.erase_cons_head]
    · exact (answers path (Cache.clear_finish.mp clear).2).1
    · exact yields_unaided_of_finish declared settled same plain clear
  · intro fault failed other
    rw [Fails, requireVia_new declared unknown idle] at failed
    rw [unaided_of_some declared, if_neg idle]
    exact agrees.fails (Traced.outcome_map_eq_error_iff.mp failed) other

end Request

theorem agrees_requireVia {nested : EnumId → Cached Strategy}
    (answered : ∀ new < enums.length, new ∉ active → ∀ other,
      Agrees enums (new :: active) (nested other) fun path => unaided enums path other)
    (id : EnumId) :
    Agrees enums active (requireVia enums nested id) fun path => unaided enums path id := by
  cases declared : enums[id]? with
  | none =>
    simp only [requireVia_undeclared declared, unaided_of_none declared]
    exact agrees_lift _
  | some enumeration =>
    rintro cache settled rfl
    cases known : cache.known.lookup id with
    | some strategy => exact agreesOn_known declared settled known
    | none =>
      by_cases member : id ∈ cache.active
      · exact agreesOn_active declared known member
      · have nested := answered id (List.getElem?_eq_some_iff.mp declared).1 member
        exact agreesOn_new declared known member
          (agrees_ofEnumeration nested enumeration _ (settled.enter known) rfl)

/-- Requests have the outcome of the plain computation, whatever those at the bottom would answer.
The induction is on the depth, which exceeds the number of enums that can still be entered. -/
theorem agrees_iterate (bottom : EnumId → Cached Strategy)
    (enough : (aside enums active).card < depth) (id : EnumId) :
    Agrees enums active ((requireVia enums)^[depth] bottom id) fun path =>
      unaided enums path id := by
  induction depth generalizing active id with
  | zero => exact absurd enough (Nat.not_lt_zero _)
  | succ depth ih =>
    rw [Function.iterate_succ_apply']
    refine agrees_requireVia (fun new inside idle => ih ?_) id
    have := card_aside_lt inside idle
    omega

theorem requireWithin_eq_iterate (enums : List Enumeration) (depth : Nat) :
    requireWithin enums depth =
      (requireVia enums)^[depth] fun id => Traced.fault (.recursiveEnum id) := by
  induction depth with
  | zero => rfl
  | succ depth ih =>
    rw [Function.iterate_succ_apply', ← ih]
    rfl

theorem agrees_requireWithin (enough : (aside enums active).card < depth) (id : EnumId) :
    Agrees enums active (requireWithin enums depth id) fun path => unaided enums path id :=
  requireWithin_eq_iterate enums depth ▸ agrees_iterate _ enough id

theorem agrees_require (id : EnumId) :
    Agrees enums [] (require enums id) fun path => unaided enums path id :=
  agrees_requireWithin (by simp [aside]) id

end Strategy

inductive Request
  | strategy (id : EnumId)
  | values (type : ValueType)
deriving DecidableEq

inductive Answer
  | strategy (found : Strategy)
  | values (set : ValueSet)
deriving DecidableEq

namespace Request

variable {enums : List Enumeration}

def answer (require : EnumId → Cached Strategy) : Request → Cached Answer
  | strategy id => do
    let found ← require id
    pure (.strategy found)
  | values type => do
    let set ← type.valueSet require
    pure (.values set)

theorem agrees_answer (request : Request) :
    Agrees enums [] (request.answer (Strategy.require enums))
      fun path => request.answer (Strategy.unaided enums path) := by
  cases request with
  | strategy id => exact (Strategy.agrees_require id).bind fun _ => agrees_pure _
  | values type =>
    exact (type.agrees_valueSet Strategy.agrees_require).bind fun _ => agrees_pure _

theorem agrees_answers (requests : List Request) :
    Agrees enums [] (requests.mapM (answer (Strategy.require enums)))
      fun path => requests.mapM (answer (Strategy.unaided enums path)) := by
  induction requests with
  | nil => exact agrees_pure _
  | cons request requests ih =>
    simp only [List.mapM_cons]
    exact request.agrees_answer.bind fun _ => ih.bind fun _ => agrees_pure _

end Request

namespace Cached

variable {α : Type} {enums : List Enumeration} {x : Cached α} {cache : Cache}

theorem outcome_run' (x : Cached α) (cache : Cache) :
    (x.run' cache).outcome = Prod.fst <$> (x.run cache).outcome := by
  have fst : x.run' cache = x.run cache >>= fun pair => pure pair.1 := (bind_pure_comp ..).symm
  rw [fst, Traced.outcome_bind]
  cases (x.run cache).outcome <;> rfl

theorem Agrees.outcome_eq {plain : List EnumId → Cached α} (h : Agrees enums [] x plain)
    (settled : cache.Settled enums) (idle : cache.active = []) :
    (x.run' cache).outcome = ((plain []).run' .empty).outcome := by
  have agrees := h cache settled idle
  rw [outcome_run', outcome_run']
  cases ran : (x.run cache).outcome with
  | error fault => rw [← idle, agrees.fails ran .empty]
  | ok pair =>
    rw [agrees.yields_plain ran .empty]
    rfl

theorem Agrees.yields_of_plain {plain : List EnumId → Cached α} (h : Agrees enums [] x plain)
    (settled : cache.Settled enums) (idle : cache.active = []) {result : α} {other : Cache}
    (plainly : Yields (plain []) other result other) : ∃ after, Yields x cache result after := by
  have agrees := h cache settled idle
  cases ran : (x.run cache).outcome with
  | error fault => cases (idle ▸ agrees.fails ran other).symm.trans plainly
  | ok pair =>
    cases (agrees.yields_plain ran other).symm.trans plainly
    exact ⟨pair.2, ran⟩

end Cached

namespace Strategy

variable {enums : List Enumeration} {id : EnumId} {cache after : Cache} {strategy : Strategy}

theorem Reachable.settled (h : Reachable enums cache) :
    cache.Settled enums ∧ cache.active = [] := by
  induction h with
  | empty => exact ⟨Cache.settled_empty enums, rfl⟩
  | require _ run ih =>
    obtain ⟨settled, same, _⟩ := (agrees_require _ _ ih.1 ih.2).returns run
    exact ⟨settled, same.trans ih.2⟩

def Answered (enums : List Enumeration) (id : EnumId) (strategy : Strategy) : Prop :=
  ∀ other, Yields (unaided enums [] id) other strategy other

theorem answered_of_require (reachable : Reachable enums cache)
    (returned : Yields (require enums id) cache strategy after) : Answered enums id strategy := by
  obtain ⟨settled, idle⟩ := reachable.settled
  exact (agrees_require id cache settled idle).yields_plain returned

theorem Answered.exists_require (h : Answered enums id strategy)
    (reachable : Reachable enums cache) :
    ∃ after, Yields (require enums id) cache strategy after := by
  obtain ⟨settled, idle⟩ := reachable.settled
  exact (agrees_require id).yields_of_plain settled idle (h .empty)

/-- The enums that a strategy rests on have strategies of their own. On the empty cache they are all
computed on the way, inside an enum under way. -/
theorem Answered.suits (h : Answered enums id strategy) :
    ∃ enumeration, enums[id]? = some enumeration ∧ Suits (Answered enums) enumeration strategy := by
  obtain ⟨after, returned⟩ := h.exists_require .empty
  cases declared : enums[id]? with
  | none =>
    rw [require, requireWithin, requireVia_undeclared declared] at returned
    exact absurd returned Cached.not_yields_fault
  | some enumeration =>
    have ran : ((requireWithin enums (enums.length + 1) id).run .empty).outcome =
        .ok (strategy, after) := returned
    rw [requireWithin, requireVia_new declared rfl (by simp [Cache.empty])] at ran
    obtain ⟨⟨computed, between⟩, traversed, finished⟩ := Traced.outcome_map_eq_ok_iff.mp ran
    obtain ⟨rfl, _⟩ := Prod.mk.inj finished
    have fewer : (aside enums [id]).card < enums.length := by
      have below := card_aside_lt (List.getElem?_eq_some_iff.mp declared).1 List.not_mem_nil
      simpa [aside] using below
    have entered : (Cache.empty.enter id).Settled enums ∧ (Cache.empty.enter id).active = [id] :=
      ⟨(Cache.settled_empty enums).enter rfl, rfl⟩
    have sound : ∀ (other : EnumId) (cache : Cache) (found : Strategy) (after : Cache),
        cache.Settled enums ∧ cache.active = [id] →
        Yields (requireWithin enums enums.length other) cache found after →
        Answered enums other found ∧ after.Settled enums ∧ after.active = [id] := by
      rintro other cache found after ⟨settled, active⟩ yields
      have agrees := agrees_requireWithin fewer other cache settled active
      obtain ⟨settled', same, _⟩ := agrees.returns yields
      exact ⟨agrees.yields_plain yields, settled', same.trans active⟩
    obtain ⟨suits, _⟩ := suits_of_yields sound entered traversed
    exact ⟨enumeration, rfl, suits⟩

end Strategy

/-- The cache is transparent. After any requests that have been answered, no enum is under way, and
every further request has the outcome that it has on a fresh cache, a fault included. -/
theorem Request.answer_independent (enums : List Enumeration) (requests : List Request)
    (answers : List Answer) (cache : Cache)
    (served : ((requests.mapM (answer (Strategy.require enums))).run .empty).outcome =
      .ok (answers, cache)) :
    cache.active = [] ∧ ∀ request : Request,
      ((request.answer (Strategy.require enums)).run' cache).outcome =
        ((request.answer (Strategy.require enums)).run' .empty).outcome := by
  obtain ⟨settled, idle, _⟩ :=
    (agrees_answers requests .empty (Cache.settled_empty enums) rfl).returns served
  refine ⟨idle, fun request => ?_⟩
  rw [request.agrees_answer.outcome_eq settled idle,
    request.agrees_answer.outcome_eq (Cache.settled_empty enums) rfl]

/-- Two enums that need each other, and one that would need itself if its first two payloads were
apart. -/
def entangledEnums : List Enumeration :=
  [⟨"Reply", [⟨"text", some .string⟩, ⟨"nothing", none⟩]⟩,
    ⟨"Chain", [⟨"reply", some (.enumeration 0)⟩, ⟨"link", some (.enumeration 2)⟩]⟩,
    ⟨"Link", [⟨"chain", some (.enumeration 1)⟩]⟩,
    ⟨"Pair", [⟨"first", some (.enumeration 0)⟩, ⟨"second", some (.enumeration 0)⟩,
      ⟨"rest", some (.enumeration 3)⟩]⟩]

theorem Request.answer_independent_entangledEnums :
    ∃ answers cache,
      (([.values (.enumeration 0), .strategy 3].mapM
        (answer (Strategy.require entangledEnums))).run .empty).outcome = .ok (answers, cache) ∧
      cache.active = [] ∧
      (((Request.strategy 1).answer (Strategy.require entangledEnums)).run' cache).outcome =
        .error (.recursiveEnum 1) := by
  obtain ⟨idle, same⟩ := answer_independent entangledEnums [.values (.enumeration 0), .strategy 3]
    _ _ rfl
  exact ⟨_, _, rfl, idle, (same (.strategy 1)).trans rfl⟩

end RegisterIR
