import RegisterIR.Proofs.Layer
import RegisterIR.Proofs.Relabelling
import RegisterIR.Proofs.Verification

/-! Verification survives a layer. Taking computations out restricts every scope to the kept
registers, and renaming maps it; both lead from verified functions to verified functions. -/

namespace RegisterIR

namespace Literal

mutual

theorem checkLiteral_relabel {surroundings other : Surroundings} {f : FunctionId → FunctionId}
    (enums : surroundings.enums = other.enums) : ∀ literal : Literal FunctionId,
    (∀ id ∈ literal.functions, f id < other.functionCount) →
    surroundings.checkLiteral literal = .ok () → other.checkLiteral (literal.relabel f) = .ok ()
  | unit, _, _ => rfl
  | integer _, _, _ => rfl
  | string _, _, _ => rfl
  | function label, known, _ => by
    simp only [relabel, Surroundings.checkLiteral]
    exact if_pos (known label (by simp [functions]))
  | element which, _, h => by
    simpa [relabel, Surroundings.checkLiteral, Surroundings.checkElement, enums] using h
  | wrapped which state, known, h => by
    rw [Surroundings.checkLiteral, seq_eq_ok_iff] at h
    rw [relabel, Surroundings.checkLiteral, seq_eq_ok_iff]
    refine ⟨?_, checkLiteral_relabel enums state (by simpa [functions] using known) h.2⟩
    simpa [Surroundings.checkElement, enums] using h.1
  | constructor which, _, h => by
    simpa [relabel, Surroundings.checkLiteral, Surroundings.checkElement, enums] using h
  | tuple elements, known, h => by
    rw [Surroundings.checkLiteral] at h
    rw [relabel, Surroundings.checkLiteral]
    exact checkLiterals_relabel enums elements (by simpa [functions] using known) h

theorem checkLiterals_relabel {surroundings other : Surroundings} {f : FunctionId → FunctionId}
    (enums : surroundings.enums = other.enums) : ∀ literals : List (Literal FunctionId),
    (∀ id ∈ functionsAll literals, f id < other.functionCount) →
    surroundings.checkLiterals literals = .ok () →
    other.checkLiterals (relabelAll f literals) = .ok ()
  | [], _, _ => rfl
  | literal :: literals, known, h => by
    rw [Surroundings.checkLiterals, seq_eq_ok_iff] at h
    rw [relabelAll, Surroundings.checkLiterals, seq_eq_ok_iff]
    exact ⟨
      checkLiteral_relabel enums literal (fun id m => known id (by simp [functionsAll, m])) h.1,
      checkLiterals_relabel enums literals (fun id m => known id (by simp [functionsAll, m])) h.2⟩

end

mutual

theorem functions_of_checkLiteral {surroundings : Surroundings} : ∀ literal : Literal FunctionId,
    surroundings.checkLiteral literal = .ok () →
    ∀ id ∈ literal.functions, id < surroundings.functionCount
  | unit, _ => by simp [functions]
  | integer _, _ => by simp [functions]
  | string _, _ => by simp [functions]
  | function label, h => by
    by_cases known : label < surroundings.functionCount
    · simpa [functions] using known
    · simp [Surroundings.checkLiteral, known] at h
  | element _, _ => by simp [functions]
  | wrapped which state, h => by
    rw [Surroundings.checkLiteral, seq_eq_ok_iff] at h
    simpa [functions] using functions_of_checkLiteral state h.2
  | constructor _, _ => by simp [functions]
  | tuple elements, h => by
    rw [Surroundings.checkLiteral] at h
    simpa [functions] using functions_of_checkLiterals elements h

theorem functions_of_checkLiterals {surroundings : Surroundings} :
    ∀ literals : List (Literal FunctionId), surroundings.checkLiterals literals = .ok () →
    ∀ id ∈ functionsAll literals, id < surroundings.functionCount
  | [], _ => by simp [functionsAll]
  | literal :: literals, h => by
    rw [Surroundings.checkLiterals, seq_eq_ok_iff] at h
    intro id member
    rcases List.mem_append.mp member with first | rest
    · exact functions_of_checkLiteral literal h.1 id first
    · exact functions_of_checkLiterals literals h.2 id rest

end

end Literal

namespace Scope

def restrict (keep : Register → Bool) (scope : Scope) : Scope :=
  ⟨scope.written.filter keep, scope.visible.filter keep⟩

def map (f : Register → Register) (scope : Scope) : Scope :=
  ⟨scope.written.map f, scope.visible.map f⟩

theorem restrict_write {keep : Register → Bool} {register : Register} (h : keep register)
    (scope : Scope) :
    (scope.write register).restrict keep = (scope.restrict keep).write register := by
  simp [restrict, write, h]

theorem restrict_write_of_not {keep : Register → Bool} {register : Register}
    (h : ¬ keep register) (scope : Scope) :
    (scope.write register).restrict keep = scope.restrict keep := by
  simp [restrict, write, h]

theorem map_write (f : Register → Register) (register : Register) (scope : Scope) :
    (scope.write register).map f = (scope.map f).write (f register) := rfl

theorem restrict_bindings {keep : Register → Bool} {guard : Guard} (h : keep guard.register)
    (scope : Scope) : (guard.bindings.foldl write scope).restrict keep =
      guard.bindings.foldl write (scope.restrict keep) := by
  cases guard with
  | equals => rfl
  | element _ binding => exact restrict_write h scope

theorem map_bindings (f : Register → Register) (guard : Guard) (scope : Scope) :
    (guard.bindings.foldl write scope).map f =
      (guard.rename f).bindings.foldl write (scope.map f) := by
  cases guard <;> rfl

theorem close_restrict (keep : Register → Bool) (outer inner : Scope) :
    (outer.close inner).restrict keep = (outer.restrict keep).close (inner.restrict keep) := rfl

theorem close_map (f : Register → Register) (outer inner : Scope) :
    (outer.close inner).map f = (outer.map f).close (inner.map f) := rfl

end Scope

namespace Surroundings

open Instruction

variable {surroundings : Surroundings}

theorem verifyBody_append {inLoop : Bool} {scope after : Scope} {first second : Body FunctionId} :
    surroundings.verifyBody inLoop scope (first ++ second) = .ok after ↔
      ∃ middle, surroundings.verifyBody inLoop scope first = .ok middle ∧
        surroundings.verifyBody inLoop middle second = .ok after := by
  induction first generalizing scope with
  | nil => simp [verifyBody_nil]
  | cons instruction body ih =>
    simp only [List.cons_append, verifyBody_cons, ih]
    grind

theorem verifyBody_singleton {inLoop : Bool} {scope after : Scope}
    {instruction : Instruction FunctionId} :
    surroundings.verifyBody inLoop scope [instruction] = .ok after ↔
      surroundings.verify inLoop scope instruction = .ok after := by
  simp [verifyBody_cons, verifyBody_nil]

section Prune

variable {keep : Register → Bool} {scope after : Scope}

theorem Readable.restrict {registers : List Register} (h : surroundings.Readable scope registers)
    (kept : ∀ r ∈ registers, keep r) :
    surroundings.Readable (scope.restrict keep) registers := fun r member =>
  ⟨(h r member).1, List.mem_filter.mpr ⟨(h r member).2, kept r member⟩⟩

theorem define_restrict {register : Register} (h : surroundings.define scope register = .ok after)
    (kept : keep register) :
    surroundings.define (scope.restrict keep) register = .ok (after.restrict keep) := by
  obtain ⟨inRange, new, rfl⟩ := define_eq_ok_iff.mp h
  refine define_eq_ok_iff.mpr ⟨inRange, ?_, Scope.restrict_write kept scope⟩
  exact fun member => new (List.mem_of_mem_filter member)

theorem Admits.restrict {guard : Guard} (h : surroundings.Admits scope guard)
    (kept : keep guard.register) : surroundings.Admits (scope.restrict keep) guard := by
  cases guard with
  | equals key => exact Readable.restrict h (by simpa [Guard.register] using kept)
  | element which binding =>
    exact ⟨h.1, h.2.1, fun member => h.2.2 (List.mem_of_mem_filter member)⟩

mutual

theorem verify_prune : ∀ {inLoop : Bool} {scope after : Scope}
    (instruction : Instruction FunctionId),
    surroundings.verify inLoop scope instruction = .ok after →
    (∀ r ∈ instruction.demands, keep r) →
    surroundings.verifyBody inLoop (scope.restrict keep) (instruction.prune keep).toList =
      .ok (after.restrict keep)
  | _, scope, _, .compute result operation, h, kept => by
    obtain ⟨⟨declared, readable⟩, defined⟩ := verify_compute.mp h
    by_cases computed : keep result
    · simp only [prune, computed, if_true, Option.toList_some, verifyBody_singleton]
      exact verify_compute.mpr ⟨⟨declared, readable.restrict kept⟩,
        define_restrict defined computed⟩
    · obtain ⟨_, _, rfl⟩ := define_eq_ok_iff.mp defined
      simp only [prune, computed, Bool.false_eq_true, if_false, Option.toList_none, verifyBody_nil]
      exact Scope.restrict_write_of_not computed scope
  | _, _, _, .call result callee arguments, h, kept => by
    obtain ⟨readable, defined⟩ := verify_call.mp h
    simp only [prune, Option.toList_some, verifyBody_singleton]
    exact verify_call.mpr
      ⟨readable.restrict fun r m => kept r (List.mem_cons_of_mem _ m),
        define_restrict defined (kept result (by simp [demands]))⟩
  | _, _, _, .select result key cases, h, kept => by
    obtain ⟨readable, inner, chosen, defined⟩ := verify_select.mp h
    simp only [prune, Option.toList_some, verifyBody_singleton]
    refine verify_select.mpr ⟨readable.restrict (by simpa using kept key (by simp [demands])),
      inner.restrict keep, ?_, define_restrict defined (kept result (by simp [demands]))⟩
    exact verifyCases_prune cases chosen fun r m => kept r (by simp [demands, m])
  | _, _, _, .loop body, h, kept => by
    obtain ⟨inner, verified, rfl⟩ := verify_loop.mp h
    have pruned := verifyBody_prune body verified kept
    by_cases gone : (pruneBody keep body).isEmpty
    · -- Nothing is left of the body, so nothing kept was written in it.
      have empty : pruneBody keep body = [] := by simpa using gone
      rw [empty, verifyBody_nil] at pruned
      simp only [prune, gone, if_true, Option.toList_none, verifyBody_nil, Scope.close_restrict,
        pruned]
      rfl
    · simp only [prune, gone, Bool.false_eq_true, if_false, Option.toList_some,
        verifyBody_singleton]
      exact verify_loop.mpr ⟨inner.restrict keep, pruned, Scope.close_restrict keep _ _⟩
  | _, _, _, .leave, h, _ => by
    obtain ⟨inside, rfl⟩ := verify_leave.mp h
    simp only [prune, Option.toList_some, verifyBody_singleton]
    exact verify_leave.mpr ⟨inside, rfl⟩

theorem verifyBody_prune : ∀ {inLoop : Bool} {scope after : Scope} (body : Body FunctionId),
    surroundings.verifyBody inLoop scope body = .ok after → (∀ r ∈ demandsBody body, keep r) →
    surroundings.verifyBody inLoop (scope.restrict keep) (pruneBody keep body) =
      .ok (after.restrict keep)
  | _, _, _, [], h, _ => by
    rw [verifyBody_nil.mp h]
    rfl
  | _, _, _, instruction :: body, h, kept => by
    obtain ⟨inner, first, rest⟩ := verifyBody_cons.mp h
    rw [pruneBody, verifyBody_append]
    exact ⟨inner.restrict keep,
      verify_prune instruction first fun r m => kept r (by simp [demandsBody, m]),
      verifyBody_prune body rest fun r m => kept r (by simp [demandsBody, m])⟩

theorem verifyCases_prune : ∀ {inLoop : Bool} {scope after : Scope} (cases : Cases FunctionId),
    surroundings.verifyCases inLoop scope cases = .ok after → (∀ r ∈ demandsCases cases, keep r) →
    surroundings.verifyCases inLoop (scope.restrict keep) (pruneCases keep cases) =
      .ok (after.restrict keep)
  | _, _, _, [], h, _ => by
    rw [verifyCases_nil.mp h]
    rfl
  | _, scope, _, ⟨guard, action, value⟩ :: cases, h, kept => by
    obtain ⟨admitted, inner, body, yielded, rest⟩ := verifyCases_cons.mp h
    have own : keep guard.register := kept _ (by simp [demandsCases])
    have pruned := verifyBody_prune action body fun r m => kept r (by simp [demandsCases, m])
    rw [Scope.restrict_bindings own] at pruned
    refine verifyCases_cons.mpr ⟨admitted.restrict own, inner.restrict keep, pruned,
      yielded.restrict fun r m => kept r (by simp [demandsCases, List.mem_append, m]), ?_⟩
    exact verifyCases_prune cases rest fun r m => kept r (by simp [demandsCases, m])

end

end Prune

/-- Both see the same declarations, and `f` tells kept registers apart and maps those in range for
one into the range of the other. -/
structure Renames (surroundings other : Surroundings) (keep : Register → Bool)
    (f : Register → Register) : Prop where
  enums : surroundings.enums = other.enums
  functionCount : surroundings.functionCount = other.functionCount
  injective : ∀ a b, keep a → keep b → f a = f b → a = b
  inRange : ∀ a, keep a → a < surroundings.registerCount → f a < other.registerCount

section Rename

variable {other : Surroundings} {keep : Register → Bool} {f : Register → Register}
  {scope after : Scope}

theorem Readable.map (renames : surroundings.Renames other keep f) {registers : List Register}
    (h : surroundings.Readable scope registers) (kept : ∀ r ∈ registers, keep r) :
    other.Readable (scope.map f) (registers.map f) := by
  intro r mapped
  obtain ⟨old, member, rfl⟩ := List.mem_map.mp mapped
  exact ⟨renames.inRange old (kept old member) (h old member).1,
    List.mem_map_of_mem (h old member).2⟩

theorem Renames.not_mem_map (renames : surroundings.Renames other keep f) {register : Register}
    {registers : List Register} (kept : keep register) (all : ∀ r ∈ registers, keep r)
    (new : register ∉ registers) : f register ∉ registers.map f := by
  intro member
  obtain ⟨old, member, same⟩ := List.mem_map.mp member
  exact new (renames.injective old register (all old member) kept same ▸ member)

theorem define_map (renames : surroundings.Renames other keep f) {register : Register}
    (h : surroundings.define scope register = .ok after) (kept : keep register)
    (all : ∀ r ∈ scope.written, keep r) :
    other.define (scope.map f) (f register) = .ok (after.map f) := by
  obtain ⟨inRange, new, rfl⟩ := define_eq_ok_iff.mp h
  exact define_eq_ok_iff.mpr ⟨renames.inRange register kept inRange,
    renames.not_mem_map kept all new, Scope.map_write f register scope⟩

theorem checkElement_congr (enums : surroundings.enums = other.enums) (which : ElementRef)
    (withState : Bool) :
    surroundings.checkElement which withState = other.checkElement which withState := by
  rw [checkElement, checkElement, enums]

theorem Declares.rename (renames : surroundings.Renames other keep f)
    {operation : Operation FunctionId} (h : surroundings.Declares operation) :
    other.Declares (operation.rename f) := by
  cases operation with
  | literal value type =>
    have known : ∀ id ∈ value.functions, id < other.functionCount :=
      renames.functionCount ▸ value.functions_of_checkLiteral h
    have relabelled := value.checkLiteral_relabel (f := id) renames.enums known h
    rwa [Literal.relabel_id] at relabelled
  | construct which state stateType =>
    have same := checkElement_congr renames.enums which true
    exact same.symm.trans h
  | tuple => trivial
  | member => trivial
  | global => trivial

theorem Admits.rename (renames : surroundings.Renames other keep f) {guard : Guard}
    (h : surroundings.Admits scope guard) (kept : keep guard.register)
    (all : ∀ r ∈ scope.written, keep r) : other.Admits (scope.map f) (guard.rename f) := by
  cases guard with
  | equals key => exact Readable.map renames h (by simpa [Guard.register] using kept)
  | element which binding =>
    exact ⟨checkElement_congr renames.enums which true ▸ h.1,
      renames.inRange binding kept h.2.1, renames.not_mem_map kept all h.2.2⟩

theorem Advance.keeps {definitions demands : List Register}
    (h : surroundings.Advance definitions demands scope after)
    (kept : ∀ r ∈ definitions, keep r) (all : ∀ r ∈ scope.written, keep r) :
    ∀ r ∈ after.written, keep r := fun r member =>
  (List.mem_append.mp (h.written.mem_iff.mp member)).elim (kept r) (all r)

mutual

theorem verify_rename (renames : surroundings.Renames other keep f) :
    ∀ {inLoop : Bool} {scope after : Scope} (instruction : Instruction FunctionId),
    surroundings.verify inLoop scope instruction = .ok after →
    (∀ r ∈ instruction.definitions, keep r) → (∀ r ∈ instruction.demands, keep r) →
    (∀ r ∈ scope.written, keep r) →
    other.verify inLoop (scope.map f) (instruction.rename f) = .ok (after.map f)
  | _, _, _, .compute result operation, h, defined, kept, all => by
    obtain ⟨⟨declared, readable⟩, written⟩ := verify_compute.mp h
    refine verify_compute.mpr ⟨⟨declared.rename renames, ?_⟩,
      define_map renames written (defined result (by simp [definitions])) all⟩
    rw [Operation.operands_rename]
    exact readable.map renames kept
  | _, _, _, .call result callee arguments, h, defined, kept, all => by
    obtain ⟨readable, written⟩ := verify_call.mp h
    exact verify_call.mpr
      ⟨readable.map renames fun r m => kept r (List.mem_cons_of_mem _ m),
        define_map renames written (defined result (by simp [definitions])) all⟩
  | _, _, _, .select result key cases, h, defined, kept, all => by
    obtain ⟨readable, inner, chosen, written⟩ := verify_select.mp h
    have inside : ∀ r ∈ definitionsCases cases, keep r := fun r m =>
      defined r (by simp [definitions, m])
    have renamed := verifyCases_rename renames cases chosen inside
      (fun r m => kept r (by simp [demands, m])) all
    refine verify_select.mpr ⟨readable.map renames (by simpa using kept key (by simp [demands])),
      inner.map f, renamed, define_map renames written (defined result (by simp [definitions])) ?_⟩
    exact (advance_verifyCases cases chosen).keeps inside all
  | _, _, _, .loop body, h, defined, kept, all => by
    obtain ⟨inner, verified, rfl⟩ := verify_loop.mp h
    exact verify_loop.mpr ⟨inner.map f,
      verifyBody_rename renames body verified defined kept all, Scope.close_map f _ _⟩
  | _, _, _, .leave, h, _, _, _ => by
    obtain ⟨inside, rfl⟩ := verify_leave.mp h
    exact verify_leave.mpr ⟨inside, rfl⟩

theorem verifyBody_rename (renames : surroundings.Renames other keep f) :
    ∀ {inLoop : Bool} {scope after : Scope} (body : Body FunctionId),
    surroundings.verifyBody inLoop scope body = .ok after →
    (∀ r ∈ definitionsBody body, keep r) → (∀ r ∈ demandsBody body, keep r) →
    (∀ r ∈ scope.written, keep r) →
    other.verifyBody inLoop (scope.map f) (renameBody f body) = .ok (after.map f)
  | _, _, _, [], h, _, _, _ => by
    rw [verifyBody_nil.mp h]
    rfl
  | _, _, _, instruction :: body, h, defined, kept, all => by
    obtain ⟨inner, first, rest⟩ := verifyBody_cons.mp h
    have own : ∀ r ∈ instruction.definitions, keep r := fun r m =>
      defined r (by simp [definitionsBody, m])
    refine verifyBody_cons.mpr ⟨inner.map f, verify_rename renames instruction first own
      (fun r m => kept r (by simp [demandsBody, m])) all, ?_⟩
    exact verifyBody_rename renames body rest (fun r m => defined r (by simp [definitionsBody, m]))
      (fun r m => kept r (by simp [demandsBody, m]))
      ((advance_verify instruction first).keeps own all)

theorem verifyCases_rename (renames : surroundings.Renames other keep f) :
    ∀ {inLoop : Bool} {scope after : Scope} (cases : Cases FunctionId),
    surroundings.verifyCases inLoop scope cases = .ok after →
    (∀ r ∈ definitionsCases cases, keep r) → (∀ r ∈ demandsCases cases, keep r) →
    (∀ r ∈ scope.written, keep r) →
    other.verifyCases inLoop (scope.map f) (renameCases f cases) = .ok (after.map f)
  | _, _, _, [], h, _, _, _ => by
    rw [verifyCases_nil.mp h]
    rfl
  | _, scope, _, ⟨guard, action, value⟩ :: cases, h, defined, kept, all => by
    obtain ⟨admitted, inner, body, yielded, rest⟩ := verifyCases_cons.mp h
    have own : keep guard.register := kept _ (by simp [demandsCases])
    have entered := (advance_enter admitted).keeps
      (fun r m => defined r (by simp [definitionsCases, m])) all
    have inside : ∀ r ∈ definitionsBody action, keep r := fun r m =>
      defined r (by simp [definitionsCases, m])
    have renamed := verifyBody_rename renames action body inside
      (fun r m => kept r (by simp [demandsCases, m])) entered
    rw [Scope.map_bindings] at renamed
    refine verifyCases_cons.mpr ⟨admitted.rename renames own all, inner.map f, renamed, ?_, ?_⟩
    · have mapped := yielded.map renames fun r m => kept r (by simp [demandsCases, m])
      cases value <;> simpa using mapped
    · rw [← Scope.close_map]
      exact verifyCases_rename renames cases rest
        (fun r m => defined r (by simp [definitionsCases, m]))
        (fun r m => kept r (by simp [demandsCases, m]))
        ((advance_verifyBody action body).keeps inside entered)

end

end Rename

end Surroundings

namespace Function

variable {program : Program} {function : Function FunctionId}

theorem inRange_of_check (h : function.check program = .ok ()) : function.InRange where
  parameters := (check_eq_ok_iff.mp h).2.1
  demanded r member := definitions_inRange h r (demands_subset_definitions h member)
  defined r member := definitions_inRange h r (List.mem_append_right _ member)

/-- What a choice of registers has to contain so that a function can be restricted to it. -/
structure Covers {φ : Type} (keep : Register → Bool) (function : Function φ) : Prop where
  parameters : ∀ r < function.parameterCount, keep r
  demands : ∀ r ∈ function.demands, keep r

theorem covers_keeps {φ : Type} (function : Function φ) : function.Covers function.keeps where
  parameters r h := by simp [keeps, h]
  demands _ h := keeps_of_mem_demands h

theorem length_registerNames_restrict {keep : Register → Bool}
    (h : function.registerNames.length = function.registerCount) :
    (function.restrict keep).registerNames.length = rank keep function.registerCount :=
  length_filterMap_range keep (Nat.le_of_eq h.symm)

theorem rank_parameters {φ : Type} {keep : Register → Bool} {function : Function φ}
    (covers : function.Covers keep) {r : Nat} (h : r ≤ function.parameterCount) :
    rank keep r = r :=
  rank_eq_self_iff.mpr fun _ less => covers.parameters _ (Nat.lt_of_lt_of_le less h)

theorem parameterScope_restrict {φ : Type} {keep : Register → Bool} {function : Function φ}
    (covers : function.Covers keep) :
    (function.parameterScope.restrict keep).map (rank keep) =
      (function.restrict keep).parameterScope := by
  have kept : (List.range function.parameterCount).reverse.filter keep =
      (List.range function.parameterCount).reverse := by
    simpa [List.filter_eq_self] using covers.parameters
  have same : (List.range function.parameterCount).reverse.map (rank keep) =
      (List.range function.parameterCount).reverse := by
    refine (List.map_congr_left fun r member => ?_).trans (List.map_id _)
    exact rank_parameters covers (Nat.le_of_lt (by simpa using member))
  simp only [parameterScope_eq, Scope.restrict, Scope.map, kept, same, restrict]

/-- A verified function stays verified when it is restricted to registers that cover it. -/
theorem check_restrict {keep : Register → Bool} (h : function.check program = .ok ())
    (covers : function.Covers keep) : (function.restrict keep).check program = .ok () := by
  obtain ⟨names, fits, _, after, verified, returned⟩ := check_eq_ok_iff.mp h
  have demanded : ∀ r ∈ Instruction.demandsBody function.body, keep r := fun r m =>
    covers.demands r (List.mem_cons_of_mem _ m)
  have kept : keep function.returnValue := covers.demands _ (List.mem_cons_self ..)
  have pruned := Surroundings.verifyBody_prune function.body verified demanded
  have renames : (function.surroundings program).Renames
      ((function.restrict keep).surroundings program) keep (rank keep) :=
    ⟨rfl, rfl, fun _ _ => rank_injective, fun _ => rank_lt⟩
  have renamed := Surroundings.verifyBody_rename renames _ pruned
    (by simp [Instruction.definitionsBody_prune _ demanded])
    (fun r m => demanded r (Instruction.demandsBody_prune_subset _ m))
    (by simp [Scope.restrict])
  rw [parameterScope_restrict covers] at renamed
  refine check_eq_ok_iff.mpr ⟨length_registerNames_restrict names, ?_,
    rank_lt kept (check_eq_ok_iff.mp h).2.2.1, _, renamed, ?_⟩
  · calc function.parameterCount = rank keep function.parameterCount :=
          (rank_parameters covers (Nat.le_refl _)).symm
      _ ≤ rank keep function.registerCount := rank_mono fits
  · exact List.mem_map_of_mem (List.mem_filter.mpr ⟨returned, kept⟩)

theorem definitions_restrict {φ : Type} {keep : Register → Bool} {function : Function φ}
    (covers : function.Covers keep) :
    (function.restrict keep).definitions = (function.definitions.filter keep).map (rank keep) := by
  have demanded : ∀ r ∈ Instruction.demandsBody function.body, keep r := fun r m =>
    covers.demands r (List.mem_cons_of_mem _ m)
  have parameters : ((List.range function.parameterCount).filter keep).map (rank keep) =
      List.range function.parameterCount := by
    rw [map_rank_filter, rank_parameters covers (Nat.le_refl _)]
  simp only [definitions, List.filter_append, List.map_append, parameters, restrict,
    Instruction.definitionsBody_rename, Instruction.definitionsBody_prune _ demanded]

def Compact {φ : Type} (function : Function φ) : Prop :=
  function.definitions.Perm (List.range function.registerCount)

theorem compact_of_keeps (h : function.check program = .ok ())
    (all : ∀ r < function.registerCount, function.keeps r) : function.Compact := by
  refine (List.perm_ext_iff_of_nodup (nodup_definitions h) List.nodup_range).mpr fun r => ?_
  rw [List.mem_range]
  refine ⟨definitions_inRange h r, fun inRange => ?_⟩
  have kept := all r inRange
  simp only [keeps, Bool.or_eq_true, decide_eq_true_eq, List.contains_iff_mem] at kept
  rcases kept with parameter | demanded
  · exact List.mem_append_left _ (List.mem_range.mpr parameter)
  · exact demands_subset_definitions h demanded

theorem Compact.restrict {φ : Type} {keep : Register → Bool} {function : Function φ}
    (compact : function.Compact) (covers : function.Covers keep) :
    (function.restrict keep).Compact := by
  rw [Compact, definitions_restrict covers]
  have ranked := (compact.filter keep).map (rank keep)
  rwa [map_rank_filter] at ranked

/-- On a verified function all layers succeed, and the last one leaves a verified function that
writes each of its registers exactly once. -/
theorem layers_of_check (h : function.check program = .ok ()) :
    ∃ counts last, function.layers = .ok (counts, last) ∧ last.check program = .ok () ∧
      last.Compact := by
  obtain ⟨counts, before, equation, verified, all⟩ :=
    layers_run (P := fun function => function.check program = .ok ())
      (fun _ => inRange_of_check) (fun _ verified => check_restrict verified (covers_keeps _))
      function h
  exact ⟨counts, _, equation, check_restrict verified (covers_keeps before),
    (compact_of_keeps verified all).restrict (covers_keeps before)⟩

end Function

end RegisterIR
