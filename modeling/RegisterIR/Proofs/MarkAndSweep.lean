import RegisterIR.Proofs.Composition
import RegisterIR.Proofs.NestedInstructions
import RegisterIR.Proofs.VerifiedPruning

/-! Dead code elimination in one step. The registers that a function needs are the least set that
contains what calls and selections mention and is closed under the operands of needed computations.
Layers only ask whether a register is read at all; as operands are written before results, what is
left when a layer removes nothing is needed. -/

namespace RegisterIR

variable {φ : Type}

namespace Function

def instructions (function : Function φ) : List (Instruction φ) :=
  Instruction.nestedBody function.body

/-- The registers that a function needs, whatever its values are: those it is called with and
returns, those of calls and selections, and the operands of computations it needs. -/
inductive Needed (function : Function φ) : Register → Prop
  | parameter {r} : r < function.parameterCount → Needed function r
  | returned : Needed function function.returnValue
  | anchor {instruction r} : instruction ∈ function.instructions → r ∈ instruction.anchors →
      Needed function r
  | operand {result operation r} : .compute result operation ∈ function.instructions →
      Needed function result → r ∈ operation.operands → Needed function r

variable {keep : Register → Bool}

theorem instructions_restrict (function : Function φ) :
    (function.restrict keep).instructions =
      (function.instructions.filterMap (Instruction.prune keep)).map
        (Instruction.rename (rank keep)) := by
  rw [instructions, restrict, Instruction.nestedBody_rename, Instruction.nestedBody_prune]
  rfl

theorem mem_instructions_restrict {function : Function φ} {instruction : Instruction φ} :
    instruction ∈ (function.restrict keep).instructions ↔
      ∃ old ∈ function.instructions, ∃ left, old.prune keep = some left ∧
        left.rename (rank keep) = instruction := by
  simp only [instructions_restrict, List.mem_map, List.mem_filterMap]
  grind

theorem keeps_iff {function : Function φ} {r : Register} :
    function.keeps r ↔ r < function.parameterCount ∨ r = function.returnValue ∨
      ∃ instruction ∈ function.instructions, r ∈ instruction.ownDemands := by
  simp only [keeps, demands, Bool.or_eq_true, decide_eq_true_eq, List.contains_iff_mem,
    List.mem_cons, Instruction.mem_demandsBody_iff, instructions]

theorem Needed.keeps {function : Function φ} {r : Register} (h : function.Needed r) :
    function.keeps r := by
  rw [keeps_iff]
  cases h with
  | parameter below => exact .inl below
  | returned => exact .inr (.inl rfl)
  | @anchor instruction _ inside mentioned =>
    refine .inr (.inr ⟨instruction, inside, ?_⟩)
    cases instruction with
    | compute => simp [Instruction.anchors] at mentioned
    | _ => exact mentioned
  | operand inside _ read => exact .inr (.inr ⟨_, inside, read⟩)

theorem compute_mem_restrict {function : Function φ} {result : Register}
    {operation : Operation φ} :
    .compute result operation ∈ (function.restrict keep).instructions ↔
      ∃ result' operation', .compute result' operation' ∈ function.instructions ∧ keep result' ∧
        rank keep result' = result ∧ operation'.rename (rank keep) = operation := by
  rw [mem_instructions_restrict]
  constructor
  · rintro ⟨old, inside, left, pruned, renamed⟩
    cases old with
    | compute result' operation' =>
      obtain ⟨kept, ⟨⟩⟩ := Option.ite_none_right_eq_some.mp pruned
      obtain ⟨results, operations⟩ := Instruction.compute.inj renamed
      exact ⟨result', operation', inside, kept, results, operations⟩
    | loop body =>
      obtain ⟨_, ⟨⟩⟩ := Option.ite_none_left_eq_some.mp pruned
      exact absurd renamed (by simp [Instruction.rename])
    | call | select | leave =>
      obtain rfl := Option.some.inj pruned
      exact absurd renamed (by simp [Instruction.rename])
  · rintro ⟨result', operation', inside, kept, rfl, rfl⟩
    exact ⟨_, inside, _, if_pos kept, rfl⟩

/-- A restriction to registers that include the needed ones needs these, under their ranks. -/
theorem needed_restrict_iff {function : Function φ} (kept : ∀ r, function.Needed r → keep r)
    {s : Register} :
    (function.restrict keep).Needed s ↔ ∃ r, function.Needed r ∧ rank keep r = s := by
  have parameters : ∀ r < function.parameterCount, rank keep r = r := fun r below =>
    rank_eq_self_iff.mpr fun _ less => kept _ (.parameter (Nat.lt_trans less below))
  constructor
  · intro h
    induction h with
    | @parameter r below => exact ⟨r, .parameter below, parameters r below⟩
    | returned => exact ⟨_, .returned, rfl⟩
    | anchor inside mentioned =>
      obtain ⟨old, oldInside, left, pruned, rfl⟩ := mem_instructions_restrict.mp inside
      rw [Instruction.anchors_rename, Instruction.anchors_of_prune keep pruned] at mentioned
      obtain ⟨r, member, rfl⟩ := List.mem_map.mp mentioned
      exact ⟨r, .anchor oldInside member, rfl⟩
    | operand inside _ read ih =>
      obtain ⟨result, operation, oldInside, resultKept, ranked, rfl⟩ :=
        compute_mem_restrict.mp inside
      obtain ⟨needed, isNeeded, same⟩ := ih
      obtain rfl := rank_injective (kept needed isNeeded) resultKept (same.trans ranked.symm)
      rw [Operation.operands_rename] at read
      obtain ⟨r, member, rfl⟩ := List.mem_map.mp read
      exact ⟨r, .operand oldInside isNeeded member, rfl⟩
  · rintro ⟨r, h, rfl⟩
    induction h with
    | @parameter r below => exact .parameter ((parameters r below).symm ▸ below)
    | returned => exact .returned
    | anchor inside mentioned =>
      obtain ⟨left, pruned⟩ := Instruction.exists_prune_of_mem_anchors keep mentioned
      refine .anchor (mem_instructions_restrict.mpr ⟨_, inside, left, pruned, rfl⟩) ?_
      rw [Instruction.anchors_rename, Instruction.anchors_of_prune keep pruned]
      exact List.mem_map_of_mem mentioned
    | operand inside needed read ih =>
      refine .operand (compute_mem_restrict.mpr ⟨_, _, inside, kept _ needed, rfl, rfl⟩) ih ?_
      rw [Operation.operands_rename]
      exact List.mem_map_of_mem read

end Function

namespace Surroundings

variable {surroundings : Surroundings} {scope middle after inner : Scope}

/-- What the order in which registers are written says about verified instructions: an operand is
written before the result that is computed from it. Scopes list the latest register first. -/
structure Ordered (instructions : List (Instruction FunctionId)) (scope after : Scope) : Prop where
  grows : scope.written.Sublist after.written
  operands : scope.visible ⊆ scope.written → ∀ result operation,
    .compute result operation ∈ instructions → ∀ r ∈ operation.operands,
      [result, r].Sublist after.written

namespace Ordered

variable {instructions others : List (Instruction FunctionId)}

theorem refl : Ordered [] scope scope := ⟨.refl _, by simp⟩

theorem trans (first : Ordered instructions scope middle) (second : Ordered others middle after)
    (seen : scope.visible ⊆ scope.written → middle.visible ⊆ middle.written) :
    Ordered (instructions ++ others) scope after where
  grows := first.grows.trans second.grows
  operands visible result operation member r read := by
    rcases List.mem_append.mp member with early | late
    · exact (first.operands visible result operation early r read).trans second.grows
    · exact second.operands (seen visible) result operation late r read

theorem close (h : Ordered instructions scope inner) :
    Ordered instructions scope (scope.close inner) := ⟨h.grows, h.operands⟩

theorem writing {register : Register} (h : surroundings.define scope register = .ok after) :
    Ordered [] scope after := by
  obtain ⟨_, _, rfl⟩ := define_eq_ok_iff.mp h
  exact ⟨List.sublist_cons_self _ _, by simp⟩

theorem cons (h : Ordered instructions scope after) {instruction : Instruction FunctionId}
    (other : ∀ result operation, instruction ≠ .compute result operation) :
    Ordered (instruction :: instructions) scope after where
  grows := h.grows
  operands visible result operation member := by
    rcases List.mem_cons.mp member with same | later
    · exact absurd same.symm (other result operation)
    · exact h.operands visible result operation later

end Ordered

open Instruction

mutual

theorem ordered_verify : ∀ {inLoop : Bool} {scope after : Scope}
    (instruction : Instruction FunctionId),
    surroundings.verify inLoop scope instruction = .ok after →
    Ordered instruction.nested scope after
  | _, scope, _, .compute result operation, h => by
    obtain ⟨⟨_, readable⟩, defined⟩ := verify_compute.mp h
    obtain ⟨_, _, rfl⟩ := define_eq_ok_iff.mp defined
    refine ⟨List.sublist_cons_self _ _, fun visible other operation' member r read => ?_⟩
    obtain ⟨rfl, rfl⟩ := compute.inj (List.mem_singleton.mp member)
    exact (List.singleton_sublist.mpr (visible (readable r read).2)).cons_cons _
  | _, _, _, .call result callee arguments, h => by
    obtain ⟨_, defined⟩ := verify_call.mp h
    exact (Ordered.writing defined).cons (by simp)
  | _, _, _, .select result key cases, h => by
    obtain ⟨readable, inner, chosen, defined⟩ := verify_select.mp h
    have both := (ordered_verifyCases cases chosen).trans (.writing defined)
      (advance_verifyCases cases chosen).visible
    rw [List.append_nil] at both
    exact both.cons (by simp)
  | _, _, _, .loop body, h => by
    obtain ⟨inner, verified, rfl⟩ := verify_loop.mp h
    exact (ordered_verifyBody body verified).close.cons (by simp)
  | _, _, _, .leave, h => by
    obtain ⟨_, rfl⟩ := verify_leave.mp h
    exact Ordered.refl.cons (by simp)

theorem ordered_verifyBody : ∀ {inLoop : Bool} {scope after : Scope} (body : Body FunctionId),
    surroundings.verifyBody inLoop scope body = .ok after →
    Ordered (nestedBody body) scope after
  | _, _, _, [], h => by
    rw [verifyBody_nil.mp h]
    exact .refl
  | _, _, _, instruction :: body, h => by
    obtain ⟨inner, first, rest⟩ := verifyBody_cons.mp h
    exact (ordered_verify instruction first).trans (ordered_verifyBody body rest)
      (advance_verify instruction first).visible

theorem ordered_verifyCases : ∀ {inLoop : Bool} {scope after : Scope} (cases : Cases FunctionId),
    surroundings.verifyCases inLoop scope cases = .ok after →
    Ordered (nestedCases cases) scope after
  | _, _, _, [], h => by
    rw [verifyCases_nil.mp h]
    exact .refl
  | _, scope, _, ⟨guard, action, value⟩ :: cases, h => by
    obtain ⟨admitted, inner, body, _, rest⟩ := verifyCases_cons.mp h
    have entered : Ordered [] scope (guard.bindings.foldl Scope.write scope) := by
      cases guard with
      | equals => exact .refl
      | element which binding =>
        exact .writing (define_eq_ok_iff.mpr ⟨admitted.2.1, admitted.2.2, rfl⟩)
    have first := entered.trans (ordered_verifyBody action body) (advance_enter admitted).visible
    have closed := ((advance_enter admitted).trans (advance_verifyBody action body)).close
    exact first.close.trans (ordered_verifyCases cases rest) closed.visible

end

end Surroundings

theorem idxOf_lt_of_sublist {order : List Register} (unique : order.Nodup) {a b : Register}
    (h : [a, b].Sublist order) : order.idxOf a < order.idxOf b := by
  induction order with
  | nil => simp at h
  | cons first order ih =>
    obtain ⟨new, unique⟩ := List.nodup_cons.mp unique
    cases h with
    | cons _ later =>
      have left : a ≠ first := fun same => new (same ▸ later.subset (by simp))
      have right : b ≠ first := fun same => new (same ▸ later.subset (by simp))
      rw [List.idxOf_cons_ne _ left.symm, List.idxOf_cons_ne _ right.symm]
      exact Nat.succ_lt_succ (ih unique later)
    | cons_cons _ later =>
      have right : b ≠ a := fun same => new (same ▸ later.subset (by simp))
      rw [List.idxOf_cons_self, List.idxOf_cons_ne _ right.symm]
      exact Nat.succ_pos _

namespace Function

variable {program : Program} {function : Function FunctionId}

theorem Needed.inRange (h : function.check program = .ok ()) {r : Register}
    (needed : function.Needed r) : r < function.registerCount := by
  have inRange := inRange_of_check h
  have kept := needed.keeps
  simp only [Function.keeps, Bool.or_eq_true, decide_eq_true_eq, List.contains_iff_mem] at kept
  rcases kept with parameter | demanded
  · exact Nat.lt_of_lt_of_le parameter inRange.parameters
  · exact inRange.demanded r demanded

theorem needed_of_keeps (h : function.check program = .ok ())
    (all : ∀ r < function.registerCount, function.keeps r) :
    ∀ r, function.keeps r → function.Needed r := by
  obtain ⟨_, fits, _, _⟩ := check_eq_ok_iff.mp h
  obtain ⟨after, verified, _, advance⟩ := advance_of_check h
  have ordered := Surroundings.ordered_verifyBody _ verified
  rw [parameterScope_eq] at ordered advance
  have unique := advance.nodup (List.nodup_reverse.mpr List.nodup_range)
  have inRange : ∀ r ∈ after.written, r < function.registerCount := by
    intro r member
    rcases List.mem_append.mp (advance.written.mem_iff.mp member) with inner | parameter
    · exact advance.defined r inner
    · exact Nat.lt_of_lt_of_le (List.mem_range.mp (List.mem_reverse.mp parameter)) fits
  intro r
  -- A register is read by computations of registers that were written later, so the induction
  -- starts from the register that was written last.
  induction position : after.written.idxOf r using Nat.strong_induction_on generalizing r with
  | _ n ih =>
    intro kept
    rcases keeps_iff.mp kept with parameter | rfl | ⟨instruction, inside, read⟩
    · exact .parameter parameter
    · exact .returned
    · cases instruction with
      | compute result operation =>
        have later := ordered.operands (List.Subset.refl _) result operation inside r read
        have closer := idxOf_lt_of_sublist unique later
        have declared := inRange result (later.subset (by simp))
        exact .operand inside (ih _ (position ▸ closer) result rfl (all result declared)) read
      | _ => exact .anchor inside read

/-- All layers together restrict a verified function to the registers that it needs. -/
theorem layers_eq_restrict_needed (h : function.check program = .ok ()) :
    ∃ counts keep, function.layers = .ok (counts, function.restrict keep) ∧
      ∀ r, keep r ↔ function.Needed r := by
  induction size : function.registerCount using Nat.strong_induction_on generalizing function with
  | _ n ih =>
    rw [layers, layer_eq (inRange_of_check h)]
    by_cases smaller : (function.restrict function.keeps).registerCount < function.registerCount
    · have verified := check_restrict h (covers_keeps function)
      obtain ⟨counts, keep, equation, needed⟩ := ih _ (size ▸ smaller) verified rfl
      refine ⟨(function.restrict function.keeps).registerCount :: counts,
        thenKeep function.keeps keep, ?_, fun r => ?_⟩
      · rw [← restrict_restrict function.keeps keep (check_eq_ok_iff.mp h).1]
        simp only [smaller, if_true, equation]
      · rw [thenKeep, Bool.and_eq_true_iff, needed, needed_restrict_iff fun _ => Needed.keeps]
        constructor
        · rintro ⟨kept, other, otherNeeded, same⟩
          exact rank_injective otherNeeded.keeps kept same ▸ otherNeeded
        · exact fun isNeeded => ⟨isNeeded.keeps, r, isNeeded, rfl⟩
    · have atMost : rank function.keeps function.registerCount ≤ function.registerCount := rank_le
      have all := rank_eq_self_iff.mp (Nat.le_antisymm atMost (Nat.not_lt.mp smaller))
      refine ⟨[], function.keeps, by simp only [smaller, if_false], fun r => ?_⟩
      exact ⟨needed_of_keeps h all r, Needed.keeps⟩

/-- Dead code elimination marks and sweeps: it leaves the computations of needed registers, no loop
of which nothing is left, and every register under its rank among the needed ones. -/
theorem removeDeadCode_marks_and_sweeps (program : Program) (function : Function FunctionId)
    (verified : function.verify program = .ok ()) :
    ∃ (needed : List Register) (stats : DeadCodeStats), needed.Pairwise (· < ·) ∧
      (∀ r, r ∈ needed ↔ function.Needed r) ∧
      function.removeDeadCode.outcome = .ok
        ({ name := function.name
           parameterCount := function.parameterCount
           registerCount := needed.length
           returnValue := rank needed.contains function.returnValue
           registerNames := needed.filterMap (function.registerNames[·]?)
           body := Instruction.renameBody (rank needed.contains)
             (Instruction.pruneBody needed.contains function.body) }, stats) := by
  have checked := verify_eq_ok_iff.mp verified
  obtain ⟨counts, keep, equation, isNeeded⟩ := layers_eq_restrict_needed checked
  have outcome : ∃ stats,
      function.removeDeadCode.outcome = .ok (function.restrict keep, stats) := by
    rw [removeDeadCode, equation]
    exact ⟨_, rfl⟩
  let needed := (List.range function.registerCount).filter keep
  have member : ∀ r, r ∈ needed ↔ function.Needed r := by
    intro r
    rw [List.mem_filter, isNeeded, List.mem_range]
    exact and_iff_right_of_imp (Needed.inRange checked)
  have same : keep = needed.contains := by
    funext r
    rw [Bool.eq_iff_iff, isNeeded, List.contains_iff_mem, member]
  have count : rank keep function.registerCount = needed.length := List.countP_eq_length_filter
  obtain ⟨stats, outcome⟩ := outcome
  refine ⟨needed, stats, List.pairwise_lt_range.filter keep, member, ?_⟩
  rw [← same, ← count]
  exact outcome

/-- Two nested loops vanish, over several layers, and a computation is kept for a call. -/
def chained : Function FunctionId where
  name := "main"
  parameterCount := 1
  registerCount := 6
  returnValue := 4
  registerNames := [some "host", none, none, some "pair", none, some "unread"]
  body :=
    [.loop [.compute 1 (.literal .unit .unit), .loop [.compute 2 (.tuple [1, 0])]],
      .compute 3 (.tuple [0, 0]), .call 4 0 [3], .compute 5 (.member 4 0)]

theorem removeDeadCode_marks_and_sweeps_chained :
    chained.verify ⟨⟨[], [], []⟩, []⟩ = .ok () ∧
    ∃ (needed : List Register) (stats : DeadCodeStats), needed.Pairwise (· < ·) ∧
      (∀ r, r ∈ needed ↔ chained.Needed r) ∧
      chained.removeDeadCode.outcome = .ok
        ({ name := "main"
           parameterCount := 1
           registerCount := needed.length
           returnValue := rank needed.contains 4
           registerNames := needed.filterMap (chained.registerNames[·]?)
           body := Instruction.renameBody (rank needed.contains)
             (Instruction.pruneBody needed.contains chained.body) }, stats) :=
  ⟨rfl, removeDeadCode_marks_and_sweeps ⟨⟨[], [], []⟩, []⟩ chained rfl⟩

end Function

end RegisterIR
