import RegisterIR.Proofs.Pruning
import Mathlib.Data.List.Range

/-! One layer of dead code elimination as an equation. On a function whose registers are all in
range, a layer takes out the computations of registers that are not kept and gives each kept
register its rank among them. Layers follow one another until one keeps every register. -/

namespace RegisterIR

variable {φ : Type}

/-- The number of kept registers below a register. -/
def rank (keep : Register → Bool) (register : Nat) : Nat :=
  (List.range register).countP keep

section Rank

variable {keep : Register → Bool} {a b n : Nat}

theorem rank_succ (keep : Register → Bool) (register : Nat) :
    rank keep (register + 1) = rank keep register + if keep register then 1 else 0 := by
  rw [rank, List.range_succ, List.countP_append, List.countP_singleton, rank]

theorem rank_mono (h : a ≤ b) : rank keep a ≤ rank keep b := by
  induction h with
  | refl => exact Nat.le_refl _
  | step _ ih => rw [rank_succ]; omega

theorem rank_lt (kept : keep a) (h : a < b) : rank keep a < rank keep b := by
  have next : rank keep (a + 1) = rank keep a + 1 := by rw [rank_succ, if_pos kept]
  have later : rank keep (a + 1) ≤ rank keep b := rank_mono h
  omega

theorem rank_injective (kept : keep a) (kept' : keep b) (h : rank keep a = rank keep b) :
    a = b := by
  rcases Nat.lt_trichotomy a b with less | equal | greater
  · have := rank_lt kept less
    omega
  · exact equal
  · have := rank_lt kept' greater
    omega

theorem rank_le : rank keep n ≤ n := by
  simpa [rank] using List.countP_le_length (p := keep) (l := List.range n)

theorem rank_eq_self_iff : rank keep n = n ↔ ∀ r < n, keep r := by
  simpa [rank] using List.countP_eq_length (p := keep) (l := List.range n)

theorem count_map_range (keep : Register → Bool) (n : Nat) :
    ((List.range n).map keep).count true = rank keep n := by
  simp [rank, List.count, List.countP_map, Function.comp_def]

/-- Ranks number the kept registers densely. -/
theorem map_rank_filter (keep : Register → Bool) (n : Nat) :
    ((List.range n).filter keep).map (rank keep) = List.range (rank keep n) := by
  induction n with
  | zero => rfl
  | succ n ih =>
    rw [List.range_succ, List.filter_append, List.map_append, ih, rank_succ]
    by_cases h : keep n <;> simp [h, List.range_succ]

theorem filterMap_getElem?_range {α : Type} (values : List α) (n : Nat) :
    (List.range n).filterMap (values[·]?) = values.take n := by
  induction n with
  | zero => rfl
  | succ n ih =>
    rw [List.range_succ, List.filterMap_append, ih, List.take_add_one]
    cases found : values[n]? <;> simp [found]

theorem length_filterMap_range {α : Type} (keep : Register → Bool) {names : List α}
    (named : n ≤ names.length) :
    (((List.range n).filter keep).filterMap (names[·]?)).length = rank keep n := by
  have each : ∀ r ∈ (List.range n).filter keep, (names[r]?).isSome := by
    intro r member
    have inside := List.mem_range.mp (List.mem_of_mem_filter member)
    simpa using Nat.lt_of_lt_of_le inside named
  rw [List.length_filterMap_eq_countP, List.countP_eq_length.mpr each, rank,
    List.countP_eq_length_filter]

theorem filterMap_zip_map {α : Type} (keep : Nat → Bool) (names : List α) (start count : Nat) :
    ((names.zip ((List.range' start count).map keep)).filterMap fun (name, live) =>
      if live then some name else none) =
    ((List.range' start count).filter keep).filterMap fun r => names[r - start]? := by
  induction count generalizing start names with
  | zero => simp
  | succ count ih =>
    cases names with
    | nil => simp
    | cons name names =>
      have shift : ((List.range' (start + 1) count).filter keep).filterMap
          (fun r => (name :: names)[r - start]?) =
          ((List.range' (start + 1) count).filter keep).filterMap
            fun r => names[r - (start + 1)]? := by
        apply List.filterMap_congr
        intro r member
        have above := (List.mem_range'_1.mp (List.mem_of_mem_filter member)).1
        rw [show r - start = (r - (start + 1)) + 1 by omega, List.getElem?_cons_succ]
      have tail := ih names (start + 1)
      by_cases h : keep start <;>
        simp [List.range'_succ, h, tail, shift]

end Rank

namespace Renumbering

theorem getElem?_assign (next : Nat) (flags : List Bool) (register : Register) :
    (assign next flags)[register]? = flags[register]?.map fun live =>
      if live then some (next + (flags.take register).count true) else none := by
  induction flags generalizing next register with
  | nil => rfl
  | cons live flags ih =>
    cases live <;> cases register <;> simp [assign, ih]
    grind

theorem target_assign {keep : Register → Bool} {n register : Nat} (h : register < n) :
    target (assign 0 ((List.range n).map keep)) register =
      .ok (if keep register then some (rank keep register) else none) := by
  have before : List.take register (List.range n) = List.range register := by
    rw [List.take_range, Nat.min_eq_left (Nat.le_of_lt h)]
  rw [target, entry_eq_ok_iff, getElem?_assign]
  simp only [List.getElem?_map, List.getElem?_range h, Option.map_some, ← List.map_take, before]
  rw [if_congr Iff.rfl (by rw [Nat.zero_add, count_map_range]) rfl]

end Renumbering

def Renumbering.Follows (renumbering : Renumbering) (keep : Register → Bool)
    (f : Register → Register) (n : Nat) : Prop :=
  ∀ r < n, renumbering.target r = .ok (if keep r then some (f r) else none)

section Sweep

variable {renumbering : Renumbering} {keep : Register → Bool} {f : Register → Register} {n : Nat}

theorem Renumbering.Follows.operand (follows : renumbering.Follows keep f n) {register : Register}
    (h : keep register ∧ register < n) : renumbering.operand register = .ok (f register) := by
  simp [Renumbering.operand, follows register h.2, h.1, bind, Except.bind, pure, Except.pure]

theorem Renumbering.Follows.operands (follows : renumbering.Follows keep f n) :
    ∀ registers : List Register, (∀ r ∈ registers, keep r ∧ r < n) →
      registers.mapM renumbering.operand = .ok (registers.map f)
  | [], _ => rfl
  | register :: registers, h => by
    rw [List.mapM_cons, follows.operand (h register (by simp)),
      follows.operands registers fun r member => h r (by simp [member])]
    rfl

theorem Operation.renumber_eq (follows : renumbering.Follows keep f n) (operation : Operation φ)
    (h : ∀ r ∈ operation.operands, keep r ∧ r < n) :
    operation.renumber renumbering = .ok (operation.rename f) := by
  cases operation with
  | literal => rfl
  | tuple elements => rw [renumber, follows.operands elements h]; rfl
  | member source => rw [renumber, follows.operand (h source (by simp [operands]))]; rfl
  | construct _ state => rw [renumber, follows.operand (h state (by simp [operands]))]; rfl
  | global => rfl

theorem Guard.renumber_eq (follows : renumbering.Follows keep f n) (guard : Guard)
    (h : keep guard.register ∧ guard.register < n) :
    guard.renumber renumbering = .ok (guard.rename f) := by
  cases guard with
  | equals key =>
    have renamed : renumbering.operand key = .ok (f key) := follows.operand h
    rw [renumber, renamed]
    rfl
  | element which binding =>
    have renamed : renumbering.operand binding = .ok (f binding) := follows.operand h
    rw [renumber, renamed]
    rfl

namespace Instruction

mutual

theorem sweep_eq (follows : renumbering.Follows keep f n) : ∀ instruction : Instruction φ,
    (∀ r ∈ instruction.definitions, r < n) → (∀ r ∈ instruction.demands, keep r ∧ r < n) →
    instruction.sweep renumbering = .ok ((instruction.prune keep).map (rename f))
  | compute result operation, defined, demanded => by
    rw [sweep, follows result (defined result (by simp [definitions])),
      operation.renumber_eq follows demanded]
    by_cases h : keep result <;> simp [prune, rename, h, bind, Except.bind, pure, Except.pure]
  | call result callee arguments, defined, demanded => by
    rw [sweep, follows.operand (demanded callee (by simp [demands])),
      follows.operands arguments fun r h => demanded r (by simp [demands, h]),
      follows.operand (demanded result (by simp [demands]))]
    rfl
  | select result key cases, defined, demanded => by
    rw [sweep, follows.operand (demanded key (by simp [demands])),
      sweepCases_eq follows cases (fun r h => defined r (by simp [definitions, h]))
        fun r h => demanded r (by simp [demands, h]),
      follows.operand (demanded result (by simp [demands]))]
    rfl
  | loop body, defined, demanded => by
    rw [sweep, sweepBody_eq follows body (fun r h => defined r (by simpa [definitions] using h))
      fun r h => demanded r (by simpa [demands] using h)]
    cases h : pruneBody keep body <;>
      simp [prune, h, rename, renameBody, bind, Except.bind, pure, Except.pure]
  | leave, _, _ => rfl

theorem sweepBody_eq (follows : renumbering.Follows keep f n) : ∀ body : Body φ,
    (∀ r ∈ definitionsBody body, r < n) → (∀ r ∈ demandsBody body, keep r ∧ r < n) →
    sweepBody renumbering body = .ok (renameBody f (pruneBody keep body))
  | [], _, _ => rfl
  | instruction :: body, defined, demanded => by
    rw [sweepBody,
      sweep_eq follows instruction (fun r h => defined r (by simp [definitionsBody, h]))
        fun r h => demanded r (by simp [demandsBody, h]),
      sweepBody_eq follows body (fun r h => defined r (by simp [definitionsBody, h]))
        fun r h => demanded r (by simp [demandsBody, h])]
    cases h : instruction.prune keep <;>
      simp [pruneBody, h, renameBody, bind, Except.bind, pure, Except.pure]

theorem sweepCases_eq (follows : renumbering.Follows keep f n) : ∀ cases : Cases φ,
    (∀ r ∈ definitionsCases cases, r < n) → (∀ r ∈ demandsCases cases, keep r ∧ r < n) →
    sweepCases renumbering cases = .ok (renameCases f (pruneCases keep cases))
  | [], _, _ => rfl
  | ⟨guard, action, value⟩ :: cases, defined, demanded => by
    have yielded : value.mapM renumbering.operand = .ok (value.map f) := by
      cases value with
      | none => rfl
      | some register =>
        rw [Option.mapM_some, follows.operand (demanded register (by simp [demandsCases]))]
        rfl
    rw [sweepCases, guard.renumber_eq follows (demanded _ (by simp [demandsCases])),
      sweepBody_eq follows action (fun r h => defined r (by simp [definitionsCases, h]))
        fun r h => demanded r (by simp [demandsCases, h]), yielded,
      sweepCases_eq follows cases (fun r h => defined r (by simp [definitionsCases, h]))
        fun r h => demanded r (by simp [demandsCases, h])]
    rfl

end

end Instruction

end Sweep

namespace Function

def keeps (function : Function φ) (register : Register) : Bool :=
  register < function.parameterCount || function.demands.contains register

/-- The function with the kept registers only, each numbered by its rank among them. -/
def restrict (keep : Register → Bool) (function : Function φ) : Function φ where
  name := function.name
  parameterCount := function.parameterCount
  registerCount := rank keep function.registerCount
  returnValue := rank keep function.returnValue
  registerNames :=
    ((List.range function.registerCount).filter keep).filterMap (function.registerNames[·]?)
  body := Instruction.renameBody (rank keep) (Instruction.pruneBody keep function.body)

/-- All registers that the function mentions are among those it declares. -/
structure InRange (function : Function φ) : Prop where
  parameters : function.parameterCount ≤ function.registerCount
  demanded : ∀ r ∈ function.demands, r < function.registerCount
  defined : ∀ r ∈ Instruction.definitionsBody function.body, r < function.registerCount

theorem keeps_of_mem_demands {function : Function φ} {register : Register}
    (h : register ∈ function.demands) : function.keeps register := by
  simp [keeps, h]

theorem liveness_eq {function : Function φ} (inRange : function.InRange) :
    function.liveness = .ok ((List.range function.registerCount).map function.keeps) := by
  have fits : function.parameterCount ≤ function.registerCount ∧
      function.demands.all (· < function.registerCount) :=
    ⟨inRange.parameters, by simpa using inRange.demanded⟩
  rw [liveness]
  exact if_pos fits

theorem layer_eq {function : Function φ} (inRange : function.InRange) :
    function.layer = .ok (function.restrict function.keeps) := by
  have follows : (Renumbering.assign 0
      ((List.range function.registerCount).map function.keeps)).Follows function.keeps
        (rank function.keeps) function.registerCount :=
    fun _ h => Renumbering.target_assign h
  have demanded : ∀ r ∈ function.demands, function.keeps r ∧ r < function.registerCount :=
    fun r h => ⟨keeps_of_mem_demands h, inRange.demanded r h⟩
  have body := Instruction.sweepBody_eq follows function.body inRange.defined
    fun r h => demanded r (by simp [demands, h])
  have returned := follows.operand (demanded function.returnValue (by simp [demands]))
  have names := filterMap_zip_map function.keeps function.registerNames 0 function.registerCount
  rw [← List.range_eq_range'] at names
  simp only [layer, liveness_eq inRange, body, returned, restrict, names, count_map_range, bind,
    Except.bind, pure, Except.pure, Nat.sub_zero]

/-- A property that makes layers total and that layers keep holds at the end, and the last layer
removes no register. -/
theorem layers_run {P : Function φ → Prop} (inRange : ∀ function, P function → function.InRange)
    (step : ∀ function, P function → P (function.restrict function.keeps)) (function : Function φ)
    (start : P function) :
    ∃ counts before, function.layers = .ok (counts, before.restrict before.keeps) ∧ P before ∧
      ∀ r < before.registerCount, before.keeps r := by
  induction h : function.registerCount using Nat.strong_induction_on generalizing function with
  | _ n ih =>
    rw [layers, layer_eq (inRange function start)]
    by_cases smaller : (function.restrict function.keeps).registerCount < function.registerCount
    · obtain ⟨counts, before, equation, held, all⟩ :=
        ih _ (h ▸ smaller) _ (step function start) rfl
      refine ⟨(function.restrict function.keeps).registerCount :: counts, before, ?_, held, all⟩
      simp only [smaller, if_true, equation]
    · refine ⟨[], function, by simp only [smaller, if_false], start, ?_⟩
      have atMost : rank function.keeps function.registerCount ≤ function.registerCount := rank_le
      exact rank_eq_self_iff.mp (Nat.le_antisymm atMost (Nat.not_lt.mp smaller))

end Function

end RegisterIR
