import RegisterIR.Proofs.LexicalScope
import RegisterIR.Proofs.MarkAndSweep
import RegisterIR.Proofs.SettledFunctions

/-! Where dead code elimination stops. Marking and sweeping go through a body separately. Every
register that the sweep asks for as an operand has been marked, so all it can stop at is a register
beyond the table, and a layer leaves no such register to the next one. -/

namespace RegisterIR

variable {φ : Type}

theorem Guard.eq_register_iff {guard : Guard} {r : Register} :
    r = guard.register ↔ r ∈ guard.operands ∨ r ∈ guard.bindings := by
  cases guard <;> simp [register, operands, bindings]

namespace Instruction

def ownDefinitions : Instruction φ → List Register
  | compute result _ => [result]
  | call result _ _ => [result]
  | select result _ cases => result :: cases.flatMap fun case => case.guard.bindings
  | loop _ => []
  | leave => []

variable {r : Register}

mutual

theorem mem_definitions_iff : ∀ instruction : Instruction φ,
    r ∈ instruction.definitions ↔ ∃ inner ∈ instruction.nested, r ∈ inner.ownDefinitions
  | compute .. => by simp [definitions, nested, ownDefinitions]
  | call .. => by simp [definitions, nested, ownDefinitions]
  | select result key cases => by
    simp [definitions, nested, ownDefinitions, mem_definitionsCases_iff cases, or_assoc]
  | loop body => by simp [definitions, nested, ownDefinitions, mem_definitionsBody_iff body]
  | leave => by simp [definitions, nested, ownDefinitions]

theorem mem_definitionsBody_iff : ∀ body : Body φ,
    r ∈ definitionsBody body ↔ ∃ inner ∈ nestedBody body, r ∈ inner.ownDefinitions
  | [] => by simp [definitionsBody, nestedBody]
  | instruction :: body => by
    simp [definitionsBody, nestedBody, mem_definitions_iff instruction,
      mem_definitionsBody_iff body, or_and_right, exists_or]

theorem mem_definitionsCases_iff : ∀ cases : Cases φ,
    r ∈ definitionsCases cases ↔ (∃ case ∈ cases, r ∈ case.guard.bindings) ∨
      ∃ inner ∈ nestedCases cases, r ∈ inner.ownDefinitions
  | [] => by simp [definitionsCases, nestedCases]
  | ⟨guard, action, value⟩ :: cases => by
    simp only [definitionsCases, nestedCases, List.mem_append, List.mem_cons,
      mem_definitionsBody_iff action, mem_definitionsCases_iff cases, or_and_right, exists_or,
      exists_eq_left]
    grind

end

theorem mem_mentions_iff (instruction : Instruction φ) :
    r ∈ instruction.mentions ↔ r ∈ instruction.ownDefinitions ∨ r ∈ instruction.ownDemands := by
  cases instruction with
  | select result key cases =>
    simp only [mentions, ownDefinitions, ownDemands, anchors, operands, result?, bindings,
      List.mem_append, List.mem_cons, List.mem_flatMap, Guard.eq_register_iff]
    grind
  | compute | call | loop | leave =>
    simp only [mentions, ownDefinitions, ownDemands, anchors, operands, result?, bindings,
      List.mem_append]
    grind

end Instruction

section Sweep

variable {renumbering : Renumbering} {fault : Fault}

theorem Renumbering.operands_eq_error {registers : List Register}
    (h : registers.mapM renumbering.operand = .error fault) :
    ∃ r ∈ registers, renumbering.operand r = .error fault := by
  induction registers with
  | nil => cases h
  | cons register registers ih =>
    rw [List.mapM_cons] at h
    rcases bind_eq_error_iff.mp h with own | ⟨renamed, _, later⟩
    · exact ⟨register, List.mem_cons_self, own⟩
    · rcases bind_eq_error_iff.mp later with others | ⟨rest, _, joined⟩
      · obtain ⟨r, member, failed⟩ := ih others
        exact ⟨r, List.mem_cons_of_mem _ member, failed⟩
      · cases joined

theorem Operation.renumber_eq_error {operation : Operation φ}
    (h : operation.renumber renumbering = .error fault) :
    ∃ r ∈ operation.operands, renumbering.operand r = .error fault := by
  cases operation with
  | literal | global => cases h
  | tuple elements =>
    rcases bind_eq_error_iff.mp h with failed | ⟨renamed, _, joined⟩
    · exact Renumbering.operands_eq_error failed
    · cases joined
  | member source index =>
    rcases bind_eq_error_iff.mp h with failed | ⟨renamed, _, joined⟩
    · exact ⟨source, List.mem_singleton_self source, failed⟩
    · cases joined
  | construct which state type =>
    rcases bind_eq_error_iff.mp h with failed | ⟨renamed, _, joined⟩
    · exact ⟨state, List.mem_singleton_self state, failed⟩
    · cases joined

theorem Guard.renumber_eq_error {guard : Guard} (h : guard.renumber renumbering = .error fault) :
    renumbering.operand guard.register = .error fault := by
  cases guard with
  | equals key =>
    rcases bind_eq_error_iff.mp h with failed | ⟨renamed, _, joined⟩
    · exact failed
    · cases joined
  | element which binding =>
    rcases bind_eq_error_iff.mp h with failed | ⟨renamed, _, joined⟩
    · exact failed
    · cases joined

def Renumbering.StopsAt (renumbering : Renumbering) (fault : Fault)
    (demanded written : List Register) : Prop :=
  (∃ r ∈ demanded, renumbering.operand r = .error fault) ∨
    ∃ r ∈ written, renumbering.target r = .error fault

theorem Renumbering.StopsAt.mono {demanded demanded' written written' : List Register}
    (h : renumbering.StopsAt fault demanded written) (demands : demanded ⊆ demanded')
    (writes : written ⊆ written') : renumbering.StopsAt fault demanded' written' :=
  h.imp (fun stop => stop.imp fun _ found => ⟨demands found.1, found.2⟩)
    fun stop => stop.imp fun _ found => ⟨writes found.1, found.2⟩

namespace Instruction

mutual

theorem sweep_eq_error : ∀ {instruction : Instruction φ},
    instruction.sweep renumbering = .error fault →
    renumbering.StopsAt fault instruction.demands instruction.definitions
  | compute result operation, h => by
    rcases bind_eq_error_iff.mp h with failed | ⟨found, _, kept⟩
    · exact .inr ⟨result, by simp [definitions], failed⟩
    · cases found with
      | none => cases kept
      | some renamed =>
        rcases bind_eq_error_iff.mp kept with failed | ⟨swept, _, joined⟩
        · exact .inl (Operation.renumber_eq_error failed)
        · cases joined
  | call result callee arguments, h => by
    rcases bind_eq_error_iff.mp h with failed | ⟨_, _, afterCallee⟩
    · exact .inl ⟨callee, by simp [demands], failed⟩
    rcases bind_eq_error_iff.mp afterCallee with failed | ⟨_, _, afterArguments⟩
    · obtain ⟨r, member, stopped⟩ := Renumbering.operands_eq_error failed
      exact .inl ⟨r, by simp [demands, member], stopped⟩
    rcases bind_eq_error_iff.mp afterArguments with failed | ⟨_, _, joined⟩
    · exact .inl ⟨result, by simp [demands], failed⟩
    · cases joined
  | select result key cases, h => by
    rcases bind_eq_error_iff.mp h with failed | ⟨_, _, afterKey⟩
    · exact .inl ⟨key, by simp [demands], failed⟩
    rcases bind_eq_error_iff.mp afterKey with failed | ⟨_, _, afterCases⟩
    · exact (sweepCases_eq_error failed).mono (fun r member => by simp [demands, member])
        fun r member => by simp [definitions, member]
    rcases bind_eq_error_iff.mp afterCases with failed | ⟨_, _, joined⟩
    · exact .inl ⟨result, by simp [demands], failed⟩
    · cases joined
  | loop body, h => by
    rcases bind_eq_error_iff.mp h with failed | ⟨swept, _, joined⟩
    · exact sweepBody_eq_error failed
    · cases swept <;> cases joined
  | leave, h => by cases h

theorem sweepBody_eq_error : ∀ {body : Body φ}, sweepBody renumbering body = .error fault →
    renumbering.StopsAt fault (demandsBody body) (definitionsBody body)
  | [], h => by cases h
  | instruction :: body, h => by
    rcases bind_eq_error_iff.mp h with failed | ⟨_, _, afterFirst⟩
    · exact (sweep_eq_error failed).mono (List.subset_append_left ..) (List.subset_append_left ..)
    rcases bind_eq_error_iff.mp afterFirst with failed | ⟨_, _, joined⟩
    · exact (sweepBody_eq_error failed).mono (List.subset_append_right ..)
        (List.subset_append_right ..)
    · cases joined

theorem sweepCases_eq_error : ∀ {cases : Cases φ}, sweepCases renumbering cases = .error fault →
    renumbering.StopsAt fault (demandsCases cases) (definitionsCases cases)
  | [], h => by cases h
  | ⟨guard, action, value⟩ :: cases, h => by
    rcases bind_eq_error_iff.mp h with failed | ⟨_, _, afterGuard⟩
    · exact .inl ⟨guard.register, by simp [demandsCases], Guard.renumber_eq_error failed⟩
    rcases bind_eq_error_iff.mp afterGuard with failed | ⟨_, _, afterAction⟩
    · exact (sweepBody_eq_error failed).mono (fun r member => by simp [demandsCases, member])
        fun r member => by simp [definitionsCases, member]
    rcases bind_eq_error_iff.mp afterAction with failed | ⟨_, _, afterValue⟩
    · cases value with
      | none => cases failed
      | some register =>
        rw [Option.mapM_some] at failed
        refine .inl ⟨register, by simp [demandsCases], ?_⟩
        cases equation : renumbering.operand register <;> simp_all [Functor.map, Except.map]
    rcases bind_eq_error_iff.mp afterValue with failed | ⟨_, _, joined⟩
    · exact (sweepCases_eq_error failed).mono (fun r member => by simp [demandsCases, member])
        fun r member => by simp [definitionsCases, member]
    · cases joined

end

end Instruction

end Sweep

namespace Function

variable {function : Function φ} {fault : Fault}

theorem inRange_iff : function.InRange ↔ function.parameterCount ≤ function.registerCount ∧
    function.returnValue < function.registerCount ∧
    ∀ instruction ∈ function.instructions, ∀ r ∈ instruction.mentions,
      r < function.registerCount := by
  constructor
  · intro h
    refine ⟨h.parameters, h.demanded _ List.mem_cons_self, fun instruction inside r mentioned => ?_⟩
    rcases instruction.mem_mentions_iff.mp mentioned with written | demanded
    · exact h.defined r ((Instruction.mem_definitionsBody_iff _).mpr ⟨_, inside, written⟩)
    · exact h.demanded r (List.mem_cons_of_mem _
        ((Instruction.mem_demandsBody_iff _).mpr ⟨_, inside, demanded⟩))
  · rintro ⟨parameters, returned, mentioned⟩
    refine ⟨parameters, List.forall_mem_cons.mpr ⟨returned, fun r demanded => ?_⟩,
      fun r written => ?_⟩
    · obtain ⟨instruction, inside, own⟩ := (Instruction.mem_demandsBody_iff _).mp demanded
      exact mentioned instruction inside r (instruction.mem_mentions_iff.mpr (.inr own))
    · obtain ⟨instruction, inside, own⟩ := (Instruction.mem_definitionsBody_iff _).mp written
      exact mentioned instruction inside r (instruction.mem_mentions_iff.mpr (.inl own))

theorem liveness_eq_ok {live : List Bool} (h : function.liveness = .ok live) :
    (∀ r ∈ function.demands, r < function.registerCount) ∧
      live = (List.range function.registerCount).map function.keeps := by
  rw [liveness] at h
  split at h
  · rename_i fits
    exact ⟨by simpa using fits.2, (Except.ok.inj h).symm⟩
  · cases h

theorem exists_operand {r : Register} (demanded : r ∈ function.demands)
    (below : r < function.registerCount) :
    ∃ renamed, (Renumbering.assign 0
      ((List.range function.registerCount).map function.keeps)).operand r = .ok renamed := by
  have follows : (Renumbering.assign 0
      ((List.range function.registerCount).map function.keeps)).Follows function.keeps
        (rank function.keeps) function.registerCount :=
    fun _ inside => Renumbering.target_assign inside
  exact ⟨_, follows.operand ⟨keeps_of_mem_demands demanded, below⟩⟩

/-- All that a layer can stop at is a register that is not in the table. -/
theorem fault_of_layer (h : function.layer = .error fault) : fault = .outOfRange := by
  rcases bind_eq_error_iff.mp h with scanned | ⟨live, scanned, afterScan⟩
  · rw [liveness] at scanned
    split at scanned
    · cases scanned
    · exact (Except.error.inj scanned).symm
  · obtain ⟨below, rfl⟩ := liveness_eq_ok scanned
    rcases bind_eq_error_iff.mp afterScan with swept | ⟨body, _, afterSweep⟩
    · rcases Instruction.sweepBody_eq_error swept with ⟨r, demanded, failed⟩ | ⟨r, _, failed⟩
      · have marked : r ∈ function.demands := List.mem_cons_of_mem _ demanded
        obtain ⟨renamed, equation⟩ := exists_operand marked (below r marked)
        cases equation.symm.trans failed
      · exact (entry_eq_error_iff.mp failed).2
    · rcases bind_eq_error_iff.mp afterSweep with failed | ⟨returned, _, joined⟩
      · have marked : function.returnValue ∈ function.demands := List.mem_cons_self
        obtain ⟨renamed, equation⟩ := exists_operand marked (below _ marked)
        cases equation.symm.trans failed
      · cases joined

theorem layer_eq_error_iff : function.layer = .error fault ↔
    ¬ function.InRange ∧ fault = .outOfRange := by
  constructor
  · intro h
    refine ⟨fun inRange => ?_, fault_of_layer h⟩
    cases (layer_eq inRange).symm.trans h
  · rintro ⟨outside, rfl⟩
    cases layered : function.layer with
    | ok next => exact absurd (inRange_of_layer layered) outside
    | error fault => rw [fault_of_layer layered]

theorem InRange.restrict {keep : Register → Bool} (h : function.InRange)
    (covers : function.Covers keep) : (function.restrict keep).InRange where
  parameters :=
    calc function.parameterCount = rank keep function.parameterCount :=
          (rank_parameters covers (Nat.le_refl _)).symm
      _ ≤ rank keep function.registerCount := rank_mono h.parameters
  demanded := by
    have ranked : ∀ r ∈ function.demands,
        rank keep r < rank keep function.registerCount := fun r demanded =>
      rank_lt (covers.demands r demanded) (h.demanded r demanded)
    refine List.forall_mem_cons.mpr ⟨ranked _ List.mem_cons_self, fun r demanded => ?_⟩
    rw [Function.restrict, Instruction.demandsBody_rename] at demanded
    obtain ⟨old, left, rfl⟩ := List.mem_map.mp demanded
    exact ranked old (List.mem_cons_of_mem _ (Instruction.demandsBody_prune_subset _ left))
  defined := by
    intro r defined
    rw [Function.restrict, Instruction.definitionsBody_rename, Instruction.definitionsBody_prune _
      fun r demanded => covers.demands r (List.mem_cons_of_mem _ demanded)] at defined
    obtain ⟨old, left, rfl⟩ := List.mem_map.mp defined
    obtain ⟨written, kept⟩ := List.mem_filter.mp left
    exact rank_lt kept (h.defined old written)

theorem layers_eq_error_iff : function.layers = .error fault ↔
    ¬ function.InRange ∧ fault = .outOfRange := by
  constructor
  · intro h
    have outside : ¬ function.InRange := by
      intro inRange
      obtain ⟨counts, before, equation, _⟩ :=
        layers_run (fun _ => id) (fun _ held => held.restrict (covers_keeps _)) function inRange
      cases equation.symm.trans h
    rw [layers, layer_eq_error_iff.mpr ⟨outside, rfl⟩] at h
    exact ⟨outside, (Except.error.inj h).symm⟩
  · intro stopped
    rw [layers, layer_eq_error_iff.mpr stopped]

theorem removeDeadCode_eq_error_iff : function.removeDeadCode.outcome = .error fault ↔
    ¬ function.InRange ∧ fault = .outOfRange := by
  rw [← layers_eq_error_iff, removeDeadCode]
  cases function.layers with
  | error reason => simp [Traced.fault]
  | ok reduced => simp

/-- Dead code elimination stops exactly when the parameters, the result or some register of the
body is beyond the registers that the function declares. It stops there only, and no layer of any
function meets a register that it reads but has not marked. -/
theorem removeDeadCode_faults_iff (function : Function φ) :
    ((∃ fault, function.removeDeadCode.outcome = .error fault) ↔
      function.registerCount < function.parameterCount ∨
      function.registerCount ≤ function.returnValue ∨
      ∃ instruction ∈ function.instructions, ∃ r ∈ instruction.mentions,
        function.registerCount ≤ r) ∧
    (∀ fault, function.removeDeadCode.outcome = .error fault → fault = .outOfRange) ∧
    ∀ (layered : Function φ) (register : Register), layered.layer ≠ .error (.notLive register) := by
  refine ⟨?_, fun fault stopped => (removeDeadCode_eq_error_iff.mp stopped).2, ?_⟩
  · simp only [removeDeadCode_eq_error_iff, exists_and_left, exists_eq, and_true, inRange_iff,
      not_and_or, not_forall, Nat.not_le, Nat.not_lt, exists_prop]
  · intro layered register stopped
    cases fault_of_layer stopped

end Function

end RegisterIR
