import Mathlib.Algebra.GroupWithZero.Nat
import RegisterIR.Proofs.Execution
import RegisterIR.Proofs.Optimization

/-! Dead code elimination keeps what functions do. The states of the two runs agree on the kept
registers under their new numbers, and their traces are equal. A loop that disappears has nothing
left in it that could end it, so a terminating run never enters it for good. -/

namespace RegisterIR

variable {φ V : Type} {meaning : Meaning φ V} {keep : Register → Bool} {f : Register → Register}

/-- The second state holds under new numbers what the first one holds in kept registers. -/
structure Mirrors (keep : Register → Bool) (f : Register → Register) (state mirror : State V) :
    Prop where
  registers : ∀ r, keep r → mirror.registers (f r) = state.registers r
  trace : mirror.trace = state.trace

namespace Mirrors

variable {state mirror : State V} {register : Register}

theorem write (h : Mirrors keep f state mirror)
    (injective : ∀ a b, keep a → keep b → f a = f b → a = b) (kept : keep register) (value : V) :
    Mirrors keep f (state.write register value) (mirror.write (f register) value) where
  registers r other := by
    by_cases same : r = register
    · simp [State.write, same]
    · have apart : f r ≠ f register := fun equal => same (injective r register other kept equal)
      simpa [State.write, same, apart] using h.registers r other
  trace := h.trace

theorem write_dead (h : Mirrors keep f state mirror) (dead : ¬ keep register) (value : V) :
    Mirrors keep f (state.write register value) mirror where
  registers r kept := by
    have other : r ≠ register := fun same => dead (same ▸ kept)
    simpa [State.write, other] using h.registers r kept
  trace := h.trace

theorem record (h : Mirrors keep f state mirror) (callee : V) (arguments : List V) :
    Mirrors keep f (state.record callee arguments) (mirror.record callee arguments) where
  registers := h.registers
  trace := by simp only [State.record, h.trace]

theorem mapM (h : Mirrors keep f state mirror) : ∀ registers : List Register,
    (∀ r ∈ registers, keep r) →
    (registers.map f).mapM mirror.registers = registers.mapM state.registers
  | [], _ => rfl
  | register :: registers, kept => by
    rw [List.map_cons, List.mapM_cons, List.mapM_cons, h.registers register (kept _ (by simp)),
      h.mapM registers fun r m => kept r (by simp [m])]

theorem compute (h : Mirrors keep f state mirror) (meaning : Meaning φ V) (operation : Operation φ)
    (kept : ∀ r ∈ operation.operands, keep r) :
    meaning.compute mirror.registers (operation.rename f) =
      meaning.compute state.registers operation := by
  cases operation with
  | literal => rfl
  | tuple elements => rw [Operation.rename, Meaning.compute, h.mapM elements kept, Meaning.compute]
  | member source =>
    rw [Operation.rename, Meaning.compute,
      h.registers source (kept _ (by simp [Operation.operands])),
      Meaning.compute]
  | construct _ payload =>
    rw [Operation.rename, Meaning.compute,
      h.registers payload (kept _ (by simp [Operation.operands])), Meaning.compute]
  | global => rfl

theorem holds (h : Mirrors keep f state mirror) (meaning : Meaning φ V) (key : V) {guard : Guard}
    (kept : keep guard.register) :
    meaning.holds mirror.registers key (guard.rename f) =
      meaning.holds state.registers key guard := by
  cases guard with
  | equals other => rw [Guard.rename, Meaning.holds, h.registers other kept, Meaning.holds]
  | element => rfl

theorem enter (h : Mirrors keep f state mirror) (meaning : Meaning φ V)
    (injective : ∀ a b, keep a → keep b → f a = f b → a = b) (key : V) {guard : Guard}
    (kept : keep guard.register) :
    Mirrors keep f (meaning.enter state key guard) (meaning.enter mirror key (guard.rename f)) := by
  cases guard with
  | equals => exact h
  | element which binding => exact h.write injective kept _

theorem yielded (h : Mirrors keep f state mirror) (meaning : Meaning φ V) {value : Option Register}
    (kept : ∀ r ∈ value.toList, keep r) :
    meaning.yielded mirror.registers (value.map f) = meaning.yielded state.registers value := by
  cases value with
  | none => rfl
  | some register => exact h.registers register (kept register (by simp))

end Mirrors

def Case.restrict (keep : Register → Bool) (f : Register → Register) (case : Case (Body φ)) :
    Case (Body φ) where
  guard := case.guard.rename f
  action := Instruction.renameBody f (Instruction.pruneBody keep case.action)
  value := case.value.map f

theorem renameCases_pruneCases (cases : Cases φ) :
    Instruction.renameCases f (Instruction.pruneCases keep cases) =
      cases.map (Case.restrict keep f) := by
  induction cases with
  | nil => rfl
  | cons case cases ih => simp [Instruction.pruneCases, Instruction.renameCases, ih, Case.restrict]

def Case.demands (case : Case (Body φ)) : List Register :=
  case.guard.register :: case.value.toList ++ Instruction.demandsBody case.action

theorem Case.demands_subset {case : Case (Body φ)} {cases : Cases φ} (h : case ∈ cases) :
    case.demands ⊆ Instruction.demandsCases cases := by
  induction cases with
  | nil => simp at h
  | cons other cases ih =>
    rcases List.mem_cons.mp h with rfl | later
    · exact List.subset_append_left _ _
    · exact fun _ member => List.mem_append_right _ (ih later member)

theorem Mirrors.choose {state mirror : State V} (h : Mirrors keep f state mirror)
    (meaning : Meaning φ V) (key : V) :
    ∀ cases : Cases φ, (∀ r ∈ Instruction.demandsCases cases, keep r) →
    meaning.choose mirror.registers key (cases.map (Case.restrict keep f)) =
      (meaning.choose state.registers key cases).map (Option.map (Case.restrict keep f))
  | [], _ => rfl
  | case :: cases, kept => by
    have test : meaning.holds mirror.registers key (case.restrict keep f).guard =
        meaning.holds state.registers key case.guard :=
      h.holds meaning key (kept _ (by simp [Instruction.demandsCases]))
    have rest := h.choose meaning key cases fun r m =>
      kept r (by simp [Instruction.demandsCases, m])
    rw [List.map_cons, Meaning.choose, test, rest, Meaning.choose]
    cases meaning.holds state.registers key case.guard with
    | none => rfl
    | some applies => cases applies <;> rfl

theorem Mirrors.choose_some {state mirror : State V} (h : Mirrors keep f state mirror) {key : V}
    {cases : Cases φ} {case : Case (Body φ)} (kept : ∀ r ∈ Instruction.demandsCases cases, keep r)
    (chosen : meaning.choose state.registers key cases = some (some case)) :
    meaning.choose mirror.registers key
        (Instruction.renameCases f (Instruction.pruneCases keep cases)) =
      some (some (case.restrict keep f)) ∧ ∀ r ∈ case.demands, keep r := by
  rw [renameCases_pruneCases, h.choose meaning key cases kept, chosen]
  exact ⟨rfl, fun r m => kept r (Case.demands_subset (Meaning.mem_of_choose chosen) m)⟩

theorem Executes.not_isEmpty {body : Body φ} {state final : State V} {completion : Completion}
    (run : Executes meaning (Instruction.renameBody f body) state completion final)
    (abrupt : completion ≠ .normal) : ¬ body.isEmpty := by
  intro empty
  rw [List.isEmpty_iff.mp empty] at run
  cases run
  exact abrupt rfl

/-- A run of a body has a mirror in every body that keeps all that is demanded. -/
theorem Executes.restrict (injective : ∀ a b, keep a → keep b → f a = f b → a = b)
    {body : Body φ} {state final mirror : State V} {completion : Completion}
    (run : Executes meaning body state completion final)
    (kept : ∀ r ∈ Instruction.demandsBody body, keep r) (h : Mirrors keep f state mirror) :
    ∃ final', Executes meaning (Instruction.renameBody f (Instruction.pruneBody keep body)) mirror
      completion final' ∧ Mirrors keep f final final' := by
  induction run generalizing mirror with
  | nil => exact ⟨mirror, .nil, h⟩
  | @compute result operation rest state value _ _ computed _ ih =>
    obtain ⟨operandsKept, restKept⟩ := List.forall_mem_append.mp kept
    rw [Instruction.pruneBody_compute]
    by_cases live : keep result
    · obtain ⟨final', run', mirrors⟩ := ih restKept (h.write injective live value)
      have computed' := (h.compute meaning operation operandsKept).trans computed
      rw [if_pos live]
      exact ⟨final', .compute computed' run', mirrors⟩
    · rw [if_neg live]
      exact ih restKept (h.write_dead live value)
  | @call result callee arguments rest state function values _ _ called given _ ih =>
    simp only [Instruction.demandsBody, Instruction.demands, List.forall_mem_append,
      List.forall_mem_cons] at kept
    obtain ⟨⟨resultKept, calleeKept, argumentsKept⟩, restKept⟩ := kept
    have called' := (h.registers callee calleeKept).trans called
    have given' := (h.mapM arguments argumentsKept).trans given
    have recorded := h.record function values
    obtain ⟨final', run', mirrors⟩ := ih restKept (recorded.write injective resultKept _)
    rw [← recorded.trace] at run'
    exact ⟨final', .call called' given' run', mirrors⟩
  | @select result key cases rest state value case _ yield _ _ found chosen _ yields _ ihAction
      ihRest =>
    simp only [Instruction.demandsBody, Instruction.demands, List.forall_mem_append,
      List.forall_mem_cons] at kept
    obtain ⟨⟨resultKept, keyKept, casesKept⟩, restKept⟩ := kept
    obtain ⟨chosen', caseKept⟩ := h.choose_some casesKept chosen
    simp only [Case.demands, List.forall_mem_append, List.forall_mem_cons] at caseKept
    obtain ⟨⟨guardKept, valueKept⟩, actionKept⟩ := caseKept
    obtain ⟨inner', action', innerMirrors⟩ :=
      ihAction actionKept (h.enter meaning injective value guardKept)
    have yields' := (innerMirrors.yielded meaning valueKept).trans yields
    obtain ⟨final', rest', mirrors⟩ :=
      ihRest restKept (innerMirrors.write injective resultKept yield)
    have found' := (h.registers key keyKept).trans found
    exact ⟨final', .select found' chosen' action' yields' rest', mirrors⟩
  | @interrupt result key cases rest state value case _ inner found chosen _ abrupt ih =>
    simp only [Instruction.demandsBody, Instruction.demands, List.forall_mem_append,
      List.forall_mem_cons] at kept
    obtain ⟨⟨_, keyKept, casesKept⟩, _⟩ := kept
    obtain ⟨chosen', caseKept⟩ := h.choose_some casesKept chosen
    simp only [Case.demands, List.forall_mem_append, List.forall_mem_cons] at caseKept
    obtain ⟨⟨guardKept, _⟩, actionKept⟩ := caseKept
    obtain ⟨inner', action', mirrors⟩ :=
      ih actionKept (h.enter meaning injective value guardKept)
    have found' := (h.registers key keyKept).trans found
    exact ⟨inner', .interrupt found' chosen' action' abrupt, mirrors⟩
  | @exhaust result key cases rest state value found chosen =>
    simp only [Instruction.demandsBody, Instruction.demands, List.forall_mem_append,
      List.forall_mem_cons] at kept
    obtain ⟨⟨_, keyKept, casesKept⟩, _⟩ := kept
    have found' := (h.registers key keyKept).trans found
    refine ⟨mirror, .exhaust found' ?_, h⟩
    rw [renameCases_pruneCases, h.choose meaning value cases casesKept, chosen]
    rfl
  | @again body rest state inner _ _ _ _ ihBody ihRest =>
    obtain ⟨bodyKept, _⟩ := List.forall_mem_append.mp kept
    obtain ⟨inner', body', innerMirrors⟩ := ihBody bodyKept h
    obtain ⟨final', rest', mirrors⟩ := ihRest kept innerMirrors
    refine ⟨final', ?_, mirrors⟩
    rw [Instruction.pruneBody_loop] at rest' ⊢
    by_cases empty : (Instruction.pruneBody keep body).isEmpty
    · -- A round of a loop that disappears leaves the mirror as it is.
      rw [List.isEmpty_iff.mp empty] at body'
      cases body'
      exact rest'
    · rw [if_neg empty] at rest' ⊢
      exact .again body' rest'
  | @exit body rest state inner _ _ _ _ ihBody ihRest =>
    obtain ⟨bodyKept, restKept⟩ := List.forall_mem_append.mp kept
    obtain ⟨inner', body', innerMirrors⟩ := ihBody bodyKept h
    obtain ⟨final', rest', mirrors⟩ := ihRest restKept innerMirrors
    refine ⟨final', ?_, mirrors⟩
    rw [Instruction.pruneBody_loop, if_neg (body'.not_isEmpty (by decide))]
    exact .exit body' rest'
  | @abort body rest state inner _ ih =>
    obtain ⟨bodyKept, _⟩ := List.forall_mem_append.mp kept
    obtain ⟨inner', body', mirrors⟩ := ih bodyKept h
    refine ⟨inner', ?_, mirrors⟩
    rw [Instruction.pruneBody_loop, if_neg (body'.not_isEmpty (by decide))]
    exact .abort body'
  | leave => exact ⟨mirror, .leave, h⟩

namespace Function

theorem start_mirrors {function : Function φ} (covers : function.Covers keep)
    (meaning : Meaning φ V) (arguments : List V) :
    Mirrors keep (rank keep) (function.start meaning arguments)
      ((function.restrict keep).start meaning arguments) where
  registers r _ := by
    by_cases parameter : r < function.parameterCount
    · have same : rank keep r = r := rank_parameters covers (Nat.le_of_lt parameter)
      simp [start, restrict, same]
    · have above : function.parameterCount ≤ rank keep r :=
        rank_parameters covers (Nat.le_refl _) ▸ rank_mono (Nat.le_of_not_lt parameter)
      simp [start, restrict, parameter, Nat.not_lt.mpr above]
  trace := rfl

theorem Terminates.restrict {function : Function φ} {arguments : List V} {outcome : Outcome V}
    {trace : Trace V} (h : function.Terminates meaning arguments outcome trace)
    (covers : function.Covers keep) :
    (function.restrict keep).Terminates meaning arguments outcome trace := by
  obtain ⟨returnKept, bodyKept⟩ := List.forall_mem_cons.mp covers.demands
  have injective : ∀ a b, keep a → keep b → rank keep a = rank keep b → a = b := fun _ _ =>
    rank_injective
  have started := start_mirrors covers meaning arguments
  cases h with
  | returned run value =>
    obtain ⟨final', run', mirrors⟩ := run.restrict injective bodyKept started
    rw [← mirrors.trace]
    exact .returned run' ((mirrors.registers _ returnKept).trans value)
  | failed run =>
    obtain ⟨final', run', mirrors⟩ := run.restrict injective bodyKept started
    rw [← mirrors.trace]
    exact .failed run'

/-- Dead code elimination preserves meaning: on a verified function it succeeds, and where the
function terminates, its result terminates in the same way with the same calls, and in no other. -/
theorem removeDeadCode_preserves_meaning (program : Program) (function : Function FunctionId)
    (verified : function.verify program = .ok ()) (meaning : Meaning FunctionId V)
    (arguments : List V) (outcome : Outcome V) (trace : Trace V)
    (run : function.Terminates meaning arguments outcome trace) :
    ∃ reduced stats, function.removeDeadCode.outcome = .ok (reduced, stats) ∧
      ∀ outcome' trace', reduced.Terminates meaning arguments outcome' trace' ↔
        outcome' = outcome ∧ trace' = trace := by
  have checked := verify_eq_ok_iff.mp verified
  obtain ⟨stats, equation⟩ := removeDeadCode_of_check checked
  have run' : function.reduced.Terminates meaning arguments outcome trace :=
    reduced_run (P := fun function => function.Terminates meaning arguments outcome trace) checked
      (fun layer _ run => run.restrict (covers_keeps layer)) run
  refine ⟨function.reduced, stats, equation, fun outcome' trace' => ⟨fun other => ?_, ?_⟩⟩
  · exact other.unique run'
  · rintro ⟨rfl, rfl⟩
    exact run'

/-- Calls until the answer is a value of the first element; what is computed after the loop
from the result is dead, in two layers. -/
def polling : Function FunctionId where
  name := "main"
  parameterCount := 2
  registerCount := 10
  returnValue := 7
  registerNames := List.replicate 10 none
  body :=
    [.loop
      [.call 2 1 [0], .compute 3 (.tuple [2, 0]),
        .select 4 2 [⟨.element ⟨0, 0⟩ 5, [.leave], none⟩,
          ⟨.equals 0, [.compute 6 (.tuple [3, 3])], some 6⟩]],
      .compute 7 (.tuple [0, 1]), .compute 8 (.member 7 0), .compute 9 (.tuple [8])]

/-- Numbers as values. The first call is answered by 4, the second by a value of the first
element. -/
def counting : Meaning FunctionId Nat where
  undefined := 0
  literal _ _ := 0
  tuple := List.sum
  member _ value := value
  construct _ _ value := value
  global := 0
  equals key other := key == other
  isElement which value := which.which + 1 == value
  payload _ value := value + 7
  answer trace := 7 - 3 * trace.length

theorem removeDeadCode_preserves_meaning_polling :
    polling.verify Program.sample = .ok () ∧
      polling.Terminates counting [4, 5] (.returned 9) [(5, [4]), (5, [4])] ∧
      ∃ reduced stats, polling.removeDeadCode.outcome = .ok (reduced, stats) ∧
        ∀ outcome trace, reduced.Terminates counting [4, 5] outcome trace ↔
          outcome = .returned 9 ∧ trace = [(5, [4]), (5, [4])] := by
  have body : ∃ final,
      Executes counting polling.body (polling.start counting [4, 5]) .normal final ∧
      final.registers polling.returnValue = some 9 ∧ final.trace = [(5, [4]), (5, [4])] :=
    ⟨_, .again (.call rfl rfl (.compute rfl (.select rfl rfl (.compute rfl .nil) rfl .nil)))
      (.exit (.call rfl rfl (.compute rfl (.interrupt rfl rfl .leave (by decide))))
        (.compute rfl (.compute rfl (.compute rfl .nil)))), rfl, rfl⟩
  obtain ⟨final, run, value, calls⟩ := body
  have terminates : polling.Terminates counting [4, 5] (.returned 9) [(5, [4]), (5, [4])] :=
    calls ▸ .returned run value
  have verified : polling.verify Program.sample = .ok () := rfl
  exact ⟨verified, terminates,
    removeDeadCode_preserves_meaning _ _ verified _ _ _ _ terminates⟩

end Function

end RegisterIR
