import RegisterIR.Proofs.NestedInstructions
import RegisterIR.Proofs.VerifiedPruning

/-! Verification as a rule about places in the text. What is in sight at a place are the
parameters, the results of earlier instructions of the same sequence and of the sequences around it,
and the bindings of the cases around it. A function is verified exactly when every instruction obeys
the rules where it stands. -/

namespace RegisterIR

variable {φ : Type}

/-- The element exists, and it carries a payload exactly when `withState`. -/
def Program.HasElement (program : Program) (which : ElementRef) (withState : Bool) : Prop :=
  ∃ enumeration element, program.enums[which.enumeration]? = some enumeration ∧
    enumeration.elements[which.which]? = some element ∧ element.state.isSome = withState

/-- The functions and elements that a literal refers to, at any depth, are those of the program. -/
inductive Literal.Resolves (program : Program) : Literal FunctionId → Prop
  | unit : Resolves program unit
  | integer {value} : Resolves program (integer value)
  | string {content} : Resolves program (string content)
  | function {callee} : callee < program.functions.length → Resolves program (function callee)
  | element {which} : program.HasElement which false → Resolves program (element which)
  | wrapped {which state} : program.HasElement which true → Resolves program state →
      Resolves program (wrapped which state)
  | constructor {which} : program.HasElement which true → Resolves program (constructor which)
  | tuple {elements} : (∀ literal ∈ elements, Resolves program literal) →
      Resolves program (tuple elements)

def Operation.Resolves (program : Program) : Operation FunctionId → Prop
  | literal value _ => value.Resolves program
  | construct which _ _ => program.HasElement which true
  | _ => True

def Guard.Resolves (program : Program) : Guard → Prop
  | equals _ => True
  | element which _ => program.HasElement which true

namespace Instruction

def results (body : Body φ) : List Register := body.filterMap result?

/-- The registers that the instruction reads where it stands, which leaves out what its cases yield
at their ends. -/
def reads : Instruction φ → List Register
  | compute _ operation => operation.operands
  | call _ callee arguments => callee :: arguments
  | select _ key cases => key :: cases.flatMap fun case => case.guard.operands
  | loop _ => []
  | leave => []

def bindings : Instruction φ → List Register
  | select _ _ cases => cases.flatMap fun case => case.guard.bindings
  | _ => []

def mentions (instruction : Instruction φ) : List Register :=
  instruction.operands ++ instruction.result?.toList ++ instruction.bindings

end Instruction

namespace Function

open Instruction (results)

/-- The sequences of a function at any depth, each with the registers in sight where it starts and
with whether it lies in a loop. -/
inductive Sequence (function : Function φ) : List Register → Bool → Body φ → Prop
  | top : Sequence function (List.range function.parameterCount) false function.body
  | loop {outer inLoop before body rest} :
      Sequence function outer inLoop (before ++ .loop body :: rest) →
      Sequence function (outer ++ results before) true body
  | action {outer inLoop before result key cases rest case} :
      Sequence function outer inLoop (before ++ .select result key cases :: rest) → case ∈ cases →
      Sequence function (outer ++ results before ++ case.guard.bindings) inLoop case.action

/-- The instruction stands where the registers `seen` are in sight. -/
def Stands (function : Function φ) (seen : List Register) (inLoop : Bool)
    (instruction : Instruction φ) : Prop :=
  ∃ outer before rest, function.Sequence outer inLoop (before ++ instruction :: rest) ∧
    seen = outer ++ results before

structure WellFormed (program : Program) (function : Function FunctionId) : Prop where
  names : function.registerNames.length = function.registerCount
  parameters : function.parameterCount ≤ function.registerCount
  inRange : ∀ {seen inLoop instruction}, function.Stands seen inLoop instruction →
    ∀ r ∈ instruction.mentions, r < function.registerCount
  returnInRange : function.returnValue < function.registerCount
  once : function.definitions.Nodup
  seen : ∀ {seen inLoop instruction}, function.Stands seen inLoop instruction →
    ∀ r ∈ instruction.reads, r ∈ seen
  yielded : ∀ {seen inLoop result key cases},
    function.Stands seen inLoop (.select result key cases) → ∀ case ∈ cases, ∀ r ∈ case.value,
      r ∈ seen ++ case.guard.bindings ++ results case.action
  returned : function.returnValue ∈
    List.range function.parameterCount ++ results function.body
  leaves : ∀ {seen inLoop}, function.Stands seen inLoop .leave → inLoop = true
  operations : ∀ {seen inLoop result operation},
    function.Stands seen inLoop (.compute result operation) → operation.Resolves program
  guards : ∀ {seen inLoop result key cases},
    function.Stands seen inLoop (.select result key cases) →
    ∀ case ∈ cases, case.guard.Resolves program

end Function

namespace Instruction

theorem mem_results {body : Body φ} {r : Register} :
    r ∈ results body ↔ ∃ instruction ∈ body, instruction.result? = some r := List.mem_filterMap

theorem reads_subset_operands (instruction : Instruction φ) :
    instruction.reads ⊆ instruction.operands := by
  cases instruction with
  | select result key cases =>
    refine List.cons_subset_cons _ fun r member => ?_
    obtain ⟨case, chosen, read⟩ := List.mem_flatMap.mp member
    exact List.mem_flatMap.mpr ⟨case, chosen, List.mem_append_left _ read⟩
  | compute | call | loop | leave => exact List.Subset.refl _

theorem mem_definitions_or_demands {instruction : Instruction φ} {r : Register}
    (h : r ∈ instruction.mentions) : r ∈ instruction.definitions ∨ r ∈ instruction.demands := by
  cases instruction with
  | select result key cases =>
    refine .inr ((mem_demands_iff _).mpr ⟨_, List.mem_cons_self, ?_⟩)
    simp only [mentions, operands, result?, bindings, Option.toList_some, List.mem_append,
      List.mem_cons, List.mem_flatMap, List.not_mem_nil, or_false] at h
    simp only [ownDemands, anchors, List.mem_cons, List.mem_flatMap]
    rcases h with ((rfl | ⟨case, chosen, read | yielded⟩) | rfl) | ⟨case, chosen, bound⟩
    · simp
    · refine .inr (.inr ⟨case, chosen, .inl ?_⟩)
      cases guard : case.guard <;> simp_all [Guard.operands, Guard.register]
    · exact .inr (.inr ⟨case, chosen, .inr yielded⟩)
    · simp
    · refine .inr (.inr ⟨case, chosen, .inl ?_⟩)
      cases guard : case.guard <;> simp_all [Guard.bindings, Guard.register]
  | compute | call | loop | leave =>
    simp only [mentions, operands, result?, bindings, definitions, demands] at h ⊢
    grind

end Instruction

namespace Surroundings

variable {surroundings : Surroundings} {scope after : Scope} {inLoop : Bool}
  {instruction : Instruction FunctionId} {body before rest : Body FunctionId}
  {cases : Cases FunctionId} {case : Case (Body FunctionId)}

open Instruction (results)

theorem visible_verifyCases (h : surroundings.verifyCases inLoop scope cases = .ok after) :
    after.visible = scope.visible := by
  induction cases generalizing scope with
  | nil => rw [verifyCases_nil.mp h]
  | cons case cases ih =>
    obtain ⟨_, inner, _, _, later⟩ := verifyCases_cons.mp h
    rw [ih later, Scope.visible_close]

theorem visible_verify (h : surroundings.verify inLoop scope instruction = .ok after) :
    after.visible = instruction.result?.toList ++ scope.visible := by
  cases instruction with
  | compute result operation =>
    obtain ⟨_, _, rfl⟩ := define_eq_ok_iff.mp (verify_compute.mp h).2
    rfl
  | call result callee arguments =>
    obtain ⟨_, _, rfl⟩ := define_eq_ok_iff.mp (verify_call.mp h).2
    rfl
  | select result key cases =>
    obtain ⟨_, inner, chosen, defined⟩ := verify_select.mp h
    obtain ⟨_, _, rfl⟩ := define_eq_ok_iff.mp defined
    rw [Scope.visible_write, visible_verifyCases chosen]
    rfl
  | loop body =>
    obtain ⟨inner, _, rfl⟩ := verify_loop.mp h
    rfl
  | leave =>
    obtain ⟨_, rfl⟩ := verify_leave.mp h
    rfl

theorem mem_visible_verifyBody (h : surroundings.verifyBody inLoop scope body = .ok after)
    {r : Register} : r ∈ after.visible ↔ r ∈ scope.visible ∨ r ∈ results body := by
  induction body generalizing scope with
  | nil => simp [verifyBody_nil.mp h, results]
  | cons instruction body ih =>
    obtain ⟨inner, first, later⟩ := verifyBody_cons.mp h
    rw [ih later, visible_verify first]
    simp only [Instruction.mem_results, List.mem_append, Option.mem_toList,
      List.exists_mem_cons_iff]
    grind

/-- What verification establishes of one case. The scope in which its guard is met may hold more
written registers than that of the selection, never more in sight. -/
theorem exists_of_mem_cases (h : surroundings.verifyCases inLoop scope cases = .ok after)
    (member : case ∈ cases) :
    ∃ start inner, start.visible = scope.visible ∧ surroundings.Admits start case.guard ∧
      surroundings.verifyBody inLoop (case.guard.bindings.foldl Scope.write start) case.action =
        .ok inner ∧
      surroundings.Readable inner case.value.toList := by
  induction cases generalizing scope with
  | nil => exact absurd member List.not_mem_nil
  | cons head cases ih =>
    obtain ⟨admitted, inner, action, yielded, later⟩ := verifyCases_cons.mp h
    rcases List.mem_cons.mp member with rfl | member
    · exact ⟨scope, inner, rfl, admitted, action, yielded⟩
    · simpa only [Scope.visible_close] using ih later member

theorem visible_of_mem_reads (h : surroundings.verify inLoop scope instruction = .ok after)
    {r : Register} (read : r ∈ instruction.reads) : r ∈ scope.visible := by
  cases instruction with
  | compute result operation => exact ((verify_compute.mp h).1.2 r read).2
  | call result callee arguments => exact ((verify_call.mp h).1 r read).2
  | select result key cases =>
    obtain ⟨readable, inner, chosen, _⟩ := verify_select.mp h
    rcases List.mem_cons.mp read with rfl | tested
    · exact (readable r List.mem_cons_self).2
    · obtain ⟨case, member, operand⟩ := List.mem_flatMap.mp tested
      obtain ⟨start, _, same, admitted, _⟩ := exists_of_mem_cases chosen member
      cases guard : case.guard with
      | equals key =>
        rw [guard] at admitted operand
        exact same ▸ (admitted r operand).2
      | element which binding =>
        rw [guard] at operand
        exact absurd operand List.not_mem_nil
  | loop | leave => exact absurd read List.not_mem_nil

theorem exists_verify_at
    (h : surroundings.verifyBody inLoop scope (before ++ instruction :: rest) = .ok after) :
    ∃ here next, surroundings.verify inLoop here instruction = .ok next ∧
      ∀ r, r ∈ here.visible ↔ r ∈ scope.visible ∨ r ∈ results before := by
  obtain ⟨here, earlier, later⟩ := verifyBody_append.mp h
  obtain ⟨next, verified, _⟩ := verifyBody_cons.mp later
  exact ⟨here, next, verified, fun _ => mem_visible_verifyBody earlier⟩

theorem Advance.nodup_later {definitions demands later : List Register}
    (h : surroundings.Advance definitions demands scope after)
    (unique : ((definitions ++ later) ++ scope.written).Nodup) :
    (later ++ after.written).Nodup := by
  have moved : ((definitions ++ later) ++ scope.written).Perm (later ++ after.written) := by
    rw [List.append_assoc]
    exact (List.perm_append_comm_assoc _ _ _).trans (h.written.symm.append_left later)
  exact moved.nodup_iff.mp unique

end Surroundings

namespace Function

open Instruction (results definitionsBody definitionsCases)

variable {program : Program} {function : Function FunctionId}

section Tables

theorem checkElement_eq_ok_iff {which : ElementRef} {withState : Bool} :
    (function.surroundings program).checkElement which withState = .ok () ↔
      program.HasElement which withState := by
  unfold Surroundings.checkElement Program.HasElement surroundings
  cases program.enums[which.enumeration]? with
  | none => simp
  | some enumeration =>
    cases declared : enumeration.elements[which.which]? with
    | none => simp [declared]
    | some element =>
      cases state : element.state <;> cases withState <;> simp [declared, state]

mutual

theorem checkLiteral_eq_ok_iff : ∀ literal : Literal FunctionId,
    (function.surroundings program).checkLiteral literal = .ok () ↔ literal.Resolves program
  | .unit => iff_of_true rfl .unit
  | .integer _ => iff_of_true rfl .integer
  | .string _ => iff_of_true rfl .string
  | .function callee => by
    have known : (function.surroundings program).checkLiteral (.function callee) = .ok () ↔
        callee < program.functions.length := by
      rw [Surroundings.checkLiteral, surroundings]
      split <;> simp_all
    rw [known]
    exact ⟨.function, fun | .function h => h⟩
  | .element which => by
    rw [Surroundings.checkLiteral, checkElement_eq_ok_iff]
    exact ⟨.element, fun | .element h => h⟩
  | .wrapped which state => by
    rw [Surroundings.checkLiteral, seq_eq_ok_iff, checkElement_eq_ok_iff,
      checkLiteral_eq_ok_iff state]
    exact ⟨fun h => .wrapped h.1 h.2, fun | .wrapped h inner => ⟨h, inner⟩⟩
  | .constructor which => by
    rw [Surroundings.checkLiteral, checkElement_eq_ok_iff]
    exact ⟨.constructor, fun | .constructor h => h⟩
  | .tuple elements => by
    rw [Surroundings.checkLiteral, checkLiterals_eq_ok_iff elements]
    exact ⟨.tuple, fun | .tuple h => h⟩

theorem checkLiterals_eq_ok_iff : ∀ literals : List (Literal FunctionId),
    (function.surroundings program).checkLiterals literals = .ok () ↔
      ∀ literal ∈ literals, literal.Resolves program
  | [] => iff_of_true rfl (by simp)
  | literal :: literals => by
    rw [Surroundings.checkLiterals, seq_eq_ok_iff, checkLiteral_eq_ok_iff literal,
      checkLiterals_eq_ok_iff literals, List.forall_mem_cons]

end

theorem declares_iff {operation : Operation FunctionId} :
    (function.surroundings program).Declares operation ↔ operation.Resolves program := by
  cases operation with
  | literal value type => exact checkLiteral_eq_ok_iff value
  | construct which state type => exact checkElement_eq_ok_iff
  | tuple | member | global => exact Iff.rfl

end Tables

section Sound

variable {outer seen : List Register} {inLoop : Bool} {body : Body FunctionId}
  {instruction : Instruction FunctionId}

/-- Every sequence of a verified function is verified from a scope that sees what is in sight where
the sequence starts. -/
theorem Sequence.verified (h : function.check program = .ok ())
    (sequence : function.Sequence outer inLoop body) :
    ∃ scope after, (function.surroundings program).verifyBody inLoop scope body = .ok after ∧
      ∀ r, r ∈ scope.visible ↔ r ∈ outer := by
  induction sequence with
  | top =>
    obtain ⟨_, _, _, after, verified, _⟩ := check_eq_ok_iff.mp h
    exact ⟨_, after, verified, by simp [parameterScope_eq]⟩
  | loop _ ih =>
    obtain ⟨scope, after, verified, start⟩ := ih
    obtain ⟨here, next, stands, sight⟩ := Surroundings.exists_verify_at verified
    obtain ⟨inner, nested, _⟩ := Surroundings.verify_loop.mp stands
    exact ⟨here, inner, nested, fun r => by rw [sight, start, List.mem_append]⟩
  | action _ member ih =>
    obtain ⟨scope, after, verified, start⟩ := ih
    obtain ⟨here, next, stands, sight⟩ := Surroundings.exists_verify_at verified
    obtain ⟨_, _, chosen, _⟩ := Surroundings.verify_select.mp stands
    obtain ⟨entry, inner, same, _, nested, _⟩ := Surroundings.exists_of_mem_cases chosen member
    refine ⟨_, inner, nested, fun r => ?_⟩
    simp only [Scope.foldl_write, same, List.mem_append, List.mem_reverse, sight, start]
    exact or_comm

theorem Stands.verified (h : function.check program = .ok ())
    (stands : function.Stands seen inLoop instruction) :
    ∃ scope after, (function.surroundings program).verify inLoop scope instruction = .ok after ∧
      ∀ r, r ∈ scope.visible ↔ r ∈ seen := by
  obtain ⟨outer, before, rest, sequence, rfl⟩ := stands
  obtain ⟨scope, after, verified, start⟩ := sequence.verified h
  obtain ⟨here, next, stands, sight⟩ := Surroundings.exists_verify_at verified
  exact ⟨here, next, stands, fun r => by rw [sight, start, List.mem_append]⟩

theorem wellFormed_of_check (h : function.check program = .ok ()) :
    function.WellFormed program := by
  obtain ⟨names, parameters, returnInRange, after, verified, returned⟩ := check_eq_ok_iff.mp h
  refine ⟨names, parameters, ?inRange, returnInRange, nodup_definitions h, ?seen, ?yielded,
    ?returned, ?leaves, ?operations, ?guards⟩
  case inRange =>
    intro seen inLoop instruction stands r mentioned
    obtain ⟨scope, after, verified, _⟩ := stands.verified h
    have advance := Surroundings.advance_verify instruction verified
    rcases Instruction.mem_definitions_or_demands mentioned with defined | demanded
    · exact advance.defined r defined
    · exact advance.inRange r demanded
  case seen =>
    intro seen inLoop instruction stands r read
    obtain ⟨scope, after, verified, sight⟩ := stands.verified h
    exact (sight r).mp (Surroundings.visible_of_mem_reads verified read)
  case yielded =>
    intro seen inLoop result key cases stands case member r value
    obtain ⟨scope, after, verified, sight⟩ := stands.verified h
    obtain ⟨_, _, chosen, _⟩ := Surroundings.verify_select.mp verified
    obtain ⟨start, inner, same, _, action, yielded⟩ :=
      Surroundings.exists_of_mem_cases chosen member
    have visible := (yielded r (Option.mem_toList.mpr value)).2
    simp only [Surroundings.mem_visible_verifyBody action, Scope.foldl_write, same,
      List.mem_append, List.mem_reverse, sight] at visible ⊢
    exact visible.imp_left Or.symm
  case returned =>
    rw [Surroundings.mem_visible_verifyBody verified, parameterScope_eq] at returned
    simpa using returned
  case leaves =>
    intro seen inLoop stands
    obtain ⟨scope, after, verified, _⟩ := stands.verified h
    exact (Surroundings.verify_leave.mp verified).1
  case operations =>
    intro seen inLoop result operation stands
    obtain ⟨scope, after, verified, _⟩ := stands.verified h
    exact declares_iff.mp (Surroundings.verify_compute.mp verified).1.1
  case guards =>
    intro seen inLoop result key cases stands case member
    obtain ⟨scope, after, verified, _⟩ := stands.verified h
    obtain ⟨_, _, chosen, _⟩ := Surroundings.verify_select.mp verified
    obtain ⟨_, _, _, admitted, _⟩ := Surroundings.exists_of_mem_cases chosen member
    cases guard : case.guard with
    | equals key => trivial
    | element which binding =>
      rw [guard] at admitted
      exact checkElement_eq_ok_iff.mp admitted.1

end Sound

section Complete

variable {seen registers : List Register} {inLoop : Bool} {scope : Scope}
  {instruction : Instruction FunctionId} {r : Register}

theorem WellFormed.readable (h : function.WellFormed program)
    (stands : function.Stands seen inLoop instruction) (sight : seen ⊆ scope.visible)
    (read : registers ⊆ instruction.reads) :
    (function.surroundings program).Readable scope registers := fun r member =>
  have operand := Instruction.reads_subset_operands _ (read member)
  ⟨h.inRange stands r (List.mem_append_left _ (List.mem_append_left _ operand)),
    sight (h.seen stands r (read member))⟩

theorem WellFormed.defines (h : function.WellFormed program)
    (stands : function.Stands seen inLoop instruction) (writes : instruction.result? = some r)
    (new : r ∉ scope.written) :
    (function.surroundings program).define scope r = .ok (scope.write r) :=
  Surroundings.define_eq_ok_iff.mpr
    ⟨h.inRange stands r (by simp [Instruction.mentions, writes]), new, rfl⟩

theorem WellFormed.admits (h : function.WellFormed program) {result key : Register}
    {cases : Cases FunctionId} {case : Case (Body FunctionId)}
    (stands : function.Stands seen inLoop (.select result key cases)) (member : case ∈ cases)
    (sight : seen ⊆ scope.visible) (new : ∀ r ∈ case.guard.bindings, r ∉ scope.written) :
    (function.surroundings program).Admits scope case.guard := by
  have resolved := h.guards stands case member
  cases guard : case.guard with
  | equals tested =>
    refine h.readable stands sight fun r read => List.mem_cons_of_mem _ ?_
    exact List.mem_flatMap.mpr ⟨case, member, by rwa [guard]⟩
  | element which binding =>
    rw [guard] at resolved new
    have bound : binding ∈ Instruction.bindings (.select result key cases) :=
      List.mem_flatMap.mpr ⟨case, member, by simp [guard, Guard.bindings]⟩
    exact ⟨checkElement_eq_ok_iff.mpr resolved,
      h.inRange stands binding (List.mem_append_right _ bound), new binding List.mem_cons_self⟩

theorem WellFormed.yields (h : function.WellFormed program) {result key : Register}
    {cases : Cases FunctionId} {case : Case (Body FunctionId)} {inner : Scope}
    (stands : function.Stands seen inLoop (.select result key cases)) (member : case ∈ cases)
    (sight : seen ⊆ scope.visible)
    (action : (function.surroundings program).verifyBody inLoop
      (case.guard.bindings.foldl Scope.write scope) case.action = .ok inner) :
    (function.surroundings program).Readable inner case.value.toList := by
  intro r value
  have operand : r ∈ Instruction.operands (.select result key cases) :=
    List.mem_cons_of_mem _ (List.mem_flatMap.mpr ⟨case, member, List.mem_append_right _ value⟩)
  refine ⟨h.inRange stands r (List.mem_append_left _ (List.mem_append_left _ operand)), ?_⟩
  rw [Surroundings.mem_visible_verifyBody action, Scope.foldl_write]
  have yielded := h.yielded stands case member r (Option.mem_toList.mp value)
  grind

mutual

-- The scope may see more than is in sight, so one statement serves every place of a sequence.
theorem WellFormed.exists_verify (h : function.WellFormed program) :
    ∀ (instruction : Instruction FunctionId) {outer : List Register} {inLoop : Bool}
    {before rest : Body FunctionId} {scope : Scope},
    function.Sequence outer inLoop (before ++ instruction :: rest) →
    outer ++ results before ⊆ scope.visible → (instruction.definitions ++ scope.written).Nodup →
    ∃ after, (function.surroundings program).verify inLoop scope instruction = .ok after
  | .compute result operation, _, _, _, _, _, sequence, sight, unique => by
    have stands : function.Stands _ _ _ := ⟨_, _, _, sequence, rfl⟩
    exact ⟨_, Surroundings.verify_compute.mpr
      ⟨⟨declares_iff.mpr (h.operations stands), h.readable stands sight (List.Subset.refl _)⟩,
        h.defines stands rfl (List.nodup_cons.mp unique).1⟩⟩
  | .call result callee arguments, _, _, _, _, _, sequence, sight, unique => by
    have stands : function.Stands _ _ _ := ⟨_, _, _, sequence, rfl⟩
    exact ⟨_, Surroundings.verify_call.mpr ⟨h.readable stands sight (List.Subset.refl _),
      h.defines stands rfl (List.nodup_cons.mp unique).1⟩⟩
  | .select result key cases, _, _, _, _, _, sequence, sight, unique => by
    have stands : function.Stands _ _ _ := ⟨_, _, _, sequence, rfl⟩
    obtain ⟨fresh, unique⟩ := List.nodup_cons.mp unique
    obtain ⟨inner, chosen⟩ :=
      h.exists_verifyCases cases sequence (List.Subset.refl _) sight unique
    have advance := Surroundings.advance_verifyCases cases chosen
    exact ⟨_, Surroundings.verify_select.mpr ⟨h.readable stands sight (by simp [Instruction.reads]),
      inner, chosen, h.defines stands rfl (mt advance.written.mem_iff.mp fresh)⟩⟩
  | .loop body, _, _, _, _, _, sequence, sight, unique => by
    have start : function.Sequence _ true ([] ++ body) := sequence.loop
    obtain ⟨inner, nested⟩ := h.exists_verifyBody body start
      (by simpa [results] using sight) unique
    exact ⟨_, Surroundings.verify_loop.mpr ⟨inner, nested, rfl⟩⟩
  | .leave, _, _, _, _, scope, sequence, _, _ =>
    ⟨scope, Surroundings.verify_leave.mpr ⟨h.leaves ⟨_, _, _, sequence, rfl⟩, rfl⟩⟩
termination_by structural instruction => instruction

theorem WellFormed.exists_verifyBody (h : function.WellFormed program) :
    ∀ (body : Body FunctionId) {outer : List Register} {inLoop : Bool} {before : Body FunctionId}
    {scope : Scope}, function.Sequence outer inLoop (before ++ body) →
    outer ++ results before ⊆ scope.visible → (definitionsBody body ++ scope.written).Nodup →
    ∃ after, (function.surroundings program).verifyBody inLoop scope body = .ok after
  | [], _, _, _, scope, _, _, _ => ⟨scope, rfl⟩
  | instruction :: body, _, _, _, _, sequence, sight, unique => by
    have own := unique.sublist ((List.sublist_append_left instruction.definitions _).append_right _)
    obtain ⟨inner, first⟩ := h.exists_verify instruction sequence sight own
    have later := (Surroundings.advance_verify instruction first).nodup_later unique
    rw [List.append_cons] at sequence
    obtain ⟨after, rest⟩ := h.exists_verifyBody body sequence (by
      rw [Surroundings.visible_verify first]
      grind [results]) later
    exact ⟨after, Surroundings.verifyBody_cons.mpr ⟨inner, first, rest⟩⟩
termination_by structural body => body

theorem WellFormed.exists_verifyCases (h : function.WellFormed program) :
    ∀ (cases : Cases FunctionId) {outer : List Register} {inLoop : Bool}
    {before rest : Body FunctionId} {result key : Register} {all : Cases FunctionId}
    {scope : Scope},
    function.Sequence outer inLoop (before ++ .select result key all :: rest) → cases ⊆ all →
    outer ++ results before ⊆ scope.visible → (definitionsCases cases ++ scope.written).Nodup →
    ∃ after, (function.surroundings program).verifyCases inLoop scope cases = .ok after
  | [], _, _, _, _, _, _, _, scope, _, _, _, _ => ⟨scope, rfl⟩
  | ⟨guard, action, value⟩ :: cases, _, _, _, _, _, _, _, scope, sequence, among, sight,
    unique => by
    have stands : function.Stands _ _ _ := ⟨_, _, _, sequence, rfl⟩
    obtain ⟨member, among⟩ := List.cons_subset.mp among
    rw [Instruction.definitionsCases, List.append_assoc guard.bindings] at unique
    have bound := unique.sublist ((List.sublist_append_left guard.bindings _).append_right _)
    have admitted := h.admits stands member sight (List.disjoint_of_nodup_append bound)
    have entered := Surroundings.advance_enter admitted
    have unique := entered.nodup_later unique
    have own := unique.sublist
      ((List.sublist_append_left (definitionsBody action) _).append_right _)
    have start : function.Sequence _ _ ([] ++ action) := sequence.action member
    obtain ⟨inner, body⟩ := h.exists_verifyBody action start (by
      rw [Scope.foldl_write]
      grind [results]) own
    have later := (Surroundings.advance_verifyBody action body).nodup_later unique
    have outside : _ ⊆ (scope.close inner).visible := sight
    obtain ⟨after, rest⟩ := h.exists_verifyCases cases sequence among outside later
    exact ⟨after, Surroundings.verifyCases_cons.mpr
      ⟨admitted, inner, body, h.yields stands member sight body, rest⟩⟩
termination_by structural cases => cases

end

theorem WellFormed.check (h : function.WellFormed program) : function.check program = .ok () := by
  have start : function.Sequence _ false ([] ++ function.body) := .top
  have unique : (definitionsBody function.body ++ function.parameterScope.written).Nodup := by
    rw [parameterScope_eq]
    exact (List.perm_append_comm.trans ((List.reverse_perm _).append_right _)).nodup_iff.mpr h.once
  obtain ⟨after, verified⟩ := h.exists_verifyBody function.body start
    (by simp [parameterScope_eq, results]) unique
  refine check_eq_ok_iff.mpr ⟨h.names, h.parameters, h.returnInRange, after, verified, ?_⟩
  rw [Surroundings.mem_visible_verifyBody verified, parameterScope_eq]
  simpa using h.returned

end Complete

/-- A function is verified in a program exactly when it is well formed there. The check that keeps
its scope in tables of flags and counts loops has the same verdict, see `checkIn_eq` and
`checkIn_iff_wellFormed`. -/
theorem verify_iff_wellFormed (program : Program) (function : Function FunctionId) :
    function.verify program = .ok () ↔ function.WellFormed program :=
  verify_eq_ok_iff.trans ⟨wellFormed_of_check, WellFormed.check⟩

end Function

end RegisterIR
