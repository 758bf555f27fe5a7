import RegisterIR.Reachability
import RegisterIR.Proofs.VerifiedPruning

/-! Dropping unreachable functions. The marks are closed under references, so every function that a
kept one refers to is kept as well, and its new number is in the new table. Relabelling along such
numbers leads from verified functions to verified functions. -/

namespace RegisterIR

/-- What the search makes of the marks. Each function that it marks has been followed: all that the
function refers to is marked, too. -/
structure Program.Marks (program : Program) (used : List Bool) (worklist : List FunctionId)
    (used' : List Bool) : Prop where
  length : used'.length = used.length
  grows : ∀ id : FunctionId, used[id]? = some true → used'[id]? = some true
  listed : ∀ id ∈ worklist, used'[id]? = some true
  closed : ∀ {id : FunctionId} {function : Function FunctionId}, used'[id]? = some true →
    program.functions[id]? = some function →
    used[id]? = some true ∨ ∀ callee ∈ function.functions, used'[callee]? = some true

theorem Program.marks_of_mark {program : Program} {used used' : List Bool}
    {worklist : List FunctionId} (h : program.mark used worklist = .ok used') :
    program.Marks used worklist used' := by
  fun_induction mark program used worklist with
  | case1 used =>
    obtain rfl := Except.ok.inj h
    exact ⟨rfl, fun _ => id, by simp, fun marked _ => .inl marked⟩
  | case2 used id worklist beyond => cases h
  | case3 used id worklist seen ih =>
    obtain ⟨length, grows, listed, closed⟩ := ih h
    exact ⟨length, grows, List.forall_mem_cons.mpr ⟨grows id seen, listed⟩, closed⟩
  | case4 used id worklist unseen ih =>
    obtain ⟨function, found, later⟩ := bind_eq_ok_iff.mp h
    obtain ⟨length, grows, listed, closed⟩ := ih function later
    obtain ⟨callees, rest⟩ := List.forall_mem_append.mp listed
    have first : (used.set id true)[id]? = some true :=
      List.getElem?_set_self (List.getElem?_eq_some_iff.mp unseen).1
    have other : ∀ {old : FunctionId}, old ≠ id → (used.set id true)[old]? = used[old]? :=
      fun differs => List.getElem?_set_ne differs.symm
    refine ⟨length.trans List.length_set, fun old marked => ?_,
      List.forall_mem_cons.mpr ⟨grows id first, rest⟩, fun {old called} marked entry => ?_⟩
    · refine grows old ((other ?_).trans marked)
      rintro rfl
      rw [unseen] at marked
      cases marked
    · by_cases same : old = id
      · subst same
        obtain rfl := Option.some.inj ((entry_eq_ok_iff.mp found).symm.trans entry)
        exact .inr fun callee refers => callees callee (List.mem_reverse.mpr refers)
      · rw [← other same]
        exact closed marked entry

section Relabel

variable {φ ψ : Type} (f : φ → ψ)

@[simp] theorem Operation.operands_relabel (operation : Operation φ) :
    (operation.relabel f).operands = operation.operands := by
  cases operation <;> rfl

namespace Instruction

mutual

theorem definitions_relabel : ∀ instruction : Instruction φ,
    (instruction.relabel f).definitions = instruction.definitions
  | compute .. => by simp [relabel, definitions]
  | call .. => by simp [relabel, definitions]
  | select result key cases => by simp [relabel, definitions, definitionsCases_relabel cases]
  | loop body => by simp [relabel, definitions, definitionsBody_relabel body]
  | leave => by simp [relabel, definitions]

theorem definitionsBody_relabel : ∀ body : Body φ,
    definitionsBody (relabelBody f body) = definitionsBody body
  | [] => rfl
  | instruction :: body => by
    simp [relabelBody, definitionsBody, definitions_relabel instruction,
      definitionsBody_relabel body]

theorem definitionsCases_relabel : ∀ cases : Cases φ,
    definitionsCases (relabelCases f cases) = definitionsCases cases
  | [] => rfl
  | ⟨guard, action, value⟩ :: cases => by
    simp [relabelCases, definitionsCases, definitionsBody_relabel action,
      definitionsCases_relabel cases]

end

end Instruction

end Relabel

namespace Surroundings

open Instruction

variable {surroundings other : Surroundings} {f : FunctionId → FunctionId}

structure SameTables (surroundings other : Surroundings) : Prop where
  enums : surroundings.enums = other.enums
  registerCount : surroundings.registerCount = other.registerCount

theorem SameTables.readable (same : surroundings.SameTables other) {scope : Scope}
    {registers : List Register} (h : surroundings.Readable scope registers) :
    other.Readable scope registers := fun r member =>
  ⟨same.registerCount ▸ (h r member).1, (h r member).2⟩

theorem SameTables.define (same : surroundings.SameTables other) {scope after : Scope}
    {register : Register} (h : surroundings.define scope register = .ok after) :
    other.define scope register = .ok after := by
  obtain ⟨inRange, new⟩ := define_eq_ok_iff.mp h
  exact define_eq_ok_iff.mpr ⟨same.registerCount ▸ inRange, new⟩

theorem SameTables.admits (same : surroundings.SameTables other) {scope : Scope} {guard : Guard}
    (h : surroundings.Admits scope guard) : other.Admits scope guard := by
  cases guard with
  | equals key => exact same.readable h
  | element which binding =>
    exact ⟨checkElement_congr same.enums which true ▸ h.1, same.registerCount ▸ h.2.1, h.2.2⟩

theorem SameTables.declares (same : surroundings.SameTables other)
    {operation : Operation FunctionId} (h : surroundings.Declares operation)
    (known : ∀ id ∈ operation.functions, f id < other.functionCount) :
    other.Declares (operation.relabel f) := by
  cases operation with
  | literal value type => exact value.checkLiteral_relabel same.enums known h
  | construct which state stateType => exact (checkElement_congr same.enums which true).symm.trans h
  | tuple => trivial
  | member => trivial
  | global => trivial

mutual

theorem verify_relabel (same : surroundings.SameTables other) :
    ∀ {inLoop : Bool} {scope after : Scope} (instruction : Instruction FunctionId),
    surroundings.verify inLoop scope instruction = .ok after →
    (∀ id ∈ instruction.functions, f id < other.functionCount) →
    other.verify inLoop scope (instruction.relabel f) = .ok after
  | _, _, _, .compute result operation, h, known => by
    obtain ⟨⟨declared, readable⟩, written⟩ := verify_compute.mp h
    refine verify_compute.mpr ⟨⟨same.declares declared known, ?_⟩, same.define written⟩
    rw [Operation.operands_relabel]
    exact same.readable readable
  | _, _, _, .call result callee arguments, h, _ => by
    obtain ⟨readable, written⟩ := verify_call.mp h
    exact verify_call.mpr ⟨same.readable readable, same.define written⟩
  | _, _, _, .select result key cases, h, known => by
    obtain ⟨readable, inner, chosen, written⟩ := verify_select.mp h
    exact verify_select.mpr ⟨same.readable readable, inner,
      verifyCases_relabel same cases chosen known, same.define written⟩
  | _, _, _, .loop body, h, known => by
    obtain ⟨inner, verified, rfl⟩ := verify_loop.mp h
    exact verify_loop.mpr ⟨inner, verifyBody_relabel same body verified known, rfl⟩
  | _, _, _, .leave, h, _ => verify_leave.mpr (verify_leave.mp h)

theorem verifyBody_relabel (same : surroundings.SameTables other) :
    ∀ {inLoop : Bool} {scope after : Scope} (body : Body FunctionId),
    surroundings.verifyBody inLoop scope body = .ok after →
    (∀ id ∈ functionsBody body, f id < other.functionCount) →
    other.verifyBody inLoop scope (relabelBody f body) = .ok after
  | _, _, _, [], h, _ => verifyBody_nil.mpr (verifyBody_nil.mp h)
  | _, _, _, instruction :: body, h, known => by
    obtain ⟨inner, first, rest⟩ := verifyBody_cons.mp h
    exact verifyBody_cons.mpr ⟨inner,
      verify_relabel same instruction first fun id m => known id (by simp [functionsBody, m]),
      verifyBody_relabel same body rest fun id m => known id (by simp [functionsBody, m])⟩

theorem verifyCases_relabel (same : surroundings.SameTables other) :
    ∀ {inLoop : Bool} {scope after : Scope} (cases : Cases FunctionId),
    surroundings.verifyCases inLoop scope cases = .ok after →
    (∀ id ∈ functionsCases cases, f id < other.functionCount) →
    other.verifyCases inLoop scope (relabelCases f cases) = .ok after
  | _, _, _, [], h, _ => verifyCases_nil.mpr (verifyCases_nil.mp h)
  | _, _, _, ⟨guard, action, value⟩ :: cases, h, known => by
    obtain ⟨admitted, inner, body, yielded, rest⟩ := verifyCases_cons.mp h
    refine verifyCases_cons.mpr ⟨same.admits admitted, inner, ?_, same.readable yielded, ?_⟩
    · exact verifyBody_relabel same action body fun id m => known id (by simp [functionsCases, m])
    · exact verifyCases_relabel same cases rest fun id m => known id (by simp [functionsCases, m])

end

mutual

theorem functions_of_verify : ∀ {inLoop : Bool} {scope after : Scope}
    (instruction : Instruction FunctionId),
    surroundings.verify inLoop scope instruction = .ok after →
    ∀ id ∈ instruction.functions, id < surroundings.functionCount
  | _, _, _, .compute result operation, h => by
    obtain ⟨⟨declared, _⟩, _⟩ := verify_compute.mp h
    cases operation with
    | literal value type => exact value.functions_of_checkLiteral declared
    | _ => simp [Instruction.functions, Operation.functions]
  | _, _, _, .call result callee arguments, _ => by simp [Instruction.functions]
  | _, _, _, .select result key cases, h => by
    obtain ⟨_, inner, chosen, _⟩ := verify_select.mp h
    exact functions_of_verifyCases cases chosen
  | _, _, _, .loop body, h => by
    obtain ⟨inner, verified, _⟩ := verify_loop.mp h
    exact functions_of_verifyBody body verified
  | _, _, _, .leave, _ => by simp [Instruction.functions]

theorem functions_of_verifyBody : ∀ {inLoop : Bool} {scope after : Scope} (body : Body FunctionId),
    surroundings.verifyBody inLoop scope body = .ok after →
    ∀ id ∈ functionsBody body, id < surroundings.functionCount
  | _, _, _, [], _ => by simp [functionsBody]
  | _, _, _, instruction :: body, h => by
    obtain ⟨inner, first, rest⟩ := verifyBody_cons.mp h
    intro id member
    exact (List.mem_append.mp member).elim (functions_of_verify instruction first id)
      (functions_of_verifyBody body rest id)

theorem functions_of_verifyCases : ∀ {inLoop : Bool} {scope after : Scope}
    (cases : Cases FunctionId), surroundings.verifyCases inLoop scope cases = .ok after →
    ∀ id ∈ functionsCases cases, id < surroundings.functionCount
  | _, _, _, [], _ => by simp [functionsCases]
  | _, _, _, ⟨guard, action, value⟩ :: cases, h => by
    obtain ⟨_, inner, body, _, rest⟩ := verifyCases_cons.mp h
    intro id member
    exact (List.mem_append.mp member).elim (functions_of_verifyBody action body id)
      (functions_of_verifyCases cases rest id)

end

end Surroundings

namespace Function

variable {program other : Program} {function : Function FunctionId}

theorem functions_of_check (h : function.check program = .ok ()) :
    ∀ id ∈ function.functions, id < program.functions.length := by
  obtain ⟨_, _, _, _, verified, _⟩ := check_eq_ok_iff.mp h
  exact Surroundings.functions_of_verifyBody function.body verified

/-- Relabelling into the table of another program with the same enums keeps a function verified. -/
theorem check_relabel {f : FunctionId → FunctionId} (enums : program.enums = other.enums)
    (h : function.check program = .ok ())
    (known : ∀ id ∈ function.functions, f id < other.functions.length) :
    (function.relabel f).check other = .ok () := by
  obtain ⟨names, fits, inRange, after, verified, returned⟩ := check_eq_ok_iff.mp h
  have same : (function.surroundings program).SameTables
      ((function.relabel f).surroundings other) := ⟨enums, rfl⟩
  exact check_eq_ok_iff.mpr ⟨names, fits, inRange, after,
    Surroundings.verifyBody_relabel same function.body verified known, returned⟩

theorem check_congr (enums : program.enums = other.enums)
    (length : program.functions.length = other.functions.length)
    (h : function.check program = .ok ()) : function.check other = .ok () := by
  have same : function.surroundings program = function.surroundings other := by
    rw [surroundings, surroundings, enums, length]
  rw [check_eq_ok_iff, same] at h
  exact check_eq_ok_iff.mpr h

theorem Compact.relabel {φ ψ : Type} {function : Function φ} (compact : function.Compact)
    (f : φ → ψ) : (function.relabel f).Compact := by
  simpa [Compact, definitions, Function.relabel, Instruction.definitionsBody_relabel] using compact

end Function

namespace Program

theorem verify_eq_ok_iff {program : Program} :
    program.verify = .ok () ↔ ∀ function ∈ program.functions, function.check program = .ok () := by
  have each : ∀ functions : List (Function FunctionId), program.verifyAll functions = .ok () ↔
      ∀ function ∈ functions, function.check program = .ok () := by
    intro functions
    induction functions with
    | nil => simp [verifyAll]
    | cons function functions ih =>
      rw [verifyAll, seq_eq_ok_iff, ih, List.forall_mem_cons, Function.verify_eq_ok_iff]
  exact each program.functions

def isMarked (program : Program) (id : FunctionId) : Bool :=
  match program.mark (List.replicate program.functions.length false) [0] with
  | .ok used => used[id]? == some true
  | .error _ => false

theorem isMarked_iff {program : Program} {id : FunctionId} :
    program.isMarked id ↔ ∃ used,
      program.mark (List.replicate program.functions.length false) [0] = .ok used ∧
        used[id]? = some true := by
  rw [isMarked]
  split <;> simp_all

def kept (program : Program) : List FunctionId :=
  (List.range program.functions.length).filter program.isMarked

def trimmed (program : Program) : Program :=
  { program with
    functions :=
      (program.kept.filterMap (program.functions[·]?)).map (.relabel program.kept.idxOf) }

theorem mem_kept_iff {program : Program} {id : FunctionId} :
    id ∈ program.kept ↔ id < program.functions.length ∧ program.isMarked id := by
  simp [kept]

/-- All that a marked function refers to is marked, and is in the table. -/
theorem mem_kept_of_functions {program : Program} {caller callee : FunctionId}
    {function : Function FunctionId} (stays : caller ∈ program.kept)
    (entry : program.functions[caller]? = some function) (refers : callee ∈ function.functions) :
    callee ∈ program.kept := by
  obtain ⟨used, marked, flag⟩ := isMarked_iff.mp (mem_kept_iff.mp stays).2
  have marks := marks_of_mark marked
  have flag' : used[callee]? = some true :=
    (marks.closed flag entry).resolve_left (by simp [List.getElem?_replicate]) callee refers
  have inside : callee < used.length := (List.getElem?_eq_some_iff.mp flag').1
  rw [marks.length, List.length_replicate] at inside
  exact mem_kept_iff.mpr ⟨inside, isMarked_iff.mpr ⟨used, marked, flag'⟩⟩

theorem length_trimmed (program : Program) :
    program.trimmed.functions.length = program.kept.length := by
  have present : ∀ id ∈ program.kept, (program.functions[id]?).isSome := by
    intro id member
    simpa using (mem_kept_iff.mp member).1
  rw [trimmed, List.length_map, List.length_filterMap_eq_countP, List.countP_eq_length.mpr present]

theorem mem_trimmed {program : Program} {function : Function FunctionId}
    (h : function ∈ program.trimmed.functions) :
    ∃ id original, id ∈ program.kept ∧ program.functions[id]? = some original ∧
      function = original.relabel program.kept.idxOf := by
  obtain ⟨original, found, rfl⟩ := List.mem_map.mp h
  obtain ⟨id, member, entry⟩ := List.mem_filterMap.mp found
  exact ⟨id, original, member, entry, rfl⟩

theorem verify_trimmed {program : Program} (h : program.verify = .ok ()) :
    program.trimmed.verify = .ok () := by
  refine verify_eq_ok_iff.mpr fun function member => ?_
  obtain ⟨id, original, stays, entry, rfl⟩ := mem_trimmed member
  have verified := verify_eq_ok_iff.mp h original (List.mem_of_getElem? entry)
  have enums : program.enums = program.trimmed.enums := rfl
  refine Function.check_relabel enums verified fun callee refers => ?_
  rw [length_trimmed, List.idxOf_lt_length_iff]
  exact mem_kept_of_functions stays entry refers

end Program

end RegisterIR
