import RegisterIR.Program.Verify
import RegisterIR.Proofs.Pruning
import Mathlib.Data.List.Nodup
import Mathlib.Data.List.Perm.Subperm

/-! What a verified body guarantees. Each check is first said as the facts it establishes. From
them follows that a verified body writes exactly its definitions, each of them once and in range,
and that every register it demands has been written. -/

namespace RegisterIR

namespace Scope

def write (scope : Scope) (register : Register) : Scope :=
  ⟨register :: scope.written, register :: scope.visible⟩

@[simp] theorem written_write (scope : Scope) (register : Register) :
    (scope.write register).written = register :: scope.written := rfl

@[simp] theorem visible_write (scope : Scope) (register : Register) :
    (scope.write register).visible = register :: scope.visible := rfl

theorem foldl_write (scope : Scope) (registers : List Register) :
    registers.foldl write scope =
      ⟨registers.reverse ++ scope.written, registers.reverse ++ scope.visible⟩ := by
  induction registers generalizing scope with
  | nil => rfl
  | cons register registers ih => simp [ih]

@[simp] theorem written_close (outer inner : Scope) : (outer.close inner).written = inner.written :=
  rfl

@[simp] theorem visible_close (outer inner : Scope) : (outer.close inner).visible = outer.visible :=
  rfl

end Scope

namespace Surroundings

variable {surroundings : Surroundings} {scope after : Scope} {inLoop : Bool}

theorem checkRange_eq_ok_iff {register : Register} :
    surroundings.checkRange register = .ok () ↔ register < surroundings.registerCount := by
  unfold checkRange
  split <;> simp_all

theorem define_eq_ok_iff {register : Register} :
    surroundings.define scope register = .ok after ↔
      register < surroundings.registerCount ∧ register ∉ scope.written ∧
        after = scope.write register := by
  simp only [define, seq_eq_ok_iff, checkRange_eq_ok_iff, Scope.write]
  by_cases h : register ∈ scope.written <;> simp [h, eq_comm]

theorem defineAll_eq_ok {registers : List Register} (unique : registers.Nodup)
    (new : ∀ r ∈ registers, r < surroundings.registerCount ∧ r ∉ scope.written) :
    surroundings.defineAll scope registers = .ok (registers.foldl Scope.write scope) := by
  induction registers generalizing scope with
  | nil => rfl
  | cons register registers ih =>
    obtain ⟨fresh, unique⟩ := List.nodup_cons.mp unique
    obtain ⟨inRange, unwritten⟩ := new register (by simp)
    have first := define_eq_ok_iff.mpr ⟨inRange, unwritten, rfl⟩
    rw [defineAll, first]
    refine ih unique fun r member => ?_
    have later := new r (by simp [member])
    have other : r ≠ register := fun h => fresh (h ▸ member)
    exact ⟨later.1, by simp [other, later.2]⟩

def Readable (surroundings : Surroundings) (scope : Scope) (registers : List Register) : Prop :=
  ∀ r ∈ registers, r < surroundings.registerCount ∧ r ∈ scope.visible

theorem read_eq_ok_iff {register : Register} :
    surroundings.read scope register = .ok () ↔ surroundings.Readable scope [register] := by
  simp only [read, seq_eq_ok_iff, checkRange_eq_ok_iff, Readable, List.mem_singleton, forall_eq]
  by_cases h : register ∈ scope.visible <;> simp [h]

theorem readAll_eq_ok_iff {registers : List Register} :
    surroundings.readAll scope registers = .ok () ↔ surroundings.Readable scope registers := by
  induction registers with
  | nil => simp [readAll, Readable]
  | cons register registers ih =>
    simp only [readAll, seq_eq_ok_iff, read_eq_ok_iff, ih]
    simp [Readable]

def Declares (surroundings : Surroundings) : Operation FunctionId → Prop
  | .literal value _ => surroundings.checkLiteral value = .ok ()
  | .construct which _ _ => surroundings.checkElement which true = .ok ()
  | _ => True

theorem checkOperation_eq_ok_iff {operation : Operation FunctionId} :
    surroundings.checkOperation scope operation = .ok () ↔
      surroundings.Declares operation ∧ surroundings.Readable scope operation.operands := by
  cases operation <;>
    simp [checkOperation, Declares, Operation.operands, readAll_eq_ok_iff, read_eq_ok_iff,
      seq_eq_ok_iff, Readable]

def Admits (surroundings : Surroundings) (scope : Scope) : Guard → Prop
  | .equals key => surroundings.Readable scope [key]
  | .element which binding => surroundings.checkElement which true = .ok () ∧
      binding < surroundings.registerCount ∧ binding ∉ scope.written

theorem enterCase_eq_ok_iff {guard : Guard} :
    surroundings.enterCase scope guard = .ok after ↔
      surroundings.Admits scope guard ∧ after = guard.bindings.foldl Scope.write scope := by
  cases guard with
  | equals key =>
    rw [enterCase, seq_eq_ok_iff, read_eq_ok_iff]
    simp [Admits, Guard.bindings, pure, Except.pure, eq_comm (a := scope)]
  | element which binding =>
    simp [enterCase, Admits, seq_eq_ok_iff, define_eq_ok_iff, Guard.bindings, and_assoc]

section Steps

variable {result key callee : Register} {operation : Operation FunctionId}
  {arguments : List Register} {cases : Cases FunctionId} {body : Body FunctionId}
  {instruction : Instruction FunctionId} {guard : Guard} {action : Body FunctionId}
  {value : Option Register}

theorem verify_compute :
    surroundings.verify inLoop scope (.compute result operation) = .ok after ↔
      (surroundings.Declares operation ∧ surroundings.Readable scope operation.operands) ∧
        surroundings.define scope result = .ok after := by
  change (do
    surroundings.checkOperation scope operation
    surroundings.define scope result) = .ok after ↔ _
  rw [seq_eq_ok_iff, checkOperation_eq_ok_iff]

theorem verify_call :
    surroundings.verify inLoop scope (.call result callee arguments) = .ok after ↔
      surroundings.Readable scope (callee :: arguments) ∧
        surroundings.define scope result = .ok after := by
  change (do
    surroundings.readAll scope (callee :: arguments)
    surroundings.define scope result) = .ok after ↔ _
  rw [seq_eq_ok_iff, readAll_eq_ok_iff]

theorem verify_select :
    surroundings.verify inLoop scope (.select result key cases) = .ok after ↔
      surroundings.Readable scope [key] ∧
        ∃ inner, surroundings.verifyCases inLoop scope cases = .ok inner ∧
          surroundings.define inner result = .ok after := by
  change (do
    surroundings.read scope key
    let inner ← surroundings.verifyCases inLoop scope cases
    surroundings.define inner result) = .ok after ↔ _
  rw [seq_eq_ok_iff, bind_eq_ok_iff, read_eq_ok_iff]

theorem verify_loop :
    surroundings.verify inLoop scope (.loop body) = .ok after ↔
      ∃ inner, surroundings.verifyBody true scope body = .ok inner ∧ after = scope.close inner := by
  change (do
    let inner ← surroundings.verifyBody true scope body
    pure (scope.close inner)) = .ok after ↔ _
  simp only [bind_eq_ok_iff, pure, Except.pure, Except.ok.injEq, eq_comm (b := after)]

theorem verify_leave :
    surroundings.verify inLoop scope .leave = .ok after ↔ inLoop = true ∧ after = scope := by
  change (if inLoop then Except.ok scope else .error Violation.leaveOutsideLoop) =
    .ok after ↔ _
  cases inLoop <;> simp [eq_comm]

theorem verifyBody_nil : surroundings.verifyBody inLoop scope [] = .ok after ↔ after = scope := by
  change Except.ok scope = .ok after ↔ _
  rw [Except.ok.injEq, eq_comm]

theorem verifyBody_cons :
    surroundings.verifyBody inLoop scope (instruction :: body) = .ok after ↔
      ∃ inner, surroundings.verify inLoop scope instruction = .ok inner ∧
        surroundings.verifyBody inLoop inner body = .ok after := by
  change (do
    let inner ← surroundings.verify inLoop scope instruction
    surroundings.verifyBody inLoop inner body) = .ok after ↔ _
  rw [bind_eq_ok_iff]

theorem verifyCases_nil :
    surroundings.verifyCases inLoop scope [] = .ok after ↔ after = scope := by
  change Except.ok scope = .ok after ↔ _
  rw [Except.ok.injEq, eq_comm]

theorem verifyCases_cons :
    surroundings.verifyCases inLoop scope (⟨guard, action, value⟩ :: cases) = .ok after ↔
      surroundings.Admits scope guard ∧
        ∃ inner, surroundings.verifyBody inLoop (guard.bindings.foldl Scope.write scope) action =
            .ok inner ∧
          surroundings.Readable inner value.toList ∧
          surroundings.verifyCases inLoop (scope.close inner) cases = .ok after := by
  change (do
    let inner ← surroundings.enterCase scope guard
    let inner ← surroundings.verifyBody inLoop inner action
    surroundings.readAll inner value.toList
    surroundings.verifyCases inLoop (scope.close inner) cases) = .ok after ↔ _
  rw [bind_eq_ok_iff]
  simp only [enterCase_eq_ok_iff, and_assoc, exists_and_left, exists_eq_left]
  rw [bind_eq_ok_iff]
  simp only [seq_eq_ok_iff, readAll_eq_ok_iff]

end Steps

/-- What is known after part of a function has been verified: the registers it writes are new and
in range, and those it demands have been written. -/
structure Advance (surroundings : Surroundings) (definitions demands : List Register)
    (scope after : Scope) : Prop where
  written : after.written.Perm (definitions ++ scope.written)
  nodup : scope.written.Nodup → after.written.Nodup
  visible : scope.visible ⊆ scope.written → after.visible ⊆ after.written
  defined : ∀ r ∈ definitions, r < surroundings.registerCount
  inRange : ∀ r ∈ demands, r < surroundings.registerCount
  demanded : scope.visible ⊆ scope.written → demands ⊆ after.written

namespace Advance

variable {definitions definitions' demands demands' : List Register} {middle inner : Scope}

theorem written_subset (h : surroundings.Advance definitions demands scope after) :
    scope.written ⊆ after.written := fun _ member =>
  h.written.mem_iff.mpr (List.mem_append_right _ member)

theorem reading {registers : List Register} (h : surroundings.Readable scope registers) :
    surroundings.Advance [] registers scope scope where
  written := .refl _
  nodup := id
  visible := id
  defined := by simp
  inRange r member := (h r member).1
  demanded seen r member := seen (h r member).2

theorem refl : surroundings.Advance [] [] scope scope := .reading (by simp [Readable])

theorem defining {register : Register} (h : surroundings.define scope register = .ok after) :
    surroundings.Advance [register] [register] scope after := by
  obtain ⟨inRange, new, rfl⟩ := define_eq_ok_iff.mp h
  exact {
    written := .refl _
    nodup := fun unique => List.nodup_cons.mpr ⟨new, unique⟩
    visible := fun seen => List.cons_subset_cons _ seen
    defined := by simpa using inRange
    inRange := by simpa using inRange
    demanded := by simp }

theorem trans (first : surroundings.Advance definitions demands scope middle)
    (second : surroundings.Advance definitions' demands' middle after) :
    surroundings.Advance (definitions ++ definitions') (demands ++ demands') scope after where
  written := by
    have swapped := List.perm_append_comm_assoc definitions' definitions scope.written
    rw [List.append_assoc]
    exact second.written.trans ((first.written.append_left definitions').trans swapped)
  nodup unique := second.nodup (first.nodup unique)
  visible seen := second.visible (first.visible seen)
  defined r member := (List.mem_append.mp member).elim (first.defined r) (second.defined r)
  inRange r member := (List.mem_append.mp member).elim (first.inRange r) (second.inRange r)
  demanded seen := List.append_subset.mpr
    ⟨fun _ member => second.written_subset (first.demanded seen member),
      second.demanded (first.visible seen)⟩

theorem close (h : surroundings.Advance definitions demands scope inner) :
    surroundings.Advance definitions demands scope (scope.close inner) where
  written := h.written
  nodup := h.nodup
  visible seen _ member := h.written_subset (seen member)
  defined := h.defined
  inRange := h.inRange
  demanded := h.demanded

theorem congr (h : surroundings.Advance definitions demands scope after)
    (same : definitions.Perm definitions') (fewer : demands' ⊆ demands) :
    surroundings.Advance definitions' demands' scope after where
  written := h.written.trans (same.append_right _)
  nodup := h.nodup
  visible := h.visible
  defined r member := h.defined r (same.mem_iff.mpr member)
  inRange r member := h.inRange r (fewer member)
  demanded seen _ member := h.demanded seen (fewer member)

end Advance

theorem advance_enter {guard : Guard} (h : surroundings.Admits scope guard) :
    surroundings.Advance guard.bindings [guard.register] scope
      (guard.bindings.foldl Scope.write scope) := by
  cases guard with
  | equals key => exact .reading h
  | element which binding => exact .defining (define_eq_ok_iff.mpr ⟨h.2.1, h.2.2, rfl⟩)

mutual

theorem advance_verify : ∀ {inLoop : Bool} {scope after : Scope}
    (instruction : Instruction FunctionId),
    surroundings.verify inLoop scope instruction = .ok after →
    surroundings.Advance instruction.definitions instruction.demands scope after
  | _, _, _, .compute result operation, h => by
    obtain ⟨⟨_, readable⟩, defined⟩ := verify_compute.mp h
    exact ((Advance.reading readable).trans (.defining defined)).congr (.refl _)
      (List.subset_append_left _ _)
  | _, _, _, .call result callee arguments, h => by
    obtain ⟨readable, defined⟩ := verify_call.mp h
    refine ((Advance.reading readable).trans (.defining defined)).congr (.refl _) ?_
    exact List.cons_subset.mpr ⟨by simp, List.subset_append_left _ _⟩
  | _, _, _, .select result key cases, h => by
    obtain ⟨readable, inner, chosen, defined⟩ := verify_select.mp h
    refine (((Advance.reading readable).trans (advance_verifyCases cases chosen)).trans
      (.defining defined)).congr ?_ ?_
    · exact List.perm_append_comm
    · intro r member
      simp only [Instruction.demands, List.mem_cons] at member
      simp only [List.mem_append, List.mem_singleton]
      rcases member with own | key | inner
      · exact .inr own
      · exact .inl (.inl key)
      · exact .inl (.inr inner)
  | _, _, _, .loop body, h => by
    obtain ⟨inner, verified, rfl⟩ := verify_loop.mp h
    exact (advance_verifyBody body verified).close
  | _, _, _, .leave, h => by
    obtain ⟨_, rfl⟩ := verify_leave.mp h
    exact .refl

theorem advance_verifyBody : ∀ {inLoop : Bool} {scope after : Scope} (body : Body FunctionId),
    surroundings.verifyBody inLoop scope body = .ok after →
    surroundings.Advance (Instruction.definitionsBody body) (Instruction.demandsBody body)
      scope after
  | _, _, _, [], h => by
    rw [verifyBody_nil.mp h]
    exact .refl
  | _, _, _, instruction :: body, h => by
    obtain ⟨inner, first, rest⟩ := verifyBody_cons.mp h
    exact (advance_verify instruction first).trans (advance_verifyBody body rest)

theorem advance_verifyCases : ∀ {inLoop : Bool} {scope after : Scope} (cases : Cases FunctionId),
    surroundings.verifyCases inLoop scope cases = .ok after →
    surroundings.Advance (Instruction.definitionsCases cases) (Instruction.demandsCases cases)
      scope after
  | _, _, _, [], h => by
    rw [verifyCases_nil.mp h]
    exact .refl
  | _, _, _, ⟨guard, action, value⟩ :: cases, h => by
    obtain ⟨admitted, inner, body, yielded, rest⟩ := verifyCases_cons.mp h
    have first := ((advance_enter admitted).trans (advance_verifyBody action body)).trans
      (.reading yielded)
    refine (first.close.trans (advance_verifyCases cases rest)).congr (by
      simp [Instruction.definitionsCases]) ?_
    intro r member
    simp only [Instruction.demandsCases, List.cons_append, List.mem_cons, List.mem_append] at member
    simp only [List.mem_append, List.mem_singleton]
    rcases member with own | (yielded | inner) | later
    · exact .inl (.inl (.inl own))
    · exact .inl (.inr yielded)
    · exact .inl (.inl (.inr inner))
    · exact .inr later

end

end Surroundings

namespace Function

/-- The registers that a function writes, its parameters first, in the order of the text. -/
def definitions {φ : Type} (function : Function φ) : List Register :=
  List.range function.parameterCount ++ Instruction.definitionsBody function.body

def surroundings (program : Program) (function : Function FunctionId) : Surroundings :=
  ⟨program.enums, program.functions.length, function.registerCount⟩

def parameterScope {φ : Type} (function : Function φ) : Scope :=
  (List.range function.parameterCount).foldl Scope.write .empty

theorem parameterScope_eq {φ : Type} (function : Function φ) :
    function.parameterScope = ⟨(List.range function.parameterCount).reverse,
      (List.range function.parameterCount).reverse⟩ := by
  simp [parameterScope, Scope.foldl_write, Scope.empty]

variable {program : Program} {function : Function FunctionId}

theorem check_eq_ok_iff :
    function.check program = .ok () ↔
      function.registerNames.length = function.registerCount ∧
      function.parameterCount ≤ function.registerCount ∧
      function.returnValue < function.registerCount ∧
      ∃ after, (function.surroundings program).verifyBody false function.parameterScope
          function.body = .ok after ∧
        function.returnValue ∈ after.visible := by
  by_cases names : function.registerNames.length = function.registerCount
  · by_cases fits : function.parameterCount ≤ function.registerCount
    · have parameters : (function.surroundings program).defineAll .empty
          (List.range function.parameterCount) = .ok function.parameterScope :=
        Surroundings.defineAll_eq_ok List.nodup_range fun r member =>
          ⟨Nat.lt_of_lt_of_le (List.mem_range.mp member) fits, List.not_mem_nil⟩
      unfold surroundings at parameters ⊢
      rw [check]
      simp only [names, ne_eq, not_true_eq_false, if_false, Nat.not_lt.mpr fits, true_and, fits,
        seq_eq_ok_iff, Surroundings.checkRange_eq_ok_iff, parameters]
      rw [bind_eq_ok_iff]
      simp only [Except.ok.injEq, exists_eq_left', bind_eq_ok_iff]
      refine and_congr_right fun _ => exists_congr fun after => and_congr_right fun _ => ?_
      by_cases seen : function.returnValue ∈ after.visible <;>
        simp [seen, pure, Except.pure, throw, throwThe, MonadExceptOf.throw]
    · simp [check, names, fits, Nat.not_le.mp fits, seq_eq_ok_iff, throw, throwThe,
        MonadExceptOf.throw]
  · simp [check, names, seq_eq_ok_iff, throw, throwThe, MonadExceptOf.throw]

theorem verify_eq_ok_iff {program : Program} {function : Function FunctionId} :
    function.verify program = .ok () ↔ function.check program = .ok () := by
  rw [verify]
  cases function.check program <;> simp [Except.mapError]

theorem advance_of_check (h : function.check program = .ok ()) :
    ∃ after, (function.surroundings program).verifyBody false function.parameterScope
        function.body = .ok after ∧ function.returnValue ∈ after.visible ∧
      (function.surroundings program).Advance (Instruction.definitionsBody function.body)
        (Instruction.demandsBody function.body) function.parameterScope after := by
  obtain ⟨_, _, _, after, verified, returned⟩ := check_eq_ok_iff.mp h
  exact ⟨after, verified, returned, Surroundings.advance_verifyBody _ verified⟩

theorem nodup_definitions (h : function.check program = .ok ()) : function.definitions.Nodup := by
  obtain ⟨after, _, _, advance⟩ := advance_of_check h
  rw [parameterScope_eq] at advance
  have all := (advance.written.nodup_iff).mp
    (advance.nodup (List.nodup_reverse.mpr List.nodup_range))
  refine (List.Perm.nodup_iff ?_).mp all
  exact List.perm_append_comm.trans ((List.reverse_perm _).append_right _)

theorem demands_subset_definitions (h : function.check program = .ok ()) :
    function.demands ⊆ function.definitions := by
  obtain ⟨after, _, returned, advance⟩ := advance_of_check h
  rw [parameterScope_eq] at advance
  have written : ∀ r ∈ after.written, r ∈ function.definitions := by
    intro r member
    have parts := List.mem_append.mp (advance.written.mem_iff.mp member)
    rw [List.mem_reverse] at parts
    exact List.mem_append.mpr parts.symm
  have seen := List.Subset.refl (List.range function.parameterCount).reverse
  exact List.cons_subset.mpr ⟨written _ (advance.visible seen returned),
    fun r member => written r (advance.demanded seen member)⟩

theorem definitions_inRange (h : function.check program = .ok ()) :
    ∀ r ∈ function.definitions, r < function.registerCount := by
  obtain ⟨_, fits, _, _⟩ := check_eq_ok_iff.mp h
  obtain ⟨after, _, _, advance⟩ := advance_of_check h
  intro r member
  rcases List.mem_append.mp member with parameter | inner
  · exact Nat.lt_of_lt_of_le (List.mem_range.mp parameter) fits
  · exact advance.defined r inner

end Function

end RegisterIR
