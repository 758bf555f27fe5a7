import RegisterIR.DeadCode

/-! Bodies with computations taken out, and bodies with their registers renamed. What is written
and what is demanded follows both changes: taking out filters the definitions, and renaming maps
definitions and demands alike. -/

namespace RegisterIR

variable {φ : Type}

namespace Operation

def rename (f : Register → Register) : Operation φ → Operation φ
  | literal value type => literal value type
  | tuple elements => tuple (elements.map f)
  | member source index => member (f source) index
  | construct which state stateType => construct which (f state) stateType
  | global => global

@[simp] theorem operands_rename (f : Register → Register) (operation : Operation φ) :
    (operation.rename f).operands = operation.operands.map f := by
  cases operation <;> rfl

@[simp] theorem functions_rename (f : Register → Register) (operation : Operation φ) :
    (operation.rename f).functions = operation.functions := by
  cases operation <;> rfl

end Operation

namespace Guard

def bindings : Guard → List Register
  | equals _ => []
  | element _ binding => [binding]

def rename (f : Register → Register) : Guard → Guard
  | equals key => equals (f key)
  | element which binding => element which (f binding)

@[simp] theorem register_rename (f : Register → Register) (guard : Guard) :
    (guard.rename f).register = f guard.register := by
  cases guard <;> rfl

@[simp] theorem bindings_rename (f : Register → Register) (guard : Guard) :
    (guard.rename f).bindings = guard.bindings.map f := by
  cases guard <;> rfl

theorem mem_bindings {guard : Guard} {register : Register} (h : register ∈ guard.bindings) :
    register = guard.register := by
  cases guard <;> simp_all [bindings, Guard.register]

end Guard

namespace Instruction

mutual

/-- The registers that an instruction writes, with those written in its bodies, in the order of
the text. -/
def definitions : Instruction φ → List Register
  | compute result _ => [result]
  | call result _ _ => [result]
  | select result _ cases => result :: definitionsCases cases
  | loop body => definitionsBody body
  | leave => []

def definitionsBody : Body φ → List Register
  | [] => []
  | instruction :: body => instruction.definitions ++ definitionsBody body

def definitionsCases : Cases φ → List Register
  | [] => []
  | ⟨guard, action, _⟩ :: cases =>
    guard.bindings ++ definitionsBody action ++ definitionsCases cases

end

mutual

/-- What is left of an instruction when only the registers in `keep` are computed. A loop of which
nothing is left goes as well. -/
def prune (keep : Register → Bool) : Instruction φ → Option (Instruction φ)
  | compute result operation => if keep result then some (compute result operation) else none
  | call result callee arguments => some (call result callee arguments)
  | select result key cases => some (select result key (pruneCases keep cases))
  | loop body =>
    if (pruneBody keep body).isEmpty then none else some (loop (pruneBody keep body))
  | leave => some leave

def pruneBody (keep : Register → Bool) : Body φ → Body φ
  | [] => []
  | instruction :: body => (instruction.prune keep).toList ++ pruneBody keep body

def pruneCases (keep : Register → Bool) : Cases φ → Cases φ
  | [] => []
  | ⟨guard, action, value⟩ :: cases =>
    ⟨guard, pruneBody keep action, value⟩ :: pruneCases keep cases

end

mutual

def rename (f : Register → Register) : Instruction φ → Instruction φ
  | compute result operation => compute (f result) (operation.rename f)
  | call result callee arguments => call (f result) (f callee) (arguments.map f)
  | select result key cases => select (f result) (f key) (renameCases f cases)
  | loop body => loop (renameBody f body)
  | leave => leave

def renameBody (f : Register → Register) : Body φ → Body φ
  | [] => []
  | instruction :: body => instruction.rename f :: renameBody f body

def renameCases (f : Register → Register) : Cases φ → Cases φ
  | [] => []
  | ⟨guard, action, value⟩ :: cases =>
    ⟨guard.rename f, renameBody f action, value.map f⟩ :: renameCases f cases

end

section Append

variable (first second : Body φ)

@[simp] theorem definitionsBody_append :
    definitionsBody (first ++ second) = definitionsBody first ++ definitionsBody second := by
  induction first with
  | nil => rfl
  | cons instruction body ih => simp [definitionsBody, ih]

@[simp] theorem demandsBody_append :
    demandsBody (first ++ second) = demandsBody first ++ demandsBody second := by
  induction first with
  | nil => rfl
  | cons instruction body ih => simp [demandsBody, ih]

end Append

section Prune

variable {keep : Register → Bool}

theorem pruneBody_compute (result : Register) (operation : Operation φ) (body : Body φ) :
    pruneBody keep (compute result operation :: body) =
      if keep result then compute result operation :: pruneBody keep body
      else pruneBody keep body := by
  by_cases h : keep result <;> simp [pruneBody, prune, h]

theorem pruneBody_loop (inner body : Body φ) :
    pruneBody keep (loop inner :: body) =
      if (pruneBody keep inner).isEmpty then pruneBody keep body
      else loop (pruneBody keep inner) :: pruneBody keep body := by
  by_cases h : (pruneBody keep inner).isEmpty <;> simp [pruneBody, prune, h]

mutual

theorem definitions_prune : ∀ instruction : Instruction φ,
    (∀ r ∈ instruction.demands, keep r) →
    definitionsBody (instruction.prune keep).toList = instruction.definitions.filter keep
  | compute result operation, _ => by
    by_cases h : keep result <;> simp [prune, definitions, definitionsBody, h]
  | call result callee arguments, kept => by
    have := kept result (by simp [demands])
    simp [prune, definitions, definitionsBody, this]
  | select result key cases, kept => by
    have written := kept result (by simp [demands])
    have inner := definitionsCases_prune cases fun r h => kept r (by simp [demands, h])
    simp [prune, definitions, definitionsBody, written, inner]
  | loop body, kept => by
    have inner := definitionsBody_prune body fun r h => kept r (by simpa [demands] using h)
    by_cases h : (pruneBody keep body).isEmpty
    · have empty : pruneBody keep body = [] := by simpa using h
      simpa [prune, definitions, definitionsBody, empty] using inner
    · simpa [prune, definitions, definitionsBody, h] using inner
  | leave, _ => by simp [prune, definitions, definitionsBody]

theorem definitionsBody_prune : ∀ body : Body φ, (∀ r ∈ demandsBody body, keep r) →
    definitionsBody (pruneBody keep body) = (definitionsBody body).filter keep
  | [], _ => rfl
  | instruction :: body, kept => by
    have first := definitions_prune instruction fun r h => kept r (by simp [demandsBody, h])
    have rest := definitionsBody_prune body fun r h => kept r (by simp [demandsBody, h])
    simp [pruneBody, definitionsBody, first, rest]

theorem definitionsCases_prune : ∀ cases : Cases φ, (∀ r ∈ demandsCases cases, keep r) →
    definitionsCases (pruneCases keep cases) = (definitionsCases cases).filter keep
  | [], _ => rfl
  | ⟨guard, action, value⟩ :: cases, kept => by
    have bound : guard.bindings.filter keep = guard.bindings := by
      rw [List.filter_eq_self]
      intro r h
      rw [guard.mem_bindings h]
      exact kept _ (by simp [demandsCases])
    have first := definitionsBody_prune action fun r h => kept r (by simp [demandsCases, h])
    have rest := definitionsCases_prune cases fun r h => kept r (by simp [demandsCases, h])
    simp [pruneCases, definitionsCases, bound, first, rest]

end

mutual

theorem demands_prune_subset : ∀ instruction : Instruction φ,
    demandsBody (instruction.prune keep).toList ⊆ instruction.demands
  | compute result operation => by
    by_cases h : keep result <;> simp [prune, demands, demandsBody, h]
  | call result callee arguments => by simp [prune, demands, demandsBody]
  | select result key cases => by
    have inner := demandsCases_prune_subset cases
    simp only [prune, Option.toList_some, demandsBody, demands, List.append_nil]
    exact List.cons_subset_cons _ (List.cons_subset_cons _ inner)
  | loop body => by
    have inner := demandsBody_prune_subset body
    by_cases h : (pruneBody keep body).isEmpty
    · simp [prune, h, demandsBody]
    · simpa [prune, h, demandsBody, demands] using inner
  | leave => by simp [prune, demands, demandsBody]

theorem demandsBody_prune_subset : ∀ body : Body φ,
    demandsBody (pruneBody keep body) ⊆ demandsBody body
  | [] => by simp [pruneBody]
  | instruction :: body => by
    simp only [pruneBody, demandsBody_append, demandsBody]
    exact List.append_subset.mpr
      ⟨fun _ h => List.mem_append_left _ (demands_prune_subset instruction h),
        fun _ h => List.mem_append_right _ (demandsBody_prune_subset body h)⟩

theorem demandsCases_prune_subset : ∀ cases : Cases φ,
    demandsCases (pruneCases keep cases) ⊆ demandsCases cases
  | [] => by simp [pruneCases]
  | ⟨guard, action, value⟩ :: cases => by
    intro r h
    have first := @demandsBody_prune_subset action r
    have rest := @demandsCases_prune_subset cases r
    simp only [pruneCases, demandsCases, List.cons_append, List.mem_cons, List.mem_append] at h ⊢
    rcases h with own | (yielded | inner) | later
    · exact .inl own
    · exact .inr (.inl (.inl yielded))
    · exact .inr (.inl (.inr (first inner)))
    · exact .inr (.inr (rest later))

end

end Prune

section Rename

variable (f : Register → Register)

mutual

theorem definitions_rename : ∀ instruction : Instruction φ,
    (instruction.rename f).definitions = instruction.definitions.map f
  | compute .. => by simp [rename, definitions]
  | call .. => by simp [rename, definitions]
  | select result key cases => by simp [rename, definitions, definitionsCases_rename cases]
  | loop body => by simp [rename, definitions, definitionsBody_rename body]
  | leave => by simp [rename, definitions]

theorem definitionsBody_rename : ∀ body : Body φ,
    definitionsBody (renameBody f body) = (definitionsBody body).map f
  | [] => rfl
  | instruction :: body => by
    simp [renameBody, definitionsBody, definitions_rename instruction, definitionsBody_rename body]

theorem definitionsCases_rename : ∀ cases : Cases φ,
    definitionsCases (renameCases f cases) = (definitionsCases cases).map f
  | [] => rfl
  | ⟨guard, action, value⟩ :: cases => by
    simp [renameCases, definitionsCases, definitionsBody_rename action,
      definitionsCases_rename cases]

end

mutual

theorem demands_rename : ∀ instruction : Instruction φ,
    (instruction.rename f).demands = instruction.demands.map f
  | compute .. => by simp [rename, demands]
  | call .. => by simp [rename, demands]
  | select result key cases => by simp [rename, demands, demandsCases_rename cases]
  | loop body => by simp [rename, demands, demandsBody_rename body]
  | leave => by simp [rename, demands]

theorem demandsBody_rename : ∀ body : Body φ,
    demandsBody (renameBody f body) = (demandsBody body).map f
  | [] => rfl
  | instruction :: body => by
    simp [renameBody, demandsBody, demands_rename instruction, demandsBody_rename body]

theorem demandsCases_rename : ∀ cases : Cases φ,
    demandsCases (renameCases f cases) = (demandsCases cases).map f
  | [] => rfl
  | ⟨guard, action, value⟩ :: cases => by
    have yielded : (value.map f).toList = value.toList.map f := by cases value <;> rfl
    simp [renameCases, demandsCases, yielded, demandsBody_rename action, demandsCases_rename cases]

end

end Rename

end Instruction

end RegisterIR
