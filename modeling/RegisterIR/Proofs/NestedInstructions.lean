import RegisterIR.Proofs.Pruning

/-! The instructions of a body at any depth, in one list. Taking computations out filters this list
and renaming maps it, so what is said about every instruction of a function need not follow the
nesting. -/

namespace RegisterIR

variable {φ : Type}

namespace Instruction

mutual

def nested : Instruction φ → List (Instruction φ)
  | compute result operation => [compute result operation]
  | call result callee arguments => [call result callee arguments]
  | select result key cases => select result key cases :: nestedCases cases
  | loop body => loop body :: nestedBody body
  | leave => [leave]

def nestedBody : Body φ → List (Instruction φ)
  | [] => []
  | instruction :: body => instruction.nested ++ nestedBody body

def nestedCases : Cases φ → List (Instruction φ)
  | [] => []
  | ⟨_, action, _⟩ :: cases => nestedBody action ++ nestedCases cases

end

/-- What a call or a selection reads, writes, binds and yields itself. -/
def anchors : Instruction φ → List Register
  | call result callee arguments => result :: callee :: arguments
  | select result key cases =>
    result :: key :: cases.flatMap fun case => case.guard.register :: case.value.toList
  | _ => []

def ownDemands : Instruction φ → List Register
  | compute _ operation => operation.operands
  | instruction => instruction.anchors

section Demands

variable {r : Register}

mutual

theorem mem_demands_iff : ∀ instruction : Instruction φ,
    r ∈ instruction.demands ↔ ∃ inner ∈ instruction.nested, r ∈ inner.ownDemands
  | compute .. => by simp [demands, nested, ownDemands]
  | call .. => by simp [demands, nested, ownDemands, anchors]
  | select result key cases => by
    simp [demands, nested, ownDemands, anchors, mem_demandsCases_iff cases, or_assoc]
  | loop body => by simp [demands, nested, ownDemands, anchors, mem_demandsBody_iff body]
  | leave => by simp [demands, nested, ownDemands, anchors]

theorem mem_demandsBody_iff : ∀ body : Body φ,
    r ∈ demandsBody body ↔ ∃ inner ∈ nestedBody body, r ∈ inner.ownDemands
  | [] => by simp [demandsBody, nestedBody]
  | instruction :: body => by
    simp [demandsBody, nestedBody, mem_demands_iff instruction, mem_demandsBody_iff body,
      or_and_right, exists_or]

theorem mem_demandsCases_iff : ∀ cases : Cases φ,
    r ∈ demandsCases cases ↔
      (∃ case ∈ cases, r = case.guard.register ∨ r ∈ case.value.toList) ∨
        ∃ inner ∈ nestedCases cases, r ∈ inner.ownDemands
  | [] => by simp [demandsCases, nestedCases]
  | ⟨guard, action, value⟩ :: cases => by
    simp only [demandsCases, nestedCases, List.cons_append, List.mem_cons, List.mem_append,
      mem_demandsBody_iff action, mem_demandsCases_iff cases, or_and_right, exists_or,
      exists_eq_left]
    grind

end

end Demands

section Prune

variable (keep : Register → Bool)

theorem nestedBody_append (first second : Body φ) :
    nestedBody (first ++ second) = nestedBody first ++ nestedBody second := by
  induction first with
  | nil => rfl
  | cons instruction body ih => rw [List.cons_append, nestedBody, ih, nestedBody, List.append_assoc]

mutual

theorem nested_prune : ∀ instruction : Instruction φ,
    nestedBody (instruction.prune keep).toList = instruction.nested.filterMap (prune keep)
  | compute result operation => by
    by_cases h : keep result <;> simp [nested, nestedBody, prune, h]
  | call .. => by simp [nested, nestedBody, prune]
  | select result key cases => by
    simp [nested, nestedBody, prune, nestedCases_prune cases]
  | loop body => by
    have inner := nestedBody_prune body
    by_cases h : (pruneBody keep body).isEmpty
    · rw [List.isEmpty_iff.mp h] at inner
      simp [nested, prune, h, ← inner, nestedBody]
    · simp [nested, prune, h, ← inner, nestedBody]
  | leave => by simp [nested, nestedBody, prune]

theorem nestedBody_prune : ∀ body : Body φ,
    nestedBody (pruneBody keep body) = (nestedBody body).filterMap (prune keep)
  | [] => rfl
  | instruction :: body => by
    rw [pruneBody, nestedBody_append, nested_prune instruction, nestedBody_prune body, nestedBody,
      List.filterMap_append]

theorem nestedCases_prune : ∀ cases : Cases φ,
    nestedCases (pruneCases keep cases) = (nestedCases cases).filterMap (prune keep)
  | [] => rfl
  | ⟨guard, action, value⟩ :: cases => by
    rw [pruneCases, nestedCases, nestedBody_prune action, nestedCases_prune cases, nestedCases,
      List.filterMap_append]

end

theorem flatMap_pruneCases (cases : Cases φ) :
    ((pruneCases keep cases).flatMap fun case => case.guard.register :: case.value.toList) =
      cases.flatMap fun case => case.guard.register :: case.value.toList := by
  induction cases with
  | nil => rfl
  | cons case cases ih => simp only [pruneCases, List.flatMap_cons, ih]

theorem anchors_of_prune {instruction left : Instruction φ}
    (h : instruction.prune keep = some left) : left.anchors = instruction.anchors := by
  cases instruction with
  | compute result operation =>
    obtain ⟨_, ⟨⟩⟩ := Option.ite_none_right_eq_some.mp h
    rfl
  | select result key cases =>
    obtain rfl := Option.some.inj h
    simp only [anchors, flatMap_pruneCases]
  | loop body =>
    obtain ⟨_, ⟨⟩⟩ := Option.ite_none_left_eq_some.mp h
    rfl
  | call | leave =>
    obtain rfl := Option.some.inj h
    rfl

theorem exists_prune_of_mem_anchors {instruction : Instruction φ} {r : Register}
    (h : r ∈ instruction.anchors) : ∃ left, instruction.prune keep = some left := by
  cases instruction with
  | call => exact ⟨_, rfl⟩
  | select => exact ⟨_, rfl⟩
  | compute | loop | leave => simp [anchors] at h

end Prune

section Rename

variable (f : Register → Register)

mutual

theorem nested_rename : ∀ instruction : Instruction φ,
    (instruction.rename f).nested = instruction.nested.map (rename f)
  | compute .. => by simp [nested, rename]
  | call .. => by simp [nested, rename]
  | select result key cases => by simp [nested, rename, nestedCases_rename cases]
  | loop body => by simp [nested, rename, nestedBody_rename body]
  | leave => by simp [nested, rename]

theorem nestedBody_rename : ∀ body : Body φ,
    nestedBody (renameBody f body) = (nestedBody body).map (rename f)
  | [] => rfl
  | instruction :: body => by
    simp [renameBody, nestedBody, nested_rename instruction, nestedBody_rename body]

theorem nestedCases_rename : ∀ cases : Cases φ,
    nestedCases (renameCases f cases) = (nestedCases cases).map (rename f)
  | [] => rfl
  | ⟨guard, action, value⟩ :: cases => by
    simp [renameCases, nestedCases, nestedBody_rename action, nestedCases_rename cases]

end

theorem flatMap_renameCases (cases : Cases φ) :
    ((renameCases f cases).flatMap fun case => case.guard.register :: case.value.toList) =
      (cases.flatMap fun case => case.guard.register :: case.value.toList).map f := by
  induction cases with
  | nil => rfl
  | cons case cases ih =>
    have yielded : (case.value.map f).toList = case.value.toList.map f := by
      cases case.value <;> rfl
    simp only [renameCases, List.flatMap_cons, ih, Guard.register_rename, yielded, List.map_append,
      List.map_cons]

theorem anchors_rename (instruction : Instruction φ) :
    (instruction.rename f).anchors = instruction.anchors.map f := by
  cases instruction with
  | select result key cases =>
    simp only [rename, anchors, flatMap_renameCases, List.map_cons]
  | compute | call | loop | leave => rfl

end Rename

end Instruction

end RegisterIR
