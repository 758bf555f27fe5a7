import RegisterIR.Proofs.Layer

/-! Restricting a function twice is restricting it once. The second choice is made among the new
numbers of the first, so it is pulled back along the ranks of the first; ranks, names and bodies
then follow one after the other. -/

namespace RegisterIR

variable {φ : Type}

section Rank

/-- The registers kept by a first choice and, under their ranks, by a second one. -/
def thenKeep (first second : Register → Bool) (register : Register) : Bool :=
  first register && second (rank first register)

theorem rank_rank (first second : Register → Bool) (n : Nat) :
    rank second (rank first n) = rank (thenKeep first second) n := by
  induction n with
  | zero => rfl
  | succ n ih =>
    rw [rank_succ first, rank_succ (thenKeep first second), ← ih, thenKeep]
    by_cases kept : first n
    · rw [if_pos kept, rank_succ]
      simp [kept]
    · simp [kept]

theorem filter_range_rank (first second : Register → Bool) (n : Nat) :
    (List.range (rank first n)).filter second =
      ((List.range n).filter (thenKeep first second)).map (rank first) := by
  rw [← map_rank_filter, List.filter_map, List.filter_filter]
  congr 2
  funext register
  rw [thenKeep, Bool.and_comm]
  rfl

end Rank

namespace Operation

theorem rename_rename (f g : Register → Register) (operation : Operation φ) :
    (operation.rename f).rename g = operation.rename (g ∘ f) := by
  cases operation <;> simp [rename]

end Operation

namespace Guard

theorem rename_rename (f g : Register → Register) (guard : Guard) :
    (guard.rename f).rename g = guard.rename (g ∘ f) := by
  cases guard <;> rfl

end Guard

namespace Instruction

section Rename

variable (f g : Register → Register)

theorem renameBody_append (first second : Body φ) :
    renameBody f (first ++ second) = renameBody f first ++ renameBody f second := by
  induction first with
  | nil => rfl
  | cons instruction body ih => rw [List.cons_append, renameBody, ih, renameBody, List.cons_append]

theorem isEmpty_renameBody (body : Body φ) : (renameBody f body).isEmpty = body.isEmpty := by
  cases body <;> rfl

mutual

theorem rename_rename : ∀ instruction : Instruction φ,
    (instruction.rename f).rename g = instruction.rename (g ∘ f)
  | compute result operation => by simp [rename, operation.rename_rename]
  | call .. => by simp [rename]
  | select result key cases => by simp [rename, renameCases_renameCases cases]
  | loop body => by simp [rename, renameBody_renameBody body]
  | leave => rfl

theorem renameBody_renameBody : ∀ body : Body φ,
    renameBody g (renameBody f body) = renameBody (g ∘ f) body
  | [] => rfl
  | instruction :: body => by
    simp [renameBody, rename_rename instruction, renameBody_renameBody body]

theorem renameCases_renameCases : ∀ cases : Cases φ,
    renameCases g (renameCases f cases) = renameCases (g ∘ f) cases
  | [] => rfl
  | ⟨guard, action, value⟩ :: cases => by
    simp [renameCases, guard.rename_rename, renameBody_renameBody action,
      renameCases_renameCases cases]

end

end Rename

section PruneRename

variable (keep : Register → Bool) (f : Register → Register)

mutual

theorem prune_rename : ∀ instruction : Instruction φ,
    (instruction.rename f).prune keep = (instruction.prune (keep ∘ f)).map (rename f)
  | compute result operation => by by_cases h : keep (f result) <;> simp [rename, prune, h]
  | call .. => by simp [rename, prune]
  | select result key cases => by simp [rename, prune, pruneCases_rename cases]
  | loop body => by
    by_cases h : (pruneBody (keep ∘ f) body).isEmpty <;>
      simp [rename, prune, pruneBody_rename body, isEmpty_renameBody, h]
  | leave => rfl

theorem pruneBody_rename : ∀ body : Body φ,
    pruneBody keep (renameBody f body) = renameBody f (pruneBody (keep ∘ f) body)
  | [] => rfl
  | instruction :: body => by
    rw [renameBody, pruneBody, prune_rename instruction, pruneBody_rename body, pruneBody,
      renameBody_append]
    cases instruction.prune (keep ∘ f) <;> rfl

theorem pruneCases_rename : ∀ cases : Cases φ,
    pruneCases keep (renameCases f cases) = renameCases f (pruneCases (keep ∘ f) cases)
  | [] => rfl
  | ⟨guard, action, value⟩ :: cases => by
    simp [renameCases, pruneCases, pruneBody_rename action, pruneCases_rename cases]

end

end PruneRename

section PrunePrune

variable (first second : Register → Bool)

theorem pruneBody_append (keep : Register → Bool) (body rest : Body φ) :
    pruneBody keep (body ++ rest) = pruneBody keep body ++ pruneBody keep rest := by
  induction body with
  | nil => rfl
  | cons instruction body ih => rw [List.cons_append, pruneBody, ih, pruneBody, List.append_assoc]

mutual

theorem prune_prune : ∀ instruction : Instruction φ,
    (instruction.prune first).bind (prune second) =
      instruction.prune fun register => first register && second register
  | compute result operation => by
    by_cases h : first result <;> simp [prune, h]
  | call .. => rfl
  | select result key cases => by simp [prune, pruneCases_pruneCases cases]
  | loop body => by
    have inner := pruneBody_pruneBody body
    by_cases h : (pruneBody first body).isEmpty
    · -- A loop that the first choice empties is empty under both.
      rw [List.isEmpty_iff.mp h] at inner
      simp [prune, h, ← inner, pruneBody]
    · simp [prune, h, inner]
  | leave => rfl

theorem pruneBody_pruneBody : ∀ body : Body φ,
    pruneBody second (pruneBody first body) =
      pruneBody (fun register => first register && second register) body
  | [] => rfl
  | instruction :: body => by
    rw [pruneBody, pruneBody_append, pruneBody_pruneBody body, pruneBody,
      ← prune_prune instruction]
    cases instruction.prune first <;> simp [pruneBody]

theorem pruneCases_pruneCases : ∀ cases : Cases φ,
    pruneCases second (pruneCases first cases) =
      pruneCases (fun register => first register && second register) cases
  | [] => rfl
  | ⟨guard, action, value⟩ :: cases => by
    simp [pruneCases, pruneBody_pruneBody action, pruneCases_pruneCases cases]

end

end PrunePrune

/-- Taking out and renumbering twice is doing both once. -/
theorem restrictBody_restrictBody (first second : Register → Bool) (body : Body φ) :
    renameBody (rank second) (pruneBody second (renameBody (rank first) (pruneBody first body))) =
      renameBody (rank (thenKeep first second)) (pruneBody (thenKeep first second) body) := by
  have ranks : rank second ∘ rank first = rank (thenKeep first second) :=
    funext (rank_rank first second)
  rw [pruneBody_rename, renameBody_renameBody, pruneBody_pruneBody, ranks]
  rfl

end Instruction

theorem getElem?_filterMap_rank {α : Type} (keep : Register → Bool) (names : List α) {n : Nat}
    (named : n ≤ names.length) {register : Register} (kept : keep register) (below : register < n) :
    (((List.range n).filter keep).filterMap (names[·]?))[rank keep register]? =
      names[register]? := by
  induction n with
  | zero => exact absurd below (Nat.not_lt_zero _)
  | succ n ih =>
    have inside : n < names.length := named
    have length := length_filterMap_range keep (Nat.le_of_lt inside)
    rw [List.range_succ, List.filter_append, List.filterMap_append]
    rcases Nat.lt_succ_iff_lt_or_eq.mp below with less | rfl
    · rw [List.getElem?_append_left (length ▸ rank_lt kept less)]
      exact ih (Nat.le_of_lt inside) less
    · rw [List.getElem?_append_right (Nat.le_of_eq length), length]
      simp [kept, inside]

namespace Function

theorem registerNames_restrict_restrict {function : Function φ} (first second : Register → Bool)
    (named : function.registerNames.length = function.registerCount) :
    ((function.restrict first).restrict second).registerNames =
      (function.restrict (thenKeep first second)).registerNames := by
  simp only [restrict, filter_range_rank, List.filterMap_map]
  apply List.filterMap_congr
  intro register member
  obtain ⟨inRange, both⟩ := List.mem_filter.mp member
  exact getElem?_filterMap_rank first function.registerNames (Nat.le_of_eq named.symm)
    (Bool.and_eq_true_iff.mp both).1 (List.mem_range.mp inRange)

theorem restrict_restrict {function : Function φ} (first second : Register → Bool)
    (named : function.registerNames.length = function.registerCount) :
    (function.restrict first).restrict second = function.restrict (thenKeep first second) := by
  have names := registerNames_restrict_restrict first second named
  simp only [restrict] at names ⊢
  rw [names, rank_rank, rank_rank, Instruction.restrictBody_restrictBody]

end Function

end RegisterIR
