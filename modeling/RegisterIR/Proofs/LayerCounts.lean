import RegisterIR.Proofs.RegisterFaults

/-! How long dead code elimination runs and what it counts. A layer that is followed by another one
has removed a register, and the register that the function returns is never removed, so there are
no more layers than registers. A layer takes instructions out and puts none in. -/

namespace RegisterIR

variable {φ : Type}

namespace Instruction

mutual

theorem size_eq_length : ∀ instruction : Instruction φ,
    instruction.size = instruction.nested.length
  | compute .. => rfl
  | call .. => rfl
  | select result key cases => by
    rw [size, nested, List.length_cons, sizeCases_eq_length cases, Nat.add_comm]
  | loop body => by rw [size, nested, List.length_cons, sizeBody_eq_length body, Nat.add_comm]
  | leave => rfl

theorem sizeBody_eq_length : ∀ body : Body φ, sizeBody body = (nestedBody body).length
  | [] => rfl
  | instruction :: body => by
    rw [sizeBody, nestedBody, List.length_append, size_eq_length instruction,
      sizeBody_eq_length body]

theorem sizeCases_eq_length : ∀ cases : Cases φ, sizeCases cases = (nestedCases cases).length
  | [] => rfl
  | ⟨guard, action, value⟩ :: cases => by
    rw [sizeCases, nestedCases, List.length_append, sizeBody_eq_length action,
      sizeCases_eq_length cases]

end

end Instruction

open Instruction (sizeBody sizeBody_eq_length)

namespace Function

variable {function next last : Function φ} {layers registers : Nat}

theorem sizeBody_restrict_le (keep : Register → Bool) (function : Function φ) :
    sizeBody (function.restrict keep).body ≤ sizeBody function.body := by
  have kept : (function.restrict keep).instructions.length ≤ function.instructions.length := by
    rw [instructions_restrict, List.length_map]
    exact List.length_filterMap_le _ _
  rwa [instructions, instructions, ← sizeBody_eq_length, ← sizeBody_eq_length] at kept

theorem size_le_of_layer (h : function.layer = .ok next) :
    sizeBody next.body ≤ sizeBody function.body := by
  obtain ⟨_, rfl⟩ := layer_eq_ok_iff.mp h
  exact sizeBody_restrict_le _ function

/-- Layers that follow one another up to the first that removes nothing: how many there are, how
many registers they remove, and what the last one leaves. -/
inductive Layered : Function φ → (layers registers : Nat) → Function φ → Prop
  | last {function next : Function φ} : function.layer = .ok next →
      next.registerCount = function.registerCount → Layered function 1 0 next
  | more {function next last : Function φ} {layers registers : Nat} :
      function.layer = .ok next → next.registerCount < function.registerCount →
      Layered next layers registers last →
      Layered function (layers + 1) (function.registerCount - next.registerCount + registers) last

namespace Layered

theorem registers_add (h : Layered function layers registers last) :
    registers + last.registerCount = function.registerCount := by
  induction h with
  | last _ same => omega
  | more _ fewer _ ih => omega

theorem layers_pos (h : Layered function layers registers last) : 1 ≤ layers := by
  cases h <;> omega

/-- Every layer but the last removes a register. -/
theorem layers_le (h : Layered function layers registers last) : layers ≤ registers + 1 := by
  induction h with
  | last => exact Nat.le_refl 1
  | more _ fewer _ ih => omega

theorem registerCount_pos (h : Layered function layers registers last) :
    0 < last.registerCount := by
  induction h with
  | last layered same =>
    have returned := (inRange_iff.mp (layer_eq_ok_iff.mp layered).1).2.1
    rw [same]
    exact Nat.zero_lt_of_lt returned
  | more _ _ _ ih => exact ih

theorem size_le (h : Layered function layers registers last) :
    sizeBody last.body ≤ sizeBody function.body := by
  induction h with
  | last layered => exact size_le_of_layer layered
  | more layered _ _ ih => exact Nat.le_trans ih (size_le_of_layer layered)

end Layered

theorem layered_of_layers {counts : List Nat} (h : function.layers = .ok (counts, last)) :
    ∃ registers, Layered function (counts.length + 1) registers last := by
  fun_induction Function.layers function generalizing counts with
  | case1 function fault failed => cases h
  | case2 function next layered smaller fault failed ih => cases h
  | case3 function next layered smaller later final equation ih =>
    obtain ⟨rfl, rfl⟩ := Prod.mk.inj (Except.ok.inj h)
    obtain ⟨registers, run⟩ := ih equation
    exact ⟨_, .more layered smaller run⟩
  | case4 function next layered all =>
    obtain ⟨rfl, rfl⟩ := Prod.mk.inj (Except.ok.inj h)
    obtain ⟨_, rfl⟩ := layer_eq_ok_iff.mp layered
    exact ⟨0, .last layered (Nat.le_antisymm rank_le (Nat.not_lt.mp all))⟩

theorem layered_of_removeDeadCode {stats : DeadCodeStats}
    (h : function.removeDeadCode.outcome = .ok (last, stats)) :
    Layered function stats.layers stats.registers last ∧
      stats.instructions = sizeBody function.body - sizeBody last.body := by
  rw [removeDeadCode] at h
  split at h
  · cases h
  · rename_i counts reduced layered
    obtain ⟨rfl, rfl⟩ := Prod.mk.inj (Except.ok.inj h)
    obtain ⟨registers, run⟩ := layered_of_layers layered
    have removed : function.registerCount - reduced.registerCount = registers := by
      have := run.registers_add
      omega
    exact ⟨removed ▸ run, rfl⟩

/-- Where dead code elimination meets no fault it ends, after at most as many layers as there are
registers, and its statistics are exact: the layers run, the registers that they removed one after
the other, and the instructions that are gone. No layer of any function adds instructions. -/
theorem removeDeadCode_counts (function : Function φ)
    (total : ∀ fault, function.removeDeadCode.outcome ≠ .error fault) :
    ∃ last stats, function.removeDeadCode.outcome = .ok (last, stats) ∧
      Layered function stats.layers stats.registers last ∧
      1 ≤ stats.layers ∧ stats.layers ≤ min (stats.registers + 1) function.registerCount ∧
      stats.registers + last.registerCount = function.registerCount ∧
      stats.instructions + sizeBody last.body = sizeBody function.body ∧
      ∀ before after : Function φ, before.layer = .ok after →
        sizeBody after.body ≤ sizeBody before.body := by
  cases removed : function.removeDeadCode.outcome with
  | error fault => exact absurd removed (total fault)
  | ok result =>
    obtain ⟨last, stats⟩ := result
    obtain ⟨run, instructions⟩ := layered_of_removeDeadCode removed
    have registers := run.registers_add
    have few := run.layers_le
    have left := run.registerCount_pos
    have smaller := run.size_le
    exact ⟨last, stats, rfl, run, run.layers_pos, by omega, registers, by omega,
      fun _ _ => size_le_of_layer⟩

theorem removeDeadCode_counts_chained :
    (∀ fault, chained.removeDeadCode.outcome ≠ .error fault) ∧
    ∃ last stats, chained.removeDeadCode.outcome = .ok (last, stats) ∧
      Layered chained stats.layers stats.registers last ∧
      1 ≤ stats.layers ∧ stats.layers ≤ min (stats.registers + 1) 6 ∧
      stats.registers + last.registerCount = 6 ∧
      stats.instructions + sizeBody last.body = 7 ∧
      ∀ before after : Function FunctionId, before.layer = .ok after →
        sizeBody after.body ≤ sizeBody before.body := by
  have total : ∀ fault, chained.removeDeadCode.outcome ≠ .error fault := fun fault stopped =>
    (removeDeadCode_eq_error_iff.mp stopped).1 (inRange_of_layer rfl)
  exact ⟨total, removeDeadCode_counts chained total⟩

end Function

end RegisterIR
