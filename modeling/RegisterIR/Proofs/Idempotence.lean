import RegisterIR.Proofs.Optimization
import RegisterIR.Proofs.SettledFunctions

/-! What the optimizer returns is a fixed point of it, for programs that are not verified as well.
Dead code elimination returns settled functions. Dropping functions keeps them settled and leaves a
table of which every function is reached and refers to functions of the table. -/

namespace RegisterIR

theorem Traced.exists_of_mem_mapM {α β : Type} {f : α → Traced β} :
    ∀ {values : List α} {results : List β}, (values.mapM f).outcome = .ok results →
    ∀ result ∈ results, ∃ value, (f value).outcome = .ok result
  | [], results, h => by
    obtain rfl : [] = results := by simpa using h
    simp
  | value :: values, results, h => by
    rw [List.mapM_cons, outcome_bind_eq_ok_iff] at h
    obtain ⟨first, computed, h⟩ := h
    obtain ⟨rest, later, h⟩ := outcome_bind_eq_ok_iff.mp h
    obtain rfl := Except.ok.inj h
    exact List.forall_mem_cons.mpr ⟨⟨value, computed⟩, exists_of_mem_mapM later⟩

theorem Function.Mentions.relabel {φ ψ : Type} {function : Function φ} {label : φ}
    (mentions : function.Mentions label) (f : φ → ψ) :
    (function.relabel f).Mentions (f label) := by
  rw [← Function.mem_functions_iff, Function.functions_relabel]
  exact List.mem_map_of_mem (Function.mem_functions_iff.mpr mentions)

namespace Program

variable {program : Program}

def Settled (program : Program) : Prop := ∀ function ∈ program.functions, function.Settled

theorem settled_of_removeDeadCode {result : Program}
    (h : program.removeDeadCode.outcome = .ok result) : result.Settled := by
  obtain ⟨functions, traversed, h⟩ := Traced.outcome_bind_eq_ok_iff.mp h
  obtain rfl := Except.ok.inj h
  intro function member
  obtain ⟨original, reduced⟩ := Traced.exists_of_mem_mapM traversed function member
  obtain ⟨⟨last, stats⟩, removed, recorded⟩ := Traced.outcome_bind_eq_ok_iff.mp reduced
  obtain ⟨_, _, same⟩ := Traced.outcome_bind_eq_ok_iff.mp recorded
  obtain rfl : last = function := Except.ok.inj same
  exact Function.settled_of_removeDeadCode removed

theorem Settled.removeDeadCode (settled : program.Settled) :
    program.removeDeadCode.outcome = .ok program := by
  rw [Program.removeDeadCode, Traced.outcome_bind_eq_ok_iff]
  refine ⟨program.functions.map id, Traced.outcome_mapM _ fun function member => ?_, ?_⟩
  · rw [(settled function member).removeDeadCode]
    rfl
  · rw [List.map_id]
    rfl

theorem Settled.trimmed (settled : program.Settled) : program.trimmed.Settled := by
  intro function member
  obtain ⟨id, original, _, entry, rfl⟩ := mem_trimmed member
  exact (settled original (List.mem_of_getElem? entry)).relabel _

theorem getElem?_trimmed {id : FunctionId} {function : Function FunctionId}
    (stays : id ∈ program.kept) (entry : program.functions[id]? = some function) :
    program.trimmed.functions[program.kept.idxOf id]? =
      some (function.relabel program.kept.idxOf) := by
  have inside := List.idxOf_lt_length_of_mem stays
  have inside' : program.kept.idxOf id < program.trimmed.functions.length := by
    rwa [length_trimmed]
  obtain ⟨_, original, found, relabelled⟩ := forall₂_trimmed.get inside inside'
  rw [List.get_eq_getElem, List.getElem_idxOf, entry] at found
  obtain rfl := Option.some.inj found
  rw [List.getElem?_eq_getElem inside']
  exact congrArg some relabelled

theorem not_dangling_trimmed : ¬ program.trimmed.Dangling := by
  rintro ⟨_, function, callee, _, entry, mentions, beyond⟩
  obtain ⟨id, original, stays, found, rfl⟩ := mem_trimmed (List.mem_of_getElem? entry)
  rw [← Function.mem_functions_iff, Function.functions_relabel] at mentions
  obtain ⟨old, refers, rfl⟩ := List.mem_map.mp mentions
  have inside : old ∈ program.kept := mem_kept_of_functions stays found refers
  rw [length_trimmed] at beyond
  exact absurd (List.idxOf_lt_length_of_mem inside) (Nat.not_lt.mpr beyond)

section Closed

variable (closed : ¬ program.Dangling)
include closed

theorem Reaches.trimmed {id : FunctionId} (reached : program.Reaches id)
    (stays : id ∈ program.kept) :
    program.trimmed.Reaches (program.kept.idxOf id) := by
  have inhabited : program.functions ≠ [] :=
    List.ne_nil_of_length_pos (Nat.zero_lt_of_lt (mem_kept_iff.mp stays).1)
  induction reached with
  | entry =>
    have first : program.kept.idxOf 0 = 0 := by
      rw [idxOf_eq_countP increasing_kept stays]
      simp
    rw [first]
    exact .entry
  | step before entry mentions ih =>
    have calls := (mem_kept_iff_reaches closed inhabited).mpr before
    exact .step (ih calls) (getElem?_trimmed calls entry) (mentions.relabel _)

theorem kept_trimmed : program.trimmed.kept = List.range program.trimmed.functions.length := by
  refine List.filter_eq_self.mpr fun id member => ?_
  rw [List.mem_range, length_trimmed] at member
  have stays : program.kept[id] ∈ program.kept := List.getElem_mem member
  have position : program.kept.idxOf program.kept[id] = id :=
    List.Nodup.idxOf_getElem (increasing_kept.imp Nat.ne_of_lt) id member
  have inhabited : program.functions ≠ [] :=
    List.ne_nil_of_length_pos (Nat.zero_lt_of_lt (mem_kept_iff.mp stays).1)
  have inhabited' : program.trimmed.functions ≠ [] := by
    refine List.ne_nil_of_length_pos ?_
    rw [length_trimmed]
    exact Nat.zero_lt_of_lt member
  have reached := ((mem_kept_iff_reaches closed inhabited).mp stays).trimmed closed stays
  rw [position] at reached
  exact (mem_kept_iff.mp ((mem_kept_iff_reaches not_dangling_trimmed inhabited').mpr reached)).2

theorem trimmed_trimmed : program.trimmed.trimmed = program.trimmed := by
  refine trimmed_eq_self ?_
  rw [kept_trimmed closed, List.length_range]

end Closed

theorem removeUnused_eq_ok_iff {result : Program} :
    (∃ removed, program.removeUnused.outcome = .ok (removed, result)) ↔
      ¬ program.Dangling ∧ program.trimmed = result := by
  constructor
  · rintro ⟨removed, h⟩
    have closed : ¬ program.Dangling := by
      intro dangling
      rw [removeUnused_of_dangling dangling] at h
      cases h
    rw [removeUnused_eq_trimmed closed] at h
    exact ⟨closed, (Prod.mk.inj (Except.ok.inj h)).2⟩
  · rintro ⟨closed, rfl⟩
    exact ⟨_, removeUnused_eq_trimmed closed⟩

theorem optimize_eq_ok_iff {passes : Optimization} {optimized : Program} :
    (program.optimize passes).outcome = .ok optimized ↔ ∃ base : Program,
      (if passes.deadCode then program.removeDeadCode.outcome = .ok base else program = base) ∧
      if passes.unusedFunctions then ¬ base.Dangling ∧ base.trimmed = optimized
      else base = optimized := by
  rcases passes with ⟨_ | _, _ | _⟩ <;>
    simp [optimize, Traced.outcome_map_eq_ok_iff, Traced.outcome_bind_eq_ok_iff,
      ← removeUnused_eq_ok_iff]

/-- One pass of each kind is enough: a second run of the optimizer changes nothing, and a second
dead code elimination of any function runs one layer that removes nothing. -/
theorem optimize_idempotent {program optimized : Program} {passes : Optimization}
    (h : (program.optimize passes).outcome = .ok optimized) :
    (optimized.optimize passes).outcome = .ok optimized ∧
    ∀ {φ : Type} {function last : Function φ} {stats : DeadCodeStats},
      function.removeDeadCode.outcome = .ok (last, stats) →
      last.removeDeadCode.outcome = .ok (last, ⟨1, 0, 0⟩) := by
  refine ⟨?_, fun reduced => by rw [(Function.settled_of_removeDeadCode reduced).removeDeadCode]⟩
  obtain ⟨base, eliminated, dropped⟩ := optimize_eq_ok_iff.mp h
  have settled : passes.deadCode = true → base.Settled := by
    intro chosen
    rw [if_pos chosen] at eliminated
    exact settled_of_removeDeadCode eliminated
  have kept : passes.deadCode = true → optimized.Settled := by
    intro chosen
    split at dropped
    · exact dropped.2 ▸ (settled chosen).trimmed
    · exact dropped ▸ settled chosen
  refine optimize_eq_ok_iff.mpr ⟨optimized, ?_, ?_⟩
  · split
    · exact (kept ‹_›).removeDeadCode
    · rfl
  · split
    · rename_i chosen
      rw [if_pos chosen] at dropped
      obtain ⟨closed, rfl⟩ := dropped
      exact ⟨not_dangling_trimmed, trimmed_trimmed closed⟩
    · rfl

/-- Far from verified: a register is written twice and another one never, there are fewer names than
registers, a function that is not reached refers beyond the table, and an empty loop stands inside a
loop. -/
def disordered : Program where
  enums := []
  records := []
  interfaces := []
  functions :=
    [{ name := "main"
       parameterCount := 0
       registerCount := 5
       returnValue := 3
       registerNames := [some "first", none, some "third"]
       body :=
         [.compute 1 (.literal .unit .unit), .compute 1 (.literal (.function 2) .host),
           .compute 0 (.tuple [1]), .loop [.loop [], .compute 4 (.tuple [0])],
           .call 3 1 [2]] },
      { name := "alone", parameterCount := 0, registerCount := 1, returnValue := 0,
        registerNames := [], body := [.compute 0 (.literal (.function 9) .host)] },
      { name := "last", parameterCount := 1, registerCount := 1, returnValue := 0,
        registerNames := [none], body := [] }]

def ordered : Program where
  enums := []
  records := []
  interfaces := []
  functions :=
    [{ name := "main"
       parameterCount := 0
       registerCount := 3
       returnValue := 2
       registerNames := [none, some "third"]
       body :=
         [.compute 0 (.literal .unit .unit), .compute 0 (.literal (.function 1) .host),
           .call 2 0 [1]] },
      { name := "last", parameterCount := 1, registerCount := 1, returnValue := 0,
        registerNames := [none], body := [] }]

theorem optimize_idempotent_disordered :
    disordered.verify ≠ .ok () ∧ (disordered.optimize .all).outcome = .ok ordered ∧
    (ordered.optimize .all).outcome = .ok ordered ∧
    ∀ {φ : Type} {function last : Function φ} {stats : DeadCodeStats},
      function.removeDeadCode.outcome = .ok (last, stats) →
      last.removeDeadCode.outcome = .ok (last, ⟨1, 0, 0⟩) := by
  have returned : (disordered.optimize .all).outcome = .ok ordered := by cbv
  exact ⟨by decide +kernel, returned, optimize_idempotent returned⟩

end Program

end RegisterIR
