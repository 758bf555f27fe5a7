import RegisterIR.Optimization
import RegisterIR.Proofs.UnusedFunctions

/-! The optimizer on verified programs. It succeeds, its result is verified again, and after dead
code elimination every function writes each of its registers exactly once. -/

namespace RegisterIR

namespace Function

/-- The function after all layers; a function on which a layer fails is left as it is. -/
def reduced {φ : Type} (function : Function φ) : Function φ :=
  match function.layers with
  | .ok (_, last) => last
  | .error _ => function

variable {program : Program} {function : Function FunctionId}

theorem removeDeadCode_of_check (h : function.check program = .ok ()) :
    ∃ stats, function.removeDeadCode.outcome = .ok (function.reduced, stats) := by
  obtain ⟨counts, last, equation, _, _⟩ := layers_of_check h
  rw [removeDeadCode, reduced, equation]
  exact ⟨_, rfl⟩

/-- What every layer keeps on verified functions is kept by all of them together. -/
theorem reduced_run {P : Function FunctionId → Prop} (h : function.check program = .ok ())
    (step : ∀ function, function.check program = .ok () → P function →
      P (function.restrict function.keeps)) (start : P function) : P function.reduced := by
  obtain ⟨counts, before, equation, ⟨verified, kept⟩, _⟩ :=
    layers_run (P := fun function => function.check program = .ok () ∧ P function)
      (fun _ holds => inRange_of_check holds.1)
      (fun _ holds => ⟨check_restrict holds.1 (covers_keeps _), step _ holds.1 holds.2⟩)
      function ⟨h, start⟩
  rw [reduced, equation]
  exact step before verified kept

theorem check_reduced (h : function.check program = .ok ()) :
    function.reduced.check program = .ok () :=
  reduced_run (P := fun function => function.check program = .ok ()) h
    (fun _ _ verified => check_restrict verified (covers_keeps _)) h

theorem compact_reduced (h : function.check program = .ok ()) : function.reduced.Compact := by
  obtain ⟨counts, last, equation, _, compact⟩ := layers_of_check h
  rw [reduced, equation]
  exact compact

end Function

namespace Traced

variable {α β : Type}

theorem outcome_mapM {f : α → Traced β} {g : α → β} : ∀ values : List α,
    (∀ value ∈ values, (f value).outcome = .ok (g value)) →
    (values.mapM f).outcome = .ok (values.map g)
  | [], _ => by simp
  | value :: values, each => by
    have rest := outcome_mapM values fun other member => each other (List.mem_cons_of_mem _ member)
    rw [List.mapM_cons, outcome_bind_eq_ok_iff]
    refine ⟨g value, each value (List.mem_cons_self ..), ?_⟩
    rw [outcome_bind_eq_ok_iff]
    exact ⟨_, rest, rfl⟩

end Traced

namespace Program

def reduced (program : Program) : Program :=
  { program with functions := program.functions.map Function.reduced }

theorem removeDeadCode_of_verify {program : Program} (h : program.verify = .ok ()) :
    program.removeDeadCode.outcome = .ok program.reduced := by
  rw [removeDeadCode, Traced.outcome_bind_eq_ok_iff]
  refine ⟨_, Traced.outcome_mapM program.functions fun function member => ?_, rfl⟩
  obtain ⟨stats, equation⟩ :=
    Function.removeDeadCode_of_check (verify_eq_ok_iff.mp h function member)
  rw [Traced.outcome_bind_eq_ok_iff]
  exact ⟨_, equation, rfl⟩

theorem verify_reduced {program : Program} (h : program.verify = .ok ()) :
    program.reduced.verify = .ok () := by
  refine verify_eq_ok_iff.mpr fun function member => ?_
  obtain ⟨original, inside, rfl⟩ := List.mem_map.mp member
  have verified := Function.check_reduced (verify_eq_ok_iff.mp h original inside)
  have enums : program.enums = program.reduced.enums := rfl
  exact Function.check_congr enums (by simp [reduced]) verified

theorem compact_reduced {program : Program} (h : program.verify = .ok ()) :
    ∀ function ∈ program.reduced.functions, function.Compact := by
  intro function member
  obtain ⟨original, inside, rfl⟩ := List.mem_map.mp member
  exact Function.compact_reduced (verify_eq_ok_iff.mp h original inside)

theorem compact_trimmed {program : Program} (h : ∀ function ∈ program.functions, function.Compact) :
    ∀ function ∈ program.trimmed.functions, function.Compact := by
  intro function member
  obtain ⟨id, original, _, entry, rfl⟩ := mem_trimmed member
  exact (h original (List.mem_of_getElem? entry)).relabel _

def base (program : Program) (passes : Optimization) : Program :=
  if passes.deadCode then program.reduced else program

theorem verify_base {program : Program} (h : program.verify = .ok ()) (passes : Optimization) :
    (program.base passes).verify = .ok () := by
  rw [base]
  split
  · exact verify_reduced h
  · exact h

theorem optimize_of_verify {program : Program} (h : program.verify = .ok ())
    (passes : Optimization) : ∃ optimized, (program.optimize passes).outcome = .ok optimized ∧
      (optimized = program.base passes ∨ optimized = (program.base passes).trimmed) := by
  have first := removeDeadCode_of_verify h
  have last := removeUnused_eq_trimmed (not_dangling_of_verify (verify_base h passes))
  rcases passes with ⟨_ | _, _ | _⟩
  · exact ⟨program, rfl, .inl rfl⟩
  · refine ⟨program.trimmed, Traced.outcome_bind_eq_ok_iff.mpr ⟨program, rfl, ?_⟩, .inr rfl⟩
    exact Traced.outcome_bind_eq_ok_iff.mpr ⟨_, last, rfl⟩
  · exact ⟨program.reduced, Traced.outcome_bind_eq_ok_iff.mpr ⟨_, first, rfl⟩, .inl rfl⟩
  · refine ⟨program.reduced.trimmed, Traced.outcome_bind_eq_ok_iff.mpr ⟨_, first, ?_⟩, .inr rfl⟩
    exact Traced.outcome_bind_eq_ok_iff.mpr ⟨_, last, rfl⟩

/-- The optimizer does not fail on a verified program and keeps it verified. With dead code
elimination, the registers of every function are exactly those it writes, each of them once. -/
theorem optimize_verified_and_compact (program : Program) (passes : Optimization)
    (verified : program.verify = .ok ()) :
    ∃ optimized, (program.optimize passes).outcome = .ok optimized ∧
      optimized.verify = .ok () ∧
      (passes.deadCode = true → ∀ function ∈ optimized.functions,
        function.definitions.Perm (List.range function.registerCount)) := by
  obtain ⟨optimized, equation, form⟩ := optimize_of_verify verified passes
  have kept := verify_base verified passes
  have compact : passes.deadCode = true →
      ∀ function ∈ (program.base passes).functions, function.Compact := by
    intro chosen
    rw [base, if_pos chosen]
    exact compact_reduced verified
  refine ⟨optimized, equation, ?_, fun chosen => ?_⟩
  · rcases form with rfl | rfl
    · exact kept
    · exact verify_trimmed kept
  · rcases form with rfl | rfl
    · exact compact chosen
    · exact compact_trimmed (compact chosen)

/-- A loop that is left through a case, dead computations inside and outside of it, a call whose
result is returned, and a function that is never referred to. -/
def sample : Program where
  enums := [⟨"Step", [⟨"done", some .unit⟩, ⟨"more", none⟩]⟩]
  records := []
  interfaces := []
  functions :=
    [{ name := "main"
       parameterCount := 2
       registerCount := 9
       returnValue := 8
       registerNames := [some "key", some "next", none, none, none, none, none, none, none]
       body :=
         [.compute 2 (.literal .unit .unit), .compute 3 (.tuple [2, 0]),
           .loop
             [.compute 4 (.literal (.function 0) .unit),
               .select 5 0 [⟨.element ⟨0, 0⟩ 6, [.leave], none⟩,
                 ⟨.equals 1, [.compute 7 (.tuple [4])], some 7⟩]],
           .call 8 1 [0]] },
      { name := "unused", parameterCount := 1, registerCount := 1, returnValue := 0,
        registerNames := [none], body := [] }]

theorem optimize_verified_and_compact_sample :
    sample.verify = .ok () ∧ ∃ optimized, (sample.optimize .all).outcome = .ok optimized ∧
      optimized.verify = .ok () ∧
      (Optimization.all.deadCode = true → ∀ function ∈ optimized.functions,
        function.definitions.Perm (List.range function.registerCount)) :=
  ⟨rfl, optimize_verified_and_compact sample .all rfl⟩

end Program

end RegisterIR
