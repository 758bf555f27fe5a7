import RegisterIR.Proofs.MarkAndSweep
import RegisterIR.Proofs.Reachability

/-! Which functions are dropped. A function is reached from the entry point along literals that
refer to functions, at any depth of bodies and literals. The search meets exactly the functions of
the table that are reached; the numbers of the reached functions are the only ones that occur in
what is kept, so every reference finds its new number. -/

namespace RegisterIR

variable {φ : Type}

namespace Literal

inductive Mentions (label : φ) : Literal φ → Prop
  | function : Mentions label (function label)
  | wrapped {which state} : Mentions label state → Mentions label (wrapped which state)
  | tuple {elements element} : element ∈ elements → Mentions label element →
      Mentions label (tuple elements)

mutual

theorem mem_functions_iff {label : φ} : ∀ value : Literal φ,
    label ∈ value.functions ↔ value.Mentions label
  | unit => ⟨by simp [functions], nofun⟩
  | integer _ => ⟨by simp [functions], nofun⟩
  | string _ => ⟨by simp [functions], nofun⟩
  | function other => by
    rw [functions, List.mem_singleton]
    constructor
    · rintro rfl
      exact .function
    · rintro ⟨⟩
      rfl
  | element _ => ⟨by simp [functions], nofun⟩
  | wrapped _ state => by
    rw [functions, mem_functions_iff state]
    exact ⟨.wrapped, fun | .wrapped inner => inner⟩
  | constructor _ => ⟨by simp [functions], nofun⟩
  | tuple elements => by
    rw [functions, mem_functionsAll_iff elements]
    exact ⟨fun ⟨_, member, inner⟩ => .tuple member inner,
      fun | .tuple member inner => ⟨_, member, inner⟩⟩

theorem mem_functionsAll_iff {label : φ} : ∀ values : List (Literal φ),
    label ∈ functionsAll values ↔ ∃ value ∈ values, value.Mentions label
  | [] => by simp [functionsAll]
  | value :: values => by
    simp [functionsAll, mem_functions_iff value, mem_functionsAll_iff values]

end

end Literal

namespace Instruction

section

variable {label : φ}

mutual

theorem mem_functions_iff : ∀ instruction : Instruction φ,
    label ∈ instruction.functions ↔ ∃ result value type,
      compute result (.literal value type) ∈ instruction.nested ∧ label ∈ value.functions
  | compute _ operation => by cases operation <;> simp [functions, Operation.functions, nested]
  | call .. => by simp [functions, nested]
  | select _ _ cases => by simp [functions, nested, mem_functionsCases_iff cases]
  | loop body => by simp [functions, nested, mem_functionsBody_iff body]
  | leave => by simp [functions, nested]

theorem mem_functionsBody_iff : ∀ body : Body φ,
    label ∈ functionsBody body ↔ ∃ result value type,
      compute result (.literal value type) ∈ nestedBody body ∧ label ∈ value.functions
  | [] => by simp [functionsBody, nestedBody]
  | instruction :: body => by
    simp only [functionsBody, nestedBody, List.mem_append, mem_functions_iff instruction,
      mem_functionsBody_iff body, or_and_right, exists_or]

theorem mem_functionsCases_iff : ∀ cases : Cases φ,
    label ∈ functionsCases cases ↔ ∃ result value type,
      compute result (.literal value type) ∈ nestedCases cases ∧ label ∈ value.functions
  | [] => by simp [functionsCases, nestedCases]
  | ⟨_, action, _⟩ :: cases => by
    simp only [functionsCases, nestedCases, List.mem_append, mem_functionsBody_iff action,
      mem_functionsCases_iff cases, or_and_right, exists_or]

end

end

end Instruction

namespace Function

def Mentions (function : Function φ) (label : φ) : Prop :=
  ∃ result value type, .compute result (.literal value type) ∈ function.instructions ∧
    value.Mentions label

theorem mem_functions_iff {function : Function φ} {label : φ} :
    label ∈ function.functions ↔ function.Mentions label := by
  simp only [functions, Instruction.mem_functionsBody_iff, Literal.mem_functions_iff, Mentions,
    instructions]

end Function

theorem idxOf_eq_countP {values : List Nat} (increasing : values.Pairwise (· < ·)) {value : Nat}
    (member : value ∈ values) : values.idxOf value = values.countP (· < value) := by
  induction values with
  | nil => simp at member
  | cons first values ih =>
    obtain ⟨least, increasing⟩ := List.pairwise_cons.mp increasing
    rcases List.mem_cons.mp member with rfl | later
    · have none : values.countP (· < value) = 0 := by
        simpa [List.countP_eq_zero] using fun other inside => Nat.le_of_lt (least other inside)
      simp [none]
    · have above := least value later
      rw [List.idxOf_cons_ne _ (Nat.ne_of_lt above), ih increasing later,
        List.countP_cons_of_pos (by simpa using above)]

theorem head?_eq_zero {values : List Nat} (increasing : values.Pairwise (· < ·))
    (member : 0 ∈ values) : values.head? = some 0 := by
  cases values with
  | nil => simp at member
  | cons first values =>
    rcases List.mem_cons.mp member with rfl | later
    · rfl
    · exact absurd (List.rel_of_pairwise_cons increasing later) (Nat.not_lt_zero _)

namespace Program

variable {program : Program}

/-- The functions that the entry point refers to, directly or through others. Numbers beyond the
table are reached as well, but lead nowhere. -/
inductive Reaches (program : Program) : FunctionId → Prop
  | entry : Reaches program 0
  | step {caller callee function} : Reaches program caller →
      program.functions[caller]? = some function → function.Mentions callee →
      Reaches program callee

/-- A function that is reached refers to one beyond the table. -/
def Dangling (program : Program) : Prop :=
  ∃ caller function callee, program.Reaches caller ∧ program.functions[caller]? = some function ∧
    function.Mentions callee ∧ program.functions.length ≤ callee

theorem Reaches.of_functions {caller callee : FunctionId} {function : Function FunctionId}
    (reached : program.Reaches caller) (entry : program.functions[caller]? = some function)
    (refers : callee ∈ function.functions) : program.Reaches callee :=
  .step reached entry (Function.mem_functions_iff.mp refers)

theorem reaches_worklist {id : FunctionId} {worklist : List FunctionId}
    {function : Function FunctionId} (start : ∀ old ∈ id :: worklist, program.Reaches old)
    (found : entry program.functions id = .ok function) :
    ∀ id ∈ function.functions.reverse ++ worklist, program.Reaches id := by
  obtain ⟨reached, later⟩ := List.forall_mem_cons.mp start
  refine List.forall_mem_append.mpr ⟨fun callee refers => ?_, later⟩
  exact reached.of_functions (entry_eq_ok_iff.mp found) (List.mem_reverse.mp refers)

theorem reaches_of_mark {used used' : List Bool} {worklist : List FunctionId}
    (start : ∀ id ∈ worklist, program.Reaches id)
    (before : ∀ id : FunctionId, used[id]? = some true → program.Reaches id)
    (h : program.mark used worklist = .ok used') :
    ∀ id : FunctionId, used'[id]? = some true → program.Reaches id := by
  fun_induction mark program used worklist with
  | case1 used =>
    obtain rfl := Except.ok.inj h
    exact before
  | case2 used id worklist beyond => cases h
  | case3 used id worklist seen ih => exact ih (List.forall_mem_cons.mp start).2 before h
  | case4 used id worklist unseen ih =>
    obtain ⟨function, found, later⟩ := bind_eq_ok_iff.mp h
    refine ih function (reaches_worklist start found) (fun old marked => ?_) later
    by_cases same : old = id
    · exact same ▸ start id List.mem_cons_self
    · rw [List.getElem?_set_ne (Ne.symm same)] at marked
      exact before old marked

/-- The search stops early only at a number beyond the table, and that number is reached. -/
theorem mark_eq_error {used : List Bool} {worklist : List FunctionId} {fault : Fault}
    (sizes : used.length = program.functions.length)
    (start : ∀ id ∈ worklist, program.Reaches id)
    (h : program.mark used worklist = .error fault) :
    fault = .outOfRange ∧ ∃ id, program.Reaches id ∧ program.functions.length ≤ id := by
  fun_induction mark program used worklist with
  | case1 used => cases h
  | case2 used id worklist beyond =>
    obtain rfl := Except.error.inj h
    exact ⟨rfl, id, start id List.mem_cons_self, sizes ▸ List.getElem?_eq_none_iff.mp beyond⟩
  | case3 used id worklist seen ih => exact ih sizes (List.forall_mem_cons.mp start).2 h
  | case4 used id worklist unseen ih =>
    -- The flags are as many as the functions, so a number that has a flag has a function.
    have inside : id < program.functions.length :=
      sizes ▸ (List.getElem?_eq_some_iff.mp unseen).1
    have found := entry_eq_ok_iff.mpr (List.getElem?_eq_getElem inside)
    rw [found] at h
    exact ih _ (List.length_set.trans sizes) (reaches_worklist start found) h

theorem marked_iff_reaches {used : List Bool}
    (h : program.mark (List.replicate program.functions.length false) [0] = .ok used)
    {id : FunctionId} : used[id]? = some true ↔ program.Reaches id := by
  have marks := marks_of_mark h
  have fresh : ∀ id : FunctionId,
      (List.replicate program.functions.length false)[id]? ≠ some true := by
    simp [List.getElem?_replicate]
  constructor
  · exact reaches_of_mark (by simpa using .entry) (fun id old => absurd old (fresh id)) h id
  · intro reached
    induction reached with
    | entry => exact marks.listed 0 List.mem_cons_self
    | step _ entry mentions ih =>
      exact (marks.closed ih entry).resolve_left (fresh _) _
        (Function.mem_functions_iff.mpr mentions)

/-- The search from the entry point ends with a fault when a number beyond the table is reached, and
else it marks exactly what is reached. -/
theorem mark_cases (inhabited : program.functions ≠ []) :
    let search := program.mark (List.replicate program.functions.length false) [0]
    (program.Dangling ∧ search = .error .outOfRange) ∨
      ¬ program.Dangling ∧ ∃ used, search = .ok used ∧
        used.length = program.functions.length ∧
        ∀ id : FunctionId, used[id]? = some true ↔ program.Reaches id := by
  intro search
  have start : ∀ id ∈ [0], program.Reaches id := by simpa using .entry
  cases result : search with
  | error fault =>
    obtain ⟨rfl, id, reached, beyond⟩ := mark_eq_error List.length_replicate start result
    refine .inl ⟨?_, rfl⟩
    cases reached with
    | entry => exact absurd (List.length_pos_iff.mpr inhabited) (Nat.not_lt.mpr beyond)
    | step before entry mentions => exact ⟨_, _, _, before, entry, mentions, beyond⟩
  | ok used =>
    have marked := @marked_iff_reaches program used result
    have length : used.length = program.functions.length :=
      (marks_of_mark result).length.trans List.length_replicate
    refine .inr ⟨?_, used, rfl, length, fun _ => marked⟩
    rintro ⟨caller, function, callee, reached, entry, mentions, beyond⟩
    have flag := marked.mpr (.step reached entry mentions)
    have inside := (List.getElem?_eq_some_iff.mp flag).1
    rw [length] at inside
    exact absurd inside (Nat.not_lt.mpr beyond)

theorem increasing_kept : program.kept.Pairwise (· < ·) := List.pairwise_lt_range.filter _

theorem length_kept_le : program.kept.length ≤ program.functions.length := by
  have fewer : program.kept.length ≤ (List.range program.functions.length).length :=
    List.length_filter_le _ _
  rwa [List.length_range] at fewer

theorem trimmed_eq_self (all : program.functions.length ≤ program.kept.length) :
    program.trimmed = program := by
  have whole : program.kept = List.range program.functions.length :=
    List.filter_sublist.eq_of_length_le (by rwa [List.length_range])
  have each : ∀ function ∈ program.functions, function.relabel program.kept.idxOf = function := by
    intro function member
    obtain ⟨caller, entry⟩ := List.mem_iff_getElem?.mp member
    have stays : caller ∈ program.kept :=
      whole ▸ List.mem_range.mpr (List.getElem?_eq_some_iff.mp entry).1
    refine (Function.relabel_congr fun callee refers => ?_).trans function.relabel_id
    have inside := mem_kept_of_functions stays entry refers
    rw [whole, List.mem_range] at inside
    have position := List.nodup_range.idxOf_getElem callee (by rwa [List.length_range])
    rwa [List.getElem_range, ← whole] at position
  have functions : (program.kept.filterMap (program.functions[·]?)).map
      (.relabel program.kept.idxOf) = program.functions := by
    rw [List.map_congr_left (g := id), List.map_id, whole, filterMap_getElem?_range,
      List.take_length]
    intro function member
    obtain ⟨id, _, entry⟩ := List.mem_filterMap.mp member
    exact each function (List.mem_of_getElem? entry)
  rw [trimmed, functions]

theorem idxOf_kept {id : FunctionId} (stays : id ∈ program.kept) :
    program.kept.idxOf id = rank program.isMarked id := by
  have inside := List.idxOf_lt_length_of_mem stays
  have ranks : (program.kept.map (rank program.isMarked))[program.kept.idxOf id]? =
      (List.range (rank program.isMarked program.functions.length))[program.kept.idxOf id]? :=
    congrArg (·[program.kept.idxOf id]?) (map_rank_filter _ _)
  rw [List.getElem?_map, List.getElem?_eq_getElem inside, List.getElem_idxOf] at ranks
  obtain ⟨_, position⟩ := List.getElem?_eq_some_iff.mp ranks.symm
  rwa [List.getElem_range] at position

theorem function_assign {caller callee : FunctionId} {function : Function FunctionId}
    (stays : caller ∈ program.kept) (entry : program.functions[caller]? = some function)
    (refers : callee ∈ function.functions) :
    Renumbering.function (.assign 0 ((List.range program.functions.length).map program.isMarked))
      callee = .ok (program.kept.idxOf callee) := by
  have stays' := mem_kept_of_functions stays entry refers
  obtain ⟨inside, marked⟩ := mem_kept_iff.mp stays'
  rw [Renumbering.function, Renumbering.target_assign inside, if_pos marked, idxOf_kept stays']
  rfl

theorem functions_assign :
    Renumbering.functions (.assign 0 ((List.range program.functions.length).map program.isMarked))
      (program.kept.filterMap (program.functions[·]?)) = .ok program.trimmed.functions := by
  have each : ∀ functions ⊆ program.kept.filterMap (program.functions[·]?),
      Renumbering.functions
        (.assign 0 ((List.range program.functions.length).map program.isMarked)) functions =
        .ok (functions.map (.relabel program.kept.idxOf)) := by
    intro functions within
    induction functions with
    | nil => rfl
    | cons function functions ih =>
      obtain ⟨member, later⟩ := List.cons_subset.mp within
      obtain ⟨caller, stays, entry⟩ := List.mem_filterMap.mp member
      have first := Function.update_eq_pure fun _ refers => function_assign stays entry refers
      rw [Renumbering.functions, List.mapM_cons, first, pure_bind]
      exact bind_eq_ok_iff.mpr ⟨_, ih later, rfl⟩
  exact each _ (List.Subset.refl _)

section Closed

variable (closed : ¬ program.Dangling)
include closed

theorem mem_kept_iff_reaches (inhabited : program.functions ≠ []) {id : FunctionId} :
    id ∈ program.kept ↔ program.Reaches id := by
  rw [mem_kept_iff, isMarked_iff]
  rcases mark_cases inhabited with ⟨dangling, _⟩ | ⟨_, used, search, length, marked⟩
  · exact absurd dangling closed
  constructor
  · rintro ⟨_, used', search', flag⟩
    obtain rfl := Except.ok.inj (search.symm.trans search')
    exact (marked id).mp flag
  · intro reached
    have flag := (marked id).mpr reached
    exact ⟨length ▸ (List.getElem?_eq_some_iff.mp flag).1, used, search, flag⟩

theorem mark_eq_ok (inhabited : program.functions ≠ []) :
    program.mark (List.replicate program.functions.length false) [0] =
      .ok ((List.range program.functions.length).map program.isMarked) := by
  rcases mark_cases inhabited with ⟨dangling, _⟩ | ⟨_, used, search, length, _⟩
  · exact absurd dangling closed
  rw [search]
  refine congrArg Except.ok (List.ext_getElem (by simp [length]) fun id inside _ => ?_)
  rw [List.getElem_map, List.getElem_range, isMarked, search]
  simp [inside]

theorem removeUnused_eq_trimmed : program.removeUnused.outcome =
    .ok (program.functions.length - program.kept.length, program.trimmed) := by
  rw [removeUnused]
  by_cases inhabited : program.functions = []
  · have size : program.functions.length = 0 := List.length_eq_zero_iff.mpr inhabited
    have whole := trimmed_eq_self (size ▸ Nat.zero_le program.kept.length)
    simp only [size, if_true, Nat.zero_sub, whole]
    rfl
  have left : ((List.range program.functions.length).map program.isMarked).count true =
      program.kept.length := by
    rw [count_map_range, rank, List.countP_eq_length_filter, kept]
  have stay := filterMap_zip_map program.isMarked program.functions 0 program.functions.length
  simp only [← List.range_eq_range', Nat.sub_zero] at stay
  simp only [List.length_eq_zero_iff, inhabited, if_false]
  refine Traced.outcome_bind_eq_ok_iff.mpr ⟨_, mark_eq_ok closed inhabited, ?_⟩
  rw [left]
  split
  · rename_i none
    rw [none, trimmed_eq_self (Nat.sub_eq_zero_iff_le.mp none)]
    rfl
  · refine Traced.outcome_bind_eq_ok_iff.mpr ⟨program.trimmed.functions, ?_, rfl⟩
    exact (congrArg _ stay).trans functions_assign

end Closed

theorem removeUnused_of_dangling (dangling : program.Dangling) :
    program.removeUnused.outcome = .error .outOfRange := by
  have inhabited : program.functions ≠ [] := by
    rintro empty
    obtain ⟨_, _, _, _, entry, _⟩ := dangling
    simp [empty] at entry
  rcases mark_cases inhabited with ⟨_, search⟩ | ⟨closed, _⟩
  · rw [removeUnused]
    simp only [List.length_eq_zero_iff, inhabited, if_false, search]
    rfl
  · exact absurd dangling closed

theorem not_dangling_of_verify (h : program.verify = .ok ()) : ¬ program.Dangling := by
  rintro ⟨_, function, callee, _, entry, mentions, beyond⟩
  have verified := verify_eq_ok_iff.mp h function (List.mem_of_getElem? entry)
  have inside :=
    Function.functions_of_check verified callee (Function.mem_functions_iff.mpr mentions)
  exact absurd inside (Nat.not_lt.mpr beyond)

theorem forall₂_trimmed : List.Forall₂ (fun id function => id ∈ program.kept ∧
    ∃ original, program.functions[id]? = some original ∧
      function = original.relabel program.kept.idxOf) program.kept program.trimmed.functions := by
  have each : ∀ ids ⊆ program.kept, List.Forall₂ (fun id original => id ∈ program.kept ∧
      program.functions[id]? = some original) ids (ids.filterMap (program.functions[·]?)) := by
    intro ids within
    induction ids with
    | nil => exact .nil
    | cons id ids ih =>
      obtain ⟨stays, later⟩ := List.cons_subset.mp within
      have entry := List.getElem?_eq_getElem (mem_kept_iff.mp stays).1
      rw [List.filterMap_cons, entry]
      exact .cons ⟨stays, entry⟩ (ih later)
  refine List.forall₂_map_right_iff.mpr ((each _ (List.Subset.refl _)).imp ?_)
  rintro id original ⟨stays, entry⟩
  exact ⟨stays, original, entry, rfl⟩

/-- Dropping unused functions fails exactly when a reached function refers to one beyond the table.
Otherwise it keeps the reached functions in order, each reference to one of them becomes the number
of reached functions below it, and the types stay as they are. -/
theorem removeUnused_keeps_exactly_reached (program : Program)
    (inhabited : program.functions ≠ []) :
    ((∃ fault, program.removeUnused.outcome = .error fault) ↔ program.Dangling) ∧
    (¬ program.Dangling → ∃ (kept : List FunctionId) (removed : Nat) (result : Program),
      program.removeUnused.outcome = .ok (removed, result) ∧
      kept.Pairwise (· < ·) ∧ (∀ id, id ∈ kept ↔ program.Reaches id) ∧
      List.Forall₂ (fun id function => ∃ original, program.functions[id]? = some original ∧
        function = original.relabel fun callee => kept.countP (· < callee)) kept result.functions ∧
      removed + result.functions.length = program.functions.length ∧
      kept.head? = some 0 ∧ result.toTypeTable = program.toTypeTable) := by
  refine ⟨⟨?_, fun dangling => ⟨_, removeUnused_of_dangling dangling⟩⟩, fun closed => ?_⟩
  · rintro ⟨fault, failed⟩
    refine Classical.byContradiction fun closed => ?_
    rw [removeUnused_eq_trimmed closed] at failed
    cases failed
  · have reached : ∀ id, id ∈ program.kept ↔ program.Reaches id := fun id =>
      mem_kept_iff_reaches closed inhabited
    refine ⟨program.kept, _, program.trimmed, removeUnused_eq_trimmed closed, increasing_kept,
      reached, forall₂_trimmed.imp ?_, ?_, ?_, rfl⟩
    · rintro id _ ⟨stays, original, entry, rfl⟩
      refine ⟨original, entry, Function.relabel_congr fun callee refers => ?_⟩
      exact idxOf_eq_countP increasing_kept
        (mem_kept_of_functions stays entry refers)
    · rw [length_trimmed]
      exact Nat.sub_add_cancel length_kept_le
    · exact head?_eq_zero increasing_kept ((reached 0).mpr .entry)

/-- The entry point refers to a function from inside a loop and a case, two functions refer to each
other and one of them to the entry point; one that is not reached refers beyond the table. -/
def mutualReferences : Program where
  enums := [⟨"Box", [⟨"full", some .host⟩, ⟨"none", none⟩]⟩]
  records := []
  interfaces := ["Console"]
  functions :=
    [{ name := "main"
       parameterCount := 1
       registerCount := 4
       returnValue := 0
       registerNames := [some "key", none, none, none]
       body :=
         [.loop
           [.select 1 0
             [⟨.element ⟨0, 0⟩ 2,
               [.compute 3 (.literal (.tuple [.unit, .wrapped ⟨0, 0⟩ (.function 3)]) .host),
                 .leave],
               some 3⟩]]] },
      { name := "alone", parameterCount := 0, registerCount := 1, returnValue := 0,
        registerNames := [none], body := [.compute 0 (.literal (.function 9) .host)] },
      { name := "even", parameterCount := 0, registerCount := 1, returnValue := 0,
        registerNames := [none],
        body := [.compute 0 (.literal (.tuple [.function 3, .function 0]) .host)] },
      { name := "odd", parameterCount := 0, registerCount := 1, returnValue := 0,
        registerNames := [none], body := [.compute 0 (.literal (.function 2) .host)] }]

theorem removeUnused_keeps_exactly_reached_mutualReferences :
    mutualReferences.functions ≠ [] ∧ ¬ mutualReferences.Dangling ∧
    ∃ (kept : List FunctionId) (removed : Nat) (result : Program),
      mutualReferences.removeUnused.outcome = .ok (removed, result) ∧
      kept.Pairwise (· < ·) ∧ (∀ id, id ∈ kept ↔ mutualReferences.Reaches id) ∧
      List.Forall₂ (fun id function => ∃ original,
        mutualReferences.functions[id]? = some original ∧
        function = original.relabel fun callee => kept.countP (· < callee)) kept result.functions ∧
      removed + result.functions.length = mutualReferences.functions.length ∧
      kept.head? = some 0 ∧ result.toTypeTable = mutualReferences.toTypeTable := by
  have inhabited : mutualReferences.functions ≠ [] := List.cons_ne_nil _ _
  obtain ⟨fails, keeps⟩ := removeUnused_keeps_exactly_reached mutualReferences inhabited
  have closed : ¬ mutualReferences.Dangling := by
    have returned : mutualReferences.removeUnused.outcome.toOption.isSome = true := by cbv
    rw [← fails]
    rintro ⟨fault, failed⟩
    rw [failed] at returned
    cases returned
  exact ⟨inhabited, closed, keeps closed⟩

end Program

end RegisterIR
