import RegisterIR.Proofs.Composition
import RegisterIR.Proofs.Reachability

/-! Functions that a layer leaves as they are. Whatever function the layers start from, verified or
not, they end in such a function: the last layer keeps every register, so all it takes out is loops
that are empty, and taking these out changes no demand. Relabelling keeps a function settled. -/

namespace RegisterIR

variable {φ ψ : Type}

section RenameSelf

variable {f : Register → Register}

theorem Operation.rename_eq_self (operation : Operation φ)
    (same : ∀ r ∈ operation.operands, f r = r) : operation.rename f = operation := by
  have all : operation.operands.map f = operation.operands := by
    rw [List.map_congr_left same, List.map_id']
  cases operation with
  | tuple elements => rw [rename]; exact congrArg tuple all
  | member source index => rw [rename, same source (by simp [operands])]
  | construct which state type => rw [rename, same state (by simp [operands])]
  | _ => rfl

theorem Guard.rename_eq_self (guard : Guard) (same : f guard.register = guard.register) :
    guard.rename f = guard := by
  cases guard with
  | equals key => exact congrArg equals same
  | element which binding => exact congrArg (element which) same

namespace Instruction

mutual

theorem rename_eq_self : ∀ instruction : Instruction φ,
    (∀ r ∈ instruction.definitions, f r = r) → (∀ r ∈ instruction.demands, f r = r) →
    instruction.rename f = instruction
  | compute result operation, defined, demanded => by
    rw [rename, defined result (by simp [definitions]), operation.rename_eq_self demanded]
  | call result callee arguments, _, demanded => by
    have all : arguments.map f = arguments := by
      rw [List.map_congr_left fun r member => demanded r (by simp [demands, member]), List.map_id']
    rw [rename, demanded result (by simp [demands]), demanded callee (by simp [demands]), all]
  | select result key cases, defined, demanded => by
    rw [rename, demanded result (by simp [demands]), demanded key (by simp [demands]),
      renameCases_eq_self cases (fun r member => defined r (by simp [definitions, member]))
        fun r member => demanded r (by simp [demands, member])]
  | loop body, defined, demanded => by
    rw [rename, renameBody_eq_self body (by simpa [definitions] using defined)
      (by simpa [demands] using demanded)]
  | leave, _, _ => rfl

theorem renameBody_eq_self : ∀ body : Body φ,
    (∀ r ∈ definitionsBody body, f r = r) → (∀ r ∈ demandsBody body, f r = r) →
    renameBody f body = body
  | [], _, _ => rfl
  | instruction :: body, defined, demanded => by
    rw [definitionsBody, List.forall_mem_append] at defined
    rw [demandsBody, List.forall_mem_append] at demanded
    rw [renameBody, rename_eq_self instruction defined.1 demanded.1,
      renameBody_eq_self body defined.2 demanded.2]

theorem renameCases_eq_self : ∀ cases : Cases φ,
    (∀ r ∈ definitionsCases cases, f r = r) → (∀ r ∈ demandsCases cases, f r = r) →
    renameCases f cases = cases
  | [], _, _ => rfl
  | ⟨guard, action, value⟩ :: cases, defined, demanded => by
    have yielded : value.map f = value := by
      cases value with
      | none => rfl
      | some register => rw [Option.map_some, demanded register (by simp [demandsCases])]
    rw [renameCases, guard.rename_eq_self (demanded _ (by simp [demandsCases])), yielded,
      renameBody_eq_self action (fun r member => defined r (by simp [definitionsCases, member]))
        fun r member => demanded r (by simp [demandsCases, member]),
      renameCases_eq_self cases (fun r member => defined r (by simp [definitionsCases, member]))
        fun r member => demanded r (by simp [demandsCases, member])]

end

end Instruction

end RenameSelf

namespace Instruction

section

variable {keep : Register → Bool}

mutual

/-- Where all results are kept, only loops that are empty go, and these demand nothing. -/
theorem demands_prune_of_kept : ∀ instruction : Instruction φ,
    (∀ r ∈ instruction.definitions, keep r) →
    demandsBody (instruction.prune keep).toList = instruction.demands
  | compute result operation, kept => by
    have written := kept result (by simp [definitions])
    simp [prune, written, demandsBody, demands]
  | call .., _ => by simp [prune, demandsBody, demands]
  | select result key cases, kept => by
    have inner := demandsCases_prune_of_kept cases fun r h => kept r (by simp [definitions, h])
    simp [prune, demandsBody, demands, inner]
  | loop body, kept => by
    have inner := demandsBody_prune_of_kept body (by simpa [definitions] using kept)
    by_cases h : (pruneBody keep body).isEmpty
    · rw [List.isEmpty_iff.mp h] at inner
      simp [prune, h, demandsBody, demands, ← inner]
    · simp [prune, h, demandsBody, demands, inner]
  | leave, _ => by simp [prune, demandsBody, demands]

theorem demandsBody_prune_of_kept : ∀ body : Body φ, (∀ r ∈ definitionsBody body, keep r) →
    demandsBody (pruneBody keep body) = demandsBody body
  | [], _ => rfl
  | instruction :: body, kept => by
    rw [definitionsBody, List.forall_mem_append] at kept
    rw [pruneBody, demandsBody_append, demands_prune_of_kept instruction kept.1,
      demandsBody_prune_of_kept body kept.2, demandsBody]

theorem demandsCases_prune_of_kept : ∀ cases : Cases φ, (∀ r ∈ definitionsCases cases, keep r) →
    demandsCases (pruneCases keep cases) = demandsCases cases
  | [], _ => rfl
  | ⟨guard, action, value⟩ :: cases, kept => by
    have first := demandsBody_prune_of_kept action fun r h => kept r (by simp [definitionsCases, h])
    have rest := demandsCases_prune_of_kept cases fun r h => kept r (by simp [definitionsCases, h])
    rw [pruneCases, demandsCases, first, rest, demandsCases]

end

end

end Instruction

namespace Renumbering

variable {renumbering : Renumbering} {register : Register}

theorem lt_of_target {found : Option Register} (h : renumbering.target register = .ok found) :
    register < renumbering.length :=
  (List.getElem?_eq_some_iff.mp (entry_eq_ok_iff.mp h)).1

theorem lt_of_operand {renamed : Register} (h : renumbering.operand register = .ok renamed) :
    register < renumbering.length := by
  obtain ⟨found, looked, _⟩ := bind_eq_ok_iff.mp h
  exact lt_of_target looked

theorem length_assign (next : Nat) (flags : List Bool) :
    (assign next flags).length = flags.length := by
  induction flags generalizing next with
  | nil => rfl
  | cons live flags ih => cases live <;> simp [assign, ih]

end Renumbering

namespace Instruction

section

variable {renumbering : Renumbering}

mutual

theorem definitions_of_sweep : ∀ {instruction : Instruction φ} {swept : Option (Instruction φ)},
    instruction.sweep renumbering = .ok swept →
    ∀ r ∈ instruction.definitions, r < renumbering.length
  | compute result operation, _, h => by
    obtain ⟨found, looked, _⟩ := bind_eq_ok_iff.mp h
    simpa [definitions] using Renumbering.lt_of_target looked
  | call result callee arguments, _, h => by
    obtain ⟨_, _, afterCallee⟩ := bind_eq_ok_iff.mp h
    obtain ⟨_, _, afterArguments⟩ := bind_eq_ok_iff.mp afterCallee
    obtain ⟨_, renamed, _⟩ := bind_eq_ok_iff.mp afterArguments
    simpa [definitions] using Renumbering.lt_of_operand renamed
  | select result key cases, _, h => by
    obtain ⟨_, _, afterKey⟩ := bind_eq_ok_iff.mp h
    obtain ⟨_, inner, afterCases⟩ := bind_eq_ok_iff.mp afterKey
    obtain ⟨_, renamed, _⟩ := bind_eq_ok_iff.mp afterCases
    exact List.forall_mem_cons.mpr
      ⟨Renumbering.lt_of_operand renamed, definitions_of_sweepCases inner⟩
  | loop body, _, h => by
    obtain ⟨_, inner, _⟩ := bind_eq_ok_iff.mp h
    exact definitions_of_sweepBody inner
  | leave, _, _ => by simp [definitions]

theorem definitions_of_sweepBody : ∀ {body swept : Body φ},
    sweepBody renumbering body = .ok swept → ∀ r ∈ definitionsBody body, r < renumbering.length
  | [], _, _ => by simp [definitionsBody]
  | instruction :: body, _, h => by
    obtain ⟨_, first, afterFirst⟩ := bind_eq_ok_iff.mp h
    obtain ⟨_, rest, _⟩ := bind_eq_ok_iff.mp afterFirst
    exact List.forall_mem_append.mpr ⟨definitions_of_sweep first, definitions_of_sweepBody rest⟩

theorem definitions_of_sweepCases : ∀ {cases swept : Cases φ},
    sweepCases renumbering cases = .ok swept → ∀ r ∈ definitionsCases cases, r < renumbering.length
  | [], _, _ => by simp [definitionsCases]
  | ⟨guard, action, value⟩ :: cases, _, h => by
    obtain ⟨_, renamed, afterGuard⟩ := bind_eq_ok_iff.mp h
    obtain ⟨_, body, afterAction⟩ := bind_eq_ok_iff.mp afterGuard
    obtain ⟨_, _, afterValue⟩ := bind_eq_ok_iff.mp afterAction
    obtain ⟨_, rest, _⟩ := bind_eq_ok_iff.mp afterValue
    have bound : ∀ r ∈ guard.bindings, r < renumbering.length := by
      cases guard with
      | equals key => simp [Guard.bindings]
      | element which binding =>
        obtain ⟨_, looked, _⟩ := bind_eq_ok_iff.mp renamed
        simpa [Guard.bindings] using Renumbering.lt_of_operand looked
    rw [definitionsCases, List.forall_mem_append, List.forall_mem_append]
    exact ⟨⟨bound, definitions_of_sweepBody body⟩, definitions_of_sweepCases rest⟩

end

end

end Instruction

namespace Function

variable {function : Function φ}

theorem inRange_of_layer {next : Function φ} (h : function.layer = .ok next) :
    function.InRange := by
  obtain ⟨live, scanned, afterScan⟩ := bind_eq_ok_iff.mp h
  obtain ⟨body, swept, _⟩ := bind_eq_ok_iff.mp afterScan
  rw [liveness] at scanned
  split at scanned
  · rename_i fits
    obtain rfl := Except.ok.inj scanned
    have defined := Instruction.definitions_of_sweepBody swept
    rw [Renumbering.length_assign, List.length_map, List.length_range] at defined
    exact ⟨fits.1, by simpa using fits.2, defined⟩
  · cases scanned

theorem layer_eq_ok_iff {next : Function φ} :
    function.layer = .ok next ↔ function.InRange ∧ next = function.restrict function.keeps := by
  constructor
  · intro h
    have inRange := inRange_of_layer h
    rw [layer_eq inRange] at h
    exact ⟨inRange, (Except.ok.inj h).symm⟩
  · rintro ⟨inRange, rfl⟩
    exact layer_eq inRange

theorem exists_of_layers {counts : List Nat} {last : Function φ}
    (h : function.layers = .ok (counts, last)) :
    ∃ before : Function φ, before.InRange ∧ (∀ r < before.registerCount, before.keeps r) ∧
      last = before.restrict before.keeps := by
  fun_induction layers function generalizing counts with
  | case1 function fault failed => cases h
  | case2 function next layered smaller fault failed ih => cases h
  | case3 function next layered smaller later final equation ih =>
    obtain ⟨_, rfl⟩ := Prod.mk.inj (Except.ok.inj h)
    exact ih equation
  | case4 function next layered all =>
    obtain ⟨_, rfl⟩ := Prod.mk.inj (Except.ok.inj h)
    obtain ⟨inRange, rfl⟩ := layer_eq_ok_iff.mp layered
    have atMost : rank function.keeps function.registerCount ≤ function.registerCount := rank_le
    exact ⟨function, inRange,
      rank_eq_self_iff.mp (Nat.le_antisymm atMost (Nat.not_lt.mp all)), rfl⟩

/-- Where every register is kept, all that changes is empty loops and spare names. -/
theorem restrict_of_all (inRange : function.InRange)
    (all : ∀ r < function.registerCount, function.keeps r) :
    function.restrict function.keeps =
      { function with
        registerNames := function.registerNames.take function.registerCount
        body := Instruction.pruneBody function.keeps function.body } := by
  have fixed : ∀ r < function.registerCount, rank function.keeps r = r := fun r below =>
    rank_eq_self_iff.mpr fun other less => all other (Nat.lt_trans less below)
  have returned : rank function.keeps function.returnValue = function.returnValue :=
    fixed _ (inRange.demanded _ List.mem_cons_self)
  have names : (List.range function.registerCount).filter function.keeps =
      List.range function.registerCount :=
    List.filter_eq_self.mpr fun r member => all r (List.mem_range.mp member)
  have body : Instruction.renameBody (rank function.keeps)
      (Instruction.pruneBody function.keeps function.body) =
      Instruction.pruneBody function.keeps function.body := by
    refine Instruction.renameBody_eq_self _ (fun r member => ?_) fun r member => ?_
    · rw [Instruction.definitionsBody_prune function.body fun r demanded =>
        keeps_of_mem_demands (List.mem_cons_of_mem _ demanded)] at member
      exact fixed r (inRange.defined r (List.mem_of_mem_filter member))
    · exact fixed r (inRange.demanded r
        (List.mem_cons_of_mem _ (Instruction.demandsBody_prune_subset function.body member)))
  rw [restrict, rank_eq_self_iff.mpr all, returned, names, filterMap_getElem?_range, body]

def Settled (function : Function φ) : Prop := function.layer = .ok function

theorem settled_restrict (inRange : function.InRange)
    (all : ∀ r < function.registerCount, function.keeps r) :
    (function.restrict function.keeps).Settled := by
  have defined : ∀ r ∈ Instruction.definitionsBody function.body, function.keeps r :=
    fun r member => all r (inRange.defined r member)
  have demanded := Instruction.demandsBody_prune_of_kept function.body defined
  have written := Instruction.definitionsBody_prune function.body fun r member =>
    keeps_of_mem_demands (List.mem_cons_of_mem _ member)
  rw [List.filter_eq_self.mpr defined] at written
  rw [restrict_of_all inRange all]
  generalize shape : ({ function with
    registerNames := function.registerNames.take function.registerCount
    body := Instruction.pruneBody function.keeps function.body } : Function φ) = last
  have keeps : last.keeps = function.keeps := by
    subst shape
    funext r
    simp only [Function.keeps, demands, demanded]
  have inRange' : last.InRange := by
    subst shape
    exact ⟨inRange.parameters, by simpa only [demands, demanded] using inRange.demanded,
      by simpa only [written] using inRange.defined⟩
  have count : last.registerCount = function.registerCount := by rw [← shape]
  refine layer_eq_ok_iff.mpr ⟨inRange', ?_⟩
  rw [restrict_of_all inRange' (by rwa [keeps, count]), keeps]
  subst shape
  simp [Instruction.pruneBody_pruneBody, List.take_take]

theorem settled_of_layers {counts : List Nat} {last : Function φ}
    (h : function.layers = .ok (counts, last)) : last.Settled := by
  obtain ⟨before, inRange, all, rfl⟩ := exists_of_layers h
  exact settled_restrict inRange all

theorem settled_of_removeDeadCode {last : Function φ} {stats : DeadCodeStats}
    (h : function.removeDeadCode.outcome = .ok (last, stats)) : last.Settled := by
  rw [removeDeadCode] at h
  split at h
  · cases h
  · rename_i counts reduced layered
    obtain ⟨rfl, _⟩ := Prod.mk.inj (Except.ok.inj h)
    exact settled_of_layers layered

theorem Settled.removeDeadCode (settled : function.Settled) :
    function.removeDeadCode = ⟨[], .ok (function, ⟨1, 0, 0⟩)⟩ := by
  have layered : function.layers = .ok ([], function) := by
    rw [layers, show function.layer = .ok function from settled]
    simp
  rw [Function.removeDeadCode, layered]
  simp [layerEvents]

end Function

section Relabel

variable (f : φ → ψ)

theorem Operation.rename_relabel (g : Register → Register) (operation : Operation φ) :
    (operation.relabel f).rename g = (operation.rename g).relabel f := by
  cases operation <;> rfl

namespace Instruction

mutual

theorem demands_relabel : ∀ instruction : Instruction φ,
    (instruction.relabel f).demands = instruction.demands
  | compute .. => by simp [relabel, demands]
  | call .. => by simp [relabel, demands]
  | select _ _ cases => by simp [relabel, demands, demandsCases_relabel cases]
  | loop body => by simp [relabel, demands, demandsBody_relabel body]
  | leave => by simp [relabel, demands]

theorem demandsBody_relabel : ∀ body : Body φ,
    demandsBody (relabelBody f body) = demandsBody body
  | [] => rfl
  | instruction :: body => by
    simp [relabelBody, demandsBody, demands_relabel instruction, demandsBody_relabel body]

theorem demandsCases_relabel : ∀ cases : Cases φ,
    demandsCases (relabelCases f cases) = demandsCases cases
  | [] => rfl
  | ⟨guard, action, value⟩ :: cases => by
    simp [relabelCases, demandsCases, demandsBody_relabel action, demandsCases_relabel cases]

end

theorem relabelBody_append (first second : Body φ) :
    relabelBody f (first ++ second) = relabelBody f first ++ relabelBody f second := by
  induction first with
  | nil => rfl
  | cons instruction first ih => rw [List.cons_append, relabelBody, relabelBody, ih]; rfl

theorem isEmpty_relabelBody (body : Body φ) : (relabelBody f body).isEmpty = body.isEmpty := by
  cases body <;> rfl

mutual

theorem prune_relabel (keep : Register → Bool) : ∀ instruction : Instruction φ,
    ((instruction.relabel f).prune keep).toList = relabelBody f (instruction.prune keep).toList
  | compute result operation => by
    rw [relabel, prune, prune]
    split <;> rfl
  | call .. => rfl
  | select _ _ cases => by
    rw [relabel, prune, pruneCases_relabel keep cases]
    rfl
  | loop body => by
    rw [relabel, prune, prune, pruneBody_relabel keep body, isEmpty_relabelBody]
    split <;> rfl
  | leave => rfl

theorem pruneBody_relabel (keep : Register → Bool) : ∀ body : Body φ,
    pruneBody keep (relabelBody f body) = relabelBody f (pruneBody keep body)
  | [] => rfl
  | instruction :: body => by
    rw [relabelBody, pruneBody, prune_relabel keep instruction, pruneBody_relabel keep body,
      pruneBody, relabelBody_append]

theorem pruneCases_relabel (keep : Register → Bool) : ∀ cases : Cases φ,
    pruneCases keep (relabelCases f cases) = relabelCases f (pruneCases keep cases)
  | [] => rfl
  | ⟨guard, action, value⟩ :: cases => by
    rw [relabelCases, pruneCases, pruneBody_relabel keep action, pruneCases_relabel keep cases,
      pruneCases, relabelCases]

end

mutual

theorem rename_relabel (g : Register → Register) : ∀ instruction : Instruction φ,
    (instruction.relabel f).rename g = (instruction.rename g).relabel f
  | compute result operation => by
    rw [relabel, rename, operation.rename_relabel, rename, relabel]
  | call .. => rfl
  | select _ _ cases => by rw [relabel, rename, renameCases_relabel g cases, rename, relabel]
  | loop body => by rw [relabel, rename, renameBody_relabel g body, rename, relabel]
  | leave => rfl

theorem renameBody_relabel (g : Register → Register) : ∀ body : Body φ,
    renameBody g (relabelBody f body) = relabelBody f (renameBody g body)
  | [] => rfl
  | instruction :: body => by
    rw [relabelBody, renameBody, rename_relabel g instruction, renameBody_relabel g body,
      renameBody, relabelBody]

theorem renameCases_relabel (g : Register → Register) : ∀ cases : Cases φ,
    renameCases g (relabelCases f cases) = relabelCases f (renameCases g cases)
  | [] => rfl
  | ⟨guard, action, value⟩ :: cases => by
    rw [relabelCases, renameCases, renameBody_relabel g action, renameCases_relabel g cases,
      renameCases, relabelCases]

end

end Instruction

namespace Function

variable {function : Function φ}

theorem demands_relabel : (function.relabel f).demands = function.demands := by
  rw [demands, relabel, Instruction.demandsBody_relabel, demands]

theorem restrict_relabel (keep : Register → Bool) :
    (function.relabel f).restrict keep = (function.restrict keep).relabel f := by
  simp only [restrict, relabel, Instruction.pruneBody_relabel, Instruction.renameBody_relabel]

theorem Settled.relabel (settled : function.Settled) : (function.relabel f).Settled := by
  obtain ⟨inRange, same⟩ := layer_eq_ok_iff.mp settled
  have keeps : (function.relabel f).keeps = function.keeps := by
    funext r
    simp only [Function.keeps, demands_relabel]
    rfl
  refine layer_eq_ok_iff.mpr ⟨⟨inRange.parameters, ?_, ?_⟩, ?_⟩
  · rw [demands_relabel]
    exact inRange.demanded
  · rw [Function.relabel, Instruction.definitionsBody_relabel]
    exact inRange.defined
  · rw [keeps, restrict_relabel, ← same]

end Function

end Relabel

end RegisterIR
