import RegisterIR.Program

/-! Laws of relabelling. Literals refer to functions by labels; relabelling maps the list of these
labels, nothing happens under the identity, and two relabellings in a row are one. Only the labels
that occur matter. A traversal that never fails at these labels is a relabelling. -/

namespace RegisterIR

variable {φ ψ χ : Type} {f : φ → ψ} {g : ψ → χ} {h : φ → χ}
variable {m : Type → Type} [Monad m] [LawfulMonad m] {visit : φ → m ψ}

namespace Literal

mutual

@[simp] theorem relabel_id : ∀ value : Literal φ, value.relabel id = value
  | unit => rfl
  | integer _ => rfl
  | string _ => rfl
  | function _ => rfl
  | element _ => rfl
  | wrapped _ state => by rw [relabel, relabel_id state]
  | constructor _ => rfl
  | tuple elements => by rw [relabel, relabelAll_id elements]

@[simp] theorem relabelAll_id : ∀ values : List (Literal φ), relabelAll id values = values
  | [] => rfl
  | value :: values => by rw [relabelAll, relabel_id value, relabelAll_id values]

end

mutual

theorem relabel_relabel : ∀ value : Literal φ,
    (∀ label ∈ value.functions, g (f label) = h label) →
    (value.relabel f).relabel g = value.relabel h
  | unit, _ => rfl
  | integer _, _ => rfl
  | string _, _ => rfl
  | function label, same => congrArg function (same label List.mem_cons_self)
  | element _, _ => rfl
  | wrapped _ state, same => by rw [relabel, relabel, relabel_relabel state same, relabel]
  | constructor _, _ => rfl
  | tuple elements, same => by rw [relabel, relabel, relabelAll_relabelAll elements same, relabel]

theorem relabelAll_relabelAll : ∀ values : List (Literal φ),
    (∀ label ∈ functionsAll values, g (f label) = h label) →
    relabelAll g (relabelAll f values) = relabelAll h values
  | [], _ => rfl
  | value :: values, same => by
    rw [functionsAll, List.forall_mem_append] at same
    rw [relabelAll, relabelAll, relabel_relabel value same.1, relabelAll_relabelAll values same.2,
      relabelAll]

end

mutual

theorem functions_relabel : ∀ value : Literal φ, (value.relabel f).functions = value.functions.map f
  | unit => rfl
  | integer _ => rfl
  | string _ => rfl
  | function _ => rfl
  | element _ => rfl
  | wrapped _ state => functions_relabel state
  | constructor _ => rfl
  | tuple elements => functionsAll_relabelAll elements

theorem functionsAll_relabelAll : ∀ values : List (Literal φ),
    functionsAll (relabelAll f values) = (functionsAll values).map f
  | [] => rfl
  | value :: values => by
    rw [relabelAll, functionsAll, functionsAll, functions_relabel value,
      functionsAll_relabelAll values, List.map_append]

end

mutual

theorem update_eq_pure : ∀ value : Literal φ,
    (∀ label ∈ value.functions, visit label = pure (f label)) →
    value.update visit = pure (value.relabel f)
  | unit, _ => rfl
  | integer _, _ => rfl
  | string _, _ => rfl
  | function label, known => by
    rw [update, known label List.mem_cons_self, pure_bind, relabel]
  | element _, _ => rfl
  | wrapped _ state, known => by rw [update, update_eq_pure state known, pure_bind, relabel]
  | constructor _, _ => rfl
  | tuple elements, known => by rw [update, updateAll_eq_pure elements known, pure_bind, relabel]

theorem updateAll_eq_pure : ∀ values : List (Literal φ),
    (∀ label ∈ functionsAll values, visit label = pure (f label)) →
    updateAll visit values = pure (relabelAll f values)
  | [], _ => rfl
  | value :: values, known => by
    rw [functionsAll, List.forall_mem_append] at known
    rw [updateAll, update_eq_pure value known.1, pure_bind, updateAll_eq_pure values known.2,
      pure_bind, relabelAll]

end

end Literal

namespace Operation

@[simp] theorem relabel_id (operation : Operation φ) : operation.relabel id = operation := by
  cases operation <;> simp [relabel]

theorem relabel_relabel (operation : Operation φ)
    (same : ∀ label ∈ operation.functions, g (f label) = h label) :
    (operation.relabel f).relabel g = operation.relabel h := by
  cases operation with
  | literal value type => rw [relabel, relabel, value.relabel_relabel same, relabel]
  | _ => rfl

theorem functions_relabel (operation : Operation φ) :
    (operation.relabel f).functions = operation.functions.map f := by
  cases operation with
  | literal value type => exact value.functions_relabel
  | _ => rfl

theorem update_eq_pure (operation : Operation φ)
    (known : ∀ label ∈ operation.functions, visit label = pure (f label)) :
    operation.update visit = pure (operation.relabel f) := by
  cases operation with
  | literal value type => rw [update, value.update_eq_pure known, pure_bind, relabel]
  | _ => rfl

end Operation

namespace Instruction

mutual

@[simp] theorem relabel_id : ∀ instruction : Instruction φ, instruction.relabel id = instruction
  | compute _ operation => by rw [relabel, operation.relabel_id]
  | call .. => rfl
  | select _ _ cases => by rw [relabel, relabelCases_id cases]
  | loop body => by rw [relabel, relabelBody_id body]
  | leave => rfl

@[simp] theorem relabelBody_id : ∀ body : Body φ, relabelBody id body = body
  | [] => rfl
  | instruction :: body => by rw [relabelBody, relabel_id instruction, relabelBody_id body]

@[simp] theorem relabelCases_id : ∀ cases : Cases φ, relabelCases id cases = cases
  | [] => rfl
  | ⟨_, action, _⟩ :: cases => by rw [relabelCases, relabelBody_id action, relabelCases_id cases]

end

mutual

theorem relabel_relabel : ∀ value : Instruction φ,
    (∀ label ∈ value.functions, g (f label) = h label) →
    (value.relabel f).relabel g = value.relabel h
  | compute _ operation, same => by rw [relabel, relabel, operation.relabel_relabel same, relabel]
  | call .., _ => rfl
  | select _ _ cases, same => by
    rw [relabel, relabel, relabelCases_relabelCases cases same, relabel]
  | loop body, same => by rw [relabel, relabel, relabelBody_relabelBody body same, relabel]
  | leave, _ => rfl

theorem relabelBody_relabelBody : ∀ body : Body φ,
    (∀ label ∈ functionsBody body, g (f label) = h label) →
    relabelBody g (relabelBody f body) = relabelBody h body
  | [], _ => rfl
  | instruction :: body, same => by
    rw [functionsBody, List.forall_mem_append] at same
    rw [relabelBody, relabelBody, relabel_relabel instruction same.1,
      relabelBody_relabelBody body same.2, relabelBody]

theorem relabelCases_relabelCases : ∀ cases : Cases φ,
    (∀ label ∈ functionsCases cases, g (f label) = h label) →
    relabelCases g (relabelCases f cases) = relabelCases h cases
  | [], _ => rfl
  | ⟨_, action, _⟩ :: cases, same => by
    rw [functionsCases, List.forall_mem_append] at same
    rw [relabelCases, relabelCases, relabelBody_relabelBody action same.1,
      relabelCases_relabelCases cases same.2, relabelCases]

end

mutual

theorem functions_relabel : ∀ value : Instruction φ,
    (value.relabel f).functions = value.functions.map f
  | compute _ operation => operation.functions_relabel
  | call .. => rfl
  | select _ _ cases => functionsCases_relabel cases
  | loop body => functionsBody_relabel body
  | leave => rfl

theorem functionsBody_relabel : ∀ body : Body φ,
    functionsBody (relabelBody f body) = (functionsBody body).map f
  | [] => rfl
  | instruction :: body => by
    rw [relabelBody, functionsBody, functionsBody, functions_relabel instruction,
      functionsBody_relabel body, List.map_append]

theorem functionsCases_relabel : ∀ cases : Cases φ,
    functionsCases (relabelCases f cases) = (functionsCases cases).map f
  | [] => rfl
  | ⟨_, action, _⟩ :: cases => by
    rw [relabelCases, functionsCases, functionsCases, functionsBody_relabel action,
      functionsCases_relabel cases, List.map_append]

end

mutual

theorem update_eq_pure : ∀ value : Instruction φ,
    (∀ label ∈ value.functions, visit label = pure (f label)) →
    value.update visit = pure (value.relabel f)
  | compute _ operation, known => by
    rw [update, operation.update_eq_pure known, pure_bind, relabel]
  | call .., _ => rfl
  | select _ _ cases, known => by
    rw [update, updateCases_eq_pure cases known, pure_bind, relabel]
  | loop body, known => by rw [update, updateBody_eq_pure body known, pure_bind, relabel]
  | leave, _ => rfl

theorem updateBody_eq_pure : ∀ body : Body φ,
    (∀ label ∈ functionsBody body, visit label = pure (f label)) →
    updateBody visit body = pure (relabelBody f body)
  | [], _ => rfl
  | instruction :: body, known => by
    rw [functionsBody, List.forall_mem_append] at known
    rw [updateBody, update_eq_pure instruction known.1, pure_bind,
      updateBody_eq_pure body known.2, pure_bind, relabelBody]

theorem updateCases_eq_pure : ∀ cases : Cases φ,
    (∀ label ∈ functionsCases cases, visit label = pure (f label)) →
    updateCases visit cases = pure (relabelCases f cases)
  | [], _ => rfl
  | ⟨_, action, _⟩ :: cases, known => by
    rw [functionsCases, List.forall_mem_append] at known
    rw [updateCases, updateBody_eq_pure action known.1, pure_bind,
      updateCases_eq_pure cases known.2, pure_bind, relabelCases]

end

end Instruction

namespace Function

variable {function : Function φ}

@[simp] theorem relabel_id (function : Function φ) : function.relabel id = function := by
  simp [relabel]

theorem relabel_relabel (same : ∀ label ∈ function.functions, g (f label) = h label) :
    (function.relabel f).relabel g = function.relabel h := by
  simp only [relabel, Instruction.relabelBody_relabelBody function.body same]

/-- Only the labels that occur matter. -/
theorem relabel_congr {f' : φ → ψ} (same : ∀ label ∈ function.functions, f label = f' label) :
    function.relabel f = function.relabel f' := by
  have first : (function.relabel id).relabel f = function.relabel f' := relabel_relabel same
  rwa [relabel_id] at first

theorem functions_relabel : (function.relabel f).functions = function.functions.map f :=
  Instruction.functionsBody_relabel function.body

theorem update_eq_pure (known : ∀ label ∈ function.functions, visit label = pure (f label)) :
    function.update visit = pure (function.relabel f) := by
  rw [update, Instruction.updateBody_eq_pure function.body known, pure_bind, relabel]

end Function

end RegisterIR
