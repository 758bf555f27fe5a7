import RegisterIR.Proofs.ListedPrograms
import RegisterIR.Proofs.Relabelling

/-! Relabelling changes labels only. Bodies resemble each other when they differ in nothing but the
functions that their literals refer to. What resembles a body is determined by its list of labels,
so this list has every label that a body holds, each at its place; and relabelling is the one way to
a body with the mapped list. -/

namespace RegisterIR

variable {φ ψ : Type}

theorem eq_map_of_append {f : φ → ψ} {first second : List φ} {first' second' : List ψ}
    (same : first' ++ second' = (first ++ second).map f) (length : first'.length = first.length) :
    first' = first.map f ∧ second' = second.map f := by
  rw [List.map_append] at same
  exact List.append_inj same (by rw [List.length_map, length])

namespace Literal

mutual

/-- The literals are the same but for the labels of functions. -/
inductive Resembles : Literal φ → Literal ψ → Prop
  | unit : Resembles unit unit
  | integer (value : Nat) : Resembles (integer value) (integer value)
  | string (content : String) : Resembles (string content) (string content)
  | function (label : φ) (label' : ψ) : Resembles (function label) (function label')
  | element (which : ElementRef) : Resembles (element which) (element which)
  | wrapped (which : ElementRef) {state : Literal φ} {state' : Literal ψ} :
      Resembles state state' → Resembles (wrapped which state) (wrapped which state')
  | constructor (which : ElementRef) : Resembles (constructor which) (constructor which)
  | tuple {elements : List (Literal φ)} {elements' : List (Literal ψ)} :
      ResemblesAll elements elements' → Resembles (tuple elements) (tuple elements')

inductive ResemblesAll : List (Literal φ) → List (Literal ψ) → Prop
  | nil : ResemblesAll [] []
  | cons {literal : Literal φ} {literal' : Literal ψ} {literals : List (Literal φ)}
      {literals' : List (Literal ψ)} : Resembles literal literal' →
      ResemblesAll literals literals' → ResemblesAll (literal :: literals) (literal' :: literals')

end

mutual

theorem resembles_relabel (f : φ → ψ) : ∀ literal : Literal φ, literal.Resembles (literal.relabel f)
  | unit => .unit
  | integer value => .integer value
  | string content => .string content
  | function label => .function label (f label)
  | element which => .element which
  | wrapped which state => .wrapped which (resembles_relabel f state)
  | constructor which => .constructor which
  | tuple elements => .tuple (resemblesAll_relabel f elements)

theorem resemblesAll_relabel (f : φ → ψ) : ∀ literals : List (Literal φ),
    ResemblesAll literals (relabelAll f literals)
  | [] => .nil
  | literal :: literals => .cons (resembles_relabel f literal) (resemblesAll_relabel f literals)

end

mutual

theorem Resembles.length_functions : ∀ {literal : Literal φ} {other : Literal ψ},
    literal.Resembles other → other.functions.length = literal.functions.length
  | _, _, .unit => rfl
  | _, _, .integer _ => rfl
  | _, _, .string _ => rfl
  | _, _, .function _ _ => rfl
  | _, _, .element _ => rfl
  | _, _, .wrapped _ state => state.length_functions
  | _, _, .constructor _ => rfl
  | _, _, .tuple elements => elements.length_functions

theorem ResemblesAll.length_functions : ∀ {literals : List (Literal φ)} {others : List (Literal ψ)},
    ResemblesAll literals others →
    (functionsAll others).length = (functionsAll literals).length
  | _, _, .nil => rfl
  | _, _, .cons first rest => by
    rw [functionsAll, functionsAll, List.length_append, List.length_append, first.length_functions,
      rest.length_functions]

end

mutual

theorem Resembles.eq_relabel {f : φ → ψ} : ∀ {literal : Literal φ} {other : Literal ψ},
    literal.Resembles other → other.functions = literal.functions.map f → other = literal.relabel f
  | _, _, .unit, _ => rfl
  | _, _, .integer _, _ => rfl
  | _, _, .string _, _ => rfl
  | _, _, .function _ _, same => congrArg function (List.cons.inj same).1
  | _, _, .element _, _ => rfl
  | _, _, .wrapped which state, same => congrArg (wrapped which) (state.eq_relabel same)
  | _, _, .constructor _, _ => rfl
  | _, _, .tuple elements, same => congrArg tuple (elements.eq_relabel same)

theorem ResemblesAll.eq_relabel {f : φ → ψ} : ∀ {literals : List (Literal φ)}
    {others : List (Literal ψ)}, ResemblesAll literals others →
    functionsAll others = (functionsAll literals).map f → others = relabelAll f literals
  | _, _, .nil, _ => rfl
  | _, _, .cons first rest, same => by
    obtain ⟨here, later⟩ := eq_map_of_append same first.length_functions
    rw [relabelAll, first.eq_relabel here, rest.eq_relabel later]

end

end Literal

namespace Operation

inductive Resembles : Operation φ → Operation ψ → Prop
  | literal {value : Literal φ} {value' : Literal ψ} (type : ValueType) :
      value.Resembles value' → Resembles (literal value type) (literal value' type)
  | tuple (elements : List Register) : Resembles (tuple elements) (tuple elements)
  | member (source : Register) (index : Nat) : Resembles (member source index) (member source index)
  | construct (which : ElementRef) (state : Register) (stateType : ValueType) :
      Resembles (construct which state stateType) (construct which state stateType)
  | global : Resembles global global

theorem resembles_relabel (f : φ → ψ) (operation : Operation φ) :
    operation.Resembles (operation.relabel f) := by
  cases operation with
  | literal value type => exact .literal type (value.resembles_relabel f)
  | tuple elements => exact .tuple elements
  | member source index => exact .member source index
  | construct which state stateType => exact .construct which state stateType
  | global => exact .global

theorem Resembles.length_functions {operation : Operation φ} {other : Operation ψ}
    (h : operation.Resembles other) : other.functions.length = operation.functions.length := by
  cases h with
  | literal _ value => exact value.length_functions
  | _ => rfl

theorem Resembles.eq_relabel {f : φ → ψ} {operation : Operation φ} {other : Operation ψ}
    (h : operation.Resembles other) (same : other.functions = operation.functions.map f) :
    other = operation.relabel f := by
  cases h with
  | literal type value => rw [relabel, value.eq_relabel same]
  | _ => rfl

def type? : Operation φ → Option ValueType
  | literal _ type => some type
  | construct _ _ stateType => some stateType
  | _ => none

theorem type?_relabel (f : φ → ψ) (operation : Operation φ) :
    (operation.relabel f).type? = operation.type? := by
  cases operation <;> rfl

end Operation

namespace Instruction

mutual

/-- The instructions are the same, at every depth, but for the labels in literals. -/
inductive Resembles : Instruction φ → Instruction ψ → Prop
  | compute (result : Register) {operation : Operation φ} {operation' : Operation ψ} :
      operation.Resembles operation' →
      Resembles (compute result operation) (compute result operation')
  | call (result callee : Register) (arguments : List Register) :
      Resembles (call result callee arguments) (call result callee arguments)
  | select (result key : Register) {cases : Cases φ} {cases' : Cases ψ} :
      ResemblesCases cases cases' → Resembles (select result key cases) (select result key cases')
  | loop {body : Body φ} {body' : Body ψ} :
      ResemblesBody body body' → Resembles (loop body) (loop body')
  | leave : Resembles leave leave

inductive ResemblesBody : Body φ → Body ψ → Prop
  | nil : ResemblesBody [] []
  | cons {instruction : Instruction φ} {instruction' : Instruction ψ} {body : Body φ}
      {body' : Body ψ} : Resembles instruction instruction' → ResemblesBody body body' →
      ResemblesBody (instruction :: body) (instruction' :: body')

inductive ResemblesCases : Cases φ → Cases ψ → Prop
  | nil : ResemblesCases [] []
  | cons (guard : Guard) (value : Option Register) {action : Body φ} {action' : Body ψ}
      {cases : Cases φ} {cases' : Cases ψ} : ResemblesBody action action' →
      ResemblesCases cases cases' →
      ResemblesCases (⟨guard, action, value⟩ :: cases) (⟨guard, action', value⟩ :: cases')

end

mutual

theorem resembles_relabel (f : φ → ψ) : ∀ instruction : Instruction φ,
    instruction.Resembles (instruction.relabel f)
  | compute result operation => .compute result (operation.resembles_relabel f)
  | call result callee arguments => .call result callee arguments
  | select result key cases => .select result key (resemblesCases_relabel f cases)
  | loop body => .loop (resemblesBody_relabel f body)
  | leave => .leave

theorem resemblesBody_relabel (f : φ → ψ) : ∀ body : Body φ,
    ResemblesBody body (relabelBody f body)
  | [] => .nil
  | instruction :: body => .cons (resembles_relabel f instruction) (resemblesBody_relabel f body)

theorem resemblesCases_relabel (f : φ → ψ) : ∀ cases : Cases φ,
    ResemblesCases cases (relabelCases f cases)
  | [] => .nil
  | ⟨guard, action, value⟩ :: cases =>
    .cons guard value (resemblesBody_relabel f action) (resemblesCases_relabel f cases)

end

mutual

theorem Resembles.length_functions : ∀ {instruction : Instruction φ} {other : Instruction ψ},
    instruction.Resembles other → other.functions.length = instruction.functions.length
  | _, _, .compute _ operation => operation.length_functions
  | _, _, .call _ _ _ => rfl
  | _, _, .select _ _ cases => cases.length_functions
  | _, _, .loop body => body.length_functions
  | _, _, .leave => rfl

theorem ResemblesBody.length_functions : ∀ {body : Body φ} {other : Body ψ},
    ResemblesBody body other → (functionsBody other).length = (functionsBody body).length
  | _, _, .nil => rfl
  | _, _, .cons first rest => by
    rw [functionsBody, functionsBody, List.length_append, List.length_append,
      first.length_functions, rest.length_functions]

theorem ResemblesCases.length_functions : ∀ {cases : Cases φ} {others : Cases ψ},
    ResemblesCases cases others → (functionsCases others).length = (functionsCases cases).length
  | _, _, .nil => rfl
  | _, _, .cons _ _ action rest => by
    rw [functionsCases, functionsCases, List.length_append, List.length_append,
      action.length_functions, rest.length_functions]

end

mutual

theorem Resembles.eq_relabel {f : φ → ψ} : ∀ {instruction : Instruction φ} {other : Instruction ψ},
    instruction.Resembles other → other.functions = instruction.functions.map f →
    other = instruction.relabel f
  | _, _, .compute result operation, same =>
    congrArg (compute result) (operation.eq_relabel same)
  | _, _, .call _ _ _, _ => rfl
  | _, _, .select result key cases, same => congrArg (select result key) (cases.eq_relabel same)
  | _, _, .loop body, same => congrArg loop (body.eq_relabel same)
  | _, _, .leave, _ => rfl

theorem ResemblesBody.eq_relabel {f : φ → ψ} : ∀ {body : Body φ} {other : Body ψ},
    ResemblesBody body other → functionsBody other = (functionsBody body).map f →
    other = relabelBody f body
  | _, _, .nil, _ => rfl
  | _, _, .cons first rest, same => by
    obtain ⟨here, later⟩ := eq_map_of_append same first.length_functions
    rw [relabelBody, first.eq_relabel here, rest.eq_relabel later]

theorem ResemblesCases.eq_relabel {f : φ → ψ} : ∀ {cases : Cases φ} {others : Cases ψ},
    ResemblesCases cases others → functionsCases others = (functionsCases cases).map f →
    others = relabelCases f cases
  | _, _, .nil, _ => rfl
  | _, _, .cons _ _ action rest, same => by
    obtain ⟨here, later⟩ := eq_map_of_append same action.length_functions
    rw [relabelCases, action.eq_relabel here, rest.eq_relabel later]

end

mutual

theorem size_relabel (f : φ → ψ) : ∀ instruction : Instruction φ,
    (instruction.relabel f).size = instruction.size
  | compute .. => rfl
  | call .. => rfl
  | select _ _ cases => by rw [relabel, size, size, sizeCases_relabel f cases]
  | loop body => by rw [relabel, size, size, sizeBody_relabel f body]
  | leave => rfl

theorem sizeBody_relabel (f : φ → ψ) : ∀ body : Body φ,
    sizeBody (relabelBody f body) = sizeBody body
  | [] => rfl
  | instruction :: body => by
    rw [relabelBody, sizeBody, sizeBody, size_relabel f instruction, sizeBody_relabel f body]

theorem sizeCases_relabel (f : φ → ψ) : ∀ cases : Cases φ,
    sizeCases (relabelCases f cases) = sizeCases cases
  | [] => rfl
  | ⟨_, action, _⟩ :: cases => by
    rw [relabelCases, sizeCases, sizeCases, sizeBody_relabel f action, sizeCases_relabel f cases]

end

theorem flatMap_operands_relabelCases (f : φ → ψ) (cases : Cases φ) :
    ((relabelCases f cases).flatMap fun case => case.guard.operands ++ case.value.toList) =
      cases.flatMap fun case => case.guard.operands ++ case.value.toList := by
  induction cases with
  | nil => rfl
  | cons case cases ih => rw [relabelCases, List.flatMap_cons, List.flatMap_cons, ih]

mutual

theorem rows_relabel (f : φ → ψ) (depth : Nat) : ∀ instruction : Instruction φ,
    (instruction.relabel f).rows depth = instruction.rows depth
  | compute _ operation => by rw [relabel, rows, rows, operation.operands_relabel]
  | call .. => rfl
  | select _ _ cases => by
    rw [relabel, rows, rows, operands, operands, flatMap_operands_relabelCases,
      rowsCases_relabel f (depth + 1) cases]
  | loop body => by rw [relabel, rows, rows, rowsBody_relabel f (depth + 1) body]
  | leave => rfl

theorem rowsBody_relabel (f : φ → ψ) (depth : Nat) : ∀ body : Body φ,
    rowsBody depth (relabelBody f body) = rowsBody depth body
  | [] => rfl
  | instruction :: body => by
    rw [relabelBody, rowsBody, rowsBody, rows_relabel f depth instruction,
      rowsBody_relabel f depth body]

theorem rowsCases_relabel (f : φ → ψ) (depth : Nat) : ∀ cases : Cases φ,
    rowsCases depth (relabelCases f cases) = rowsCases depth cases
  | [] => rfl
  | ⟨_, action, _⟩ :: cases => by
    rw [relabelCases, rowsCases, rowsCases, rowsBody_relabel f depth action,
      rowsCases_relabel f depth cases]

end

theorem types_relabelBody (f : φ → ψ) (body : Body φ) :
    (operationsBody (relabelBody f body)).map Operation.type? =
      (operationsBody body).map Operation.type? := by
  rw [operationsBody_relabel, List.map_map]
  exact List.map_congr_left fun operation _ => operation.type?_relabel f

theorem relabelBody_eq_self_iff {f : φ → φ} {body : Body φ} :
    relabelBody f body = body ↔ ∀ label ∈ functionsBody body, f label = label := by
  constructor
  · intro same
    have mapped : (functionsBody body).map f = (functionsBody body).map id := by
      rw [← functionsBody_relabel, same, List.map_id]
    exact List.map_inj_left.mp mapped
  · intro fixed
    have composed := relabelBody_relabelBody (f := id) (g := f) (h := id) body fixed
    rwa [relabelBody_id] at composed

/-- Relabelling a body by a map turns its list of labels into the mapped list, in the same order,
and leaves all else of the body as it was: the number of its instructions, what each reads, writes
and states as a type, and all other parts of literals. No other body that resembles the old one has
this list. Nothing happens exactly when the map leaves the labels of the list alone. -/
theorem relabelBody_changes_labels_only (f : φ → φ) (body : Body φ) :
    functionsBody (relabelBody f body) = (functionsBody body).map f ∧
    ResemblesBody body (relabelBody f body) ∧
    (∀ other : Body φ, ResemblesBody body other →
      functionsBody other = (functionsBody body).map f → other = relabelBody f body) ∧
    sizeBody (relabelBody f body) = sizeBody body ∧
    (∀ depth, rowsBody depth (relabelBody f body) = rowsBody depth body) ∧
    (operationsBody (relabelBody f body)).map Operation.type? =
      (operationsBody body).map Operation.type? ∧
    (relabelBody f body = body ↔ ∀ label ∈ functionsBody body, f label = label) :=
  ⟨functionsBody_relabel body, resemblesBody_relabel f body,
    fun _ alike same => alike.eq_relabel same, sizeBody_relabel f body,
    fun depth => rowsBody_relabel f depth body, types_relabelBody f body, relabelBody_eq_self_iff⟩

end Instruction

end RegisterIR
