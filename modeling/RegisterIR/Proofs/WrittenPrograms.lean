import RegisterIR.Proofs.ReadPrograms
import RegisterIR.Proofs.WrittenBodies

/-! Written programs are read back. Enums are written before structs, those before interfaces, and
functions last; a program whose types can be declared in this order is read from its written form
as it is. -/

namespace RegisterIR

namespace Reading

variable {types large : TypeTable} {text rest : List Char}

def elementText (types : TypeTable) (element : Element) : String :=
  element.name ++ (match element.state with
    | some state => "(" ++ state.render types ++ ")"
    | none => "")

def enumerationText (types : TypeTable) (enumeration : Enumeration) (rest : List Char) :
    List Char :=
  enumeration.name.toList ++ ' ' :: ('\x7b' :: '\n' ::
    (enumeration.elements.map fun element => (elementText types element).toList).flatMap
      fieldLine ++ '\x7d' :: '\n' :: rest)

theorem toList_render_enumeration (types : TypeTable) (enumeration : Enumeration)
    (rest : List Char) : (enumeration.render types).toList ++ rest =
      "enum ".toList ++ enumerationText types enumeration rest := by
  rw [Enumeration.render, enumerationText]
  simp only [String.toList_append, String.toList_join, List.flatMap_map, List.append_assoc]
  refine congrArg (fun lines => "enum ".toList ++ (enumeration.name.toList ++ ' ' ::
    '\x7b' :: '\n' :: (lines ++ '\x7d' :: '\n' :: rest))) (List.flatMap_congr fun element _ => ?_)
  simp only [elementText, fieldLine, String.toList_append, toList_indentation, List.append_assoc]
  rfl

def recordText (types : TypeTable) (record : Record) (rest : List Char) : List Char :=
  record.name.toList ++ ' ' :: ('\x7b' :: '\n' ::
    (record.members.map fun member =>
      (member.name ++ ": " ++ member.type.render types).toList).flatMap fieldLine ++
      '\x7d' :: '\n' :: rest)

theorem toList_render_record (types : TypeTable) (record : Record) (rest : List Char) :
    (record.render types).toList ++ rest = "struct ".toList ++ recordText types record rest := by
  rw [Record.render, recordText]
  simp only [String.toList_append, String.toList_join, List.flatMap_map, List.append_assoc]
  refine congrArg (fun lines => "struct ".toList ++ (record.name.toList ++ ' ' ::
    '\x7b' :: '\n' :: (lines ++ '\x7d' :: '\n' :: rest))) (List.flatMap_congr fun member _ => ?_)
  simp only [fieldLine, toList_indentation, List.append_assoc]
  rfl

theorem begins_render_enumeration (types : TypeTable) (enumeration : Enumeration) :
    Begins (enumeration.render types).toList := by
  simp only [Enumeration.render, String.toList_append, List.append_assoc]
  exact ⟨'e', _, rfl, by decide, by decide, by decide⟩

theorem begins_render_record (types : TypeTable) (record : Record) :
    Begins (record.render types).toList := by
  simp only [Record.render, String.toList_append, List.append_assoc]
  exact ⟨'s', _, rfl, by decide, by decide, by decide⟩

theorem begins_elementText {element : Element} (name : IsIdentifier element.name) :
    Begins (elementText types element).toList := by
  rw [elementText, String.toList_append]
  exact (begins_of_isWord name.1).append _

theorem any_name_eq_false {α : Type} {values : List α} {key : α → String} {name : String}
    (new : name ∉ values.map key) : values.any (key · == name) = false := by
  refine Bool.eq_false_iff.mpr fun used => ?_
  obtain ⟨other, member, same⟩ := List.any_eq_true.mp used
  exact new (List.mem_map.mpr ⟨other, member, by simpa using same⟩)

theorem not_mem_before {α : Type} {values before after : List α} {value : α} {key : α → String}
    (distinct : (values.map key).Nodup) (whole : values = before ++ value :: after) :
    key value ∉ before.map key := by
  rw [whole, List.map_append, List.map_cons] at distinct
  intro member
  exact (List.nodup_append.mp distinct).2.2 _ member _ List.mem_cons_self rfl

section Declaring

variable (named : types.WellNamed) (extends' : large.Extends types)
include named extends'

theorem reads_element {enumeration : String} {before : List Element} {value : Element}
    (name : IsIdentifier value.name) (new : value.name ∉ before.map Element.name)
    (known : ∀ state ∈ value.state, state.Known types) :
    Steps (element types enumeration) before (elementText large value).toList
      (before ++ [value]) := by
  intro text rest closes here
  have fresh := any_name_eq_false new
  obtain ⟨name', state⟩ := value
  rw [elementText, String.toList_append, List.append_assoc] at here
  cases state with
  | none =>
    refine reads_bind.mpr ⟨name', rest, reads_identifier name closes.ends here, ?_⟩
    rw [fresh]
    refine reads_bind.mpr ⟨false, rest, ?_, reads_pure.mpr ⟨rfl, rfl⟩⟩
    exact reads_accept_false.mpr ⟨closes.stops.closed, closes.skip.symm⟩
  | some state =>
    have knownState := known state rfl
    simp only [String.toList_append, List.append_assoc] at here
    rw [extends'.render_type knownState] at here
    refine reads_bind.mpr ⟨name', _, reads_identifier_cons name (by decide) here, ?_⟩
    rw [fresh]
    refine reads_bind.mpr ⟨true, _, reads_accept_true.mpr (skipFrom_solid (by decide) _), ?_⟩
    refine reads_bind.mpr ⟨state, _, reads_type named knownState (ends_cons (by decide) _)
      ((begins_render_type types state).skip _), ?_⟩
    refine reads_bind.mpr ⟨(), rest, reads_expect.mpr (skipFrom_solid (by decide) _), ?_⟩
    exact reads_pure.mpr ⟨rfl, rfl⟩

theorem chain_elements {enumeration : String} {elements : List Element}
    (names : ∀ element ∈ elements, IsIdentifier element.name)
    (distinct : (elements.map Element.name).Nodup)
    (known : ∀ element ∈ elements, ∀ state ∈ element.state, state.Known types) :
    ∀ before after, elements = before ++ after →
      Chain (Steps (element types enumeration)) before
        (after.map fun element => (elementText large element).toList) elements
  | before, [], whole => by
    rw [whole, List.append_nil]
    exact .nil
  | before, value :: after, whole => by
    have member : value ∈ elements := by simp [whole]
    refine .cons (begins_elementText (names value member))
      (reads_element named extends' (names value member) (not_mem_before distinct whole)
        (known value member)) ?_
    exact chain_elements names distinct known (before ++ [value]) after (by simp [whole])

theorem reads_enumeration {value : Enumeration} (name : IsIdentifier value.name)
    (new : value.name ∉ types.enums.map Enumeration.name)
    (names : ∀ element ∈ value.elements, IsIdentifier element.name)
    (distinct : (value.elements.map Element.name).Nodup)
    (known : ∀ element ∈ value.elements, ∀ state ∈ element.state, state.Known types)
    (here : skipFrom false text = enumerationText large value rest) :
    Reads (enumeration types) text value ('\n' :: rest) := by
  refine reads_bind.mpr ⟨value.name, _, reads_identifier_cons name (by decide) here, ?_⟩
  rw [any_name_eq_false new]
  refine reads_bind.mpr ⟨value.elements, '\n' :: rest, ?_, reads_pure.mpr ⟨rfl, rfl⟩⟩
  exact reads_fields (chain_elements named extends' names distinct known [] _ rfl) rfl

theorem chain_members {members : List Member}
    (known : ∀ member ∈ members, IsIdentifier member.name ∧ member.type.Known types) :
    ∀ before after, members = before ++ after →
      Chain (Steps (member types)) before
        (after.map fun member => (member.name ++ ": " ++ member.type.render large).toList) members
  | before, [], whole => by
    rw [whole, List.append_nil]
    exact .nil
  | before, value :: after, whole => by
    obtain ⟨name, knownType⟩ := known value (by simp [whole])
    refine .cons ?_ (fun text rest closes here => ?_)
      (chain_members known (before ++ [value]) after (by simp [whole]))
    · simp only [String.toList_append, List.append_assoc]
      exact (begins_of_isWord name.1).append _
    · simp only [String.toList_append, List.append_assoc] at here
      rw [extends'.render_type knownType] at here
      refine reads_bind.mpr ⟨value.name, _, reads_identifier_cons name (by decide) here, ?_⟩
      refine reads_bind.mpr ⟨(), _, reads_expect.mpr (skipFrom_solid (by decide) _), ?_⟩
      refine reads_bind.mpr ⟨value.type, rest, reads_type named knownType closes.ends
        ((begins_render_type types value.type).skip _), reads_pure.mpr ⟨rfl, rfl⟩⟩

theorem reads_record {value : Record} (name : IsIdentifier value.name)
    (new : value.name ∉ types.records.map Record.name)
    (known : ∀ member ∈ value.members, IsIdentifier member.name ∧ member.type.Known types)
    (here : skipFrom false text = recordText large value rest) :
    Reads (record types) text value ('\n' :: rest) := by
  refine reads_bind.mpr ⟨value.name, _, reads_identifier_cons name (by decide) here, ?_⟩
  rw [any_name_eq_false new]
  refine reads_bind.mpr ⟨value.members, '\n' :: rest, ?_, reads_pure.mpr ⟨rfl, rfl⟩⟩
  exact reads_fields (chain_members named extends' known [] _ rfl) rfl

end Declaring

theorem reads_interface {functions : List (Function String)} {name : String}
    (identifies : IsIdentifier name) (new : name ∉ types.interfaces)
    (here : skipFrom false text = ("interface " ++ name ++ "\n").toList ++ rest) :
    Reads (declaration ⟨types, functions⟩) text
      (Declarations.addInterface ⟨types, functions⟩ name) ('\n' :: rest) := by
  simp only [String.toList_append, List.append_assoc] at here
  refine reads_bind.mpr ⟨"interface", _, reads_identifier_cons (by decide) (by decide) here, ?_⟩
  refine reads_bind.mpr ⟨name, '\n' :: rest, ?_, reads_pure.mpr ⟨rfl, rfl⟩⟩
  refine reads_bind.mpr ⟨name, '\n' :: rest, reads_identifier_cons identifies (by decide)
    ((begins_of_isWord identifies.1).skip _), ?_⟩
  rw [if_neg new]
  exact reads_pure.mpr ⟨rfl, rfl⟩

end Reading

namespace Function

open Reading

variable {φ : Type} {types : TypeTable} {function : Function φ}

def nameOf (function : Function φ) (register : Register) : String :=
  (function.registerName? register).getD (toString register)

theorem toString_injective {a b : Nat} (h : toString a = toString b) : a = b := by
  rw [← ofDigits_toString a, h, ofDigits_toString]

theorem isWord_nameOf (listed : function.Listed types) (register : Register) :
    IsWord (function.nameOf register) := by
  rw [nameOf, registerName?]
  cases entry : function.registerNames[register]? with
  | none => exact isWord_toString register
  | some kept =>
    cases kept with
    | none => exact isWord_toString register
    | some name => exact (listed.words name (List.mem_of_getElem? entry)).1

/-- A name that is written for a register is kept for it again, and a number is not. -/
theorem keptName_nameOf (listed : function.Listed types) {register : Register}
    {kept : Option String} (h : function.registerNames[register]? = some kept) :
    keptName (function.nameOf register) = kept := by
  rw [nameOf, registerName?, h]
  cases kept with
  | none => exact if_pos (all_isDigit_toString register)
  | some name =>
    exact keptName_eq_some_iff.mpr ⟨rfl, (listed.words name (List.mem_of_getElem? h)).2⟩

theorem eq_of_kept {names : List (Option String)} (distinct : (names.filterMap id).Nodup)
    {a b : Nat} {name : String} (first : names[a]? = some (some name))
    (second : names[b]? = some (some name)) : a = b := by
  have pairs := List.pairwise_iff_getElem.mp (List.pairwise_filterMap.mp distinct)
  obtain ⟨below, entry⟩ := List.getElem?_eq_some_iff.mp first
  obtain ⟨below', entry'⟩ := List.getElem?_eq_some_iff.mp second
  rcases Nat.lt_trichotomy a b with less | equal | greater
  · exact absurd rfl (pairs a b below below' less name entry name entry')
  · exact equal
  · exact absurd rfl (pairs b a below' below greater name entry' name entry)

theorem nameOf_injective (listed : function.Listed types) {a b : Nat}
    (below : a < function.registerNames.length) (below' : b < function.registerNames.length)
    (same : function.nameOf a = function.nameOf b) : a = b := by
  have first := List.getElem?_eq_getElem below
  have second := List.getElem?_eq_getElem below'
  have entries : function.registerNames[a] = function.registerNames[b] := by
    rw [← keptName_nameOf listed first, same, keptName_nameOf listed second]
  rw [entries] at first
  cases kept : function.registerNames[b] with
  | none =>
    rw [kept] at first second
    rw [nameOf, nameOf, registerName?, registerName?, first, second] at same
    exact toString_injective same
  | some name =>
    rw [kept] at first second
    exact eq_of_kept listed.distinct first second

theorem shows (functionName : φ → String) (listed : function.Listed types)
    (names : function.registerNames.length = function.registerCount) :
    Naming.Shows ⟨types, functionName, function.registerText⟩ function.nameOf
      function.registerCount where
  register _ := rfl
  words := isWord_nameOf listed
  distinct below below' := nameOf_injective listed (names ▸ below) (names ▸ below')

theorem map_keptName (listed : function.Listed types)
    (names : function.registerNames.length = function.registerCount) :
    ((List.range function.registerCount).map function.nameOf).map keptName =
      function.registerNames := by
  refine List.ext_getElem (by simp [names]) fun register below below' => ?_
  rw [List.getElem_map, List.getElem_map, List.getElem_range]
  exact keptName_nameOf listed (List.getElem?_eq_getElem below')

theorem Listed.body (listed : function.Listed types) :
    Instruction.definitionsBody function.body = List.range' function.parameterCount
        (Instruction.definitionsBody function.body).length ∧
      function.parameterCount + (Instruction.definitionsBody function.body).length =
        function.registerCount := by
  have numbers := listed.numbers
  have count := congrArg List.length numbers
  rw [definitions, List.length_append, List.length_range, List.length_range] at count
  refine ⟨?_, count⟩
  rw [definitions, ← count, List.range_eq_range', List.range_eq_range', ← List.range'_append_1,
    Nat.zero_add] at numbers
  exact List.append_cancel_left numbers

theorem chain_parameters {naming : Naming FunctionId} {names : Register → String} {count : Nat}
    (shows : naming.Shows names count) (name : String) : ∀ {start length : Nat},
    start + length ≤ count → Chain (Steps fun registers => do
      let (_, registers) ← newRegister registers
      pure registers) (.upTo name names start)
        (((List.range' start length).map naming.register).map String.toList)
        (.upTo name names (start + length))
  | _, 0, _ => .nil
  | start, length + 1, within => by
    have later := chain_parameters shows name (by omega : start + 1 + length ≤ count)
    rw [Nat.add_right_comm] at later
    refine .cons (begins_register shows start) (fun text rest closes here => ?_) later
    refine reads_bind.mpr ⟨_, rest, reads_newRegister shows (by omega) closes.ends here, ?_⟩
    exact reads_pure.mpr ⟨rfl, rfl⟩

theorem reads_body {naming : Naming FunctionId} {surroundings : Surroundings}
    {names : Register → String} {count n : Nat} {name : String} {rest : List Char}
    (named : naming.types.WellNamed) (shows : naming.Shows names count)
    (enums : surroundings.enums = naming.types.enums) {inLoop : Bool} {scope after : Scope}
    (body : Body FunctionId) (verified : surroundings.verifyBody inLoop scope body = .ok after)
    (below : scope.Below n)
    (listable : Listable naming count n (Instruction.definitionsBody body)
      (Instruction.operationsBody body) (Instruction.functionsBody body)) :
    Reads (Reading.body naming.types (.upTo name names n))
      ('\n' :: ((Instruction.renderBody naming 1 body).toList ++ '\x7d' :: rest))
      (Instruction.relabelBody naming.function body,
        .upTo name names (n + (Instruction.definitionsBody body).length)) rest := by
  have enough : Instruction.sizeBody body ≤
      ('\n' :: ((Instruction.renderBody naming 1 body).toList ++ '\x7d' :: rest)).length := by
    have longer := sizeBody_le_render naming 1 body
    rw [List.length_cons, List.length_append]
    omega
  exact reads_bodyWithin named shows enums body verified below listable enough
    (skipFrom_solid (by decide) rest) (skipFrom_newline _)

theorem reads_function {program : Program} {functions : List (Function String)}
    {function : Function FunctionId} {text rest : List Char} (named : program.toTypeTable.WellNamed)
    (listed : function.Listed program.toTypeTable) (verified : function.check program = .ok ())
    (labels : ∀ label ∈ function.functions, IsWord (program.functionName label))
    (new : function.name ∉ functions.map Function.name)
    (here : skipFrom false text = (program.renderFunction function).toList ++ rest) :
    Reads (declaration ⟨program.toTypeTable, functions⟩) text
      (Declarations.addFunction ⟨program.toTypeTable, functions⟩
        (function.relabel program.functionName)) ('\n' :: rest) := by
  obtain ⟨names, fits, returned, after, verifiedBody, _⟩ := check_eq_ok_iff.mp verified
  obtain ⟨numbers, count⟩ := listed.body
  have shows := shows program.functionName listed names
  have enums : (function.surroundings program).enums = program.enums := rfl
  have below : function.parameterScope.Below function.parameterCount := by
    rw [parameterScope_eq]
    exact ⟨List.Subset.refl _, by simp⟩
  have listable : Listable ⟨program.toTypeTable, program.functionName, function.registerText⟩
      function.registerCount function.parameterCount (Instruction.definitionsBody function.body)
      (Instruction.operationsBody function.body) (Instruction.functionsBody function.body) :=
    ⟨numbers, Nat.le_of_eq count, listed.operations, labels⟩
  have parameters := chain_parameters shows function.name
    (by rwa [Nat.zero_add] : 0 + function.parameterCount ≤ function.registerCount)
  rw [Nat.zero_add, ← List.range_eq_range'] at parameters
  simp only [Program.renderFunction, Function.render, String.toList_append,
    List.append_assoc] at here
  refine reads_bind.mpr ⟨"fn", _, reads_identifier_cons (by decide) (by decide) here, ?_⟩
  refine reads_bind.mpr ⟨function.relabel program.functionName, '\n' :: rest, ?_,
    reads_pure.mpr ⟨rfl, rfl⟩⟩
  refine reads_bind.mpr ⟨function.name, _, reads_identifier listed.name (ends_parenthesized _ _)
    ((begins_of_isWord listed.name.1).skip _), ?_⟩
  rw [any_name_eq_false new]
  refine reads_bind.mpr ⟨_, _, reads_parenthesized parameters ((begins_parenthesized _).skip _), ?_⟩
  refine reads_bind.mpr ⟨(), _, reads_expect.mpr rfl, ?_⟩
  refine reads_bind.mpr ⟨_, _, reads_registerText shows (ends_cons (by decide) _)
    ((begins_register shows _).skip _), ?_⟩
  refine reads_bind.mpr ⟨(), _, reads_expect.mpr rfl, ?_⟩
  refine reads_bind.mpr ⟨_, '\n' :: rest, reads_body named shows enums function.body verifiedBody
    below listable, ?_⟩
  rw [count]
  refine reads_bind.mpr ⟨_, _, reads_findRegister shows returned (Nat.le_refl _) _, ?_⟩
  refine reads_pure.mpr ⟨?_, rfl⟩
  simp only [Registers.upTo, List.length_map, List.length_range, map_keptName listed names]
  rfl

end Function

theorem Program.functionName_eq {program : Program} {id : FunctionId}
    {function : Function FunctionId}
    (h : program.functions[id]? = some function) : program.functionName id = function.name := by
  rw [Program.functionName, h]
  rfl

namespace Reading

/-- The written declaration is read on top of those before it, up to the end of its last line. -/
def Declares (before : Declarations) (shown : List Char) (after : Declarations) : Prop :=
  ∀ text rest, skipFrom false text = shown ++ rest →
    Reads (declaration before) text after ('\n' :: rest)

theorem exists_intercalate_newline (shown : List Char) (texts : List (List Char)) :
    ∃ tail, ['\n'].intercalate (shown :: texts) = shown ++ tail ∧
      (['\n'].intercalate texts).length ≤ tail.length ∧
      skipFrom false tail = skipFrom false (['\n'].intercalate texts) := by
  cases texts with
  | nil => exact ⟨[], by simp, by simp, rfl⟩
  | cons second texts =>
    refine ⟨'\n' :: ['\n'].intercalate (second :: texts), ?_, by simp, skipFrom_newline _⟩
    rw [List.intercalate_cons_cons]
    simp

theorem reads_declarationsWithin {texts : List (List Char)} {start last : Declarations}
    {bound : Nat} {text : List Char} (chain : Chain Declares start texts last)
    (rounds : texts.length ≤ bound)
    (here : skipFrom false text = skipFrom false (['\n'].intercalate texts)) :
    ∃ rest, Reads (declarationsWithin bound start) text last rest := by
  induction chain generalizing bound text with
  | nil =>
    cases bound with
    | zero => exact ⟨text, reads_pure.mpr ⟨rfl, rfl⟩⟩
    | succ bound =>
      have empty : skipFrom false text = [] := here
      refine ⟨[], reads_bind.mpr ⟨(), [], reads_skip.mpr empty.symm, ?_⟩⟩
      exact reads_bind.mpr ⟨none, [], reads_peek?.mpr ⟨rfl, rfl⟩, reads_pure.mpr ⟨rfl, rfl⟩⟩
  | @cons state next last shown texts begins declares chain ih =>
    cases bound with
    | zero => simp at rounds
    | succ bound =>
      obtain ⟨tail, shape, _, same⟩ := exists_intercalate_newline shown texts
      rw [shape, begins.skip] at here
      have remains := (skipFrom_newline tail).trans same
      obtain ⟨rest, later⟩ := ih (Nat.le_of_succ_le_succ rounds) remains
      have read := declares (shown ++ tail) tail (begins.skip tail)
      obtain ⟨c, more, first, _⟩ := begins
      rw [first] at here read
      refine ⟨rest, reads_peeking here ?_⟩
      exact reads_bind.mpr ⟨next, '\n' :: tail, read, later⟩

section Tables

variable {types : TypeTable}

theorem declares_enumeration (listed : types.Listed) {before after : List Enumeration}
    {value : Enumeration} (whole : types.enums = before ++ value :: after)
    (known : ∀ element ∈ value.elements, ∀ state ∈ element.state, state.Known ⟨before, [], []⟩) :
    Declares ⟨⟨before, [], []⟩, []⟩ (value.render types).toList
      ⟨⟨before ++ [value], [], []⟩, []⟩ := by
  intro text rest here
  have named := listed.named
  have member : value ∈ types.enums := by simp [whole]
  have extends' : types.Extends ⟨before, [], []⟩ :=
    ⟨⟨value :: after, whole.symm⟩, List.nil_prefix, List.nil_prefix⟩
  have name := named.enums value member
  rw [toList_render_enumeration] at here
  refine reads_bind.mpr ⟨"enum", _, reads_identifier_cons (by decide) (by decide) here, ?_⟩
  refine reads_bind.mpr ⟨value, '\n' :: rest, ?_, reads_pure.mpr ⟨rfl, rfl⟩⟩
  exact reads_enumeration (extends'.wellNamed named) extends' name
    (not_mem_before named.distinctEnums whole) (named.elements value member)
    (named.distinctElements value member) known ((begins_of_isWord name.1).skip _)

theorem chain_enums (listed : types.Listed) (ordered : types.Ordered) : ∀ before after,
    types.enums = before ++ after →
    Chain Declares ⟨⟨before, [], []⟩, []⟩
      (after.map fun enumeration => (enumeration.render types).toList)
      ⟨⟨types.enums, [], []⟩, []⟩
  | before, [], whole => by
    rw [whole, List.append_nil]
    exact .nil
  | before, value :: after, whole => by
    have known : ∀ element ∈ value.elements, ∀ state ∈ element.state,
        state.Known ⟨before, [], []⟩ := by
      intro element inside state payload
      have plain := ordered.payloads value (by simp [whole]) element inside state payload
      exact ((listed.payloads before value after whole element inside state payload).withoutRecords
        fun part within => (plain part within).1).withoutInterfaces
          fun part within => (plain part within).2
    exact .cons (begins_render_enumeration types value) (declares_enumeration listed whole known)
      (chain_enums listed ordered (before ++ [value]) after (by simp [whole]))

theorem declares_record (listed : types.Listed) {before after : List Record} {value : Record}
    (whole : types.records = before ++ value :: after)
    (known : ∀ member ∈ value.members, member.type.Known ⟨types.enums, before, []⟩) :
    Declares ⟨⟨types.enums, before, []⟩, []⟩ (value.render types).toList
      ⟨⟨types.enums, before ++ [value], []⟩, []⟩ := by
  intro text rest here
  have named := listed.named
  have member : value ∈ types.records := by simp [whole]
  have extends' : types.Extends ⟨types.enums, before, []⟩ :=
    ⟨List.prefix_refl _, ⟨value :: after, whole.symm⟩, List.nil_prefix⟩
  have name := named.records value member
  rw [toList_render_record] at here
  refine reads_bind.mpr ⟨"struct", _, reads_identifier_cons (by decide) (by decide) here, ?_⟩
  refine reads_bind.mpr ⟨value, '\n' :: rest, ?_, reads_pure.mpr ⟨rfl, rfl⟩⟩
  exact reads_record (extends'.wellNamed named) extends' name
    (not_mem_before named.distinctRecords whole)
    (fun field inside => ⟨named.members value member field inside, known field inside⟩)
    ((begins_of_isWord name.1).skip _)

theorem chain_records (listed : types.Listed) (ordered : types.Ordered) : ∀ before after,
    types.records = before ++ after →
    Chain Declares ⟨⟨types.enums, before, []⟩, []⟩
      (after.map fun record => (record.render types).toList) ⟨⟨types.enums, types.records, []⟩, []⟩
  | before, [], whole => by
    rw [whole, List.append_nil]
    exact .nil
  | before, value :: after, whole => by
    have known : ∀ member ∈ value.members, member.type.Known ⟨types.enums, before, []⟩ :=
      fun field inside => (listed.members before value after whole field inside).withoutInterfaces
        (ordered.members value (by simp [whole]) field inside)
    exact .cons (begins_render_record types value) (declares_record listed whole known)
      (chain_records listed ordered (before ++ [value]) after (by simp [whole]))

theorem chain_interfaces (named : types.WellNamed) : ∀ before after,
    types.interfaces = before ++ after →
    Chain Declares ⟨⟨types.enums, types.records, before⟩, []⟩
      (after.map fun name => ("interface " ++ name ++ "\n").toList) ⟨types, []⟩
  | before, [], whole => by
    have same : types = ⟨types.enums, types.records, before⟩ := by
      rw [← List.append_nil before, ← whole]
    rw [← same]
    exact .nil
  | before, name :: after, whole => by
    have distinct : (types.interfaces.map fun name => name).Nodup := by
      simpa using named.distinctInterfaces
    have new : name ∉ before := by simpa using not_mem_before distinct whole
    refine .cons ?_ (fun text rest here => reads_interface
      (named.interfaces name (by simp [whole])) new here)
      (chain_interfaces named (before ++ [name]) after (by simp [whole]))
    simp only [String.toList_append, List.append_assoc]
    exact ⟨'i', _, rfl, by decide, by decide, by decide⟩

end Tables

theorem chain_functions {program : Program} (listed : program.Listed)
    (verified : program.verify = .ok ()) : ∀ before after, program.functions = before ++ after →
    Chain Declares ⟨program.toTypeTable, before.map (.relabel program.functionName)⟩
      (after.map fun function => (program.renderFunction function).toList)
      ⟨program.toTypeTable, program.functions.map (.relabel program.functionName)⟩
  | before, [], whole => by
    rw [whole, List.append_nil]
    exact .nil
  | before, value :: after, whole => by
    have member : value ∈ program.functions := by simp [whole]
    have checked := Program.verify_eq_ok_iff.mp verified value member
    have labels : ∀ label ∈ value.functions, IsWord (program.functionName label) := by
      intro label refers
      have found := List.getElem?_eq_getElem (Function.functions_of_check checked label refers)
      rw [Program.functionName_eq found]
      exact (listed.functions.each _ (List.mem_of_getElem? found)).name.1
    have new : value.name ∉ (before.map (.relabel program.functionName)).map Function.name := by
      rw [List.map_map]
      exact not_mem_before listed.functions.distinct whole
    have later := chain_functions listed verified (before ++ [value]) after (by simp [whole])
    rw [List.map_append] at later
    refine .cons ?_ (fun text rest here => Function.reads_function listed.types.named
      (listed.functions.each value member) checked labels new here) later
    simp only [Program.renderFunction, Function.render, String.toList_append, List.append_assoc]
    exact ⟨'f', _, rfl, by decide, by decide, by decide⟩

end Reading

end RegisterIR
