import RegisterIR.Proofs.ListedPrograms
import RegisterIR.Reading.Program

/-! Programs that have been read. Every declaration is checked against those before it, so the
tables that it is added to stay as the text declares them; a program is verified at the end. -/

namespace RegisterIR.Reading

variable {types : TypeTable} {text rest : List Char}

structure ElementsListed (types : TypeTable) (elements : List Element) : Prop where
  distinct : (elements.map Element.name).Nodup
  names : ∀ element ∈ elements, IsIdentifier element.name
  payloads : ∀ element ∈ elements, ∀ state ∈ element.state, state.Known types

theorem nodup_map_concat {α : Type} {values : List α} {value : α} {key : α → String}
    (distinct : (values.map key).Nodup) (new : values.any (key · == key value) = false) :
    ((values ++ [value]).map key).Nodup := by
  rw [List.map_append]
  refine nodup_concat distinct fun old => ?_
  obtain ⟨other, member, same⟩ := List.mem_map.mp old
  exact absurd (List.any_eq_true.mpr ⟨other, member, by simpa using same⟩)
    (Bool.eq_false_iff.mp new)

theorem ElementsListed.concat {elements : List Element} {element : Element}
    (listed : ElementsListed types elements) (name : IsIdentifier element.name)
    (new : elements.any (·.name == element.name) = false)
    (known : ∀ state ∈ element.state, state.Known types) :
    ElementsListed types (elements ++ [element]) where
  distinct := nodup_map_concat listed.distinct new
  names := forall_mem_concat listed.names name
  payloads := forall_mem_concat listed.payloads known

theorem listed_of_reads_element {enumeration : String} {elements next : List Element}
    (listed : ElementsListed types elements)
    (h : Reads (element types enumeration elements) text next rest) :
    ElementsListed types next := by
  obtain ⟨name, _, identifies, named⟩ := reads_bind.mp h
  have identifier := isIdentifier_of_reads identifies
  split at named
  · exact absurd named not_reads_fail
  · rename_i new
    obtain ⟨opened, _, _, payload⟩ := reads_bind.mp named
    cases opened with
    | true =>
      obtain ⟨state, _, read, closed⟩ := reads_bind.mp payload
      obtain ⟨_, _, _, done⟩ := reads_bind.mp closed
      obtain ⟨rfl, _⟩ := reads_pure.mp done
      have known := known_of_reads_type read
      exact listed.concat identifier (Bool.eq_false_iff.mpr new) (by simpa using known)
    | false =>
      obtain ⟨rfl, _⟩ := reads_pure.mp payload
      exact listed.concat identifier (Bool.eq_false_iff.mpr new) (by simp)

theorem listed_of_reads_enumeration {value : Enumeration}
    (h : Reads (enumeration types) text value rest) :
    IsIdentifier value.name ∧ types.enums.any (·.name == value.name) = false ∧
      ElementsListed types value.elements := by
  obtain ⟨name, _, identifies, named⟩ := reads_bind.mp h
  split at named
  · exact absurd named not_reads_raise
  · rename_i new
    obtain ⟨elements, _, read, done⟩ := reads_bind.mp named
    obtain ⟨rfl, _⟩ := reads_pure.mp done
    refine ⟨isIdentifier_of_reads identifies, Bool.eq_false_iff.mpr new, ?_⟩
    exact fields_keeps listed_of_reads_element ⟨by simp, by simp, by simp⟩ read

theorem listed_of_reads_record {value : Record} (h : Reads (record types) text value rest) :
    IsIdentifier value.name ∧ types.records.any (·.name == value.name) = false ∧
      ∀ member ∈ value.members, IsIdentifier member.name ∧ member.type.Known types := by
  obtain ⟨name, _, identifies, named⟩ := reads_bind.mp h
  split at named
  · exact absurd named not_reads_raise
  · rename_i new
    obtain ⟨members, _, read, done⟩ := reads_bind.mp named
    obtain ⟨rfl, _⟩ := reads_pure.mp done
    refine ⟨isIdentifier_of_reads identifies, Bool.eq_false_iff.mpr new, ?_⟩
    refine fields_keeps (P := fun members => ∀ member ∈ members, IsIdentifier member.name ∧
      member.type.Known types) ?_ (by simp) read
    intro members next text rest listed first
    obtain ⟨name, _, identifies, afterName⟩ := reads_bind.mp first
    obtain ⟨_, _, _, afterColon⟩ := reads_bind.mp afterName
    obtain ⟨type, _, readType, done⟩ := reads_bind.mp afterColon
    obtain ⟨rfl, _⟩ := reads_pure.mp done
    refine List.forall_mem_append.mpr ⟨listed, ?_⟩
    simpa using ⟨isIdentifier_of_reads identifies, known_of_reads_type readType⟩

theorem listed_of_reads_interface {name : String} (h : Reads (interface types) text name rest) :
    IsIdentifier name ∧ name ∉ types.interfaces := by
  obtain ⟨name', _, identifies, named⟩ := reads_bind.mp h
  split at named
  · exact absurd named not_reads_raise
  · rename_i new
    obtain ⟨rfl, _⟩ := reads_pure.mp named
    exact ⟨isIdentifier_of_reads identifies, new⟩

theorem keptName_eq_some_iff {name kept : String} :
    keptName name = some kept ↔ kept = name ∧ name.toList.all Char.isDigit = false := by
  rw [keptName]
  split
  · rename_i number
    simp [number]
  · rename_i other
    simp [other, eq_comm]

theorem words_keptName {registers : Registers} (valid : registers.Valid) {name : String}
    (member : some name ∈ registers.names.map keptName) :
    IsWord name ∧ name.toList.all Char.isDigit = false := by
  obtain ⟨name', inside, kept⟩ := List.mem_map.mp member
  obtain ⟨rfl, notNumber⟩ := keptName_eq_some_iff.mp kept
  exact ⟨valid.words name inside, notNumber⟩

theorem nodup_keptName {registers : Registers} (valid : registers.Valid) :
    ((registers.names.map keptName).filterMap id).Nodup := by
  rw [List.filterMap_map]
  refine valid.distinct.filterMap fun name name' kept first second => ?_
  exact (keptName_eq_some_iff.mp first).1.symm.trans (keptName_eq_some_iff.mp second).1

theorem listed_of_reads_function {declarations : Declarations} {value : Function String}
    (h : Reads (function declarations) text value rest) :
    value.Listed declarations.types ∧
      declarations.functions.any (·.name == value.name) = false := by
  obtain ⟨name, _, identifies, named⟩ := reads_bind.mp h
  split at named
  · exact absurd named not_reads_raise
  · rename_i new
    obtain ⟨parameters, _, readParameters, afterParameters⟩ := reads_bind.mp named
    obtain ⟨_, _, _, afterArrow⟩ := reads_bind.mp afterParameters
    obtain ⟨returned, _, _, afterReturned⟩ := reads_bind.mp afterArrow
    obtain ⟨_, _, _, opened⟩ := reads_bind.mp afterReturned
    obtain ⟨⟨body, registers⟩, _, readBody, afterBody⟩ := reads_bind.mp opened
    obtain ⟨returnValue, _, _, done⟩ := reads_bind.mp afterBody
    obtain ⟨rfl, _⟩ := reads_pure.mp done
    have validParameters : parameters.Valid := by
      refine items_keeps ?_ ⟨List.nodup_nil, by simp⟩ readParameters
      intro registers next text rest valid first
      obtain ⟨⟨_, defined⟩, _, read, done⟩ := reads_bind.mp first
      obtain ⟨rfl, _⟩ := reads_pure.mp done
      exact (defines_of_reads_newRegister read).valid valid
    obtain ⟨defines, known⟩ := known_of_reads_bodyWithin readBody
    have valid := defines.valid validParameters
    obtain ⟨locals, names, numbers⟩ := defines.numbers
    refine ⟨⟨isIdentifier_of_reads identifies, ?_, fun _ => words_keptName valid,
      nodup_keptName valid, known⟩, Bool.eq_false_iff.mpr new⟩
    rw [Function.definitions, numbers, names, List.length_append, List.range_eq_range',
      List.range_eq_range', ← List.range'_append_1, Nat.zero_add]

structure Declarations.Listed (declarations : Declarations) : Prop where
  types : declarations.types.Listed
  functions : FunctionsListed declarations.types declarations.functions

namespace Declarations

variable {declarations : Declarations}

theorem listed_empty : empty.Listed where
  types :=
    { named := by constructor <;> simp [empty]
      payloads := by simp [empty]
      members := by simp [empty] }
  functions := ⟨by simp [empty], by simp [empty]⟩

theorem concat_eq_append_cons {α : Type} {values before after : List α} {last value : α}
    (h : values ++ [last] = before ++ value :: after) :
    (before = values ∧ value = last) ∨ ∃ others, values = before ++ value :: others := by
  rcases List.eq_nil_or_concat after with rfl | ⟨others, other, rfl⟩
  · obtain ⟨same, equation⟩ := List.append_inj' h rfl
    exact .inl ⟨same.symm, (List.singleton_inj.mp equation).symm⟩
  · have whole : before ++ value :: others.concat other =
        (before ++ value :: others) ++ [other] := by simp
    exact .inr ⟨others, (List.append_inj' (h.trans whole) rfl).1⟩

theorem Listed.addEnum (listed : declarations.Listed) {enumeration : Enumeration}
    (name : IsIdentifier enumeration.name)
    (new : declarations.types.enums.any (·.name == enumeration.name) = false)
    (elements : ElementsListed declarations.types enumeration.elements) :
    (declarations.addEnum enumeration).Listed := by
  have extends' : (declarations.addEnum enumeration).types.Extends declarations.types :=
    ⟨List.prefix_append _ _, List.prefix_refl _, List.prefix_refl _⟩
  have named := listed.types.named
  refine ⟨⟨?_, ?_, ?_⟩, fun function member => ?_, listed.functions.distinct⟩
  · exact
      { named with
        enums := forall_mem_concat named.enums name
        distinctEnums := nodup_map_concat named.distinctEnums new
        elements := forall_mem_concat named.elements elements.names
        distinctElements := forall_mem_concat named.distinctElements elements.distinct }
  · intro before value after whole
    rcases concat_eq_append_cons whole with ⟨rfl, rfl⟩ | ⟨others, old⟩
    · exact elements.payloads
    · exact listed.types.payloads before value others old
  · intro before value after whole member inside
    refine TypeTable.Extends.known ?_ (listed.types.members before value after whole member inside)
    exact ⟨List.prefix_append _ _, List.prefix_refl _, List.prefix_refl _⟩
  · exact (listed.functions.each function member).extend extends'

theorem Listed.addRecord (listed : declarations.Listed) {record : Record}
    (name : IsIdentifier record.name)
    (new : declarations.types.records.any (·.name == record.name) = false)
    (members : ∀ member ∈ record.members,
      IsIdentifier member.name ∧ member.type.Known declarations.types) :
    (declarations.addRecord record).Listed := by
  have extends' : (declarations.addRecord record).types.Extends declarations.types :=
    ⟨List.prefix_refl _, List.prefix_append _ _, List.prefix_refl _⟩
  have named := listed.types.named
  refine ⟨⟨?_, ?_, ?_⟩, fun function member => ?_, listed.functions.distinct⟩
  · exact
      { named with
        records := forall_mem_concat named.records name
        distinctRecords := nodup_map_concat named.distinctRecords new
        members := forall_mem_concat named.members
          fun member inside => (members member inside).1 }
  · intro before value after whole element inside state payload
    have known := listed.types.payloads before value after whole element inside state payload
    refine TypeTable.Extends.known ?_ known
    exact ⟨List.prefix_refl _, List.prefix_append _ _, List.prefix_refl _⟩
  · intro before value after whole
    rcases concat_eq_append_cons whole with ⟨rfl, rfl⟩ | ⟨others, old⟩
    · exact fun member inside => (members member inside).2
    · exact listed.types.members before value others old
  · exact (listed.functions.each function member).extend extends'

theorem Listed.addInterface (listed : declarations.Listed) {name : String}
    (identifies : IsIdentifier name) (new : name ∉ declarations.types.interfaces) :
    (declarations.addInterface name).Listed := by
  have extends' : (declarations.addInterface name).types.Extends declarations.types :=
    ⟨List.prefix_refl _, List.prefix_refl _, List.prefix_append _ _⟩
  have named := listed.types.named
  refine ⟨⟨?_, ?_, ?_⟩, fun function member => ?_, listed.functions.distinct⟩
  · exact
      { named with
        interfaces := forall_mem_concat named.interfaces identifies
        distinctInterfaces := nodup_concat named.distinctInterfaces new }
  · intro before value after whole element inside state payload
    have known := listed.types.payloads before value after whole element inside state payload
    refine TypeTable.Extends.known ?_ known
    exact ⟨List.prefix_refl _, List.prefix_refl _, List.prefix_append _ _⟩
  · intro before value after whole member inside
    refine TypeTable.Extends.known ?_ (listed.types.members before value after whole member inside)
    exact ⟨List.prefix_refl _, List.prefix_refl _, List.prefix_append _ _⟩
  · exact (listed.functions.each function member).extend extends'

theorem Listed.addFunction (listed : declarations.Listed) {function : Function String}
    (listedFunction : function.Listed declarations.types)
    (new : declarations.functions.any (·.name == function.name) = false) :
    (declarations.addFunction function).Listed where
  types := listed.types
  functions := ⟨forall_mem_concat listed.functions.each listedFunction,
    nodup_map_concat listed.functions.distinct new⟩

end Declarations

theorem listed_of_reads_declaration {declarations next : Declarations}
    (listed : declarations.Listed) (h : Reads (declaration declarations) text next rest) :
    next.Listed := by
  obtain ⟨keyword, _, _, chosen⟩ := reads_bind.mp h
  split at chosen
  · obtain ⟨value, _, read, done⟩ := reads_bind.mp chosen
    obtain ⟨rfl, _⟩ := reads_pure.mp done
    obtain ⟨name, new, elements⟩ := listed_of_reads_enumeration read
    exact listed.addEnum name new elements
  · obtain ⟨value, _, read, done⟩ := reads_bind.mp chosen
    obtain ⟨rfl, _⟩ := reads_pure.mp done
    obtain ⟨name, new, members⟩ := listed_of_reads_record read
    exact listed.addRecord name new members
  · obtain ⟨value, _, read, done⟩ := reads_bind.mp chosen
    obtain ⟨rfl, _⟩ := reads_pure.mp done
    obtain ⟨name, new⟩ := listed_of_reads_interface read
    exact listed.addInterface name new
  · obtain ⟨value, _, read, done⟩ := reads_bind.mp chosen
    obtain ⟨rfl, _⟩ := reads_pure.mp done
    obtain ⟨listedFunction, new⟩ := listed_of_reads_function read
    exact listed.addFunction listedFunction new
  · exact absurd chosen not_reads_fail

theorem listed_of_reads_declarationsWithin {bound : Nat} {declarations last : Declarations}
    (listed : declarations.Listed)
    (h : Reads (declarationsWithin bound declarations) text last rest) : last.Listed := by
  induction bound generalizing declarations text with
  | zero =>
    obtain ⟨rfl, _⟩ := reads_pure.mp h
    exact listed
  | succ bound ih =>
    obtain ⟨_, _, _, skipped⟩ := reads_bind.mp h
    obtain ⟨first, _, _, peeked⟩ := reads_bind.mp skipped
    split at peeked
    · obtain ⟨rfl, _⟩ := reads_pure.mp peeked
      exact listed
    · obtain ⟨next, _, read, later⟩ := reads_bind.mp peeked
      exact ih (listed_of_reads_declaration listed read) later

theorem eq_relabel_of_resolve {names : List String} {function : Function String}
    {resolved : Function FunctionId} (h : resolve names function = .ok resolved) :
    resolved = function.relabel names.idxOf := by
  rw [resolve] at h
  split at h
  · cases h
  · exact (Except.ok.inj h).symm

theorem mapM_resolve {names : List String} : ∀ {functions : List (Function String)}
    {resolved : List (Function FunctionId)}, functions.mapM (resolve names) = .ok resolved →
    resolved = functions.map (.relabel names.idxOf)
  | [], _, h => (Except.ok.inj h).symm
  | function :: functions, _, h => by
    rw [List.mapM_cons] at h
    obtain ⟨first, resolvedFirst, more⟩ := bind_eq_ok_iff.mp h
    obtain ⟨others, resolvedOthers, done⟩ := bind_eq_ok_iff.mp more
    obtain rfl := Except.ok.inj done
    rw [List.map_cons, ← eq_relabel_of_resolve resolvedFirst, ← mapM_resolve resolvedOthers]

theorem listed_of_program {program' : Program} (h : program text = .ok program') :
    program'.Listed ∧ program'.verify = .ok () := by
  obtain ⟨⟨declarations, rest⟩, read, named⟩ := bind_eq_ok_iff.mp h
  obtain ⟨functions, resolved, verified⟩ := bind_eq_ok_iff.mp named
  have listed := listed_of_reads_declarationsWithin Declarations.listed_empty read
  dsimp only at verified
  split at verified
  · rename_i accepted
    obtain rfl := Except.ok.inj verified
    refine ⟨⟨listed.types, ?_⟩, accepted⟩
    rw [mapM_resolve resolved]
    exact listed.functions.relabel _
  · cases verified

end RegisterIR.Reading

namespace RegisterIR.Program

/-- A program that has been read is verified, and as its text declares it. -/
theorem listed_of_parse {text : String} {program : Program} (h : Program.parse text = .ok program) :
    program.Listed ∧ program.verify = .ok () := by
  rw [parse] at h
  cases read : Reading.program text.toList with
  | error error =>
    rw [read] at h
    cases h
  | ok found =>
    rw [read] at h
    obtain rfl := Except.ok.inj h
    exact Reading.listed_of_program read

end RegisterIR.Program
