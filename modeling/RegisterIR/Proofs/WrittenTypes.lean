import RegisterIR.Proofs.Sequences
import RegisterIR.Program.Printer
import RegisterIR.Reading.Literal
import Mathlib.Data.List.Nodup

/-! The written form of types. Reading finds every declaration by its name again, since names of
one kind are distinct; a type that is read refers to declarations only, so it can be written. -/

namespace RegisterIR

open Reading (IsWord IsIdentifier maxLong)

section Lookup

variable {α : Type} {values : List α} {key : α → String} {i : Nat} {value : α}

theorem findIdx?_of_nodup (distinct : (values.map key).Nodup) (found : values[i]? = some value) :
    values.findIdx? (fun other => key other == key value) = some i := by
  induction values generalizing i with
  | nil => simp at found
  | cons head values ih =>
    obtain ⟨new, distinct⟩ := List.nodup_cons.mp distinct
    cases i with
    | zero =>
      obtain rfl := Option.some.inj found
      simp [List.findIdx?_cons]
    | succ i =>
      have other : key head ≠ key value := fun same =>
        new (same ▸ List.mem_map_of_mem (List.mem_of_getElem? found))
      simp [List.findIdx?_cons, other, ih distinct found]

theorem idxOf?_of_nodup {names : List String} {name : String} (distinct : names.Nodup)
    (found : names[i]? = some name) : names.idxOf? name = some i := by
  have keys : (names.map fun name => name).Nodup := by rwa [List.map_id']
  exact findIdx?_of_nodup keys found

theorem find?_zipIdx_of_nodup (distinct : (values.map key).Nodup)
    (found : values[i]? = some value) (start : Nat) :
    (values.zipIdx start).find? (fun other => key other.1 == key value) =
      some (value, start + i) := by
  induction values generalizing i start with
  | nil => simp at found
  | cons head values ih =>
    obtain ⟨new, distinct⟩ := List.nodup_cons.mp distinct
    cases i with
    | zero =>
      obtain rfl := Option.some.inj found
      simp [List.zipIdx_cons]
    | succ i =>
      have other : key head ≠ key value := fun same =>
        new (same ▸ List.mem_map_of_mem (List.mem_of_getElem? found))
      have position : start + 1 + i = start + (i + 1) := by omega
      rw [List.zipIdx_cons, List.find?_cons_of_neg (by simpa using other), ih distinct found,
        position]

theorem getElem?_of_initial {more : List α} (extends' : values <+: more)
    (found : values[i]? = some value) : more[i]? = some value := by
  obtain ⟨later, rfl⟩ := extends'
  rw [List.getElem?_append_left (List.getElem?_eq_some_iff.mp found).1, found]

end Lookup

def TypeTable.element? (types : TypeTable) (which : ElementRef) : Option Element :=
  types.enums[which.enumeration]?.bind (·.elements[which.which]?)

/-- All declared types have names that can be read, and those of one kind have different ones. -/
structure TypeTable.WellNamed (types : TypeTable) : Prop where
  enums : ∀ enumeration ∈ types.enums, IsIdentifier enumeration.name
  distinctEnums : (types.enums.map Enumeration.name).Nodup
  elements : ∀ enumeration ∈ types.enums, ∀ element ∈ enumeration.elements,
    IsIdentifier element.name
  distinctElements : ∀ enumeration ∈ types.enums, (enumeration.elements.map Element.name).Nodup
  records : ∀ record ∈ types.records, IsIdentifier record.name
  distinctRecords : (types.records.map Record.name).Nodup
  members : ∀ record ∈ types.records, ∀ member ∈ record.members, IsIdentifier member.name
  interfaces : ∀ name ∈ types.interfaces, IsIdentifier name
  distinctInterfaces : types.interfaces.Nodup

namespace ValueType

mutual

def parts : ValueType → List ValueType
  | function parameters result => function parameters result :: partsAll parameters ++ result.parts
  | tuple elements => tuple elements :: partsAll elements
  | type => [type]

def partsAll : List ValueType → List ValueType
  | [] => []
  | type :: types => type.parts ++ partsAll types

end

/-- What the type refers to itself is declared, and its numbers can be read. -/
def Declared (types : TypeTable) : ValueType → Prop
  | integer range => range.maximum ≤ maxLong
  | enumeration id => id < types.enums.length
  | constructor element => (types.element? element).isSome = true
  | record id => id < types.records.length
  | interface id => id < types.interfaces.length
  | _ => True

def Known (types : TypeTable) (type : ValueType) : Prop := ∀ part ∈ type.parts, part.Declared types

variable {types : TypeTable} {type : ValueType}

theorem partsAll_eq_flatMap (list : List ValueType) : partsAll list = list.flatMap parts := by
  induction list with
  | nil => rfl
  | cons type list ih => rw [partsAll, ih, List.flatMap_cons]

theorem mem_parts_self (type : ValueType) : type ∈ type.parts := by
  cases type <;> simp [parts]

theorem Known.declared (h : type.Known types) : type.Declared types := h type (mem_parts_self type)

theorem known_of_declared (leaf : type.parts = [type]) (h : type.Declared types) :
    type.Known types := by
  intro part member
  rw [leaf] at member
  rwa [List.mem_singleton.mp member]

theorem known_tuple {elements : List ValueType} :
    (tuple elements).Known types ↔ ∀ type ∈ elements, type.Known types := by
  rw [Known, parts, partsAll_eq_flatMap, List.forall_mem_cons, List.forall_mem_flatMap]
  exact and_iff_right trivial

theorem known_function {parameters : List ValueType} {result : ValueType} :
    (function parameters result).Known types ↔
      (∀ type ∈ parameters, type.Known types) ∧ result.Known types := by
  rw [Known, parts, partsAll_eq_flatMap, List.cons_append, List.forall_mem_cons,
    List.forall_mem_append, List.forall_mem_flatMap]
  exact and_iff_right trivial

def isRecord : ValueType → Bool
  | record _ => true
  | _ => false

def isInterface : ValueType → Bool
  | interface _ => true
  | _ => false

variable {enums : List Enumeration} {records : List Record} {interfaces : List String}

theorem Known.withoutRecords (known : type.Known ⟨enums, records, interfaces⟩)
    (none : ∀ part ∈ type.parts, part.isRecord = false) : type.Known ⟨enums, [], interfaces⟩ := by
  intro part member
  have declared := known part member
  cases part with
  | record id => exact absurd (none _ member) (by simp [isRecord])
  | _ => exact declared

theorem Known.withoutInterfaces (known : type.Known ⟨enums, records, interfaces⟩)
    (none : ∀ part ∈ type.parts, part.isInterface = false) : type.Known ⟨enums, records, []⟩ := by
  intro part member
  have declared := known part member
  cases part with
  | interface id => exact absurd (none _ member) (by simp [isInterface])
  | _ => exact declared

end ValueType

/-- Enums can be declared before all structs and interfaces, and structs before all interfaces. -/
structure TypeTable.Ordered (types : TypeTable) : Prop where
  payloads : ∀ enumeration ∈ types.enums, ∀ element ∈ enumeration.elements,
    ∀ state ∈ element.state, ∀ part ∈ state.parts,
      part.isRecord = false ∧ part.isInterface = false
  members : ∀ record ∈ types.records, ∀ member ∈ record.members,
    ∀ part ∈ member.type.parts, part.isInterface = false

/-- The larger table has more declarations of each kind, after those of the smaller one. -/
structure TypeTable.Extends (large small : TypeTable) : Prop where
  enums : small.enums <+: large.enums
  records : small.records <+: large.records
  interfaces : small.interfaces <+: large.interfaces

namespace TypeTable.Extends

variable {large small : TypeTable}

section

variable (extends' : large.Extends small)
include extends'

theorem element? {which : ElementRef} {element : Element}
    (found : small.element? which = some element) : large.element? which = some element := by
  obtain ⟨enumeration, declared, member⟩ := Option.bind_eq_some_iff.mp found
  exact Option.bind_eq_some_iff.mpr
    ⟨enumeration, getElem?_of_initial extends'.enums declared, member⟩

theorem declared {type : ValueType} (h : type.Declared small) : type.Declared large := by
  cases type with
  | enumeration id => exact Nat.lt_of_lt_of_le h extends'.enums.length_le
  | constructor which =>
    obtain ⟨element, found⟩ := Option.isSome_iff_exists.mp h
    exact Option.isSome_iff_exists.mpr ⟨element, extends'.element? found⟩
  | record id => exact Nat.lt_of_lt_of_le h extends'.records.length_le
  | interface id => exact Nat.lt_of_lt_of_le h extends'.interfaces.length_le
  | _ => exact h

theorem known {type : ValueType} (h : type.Known small) : type.Known large :=
  fun part member => extends'.declared (h part member)

theorem wellNamed (named : large.WellNamed) : small.WellNamed where
  enums enumeration member := named.enums enumeration (extends'.enums.subset member)
  distinctEnums := named.distinctEnums.sublist (extends'.enums.sublist.map _)
  elements enumeration member := named.elements enumeration (extends'.enums.subset member)
  distinctElements enumeration member :=
    named.distinctElements enumeration (extends'.enums.subset member)
  records record member := named.records record (extends'.records.subset member)
  distinctRecords := named.distinctRecords.sublist (extends'.records.sublist.map _)
  members record member := named.members record (extends'.records.subset member)
  interfaces name member := named.interfaces name (extends'.interfaces.subset member)
  distinctInterfaces := named.distinctInterfaces.sublist extends'.interfaces.sublist

theorem render_element {which : ElementRef} {element : Element}
    (found : small.element? which = some element) : which.render large = which.render small := by
  obtain ⟨enumeration, declared, member⟩ := Option.bind_eq_some_iff.mp found
  rw [ElementRef.render, ElementRef.render, declared,
    getElem?_of_initial extends'.enums declared]

end

mutual

theorem render_type (extends' : large.Extends small) :
    ∀ {type : ValueType}, type.Known small → type.render large = type.render small
  | .unit, _ => rfl
  | .string, _ => rfl
  | .host, _ => rfl
  | .integer _, _ => rfl
  | .enumeration id, known => by
    have found := List.getElem?_eq_getElem known.declared
    rw [ValueType.render, ValueType.render, found, getElem?_of_initial extends'.enums found]
  | .constructor which, known => by
    obtain ⟨element, found⟩ := Option.isSome_iff_exists.mp known.declared
    rw [ValueType.render, ValueType.render, extends'.render_element found]
  | .function parameters result, known => by
    obtain ⟨knownParameters, knownResult⟩ := ValueType.known_function.mp known
    rw [ValueType.render, ValueType.render, render_types extends' knownParameters,
      render_type extends' knownResult]
  | .tuple elements, known => by
    rw [ValueType.render, ValueType.render, render_types extends' (ValueType.known_tuple.mp known)]
  | .record id, known => by
    have found := List.getElem?_eq_getElem known.declared
    rw [ValueType.render, ValueType.render, found, getElem?_of_initial extends'.records found]
  | .interface id, known => by
    have found := List.getElem?_eq_getElem known.declared
    rw [ValueType.render, ValueType.render, found, getElem?_of_initial extends'.interfaces found]

theorem render_types (extends' : large.Extends small) :
    ∀ {list : List ValueType}, (∀ type ∈ list, type.Known small) →
      ValueType.renderAll large list = ValueType.renderAll small list
  | [], _ => rfl
  | type :: list, known => by
    obtain ⟨first, others⟩ := List.forall_mem_cons.mp known
    rw [ValueType.renderAll, ValueType.renderAll, render_type extends' first,
      render_types extends' others]

end

end TypeTable.Extends

namespace Reading

variable {types : TypeTable} {text rest : List Char}

theorem reads_lookup {position : Option Nat} {error : ParseError (List Char)} {id : Nat} :
    Reads (match position with
      | some id => pure id
      | none => raise error) text id rest ↔ position = some id ∧ rest = text := by
  cases position with
  | none => exact ⟨fun h => absurd h not_reads_raise, fun h => absurd h.1 (by simp)⟩
  | some found => exact reads_pure.trans (and_congr_left fun _ =>
      ⟨fun same => congrArg some same.symm, fun same => (Option.some.inj same).symm⟩)

theorem lt_of_reads_findEnum {name : String} {id : EnumId}
    (h : Reads (findEnum types name) text id rest) : id < types.enums.length :=
  (List.findIdx?_eq_some_iff_getElem.mp (reads_lookup.mp h).1).1

theorem lt_of_reads_findRecord {name : String} {id : Nat}
    (h : Reads (findRecord types name) text id rest) : id < types.records.length :=
  (List.findIdx?_eq_some_iff_getElem.mp (reads_lookup.mp h).1).1

theorem lt_of_reads_findInterface {name : String} {id : Nat}
    (h : Reads (findInterface types name) text id rest) : id < types.interfaces.length :=
  (List.findIdx?_eq_some_iff_getElem.mp (reads_lookup.mp h).1).1

theorem getElem?_of_find?_zipIdx {α : Type} {values : List α} {p : α × Nat → Bool} {value : α}
    {i : Nat} (h : values.zipIdx.find? p = some (value, i)) : values[i]? = some value :=
  List.mem_zipIdx_iff_getElem?.mp (List.mem_of_find?_eq_some h)

theorem element?_of_reads_findElement {enumeration name : String} {which : ElementRef}
    {element : Element}
    (h : Reads (findElement types enumeration name) text (which, element) rest) :
    types.element? which = some element ∧
      (types.enums[which.enumeration]?).map Enumeration.name = some enumeration := by
  rw [findElement] at h
  split at h
  · exact absurd h not_reads_raise
  · rename_i declared id found
    split at h
    · exact absurd h not_reads_raise
    · rename_i element' which' found'
      obtain ⟨rfl, rfl, _⟩ := reads_pure_pair.mp h
      have named : declared.name = enumeration := by simpa using List.find?_some found
      simp [TypeTable.element?, getElem?_of_find?_zipIdx found, getElem?_of_find?_zipIdx found',
        named]

theorem element?_of_reads_elementOf {enumeration : String} {which : ElementRef} {element : Element}
    (h : Reads (elementOf types enumeration) text (which, element) rest) :
    types.element? which = some element ∧
      (types.enums[which.enumeration]?).map Enumeration.name = some enumeration := by
  obtain ⟨_, _, _, afterDot⟩ := reads_bind.mp h
  obtain ⟨name, _, _, found⟩ := reads_bind.mp afterDot
  exact element?_of_reads_findElement found

theorem element?_of_reads_elementRef {which : ElementRef} {element : Element}
    (h : Reads (elementRef types) text (which, element) rest) :
    types.element? which = some element := by
  obtain ⟨enumeration, _, _, found⟩ := reads_bind.mp h
  exact (element?_of_reads_elementOf found).1

theorem le_maxLong_of_reads_integerRange {range : IntegerRange}
    (h : Reads integerRange text range rest) : range.maximum ≤ maxLong := by
  obtain ⟨minimum, _, _, afterMinimum⟩ := reads_bind.mp h
  obtain ⟨_, _, _, afterDots⟩ := reads_bind.mp afterMinimum
  obtain ⟨maximum, _, bounded, checked⟩ := reads_bind.mp afterDots
  split at checked
  · obtain ⟨rfl, _⟩ := reads_pure.mp checked
    exact le_maxLong_of_reads_number bounded
  · exact absurd checked not_reads_fail

theorem exists_of_reads_declared {find : String → Reader Nat} {make : Nat → ValueType}
    {type : ValueType} (h : Reads (do
      let name ← identifier
      let id ← find name
      pure (make id)) text type rest) :
    ∃ name id between, type = make id ∧ Reads (find name) between id rest := by
  obtain ⟨name, between, _, found⟩ := reads_bind.mp h
  obtain ⟨id, _, read, done⟩ := reads_bind.mp found
  obtain ⟨rfl, rfl⟩ := reads_pure.mp done
  exact ⟨name, id, between, rfl, read⟩

theorem known_of_reads_typeWithin {bound : Nat} {type : ValueType}
    (h : Reads (typeWithin types bound) text type rest) : type.Known types := by
  induction bound generalizing text type rest with
  | zero =>
    obtain ⟨_, _, _, failed⟩ := reads_bind.mp h
    exact absurd failed not_reads_unexpected
  | succ bound ih =>
    obtain ⟨word, _, _, next⟩ := reads_bind.mp h
    split at next
    · obtain ⟨rfl, _⟩ := reads_pure.mp next
      exact ValueType.known_of_declared rfl trivial
    · obtain ⟨rfl, _⟩ := reads_pure.mp next
      exact ValueType.known_of_declared rfl trivial
    · obtain ⟨rfl, _⟩ := reads_pure.mp next
      exact ValueType.known_of_declared rfl trivial
    · obtain ⟨range, _, read, done⟩ := reads_bind.mp next
      obtain ⟨rfl, _⟩ := reads_pure.mp done
      exact ValueType.known_of_declared rfl (le_maxLong_of_reads_integerRange read)
    · obtain ⟨_, _, _, rfl, read⟩ := exists_of_reads_declared next
      exact ValueType.known_of_declared rfl (lt_of_reads_findEnum read)
    · obtain ⟨_, _, _, rfl, read⟩ := exists_of_reads_declared next
      exact ValueType.known_of_declared rfl (lt_of_reads_findRecord read)
    · obtain ⟨_, _, _, rfl, read⟩ := exists_of_reads_declared next
      exact ValueType.known_of_declared rfl (lt_of_reads_findInterface read)
    · obtain ⟨⟨which, element⟩, _, read, done⟩ := reads_bind.mp next
      obtain ⟨rfl, _⟩ := reads_pure.mp done
      refine ValueType.known_of_declared rfl (Option.isSome_iff_exists.mpr ⟨element, ?_⟩)
      exact element?_of_reads_elementRef read
    · obtain ⟨parameters, _, listed, afterList⟩ := reads_bind.mp next
      obtain ⟨_, _, _, afterArrow⟩ := reads_bind.mp afterList
      obtain ⟨result, _, read, done⟩ := reads_bind.mp afterArrow
      obtain ⟨rfl, _⟩ := reads_pure.mp done
      exact ValueType.known_function.mpr ⟨list_forall ih listed, ih read⟩
    · obtain ⟨elements, _, listed, done⟩ := reads_bind.mp next
      obtain ⟨rfl, _⟩ := reads_pure.mp done
      exact ValueType.known_tuple.mpr (list_forall ih listed)
    · exact absurd next not_reads_fail

theorem known_of_reads_type {value : ValueType} (h : Reads (type types) text value rest) :
    value.Known types :=
  known_of_reads_typeWithin (h : Reads (typeWithin types text.length) text value rest)

theorem toList_render_element {which : ElementRef} {enumeration : Enumeration} {element : Element}
    (declared : types.enums[which.enumeration]? = some enumeration)
    (found : enumeration.elements[which.which]? = some element) :
    (which.render types).toList = enumeration.name.toList ++ '.' :: element.name.toList := by
  simp only [ElementRef.render, declared, found, nameOr, Option.map_some, Option.getD_some,
    String.toList_append, List.append_assoc]
  rfl

theorem reads_integerRange (range : IntegerRange) (fits : range.maximum ≤ maxLong)
    (ends : Ends rest)
    (here : skipFrom false text = (toString range.minimum).toList ++
      ("..".toList ++ ((toString range.maximum).toList ++ rest))) :
    Reads integerRange text range rest := by
  refine reads_bind.mpr ⟨range.minimum, _, reads_number ?_ (ends_cons (by decide) _) here, ?_⟩
  · exact Nat.le_trans range.ordered fits
  refine reads_bind.mpr ⟨(), _, reads_expect.mpr (skipFrom_solid (by decide) _), ?_⟩
  refine reads_bind.mpr ⟨range.maximum, rest, reads_number fits ends ?_, ?_⟩
  · exact (begins_of_isWord (isWord_toString _)).skip rest
  · rw [dif_pos range.ordered]
    exact reads_pure.mpr ⟨rfl, rfl⟩

theorem begins_render_type (types : TypeTable) (type : ValueType) :
    Begins (type.render types).toList := by
  cases type <;> simp [ValueType.render, Begins] <;> decide

theorem reads_declared {find : String → Reader Nat} {name : String} {id : Nat}
    {make : Nat → ValueType} (identifies : IsIdentifier name) (ends : Ends rest)
    (found : Reads (find name) rest id rest) :
    Reads (do
      let name ← identifier
      let id ← find name
      pure (make id)) (' ' :: name.toList ++ rest) (make id) rest := by
  refine reads_bind.mpr ⟨name, rest, reads_identifier identifies ends ?_, ?_⟩
  · exact (begins_of_isWord identifies.1).skip rest
  · exact reads_bind.mpr ⟨id, rest, found, reads_pure.mpr ⟨rfl, rfl⟩⟩

theorem renderAll_eq_map (types : TypeTable) (list : List ValueType) :
    ValueType.renderAll types list = list.map (·.render types) := by
  induction list with
  | nil => rfl
  | cons type list ih => rw [ValueType.renderAll, ih, List.map_cons]

theorem reads_types {reader : Reader ValueType} {bound : Nat} {members : List ValueType}
    (reads : ∀ {text rest : List Char} {type : ValueType}, type.Known types →
      (type.render types).toList.length ≤ bound → Ends rest →
      skipFrom false text = (type.render types).toList ++ rest → Reads reader text type rest)
    (known : ∀ type ∈ members, type.Known types)
    (enough : (Text.parenthesized (ValueType.renderAll types members)).toList.length ≤ bound)
    (here : skipFrom false text =
      (Text.parenthesized (ValueType.renderAll types members)).toList ++ rest) :
    Reads (list reader) text members rest := by
  rw [renderAll_eq_map] at enough here
  have read : Reads (list reader) text (members.map id) rest := by
    refine reads_list (fun type _ => begins_render_type types type)
      (fun type member text rest closes shown => ?_) here
    have shorter := length_lt_parenthesized (List.mem_map_of_mem (f := (·.render types)) member)
    exact reads (known type member)
      (Nat.le_of_lt (Nat.lt_of_lt_of_le shorter enough)) closes.ends shown
  rwa [List.map_id] at read

section Written

variable (named : types.WellNamed)
include named

theorem reads_findEnum {id : EnumId} {enumeration : Enumeration}
    (found : types.enums[id]? = some enumeration) :
    Reads (findEnum types enumeration.name) text id text :=
  reads_lookup.mpr ⟨findIdx?_of_nodup named.distinctEnums found, rfl⟩

theorem reads_findRecord {id : Nat} {record : Record} (found : types.records[id]? = some record) :
    Reads (findRecord types record.name) text id text :=
  reads_lookup.mpr ⟨findIdx?_of_nodup named.distinctRecords found, rfl⟩

theorem reads_findInterface {id : Nat} {name : String} (found : types.interfaces[id]? = some name) :
    Reads (findInterface types name) text id text :=
  reads_lookup.mpr ⟨idxOf?_of_nodup named.distinctInterfaces found, rfl⟩

theorem reads_findElement {which : ElementRef} {enumeration : Enumeration} {element : Element}
    (declared : types.enums[which.enumeration]? = some enumeration)
    (found : enumeration.elements[which.which]? = some element) :
    Reads (findElement types enumeration.name element.name) text (which, element) text := by
  have outer := find?_zipIdx_of_nodup named.distinctEnums declared 0
  have inner := find?_zipIdx_of_nodup
    (named.distinctElements enumeration (List.mem_of_getElem? declared)) found 0
  rw [Nat.zero_add] at outer inner
  rw [findElement, outer]
  dsimp only
  rw [inner]
  exact reads_pure.mpr ⟨rfl, rfl⟩

theorem reads_elementOf {which : ElementRef} {enumeration : Enumeration} {element : Element}
    (declared : types.enums[which.enumeration]? = some enumeration)
    (found : enumeration.elements[which.which]? = some element) (ends : Ends rest)
    (here : skipFrom false text = '.' :: element.name.toList ++ rest) :
    Reads (elementOf types enumeration.name) text (which, element) rest := by
  have name := named.elements enumeration (List.mem_of_getElem? declared) element
    (List.mem_of_getElem? found)
  refine reads_bind.mpr ⟨(), element.name.toList ++ rest, reads_expect.mpr here, ?_⟩
  refine reads_bind.mpr ⟨element.name, rest, ?_, reads_findElement named declared found⟩
  exact reads_identifier name ends ((begins_of_isWord name.1).skip rest)

theorem begins_render_element {which : ElementRef} {element : Element}
    (found : types.element? which = some element) : Begins (which.render types).toList := by
  obtain ⟨enumeration, declared, member⟩ := Option.bind_eq_some_iff.mp found
  rw [toList_render_element declared member]
  exact (begins_of_isWord (named.enums _ (List.mem_of_getElem? declared)).1).append _

theorem reads_elementRef {which : ElementRef} {element : Element}
    (found : types.element? which = some element) (ends : Ends rest)
    (here : skipFrom false text = (which.render types).toList ++ rest) :
    Reads (elementRef types) text (which, element) rest := by
  obtain ⟨enumeration, declared, member⟩ := Option.bind_eq_some_iff.mp found
  rw [toList_render_element declared member, List.append_assoc] at here
  have name := named.enums enumeration (List.mem_of_getElem? declared)
  refine reads_bind.mpr ⟨enumeration.name, _, reads_identifier name ?_ here, ?_⟩
  · exact ends_cons (by decide) _
  · exact reads_elementOf named declared member ends (skipFrom_solid (by decide) _)

theorem reads_typeWithin {bound : Nat} {type : ValueType} (known : type.Known types)
    (enough : (type.render types).toList.length ≤ bound) (ends : Ends rest)
    (here : skipFrom false text = (type.render types).toList ++ rest) :
    Reads (typeWithin types bound) text type rest := by
  induction bound generalizing text type rest with
  | zero =>
    obtain ⟨c, tail, shape, _⟩ := begins_render_type types type
    rw [shape] at enough
    exact absurd enough (Nat.not_succ_le_zero _)
  | succ bound ih =>
    -- Every type starts with a keyword of its own, which decides how the rest of it is read.
    cases type with
    | unit => exact reads_bind.mpr ⟨"unit", rest, reads_identifier (by decide) ends here,
        reads_pure.mpr ⟨rfl, rfl⟩⟩
    | string => exact reads_bind.mpr ⟨"string", rest, reads_identifier (by decide) ends here,
        reads_pure.mpr ⟨rfl, rfl⟩⟩
    | host => exact reads_bind.mpr ⟨"host", rest, reads_identifier (by decide) ends here,
        reads_pure.mpr ⟨rfl, rfl⟩⟩
    | integer range =>
      simp only [ValueType.render, String.toList_append, List.append_assoc] at here
      refine reads_bind.mpr ⟨"int", _, reads_identifier_cons (by decide) (by decide) here, ?_⟩
      refine reads_bind.mpr ⟨range, rest, reads_integerRange range known.declared ends ?_,
        reads_pure.mpr ⟨rfl, rfl⟩⟩
      exact (begins_of_isWord (isWord_toString _)).skip _
    | enumeration id =>
      have found := List.getElem?_eq_getElem known.declared
      have name := named.enums _ (List.mem_of_getElem? found)
      simp only [ValueType.render, found, String.toList_append, List.append_assoc] at here
      refine reads_bind.mpr ⟨"enum", _, reads_identifier_cons (by decide) (by decide) here, ?_⟩
      exact reads_declared name ends (reads_findEnum named found)
    | constructor which =>
      obtain ⟨element, found⟩ := Option.isSome_iff_exists.mp known.declared
      simp only [ValueType.render, String.toList_append, List.append_assoc] at here
      refine reads_bind.mpr ⟨"constructor", _,
        reads_identifier_cons (by decide) (by decide) here, ?_⟩
      refine reads_bind.mpr ⟨(which, element), rest, reads_elementRef named found ends ?_,
        reads_pure.mpr ⟨rfl, rfl⟩⟩
      exact (begins_render_element named found).skip rest
    | function parameters result =>
      simp only [ValueType.render, String.toList_append, List.append_assoc] at here
      simp only [ValueType.render, String.toList_append, List.length_append] at enough
      have keyword : "function".toList.length = 8 := rfl
      refine reads_bind.mpr ⟨"function", _,
        reads_identifier (by decide) (ends_parenthesized _ _) here, ?_⟩
      obtain ⟨knownParameters, knownResult⟩ := ValueType.known_function.mp known
      refine reads_bind.mpr ⟨parameters, _, reads_types ih knownParameters (by omega)
        ((begins_parenthesized _).skip _), ?_⟩
      refine reads_bind.mpr ⟨(), ' ' :: ((result.render types).toList ++ rest),
        reads_expect.mpr rfl, ?_⟩
      refine reads_bind.mpr ⟨result, rest, ih knownResult (by omega) ends ?_,
        reads_pure.mpr ⟨rfl, rfl⟩⟩
      exact (begins_render_type types result).skip rest
    | tuple elements =>
      simp only [ValueType.render, String.toList_append, List.append_assoc] at here
      simp only [ValueType.render, String.toList_append, List.length_append] at enough
      have keyword : "tuple".toList.length = 5 := rfl
      refine reads_bind.mpr ⟨"tuple", _,
        reads_identifier (by decide) (ends_parenthesized _ _) here, ?_⟩
      have knownElements := ValueType.known_tuple.mp known
      exact reads_bind.mpr ⟨elements, rest, reads_types ih knownElements (by omega)
        ((begins_parenthesized _).skip _), reads_pure.mpr ⟨rfl, rfl⟩⟩
    | record id =>
      have found := List.getElem?_eq_getElem known.declared
      have name := named.records _ (List.mem_of_getElem? found)
      simp only [ValueType.render, found, String.toList_append, List.append_assoc] at here
      refine reads_bind.mpr ⟨"struct", _, reads_identifier_cons (by decide) (by decide) here, ?_⟩
      exact reads_declared name ends (reads_findRecord named found)
    | interface id =>
      have found := List.getElem?_eq_getElem known.declared
      have name := named.interfaces _ (List.mem_of_getElem? found)
      simp only [ValueType.render, found, String.toList_append, List.append_assoc] at here
      refine reads_bind.mpr ⟨"interface", _, reads_identifier_cons (by decide) (by decide) here, ?_⟩
      exact reads_declared name ends (reads_findInterface named found)

theorem reads_type {value : ValueType} (known : value.Known types) (ends : Ends rest)
    (here : skipFrom false text = (value.render types).toList ++ rest) :
    Reads (type types) text value rest := by
  have shorter := length_skipFrom_le false text
  rw [here, List.length_append] at shorter
  exact (reads_typeWithin named known (by omega) ends here :
    Reads (typeWithin types text.length) text value rest)

end Written

end Reading

end RegisterIR
