import RegisterIR.Proofs.RoundTrip

/-! Which programs survive writing and reading. A text may declare its types in any order, as long
as each stands before its uses; the written form has all enums first, then the structs and then the
interfaces. It is read back exactly when no type mentions one that is written after it, and
otherwise reading stops at such a mention. To see this, the reader is compared with one that knows
all structs and interfaces from the start: the two agree until the first misses a name. -/

namespace RegisterIR

inductive TypeTable.NamedLate (types : TypeTable) : TypeKind → String → Prop
  | record {record} : record ∈ types.records → NamedLate types .record record.name
  | interface {name} : name ∈ types.interfaces → NamedLate types .interface name

theorem TypeTable.NamedLate.mono {types large : TypeTable} {kind : TypeKind} {name : String}
    (h : types.NamedLate kind name) (records : types.records ⊆ large.records)
    (interfaces : types.interfaces ⊆ large.interfaces) : large.NamedLate kind name := by
  cases h with
  | record member => exact .record (records member)
  | interface member => exact .interface (interfaces member)

namespace ValueType

variable {enums : List Enumeration} {type : ValueType}

theorem isRecord_eq_false {interfaces : List String} (h : type.Declared ⟨enums, [], interfaces⟩) :
    type.isRecord = false := by
  cases type with
  | record id => exact absurd h (Nat.not_lt_zero id)
  | _ => rfl

theorem isInterface_eq_false {records : List Record} (h : type.Declared ⟨enums, records, []⟩) :
    type.isInterface = false := by
  cases type with
  | interface id => exact absurd h (Nat.not_lt_zero id)
  | _ => rfl

end ValueType

namespace Reading

open ValueType (isRecord_eq_false isInterface_eq_false)

variable {α β : Type}

/-- The reader misses a name that the table has. -/
def Misses (types : TypeTable) (reader : Reader α) (text : List Char) : Prop :=
  ∃ kind name, types.NamedLate kind name ∧ reader text = .error (.undefinedType kind name)

/-- The readers do the same, unless the first misses a name. -/
def Agrees (types : TypeTable) (reader full : Reader α) : Prop :=
  ∀ text, reader text = full text ∨ Misses types reader text

section Agreement

variable {types : TypeTable}

theorem Misses.mono {reader : Reader α} {text : List Char} {large : TypeTable}
    (misses : Misses types reader text) (records : types.records ⊆ large.records)
    (interfaces : types.interfaces ⊆ large.interfaces) : Misses large reader text := by
  obtain ⟨kind, name, late, failed⟩ := misses
  exact ⟨kind, name, late.mono records interfaces, failed⟩

theorem Misses.bind {reader : Reader α} {next : α → Reader β} {text : List Char}
    (misses : Misses types reader text) : Misses types (reader >>= next) text := by
  obtain ⟨kind, name, late, failed⟩ := misses
  refine ⟨kind, name, late, ?_⟩
  change (reader text >>= fun (value, rest) => next value rest) = _
  rw [failed]
  rfl

theorem Misses.after {reader : Reader α} {next : α → Reader β} {text rest : List Char} {value : α}
    (read : Reads reader text value rest) (misses : Misses types (next value) rest) :
    Misses types (reader >>= next) text := by
  obtain ⟨kind, name, late, failed⟩ := misses
  refine ⟨kind, name, late, ?_⟩
  change (reader text >>= fun (value, rest) => next value rest) = _
  rw [show reader text = .ok (value, rest) from read]
  exact failed

theorem agrees_refl (reader : Reader α) : Agrees types reader reader := fun _ => .inl rfl

theorem Agrees.bind {reader full : Reader α} {next next' : α → Reader β}
    (first : Agrees types reader full) (later : ∀ value, Agrees types (next value) (next' value)) :
    Agrees types (reader >>= next) (full >>= next') := by
  intro text
  rcases first text with same | misses
  · cases outcome : reader text with
    | error error =>
      left
      change (reader text >>= fun (value, rest) => next value rest) =
        (full text >>= fun (value, rest) => next' value rest)
      rw [← same, outcome]
      rfl
    | ok pair =>
      obtain ⟨value, rest⟩ := pair
      rcases later value rest with same' | misses
      · left
        change (reader text >>= fun (value, rest) => next value rest) =
          (full text >>= fun (value, rest) => next' value rest)
        rw [← same, outcome]
        exact same'
      · exact .inr (misses.after outcome)
  · exact .inr misses.bind

theorem Agrees.misses {reader full : Reader α} {text rest : List Char} {value : α}
    (h : Agrees types reader full) (read : Reads full text value rest)
    (other : ¬ Reads reader text value rest) : Misses types reader text := by
  rcases h text with same | misses
  · exact absurd (same.trans read) other
  · exact misses

section Sequences

variable {step full : β → Reader β} (each : ∀ state, Agrees types (step state) (full state))
include each

theorem agrees_itemsWithin (bound : Nat) (start : β) :
    Agrees types (itemsWithin step bound start) (itemsWithin full bound start) := by
  induction bound generalizing start with
  | zero => exact (each start).bind fun _ => agrees_refl _
  | succ bound ih =>
    refine (each start).bind fun items => (agrees_refl _).bind fun closed => ?_
    cases closed with
    | true => exact agrees_refl _
    | false => exact (agrees_refl _).bind fun _ => ih items

theorem agrees_items (start : β) : Agrees types (items step start) (items full start) := by
  refine (agrees_refl _).bind fun _ => (agrees_refl _).bind fun closed => ?_
  cases closed with
  | true => exact agrees_refl _
  | false => exact fun text => agrees_itemsWithin each text.length start text

theorem agrees_fieldsWithin (bound : Nat) (start : β) :
    Agrees types (fieldsWithin step bound start) (fieldsWithin full bound start) := by
  induction bound generalizing start with
  | zero =>
    refine (agrees_refl _).bind fun closed => ?_
    cases closed with
    | true => exact agrees_refl _
    | false => exact (each start).bind fun _ => agrees_refl _
  | succ bound ih =>
    refine (agrees_refl _).bind fun closed => ?_
    cases closed with
    | true => exact agrees_refl _
    | false =>
      refine (each start).bind fun fields => (agrees_refl _).bind fun comma => ?_
      cases comma with
      | true => exact ih fields
      | false => exact agrees_refl _

theorem agrees_fields (start : β) : Agrees types (fields step start) (fields full start) :=
  (agrees_refl _).bind fun _ text => agrees_fieldsWithin each text.length start text

end Sequences

theorem Agrees.list {reader full : Reader α} (h : Agrees types reader full) :
    Agrees types (list reader) (list full) :=
  agrees_items (fun _ => h.bind fun _ => agrees_refl _) []

theorem agrees_lookup {γ : Type} {first all : List γ} {p : γ → Bool} {kind : TypeKind}
    {name : String} (initial : first <+: all)
    (late : ∀ value ∈ all, p value → types.NamedLate kind name) :
    Agrees types
      (match first.findIdx? p with
        | some id => pure id
        | none => raise (.undefinedType kind name))
      (match all.findIdx? p with
        | some id => pure id
        | none => raise (.undefinedType kind name)) := by
  obtain ⟨more, rfl⟩ := initial
  rw [List.findIdx?_append]
  cases found : first.findIdx? p with
  | some id => exact agrees_refl _
  | none =>
    cases later : more.findIdx? p with
    | none => exact agrees_refl _
    | some id =>
      obtain ⟨inside, holds, _⟩ := List.findIdx?_eq_some_iff_getElem.mp later
      exact fun text => .inr ⟨kind, name,
        late _ (List.mem_append_right _ (List.getElem_mem inside)) holds, rfl⟩

end Agreement

structure Lacks (types small : TypeTable) : Prop where
  enums : small.enums = types.enums
  records : small.records <+: types.records
  interfaces : small.interfaces <+: types.interfaces

section Types

variable {types small : TypeTable} (lacks : Lacks types small)
include lacks

theorem agrees_findRecord (name : String) :
    Agrees types (findRecord small name) (findRecord types name) := by
  refine agrees_lookup lacks.records fun record member same => ?_
  obtain rfl : record.name = name := by simpa using same
  exact .record member

theorem agrees_findInterface (name : String) :
    Agrees types (findInterface small name) (findInterface types name) := by
  refine agrees_lookup lacks.interfaces fun other member same => ?_
  obtain rfl : other = name := by simpa using same
  exact .interface member

theorem findEnum_eq : findEnum small = findEnum types := by
  funext name
  rw [findEnum, findEnum, lacks.enums]

theorem elementRef_eq : elementRef small = elementRef types := by
  simp only [elementRef, elementOf, findElement, lacks.enums]

theorem agrees_typeWithin (bound : Nat) :
    Agrees types (typeWithin small bound) (typeWithin types bound) := by
  induction bound with
  | zero => exact agrees_refl _
  | succ bound ih =>
    refine (agrees_refl _).bind fun word => ?_
    rw [findEnum_eq lacks, elementRef_eq lacks]
    split
    any_goals exact agrees_refl _
    · exact (agrees_refl _).bind fun name =>
        (agrees_findRecord lacks name).bind fun _ => agrees_refl _
    · exact (agrees_refl _).bind fun name =>
        (agrees_findInterface lacks name).bind fun _ => agrees_refl _
    · exact ih.list.bind fun _ => (agrees_refl _).bind fun _ => ih.bind fun _ => agrees_refl _
    · exact ih.list.bind fun _ => agrees_refl _

theorem agrees_type : Agrees types (type small) (type types) :=
  fun text => agrees_typeWithin lacks text.length text

theorem agrees_enumeration : Agrees types (enumeration small) (enumeration types) := by
  have each (name : String) (elements : List Element) :
      Agrees types (element small name elements) (element types name elements) := by
    refine (agrees_refl _).bind fun own => ?_
    split
    · exact agrees_refl _
    · refine (agrees_refl _).bind fun opened => ?_
      cases opened with
      | true => exact (agrees_type lacks).bind fun _ => agrees_refl _
      | false => exact agrees_refl _
  refine (agrees_refl _).bind fun name => ?_
  rw [lacks.enums]
  split
  · exact agrees_refl _
  · exact (agrees_fields (each name) []).bind fun _ => agrees_refl _

theorem agrees_record (same : small.records = types.records) :
    Agrees types (record small) (record types) := by
  have each (members : List Member) : Agrees types (member small members) (member types members) :=
    (agrees_refl _).bind fun _ => (agrees_refl _).bind fun _ =>
      (agrees_type lacks).bind fun _ => agrees_refl _
  refine (agrees_refl _).bind fun name => ?_
  rw [same]
  split
  · exact agrees_refl _
  · exact (agrees_fields each []).bind fun _ => agrees_refl _

end Types

/-- Written parts of which one stops the reading, after others that are read. -/
inductive Breaks {β : Type} (reads : β → List Char → β → Prop) (stops : β → List Char → Prop) :
    β → List (List Char) → Prop
  | here {state shown texts} : Begins shown → stops state shown →
      Breaks reads stops state (shown :: texts)
  | later {state next shown texts} : Begins shown → reads state shown next →
      Breaks reads stops next texts → Breaks reads stops state (shown :: texts)

section Breaks

variable {reads : β → List Char → β → Prop} {stops : β → List Char → Prop} {first middle : β}
  {texts : List (List Char)}

theorem Breaks.append (h : Breaks reads stops first texts) (more : List (List Char)) :
    Breaks reads stops first (texts ++ more) := by
  induction h with
  | here begins stopped => exact .here begins stopped
  | later begins read _ ih => exact .later begins read ih

theorem Chain.breaks {more : List (List Char)} (h : Chain reads first texts middle)
    (broken : Breaks reads stops middle more) : Breaks reads stops first (texts ++ more) := by
  induction h with
  | nil => exact broken
  | cons begins read _ ih => exact .later begins read (ih broken)

end Breaks

/-- The written declaration mentions a name that is declared after it. -/
def Premature (types : TypeTable) (before : Declarations) (shown : List Char) : Prop :=
  ∀ text rest, skipFrom false text = shown ++ rest → Misses types (declaration before) text

theorem misses_declarationsWithin_cons {types : TypeTable} {state : Declarations}
    {shown : List Char} {texts : List (List Char)} {bound : Nat} {text : List Char}
    (begins : Begins shown) (rounds : (['\n'].intercalate (shown :: texts)).length ≤ bound)
    (here : skipFrom false text = skipFrom false (['\n'].intercalate (shown :: texts)))
    (misses : ∀ bound tail, (['\n'].intercalate texts).length ≤ bound →
      skipFrom false tail = skipFrom false (['\n'].intercalate texts) →
      Misses types (do
        let declarations ← declaration state
        declarationsWithin bound declarations) (shown ++ tail)) :
    Misses types (declarationsWithin bound state) text := by
  obtain ⟨tail, shape, shorter, same⟩ := exists_intercalate_newline shown texts
  rw [shape, begins.skip] at here
  rw [shape, List.length_append] at rounds
  obtain ⟨c, more, rfl, _⟩ := begins
  rw [List.length_cons] at rounds
  cases bound with
  | zero => omega
  | succ bound =>
    have skipped : Reads skip text () (c :: more ++ tail) := reads_skip.mpr here.symm
    have seen : Reads peek? (c :: more ++ tail) (some c) (c :: more ++ tail) :=
      reads_peek?.mpr ⟨rfl, rfl⟩
    exact .after skipped (.after seen (misses bound tail (by omega) same))

theorem misses_declarationsWithin {types : TypeTable} {texts : List (List Char)}
    {start : Declarations} {bound : Nat} {text : List Char}
    (broken : Breaks Declares (Premature types) start texts)
    (rounds : (['\n'].intercalate texts).length ≤ bound)
    (here : skipFrom false text = skipFrom false (['\n'].intercalate texts)) :
    Misses types (declarationsWithin bound start) text := by
  induction broken generalizing bound text with
  | here begins premature =>
    exact misses_declarationsWithin_cons begins rounds here fun _ tail _ _ =>
      (premature _ tail (begins.skip tail)).bind
  | later begins declares _ ih =>
    exact misses_declarationsWithin_cons begins rounds here fun bound tail enough same =>
      .after (declares _ tail (begins.skip tail)) (ih enough ((skipFrom_newline tail).trans same))

section Tables

variable {types : TypeTable} (listed : types.Listed)
include listed

theorem premature_enumeration {before after : List Enumeration} {value : Enumeration}
    (whole : types.enums = before ++ value :: after)
    (unknown : ¬ ∀ element ∈ value.elements, ∀ state ∈ element.state,
      state.Known ⟨before, [], []⟩) :
    Premature types ⟨⟨before, [], []⟩, []⟩ (value.render types).toList := by
  intro text rest here
  have named := listed.named
  have member : value ∈ types.enums := by simp [whole]
  have extends' : types.Extends ⟨before, types.records, types.interfaces⟩ :=
    ⟨⟨value :: after, whole.symm⟩, List.prefix_refl _, List.prefix_refl _⟩
  have lacks : Lacks ⟨before, types.records, types.interfaces⟩ ⟨before, [], []⟩ :=
    ⟨rfl, List.nil_prefix, List.nil_prefix⟩
  have name := named.enums value member
  rw [toList_render_enumeration] at here
  have keyword : Reads identifier text "enum" (' ' :: enumerationText types value rest) :=
    reads_identifier_cons (by decide) (by decide) here
  have full : Reads (enumeration ⟨before, types.records, types.interfaces⟩)
      (' ' :: enumerationText types value rest) value ('\n' :: rest) :=
    reads_enumeration (extends'.wellNamed named) extends' name
      (not_mem_before named.distinctEnums whole) (named.elements value member)
      (named.distinctElements value member) (listed.payloads before value after whole)
      ((begins_of_isWord name.1).skip _)
  have misses := (agrees_enumeration lacks).misses full fun read =>
    unknown (listed_of_reads_enumeration read).2.2.payloads
  exact .after keyword (misses.bind.mono (List.Subset.refl _) (List.Subset.refl _))

theorem premature_record {before after : List Record} {value : Record}
    (whole : types.records = before ++ value :: after)
    (unknown : ¬ ∀ member ∈ value.members, member.type.Known ⟨types.enums, before, []⟩) :
    Premature types ⟨⟨types.enums, before, []⟩, []⟩ (value.render types).toList := by
  intro text rest here
  have named := listed.named
  have member : value ∈ types.records := by simp [whole]
  have extends' : types.Extends ⟨types.enums, before, types.interfaces⟩ :=
    ⟨List.prefix_refl _, ⟨value :: after, whole.symm⟩, List.prefix_refl _⟩
  have lacks : Lacks ⟨types.enums, before, types.interfaces⟩ ⟨types.enums, before, []⟩ :=
    ⟨rfl, List.prefix_refl _, List.nil_prefix⟩
  have name := named.records value member
  rw [toList_render_record] at here
  have keyword : Reads identifier text "struct" (' ' :: recordText types value rest) :=
    reads_identifier_cons (by decide) (by decide) here
  have full : Reads (record ⟨types.enums, before, types.interfaces⟩)
      (' ' :: recordText types value rest) value ('\n' :: rest) :=
    reads_record (extends'.wellNamed named) extends' name
      (not_mem_before named.distinctRecords whole)
      (fun field inside => ⟨named.members value member field inside,
        listed.members before value after whole field inside⟩)
      ((begins_of_isWord name.1).skip _)
  have misses := (agrees_record lacks rfl).misses full fun read =>
    unknown fun field inside => ((listed_of_reads_record read).2.2 field inside).2
  exact .after keyword (misses.bind.mono (by simp [whole]) (List.Subset.refl _))

theorem chain_or_breaks_enums : ∀ before after, types.enums = before ++ after →
    (Chain Declares ⟨⟨before, [], []⟩, []⟩
        (after.map fun enumeration => (enumeration.render types).toList)
        ⟨⟨types.enums, [], []⟩, []⟩ ∧
      ∀ enumeration ∈ after, ∀ element ∈ enumeration.elements, ∀ state ∈ element.state,
        ∀ part ∈ state.parts, part.isRecord = false ∧ part.isInterface = false) ∨
    Breaks Declares (Premature types) ⟨⟨before, [], []⟩, []⟩
      (after.map fun enumeration => (enumeration.render types).toList)
  | before, [], whole => by
    rw [whole, List.append_nil]
    exact .inl ⟨.nil, by simp⟩
  | before, value :: after, whole => by
    have begins := begins_render_enumeration types value
    by_cases known : ∀ element ∈ value.elements, ∀ state ∈ element.state,
        state.Known ⟨before, [], []⟩
    · have declares := declares_enumeration listed whole known
      rcases chain_or_breaks_enums (before ++ [value]) after (by simp [whole]) with
        ⟨chain, plain⟩ | broken
      · refine .inl ⟨.cons begins declares chain, List.forall_mem_cons.mpr ⟨?_, plain⟩⟩
        intro element inside state payload part within
        have declared := known element inside state payload part within
        exact ⟨isRecord_eq_false declared, isInterface_eq_false declared⟩
      · exact .inr (.later begins declares broken)
    · exact .inr (.here begins (premature_enumeration listed whole known))

theorem chain_or_breaks_records : ∀ before after, types.records = before ++ after →
    (Chain Declares ⟨⟨types.enums, before, []⟩, []⟩
        (after.map fun record => (record.render types).toList)
        ⟨⟨types.enums, types.records, []⟩, []⟩ ∧
      ∀ record ∈ after, ∀ member ∈ record.members, ∀ part ∈ member.type.parts,
        part.isInterface = false) ∨
    Breaks Declares (Premature types) ⟨⟨types.enums, before, []⟩, []⟩
      (after.map fun record => (record.render types).toList)
  | before, [], whole => by
    rw [whole, List.append_nil]
    exact .inl ⟨.nil, by simp⟩
  | before, value :: after, whole => by
    have begins := begins_render_record types value
    by_cases known : ∀ member ∈ value.members, member.type.Known ⟨types.enums, before, []⟩
    · have declares := declares_record listed whole known
      rcases chain_or_breaks_records (before ++ [value]) after (by simp [whole]) with
        ⟨chain, plain⟩ | broken
      · refine .inl ⟨.cons begins declares chain, List.forall_mem_cons.mpr ⟨?_, plain⟩⟩
        exact fun member inside part within =>
          isInterface_eq_false (known member inside part within)
      · exact .inr (.later begins declares broken)
    · exact .inr (.here begins (premature_record listed whole known))

end Tables

end Reading

namespace Program

open Reading (Breaks Declares Premature)

variable {program : Program}

theorem breaks_texts (listed : program.Listed) (unordered : ¬ program.toTypeTable.Ordered) :
    Breaks Declares (Premature program.toTypeTable) .empty program.texts := by
  rw [texts, List.append_assoc, List.append_assoc]
  rcases Reading.chain_or_breaks_enums listed.types [] program.enums rfl with
    ⟨chain, payloads⟩ | broken
  · rcases Reading.chain_or_breaks_records listed.types [] program.records rfl with
      ⟨_, members⟩ | broken
    · exact absurd ⟨payloads, members⟩ unordered
    · exact chain.breaks (broken.append _)
  · exact broken.append _

/-- Writing and reading give a program back exactly when no enum mentions a struct or an interface
and no struct mentions an interface. Otherwise the written form is rejected, for a type that it
declares too late. -/
theorem parse_render_iff_ordered {text : String} {program : Program}
    (parsed : Program.parse text = .ok program) :
    (Program.parse program.render = .ok program ↔ program.toTypeTable.Ordered) ∧
    (¬ program.toTypeTable.Ordered → ∃ kind name, program.NamedLate kind name ∧
      Program.parse program.render = .error (.undefinedType kind name)) := by
  obtain ⟨listed, verified⟩ := listed_of_parse parsed
  have rejected : ¬ program.toTypeTable.Ordered → ∃ kind name, program.NamedLate kind name ∧
      Program.parse program.render = .error (.undefinedType kind name) := by
    intro unordered
    have broken := breaks_texts listed unordered
    obtain ⟨kind, name, late, failed⟩ :=
      Reading.misses_declarationsWithin broken (Nat.le_refl _) rfl
    refine ⟨kind, name, late, ?_⟩
    rw [← toList_render] at failed
    rw [parse, Reading.program, failed]
    rfl
  refine ⟨⟨fun back => ?_, parse_render listed verified⟩, rejected⟩
  refine Classical.byContradiction fun unordered => ?_
  obtain ⟨kind, name, _, failed⟩ := rejected unordered
  rw [back] at failed
  cases failed

/-- A struct that an enum mentions has to stand before it, but is written after it. -/
def boxesText : String := "struct S \x7b \x7d\nenum E \x7b a(struct S) \x7d\n"

def boxes : Program where
  enums := [⟨"E", [⟨"a", some (.record 0)⟩]⟩]
  records := [⟨"S", []⟩]
  interfaces := []
  functions := []

theorem boxes_not_read_back : Program.parse boxesText = .ok boxes ∧
    Program.parse boxes.render = .error (.undefinedType .record "S") := by
  constructor <;> decide +kernel

/-- Mentions of all kinds, some of them deep inside a type, and one of an interface in a struct. -/
def servicesText : String :=
  "\n".intercalate
    ["enum Mode \x7b plain, named(string) \x7d",
      "interface Port",
      "struct Route \x7b mode: enum Mode, next: function(host) -> tuple(interface Port) \x7d",
      "enum Reply \x7b none, some(tuple(enum Mode, int 0..7)) \x7d",
      "fn main(%a) -> %a \x7b \x7d"]

theorem parse_render_iff_ordered_servicesText : ∃ program,
    Program.parse servicesText = .ok program ∧ ¬ program.toTypeTable.Ordered ∧
    (Program.parse program.render = .ok program ↔ program.toTypeTable.Ordered) ∧
    (¬ program.toTypeTable.Ordered → ∃ kind name, program.NamedLate kind name ∧
      Program.parse program.render = .error (.undefinedType kind name)) := by
  have parsed : Program.parse servicesText = .ok
      { enums := [⟨"Mode", [⟨"plain", none⟩, ⟨"named", some .string⟩]⟩,
          ⟨"Reply", [⟨"none", none⟩,
            ⟨"some", some (.tuple [.enumeration 0, .integer ⟨0, 7, by decide⟩])⟩]⟩]
        records := [⟨"Route", [⟨"mode", .enumeration 0⟩,
          ⟨"next", .function [.host] (.tuple [.interface 0])⟩]⟩]
        interfaces := ["Port"]
        functions := [⟨"main", 1, 1, 0, [some "a"], []⟩] } := by
    rw [parse, servicesText, String.toList_intercalate]
    decide +kernel
  refine ⟨_, parsed, fun ordered => absurd ordered.members (by decide), ?_⟩
  exact parse_render_iff_ordered parsed

end Program

end RegisterIR
