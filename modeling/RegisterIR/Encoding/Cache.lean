import RegisterIR.Encoding.Strategy
import RegisterIR.Traced

/-! The strategies of the enums of a program, computed when they are first asked for. Payloads of
an enum type need the strategy of that enum first, so a request can lead to others; an enum that
needs its own strategy has none. -/

namespace RegisterIR

structure Cache where
  known : List (EnumId × Strategy)
  active : List EnumId
deriving DecidableEq

namespace Cache

def empty : Cache := ⟨[], []⟩

def enter (cache : Cache) (id : EnumId) : Cache := ⟨cache.known, id :: cache.active⟩

def finish (cache : Cache) (id : EnumId) (strategy : Strategy) : Cache :=
  ⟨(id, strategy) :: cache.known, cache.active.erase id⟩

end Cache

abbrev Cached := StateT Cache Traced

def ValueType.valueSet (require : EnumId → Cached Strategy) : ValueType → Cached ValueSet
  | unit => pure (.ofKind .undefined)
  | string => pure (.ofKind .string)
  | host => pure .anything
  | integer range => pure (.ofRange (.clamped range.minimum range.maximum))
  | enumeration id => do
    let strategy ← require id
    strategy.valueSet
  | constructor _ => pure (.ofKind .function)
  | function .. => pure (.ofKind .function)
  | tuple _ => pure (.ofKind .array)
  | record _ => pure (.ofKind .array)
  | interface _ => pure (.ofKind .object)

namespace Strategy

/-- The sets of the payloads in order, as long as each is apart from the values used before it,
and all values used. -/
def payloads (require : EnumId → Cached Strategy) (used : ValueSet) :
    List Element → Cached (Option (List (Option ValueSet) × ValueSet))
  | [] => pure (some ([], used))
  | ⟨_, none⟩ :: elements => do
    let rest ← payloads require used elements
    pure (rest.map fun (sets, used) => (none :: sets, used))
  | ⟨_, some state⟩ :: elements => do
    let set ← state.valueSet require
    if set.isEmpty then pure none
    else
      let (merged, used) := used.merge set
      if merged then do
        let rest ← payloads require used elements
        pure (rest.map fun (sets, used) => (some set :: sets, used))
      else pure none

def ofEnumeration (require : EnumId → Cached Strategy) (enumeration : Enumeration) :
    Cached Strategy := do
  if enumeration.hasState then
    let chosen ← match ← payloads require .empty enumeration.elements with
      | none => pure none
      | some (sets, used) => direct 0 used sets
    match chosen with
    | some strategy => do
      Traced.record (.encodedDirectly enumeration.name)
      pure strategy
    | none => do
      Traced.record (.payloadsCollide enumeration.name)
      pure (tagged enumeration.elements)
  else pure (constants enumeration.elements.length)

/-- A request for the strategy of an enum, which requests those of the enums in its payloads from
`nested`. -/
def requireVia (enums : List Enumeration) (nested : EnumId → Cached Strategy) (id : EnumId) :
    Cached Strategy := do
  match enums[id]? with
  | none => Traced.fault (.unknownEnum id enums.length)
  | some enumeration => do
    let cache ← get
    match cache.known.lookup id with
    | some strategy => pure strategy
    | none => do
      if id ∈ cache.active then Traced.fault (.recursiveEnum id)
      else do
        set (cache.enter id)
        let strategy ← ofEnumeration nested enumeration
        modify (·.finish id strategy)
        pure strategy

/-- The strategy of an enum whose payloads nest at most `depth` enums deep. A table of `n` enums
admits no deeper nesting than `n + 1` without meeting an enum again. -/
def requireWithin (enums : List Enumeration) : (depth : Nat) → EnumId → Cached Strategy
  | 0, id => Traced.fault (.recursiveEnum id)
  | depth + 1, id => requireVia enums (requireWithin enums depth) id

def require (enums : List Enumeration) (id : EnumId) : Cached Strategy :=
  requireWithin enums (enums.length + 1) id

end Strategy

def ElementRef.encoding (enums : List Enumeration) (element : ElementRef) :
    Cached ElementEncoding := do
  let strategy ← Strategy.require enums element.enumeration
  entry strategy element.which

end RegisterIR
