/-! What the library reports while it works. An event is a record with the facts of the step;
its level, its source and its wording are functions of it. -/

namespace RegisterIR

inductive Level
  | trace
  | debug
  | info
deriving DecidableEq, Repr

namespace Level

def name : Level → String
  | trace => "TRACE"
  | debug => "DEBUG"
  | info => "INFO"

end Level

inductive Event
  | parsed (functions enums structs interfaces : Nat)
  | layerRemoved (function : String) (layer removed left : Nat)
  | deadCodeRemoved (function : String) (layers registers instructions : Nat)
  | unusedRemoved (removed left : Nat)
  | encodedDirectly (enumeration : String)
  | payloadsCollide (enumeration : String)
  | generating (id : Nat) (function : String)
  | loaded (functions enums : Nat)
deriving DecidableEq, Repr

namespace Event

def level : Event → Level
  | layerRemoved .. => .trace
  | generating .. => .trace
  | loaded .. => .info
  | _ => .debug

def source : Event → String
  | parsed .. => "tessel::text_ir::parser"
  | layerRemoved .. => "tessel::optimize::dead_code"
  | deadCodeRemoved .. => "tessel::optimize::dead_code"
  | unusedRemoved .. => "tessel::optimize::unused_functions"
  | encodedDirectly .. => "tessel::ecmascript::encoding"
  | payloadsCollide .. => "tessel::ecmascript::encoding"
  | generating .. => "tessel::ecmascript::backend"
  | loaded .. => "tessel"

def message : Event → String
  | parsed functions enums structs interfaces =>
    s!"parsed {functions} functions, {enums} enums, {structs} structs, {interfaces} interfaces"
  | layerRemoved function layer removed left =>
    s!"{function}: layer {layer} removed {removed} registers, {left} left"
  | deadCodeRemoved function layers registers instructions =>
    s!"{function}: {layers} layers, {registers} registers and {instructions} instructions removed"
  | unusedRemoved removed left => s!"removed {removed} unused functions, {left} left"
  | encodedDirectly enumeration => s!"enum {enumeration}: payloads encoded directly"
  | payloadsCollide enumeration =>
    s!"enum {enumeration}: payloads collide, falling back to tagged arrays"
  | generating id function => s!"generating lambda_{id} for {function}"
  | loaded functions enums => s!"parsed {functions} functions, {enums} enums"

end Event

end RegisterIR
