import RegisterIR.CommandLine.ErrorReport

/-! Trees of files, and the text that a path in them leads to. A path is walked name by name, and
the first name that leads nowhere decides why it cannot be read. -/

namespace RegisterIR.CommandLine

inductive ReadFailure
  | notFound
  | permissionDenied
  | notDirectory
  | isDirectory
  | nameTooLong
  | undecodable
  | other (reason : String)
deriving DecidableEq, Repr

namespace ReadFailure

def systemReport (code : Nat) (kind message : String) : String :=
  fielded "Os" [("code", toString code), ("kind", kind), ("message", Text.reported message)]

def report : ReadFailure → String
  | notFound => systemReport 2 "NotFound" "No such file or directory"
  | permissionDenied => systemReport 13 "PermissionDenied" "Permission denied"
  | notDirectory => systemReport 20 "NotADirectory" "Not a directory"
  | isDirectory => systemReport 21 "IsADirectory" "Is a directory"
  | nameTooLong => systemReport 36 "InvalidFilename" "File name too long"
  | undecodable =>
    fielded "Error" [("kind", "InvalidData"),
      ("message", Text.reported "stream did not contain valid UTF-8")]
  | other reason => reason

end ReadFailure

def decode (bytes : ByteArray) : Except ReadFailure String :=
  match String.fromUTF8? bytes with
  | some content => .ok content
  | none => .error .undecodable

inductive FileTree
  | file (content : ByteArray)
  | directory (entries : List (String × FileTree))

structure Place where
  node : FileTree
  above : List FileTree

namespace Place

def maxName : Nat := 255

def maxPath : Nat := 4095

/-- Follows one name of a path. Only a directory can be left by a name, even by one that stays
where it is, as at the end of a path that ends in a slash. -/
def step (place : Place) (name : String) : Except ReadFailure Place :=
  match place.node with
  | .file _ => .error .notDirectory
  | .directory entries =>
    if name = "" ∨ name = "." then .ok place
    else if name = ".." then
      match place.above with
      | [] => .ok place
      | parent :: above => .ok ⟨parent, above⟩
    else if maxName < name.utf8ByteSize then .error .nameTooLong
    else
      match entries.lookup name with
      | some found => .ok ⟨found, place.node :: place.above⟩
      | none => .error .notFound

def walk : Place → List String → Except ReadFailure Place
  | place, [] => .ok place
  | place, name :: names => do
    let place ← place.step name
    walk place names

def root (place : Place) : Place := ⟨place.above.getLastD place.node, []⟩

def resolve (place : Place) (path : String) : Except ReadFailure Place :=
  if maxPath < path.utf8ByteSize then .error .nameTooLong
  else
    match path.splitOn "/" with
    | "" :: names => place.root.walk names
    | names => place.walk names

def read (place : Place) (path : String) : Except ReadFailure String := do
  let found ← place.resolve path
  match found.node with
  | .file content => decode content
  | .directory _ => .error .isDirectory

end Place

end RegisterIR.CommandLine
