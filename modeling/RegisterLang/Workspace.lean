import RegisterLang.FileSystem

/-! # Files in memory

A workspace holds the files below one directory. A path is followed from that directory, name by name; an
empty name and `.` stay where they are, and `..` goes up, but not out of the workspace.
-/

namespace RegisterLang

/-- What a path may name. -/
inductive WorkspaceEntry where
  | file (bytes : List UInt8)
  | directory
  deriving DecidableEq, Repr, Inhabited

/-- The entries of a directory tree, by the names that lead to them. -/
structure Workspace where
  entries : List (List String × WorkspaceEntry)
  deriving DecidableEq, Repr, Inhabited

namespace Workspace

def empty : Workspace := ⟨[]⟩

/-- The entry that names lead to. A name above an entry is a directory. -/
def find? (w : Workspace) (names : List String) : Option WorkspaceEntry :=
  match w.entries.lookup names with
  | some e => some e
  | none =>
    if names.isEmpty || w.entries.any fun e => names.isPrefixOf e.1 then some .directory else none

/-- Put an entry in place of what the names led to before. -/
def insert (w : Workspace) (names : List String) (e : WorkspaceEntry) : Workspace :=
  ⟨(names, e) :: w.entries.filter fun other => other.1 ≠ names⟩

/-- The longest name, in bytes. -/
def maxName : Nat := 255

def maxPath : Nat := 4095

/-- Follow names from a directory; `above` leads to it, last name first. The last name may be missing
from the workspace, the others must be directories. -/
def follow (w : Workspace) : List String → List String → Except FileError (List String)
  | above, [] => .ok above.reverse
  | above, name :: names =>
    if name = "" || name = "." then follow w above names
    else if name = ".." then follow w above.tail names
    else if maxName < name.utf8ByteSize then .error .nameTooLong
    else
      let here := name :: above
      match names, w.find? here.reverse with
      | [], _ => .ok here.reverse
      | _ :: _, some .directory => follow w here names
      | _ :: _, some (.file _) => .error .notDirectory
      | _ :: _, none => .error .notFound

/-- The names in a path, unless no file can have that path. -/
def names (path : String) : Except FileError (List String) :=
  if path.isEmpty then .error .notFound
  else if path.toList.contains '\x00' then .error .zeroInName
  else if maxPath < path.utf8ByteSize then .error .nameTooLong
  else .ok (path.splitOn "/")

def read (w : Workspace) (path : String) : Except FileError (List UInt8) := do
  match w.find? (← w.follow [] (← names path)) with
  | some (.file bytes) => return bytes
  | some .directory => throw .isDirectory
  | none => throw .notFound

/-- Write the file that a path leads to. A path that ends with a slash can only be a directory's. -/
def write (w : Workspace) (path : String) (bytes : List UInt8) : Except FileError Workspace := do
  let written := ((← names path).reverse.dropWhile String.isEmpty).reverse
  let target ← w.follow [] written
  match w.find? target with
  | some .directory => throw .isDirectory
  | _ =>
    if path.endsWith "/" then throw .isDirectory
    else return w.insert target (.file bytes)

def fileSystem : FileSystem (StateM Workspace) where
  read := fun path w => (w.read path, w)
  write := fun path bytes w =>
    match w.write path bytes with
    | .ok w' => (.ok (), w')
    | .error e => (.error e, w)

end Workspace

end RegisterLang
