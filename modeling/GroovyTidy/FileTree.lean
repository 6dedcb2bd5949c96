import GroovyTidy.Path
import GroovyTidy.Text.Utf8

set_option autoImplicit false

/-!
Files and directories under a working directory. Nothing else is there: a path that starts with a
slash, or that climbs above the working directory, leads nowhere, whatever the machine holds
outside.
-/
namespace GroovyTidy

/-- A file with its contents, or a directory with the entries in it. -/
inductive Entry where
  | file (bytes : List UInt8)
  | directory (entries : List (String × Entry))

/-- Why a path leads nowhere. -/
inductive PathFailure where
  | missing
  | notDirectory
  | isDirectory
  deriving DecidableEq, Repr

def PathFailure.message : PathFailure → String
  | .missing => "No such file or directory (os error 2)"
  | .notDirectory => "Not a directory (os error 20)"
  | .isDirectory => "Is a directory (os error 21)"

/-- What the working directory holds. -/
structure FileTree where
  entries : List (String × Entry)

namespace Entry

def isDirectory : Entry → Bool
  | .file _ => false
  | .directory _ => true

def descend : Entry → List String → Option Entry
  | entry, [] => some entry
  | .file _, _ :: _ => none
  | .directory entries, name :: names => (entries.lookup name).bind fun entry => entry.descend names

/-- Puts an entry at a name, in place of another one or at the end. -/
def put (name : String) (entry : Entry) : List (String × Entry) → List (String × Entry)
  | [] => [(name, entry)]
  | (other, old) :: rest =>
    if other = name then (name, entry) :: rest else (other, old) :: put name entry rest

def inside : Option Entry → List (String × Entry)
  | some (.directory entries) => entries
  | _ => []

/-- Puts a file at a path of names, and makes the directories on the way. -/
def putFile (bytes : List UInt8) : List String → List (String × Entry) → List (String × Entry)
  | [], entries => entries
  | [name], entries => put name (.file bytes) entries
  | name :: names, entries =>
    put name (.directory (putFile bytes names (inside (entries.lookup name)))) entries

/-- Makes the directories of a path of names that are not there. -/
def putDirectory : List String → List (String × Entry) → List (String × Entry)
  | [], entries => entries
  | name :: names, entries =>
    put name (.directory (putDirectory names (inside (entries.lookup name)))) entries

mutual

/-- The files at an entry, with the paths that start with a text. -/
def filesAt (path : String) : Entry → List (String × List UInt8)
  | .file bytes => [(path, bytes)]
  | .directory entries => filesOf (path ++ "/") entries

def filesOf (front : String) : List (String × Entry) → List (String × List UInt8)
  | [] => []
  | (name, entry) :: rest => filesAt (front ++ name) entry ++ filesOf front rest

end

end Entry

namespace FileTree

def empty : FileTree where
  entries := []

def at? (tree : FileTree) (names : List String) : Option Entry :=
  (Entry.directory tree.entries).descend names

def namesOf (path : String) : List String :=
  ((Text.splitAt '/' path.toList).filter fun part => !part.isEmpty).map String.ofList

/-- Adds a file, or a directory if the path ends with a slash. -/
def add (tree : FileTree) (path : String) (bytes : List UInt8) : FileTree where
  entries :=
    if path.toList.getLast? = some '/' then Entry.putDirectory (namesOf path) tree.entries
    else Entry.putFile bytes (namesOf path) tree.entries

/-- Follows the parts of a path from a directory that is reached by some names. Only a directory has
a parent and entries. What is above the working directory is missing, even if the path comes back
from there. -/
def follow (tree : FileTree) : List String → List (List Char) → Except PathFailure (List String)
  | names, [] => .ok names
  | names, part :: rest =>
    match tree.at? names with
    | some (.directory _) =>
      if part.isEmpty ∨ part = ['.'] then follow tree names rest
      else if part = ['.', '.'] then
        if names.isEmpty then .error .missing else follow tree names.dropLast rest
      else if (tree.at? (names ++ [String.ofList part])).isSome then
        follow tree (names ++ [String.ofList part]) rest
      else .error .missing
    | _ => .error .notDirectory

/-- The names that lead to the same entry as a path without detours. A path from the root is
missing, even if it leads back into the working directory. -/
def locate (tree : FileTree) (path : String) : Except PathFailure (List String) :=
  if path.isEmpty ∨ path.toList.head? = some '/' then .error .missing
  else tree.follow [] (Text.splitAt '/' path.toList)

def read (tree : FileTree) (path : String) : Except PathFailure (List UInt8) := do
  match tree.at? (← tree.locate path) with
  | some (.file bytes) => return bytes
  | some (.directory _) => throw .isDirectory
  | none => throw .missing

/-- The tree with new contents for the file at a path. -/
def write (tree : FileTree) (path : String) (bytes : List UInt8) : Except PathFailure FileTree := do
  let names ← tree.locate path
  match tree.at? names with
  | some (.file _) => return ⟨Entry.putFile bytes names tree.entries⟩
  | some (.directory _) => throw .isDirectory
  | none => throw .missing

def isDirectory (tree : FileTree) (path : String) : Bool :=
  match tree.locate path with
  | .ok names => (tree.at? names).any Entry.isDirectory
  | .error _ => false

def files (tree : FileTree) : List (String × List UInt8) :=
  Entry.filesOf "" tree.entries

end FileTree

end GroovyTidy
