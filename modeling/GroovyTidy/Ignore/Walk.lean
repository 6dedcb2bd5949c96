import GroovyTidy.Ignore.Rules

set_option autoImplicit false

/-!
The files below a directory that no rule leaves out.
-/
namespace GroovyTidy.Ignore

def join (path name : String) : String :=
  if path.toList.getLast? = some '/' then path ++ name else path ++ "/" ++ name

mutual

/-- The files at and below an entry that is taken in. -/
def filesAt (around : Surroundings) (path name : String) : Entry → List String
  | .file _ => [join path name]
  | .directory entries => filesBelow (around.enter name entries) (join path name) entries

/-- The files below a directory with the rules around it. -/
def filesBelow (around : Surroundings) (path : String) : List (String × Entry) → List String
  | [] => []
  | (name, entry) :: rest =>
    (if around.leavesOut name entry.isDirectory then [] else filesAt around path name entry) ++
      filesBelow around path rest

end

/-- The rules around a directory that some names lead to. -/
def surroundings : Surroundings → List (String × Entry) → List String → Surroundings
  | around, _, [] => around
  | around, entries, name :: names =>
    let inside := Entry.inside (entries.lookup name)
    surroundings (around.enter name inside) inside names

def walk (tree : FileTree) (path : String) : List String :=
  match tree.locate path with
  | .error _ => []
  | .ok names =>
    filesBelow (surroundings [(.ofEntries tree.entries, [])] tree.entries names) path
      (Entry.inside (tree.at? names))

end GroovyTidy.Ignore
