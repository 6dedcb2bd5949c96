import GroovyTidy.Text.Lines

set_option autoImplicit false

/-!
Paths of files. A path is text whose components stand between slashes; empty components, and the dot
that names the directory itself, count only at the front.
-/
namespace GroovyTidy.Path

inductive Component where
  | root
  | current
  | parent
  | name (text : String)
  deriving DecidableEq, Repr

/-- The component for the text between two slashes, if it counts there. -/
def component? (text : List Char) : Option Component :=
  if text.isEmpty ∨ text = ['.'] then none
  else if text = ['.', '.'] then some .parent
  else some (.name (String.ofList text))

/-- What stands at the front of a path and only there. -/
def front? (parts : List (List Char)) : Option Component :=
  match parts with
  | [] :: _ :: _ => some .root
  | ['.'] :: _ => some .current
  | _ => none

def components (path : String) : List Component :=
  let parts := Text.splitAt '/' path.toList
  (front? parts).toList ++ parts.filterMap component?

def Component.text : Component → String
  | .root => ""
  | .current => "."
  | .parent => ".."
  | .name text => text

/-- The place of a component among others: the root first, then the directory itself, its parent,
and names in the order of their bytes. -/
def Component.rank : Component → Nat × String
  | .root => (0, "")
  | .current => (1, "")
  | .parent => (2, "")
  | .name text => (3, text)

def Component.precedes (left right : Component) : Bool :=
  left.rank.1 < right.rank.1 || (left.rank.1 == right.rank.1 && left.rank.2 < right.rank.2)

/-- The order of paths, component by component; a path comes before those that go on from it. -/
def precedes : List Component → List Component → Bool
  | [], [] => false
  | [], _ :: _ => true
  | _ :: _, [] => false
  | left :: lefts, right :: rights =>
    left.precedes right || (left == right && precedes lefts rights)

/-- The name of the file that a path leads to. A path that ends at a parent leads to no name. -/
def fileName? (path : String) : Option String :=
  match (components path).getLast? with
  | some (.name text) => some text
  | _ => none

/-- What follows the last dot of a name, unless the name only starts with it. -/
def extensionOf? (name : String) : Option String :=
  match (Text.splitAt '.' name.toList).reverse with
  | last :: before :: rest =>
    if before.isEmpty && rest.isEmpty then none else some (String.ofList last)
  | _ => none

def extension? (path : String) : Option String :=
  fileName? path >>= extensionOf?

end GroovyTidy.Path
