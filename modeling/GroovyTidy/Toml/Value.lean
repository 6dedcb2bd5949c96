import GroovyTidy.Toml.Moment
import GroovyTidy.Toml.Number
import GroovyTidy.Toml.Quoted

set_option autoImplicit false

/-!
Values and tables of TOML. While a document is read, a table remembers whether it stands only for
the path to another one, and whether it comes from a key with dots, because such tables may still
grow and others may not.
-/
namespace GroovyTidy.Toml

/-- A value. Dates and times are texts. -/
inductive Value where
  | text (value : String)
  | integer (value : Int)
  | float (value : Binary64)
  | boolean (value : Bool)
  | array (items : List Value)
  | table (fields : List (String × Value))
  deriving Repr

/-- A part of a document that is being read. -/
inductive Item where
  | value (value : Value)
  /-- A table: whether it is only on the way to another one, whether it comes from a key with dots,
  and what it holds. -/
  | table (implicit dotted : Bool) (entries : List (String × Item))
  /-- A list of tables that grows at its end. -/
  | tables (before : List (List (String × Item))) (last : List (String × Item))

mutual

def Item.toValue : Item → Value
  | .value value => value
  | .table _ _ entries => .table (fieldsOf entries)
  | .tables before last => .array (tablesOf before ++ [.table (fieldsOf last)])

def fieldsOf : List (String × Item) → List (String × Value)
  | [] => []
  | (key, item) :: rest => (key, item.toValue) :: fieldsOf rest

def tablesOf : List (List (String × Item)) → List Value
  | [] => []
  | entries :: rest => .table (fieldsOf entries) :: tablesOf rest

end

abbrev Entries := List (String × Item)

namespace Entries

def put (key : String) (item : Item) : Entries → Entries
  | [] => [(key, item)]
  | (other, old) :: rest =>
    if other = key then (key, item) :: rest else (other, old) :: put key item rest

def add (key : String) (value : Value) (entries : Entries) : Option Entries :=
  if (entries.lookup key).isSome then none else some (entries.put key (.value value))

/-- Changes the table at the end of a path of keys. Tables that are not there yet are made on the
way. A key with dots passes only through tables that are themselves on the way. -/
def change (dotted : Bool) (update : Bool → Entries → Option Entries) :
    List String → Bool → Entries → Option Entries
  | [], isDotted, entries => update isDotted entries
  | key :: path, _, entries =>
    match entries.lookup key with
    | none =>
      (change dotted update path dotted []).map fun inner =>
        entries.put key (.table true dotted inner)
    | some (.table implicit isDotted inner) =>
      if dotted && !implicit then none
      else
        (change dotted update path isDotted inner).map fun inner =>
          entries.put key (.table implicit isDotted inner)
    | some (.tables before last) =>
      (change dotted update path false last).map fun last => entries.put key (.tables before last)
    | some (.value _) => none

/-- Adds a value at a key with dots. Only tables that come from keys with dots can be extended by
one. -/
def addAt (path : List String) (key : String) (value : Value) (entries : Entries) :
    Option Entries :=
  if path.isEmpty then entries.add key value
  else entries.change true (fun isDotted inner => if isDotted then inner.add key value else none)
    path false

/-- Starts the table of a header. It may have been on the way to another one, but not written
before. -/
def startTable (path : List String) (key : String) (entries : Entries) : Option Entries :=
  entries.change false
    (fun _ parent =>
      match parent.lookup key with
      | none => some (parent.put key (.table false false []))
      | some (.table true false inner) => some (parent.put key (.table false false inner))
      | some _ => none)
    path false

/-- Starts the next table of a list of tables. -/
def startElement (path : List String) (key : String) (entries : Entries) : Option Entries :=
  entries.change false
    (fun _ parent =>
      match parent.lookup key with
      | none => some (parent.put key (.tables [] []))
      | some (.tables before last) => some (parent.put key (.tables (before ++ [last]) []))
      | some _ => none)
    path false

/-- Adds a value under the table of the last header. -/
def addUnder (header path : List String) (key : String) (value : Value) (entries : Entries) :
    Option Entries :=
  entries.change false (fun _ table => table.addAt path key value) header false

end Entries

end GroovyTidy.Toml
