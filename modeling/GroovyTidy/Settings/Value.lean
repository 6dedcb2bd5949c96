import GroovyTidy.Toml.Document

set_option autoImplicit false

/-!
Values of settings and how layers of them are put on top of one another. Keys are compared without
regard to case. Tables are merged entry by entry, and everything else replaces what was there.
-/
namespace GroovyTidy.Settings

/-- A value that contains no other. -/
inductive Scalar where
  | none
  | boolean (value : Bool)
  | integer (value : Int)
  | float (value : Binary64)
  | text (value : String)
  deriving DecidableEq, Repr

/-- A value and the file it comes from, if any. -/
inductive Value where
  | scalar (origin : Option String) (value : Scalar)
  | array (origin : Option String) (items : List Value)
  | table (origin : Option String) (fields : List (String × Value))
  deriving Repr

/-- A step from a value to one inside it. An index below zero counts from the end. -/
inductive Step where
  | key (name : String)
  | index (position : Int)
  deriving DecidableEq, Repr

namespace Value

mutual

def ofToml (origin : Option String) : Toml.Value → Value
  | .text value => .scalar origin (.text value)
  | .integer value => .scalar origin (.integer value)
  | .float value => .scalar origin (.float value)
  | .boolean value => .scalar origin (.boolean value)
  | .array items => .array origin (itemsOfToml origin items)
  | .table fields => .table origin (fieldsOfToml origin fields)

def itemsOfToml (origin : Option String) : List Toml.Value → List Value
  | [] => []
  | item :: items => ofToml origin item :: itemsOfToml origin items

def fieldsOfToml (origin : Option String) : List (String × Toml.Value) → List (String × Value)
  | [] => []
  | (key, value) :: fields => (key, ofToml origin value) :: fieldsOfToml origin fields

end

def origin? : Value → Option String
  | .scalar origin _ | .array origin _ | .table origin _ => origin

/-- Nothing, from nowhere. -/
def absent : Value := .scalar Option.none .none

/-- A key in lower case. Only letters of ASCII matter, since no other letter becomes one of a known
key. -/
def foldKey (key : String) : String :=
  String.ofList (key.toList.map Text.lowerAscii)

/-- Changes the field of a key, or adds one made from what is not there. -/
def changeField (key : String) (change : Option Value → Value) :
    List (String × Value) → List (String × Value)
  | [] => [(key, change Option.none)]
  | (other, value) :: rest =>
    if other = key then (key, change (some value)) :: rest
    else (other, value) :: changeField key change rest

/-- Changes the field of a key of a table. What is not a table is taken as an empty one. -/
def changeKey (key : String) (change : Option Value → Value) : Value → Value
  | .table origin fields => .table origin (changeField (foldKey key) change fields)
  | _ => .table Option.none [(foldKey key, change Option.none)]

mutual

/-- What stands at a key after a value is put on top of what was there. -/
def overlay : Value → Option Value → Value
  | .table _ fields, below => overlayFields fields (below.getD (.table Option.none []))
  | value, _ => value

def overlayFields : List (String × Value) → Value → Value
  | [], below => below
  | (key, value) :: fields, below => overlayFields fields (changeKey key (overlay value) below)

end

/-- The position that an index stands for in a list of a length. -/
def position (length : Nat) (index : Int) : Nat :=
  if index < 0 then length - index.natAbs else index.toNat

/-- Changes an item of an array. What is not an array is taken as an empty one, and one that is too
short is filled up. -/
def changeIndex (index : Int) (change : Value → Value) (value : Value) : Value :=
  let (origin, items) :=
    match value with
    | .array origin items => (origin, items)
    | _ => (Option.none, [])
  let position := position items.length index
  let filled := items ++ List.replicate (position + 1 - items.length) absent
  .array origin (filled.modify position change)

def set (value : Value) : List Step → Value → Value
  | [], below => below
  | [.key name], below => changeKey name (overlay value) below
  | [.index position], below => changeIndex position (fun _ => value) below
  | .key name :: path, below =>
    changeKey name (fun inner => set value path (inner.getD absent)) below
  | .index position :: path, below => changeIndex position (set value path) below

end Value

end GroovyTidy.Settings
