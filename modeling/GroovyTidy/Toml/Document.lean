import GroovyTidy.Toml.Value

set_option autoImplicit false

/-!
TOML documents.
-/
namespace GroovyTidy.Toml

open Scan

/-- The depth from which on nested values, and the number of parts from which on keys, are
refused. -/
def nestingLimit : Nat := 80

def isBareKey (c : Char) : Bool :=
  Text.isLetter c.toNat || isDigit c || c == '-' || c == '_'

def keyPart : Scan String := do
  white
  let part ← someOf isBareKey <|> basicText <|> literalText
  white
  return String.ofList part

def key : Scan (List String × String) := do
  let first ← keyPart
  let others ← many do
    char '.'
    keyPart
  let parts := first :: others
  if nestingLimit ≤ parts.length then refuse
  else return (parts.dropLast, parts.getLast?.getD "")

def separatedBy {α : Type} (item : Scan α) : Scan (List α) := do
  let first ← item
  let others ← many do
    char ','
    item
  return first :: others

/-- An array, given a reader for its values. A comma may follow the last one. -/
def array (value : Scan Value) : Scan Value := do
  char '['
  let items ← maybe (separatedBy do
    filler
    let item ← value
    filler
    return item)
  if items.isSome then
    let _ ← maybe (char ',')
  filler
  char ']'
  return .array (items.getD [])

/-- A key with a value, given a reader for the value. -/
def keyValue (value : Scan Value) : Scan ((List String × String) × Value) := do
  let key ← key
  char '='
  white
  return (key, ← value)

/-- A table on one line, given a reader for its values. -/
def inlineTable (value : Scan Value) : Scan Value := do
  char '\x7b'
  let pairs ← maybe (separatedBy do
    let pair ← keyValue value
    white
    return pair)
  white
  char '\x7d'
  match (pairs.getD []).foldlM (fun entries pair => Entries.addAt pair.1.1 pair.1.2 pair.2 entries)
    [] with
  | some entries => return .table (fieldsOf entries)
  | none => refuse

def boolean : Scan Bool :=
  (do literal "true"; return true) <|> (do literal "false"; return false)

def simpleValue : Scan Value :=
  (do return .text (String.ofList (← quotedText))) <|> (do return .boolean (← boolean)) <|>
    (do return .text (String.ofList (← moment))) <|> (do return .float (← float)) <|>
    (do return .integer (← integer))

/-- A value that is nested less deep than a bound. -/
def valueWithin : Nat → Scan Value
  | 0 => simpleValue
  | bound + 1 => fun text =>
    (array (valueWithin bound) <|> inlineTable (valueWithin bound) <|> simpleValue) text

def value : Scan Value :=
  valueWithin (nestingLimit - 1)

/-- A line of a document. -/
inductive Line where
  | blank
  | entry (path : List String) (key : String) (value : Value)
  | table (path : List String) (key : String)
  | element (path : List String) (key : String)

def tableHeader : Scan Line := do
  char '['
  let (path, last) ← key
  char ']'
  return .table path last

/-- A header in double brackets, for the next table of a list. -/
def elementHeader : Scan Line := do
  literal "[["
  let (path, last) ← key
  literal "]]"
  return .element path last

def entry : Scan Line := do
  let ((path, last), value) ← keyValue value
  return .entry path last value

def line : Scan Line := do
  white
  let found ← maybe (elementHeader <|> tableHeader <|> entry)
  lineRest
  return found.getD .blank

/-- A document that is being read: what it holds, and the header under which entries are added. -/
structure Draft where
  entries : Entries
  header : List String

/-- Takes in a line. -/
def Draft.take (draft : Draft) : Line → Option Draft
  | .blank => some draft
  | .entry path key value => do
    return { draft with entries := ← draft.entries.addUnder draft.header path key value }
  | .table path key => do
    return { entries := ← draft.entries.startTable path key, header := path ++ [key] }
  | .element path key => do
    return { entries := ← draft.entries.startElement path key, header := path ++ [key] }

/-- Takes in the lines of a text, of which there are less than a bound. -/
def Draft.takeLines : Nat → Draft → List Char → Option Draft
  | 0, _, _ => none
  | _ + 1, draft, [] => some draft
  | bound + 1, draft, text =>
    match line text with
    | none => none
    | some (found, rest) => (draft.take found).bind fun draft => takeLines bound draft rest

/-- The fields of a document. A byte order mark may stand before it. -/
def parse? (text : List Char) : Option (List (String × Value)) :=
  let text := if text.head? = some '\ufeff' then text.drop 1 else text
  (Draft.takeLines (text.length + 1) ⟨[], []⟩ text).map fun draft => fieldsOf draft.entries

end GroovyTidy.Toml
