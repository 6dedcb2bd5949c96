import GroovyTidy.Decimal.Shortest
import GroovyTidy.Doc.Layout
import GroovyTidy.Path
import GroovyTidy.Settings.KeyPath
import GroovyTidy.Text.Quoted

set_option autoImplicit false

/-!
Settings, and how they are found in a value.
-/
namespace GroovyTidy

/-- What a run is set to. -/
structure Settings where
  layout : LayoutOptions
  /-- The extensions of files that are found in directories. -/
  extensions : List String
  deriving DecidableEq, Repr

namespace Settings

/-- A path has one of the extensions, in letters of either case. -/
def matchesExtension (settings : Settings) (path : String) : Bool :=
  (Path.extension? path).any fun extension =>
    settings.extensions.any fun claimed => Text.equalIgnoringCase claimed extension

inductive Found where
  | boolean (value : Bool)
  | integer (value : Int)
  /-- An integer that does not fit. -/
  | word (value : Int)
  | float (value : Binary64)
  | text (value : String)
  | nothing
  | sequence
  | map
  deriving DecidableEq, Repr

inductive Error where
  /-- A value of the wrong type at a path. -/
  | mistyped (found : Found) (expected : String) (path : List Step) (origin : Option String)
  /-- A section or list of the wrong type. -/
  | misshapen (found : Found) (expected : String)
  /-- A section as a list that is too short. -/
  | tooShort (length : Nat) (expected : String)
  | missingField (name : String)
  | missingFile (path : String)
  | malformedFile (origin : String)
  | malformedPath (text : String)
  deriving DecidableEq, Repr

def Found.describe : Found → String
  | .boolean value => "boolean " ++ "`" ++ toString value ++ "`"
  | .integer value => "integer " ++ "`" ++ toString value ++ "`"
  | .word value => "64-bit integer " ++ "`" ++ toString value ++ "`"
  | .float value => "floating point " ++ "`" ++ value.textWithPoint ++ "`"
  | .text value => "string " ++ Text.quoteText value
  | .nothing => "unit value"
  | .sequence => "sequence"
  | .map => "map"

/-- A path as text, with a dot before every key but the first. -/
def pathText : List Step → String
  | [] => ""
  | .index position :: rest => "[" ++ toString position ++ "]" ++ pathText rest
  | [.key name] => name
  | .key name :: .index position :: rest => name ++ pathText (.index position :: rest)
  | .key name :: rest => name ++ "." ++ pathText rest

def Error.message : Error → String
  | .mistyped found expected path origin =>
    "invalid type: " ++ found.describe ++ ", expected " ++ expected ++ " for key `" ++
      pathText path ++ "`" ++
      origin.elim "" (" in " ++ ·)
  | .misshapen found expected => "invalid type: " ++ found.describe ++ ", expected " ++ expected
  | .tooShort length expected => "invalid length " ++ toString length ++ ", expected " ++ expected
  | .missingField name => "missing field `" ++ name ++ "`"
  | .missingFile path => "configuration file \"" ++ path ++ "\" not found"
  | .malformedFile origin => "invalid TOML in " ++ origin
  | .malformedPath text => "invalid path " ++ Text.quoteText text

def Value.found : Value → Found
  | .scalar _ .none => .nothing
  | .scalar _ (.boolean value) => .boolean value
  | .scalar _ (.integer value) => .integer value
  | .scalar _ (.float value) => .float value
  | .scalar _ (.text value) => .text value
  | .array _ _ => .sequence
  | .table _ _ => .map

/-- The natural number of 64 bits that decimal digits stand for. A plus sign may stand before
them. -/
def natural? (text : String) : Option Nat :=
  let digits := if text.toList.head? = some '+' then text.toList.drop 1 else text.toList
  if digits.isEmpty ∨ !digits.all Toml.isDigit ∨ Nat.pow 2 64 ≤ Toml.valueOf 10 digits then none
  else some (Toml.valueOf 10 digits)

/-- The number that a text stands for. Words for true and false are one and zero. -/
def numberOfText? (text : String) : Option Nat :=
  let word := Value.foldKey text
  if word ∈ ["true", "on", "yes"] then some 1
  else if word ∈ ["false", "off", "no"] then some 0
  else natural? text

def decodeNatural (path : List Step) (value : Value) : Except Error Nat :=
  let mistyped (found : Found) (expected : String) : Except Error Nat :=
    .error (.mistyped found expected path value.origin?)
  match value with
  | .scalar _ (.integer number) =>
    if number < 0 then mistyped (.word number) "an unsigned 64 bit or less integer"
    else .ok number.toNat
  | .scalar _ (.boolean flag) => .ok (if flag then 1 else 0)
  | .scalar _ (.float number) => .ok number.toNatural
  | .scalar _ (.text text) => (numberOfText? text).elim (mistyped (.text text) "an integer") .ok
  | value => mistyped value.found "an integer"

def decodeText (path : List Step) (value : Value) : Except Error String :=
  match value with
  | .scalar _ (.text text) => .ok text
  | .scalar _ (.boolean flag) => .ok (toString flag)
  | .scalar _ (.integer number) => .ok (toString number)
  | .scalar _ (.float number) => .ok number.text
  | value => .error (.mistyped value.found "a string" path value.origin?)

/-- Texts one after another, from a position on. -/
def decodeTextsFrom (path : List Step) : Nat → List Value → Except Error (List String)
  | _, [] => .ok []
  | position, item :: items => do
    return (← decodeText (path ++ [.index position]) item) ::
      (← decodeTextsFrom path (position + 1) items)

def decodeTexts (path : List Step) : Value → Except Error (List String)
  | .array _ items => decodeTextsFrom path 0 items
  | value => .error (.misshapen value.found "a sequence")

def require {α : Type} (name : String) (field : Option α) : Except Error α :=
  field.elim (.error (.missingField name)) .ok

def requireItem (position : Nat) (expected : String) (items : List Value) : Except Error Value :=
  items[position]?.elim (.error (.tooShort position expected)) .ok

/-- The section on the layout: a table, or a list of its fields in order. -/
def decodeLayout : Value → Except Error LayoutOptions
  | .table _ fields => do
    let decode (name : String) : Except Error (Option Nat) :=
      (fields.lookup name).mapM (decodeNatural [.key "format", .key name])
    let printWidth ← decode "print_width"
    let indentWidth ← decode "indent_width"
    return {
      printWidth := ← require "print_width" printWidth
      indentWidth := ← require "indent_width" indentWidth }
  | .array _ items => do
    let expected := "struct FormatSection with 2 elements"
    let printWidth ← decodeNatural [.key "format", .index 0] (← requireItem 0 expected items)
    let indentWidth ← decodeNatural [.key "format", .index 1] (← requireItem 1 expected items)
    return { printWidth, indentWidth }
  | value => .error (.misshapen value.found "struct FormatSection")

/-- The section on files: a table, or a list of its only field. -/
def decodeFiles : Value → Except Error (List String)
  | .table _ fields => do
    let found ← (fields.lookup "extensions").mapM (decodeTexts [.key "files", .key "extensions"])
    require "extensions" found
  | .array _ items => do
    decodeTexts [.key "files", .index 0]
      (← requireItem 0 "struct FilesSection with 1 element" items)
  | value => .error (.misshapen value.found "struct FilesSection")

def decode : Value → Except Error Settings
  | .table _ fields => do
    let layout ← (fields.lookup "format").mapM decodeLayout
    let extensions ← (fields.lookup "files").mapM decodeFiles
    return { layout := ← require "format" layout, extensions := ← require "files" extensions }
  | value => .error (.misshapen value.found "struct FmtConfig")

end Settings

end GroovyTidy
