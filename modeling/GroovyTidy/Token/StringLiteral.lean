import GroovyTidy.Text.Cursor

set_option autoImplicit false

/-!
String literals. A literal stands between single or triple quotes of one kind. A backslash takes the
character after it along. Between double quotes a dollar sign may start an interpolation: before a
brace it takes the whole block up to the matching brace along, and before a name it stands alone. A
dollar sign after another one starts nothing.
-/
namespace GroovyTidy.StringLiteral

open Text

/-- A literal found at the front of a text: how many characters it takes, and whether it
interpolates. -/
structure Extent where
  length : Nat
  interpolated : Bool
  deriving DecidableEq, Repr

def Extent.after (interpolates : Bool) (extent : Extent) : Extent where
  length := extent.length + 1
  interpolated := interpolates || extent.interpolated

/-- How the next character of a literal is read. -/
inductive Mode where
  | plain
  /-- The character is taken along, whatever it is. -/
  | taken
  /-- The character belongs to an interpolation block in which so many braces are open. -/
  | block (depth : Nat)
  deriving DecidableEq, Repr

/-- What a character of a literal does. -/
inductive Step where
  /-- The literal cannot go on. -/
  | refuse
  /-- The closing quotes start here and take so many characters. -/
  | close (length : Nat)
  /-- The literal goes on. -/
  | next (mode : Mode) (interpolates : Bool)
  deriving DecidableEq, Repr

def blockMode (depth : Nat) (c : Char) : Mode :=
  if c = '\x7b' then .block (depth + 1)
  else if c = '\x7d' then if depth ≤ 1 then .plain else .block (depth - 1)
  else .block depth

/-- What a dollar sign between double quotes does before the rest of the text. -/
def dollar (rest : List Char) : Step :=
  if (Cursor.ofText rest).isBeforeAnyOf ['\x7b'] then .next (.block 0) true
  else if (Cursor.ofText rest).startsInterpolation then .next .plain true
  else if (Cursor.ofText rest).isBeforeAnyOf ['$'] then .next .taken false
  else .next .plain false

def step (quote : Char) (triple : Bool) (mode : Mode) (c : Char) (rest : List Char) : Step :=
  match mode with
  | .taken => .next .plain false
  | .block depth => .next (blockMode depth c) false
  | .plain =>
    if c = '\\' then .next .taken false
    else if c = quote then
      if !triple then .close 1
      else if rest.take 2 = [quote, quote] then .close 3
      else .next .plain false
    else if c = '$' ∧ quote = '"' then dollar rest
    else if isLineEnd c.toNat ∧ !triple then .refuse
    else .next .plain false

/-- What follows the opening quotes, up to the end of the closing ones. -/
def body (quote : Char) (triple : Bool) : Mode → List Char → Option Extent
  | _, [] => none
  | mode, c :: rest =>
    match step quote triple mode c rest with
    | .refuse => none
    | .close length => some ⟨length, false⟩
    | .next mode interpolates => (body quote triple mode rest).map (.after interpolates)

/-- The literal at the front of a text that starts with the quote, or none if it is not
terminated. -/
def leading (quote : Char) (text : List Char) : Option Extent :=
  let triple := text.take 3 = [quote, quote, quote]
  let opening := if triple then 3 else 1
  (body quote triple .plain (text.drop opening)).map fun extent =>
    { extent with length := opening + extent.length }

end GroovyTidy.StringLiteral
