import GroovyTidy.Text.Quoted

set_option autoImplicit false

/-!
JSON values and their two written forms: one with a line for every item and one without any blank.
-/
namespace GroovyTidy

inductive Json where
  | text (value : String)
  | number (value : Nat)
  | array (items : List Json)
  | object (fields : List (String × Json))
  deriving Repr

namespace Json

/-- A character inside a quoted text. Quotes, backslashes and control characters are escaped, the
latter by a letter where there is one. -/
def escaped (c : Char) : List Char :=
  if c = '"' then ['\\', '"']
  else if c = '\\' then ['\\', '\\']
  else if c = '\x08' then ['\\', 'b']
  else if c = '\x0c' then ['\\', 'f']
  else if c = '\n' then ['\\', 'n']
  else if c = '\r' then ['\\', 'r']
  else if c = '\t' then ['\\', 't']
  else if c.toNat < 0x20 then
    ['\\', 'u', '0', '0', Nat.digitChar (c.toNat / 16), Nat.digitChar (c.toNat % 16)]
  else [c]

def quoted (text : String) : String :=
  "\"" ++ String.ofList (text.toList.flatMap escaped) ++ "\""

/-- The blanks before an item at a depth, two for each level. -/
def margin (depth : Nat) : String :=
  String.ofList (List.replicate (2 * depth) ' ')

/-- Items between delimiters, each on a line of its own; delimiters alone if there are no items. -/
def enclosed (depth : Nat) (opening closing : String) (items : List String) : String :=
  if items.isEmpty then opening ++ closing
  else
    opening ++ "\n" ++ ",\n".intercalate (items.map (margin (depth + 1) ++ ·)) ++ "\n" ++
      margin depth ++ closing

mutual

def pretty (depth : Nat) : Json → String
  | .text value => quoted value
  | .number value => toString value
  | .array items => enclosed depth "[" "]" (prettyItems (depth + 1) items)
  | .object fields => enclosed depth "\x7b" "\x7d" (prettyFields (depth + 1) fields)

def prettyItems (depth : Nat) : List Json → List String
  | [] => []
  | item :: items => pretty depth item :: prettyItems depth items

def prettyFields (depth : Nat) : List (String × Json) → List String
  | [] => []
  | (key, value) :: fields =>
    (quoted key ++ ": " ++ pretty depth value) :: prettyFields depth fields

end

mutual

def compact : Json → String
  | .text value => quoted value
  | .number value => toString value
  | .array items => "[" ++ ",".intercalate (compactItems items) ++ "]"
  | .object fields => "\x7b" ++ ",".intercalate (compactFields fields) ++ "\x7d"

def compactItems : List Json → List String
  | [] => []
  | item :: items => compact item :: compactItems items

def compactFields : List (String × Json) → List String
  | [] => []
  | (key, value) :: fields => (quoted key ++ ":" ++ compact value) :: compactFields fields

end

end Json

end GroovyTidy
