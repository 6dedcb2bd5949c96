import GroovyTidy.Json

set_option autoImplicit false

/-!
Documents: what a layout is made from.
-/
namespace GroovyTidy

inductive Doc where
  | text (value : String)
  | concat (parts : List Doc)
  /-- A line break in every layout. -/
  | hardline
  /-- A line break, or a space where the group around it is flat. -/
  | line
  /-- A line break, or nothing where the group around it is flat. -/
  | softline
  /-- Flat if it fits on the line. -/
  | group (inner : Doc)
  /-- Line breaks inside are indented by one level more. -/
  | indent (inner : Doc)
  /-- Items with a separator between neighbours. -/
  | join (separator : Doc) (items : List Doc)
  deriving Repr

namespace Doc

def empty : Doc :=
  .concat []

mutual

/-- The document has no text and no line break that has to show. -/
def isEmpty : Doc → Bool
  | .text value => value.isEmpty
  | .concat parts => allEmpty parts
  | .hardline | .line => false
  | .softline => true
  | .group inner | .indent inner => inner.isEmpty
  | .join separator items => allEmpty items && (items.length < 2 || separator.isEmpty)

def allEmpty : List Doc → Bool
  | [] => true
  | doc :: docs => doc.isEmpty && allEmpty docs

end

mutual

/-- The text with every group flat and without indentation. -/
def flat : Doc → String
  | .text value => value
  | .concat parts => String.join (flatParts parts)
  | .hardline => "\n"
  | .line => " "
  | .softline => ""
  | .group inner | .indent inner => inner.flat
  | .join separator items => separator.flat.intercalate (flatParts items)

def flatParts : List Doc → List String
  | [] => []
  | doc :: docs => doc.flat :: flatParts docs

end

mutual

def json : Doc → Json
  | .text value => .object [("Text", .text value)]
  | .concat parts => .object [("Concat", .array (jsonParts parts))]
  | .hardline => .text "Hardline"
  | .line => .text "Line"
  | .softline => .text "Softline"
  | .group inner => .object [("Group", inner.json)]
  | .indent inner => .object [("Indent", inner.json)]
  | .join separator items =>
    .object [("Join", .object [("separator", separator.json), ("items", .array (jsonParts items))])]

def jsonParts : List Doc → List Json
  | [] => []
  | doc :: docs => doc.json :: jsonParts docs

end

end Doc

end GroovyTidy
