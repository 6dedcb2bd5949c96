import GroovyTidy.Doc.Basic
import GroovyTidy.Text.Lines
import GroovyTidy.Text.Width

set_option autoImplicit false

/-!
Layout of documents on lines of a given width. A group is flat if what it holds, and what follows it
up to the next possible line break, fits on the rest of the line.
-/
namespace GroovyTidy

/-- The width of lines and of one level of indentation. -/
structure LayoutOptions where
  printWidth : Nat := 80
  indentWidth : Nat := 4
  deriving DecidableEq, Repr

namespace Layout

/-- Documents without empty parts, and with indentation in columns. -/
inductive Piece where
  | text (value : String)
  | hardline
  | line
  | softline
  | nest (columns : Int) (body : List Piece)
  | group (body : List Piece)
  deriving Repr

/-- The columns of a level of indentation. The width is a word of 64 bits that is read with a
sign. -/
def indentColumns (options : LayoutOptions) : Int :=
  Int.bmod options.indentWidth (Nat.pow 2 64)

def nested (columns : Int) (body : List Piece) : List Piece :=
  if columns = 0 then body else if body.isEmpty then [] else [.nest columns body]

def textPieces (line : List Char) : List Piece :=
  if line.isEmpty then [] else [.text (String.ofList line)]

/-- Pieces with others between neighbours. -/
def separated (separator : List Piece) : List (List Piece) → List Piece
  | [] => []
  | [item] => item
  | item :: items => item ++ separator ++ separated separator items

/-- A text of several lines goes on at the first column, however deep it is nested. -/
def textBlock (depth : Int) (value : String) : List Piece :=
  let lines := Text.splitAt '\n' value.toList
  if lines.length ≤ 1 then textPieces value.toList
  else nested (-depth) (separated [.hardline] (lines.map textPieces))

mutual

/-- The pieces of a document at a depth, given the columns of a level. Depths are words of 64 bits
with a sign: a sum wraps around, where checked arithmetic would stop, and of all depths only
`-2 ^ 63` has a negation that is no such word. -/
def pieces (level depth : Int) : Doc → List Piece
  | .text value => textBlock depth value
  | .concat parts => (piecesOf level depth parts).flatten
  | .hardline => [.hardline]
  | .line => [.line]
  | .softline => [.softline]
  | .group inner =>
    let body := pieces level depth inner
    if body.isEmpty then [] else [.group body]
  | .indent inner => nested level (pieces level (Int.bmod (depth + level) (Nat.pow 2 64)) inner)
  | .join separator items => separated (pieces level depth separator) (piecesOf level depth items)

def piecesOf (level depth : Int) : List Doc → List (List Piece)
  | [] => []
  | doc :: docs => pieces level depth doc :: piecesOf level depth docs

end

/-- How far a layout gets on a line. -/
inductive Reach where
  /-- Beyond the width. -/
  | overflow
  /-- To a possible line break. -/
  | lineBreak
  /-- To a column. -/
  | upTo (column : Nat)
  deriving DecidableEq, Repr

def Reach.andThen (reach : Reach) (next : Nat → Reach) : Reach :=
  match reach with
  | .upTo column => next column
  | ended => ended

/-- Where a text that ends at a column gets to. -/
def within (width column : Nat) : Reach :=
  if width < column then .overflow else .upTo column

mutual

/-- How far a piece gets from a column, flat or with line breaks. -/
def reach (width : Nat) (flat : Bool) : Nat → Piece → Reach
  | column, .text value => within width (column + Text.width value.toList)
  | _, .hardline => if flat then .overflow else .lineBreak
  | column, .line => if flat then within width (column + 1) else .lineBreak
  | column, .softline => if flat then .upTo column else .lineBreak
  | column, .nest _ body => reachAll width flat column body
  | column, .group body => reachAll width flat column body

def reachAll (width : Nat) (flat : Bool) : Nat → List Piece → Reach
  | column, [] => .upTo column
  | column, piece :: rest =>
    (reach width flat column piece).andThen fun column => reachAll width flat column rest

end

/-- Pieces that follow, with the indentation of the lines they start. -/
structure Frame where
  indent : Nat
  pieces : List Piece

/-- How far the pieces of frames get from a column. -/
def reachFrames (width : Nat) : Nat → List Frame → Reach
  | column, [] => .upTo column
  | column, frame :: frames =>
    (reachAll width false column frame.pieces).andThen fun column => reachFrames width column frames

/-- What a flat group holds, and what follows it up to a possible line break, fits on the line. -/
def fits (width column : Nat) (body : List Piece) (rest : List Frame) : Bool :=
  (reachAll width true column body).andThen (fun column => reachFrames width column rest) !=
    .overflow

/-- The indentation of the line after a line break: that of what follows it, if anything does. -/
def nextIndent (indent : Nat) (rest : List Frame) : Nat :=
  (rest.find? fun frame => !frame.pieces.isEmpty).elim indent Frame.indent

/-- Text laid out so far that ends at a column. -/
structure Page where
  text : String
  column : Nat
  deriving DecidableEq, Repr

namespace Page

def write (page : Page) (value : String) : Page where
  text := page.text ++ value
  column := page.column + Text.width value.toList

def breakLine (page : Page) (indent : Nat) : Page where
  text := page.text ++ "\n" ++ String.ofList (List.replicate indent ' ')
  column := indent

end Page

/-- An indentation with some columns more or less, but never below zero. It is meant for
indentations below `2 ^ 64`: a word of 64 bits would stop there, and no text has so many blanks. -/
def shift (indent : Nat) (columns : Int) : Nat :=
  (indent + columns).toNat

mutual

/-- Lays out a piece before the frames that follow it. -/
def lay (width : Nat) (flat : Bool) (indent : Nat) (rest : List Frame) (page : Page) : Piece → Page
  | .text value => page.write value
  | .hardline => page.breakLine (nextIndent indent rest)
  | .line => if flat then page.write " " else page.breakLine (nextIndent indent rest)
  | .softline => if flat then page else page.breakLine (nextIndent indent rest)
  | .nest columns body => layAll width flat (shift indent columns) rest page body
  | .group body => layAll width (flat || fits width page.column body rest) indent rest page body

def layAll (width : Nat) (flat : Bool) (indent : Nat) (rest : List Frame) (page : Page) :
    List Piece → Page
  | [] => page
  | piece :: pieces =>
    layAll width flat indent rest (lay width flat indent (⟨indent, pieces⟩ :: rest) page piece)
      pieces

end

end Layout

def Doc.render (options : LayoutOptions) (doc : Doc) : String :=
  (Layout.layAll options.printWidth false 0 [] ⟨"", 0⟩
    (Layout.pieces (Layout.indentColumns options) 0 doc)).text

end GroovyTidy
