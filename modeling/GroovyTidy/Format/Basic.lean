import GroovyTidy.Doc.Layout
import GroovyTidy.SyntaxError
import GroovyTidy.Tree.Basic

set_option autoImplicit false

/-!
Formats: languages that can be formatted.
-/
namespace GroovyTidy

inductive FormatError where
  /-- The source is refused. -/
  | malformed (error : SyntaxError)
  /-- No format has this name. -/
  | unknownFormat (name : String)
  /-- No format claims this extension. -/
  | unclaimedExtension (extension : String)
  /-- There is nothing to show. -/
  | unrenderable (reason : String)
  /-- A file could not be read or written. -/
  | fileFailure (reason : String)
  deriving DecidableEq, Repr

namespace FormatError

def message : FormatError → String
  | .malformed error => error.describe
  | .unknownFormat name => "Format '" ++ name ++ "' not found"
  | .unclaimedExtension extension => "No format handles '." ++ extension ++ "' files"
  | .unrenderable reason => "Render error: " ++ reason
  | .fileFailure reason => "IO error: " ++ reason

/-- What the error stems from, if it was passed on. -/
def cause? : FormatError → Option String
  | .malformed error => some error.describe
  | .fileFailure reason => some reason
  | _ => none

end FormatError

def significant (text : String) : List Char :=
  text.toList.filter fun c => !Text.isWhiteSpace c.toNat

/-- A language: how to parse it and how to print a node of it, given the documents of its child
nodes. -/
structure Format where
  name : String
  description : String := ""
  /-- The extensions of its files, without a dot. -/
  extensions : List String := []
  parse : String → Except FormatError Node
  printNode : Node → List (Node × Doc) → Doc
  /-- Formatting a source to an output has lost nothing of it. -/
  isLossless : String → String → Bool :=
    fun source output => significant source == significant output

namespace Format

def toDoc (language : Format) (node : Node) : Doc :=
  node.fold language.printNode

def format (language : Format) (options : LayoutOptions) (source : String) :
    Except FormatError String := do
  return (language.toDoc (← language.parse source)).render options

/-- The format claims files with an extension, in letters of either case. -/
def claims (language : Format) (extension : String) : Bool :=
  language.extensions.any fun claimed => Text.equalIgnoringCase claimed extension

end Format

end GroovyTidy
