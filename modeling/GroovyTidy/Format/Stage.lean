import GroovyTidy.Format.Basic
import GroovyTidy.Token.Source
import GroovyTidy.Tree.Diagram
import GroovyTidy.Tree.Json

set_option autoImplicit false

/-!
Stages of formatting that can be shown.
-/
namespace GroovyTidy

inductive Stage where
  | formatted
  | tokens
  | diagram
  | treeJson
  | document
  deriving DecidableEq, Repr

namespace Stage

def name : Stage → String
  | .formatted => "format"
  | .tokens => "tokens"
  | .diagram => "cst"
  | .treeJson => "cst-json"
  | .document => "doc"

def all : List Stage := [.formatted, .tokens, .diagram, .treeJson, .document]

def ofName? (name : String) : Option Stage :=
  all.find? fun stage => stage.name == name

/-- What a stage shows of a source. -/
def run (stage : Stage) (language : Format) (options : LayoutOptions) (source : String) :
    Except FormatError String := do
  match stage with
  | .formatted => language.format options source
  | .tokens => return tokensToJson (← (tokenize source).mapError .malformed)
  | .diagram => return Diagram.draw .plain (← language.parse source)
  | .treeJson => return (← language.parse source).toJson
  | .document => return (language.toDoc (← language.parse source)).json.pretty 0

def runNamed (name : String) (language : Format) (options : LayoutOptions) (source : String) :
    Except FormatError String :=
  match ofName? name with
  | some stage => stage.run language options source
  | none => .error (.unrenderable ("Unknown stage: " ++ name))

end Stage

end GroovyTidy
