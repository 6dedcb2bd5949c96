import GroovyTidy.Doc.Printer
import GroovyTidy.Format.Stage
import GroovyTidy.Tree.Parse

set_option autoImplicit false

/-!
Messages on what a run does.
-/
namespace GroovyTidy.Command

inductive Level where
  | warn
  | info
  | debug
  | trace
  deriving DecidableEq, Repr

namespace Level

def name : Level → String
  | .warn => "WARN"
  | .info => "INFO"
  | .debug => "DEBUG"
  | .trace => "TRACE"

/-- How often more messages have to be asked for until those of a level are shown. -/
def threshold : Level → Nat
  | .warn => 0
  | .info | .debug => 1
  | .trace => 2

end Level

/-- A message and the part of the program it is about. -/
structure Event where
  level : Level
  target : String
  message : String
  deriving DecidableEq, Repr

def Event.line (event : Event) : String :=
  event.level.name ++ " " ++ event.target ++ ": " ++ event.message ++ "\n"

namespace Event

def inProgram (level : Level) (message : String) : Event := ⟨level, "groovy_fmt", message⟩

def inLexing (message : String) : Event := ⟨.debug, "groovy_parser::groovy::lexing", message⟩

def inParsing (level : Level) (message : String) : Event :=
  ⟨level, "groovy_parser::groovy::parsing", message⟩

def tokenized (tokens : List Token) (source : String) : Event :=
  inLexing ("tokenized source tokens=" ++ toString tokens.length ++ " bytes=" ++
    toString source.utf8ByteSize)

def decided (decision : Decision) : Event :=
  let told (subject predicate : String) : Event :=
    inParsing .trace (subject ++ " lookahead predicate=" ++ Text.quoteText predicate ++
      " result=" ++
      toString decision.ruledOut ++ " at=" ++ decision.token.describe)
  match decision.question with
  | .methodDeclaration => told "statement" "is_invalid_method_declaration"
  | .localVariableDeclaration => told "statement" "is_invalid_local_variable_declaration"
  | .commandArguments => told "command arguments" "is_following_arguments_or_closure"

def parsed (tokens : List Token) (unit : Node) : Event :=
  inParsing .debug ("parsed compilation unit tokens=" ++ toString tokens.length ++ " statements=" ++
    toString unit.statementCount)

def unprinted (kind : NodeKind) : Event :=
  ⟨.trace, "groovy_printer::printer",
    "no print rule, printing nothing kind=" ++ Text.quoteText kind.name⟩

/-- What happens on the way from the tokens of a source to a stage after them. -/
def parsing (stage : Stage) (tokens : List Token) : List Event :=
  let report := readTokens tokens
  let ending :=
    match report.outcome with
    | .error _ => []
    | .ok unit =>
      parsed tokens unit ::
        if stage = .formatted ∨ stage = .document then (Printer.unprinted unit).map unprinted
        else []
  report.decisions.map decided ++ ending

/-- What happens on the way from a source to a stage. -/
def ofSource (stage : Stage) (source : String) : List Event :=
  match tokenize source with
  | .error _ => []
  | .ok tokens => tokenized tokens source :: if stage = .tokens then [] else parsing stage tokens

end Event

end GroovyTidy.Command
