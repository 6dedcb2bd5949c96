import GroovyTidy.Text.Lines
import GroovyTidy.Token.Basic

set_option autoImplicit false

/-!
Why a source is refused, and where.
-/
namespace GroovyTidy

/-- What the grammar wanted to see. -/
inductive Wanted where
  | token (kind : TokenKind)
  | identifier
  | expression
  | separator
  deriving DecidableEq, Repr

/-- The cause of a refusal. -/
inductive Problem where
  | unexpectedCharacter (c : Char)
  | unterminatedString
  | unterminatedComment
  | misplacedShebang
  | unexpectedToken (wanted : Wanted) (found : Token)
  /-- A cause that is told in its own words. -/
  | stated (message : String)
  deriving DecidableEq, Repr

def Wanted.describe : Wanted → String
  | .token kind => kind.describe
  | .identifier => "identifier"
  | .expression => "expression"
  | .separator => "newline or ';'"

def Problem.message : Problem → String
  | .unexpectedCharacter c => "unexpected character " ++ Text.quoteChar c
  | .unterminatedString => "unterminated string literal"
  | .unterminatedComment => "unterminated block comment"
  | .misplacedShebang => "'#!' is only allowed on the first line"
  | .unexpectedToken wanted found => "expected " ++ wanted.describe ++ ", found " ++ found.describe
  | .stated message => message

/-- A cause at a byte offset and a position. -/
structure SyntaxError where
  problem : Problem
  offset : Nat
  line : Nat
  column : Nat
  deriving DecidableEq, Repr

namespace SyntaxError

def atOffset (problem : Problem) (index : Text.LineIndex) (offset : Nat) : SyntaxError :=
  let position := index.locate offset
  { problem, offset, line := position.line, column := position.column }

/-- A token that stands where another was wanted. -/
def atToken (wanted : Wanted) (found : Token) : SyntaxError where
  problem := .unexpectedToken wanted found
  offset := found.span.start
  line := found.line
  column := found.column

def message (error : SyntaxError) : String :=
  error.problem.message

def describe (error : SyntaxError) : String :=
  s!"Syntax error at {error.line}:{error.column}: " ++ error.message

/-- The error above the lines of the source around it. -/
def withExcerpt (error : SyntaxError) (source : String) : String :=
  error.describe ++ "\n\n" ++ Text.excerpt source.toList error.line

end SyntaxError

end GroovyTidy
