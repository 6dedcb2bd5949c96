import GroovyTidy.SyntaxError
import GroovyTidy.Tree.Lookahead

set_option autoImplicit false

/-!
Rules of the grammar as functions that consume tokens. A rule decides by looking ahead and never
gives back a token, so what it gives for the tokens it consumed is a list of trees over exactly
these tokens.
-/
namespace GroovyTidy

/-- Questions that the shape of the grammar leaves open. -/
inductive Question where
  | methodDeclaration
  | localVariableDeclaration
  | commandArguments
  deriving DecidableEq, Repr

/-- An answer to a question, at the token that was next. -/
structure Decision where
  question : Question
  /-- Whether the alternative asked about is ruled out. -/
  ruledOut : Bool
  token : Token
  deriving DecidableEq, Repr

/-- Tokens that are still to be read, and the decisions taken so far, the latest first. -/
structure Reading where
  stream : TokenStream
  decisions : List Decision
  deriving DecidableEq, Repr

/-- A function that consumes tokens. -/
abbrev Parser (α : Type) := EStateM SyntaxError Reading α

/-- A function that consumes tokens and gives the trees over them. -/
abbrev Rule := Parser (List Tree)

namespace Reading

def ofTokens (tokens : List Token) : Reading where
  stream := .ofTokens tokens
  decisions := []

def ahead (reading : Reading) : List Token :=
  reading.stream.pending

end Reading

namespace Rule

def refuse {α : Type} (wanted : Wanted) : Parser α := fun reading =>
  .error (.atToken wanted reading.stream.next) reading

/-- One token of a kind with a property. -/
def accept (test : TokenKind → Bool) (wanted : Wanted) : Rule := fun reading =>
  if test reading.stream.next.kind then
    .ok [.token reading.stream.next] { reading with stream := reading.stream.advance }
  else refuse wanted reading

def token (kind : TokenKind) : Rule :=
  accept (· == kind) (.token kind)

def nothing : Rule :=
  pure []

/-- One rule after another. -/
def sequence (front back : Rule) : Rule := do
  let left ← front
  let right ← back
  return left ++ right

instance : Append Rule := ⟨sequence⟩

/-- Puts what a rule gives under a node. -/
def node (kind : NodeKind) (children : Rule) : Rule := do
  return [.node kind (← children)]

/-- Chooses what to do by the tokens ahead. -/
def lookingAhead {α : Type} (choose : List Token → Parser α) : Parser α := fun reading =>
  choose reading.ahead reading

/-- A rule that applies only if the tokens ahead have a property. -/
def when (test : List Token → Bool) (rule : Rule) : Rule :=
  lookingAhead fun ahead => if test ahead then rule else nothing

/-- Does something again and again, at most so many times, as long as the tokens ahead choose
something. -/
def repeatWithin {α : Type} (choose : List Token → Option (Parser α)) : Nat → Parser (List α)
  | 0 => pure []
  | bound + 1 => fun reading =>
    match choose reading.ahead with
    | none => .ok [] reading
    | some item =>
      match item reading with
      | .error error reading => .error error reading
      | .ok first reading =>
        match repeatWithin choose bound reading with
        | .error error reading => .error error reading
        | .ok rest reading => .ok (first :: rest) reading

/-- Does something again and again as long as the tokens ahead choose something. What is done has to
consume a token, or to be refused at the end of input, so there is no more to do than there are
tokens. -/
def many {α : Type} (choose : List Token → Option (Parser α)) : Parser (List α) :=
  lookingAhead fun ahead => repeatWithin choose (ahead.length + 1)

/-- A rule again and again as long as the tokens ahead have a property. -/
def manyWhile (test : List Token → Bool) (rule : Rule) : Rule :=
  List.flatten <$> many fun ahead => if test ahead then some rule else none

/-- One or more of something with commas between them. -/
def commaSeparated (item : Rule) : Rule :=
  item ++ manyWhile (Lookahead.startsWith .comma) (token .comma ++ item)

def note (question : Question) (ruledOut : Bool) : Parser Unit := fun reading =>
  .ok () { reading with decisions := ⟨question, ruledOut, reading.stream.next⟩ ::
    reading.decisions }

end Rule

end GroovyTidy
