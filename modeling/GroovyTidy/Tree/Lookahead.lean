import GroovyTidy.Text.LowerCase
import GroovyTidy.Tree.Basic

set_option autoImplicit false

/-!
What the grammar finds out by looking ahead. Tokens ahead are the pending tokens of a stream; past
them stands the end of input.
-/
namespace GroovyTidy.Lookahead

/-- The kind of the token at an index ahead. -/
def kindAt (ahead : List Token) (index : Nat) : TokenKind :=
  (ahead[index]?).elim .endOfInput Token.kind

/-- The first token ahead is of a kind with a property. -/
def starts (test : TokenKind → Bool) (ahead : List Token) : Bool :=
  test (kindAt ahead 0)

def startsWith (kind : TokenKind) (ahead : List Token) : Bool :=
  kindAt ahead 0 == kind

/-- The first two tokens ahead are of kinds with two properties. -/
def startsPair (first second : TokenKind → Bool) (ahead : List Token) : Bool :=
  first (kindAt ahead 0) && second (kindAt ahead 1)

/-- What follows all leading pairs of tokens of kinds with two properties. -/
def skipPairs (first second : TokenKind → Bool) : List Token → List Token
  | left :: right :: rest =>
    if first left.kind && second right.kind then skipPairs first second rest
    else left :: right :: rest
  | ahead => ahead

def skipNames (ahead : List Token) : List Token :=
  skipPairs (· == .dot) TokenKind.isIdentifier ahead

/-- What follows leading pairs of brackets with nothing between them. -/
def skipBrackets (ahead : List Token) : List Token :=
  skipPairs (· == .opening .bracket) (· == .closing .bracket) ahead

/-- What follows a list of types up to its closing angle bracket, given what follows one type. -/
def afterTypeList? (afterType? : List Token → Option (List Token)) :
    Nat → List Token → Option (List Token)
  | 0, _ => none
  | bound + 1, ahead =>
    match afterType? ahead with
    | some (token :: rest) =>
      if token.kind = .comma then afterTypeList? afterType? bound rest
      else if token.kind = .greater then some rest
      else none
    | _ => none

/-- What follows a type whose arguments are nested less deep than a bound. -/
def afterTypeWithin? : Nat → List Token → Option (List Token)
  | 0, _ => none
  | _ + 1, [] => none
  | bound + 1, first :: rest =>
    if first.kind.isPrimitiveType then some (skipBrackets rest)
    else if first.kind.isIdentifier then
      match skipNames rest with
      | token :: inside =>
        if token.kind = .less then
          (afterTypeList? (afterTypeWithin? bound) rest.length inside).map skipBrackets
        else some (skipBrackets (token :: inside))
      | [] => some []
    else none

def afterType? (ahead : List Token) : Option (List Token) :=
  afterTypeWithin? (ahead.length + 1) ahead

def skipModifiers (ahead : List Token) : List Token :=
  ahead.dropWhile fun token => token.kind.isModifier

/-- A method may be named by a string. -/
def isMethodName (kind : TokenKind) : Bool :=
  kind.isIdentifier || kind == .literal .string

def startsMethodHead (ahead : List Token) : Bool :=
  startsPair isMethodName (· == .opening .paren) ahead

/-- A token of such a kind may follow the name of a variable that is declared. -/
def endsDeclaratorName (kind : TokenKind) : Bool :=
  kind == .assign || kind == .comma || kind == .newline || kind == .semicolon ||
    kind == .closing .brace ||
    kind == .endOfInput

def startsDeclarator (ahead : List Token) : Bool :=
  startsPair TokenKind.isIdentifier endsDeclaratorName ahead

/-- A type is ahead, and what follows it has a property. -/
def startsTyped (test : List Token → Bool) (ahead : List Token) : Bool :=
  (afterType? ahead).any test

/-- What follows the parenthesis that closes the outermost one, when so many are open. -/
def afterParentheses? : Nat → List Token → Option (List Token)
  | _, [] => none
  | depth, token :: rest =>
    if token.kind = .opening .paren then afterParentheses? (depth + 1) rest
    else if token.kind = .closing .paren then
      if depth ≤ 1 then some rest else afterParentheses? (depth - 1) rest
    else if token.kind = .endOfInput then none
    else afterParentheses? depth rest

/-- After the name of a method: its parameters and the brace that opens its body. -/
def startsMethodBody (ahead : List Token) : Bool :=
  (afterParentheses? 0 ahead).any (startsWith (.opening .brace))

/-- Modifiers, a type or at least one of the two, a name, parameters and an opening brace are
ahead. -/
def declaresMethod (ahead : List Token) : Bool :=
  let rest := skipModifiers ahead
  match (afterType? rest).filter startsMethodHead with
  | some named => startsMethodBody (named.drop 1)
  | none => rest.length < ahead.length && startsMethodHead rest && startsMethodBody (rest.drop 1)

/-- Modifiers, a type or at least one of the two, and a name of a variable are ahead. -/
def declaresVariable (ahead : List Token) : Bool :=
  let rest := skipModifiers ahead
  startsTyped startsDeclarator rest || (rest.length < ahead.length && startsDeclarator rest)

/-- A name or a string with an opening parenthesis after it: a call, so no method is declared. -/
def startsCall (ahead : List Token) : Bool :=
  startsMethodHead ahead

/-- What follows leading dots and the token after each of them. -/
def skipDotted (ahead : List Token) : List Token :=
  skipPairs (· == .dot) (fun _ => true) ahead

/-- A path of names with type arguments or brackets after it. -/
def startsTypePath (ahead : List Token) : Bool :=
  kindAt ahead 1 == .dot && starts TokenKind.opensTypeSuffix (skipDotted (ahead.drop 1))

/-- The next statement is a command rather than the declaration of a variable: it starts with a word
that is not capitalized, no value is assigned to the word after it, and it is not the name of a type
with arguments or brackets. -/
def readsAsCommand (first : Token) (ahead : List Token) : Bool :=
  !startsTypePath ahead && !first.kind.isPrimitiveType && !first.kind.isModifier &&
    first.text.toList.head?.any Text.isOwnLowerCase && kindAt ahead 2 != .assign &&
    !(kindAt ahead 1).opensTypeSuffix

/-- Parameters of a closure are ahead: names, with or without types, up to an arrow. -/
def listsParameters : Nat → List Token → Bool
  | 0, _ => false
  | bound + 1, ahead =>
    match afterType? ahead with
    | none => false
    | some rest =>
      let after := if starts TokenKind.isIdentifier rest then rest.drop 1 else rest
      if startsWith .comma after then listsParameters bound (after.drop 1)
      else startsWith .arrow after

/-- The head of a closure is ahead: an arrow, with or without parameters before it. -/
def startsClosureHead (ahead : List Token) : Bool :=
  startsWith .arrow ahead || listsParameters (ahead.length + 1) ahead

end GroovyTidy.Lookahead
