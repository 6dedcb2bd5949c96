import GroovyTidy.SyntaxError
import GroovyTidy.Token.Number
import GroovyTidy.Token.StringLiteral

set_option autoImplicit false

/-!
The tokens of a source. At each place of the source stands a lexeme: a token, or a gap that no token
comes from. Gaps are blanks, comments, a byte order mark or a first line that starts with `#!` at
the very start, line continuations, and the ends of lines inside parentheses and brackets.
-/
namespace GroovyTidy

open Text

/-- What stands at the front of a text, with the number of its characters. -/
inductive Lexeme where
  | token (kind : TokenKind) (length : Nat)
  | gap (length : Nat)
  deriving DecidableEq, Repr

namespace Lexeme

def length : Lexeme → Nat
  | .token _ length => length
  | .gap length => length

/-- The characters up to the end of the first `*/`, if there is one. -/
def commentRest : List Char → Option Nat
  | [] => none
  | '*' :: '/' :: _ => some 2
  | _ :: rest => (commentRest rest).map (· + 1)

def lineLength (text : List Char) : Nat :=
  Number.runLength (fun c => !isLineEnd c.toNat) text

/-- The characters of the line end at the front, both of them for a carriage return with a line
feed. -/
def lineEndLength : List Char → Nat
  | '\r' :: '\n' :: _ => 2
  | c :: _ => if isLineEnd c.toNat then 1 else 0
  | [] => 0

def wordLength (text : List Char) : Nat :=
  Number.runLength (fun c => isIdentifierPart c.toNat) text

/-- A token of punctuation at the front of a text, the longer one where two would do. -/
def punctuation? : List Char → Option (TokenKind × Nat)
  | '?' :: '.' :: _ => some (.safeDot, 2)
  | '-' :: '>' :: _ => some (.arrow, 2)
  | '+' :: '+' :: _ => some (.increment, 2)
  | '-' :: '-' :: _ => some (.decrement, 2)
  | '(' :: _ => some (.opening .paren, 1)
  | ')' :: _ => some (.closing .paren, 1)
  | '[' :: _ => some (.opening .bracket, 1)
  | ']' :: _ => some (.closing .bracket, 1)
  | '\x7b' :: _ => some (.opening .brace, 1)
  | '\x7d' :: _ => some (.closing .brace, 1)
  | ';' :: _ => some (.semicolon, 1)
  | ',' :: _ => some (.comma, 1)
  | '.' :: _ => some (.dot, 1)
  | '=' :: _ => some (.assign, 1)
  | '<' :: _ => some (.less, 1)
  | '>' :: _ => some (.greater, 1)
  | '*' :: _ => some (.star, 1)
  | _ => none

def quoted (quote : Char) (text : List Char) : Except Problem Lexeme :=
  match StringLiteral.leading quote text with
  | none => .error .unterminatedString
  | some extent =>
    .ok (.token (.literal (if extent.interpolated then .interpolated else .string)) extent.length)

/-- The lexeme at the front of `c :: rest`. Some lexemes may stand only at the start of a source,
and ends of lines are tokens only where they may end a statement. -/
def leading (atStart endsStatements : Bool) (c : Char) (rest : List Char) : Except Problem Lexeme :=
  let text := c :: rest
  if isBlank c.toNat then .ok (.gap (Number.runLength (fun b => isBlank b.toNat) text))
  else if isLineEnd c.toNat then
    .ok (if endsStatements then .token .newline (lineEndLength text) else .gap (lineEndLength text))
  else if isIdentifierStart c.toNat then
    .ok (.token (.ofWord (String.ofList (text.take (wordLength text)))) (wordLength text))
  else if isDigit c.toNat then
    .ok (.token (.literal (Number.leading text).1) (Number.leading text).2)
  else if c = '\'' ∨ c = '"' then quoted c text
  else if c = '/' ∧ rest.head? = some '/' then .ok (.gap (lineLength text))
  else if c = '/' ∧ rest.head? = some '*' then
    match commentRest (rest.drop 1) with
    | none => .error .unterminatedComment
    | some length => .ok (.gap (length + 2))
  else if c = '#' ∧ rest.head? = some '!' then
    if atStart then .ok (.gap (lineLength text)) else .error .misplacedShebang
  else if c = '\ufeff' ∧ atStart then .ok (.gap 1)
  else if c = '\\' ∧ (Cursor.ofText rest).blankToLineEnd then
    .ok (.gap (1 + lineLength rest + lineEndLength (rest.drop (lineLength rest))))
  else
    match punctuation? text with
    | some (kind, length) => .ok (.token kind length)
    | none => .error (.unexpectedCharacter c)

end Lexeme

/-- The delimiters that are open after a token, the innermost first. A closing delimiter closes the
innermost one whatever its kind. -/
def openAfter (opened : List Delimiter) : TokenKind → List Delimiter
  | .opening delimiter => delimiter :: opened
  | .closing _ => opened.tail
  | _ => opened

/-- Inside parentheses and brackets no line end ends a statement. -/
def endsStatements : List Delimiter → Bool
  | .paren :: _ | .bracket :: _ => false
  | _ => true

def placeToken (index : LineIndex) (kind : TokenKind) (text : String) (offset : Nat) : Token :=
  let position := index.locate offset
  .place kind text offset position.line position.column

/-- The tokens of what follows a byte offset, after the characters that still belong to the lexeme
before it. -/
def tokensFrom (index : LineIndex) :
    Nat → List Delimiter → Nat → List Char → Except SyntaxError (List Token)
  | offset, _, _, [] => .ok [placeToken index .endOfInput "" offset]
  | offset, opened, skipped + 1, c :: rest =>
    tokensFrom index (offset + c.utf8Size) opened skipped rest
  | offset, opened, 0, c :: rest =>
    match Lexeme.leading (offset == 0) (endsStatements opened) c rest with
    | .error problem => .error (.atOffset problem index offset)
    | .ok (.gap length) => tokensFrom index (offset + c.utf8Size) opened (length - 1) rest
    | .ok (.token kind length) =>
      let token := placeToken index kind (String.ofList ((c :: rest).take length)) offset
      match tokensFrom index (offset + c.utf8Size) (openAfter opened kind) (length - 1) rest with
      | .error error => .error error
      | .ok tokens => .ok (token :: tokens)

/-- The tokens of a source, with the end of input as the last one. -/
def tokenize (source : String) : Except SyntaxError (List Token) :=
  tokensFrom (.ofText source.toList) 0 [] 0 source.toList

end GroovyTidy
