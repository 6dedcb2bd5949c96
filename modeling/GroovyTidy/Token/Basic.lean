import GroovyTidy.Text.Quoted
import GroovyTidy.Token.Kind

set_option autoImplicit false

/-!
Tokens and the stream the grammar reads them from.
-/
namespace GroovyTidy

/-- A range of bytes in a source. -/
structure Span where
  start : Nat
  stop : Nat
  deriving DecidableEq, Repr

/-- A token: its kind, its text, and where it stands in the source. -/
structure Token where
  kind : TokenKind
  text : String
  span : Span
  line : Nat
  column : Nat
  deriving DecidableEq, Repr

namespace Token

def place (kind : TokenKind) (text : String) (start line column : Nat) : Token where
  kind := kind
  text := text
  span := ⟨start, start + text.utf8ByteSize⟩
  line := line
  column := column

/-- How messages show a token: its text in quotes, or the name of an end. -/
def describe (token : Token) : String :=
  match token.kind with
  | .newline | .endOfInput => token.kind.describe
  | _ => Text.quoteText token.text

/-- Places texts on one line from an offset and a column on, with a byte and a column between
neighbours. -/
def placeOnLine : Nat → Nat → List (TokenKind × String) → List Token
  | _, _, [] => []
  | offset, column, (kind, text) :: rest =>
    place kind text offset 1 column ::
      placeOnLine (offset + text.utf8ByteSize + 1) (column + text.length + 1) rest

def lineOf (parts : List (TokenKind × String)) : List Token :=
  placeOnLine 0 1 parts

end Token

/-- The end that a list of tokens without one gets: right after its last token. The column is a word
of 64 bits as long as it is below `2 ^ 64`, which those of a text always are. -/
def endAfter (last : Option Token) : Token :=
  match last with
  | none => .place .endOfInput "" 0 1 1
  | some token =>
    .place .endOfInput "" token.span.stop token.line (token.column + token.text.length)

theorem endAfter_kind (last : Option Token) : (endAfter last).kind = .endOfInput := by
  cases last <;> rfl

/-- A stream of tokens. Past the last pending token its end repeats for ever. -/
structure TokenStream where
  /-- The tokens before the end that are not consumed. -/
  pending : List Token
  /-- The token at the end. -/
  final : Token
  /-- How many tokens are consumed. -/
  position : Nat
  final_kind : final.kind = .endOfInput
  deriving DecidableEq, Repr

namespace TokenStream

/-- The stream over a list of tokens. A final token that is no end of input is followed by one. -/
def ofTokens (tokens : List Token) : TokenStream :=
  match tokens.getLast? with
  | some last =>
    if ended : last.kind = .endOfInput then ⟨tokens.dropLast, last, 0, ended⟩
    else ⟨tokens, endAfter (some last), 0, endAfter_kind _⟩
  | none => ⟨tokens, endAfter none, 0, endAfter_kind _⟩

def remaining (stream : TokenStream) : List Token :=
  stream.pending ++ [stream.final]

/-- The token that stands `k` tokens ahead, counted from one. -/
def lookAhead (stream : TokenStream) (k : Nat) : Token :=
  stream.pending[k - 1]?.getD stream.final

def next (stream : TokenStream) : Token :=
  stream.pending.head?.getD stream.final

/-- The stream one token further, or the same one at its end. -/
def advance (stream : TokenStream) : TokenStream :=
  match stream.pending with
  | [] => stream
  | _ :: rest => { stream with pending := rest, position := stream.position + 1 }

/-- Before its end a stream consists of the next token and of what follows it. -/
theorem remaining_eq_next_cons (stream : TokenStream) (pending : stream.pending ≠ []) :
    stream.remaining = stream.next :: stream.advance.remaining := by
  cases h : stream.pending with
  | nil => exact absurd h pending
  | cons token rest => simp [remaining, next, advance, h]

def advanceBy (stream : TokenStream) : Nat → TokenStream
  | 0 => stream
  | n + 1 => stream.advance.advanceBy n

end TokenStream

end GroovyTidy
