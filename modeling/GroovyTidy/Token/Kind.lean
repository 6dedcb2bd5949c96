import GroovyTidy.Text.CodePoint

set_option autoImplicit false

/-!
Kinds of tokens and the questions the grammar asks about them.
-/
namespace GroovyTidy

inductive Delimiter where
  | paren
  | bracket
  | brace
  deriving DecidableEq, Repr

/-- Words that may stand before a declaration. -/
inductive Modifier where
  | publicWord
  | protectedWord
  | privateWord
  | staticWord
  | abstractWord
  | finalWord
  | strictfpWord
  | defaultWord
  | defWord
  | varWord
  | nativeWord
  | synchronizedWord
  | transientWord
  | volatileWord
  deriving DecidableEq, Repr

/-- Forms of literals. A string with an interpolation in it is a form of its own. -/
inductive LiteralForm where
  | integer
  | floating
  | string
  | interpolated
  | boolean
  | null
  deriving DecidableEq, Repr

/-- What a token is. -/
inductive TokenKind where
  | identifier
  | capitalizedIdentifier
  | literal (form : LiteralForm)
  | packageWord
  | importWord
  | asWord
  | returnWord
  | primitiveType
  | modifier (word : Modifier)
  | opening (delimiter : Delimiter)
  | closing (delimiter : Delimiter)
  | semicolon
  | comma
  | dot
  | safeDot
  | assign
  | less
  | greater
  | arrow
  | star
  | increment
  | decrement
  | newline
  | endOfInput
  deriving DecidableEq, Repr

namespace Modifier

def word : Modifier → String
  | .publicWord => "public"
  | .protectedWord => "protected"
  | .privateWord => "private"
  | .staticWord => "static"
  | .abstractWord => "abstract"
  | .finalWord => "final"
  | .strictfpWord => "strictfp"
  | .defaultWord => "default"
  | .defWord => "def"
  | .varWord => "var"
  | .nativeWord => "native"
  | .synchronizedWord => "synchronized"
  | .transientWord => "transient"
  | .volatileWord => "volatile"

def name : Modifier → String
  | .publicWord => "Public"
  | .protectedWord => "Protected"
  | .privateWord => "Private"
  | .staticWord => "Static"
  | .abstractWord => "Abstract"
  | .finalWord => "Final"
  | .strictfpWord => "Strictfp"
  | .defaultWord => "Default"
  | .defWord => "Def"
  | .varWord => "Var"
  | .nativeWord => "Native"
  | .synchronizedWord => "Synchronized"
  | .transientWord => "Transient"
  | .volatileWord => "Volatile"

def all : List Modifier :=
  [.publicWord, .protectedWord, .privateWord, .staticWord, .abstractWord, .finalWord, .strictfpWord,
   .defaultWord, .defWord, .varWord, .nativeWord, .synchronizedWord, .transientWord, .volatileWord]

end Modifier

namespace TokenKind

def name : TokenKind → String
  | .identifier => "Identifier"
  | .capitalizedIdentifier => "CapitalizedIdentifier"
  | .literal .integer => "IntegerLiteral"
  | .literal .floating => "FloatingLiteral"
  | .literal .string => "StringLiteral"
  | .literal .interpolated => "GStringLiteral"
  | .literal .boolean => "BooleanLiteral"
  | .literal .null => "NullLiteral"
  | .packageWord => "Package"
  | .importWord => "Import"
  | .asWord => "As"
  | .returnWord => "Return"
  | .primitiveType => "BuiltInPrimitiveType"
  | .modifier word => word.name
  | .opening .paren => "LParen"
  | .closing .paren => "RParen"
  | .opening .bracket => "LBrack"
  | .closing .bracket => "RBrack"
  | .opening .brace => "LBrace"
  | .closing .brace => "RBrace"
  | .semicolon => "Semi"
  | .comma => "Comma"
  | .dot => "Dot"
  | .safeDot => "SafeDot"
  | .assign => "Assign"
  | .less => "Lt"
  | .greater => "Gt"
  | .arrow => "Arrow"
  | .star => "Mul"
  | .increment => "Inc"
  | .decrement => "Dec"
  | .newline => "Nl"
  | .endOfInput => "Eof"

def all : List TokenKind :=
  [.identifier, .capitalizedIdentifier, .literal .integer, .literal .floating, .literal .string,
   .literal .interpolated, .literal .boolean, .literal .null, .packageWord, .importWord, .asWord,
   .returnWord, .primitiveType] ++ Modifier.all.map .modifier ++
  [.opening .paren, .closing .paren, .opening .bracket, .closing .bracket, .opening .brace,
    .closing .brace, .semicolon, .comma, .dot, .safeDot, .assign, .less, .greater, .arrow, .star,
    .increment, .decrement,
   .newline, .endOfInput]

def ofName? (name : String) : Option TokenKind :=
  all.find? fun kind => kind.name == name

/-- How a kind whose tokens all read alike is written. -/
def fixedText? : TokenKind → Option String
  | .opening .paren => some "("
  | .closing .paren => some ")"
  | .opening .bracket => some "["
  | .closing .bracket => some "]"
  | .opening .brace => some "\x7b"
  | .closing .brace => some "\x7d"
  | .semicolon => some ";"
  | .comma => some ","
  | .dot => some "."
  | .safeDot => some "?."
  | .assign => some "="
  | .less => some "<"
  | .greater => some ">"
  | .arrow => some "->"
  | .star => some "*"
  | .increment => some "++"
  | .decrement => some "--"
  | _ => none

/-- How messages name a kind: punctuation in quotes, the two ends in words, all else by its name. -/
def describe (kind : TokenKind) : String :=
  match kind.fixedText?, kind with
  | some text, _ => "'" ++ text ++ "'"
  | none, .newline => "newline"
  | none, .endOfInput => "end of input"
  | none, _ => kind.name

def sampleText (kind : TokenKind) : String :=
  match kind with
  | .identifier => "name"
  | .capitalizedIdentifier => "Name"
  | .literal .integer => "1"
  | .literal .floating => "1.5"
  | .literal .string => "'text'"
  | .literal .interpolated => "\"$text\""
  | .literal .boolean => "true"
  | .literal .null => "null"
  | .packageWord => "package"
  | .importWord => "import"
  | .asWord => "as"
  | .returnWord => "return"
  | .primitiveType => "int"
  | .modifier word => word.word
  | .newline => "\n"
  | _ => kind.fixedText?.getD ""

def isModifier : TokenKind → Bool
  | .modifier _ => true
  | _ => false

def isPrimitiveType (kind : TokenKind) : Bool :=
  kind == .primitiveType

def isIdentifier : TokenKind → Bool
  | .identifier | .capitalizedIdentifier => true
  | _ => false

def isLiteral : TokenKind → Bool
  | .literal _ => true
  | _ => false

/-- Type arguments or brackets start here. -/
def opensTypeSuffix : TokenKind → Bool
  | .less | .opening .bracket => true
  | _ => false

/-- A member of an object follows. -/
def isMemberAccess : TokenKind → Bool
  | .dot | .safeDot => true
  | _ => false

/-- What stands between statements. -/
def isSeparator : TokenKind → Bool
  | .newline | .semicolon => true
  | _ => false

/-- An expression may start with a token of this kind. -/
def startsExpression : TokenKind → Bool
  | .opening _ => true
  | kind => kind.isIdentifier || kind.isLiteral

def primitiveWords : List String :=
  ["boolean", "byte", "char", "short", "int", "long", "float", "double"]

/-- The kind of a word: a keyword, a literal, or a name told apart by the case of its first
letter. -/
def ofWord (word : String) : TokenKind :=
  if word = "package" then .packageWord
  else if word = "import" then .importWord
  else if word = "as" then .asWord
  else if word = "return" then .returnWord
  else if word = "true" ∨ word = "false" then .literal .boolean
  else if word = "null" then .literal .null
  else if word ∈ primitiveWords then .primitiveType
  else
    match Modifier.all.find? fun found => found.word == word with
    | some found => .modifier found
    | none =>
      if word.toList.head?.any fun c => Text.isCapital c.toNat then .capitalizedIdentifier
      else .identifier

end TokenKind

end GroovyTidy
