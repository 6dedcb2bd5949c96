import GroovyTidy.Text.CodePoint

set_option autoImplicit false

/-!
Lookahead over a text in UTF-16 code units. A character beyond the basic plane takes two units, so a
cursor can stand between the halves of one; its byte offset then still names the start of that
character.
-/
namespace GroovyTidy.Text

/-- The UTF-16 code units of a character. -/
def units (c : Char) : List Nat :=
  if c.toNat < 0x10000 then [c.toNat]
  else [0xD800 + (c.toNat - 0x10000) / 0x400, 0xDC00 + (c.toNat - 0x10000) % 0x400]

/-- The code unit at an index, if the text is that long. -/
def unitAt? : List Char → Nat → Option Nat
  | [], _ => none
  | c :: rest, index =>
    match (units c)[index]? with
    | some unit => some unit
    | none => unitAt? rest (index - (units c).length)

/-- A place in a text. -/
structure Cursor where
  /-- The characters that are not wholly consumed. -/
  rest : List Char
  /-- The bytes of the characters that are. -/
  offset : Nat
  /-- The first half of a surrogate pair is consumed and the second is not. -/
  halfway : Bool
  deriving DecidableEq, Repr

namespace Cursor

def ofText (text : List Char) : Cursor where
  rest := text
  offset := 0
  halfway := false

/-- The unit that stands `k` units ahead, counted from one. -/
def lookAhead? (cursor : Cursor) (k : Nat) : Option Nat :=
  if k = 0 then none
  else unitAt? cursor.rest (if cursor.halfway then k else k - 1)

/-- The cursor one unit further, or the same one at the end. -/
def advance (cursor : Cursor) : Cursor :=
  match cursor.rest with
  | [] => cursor
  | c :: rest =>
    if (units c).length = 2 && !cursor.halfway then { cursor with halfway := true }
    else { rest, offset := cursor.offset + c.utf8Size, halfway := false }

def advanceBy (cursor : Cursor) : Nat → Cursor
  | 0 => cursor
  | n + 1 => cursor.advance.advanceBy n

end Cursor

/-- Only spaces stand before the end of the line. -/
def blankToLineEnd : List Char → Bool
  | [] => true
  | c :: rest => isLineEnd c.toNat || (isSpace c.toNat && blankToLineEnd rest)

namespace Cursor

/-- Only spaces stand between the cursor and the end of its line. -/
def blankToLineEnd (cursor : Cursor) : Bool :=
  !cursor.halfway && Text.blankToLineEnd cursor.rest

/-- The next unit is one of the given characters. A character that takes two units never is. -/
def isBeforeAnyOf (cursor : Cursor) (candidates : List Char) : Bool :=
  (cursor.lookAhead? 1).any fun next => candidates.any fun candidate => candidate.toNat == next

/-- Right after a dollar sign: an opening brace or the start of a name makes it an interpolation. -/
def startsInterpolation (cursor : Cursor) : Bool :=
  (cursor.lookAhead? 1).any fun next => next == 0x7B || isIdentifierStart next

end Cursor

end GroovyTidy.Text
