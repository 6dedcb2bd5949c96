set_option autoImplicit false

/-!
Classes of code points. The scanner of the language asks about ASCII only; the two blank classes and
the class of white space are wider.
-/
namespace GroovyTidy.Text

def isLetter (codePoint : Nat) : Bool :=
  (0x41 ≤ codePoint && codePoint ≤ 0x5A) || (0x61 ≤ codePoint && codePoint ≤ 0x7A)

def isDigit (codePoint : Nat) : Bool :=
  0x30 ≤ codePoint && codePoint ≤ 0x39

def isCapital (codePoint : Nat) : Bool :=
  0x41 ≤ codePoint && codePoint ≤ 0x5A

def isHexDigit (codePoint : Nat) : Bool :=
  isDigit codePoint || (0x41 ≤ codePoint && codePoint ≤ 0x46) ||
    (0x61 ≤ codePoint && codePoint ≤ 0x66)

/-- A name starts with an ASCII letter or an underscore. -/
def isIdentifierStart (codePoint : Nat) : Bool :=
  isLetter codePoint || codePoint == 0x5F

def isIdentifierPart (codePoint : Nat) : Bool :=
  isIdentifierStart codePoint || isDigit codePoint

/-- A signed value belongs to a class of code points only if it is not negative. -/
def signed (member : Nat → Bool) : Int → Bool
  | .ofNat codePoint => member codePoint
  | .negSucc _ => false

def isLineEnd (codePoint : Nat) : Bool :=
  codePoint == 0x0A || codePoint == 0x0D

/-- Space, tab and form feed separate tokens. -/
def isBlank (codePoint : Nat) : Bool :=
  codePoint == 0x20 || codePoint == 0x09 || codePoint == 0x0C

/-- What may stand between a line continuation and the end of its line: every space separator, the
tabs, the form feed, the Unicode line separators and the byte order mark. -/
def isSpace (codePoint : Nat) : Bool :=
  codePoint == 0x09 || codePoint == 0x0B || codePoint == 0x0C || codePoint == 0x20 ||
    codePoint == 0xA0 ||
  codePoint == 0x1680 || (0x2000 ≤ codePoint && codePoint ≤ 0x200A) || codePoint == 0x2028 ||
  codePoint == 0x2029 || codePoint == 0x202F || codePoint == 0x205F || codePoint == 0x3000 ||
  codePoint == 0xFEFF

/-- The Unicode property White_Space. -/
def isWhiteSpace (codePoint : Nat) : Bool :=
  (0x09 ≤ codePoint && codePoint ≤ 0x0D) || codePoint == 0x20 || codePoint == 0x85 ||
    codePoint == 0xA0 ||
  codePoint == 0x1680 || (0x2000 ≤ codePoint && codePoint ≤ 0x200A) || codePoint == 0x2028 ||
  codePoint == 0x2029 || codePoint == 0x202F || codePoint == 0x205F || codePoint == 0x3000

def inRanges (ranges : List (Nat × Nat)) (codePoint : Nat) : Bool :=
  ranges.any fun range => range.1 ≤ codePoint && codePoint ≤ range.2

/-- Lower case of an ASCII capital, and every other character itself. -/
def lowerAscii (c : Char) : Char :=
  if isCapital c.toNat then Char.ofNat (c.toNat + 0x20) else c

/-- Equality of texts up to the case of ASCII letters. -/
def equalIgnoringCase (left right : String) : Bool :=
  left.toList.map lowerAscii == right.toList.map lowerAscii

/-- The number of bytes that characters take in UTF-8. -/
def byteLength (text : List Char) : Nat :=
  text.foldr (fun c length => c.utf8Size + length) 0

@[simp] theorem byteLength_nil : byteLength [] = 0 :=
  rfl

@[simp] theorem byteLength_cons (c : Char) (text : List Char) :
    byteLength (c :: text) = c.utf8Size + byteLength text :=
  rfl

@[simp] theorem byteLength_append (left right : List Char) :
    byteLength (left ++ right) = byteLength left + byteLength right := by
  induction left with
  | nil => rw [List.nil_append, byteLength_nil, Nat.zero_add]
  | cons c left ih => rw [List.cons_append, byteLength_cons, byteLength_cons, ih, Nat.add_assoc]

end GroovyTidy.Text
