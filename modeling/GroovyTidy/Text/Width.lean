import GroovyTidy.Text.Emoji
import GroovyTidy.Text.Ligature

set_option autoImplicit false

/-!
How many columns a text takes on a display. An ASCII text takes one column a byte, whatever its
bytes. Any other text takes the columns of its characters, but for those that are shown in one place
together: emoji that are joined, flags, characters with a variation selector, and the ligatures of
some scripts. What a character takes depends on what follows it, so a text is measured from its end.
-/
namespace GroovyTidy.Text

/-- What a variation selector asks for. -/
inductive Selector where
  | text
  | emoji
  | wide
  deriving DecidableEq, Repr

/-- What stands before a joiner and an emoji after it. -/
inductive Link where
  /-- Nothing: the joiner comes next. -/
  | joiner
  /-- The mark of a keycap. -/
  | keycap
  /-- One regional indicator. -/
  | indicator
  /-- At least two regional indicators, an odd or an even number. -/
  | indicators (odd : Bool)
  /-- The end of a tag, with so many letters and digits before it. -/
  | tag (letters digits : Nat)
  deriving DecidableEq, Repr

/-- What follows a character, as far as the columns of the character depend on it. -/
inductive Onset where
  | plain
  /-- An emoji that is shown as a picture. -/
  | emoji
  /-- A modifier of the skin tone. -/
  | modifier
  /-- One regional indicator, or several. -/
  | indicators (several : Bool)
  /-- Something that is joined to an emoji. -/
  | joined (link : Link)
  /-- The end of a ligature, with a joiner before it or without. -/
  | ligature (rest : Ligature) (afterJoiner : Bool)
  /-- A Kirat Rai vowel that others compose with. -/
  | vowelE
  /-- Two such vowels, or their composition. -/
  | vowelAi
  deriving DecidableEq, Repr

/-- What follows a character, and the variation selector right after the character if there is
one. -/
structure Following where
  selector : Option Selector
  onset : Onset
  deriving DecidableEq, Repr

namespace Following

def ofOnset (onset : Onset) : Following where
  selector := none
  onset := onset

/-- A variation selector before something. Only ligatures, and emoji that something is joined to as
a picture, are still seen behind it. -/
def select (selector : Selector) (onset : Onset) : Following where
  selector := some selector
  onset :=
    match onset with
    | .ligature rest afterJoiner => .ligature rest afterJoiner
    | .joined .joiner => if selector = .emoji then .joined .joiner else .plain
    | .joined .keycap => if selector = .emoji then .joined .keycap else .plain
    | _ => .plain

end Following

def selector? (codePoint : Nat) : Option Selector :=
  if codePoint = 0xFE0E then some .text
  else if codePoint = 0xFE0F then some .emoji
  else if codePoint = 0xFE01 ∨ codePoint = 0xFE02 then some .wide
  else none

/-- Quotation marks that have a full-width form. -/
def isQuotationMark (codePoint : Nat) : Bool :=
  [0x2018, 0x2019, 0x201C, 0x201D].contains codePoint

/-- The columns of a character, and what it is to the one before it, if nothing that follows it
matters. -/
def alone (codePoint : Nat) : Int × Onset :=
  let onset : Onset :=
    match Ligature.endingIn? codePoint with
    | some rest => .ligature rest false
    | none =>
      if isEmojiPresentation codePoint then .emoji
      else if isEmojiModifier codePoint then .modifier
      else if isRegionalIndicator codePoint then .indicators false
      else if codePoint = 0x16D67 then .vowelE
      else if codePoint = 0x16D68 then .vowelAi
      else .plain
  (charWidth codePoint, onset)

/-- A tag of a region names it by three to six letters, or by three digits and up to four
letters. -/
def isRegionTag (letters digits : Nat) : Bool :=
  (digits == 0 && 3 ≤ letters) || digits == 3

/-- What a character does before a link to an emoji. -/
def Link.extend? (link : Link) (codePoint : Nat) : Option (Int × Onset) :=
  match link with
  | .joiner =>
    if codePoint = 0x20E3 then some (0, .joined .keycap)
    else if isRegionalIndicator codePoint then some (1, .joined .indicator)
    else if isEmojiModifier codePoint then some (0, .modifier)
    else if codePoint = 0xE007F then some (0, .joined (.tag 0 0))
    else if isEmojiPresentation codePoint then some (0, .emoji)
    else none
  | .keycap => none
  | .indicator =>
    if isRegionalIndicator codePoint then some (-1, .joined (.indicators false)) else none
  | .indicators odd =>
    if codePoint = 0x200D then some (0, .joined .joiner)
    else if isRegionalIndicator codePoint then
      some (if odd then -1 else 3, .joined (.indicators !odd))
    else none
  | .tag letters digits =>
    if isTagLetter codePoint && digits == 0 && letters < 6 then
      some (0, .joined (.tag (letters + 1) 0))
    else if isTagDigit codePoint && letters ≤ 4 && digits < 3 then
      some (0, .joined (.tag letters (digits + 1)))
    else if codePoint = 0x1F3F4 && isRegionTag letters digits then some (0, .emoji)
    else none

/-- What a character does before something it belongs together with. -/
def Onset.extend? (onset : Onset) (codePoint : Nat) : Option (Int × Onset) :=
  match onset with
  | .plain => none
  | .emoji => if codePoint = 0x200D then some (0, .joined .joiner) else none
  | .modifier =>
    if isEmojiModifierBase codePoint then some (0, .emoji)
    else if codePoint = 0x200D then some (0, .joined .joiner)
    else none
  | .indicators several =>
    if isRegionalIndicator codePoint then some (1, .indicators true)
    else if several && codePoint == 0x200D then some (0, .joined .joiner)
    else none
  | .joined link => link.extend? codePoint
  | .ligature rest afterJoiner =>
    if rest ≠ .alef ∧ codePoint = 0x200D then some (0, .ligature rest true)
    else if rest ≠ .alef ∧ isLigatureTransparent codePoint then some (0, .ligature rest afterJoiner)
    else
      (rest.extend? afterJoiner codePoint).map fun found =>
        (found.1, found.2.elim .plain fun rest => .ligature rest false)
  | .vowelE =>
    if codePoint = 0x16D63 ∨ codePoint = 0x16D69 then some (0, .plain)
    else if codePoint = 0x16D67 then some (0, .vowelAi)
    else if codePoint = 0x16D68 then some (1, .vowelE)
    else none
  | .vowelAi => if codePoint = 0x16D63 then some (0, .plain) else none

/-- What a character does under a variation selector that applies to it. -/
def Following.selected? (next : Following) (codePoint : Nat) : Option (Int × Onset) :=
  match next.selector with
  | some .emoji =>
    if takesEmojiSelector codePoint then
      some (match next.onset with | .joined _ => 0 | _ => 2, .emoji)
    else none
  | some .text => if takesTextSelector codePoint then some (1, .plain) else none
  | some .wide => if isQuotationMark codePoint then some (2, .plain) else none
  | none => none

/-- What is seen behind a variation selector that does not apply. -/
def Following.unselected (next : Following) : Onset :=
  match next.selector, next.onset with
  | some _, .joined _ => .plain
  | _, onset => onset

/-- The columns that a character adds before what follows it, and what it is to the one before
it. -/
def measure (c : Char) (next : Following) : Int × Following :=
  let codePoint := c.toNat
  match next.selected? codePoint with
  | some (columns, onset) => (columns, .ofOnset onset)
  | none =>
    match selector? codePoint with
    | some selector => (0, .select selector next.unselected)
    | none =>
      let (columns, onset) :=
        if codePoint ≤ 0xA0 then (1, .plain)
        else (next.unselected.extend? codePoint).getD (alone codePoint)
      (columns, .ofOnset onset)

/-- The columns of a text from its end on, and what the text is to a character before it. -/
def measureAll : List Char → Int × Following
  | [] => (0, .ofOnset .plain)
  | c :: rest =>
    let (columns, next) := measureAll rest
    let (added, next) := measure c next
    (columns + added, next)

def width (text : List Char) : Nat :=
  if text.all fun c => c.toNat < 0x80 then text.length else (measureAll text).1.toNat

end GroovyTidy.Text
