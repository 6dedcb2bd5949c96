import GroovyTidy.Text.CharWidth

set_option autoImplicit false

/-!
Letters of some scripts that are shown in one place together with what stands before them.
-/
namespace GroovyTidy.Text

/-- How a ligature ends. -/
inductive Ligature where
  /-- An alef after a lam. -/
  | alef
  /-- A lamed after an alef. -/
  | lamed
  /-- A Buginese ya after a vowel. -/
  | ya
  /-- A Buginese vowel and a ya after a letter. -/
  | vowelYa
  /-- A Tifinagh consonant after another one. -/
  | consonant
  /-- A Tifinagh joiner and a consonant after another one. -/
  | joinerConsonant
  /-- A second Lisu tone letter after a first one. -/
  | toneLetter
  /-- An Old Turkic letter after another one. -/
  | orkhonI
  /-- A Khmer letter under the one before it. -/
  | subscript
  deriving DecidableEq, Repr

def isLam (codePoint : Nat) : Bool :=
  inRanges [(0x644, 0x644), (0x6B5, 0x6B8), (0x76A, 0x76A), (0x8A6, 0x8A6), (0x8C7, 0x8C7)]
    codePoint

def isAlef (codePoint : Nat) : Bool :=
  inRanges
    [(0x622, 0x623), (0x625, 0x625), (0x627, 0x627), (0x671, 0x673), (0x675, 0x675), (0x773, 0x774),
     (0x870, 0x882)]
    codePoint

def isTifinaghConsonant (codePoint : Nat) : Bool :=
  inRanges [(0x2D31, 0x2D65), (0x2D6F, 0x2D6F)] codePoint

/-- Khmer letters with a form below the line. -/
def isKhmerSubscript (codePoint : Nat) : Bool :=
  inRanges
    [(0x1780, 0x1782), (0x1784, 0x1787), (0x1789, 0x178C), (0x178E, 0x1793), (0x1795, 0x1798),
      (0x179B, 0x179D), (0x17A0, 0x17A0), (0x17A2, 0x17A2), (0x17A7, 0x17A7), (0x17AB, 0x17AC),
      (0x17AF, 0x17AF)]
    codePoint

/-- The ligature that a letter may end. -/
def Ligature.endingIn? (codePoint : Nat) : Option Ligature :=
  if isAlef codePoint then some .alef
  else if codePoint = 0x5DC then some .lamed
  else if codePoint = 0x1A10 then some .ya
  else if isTifinaghConsonant codePoint then some .consonant
  else if codePoint = 0xA4FC ∨ codePoint = 0xA4FD then some .toneLetter
  else if codePoint = 0x10C03 then some .orkhonI
  else if isKhmerSubscript codePoint then some .subscript
  else none

/-- Marks that are ignored by default and do not break a ligature. -/
def isLigatureTransparent (codePoint : Nat) : Bool :=
  inRanges
    [(0x34F, 0x34F), (0x17B4, 0x17B5), (0x180B, 0x180D), (0x180F, 0x180F), (0xFE00, 0xFE0F),
      (0xE0100, 0xE01EF)]
    codePoint

/-- Code points that take no column and yet keep letters before and after them from joining. -/
def nonTransparentRanges : List (Nat × Nat) := [
   (0x605, 0x605), (0x890, 0x891), (0x8E2, 0x8E2), (0x9BE, 0x9BE), (0x9D7, 0x9D7), (0xB3E, 0xB3E),
   (0xB57, 0xB57), (0xBBE, 0xBBE), (0xBD7, 0xBD7), (0xCC0, 0xCC0), (0xCC2, 0xCC2), (0xCC7, 0xCC8),
   (0xCCA, 0xCCB), (0xCD5, 0xCD6), (0xD3E, 0xD3E), (0xD57, 0xD57), (0xDCF, 0xDCF), (0xDDF, 0xDDF),
   (0x1160, 0x11FF), (0x1715, 0x1715), (0x1734, 0x1734), (0x180E, 0x180E), (0x1B35, 0x1B35),
   (0x1B3B, 0x1B3B), (0x1B3D, 0x1B3D), (0x1B43, 0x1B44), (0x1BAA, 0x1BAA), (0x1BF2, 0x1BF3),
   (0x200C, 0x200D), (0x2065, 0x2069), (0x302E, 0x302F), (0x3164, 0x3164), (0xA8FA, 0xA8FA),
   (0xA953, 0xA953), (0xA9C0, 0xA9C0), (0xD7B0, 0xD7C6), (0xD7CB, 0xD7FB), (0xFFA0, 0xFFA0),
   (0xFFF0, 0xFFF8), (0x111C0, 0x111C0), (0x11235, 0x11235), (0x1133E, 0x1133E), (0x1134D, 0x1134D),
   (0x11357, 0x11357), (0x113B8, 0x113B8), (0x113C2, 0x113C2), (0x113C5, 0x113C5),
   (0x113C7, 0x113C9), (0x113CF, 0x113CF), (0x114B0, 0x114B0), (0x114BD, 0x114BD),
   (0x115AF, 0x115AF), (0x116B6, 0x116B6), (0x11930, 0x11930), (0x1193D, 0x1193D),
   (0x11F41, 0x11F41), (0x16FF0, 0x16FF1), (0x1D165, 0x1D166), (0x1D16D, 0x1D172),
   (0xE0000, 0xE0000), (0xE0002, 0xE001F), (0xE0080, 0xE00FF), (0xE01F0, 0xE0FFF)]

/-- Marks that Arabic letters join across. -/
def isJoiningTransparent (codePoint : Nat) : Bool :=
  charWidth codePoint == 0 && !inRanges nonTransparentRanges codePoint

/-- Columns that a character adds before the end of a ligature, which may have a joiner before it,
and how much of the ligature follows then. There are none if the character does not belong to it. -/
def Ligature.extend? (ligature : Ligature) (joined : Bool) (codePoint : Nat) :
    Option (Int × Option Ligature) :=
  match ligature with
  | .alef =>
    if isLam codePoint then some (0, none)
    else if isJoiningTransparent codePoint then some (0, some .alef)
    else none
  | .lamed => if joined && codePoint == 0x5D0 then some (0, none) else none
  | .ya => if joined && codePoint == 0x1A17 then some (0, some .vowelYa) else none
  | .vowelYa => if codePoint = 0x1A15 then some (0, none) else none
  | .consonant =>
    if codePoint = 0x2D7F then some (1, some .joinerConsonant)
    else if joined && isTifinaghConsonant codePoint then some (0, none)
    else none
  | .joinerConsonant => if isTifinaghConsonant codePoint then some (-1, none) else none
  | .toneLetter => if 0xA4F8 ≤ codePoint ∧ codePoint ≤ 0xA4FB then some (0, none) else none
  | .orkhonI => if joined && codePoint == 0x10C32 then some (0, none) else none
  | .subscript => if codePoint = 0x17D2 then some (-1, none) else none

end GroovyTidy.Text
