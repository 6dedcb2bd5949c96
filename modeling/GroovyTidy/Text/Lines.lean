import GroovyTidy.Text.CodePoint

set_option autoImplicit false

/-!
Lines of a text. A line ends after a line feed, after a carriage return, or after the two together;
positions count lines and characters from one, offsets count bytes from zero.
-/
namespace GroovyTidy.Text

/-- The lines of a text with their ends; after a final line end an empty line follows. -/
def linesWithEnds : List Char → List (List Char)
  | [] => [[]]
  | '\n' :: rest => ['\n'] :: linesWithEnds rest
  | '\r' :: '\n' :: rest => ['\r', '\n'] :: linesWithEnds rest
  | '\r' :: rest => ['\r'] :: linesWithEnds rest
  | c :: rest =>
    match linesWithEnds rest with
    | [] => [[c]]
    | line :: lines => (c :: line) :: lines

/-- The lines of a text put together are the text. -/
theorem flatten_linesWithEnds (text : List Char) : (linesWithEnds text).flatten = text := by
  fun_induction linesWithEnds text <;> simp_all

/-- A line and the byte offset of its first character. -/
structure Line where
  start : Nat
  text : List Char
  deriving DecidableEq, Repr

/-- Numbers lines by the bytes before them. -/
def placeLines : Nat → List (List Char) → List Line
  | _, [] => []
  | start, text :: rest => ⟨start, text⟩ :: placeLines (start + byteLength text) rest

/-- The lines of a text, for finding positions in it. -/
structure LineIndex where
  lines : List Line
  size : Nat
  deriving DecidableEq, Repr

structure Position where
  line : Nat
  column : Nat
  deriving DecidableEq, Repr

/-- The number of characters that take exactly so many bytes, if a character ends there. -/
def charsInBytes? : List Char → Nat → Option Nat
  | _, 0 => some 0
  | [], _ + 1 => none
  | c :: rest, bytes =>
    if c.utf8Size ≤ bytes then (charsInBytes? rest (bytes - c.utf8Size)).map (· + 1) else none

namespace LineIndex

def ofText (text : List Char) : LineIndex where
  lines := placeLines 0 (linesWithEnds text)
  size := byteLength text

def starts (index : LineIndex) : List Nat :=
  index.lines.map Line.start

/-- The position of a byte offset. An offset past the end is taken as the end, and one inside a
character as the first column. -/
def locate (index : LineIndex) (offset : Nat) : Position :=
  let offset := min offset index.size
  let reached := index.lines.takeWhile fun line => line.start ≤ offset
  match reached.getLast? with
  | none => ⟨0, 1⟩
  | some line => ⟨reached.length, (charsInBytes? line.text (offset - line.start)).getD 0 + 1⟩

end LineIndex

/-- Cuts a text at every separator. -/
def splitAt (separator : Char) : List Char → List (List Char)
  | [] => [[]]
  | c :: rest =>
    if c = separator then [] :: splitAt separator rest
    else
      match splitAt separator rest with
      | [] => [[c]]
      | piece :: pieces => (c :: piece) :: pieces

theorem splitAt_ne_nil (separator : Char) (text : List Char) : splitAt separator text ≠ [] := by
  fun_cases splitAt separator text <;> simp_all

def dropFinalReturn (piece : List Char) : List Char :=
  if piece.getLast? = some '\r' then piece.dropLast else piece

/-- The pieces between line feeds, each without a carriage return right before its line feed; what
follows the last line feed counts only if it is not empty. -/
def feedLines (text : List Char) : List (List Char) :=
  let pieces := splitAt '\n' text
  pieces.dropLast.map dropFinalReturn ++ (pieces.getLast?.filter fun last => !last.isEmpty).toList

def excerptLines (text : List Char) : List (List Char) :=
  (feedLines text).flatMap (splitAt '\r')

def lineNumber (n : Nat) : String :=
  let digits := toString n
  String.ofList (List.replicate (3 - digits.length) ' ') ++ digits

def excerptRow (marked : Bool) (number : Nat) (line : List Char) : String :=
  (if marked then ">>" else "  ") ++ " " ++ lineNumber number ++ " | " ++ String.ofList line ++ "\n"

/-- The rows from two lines before a line to two lines after it, with a mark on the line itself.
With words of 64 bits the sum below is exact for lines up to `2 ^ 64 - 3`. -/
def excerpt (text : List Char) (line : Nat) : String :=
  let marked := line - 1
  let first := marked - 2
  let shown := ((excerptLines text).take (marked + 3)).drop first
  String.join (shown.mapIdx fun i row => excerptRow (first + i == marked) (first + i + 1) row)

end GroovyTidy.Text
