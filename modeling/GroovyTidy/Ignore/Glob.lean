import GroovyTidy.Text.Utf8

set_option autoImplicit false

/-!
Glob patterns for paths. They are matched byte by byte, and a wildcard for one or many bytes does
not match a slash.
-/
namespace GroovyTidy.Ignore

/-- A part of a pattern. -/
inductive Glob where
  | literal (c : Char)
  /-- One byte that is no slash. -/
  | any
  /-- Any number of bytes that are no slashes. -/
  | run
  /-- One byte inside some ranges, or outside of them. -/
  | oneOf (negated : Bool) (ranges : List (Char × Char))
  /-- Any directories before the rest, or none. -/
  | directoriesBefore
  /-- A slash, or slashes with any directories between them. -/
  | directoriesBetween
  /-- A slash and anything after it. -/
  | everythingBelow
  /-- One of several patterns. -/
  | choice (alternatives : List (List Glob))

namespace Glob

/-! ## Matching -/

def slash : UInt8 := 0x2F

/-- A list and all that follows its items. -/
def tails : List UInt8 → List (List UInt8)
  | [] => [[]]
  | byte :: rest => (byte :: rest) :: tails rest

def tailsWithinName : List UInt8 → List (List UInt8)
  | [] => [[]]
  | byte :: rest => (byte :: rest) :: if byte = slash then [] else tailsWithinName rest

def tailsAfterSlash : List UInt8 → List (List UInt8)
  | [] => []
  | byte :: rest => if byte = slash then rest :: tailsAfterSlash rest else tailsAfterSlash rest

def after : List UInt8 → List UInt8 → List (List UInt8)
  | [], path => [path]
  | _ :: _, [] => []
  | wanted :: more, byte :: rest => if wanted = byte then after more rest else []

/-- The ranges of bytes of a range of characters. -/
def byteRanges (range : Char × Char) : List (UInt8 × UInt8) :=
  let first := Text.toBytes range.1.toString
  let last := Text.toBytes range.2.toString
  if range.1 = range.2 then first.map fun byte => (byte, byte)
  else
    first.dropLast.map (fun byte => (byte, byte)) ++ [(first.getLast?.getD 0, last.head?.getD 0)] ++
      last.tail.map fun byte => (byte, byte)

def inRanges (ranges : List (Char × Char)) (byte : UInt8) : Bool :=
  (ranges.flatMap byteRanges).any fun range => range.1 ≤ byte && byte ≤ range.2

mutual

/-- What may follow a part of a pattern at the front of a path. -/
def ends (path : List UInt8) : Glob → List (List UInt8)
  | .literal c => after (Text.toBytes c.toString) path
  | .any =>
    match path with
    | byte :: rest => if byte = slash then [] else [rest]
    | [] => []
  | .run => tailsWithinName path
  | .oneOf negated ranges =>
    match path with
    | byte :: rest => if inRanges ranges byte != negated then [rest] else []
    | [] => []
  | .directoriesBefore => path :: tailsAfterSlash path
  | .directoriesBetween =>
    match path with
    | byte :: rest => if byte = slash then rest :: tailsAfterSlash rest else []
    | [] => []
  | .everythingBelow =>
    match path with
    | byte :: rest => if byte = slash then tails rest else []
    | [] => []
  | .choice alternatives => endsOfAny path alternatives

def endsOfAll (paths : List (List UInt8)) : List Glob → List (List UInt8)
  | [] => paths
  | part :: parts => endsOfAll (paths.flatMap fun path => ends path part).eraseDups parts

/-- What may follow one of several patterns. An empty one does not count. -/
def endsOfAny (path : List UInt8) : List (List Glob) → List (List UInt8)
  | [] => []
  | pattern :: patterns =>
    (if pattern.isEmpty then [] else endsOfAll [path] pattern) ++ endsOfAny path patterns

end

def isMatch (pattern : List Glob) (path : List UInt8) : Bool :=
  match pattern with
  | [.directoriesBefore] => true
  | _ => (endsOfAll [path] pattern).contains []

/-! ## Reading -/

/-- One of the patterns in braces that is being read, after those that are finished, or the pattern
outside of all braces. What was read last comes first. -/
structure Level where
  finished : List (List Glob)
  current : List Glob

/-- A pattern that is being read: its levels from the innermost outwards, and the last character. -/
structure Draft where
  inner : Level
  outer : List Level
  previous : Option Char

namespace Draft

def push (draft : Draft) (part : Glob) : Draft :=
  { draft with inner := { draft.inner with current := part :: draft.inner.current } }

def pop (draft : Draft) : Option Glob × Draft :=
  (draft.inner.current.head?,
    { draft with inner := { draft.inner with current := draft.inner.current.tail } })

def seen (draft : Draft) (c : Char) : Draft :=
  { draft with previous := some c }

def isNested (draft : Draft) : Bool :=
  !draft.outer.isEmpty

def openBrace (draft : Draft) : Draft :=
  { draft with inner := ⟨[], []⟩, outer := draft.inner :: draft.outer }

def closeBrace (draft : Draft) : Option Draft :=
  match draft.outer with
  | [] => none
  | level :: outer =>
    let choice := Glob.choice (draft.inner.current.reverse :: draft.inner.finished)
    some { draft with inner := { level with current := choice :: level.current }, outer }

/-- A comma between patterns in braces, or for itself outside. -/
def comma (draft : Draft) : Draft :=
  if draft.isNested then
    { draft with inner := ⟨draft.inner.current.reverse :: draft.inner.finished, []⟩ }
  else draft.push (.literal ',')

/-- Two stars that stand where one would do. -/
def plainStars (draft : Draft) : Draft :=
  (draft.push .run).push .run

/-- Puts the part for two stars after a slash in place of the slash. -/
def stars (draft : Draft) (part : Glob) : Draft :=
  match draft.pop with
  | (some .directoriesBefore, rest) => rest.push .directoriesBefore
  | (some .everythingBelow, rest) => rest.push .everythingBelow
  | (_, rest) => rest.push part

def starsBefore (draft : Draft) (rest : List Char) : Draft × List Char :=
  match rest with
  | [] => (draft.push .directoriesBefore, [])
  | '/' :: rest => ((draft.push .directoriesBefore).seen '/', rest)
  | rest => (draft.plainStars.seen '*', rest)

def starsAfterSlash (draft : Draft) (rest : List Char) : Draft × List Char :=
  match rest with
  | [] => (draft.stars .everythingBelow, [])
  | '/' :: rest => ((draft.stars .directoriesBetween).seen '/', rest)
  | c :: rest =>
    if draft.isNested && (c == ',' || c == '\x7d') then
      ((draft.stars .everythingBelow).seen '*', c :: rest)
    else (draft.plainStars.seen '*', c :: rest)

def star (draft : Draft) (rest : List Char) : Draft × List Char :=
  match rest with
  | '*' :: rest =>
    if draft.inner.current.isEmpty then draft.starsBefore rest
    else if draft.previous = some '/' then draft.starsAfterSlash rest
    else (draft.plainStars.seen '*', rest)
  | rest => ((draft.push .run).seen '*', rest)

end Draft

/-- The ranges of a class in brackets up to its end, with those found so far, the latest first. -/
def rangesFrom (first pending : Bool) (ranges : List (Char × Char)) :
    List Char → Option (List (Char × Char) × List Char)
  | [] => none
  | c :: rest =>
    if c = ']' ∧ !first then some (if pending then ('-', '-') :: ranges else ranges, rest)
    else if c = '-' ∧ !first ∧ !pending then rangesFrom false true ranges rest
    else if pending then
      match ranges with
      | (least, _) :: others =>
        if c < least then none else rangesFrom false false ((least, c) :: others) rest
      | [] => none
    else rangesFrom false false ((c, c) :: ranges) rest

/-- A class in brackets, after the opening one. -/
def classFrom (text : List Char) : Option (Glob × List Char) :=
  match text with
  | '!' :: rest | '^' :: rest =>
    (rangesFrom true false [] rest).map fun found => (.oneOf true found.1, found.2)
  | rest => (rangesFrom true false [] rest).map fun found => (.oneOf false found.1, found.2)

def readPart (draft : Draft) (c : Char) (rest : List Char) : Option (Draft × List Char) :=
  if c = '?' then some ((draft.push .any).seen c, rest)
  else if c = '*' then some (draft.star rest)
  else if c = '[' then (classFrom rest).map fun found => ((draft.push found.1).seen ']', found.2)
  else if c = '\x7b' then some (draft.openBrace.seen c, rest)
  else if c = '\x7d' then draft.closeBrace.map fun draft => (draft.seen c, rest)
  else if c = ',' then some (draft.comma.seen c, rest)
  else if c = '\\' then
    match rest with
    | [] => none
    | escaped :: rest => some ((draft.push (.literal escaped)).seen escaped, rest)
  else some ((draft.push (.literal c)).seen c, rest)

/-- Reads the parts of a pattern, of which there are less than a bound. -/
def readParts : Nat → Draft → List Char → Option Draft
  | _, draft, [] => some draft
  | 0, _, _ :: _ => none
  | bound + 1, draft, c :: rest =>
    (readPart draft c rest).bind fun (draft, rest) => readParts bound draft rest

/-- The pattern that a text stands for, if it is one. -/
def parse? (text : List Char) : Option (List Glob) :=
  match readParts text.length ⟨⟨[], []⟩, [], none⟩ text with
  | some draft => if draft.isNested then none else some draft.inner.current.reverse
  | none => none

end Glob

end GroovyTidy.Ignore
