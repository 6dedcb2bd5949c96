import GroovyTidy.Proofs.Token.Spelling

set_option autoImplicit false

/-!
Scripts: what the formatter writes. A script consists of lines, and each line is a package or a
command. A command has a cell for its expression and for each of its arguments; a cell holds a name
or a literal, or nothing where the formatter does not know how to write what stood there.
-/
namespace GroovyTidy

open Text

namespace Spelling

def lineEnd : Spelling := (.newline, "\n")

def comma : Spelling := (.comma, ",")

def dot : Spelling := (.dot, ".")

def package : Spelling := (.packageWord, "package")

/-- The characters that keep names and literals apart: blanks, separators of statements, and the
comma. -/
def gaps : List Char :=
  [' ', '\t', '\x0c', ';', '\n', '\r', ',']

/-- Names and literals can be written without delimiters. -/
def isSimple (spelling : Spelling) : Bool :=
  spelling.1.isIdentifier || spelling.1.isLiteral

/-- A blank, a separator or a comma never goes on with a name or a literal. -/
theorem goesOn_of_isSimple {spelling : Spelling} (simple : spelling.isSimple = true) {c : Char}
    (gap : c ∈ gaps) : spelling.1.goesOn spelling.2.toList c = false := by
  obtain ⟨kind, text⟩ := spelling
  simp only [gaps, List.mem_cons, List.not_mem_nil, or_false] at gap
  cases kind with
  | identifier | capitalizedIdentifier =>
    rcases gap with rfl | rfl | rfl | rfl | rfl | rfl | rfl <;> rfl
  | literal form => cases form <;> rcases gap with rfl | rfl | rfl | rfl | rfl | rfl | rfl <;> rfl
  | _ => cases simple

theorem goesOn_dot {spelling : Spelling} (name : spelling.1.isIdentifier = true) :
    spelling.1.goesOn spelling.2.toList '.' = false := by
  obtain ⟨kind, text⟩ := spelling
  cases kind with
  | identifier | capitalizedIdentifier => rfl
  | _ => cases name

theorem openAfter_of_isSimple {spelling : Spelling} (simple : spelling.isSimple = true)
    (opened : List Delimiter) : openAfter opened spelling.1 = opened := by
  obtain ⟨kind, text⟩ := spelling
  cases kind with
  | opening | closing => cases simple
  | _ => rfl

theorem ne_newline_of_isSimple {spelling : Spelling} (simple : spelling.isSimple = true) :
    spelling.1 ≠ .newline := by
  intro line
  simp [isSimple, line, TokenKind.isIdentifier, TokenKind.isLiteral] at simple

theorem filled_of_isSimple {spelling : Spelling} (simple : spelling.isSimple = true) :
    spelling.1.isSeparator = false := by
  obtain ⟨kind, text⟩ := spelling
  cases kind with
  | newline | semicolon => cases simple
  | _ => rfl

theorem lineEnd_legible : lineEnd.Legible :=
  ⟨'\n', [], rfl, .lineEnd rfl rfl⟩

theorem comma_legible : comma.Legible :=
  ⟨',', [], rfl, .punctuation _ _ rfl⟩

theorem dot_legible : dot.Legible :=
  ⟨'.', [], rfl, .punctuation _ _ rfl⟩

theorem package_legible : package.Legible := by
  have word : Lexeme.TokenAt true 'p' "ackage".toList _ _ := .word rfl
  have length : Lexeme.wordLength ('p' :: "ackage".toList) = ('p' :: "ackage".toList).length := by
    decide
  rw [length, List.take_length] at word
  exact ⟨'p', "ackage".toList, rfl, word⟩

end Spelling

/-- A name or a literal, or nothing where something else stood. -/
abbrev Cell := Option Spelling

def Cell.text (cell : Cell) : List Char :=
  cell.elim [] fun spelling => spelling.2.toList

/-- What is in a cell can be written there. -/
def Cell.Valid (cell : Cell) : Prop :=
  ∀ spelling ∈ cell, spelling.isSimple = true ∧ spelling.Legible

/-- A line of a script. -/
inductive Line where
  | package (names : List Spelling)
  | command (head : Cell) (arguments : List Cell)

namespace Line

/-- Arguments with a space before them and commas between them. -/
def argumentsText (arguments : List Cell) : List Char :=
  if arguments.isEmpty then [] else ' ' :: [',', ' '].intercalate (arguments.map Cell.text)

def text : Line → List Char
  | .package names =>
    "package".toList ++ ' ' :: ['.'].intercalate (names.map fun name => name.2.toList)
  | .command head arguments => head.text ++ argumentsText arguments

def spellings : Line → List Spelling
  | .package names => Spelling.package :: [Spelling.dot].intercalate (names.map fun name => [name])
  | .command head arguments =>
    head.toList ++ [Spelling.comma].intercalate (arguments.map Option.toList)

theorem text_package (names : List Spelling) :
    (package names).text =
      "package".toList ++ ' ' :: ['.'].intercalate (names.map fun name => name.2.toList) :=
  rfl

theorem text_command (head : Cell) (arguments : List Cell) :
    (command head arguments).text = head.text ++ argumentsText arguments :=
  rfl

theorem argumentsText_cons (first : Cell) (others : List Cell) :
    argumentsText (first :: others) =
      ' ' :: [',', ' '].intercalate ((first :: others).map Cell.text) :=
  rfl

theorem spellings_command (head : Cell) (arguments : List Cell) :
    (command head arguments).spellings =
      head.toList ++ [Spelling.comma].intercalate (arguments.map Option.toList) :=
  rfl

/-- All that the line holds can be written on it. -/
def Valid : Line → Prop
  | .package names => ∀ name ∈ names, name.1.isIdentifier = true ∧ name.Legible
  | .command head arguments => head.Valid ∧ ∀ cell ∈ arguments, cell.Valid

/-- No cell of the line is empty. -/
def Full : Line → Prop
  | .package names => names ≠ []
  | .command head arguments => head.isSome = true ∧ ∀ cell ∈ arguments, cell.isSome = true

end Line

namespace Script

def text (lines : List Line) : List Char :=
  ['\n'].intercalate (lines.map Line.text) ++ ['\n']

def spellings (lines : List Line) : List Spelling :=
  [Spelling.lineEnd].intercalate (lines.map Line.spellings) ++ [Spelling.lineEnd]

end Script

/-! ## Reading a script back -/

/-- The text ends, or it starts with a character that keeps names and literals apart. -/
def StartsWithGap (text : List Char) : Prop :=
  ∀ c ∈ text.head?, c ∈ Spelling.gaps

theorem startsWithGap_cons {c : Char} (gap : c ∈ Spelling.gaps) (rest : List Char) :
    StartsWithGap (c :: rest) := by
  rintro _ ⟨⟩
  exact gap

section

variable {tail : List Char} {rest : List Spelling}

theorem Spelling.lineEnd_written (more : Written [] tail rest) :
    Written [] ('\n' :: tail) (lineEnd :: rest) :=
  .token lineEnd_legible (fun _ _ => rfl) (fun _ => rfl) more

theorem Spelling.comma_written (more : Written [] tail rest) :
    Written [] (',' :: tail) (comma :: rest) :=
  .token comma_legible (fun _ _ => rfl) (fun _ => rfl) more

theorem Spelling.dot_written (more : Written [] tail rest) :
    Written [] ('.' :: tail) (dot :: rest) :=
  .token dot_legible (fun _ _ => rfl) (fun _ => rfl) more

theorem Spelling.package_written (more : Written [] tail rest) :
    Written [] ("package".toList ++ ' ' :: tail) (package :: rest) := by
  refine .token package_legible ?_ (fun _ => rfl) (.blank rfl more)
  rintro c ⟨⟩
  rfl

theorem Written.space (more : Written [] tail rest) : Written [] (' ' :: tail) rest :=
  .blank rfl more

theorem Spelling.simple_written {spelling : Spelling} (simple : spelling.isSimple = true)
    (legible : spelling.Legible) (stops : stopsAt (spelling.1.goesOn spelling.2.toList) tail)
    (more : Written [] tail rest) : Written [] (spelling.2.toList ++ tail) (spelling :: rest) := by
  refine .token legible stops (fun line => absurd line (ne_newline_of_isSimple simple)) ?_
  rwa [openAfter_of_isSimple simple]

theorem Cell.Valid.written {cell : Cell} (valid : cell.Valid) (gap : StartsWithGap tail)
    (more : Written [] tail rest) : Written [] (cell.text ++ tail) (cell.toList ++ rest) := by
  cases cell with
  | none => exact more
  | some spelling =>
    obtain ⟨simple, legible⟩ := valid spelling rfl
    exact Spelling.simple_written simple legible
      (fun c first => Spelling.goesOn_of_isSimple simple (gap c first)) more

/-- Cells with commas between them. -/
theorem arguments_written {arguments : List Cell} (valid : ∀ cell ∈ arguments, cell.Valid)
    (gap : StartsWithGap tail) (more : Written [] tail rest) :
    Written [] ([',', ' '].intercalate (arguments.map Cell.text) ++ tail)
      ([Spelling.comma].intercalate (arguments.map Option.toList) ++ rest) := by
  induction arguments with
  | nil => exact more
  | cons first others ih =>
    obtain ⟨here, later⟩ := List.forall_mem_cons.mp valid
    cases others with
    | nil =>
      simp only [List.map_cons, List.map_nil, List.intercalate_singleton]
      exact here.written gap more
    | cons second others =>
      have back := Spelling.comma_written (ih later).space
      have front := here.written (startsWithGap_cons (by decide) _) back
      simpa only [List.map_cons, List.intercalate_cons_cons, List.append_assoc, List.cons_append,
        List.nil_append] using front

/-- Names with dots between them. -/
theorem names_written {names : List Spelling}
    (valid : ∀ name ∈ names, name.1.isIdentifier = true ∧ name.Legible) (gap : StartsWithGap tail)
    (more : Written [] tail rest) :
    Written [] (['.'].intercalate (names.map fun name => name.2.toList) ++ tail)
      ([Spelling.dot].intercalate (names.map fun name => [name]) ++ rest) := by
  induction names with
  | nil => exact more
  | cons first others ih =>
    obtain ⟨here, later⟩ := List.forall_mem_cons.mp valid
    have simple : first.isSimple = true := by
      simp [Spelling.isSimple, here.1]
    have cell : Cell.Valid (some first) := by
      rintro found ⟨⟩
      exact ⟨simple, here.2⟩
    cases others with
    | nil =>
      simp only [List.map_cons, List.map_nil, List.intercalate_singleton]
      exact cell.written gap more
    | cons second others =>
      have back := Spelling.dot_written (ih later)
      have front := Spelling.simple_written simple here.2 (by
        rintro d ⟨⟩
        exact Spelling.goesOn_dot here.1) back
      simpa only [List.map_cons, List.intercalate_cons_cons, List.append_assoc, List.cons_append,
        List.nil_append] using front

theorem Line.Valid.written {line : Line} (valid : line.Valid) (more : Written [] tail rest) :
    Written [] (line.text ++ '\n' :: tail) (line.spellings ++ Spelling.lineEnd :: rest) := by
  have ended := Spelling.lineEnd_written more
  have gap : StartsWithGap ('\n' :: tail) := startsWithGap_cons (by decide) tail
  cases line with
  | package names =>
    have front := Spelling.package_written (names_written valid gap ended)
    rwa [← List.cons_append, ← List.append_assoc] at front
  | command head arguments =>
    obtain ⟨validHead, validArguments⟩ := valid
    rw [text_command, spellings_command, List.append_assoc, List.append_assoc]
    cases arguments with
    | nil => exact validHead.written gap ended
    | cons first others =>
      have back := (arguments_written validArguments gap ended).space
      rw [argumentsText_cons, List.cons_append]
      exact validHead.written (startsWithGap_cons (by decide) _) back

end

theorem Script.text_cons (first second : Line) (lines : List Line) :
    text (first :: second :: lines) = first.text ++ '\n' :: text (second :: lines) := by
  simp only [text, List.map_cons, List.intercalate_cons_cons, List.append_assoc, List.cons_append,
    List.nil_append]

/-- Each line of a script ends with a line feed. -/
theorem Script.text_eq_flatMap {lines : List Line} (filled : lines ≠ []) :
    text lines = lines.flatMap fun line => line.text ++ ['\n'] := by
  induction lines with
  | nil => exact absurd rfl filled
  | cons first others ih =>
    cases others with
    | nil => simp [text]
    | cons second others =>
      rw [text_cons, ih (by simp)]
      simp only [List.flatMap_cons, List.append_assoc, List.singleton_append]

theorem Script.spellings_cons (first second : Line) (lines : List Line) :
    spellings (first :: second :: lines) =
      first.spellings ++ Spelling.lineEnd :: spellings (second :: lines) := by
  simp only [spellings, List.map_cons, List.intercalate_cons_cons, List.append_assoc,
    List.cons_append, List.nil_append]

/-- A script is read back as its spellings. -/
theorem Script.written {lines : List Line} (valid : ∀ line ∈ lines, line.Valid) :
    Written [] (text lines) (spellings lines) := by
  induction lines with
  | nil => exact Spelling.lineEnd_written (.nil [])
  | cons first others ih =>
    obtain ⟨here, later⟩ := List.forall_mem_cons.mp valid
    cases others with
    | nil =>
      simp only [text, spellings, List.map_cons, List.map_nil, List.intercalate_singleton]
      exact here.written (.nil [])
    | cons second others =>
      rw [text_cons, spellings_cons]
      exact here.written (ih later)

end GroovyTidy
