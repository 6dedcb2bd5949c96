import GroovyTidy.Proofs.Format.Layout
import GroovyTidy.Proofs.Format.Stable
import GroovyTidy.Proofs.Token.Joined

set_option autoImplicit false

/-!
Commands as they may be typed: with blanks around their parts, and with separators and blanks around
them. Formatting tidies them. Each command gets a line of its own, with a space before its arguments
and one after each comma.
-/
namespace GroovyTidy

open Text Printer

namespace Typed

def blanks : List Char :=
  [' ', '\t', '\x0c']

def separators : List Char :=
  [';', '\n', '\r']

/-- A text of blanks. -/
structure Gap where
  text : List Char
  blank : ∀ c ∈ text, c ∈ blanks

/-- A text of blanks and separators. -/
structure Spread where
  text : List Char
  loose : ∀ c ∈ text, c ∈ blanks ++ separators

/-- What stands between two commands. -/
structure Break extends Spread where
  divides : ∃ c ∈ text, c ∈ separators

/-- A character that may start a word, and others that may go on with it. -/
def isWord : List Char → Bool
  | [] => false
  | c :: rest => isIdentifierStart c.toNat && rest.all fun d => isIdentifierPart d.toNat

/-- A word that is a name, but not one in capitals. -/
structure Head where
  text : String
  word : isWord text.toList = true
  name : TokenKind.ofWord text = .identifier

/-- A name or a literal that is read from its text alone. -/
structure Operand where
  spelling : Spelling
  alone : (tokenize spelling.2).toOption.map (List.map Token.spelling) =
    some [spelling, (.endOfInput, "")]
  simple : spelling.isSimple = true

def Operand.text (operand : Operand) : List Char :=
  operand.spelling.2.toList

/-- An operand after a comma. -/
structure Follower where
  before : Gap
  after : Gap
  operand : Operand

structure Arguments where
  gap : Gap
  filled : gap.text ≠ []
  first : Operand
  others : List Follower

structure Command where
  head : Head
  arguments : Option Arguments

/-- Some commands, with what stands around them. -/
structure Commands where
  before : Spread
  first : Command
  others : List (Break × Command)
  after : Spread

/-! ## Texts -/

def Follower.text (follower : Follower) : List Char :=
  follower.before.text ++ ',' :: (follower.after.text ++ follower.operand.text)

def Arguments.text (arguments : Arguments) : List Char :=
  arguments.gap.text ++ (arguments.first.text ++ arguments.others.flatMap Follower.text)

namespace Command

def text (command : Command) : List Char :=
  command.head.text.toList ++ command.arguments.elim [] Arguments.text

def operands (command : Command) : List Operand :=
  command.arguments.elim [] fun arguments =>
    arguments.first :: arguments.others.map Follower.operand

/-- The head, and the operands with a space before them and commas between them. -/
def tidy (command : Command) : List Char :=
  command.head.text.toList ++
    if command.operands.isEmpty then []
    else ' ' :: [',', ' '].intercalate (command.operands.map Operand.text)

end Command

namespace Commands

/-- The commands with all that stands around them. -/
def source (commands : Commands) : String :=
  String.ofList (commands.before.text ++ (commands.first.text ++
    (commands.others.flatMap (fun other => other.1.text ++ other.2.text) ++ commands.after.text)))

def all (commands : Commands) : List Command :=
  commands.first :: commands.others.map Prod.snd

/-- The commands on lines of their own. -/
def tidy (commands : Commands) : String :=
  String.ofList (commands.all.flatMap fun command => command.tidy ++ ['\n'])

end Commands

/-! ## Names and literals in such texts -/

theorem Operand.legible (operand : Operand) : operand.spelling.Legible := by
  obtain ⟨tokens, read, spelled⟩ :=
    tokenize_of_spellingsFrom ((spellingsFrom_tokenize _).trans operand.alone)
  obtain ⟨body, last, rfl, -, legible, -⟩ := tokensFrom_legible read
  rw [List.map_append, List.map_singleton] at spelled
  have single : body.map Token.spelling = [operand.spelling] :=
    (List.append_inj' (spelled.trans (List.singleton_append.symm)) rfl).1
  obtain ⟨token, rfl, same⟩ := List.map_eq_singleton_iff.mp single
  rw [← same]
  exact legible token (List.mem_singleton_self token)

theorem Operand.valid (operand : Operand) : Cell.Valid (some operand.spelling) := by
  rintro _ ⟨⟩
  exact ⟨operand.simple, operand.legible⟩

theorem isOwnLowerCase_of_le {c : Char} (least : 0x5F ≤ c.toNat) (most : c.toNat ≤ 0x7A) :
    isOwnLowerCase c = true := by
  have outside : ∀ run ∈ loweredRuns, run.2.1 < 0x5F ∨ 0x7A < run.1 := by decide +kernel
  rw [isOwnLowerCase, Bool.not_eq_true', List.any_eq_false]
  intro run member
  have := outside run member
  simp only [Bool.and_eq_true, decide_eq_true_eq, beq_iff_eq]
  omega

theorem not_capital_of_ofWord {word : String} (name : TokenKind.ofWord word = .identifier) :
    (word.toList.head?.any fun c => isCapital c.toNat) = false := by
  unfold TokenKind.ofWord at name
  repeat' split at name
  any_goals (cases name; done)
  rename_i small
  exact Bool.eq_false_of_not_eq_true small

namespace Head

variable (head : Head)

def spelling : Spelling :=
  (.identifier, head.text)

theorem shape : ∃ c rest, head.text.toList = c :: rest ∧ isIdentifierStart c.toNat = true ∧
    ∀ d ∈ rest, isIdentifierPart d.toNat = true := by
  have word := head.word
  cases shape : head.text.toList with
  | nil =>
    rw [shape] at word
    cases word
  | cons c rest =>
    rw [shape, isWord, Bool.and_eq_true, List.all_eq_true] at word
    exact ⟨c, rest, rfl, word⟩

theorem legible : head.spelling.Legible := by
  obtain ⟨c, rest, shape, started, parts⟩ := head.shape
  have found : Lexeme.TokenAt true c rest _ _ := .word started
  have whole : Lexeme.wordLength (c :: rest) = (c :: rest).length := by
    have all : (rest ++ []).takeWhile (fun d => isIdentifierPart d.toNat) = rest ++ [] :=
      List.takeWhile_append_of_pos parts
    rw [List.append_nil] at all
    rw [Lexeme.wordLength_cons started, Lexeme.wordLength, Number.runLength, all, List.length_cons]
  rw [whole, List.take_length, ← shape, String.ofList_toList, head.name] at found
  exact ⟨c, rest, shape, shape ▸ found⟩

theorem valid : Cell.Valid (some head.spelling) := by
  rintro _ ⟨⟩
  exact ⟨rfl, head.legible⟩

/-- The first letter of a head is its own lower case. -/
theorem lower : head.text.toList.head?.any isOwnLowerCase = true := by
  obtain ⟨c, rest, shape, started, -⟩ := head.shape
  have small := not_capital_of_ofWord head.name
  rw [shape] at small ⊢
  simp only [List.head?_cons, Option.any_some, isCapital, isIdentifierStart, isLetter,
    Bool.or_eq_true, Bool.and_eq_true, Bool.and_eq_false_iff, decide_eq_true_eq,
    decide_eq_false_iff_not, beq_iff_eq] at small started ⊢
  exact isOwnLowerCase_of_le (by omega) (by omega)

end Head

/-! ## Separators in such texts -/

/-- The separators among blanks. A line feed right after a carriage return belongs to it. -/
def marks : List Char → List Spelling
  | [] => []
  | '\r' :: '\n' :: rest => (.newline, "\r\n") :: marks rest
  | '\r' :: rest => (.newline, "\r") :: marks rest
  | '\n' :: rest => (.newline, "\n") :: marks rest
  | ';' :: rest => (.semicolon, ";") :: marks rest
  | _ :: rest => marks rest

theorem separates_of_mem_marks {text : List Char} {spelling : Spelling}
    (member : spelling ∈ marks text) : spelling.1.isSeparator = true := by
  fun_induction marks text with
  | case1 => cases member
  | case2 rest ih | case3 rest _ ih | case4 rest ih | case5 rest ih =>
    rcases List.mem_cons.mp member with rfl | later
    · rfl
    · exact ih later
  | case6 c rest _ _ _ _ ih => exact ih member

theorem marks_ne_nil {text : List Char} (divides : ∃ c ∈ text, c ∈ separators) :
    marks text ≠ [] := by
  fun_induction marks text with
  | case1 => simp at divides
  | case2 | case3 | case4 | case5 => simp
  | case6 c rest _ noReturn noFeed noSemicolon ih =>
    have other : c ∉ separators := by
      simp only [separators, List.mem_cons, List.not_mem_nil, or_false, not_or]
      exact ⟨noSemicolon, noFeed, noReturn⟩
    simp only [List.mem_cons, exists_eq_or_imp, other, false_or] at divides
    exact ih divides

/-- Blanks and separators are read as the separators, unless a line feed follows that belongs to the
last one. -/
theorem loose_written {text : List Char} (loose : ∀ c ∈ text, c ∈ blanks ++ separators)
    {tail : List Char} {rest : List Spelling} (apart : stopsAt (· == '\n') tail)
    (more : Written [] tail rest) : Written [] (text ++ tail) (marks text ++ rest) := by
  fun_induction marks text with
  | case1 => exact more
  | case2 others ih =>
    have pair : Spelling.Legible (.newline, "\r\n") := ⟨'\r', ['\n'], rfl, .lineEnd rfl rfl⟩
    obtain ⟨-, later⟩ := List.forall_mem_cons.mp loose
    exact .token pair (fun _ _ => rfl) (fun _ => rfl) (ih (List.forall_mem_cons.mp later).2)
  | case3 others single ih =>
    have carriage : Spelling.Legible (.newline, "\r") := ⟨'\r', [], rfl, .lineEnd rfl rfl⟩
    refine .token carriage ?_ (fun _ => rfl) (ih (List.forall_mem_cons.mp loose).2)
    -- The line feed that would belong to it is neither among the others nor does it follow them.
    intro d first
    have other : (d == '\n') = false := by
      cases others with
      | nil => exact apart d first
      | cons next others =>
        cases first
        exact beq_eq_false_iff_ne.mpr fun feed => single others (feed ▸ rfl)
    exact other
  | case4 others ih => exact Spelling.lineEnd_written (ih (List.forall_mem_cons.mp loose).2)
  | case5 others ih =>
    have semicolon : Spelling.Legible (.semicolon, ";") := ⟨';', [], rfl, .punctuation _ _ rfl⟩
    exact .token semicolon (fun _ _ => rfl) (fun line => nomatch line)
      (ih (List.forall_mem_cons.mp loose).2)
  | case6 c others _ noReturn noFeed noSemicolon ih =>
    obtain ⟨here, later⟩ := List.forall_mem_cons.mp loose
    refine .blank ?_ (ih later)
    simp only [blanks, separators, List.mem_append, List.mem_cons, List.not_mem_nil, or_false]
      at here
    rcases here with (rfl | rfl | rfl) | (known | known | known)
    · rfl
    · rfl
    · rfl
    · exact absurd known noSemicolon
    · exact absurd known noFeed
    · exact absurd known noReturn

/-! ## Commands in such texts -/

theorem intercalate_cons {α : Type} (separator first : List α) (others : List (List α)) :
    separator.intercalate (first :: others) = first ++ others.flatMap (separator ++ ·) := by
  induction others generalizing first with
  | nil => simp
  | cons second others ih =>
    rw [List.intercalate_cons_cons, ih, List.flatMap_cons, List.append_assoc, List.append_assoc]

theorem startsWithGap_of_ne_nil {text : List Char} (filled : text ≠ [])
    (gaps : ∀ c ∈ text, c ∈ Spelling.gaps) (tail : List Char) : StartsWithGap (text ++ tail) := by
  obtain ⟨c, rest, rfl⟩ := List.exists_cons_of_ne_nil filled
  exact startsWithGap_cons (gaps c List.mem_cons_self) _

theorem startsWithGap_append {text tail : List Char} (gaps : ∀ c ∈ text, c ∈ Spelling.gaps)
    (gap : StartsWithGap tail) : StartsWithGap (text ++ tail) := by
  by_cases filled : text = []
  · rwa [filled]
  · exact startsWithGap_of_ne_nil filled gaps tail

theorem mem_gaps_of_loose {c : Char} (loose : c ∈ blanks ++ separators) : c ∈ Spelling.gaps := by
  simp only [blanks, separators, List.cons_append, List.nil_append, List.mem_cons, List.not_mem_nil,
    or_false] at loose
  rcases loose with rfl | rfl | rfl | rfl | rfl | rfl <;> decide

theorem mem_gaps_of_blank {c : Char} (blank : c ∈ blanks) : c ∈ Spelling.gaps :=
  mem_gaps_of_loose (List.mem_append_left _ blank)

section

variable {tail : List Char} {rest : List Spelling}

theorem blanks_written {text : List Char} (blank : ∀ c ∈ text, c ∈ blanks)
    (more : Written [] tail rest) : Written [] (text ++ tail) rest := by
  induction text with
  | nil => exact more
  | cons c text ih =>
    obtain ⟨here, later⟩ := List.forall_mem_cons.mp blank
    refine .blank ?_ (ih later)
    simp only [blanks, List.mem_cons, List.not_mem_nil, or_false] at here
    rcases here with rfl | rfl | rfl <;> rfl

theorem Operand.written (operand : Operand) (gap : StartsWithGap tail)
    (more : Written [] tail rest) : Written [] (operand.text ++ tail) (operand.spelling :: rest) :=
  operand.valid.written gap more

theorem Head.written (head : Head) (gap : StartsWithGap tail) (more : Written [] tail rest) :
    Written [] (head.text.toList ++ tail) (head.spelling :: rest) :=
  head.valid.written gap more

theorem followers_gap (followers : List Follower) (gap : StartsWithGap tail) :
    StartsWithGap (followers.flatMap Follower.text ++ tail) := by
  cases followers with
  | nil => exact gap
  | cons first others =>
    rw [List.flatMap_cons, Follower.text, List.append_assoc, List.append_assoc]
    exact startsWithGap_append (fun c member => mem_gaps_of_blank (first.before.blank c member))
      (startsWithGap_cons (by decide) _)

theorem followers_written (followers : List Follower) (gap : StartsWithGap tail)
    (more : Written [] tail rest) :
    Written [] (followers.flatMap Follower.text ++ tail)
      (followers.flatMap (fun follower => [Spelling.comma, follower.operand.spelling]) ++
        rest) := by
  induction followers with
  | nil => exact more
  | cons first others ih =>
    have operand := first.operand.written (followers_gap others gap) ih
    have comma := Spelling.comma_written (blanks_written first.after.blank operand)
    have front := blanks_written first.before.blank comma
    simpa only [List.flatMap_cons, Follower.text, List.append_assoc, List.cons_append,
      List.nil_append] using front

namespace Command

/-- The line that the formatter writes for a command. -/
def line (command : Command) : Line :=
  .command (some command.head.spelling) (command.operands.map fun operand => some operand.spelling)

theorem text_line (command : Command) : command.line.text = command.tidy := by
  rw [line, Line.text_command, Line.argumentsText, tidy, List.isEmpty_map, List.map_map]
  rfl

theorem spellings_line (command : Command) :
    command.line.spellings = command.head.spelling :: command.arguments.elim [] fun arguments =>
      arguments.first.spelling ::
        arguments.others.flatMap fun follower => [Spelling.comma, follower.operand.spelling] := by
  obtain ⟨head, arguments⟩ := command
  cases arguments with
  | none => rfl
  | some arguments =>
    rw [line, Line.spellings_command, List.map_map]
    change head.spelling :: [Spelling.comma].intercalate ([arguments.first.spelling] ::
      (arguments.others.map Follower.operand).map fun operand => [operand.spelling]) = _
    rw [intercalate_cons, List.flatMap_map, List.flatMap_map]
    rfl

theorem written (command : Command) (gap : StartsWithGap tail) (more : Written [] tail rest) :
    Written [] (command.text ++ tail) (command.line.spellings ++ rest) := by
  rw [spellings_line]
  obtain ⟨head, arguments⟩ := command
  cases arguments with
  | none =>
    simpa only [text, Option.elim_none, List.append_nil, List.singleton_append]
      using head.written gap more
  | some arguments =>
    have operands := arguments.first.written (followers_gap arguments.others gap)
      (followers_written arguments.others gap more)
    have gaps : ∀ c ∈ arguments.gap.text, c ∈ Spelling.gaps :=
      fun c member => mem_gaps_of_blank (arguments.gap.blank c member)
    have front := head.written (startsWithGap_of_ne_nil arguments.filled gaps _)
      (blanks_written arguments.gap.blank operands)
    simpa only [text, Arguments.text, Option.elim_some, List.append_assoc, List.cons_append]
      using front

theorem isCommand (command : Command) : command.line.IsCommand := by
  refine ⟨_, _, rfl, ⟨?_, ?_⟩, ⟨rfl, ?_⟩, ?_⟩
  · exact command.head.valid
  · intro cell member
    obtain ⟨operand, -, rfl⟩ := List.mem_map.mp member
    exact operand.valid
  · intro cell member
    obtain ⟨operand, -, rfl⟩ := List.mem_map.mp member
    rfl
  · intro first second others shape _ _ _
    rw [spellings_line] at shape
    obtain ⟨rfl, -⟩ := List.cons.inj shape
    exact command.head.lower

theorem text_stops (command : Command) (tail : List Char) :
    stopsAt (· == '\n') (command.text ++ tail) := by
  obtain ⟨c, rest, shape, started, -⟩ := command.head.shape
  rw [text, shape]
  rintro _ ⟨⟩
  refine beq_eq_false_iff_ne.mpr ?_
  rintro rfl
  cases started

end Command

end

/-! ## Commands one after another -/

/-- The text after the first command. -/
def tailText (others : List (Break × Command)) (after : Spread) : List Char :=
  others.flatMap (fun other => other.1.text ++ other.2.text) ++ after.text

/-- The spellings after those of the first command. -/
def tailSpellings (others : List (Break × Command)) (after : Spread) : List Spelling :=
  others.flatMap (fun other => marks other.1.text ++ other.2.line.spellings) ++ marks after.text

theorem filter_of_loose {text : List Char} (loose : ∀ c ∈ text, c ∈ blanks ++ separators) :
    text.filter isSignificant = [] := by
  have none : (blanks ++ separators).all (fun c => !isSignificant c) = true := by decide
  rw [List.filter_eq_nil_iff]
  intro c member
  simpa using List.all_eq_true.mp none c (loose c member)

theorem Gap.filter_eq (gap : Gap) : gap.text.filter isSignificant = [] :=
  filter_of_loose fun c member => List.mem_append_left _ (gap.blank c member)

/-- A tidy command shows what was typed. -/
theorem Command.significant_eq (command : Command) :
    command.text.filter isSignificant = command.tidy.filter isSignificant := by
  have space : isSignificant ' ' = false := by decide
  obtain ⟨head, arguments⟩ := command
  cases arguments with
  | none => rfl
  | some arguments =>
    have followers (follower : Follower) :
        follower.text.filter isSignificant =
          ([',', ' '] ++ follower.operand.text).filter isSignificant := by
      simp [Follower.text, List.filter_append, List.filter_cons, Gap.filter_eq, space]
    have tidied : tidy ⟨head, some arguments⟩ = head.text.toList ++ ' ' :: (arguments.first.text ++
        arguments.others.flatMap fun follower => [',', ' '] ++ follower.operand.text) := by
      change head.text.toList ++ ' ' :: [',', ' '].intercalate (arguments.first.text ::
        (arguments.others.map Follower.operand).map Operand.text) = _
      rw [intercalate_cons, List.flatMap_map, List.flatMap_map]
    rw [tidied, text, Option.elim_some, Arguments.text]
    simp only [List.filter_append, List.filter_cons_of_neg, List.filter_flatMap, followers,
      Gap.filter_eq, space, Bool.false_eq_true, not_false_eq_true, List.nil_append]

section

variable (others : List (Break × Command)) (after : Spread)

theorem tailText_gap : StartsWithGap (tailText others after) := by
  cases others with
  | nil =>
    intro c first
    exact mem_gaps_of_loose (after.loose c (List.mem_of_mem_head? first))
  | cons first others =>
    obtain ⟨c, member, -⟩ := first.1.divides
    rw [tailText, List.flatMap_cons, List.append_assoc, List.append_assoc]
    exact startsWithGap_of_ne_nil (List.ne_nil_of_mem member)
      (fun c member => mem_gaps_of_loose (first.1.loose c member)) _

theorem tailText_written : Written [] (tailText others after) (tailSpellings others after) := by
  induction others with
  | nil =>
    have ended : stopsAt (· == '\n') [] := fun _ first => nomatch first
    have alone := loose_written after.loose ended (.nil [])
    rwa [List.append_nil, List.append_nil] at alone
  | cons first others ih =>
    have command := first.2.written (tailText_gap others after) ih
    have front := loose_written first.1.loose (first.2.text_stops _) command
    simpa only [tailText, tailSpellings, List.flatMap_cons, List.append_assoc] using front

theorem separates_of_marks {text : List Char} {tokens : List Token}
    (spelled : tokens.map Token.spelling = marks text) :
    ∀ token ∈ tokens, token.kind.isSeparator = true := by
  intro token member
  have marked : token.spelling ∈ marks text := spelled ▸ List.mem_map_of_mem member
  exact separates_of_mem_marks marked

/-- The tokens after the first command are the other commands with separators before and after
them. -/
theorem tail_segments {tokens : List Token}
    (spelled : tokens.map Token.spelling = tailSpellings others after) :
    (∀ token ∈ tokens.head?, token.kind.isSeparator = true) ∧
      ∃ segments, Segments segments tokens ∧
        List.Forall₂ (fun segment line => segment.map Token.spelling = line.spellings) segments
          (others.map fun other => other.2.line) := by
  induction others generalizing tokens with
  | nil =>
    have all := separates_of_marks spelled
    exact ⟨fun token first => all token (List.mem_of_mem_head? first), [], .of_separators all, .nil⟩
  | cons first others ih =>
    rw [tailSpellings, List.flatMap_cons, List.append_assoc, List.append_assoc] at spelled
    obtain ⟨front, back, rfl, marked, more⟩ := List.map_eq_append_iff.mp spelled
    obtain ⟨segment, rest, rfl, here, later⟩ := List.map_eq_append_iff.mp more
    obtain ⟨apart, segments, laid, known⟩ := ih later
    have all := separates_of_marks marked
    have filled : front ≠ [] := by
      rintro rfl
      exact marks_ne_nil first.1.divides marked.symm
    refine ⟨?_, segment :: segments, .separators_append all (.segment segment apart laid),
      .cons here known⟩
    intro token member
    rw [List.head?_append_of_ne_nil _ filled] at member
    exact all token (List.mem_of_mem_head? member)

end

namespace Commands

variable (commands : Commands)

theorem toList_source : commands.source.toList =
    commands.before.text ++ (commands.first.text ++ tailText commands.others commands.after) :=
  String.toList_ofList

theorem written : Written [] commands.source.toList (marks commands.before.text ++
    (commands.first.line.spellings ++ tailSpellings commands.others commands.after)) := by
  rw [toList_source]
  exact loose_written commands.before.loose (commands.first.text_stops _)
    (commands.first.written (tailText_gap _ _) (tailText_written _ _))

theorem text_lines :
    String.ofList (Script.text (commands.all.map Command.line)) = commands.tidy := by
  rw [tidy, Script.text_eq_flatMap (by simp [all]), List.flatMap_map]
  simp only [Command.text_line]

/-- The commands are read as a unit that is printed with a line for each of them. -/
theorem parse_source :
    ∃ unit, parse commands.source = .ok unit ∧ (print unit).flat = commands.tidy := by
  obtain ⟨tokens, read, spelled⟩ :=
    commands.written.tokensFrom (.ofText commands.source.toList) 0 0 (Nat.zero_le _)
  obtain ⟨body, last, rfl, ended, -, -⟩ := tokensFrom_legible read
  rw [List.map_append, List.map_singleton, ended] at spelled
  obtain ⟨front, back, rfl, marked, more⟩ :=
    List.map_eq_append_iff.mp (List.append_inj' spelled rfl).1
  obtain ⟨segment, rest, rfl, here, later⟩ := List.map_eq_append_iff.mp more
  obtain ⟨apart, segments, laid, known⟩ := tail_segments _ _ later
  have all := Segments.separators_append (separates_of_marks marked) (.segment segment apart laid)
  have lines :
      List.Forall₂ (fun segment line => segment.map Token.spelling = line.spellings)
        (segment :: segments)
      ([] ++ commands.all.map Command.line) := by
    rw [List.nil_append, Commands.all, List.map_cons, List.map_map]
    exact .cons here known
  have each : ∀ line ∈ commands.all.map Command.line, line.IsCommand := by
    intro line member
    obtain ⟨command, -, rfl⟩ := List.mem_map.mp member
    exact command.isCommand
  obtain ⟨unit, parsed, text⟩ :=
    all.parseTokens_eq (congrArg Prod.fst ended) lines (.inl rfl) nofun each
  refine ⟨unit, (parse_of_tokenize read).trans parsed, ?_⟩
  rw [← commands.text_lines, ← List.nil_append (List.map _ _), ← text, String.ofList_toList]

/-- Tidy commands show what was typed. -/
theorem significant_eq :
    commands.source.toList.filter isSignificant = commands.tidy.toList.filter isSignificant := by
  have line (command : Command) :
      (command.tidy ++ ['\n']).filter isSignificant = command.text.filter isSignificant := by
    rw [List.filter_append, command.significant_eq]
    exact List.append_nil _
  have apart (other : Break × Command) :
      (other.1.text ++ other.2.text).filter isSignificant = other.2.text.filter isSignificant := by
    rw [List.filter_append, filter_of_loose other.1.loose, List.nil_append]
  calc commands.source.toList.filter isSignificant
    _ = commands.first.text.filter isSignificant ++
        commands.others.flatMap fun other => other.2.text.filter isSignificant := by
      rw [toList_source, tailText, List.filter_append, List.filter_append, List.filter_append,
        List.filter_flatMap, filter_of_loose commands.before.loose,
        filter_of_loose commands.after.loose, List.nil_append, List.append_nil]
      simp only [apart]
    _ = commands.tidy.toList.filter isSignificant := by
      rw [tidy, all, String.toList_ofList, List.filter_flatMap, List.flatMap_cons, List.flatMap_map]
      simp only [line]

end Commands

end Typed

/-- Commands are formatted however they are typed: each is written on a line of its own, with its
operands as they are, and all that shows is kept. -/
theorem format_commands (commands : Typed.Commands) (options : LayoutOptions) :
    Format.groovy.format options commands.source = .ok commands.tidy ∧
      Format.groovy.isLossless commands.source commands.tidy = true := by
  obtain ⟨unit, parsed, text⟩ := commands.parse_source
  constructor
  · rw [format_of_parse parsed, text]
  · change (Format.significantInGroovy _ == Format.significantInGroovy _) = true
    rw [significantInGroovy_eq, significantInGroovy_eq, commands.significant_eq]
    exact beq_self_eq_true _

/-- A capitalized operand makes no declaration of a command, and a literal keeps its lines. -/
theorem format_commands_of_literal :
    ∃ commands : Typed.Commands, commands.source = ";\n foo \tA ,'''x;\n y'''\r\n; \rprintln" ∧
      commands.tidy = "foo A, '''x;\n y'''\nprintln\n" ∧
      Format.groovy.format {} commands.source = .ok commands.tidy := by
  let block : Typed.Operand := ⟨(.literal .string, "'''x;\n y'''"), by decide +kernel, rfl⟩
  let command : Typed.Command :=
    { head := ⟨"foo", by decide +kernel, by decide +kernel⟩
      arguments := some
        { gap := ⟨[' ', '\t'], by simp [Typed.blanks]⟩
          filled := by decide
          first := ⟨(.capitalizedIdentifier, "A"), by decide +kernel, rfl⟩
          others := [⟨⟨[' '], by simp [Typed.blanks]⟩, ⟨[], by simp⟩, block⟩] } }
  let between : Typed.Break :=
    ⟨⟨['\r', '\n', ';', ' ', '\r'], by simp [Typed.blanks, Typed.separators]⟩,
      by simp [Typed.separators]⟩
  let commands : Typed.Commands :=
    { before := ⟨[';', '\n', ' '], by simp [Typed.blanks, Typed.separators]⟩
      first := command
      others := [(between, ⟨⟨"println", by decide +kernel, by decide +kernel⟩, none⟩)]
      after := ⟨[], by simp⟩ }
  exact ⟨commands, by decide +kernel, by decide +kernel, (format_commands commands {}).1⟩

end GroovyTidy
