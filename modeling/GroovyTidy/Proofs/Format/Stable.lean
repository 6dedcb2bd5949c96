import GroovyTidy.Proofs.Format.Lossless
import GroovyTidy.Proofs.Format.Reread

set_option autoImplicit false

/-!
Formatting a text that was formatted without loss. The text is a script, so it is read as the same
package and the same commands, and printing them gives the script again.
-/
namespace GroovyTidy

open Lookahead Printer Rule

namespace Grammar

theorem filterMap_token (tokens : List Token) :
    (tokens.map Tree.token).filterMap Tree.node? = [] := by
  rw [List.filterMap_map, List.filterMap_eq_nil_iff]
  intro token _
  rfl

/-! ## Statements -/

/-- The tokens are read as a statement, whatever ends it, and it is printed as the line. -/
structure Rereads (inner : Inner) (segment : List Token) (line : Line) : Prop where
  opens : ∃ first others, segment = first :: others ∧ first.spelling.isSimple = true
  reads : ∀ rest, isBoundary (kindAt rest 0) = true → ∃ node : Node, node.kind.isStatement = true ∧
    Reads (statement inner) (segment ++ rest) [node.tree] rest ∧
      (print node).flat.toList = line.text

/-- What follows a statement ends it. -/
theorem boundary_of_apart {tokens : List Token}
    (apart : ∀ token ∈ tokens.head?, token.kind.isSeparator = true) :
    isBoundary (kindAt tokens 0) = true := by
  cases tokens with
  | nil => rfl
  | cons first others =>
    have separates : first.kind.isSeparator = true := apart first rfl
    exact Bool.or_eq_true_iff.mpr (.inl separates)

namespace Rereads

variable {inner : Inner} {segment : List Token} {line : Line} (rereads : Rereads inner segment line)
  (rest : List Token)
include rereads

theorem not_separator : starts TokenKind.isSeparator (segment ++ rest) = false := by
  obtain ⟨first, others, rfl, simple⟩ := rereads.opens
  exact Spelling.filled_of_isSimple simple

theorem startsWith_eq {word : TokenKind} (other : (word.isIdentifier || word.isLiteral) = false) :
    startsWith word (segment ++ rest) = false := by
  obtain ⟨first, others, rfl, simple⟩ := rereads.opens
  exact startsWith_of_isSimple simple other

end Rereads

section

variable {inner : Inner} {segments : List (List Token)} {lines : List Line}
  (known : List.Forall₂ (Rereads inner) segments lines) {tokens : List Token}
include known

theorem trimmed_not_separator (trimmed : Segments.Trimmed segments tokens) :
    starts TokenKind.isSeparator tokens = false := by
  cases trimmed with
  | nil => rfl
  | segment first apart rest =>
    cases known with
    | cons rereads later => exact rereads.not_separator _

/-- Where segments follow after separators, there are separators, or there is nothing. -/
theorem separators_of_apart (laid : Segments segments tokens)
    (apart : ∀ token ∈ tokens.head?, token.kind.isSeparator = true) :
    ∃ separated rest, tokens = separated ++ rest ∧
      (∀ token ∈ separated, token.kind.isSeparator = true) ∧
      Segments.Trimmed segments rest ∧ starts TokenKind.isSeparator rest = false ∧
      (separated = [] → rest = []) := by
  obtain ⟨separated, rest, rfl, all, trimmed⟩ := laid.trimmed
  have stops := trimmed_not_separator known trimmed
  refine ⟨separated, rest, rfl, all, trimmed, stops, ?_⟩
  rintro rfl
  cases rest with
  | nil => rfl
  | cons first others =>
    have separates : first.kind.isSeparator = true := apart first rfl
    exact Bool.noConfusion (stops.symm.trans separates)

end

/-- After a statement the others are read in rounds. -/
theorem statement_rounds {inner : Inner} {segments : List (List Token)} {lines : List Line}
    (known : List.Forall₂ (Rereads inner) segments lines) {tokens : List Token}
    (laid : Segments segments tokens)
    (apart : ∀ token ∈ tokens.head?, token.kind.isSeparator = true) :
    ∃ turns nodes, Rounds goesOnStatements (statementRound inner) tokens turns [] ∧
      turns.flatten.filterMap Tree.node? = nodes ∧ (∀ node ∈ nodes, node.kind.isStatement = true) ∧
      nodes.map (fun node => (print node).flat.toList) = lines.map Line.text := by
  induction known generalizing tokens with
  | nil =>
    obtain ⟨separated, rest, rfl, all, trimmed⟩ := laid.trimmed
    cases trimmed
    obtain ⟨turns, rounds, flat⟩ := separators_rounds all inner
    rw [List.append_nil]
    exact ⟨turns, [], rounds, by rw [flat, filterMap_token], by simp, rfl⟩
  | @cons segment line segments lines rereads known ih =>
    obtain ⟨separated, rest, rfl, all, trimmed, stops, filled⟩ :=
      separators_of_apart (.cons rereads known) laid apart
    cases trimmed with
    | @segment _ others _ apartOthers laidOthers =>
      have some : separated ≠ [] := by
        intro none
        obtain ⟨first, more, rfl, -⟩ := rereads.opens
        cases filled none
      have goes : goesOnStatements (segment ++ others) = true := by
        rw [goesOnStatements, rereads.startsWith_eq others rfl]
        rfl
      obtain ⟨node, statement, reads, text⟩ := rereads.reads others (boundary_of_apart apartOthers)
      obtain ⟨turns, nodes, rounds, found, statements, texts⟩ := ih laidOthers apartOthers
      have round : Reads (statementRound inner) (separated ++ (segment ++ others))
          (separated.map Tree.token ++ [node.tree]) others :=
        (separatorsAfter_reads all stops some).append (.when goes reads)
      refine ⟨_, node :: nodes,
        .turn (goesOnStatements_of_separators all some _) round ?_ rounds, ?_, ?_, ?_⟩
      · have length := List.length_pos_of_ne_nil some
        simp only [List.length_append]
        omega
      · rw [List.flatten_cons, List.filterMap_append, List.filterMap_append, filterMap_token, found]
        rfl
      · exact List.forall_mem_cons.mpr ⟨statement, statements⟩
      · rw [List.map_cons, List.map_cons, text, texts]

/-- Segments that are read as statements are read as a list of statements. -/
theorem statements_reads {inner : Inner} {segment : List Token} {segments : List (List Token)}
    {lines : List Line} (known : List.Forall₂ (Rereads inner) (segment :: segments) lines)
    {tokens : List Token} (apart : ∀ token ∈ tokens.head?, token.kind.isSeparator = true)
    (laid : Segments segments tokens) :
    ∃ below, Reads (statements inner .endOfInput) (segment ++ tokens) [.node .statements below] [] ∧
      (print ⟨.statements, below⟩).flat.toList = ['\n'].intercalate (lines.map Line.text) := by
  cases known with
  | @cons _ line _ lines rereads known =>
    obtain ⟨node, statement, reads, text⟩ := rereads.reads tokens (boundary_of_apart apart)
    obtain ⟨turns, nodes, rounds, found, statements, texts⟩ := statement_rounds known laid apart
    refine ⟨_, (reads.append rounds.manyWhile).node .statements, ?_⟩
    have children : ([node.tree] ++ turns.flatten).filterMap Tree.node? = node :: nodes := by
      rw [← found]
      rfl
    rw [print_statements children (List.forall_mem_cons.mpr ⟨statement, statements⟩), List.map_cons,
      List.map_cons, text, texts]

/-! ## Compilation units -/

/-- A package or none, as tokens and as a line. -/
inductive Packaged : List (List Token) → List Line → Prop where
  | none : Packaged [] []
  | some {segment : List Token} {names : List Spelling} (valid : (Line.package names).Valid)
      (full : (Line.package names).Full)
      (spelled : segment.map Token.spelling = (Line.package names).spellings) :
      Packaged [segment] [.package names]

section

variable {inner : Inner} {segments : List (List Token)} {lines : List Line}
  (known : List.Forall₂ (Rereads inner) segments lines) {tokens : List Token}
include known

/-- The statements of a unit, if there are any, are read up to its end. -/
theorem optional_statements_reads (trimmed : Segments.Trimmed segments tokens) :
    ∃ forest nodes,
      Reads (Rule.when goesOnStatements (statements inner .endOfInput)) tokens forest [] ∧
      forest.filterMap Tree.node? = nodes ∧ (∀ node ∈ nodes, node.kind = .statements) ∧
      ['\n'].intercalate (nodes.map fun node => (print node).flat.toList) =
        ['\n'].intercalate (lines.map Line.text) ∧ (nodes = [] ↔ lines = []) := by
  cases trimmed with
  | nil =>
    cases known
    exact ⟨[], [], when_reads_nothing rfl, rfl, by simp, rfl, by simp⟩
  | @segment segments others segment apart laid =>
    obtain ⟨below, reads, text⟩ := statements_reads known apart laid
    have goes : goesOnStatements (segment ++ others) = true := by
      cases known with
      | cons rereads later =>
        rw [goesOnStatements, rereads.startsWith_eq others rfl]
        rfl
    refine ⟨_, [⟨.statements, below⟩], reads.when goes, rfl, by simp, ?_, ?_⟩
    · rw [List.map_singleton, List.intercalate_singleton, text]
    · cases known
      simp

/-- The package of a unit, if there is one, is read with the separators after it. -/
theorem optional_package_reads {front : List (List Token)} {frontLines : List Line}
    (packaged : Packaged front frontLines) (trimmed : Segments.Trimmed (front ++ segments) tokens) :
    ∃ forest nodes rest,
      Reads (Rule.when (startsWith .packageWord) packageHead) tokens forest rest ∧
      Segments.Trimmed segments rest ∧ forest.filterMap Tree.node? = nodes ∧
      (∀ node ∈ nodes, node.kind = .packageDeclaration) ∧
      nodes.map (fun node => (print node).flat.toList) = frontLines.map Line.text := by
  cases packaged with
  | none =>
    have noPackage : startsWith .packageWord tokens = false := by
      cases trimmed with
      | nil => rfl
      | segment first apart laid =>
        cases known with
        | cons rereads later => exact rereads.startsWith_eq _ rfl
    exact ⟨[], [], tokens, when_reads_nothing noPackage, trimmed, rfl, by simp, rfl⟩
  | @some segment names valid full spelled =>
    cases trimmed with
    | @segment _ others _ apart laid =>
      obtain ⟨below, reads, text⟩ := package_reads valid full spelled (boundary_of_apart apart)
      obtain ⟨separated, rest, rfl, all, trimmed, stops, filled⟩ :=
        separators_of_apart known laid apart
      have package : startsWith .packageWord (segment ++ (separated ++ rest)) = true := by
        obtain ⟨word, tail, rfl, marked, -⟩ := List.map_eq_cons_iff.mp spelled
        exact beq_iff_eq.mpr (congrArg Prod.fst marked)
      have gap :
          Reads (lookingAhead fun ahead =>
            if startsWith .endOfInput ahead then nothing else separatorsAfter)
          (separated ++ rest) (separated.map Tree.token) rest := by
        refine .lookingAhead ?_
        by_cases none : separated = []
        · rw [none, filled none]
          exact nothing_reads []
        · have goes := goesOnStatements_of_separators all none rest
          rw [goesOnStatements, Bool.not_eq_true'] at goes
          rw [goes]
          exact separatorsAfter_reads all stops none
      refine ⟨_, [⟨.packageDeclaration, below⟩], rest, .when package (reads.append gap), trimmed,
        ?_, by simp, ?_⟩
      · rw [List.filterMap_append, filterMap_token]
        rfl
      · rw [List.map_singleton, List.map_singleton, text]

/-- A package and statements with separators around them are read as a unit, which is printed as the
script. -/
theorem unit_reads {front : List (List Token)} {frontLines : List Line}
    (packaged : Packaged front frontLines) (laid : Segments (front ++ segments) tokens) :
    ∃ body, Reads (separators ++ Rule.when (startsWith .packageWord) packageHead ++
        Rule.when goesOnStatements (statements inner .endOfInput)) tokens body [] ∧
      ∀ last, (print ⟨.compilationUnit, body ++ [.token last]⟩).flat.toList =
        Script.text (frontLines ++ lines) := by
  obtain ⟨separated, rest, rfl, all, trimmed⟩ := laid.trimmed
  have stops : starts TokenKind.isSeparator rest = false := by
    cases packaged with
    | none => exact trimmed_not_separator known trimmed
    | some valid full spelled =>
      cases trimmed with
      | segment first apart laid =>
        obtain ⟨word, tail, rfl, marked, -⟩ := List.map_eq_cons_iff.mp spelled
        have kind : word.kind = .packageWord := congrArg Prod.fst marked
        change word.kind.isSeparator = false
        rw [kind]
        rfl
  obtain ⟨head, packages, middle, headReads, trimmedMiddle, headNodes, headKinds, headTexts⟩ :=
    optional_package_reads known packaged trimmed
  obtain ⟨tail, lists, tailReads, tailNodes, tailKinds, tailTexts, tailEmpty⟩ :=
    optional_statements_reads known trimmedMiddle
  refine ⟨_, ((separators_reads all stops).append headReads).append tailReads, fun last => ?_⟩
  have nodes :
      (separated.map Tree.token ++ head ++ tail ++ [Tree.token last]).filterMap Tree.node? =
      packages ++ lists := by
    have ending : [Tree.token last].filterMap Tree.node? = [] := rfl
    simp only [List.filterMap_append, filterMap_token, headNodes, tailNodes, ending,
      List.nil_append, List.append_nil]
  exact print_unit_script nodes headKinds tailKinds headTexts tailTexts tailEmpty

end

/-- Tokens that are read as a unit, and then end. -/
theorem parseTokens_eq_of_reads {body : List Token} {last : Token} (ended : last.kind = .endOfInput)
    {trees : List Tree}
    (reads : Reads (separators ++ Rule.when (startsWith .packageWord) packageHead ++
      Rule.when goesOnStatements (statements (innerWithin (body.length + 1)) .endOfInput))
        body trees []) :
    ∃ final, parseTokens (body ++ [last]) = .ok ⟨.compilationUnit, trees ++ [.token final]⟩ := by
  have stream := (Reading.ofTokens_ended body ended).1
  obtain ⟨after, done, left⟩ := reads _ stream
  have next : after.stream.next.kind = .endOfInput := by
    rw [Reading.next_kind, left]
    rfl
  have accepted : Rule.token .endOfInput after =
      .ok [.token after.stream.next] { after with stream := after.stream.advance } :=
    accept_eq_ok.mpr ⟨beq_iff_eq.mpr next, rfl, rfl⟩
  have unit : compilationUnit (.ofTokens (body ++ [last])) =
      .ok [.node .compilationUnit (trees ++ [.token after.stream.next])]
        { after with stream := after.stream.advance } := by
    unfold compilationUnit lookingAhead
    rw [stream]
    exact node_eq_ok.mpr ⟨_, sequence_eq_ok.mpr ⟨_, _, _, done, accepted, rfl⟩, rfl⟩
  refine ⟨after.stream.next, ?_⟩
  simp only [parseTokens, readTokens, unit]
  rfl

end Grammar

/-! ## Scripts -/

theorem Token.separates_of_lineEnd {ending : Token} (ended : ending.spelling = Spelling.lineEnd) :
    ending.kind.isSeparator = true := by
  have kind : ending.kind = .newline := congrArg Prod.fst ended
  rw [kind]
  rfl

theorem Segments.segment_lineEnd {segments : List (List Token)} {segment rest : List Token}
    {ending : Token} (ended : ending.spelling = Spelling.lineEnd) (laid : Segments segments rest) :
    Segments (segment :: segments) (segment ++ ending :: rest) := by
  have separates := Token.separates_of_lineEnd ended
  exact .segment segment (by simpa using separates) (.separator separates laid)

/-- Tokens that are spelled like a script consist of a segment for each line. -/
theorem Script.segments {lines : List Line} {tokens : List Token}
    (spelled : tokens.map Token.spelling = spellings lines) :
    ∃ segments, Segments segments tokens ∧
      List.Forall₂ (fun segment line => segment.map Token.spelling = line.spellings)
        segments lines := by
  induction lines generalizing tokens with
  | nil =>
    obtain ⟨ending, rfl, ended⟩ := List.map_eq_singleton_iff.mp spelled
    exact ⟨[], .separator (Token.separates_of_lineEnd ended) .nil, .nil⟩
  | cons first others ih =>
    cases others with
    | nil =>
      rw [spellings, List.map_singleton, List.intercalate_singleton] at spelled
      obtain ⟨segment, back, rfl, here, ending⟩ := List.map_eq_append_iff.mp spelled
      obtain ⟨ending, rfl, ended⟩ := List.map_eq_singleton_iff.mp ending
      exact ⟨[segment], .segment_lineEnd ended .nil, .cons here .nil⟩
    | cons second others =>
      rw [spellings_cons] at spelled
      obtain ⟨segment, back, rfl, here, more⟩ := List.map_eq_append_iff.mp spelled
      obtain ⟨ending, tokens, rfl, ended, later⟩ := List.map_eq_cons_iff.mp more
      obtain ⟨segments, laid, known⟩ := ih later
      exact ⟨segment :: segments, .segment_lineEnd ended laid, .cons here known⟩

/-- The line is a command that can be read back. -/
def Line.IsCommand (line : Line) : Prop :=
  ∃ head arguments, line = .command head arguments ∧ line.Valid ∧ line.Full ∧
    Undeclared line.spellings

theorem Line.IsCommand.rereads {line : Line} (command : line.IsCommand) (bound : Nat)
    {segment : List Token} (spelled : segment.map Token.spelling = line.spellings) :
    Grammar.Rereads (Grammar.innerWithin (bound + 1)) segment line := by
  obtain ⟨head, arguments, rfl, valid, full, undeclared⟩ := command
  have nested : (Grammar.innerWithin (bound + 1)).expression =
      Grammar.expressionOver (Grammar.innerWithin bound) := rfl
  refine ⟨?_, fun rest ends => ?_⟩
  · obtain ⟨first, items, tail, rfl, rfl, -, -⟩ := Grammar.command_tokens full spelled
    exact ⟨first, tail, rfl, (valid.1 _ rfl).1⟩
  · obtain ⟨below, reads, text⟩ := Grammar.statement_reads nested valid full undeclared spelled ends
    exact ⟨⟨.expressionStatement, below⟩, rfl, reads, text⟩

/-- Segments that are spelled like the lines of a script, with any separators around them, are read
as a unit that is printed as the script. -/
theorem Segments.parseTokens_eq {segments : List (List Token)} {front back : List Line}
    {body : List Token} {last : Token} (ended : last.kind = .endOfInput)
    (laid : Segments segments body)
    (known : List.Forall₂ (fun segment line => segment.map Token.spelling = line.spellings) segments
      (front ++ back)) (package : front = [] ∨ ∃ names, front = [.package names])
    (fronts : ∀ line ∈ front, line.Valid ∧ line.Full) (commands : ∀ line ∈ back, line.IsCommand) :
    ∃ unit, parseTokens (body ++ [last]) = .ok unit ∧
      (print unit).flat.toList = Script.text (front ++ back) := by
  have frontKnown := List.forall₂_take_append _ _ _ known
  have backKnown := List.forall₂_drop_append _ _ _ known
  rw [← List.take_append_drop front.length segments] at laid
  have packaged : Grammar.Packaged (segments.take front.length) front := by
    rcases package with rfl | ⟨names, rfl⟩
    · exact .none
    · obtain ⟨valid, full⟩ := fronts _ (List.mem_singleton_self _)
      generalize segments.take _ = first at frontKnown
      cases frontKnown with
      | cons spelled rest =>
        cases rest
        exact .some valid full spelled
  have reread :
      List.Forall₂ (Grammar.Rereads (Grammar.innerWithin (body.length + 1)))
        (segments.drop front.length) back := by
    have each := (List.forall₂_and_left _ _).mpr ⟨commands, backKnown.flip⟩
    exact each.flip.imp fun segment line reread => reread.1.rereads _ reread.2
  obtain ⟨trees, reads, written⟩ := Grammar.unit_reads reread packaged laid
  obtain ⟨final, parsed⟩ := Grammar.parseTokens_eq_of_reads ended reads
  exact ⟨_, parsed, written final⟩

/-! ## Formatting again -/

/-- A command that shows the whole of its statement was no declaration. -/
theorem Portion.IsCommand.line {portion : Portion} (command : portion.IsCommand Production.decided)
    (valid : portion.line.Valid) (full : portion.line.Full)
    (same : portion.segment.map Token.spelling = portion.line.spellings) :
    portion.line.IsCommand := by
  obtain ⟨node, head, arguments, word, rfl, shown⟩ := command
  refine ⟨head, arguments, rfl, valid, full, ?_⟩
  obtain ⟨kind, children⟩ := node
  obtain rfl : kind = .expressionStatement := shown full.1
  rw [← same]
  have undeclared := word.2 children rfl
  simpa [Node.tree, Node.tokens, Tree.forestTokens, Tree.tokens] using undeclared

/-- A text that was written without loss is read as a unit that is printed as the same text. -/
theorem Formatted.reparse {source out : String} {body : List Token} {front back : List Portion}
    (formatted : Formatted source out body front back)
    (lossless : Format.groovy.isLossless source out = true) :
    ∃ unit, parse out = .ok unit ∧ (print unit).flat = out := by
  obtain ⟨tokens, lexed, spelled⟩ := formatted.reread
  obtain ⟨inside, last, rfl, ended, -, -⟩ := tokensFrom_legible lexed
  rw [List.map_append, List.map_singleton, ended, List.map_append] at spelled
  have complete := formatted.complete lossless
  have package : front.map Portion.line = [] ∨
      ∃ names, front.map Portion.line = [.package names] := by
    rcases formatted.portioned.package with rfl | ⟨segment, names, rfl⟩
    · exact .inl rfl
    · exact .inr ⟨names, rfl⟩
  have fronts : ∀ line ∈ front.map Portion.line, line.Valid ∧ line.Full := by
    intro line member
    obtain ⟨portion, found, rfl⟩ := List.mem_map.mp member
    have here := List.mem_append_left back found
    exact ⟨(formatted.portioned.sound portion here).valid, (complete portion here).1⟩
  have commands : ∀ line ∈ back.map Portion.line, line.IsCommand := by
    intro line member
    obtain ⟨portion, found, rfl⟩ := List.mem_map.mp member
    have here := List.mem_append_right front found
    obtain ⟨full, same⟩ := complete portion here
    exact (formatted.portioned.commands portion found).line
      (formatted.portioned.sound portion here).valid full same
  obtain ⟨segments, laid, known⟩ := Script.segments (List.append_inj' spelled rfl).1
  obtain ⟨unit, parsed, text⟩ :=
    laid.parseTokens_eq (congrArg Prod.fst ended) known package fronts commands
  refine ⟨unit, ?_, ?_⟩
  · rw [parse, lexed]
    exact parsed
  · rw [← List.map_append, ← formatted.portioned.text] at text
    exact String.toList_injective text

/-- To format a text again that was formatted without loss changes nothing. -/
theorem format_idempotent {options : LayoutOptions} {source out : String}
    (success : Format.groovy.format options source = .ok out)
    (lossless : Format.groovy.isLossless source out = true) :
    Format.groovy.format options out = .ok out := by
  obtain ⟨body, front, back, formatted⟩ := format_formatted success
  obtain ⟨unit, read, text⟩ := formatted.reparse lossless
  rw [format_of_parse read, text]

/-- A name in capitals stays a command where a literal follows it. -/
theorem format_idempotent_of_commands :
    Format.groovy.format {} "  foo   a ,'b';; println 1.5 ;\nBar true,c" =
      .ok "foo a, 'b'\nprintln 1.5\nBar true, c\n" ∧
    Format.groovy.isLossless "  foo   a ,'b';; println 1.5 ;\nBar true,c"
      "foo a, 'b'\nprintln 1.5\nBar true, c\n" = true ∧
    Format.groovy.format {} "foo a, 'b'\nprintln 1.5\nBar true, c\n" =
      .ok "foo a, 'b'\nprintln 1.5\nBar true, c\n" := by
  have success : Format.groovy.format {} "  foo   a ,'b';; println 1.5 ;\nBar true,c" =
      .ok "foo a, 'b'\nprintln 1.5\nBar true, c\n" := by
    decide +kernel
  have lossless : Format.groovy.isLossless "  foo   a ,'b';; println 1.5 ;\nBar true,c"
      "foo a, 'b'\nprintln 1.5\nBar true, c\n" = true := by
    decide +kernel
  exact ⟨success, lossless, format_idempotent success lossless⟩

end GroovyTidy
