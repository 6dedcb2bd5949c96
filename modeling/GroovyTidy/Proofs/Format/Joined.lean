import GroovyTidy.Proofs.Format.Layout
import GroovyTidy.Proofs.Token.Joined
import GroovyTidy.Proofs.Tree.Joined

set_option autoImplicit false

/-!
Statements are formatted independently of each other. A unit is written part by part, its package
and each of its statements on lines of their own, so two sources with an empty line between them are
formatted to the text of the first one and then that of the second one.
-/
namespace GroovyTidy

open Grammar Printer Production

/-! ## Line ends that are spelled differently -/

namespace Spelling

theorem Similar.fst_eq {left right : Spelling} (similar : Similar left right) :
    left.1 = right.1 := by
  rcases similar with rfl | ⟨newline, otherNewline⟩
  · rfl
  · rw [newline, otherNewline]

theorem Similar.separates_eq {left right : Spelling} (similar : Similar left right) :
    left.separates = right.separates := by
  rw [separates, separates, similar.fst_eq]

theorem Similar.eq_of_filled {left right : Spelling} (similar : Similar left right)
    (filled : left.separates = false) : left = right := by
  rcases similar with same | ⟨newline, -⟩
  · exact same
  · rw [separates, newline] at filled
    cases filled

theorem merged_congr {left right : List Spelling} (similar : List.Forall₂ Similar left right) :
    merged left = merged right := by
  induction similar with
  | nil => rfl
  | @cons first other rest otherRest here later ih =>
    have next : (rest.head?.all fun next => next.separates || next.1 == .endOfInput) =
        otherRest.head?.all fun next => next.separates || next.1 == .endOfInput := by
      cases later with
      | nil => rfl
      | cons similar _ =>
        simp only [List.head?_cons, Option.all_some]
        rw [similar.separates_eq, similar.fst_eq]
    rw [merged, merged, ← here.separates_eq, next, ih]
    cases filled : first.separates with
    | false => rw [here.eq_of_filled filled]
    | true => rfl

theorem collapsed_congr {left right : List Spelling} (similar : List.Forall₂ Similar left right) :
    collapsed left = collapsed right := by
  unfold collapsed
  induction similar with
  | nil => rfl
  | @cons first other rest otherRest here later ih =>
    rw [List.dropWhile_cons, List.dropWhile_cons, ← here.separates_eq]
    cases first.separates with
    | true => exact ih
    | false => exact merged_congr (.cons here later)

end Spelling

/-! ## The text of a unit -/

theorem front_parts {front : List Tree} (word : front = [] ∨ front ∈ nodeOf .packageDeclaration) :
    front.filterMap Tree.node? = Tree.forestParts front ∧
      ∀ node ∈ Tree.forestParts front, node.kind = .packageDeclaration := by
  rcases word with rfl | declared
  · exact ⟨rfl, by simp [Tree.forestParts]⟩
  · obtain ⟨below, rfl⟩ := mem_nodeOf.mp declared
    simp [Tree.forestParts, Tree.node?]

/-- The statements of a unit are written as its list of statements is. -/
theorem tail_parts {tail : List Tree} (word : tail = [] ∨ tail ∈ nodeOf .statements)
    (conforms : ∀ tree ∈ tail, tree.Conforms) :
    (∀ node ∈ tail.filterMap Tree.node?, node.kind = .statements) ∧
      ['\n'].intercalate ((tail.filterMap Tree.node?).map fun node => (print node).flat.toList) =
        ['\n'].intercalate ((Tree.forestParts tail).map fun node => (print node).flat.toList) ∧
      (tail.filterMap Tree.node? = [] ↔ Tree.forestParts tail = []) := by
  rcases word with rfl | stated
  · simp [Tree.forestParts]
  · obtain ⟨children, rfl⟩ := mem_nodeOf.mp stated
    have listed := (conforms _ (List.mem_singleton_self _)).word
    obtain ⟨nodes, some, found, known, -⟩ := statementRun_segments le_rfl listed
    have statements : ∀ node ∈ nodes, node.kind.isStatement = true := by
      intro node member
      obtain ⟨kind, below, statement, shape⟩ := known node member
      cases shape
      exact statement
    rw [Tree.forestParts_statements, found]
    refine ⟨by simp [Tree.node?], ?_, by simp [Tree.node?, some]⟩
    rw [← print_statements found statements]
    simp [Tree.node?]

/-- A unit is written part by part. -/
theorem print_parts {children : List Tree}
    (conforms : (Tree.node .compilationUnit children).Conforms) :
    (print ⟨.compilationUnit, children⟩).flat =
      "\n".intercalate ((Tree.forestParts children).map fun part => (print part).flat) ++ "\n" := by
  obtain ⟨body, bodyWord, ending, endingWord, rfl⟩ := Language.mem_mul.mp conforms.word
  obtain ⟨last, -, rfl⟩ := mem_leaf.mp endingWord
  obtain ⟨lead, front, gap, tail, rfl, leadWord, gapWord, frontWord, tailWord, -⟩ :=
    unitBody_parts bodyWord
  obtain ⟨noLead, -⟩ := separators_forest leadWord
  obtain ⟨noGap, -⟩ := separators_forest gapWord
  obtain ⟨packages, packageKinds⟩ := front_parts frontWord
  obtain ⟨listKinds, listText, listEmpty⟩ :=
    tail_parts tailWord fun tree member => conforms.children tree (by simp [member])
  have nodes : (lead ++ (front ++ (gap ++ tail)) ++ [Tree.token last]).filterMap Tree.node? =
      Tree.forestParts front ++ tail.filterMap Tree.node? := by
    simp [List.filterMap_append, noLead, noGap, packages, Tree.node?]
  have parts : Tree.forestParts (lead ++ (front ++ (gap ++ tail)) ++ [Tree.token last]) =
      Tree.forestParts front ++ Tree.forestParts tail := by
    have none : ∀ {forest : List Tree}, forest.filterMap Tree.node? = [] →
        Tree.forestParts forest = [] := by
      intro forest empty
      rw [Tree.forestParts, empty]
      rfl
    have ended : Tree.forestParts [Tree.token last] = [] := Tree.forestParts_tokens [last]
    simp only [Tree.forestParts_append, none noLead, none noGap, ended, List.nil_append,
      List.append_nil]
  have known : ∀ node ∈ Tree.forestParts front ++ tail.filterMap Tree.node?,
      node.kind = .packageDeclaration ∨ node.kind = .statements := by
    intro node member
    rcases List.mem_append.mp member with package | list
    · exact .inl (packageKinds node package)
    · exact .inr (listKinds node list)
  apply String.toList_inj.mp
  rw [print_unit nodes known, parts, List.map_append,
    intercalate_append_congr listText (by simpa only [List.map_eq_nil_iff] using listEmpty),
    ← List.map_append, String.toList_append, String.toList_intercalate, List.map_map]
  rfl

theorem print_of_parseTokens {tokens : List Token} {unit : Node}
    (parsed : parseTokens tokens = .ok unit) :
    (print unit).flat =
      "\n".intercalate (unit.parts.map fun part => (print part).flat) ++ "\n" := by
  obtain ⟨kind, conforms⟩ := parseTokens_conforms parsed
  obtain ⟨kind, children⟩ := unit
  subst kind
  exact print_parts conforms

/-- A unit with the parts of two others is written as the first and then the second of them. -/
theorem print_of_parts_append {tokens front back : List Token} {joined unit otherUnit : Node}
    (whole : parseTokens tokens = .ok joined) (first : parseTokens front = .ok unit)
    (second : parseTokens back = .ok otherUnit)
    (parts : joined.parts = unit.parts ++ otherUnit.parts) (some : unit.parts ≠ [])
    (otherSome : otherUnit.parts ≠ []) :
    (print joined).flat = (print unit).flat ++ (print otherUnit).flat := by
  rw [print_of_parseTokens whole, print_of_parseTokens first, print_of_parseTokens second, parts,
    List.map_append,
    String.intercalate_append_of_ne_nil (by simpa using some) (by simpa using otherSome)]
  simp only [String.append_assoc]

/-! ## Units with parts -/

theorem exists_block_of_count {unit : Node} (some : 0 < unit.statementCount) :
    ∃ block ∈ unit.childNodes, block.kind = .statements ∧ block.childNodes ≠ [] := by
  by_contra none
  push Not at none
  have each : ∀ block ∈ unit.childNodes.filter (fun child => child.kind = .statements),
      block.childNodes = [] := by
    intro block member
    obtain ⟨inside, kind⟩ := List.mem_filter.mp member
    exact none block inside (of_decide_eq_true kind)
  rw [Node.statementCount] at some
  generalize unit.childNodes.filter (fun child => child.kind = .statements) = blocks at some each
  induction blocks with
  | nil => exact absurd some (Nat.lt_irrefl 0)
  | cons block blocks ih =>
    obtain ⟨here, later⟩ := List.forall_mem_cons.mp each
    rw [List.foldr_cons, here, List.length_nil, Nat.zero_add] at some
    exact ih some later

theorem Node.parts_ne_nil {unit : Node}
    (some : (∃ child ∈ unit.childNodes, child.kind = .packageDeclaration) ∨
      0 < unit.statementCount) :
    unit.parts ≠ [] := by
  have part : ∃ part, part ∈ unit.parts := by
    rcases some with ⟨child, member, package⟩ | count
    · exact ⟨child, List.mem_flatMap.mpr ⟨child, member, by simp [package]⟩⟩
    · obtain ⟨block, member, kind, filled⟩ := exists_block_of_count count
      obtain ⟨statement, inside⟩ := List.exists_mem_of_ne_nil _ filled
      exact ⟨statement, List.mem_flatMap.mpr ⟨block, member, by simp [kind, inside]⟩⟩
  obtain ⟨part, member⟩ := part
  exact List.ne_nil_of_mem member

/-! ## Two sources -/

/-- The tokens of a source that has a tree, before the end of input. -/
theorem body_of_parse {source : String} {unit : Node} (read : parse source = .ok unit) :
    ∃ body last, tokenize source = .ok (body ++ [last]) ∧ last.spelling = (.endOfInput, "") ∧
      (∀ token ∈ body, token.kind ≠ .endOfInput) ∧ trulyOpen? [] body = some [] ∧
      parseTokens (body ++ [last]) = .ok unit := by
  obtain ⟨tokens, lexed, parsed⟩ := parse_eq_ok read
  have kept : unit.tokens = tokens := by
    rw [tokens_of_parseTokens parsed, throughEnd_of_tokenize lexed]
  have nested := (nested_of_parseTokens parsed).trulyOpen?_eq []
  obtain ⟨body, last, rfl, ended, legible, -⟩ := tokensFrom_legible lexed
  refine ⟨body, last, lexed, ended,
    fun token member => (legible token member).kind_ne_endOfInput, ?_, parsed⟩
  rw [kept, trulyOpen?_append] at nested
  obtain ⟨opened, before, after⟩ := Option.bind_eq_some_iff.mp nested
  have neither : last.kind = .endOfInput := congrArg Prod.fst ended
  rw [trulyOpen?, trulyOpenAfter?_other (by rw [neither]; rfl), Option.bind_some, trulyOpen?]
    at after
  rw [before, after]

/-- A source has the tree of tokens that are spelled alike, up to separators and places. -/
theorem parse_of_similar {source : String} {tokens body : List Token} {last : Token} {unit : Node}
    (lexed : tokenize source = .ok tokens) (ended : last.spelling = (.endOfInput, ""))
    (filled : ∀ token ∈ body, token.kind ≠ .endOfInput)
    (similar : List.Forall₂ Spelling.Similar (tokens.map Token.spelling)
      ((body ++ [last]).map Token.spelling))
    (parsed : parseTokens (body ++ [last]) = .ok unit) :
    ∃ similarUnit, parse source = .ok similarUnit ∧ print similarUnit = print unit := by
  obtain ⟨front, final, rfl, finalEnded, legible, -⟩ := tokensFrom_legible lexed
  have collapsed := Spelling.collapsed_congr similar
  rw [List.map_append, List.map_append, List.map_singleton, List.map_singleton, finalEnded, ended]
    at collapsed
  have frontFilled : ∀ token ∈ front, token.kind ≠ .endOfInput := fun token member =>
    (legible token member).kind_ne_endOfInput
  rcases parseTokens_agrees finalEnded ended frontFilled filled collapsed with
    ⟨_, error, -, refused⟩ | ⟨similarUnit, otherUnit, given, otherGiven, stripped⟩
  · rw [parsed] at refused
    cases refused
  · obtain rfl : unit = otherUnit := Except.ok.inj (parsed.symm.trans otherGiven)
    refine ⟨similarUnit, (parse_of_tokenize lexed).trans given, ?_⟩
    rw [← print_stripped (parseTokens_conforms given).2,
      ← print_stripped (parseTokens_conforms parsed).2, stripped]

/-- The text of two sources with an empty line between them is the text of the first one and then
that of the second one. -/
theorem format_joined {options : LayoutOptions} {source other out otherOut : String}
    {unit otherUnit : Node} (success : Format.groovy.format options source = .ok out)
    (read : parse source = .ok unit)
    (some : (∃ child ∈ unit.childNodes, child.kind = .packageDeclaration) ∨ 0 < unit.statementCount)
    (otherSuccess : Format.groovy.format options other = .ok otherOut)
    (otherRead : parse other = .ok otherUnit) (otherSome : 0 < otherUnit.statementCount)
    (plain : ∀ child ∈ otherUnit.childNodes, child.kind ≠ .packageDeclaration)
    (noMark : ¬ ['\ufeff'] <+: other.toList) (noLine : ¬ ['#', '!'] <+: other.toList) :
    Format.groovy.format options (source ++ "\n\n" ++ other) = .ok (out ++ otherOut) := by
  obtain ⟨body, last, lexed, ended, filled, nested, parsed⟩ := body_of_parse read
  obtain ⟨otherBody, otherLast, otherLexed, otherEnded, otherFilled, otherNested, otherParsed⟩ :=
    body_of_parse otherRead
  have closed := closed_of_trulyOpen? nested filled
  have otherClosed := closed_of_trulyOpen? otherNested otherFilled
  have marked : other.toList.head? ≠ Option.some '\ufeff' := by
    intro mark
    obtain ⟨rest, shape⟩ := List.head?_eq_some_iff.mp mark
    exact noMark ⟨rest, shape.symm⟩
  have lined : other.toList.take 2 ≠ ['#', '!'] :=
    fun line => noLine (List.prefix_iff_eq_take.mpr line.symm)
  obtain ⟨front, gap, back, joinedLexed, similar, apart, newlines, spelled⟩ :=
    tokenize_joined lexed (openAfterAll_of_trulyOpen? nested) otherLexed marked lined
  have separates : ∀ token ∈ gap, token.kind.isSeparator = true := by
    intro token member
    rw [newlines token member]
    rfl
  have someParts := Node.parts_ne_nil some
  have otherParts := Node.parts_ne_nil (.inr otherSome)
  obtain ⟨joined, joinedParsed, parts⟩ :=
    parseTokens_joined (congrArg Prod.fst ended) filled closed parsed someParts separates apart
      (congrArg Prod.fst otherEnded) otherFilled otherClosed otherParsed otherParts plain
  have spelledAlike : List.Forall₂ Spelling.Similar ((front ++ (gap ++ back)).map Token.spelling)
      ((body ++ (gap ++ otherBody) ++ [otherLast]).map Token.spelling) := by
    rw [List.append_assoc, List.append_assoc, List.map_append, List.map_append, List.map_append,
      List.map_append, spelled]
    exact List.rel_append similar (List.forall₂_same.mpr fun _ _ => .inl rfl)
  have joinedFilled : ∀ token ∈ body ++ (gap ++ otherBody), token.kind ≠ .endOfInput := by
    intro token member
    simp only [List.mem_append] at member
    rcases member with inFront | inGap | inBack
    · exact filled token inFront
    · simp [newlines token inGap]
    · exact otherFilled token inBack
  obtain ⟨written, writtenRead, same⟩ :=
    parse_of_similar joinedLexed otherEnded joinedFilled spelledAlike joinedParsed
  obtain rfl : out = (print unit).flat := Except.ok.inj (success.symm.trans (format_of_parse read))
  obtain rfl : otherOut = (print otherUnit).flat :=
    Except.ok.inj (otherSuccess.symm.trans (format_of_parse otherRead))
  rw [format_of_parse writtenRead, same,
    print_of_parts_append joinedParsed parsed otherParsed parts someParts otherParts]

/-- A package with a comment after it, then a command that ends in a carriage return. -/
theorem format_joined_of_command :
    ∃ unit otherUnit, parse "package  p // first" = .ok unit ∧
      parse "run  'x', y\r" = .ok otherUnit ∧
      (∃ child ∈ unit.childNodes, child.kind = .packageDeclaration) ∧ 0 < otherUnit.statementCount ∧
      (∀ child ∈ otherUnit.childNodes, child.kind ≠ .packageDeclaration) ∧
      ∀ options, Format.groovy.format options "package  p // first\n\nrun  'x', y\r" =
        .ok "package p\nrun 'x', y\n" := by
  have known : (parse "package  p // first").toOption.any (fun unit =>
      (∃ child ∈ unit.childNodes, child.kind = .packageDeclaration) ∧
        (print unit).flat = "package p\n") = true := by
    decide +kernel
  have otherKnown : (parse "run  'x', y\r").toOption.any (fun unit => 0 < unit.statementCount ∧
      (∀ child ∈ unit.childNodes, child.kind ≠ .packageDeclaration) ∧
        (print unit).flat = "run 'x', y\n") = true := by
    decide +kernel
  cases read : parse "package  p // first" with
  | error _ => simp [read, Except.toOption] at known
  | ok unit =>
    cases otherRead : parse "run  'x', y\r" with
    | error _ => simp [otherRead, Except.toOption] at otherKnown
    | ok otherUnit =>
      rw [read, Except.toOption, Option.any_some, decide_eq_true_iff] at known
      rw [otherRead, Except.toOption, Option.any_some, decide_eq_true_iff] at otherKnown
      obtain ⟨packaged, text⟩ := known
      obtain ⟨stated, plain, otherText⟩ := otherKnown
      refine ⟨unit, otherUnit, rfl, rfl, packaged, stated, plain, ?_⟩
      intro options
      have success : Format.groovy.format options "package  p // first" = .ok (print unit).flat :=
        format_of_parse read
      have joined :=
        format_joined success read (.inl packaged) (format_of_parse otherRead) otherRead
          stated plain (by decide) (by decide)
      rw [text, otherText] at joined
      exact joined

end GroovyTidy
