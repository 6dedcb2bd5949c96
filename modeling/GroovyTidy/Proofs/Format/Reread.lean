import GroovyTidy.Proofs.Format.Outline
import GroovyTidy.Proofs.Tree.Decided
import GroovyTidy.Proofs.Tree.Reads

set_option autoImplicit false

/-!
Reading scripts. Tokens that are spelled like the lines of a script, with any separators around
them, are read as a package and commands, and printing these gives the script.
-/
namespace GroovyTidy

open Lookahead Printer Rule

namespace Grammar

/-! ## Names and literals as expressions -/

/-- A token of such a kind goes on with an expression before it. -/
def goesOnExpression : TokenKind → Bool
  | .opening _ => true
  | kind => kind.isMemberAccess || isStep kind || kind == .assign

/-- A name or a literal as a primary expression. -/
def primaryNode (token : Token) : Node :=
  if token.kind.isIdentifier then ⟨.identifierPrimary, [.node .identifier [.token token]]⟩
  else ⟨.literalPrimary, [.node .literal [.token token]]⟩

/-- A name or a literal as an expression. -/
def bareNode (token : Token) : Node :=
  ⟨.postfixAlternative,
    [.node .postfixExpression [.node (.pathExpression .bare) [(primaryNode token).tree]]]⟩

theorem print_bareNode (token : Token) : print (bareNode token) = .text token.text := by
  unfold bareNode primaryNode
  split
  · rfl
  · rfl

section

variable {token : Token} (simple : token.spelling.isSimple = true) {rest : List Token}
include simple

theorem primary_reads (inner : Inner) :
    Reads (primary inner) (token :: rest) [(primaryNode token).tree] rest := by
  refine .lookingAhead ?_
  have kind : kindAt (token :: rest) 0 = token.kind := rfl
  rw [kind]
  dsimp only
  unfold primaryNode
  split
  · rename_i name
    exact ((accept_reads _ name rest).node .identifier).node .identifierPrimary
  · rename_i other
    have literal : token.kind.isLiteral = true := by
      simpa [Spelling.isSimple, Token.spelling, other] using simple
    rw [if_pos literal]
    exact ((accept_reads _ literal rest).node .literal).node .literalPrimary

variable (quiet : goesOnExpression (kindAt rest 0) = false)
include quiet

omit simple in
theorem trailerAhead?_quiet : trailerAhead? rest = none := by
  unfold trailerAhead? startsPair
  generalize kindAt rest 0 = kind at quiet
  cases kind with
  | opening | dot | safeDot => cases quiet
  | _ => rfl

omit simple in
theorem starts_step_quiet : starts isStep rest = false := by
  unfold starts
  generalize kindAt rest 0 = kind at quiet
  cases kind with
  | increment | decrement => cases quiet
  | _ => rfl

omit simple in
theorem startsWith_assign_quiet : startsWith .assign rest = false := by
  unfold startsWith
  generalize kindAt rest 0 = kind at quiet
  cases kind with
  | assign => cases quiet
  | _ => rfl

theorem path_reads (inner : Inner) :
    Reads (pathExpression inner) (token :: rest)
      [.node (.pathExpression .bare) [(primaryNode token).tree]] rest := by
  intro before same
  obtain ⟨after, done, left⟩ := primary_reads simple inner before same
  refine ⟨after, ?_, left⟩
  have stops : many (fun ahead => (trailerAhead? ahead).map (pathElement inner)) after =
      .ok [] after := by
    refine many_of_none ?_
    rw [left, trailerAhead?_quiet quiet]
    rfl
  unfold pathExpression
  rw [bind_of_ok done, bind_of_ok stops]
  rfl

theorem postfix_reads (inner : Inner) :
    Reads (postfixExpression inner) (token :: rest)
      [.node .postfixExpression [.node (.pathExpression .bare) [(primaryNode token).tree]]] rest :=
  ((path_reads simple quiet inner).append (when_reads_nothing (starts_step_quiet quiet))).node
    .postfixExpression

/-- A name or a literal is an expression unless what follows goes on with it. -/
theorem expression_reads (inner : Inner) :
    Reads (expressionOver inner) (token :: rest) [(bareNode token).tree] rest := by
  intro before same
  obtain ⟨middle, done, left⟩ := postfix_reads simple quiet inner before same
  refine ⟨middle, ?_, left⟩
  unfold expressionOver
  rw [bind_of_ok done]
  simp only [lookingAhead, left, startsWith_assign_quiet quiet, Bool.false_eq_true, ↓reduceIte]
  rfl

end

/-! ## Commands are no declarations -/

/-- What follows the head of a command: the end of the statement, or an argument with a comma or the
end of the statement after it. -/
inductive CommandTail (tail : List Token) : Prop where
  | bare (ends : isBoundary (kindAt tail 0) = true)
  | arguments (simple : ((kindAt tail 0).isIdentifier || (kindAt tail 0).isLiteral) = true)
      (ends : (kindAt tail 1 == .comma || isBoundary (kindAt tail 1)) = true)

section

variable {head : Token} {tail : List Token} (shape : CommandTail tail)
include shape

theorem CommandTail.not_extendsType : extendsType (kindAt tail 0) = false := by
  obtain ends | ⟨simple, -⟩ := shape
  · exact eq_false_of_boundary ends _ rfl rfl rfl
  · exact TokenKind.eq_false_of_simple simple _ rfl rfl fun _ => rfl

theorem CommandTail.not_methodHead : startsMethodHead tail = false := by
  unfold startsMethodHead startsPair
  obtain ends | ⟨-, ends⟩ := shape
  · rw [eq_false_of_boundary ends isMethodName rfl rfl rfl, Bool.false_and]
  · have other : (kindAt tail 1 == .opening .paren) = false := by
      rcases Bool.or_eq_true_iff.mp ends with comma | ends
      · rw [beq_iff_eq.mp comma]
        rfl
      · exact eq_false_of_boundary ends (· == .opening .paren) rfl rfl rfl
    exact Bool.and_eq_false_imp.mpr fun _ => other

/-- A name or a literal that is no type is one with nothing to declare. -/
theorem afterType?_head (simple : head.spelling.isSimple = true) :
    afterType? (head :: tail) = if head.kind.isIdentifier then some tail else none := by
  split
  · rename_i name
    exact afterType?_name name shape.not_extendsType
  · rename_i other
    have primitive : head.kind.isPrimitiveType = false :=
      TokenKind.eq_false_of_simple simple _ rfl rfl fun _ => rfl
    rw [afterType?, afterTypeWithin?, primitive]
    simp [other]

theorem CommandTail.declaresMethod_eq (simple : head.spelling.isSimple = true) :
    declaresMethod (head :: tail) = false := by
  have none : (afterType? (head :: tail)).filter startsMethodHead = none := by
    rw [afterType?_head shape simple]
    split
    · simp [Option.filter, shape.not_methodHead]
    · rfl
  unfold declaresMethod
  rw [skipModifiers_simple simple]
  simp only [none, Nat.lt_irrefl, decide_false, Bool.false_and]

theorem CommandTail.declaresVariable_eq (simple : head.spelling.isSimple = true) :
    declaresVariable (head :: tail) = (head.kind.isIdentifier && startsDeclarator tail) := by
  unfold declaresVariable
  rw [skipModifiers_simple simple]
  simp only [startsTyped, afterType?_head shape simple, Nat.lt_irrefl, decide_false, Bool.false_and,
    Bool.or_false]
  cases head.kind.isIdentifier <;> rfl

/-- Where two names could declare a variable, the first letter decides for a command. -/
theorem CommandTail.reads_as_command (simple : head.spelling.isSimple = true)
    (lower : head.kind.isIdentifier = true → (kindAt tail 0).isIdentifier = true →
      head.text.toList.head?.any Text.isOwnLowerCase = true) :
    (!readsAsCommand head (head :: tail) && declaresVariable (head :: tail)) = false := by
  rw [shape.declaresVariable_eq simple]
  cases declares : head.kind.isIdentifier && startsDeclarator tail with
  | false => exact Bool.and_false _
  | true =>
    simp only [Bool.and_eq_true, startsDeclarator, startsPair] at declares
    obtain ⟨name, named, -⟩ := declares
    -- Two names: for a command the first letter is small, and no value is assigned to the second
    -- name.
    have small := lower name named
    have third : kindAt tail 1 ≠ .assign := by
      obtain ends | ⟨-, ends⟩ := shape
      · have other := eq_false_of_boundary ends TokenKind.isIdentifier rfl rfl rfl
        exact Bool.noConfusion (other.symm.trans named)
      · rintro assign
        rw [assign] at ends
        cases ends
    have reads : readsAsCommand head (head :: tail) = true := by
      unfold readsAsCommand startsTypePath
      have primitive : head.kind.isPrimitiveType = false :=
        TokenKind.eq_false_of_simple simple _ rfl rfl fun _ => rfl
      have modifier : head.kind.isModifier = false :=
        TokenKind.eq_false_of_simple simple _ rfl rfl fun _ => rfl
      rw [kindAt_cons_succ, kindAt_cons_succ, small, primitive, modifier, bne_iff_ne.mpr third]
      generalize kindAt tail 0 = kind at named
      cases kind with
      | identifier | capitalizedIdentifier => rfl
      | _ => cases named
    rw [reads]
    rfl

omit shape in
theorem startsWith_of_isSimple (simple : head.spelling.isSimple = true) {word : TokenKind}
    (other : (word.isIdentifier || word.isLiteral) = false) :
    startsWith word (head :: tail) = false := by
  refine beq_eq_false_iff_ne.mpr fun same => ?_
  rw [← same] at other
  exact Bool.noConfusion (other.symm.trans simple)

/-- What is no declaration is read as a command. -/
theorem CommandTail.reads {inner : Inner} (simple : head.spelling.isSimple = true)
    (lower : head.kind.isIdentifier = true → (kindAt tail 0).isIdentifier = true →
      head.text.toList.head?.any Text.isOwnLowerCase = true) {below : List Tree} {rest : List Token}
    (given : Reads (commandExpression inner) (head :: tail) [.node .commandExpression below] rest) :
    Reads (statement inner) (head :: tail)
      [.node .expressionStatement [.node .commandAlternative [.node .commandExpression below]]]
      rest := by
  refine .lookingAhead ?_
  rw [startsWith_of_isSimple simple rfl, startsWith_of_isSimple simple rfl]
  intro before same
  -- Both questions are answered with no, and to note the answers takes no token.
  obtain ⟨asked, stream, eq⟩ := plainStatement_eq inner before
  have next : before.stream.next = head := by
    rw [TokenStream.next, show before.stream.pending = _ from same]
    rfl
  have askedAhead : asked.ahead = head :: tail := by
    rw [Reading.ahead, stream]
    exact same
  rw [same, next, shape.declaresMethod_eq simple, Bool.and_false,
    shape.reads_as_command simple lower] at eq
  obtain ⟨after, done, left⟩ :=
    (given.node .commandAlternative).node .expressionStatement asked askedAhead
  exact ⟨after, eq.trans done, left⟩

end

/-! ## Lists of names and literals -/

/-- The tokens are the items with marks between them. -/
inductive Listed (mark : TokenKind) : List Token → List Token → Prop where
  | single (item : Token) : Listed mark [item] [item]
  | cons {items tokens : List Token} (item between : Token) (marked : between.kind = mark)
      (rest : Listed mark items tokens) : Listed mark (item :: items) (item :: between :: tokens)

theorem Listed.head_mem {mark : TokenKind} {items tokens : List Token}
    (listed : Listed mark items tokens) :
    ∃ first ∈ items, ∃ others, tokens = first :: others ∧
      ∀ token ∈ others.head?, token.kind = mark := by
  cases listed with
  | single item => exact ⟨item, by simp, [], rfl, by simp⟩
  | cons item between marked rest => exact ⟨item, by simp, _, rfl, by simpa using marked⟩

/-- Tokens that are spelled like a list are one. -/
theorem listed_of_spellings {mark : TokenKind} {text : String} {shown : List Spelling}
    (filled : shown ≠ []) {tokens : List Token}
    (spelled : tokens.map Token.spelling =
      [(mark, text)].intercalate (shown.map fun spelling => [spelling])) :
    ∃ items, Listed mark items tokens ∧ items.map Token.spelling = shown := by
  induction shown generalizing tokens with
  | nil => exact absurd rfl filled
  | cons first others ih =>
    cases others with
    | nil =>
      obtain ⟨item, rfl, same⟩ := List.map_eq_singleton_iff.mp spelled
      exact ⟨[item], .single item, by rw [List.map_singleton, same]⟩
    | cons second others =>
      rw [List.map_cons, List.map_cons, List.intercalate_cons_cons] at spelled
      obtain ⟨item, rest, rfl, same, more⟩ := List.map_eq_cons_iff.mp spelled
      obtain ⟨between, tokens, rfl, marked, later⟩ := List.map_eq_cons_iff.mp more
      obtain ⟨items, listed, shown⟩ := ih (by simp) later
      refine ⟨item :: items, .cons item between (congrArg Prod.fst marked) listed, ?_⟩
      rw [List.map_cons, same, shown]

/-- A list is read if each item is, before a mark and before what follows the list. The induction
keeps apart the first item and the rounds for those after it. -/
theorem Listed.reads {mark : TokenKind} {items tokens rest : List Token}
    (listed : Listed mark items tokens) {item : Rule} {kind : NodeKind} {below : Token → List Tree}
    {test : List Token → Bool}
    (each : ∀ token ∈ items, ∀ more, (kindAt more 0 = mark ∨ more = rest) →
      Reads item (token :: more) [.node kind (below token)] more)
    (goes : ∀ token ∈ items, ∀ between more, between.kind = mark →
      test (between :: token :: more) = true)
    (stops : test rest = false) :
    ∃ forest, Reads (item ++ manyWhile test (Rule.token mark ++ item)) (tokens ++ rest)
      forest rest ∧
      Interleaved mark kind (items.map fun token => ⟨kind, below token⟩) forest := by
  have parts : ∃ middle first turns, middle.length < (tokens ++ rest).length ∧
      Reads item (tokens ++ rest) [first] middle ∧
      Rounds test (Rule.token mark ++ item) middle turns rest ∧
      Interleaved mark kind (items.map fun token => ⟨kind, below token⟩)
        (first :: turns.flatten) := by
    induction listed with
    | single token =>
      exact ⟨rest, _, [], by simp, each token (by simp) rest (.inr rfl), .stop stops, .single _⟩
    | @cons items tokens token between marked listed ih =>
      obtain ⟨here, later⟩ := List.forall_mem_cons.mp each
      obtain ⟨middle, first, turns, shorter, reads, rounds, list⟩ :=
        ih later fun token member => goes token (List.mem_cons_of_mem _ member)
      obtain ⟨next, member, others, rfl, -⟩ := listed.head_mem
      refine ⟨between :: (next :: others ++ rest), .node kind (below token),
        [.token between, first] :: turns,
        by simp, here _ (.inl marked), ?_, .cons (below token) between marked list⟩
      refine .turn (goes next (by simp [member]) between _ marked)
        ((token_reads marked _).append reads) ?_ rounds
      simp only [List.length_cons]
      omega
  obtain ⟨middle, first, turns, -, reads, rounds, list⟩ := parts
  exact ⟨_, reads.append rounds.manyWhile, list⟩

/-! ## Commands -/

theorem commandExpression_reads_of {inner : Inner} {ahead middle rest : List Token}
    {left right : List Tree} (first : Reads (expressionOver inner) ahead left middle)
    (second : Reads (commandArguments inner left) middle right rest) :
    Reads (commandExpression inner) ahead [.node .commandExpression (left ++ right)] rest := by
  refine Reads.node ?_ .commandExpression
  exact first.bind (second.bind (pure_reads _ rest))

section

variable {inner : Inner} {rest : List Token} (ends : isBoundary (kindAt rest 0) = true)
include ends

theorem quiet_of_boundary : goesOnExpression (kindAt rest 0) = false :=
  eq_false_of_boundary ends _ rfl rfl rfl

theorem argumentList_reads {deeper : Inner} (nested : inner.expression = expressionOver deeper)
    {items tokens : List Token} (listed : Listed .comma items tokens)
    (simple : ∀ item ∈ items, item.spelling.isSimple = true) :
    ∃ below, Reads (argumentList inner) (tokens ++ rest) [.node .argumentList below] rest ∧
      (print ⟨.argumentList, below⟩).flat.toList =
        [',', ' '].intercalate (items.map fun item => item.text.toList) := by
  have each : ∀ token ∈ items, ∀ more, (kindAt more 0 = .comma ∨ more = rest) →
      Reads (node .argumentListElement inner.expression) (token :: more)
        [.node .argumentListElement [(bareNode token).tree]] more := by
    intro token member more follows
    rw [nested]
    refine (expression_reads (simple token member) ?_ deeper).node .argumentListElement
    rcases follows with comma | rfl
    · rw [comma]
      rfl
    · exact quiet_of_boundary ends
  have stops : startsWith .comma rest = false := eq_false_of_boundary ends (· == .comma) rfl rfl rfl
  have goes : ∀ token ∈ items, ∀ between more, between.kind = .comma →
      startsWith .comma (between :: token :: more) = true := by
    intro token member between more marked
    exact beq_iff_eq.mpr marked
  obtain ⟨below, reads, list⟩ := listed.reads each goes stops
  refine ⟨below, reads.node .argumentList, ?_⟩
  rw [list.print_eq rfl fun _ => rfl, List.map_map]
  refine congrArg _ (List.map_congr_left fun item _ => ?_)
  have shown : print ⟨.argumentListElement, [(bareNode item).tree]⟩ = .text item.text :=
    (print_through rfl (bareNode item) []).trans (print_bareNode item)
  rw [Function.comp_apply, shown, Doc.flat]

omit ends in
theorem quiet_of_isSimple {next : Token} (simple : next.spelling.isSimple = true)
    (others : List Token) : goesOnExpression (kindAt (next :: others) 0) = false :=
  TokenKind.eq_false_of_simple simple goesOnExpression rfl rfl fun _ => rfl

omit ends in
theorem startsExpression_of_isSimple {next : Token} (simple : next.spelling.isSimple = true)
    (others : List Token) : starts TokenKind.startsExpression (next :: others) = true := by
  obtain ⟨kind, text, span⟩ := next
  change kind.startsExpression = true
  cases kind with
  | opening => rfl
  | _ => exact simple

theorem commandArguments_reads_nothing (expression : List Tree) :
    Reads (commandArguments inner expression) rest [] rest :=
  when_reads_nothing (eq_false_of_boundary ends TokenKind.startsExpression rfl rfl rfl)

/-- Tokens of a command are read as its expression, with or without arguments. -/
theorem commandExpression_reads {deeper : Inner} (nested : inner.expression = expressionOver deeper)
    {head : Token} (simple : head.spelling.isSimple = true) {items tail : List Token}
    (listed : items = [] ∧ tail = [] ∨ Listed .comma items tail)
    (simpleItems : ∀ item ∈ items, item.spelling.isSimple = true) :
    ∃ below, Reads (commandExpression inner) (head :: (tail ++ rest))
      [.node .commandExpression below] rest ∧
      (print ⟨.commandExpression, below⟩).flat.toList =
        (Line.command (some head.spelling) (items.map fun item => some item.spelling)).text := by
  rcases listed with ⟨rfl, rfl⟩ | listed
  · have expression := expression_reads simple (quiet_of_boundary ends) inner
    refine ⟨_, commandExpression_reads_of expression (commandArguments_reads_nothing ends _), ?_⟩
    rw [List.append_nil, print_command_bare, print_bareNode, Line.text_command]
    exact (List.append_nil _).symm
  · obtain ⟨below, reads, text⟩ := argumentList_reads ends nested listed simpleItems
    obtain ⟨next, member, others, rfl, -⟩ := listed.head_mem
    have simpleNext := simpleItems next member
    have expression := expression_reads simple (quiet_of_isSimple simpleNext (others ++ rest)) inner
    have arguments :
        Reads (commandArguments inner [(bareNode head).tree]) (next :: (others ++ rest))
        [.node .argumentList below] rest :=
      .when (startsExpression_of_isSimple simpleNext (others ++ rest)) (reads.note _ _)
    refine ⟨_, commandExpression_reads_of expression arguments, ?_⟩
    have written := print_command (bareNode head) ⟨.argumentList, below⟩
    rw [text, print_bareNode, Doc.flat] at written
    obtain ⟨first, items, rfl⟩ := List.exists_cons_of_ne_nil (List.ne_nil_of_mem member)
    rw [List.map_cons, Line.text_command, Line.argumentsText_cons, List.map_cons, List.map_map]
    exact written

end

theorem cells_of_isSome {cells : List Cell} (filled : ∀ cell ∈ cells, cell.isSome = true) :
    ∃ shown : List Spelling, cells = shown.map some := by
  induction cells with
  | nil => exact ⟨[], rfl⟩
  | cons first others ih =>
    obtain ⟨here, later⟩ := List.forall_mem_cons.mp filled
    obtain ⟨spelling, rfl⟩ := Option.isSome_iff_exists.mp here
    obtain ⟨shown, rfl⟩ := ih later
    exact ⟨spelling :: shown, rfl⟩

/-- What a command is made of. -/
theorem command_tokens {head : Cell} {arguments : List Cell}
    (full : (Line.command head arguments).Full) {tokens : List Token}
    (spelled : tokens.map Token.spelling = (Line.command head arguments).spellings) :
    ∃ first items tail, tokens = first :: tail ∧ head = some first.spelling ∧
      arguments = items.map (fun item => some item.spelling) ∧
      (items = [] ∧ tail = [] ∨ Listed .comma items tail) := by
  obtain ⟨present, filled⟩ := full
  obtain ⟨shown, rfl⟩ := Option.isSome_iff_exists.mp present
  rw [Line.spellings_command] at spelled
  obtain ⟨first, tail, rfl, rfl, spelledRest⟩ := List.map_eq_cons_iff.mp spelled
  obtain ⟨shown, rfl⟩ := cells_of_isSome filled
  have alone : (shown.map some).map Option.toList = shown.map fun spelling => [spelling] :=
    List.map_map
  have spelledTail : tail.map Token.spelling =
      [Spelling.comma].intercalate (shown.map fun spelling => [spelling]) := by
    rw [← alone]
    exact spelledRest
  by_cases none : shown = []
  · subst none
    exact ⟨first, [], tail, rfl, rfl, rfl, .inl ⟨rfl, List.map_eq_nil_iff.mp spelledTail⟩⟩
  · obtain ⟨items, listed, rfl⟩ := listed_of_spellings none spelledTail
    exact ⟨first, items, tail, rfl, rfl, List.map_map, .inr listed⟩

theorem commandTail_of_listed {items tail : List Token}
    (listed : items = [] ∧ tail = [] ∨ Listed .comma items tail)
    (simple : ∀ item ∈ items, item.spelling.isSimple = true) {rest : List Token}
    (ends : isBoundary (kindAt rest 0) = true) : CommandTail (tail ++ rest) := by
  rcases listed with ⟨rfl, rfl⟩ | listed
  · exact .bare ends
  · obtain ⟨next, member, others, rfl, marked⟩ := listed.head_mem
    refine .arguments (simple next member) ?_
    cases others with
    | nil =>
      change (kindAt rest 0 == .comma || isBoundary (kindAt rest 0)) = true
      rw [ends, Bool.or_true]
    | cons between others =>
      change (between.kind == .comma || isBoundary between.kind) = true
      rw [marked between rfl]
      rfl

/-- Tokens that are spelled like a command are read as one, and it is printed like that. -/
theorem statement_reads {inner deeper : Inner} (nested : inner.expression = expressionOver deeper)
    {head : Cell} {arguments : List Cell} (valid : (Line.command head arguments).Valid)
    (full : (Line.command head arguments).Full)
    (undeclared : Undeclared (Line.command head arguments).spellings) {tokens : List Token}
    (spelled : tokens.map Token.spelling = (Line.command head arguments).spellings)
    {rest : List Token} (ends : isBoundary (kindAt rest 0) = true) :
    ∃ below, Reads (statement inner) (tokens ++ rest) [.node .expressionStatement below] rest ∧
      (print ⟨.expressionStatement, below⟩).flat.toList = (Line.command head arguments).text := by
  rw [← spelled] at undeclared
  obtain ⟨first, items, tail, rfl, rfl, rfl, listed⟩ := command_tokens full spelled
  obtain ⟨validHead, validItems⟩ := valid
  have simple : first.spelling.isSimple = true := (validHead _ rfl).1
  have simpleItems : ∀ item ∈ items, item.spelling.isSimple = true := by
    intro item member
    exact (validItems _ (List.mem_map_of_mem member) _ rfl).1
  obtain ⟨below, reads, text⟩ := commandExpression_reads ends nested simple listed simpleItems
  have shape := commandTail_of_listed listed simpleItems ends
  refine ⟨_, shape.reads simple ?_ reads, ?_⟩
  · rcases listed with ⟨rfl, rfl⟩ | listed
    · intro name named
      have other := eq_false_of_boundary ends TokenKind.isIdentifier rfl rfl rfl
      exact Bool.noConfusion (other.symm.trans named)
    · obtain ⟨next, member, others, rfl, marked⟩ := listed.head_mem
      intro name named
      refine undeclared _ _ _ rfl name named ?_
      intro third found
      rw [List.head?_map] at found
      obtain ⟨token, first, rfl⟩ := Option.map_eq_some_iff.mp found
      exact marked token first
  · rw [← text]
    exact congrArg _ (congrArg _ ((print_through rfl ⟨.commandAlternative, _⟩ []).trans
      (print_through rfl ⟨.commandExpression, below⟩ [])))

/-! ## Packages -/

/-- Tokens that are spelled like a package are read as one, and it is printed like that. -/
theorem package_reads {names : List Spelling} (valid : (Line.package names).Valid)
    (full : (Line.package names).Full) {tokens : List Token}
    (spelled : tokens.map Token.spelling = (Line.package names).spellings) {rest : List Token}
    (ends : isBoundary (kindAt rest 0) = true) :
    ∃ below, Reads packageDeclaration (tokens ++ rest) [.node .packageDeclaration below] rest ∧
      (print ⟨.packageDeclaration, below⟩).flat.toList = (Line.package names).text := by
  obtain ⟨word, tail, rfl, marked, spelledTail⟩ := List.map_eq_cons_iff.mp spelled
  obtain ⟨items, listed, rfl⟩ := listed_of_spellings full spelledTail
  have name : ∀ item ∈ items, item.kind.isIdentifier = true := by
    intro item member
    exact (valid _ (List.mem_map_of_mem member)).1
  have each : ∀ token ∈ items, ∀ more, (kindAt more 0 = .dot ∨ more = rest) →
      Reads identifier (token :: more) [.node .identifier [.token token]] more := by
    intro token member more _
    exact (accept_reads _ (name token member) more).node .identifier
  have goes : ∀ token ∈ items, ∀ between more, between.kind = .dot →
      startsPair (· == .dot) TokenKind.isIdentifier (between :: token :: more) = true := by
    intro token member between more marked
    exact Bool.and_eq_true_iff.mpr ⟨beq_iff_eq.mpr marked, name token member⟩
  have stops : startsPair (· == .dot) TokenKind.isIdentifier rest = false := by
    have other := eq_false_of_boundary ends (· == .dot) rfl rfl rfl
    rw [startsPair, other, Bool.false_and]
  obtain ⟨below, reads, list⟩ := listed.reads each goes stops
  refine ⟨_, ((token_reads (congrArg Prod.fst marked) _).append (reads.node .qualifiedName)).node _,
    ?_⟩
  refine (print_package word below).trans ?_
  rw [list.print_eq rfl fun _ => rfl, List.map_map, Line.text_package, List.map_map]
  rfl

end Grammar

end GroovyTidy
