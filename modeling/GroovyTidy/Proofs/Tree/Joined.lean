import GroovyTidy.Proofs.Format.Stable
import GroovyTidy.Proofs.Tree.ExtendGrammar
import GroovyTidy.Proofs.Tree.Nesting
import GroovyTidy.Proofs.Tree.TwinGrammar

set_option autoImplicit false

/-!
Units one after the other. If separators stand between the tokens of two units, and the second one
declares no package, all the tokens together are a unit with the parts of the first one and then
those of the second one.
-/
namespace GroovyTidy

open Lookahead Rule

/-! ## Parentheses are closed -/

/-- Where delimiters nest, an open parenthesis is closed. The invariant is that so many parentheses
are open at least. -/
theorem afterParentheses?_of_trulyOpen? {opened : List Delimiter} {tokens : List Token}
    {depth : Nat} (nested : trulyOpen? opened tokens = some [])
    (inside : ∀ token ∈ tokens, token.kind ≠ .endOfInput) (some : 0 < depth)
    (within : depth ≤ opened.count .paren) : (afterParentheses? depth tokens).isSome = true := by
  induction tokens generalizing opened depth with
  | nil =>
    cases nested
    rw [List.count_nil] at within
    omega
  | cons first tokens ih =>
    obtain ⟨here, later⟩ := List.forall_mem_cons.mp inside
    obtain ⟨next, after, rest⟩ := Option.bind_eq_some_iff.mp nested
    rw [afterParentheses?_cons]
    cases kind : first.kind with
    | endOfInput => exact absurd kind here
    | opening delimiter =>
      rw [kind] at after
      cases after
      cases delimiter with
      | paren =>
        refine ih rest later (Nat.succ_pos _) ?_
        rw [List.count_cons_self]
        omega
      | brace | bracket => exact ih rest later some within
    | closing delimiter =>
      rw [kind] at after
      cases opened with
      | nil => cases after
      | cons innermost others =>
        by_cases same : innermost = delimiter
        · rw [trulyOpenAfter?, if_pos same] at after
          cases after
          cases same
          cases delimiter with
          | paren =>
            rw [List.count_cons_self] at within
            by_cases last : depth ≤ 1
            · simp [last]
            · simp only [reduceCtorEq, ↓reduceIte, last]
              exact ih rest later (by omega) (by omega)
          | brace | bracket => exact ih rest later some within
        · rw [trulyOpenAfter?, if_neg same] at after
          cases after
    | _ =>
      rw [kind] at after
      cases after
      exact ih rest later some within

/-- Where delimiters nest, all parentheses are closed. -/
theorem closed_of_trulyOpen? {tokens : List Token} (nested : trulyOpen? [] tokens = some [])
    (inside : ∀ token ∈ tokens, token.kind ≠ .endOfInput) : Closed tokens := by
  intro rest later opens
  obtain ⟨front, rfl⟩ := later
  rw [trulyOpen?_append] at nested
  obtain ⟨opened, -, after⟩ := Option.bind_eq_some_iff.mp nested
  cases rest with
  | nil => cases opens
  | cons first rest =>
    have kind : first.kind = .opening .paren := beq_iff_eq.mp opens
    obtain ⟨next, found, later⟩ := Option.bind_eq_some_iff.mp after
    rw [kind] at found
    cases found
    rw [afterParentheses?_cons, if_pos kind]
    refine afterParentheses?_of_trulyOpen? later
      (fun token member => inside token (by simp [member])) Nat.one_pos ?_
    rw [List.count_cons_self]
    omega

/-! ## Parts of a unit -/

/-- The nodes of a forest, with its statements in place of the list of them. -/
def Tree.forestParts (forest : List Tree) : List Node :=
  (forest.filterMap Tree.node?).flatMap fun node => if node.kind = .statements then node.childNodes
    else [node]

/-- The package of a unit, if there is one, and its statements. -/
def Node.parts (unit : Node) : List Node :=
  Tree.forestParts unit.children

namespace Tree

theorem forestParts_append (front back : List Tree) :
    forestParts (front ++ back) = forestParts front ++ forestParts back := by
  simp [forestParts]

theorem forestParts_tokens (tokens : List Token) : forestParts (tokens.map Tree.token) = [] := by
  rw [forestParts, Grammar.filterMap_token]
  rfl

theorem forestParts_statements (children : List Tree) :
    forestParts [.node .statements children] = children.filterMap Tree.node? := by
  simp [forestParts, Tree.node?, Node.childNodes]

end Tree

namespace Grammar

/-! ## Statements in front of more tokens -/

/-- Tokens without an end of input go on with a statement, whatever follows them. -/
theorem goesOnStatements_append {tokens : List Token} (some : tokens ≠ [])
    (filled : ∀ token ∈ tokens, token.kind ≠ .endOfInput) (tail : List Token) :
    goesOnStatements (tokens ++ tail) = true := by
  cases tokens with
  | nil => exact absurd rfl some
  | cons first others =>
    have differs : startsWith .endOfInput (first :: others ++ tail) = false :=
      beq_eq_false_iff_ne.mpr (filled first List.mem_cons_self)
    rw [goesOnStatements, differs]
    rfl

theorem eq_nil_of_not_goesOnStatements {tokens : List Token}
    (filled : ∀ token ∈ tokens, token.kind ≠ .endOfInput)
    (ended : goesOnStatements tokens = false) : tokens = [] := by
  by_contra some
  have goes := goesOnStatements_append some filled []
  rw [List.append_nil, ended] at goes
  cases goes

section

variable {tail : List Token} {inner other : Inner} (inside : Inner.Extends tail inner other)
include inside

/-- Turns of statements that reach the end of the tokens are taken in front of more tokens as well,
up to separators at the end, which are left for the turn that comes after them. -/
theorem statementTurns_extend {bound : Nat} {before after : Reading} {turns : List (List Tree)}
    (extended : ExtendedBy tail before.ahead (before.ahead ++ tail))
    (filled : ∀ token ∈ before.ahead, token.kind ≠ .endOfInput)
    (success : repeatWithin (fun ahead =>
      if goesOnStatements ahead then some (statementRound inner) else none) bound
      before = .ok turns after) (ended : after.ahead = []) :
    ∃ whole spent, turns.flatten = whole.flatten ++ spent.map Tree.token ∧
      (∀ token ∈ spent, token.kind.isSeparator = true) ∧
      ∀ {more : List (List Tree)} {rest : List Token},
        Rounds goesOnStatements (statementRound other) (spent ++ tail) more rest →
        Rounds goesOnStatements (statementRound other) (before.ahead ++ tail)
          (whole ++ more) rest := by
  induction bound generalizing before turns with
  | zero =>
    obtain ⟨rfl, rfl⟩ := pure_eq_ok.mp success
    rw [ended]
    exact ⟨[], [], rfl, List.forall_mem_nil _, fun rounds => rounds⟩
  | succ bound ih =>
    obtain ⟨-, rfl, rfl⟩ | ⟨item, first, middle, others, chosen, turn, repeated, rfl⟩ :=
      repeatWithin_succ_eq_ok success
    · rw [ended]
      exact ⟨[], [], rfl, List.forall_mem_nil _, fun rounds => rounds⟩
    · obtain ⟨-, rfl⟩ := of_chosen chosen
      obtain ⟨seps, reached, rest, separated, optional, rfl⟩ := sequence_eq_ok.mp turn
      obtain ⟨gap, some, ahead, all, rfl, stops⟩ := separatorsAfter_eq_ok separated
      have later : reached.ahead <:+ before.ahead := ⟨gap, ahead.symm⟩
      have filledThen : ∀ token ∈ reached.ahead, token.kind ≠ .endOfInput := fun token member =>
        filled token (later.subset member)
      rcases when_eq_ok.mp optional with ⟨-, stated⟩ | ⟨stopped, rfl, rfl⟩
      · have known := statement_extends inside (extended.suffix later) stated
        have shorter := known.shorter
        have going : reached.ahead ≠ [] := fun none => by
          rw [none, List.length_nil] at shorter
          omega
        obtain ⟨whole, spent, flat, spentAll, rounds⟩ :=
          ih (extended.suffix (known.suffix.trans later))
            (fun token member => filledThen token (known.suffix.subset member)) repeated
        have round :
            Reads (statementRound other) (before.ahead ++ tail) (gap.map Tree.token ++ rest)
            (middle.ahead ++ tail) :=
          ((separatorsAfter_extends extended separated).reads (.inr going)).append
            (.when (goesOnStatements_append going filledThen tail) (known.reads (.inl rfl)))
        refine ⟨(gap.map Tree.token ++ rest) :: whole, spent, ?_, spentAll, fun more => ?_⟩
        · rw [List.flatten_cons, flat, List.flatten_cons, ← List.append_assoc]
        · refine .turn (goesOnStatements_append ?_ filled tail) round ?_ (rounds more)
          · rw [ahead]
            simp [some]
          · have length := later.length_le
            rw [List.length_append, List.length_append]
            omega
      · -- Only separators were left, so this is the last turn.
        have none := eq_nil_of_not_goesOnStatements filledThen stopped
        have last : others = [] := by
          cases bound with
          | zero => exact (pure_eq_ok.mp repeated).1.symm
          | succ bound =>
            obtain ⟨-, rfl, -⟩ | ⟨item, first, middle, others, chosen, -⟩ :=
              repeatWithin_succ_eq_ok repeated
            · rfl
            · rw [(of_chosen chosen).1] at stopped
              cases stopped
        refine ⟨[], gap, ?_, all, fun more => ?_⟩
        · simp [last]
        · rw [ahead, none, List.append_nil]
          exact more

/-- A list of statements that reaches the end of the tokens is read in front of more tokens as well:
a first statement, and turns up to separators at the end. -/
theorem statements_extend {before after : Reading} {forest : List Tree}
    (extended : ExtendedBy tail before.ahead (before.ahead ++ tail))
    (filled : ∀ token ∈ before.ahead, token.kind ≠ .endOfInput)
    (success : statements inner .endOfInput before = .ok forest after) (ended : after.ahead = []) :
    ∃ first middle whole spent, middle.length < before.ahead.length ∧
      forest = [.node .statements (first ++ (whole.flatten ++ spent.map Tree.token))] ∧
      Reads (Grammar.statement other) (before.ahead ++ tail) first (middle ++ tail) ∧
      (∀ token ∈ spent, token.kind.isSeparator = true) ∧
      ∀ {more : List (List Tree)} {rest : List Token},
        Rounds goesOnStatements (statementRound other) (spent ++ tail) more rest →
        Rounds goesOnStatements (statementRound other) (middle ++ tail) (whole ++ more) rest := by
  obtain ⟨children, below, rfl⟩ := node_eq_ok.mp success
  obtain ⟨first, middle, others, stated, repeated, rfl⟩ := sequence_eq_ok.mp below
  obtain ⟨turns, all, rfl⟩ := map_eq_ok.mp repeated
  have known := statement_extends inside extended stated
  have shorter : middle.ahead.length < before.ahead.length := known.shorter
  obtain ⟨whole, spent, flat, spentAll, rounds⟩ :=
    statementTurns_extend inside (extended.suffix known.suffix)
      (fun token member => filled token (known.suffix.subset member)) all ended
  refine ⟨first, middle.ahead, whole, spent, shorter, ?_, known.reads (.inl rfl), spentAll, rounds⟩
  rw [flat]

end

/-! ## Units -/

theorem packageTail_extends {tail : List Token} : Extends tail false 0 packageTail packageTail := by
  intro before right forest after extended success
  unfold packageTail lookingAhead at success
  dsimp only at success
  cases ended : startsWith .endOfInput before.ahead with
  | true =>
    rw [ended] at success
    obtain ⟨rfl, rfl⟩ := pure_eq_ok.mp success
    refine ⟨List.suffix_refl _, Nat.le_refl _, fun some => .lookingAhead ?_⟩
    have still : startsWith .endOfInput right = true := by
      rw [extended.eq]
      cases shape : before.ahead with
      | nil => simp [shape] at some
      | cons first others =>
        rw [shape] at ended
        exact ended
    rw [still, extended.eq]
    exact nothing_reads _
  | false =>
    rw [ended] at success
    have known := separatorsAfter_extends extended success
    refine ⟨known.suffix, Nat.le_of_succ_le known.shorter, fun some => .lookingAhead ?_⟩
    obtain ⟨gap, filled, ahead, all, -⟩ := separatorsAfter_eq_ok success
    have goes : startsWith .endOfInput right = false := by
      rw [extended.eq, ahead, List.append_assoc]
      exact startsWith_separators all filled rfl _
    rw [goes]
    exact known.reads some

/-- The head of a unit that is not all of it is read in the same way in front of more tokens. -/
theorem unitHead_extends {tail : List Token} : Extends tail false 0 unitHead unitHead :=
  separators_extends.append
    ((packageDeclaration_extends.inside.append packageTail_extends).whenKind .packageWord rfl)

theorem boundary_of_separators {gap : List Token}
    (all : ∀ token ∈ gap, token.kind.isSeparator = true) (some : gap ≠ []) (rest : List Token) :
    isBoundary (kindAt (gap ++ rest) 0) = true := by
  obtain ⟨first, others, rfl⟩ := List.exists_cons_of_ne_nil some
  exact Bool.or_eq_true_iff.mpr (.inl (all first List.mem_cons_self))

/-- The head of a unit consists of separators, or of a package with separators around it. -/
theorem unitHead_cases {before after : Reading} {front : List Tree}
    (success : unitHead before = .ok front after) :
    ∃ lead start, before.ahead = lead ++ start.ahead ∧
      (∀ token ∈ lead, token.kind.isSeparator = true) ∧
      starts TokenKind.isSeparator start.ahead = false ∧
      (front = lead.map Tree.token ∧ start = after ∧ startsWith .packageWord start.ahead = false ∨
        startsWith .packageWord start.ahead = true ∧
        ∃ below reached gap,
          packageDeclaration start = .ok [.node .packageDeclaration below] reached ∧
          reached.ahead = gap ++ after.ahead ∧ (∀ token ∈ gap, token.kind.isSeparator = true) ∧
          front = lead.map Tree.token ++
            ([.node .packageDeclaration below] ++ gap.map Tree.token)) := by
  obtain ⟨seps, start, head, separated, packaged, rfl⟩ := sequence_eq_ok.mp success
  obtain ⟨lead, ahead, all, rfl, stops⟩ := separators_eq_ok separated
  refine ⟨lead, start, ahead, all, stops, ?_⟩
  rcases when_eq_ok.mp packaged with ⟨word, declared⟩ | ⟨plain, rfl, rfl⟩
  · obtain ⟨declaration, reached, rest, named, tailed, rfl⟩ := sequence_eq_ok.mp declared
    obtain ⟨below, -, rfl⟩ := node_eq_ok.mp named
    obtain ⟨gap, later, separates, rfl, -⟩ := packageTail_eq_ok tailed
    exact .inr ⟨word, below, reached, gap, named, later, separates, rfl⟩
  · exact .inl ⟨List.append_nil _, rfl, plain⟩

/-- If a package is all of a unit, more separators may follow it, and then something else. -/
theorem unitHead_spent {before after : Reading} {front : List Tree} (closed : Closed before.ahead)
    (success : unitHead before = .ok front after) (spent : after.ahead = [])
    (packaged : Tree.forestParts front ≠ []) {more rest : List Token}
    (all : ∀ token ∈ more, token.kind.isSeparator = true) (some : more ≠ [])
    (stops : starts TokenKind.isSeparator rest = false) :
    ∃ forest, Reads unitHead (before.ahead ++ (more ++ rest)) forest rest ∧
      Tree.forestParts forest = Tree.forestParts front := by
  obtain ⟨lead, start, ahead, leading, startStops, shape⟩ := unitHead_cases success
  obtain ⟨rfl, -, -⟩ | ⟨word, below, reached, gap, named, later, separates, rfl⟩ := shape
  · exact absurd (Tree.forestParts_tokens lead) packaged
  · have extended : ExtendedBy (more ++ rest) start.ahead (start.ahead ++ (more ++ rest)) :=
      ⟨closed.suffix ⟨lead, ahead.symm⟩, boundary_of_separators all some rest, rfl⟩
    have wordThen : startsWith .packageWord (start.ahead ++ (more ++ rest)) = true := by
      rw [← Lockstep.startsWith_eq extended .packageWord rfl]
      exact word
    have stopsThen : starts TokenKind.isSeparator (start.ahead ++ (more ++ rest)) = false := by
      rw [starts, beq_iff_eq.mp wordThen]
      rfl
    have declared := (packageDeclaration_extends extended named).reads (.inl rfl)
    rw [later, spent, List.append_nil] at declared
    have separated : ∀ token ∈ gap ++ more, token.kind.isSeparator = true := fun token member =>
      (List.mem_append.mp member).elim (separates token) (all token)
    have tailed :=
      packageTail_reads separated stops fun none => absurd (List.append_eq_nil_iff.mp none).2 some
    rw [List.append_assoc] at tailed
    refine ⟨lead.map Tree.token ++
      ([.node .packageDeclaration below] ++ (gap ++ more).map Tree.token), ?_, ?_⟩
    · rw [ahead, List.append_assoc]
      exact (separators_reads leading stopsThen).append (.when wordThen (declared.append tailed))
    · simp only [Tree.forestParts_append, Tree.forestParts_tokens]

/-- The steps by which a unit is read: its head, and statements unless the head is all of it. -/
theorem parseTokens_steps {body : List Token} {last : Token} {unit : Node}
    (ended : last.kind = .endOfInput) (filled : ∀ token ∈ body, token.kind ≠ .endOfInput)
    (success : parseTokens (body ++ [last]) = .ok unit) :
    ∃ before front middle forest after final, before.ahead = body ∧
      unitHead before = .ok front middle ∧
      unit = ⟨.compilationUnit, front ++ forest ++ [.token final]⟩ ∧
      (middle.ahead = [] ∧ forest = [] ∨
        middle.ahead ≠ [] ∧ after.ahead = [] ∧
        statements (innerWithin (body.length + 1)) .endOfInput middle = .ok forest after) := by
  have stream := (Reading.ofTokens_ended body ended).1
  have sound := innerWithin_sound (body.length + 1)
  unfold parseTokens readTokens at success
  cases read : compilationUnit (.ofTokens (body ++ [last])) with
  | error error reading =>
    rw [read] at success
    cases success
  | ok trees reading =>
    rw [read] at success
    unfold compilationUnit lookingAhead at read
    rw [stream] at read
    obtain ⟨below, inside, rfl⟩ := node_eq_ok.mp read
    obtain ⟨content, after, final, contained, accepted, rfl⟩ := sequence_eq_ok.mp inside
    have contents : unitInside (innerWithin (body.length + 1)) (.ofTokens (body ++ [last])) =
        .ok content after :=
      contained
    obtain ⟨-, rfl, -⟩ := accept_eq_ok.mp accepted
    have consumed := (unitInside_consumes sound contents).ahead
    rw [stream] at consumed
    have spent : after.ahead = [] := by
      apply eq_nil_of_not_goesOnStatements
      · exact fun token member => filled token (by simp [consumed, member])
      · rw [goesOnStatements, unitInside_stops sound contents]
        rfl
    obtain ⟨front, middle, forest, headed, optional, rfl⟩ := sequence_eq_ok.mp contents
    cases success
    refine ⟨_, front, middle, forest, after, _, stream, headed, rfl, ?_⟩
    rcases when_eq_ok.mp optional with ⟨goes, stated⟩ | ⟨-, rfl, rfl⟩
    · refine .inr ⟨fun none => ?_, spent, stated⟩
      rw [none] at goes
      cases goes
    · exact .inl ⟨spent, rfl⟩

/-- A unit without a package consists of separators, a statement, and turns of separators and
statements, also if there is more room for what is nested in them. -/
theorem parseTokens_turns {body : List Token} {last : Token} {unit : Node}
    (ended : last.kind = .endOfInput) (filled : ∀ token ∈ body, token.kind ≠ .endOfInput)
    (closed : Closed body) (success : parseTokens (body ++ [last]) = .ok unit)
    (some : unit.parts ≠ []) (plain : ∀ child ∈ unit.childNodes, child.kind ≠ .packageDeclaration)
    {bound : Nat} (room : body.length < bound) :
    ∃ lead start first middle turns, body = lead ++ start ∧
      (∀ token ∈ lead, token.kind.isSeparator = true) ∧
      starts TokenKind.isSeparator start = false ∧ goesOnStatements start = true ∧
      middle.length < start.length ∧
      Reads (Grammar.statement (innerWithin bound)) start first middle ∧
      Rounds goesOnStatements (statementRound (innerWithin bound)) middle turns [] ∧
      unit.parts = (first ++ turns.flatten).filterMap Tree.node? := by
  obtain ⟨before, front, middle, forest, after, final, rfl, headed, rfl, rest⟩ :=
    parseTokens_steps ended filled success
  obtain ⟨lead, start, ahead, all, stops, shape⟩ := unitHead_cases headed
  obtain ⟨rfl, rfl, -⟩ | ⟨-, below, reached, gap, -, -, -, rfl⟩ := shape
  · have ending : Tree.forestParts [.token final] = [] := Tree.forestParts_tokens [final]
    obtain ⟨-, rfl⟩ | ⟨going, spent, stated⟩ := rest
    · simp [Node.parts, Tree.forestParts_append, Tree.forestParts_tokens, ending] at some
    · have later : start.ahead <:+ before.ahead := ⟨lead, ahead.symm⟩
      have filledThen : ∀ token ∈ start.ahead, token.kind ≠ .endOfInput := fun token member =>
        filled token (later.subset member)
      have extended : ExtendedBy [] start.ahead (start.ahead ++ []) :=
        ⟨closed.suffix later, rfl, rfl⟩
      obtain ⟨first, middle, whole, left, shorter, rfl, reads, leftAll, rounds⟩ :=
        statements_extend (innerWithin_extends room) extended filledThen stated spent
      obtain ⟨turns, lastRounds, flat⟩ := separators_rounds leftAll (innerWithin bound)
      have wholeRounds := rounds ((List.append_nil left).symm ▸ lastRounds)
      have goes := goesOnStatements_append going filledThen []
      rw [List.append_nil] at reads wholeRounds goes
      rw [List.append_nil] at reads
      refine ⟨lead, start.ahead, first, middle, whole ++ turns, ahead, all, stops, goes, shorter,
        reads, wholeRounds, ?_⟩
      simp only [Node.parts, Tree.forestParts_append, Tree.forestParts_tokens,
        Tree.forestParts_statements, ending, List.flatten_append, flat, List.nil_append,
        List.append_nil]
  · refine absurd rfl (plain ⟨.packageDeclaration, below⟩ ?_)
    simp [Node.childNodes, List.filterMap_append, Tree.node?]

section

variable {inner : Inner} {gap start reached : List Token} {first : List Tree}
  {turns : List (List Tree)} (all : ∀ token ∈ gap, token.kind.isSeparator = true) (some : gap ≠ [])
  (stops : starts TokenKind.isSeparator start = false) (goes : goesOnStatements start = true)
  (reads : Reads (Grammar.statement inner) start first reached)
  (rounds : Rounds goesOnStatements (statementRound inner) reached turns [])
include all some stops goes reads rounds

/-- After a unit that is a package, the statements of another one are read. -/
theorem unitInside_after_package {before middle : Reading} {front : List Tree}
    (closed : Closed before.ahead) (headed : unitHead before = .ok front middle)
    (spent : middle.ahead = []) (packaged : Tree.forestParts front ≠ []) :
    ∃ forest, Reads (unitInside inner) (before.ahead ++ (gap ++ start)) forest [] ∧
      Tree.forestParts forest =
        Tree.forestParts front ++ (first ++ turns.flatten).filterMap Tree.node? := by
  obtain ⟨head, headReads, parts⟩ := unitHead_spent closed headed spent packaged all some stops
  have stated :
      Reads (statements inner .endOfInput) start [.node .statements (first ++ turns.flatten)] [] :=
    (reads.append rounds.manyWhile).node .statements
  refine ⟨_, headReads.append (.when goes stated), ?_⟩
  rw [Tree.forestParts_append, parts, Tree.forestParts_statements]

/-- The statements of a unit are followed by those of another one, of which the first one is read in
a turn with the separators between them. -/
theorem unitInside_after_statements {before middle after : Reading} {front forest : List Tree}
    {bound : Inner} (inside : Inner.Extends (gap ++ start) bound inner)
    (closed : Closed before.ahead) (filled : ∀ token ∈ before.ahead, token.kind ≠ .endOfInput)
    (headed : unitHead before = .ok front middle) (going : middle.ahead ≠ [])
    (stated : statements bound .endOfInput middle = .ok forest after) (spent : after.ahead = [])
    (shorter : reached.length < start.length) :
    ∃ whole, Reads (unitInside inner) (before.ahead ++ (gap ++ start)) whole [] ∧
      Tree.forestParts whole =
        Tree.forestParts (front ++ forest) ++ (first ++ turns.flatten).filterMap Tree.node? := by
  have extended : ExtendedBy (gap ++ start) before.ahead (before.ahead ++ (gap ++ start)) :=
    ⟨closed, boundary_of_separators all some start, rfl⟩
  have head := unitHead_extends extended headed
  have filledThen : ∀ token ∈ middle.ahead, token.kind ≠ .endOfInput := fun token member =>
    filled token (head.suffix.subset member)
  obtain ⟨stmt, rest, turnsBefore, left, -, rfl, stmtReads, leftAll, extend⟩ :=
    statements_extend inside (extended.suffix head.suffix) filledThen stated spent
  have separates : ∀ token ∈ left ++ gap, token.kind.isSeparator = true := fun token member =>
    (List.mem_append.mp member).elim (leftAll token) (all token)
  have filledGap : left ++ gap ≠ [] := by simp [some]
  have turn : Rounds goesOnStatements (statementRound inner) (left ++ gap ++ start)
      (((left ++ gap).map Tree.token ++ first) :: turns) [] := by
    refine .turn (goesOnStatements_of_separators separates filledGap start)
      ((separatorsAfter_reads separates stops filledGap).append (.when goes reads)) ?_ rounds
    rw [List.length_append]
    omega
  rw [List.append_assoc] at turn
  have list := (stmtReads.append (extend turn).manyWhile).node .statements
  have goesThen := goesOnStatements_append going filledThen (gap ++ start)
  refine ⟨_, (head.reads (.inr going)).append (.when goesThen list), ?_⟩
  simp only [Tree.forestParts_append, Tree.forestParts_statements, List.flatten_append,
    List.flatten_cons, List.filterMap_append, filterMap_token, List.append_nil, List.nil_append,
    List.append_assoc]

end

/-- Two units with separators between them are a unit with the parts of both. -/
theorem parseTokens_joined {body separated other : List Token} {last otherLast : Token}
    {unit otherUnit : Node} (ended : last.kind = .endOfInput)
    (filled : ∀ token ∈ body, token.kind ≠ .endOfInput) (closed : Closed body)
    (success : parseTokens (body ++ [last]) = .ok unit) (some : unit.parts ≠ [])
    (all : ∀ token ∈ separated, token.kind.isSeparator = true) (apart : separated ≠ [])
    (otherEnded : otherLast.kind = .endOfInput)
    (otherFilled : ∀ token ∈ other, token.kind ≠ .endOfInput) (otherClosed : Closed other)
    (otherSuccess : parseTokens (other ++ [otherLast]) = .ok otherUnit)
    (otherSome : otherUnit.parts ≠ [])
    (plain : ∀ child ∈ otherUnit.childNodes, child.kind ≠ .packageDeclaration) :
    ∃ joined, parseTokens (body ++ (separated ++ other) ++ [otherLast]) = .ok joined ∧
      joined.parts = unit.parts ++ otherUnit.parts := by
  have room : body.length + 1 ≤ (body ++ (separated ++ other)).length + 1 := by
    rw [List.length_append]
    omega
  have otherRoom : other.length < (body ++ (separated ++ other)).length + 1 := by
    rw [List.length_append, List.length_append]
    omega
  obtain ⟨before, front, middle, forest, after, final, rfl, headed, rfl, rest⟩ :=
    parseTokens_steps ended filled success
  obtain ⟨lead, start, first, reached, turns, shape, leading, stops, goes, shorter, reads,
    rounds, parts⟩ :=
    parseTokens_turns otherEnded otherFilled otherClosed otherSuccess otherSome plain otherRoom
  have gapAll : ∀ token ∈ separated ++ lead, token.kind.isSeparator = true := fun token member =>
    (List.mem_append.mp member).elim (all token) (leading token)
  have gapSome : separated ++ lead ≠ [] := by simp [apart]
  have whole : separated ++ other = separated ++ lead ++ start := by rw [shape, List.append_assoc]
  have ending : ∀ token, Tree.forestParts [.token token] = [] :=
    fun token => Tree.forestParts_tokens [token]
  have front_parts : Node.parts ⟨.compilationUnit, front ++ forest ++ [.token final]⟩ =
      Tree.forestParts (front ++ forest) := by
    rw [Node.parts, Tree.forestParts_append, ending, List.append_nil]
  have read : ∃ trees,
      Reads (unitInside (innerWithin ((before.ahead ++ (separated ++ other)).length + 1)))
      (before.ahead ++ (separated ++ other)) trees [] ∧
      Tree.forestParts trees = Tree.forestParts (front ++ forest) ++ otherUnit.parts := by
    rw [parts]
    obtain ⟨spent, rfl⟩ | ⟨going, spent, stated⟩ := rest
    · rw [front_parts, List.append_nil] at some
      rw [List.append_nil, whole]
      rw [whole] at reads rounds
      exact unitInside_after_package gapAll gapSome stops goes reads rounds closed headed spent some
    · rw [whole] at reads rounds room ⊢
      exact unitInside_after_statements gapAll gapSome stops goes reads rounds
        (innerWithin_extends room) closed filled headed going stated spent shorter
  obtain ⟨trees, treesRead, treesParts⟩ := read
  obtain ⟨token, parsed⟩ := parseTokens_eq_of_reads otherEnded treesRead
  refine ⟨_, parsed, ?_⟩
  rw [front_parts, ← treesParts, Node.parts, Tree.forestParts_append, ending, List.append_nil]

end Grammar

end GroovyTidy
