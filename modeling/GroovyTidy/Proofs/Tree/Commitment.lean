import GroovyTidy.Proofs.Tree.Conform
import GroovyTidy.Proofs.Tree.Lockstep
import GroovyTidy.Proofs.Tree.Reads
import GroovyTidy.Proofs.Tree.Refusal

set_option autoImplicit false

/-!
Declarations that lookahead has found. A scan decides whether a type is ahead, and after the
modifiers the rules decide that again, by a weaker test. Both decide alike, so the rules read the
head of the declaration without an error, and what they refuse stands behind it.
-/
namespace GroovyTidy

open Lookahead Production Rule

namespace Grammar

/-! ## Types that lookahead has found -/

/-- Pairs of tokens that looking ahead skips are read pair by pair. -/
theorem skipPairs_reads {first second : TokenKind → Bool} (ended : second .endOfInput = false)
    {rule : Rule}
    (pair : ∀ {left right : Token}, first left.kind = true → second right.kind = true →
      ∀ rest, Reads rule (left :: right :: rest) [.token left, .token right] rest)
    (ahead : List Token) :
    ∃ forest, Reads (manyWhile (startsPair first second) rule) ahead forest
      (skipPairs first second ahead) := by
  suffices rounds : ∃ turns,
      Rounds (startsPair first second) rule ahead turns (skipPairs first second ahead) by
    obtain ⟨turns, rounds⟩ := rounds
    exact ⟨turns.flatten, rounds.manyWhile⟩
  fun_induction skipPairs first second ahead with
  | case1 left right rest passed ih =>
    obtain ⟨turns, rounds⟩ := ih
    obtain ⟨here, next⟩ := Bool.and_eq_true_iff.mp passed
    have shorter : rest.length < (left :: right :: rest).length := by
      simp only [List.length_cons]
      omega
    exact ⟨[.token left, .token right] :: turns, .turn passed (pair here next rest) shorter rounds⟩
  | case2 left right rest apart => exact ⟨[], .stop (Bool.eq_false_iff.mpr apart)⟩
  | case3 ahead short =>
    refine ⟨[], .stop ?_⟩
    have missing : kindAt ahead 1 = .endOfInput := by
      cases ahead with
      | nil => rfl
      | cons left rest =>
        cases rest with
        | nil => rfl
        | cons right rest => exact absurd rfl (short left right rest)
    rw [startsPair, missing, ended, Bool.and_false]

theorem identifierToken_reads {name : Token} (isName : name.kind.isIdentifier = true)
    (rest : List Token) : Reads identifierToken (name :: rest) [.token name] rest :=
  accept_reads _ isName rest

theorem skipNames_reads (ahead : List Token) :
    ∃ forest,
      Reads (manyWhile (startsPair (· == .dot) TokenKind.isIdentifier)
        (token .dot ++ identifierToken)) ahead
      forest (skipNames ahead) := by
  apply skipPairs_reads rfl
  intro left right dot name rest
  exact (token_reads (beq_iff_eq.mp dot) _).append (identifierToken_reads name rest)

theorem skipBrackets_reads (ahead : List Token) :
    ∃ forest, Reads (manyWhile (startsPair (· == .opening .bracket) (· == .closing .bracket))
      (token (.opening .bracket) ++ token (.closing .bracket))) ahead forest
        (skipBrackets ahead) := by
  apply skipPairs_reads rfl
  intro left right opening closing rest
  exact (token_reads (beq_iff_eq.mp opening) _).append (token_reads (beq_iff_eq.mp closing) rest)

section

variable {type : Rule} {scan : List Token → Option (List Token)} (shrinks : Shrinks scan)
  (reads : ∀ {ahead rest : List Token}, scan ahead = some rest →
      ∃ forest, Reads type ahead forest rest)
include shrinks reads

/-- A list of types that is scanned is read up to its closing bracket. The induction is on the types
after a comma. -/
theorem afterTypeList?_rounds {limit : Nat} {ahead rest : List Token}
    (found : afterTypeList? scan limit ahead = some rest) :
    ∃ middle turns closing, scan ahead = some middle ∧
      Rounds (startsWith .comma) (token .comma ++ type) middle turns (closing :: rest) ∧
      closing.kind = .greater := by
  induction limit generalizing ahead with
  | zero => cases found
  | succ limit ih =>
    rw [afterTypeList?] at found
    cases scanned : scan ahead with
    | none => simp [scanned] at found
    | some after =>
      cases after with
      | nil => simp [scanned] at found
      | cons mark inside =>
        simp only [scanned] at found
        by_cases comma : mark.kind = .comma
        · rw [if_pos comma] at found
          obtain ⟨middle, turns, closing, next, rounds, kind⟩ := ih found
          obtain ⟨forest, given⟩ := reads next
          have shorter : middle.length < (mark :: inside).length :=
            Nat.lt_succ_of_lt (shrinks next).2
          have separated : startsWith .comma (mark :: inside) = true := beq_iff_eq.mpr comma
          have turn := (token_reads comma inside).append given
          exact ⟨mark :: inside, _, closing, rfl, .turn separated turn shorter rounds, kind⟩
        · rw [if_neg comma] at found
          by_cases greater : mark.kind = .greater
          · rw [if_pos greater] at found
            obtain rfl := Option.some.inj found
            exact ⟨mark :: inside, [], mark, rfl, .stop (beq_eq_false_iff_ne.mpr comma), greater⟩
          · rw [if_neg greater] at found
            cases found

theorem typeArguments_reads {opening : Token} (less : opening.kind = .less) {limit : Nat}
    {inside rest : List Token} (found : afterTypeList? scan limit inside = some rest) :
    ∃ forest, Reads (typeArguments type) (opening :: inside) forest rest := by
  obtain ⟨middle, turns, closing, first, rounds, greater⟩ :=
    afterTypeList?_rounds shrinks reads found
  obtain ⟨forest, given⟩ := reads first
  have listed : Reads (commaSeparated type) inside (forest ++ turns.flatten) (closing :: rest) :=
    given.append rounds.manyWhile
  exact ⟨_, (((token_reads less inside).append listed).append (token_reads greater rest)).node
    .typeArguments⟩

/-- The names of a type and its arguments, if it has any. -/
theorem namedType_reads {first : Token} (name : first.kind.isIdentifier = true) {limit : Nat}
    {ahead rest : List Token}
    (found : (if startsWith .less (skipNames ahead) then afterTypeList? scan limit
      ((skipNames ahead).drop 1)
      else some (skipNames ahead)) = some rest) :
    ∃ forest, Reads (namedType type) (first :: ahead) forest rest := by
  obtain ⟨dotted, names⟩ := skipNames_reads ahead
  have named := (identifierToken_reads name ahead).append names
  cases less : startsWith .less (skipNames ahead) with
  | false =>
    rw [less] at found
    obtain rfl := Option.some.inj found
    exact ⟨_, named.append (when_reads_nothing less)⟩
  | true =>
    rw [less, if_pos rfl] at found
    cases shape : skipNames ahead with
    | nil =>
      rw [shape] at less
      cases less
    | cons opening inside =>
      rw [shape] at less found named
      obtain ⟨forest, arguments⟩ := typeArguments_reads shrinks reads (beq_iff_eq.mp less) found
      exact ⟨_, named.append (.when less arguments)⟩

end

/-- A type that looking ahead finds is read, up to where it has been found to end. -/
theorem typeWithin_reads {bound : Nat} {ahead rest : List Token}
    (found : afterTypeWithin? bound ahead = some rest) :
    ∃ forest, Reads (typeWithin bound) ahead forest rest := by
  induction bound generalizing ahead rest with
  | zero => cases found
  | succ bound ih =>
    cases ahead with
    | nil => cases found
    | cons first ahead =>
      rw [afterTypeWithin?_cons] at found
      -- Whatever the type starts with, pairs of brackets may follow.
      suffices base : ∃ forest after, rest = skipBrackets after ∧
          Reads (lookingAhead fun ahead =>
            if starts TokenKind.isPrimitiveType ahead then
              accept TokenKind.isPrimitiveType .identifier
            else namedType (typeWithin bound)) (first :: ahead) forest after by
        obtain ⟨front, after, rfl, base⟩ := base
        obtain ⟨back, brackets⟩ := skipBrackets_reads after
        exact ⟨_, (base.append brackets).node .type⟩
      cases primitive : first.kind.isPrimitiveType with
      | true =>
        rw [primitive, if_pos rfl] at found
        have passed : starts TokenKind.isPrimitiveType (first :: ahead) = true := primitive
        refine ⟨[.token first], ahead, (Option.some.inj found).symm, .lookingAhead ?_⟩
        rw [if_pos passed]
        exact accept_reads _ primitive ahead
      | false =>
        cases name : first.kind.isIdentifier with
        | false =>
          rw [primitive, name] at found
          cases found
        | true =>
          have failed : starts TokenKind.isPrimitiveType (first :: ahead) = false := primitive
          obtain ⟨after, scanned, rfl⟩ : ∃ after, (if startsWith .less (skipNames ahead) then
              afterTypeList? (afterTypeWithin? bound) ahead.length ((skipNames ahead).drop 1)
              else some (skipNames ahead)) = some after ∧ skipBrackets after = rest := by
            rw [primitive, name, if_neg Bool.false_ne_true, if_pos rfl] at found
            cases less : startsWith .less (skipNames ahead) with
            | true =>
              rw [less] at found
              exact Option.map_eq_some_iff.mp found
            | false =>
              rw [less] at found
              exact ⟨_, rfl, Option.some.inj found⟩
          obtain ⟨forest, base⟩ := namedType_reads (afterTypeWithin?_shrinks bound) ih name scanned
          refine ⟨forest, after, rfl, .lookingAhead ?_⟩
          rw [if_neg (Bool.eq_false_iff.mp failed)]
          exact base

theorem type_reads {ahead rest : List Token} (found : afterType? ahead = some rest) :
    ∃ forest, Reads type ahead forest rest := by
  obtain ⟨forest, given⟩ := typeWithin_reads found
  exact ⟨forest, .lookingAhead given⟩

/-! ## Heads of declarations -/

theorem skipModifiers_split (ahead : List Token) :
    ∃ front, ahead = front ++ skipModifiers ahead ∧
      (∀ token ∈ front, token.kind.isModifier = true) ∧
      starts TokenKind.isModifier (skipModifiers ahead) = false := by
  induction ahead with
  | nil => exact ⟨[], rfl, List.forall_mem_nil _, rfl⟩
  | cons first ahead ih =>
    rw [skipModifiers_eq]
    cases modifies : starts TokenKind.isModifier (first :: ahead) with
    | false => exact ⟨[], rfl, List.forall_mem_nil _, modifies⟩
    | true =>
      obtain ⟨front, shape, all, stops⟩ := ih
      exact ⟨first :: front, congrArg (first :: ·) shape,
        List.forall_mem_cons.mpr ⟨modifies, all⟩, stops⟩

theorem modifiers_reads {front rest : List Token}
    (all : ∀ token ∈ front, token.kind.isModifier = true)
    (stops : starts TokenKind.isModifier rest = false) :
    ∃ forest, Reads modifiers (front ++ rest) forest rest := by
  have rounds := accept_rounds .identifier all stops
  cases front with
  | nil => exact ⟨[], when_reads_nothing stops⟩
  | cons first front =>
    exact ⟨_, .when (all first List.mem_cons_self) (rounds.manyWhile.node .modifiers)⟩

/-- Modifiers, a type, or both before the name of what is declared. -/
structure Heads (front typed named : List Token) : Prop where
  modifiers : ∀ token ∈ front, token.kind.isModifier = true
  type : typed = [] ∨ afterType? (typed ++ named) = some named
  filled : front ≠ [] ∨ typed ≠ []

/-- The tokens ahead start with the head of a declaration, and a test after the modifiers finds a
type exactly if there is one. -/
structure Headed (test : List Token → Bool) (ahead front typed named : List Token) : Prop
    extends Heads front typed named where
  shape : ahead = front ++ (typed ++ named)
  stops : starts TokenKind.isModifier (typed ++ named) = false
  decided : startsTyped test (typed ++ named) = !typed.isEmpty

section

variable {test : List Token → Bool} {ahead : List Token}

theorem headed_of_type {named : List Token} (found : afterType? (skipModifiers ahead) = some named)
    (passed : test named = true) : ∃ front typed, Headed test ahead front typed named := by
  obtain ⟨front, shape, all, stops⟩ := skipModifiers_split ahead
  obtain ⟨⟨typed, whole⟩, shorter⟩ := afterType?_shrinks found
  rw [← whole] at shape stops found
  have filled : typed ≠ [] := by
    rintro rfl
    rw [← whole] at shorter
    exact Nat.lt_irrefl _ shorter
  have decided : startsTyped test (typed ++ named) = !typed.isEmpty := by
    rw [startsTyped, found, Option.any_some, passed, List.isEmpty_eq_false_iff.mpr filled]
    rfl
  exact ⟨front, typed, ⟨all, .inr found, .inr filled⟩, shape, stops, decided⟩

theorem headed_of_modifiers (modified : (skipModifiers ahead).length < ahead.length)
    (failed : startsTyped test (skipModifiers ahead) = false) :
    ∃ front, Headed test ahead front [] (skipModifiers ahead) := by
  obtain ⟨front, shape, all, stops⟩ := skipModifiers_split ahead
  have filled : front ≠ [] := by
    rintro rfl
    rw [List.nil_append] at shape
    rw [← shape] at modified
    exact Nat.lt_irrefl _ modified
  exact ⟨front, ⟨all, .inl rfl, .inl filled⟩, shape, stops, failed⟩

theorem declaresMethod_headed (declared : declaresMethod ahead = true) :
    ∃ front typed named, Headed startsMethodHead ahead front typed named ∧
      startsMethodHead named = true := by
  rw [declaresMethod] at declared
  cases scanned : (afterType? (skipModifiers ahead)).filter startsMethodHead with
  | some named =>
    obtain ⟨found, passed⟩ := Option.filter_eq_some_iff.mp scanned
    obtain ⟨front, typed, headed⟩ := headed_of_type found passed
    exact ⟨front, typed, named, headed, passed⟩
  | none =>
    rw [scanned] at declared
    simp only [Bool.and_eq_true, decide_eq_true_eq] at declared
    obtain ⟨⟨modified, passed⟩, -⟩ := declared
    have failed : startsTyped startsMethodHead (skipModifiers ahead) = false := by
      rw [startsTyped]
      cases found : afterType? (skipModifiers ahead) with
      | none => rfl
      | some named => exact Bool.eq_false_iff.mpr (Option.filter_eq_none_iff.mp scanned named found)
    obtain ⟨front, headed⟩ := headed_of_modifiers modified failed
    exact ⟨front, [], skipModifiers ahead, headed, passed⟩

/-- What may follow the name of a variable does not go on with a type, and it is no name. -/
theorem untyped_of_declarator {rest : List Token} (declarator : startsDeclarator rest = true) :
    startsTyped (starts TokenKind.isIdentifier) rest = false := by
  rw [startsDeclarator, startsPair, Bool.and_eq_true] at declarator
  obtain ⟨name, ends⟩ := declarator
  cases rest with
  | nil => cases name
  | cons first more =>
    have quiet : extendsType (kindAt more 0) = false ∧ (kindAt more 0).isIdentifier = false := by
      rw [kindAt_cons_succ] at ends
      generalize kindAt more 0 = kind at ends ⊢
      simp only [endsDeclaratorName, Bool.or_eq_true, beq_iff_eq, or_assoc] at ends
      rcases ends with rfl | rfl | rfl | rfl | rfl | rfl <;> exact ⟨rfl, rfl⟩
    rw [startsTyped, afterType?_name name quiet.1, Option.any_some]
    exact quiet.2

theorem declaresVariable_headed (declared : declaresVariable ahead = true) :
    ∃ front typed named, Headed (starts TokenKind.isIdentifier) ahead front typed named ∧
      startsDeclarator named = true := by
  rw [declaresVariable, Bool.or_eq_true, Bool.and_eq_true, decide_eq_true_eq] at declared
  rcases declared with typed | ⟨modified, declarator⟩
  · obtain ⟨named, found, declarator⟩ := (Option.any_eq_true _ _).mp typed
    have name : starts TokenKind.isIdentifier named = true := by
      rw [startsDeclarator, startsPair, Bool.and_eq_true] at declarator
      exact declarator.1
    obtain ⟨front, typed, headed⟩ := headed_of_type found name
    exact ⟨front, typed, named, headed, declarator⟩
  · obtain ⟨front, headed⟩ := headed_of_modifiers modified (untyped_of_declarator declarator)
    exact ⟨front, [], skipModifiers ahead, headed, declarator⟩

theorem Headed.reads {front typed named : List Token}
    (headed : Headed test ahead front typed named) :
    ∃ forest, Reads (Grammar.modifiers ++ Rule.when (startsTyped test) Grammar.type) ahead
      forest named := by
  obtain ⟨left, modified⟩ := modifiers_reads headed.modifiers headed.stops
  rw [headed.shape]
  by_cases untyped : typed = []
  · subst untyped
    exact ⟨_, modified.append (when_reads_nothing headed.decided)⟩
  · obtain ⟨right, given⟩ := type_reads (headed.type.resolve_left untyped)
    have passed : startsTyped test (typed ++ named) = true := by
      rw [headed.decided, List.isEmpty_eq_false_iff.mpr untyped]
      rfl
    exact ⟨_, modified.append (.when passed given)⟩

end

/-! ## Commitment -/

/-- The head of the declaration of a method, with the parenthesis that opens its parameters. -/
def methodHead : Rule :=
  modifiers ++ Rule.when (startsTyped startsMethodHead) type ++ methodName ++
    token (.opening .paren)

/-- The head of the declaration of variables, with the name of the first of them. -/
def variableHead : Rule :=
  modifiers ++ Rule.when (startsTyped (starts TokenKind.isIdentifier)) type ++ identifier

/-- From one reading on, the head of a declaration is read over exactly these tokens, which leads to
another reading, and behind that the rule for the whole declaration ends, whether it succeeds or
refuses a token. -/
structure Commits (head declaration : Rule) (tokens : List Token) (start named : Reading) :
    Prop where
  read : ∃ forest, head start = .ok forest named
  consumes : start.Consumes tokens named
  goesOn : Steps named (declaration start)

/-- Modifiers, a type, or both, a name and the parenthesis after it are ahead, and the declaration
of a method commits to them. -/
def CommitsToMethod (bound : Nat) (start : Reading) : Prop :=
  ∃ front typed name paren named, Heads front typed (name :: paren :: named.ahead) ∧
    isMethodName name.kind = true ∧
    paren.kind = .opening .paren ∧
    Commits methodHead (methodDeclaration (innerWithin bound))
      (front ++ typed ++ [name, paren]) start named

/-- Modifiers, a type, or both and a name are ahead, the declaration of variables commits to them,
and the token behind the name is one that may stand there. -/
def CommitsToVariable (bound : Nat) (start : Reading) : Prop :=
  ∃ front typed name named, Heads front typed (name :: named.ahead) ∧
    name.kind.isIdentifier = true ∧
    named.stream.next.kind ∈
      [TokenKind.assign, .comma, .newline, .semicolon, .closing .brace, .endOfInput] ∧
    Commits variableHead (localVariableDeclaration (innerWithin bound))
      (front ++ typed ++ [name]) start named

theorem methodHead_yields : Yields methodHead ((1 + nodeOf .modifiers) * (1 + nodeOf .type) *
    nameOfMethod * leaf (.opening .paren)) :=
  ((modifiers_yields.append (.when _ type_yields)).append methodName_yields).append
    (token_yields (by decide))

theorem variableHead_yields :
    Yields variableHead ((1 + nodeOf .modifiers) * (1 + nodeOf .type) * nodeOf .identifier) :=
  (modifiers_yields.append (.when _ type_yields)).append identifier_yields

theorem startsMethodHead_eq_true {ahead : List Token} (begins : startsMethodHead ahead = true) :
    ∃ name paren rest, ahead = name :: paren :: rest ∧ isMethodName name.kind = true ∧
      paren.kind = .opening .paren := by
  rw [startsMethodHead, startsPair, Bool.and_eq_true] at begins
  obtain ⟨isName, opens⟩ := begins
  cases ahead with
  | nil => cases isName
  | cons name more =>
    cases more with
    | nil => cases opens
    | cons paren rest => exact ⟨name, paren, rest, rfl, isName, beq_iff_eq.mp opens⟩

theorem methodName_reads {name : Token} (isName : isMethodName name.kind = true)
    (rest : List Token) : ∃ forest, Reads methodName (name :: rest) forest rest := by
  cases string : startsWith (.literal .string) (name :: rest) with
  | true =>
    refine ⟨[.node .literal [.token name]], .lookingAhead ?_⟩
    rw [if_pos string]
    exact (token_reads (beq_iff_eq.mp string) rest).node .literal
  | false =>
    have identifies : name.kind.isIdentifier = true := by
      have other : (name.kind == .literal .string) = false := string
      rwa [isMethodName, other, Bool.or_false] at isName
    refine ⟨[.node .identifier [.token name]], .lookingAhead ?_⟩
    rw [if_neg (Bool.eq_false_iff.mp string)]
    exact (identifierToken_reads identifies rest).node .identifier

/-- A rule that reads these tokens consumes them. -/
theorem consumes_of_reads {rule : Rule} {language : Language Tree} (yields : Yields rule language)
    {start : Reading} {tokens rest : List Token} {forest : List Tree}
    (shape : start.ahead = tokens ++ rest) (given : Reads rule start.ahead forest rest) :
    ∃ named, rule start = .ok forest named ∧ start.Consumes tokens named ∧ named.ahead = rest := by
  obtain ⟨named, done, left⟩ := given start rfl
  have consumes := (yields _ _ _ done).consumes
  have same : Tree.forestTokens forest = tokens := by
    have whole := consumes.ahead
    rw [shape, left] at whole
    exact (List.append_cancel_right whole).symm
  rw [same] at consumes
  exact ⟨named, done, consumes, left⟩

theorem stream_of_methodAhead {before after : Reading} {answer : Bool}
    (ahead : methodAhead before = .ok answer after) :
    after.stream = before.stream ∧
    answer = (!startsCall before.ahead && declaresMethod before.ahead) := by
  cases ahead
  exact ⟨rfl, rfl⟩

theorem stream_of_variableAhead {before after : Reading} {answer : Bool}
    (ahead : variableAhead before = .ok answer after) :
    after.stream = before.stream ∧
      answer =
        (!readsAsCommand before.stream.next before.ahead && declaresVariable before.ahead) := by
  cases ahead
  exact ⟨rfl, rfl⟩

end Grammar

namespace Rule

section

variable {front back rule : Rule} {start before middle : Reading} {left : List Tree}

theorem Steps.append (steps : Steps start (front before)) (back : Rule) [Steady back] :
    Steps start ((front ++ back) before) :=
  steps.bind _

theorem Steps.node (steps : Steps start (rule before)) (kind : NodeKind) :
    Steps start (Rule.node kind rule before) :=
  steps.bind _

/-- After what has succeeded a rule goes on like the rest of it. -/
theorem Steps.behind (done : front before = .ok left middle) (steps : Steps start (back middle)) :
    Steps start ((front ++ back) before) := by
  change Steps start (sequence front back before)
  rw [sequence, bind_of_ok done]
  exact steps.bind _

end

end Rule

namespace Grammar

section

variable {inner : Inner} [Steady inner.expression] {start named : Reading} {forest : List Tree}

theorem methodDeclaration_steps [Steady inner.body] (read : methodHead start = .ok forest named) :
    Steps named (methodDeclaration inner start) := by
  obtain ⟨head, middle, paren, done, opened, -⟩ := sequence_eq_ok.mp read
  have steps : Steps named (token (.opening .paren) middle) := by
    rw [opened]
    exact .ok (List.suffix_refl _)
  have parameters : Steps named (formalParameters inner middle) :=
    ((steps.append _).append _).node _
  exact ((parameters.behind done).append _).node _

theorem localVariableDeclaration_steps (read : variableHead start = .ok forest named) :
    Steps named (localVariableDeclaration inner start) := by
  obtain ⟨head, middle, name, done, identified, -⟩ := sequence_eq_ok.mp read
  have steps : Steps named (identifier middle) := by
    rw [identified]
    exact .ok (List.suffix_refl _)
  have declarator : Steps named (variableDeclarator inner middle) := (steps.append _).node _
  exact ((declarator.append _).behind done).node _

end

theorem commitsToMethod (bound : Nat) {start : Reading}
    (declared : declaresMethod start.ahead = true) : CommitsToMethod bound start := by
  obtain ⟨front, typed, ahead, headed, begins⟩ := declaresMethod_headed declared
  obtain ⟨name, paren, rest, rfl, isName, opening⟩ := startsMethodHead_eq_true begins
  obtain ⟨left, head⟩ := headed.reads
  obtain ⟨right, naming⟩ := methodName_reads isName (paren :: rest)
  have reads : Reads methodHead start.ahead _ rest :=
    (head.append naming).append (token_reads opening rest)
  have shape : start.ahead = (front ++ typed ++ [name, paren]) ++ rest := by
    rw [headed.shape]
    simp only [List.append_assoc, List.cons_append, List.nil_append]
  obtain ⟨named, read, consumes, rfl⟩ := consumes_of_reads methodHead_yields shape reads
  obtain ⟨expression, body⟩ := innerWithin_steady bound
  exact ⟨front, typed, name, paren, named, headed.toHeads, isName, opening, ⟨_, read⟩, consumes,
    methodDeclaration_steps read⟩

theorem commitsToVariable (bound : Nat) {start : Reading}
    (declared : declaresVariable start.ahead = true) : CommitsToVariable bound start := by
  obtain ⟨front, typed, ahead, headed, begins⟩ := declaresVariable_headed declared
  rw [startsDeclarator, startsPair, Bool.and_eq_true] at begins
  obtain ⟨isName, ends⟩ := begins
  cases ahead with
  | nil => cases isName
  | cons name rest =>
    have isName : name.kind.isIdentifier = true := isName
    obtain ⟨left, head⟩ := headed.reads
    have reads : Reads variableHead start.ahead _ rest :=
      head.append ((identifierToken_reads isName rest).node .identifier)
    have shape : start.ahead = (front ++ typed ++ [name]) ++ rest := by
      rw [headed.shape]
      simp only [List.append_assoc, List.cons_append, List.nil_append]
    obtain ⟨named, read, consumes, rfl⟩ := consumes_of_reads variableHead_yields shape reads
    have next : named.stream.next.kind ∈
        [TokenKind.assign, .comma, .newline, .semicolon, .closing .brace, .endOfInput] := by
      rw [named.next_kind]
      rw [kindAt_cons_succ] at ends
      simpa only [endsDeclaratorName, Bool.or_eq_true, beq_iff_eq, or_assoc, List.mem_cons,
        List.not_mem_nil, or_false] using ends
    obtain ⟨expression, body⟩ := innerWithin_steady bound
    exact ⟨front, typed, name, named, headed.toHeads, isName, next, ⟨_, read⟩, consumes,
      localVariableDeclaration_steps read⟩

/-- Where looking ahead answers that a declaration is next, its head is read without an error, and
any error of the declaration is behind that head. -/
theorem declarations_commit (bound : Nat) (before after : Reading) :
    (methodAhead before = .ok true after → after.stream = before.stream ∧
      CommitsToMethod bound after) ∧
      (variableAhead before = .ok true after → after.stream = before.stream ∧
        CommitsToVariable bound after) := by
  constructor
  · intro ahead
    obtain ⟨same, answer⟩ := stream_of_methodAhead ahead
    obtain ⟨-, declared⟩ := Bool.and_eq_true_iff.mp answer.symm
    rw [Reading.ahead, ← same] at declared
    exact ⟨same, commitsToMethod bound declared⟩
  · intro ahead
    obtain ⟨same, answer⟩ := stream_of_variableAhead ahead
    obtain ⟨-, declared⟩ := Bool.and_eq_true_iff.mp answer.symm
    rw [Reading.ahead, ← same] at declared
    exact ⟨same, commitsToVariable bound declared⟩

/-- A method with a generic type and a string for its name commits also if its parameters are
refused, and a variable with an array of a dotted type commits where the input ends. -/
theorem declarations_commit_of_types :
    let method := Reading.ofTokens (Token.lineOf [(.modifier .staticWord, "static"),
      (.capitalizedIdentifier, "Map"), (.less, "<"), (.capitalizedIdentifier, "String"),
      (.comma, ","), (.primitiveType, "int"), (.opening .bracket, "["), (.closing .bracket, "]"),
      (.greater, ">"), (.literal .string, "'run'"), (.opening .paren, "("), (.comma, ","),
      (.closing .paren, ")"), (.opening .brace, "\x7b")])
    let array := Reading.ofTokens (Token.lineOf [(.modifier .finalWord, "final"),
      (.identifier, "a"), (.dot, "."), (.identifier, "b"), (.opening .bracket, "["),
      (.closing .bracket, "]"), (.identifier, "c")])
    (∃ after, methodAhead method = .ok true after ∧ CommitsToMethod 1 after) ∧
      (∃ after, variableAhead array = .ok true after ∧ CommitsToVariable 1 after) := by
  intro method array
  have first : methodAhead method =
      .ok true ⟨method.stream, [⟨.methodDeclaration, false, method.stream.next⟩]⟩ := by
    rfl
  have second : variableAhead array =
      .ok true ⟨array.stream, [⟨.localVariableDeclaration, false, array.stream.next⟩]⟩ := by
    rfl
  exact ⟨⟨_, first, ((declarations_commit 1 _ _).1 first).2⟩,
    ⟨_, second, ((declarations_commit 1 _ _).2 second).2⟩⟩

end Grammar

end GroovyTidy
