import GroovyTidy.Proofs.Tree.Conform
import GroovyTidy.Tree.Parse

set_option autoImplicit false

/-!
The gate before the arguments of a command. A command takes arguments without parentheses only if
its expression does not end in a call, and this holds of every command in a tree, however deep it is
nested.
-/
namespace GroovyTidy

open Lookahead Rule

/-- In no command of the tree arguments follow an expression that ends in a call. -/
inductive Tree.Gated : Tree → Prop where
  | token (token : Token) : Gated (.token token)
  | node {kind : NodeKind} {children : List Tree}
      (gate : kind = .commandExpression → ∀ left right, children = [left, right] →
        Grammar.endsInCall left = false)
      (below : ∀ child ∈ children, Gated child) : Gated (.node kind children)

theorem Tree.Gated.children {kind : NodeKind} {children : List Tree}
    (gated : (Tree.node kind children).Gated) : ∀ child ∈ children, child.Gated := by
  cases gated with
  | node _ below => exact below

namespace Rule

/-- All trees that the rule gives are gated. -/
def Gates (rule : Rule) : Prop :=
  Meets rule fun _ forest _ => ∀ tree ∈ forest, tree.Gated

section

variable {front back rule : Rule}

theorem Gates.pure {forest : List Tree} (given : ∀ tree ∈ forest, tree.Gated) :
    Gates (pure forest) := by
  intro before value after success
  obtain ⟨rfl, rfl⟩ := pure_eq_ok.mp success
  exact given

theorem nothing_gates : Gates nothing :=
  .pure (List.forall_mem_nil _)

theorem refuse_gates (wanted : Wanted) : Gates (refuse wanted) := by
  intro before forest after success
  exact absurd success refuse_ne_ok

theorem accept_gates (test : TokenKind → Bool) (wanted : Wanted) : Gates (accept test wanted) := by
  intro before forest after success
  obtain ⟨-, rfl, -⟩ := accept_eq_ok.mp success
  exact List.forall_mem_singleton.mpr (.token _)

theorem token_gates (kind : TokenKind) : Gates (token kind) :=
  accept_gates _ _

/-- What depends on trees that were given before. -/
theorem Gates.bind {next : List Tree → Rule} (first : Gates front)
    (second : ∀ left, (∀ tree ∈ left, tree.Gated) → Gates (next left)) :
    Gates (front >>= next) := by
  intro before forest after success
  obtain ⟨left, middle, given, rest⟩ := bind_eq_ok.mp success
  exact second left (first _ _ _ given) _ _ _ rest

theorem Gates.append (first : Gates front) (second : Gates back) : Gates (front ++ back) := by
  intro before forest after success
  obtain ⟨left, middle, right, frontDone, backDone, rfl⟩ := sequence_eq_ok.mp success
  exact List.forall_mem_append.mpr ⟨first _ _ _ frontDone, second _ _ _ backDone⟩

/-- Nodes of other kinds than commands are gated if all below them is. -/
theorem Gates.node {kind : NodeKind} (other : kind ≠ .commandExpression) (given : Gates rule) :
    Gates (Rule.node kind rule) := by
  intro before forest after success
  obtain ⟨children, inside, rfl⟩ := node_eq_ok.mp success
  exact List.forall_mem_singleton.mpr (.node (fun same => absurd same other) (given _ _ _ inside))

theorem Gates.lookingAhead {choose : List Token → Rule} (given : ∀ ahead, Gates (choose ahead)) :
    Gates (Rule.lookingAhead choose) := by
  intro before forest after success
  exact given before.ahead _ _ _ success

theorem Gates.ite {condition : Prop} [Decidable condition] (yes : Gates front) (no : Gates back) :
    Gates (if condition then front else back) := by
  split <;> assumption

theorem Gates.when (test : List Token → Bool) (given : Gates rule) : Gates (Rule.when test rule) :=
  .lookingAhead fun _ => .ite given nothing_gates

theorem Gates.manyWhile (test : List Token → Bool) (given : Gates rule) :
    Gates (Rule.manyWhile test rule) := by
  intro before forest after success
  obtain ⟨turns, repeated, rfl⟩ := manyWhile_eq_ok success
  have each : ∀ turn ∈ turns, ∀ tree ∈ turn, tree.Gated :=
    (many_repeats repeated).forall_mem fun chosen done => by
      obtain ⟨-, rfl⟩ := of_chosen chosen
      exact given _ _ _ done
  intro tree member
  obtain ⟨turn, listed, inside⟩ := List.mem_flatten.mp member
  exact each turn listed tree inside

theorem Gates.commaSeparated (given : Gates rule) : Gates (Rule.commaSeparated rule) :=
  given.append (.manyWhile _ ((token_gates _).append given))

end

end Rule

namespace Grammar

/-! ## The grammar -/

theorem separators_gates : Gates separators :=
  .manyWhile _ (accept_gates _ _)

theorem separatorsAfter_gates : Gates separatorsAfter :=
  (accept_gates _ _).append separators_gates

theorem identifierToken_gates : Gates identifierToken :=
  accept_gates _ _

theorem identifier_gates : Gates identifier :=
  .node (by decide) identifierToken_gates

theorem qualifiedName_gates : Gates qualifiedName :=
  .node (by decide)
    (identifier_gates.append (.manyWhile _ ((token_gates _).append identifier_gates)))

theorem packageDeclaration_gates : Gates packageDeclaration :=
  .node (by decide) ((token_gates _).append qualifiedName_gates)

theorem importTail_gates : Gates importTail :=
  .lookingAhead fun _ => .ite ((token_gates _).append (token_gates _))
    (.when _ ((token_gates _).append identifier_gates))

theorem importDeclaration_gates : Gates importDeclaration :=
  .node (by decide)
    ((((token_gates _).append (.when _ (token_gates _))).append qualifiedName_gates).append
      importTail_gates)

theorem modifiers_gates : Gates modifiers :=
  .when _ (.node (by decide) (.manyWhile _ (accept_gates _ _)))

theorem namedType_gates {type : Rule} (given : Gates type) : Gates (namedType type) := by
  have arguments : Gates (typeArguments type) :=
    .node (by decide) (((token_gates _).append given.commaSeparated).append (token_gates _))
  exact (identifierToken_gates.append
    (.manyWhile _ ((token_gates _).append identifierToken_gates))).append
    (.when _ arguments)

theorem typeWithin_gates (bound : Nat) : Gates (typeWithin bound) := by
  induction bound with
  | zero => exact refuse_gates _
  | succ bound ih =>
    exact .node (by decide)
      ((Gates.lookingAhead fun _ => .ite (accept_gates _ _) (namedType_gates ih)).append
        (.manyWhile _ ((token_gates _).append (token_gates _))))

theorem type_gates : Gates type :=
  .lookingAhead fun _ => typeWithin_gates _

section

variable {inner : Inner} (expression : Gates inner.expression) (body : Gates inner.body)
include expression

theorem formalParameter_gates : Gates (formalParameter inner) :=
  .node (by decide) (((modifiers_gates.append (.when _ type_gates)).append identifier_gates).append
    (.when _ ((token_gates _).append expression)))

theorem formalParameters_gates : Gates (formalParameters inner) :=
  .node (by decide)
    (((token_gates _).append (.when _ (formalParameter_gates expression).commaSeparated)).append
      (token_gates _))

theorem argumentList_gates : Gates (argumentList inner) :=
  .node (by decide) (expression.node (by decide)).commaSeparated

theorem expressionList_gates : Gates (expressionList inner) :=
  .node (by decide) (expression.node (by decide)).commaSeparated

theorem arguments_gates : Gates (arguments inner) :=
  .node (by decide) (((token_gates _).append (.when _ (argumentList_gates expression))).append
    (token_gates _))

theorem variableDeclarator_gates : Gates (variableDeclarator inner) :=
  .node (by decide) (identifier_gates.append (.when _ ((token_gates _).append expression)))

theorem localVariableDeclaration_gates : Gates (localVariableDeclaration inner) :=
  .node (by decide) ((modifiers_gates.append (.when _ type_gates)).append
    (variableDeclarator_gates expression).commaSeparated)

theorem returnStatement_gates : Gates (returnStatement inner) :=
  .node (by decide) ((token_gates _).append (.when _ expression))

omit expression
include body

theorem block_gates : Gates (block inner) :=
  .node (by decide) ((((token_gates _).append separators_gates).append (.when _ body)).append
    (token_gates _))

include expression

theorem closure_gates : Gates (closure inner) := by
  have parameters : Gates (closureParameters inner) :=
    .manyWhile _ ((formalParameter_gates expression).append (.when _ (token_gates _)))
  have head :=
    Gates.when startsClosureHead ((parameters.append (token_gates .arrow)).append separators_gates)
  exact .node (by decide)
    (((((token_gates _).append separators_gates).append head).append (.when _ body)).append
      (token_gates _))

theorem primary_gates : Gates (primary inner) := by
  refine .lookingAhead fun ahead => ?_
  dsimp only
  split
  · exact identifier_gates.node (by decide)
  · split
    · exact ((accept_gates _ _).node (by decide)).node (by decide)
    · split
      · exact .node (by decide) (((token_gates _).append expression).append (token_gates _))
      · exact (closure_gates expression body).node (by decide)
      · exact .node (by decide)
          (((token_gates _).append (.when _ (expressionList_gates expression))).append
            (token_gates _))
      · exact refuse_gates _

theorem pathStep_gates (trailer : PathTrailer) : Gates (pathStep inner trailer) := by
  cases trailer with
  | bare => exact nothing_gates
  | member => exact (accept_gates _ _).append identifier_gates
  | arguments => exact arguments_gates expression
  | closure => exact closure_gates expression body
  | index => exact ((token_gates _).append (expressionList_gates expression)).append (token_gates _)

theorem pathExpression_gates : Gates (pathExpression inner) := by
  intro before forest after success
  simp only [pathExpression, bind_eq_ok, pure_eq_ok] at success
  obtain ⟨first, middle, started, steps, reached, repeated, rfl, rfl⟩ := success
  have start := primary_gates expression body _ _ _ started
  have each : ∀ step ∈ steps, ∀ tree ∈ step.2, tree.Gated :=
    (many_repeats repeated).forall_mem fun chosen done => by
      obtain ⟨trailer, -, rfl⟩ := Option.map_eq_some_iff.mp chosen
      simp only [pathElement, bind_eq_ok, pure_eq_ok] at done
      obtain ⟨trees, unmoved, given, rfl, rfl⟩ := done
      exact (pathStep_gates expression body trailer).node (by decide) _ _ _ given
  refine List.forall_mem_singleton.mpr (.node ?_ (List.forall_mem_append.mpr ⟨start, ?_⟩))
  · intro same
    cases same
  · intro tree member
    obtain ⟨trees, listed, inside⟩ := List.mem_flatten.mp member
    obtain ⟨step, isStep, rfl⟩ := List.mem_map.mp listed
    exact each step isStep tree inside

theorem expressionOver_gates : Gates (expressionOver inner) := by
  have start : Gates (postfixExpression inner) :=
    .node (by decide) ((pathExpression_gates expression body).append (.when _ (accept_gates _ _)))
  refine start.bind fun left given => .lookingAhead fun _ => ?_
  have kept : Gates (pure left) := .pure given
  exact .ite (.node (by decide) ((kept.append (token_gates _)).append expression))
    (kept.node (by decide))

omit expression body in
theorem expressionOver_single {before after : Reading} {forest : List Tree}
    (success : expressionOver inner before = .ok forest after) : ∃ tree, forest = [tree] := by
  obtain ⟨left, middle, -, rest⟩ := bind_eq_ok.mp success
  simp only [lookingAhead] at rest
  split at rest
  · obtain ⟨children, -, rfl⟩ := node_eq_ok.mp rest
    exact ⟨_, rfl⟩
  · obtain ⟨children, -, rfl⟩ := node_eq_ok.mp rest
    exact ⟨_, rfl⟩

omit body in
/-- Arguments are given only after an expression that does not end in a call. -/
theorem commandArguments_gated {given : List Tree} {before after : Reading} {forest : List Tree}
    (success : commandArguments inner given before = .ok forest after) :
    (∀ tree ∈ forest, tree.Gated) ∧ (forest ≠ [] → given.any endsInCall = false) := by
  rcases when_eq_ok.mp success with ⟨-, done⟩ | ⟨-, rfl, -⟩
  · obtain ⟨_, noted, -, rest⟩ := bind_eq_ok.mp done
    cases ruledOut : given.any endsInCall with
    | true =>
      rw [ruledOut] at rest
      obtain ⟨rfl, -⟩ := pure_eq_ok.mp rest
      exact ⟨List.forall_mem_nil _, fun filled => absurd rfl filled⟩
    | false =>
      rw [ruledOut] at rest
      exact ⟨argumentList_gates expression _ _ _ rest, fun _ => rfl⟩
  · exact ⟨List.forall_mem_nil _, fun filled => absurd rfl filled⟩

theorem commandExpression_gates : Gates (commandExpression inner) := by
  intro before forest after success
  obtain ⟨children, inside, rfl⟩ := node_eq_ok.mp success
  simp only [bind_eq_ok, pure_eq_ok] at inside
  obtain ⟨given, middle, started, rest, reached, argued, rfl, rfl⟩ := inside
  obtain ⟨tree, rfl⟩ := expressionOver_single started
  obtain ⟨gated, gate⟩ := commandArguments_gated expression argued
  refine List.forall_mem_singleton.mpr (.node ?_ ?_)
  · rintro - left right shape
    obtain ⟨rfl, rfl⟩ := List.cons.inj shape
    have quiet := gate (List.cons_ne_nil _ _)
    rwa [List.any_cons, List.any_nil, Bool.or_false] at quiet
  · exact List.forall_mem_append.mpr ⟨expressionOver_gates expression body _ _ _ started, gated⟩

theorem methodDeclaration_gates : Gates (methodDeclaration inner) := by
  have name : Gates methodName :=
    .lookingAhead fun _ => .ite ((token_gates _).node (by decide)) identifier_gates
  exact .node (by decide) ((((modifiers_gates.append (.when _ type_gates)).append name).append
    (formalParameters_gates expression)).append (block_gates body))

theorem plainStatement_gates : Gates (plainStatement inner) := by
  intro before forest after success
  obtain ⟨asked, -, shape⟩ := plainStatement_eq inner before
  rw [shape] at success
  refine Gates.ite ?_ (.ite ?_ ?_) _ _ _ success
  · exact (methodDeclaration_gates expression body).node (by decide)
  · exact (localVariableDeclaration_gates expression).node (by decide)
  · exact ((commandExpression_gates expression body).node (by decide)).node (by decide)

theorem statement_gates : Gates (statement inner) :=
  .lookingAhead fun _ => .ite (importDeclaration_gates.node (by decide))
    (.ite (returnStatement_gates expression) (plainStatement_gates expression body))

theorem statements_gates (stop : TokenKind) : Gates (statements inner stop) := by
  have each := statement_gates expression body
  exact .node (by decide) (each.append (.manyWhile _ (separatorsAfter_gates.append (.when _ each))))

end

theorem innerWithin_gates (bound : Nat) :
    Gates (innerWithin bound).expression ∧ Gates (innerWithin bound).body := by
  induction bound with
  | zero => exact ⟨refuse_gates _, refuse_gates _⟩
  | succ bound ih => exact ⟨expressionOver_gates ih.1 ih.2, statements_gates ih.1 ih.2 _⟩

theorem compilationUnit_gates : Gates compilationUnit := by
  refine .lookingAhead fun ahead => ?_
  obtain ⟨expression, body⟩ := innerWithin_gates (ahead.length + 1)
  have package : Gates packageHead :=
    packageDeclaration_gates.append
      (.lookingAhead fun _ => .ite nothing_gates separatorsAfter_gates)
  exact .node (by decide) (((separators_gates.append (.when _ package)).append
    (.when _ (statements_gates expression body _))).append (token_gates _))

end Grammar

/-- A unit that is read from tokens is gated. -/
theorem parseTokens_gated {tokens : List Token} {unit : Node}
    (success : parseTokens tokens = .ok unit) : unit.tree.Gated := by
  unfold parseTokens readTokens at success
  split at success
  · rename_i trees reading read
    have gated := Grammar.compilationUnit_gates _ _ _ read
    obtain ⟨children, -, rfl⟩ := node_eq_ok.mp read
    cases success
    exact gated _ (List.mem_singleton.mpr rfl)
  · cases success

end GroovyTidy
