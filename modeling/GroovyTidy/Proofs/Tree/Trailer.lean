import GroovyTidy.Proofs.Tree.Gate
import GroovyTidy.Proofs.Tree.Grammatical

set_option autoImplicit false

/-!
What paths end with. The kind of a path says what its last step is, and so it is known of every
expression, from the kinds of the nodes around its path, whether it ends in a call. After such an
expression a command takes no arguments.
-/
namespace GroovyTidy

open scoped Computability
open Production

namespace Node

/-- The steps of a path. -/
def steps (path : Node) : List Node :=
  path.childNodes.filter fun child => child.kind = .pathElement

/-- What a step of a path is, by its children: a name after a dot, arguments, a closure or an index
in brackets. -/
def stepTrailer? (step : Node) : Option PathTrailer :=
  match step.children with
  | [.token access, .node .identifier _] =>
    if access.kind = .dot ∨ access.kind = .safeDot then some .member else none
  | [.node .arguments _] => some .arguments
  | [.node .closure _] => some .closure
  | [.token opening, .node .expressionList _, .token closing] =>
    if opening.kind = .opening .bracket ∧ closing.kind = .closing .bracket then some .index
    else none
  | _ => none

/-- What the last step of a path is, if it has steps. -/
def lastTrailer? (path : Node) : Option PathTrailer :=
  path.steps.getLast?.bind stepTrailer?

/-- An increment or a decrement is a child of the node. -/
def CarriesStep (node : Node) : Prop :=
  ∃ token, .token token ∈ node.children ∧ (token.kind = .increment ∨ token.kind = .decrement)

/-- The kind of a path says what its last step is, an expression is found to end in a call exactly
if it is neither assigned to nor stepped and its path ends in a call or a closure, and a command has
no arguments after such an expression. -/
structure EndsAsSaid (node : Node) : Prop where
  path : ∀ trailer, node.kind = .pathExpression trailer →
    (trailer = .bare ↔ node.steps = []) ∧ (trailer ≠ .bare → node.lastTrailer? = some trailer)
  expression : isExpression node.kind = true → ∃ operand path, node.firstNode? = some operand ∧
    operand.kind = .postfixExpression ∧ operand.firstNode? = some path ∧ isPath path.kind = true ∧
    (Grammar.endsInCall node.tree = true ↔ node.kind ≠ .assignmentAlternative ∧
      ¬ operand.CarriesStep ∧
      (path.lastTrailer? = some .arguments ∨ path.lastTrailer? = some .closure))
  command : node.kind = .commandExpression → (∃ list ∈ node.childNodes, list.kind = .argumentList) →
    ∃ left, node.firstNode? = some left ∧ isExpression left.kind = true ∧
      Grammar.endsInCall left.tree = false

end Node

/-! ## Paths -/

theorem stepTrailer?_of_pathStep {trailer : PathTrailer} {children : List Tree}
    (word : children ∈ pathStep trailer) :
    Node.stepTrailer? ⟨.pathElement, children⟩ = some trailer := by
  cases trailer with
  | bare => exact absurd word (Language.notMem_zero children)
  | member =>
    obtain ⟨_, ⟨access, accesses, rfl⟩, _, name, rfl⟩ := Language.mem_mul.mp word
    obtain ⟨below, rfl⟩ := mem_nodeOf.mp name
    have dotted : access.kind = .dot ∨ access.kind = .safeDot := by
      generalize access.kind = kind at accesses
      cases kind with
      | dot => exact .inl rfl
      | safeDot => exact .inr rfl
      | _ => cases accesses
    exact if_pos dotted
  | arguments =>
    obtain ⟨below, rfl⟩ := mem_nodeOf.mp word
    rfl
  | closure =>
    obtain ⟨below, rfl⟩ := mem_nodeOf.mp word
    rfl
  | index =>
    obtain ⟨_, front, _, closed, rfl⟩ := Language.mem_mul.mp word
    obtain ⟨_, opened, _, listed, rfl⟩ := Language.mem_mul.mp front
    obtain ⟨opening, opens, rfl⟩ := mem_leaf.mp opened
    obtain ⟨below, rfl⟩ := mem_nodeOf.mp listed
    obtain ⟨closing, closes, rfl⟩ := mem_leaf.mp closed
    exact if_pos ⟨opens, closes⟩

theorem steps_append (kind : NodeKind) (left right : List Tree) :
    Node.steps ⟨kind, left ++ right⟩ = Node.steps ⟨kind, left⟩ ++ Node.steps ⟨kind, right⟩ := by
  simp only [Node.steps, Node.childNodes, List.filterMap_append, List.filter_append]

theorem steps_of_primary (kind : NodeKind) {forest : List Tree}
    (primary : forest ∈ nodeWhere isPrimary) : Node.steps ⟨kind, forest⟩ = [] := by
  obtain ⟨found, children, isPrimary, rfl⟩ := primary
  have other : found ≠ .pathElement := by
    rintro rfl
    cases isPrimary
  simp [Node.steps, Node.childNodes, Tree.node?, other]

/-- A path whose trailer says that it has steps ends with a step of that sort. -/
theorem path_last_step {trailer : PathTrailer} (longer : trailer ≠ .bare) {children : List Tree}
    (word : children ∈ production (.pathExpression trailer)) :
    ∃ last, (Node.steps ⟨.pathExpression trailer, children⟩).getLast? = some last ∧
      last.stepTrailer? = some trailer := by
  have shape : production (.pathExpression trailer) =
      nodeWhere isPrimary * (nodeOf .pathElement)∗ * pathElement trailer := by
    cases trailer with
    | bare => exact absurd rfl longer
    | member | arguments | closure | index => rfl
  rw [shape] at word
  obtain ⟨front, -, _, ⟨inside, isStep, rfl⟩, rfl⟩ := Language.mem_mul.mp word
  refine ⟨⟨.pathElement, inside⟩, ?_, stepTrailer?_of_pathStep isStep⟩
  have last : Node.steps ⟨.pathExpression trailer, [.node .pathElement inside]⟩ =
      [⟨.pathElement, inside⟩] := rfl
  rw [steps_append, last, List.getLast?_append]
  rfl

/-- The trailer of a path is what its last step is. -/
theorem path_trailer {trailer : PathTrailer} {children : List Tree}
    (word : children ∈ production (.pathExpression trailer)) :
    (trailer = .bare ↔ Node.steps ⟨.pathExpression trailer, children⟩ = []) ∧
      (trailer ≠ .bare → Node.lastTrailer? ⟨.pathExpression trailer, children⟩ = some trailer) := by
  by_cases bare : trailer = .bare
  · subst bare
    exact ⟨iff_of_true rfl (steps_of_primary _ word), fun longer => absurd rfl longer⟩
  · obtain ⟨last, ending, known⟩ := path_last_step bare word
    refine ⟨iff_of_false bare ?_, fun _ => ?_⟩
    · intro none
      rw [none] at ending
      cases ending
    · rw [Node.lastTrailer?, ending]
      exact known

/-! ## Expressions -/

theorem isPath_iff {kind : NodeKind} :
    isPath kind = true ↔ ∃ trailer, kind = .pathExpression trailer := by
  constructor
  · intro path
    cases kind with
    | pathExpression trailer => exact ⟨trailer, rfl⟩
    | _ => cases path
  · rintro ⟨trailer, rfl⟩
    rfl

/-- A path stands first under a postfix expression, and an increment or a decrement may follow
it. -/
theorem postfix_shape {children : List Tree} (word : children ∈ production .postfixExpression) :
    ∃ trailer below rest, children = .node (.pathExpression trailer) below :: rest ∧
      (rest = [] ∨ ∃ token, (token.kind = .increment ∨ token.kind = .decrement) ∧
        rest = [.token token]) := by
  obtain ⟨_, ⟨kind, below, path, rfl⟩, _, optional, rfl⟩ := Language.mem_mul.mp word
  obtain ⟨trailer, rfl⟩ := isPath_iff.mp path
  refine ⟨trailer, below, _, rfl, ?_⟩
  rcases optional with rfl | ⟨token, steps, rfl⟩
  · exact .inl rfl
  · rw [Grammar.isStep, Bool.or_eq_true, beq_iff_eq, beq_iff_eq] at steps
    exact .inr ⟨token, steps, rfl⟩

/-- A postfix expression stands first under an expression, and nothing follows it unless a value is
assigned to it. -/
theorem expression_shape {kind : NodeKind} (isExpr : isExpression kind = true)
    {children : List Tree} (word : children ∈ production kind) :
    ∃ below rest, children = .node .postfixExpression below :: rest ∧
      (kind = .postfixAlternative ∧ rest = [] ∨ kind = .assignmentAlternative) := by
  rw [isExpression, Bool.or_eq_true, beq_iff_eq, beq_iff_eq] at isExpr
  rcases isExpr with rfl | rfl
  · obtain ⟨below, rfl⟩ := mem_nodeOf.mp word
    exact ⟨below, [], rfl, .inl ⟨rfl, rfl⟩⟩
  · obtain ⟨_, front, value, -, rfl⟩ := Language.mem_mul.mp word
    obtain ⟨_, operand, sign, -, rfl⟩ := Language.mem_mul.mp front
    obtain ⟨below, rfl⟩ := mem_nodeOf.mp operand
    exact ⟨below, sign ++ value, rfl, .inr rfl⟩

theorem lastTrailer?_eq_some_iff {trailer wanted : PathTrailer} (longer : wanted ≠ .bare)
    {children : List Tree} (word : children ∈ production (.pathExpression trailer)) :
    Node.lastTrailer? ⟨.pathExpression trailer, children⟩ = some wanted ↔ trailer = wanted := by
  obtain ⟨bare, known⟩ := path_trailer word
  by_cases none : trailer = .bare
  · rw [Node.lastTrailer?, bare.mp none, none]
    exact iff_of_false (fun found => nomatch found) longer.symm
  · rw [known none, Option.some_inj]

/-- An expression ends in a call exactly if its path does, unless a value is assigned to it or it is
stepped. -/
theorem endsInCall_iff {node : Node} (isExpr : isExpression node.kind = true)
    (conforms : node.tree.Conforms) :
    ∃ operand path, node.firstNode? = some operand ∧ operand.kind = .postfixExpression ∧
      operand.firstNode? = some path ∧ isPath path.kind = true ∧
      (Grammar.endsInCall node.tree = true ↔ node.kind ≠ .assignmentAlternative ∧
        ¬ operand.CarriesStep ∧
        (path.lastTrailer? = some .arguments ∨ path.lastTrailer? = some .closure)) := by
  obtain ⟨kind, children⟩ := node
  obtain ⟨inside, rest, rfl, alternative⟩ := expression_shape isExpr conforms.word
  have operand : (Tree.node .postfixExpression inside).Conforms :=
    conforms.children _ List.mem_cons_self
  obtain ⟨trailer, below, more, rfl, stepped⟩ := postfix_shape operand.word
  have path : (Tree.node (.pathExpression trailer) below).Conforms :=
    operand.children _ List.mem_cons_self
  refine ⟨⟨.postfixExpression, _⟩, ⟨.pathExpression trailer, below⟩, rfl, rfl, rfl, rfl, ?_⟩
  rw [lastTrailer?_eq_some_iff (by decide) path.word,
    lastTrailer?_eq_some_iff (by decide) path.word]
  dsimp only at alternative
  rcases alternative with ⟨rfl, rfl⟩ | rfl
  · rcases stepped with rfl | ⟨token, steps, rfl⟩
    · have plain :
          ¬ Node.CarriesStep ⟨.postfixExpression, [.node (.pathExpression trailer) below]⟩ := by
        rintro ⟨token, member, -⟩
        cases List.mem_singleton.mp member
      have call : Grammar.endsInCall
          (.node .postfixAlternative
            [.node .postfixExpression [.node (.pathExpression trailer) below]]) = true ↔
          trailer = .arguments ∨ trailer = .closure := by
        cases trailer <;> simp [Grammar.endsInCall]
      have unassigned : NodeKind.postfixAlternative ≠ .assignmentAlternative := by decide
      exact call.trans ⟨fun ends => ⟨unassigned, plain, ends⟩, fun ⟨_, _, ends⟩ => ends⟩
    · have carries :
          Node.CarriesStep ⟨.postfixExpression,
            [.node (.pathExpression trailer) below, .token token]⟩ :=
        ⟨token, List.mem_cons_of_mem _ List.mem_cons_self, steps⟩
      have none : Grammar.endsInCall (.node .postfixAlternative
          [.node .postfixExpression [.node (.pathExpression trailer) below, .token token]]) =
            false := by
        cases trailer <;> rfl
      exact iff_of_false (Bool.eq_false_iff.mp none) fun ⟨_, plain, _⟩ => plain carries
  · exact iff_of_false Bool.false_ne_true fun ⟨other, _⟩ => other rfl

/-! ## Commands -/

/-- The expression of a command with arguments does not end in a call. -/
theorem command_gated {node : Node} (isCommand : node.kind = .commandExpression)
    (conforms : node.tree.Conforms) (gated : node.tree.Gated)
    (argued : ∃ list ∈ node.childNodes, list.kind = .argumentList) :
    ∃ left, node.firstNode? = some left ∧ isExpression left.kind = true ∧
      Grammar.endsInCall left.tree = false := by
  obtain ⟨kind, children⟩ := node
  obtain rfl : kind = .commandExpression := isCommand
  obtain ⟨_, ⟨kind, below, isExpr, rfl⟩, _, optional, rfl⟩ := Language.mem_mul.mp conforms.word
  rcases optional with rfl | arguments
  · obtain ⟨list, member, isList⟩ := argued
    have same : list = ⟨kind, below⟩ := List.mem_singleton.mp member
    rw [same] at isList
    rw [show kind = .argumentList from isList] at isExpr
    cases isExpr
  · obtain ⟨inside, rfl⟩ := mem_nodeOf.mp arguments
    cases gated with
    | node gate _ => exact ⟨⟨kind, below⟩, rfl, isExpr, gate rfl _ _ rfl⟩

/-- In the tree of any list of tokens that is accepted, paths, expressions and commands end as their
nodes say. -/
theorem paths_end_as_said {tokens : List Token} {unit : Node}
    (success : parseTokens tokens = .ok unit) : ∀ node ∈ unit.preorder, node.EndsAsSaid := by
  have all : ∀ node ∈ unit.preorder, node.tree.Conforms ∧ node.tree.Gated := by
    refine Node.forall_preorder ?_ ⟨(parseTokens_conforms success).2, parseTokens_gated success⟩
    intro node child given member
    exact ⟨given.1.children _ (Node.mem_childNodes member),
      given.2.children _ (Node.mem_childNodes member)⟩
  intro node member
  obtain ⟨conforms, gated⟩ := all node member
  refine ⟨?_, fun isExpr => endsInCall_iff isExpr conforms,
    fun isCommand => command_gated isCommand conforms gated⟩
  intro trailer isPath
  obtain ⟨kind, children⟩ := node
  obtain rfl : kind = .pathExpression trailer := isPath
  exact path_trailer conforms.word

/-- A call with an index, a name and a closure behind it, a step and an assignment, and a command
with arguments inside a closure. -/
theorem paths_end_as_said_of_closure :
    ∃ tokens unit, tokenize "a(1)[b].c \x7b run d.e, f() \x7d; g()++; h = i()" = .ok tokens ∧
      parseTokens tokens = .ok unit ∧
      (∃ node ∈ unit.preorder, node.kind = .pathExpression .closure) ∧
      ∀ node ∈ unit.preorder, node.EndsAsSaid := by
  have accepted :
      (parse "a(1)[b].c \x7b run d.e, f() \x7d; g()++; h = i()").toOption.any (fun unit =>
        unit.preorder.any fun node => node.kind = .pathExpression .closure) = true := by
    decide +kernel
  match parsed : parse "a(1)[b].c \x7b run d.e, f() \x7d; g()++; h = i()" with
  | .ok unit =>
    obtain ⟨tokens, lexed, read⟩ := parse_eq_ok parsed
    rw [parsed] at accepted
    obtain ⟨node, member, isPath⟩ := List.any_eq_true.mp accepted
    exact ⟨tokens, unit, lexed, read, ⟨node, member, of_decide_eq_true isPath⟩,
      paths_end_as_said read⟩
  | .error _ =>
    rw [parsed] at accepted
    cases accepted

end GroovyTidy
