import GroovyTidy.Proofs.Format.Stable
import GroovyTidy.Proofs.Tree.Grammatical

set_option autoImplicit false

/-!
The grammar accepts what it describes. The tokens of an expression tree without closures, whatever
their texts and places, are read back as that tree. The rules contain one another through `Inner`,
so the induction is on a bound for the number of tokens: what stands inside an expression has fewer
of them.
-/
namespace GroovyTidy

open scoped Computability
open Lookahead Production Rule

/-- The node conforms to the grammar, and no closure stands in it. -/
structure Node.Plain (node : Node) : Prop where
  conforms : node.tree.Conforms
  noClosure : ∀ below ∈ node.preorder, below.kind ≠ .closure

theorem Node.Plain.child {node : Node} (plain : node.Plain) {kind : NodeKind} {children : List Tree}
    (member : .node kind children ∈ node.children) : Node.Plain ⟨kind, children⟩ := by
  refine ⟨plain.conforms.children _ member, ?_⟩
  intro below inside
  apply plain.noClosure below
  have isChild : Node.mk kind children ∈ node.childNodes := List.mem_filterMap.mpr ⟨_, member, rfl⟩
  rw [Node.preorder_eq]
  exact List.mem_cons_of_mem _ (List.mem_flatten.mpr ⟨_, List.mem_map_of_mem isChild, inside⟩)

theorem Node.Plain.kind_ne {kind : NodeKind} {children : List Tree}
    (plain : Node.Plain ⟨kind, children⟩) : kind ≠ .closure := by
  apply plain.noClosure ⟨kind, children⟩
  rw [Node.preorder_eq]
  exact List.mem_cons_self

theorem Tree.tokens_length_le {tree : Tree} {forest : List Tree} (member : tree ∈ forest) :
    tree.tokens.length ≤ (Tree.forestTokens forest).length := by
  obtain ⟨front, back, rfl⟩ := List.append_of_mem member
  rw [Tree.forestTokens_append, Tree.forestTokens, List.length_append, List.length_append]
  omega

namespace Rule

/-- With the tokens of the trees ahead, and then the rest, the rule gives the trees and leaves the
rest. -/
def Recovers (rule : Rule) (forest : List Tree) (rest : List Token) : Prop :=
  Reads rule (Tree.forestTokens forest ++ rest) forest rest

namespace Recovers

variable {rest : List Token}

theorem accept {test : TokenKind → Bool} (wanted : Wanted) {token : Token}
    (passed : test token.kind = true) : Recovers (Rule.accept test wanted) [.token token] rest :=
  accept_reads wanted passed rest

theorem token {kind : TokenKind} {token : Token} (same : token.kind = kind) :
    Recovers (Rule.token kind) [.token token] rest :=
  token_reads same rest

theorem append {front back : Rule} {left right : List Tree}
    (first : Recovers front left (Tree.forestTokens right ++ rest))
    (second : Recovers back right rest) : Recovers (front ++ back) (left ++ right) rest := by
  unfold Recovers
  rw [Tree.forestTokens_append, List.append_assoc]
  exact Reads.append first second

theorem node {children : Rule} {forest : List Tree} (given : Recovers children forest rest)
    (kind : NodeKind) : Recovers (Rule.node kind children) [.node kind forest] rest := by
  unfold Recovers
  rw [Tree.forestTokens, Tree.tokens, Tree.forestTokens, List.append_nil]
  exact Reads.node given kind

end Recovers

/-- A list is recovered if each item is, before a comma and before what follows the list. The
induction keeps apart the first item and the rounds for those after it. -/
theorem Recovers.commaSeparated {item : Rule} {kind : NodeKind} {nodes : List Node}
    {forest : List Tree} (list : Interleaved .comma kind nodes forest) {rest : List Token}
    (each : ∀ node ∈ nodes, ∀ more, (kindAt more 0 = .comma ∨ more = rest) →
      Recovers item [node.tree] more)
    (stops : startsWith .comma rest = false) : Recovers (Rule.commaSeparated item) forest rest := by
  have parts : ∃ middle first turns, forest = first :: turns.flatten ∧
      middle.length ≤ (Tree.forestTokens forest ++ rest).length ∧
      Reads item (Tree.forestTokens forest ++ rest) [first] middle ∧
      Rounds (startsWith .comma) (Rule.token .comma ++ item) middle turns rest := by
    induction list with
    | single children =>
      refine ⟨rest, _, [], rfl, ?_, each ⟨kind, children⟩ (by simp) rest (.inr rfl), .stop stops⟩
      rw [List.length_append]
      omega
    | @cons nodes forest children mark marked list ih =>
      obtain ⟨here, later⟩ := List.forall_mem_cons.mp each
      obtain ⟨middle, first, turns, rfl, shorter, reads, rounds⟩ := ih later
      have given :=
        here (mark :: (Tree.forestTokens (first :: turns.flatten) ++ rest)) (.inl marked)
      refine ⟨mark :: (Tree.forestTokens (first :: turns.flatten) ++ rest), .node kind children,
        [.token mark, first] :: turns, rfl, ?_, ?_, ?_⟩
      · simp only [Tree.forestTokens, Tree.tokens, List.length_append, List.length_cons]
        omega
      · simpa only [Recovers, Node.tree, Tree.forestTokens, Tree.tokens, List.append_nil,
          List.append_assoc, List.cons_append, List.nil_append] using given
      · refine .turn (beq_iff_eq.mpr marked) ((token_reads marked _).append reads) ?_ rounds
        rw [List.length_cons]
        omega
  obtain ⟨middle, first, turns, rfl, -, reads, rounds⟩ := parts
  exact Reads.append reads rounds.manyWhile

end Rule

/-! ## How expressions start -/

/-- The first token under a node of such a kind starts an expression. -/
def NodeKind.leadsExpression : NodeKind → Bool
  | .postfixAlternative | .assignmentAlternative | .postfixExpression | .pathExpression _
  | .identifierPrimary | .literalPrimary | .parenthesizedPrimary | .closurePrimary | .listPrimary
  | .closure | .expressionList | .argumentList | .argumentListElement | .expressionListElement
  | .identifier | .literal => true
  | _ => false

def Tree.leadsExpression : Tree → Bool
  | .token leaf => leaf.kind.startsExpression
  | .node kind _ => kind.leadsExpression

namespace Production

/-- Every word of the language starts with a tree that starts an expression. -/
def Leads (language : Language Tree) : Prop :=
  ∀ forest ∈ language, ∃ tree rest, forest = tree :: rest ∧ tree.leadsExpression = true

theorem leafWhere_leads {test : TokenKind → Bool}
    (starts : ∀ kind, test kind = true → kind.startsExpression = true) :
    Leads (leafWhere test) := by
  intro forest word
  obtain ⟨token, passed, rfl⟩ := word
  exact ⟨_, [], rfl, starts token.kind passed⟩

theorem leaf_leads (delimiter : Delimiter) : Leads (leaf (.opening delimiter)) := by
  apply leafWhere_leads
  intro kind same
  rw [beq_iff_eq.mp same]
  rfl

theorem nodeWhere_leads {test : NodeKind → Bool}
    (leads : ∀ kind, test kind = true → kind.leadsExpression = true) : Leads (nodeWhere test) := by
  intro forest word
  obtain ⟨kind, children, passed, rfl⟩ := word
  exact ⟨_, [], rfl, leads kind passed⟩

theorem nodeOf_leads {kind : NodeKind} (leads : kind.leadsExpression = true) :
    Leads (nodeOf kind) := by
  apply nodeWhere_leads
  intro found same
  rw [beq_iff_eq.mp same, leads]

theorem Leads.mul {left : Language Tree} (leads : Leads left) (right : Language Tree) :
    Leads (left * right) := by
  intro forest word
  obtain ⟨front, first, back, second, rfl⟩ := Language.mem_mul.mp word
  obtain ⟨tree, rest, rfl, started⟩ := leads front first
  exact ⟨tree, rest ++ back, rfl, started⟩

theorem primary_leads : Leads (nodeWhere isPrimary) := by
  apply nodeWhere_leads
  intro kind primary
  cases kind with
  | identifierPrimary | literalPrimary | parenthesizedPrimary | closurePrimary | listPrimary => rfl
  | _ => cases primary

theorem expression_leads : Leads expression := by
  apply nodeWhere_leads
  intro kind found
  cases kind with
  | postfixAlternative | assignmentAlternative => rfl
  | _ => cases found

end Production

theorem production_leads {kind : NodeKind} (leads : kind.leadsExpression = true) :
    Leads (production kind) := by
  cases kind with
  | postfixAlternative | identifierPrimary | literalPrimary | closurePrimary =>
    exact nodeOf_leads rfl
  | assignmentAlternative => exact ((nodeOf_leads rfl).mul _).mul _
  | argumentList | expressionList => exact (nodeOf_leads rfl).mul _
  | argumentListElement | expressionListElement => exact expression_leads
  | postfixExpression =>
    refine Leads.mul (nodeWhere_leads ?_) _
    intro kind isPath
    cases kind with
    | pathExpression => rfl
    | _ => cases isPath
  | pathExpression trailer =>
    cases trailer with
    | bare => exact primary_leads
    | member | arguments | closure | index => exact (primary_leads.mul _).mul _
  | parenthesizedPrimary | listPrimary => exact ((leaf_leads _).mul _).mul _
  | closure => exact ((((leaf_leads _).mul _).mul _).mul _).mul _
  | identifier | literal =>
    apply leafWhere_leads
    intro kind passed
    cases kind <;> first | rfl | cases passed
  | _ => cases leads

/-- The first token under an expression, or under a part at its start, starts an expression. -/
theorem Tree.Conforms.starts_expression {tree : Tree} (conforms : tree.Conforms)
    (leads : tree.leadsExpression = true) (rest : List Token) :
    starts TokenKind.startsExpression (tree.tokens ++ rest) = true := by
  induction conforms generalizing rest with
  | token token => exact leads
  | node kind children word below ih =>
    obtain ⟨first, others, rfl, firstLeads⟩ := production_leads leads _ word
    rw [Tree.tokens, Tree.forestTokens, List.append_assoc]
    exact ih first List.mem_cons_self firstLeads _

namespace Grammar

theorem startsWith_of_starts {test : TokenKind → Bool} {ahead : List Token}
    (started : starts test ahead = true) {kind : TokenKind} (other : test kind = false) :
    startsWith kind ahead = false := by
  apply beq_eq_false_iff_ne.mpr
  intro same
  rw [starts, same, other] at started
  cases started

/-- Neither an increment nor an assignment goes on a path. -/
theorem trailerAhead?_none {ahead : List Token}
    (other : (isStep (kindAt ahead 0) || kindAt ahead 0 == .assign) = true) :
    trailerAhead? ahead = none := by
  unfold trailerAhead? startsPair
  generalize kindAt ahead 0 = kind at other
  cases kind with
  | increment | decrement | assign => rfl
  | _ => cases other

/-- The rule for an expression inside recovers every expression with fewer tokens than a bound,
wherever what follows does not go on with it. -/
def Inner.Complete (inner : Inner) (bound : Nat) : Prop :=
  ∀ {kind : NodeKind} {children : List Tree}, isExpression kind = true →
    Node.Plain ⟨kind, children⟩ →
    (Tree.forestTokens children).length < bound →
      ∀ {rest : List Token}, goesOnExpression (kindAt rest 0) = false →
      Recovers inner.expression [.node kind children] rest

namespace Inner.Complete

variable {inner : Inner} {bound : Nat} (complete : inner.Complete bound)
include complete

/-! ## Lists -/

/-- An item of a list is an expression under a node of its own. -/
theorem reads_element {kind : NodeKind} (holds : production kind = Production.expression)
    {children : List Tree} (plain : Node.Plain ⟨kind, children⟩)
    (short : (Tree.forestTokens children).length < bound) {rest : List Token}
    (quiet : goesOnExpression (kindAt rest 0) = false) :
    Recovers (node kind inner.expression) [.node kind children] rest := by
  have word := plain.conforms.word
  rw [holds] at word
  obtain ⟨below, inside, found, rfl⟩ := word
  have child : Node.Plain ⟨below, inside⟩ := plain.child List.mem_cons_self
  have shorter : (Tree.forestTokens inside).length < bound := by
    simpa only [Tree.forestTokens, Tree.tokens, List.append_nil] using short
  exact (complete found child shorter quiet).node kind

section

variable {list item : NodeKind} (lists : production list = commas (nodeOf item))
  (holds : production item = Production.expression) {delimiter : Delimiter}
include lists holds

/-- A list before a closing token. -/
theorem reads_list {children : List Tree} (plain : Node.Plain ⟨list, children⟩)
    (short : (Tree.forestTokens children).length < bound) {closing : Token}
    (closes : closing.kind = .closing delimiter) (rest : List Token) :
    Recovers (node list (commaSeparated (node item inner.expression))) [.node list children]
      (closing :: rest) := by
  have word := plain.conforms.word
  rw [lists] at word
  obtain ⟨nodes, interleaved⟩ := interleaved_of_mem word
  refine Recovers.node (.commaSeparated interleaved ?_ ?_) list
  · intro element member more follows
    have below := interleaved.mem_forest member
    have kind := interleaved.kind_eq element member
    have quiet : goesOnExpression (kindAt more 0) = false := by
      rcases follows with comma | rfl
      · rw [comma]
        rfl
      · rw [kindAt, List.getElem?_cons_zero, Option.elim_some, closes]
        rfl
    have shorter : (Tree.forestTokens element.children).length < bound :=
      (Tree.tokens_length_le below).trans_lt short
    rw [← kind]
    exact complete.reads_element (kind ▸ holds) (plain.child below) shorter quiet
  · apply beq_eq_false_iff_ne.mpr
    rw [kindAt, List.getElem?_cons_zero, Option.elim_some, closes]
    exact TokenKind.noConfusion

/-- A list in delimiters that may be missing. -/
theorem reads_delimited (leads : list.leadsExpression = true) {kind : NodeKind}
    {children : List Tree}
    (word : children ∈ leaf (.opening delimiter) * (1 + nodeOf list) * leaf (.closing delimiter))
    (plain : Node.Plain ⟨kind, children⟩) (short : (Tree.forestTokens children).length ≤ bound)
    (rest : List Token) :
    Recovers (token (.opening delimiter) ++
      when (fun ahead => !startsWith (.closing delimiter) ahead)
        (node list (commaSeparated (node item inner.expression))) ++
      token (.closing delimiter)) children rest := by
  obtain ⟨_, front, _, last, rfl⟩ := Language.mem_mul.mp word
  obtain ⟨_, start, middle, optional, rfl⟩ := Language.mem_mul.mp front
  obtain ⟨opening, opens, rfl⟩ := mem_leaf.mp start
  obtain ⟨closing, closes, rfl⟩ := mem_leaf.mp last
  refine .append (.append (.token opens) ?_) (.token closes)
  rcases optional with rfl | found
  · apply when_reads_nothing
    rw [Bool.not_eq_false']
    exact beq_iff_eq.mpr closes
  · obtain ⟨inside, rfl⟩ := mem_nodeOf.mp found
    have child : Node.Plain ⟨list, inside⟩ := plain.child (by simp)
    have shorter : (Tree.forestTokens inside).length < bound := by
      simp only [Tree.forestTokens_append, Tree.forestTokens, Tree.tokens, List.length_append,
        List.length_cons, List.length_nil] at short
      omega
    refine Reads.when ?_ (complete.reads_list lists holds child shorter closes rest)
    have starts := child.conforms.starts_expression leads (closing :: rest)
    rw [Bool.not_eq_true', Tree.forestTokens, Tree.forestTokens, List.append_nil]
    exact startsWith_of_starts starts rfl

end

theorem reads_arguments {children : List Tree} (plain : Node.Plain ⟨.arguments, children⟩)
    (short : (Tree.forestTokens children).length ≤ bound) (rest : List Token) :
    Recovers (arguments inner) [.node .arguments children] rest :=
  (complete.reads_delimited rfl rfl rfl plain.conforms.word plain short rest).node .arguments

/-! ## Paths -/

theorem reads_primary {kind : NodeKind} (primary : isPrimary kind = true) {children : List Tree}
    (plain : Node.Plain ⟨kind, children⟩) (short : (Tree.forestTokens children).length ≤ bound)
    (rest : List Token) : Recovers (Grammar.primary inner) [.node kind children] rest := by
  have word := plain.conforms.word
  cases kind with
  | identifierPrimary =>
    obtain ⟨below, rfl⟩ := mem_nodeOf.mp word
    have child : Node.Plain ⟨.identifier, below⟩ := plain.child List.mem_cons_self
    obtain ⟨name, named, rfl⟩ := child.conforms.word
    have simple : name.spelling.isSimple = true := Bool.or_eq_true_iff.mpr (.inl named)
    have reads : Reads (Grammar.primary inner) (name :: rest) _ rest := primary_reads simple inner
    rwa [primaryNode, if_pos named] at reads
  | literalPrimary =>
    obtain ⟨below, rfl⟩ := mem_nodeOf.mp word
    have child : Node.Plain ⟨.literal, below⟩ := plain.child List.mem_cons_self
    obtain ⟨value, isLiteral, rfl⟩ := child.conforms.word
    have simple : value.spelling.isSimple = true := Bool.or_eq_true_iff.mpr (.inr isLiteral)
    have other : ¬ value.kind.isIdentifier = true := by
      intro named
      generalize value.kind = kind at isLiteral named
      cases kind with
      | literal form => cases named
      | _ => cases isLiteral
    have reads : Reads (Grammar.primary inner) (value :: rest) _ rest := primary_reads simple inner
    rwa [primaryNode, if_neg other] at reads
  | parenthesizedPrimary =>
    obtain ⟨_, front, _, last, rfl⟩ := Language.mem_mul.mp word
    obtain ⟨_, start, _, found, rfl⟩ := Language.mem_mul.mp front
    obtain ⟨opening, opens, rfl⟩ := mem_leaf.mp start
    obtain ⟨closing, closes, rfl⟩ := mem_leaf.mp last
    obtain ⟨below, inside, isExpression, rfl⟩ := found
    have child : Node.Plain ⟨below, inside⟩ := plain.child (by simp)
    have shorter : (Tree.forestTokens inside).length < bound := by
      simp only [Tree.forestTokens_append, Tree.forestTokens, Tree.tokens, List.length_append,
        List.length_cons, List.length_nil] at short
      omega
    have quiet : goesOnExpression (kindAt (closing :: rest) 0) = false := by
      rw [kindAt, List.getElem?_cons_zero, Option.elim_some, closes]
      rfl
    have ahead : kindAt (Tree.forestTokens [Tree.node .parenthesizedPrimary
        ([.token opening] ++ [.node below inside] ++ [.token closing])] ++ rest) 0 =
          .opening .paren := opens
    refine .lookingAhead ?_
    rw [ahead]
    exact (((Recovers.token opens).append (complete isExpression child shorter quiet)).append
      (.token closes)).node .parenthesizedPrimary
  | listPrimary =>
    have reads := complete.reads_delimited rfl rfl rfl word plain short rest
    obtain ⟨_, front, _, -, rfl⟩ := Language.mem_mul.mp word
    obtain ⟨_, start, middle, -, rfl⟩ := Language.mem_mul.mp front
    obtain ⟨opening, opens, rfl⟩ := mem_leaf.mp start
    have ahead : ∀ more, kindAt (Tree.forestTokens [Tree.node .listPrimary
        ([.token opening] ++ middle ++ more)] ++ rest) 0 = .opening .bracket := fun _ => opens
    refine .lookingAhead ?_
    rw [ahead]
    exact reads.node .listPrimary
  | closurePrimary =>
    obtain ⟨below, rfl⟩ := mem_nodeOf.mp word
    have child : Node.Plain ⟨.closure, below⟩ := plain.child List.mem_cons_self
    exact absurd rfl child.kind_ne
  | _ => cases primary

/-- A step of a path is recognised by its first tokens. -/
theorem reads_step {trailer : PathTrailer} {children : List Tree}
    (word : children ∈ Production.pathStep trailer) (plain : Node.Plain ⟨.pathElement, children⟩)
    (short : (Tree.forestTokens children).length ≤ bound) (rest : List Token) :
    trailerAhead? (Tree.forestTokens children ++ rest) = some trailer ∧
      Recovers (Grammar.pathStep inner trailer) children rest := by
  cases trailer with
  | bare => exact absurd word (Language.notMem_zero children)
  | member =>
    obtain ⟨_, ⟨mark, access, rfl⟩, _, named, rfl⟩ := Language.mem_mul.mp word
    obtain ⟨below, rfl⟩ := mem_nodeOf.mp named
    have child : Node.Plain ⟨.identifier, below⟩ := plain.child (by simp)
    obtain ⟨name, isName, rfl⟩ := child.conforms.word
    refine ⟨if_pos (Bool.and_eq_true_iff.mpr ⟨access, isName⟩), ?_⟩
    exact (Recovers.accept _ access).append ((Recovers.accept _ isName).node .identifier)
  | arguments =>
    obtain ⟨below, rfl⟩ := mem_nodeOf.mp word
    have child : Node.Plain ⟨.arguments, below⟩ := plain.child List.mem_cons_self
    have shorter : (Tree.forestTokens below).length ≤ bound := by
      simpa only [Tree.forestTokens, Tree.tokens, List.append_nil] using short
    refine ⟨?_, complete.reads_arguments child shorter rest⟩
    obtain ⟨_, front, last, -, rfl⟩ := Language.mem_mul.mp child.conforms.word
    obtain ⟨_, start, middle, -, rfl⟩ := Language.mem_mul.mp front
    obtain ⟨opening, opens, rfl⟩ := mem_leaf.mp start
    have ahead :
        kindAt (Tree.forestTokens [Tree.node .arguments ([.token opening] ++ middle ++ last)] ++
          rest) 0 = .opening .paren := opens
    rw [trailerAhead?, startsPair, ahead]
    rfl
  | closure =>
    obtain ⟨below, rfl⟩ := mem_nodeOf.mp word
    have child : Node.Plain ⟨.closure, below⟩ := plain.child List.mem_cons_self
    exact absurd rfl child.kind_ne
  | index =>
    obtain ⟨_, front, _, last, rfl⟩ := Language.mem_mul.mp word
    obtain ⟨_, start, _, found, rfl⟩ := Language.mem_mul.mp front
    obtain ⟨opening, opens, rfl⟩ := mem_leaf.mp start
    obtain ⟨closing, closes, rfl⟩ := mem_leaf.mp last
    obtain ⟨inside, rfl⟩ := mem_nodeOf.mp found
    have child : Node.Plain ⟨.expressionList, inside⟩ := plain.child (by simp)
    have shorter : (Tree.forestTokens inside).length < bound := by
      simp only [Tree.forestTokens_append, Tree.forestTokens, Tree.tokens, List.length_append,
        List.length_cons, List.length_nil] at short
      omega
    have ahead :
        kindAt (Tree.forestTokens ([.token opening] ++ [Tree.node .expressionList inside] ++
          [.token closing]) ++ rest) 0 = .opening .bracket := opens
    refine ⟨?_,
      ((Recovers.token opens).append (complete.reads_list rfl rfl child shorter closes rest)).append
      (.token closes)⟩
    rw [trailerAhead?, startsPair, ahead]
    rfl

omit complete in
/-- The children of a path are a primary expression and steps, of which the last one is the
trailer. -/
theorem path_steps {trailer : PathTrailer} {children : List Tree}
    (plain : Node.Plain ⟨.pathExpression trailer, children⟩) :
    ∃ kind inside, ∃ steps : List (PathTrailer × List Tree), isPrimary kind = true ∧
      children = .node kind inside :: (steps.map Prod.snd).flatten ∧
      steps.getLast?.elim .bare Prod.fst = trailer ∧
      ∀ step ∈ steps, step.2 ∈ Production.pathElement step.1 := by
  have longer : children ∈
      nodeWhere isPrimary * (nodeOf .pathElement)∗ * Production.pathElement trailer →
      ∃ kind inside, ∃ steps : List (PathTrailer × List Tree), isPrimary kind = true ∧
        children = .node kind inside :: (steps.map Prod.snd).flatten ∧
        steps.getLast?.elim .bare Prod.fst = trailer ∧
        ∀ step ∈ steps, step.2 ∈ Production.pathElement step.1 := by
    intro word
    obtain ⟨_, front, last, ending, rfl⟩ := Language.mem_mul.mp word
    obtain ⟨_, ⟨kind, inside, primary, rfl⟩, _, repeated, rfl⟩ := Language.mem_mul.mp front
    obtain ⟨words, rfl, each⟩ := Language.mem_kstar.mp repeated
    have known : ∀ word ∈ words, ∃ step : PathTrailer × List Tree,
        step.2 ∈ Production.pathElement step.1 ∧ id word = step.2 := by
      intro word member
      obtain ⟨below, rfl⟩ := mem_nodeOf.mp (each word member)
      have child : Node.Plain ⟨.pathElement, below⟩ := by
        apply plain.child
        have inWords :=
          List.mem_flatten.mpr ⟨_, member, List.mem_singleton_self (Tree.node .pathElement below)⟩
        simp [inWords]
      rcases child.conforms.word with ((found | found) | found) | found
      · exact ⟨(.member, _), ⟨below, found, rfl⟩, rfl⟩
      · exact ⟨(.arguments, _), ⟨below, found, rfl⟩, rfl⟩
      · exact ⟨(.closure, _), ⟨below, found, rfl⟩, rfl⟩
      · exact ⟨(.index, _), ⟨below, found, rfl⟩, rfl⟩
    obtain ⟨steps, same, valid⟩ := exists_forall₂ known
    have all : words = steps.map Prod.snd := by
      simpa only [List.map_id] using map_eq_of_forall₂ same
    refine ⟨kind, inside, steps ++ [(trailer, last)], primary, ?_, by simp, ?_⟩
    · simp [all]
    · intro step member
      rcases List.mem_append.mp member with early | late
      · exact valid step early
      · rw [List.mem_singleton.mp late]
        exact ending
  cases trailer with
  | bare =>
    obtain ⟨kind, inside, primary, rfl⟩ := plain.conforms.word
    exact ⟨kind, inside, [], primary, rfl, rfl, by simp⟩
  | member | arguments | closure | index => exact longer plain.conforms.word

theorem reads_steps {steps : List (PathTrailer × List Tree)}
    (known : ∀ step ∈ steps, step.2 ∈ Production.pathElement step.1) {node : Node}
    (plain : node.Plain) (inside : ∀ tree ∈ (steps.map Prod.snd).flatten, tree ∈ node.children)
    (short : node.tokens.length ≤ bound) {rest : List Token} (stops : trailerAhead? rest = none) :
    Chain (fun ahead => (trailerAhead? ahead).map (Grammar.pathElement inner))
      (Tree.forestTokens (steps.map Prod.snd).flatten ++ rest) steps rest := by
  induction steps with
  | nil =>
    apply Chain.stop
    rw [List.map_nil, List.flatten_nil, Tree.forestTokens, List.nil_append, stops]
    rfl
  | cons step steps ih =>
    obtain ⟨trailer, forest⟩ := step
    obtain ⟨⟨below, word, rfl⟩, later⟩ := List.forall_mem_cons.mp known
    simp only [List.map_cons, List.flatten_cons, List.cons_append, List.nil_append] at inside ⊢
    obtain ⟨here, others⟩ := List.forall_mem_cons.mp inside
    have child : Node.Plain ⟨.pathElement, below⟩ := plain.child here
    have shorter : (Tree.forestTokens below).length ≤ bound :=
      (Tree.tokens_length_le here).trans short
    rw [Tree.forestTokens, Tree.tokens, List.append_assoc]
    obtain ⟨found, reads⟩ := complete.reads_step word child shorter _
    refine .turn (by rw [found]; rfl) ?_ ?_ (ih later others)
    · intro before same
      obtain ⟨after, done, left⟩ := Reads.node reads .pathElement before same
      exact ⟨after, by rw [Grammar.pathElement, bind_of_ok done]; rfl, left⟩
    · obtain ⟨token, more, shape, -⟩ := child.conforms.first_token rfl
      have filled : Tree.forestTokens below = token :: more := shape
      simp only [filled, List.cons_append, List.length_cons, List.length_append]
      omega

theorem reads_path {trailer : PathTrailer} {children : List Tree}
    (plain : Node.Plain ⟨.pathExpression trailer, children⟩)
    (short : (Tree.forestTokens children).length ≤ bound) {rest : List Token}
    (stops : trailerAhead? rest = none) :
    Recovers (pathExpression inner) [.node (.pathExpression trailer) children] rest := by
  obtain ⟨kind, inside, steps, primary, rfl, rfl, known⟩ := path_steps plain
  have first : Node.Plain ⟨kind, inside⟩ := plain.child List.mem_cons_self
  have shorter : (Tree.forestTokens inside).length ≤ bound :=
    (Tree.tokens_length_le List.mem_cons_self).trans short
  have chain := complete.reads_steps known plain (fun tree => List.mem_cons_of_mem _) short stops
  intro before same
  obtain ⟨middle, started, reached⟩ := complete.reads_primary primary first shorter _ before
    (by simpa [Tree.forestTokens, Tree.tokens] using same)
  obtain ⟨after, repeated, left⟩ := chain.many middle reached
  refine ⟨after, ?_, left⟩
  unfold pathExpression
  rw [bind_of_ok started, bind_of_ok repeated]
  rfl

/-! ## Expressions -/

theorem reads_postfix {children : List Tree} (plain : Node.Plain ⟨.postfixExpression, children⟩)
    (short : (Tree.forestTokens children).length ≤ bound) {rest : List Token}
    (stops : trailerAhead? rest = none) (noStep : starts isStep rest = false) :
    Recovers (postfixExpression inner) [.node .postfixExpression children] rest := by
  obtain ⟨_, ⟨kind, inside, isPath, rfl⟩, _, optional, rfl⟩ :=
    Language.mem_mul.mp plain.conforms.word
  cases kind with
  | pathExpression trailer =>
    have child : Node.Plain ⟨.pathExpression trailer, inside⟩ := plain.child (by simp)
    have shorter : (Tree.forestTokens inside).length ≤ bound :=
      (Tree.tokens_length_le List.mem_cons_self).trans short
    refine Recovers.node (.append (complete.reads_path child shorter ?_) ?_) .postfixExpression
    · rcases optional with rfl | ⟨mark, isStep, rfl⟩
      · exact stops
      · exact trailerAhead?_none (Bool.or_eq_true_iff.mpr (.inl isStep))
    · rcases optional with rfl | ⟨mark, isStep, rfl⟩
      · exact when_reads_nothing noStep
      · exact Reads.when isStep (Recovers.accept _ isStep)
  | _ => cases isPath

end Inner.Complete

/-- If what stands inside is recovered with fewer tokens than a bound, then so is every expression
with no more tokens. -/
theorem expressionOver_complete {inner : Inner} {bound : Nat} (complete : inner.Complete bound)
    {body : Rule} : Inner.Complete ⟨expressionOver inner, body⟩ (bound + 1) := by
  intro kind children isExpression plain short rest quiet
  have within : (Tree.forestTokens children).length ≤ bound := by omega
  have word := plain.conforms.word
  cases kind with
  | postfixAlternative =>
    obtain ⟨inside, rfl⟩ := mem_nodeOf.mp word
    have child : Node.Plain ⟨.postfixExpression, inside⟩ := plain.child List.mem_cons_self
    have shorter := (Tree.tokens_length_le List.mem_cons_self).trans within
    have left :=
      complete.reads_postfix child shorter (trailerAhead?_quiet quiet) (starts_step_quiet quiet)
    unfold Recovers at left ⊢
    rw [Tree.forestTokens, Tree.tokens, Tree.forestTokens, List.append_nil]
    refine Reads.bind left (.lookingAhead ?_)
    rw [startsWith_assign_quiet quiet]
    exact (pure_reads _ rest).node .postfixAlternative
  | assignmentAlternative =>
    obtain ⟨_, front, _, ⟨kind, value, valued, rfl⟩, rfl⟩ := Language.mem_mul.mp word
    obtain ⟨_, start, _, middle, rfl⟩ := Language.mem_mul.mp front
    obtain ⟨inside, rfl⟩ := mem_nodeOf.mp start
    obtain ⟨sign, assigns, rfl⟩ := mem_leaf.mp middle
    have child : Node.Plain ⟨.postfixExpression, inside⟩ := plain.child (by simp)
    have right : Node.Plain ⟨kind, value⟩ := plain.child (by simp)
    simp only [Tree.forestTokens_append, Tree.forestTokens, Tree.tokens, List.append_nil,
      List.length_append, List.length_cons, List.length_nil] at within
    have ahead : startsWith .assign (sign :: (Tree.forestTokens value ++ rest)) = true :=
      beq_iff_eq.mpr assigns
    have noStep : starts isStep (sign :: (Tree.forestTokens value ++ rest)) = false := by
      rw [starts, beq_iff_eq.mp ahead]
      rfl
    have left := complete.reads_postfix child (by omega)
      (trailerAhead?_none (Bool.or_eq_true_iff.mpr (.inr ahead))) noStep
    have given := complete valued right (by omega) quiet
    unfold Recovers at left given ⊢
    simp only [Tree.forestTokens, Tree.tokens, List.append_nil, List.append_assoc,
      List.cons_append, List.nil_append] at left given ⊢
    refine Reads.bind left (.lookingAhead ?_)
    rw [if_pos ahead]
    exact (((pure_reads _ _).append (token_reads assigns _)).append given).node
      .assignmentAlternative
  | _ => cases isExpression

theorem innerWithin_complete (bound : Nat) : (innerWithin bound).Complete bound := by
  induction bound with
  | zero =>
    intro kind children _ _ short
    omega
  | succ bound ih => exact expressionOver_complete ih

/-! ## Statements -/

section

variable {bound : Nat} {expression : Node} (found : isExpression expression.kind = true)
  (plain : expression.Plain) (short : expression.tokens.length < bound)
include found plain short

/-- An expression has no end of input in it: it could not be consumed. -/
theorem inside_of_plain : ∀ token ∈ expression.tokens, token.kind ≠ .endOfInput := by
  have given : Recovers (innerWithin bound).expression [expression.tree] [] :=
    innerWithin_complete bound found plain short rfl
  obtain ⟨after, done, -⟩ := given ⟨⟨expression.tokens, endAfter none, 0, endAfter_kind _⟩, []⟩ (by
    simp [Reading.ahead, Tree.forestTokens, Tree.tokens, Node.tree, Node.tokens])
  have inside := ((innerWithin_sound bound).expression _ _ _ done).consumes.inside
  simpa only [Node.tokens, Node.tree, Tree.forestTokens, Tree.tokens, List.append_nil] using inside

theorem returnStatement_reads {word : Token} (returns : word.kind = .returnWord) :
    Reads (statement (innerWithin bound)) (word :: expression.tokens)
      [.node .returnStatement [.token word, expression.tree]] [] := by
  have given : Recovers (innerWithin bound).expression [expression.tree] [] :=
    innerWithin_complete bound found plain short rfl
  have leads : expression.tree.leadsExpression = true := by
    obtain ⟨kind, children⟩ := expression
    cases kind with
    | postfixAlternative | assignmentAlternative => rfl
    | _ => cases found
  have starts := plain.conforms.starts_expression leads []
  simp only [Recovers, Tree.forestTokens, List.append_nil] at given starts
  have first : kindAt (word :: expression.tokens) 0 = .returnWord := returns
  refine .lookingAhead ?_
  rw [startsWith, startsWith, first]
  exact ((token_reads returns _).append (.when starts given)).node .returnStatement

/-- A unit that is a return statement only. -/
theorem returnUnit_reads {word : Token} (returns : word.kind = .returnWord) :
    Reads (separators ++ Rule.when (startsWith .packageWord) packageHead ++
      Rule.when goesOnStatements (statements (innerWithin bound) .endOfInput))
        (word :: expression.tokens)
      [.node .statements [.node .returnStatement [.token word, expression.tree]]] [] := by
  have first : kindAt (word :: expression.tokens) 0 = .returnWord := returns
  have noSeparator : Reads separators ([] ++ (word :: expression.tokens)) ([].map Tree.token)
      (word :: expression.tokens) := by
    apply separators_reads (by simp)
    rw [starts, first]
    rfl
  have noPackage :
      Reads (Rule.when (startsWith .packageWord) packageHead) (word :: expression.tokens) []
      (word :: expression.tokens) := by
    apply when_reads_nothing
    rw [startsWith, first]
    rfl
  have goes : goesOnStatements (word :: expression.tokens) = true := by
    rw [goesOnStatements, startsWith, first]
    rfl
  have alone : Rounds goesOnStatements (statementRound (innerWithin bound)) [] [] [] := .stop rfl
  have listed :=
    ((returnStatement_reads found plain short returns).append alone.manyWhile).node .statements
  exact (noSeparator.append noPackage).append (.when goes listed)

end

end Grammar

/-- Tokens without an end of input are read as if one stood right after the last of them, and the
tree ends in it. -/
theorem parseTokens_of_unended {body : List Token} (filled : body ≠ [])
    (inside : ∀ token ∈ body, token.kind ≠ .endOfInput) {trees : List Tree}
    (reads : Reads (Grammar.separators ++ Rule.when (startsWith .packageWord) Grammar.packageHead ++
      Rule.when Grammar.goesOnStatements
        (Grammar.statements (Grammar.innerWithin (body.length + 1)) .endOfInput)) body trees [])
    (covered : Tree.forestTokens trees = body) :
    parseTokens body = .ok ⟨.compilationUnit, trees ++ [.token (endAfter body.getLast?)]⟩ := by
  have last := inside _ (List.getLast_mem filled)
  have stream : TokenStream.ofTokens body =
      TokenStream.ofTokens (body ++ [endAfter body.getLast?]) := by
    simp [TokenStream.ofTokens, List.getLast?_eq_some_getLast filled, last, endAfter_kind]
  have remaining : (TokenStream.ofTokens (body ++ [endAfter body.getLast?])).remaining =
      body ++ [endAfter body.getLast?] := by
    simp [TokenStream.ofTokens, endAfter_kind, TokenStream.remaining]
  obtain ⟨final, parsed⟩ := Grammar.parseTokens_eq_of_reads (endAfter_kind body.getLast?) reads
  have kept := tokens_of_parseTokens parsed
  rw [remaining, Token.throughEnd_append inside, Token.throughEnd, if_pos (endAfter_kind _),
    Node.tokens, Tree.forestTokens_append, covered] at kept
  have same : final = endAfter body.getLast? := by
    simpa only [Tree.forestTokens, Tree.tokens, List.append_nil, List.append_cancel_left_eq,
      List.cons.injEq, and_true] using kept
  rw [← same, ← parsed]
  simp only [parseTokens, readTokens, Reading.ofTokens, stream]

/-- After a return word, the tokens of any expression tree without closures are read back as that
tree: the only statement returns it. -/
theorem return_recovers_expression {word : Token} (returns : word.kind = .returnWord)
    {expression : Node} (found : isExpression expression.kind = true)
    (conforms : expression.tree.Conforms)
    (noClosure : ∀ below ∈ expression.preorder, below.kind ≠ .closure) :
    parseTokens (word :: expression.tokens) = .ok ⟨.compilationUnit,
      [.node .statements [.node .returnStatement [.token word, expression.tree]],
        .token (endAfter (word :: expression.tokens).getLast?)]⟩ := by
  have plain : expression.Plain := ⟨conforms, noClosure⟩
  have inside : ∀ token ∈ word :: expression.tokens, token.kind ≠ .endOfInput := by
    refine List.forall_mem_cons.mpr ⟨?_, Grammar.inside_of_plain found plain (Nat.lt_succ_self _)⟩
    rw [returns]
    exact TokenKind.noConfusion
  have short : expression.tokens.length < (word :: expression.tokens).length + 1 := by
    rw [List.length_cons]
    omega
  apply parseTokens_of_unended (List.cons_ne_nil _ _) inside
    (Grammar.returnUnit_reads found plain short returns)
  simp only [Node.tree, Node.tokens, Tree.forestTokens, Tree.tokens, List.append_nil,
    List.cons_append, List.nil_append]

/-- Members, calls, lists, indices, a step and two assignments, after a return word of an odd text
and place. -/
theorem return_recovers_expression_of_assignments :
    ∃ unit expression, parse "a?.b(1, [], [c])[(d), 2.e]-- = f = 'g'" = .ok unit ∧
      unit.preorder.find? (fun node => isExpression node.kind) = some expression ∧
      expression.tokens.length = 27 ∧
      parseTokens (⟨.returnWord, "back", ⟨7, 3⟩, 0, 9⟩ :: expression.tokens) =
        .ok ⟨.compilationUnit,
          [.node .statements [.node .returnStatement
            [.token ⟨.returnWord, "back", ⟨7, 3⟩, 0, 9⟩, expression.tree]],
            .token
              (endAfter (⟨.returnWord, "back", ⟨7, 3⟩, 0, 9⟩ :: expression.tokens).getLast?)]⟩ := by
  have known : (parse "a?.b(1, [], [c])[(d), 2.e]-- = f = 'g'").toOption.any (fun unit =>
      (unit.preorder.find? fun node => isExpression node.kind).any fun expression =>
        expression.tokens.length == 27 &&
          expression.preorder.all fun below => below.kind != .closure) = true := by
    decide +kernel
  match parsed : parse "a?.b(1, [], [c])[(d), 2.e]-- = f = 'g'" with
  | .error _ => simp [parsed, Except.toOption] at known
  | .ok unit =>
    rw [parsed, Except.toOption, Option.any_some] at known
    obtain ⟨expression, listed, shape⟩ := (Option.any_eq_true _ _).mp known
    obtain ⟨counted, noClosure⟩ := Bool.and_eq_true_iff.mp shape
    obtain ⟨tokens, -, read⟩ := parse_eq_ok parsed
    have all : ∀ node ∈ unit.preorder, node.tree.Conforms :=
      Node.forall_preorder (fun node child given member =>
        given.children _ (Node.mem_childNodes member))
        (parseTokens_conforms read).2
    refine ⟨unit, expression, rfl, listed, beq_iff_eq.mp counted, ?_⟩
    have found : isExpression expression.kind = true := by simpa using List.find?_some listed
    exact return_recovers_expression rfl found (all expression (List.mem_of_find?_eq_some listed))
      (by simpa using noClosure)

end GroovyTidy
