import GroovyTidy.Proofs.Doc.Rigid
import GroovyTidy.Proofs.Tree.Coverage

set_option autoImplicit false

/-!
Every tree that is read from tokens conforms to the grammar, at each of its nodes. In particular
separators stand directly under compilation units, statements, blocks and closures only.
-/
namespace GroovyTidy

open scoped Computability
open Production

/-! ## Where separators stand -/

/-- Separators may stand directly under a node of such a kind. -/
def NodeKind.holdsSeparators : NodeKind → Bool
  | .compilationUnit | .statements | .block | .closure => true
  | _ => false

namespace Production

/-- No word of the language has a separator in it. -/
def Solid (language : Language Tree) : Prop :=
  ∀ forest ∈ language, ∀ token, .token token ∈ forest → token.kind.isSeparator = false

theorem leafWhere_solid {test : TokenKind → Bool} (newline : test .newline = false)
    (semicolon : test .semicolon = false) : Solid (leafWhere test) := by
  rintro forest ⟨leaf, passed, rfl⟩ _ member
  cases List.mem_singleton.mp member
  cases separates : leaf.kind.isSeparator with
  | false => rfl
  | true =>
    rcases isSeparator_cases separates with found | found
    · simp [found, newline] at passed
    · simp [found, semicolon] at passed

theorem leaf_solid {kind : TokenKind} (newline : kind ≠ .newline) (semicolon : kind ≠ .semicolon) :
    Solid (leaf kind) :=
  leafWhere_solid (beq_eq_false_iff_ne.mpr newline.symm) (beq_eq_false_iff_ne.mpr semicolon.symm)

theorem nodeWhere_solid (test : NodeKind → Bool) : Solid (nodeWhere test) := by
  rintro forest ⟨kind, children, -, rfl⟩ token member
  cases List.mem_singleton.mp member

theorem nodeOf_solid (kind : NodeKind) : Solid (nodeOf kind) :=
  nodeWhere_solid _

theorem one_solid : Solid 1 := by
  rintro forest rfl token member
  cases member

namespace Solid

variable {left right : Language Tree}

theorem mul (first : Solid left) (second : Solid right) : Solid (left * right) := by
  intro forest word token member
  obtain ⟨front, inLeft, back, inRight, rfl⟩ := Language.mem_mul.mp word
  rcases List.mem_append.mp member with early | late
  · exact first front inLeft token early
  · exact second back inRight token late

theorem add (first : Solid left) (second : Solid right) : Solid (left + right) := by
  rintro forest (word | word)
  · exact first forest word
  · exact second forest word

theorem optional (given : Solid left) : Solid (1 + left) :=
  one_solid.add given

theorem kstar (given : Solid left) : Solid left∗ := by
  intro forest word token member
  obtain ⟨words, rfl, each⟩ := Language.mem_kstar.mp word
  obtain ⟨part, inside, here⟩ := List.mem_flatten.mp member
  exact given part (each part inside) token here

theorem commas (given : Solid left) : Solid (Production.commas left) :=
  given.mul ((leaf_solid (by decide) (by decide)).mul given).kstar

end Solid

theorem expression_solid : Solid expression :=
  nodeWhere_solid _

theorem assigned_solid : Solid assigned :=
  (leaf_solid (by decide) (by decide)).mul expression_solid

theorem pathStep_solid (trailer : PathTrailer) : Solid (pathStep trailer) := by
  cases trailer with
  | bare =>
    intro forest word
    exact absurd word (Language.notMem_zero forest)
  | member => exact (leafWhere_solid rfl rfl).mul (nodeOf_solid _)
  | arguments => exact nodeOf_solid _
  | closure => exact nodeOf_solid _
  | index =>
    exact ((leaf_solid (by decide) (by decide)).mul (nodeOf_solid _)).mul
      (leaf_solid (by decide) (by decide))

theorem pathElement_solid (trailer : PathTrailer) : Solid (pathElement trailer) := by
  rintro forest ⟨children, -, rfl⟩ token member
  cases List.mem_singleton.mp member

theorem namedType_solid : Solid namedType :=
  ((leafWhere_solid rfl rfl).mul
    ((leaf_solid (by decide) (by decide)).mul (leafWhere_solid rfl rfl)).kstar).mul
      (nodeOf_solid _).optional

theorem declarationHead_solid : Solid declarationHead :=
  ((nodeOf_solid _).mul (nodeOf_solid _).optional).add (nodeOf_solid _)

theorem nameOfMethod_solid : Solid nameOfMethod := by
  intro forest word
  exact (nodeOf_solid _).add (nodeOf_solid _) forest (nameOfMethod_le word)

/-- What stands between an opening and a closing token. -/
theorem enclosed_solid {opening closing : TokenKind} (opens : opening.isSeparator = false)
    (closes : closing.isSeparator = false) {inside : Language Tree} (given : Solid inside) :
    Solid (leaf opening * inside * leaf closing) := by
  have solid : ∀ kind : TokenKind, kind.isSeparator = false → Solid (leaf kind) := by
    intro kind other
    refine leaf_solid ?_ ?_
    · rintro rfl
      cases other
    · rintro rfl
      cases other
  exact ((solid _ opens).mul given).mul (solid _ closes)

end Production

/-- Nodes of all kinds but four have no separator among their children. -/
theorem production_solid {kind : NodeKind} (tight : kind.holdsSeparators = false) :
    Solid (production kind) := by
  cases kind with
  | compilationUnit | statements | block | closure => cases tight
  | packageDeclaration => exact (leaf_solid (by decide) (by decide)).mul (nodeOf_solid _)
  | returnStatement => exact (leaf_solid (by decide) (by decide)).mul expression_solid.optional
  | qualifiedName =>
    exact (nodeOf_solid _).mul ((leaf_solid (by decide) (by decide)).mul (nodeOf_solid _)).kstar
  | importStatement | methodDeclarationStatement | localVariableDeclarationStatement
  | expressionStatement | commandAlternative | postfixAlternative | identifierPrimary
  | literalPrimary | closurePrimary =>
    exact nodeOf_solid _
  | importDeclaration =>
    exact (((leaf_solid (by decide) (by decide)).mul
      (leaf_solid (by decide) (by decide)).optional).mul
      (nodeOf_solid _)).mul
        (((leaf_solid (by decide) (by decide)).mul (leaf_solid (by decide) (by decide))).add
          ((leaf_solid (by decide) (by decide)).mul (nodeOf_solid _)).optional)
  | methodDeclaration =>
    exact ((declarationHead_solid.mul nameOfMethod_solid).mul (nodeOf_solid _)).mul (nodeOf_solid _)
  | localVariableDeclaration => exact declarationHead_solid.mul (nodeOf_solid _).commas
  | modifiers => exact (leafWhere_solid rfl rfl).mul (leafWhere_solid rfl rfl).kstar
  | type =>
    exact ((leafWhere_solid rfl rfl).add namedType_solid).mul
      ((leaf_solid (by decide) (by decide)).mul (leaf_solid (by decide) (by decide))).kstar
  | typeArguments => exact enclosed_solid rfl rfl (nodeOf_solid _).commas
  | formalParameters => exact enclosed_solid rfl rfl (nodeOf_solid _).commas.optional
  | formalParameter =>
    exact (((nodeOf_solid _).optional.mul (nodeOf_solid _).optional).mul (nodeOf_solid _)).mul
      assigned_solid.optional
  | variableDeclarator => exact (nodeOf_solid _).mul assigned_solid.optional
  | commandExpression => exact expression_solid.mul (nodeOf_solid _).optional
  | assignmentAlternative =>
    exact ((nodeOf_solid _).mul (leaf_solid (by decide) (by decide))).mul expression_solid
  | postfixExpression => exact (nodeWhere_solid _).mul (leafWhere_solid rfl rfl).optional
  | pathExpression trailer =>
    cases trailer with
    | bare => exact nodeWhere_solid _
    | member | arguments | closure | index =>
      exact ((nodeWhere_solid _).mul (nodeOf_solid _).kstar).mul (pathElement_solid _)
  | pathElement =>
    exact (((pathStep_solid _).add (pathStep_solid _)).add (pathStep_solid _)).add
      (pathStep_solid _)
  | arguments => exact enclosed_solid rfl rfl (nodeOf_solid _).optional
  | parenthesizedPrimary => exact enclosed_solid rfl rfl expression_solid
  | listPrimary => exact enclosed_solid rfl rfl (nodeOf_solid _).optional
  | expressionList | argumentList => exact (nodeOf_solid _).commas
  | argumentListElement | expressionListElement => exact expression_solid
  | identifier | literal => exact leafWhere_solid rfl rfl

/-! ## All nodes of a tree -/

namespace Node

theorem preorder_eq (node : Node) :
    node.preorder = node :: (node.childNodes.map preorder).flatten := by
  unfold preorder
  rw [fold_eq]
  simp only [List.map_map]
  rfl

/-- What a node hands down to its child nodes holds of all nodes under it. -/
theorem forall_preorder {property : Node → Prop}
    (inherited : ∀ node child, property node → child ∈ node.childNodes → property child)
    {node : Node} (here : property node) : ∀ below ∈ node.preorder, property below := by
  induction node using Node.induction with
  | step node ih =>
    rw [preorder_eq]
    refine List.forall_mem_cons.mpr ⟨here, ?_⟩
    intro below member
    obtain ⟨_, listed, inside⟩ := List.mem_flatten.mp member
    obtain ⟨child, isChild, rfl⟩ := List.mem_map.mp listed
    exact ih child isChild (inherited node child here isChild) below inside

end Node

/-- A unit that is read from tokens conforms to the grammar. -/
theorem parseTokens_conforms {tokens : List Token} {unit : Node}
    (success : parseTokens tokens = .ok unit) :
    unit.kind = .compilationUnit ∧ unit.tree.Conforms := by
  obtain ⟨body, middle, rfl, accounted, ended⟩ :=
    parseTokens_eq_ok (fun bound => Grammar.statements_yields (Grammar.innerWithin_sound bound) _)
      success
  refine ⟨rfl, .node _ _ ?_ ?_⟩
  · exact Language.append_mem_mul accounted.word (mem_leaf.mpr ⟨_, ended, rfl⟩)
  · intro child member
    rcases List.mem_append.mp member with inBody | last
    · exact accounted.conforms child inBody
    · rw [List.mem_singleton.mp last]
      exact .token _

/-- In the tree of any list of tokens that is accepted, the children of every node are a word of the
production of its kind, and separators stand directly under compilation units, statements, blocks
and closures only. -/
theorem tree_conforms_to_grammar {tokens : List Token} {unit : Node}
    (success : parseTokens tokens = .ok unit) :
    unit.kind = .compilationUnit ∧
    ∀ node ∈ unit.preorder, node.children ∈ production node.kind ∧
      ∀ token, .token token ∈ node.children → token.kind.isSeparator = true →
        node.kind.holdsSeparators = true := by
  obtain ⟨root, conforms⟩ := parseTokens_conforms success
  refine ⟨root, ?_⟩
  have all : ∀ node ∈ unit.preorder, node.tree.Conforms :=
    Node.forall_preorder (fun node child given member =>
      given.children _ (Node.mem_childNodes member)) conforms
  intro node member
  have word := (all node member).word
  refine ⟨word, fun token inside separates => ?_⟩
  cases tight : node.kind.holdsSeparators with
  | true => rfl
  | false =>
    rw [production_solid tight _ word token inside] at separates
    cases separates

/-- Closures with parameters, calls and separators in every place that takes them. -/
theorem tree_conforms_to_grammar_of_closure :
    ∃ tokens unit,
      tokenize ";run 'x', \x7b\n int a, b ->; c = a[1];; b() \x7d\ndef f(x) \x7b \x7d" =
        .ok tokens ∧
      parseTokens tokens = .ok unit ∧ unit.kind = .compilationUnit ∧
      ∀ node ∈ unit.preorder, node.children ∈ production node.kind ∧
        ∀ token, .token token ∈ node.children → token.kind.isSeparator = true →
          node.kind.holdsSeparators = true := by
  have accepted :
      (parse ";run 'x', \x7b\n int a, b ->; c = a[1];; b() \x7d\ndef f(x) \x7b \x7d").isOk := by
    decide +kernel
  match parsed : parse ";run 'x', \x7b\n int a, b ->; c = a[1];; b() \x7d\ndef f(x) \x7b \x7d" with
  | .ok unit =>
    obtain ⟨tokens, lexed, read⟩ := parse_eq_ok parsed
    exact ⟨tokens, unit, lexed, read, tree_conforms_to_grammar read⟩
  | .error _ => simp [parsed, Except.isOk, Except.toBool] at accepted

end GroovyTidy
