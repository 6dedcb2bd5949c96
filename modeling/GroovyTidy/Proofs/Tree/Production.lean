import GroovyTidy.Tree.Grammar
import Mathlib.Computability.Language
import Mathlib.Order.CompletePartialOrder

set_option autoImplicit false

/-!
Which lists of children a node of each kind may have, as languages of trees. A tree conforms to the
grammar if the children of every node in it are a word of the language of its kind.
-/
namespace GroovyTidy

open scoped Computability

namespace Production

/-- Lists of one token, of a kind with a property. -/
def leafWhere (test : TokenKind → Bool) : Language Tree :=
  {forest | ∃ token : Token, test token.kind = true ∧ forest = [.token token]}

/-- Lists of one token of a kind. -/
def leaf (kind : TokenKind) : Language Tree :=
  leafWhere (· == kind)

/-- Lists of one node, of a kind with a property. -/
def nodeWhere (test : NodeKind → Bool) : Language Tree :=
  {forest | ∃ kind children, test kind = true ∧ forest = [.node kind children]}

/-- Lists of one node of a kind. -/
def nodeOf (kind : NodeKind) : Language Tree :=
  nodeWhere (· == kind)

/-- One or more words of a language with commas between them. -/
def commas (item : Language Tree) : Language Tree :=
  item * (leaf .comma * item)∗

def separator : Language Tree :=
  leafWhere TokenKind.isSeparator

/-- At least one separator. -/
def separatorRun : Language Tree :=
  separator * separator∗

def isExpression (kind : NodeKind) : Bool :=
  kind == .postfixAlternative || kind == .assignmentAlternative

def isPath : NodeKind → Bool
  | .pathExpression _ => true
  | _ => false

def isPrimary : NodeKind → Bool
  | .identifierPrimary | .literalPrimary | .parenthesizedPrimary | .closurePrimary | .listPrimary =>
    true
  | _ => false

def expression : Language Tree :=
  nodeWhere isExpression

def statement : Language Tree :=
  nodeWhere NodeKind.isStatement

/-- A value after an assignment sign. -/
def assigned : Language Tree :=
  leaf .assign * expression

/-- The inside of a step of a path. -/
def pathStep : PathTrailer → Language Tree
  | .bare => 0
  | .member => leafWhere TokenKind.isMemberAccess * nodeOf .identifier
  | .arguments => nodeOf .arguments
  | .closure => nodeOf .closure
  | .index => leaf (.opening .bracket) * nodeOf .expressionList * leaf (.closing .bracket)

/-- Lists of one step of a path, which ends the path in a way. -/
def pathElement (trailer : PathTrailer) : Language Tree :=
  {forest | ∃ children ∈ pathStep trailer, forest = [.node .pathElement children]}

/-- A name with dots in it, and the arguments of a type. -/
def namedType : Language Tree :=
  leafWhere TokenKind.isIdentifier * (leaf .dot * leafWhere TokenKind.isIdentifier)∗ *
    (1 + nodeOf .typeArguments)

/-- Modifiers, a type, or both. -/
def declarationHead : Language Tree :=
  nodeOf .modifiers * (1 + nodeOf .type) + nodeOf .type

/-- A string in the place of a name. -/
def stringName : Language Tree :=
  {forest | ∃ token : Token, token.kind = .literal .string ∧
    forest = [.node .literal [.token token]]}

def nameOfMethod : Language Tree :=
  stringName + nodeOf .identifier

/-- Statements with separators between neighbours, and perhaps at the end. -/
def statementRun (item : Language Tree) : Language Tree :=
  item * (separatorRun * item)∗ * separator∗

/-- Lists of one node with statements from a language. -/
def statementsOf (item : Language Tree) : Language Tree :=
  {forest | ∃ children ∈ statementRun item, forest = [.node .statements children]}

/-- The children of a compilation unit before the end of input, given the language of its
statements. -/
def unitBody (statements : Language Tree) : Language Tree :=
  separator∗ *
    (nodeOf .packageDeclaration * (separatorRun * statements + separator∗) + (1 + statements))

/-- The parameters of a closure, if it has any, with their arrow. -/
def closureHead : Language Tree :=
  (1 + commas (nodeOf .formalParameter)) * leaf .arrow * separator∗

end Production

open Production

/-- The lists of children that a node of a kind may have. -/
def production : NodeKind → Language Tree
  | .compilationUnit => unitBody (nodeOf .statements) * leaf .endOfInput
  | .packageDeclaration => leaf .packageWord * nodeOf .qualifiedName
  | .qualifiedName => nodeOf .identifier * (leaf .dot * nodeOf .identifier)∗
  | .statements => statementRun statement
  | .importStatement => nodeOf .importDeclaration
  | .methodDeclarationStatement => nodeOf .methodDeclaration
  | .localVariableDeclarationStatement => nodeOf .localVariableDeclaration
  | .returnStatement => leaf .returnWord * (1 + expression)
  | .expressionStatement => nodeOf .commandAlternative
  | .importDeclaration =>
    leaf .importWord * (1 + leaf (.modifier .staticWord)) * nodeOf .qualifiedName *
      (leaf .dot * leaf .star + (1 + leaf .asWord * nodeOf .identifier))
  | .methodDeclaration =>
    declarationHead * nameOfMethod * nodeOf .formalParameters * nodeOf .block
  | .localVariableDeclaration => declarationHead * commas (nodeOf .variableDeclarator)
  | .modifiers => leafWhere TokenKind.isModifier * (leafWhere TokenKind.isModifier)∗
  | .type =>
    (leafWhere TokenKind.isPrimitiveType + namedType) *
      (leaf (.opening .bracket) * leaf (.closing .bracket))∗
  | .typeArguments => leaf .less * commas (nodeOf .type) * leaf .greater
  | .formalParameters =>
    leaf (.opening .paren) * (1 + commas (nodeOf .formalParameter)) * leaf (.closing .paren)
  | .formalParameter =>
    (1 + nodeOf .modifiers) * (1 + nodeOf .type) * nodeOf .identifier * (1 + assigned)
  | .variableDeclarator => nodeOf .identifier * (1 + assigned)
  | .block =>
    leaf (.opening .brace) * separator∗ * (1 + nodeOf .statements) * leaf (.closing .brace)
  | .commandAlternative => nodeOf .commandExpression
  | .commandExpression => expression * (1 + nodeOf .argumentList)
  | .postfixAlternative => nodeOf .postfixExpression
  | .assignmentAlternative => nodeOf .postfixExpression * leaf .assign * expression
  | .postfixExpression => nodeWhere isPath * (1 + leafWhere Grammar.isStep)
  | .pathExpression .bare => nodeWhere isPrimary
  | .pathExpression trailer => nodeWhere isPrimary * (nodeOf .pathElement)∗ * pathElement trailer
  | .pathElement =>
    pathStep .member + pathStep .arguments + pathStep .closure + pathStep .index
  | .arguments => leaf (.opening .paren) * (1 + nodeOf .argumentList) * leaf (.closing .paren)
  | .identifierPrimary => nodeOf .identifier
  | .literalPrimary => nodeOf .literal
  | .parenthesizedPrimary => leaf (.opening .paren) * expression * leaf (.closing .paren)
  | .closurePrimary => nodeOf .closure
  | .listPrimary =>
    leaf (.opening .bracket) * (1 + nodeOf .expressionList) * leaf (.closing .bracket)
  | .closure =>
    leaf (.opening .brace) * separator∗ * (1 + closureHead) * (1 + nodeOf .statements) *
      leaf (.closing .brace)
  | .expressionList => commas (nodeOf .expressionListElement)
  | .argumentList => commas (nodeOf .argumentListElement)
  | .argumentListElement | .expressionListElement => expression
  | .identifier => leafWhere TokenKind.isIdentifier
  | .literal => leafWhere TokenKind.isLiteral

/-- The children of every node of a tree are a word of the production of its kind. -/
inductive Tree.Conforms : Tree → Prop where
  | token (token : Token) : Tree.Conforms (.token token)
  | node (kind : NodeKind) (children : List Tree) (word : children ∈ production kind)
      (below : ∀ child ∈ children, Tree.Conforms child) : Tree.Conforms (.node kind children)

theorem Tree.Conforms.word {kind : NodeKind} {children : List Tree}
    (conforms : (Tree.node kind children).Conforms) : children ∈ production kind := by
  cases conforms with
  | node _ _ word _ => exact word

theorem Tree.Conforms.children {kind : NodeKind} {children : List Tree}
    (conforms : (Tree.node kind children).Conforms) : ∀ child ∈ children, child.Conforms := by
  cases conforms with
  | node _ _ _ below => exact below

theorem Production.mem_leaf {kind : TokenKind} {forest : List Tree} :
    forest ∈ leaf kind ↔ ∃ token : Token, token.kind = kind ∧ forest = [.token token] := by
  simp only [leaf, leafWhere, beq_iff_eq]
  rfl

theorem Production.mem_nodeOf {kind : NodeKind} {forest : List Tree} :
    forest ∈ nodeOf kind ↔ ∃ children, forest = [.node kind children] := by
  constructor
  · rintro ⟨found, children, same, rfl⟩
    exact ⟨children, by rw [beq_iff_eq.mp same]⟩
  · rintro ⟨children, rfl⟩
    exact ⟨kind, children, beq_self_eq_true kind, rfl⟩

/-! ## First tokens -/

/-- The tree is no separator, and not the whole of a compilation unit, which may start with
separators. -/
def Tree.isFilled : Tree → Bool
  | .token leaf => !leaf.kind.isSeparator
  | .node kind _ => kind != .compilationUnit

namespace Production

/-- Every word of the language starts with a filled tree. -/
def Begins (language : Language Tree) : Prop :=
  ∀ forest ∈ language, ∃ tree rest, forest = tree :: rest ∧ tree.isFilled = true

theorem isSeparator_eq (kind : TokenKind) :
    kind.isSeparator = (kind == .newline || kind == .semicolon) := by
  cases kind <;> rfl

theorem isSeparator_cases {kind : TokenKind} (separates : kind.isSeparator = true) :
    kind = .newline ∨ kind = .semicolon := by
  simpa [isSeparator_eq] using separates

theorem leafWhere_begins {test : TokenKind → Bool} (newline : test .newline = false)
    (semicolon : test .semicolon = false) : Begins (leafWhere test) := by
  rintro forest ⟨token, passed, rfl⟩
  refine ⟨_, [], rfl, ?_⟩
  cases separates : token.kind.isSeparator with
  | false => simp [Tree.isFilled, separates]
  | true =>
    rcases isSeparator_cases separates with found | found
    · simp [found, newline] at passed
    · simp [found, semicolon] at passed

theorem leaf_begins {kind : TokenKind} (newline : kind ≠ .newline) (semicolon : kind ≠ .semicolon) :
    Begins (leaf kind) :=
  leafWhere_begins (beq_eq_false_iff_ne.mpr newline.symm) (beq_eq_false_iff_ne.mpr semicolon.symm)

theorem nodeWhere_begins {test : NodeKind → Bool} (filled : test .compilationUnit = false) :
    Begins (nodeWhere test) := by
  rintro forest ⟨kind, children, passed, rfl⟩
  refine ⟨_, [], rfl, ?_⟩
  simp only [Tree.isFilled, bne_iff_ne]
  rintro rfl
  rw [filled] at passed
  cases passed

theorem nodeOf_begins {kind : NodeKind} (filled : kind ≠ .compilationUnit) : Begins (nodeOf kind) :=
  nodeWhere_begins (beq_eq_false_iff_ne.mpr filled.symm)

theorem Begins.mul {left : Language Tree} (begun : Begins left) (right : Language Tree) :
    Begins (left * right) := by
  intro forest word
  obtain ⟨front, first, back, second, rfl⟩ := Language.mem_mul.mp word
  obtain ⟨tree, rest, rfl, filled⟩ := begun front first
  exact ⟨tree, rest ++ back, rfl, filled⟩

theorem Begins.add {left right : Language Tree} (first : Begins left) (second : Begins right) :
    Begins (left + right) := by
  rintro forest (word | word)
  · exact first forest word
  · exact second forest word

theorem Begins.optional {left right : Language Tree} (first : Begins left) (second : Begins right) :
    Begins ((1 + left) * right) := by
  rw [add_mul, one_mul]
  exact second.add (first.mul right)

theorem nameOfMethod_le : nameOfMethod ≤ nodeOf .literal + nodeOf .identifier := by
  rintro forest (⟨token, -, rfl⟩ | word)
  · exact .inl ⟨.literal, [.token token], rfl, rfl⟩
  · exact .inr word

theorem declarationHead_begins : Begins declarationHead :=
  ((nodeOf_begins (by decide)).mul _).add (nodeOf_begins (by decide))

theorem statement_begins : Begins statement :=
  nodeWhere_begins rfl

theorem expression_begins : Begins expression :=
  nodeWhere_begins rfl

theorem pathStep_begins (trailer : PathTrailer) : Begins (pathStep trailer) := by
  cases trailer with
  | bare =>
    intro forest word
    exact absurd word (Language.notMem_zero forest)
  | member => exact (leafWhere_begins rfl rfl).mul _
  | arguments => exact nodeOf_begins (by decide)
  | closure => exact nodeOf_begins (by decide)
  | index => exact ((leaf_begins (by decide) (by decide)).mul _).mul _

end Production

/-- Nothing but a compilation unit starts with a separator. -/
theorem production_begins {kind : NodeKind} (inner : kind ≠ .compilationUnit) :
    Begins (production kind) := by
  cases kind with
  | compilationUnit => exact absurd rfl inner
  | packageDeclaration | returnStatement => exact (leaf_begins (by decide) (by decide)).mul _
  | qualifiedName | variableDeclarator | argumentList | expressionList =>
    exact (nodeOf_begins (by decide)).mul _
  | statements => exact (statement_begins.mul _).mul _
  | importStatement | methodDeclarationStatement | localVariableDeclarationStatement
  | expressionStatement | commandAlternative | postfixAlternative | identifierPrimary
  | literalPrimary | closurePrimary =>
    exact nodeOf_begins (by decide)
  | typeArguments | formalParameters | arguments | parenthesizedPrimary | listPrimary =>
    exact ((leaf_begins (by decide) (by decide)).mul _).mul _
  | importDeclaration | block => exact (((leaf_begins (by decide) (by decide)).mul _).mul _).mul _
  | closure => exact ((((leaf_begins (by decide) (by decide)).mul _).mul _).mul _).mul _
  | methodDeclaration => exact ((declarationHead_begins.mul _).mul _).mul _
  | localVariableDeclaration => exact declarationHead_begins.mul _
  | formalParameter =>
    refine Begins.mul ?_ _
    rw [mul_assoc]
    exact (nodeOf_begins (by decide)).optional
      ((nodeOf_begins (by decide)).optional (nodeOf_begins (by decide)))
  | modifiers => exact (leafWhere_begins rfl rfl).mul _
  | type =>
    exact ((leafWhere_begins rfl rfl).add (((leafWhere_begins rfl rfl).mul _).mul _)).mul _
  | commandExpression => exact expression_begins.mul _
  | assignmentAlternative => exact ((nodeOf_begins (by decide)).mul _).mul _
  | postfixExpression => exact (nodeWhere_begins rfl).mul _
  | pathExpression trailer =>
    cases trailer with
    | bare => exact nodeWhere_begins rfl
    | member | arguments | closure | index => exact ((nodeWhere_begins rfl).mul _).mul _
  | pathElement =>
    exact (((pathStep_begins _).add (pathStep_begins _)).add (pathStep_begins _)).add
      (pathStep_begins _)
  | argumentListElement | expressionListElement => exact expression_begins
  | identifier | literal => exact leafWhere_begins rfl rfl

/-- A filled tree that conforms to the grammar has tokens, and the first of them is no separator. -/
theorem Tree.Conforms.first_token {tree : Tree} (conforms : tree.Conforms)
    (filled : tree.isFilled = true) :
    ∃ token rest, tree.tokens = token :: rest ∧ token.kind.isSeparator = false := by
  induction conforms with
  | token token => exact ⟨token, [], rfl, by simpa [Tree.isFilled] using filled⟩
  | node kind children word below ih =>
    obtain ⟨first, others, rfl, firstFilled⟩ :=
      production_begins (by simpa [Tree.isFilled] using filled) _ word
    obtain ⟨token, rest, shape, visible⟩ := ih first (by simp) firstFilled
    refine ⟨token, rest ++ Tree.forestTokens others, ?_, visible⟩
    simp only [Tree.tokens, Tree.forestTokens, shape, List.cons_append]

end GroovyTidy
