import GroovyTidy.Proofs.Token.Tiling
import GroovyTidy.Proofs.Tree.Grammatical

set_option autoImplicit false

/-!
Delimiters nest. Reading tokens closes the innermost delimiter whatever closes it, and does not ask
whether the kinds agree. In a source that the grammar accepts they always do: each production opens
and closes in pairs, so the delimiters taken to be open are the ones that are.
-/
namespace GroovyTidy

open scoped Computability
open Production Text

/-! ## Nested delimiters -/

def TokenKind.isDelimiter : TokenKind → Bool
  | .opening _ | .closing _ => true
  | _ => false

/-- Each opening delimiter among the tokens has a closing one of its kind, and so has what stands
between them. -/
inductive Nested : List Token → Prop where
  | nil : Nested []
  | token (token : Token) (other : token.kind.isDelimiter = false) : Nested [token]
  | append {front back : List Token} (first : Nested front) (second : Nested back) :
      Nested (front ++ back)
  | enclosed {opening closing : Token} {delimiter : Delimiter} {inside : List Token}
      (opens : opening.kind = .opening delimiter) (closes : closing.kind = .closing delimiter)
      (within : Nested inside) : Nested (opening :: inside ++ [closing])

/-- The delimiters that are open after a token, the innermost first, if the token does not close
another one. -/
def trulyOpenAfter? (opened : List Delimiter) : TokenKind → Option (List Delimiter)
  | .opening delimiter => some (delimiter :: opened)
  | .closing delimiter =>
    match opened with
    | [] => none
    | innermost :: others => if innermost = delimiter then some others else none
  | _ => some opened

/-- The delimiters that are open after tokens, if none of these closes another one. -/
def trulyOpen? (opened : List Delimiter) : List Token → Option (List Delimiter)
  | [] => some opened
  | token :: rest => (trulyOpenAfter? opened token.kind).bind fun opened => trulyOpen? opened rest

theorem trulyOpen?_append (opened : List Delimiter) (front back : List Token) :
    trulyOpen? opened (front ++ back) =
      (trulyOpen? opened front).bind fun opened => trulyOpen? opened back := by
  induction front generalizing opened with
  | nil => rfl
  | cons token front ih =>
    rw [List.cons_append, trulyOpen?, trulyOpen?, Option.bind_assoc]
    congr 1
    funext next
    exact ih next

theorem trulyOpenAfter?_other {kind : TokenKind} (other : kind.isDelimiter = false)
    (opened : List Delimiter) : trulyOpenAfter? opened kind = some opened := by
  cases kind with
  | opening | closing => cases other
  | _ => rfl

/-- Nested tokens leave open what was open before them. -/
theorem Nested.trulyOpen?_eq {tokens : List Token} (nested : Nested tokens)
    (opened : List Delimiter) : trulyOpen? opened tokens = some opened := by
  induction nested generalizing opened with
  | nil => rfl
  | token token other => rw [trulyOpen?, trulyOpenAfter?_other other, Option.bind_some, trulyOpen?]
  | append _ _ first second => rw [trulyOpen?_append, first, Option.bind_some, second]
  | @enclosed opening closing delimiter inside opens closes _ ih =>
    rw [List.cons_append, trulyOpen?, opens, trulyOpenAfter?, Option.bind_some,
      trulyOpen?_append, ih, Option.bind_some, trulyOpen?, closes, trulyOpenAfter?, if_pos rfl,
      Option.bind_some, trulyOpen?]

/-- Where kinds agree, it is right to close the innermost delimiter. -/
theorem openAfter_of_trulyOpenAfter? {opened after : List Delimiter} {kind : TokenKind}
    (found : trulyOpenAfter? opened kind = some after) : openAfter opened kind = after := by
  cases kind with
  | opening delimiter => exact Option.some.inj found
  | closing delimiter =>
    cases opened with
    | nil => cases found
    | cons innermost others =>
      simp only [trulyOpenAfter?] at found
      split at found
      · exact Option.some.inj found
      · cases found
  | _ => exact Option.some.inj found

theorem openAfterAll_of_trulyOpen? {opened after : List Delimiter} {tokens : List Token}
    (found : trulyOpen? opened tokens = some after) : openAfterAll opened tokens = after := by
  induction tokens generalizing opened with
  | nil => exact Option.some.inj found
  | cons token tokens ih =>
    obtain ⟨next, here, later⟩ := Option.bind_eq_some_iff.mp found
    rw [openAfterAll, List.foldl_cons, openAfter_of_trulyOpenAfter? here]
    exact ih later

/-! ## Productions are nested -/

namespace Production

/-- Every word of the language is nested if the nodes in it are. -/
def Balanced (language : Language Tree) : Prop :=
  ∀ forest ∈ language,
    (∀ kind children, .node kind children ∈ forest → Nested (Tree.node kind children).tokens) →
    Nested (Tree.forestTokens forest)

theorem leafWhere_balanced {test : TokenKind → Bool}
    (opening : ∀ delimiter, test (.opening delimiter) = false)
    (closing : ∀ delimiter, test (.closing delimiter) = false) : Balanced (leafWhere test) := by
  intro forest word _
  obtain ⟨token, passed, rfl⟩ := word
  apply Nested.token
  generalize token.kind = kind at passed
  cases kind with
  | opening delimiter =>
    rw [opening] at passed
    cases passed
  | closing delimiter =>
    rw [closing] at passed
    cases passed
  | _ => rfl

theorem leaf_balanced {kind : TokenKind} (other : kind.isDelimiter = false) :
    Balanced (leaf kind) := by
  apply leafWhere_balanced
  · intro delimiter
    apply beq_eq_false_iff_ne.mpr
    rintro rfl
    cases other
  · intro delimiter
    apply beq_eq_false_iff_ne.mpr
    rintro rfl
    cases other

theorem nodeWhere_balanced (test : NodeKind → Bool) : Balanced (nodeWhere test) := by
  intro forest word nodes
  obtain ⟨kind, children, -, rfl⟩ := word
  rw [Tree.forestTokens, Tree.forestTokens, List.append_nil]
  exact nodes kind children List.mem_cons_self

theorem nodeOf_balanced (kind : NodeKind) : Balanced (nodeOf kind) :=
  nodeWhere_balanced _

theorem one_balanced : Balanced 1 := by
  intro forest word _
  obtain rfl := word
  exact .nil

namespace Balanced

variable {left right : Language Tree}

theorem mul (first : Balanced left) (second : Balanced right) : Balanced (left * right) := by
  intro forest word nodes
  obtain ⟨front, inLeft, back, inRight, rfl⟩ := Language.mem_mul.mp word
  rw [Tree.forestTokens_append]
  apply Nested.append
  · exact first front inLeft fun kind children member =>
      nodes kind children (List.mem_append_left _ member)
  · exact second back inRight fun kind children member =>
      nodes kind children (List.mem_append_right _ member)

theorem add (first : Balanced left) (second : Balanced right) : Balanced (left + right) := by
  intro forest word
  rcases word with word | word
  · exact first forest word
  · exact second forest word

theorem optional (given : Balanced left) : Balanced (1 + left) :=
  one_balanced.add given

theorem kstar (given : Balanced left) : Balanced left∗ := by
  intro forest word nodes
  obtain ⟨words, rfl, each⟩ := Language.mem_kstar.mp word
  clear word
  induction words with
  | nil => exact .nil
  | cons first words ih =>
    obtain ⟨here, later⟩ := List.forall_mem_cons.mp each
    rw [List.flatten_cons] at nodes ⊢
    rw [Tree.forestTokens_append]
    apply Nested.append
    · exact given first here fun kind children member =>
        nodes kind children (List.mem_append_left _ member)
    · exact ih later fun kind children member =>
        nodes kind children (List.mem_append_right _ member)

theorem commas (given : Balanced left) : Balanced (Production.commas left) :=
  given.mul ((leaf_balanced rfl).mul given).kstar

/-- The only delimiters that stand directly in a production are a pair around all the rest. -/
theorem enclosed (given : Balanced left) (delimiter : Delimiter) :
    Balanced (leaf (.opening delimiter) * left * leaf (.closing delimiter)) := by
  intro forest word nodes
  obtain ⟨_, front, _, last, rfl⟩ := Language.mem_mul.mp word
  obtain ⟨_, start, middle, inside, rfl⟩ := Language.mem_mul.mp front
  obtain ⟨opening, opens, rfl⟩ := mem_leaf.mp start
  obtain ⟨closing, closes, rfl⟩ := mem_leaf.mp last
  have within :=
    given middle inside fun kind children member => nodes kind children (by simp [member])
  simpa only [Tree.forestTokens_append, Tree.forestTokens, Tree.tokens, List.append_nil,
    List.cons_append, List.nil_append] using Nested.enclosed opens closes within

end Balanced

theorem expression_balanced : Balanced expression :=
  nodeWhere_balanced _

theorem separators_balanced : Balanced separator∗ :=
  (leafWhere_balanced (fun _ => rfl) fun _ => rfl).kstar

theorem separatorRun_balanced : Balanced separatorRun :=
  (leafWhere_balanced (fun _ => rfl) fun _ => rfl).mul separators_balanced

theorem assigned_balanced : Balanced assigned :=
  (leaf_balanced rfl).mul expression_balanced

theorem pathStep_balanced (trailer : PathTrailer) : Balanced (pathStep trailer) := by
  cases trailer with
  | bare =>
    intro forest word
    exact absurd word (Language.notMem_zero forest)
  | member => exact (leafWhere_balanced (fun _ => rfl) fun _ => rfl).mul (nodeOf_balanced _)
  | arguments | closure => exact nodeOf_balanced _
  | index => exact (nodeOf_balanced _).enclosed _

theorem pathElement_balanced (trailer : PathTrailer) : Balanced (pathElement trailer) := by
  intro forest word nodes
  obtain ⟨children, -, rfl⟩ := word
  rw [Tree.forestTokens, Tree.forestTokens, List.append_nil]
  exact nodes _ _ List.mem_cons_self

theorem namedType_balanced : Balanced namedType :=
  ((leafWhere_balanced (fun _ => rfl) fun _ => rfl).mul
    ((leaf_balanced rfl).mul (leafWhere_balanced (fun _ => rfl) fun _ => rfl)).kstar).mul
      (nodeOf_balanced _).optional

theorem declarationHead_balanced : Balanced declarationHead :=
  ((nodeOf_balanced _).mul (nodeOf_balanced _).optional).add (nodeOf_balanced _)

theorem nameOfMethod_balanced : Balanced nameOfMethod := by
  intro forest word
  exact (nodeOf_balanced _).add (nodeOf_balanced _) forest (nameOfMethod_le word)

theorem closureHead_balanced : Balanced closureHead :=
  ((nodeOf_balanced _).commas.optional.mul (leaf_balanced rfl)).mul separators_balanced

end Production

theorem production_balanced (kind : NodeKind) : Balanced (production kind) := by
  cases kind with
  | compilationUnit =>
    refine Balanced.mul (separators_balanced.mul (.add ?_ (nodeOf_balanced _).optional))
      (leaf_balanced rfl)
    exact (nodeOf_balanced _).mul
      ((separatorRun_balanced.mul (nodeOf_balanced _)).add separators_balanced)
  | packageDeclaration => exact (leaf_balanced rfl).mul (nodeOf_balanced _)
  | qualifiedName =>
    exact (nodeOf_balanced _).mul ((leaf_balanced rfl).mul (nodeOf_balanced _)).kstar
  | statements =>
    exact ((nodeWhere_balanced _).mul (separatorRun_balanced.mul (nodeWhere_balanced _)).kstar).mul
      separators_balanced
  | importStatement | methodDeclarationStatement | localVariableDeclarationStatement
  | expressionStatement | commandAlternative | postfixAlternative | identifierPrimary
  | literalPrimary | closurePrimary =>
    exact nodeOf_balanced _
  | returnStatement => exact (leaf_balanced rfl).mul expression_balanced.optional
  | importDeclaration =>
    refine Balanced.mul (((leaf_balanced rfl).mul (leaf_balanced rfl).optional).mul
      (nodeOf_balanced _)) ?_
    exact ((leaf_balanced rfl).mul (leaf_balanced rfl)).add
      ((leaf_balanced rfl).mul (nodeOf_balanced _)).optional
  | methodDeclaration =>
    exact ((declarationHead_balanced.mul nameOfMethod_balanced).mul (nodeOf_balanced _)).mul
      (nodeOf_balanced _)
  | localVariableDeclaration => exact declarationHead_balanced.mul (nodeOf_balanced _).commas
  | modifiers =>
    exact (leafWhere_balanced (fun _ => rfl) fun _ => rfl).mul
      (leafWhere_balanced (fun _ => rfl) fun _ => rfl).kstar
  | type =>
    have brackets := one_balanced.enclosed .bracket
    rw [mul_one] at brackets
    exact ((leafWhere_balanced (fun _ => rfl) fun _ => rfl).add namedType_balanced).mul
      brackets.kstar
  | typeArguments =>
    exact ((leaf_balanced rfl).mul (nodeOf_balanced _).commas).mul (leaf_balanced rfl)
  | formalParameters => exact (nodeOf_balanced _).commas.optional.enclosed _
  | formalParameter =>
    exact (((nodeOf_balanced _).optional.mul (nodeOf_balanced _).optional).mul
      (nodeOf_balanced _)).mul
      assigned_balanced.optional
  | variableDeclarator => exact (nodeOf_balanced _).mul assigned_balanced.optional
  | block =>
    have within := (separators_balanced.mul (nodeOf_balanced .statements).optional).enclosed .brace
    rwa [← mul_assoc] at within
  | commandExpression => exact expression_balanced.mul (nodeOf_balanced _).optional
  | assignmentAlternative =>
    exact ((nodeOf_balanced _).mul (leaf_balanced rfl)).mul expression_balanced
  | postfixExpression =>
    exact (nodeWhere_balanced _).mul (leafWhere_balanced (fun _ => rfl) fun _ => rfl).optional
  | pathExpression trailer =>
    cases trailer with
    | bare => exact nodeWhere_balanced _
    | member | arguments | closure | index =>
      exact ((nodeWhere_balanced _).mul (nodeOf_balanced _).kstar).mul (pathElement_balanced _)
  | pathElement =>
    exact (((pathStep_balanced _).add (pathStep_balanced _)).add (pathStep_balanced _)).add
      (pathStep_balanced _)
  | arguments | listPrimary => exact (nodeOf_balanced _).optional.enclosed _
  | parenthesizedPrimary => exact expression_balanced.enclosed _
  | closure =>
    have within := ((separators_balanced.mul closureHead_balanced.optional).mul
      (nodeOf_balanced .statements).optional).enclosed .brace
    rwa [← mul_assoc, ← mul_assoc] at within
  | expressionList | argumentList => exact (nodeOf_balanced _).commas
  | argumentListElement | expressionListElement => exact expression_balanced
  | identifier | literal => exact leafWhere_balanced (fun _ => rfl) fun _ => rfl

/-- The tokens under a node that conforms to the grammar are nested. -/
theorem Tree.Conforms.nested {kind : NodeKind} {children : List Tree}
    (conforms : (Tree.node kind children).Conforms) : Nested (Tree.node kind children).tokens := by
  generalize shape : Tree.node kind children = tree at conforms
  induction conforms generalizing kind children with
  | token token => cases shape
  | node kind children word below ih =>
    cases shape
    rw [Tree.tokens]
    exact production_balanced _ _ word fun kind inside member => ih _ member rfl

theorem nested_of_parseTokens {tokens : List Token} {unit : Node}
    (success : parseTokens tokens = .ok unit) : Nested unit.tokens := by
  have conforms := (parseTokens_conforms success).2
  exact conforms.nested

/-! ## Sources -/

/-- What follows some of the tokens of a text is read with the delimiters open that are open after
these. -/
theorem tokensFrom_split {index : LineIndex} {offset : Nat} {opened : List Delimiter}
    {skipped : Nat} {text : List Char} {front back : List Token} (filled : back ≠ [])
    (success : tokensFrom index offset opened skipped text = .ok (front ++ back)) :
    ∃ reached left rest, rest <:+ text ∧
      tokensFrom index reached (openAfterAll opened front) left rest = .ok back := by
  cases front with
  | nil => exact ⟨offset, skipped, text, List.suffix_refl _, success⟩
  | cons first front =>
    fun_induction tokensFrom index offset opened skipped text generalizing first front with
    | case1 => simp [filled] at success
    | case2 offset opened skipped c rest ih =>
      obtain ⟨reached, left, more, inside, later⟩ := ih first front success
      exact ⟨reached, left, more, inside.trans (List.suffix_cons _ _), later⟩
    | case3 => cases success
    | case4 offset opened c rest length found ih =>
      obtain ⟨reached, left, more, inside, later⟩ := ih first front success
      exact ⟨reached, left, more, inside.trans (List.suffix_cons _ _), later⟩
    | case5 => cases success
    | case6 offset opened c rest kind length found token tokens more ih =>
      rw [List.cons_append, Except.ok.injEq, List.cons.injEq] at success
      obtain ⟨rfl, rfl⟩ := success
      rw [openAfterAll, List.foldl_cons]
      cases front with
      | nil => exact ⟨_, _, rest, List.suffix_cons _ _, more⟩
      | cons second front =>
        obtain ⟨reached, left, later, inside, given⟩ := ih second front more
        exact ⟨reached, left, later, inside.trans (List.suffix_cons _ _), given⟩

/-- The delimiters of an accepted source are nested, each closed by one of its kind, and none is
open at its end. At every token the delimiters with which the rest of the source is read are the
ones that are truly open there, and where a line end is a token the innermost of them is a brace, if
any is open. -/
theorem delimiters_truly_open {source : String} {unit : Node} (success : parse source = .ok unit) :
    ∃ tokens, tokenize source = .ok tokens ∧ Nested tokens ∧ trulyOpen? [] tokens = some [] ∧
      ∀ front next back, tokens = front ++ next :: back →
        ∃ opened, trulyOpen? [] front = some opened ∧ openAfterAll [] front = opened ∧
          (∃ offset skipped rest, rest <:+ source.toList ∧
            tokensFrom (.ofText source.toList) offset opened skipped rest = .ok (next :: back)) ∧
          (next.kind = .newline → opened = [] ∨ opened.head? = some .brace) ∧
          (next.kind = .endOfInput → opened = []) := by
  obtain ⟨tokens, lexed, read⟩ := parse_eq_ok success
  have kept : unit.tokens = tokens := by
    rw [tokens_of_parseTokens read, throughEnd_of_tokenize lexed]
  have nested : Nested tokens := kept ▸ nested_of_parseTokens read
  have tiled : Tiled 0 [] source.toList tokens := tokensFrom_tiled lexed
  refine ⟨tokens, lexed, nested, nested.trulyOpen?_eq [], ?_⟩
  intro front next back split
  have closed := nested.trulyOpen?_eq []
  rw [split, trulyOpen?_append] at closed
  obtain ⟨opened, before, after⟩ := Option.bind_eq_some_iff.mp closed
  have same := openAfterAll_of_trulyOpen? before
  refine ⟨opened, before, same, ?_, ?_, ?_⟩
  · have rest := tokensFrom_split (List.cons_ne_nil next back) (split ▸ lexed)
    rwa [same] at rest
  · intro newline
    obtain ⟨passed, gap, rest, -, -, tile⟩ := tiled.tile split
    have outside := tile.outside newline
    rw [same, Enclosed] at outside
    match opened with
    | [] => exact .inl rfl
    | .brace :: others => exact .inr rfl
    | .paren :: others | .bracket :: others => simp at outside
  · intro ended
    obtain ⟨body, last, shape, -, -, others⟩ := tiled.ends
    -- The end of input is the last token, so nothing closes what is open before it.
    have alone : back = [] := by
      by_contra more
      have dropped : (body ++ [last]).dropLast = body := List.dropLast_concat
      have early : next ∈ body := by
        rw [← dropped, ← shape, split, List.dropLast_append_cons, List.dropLast_cons_of_ne_nil more]
        simp
      exact (others next early).1 ended
    rw [alone, trulyOpen?, trulyOpenAfter?_other (by rw [ended]; rfl), Option.bind_some, trulyOpen?]
      at after
    exact Option.some.inj after

/-- Line ends inside a closure and after it, with one between brackets that is no token. -/
theorem delimiters_truly_open_of_closure :
    ∃ tokens, tokenize "f({
[1,
2]
})
" = .ok tokens ∧ Nested tokens ∧ trulyOpen? [] tokens = some [] ∧
      ∀ front next back, tokens = front ++ next :: back →
        ∃ opened, trulyOpen? [] front = some opened ∧ openAfterAll [] front = opened ∧
          (∃ offset skipped rest, rest <:+ "f({
[1,
2]
})
".toList ∧
            tokensFrom (.ofText "f({
[1,
2]
})
".toList) offset opened skipped rest = .ok (next :: back)) ∧
          (next.kind = .newline → opened = [] ∨ opened.head? = some .brace) ∧
          (next.kind = .endOfInput → opened = []) := by
  have accepted : (parse "f({
[1,
2]
})
").isOk := by decide +kernel
  match parsed : parse "f({
[1,
2]
})
" with
  | .ok unit => exact delimiters_truly_open parsed
  | .error _ => simp [parsed, Except.isOk, Except.toBool] at accepted

end GroovyTidy
