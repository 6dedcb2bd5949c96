import GroovyTidy.Proofs.Tree.Coverage
import GroovyTidy.Proofs.Tree.Stripped

set_option autoImplicit false

/-!
Places of tokens do not matter to the grammar. A rule looks at kinds, and in one place at the text
of a token, so it gives the same trees, takes the same decisions and refuses at the same token when
all tokens are taken to stand at the start of a source. One lemma for each way of looking ahead and
for each way of making rules from others carries this through the grammar.
-/
namespace GroovyTidy

open Lookahead

/-! ## Values without places -/

/-- Values that may hold tokens. -/
class Placed (α : Type) where
  /-- The value with all tokens at the start of a source. -/
  unplaced : α → α

export Placed (unplaced)

instance : Placed Unit := ⟨id⟩

instance : Placed Bool := ⟨id⟩

instance : Placed PathTrailer := ⟨id⟩

instance : Placed Token := ⟨Token.unplaced⟩

instance {α : Type} [Placed α] : Placed (List α) := ⟨List.map unplaced⟩

instance {α β : Type} [Placed α] [Placed β] : Placed (α × β) := ⟨Prod.map unplaced unplaced⟩

namespace Tree

mutual

/-- A tree with all tokens at the start of a source. -/
def unplaced : Tree → Tree
  | .node kind children => .node kind (unplacedForest children)
  | .token leaf => .token leaf.unplaced

/-- A list of trees with all tokens at the start of a source. -/
def unplacedForest : List Tree → List Tree
  | [] => []
  | tree :: forest => tree.unplaced :: unplacedForest forest

end

theorem unplacedForest_eq (forest : List Tree) : unplacedForest forest = forest.map unplaced := by
  induction forest with
  | nil => rfl
  | cons tree forest ih => rw [unplacedForest, ih, List.map_cons]

end Tree

instance : Placed Tree := ⟨Tree.unplaced⟩

/-- A node with all tokens at the start of a source. -/
def Node.unplaced (node : Node) : Node where
  kind := node.kind
  children := node.children.map Tree.unplaced

instance : Placed Decision := ⟨fun decision => { decision with token := decision.token.unplaced }⟩

def Problem.unplaced : Problem → Problem
  | .unexpectedToken wanted found => .unexpectedToken wanted found.unplaced
  | problem => problem

instance : Placed SyntaxError := ⟨fun error => ⟨error.problem.unplaced, 0, 1, 1⟩⟩

instance : Placed TokenStream where
  unplaced stream :=
    ⟨unplaced stream.pending, stream.final.unplaced, stream.position, stream.final_kind⟩

instance : Placed Reading := ⟨fun reading => ⟨unplaced reading.stream, unplaced reading.decisions⟩⟩

instance {α : Type} [Placed α] : Placed (EStateM.Result SyntaxError Reading α) where
  unplaced
    | .ok value reading => .ok (unplaced value) (unplaced reading)
    | .error error reading => .error (unplaced error) (unplaced reading)

theorem unplaced_ok {α : Type} [Placed α] (value : α) (reading : Reading) :
    unplaced (.ok value reading : EStateM.Result SyntaxError Reading α) =
      .ok (unplaced value) (unplaced reading) :=
  rfl

/-- A token without its place is known from its spelling. -/
theorem unplaced_eq_of_spellings {left right : List Token}
    (spelled : left.map Token.spelling = right.map Token.spelling) :
    unplaced left = unplaced right := by
  have known : ∀ tokens : List Token,
      unplaced tokens =
        (tokens.map Token.spelling).map fun spelling => .place spelling.1 spelling.2 0 1 1 := by
    intro tokens
    rw [List.map_map]
    rfl
  rw [known, known, spelled]

theorem unplaced_append {α : Type} [Placed α] (left right : List α) :
    unplaced (left ++ right) = unplaced left ++ unplaced right :=
  List.map_append

theorem unplaced_flatten {α : Type} [Placed α] (lists : List (List α)) :
    unplaced lists.flatten = (unplaced lists).flatten :=
  List.map_flatten

theorem length_unplaced {α : Type} [Placed α] (list : List α) :
    (unplaced list).length = list.length :=
  List.length_map _

theorem drop_unplaced {α : Type} [Placed α] (n : Nat) (list : List α) :
    (unplaced list).drop n = unplaced (list.drop n) :=
  List.map_drop.symm

theorem unplaced_node (kind : NodeKind) (children : List Tree) :
    unplaced (Tree.node kind children) = .node kind (unplaced children) :=
  congrArg (Tree.node kind) (Tree.unplacedForest_eq children)

/-! ## Looking ahead -/

/-- Looking ahead finds the same wherever the tokens stand. -/
class Placefree {α : Type} (look : List Token → α) : Prop where
  same : ∀ ahead, look (unplaced ahead) = look ahead

namespace Lookahead

theorem kindAt_unplaced (ahead : List Token) (index : Nat) :
    kindAt (unplaced ahead) index = kindAt ahead index := by
  show ((ahead.map Token.unplaced)[index]?).elim _ _ = _
  rw [List.getElem?_map, kindAt]
  cases ahead[index]? with
  | none => rfl
  | some token => rfl

instance starts_placefree (test : TokenKind → Bool) : Placefree (starts test) where
  same ahead := congrArg test (kindAt_unplaced ahead 0)

instance startsWith_placefree (kind : TokenKind) : Placefree (startsWith kind) where
  same ahead := congrArg (· == kind) (kindAt_unplaced ahead 0)

instance startsPair_placefree (first second : TokenKind → Bool) :
    Placefree (startsPair first second) where
  same ahead := by
    rw [startsPair, kindAt_unplaced, kindAt_unplaced]
    rfl

instance not_placefree (test : List Token → Bool) [given : Placefree test] :
    Placefree fun ahead => !test ahead where
  same ahead := congrArg not (given.same ahead)

theorem skipPairs_unplaced (first second : TokenKind → Bool) (ahead : List Token) :
    skipPairs first second (unplaced ahead) = unplaced (skipPairs first second ahead) := by
  fun_induction skipPairs first second ahead with
  | case1 left right rest passed ih =>
    show (if first left.kind && second right.kind then _ else _) = _
    rw [if_pos passed]
    exact ih
  | case2 left right rest failed =>
    show (if first left.kind && second right.kind then _ else _) = _
    rw [if_neg failed]
    rfl
  | case3 ahead short =>
    rcases ahead with _ | ⟨left, _ | ⟨right, rest⟩⟩
    · rfl
    · rfl
    · exact absurd rfl (short left right rest)

theorem afterTypeList?_unplaced {after? : List Token → Option (List Token)}
    (given : ∀ ahead, after? (unplaced ahead) = (after? ahead).map unplaced) (bound : Nat)
    (ahead : List Token) :
    afterTypeList? after? bound (unplaced ahead) =
      (afterTypeList? after? bound ahead).map unplaced := by
  induction bound generalizing ahead with
  | zero => rfl
  | succ bound ih =>
    rw [afterTypeList?, afterTypeList?, given]
    rcases after? ahead with _ | _ | ⟨token, rest⟩
    · rfl
    · rfl
    · show (if token.kind = .comma then afterTypeList? after? bound (unplaced rest)
        else if token.kind = .greater then some (unplaced rest) else none) = _
      rw [ih]
      dsimp only
      split
      · rfl
      · split <;> rfl

theorem afterTypeWithin?_unplaced (bound : Nat) (ahead : List Token) :
    afterTypeWithin? bound (unplaced ahead) = (afterTypeWithin? bound ahead).map unplaced := by
  induction bound generalizing ahead with
  | zero => rfl
  | succ bound ih =>
    cases ahead with
    | nil => rfl
    | cons first rest =>
      have brackets : ∀ ahead, skipBrackets (unplaced ahead) = unplaced (skipBrackets ahead) :=
        skipPairs_unplaced _ _
      have names : skipNames (unplaced rest) = unplaced (skipNames rest) := skipPairs_unplaced _ _ _
      show afterTypeWithin? (bound + 1) (first.unplaced :: unplaced rest) = _
      rw [afterTypeWithin?, afterTypeWithin?, names, length_unplaced]
      show (if first.kind.isPrimitiveType then _ else if first.kind.isIdentifier then _ else _) = _
      split
      · rw [brackets]
        rfl
      · split
        · rcases skipNames rest with _ | ⟨token, inside⟩
          · rfl
          · show (if token.kind = .less then
                (afterTypeList? (afterTypeWithin? bound) rest.length (unplaced inside)).map
                  skipBrackets
              else some (skipBrackets (unplaced (token :: inside)))) = _
            rw [afterTypeList?_unplaced ih, brackets]
            dsimp only
            split
            · rw [Option.map_map, Option.map_map]
              exact congrArg (Option.map · _) (funext brackets)
            · rfl
        · rfl

theorem afterType?_unplaced (ahead : List Token) :
    afterType? (unplaced ahead) = (afterType? ahead).map unplaced := by
  rw [afterType?, length_unplaced, afterTypeWithin?_unplaced]
  rfl

instance startsTyped_placefree (test : List Token → Bool) [given : Placefree test] :
    Placefree (startsTyped test) where
  same ahead := by
    rw [startsTyped, afterType?_unplaced, Option.any_map]
    exact congrArg ((afterType? ahead).any ·) (funext given.same)

theorem afterParentheses?_unplaced (depth : Nat) (ahead : List Token) :
    afterParentheses? depth (unplaced ahead) = (afterParentheses? depth ahead).map unplaced := by
  induction ahead generalizing depth with
  | nil => rfl
  | cons token rest ih =>
    show (if token.kind = .opening .paren then afterParentheses? (depth + 1) (unplaced rest)
      else if token.kind = .closing .paren then
        if depth ≤ 1 then some (unplaced rest) else afterParentheses? (depth - 1) (unplaced rest)
      else if token.kind = .endOfInput then none
      else afterParentheses? depth (unplaced rest)) = _
    rw [ih, ih, ih, afterParentheses?]
    repeat' split
    all_goals rfl

instance startsMethodBody_placefree : Placefree startsMethodBody where
  same ahead := by
    rw [startsMethodBody, afterParentheses?_unplaced, Option.any_map]
    exact congrArg ((afterParentheses? 0 ahead).any ·) (funext (startsWith_placefree _).same)

theorem skipModifiers_unplaced (ahead : List Token) :
    skipModifiers (unplaced ahead) = unplaced (skipModifiers ahead) :=
  List.dropWhile_map ..

instance startsMethodHead_placefree : Placefree startsMethodHead where
  same := (startsPair_placefree _ _).same

instance startsDeclarator_placefree : Placefree startsDeclarator where
  same := (startsPair_placefree _ _).same

instance declaresMethod_placefree : Placefree declaresMethod where
  same ahead := by
    rw [declaresMethod, declaresMethod, skipModifiers_unplaced, afterType?_unplaced]
    rw [length_unplaced, length_unplaced, startsMethodHead_placefree.same, drop_unplaced,
      startsMethodBody_placefree.same]
    cases afterType? (skipModifiers ahead) with
    | none => rfl
    | some named =>
      rw [Option.map_some, Option.filter_some, Option.filter_some, startsMethodHead_placefree.same]
      cases startsMethodHead named with
      | false => rfl
      | true =>
        show startsMethodBody ((unplaced named).drop 1) = startsMethodBody (named.drop 1)
        rw [drop_unplaced, startsMethodBody_placefree.same]

instance declaresVariable_placefree : Placefree declaresVariable where
  same ahead := by
    rw [declaresVariable, declaresVariable, skipModifiers_unplaced]
    rw [length_unplaced, length_unplaced, (startsTyped_placefree _).same,
      startsDeclarator_placefree.same]

theorem readsAsCommand_unplaced (first : Token) (ahead : List Token) :
    readsAsCommand (unplaced first) (unplaced ahead) = readsAsCommand first ahead := by
  have path : startsTypePath (unplaced ahead) = startsTypePath ahead := by
    rw [startsTypePath, startsTypePath, kindAt_unplaced, drop_unplaced, skipDotted,
      skipPairs_unplaced, (starts_placefree _).same]
    rfl
  rw [readsAsCommand, readsAsCommand, path, kindAt_unplaced, kindAt_unplaced]
  rfl

theorem listsParameters_unplaced (bound : Nat) (ahead : List Token) :
    listsParameters bound (unplaced ahead) = listsParameters bound ahead := by
  induction bound generalizing ahead with
  | zero => rfl
  | succ bound ih =>
    have name : ∀ rest, skipName (unplaced rest) = unplaced (skipName rest) := by
      intro rest
      rw [skipName, skipName, (starts_placefree _).same, drop_unplaced]
      split <;> rfl
    rw [listsParameters_succ, listsParameters_succ, afterType?_unplaced, Option.any_map]
    congr 1
    funext rest
    rw [name, (startsWith_placefree _).same, (startsWith_placefree _).same, drop_unplaced, ih]

instance startsClosureHead_placefree : Placefree startsClosureHead where
  same ahead := by
    rw [startsClosureHead, startsClosureHead, (startsWith_placefree _).same, length_unplaced,
      listsParameters_unplaced]

end Lookahead

instance Grammar.trailerAhead?_placefree : Placefree Grammar.trailerAhead? where
  same ahead := by
    rw [Grammar.trailerAhead?, Grammar.trailerAhead?, (startsPair_placefree _ _).same,
      kindAt_unplaced]

/-! ## Parsers made from others -/

namespace Rule

section

variable {α β : Type} [Placed α] [Placed β]

/-- The second parser makes of tokens without their places what the first one makes of them, without
the places. -/
def Keeps (parser other : Parser α) : Prop :=
  ∀ reading, other (unplaced reading) = unplaced (parser reading)

/-- What the parser makes of tokens does not depend on their places. -/
class Placeless (parser : Parser α) : Prop where
  keeps : Keeps parser parser

theorem keeps_of (parser : Parser α) [placeless : Placeless parser] : Keeps parser parser :=
  placeless.keeps

theorem ahead_unplaced (reading : Reading) : (unplaced reading).ahead = unplaced reading.ahead :=
  rfl

theorem next_unplaced (stream : TokenStream) : (unplaced stream).next = unplaced stream.next := by
  show ((stream.pending.map Token.unplaced).head?).getD stream.final.unplaced =
      (stream.pending.head?.getD _).unplaced
  cases stream.pending with
  | nil => rfl
  | cons token rest => rfl

theorem advance_unplaced (stream : TokenStream) :
    (unplaced stream).advance = unplaced stream.advance := by
  obtain ⟨pending, final, position, ended⟩ := stream
  cases pending with
  | nil => rfl
  | cons token rest => rfl

theorem pure_keeps (value : α) : Keeps (pure value) (pure (unplaced value)) :=
  fun _ => rfl

theorem Keeps.bind {first other : Parser α} {next otherNext : α → Parser β}
    (given : Keeps first other) (later : ∀ value, Keeps (next value) (otherNext (unplaced value))) :
    Keeps (first >>= next) (other >>= otherNext) := by
  intro reading
  have here := given reading
  change EStateM.bind other otherNext (unplaced reading) =
    unplaced (EStateM.bind first next reading)
  unfold EStateM.bind
  rw [here]
  cases first reading with
  | ok value middle => exact later value middle
  | error error middle => rfl

theorem Keeps.map {parser other : Parser α} (given : Keeps parser other) {f : α → β}
    (natural : ∀ value, f (unplaced value) = unplaced (f value)) :
    Keeps (f <$> parser) (f <$> other) := by
  rw [map_eq_pure_bind, map_eq_pure_bind]
  refine given.bind fun value => ?_
  rw [natural]
  exact pure_keeps _

theorem Keeps.lookingAhead {choose otherChoose : List Token → Parser α}
    (each : ∀ ahead, Keeps (choose ahead) (otherChoose (unplaced ahead))) :
    Keeps (lookingAhead choose) (Rule.lookingAhead otherChoose) :=
  fun reading => each reading.ahead reading

theorem Keeps.append {front back otherFront otherBack : Rule} (first : Keeps front otherFront)
    (second : Keeps back otherBack) : Keeps (front ++ back) (otherFront ++ otherBack) := by
  refine first.bind fun left => second.bind fun right => ?_
  rw [← unplaced_append]
  exact pure_keeps _

theorem Keeps.node {children other : Rule} (given : Keeps children other) (kind : NodeKind) :
    Keeps (node kind children) (Rule.node kind other) := by
  refine given.bind fun below => ?_
  have moved : [Tree.node kind (unplaced below)] = unplaced [Tree.node kind below] :=
    congrArg (fun tree : Tree => [tree]) (unplaced_node kind below).symm
  rw [moved]
  exact pure_keeps _

instance refuse_placeless (wanted : Wanted) : Placeless (refuse wanted : Parser α) where
  keeps reading := by
    show EStateM.Result.error (SyntaxError.atToken wanted (unplaced reading.stream).next)
        (unplaced reading) = _
    rw [next_unplaced]
    rfl

instance accept_placeless (test : TokenKind → Bool) (wanted : Wanted) :
    Placeless (accept test wanted) where
  keeps reading := by
    have refused := (refuse_placeless wanted : Placeless (refuse wanted : Rule)).keeps reading
    have next : (unplaced reading).stream.next = unplaced reading.stream.next :=
      next_unplaced reading.stream
    have kind : (unplaced reading.stream.next).kind = reading.stream.next.kind := rfl
    have advance : (unplaced reading).stream.advance = unplaced reading.stream.advance :=
      advance_unplaced reading.stream
    unfold accept
    rw [refused, next, advance, kind]
    split <;> rfl

instance token_placeless (kind : TokenKind) : Placeless (token kind) :=
  accept_placeless _ _

instance note_placeless (question : Question) (ruledOut : Bool) :
    Placeless (note question ruledOut) where
  keeps reading := by
    have next : (unplaced reading).stream.next = unplaced reading.stream.next :=
      next_unplaced reading.stream
    unfold note
    rw [next]
    rfl

instance nothing_placeless : Placeless nothing where
  keeps := pure_keeps []

instance ite_placeless (condition : Prop) [Decidable condition] (yes no : Parser α) [Placeless yes]
    [Placeless no] : Placeless (if condition then yes else no) := by
  split <;> assumption

theorem lookingAhead_placeless {choose : List Token → Parser α} (same : Placefree choose)
    (each : ∀ ahead, Placeless (choose ahead)) : Placeless (lookingAhead choose) where
  keeps := by
    refine .lookingAhead fun ahead => ?_
    rw [same.same]
    exact (each ahead).keeps

theorem repeatWithin_placeless {choose : List Token → Option (Parser α)} (same : Placefree choose)
    (each : ∀ ahead, ∀ item ∈ choose ahead, Placeless item) (bound : Nat) :
    Placeless (repeatWithin choose bound) := by
  induction bound with
  | zero => exact ⟨pure_keeps []⟩
  | succ bound ih =>
    refine ⟨fun reading => ?_⟩
    unfold repeatWithin
    rw [ahead_unplaced, same.same]
    cases chosen : choose reading.ahead with
    | none => rfl
    | some item =>
      dsimp only
      rw [(each _ item chosen).keeps reading]
      cases item reading with
      | error error middle => rfl
      | ok first middle =>
        rw [unplaced_ok]
        dsimp only
        rw [ih.keeps middle]
        cases repeatWithin choose bound middle with
        | error error after => rfl
        | ok rest after => rfl

theorem many_placeless {choose : List Token → Option (Parser α)} (same : Placefree choose)
    (each : ∀ ahead, ∀ item ∈ choose ahead, Placeless item) : Placeless (many choose) := by
  refine lookingAhead_placeless ⟨fun ahead => ?_⟩ fun ahead => repeatWithin_placeless same each _
  rw [length_unplaced]

end

section

variable (front back rule : Rule) [Placeless front] [Placeless back] [Placeless rule]

instance append_placeless : Placeless (front ++ back) where
  keeps := (keeps_of front).append (keeps_of back)

instance node_placeless (kind : NodeKind) : Placeless (node kind rule) where
  keeps := (keeps_of rule).node kind

instance when_placeless (test : List Token → Bool) [given : Placefree test] :
    Placeless (Rule.when test rule) := by
  refine lookingAhead_placeless ⟨fun ahead => ?_⟩ inferInstance
  rw [given.same]

instance manyWhile_placeless (test : List Token → Bool) [given : Placefree test] :
    Placeless (manyWhile test rule) := by
  have turns : Placeless (many fun ahead => if test ahead then some rule else none) := by
    refine many_placeless ⟨fun ahead => by rw [given.same]⟩ fun ahead item chosen => ?_
    split at chosen
    · cases chosen
      assumption
    · cases chosen
  exact ⟨turns.keeps.map fun forests => (unplaced_flatten forests).symm⟩

instance commaSeparated_placeless : Placeless (commaSeparated rule) := by
  unfold commaSeparated
  infer_instance

end

end Rule

/-! ## The grammar -/

namespace Grammar

open Rule

instance separators_placeless : Placeless separators := by
  unfold separators
  infer_instance

instance separatorsAfter_placeless : Placeless separatorsAfter := by
  unfold separatorsAfter
  infer_instance

instance identifierToken_placeless : Placeless identifierToken :=
  accept_placeless _ _

instance identifier_placeless : Placeless identifier := by
  unfold identifier
  infer_instance

instance qualifiedName_placeless : Placeless qualifiedName := by
  unfold qualifiedName
  infer_instance

instance packageDeclaration_placeless : Placeless packageDeclaration := by
  unfold packageDeclaration
  infer_instance

instance importDeclaration_placeless : Placeless importDeclaration := by
  have tail : Placeless importTail := by
    refine lookingAhead_placeless ⟨fun ahead => ?_⟩ inferInstance
    rw [(startsPair_placefree _ _).same]
  unfold importDeclaration
  infer_instance

instance modifiers_placeless : Placeless modifiers := by
  unfold modifiers
  infer_instance

instance namedType_placeless (type : Rule) [Placeless type] : Placeless (namedType type) := by
  unfold namedType typeArguments
  infer_instance

instance typeWithin_placeless (bound : Nat) : Placeless (typeWithin bound) := by
  induction bound with
  | zero => exact refuse_placeless _
  | succ bound ih =>
    have named : Placeless (lookingAhead fun ahead =>
        if starts TokenKind.isPrimitiveType ahead then accept TokenKind.isPrimitiveType .identifier
        else namedType (typeWithin bound)) := by
      refine lookingAhead_placeless ⟨fun ahead => ?_⟩ inferInstance
      rw [(starts_placefree _).same]
    unfold typeWithin
    exact node_placeless _ _

instance type_placeless : Placeless type := by
  refine lookingAhead_placeless ⟨fun ahead => ?_⟩ inferInstance
  rw [length_unplaced]

theorem endsInCall_eq_true {tree : Tree} :
    endsInCall tree = true ↔ ∃ trailer steps, (trailer = .arguments ∨ trailer = .closure) ∧
      tree =
        .node .postfixAlternative
          [.node .postfixExpression [.node (.pathExpression trailer) steps]] := by
  constructor
  · intro ends
    unfold endsInCall at ends
    split at ends
    · exact ⟨.arguments, _, .inl rfl, rfl⟩
    · exact ⟨.closure, _, .inr rfl, rfl⟩
    · cases ends
  · rintro ⟨trailer, steps, rfl | rfl, rfl⟩ <;> rfl

theorem eq_node_of_unplaced {tree : Tree} {kind : NodeKind} {children : List Tree}
    (shape : unplaced tree = .node kind children) :
    ∃ below, tree = .node kind below ∧ below.map unplaced = children := by
  cases tree with
  | node kind below =>
    rw [unplaced_node] at shape
    cases shape
    exact ⟨below, rfl, rfl⟩
  | token leaf => cases shape

theorem endsInCall_unplaced (tree : Tree) : endsInCall (unplaced tree) = endsInCall tree := by
  rw [Bool.eq_iff_iff, endsInCall_eq_true, endsInCall_eq_true]
  constructor
  · rintro ⟨trailer, steps, known, shape⟩
    obtain ⟨alternative, rfl, single⟩ := eq_node_of_unplaced shape
    obtain ⟨operand, rfl, inside⟩ := List.map_eq_singleton_iff.mp single
    obtain ⟨below, rfl, lone⟩ := eq_node_of_unplaced inside
    obtain ⟨path, rfl, last⟩ := List.map_eq_singleton_iff.mp lone
    obtain ⟨passed, rfl, -⟩ := eq_node_of_unplaced last
    exact ⟨trailer, passed, known, rfl⟩
  · rintro ⟨trailer, steps, known, rfl⟩
    exact ⟨trailer, Tree.unplacedForest steps, known, rfl⟩

theorem methodAhead_eq (reading : Reading) :
    methodAhead reading =
      .ok (!startsCall reading.ahead && declaresMethod reading.ahead)
        { reading with
          decisions := ⟨.methodDeclaration, startsCall reading.ahead, reading.stream.next⟩ ::
            reading.decisions } :=
  rfl

theorem variableAhead_eq (reading : Reading) :
    variableAhead reading =
      .ok (!readsAsCommand reading.stream.next reading.ahead && declaresVariable reading.ahead)
        { reading with
          decisions := ⟨.localVariableDeclaration, readsAsCommand reading.stream.next reading.ahead,
            reading.stream.next⟩ :: reading.decisions } :=
  rfl

instance methodAhead_placeless : Placeless methodAhead where
  keeps reading := by
    have call : startsCall (unplaced reading.ahead) = startsCall reading.ahead :=
      startsMethodHead_placefree.same _
    have next : (unplaced reading).stream.next = unplaced reading.stream.next :=
      next_unplaced reading.stream
    rw [methodAhead_eq, methodAhead_eq, ahead_unplaced, call, declaresMethod_placefree.same, next]
    rfl

instance variableAhead_placeless : Placeless variableAhead where
  keeps reading := by
    have next : (unplaced reading).stream.next = unplaced reading.stream.next :=
      next_unplaced reading.stream
    rw [variableAhead_eq, variableAhead_eq, ahead_unplaced, next, readsAsCommand_unplaced,
      declaresVariable_placefree.same]
    rfl

section

variable (inner : Inner) [Placeless inner.expression] [Placeless inner.body]

instance formalParameter_placeless : Placeless (formalParameter inner) := by
  unfold formalParameter
  infer_instance

instance formalParameters_placeless : Placeless (formalParameters inner) := by
  unfold formalParameters
  infer_instance

instance block_placeless : Placeless (block inner) := by
  unfold block optionalBody
  infer_instance

instance closure_placeless : Placeless (closure inner) := by
  unfold closure closureParameters optionalBody
  infer_instance

instance argumentList_placeless : Placeless (argumentList inner) := by
  unfold argumentList
  infer_instance

instance expressionList_placeless : Placeless (expressionList inner) := by
  unfold expressionList
  infer_instance

instance primary_placeless : Placeless (primary inner) := by
  unfold primary literal listPrimary
  refine lookingAhead_placeless ⟨fun ahead => ?_⟩ fun ahead => ?_
  · rw [kindAt_unplaced]
  · dsimp only
    repeat' split
    all_goals infer_instance

instance pathStep_placeless (trailer : PathTrailer) : Placeless (pathStep inner trailer) := by
  unfold pathStep arguments
  split <;> infer_instance

instance pathExpression_placeless : Placeless (pathExpression inner) := by
  have element : ∀ trailer, Placeless (pathElement inner trailer) := by
    intro trailer
    refine ⟨(keeps_of (node .pathElement (pathStep inner trailer))).bind fun below => ?_⟩
    exact pure_keeps (trailer, below)
  have steps : Placeless (many fun ahead => (trailerAhead? ahead).map (pathElement inner)) := by
    refine many_placeless ⟨fun ahead => by rw [trailerAhead?_placefree.same]⟩
      fun ahead item chosen => ?_
    obtain ⟨trailer, -, rfl⟩ := Option.map_eq_some_iff.mp chosen
    exact element trailer
  refine ⟨(keeps_of (primary inner)).bind fun first => steps.keeps.bind fun passed => ?_⟩
  -- What the path ends in is told by the last step, which is the same step without places.
  have last : (passed.map unplaced).getLast?.elim PathTrailer.bare Prod.fst =
      passed.getLast?.elim .bare Prod.fst := by
    rw [List.getLast?_map]
    cases passed.getLast? with
    | none => rfl
    | some step => rfl
  have inside : (passed.map unplaced).map Prod.snd = unplaced (passed.map Prod.snd) := by
    show _ = (passed.map Prod.snd).map unplaced
    rw [List.map_map, List.map_map]
    rfl
  show Keeps _
      (pure [Tree.node (.pathExpression ((passed.map unplaced).getLast?.elim .bare Prod.fst))
        (unplaced first ++ ((passed.map unplaced).map Prod.snd).flatten)])
  rw [last, inside, ← unplaced_flatten, ← unplaced_append, ← unplaced_node]
  exact pure_keeps _

instance postfixExpression_placeless : Placeless (postfixExpression inner) := by
  unfold postfixExpression
  infer_instance

instance expressionOver_placeless : Placeless (expressionOver inner) := by
  refine ⟨(keeps_of (postfixExpression inner)).bind fun left => .lookingAhead fun ahead => ?_⟩
  rw [(startsWith_placefree _).same]
  split
  · exact (((pure_keeps left).append (keeps_of (token .assign))).append
      (keeps_of inner.expression)).node _
  · exact (pure_keeps left).node _

instance commandExpression_placeless : Placeless (commandExpression inner) := by
  have tail : ∀ expression : List Tree, Placeless (commandArguments inner expression) := by
    intro expression
    have noted : Placeless (do
        note .commandArguments (expression.any endsInCall)
        if expression.any endsInCall then nothing else argumentList inner) := by
      refine ⟨(keeps_of (note .commandArguments _)).bind fun _ => ?_⟩
      exact keeps_of _
    exact when_placeless _ _
  have body : Placeless (do
      let expression ← expressionOver inner
      let rest ← commandArguments inner expression
      return expression ++ rest) := by
    refine ⟨(keeps_of (expressionOver inner)).bind fun expression => ?_⟩
    have same : commandArguments inner (unplaced expression) =
        commandArguments inner expression := by
      have any : (unplaced expression).any endsInCall = expression.any endsInCall := by
        show (expression.map unplaced).any endsInCall = _
        rw [List.any_map]
        exact congrArg (expression.any ·) (funext endsInCall_unplaced)
      unfold commandArguments
      rw [any]
    rw [same]
    refine (tail expression).keeps.bind fun rest => ?_
    rw [← unplaced_append]
    exact pure_keeps _
  exact node_placeless _ _

instance methodDeclaration_placeless : Placeless (methodDeclaration inner) := by
  have name : Placeless methodName := by
    refine lookingAhead_placeless ⟨fun ahead => ?_⟩ inferInstance
    rw [(startsWith_placefree _).same]
  unfold methodDeclaration
  infer_instance

instance variableDeclarator_placeless : Placeless (variableDeclarator inner) := by
  unfold variableDeclarator
  infer_instance

instance localVariableDeclaration_placeless : Placeless (localVariableDeclaration inner) := by
  unfold localVariableDeclaration
  infer_instance

instance plainStatement_placeless : Placeless (plainStatement inner) where
  keeps := by
    refine (keeps_of methodAhead).bind fun method => ?_
    cases method with
    | true => exact keeps_of (node .methodDeclarationStatement (methodDeclaration inner))
    | false =>
      refine (keeps_of variableAhead).bind fun declared => ?_
      cases declared with
      | true =>
        exact keeps_of (node .localVariableDeclarationStatement (localVariableDeclaration inner))
      | false =>
        exact keeps_of (node .expressionStatement
          (node .commandAlternative (commandExpression inner)))

instance statement_placeless : Placeless (statement inner) := by
  have returned : Placeless (returnStatement inner) := by
    unfold returnStatement
    infer_instance
  refine lookingAhead_placeless ⟨fun ahead => ?_⟩ inferInstance
  rw [(startsWith_placefree _).same, (startsWith_placefree _).same]

instance statements_placeless (stop : TokenKind) : Placeless (statements inner stop) := by
  unfold statements
  infer_instance

end

theorem innerWithin_placeless (bound : Nat) :
    Placeless (innerWithin bound).expression ∧ Placeless (innerWithin bound).body := by
  induction bound with
  | zero => exact ⟨refuse_placeless _, refuse_placeless _⟩
  | succ bound ih =>
    obtain ⟨expression, body⟩ := ih
    exact ⟨expressionOver_placeless _, statements_placeless _ _⟩

instance compilationUnit_placeless : Placeless compilationUnit := by
  have head : Placeless packageHead := by
    have tail :
        Placeless (lookingAhead fun ahead =>
          if startsWith .endOfInput ahead then nothing else separatorsAfter) := by
      refine lookingAhead_placeless ⟨fun ahead => ?_⟩ inferInstance
      rw [(startsWith_placefree _).same]
    unfold packageHead
    infer_instance
  refine lookingAhead_placeless ⟨fun ahead => ?_⟩ fun ahead => ?_
  · rw [length_unplaced]
  · obtain ⟨expression, body⟩ := innerWithin_placeless (ahead.length + 1)
    unfold compilationUnitOver
    infer_instance

end Grammar

/-! ## Trees of tokens -/

theorem TokenStream.ofTokens_append_end (body : List Token) {last : Token}
    (ended : last.kind = .endOfInput) : ofTokens (body ++ [last]) = ⟨body, last, 0, ended⟩ := by
  simp [ofTokens, ended]

theorem ofTokens_unplaced (body : List Token) {last : Token} (ended : last.kind = .endOfInput) :
    Reading.ofTokens (unplaced (body ++ [last])) =
      unplaced (Reading.ofTokens (body ++ [last])) := by
  have moved : (unplaced last).kind = .endOfInput := ended
  have single : unplaced [last] = [unplaced last] := rfl
  rw [unplaced_append, single, Reading.ofTokens, Reading.ofTokens,
    TokenStream.ofTokens_append_end _ moved, TokenStream.ofTokens_append_end _ ended]
  rfl

theorem filterMap_unplaced (forest : List Tree) :
    (unplaced forest).filterMap Tree.node? = (forest.filterMap Tree.node?).map Node.unplaced := by
  induction forest with
  | nil => rfl
  | cons tree forest ih =>
    show (unplaced tree :: unplaced forest).filterMap Tree.node? = _
    cases tree with
    | node kind children =>
      rw [unplaced_node, List.filterMap_cons, List.filterMap_cons, ih]
      rfl
    | token leaf => exact ih

theorem parseTokens_unplaced (body : List Token) {last : Token} (ended : last.kind = .endOfInput) :
    parseTokens (unplaced (body ++ [last])) =
      ((parseTokens (body ++ [last])).map Node.unplaced).mapError unplaced := by
  have keeps := Rule.keeps_of Grammar.compilationUnit (Reading.ofTokens (body ++ [last]))
  unfold parseTokens readTokens
  rw [ofTokens_unplaced body ended, keeps]
  cases Grammar.compilationUnit (Reading.ofTokens (body ++ [last])) with
  | error error reading => rfl
  | ok trees reading =>
    rw [unplaced_ok]
    dsimp only
    rw [filterMap_unplaced]
    cases trees.filterMap Tree.node? with
    | nil => rfl
    | cons unit others => rfl

/-- Tokens of the same spellings have the same tree up to places. -/
theorem parseTokens_of_spellings {body others : List Token} {last : Token} {unit : Node}
    (ended : last.kind = .endOfInput) (success : parseTokens (body ++ [last]) = .ok unit)
    (spelled : others.map Token.spelling = (body ++ [last]).map Token.spelling) :
    ∃ again, parseTokens others = .ok again ∧ again.unplaced = unit.unplaced := by
  have first := parseTokens_unplaced body ended
  rw [← unplaced_eq_of_spellings spelled, success] at first
  rw [List.map_append, List.map_singleton] at spelled
  obtain ⟨front, back, rfl, same, sameLast⟩ := List.map_eq_append_iff.mp spelled
  obtain ⟨final, rfl, finalSame⟩ := List.map_eq_singleton_iff.mp sameLast
  have finalKind : final.kind = .endOfInput := (congrArg Prod.fst finalSame).trans ended
  have second := parseTokens_unplaced front finalKind
  rw [first] at second
  cases result : parseTokens (front ++ [final]) with
  | error error =>
    rw [result] at second
    cases second
  | ok again =>
    rw [result] at second
    exact ⟨again, rfl, (Except.ok.inj second).symm⟩

end GroovyTidy
