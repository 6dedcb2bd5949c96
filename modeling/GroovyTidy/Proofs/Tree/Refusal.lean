import GroovyTidy.Proofs.Token.Truncated
import GroovyTidy.Tree.Parse

set_option autoImplicit false

/-!
Where the grammar refuses tokens. A rule moves on over tokens and never goes back, and if it fails,
it refuses the token that it stands before. So the error for a list of tokens is at one of them.
-/
namespace GroovyTidy

open Lookahead Text

namespace TokenStream

theorem next_mem_remaining (stream : TokenStream) : stream.next ∈ stream.remaining := by
  unfold next remaining
  cases stream.pending with
  | nil => simp
  | cons token rest => simp

theorem remaining_advance (stream : TokenStream) :
    stream.advance.remaining <:+ stream.remaining := by
  by_cases ended : stream.pending = []
  · simp [advance, ended]
  · rw [stream.remaining_eq_next_cons ended]
    exact List.suffix_cons _ _

theorem remaining_ofTokens (body : List Token) {last : Token} (ended : last.kind = .endOfInput) :
    (ofTokens (body ++ [last])).remaining = body ++ [last] := by
  simp [ofTokens, remaining, ended]

end TokenStream

namespace Rule

/-- What came of a parser: it moved on, and if it failed, it refused the token that it stands
before. -/
inductive Steps {α : Type} (before : Reading) : EStateM.Result SyntaxError Reading α → Prop where
  | ok {value : α} {after : Reading} (moved : after.stream.remaining <:+ before.stream.remaining) :
      Steps before (.ok value after)
  | error {after : Reading} (wanted : Wanted)
      (moved : after.stream.remaining <:+ before.stream.remaining) :
      Steps before (.error (.atToken wanted after.stream.next) after)

/-- The parser moves on over tokens, and it refuses only the token that it stands before. -/
class Steady {α : Type} (parser : Parser α) : Prop where
  steps : ∀ before, Steps before (parser before)

/-! ## Parsers made from others -/

section

variable {α β : Type}

theorem steps_of (parser : Parser α) [steady : Steady parser] (before : Reading) :
    Steps before (parser before) :=
  steady.steps before

theorem Steps.trans {before middle : Reading} {result : EStateM.Result SyntaxError Reading α}
    (moved : middle.stream.remaining <:+ before.stream.remaining) (steps : Steps middle result) :
    Steps before result := by
  cases steps with
  | ok later => exact .ok (later.trans moved)
  | error wanted later => exact .error wanted (later.trans moved)

instance pure_steady (value : α) : Steady (pure value : Parser α) where
  steps _ := .ok (List.suffix_refl _)

instance get_steady : Steady (get : Parser Reading) where
  steps _ := .ok (List.suffix_refl _)

instance note_steady (question : Question) (ruledOut : Bool) : Steady (note question ruledOut) where
  steps _ := .ok (List.suffix_refl _)

instance refuse_steady (wanted : Wanted) : Steady (refuse wanted : Parser α) where
  steps _ := .error wanted (List.suffix_refl _)

instance accept_steady (test : TokenKind → Bool) (wanted : Wanted) :
    Steady (accept test wanted) where
  steps before := by
    unfold accept
    split
    · exact .ok before.stream.remaining_advance
    · exact (refuse_steady wanted).steps before

instance token_steady (kind : TokenKind) : Steady (token kind) :=
  accept_steady _ _

theorem Steps.bind {start before : Reading} {first : Parser α} (steps : Steps start (first before))
    (next : α → Parser β) [∀ value, Steady (next value)] :
    Steps start ((first >>= next) before) := by
  change Steps start (EStateM.bind first next before)
  unfold EStateM.bind
  generalize first before = result at steps
  cases steps with
  | ok moved => exact (steps_of (next _) _).trans moved
  | error wanted moved => exact .error wanted moved

instance bind_steady (first : Parser α) (next : α → Parser β) [Steady first]
    [∀ value, Steady (next value)] : Steady (first >>= next) where
  steps before := (steps_of first before).bind next

instance map_steady (f : α → β) (parser : Parser α) [Steady parser] : Steady (f <$> parser) := by
  rw [map_eq_pure_bind]
  infer_instance

instance ite_steady (condition : Prop) [Decidable condition] (yes no : Parser α) [Steady yes]
    [Steady no] : Steady (if condition then yes else no) := by
  split <;> assumption

instance lookingAhead_steady (choose : List Token → Parser α) [∀ ahead, Steady (choose ahead)] :
    Steady (lookingAhead choose) where
  steps before := steps_of (choose before.ahead) before

end

section

variable (front back rule : Rule) [Steady front] [Steady back] [Steady rule]

instance nothing_steady : Steady nothing :=
  pure_steady []

instance append_steady : Steady (front ++ back) := by
  change Steady (sequence front back)
  unfold sequence
  infer_instance

instance node_steady (kind : NodeKind) : Steady (node kind rule) := by
  unfold node
  infer_instance

instance when_steady (test : List Token → Bool) : Steady (Rule.when test rule) := by
  unfold Rule.when
  infer_instance

end

theorem repeatWithin_steady {α : Type} {choose : List Token → Option (Parser α)}
    (each : ∀ ahead, ∀ item ∈ choose ahead, Steady item) (bound : Nat) :
    Steady (repeatWithin choose bound) := by
  induction bound with
  | zero => exact pure_steady []
  | succ bound ih =>
    refine ⟨fun before => ?_⟩
    unfold repeatWithin
    split
    · exact .ok (List.suffix_refl _)
    · rename_i item chosen
      have first := (each _ item chosen).steps before
      generalize item before = result at first
      cases first with
      | error wanted moved => exact .error wanted moved
      | @ok value middle moved =>
        have rest := ih.steps middle
        dsimp only
        generalize repeatWithin choose bound middle = more at rest
        cases rest with
        | error wanted later => exact .error wanted (later.trans moved)
        | ok later => exact .ok (later.trans moved)

theorem many_steady {α : Type} {choose : List Token → Option (Parser α)}
    (each : ∀ ahead, ∀ item ∈ choose ahead, Steady item) : Steady (many choose) :=
  have := repeatWithin_steady each
  lookingAhead_steady _

instance manyWhile_steady (test : List Token → Bool) (rule : Rule) [Steady rule] :
    Steady (manyWhile test rule) := by
  have : Steady (many fun ahead => if test ahead then some rule else none) := by
    refine many_steady fun ahead item chosen => ?_
    split at chosen
    · cases chosen
      assumption
    · cases chosen
  exact map_steady _ _

instance commaSeparated_steady (item : Rule) [Steady item] : Steady (commaSeparated item) := by
  unfold commaSeparated
  infer_instance

end Rule

/-! ## The grammar -/

namespace Grammar

open Rule

instance separators_steady : Steady separators := by
  unfold separators
  infer_instance

instance separatorsAfter_steady : Steady separatorsAfter := by
  unfold separatorsAfter
  infer_instance

instance identifier_steady : Steady identifier := by
  unfold identifier identifierToken
  infer_instance

instance qualifiedName_steady : Steady qualifiedName := by
  unfold qualifiedName
  infer_instance

instance packageDeclaration_steady : Steady packageDeclaration := by
  unfold packageDeclaration
  infer_instance

instance importDeclaration_steady : Steady importDeclaration := by
  unfold importDeclaration importTail
  infer_instance

instance modifiers_steady : Steady modifiers := by
  unfold modifiers
  infer_instance

instance namedType_steady (type : Rule) [Steady type] : Steady (namedType type) := by
  unfold namedType identifierToken typeArguments
  infer_instance

instance typeWithin_steady (bound : Nat) : Steady (typeWithin bound) := by
  induction bound with
  | zero => exact refuse_steady _
  | succ bound ih =>
    unfold typeWithin
    exact node_steady _ _

instance type_steady : Steady type := by
  unfold type
  infer_instance

section

variable (inner : Inner) [Steady inner.expression] [Steady inner.body]

instance formalParameter_steady : Steady (formalParameter inner) := by
  unfold formalParameter
  infer_instance

instance formalParameters_steady : Steady (formalParameters inner) := by
  unfold formalParameters
  infer_instance

instance block_steady : Steady (block inner) := by
  unfold block optionalBody
  infer_instance

instance closure_steady : Steady (closure inner) := by
  unfold closure closureParameters optionalBody
  infer_instance

instance argumentList_steady : Steady (argumentList inner) := by
  unfold argumentList
  infer_instance

instance expressionList_steady : Steady (expressionList inner) := by
  unfold expressionList
  infer_instance

instance primary_steady : Steady (primary inner) := by
  unfold primary literal listPrimary
  refine @lookingAhead_steady _ _ fun ahead => ?_
  dsimp only
  split
  · infer_instance
  · split
    · infer_instance
    · split <;> infer_instance

instance pathStep_steady (trailer : PathTrailer) : Steady (pathStep inner trailer) := by
  unfold pathStep arguments
  split <;> infer_instance

instance pathExpression_steady : Steady (pathExpression inner) := by
  have steps : Steady (many fun ahead => (trailerAhead? ahead).map (pathElement inner)) := by
    refine many_steady fun ahead item chosen => ?_
    obtain ⟨trailer, -, rfl⟩ := Option.map_eq_some_iff.mp chosen
    unfold pathElement
    infer_instance
  unfold pathExpression
  infer_instance

instance postfixExpression_steady : Steady (postfixExpression inner) := by
  unfold postfixExpression
  infer_instance

instance expressionOver_steady : Steady (expressionOver inner) := by
  unfold expressionOver
  infer_instance

instance commandExpression_steady : Steady (commandExpression inner) := by
  unfold commandExpression commandArguments
  infer_instance

instance methodDeclaration_steady : Steady (methodDeclaration inner) := by
  unfold methodDeclaration methodName
  infer_instance

instance variableDeclarator_steady : Steady (variableDeclarator inner) := by
  unfold variableDeclarator
  infer_instance

instance localVariableDeclaration_steady : Steady (localVariableDeclaration inner) := by
  unfold localVariableDeclaration
  infer_instance

instance plainStatement_steady : Steady (plainStatement inner) := by
  have first : Steady methodAhead := by
    unfold methodAhead
    infer_instance
  have second : Steady variableAhead := by
    unfold variableAhead
    infer_instance
  unfold plainStatement
  infer_instance

instance statement_steady : Steady (statement inner) := by
  unfold statement returnStatement
  infer_instance

instance statements_steady (stop : TokenKind) : Steady (statements inner stop) := by
  unfold statements
  infer_instance

end

theorem innerWithin_steady (bound : Nat) :
    Steady (innerWithin bound).expression ∧ Steady (innerWithin bound).body := by
  induction bound with
  | zero => exact ⟨refuse_steady _, refuse_steady _⟩
  | succ bound ih =>
    obtain ⟨expression, body⟩ := ih
    exact ⟨expressionOver_steady _, statements_steady _ _⟩

instance compilationUnit_steady : Steady compilationUnit := by
  refine @lookingAhead_steady _ _ fun ahead => ?_
  obtain ⟨expression, body⟩ := innerWithin_steady (ahead.length + 1)
  unfold compilationUnitOver packageHead
  infer_instance

end Grammar

/-- A list of tokens is refused at one of those that are read. -/
theorem parseTokens_eq_error {tokens : List Token} {error : SyntaxError}
    (refused : parseTokens tokens = .error error) :
    ∃ wanted, ∃ token ∈ (TokenStream.ofTokens tokens).remaining, error = .atToken wanted token := by
  have steps := Rule.steps_of Grammar.compilationUnit (.ofTokens tokens)
  unfold parseTokens readTokens at refused
  generalize Grammar.compilationUnit (.ofTokens tokens) = result at steps refused
  cases steps with
  | ok moved => cases refused
  | @error after wanted moved =>
    cases refused
    exact ⟨wanted, _, moved.subset after.stream.next_mem_remaining, rfl⟩

/-! ## Sources -/

/-- Each token knows the line and the column of its start. -/
theorem tokensFrom_located {index : LineIndex} {offset : Nat} {opened : List Delimiter}
    {skipped : Nat} {text : List Char} {tokens : List Token}
    (success : tokensFrom index offset opened skipped text = .ok tokens) :
    ∀ token ∈ tokens, index.locate token.span.start = ⟨token.line, token.column⟩ := by
  fun_induction tokensFrom index offset opened skipped text generalizing tokens with
  | case1 offset opened skipped =>
    cases success
    exact List.forall_mem_singleton.mpr rfl
  | case2 offset opened skipped c rest ih => exact ih success
  | case3 => cases success
  | case4 offset opened c rest length found ih => exact ih success
  | case5 => cases success
  | case6 offset opened c rest kind length found token tokens more =>
    rename_i ih
    cases success
    exact List.forall_mem_cons.mpr ⟨rfl, ih more⟩

/-- An error of a source is at the place it names, which divides the source. If there are tokens, it
is at the start of one of them, which it refuses. If there are none, what stands before it has
tokens, and no lexeme starts there. -/
structure SyntaxError.Located (source : String) (error : SyntaxError) (before after : String) :
    Prop where
  divided : source = before ++ after
  offset : error.offset = before.utf8ByteSize
  position : (LineIndex.ofText source.toList).locate error.offset = ⟨error.line, error.column⟩
  token : ∀ tokens, tokenize source = .ok tokens →
    ∃ token ∈ tokens, error.offset = token.span.start ∧
      ∃ wanted, error.problem = .unexpectedToken wanted token
  lexeme : ∀ other, tokenize source = .error other →
    other = error ∧ (∃ tokens, tokenize before = .ok tokens) ∧
      ∃ c rest, after.toList = c :: rest ∧
        ∀ ends, Lexeme.leading (error.offset == 0) ends c rest = .error error.problem

theorem located_of_scanner {source : String} {error : SyntaxError}
    (refused : tokenize source = .error error) :
    ∃ before after, error.Located source before after := by
  obtain ⟨front, c, rest, problem, shape, -, placed, read, stopped⟩ := tokensFrom_eq_error refused
  rw [Nat.zero_add] at placed stopped
  subst placed
  refine ⟨String.ofList front, String.ofList (c :: rest), ?_, ?_, rfl, ?_, ?_⟩
  · rw [← String.ofList_append, ← shape, String.ofList_toList]
  · rw [utf8ByteSize_eq, String.toList_ofList]
    rfl
  · intro tokens success
    rw [refused] at success
    cases success
  · intro other failed
    rw [refused] at failed
    cases failed
    obtain ⟨spellings, known⟩ := Option.isSome_iff_exists.mp read
    have front : spellingsFrom true [] 0 (String.ofList front).toList = some spellings := by
      rw [String.toList_ofList]
      exact known
    obtain ⟨tokens, success, -⟩ := tokenize_of_spellingsFrom front
    exact ⟨rfl, ⟨tokens, success⟩, c, rest, String.toList_ofList, stopped⟩

theorem located_of_grammar {source : String} {tokens : List Token} {error : SyntaxError}
    (success : tokenize source = .ok tokens) (refused : parseTokens tokens = .error error) :
    ∃ before after, error.Located source before after := by
  have tiled : Tiled 0 [] source.toList tokens := tokensFrom_tiled success
  obtain ⟨wanted, token, member, rfl⟩ := parseTokens_eq_error refused
  obtain ⟨body, last, rfl, ended, -, -⟩ := tiled.ends
  rw [TokenStream.remaining_ofTokens body ended] at member
  obtain ⟨front, back, split⟩ := List.append_of_mem member
  obtain ⟨passed, gap, rest, shape, -, tile⟩ := tiled.tile split
  have start : token.span.start = byteLength (passed ++ gap) := by
    rw [tile.placed, Nat.zero_add, byteLength_append]
  refine ⟨String.ofList (passed ++ gap), String.ofList (token.text.toList ++ rest), ?_,
    ?_, ?_, ?_, ?_⟩
  · rw [← String.ofList_append, ← List.append_assoc, ← shape, String.ofList_toList]
  · rw [utf8ByteSize_eq, String.toList_ofList]
    exact start
  · exact tokensFrom_located success token member
  · intro others again
    rw [success] at again
    cases again
    exact ⟨token, member, rfl, wanted, rfl⟩
  · intro other failed
    rw [success] at failed
    cases failed

/-- Every error of a source is where it says. -/
theorem parse_error_located {source : String} {error : SyntaxError}
    (refused : parse source = .error error) :
    ∃ before after, error.Located source before after := by
  unfold parse at refused
  cases scanned : tokenize source with
  | error other =>
    rw [scanned] at refused
    cases refused
    exact located_of_scanner scanned
  | ok tokens =>
    rw [scanned] at refused
    exact located_of_grammar scanned refused

/-- A literal without an end on the second line, after a character of two bytes, and a parenthesis
without one. -/
theorem parse_error_located_of_unended :
    (∃ before after,
      SyntaxError.Located "f '\u00e9'\n  \"a" ⟨.unterminatedString, 9, 2, 3⟩ before after) ∧
      ∃ before after, SyntaxError.Located "f(\n"
        ⟨.unexpectedToken .expression (.place .endOfInput "" 3 2 1), 3, 2, 1⟩ before after :=
  ⟨parse_error_located rfl, parse_error_located rfl⟩

end GroovyTidy
