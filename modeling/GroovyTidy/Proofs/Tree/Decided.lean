import GroovyTidy.Proofs.Tree.Coverage

set_option autoImplicit false

/-!
Commands against declarations. Two names in a row, with a comma or the end of the statement after
them, could declare a variable; they are read as a command only if the first of them does not start
with a capital.
-/
namespace GroovyTidy

open Lookahead Production Rule

namespace Lookahead

/-- Two names in a row declare a variable if what follows may end its name. -/
theorem declaresVariable_names {first second : Token} (name : first.kind.isIdentifier = true)
    (named : second.kind.isIdentifier = true) {rest : List Token}
    (ends : endsDeclaratorName (kindAt rest 0) = true) :
    declaresVariable (first :: second :: rest) = true := by
  have plain : extendsType second.kind = false :=
    TokenKind.eq_false_of_simple (Bool.or_eq_true_iff.mpr (.inl named)) _ rfl rfl fun _ => rfl
  have typed : afterType? (first :: second :: rest) = some (second :: rest) :=
    afterType?_name name plain
  have declares : startsDeclarator (second :: rest) = true := by
    simp only [startsDeclarator, startsPair, Bool.and_eq_true]
    exact ⟨named, ends⟩
  have modifiers := skipModifiers_simple (Bool.or_eq_true_iff.mpr (.inl name)) (second :: rest)
  simp only [declaresVariable, modifiers, startsTyped, typed, Option.any_some, declares,
    Bool.true_or]

end Lookahead

/-- Two names at the start, with a comma or nothing after them, are no declaration because of the
case of the first letter. -/
def Undeclared (spellings : List Spelling) : Prop :=
  ∀ first second rest, spellings = first :: second :: rest → first.1.isIdentifier = true →
    second.1.isIdentifier = true → (∀ third ∈ rest.head?, third.1 = .comma) →
    first.2.toList.head?.any Text.isOwnLowerCase = true

/-- Statements of which those that are commands were not read as declarations for a reason. -/
def Production.decided : Language Tree :=
  {forest | forest ∈ statement ∧
    ∀ children, forest = [.node .expressionStatement children] →
      Undeclared ((Tree.forestTokens forest).map Token.spelling)}

namespace Grammar

theorem endsDeclaratorName_of_boundary {stop : TokenKind} (ends : endsDeclaratorName stop = true)
    {ahead : List Token} (boundary : endsStatement stop ahead = true) :
    endsDeclaratorName (kindAt ahead 0) = true := by
  simp only [endsStatement, starts, Bool.or_eq_true, beq_iff_eq] at boundary
  rcases boundary with separates | same
  · rcases isSeparator_cases separates with found | found
    · rw [found]
      rfl
    · rw [found]
      rfl
  · rwa [same]

theorem plainStatement_undeclared {inner : Inner} (sound : inner.Sound) {stop : TokenKind}
    (ends : endsDeclaratorName stop = true) {before after : Reading} {children : List Tree}
    (success : plainStatement inner before = .ok [.node .expressionStatement children] after)
    (boundary : endsStatement stop after.ahead = true) :
    Undeclared ((Tree.forestTokens [.node .expressionStatement children]).map Token.spelling) := by
  have accounted := plainStatement_yields sound _ _ _ success
  rintro _ _ _ spelled name named comma
  obtain ⟨first, _, shape, rfl, spelledRest⟩ := List.map_eq_cons_iff.mp spelled
  obtain ⟨second, rest, rfl, rfl, rfl⟩ := List.map_eq_cons_iff.mp spelledRest
  have ahead : before.ahead = first :: second :: (rest ++ after.ahead) := by
    rw [accounted.consumes.ahead, shape]
    rfl
  -- The tokens ahead could declare a variable, so only the case of the letter can have spoken
  -- against it.
  have declares : declaresVariable before.ahead = true := by
    rw [ahead]
    refine declaresVariable_names name named ?_
    cases rest with
    | nil => exact endsDeclaratorName_of_boundary ends boundary
    | cons third others =>
      have separated : kindAt (third :: others ++ after.ahead) 0 = .comma :=
        comma third.spelling rfl
      rw [separated]
      rfl
  obtain ⟨asked, same, eq⟩ := plainStatement_eq inner before
  rw [eq] at success
  split at success
  · obtain ⟨below, -, shape⟩ := node_eq_ok.mp success
    cases shape
  · split at success
    · obtain ⟨below, -, shape⟩ := node_eq_ok.mp success
      cases shape
    · rename_i undeclared
      simp only [declares, Bool.and_true, Bool.not_eq_true, Bool.not_eq_false'] at undeclared
      have next : before.stream.next = first := by
        rw [TokenStream.next, show before.stream.pending = _ from ahead]
        rfl
      simp only [readsAsCommand, Bool.and_eq_true, next] at undeclared
      exact undeclared.1.1.2

/-- Commands of a list of statements were not read as declarations for a reason. -/
theorem statement_decided {inner : Inner} (sound : inner.Sound) {stop : TokenKind}
    (ends : endsDeclaratorName stop = true) {before after : Reading} {forest : List Tree}
    (success : Grammar.statement inner before = .ok forest after)
    (boundary : endsStatement stop after.ahead = true) : Accounts decided before forest after := by
  have accounted := statement_yields sound _ _ _ success
  refine ⟨accounted.consumes, ⟨accounted.word, ?_⟩, accounted.conforms⟩
  rintro children rfl
  unfold Grammar.statement at success
  simp only [lookingAhead] at success
  split at success
  · obtain ⟨below, -, shape⟩ := node_eq_ok.mp success
    cases shape
  · split at success
    · obtain ⟨below, -, shape⟩ := node_eq_ok.mp success
      cases shape
    · exact plainStatement_undeclared sound ends success boundary

theorem statements_decided (bound : Nat) :
    Yields (statements (innerWithin bound) .endOfInput) (statementsOf decided) := by
  intro before forest after success
  have sound := innerWithin_sound bound
  obtain ⟨children, rfl, accounted, -⟩ :=
    statements_accounts sound (statement_decided sound rfl) success
  have plain := statements_yields sound .endOfInput _ _ _ success
  exact ⟨plain.consumes, ⟨children, accounted.word, rfl⟩, plain.conforms⟩

end Grammar

end GroovyTidy
