import GroovyTidy.Proofs.Tree.Lockstep
import Mathlib.Data.Nat.PSub

set_option autoImplicit false

/-!
Tokens by their indices. A stream can be kept as all of its tokens and the index of the next one. To
look ahead is then an operation that can fail, as is to take a count of parentheses down. At no
place in a stream does looking ahead fail, and neither does looking for a method, which counts
parentheses only from an opening one on.
-/
namespace GroovyTidy

open Lookahead

/-- The tokens of a stream and the index of the next one. -/
structure TokenVector where
  tokens : List Token
  cursor : Nat
  deriving DecidableEq, Repr

namespace TokenVector

/-- The tokens of a list, which get an end of input if the last of them is none. -/
def ofTokens (tokens : List Token) : TokenVector where
  tokens :=
    if tokens.getLast?.map Token.kind = some .endOfInput then tokens
    else tokens ++ [endAfter tokens.getLast?]
  cursor := 0

/-- The token that stands `k` tokens ahead, counted from one. Past the last token the last one is
looked up. -/
def lookAhead? (vector : TokenVector) (k : Nat) : Option Token :=
  vector.tokens.length.ppred.bind fun last => vector.tokens[min (vector.cursor + (k - 1)) last]?

/-- The next token becomes the one after it, unless it is the last one. -/
def consume (vector : TokenVector) : TokenVector :=
  if vector.cursor + 1 < vector.tokens.length then { vector with cursor := vector.cursor + 1 }
  else vector

def consumeBy (vector : TokenVector) : Nat → TokenVector
  | 0 => vector
  | n + 1 => vector.consume.consumeBy n

def kindAt? (vector : TokenVector) (k : Nat) : Option TokenKind :=
  (vector.lookAhead? k).map Token.kind

/-- How far ahead the first token stands that is no modifier. A loop that leaves the vector would be
a failure. -/
def skipModifiers? (vector : TokenVector) (k : Nat) : Option Nat :=
  match vector.kindAt? k with
  | none => none
  | some kind =>
    if kind.isModifier then
      if vector.cursor + k < vector.tokens.length then vector.skipModifiers? (k + 1) else none
    else some k
termination_by vector.tokens.length - (vector.cursor + k)

/-- How far ahead the token after a type stands, if a type is there. That takes nothing but kinds of
tokens ahead. -/
def afterType? (vector : TokenVector) (k : Nat) : Option Nat :=
  let ahead := (vector.tokens.drop vector.cursor).dropLast
  (Lookahead.afterType? (ahead.drop (k - 1))).map fun rest => ahead.length - rest.length + 1

/-- A name of a method and an opening parenthesis stand so far ahead. -/
def startsMethodHead? (vector : TokenVector) (k : Nat) : Option Bool :=
  (vector.kindAt? k).bind fun name => (vector.kindAt? (k + 1)).map fun next => isMethodName name &&
    next == .opening .paren

/-- The parentheses of which so many are open are closed, and an opening brace follows them. -/
def startsMethodBody? (vector : TokenVector) (depth k : Nat) : Option Bool :=
  match vector.kindAt? k with
  | none => none
  | some kind =>
    if kind = .endOfInput then some false
    else if vector.cursor + k < vector.tokens.length then
      if kind = .opening .paren then vector.startsMethodBody? (depth + 1) (k + 1)
      else if kind = .closing .paren then
        match depth.ppred with
        | none => none
        | some 0 => (vector.kindAt? (k + 1)).map (· == .opening .brace)
        | some (depth + 1) => vector.startsMethodBody? (depth + 1) (k + 1)
      else vector.startsMethodBody? depth (k + 1)
    else none
termination_by vector.tokens.length - (vector.cursor + k)

/-- Modifiers, a type or at least one of the two, a name, parameters and an opening brace are
ahead. -/
def declaresMethod? (vector : TokenVector) : Option Bool :=
  (vector.skipModifiers? 1).bind fun start =>
    (start.psub 1).bind fun modifiers =>
      let named (k : Nat) (otherwise : Option Bool) : Option Bool :=
        (vector.startsMethodHead? k).bind fun heads =>
          if heads then vector.startsMethodBody? 0 (k + 1) else otherwise
      let untyped := if 0 < modifiers then named start (some false) else some false
      (vector.afterType? start).elim untyped fun after => named after untyped

/-! ## Streams -/

/-- The vector holds what is left of a stream after some tokens. -/
def Holds (vector : TokenVector) (stream : TokenStream) : Prop :=
  ∃ consumed, vector.tokens = consumed ++ stream.remaining ∧ vector.cursor = consumed.length

theorem holds_ofTokens (tokens : List Token) : Holds (ofTokens tokens) (.ofTokens tokens) := by
  refine ⟨[], ?_, rfl⟩
  rw [List.nil_append, ofTokens, TokenStream.ofTokens]
  cases ending : tokens.getLast? with
  | none => rfl
  | some last =>
    by_cases ended : last.kind = .endOfInput
    · have whole : tokens.dropLast ++ [last] = tokens := List.dropLast_append_getLast? last ending
      simp only [Option.map_some, ended, ↓reduceIte, ↓reduceDIte, TokenStream.remaining]
      exact whole.symm
    · simp only [Option.map_some, Option.some.injEq, ended, ↓reduceIte, ↓reduceDIte,
        TokenStream.remaining]

variable {vector : TokenVector} {stream : TokenStream}

/-- One token further the vector still holds the stream. -/
theorem Holds.consume (holds : Holds vector stream) : Holds vector.consume stream.advance := by
  obtain ⟨consumed, tokens, cursor⟩ := holds
  rw [TokenVector.consume, tokens, cursor, TokenStream.remaining, List.length_append,
    List.length_append]
  cases pending : stream.pending with
  | nil =>
    rw [if_neg (by simp)]
    exact ⟨consumed, by rw [tokens, TokenStream.advance, pending], cursor⟩
  | cons first rest =>
    rw [if_pos (by simp)]
    refine ⟨consumed ++ [first], ?_, by simp⟩
    simp [TokenStream.remaining, TokenStream.advance, pending]

theorem Holds.consumeBy (holds : Holds vector stream) (n : Nat) :
    Holds (vector.consumeBy n) (stream.advanceBy n) := by
  induction n generalizing vector stream with
  | zero => exact holds
  | succ n ih => exact ih holds.consume

/-- The index of a token ahead is in range. -/
theorem Holds.lookAhead? (holds : Holds vector stream) (k : Nat) :
    vector.lookAhead? k = some (stream.lookAhead k) := by
  obtain ⟨consumed, tokens, cursor⟩ := holds
  have length : vector.tokens.length = consumed.length + stream.pending.length + 1 := by
    rw [tokens, TokenStream.remaining, List.length_append, List.length_append,
      List.length_singleton, Nat.add_assoc]
  have index : min (consumed.length + (k - 1)) (consumed.length + stream.pending.length) =
      consumed.length + min (k - 1) stream.pending.length := by omega
  rw [TokenVector.lookAhead?, length, Nat.ppred, Option.bind_some, cursor, index, tokens,
    List.getElem?_append_right (Nat.le_add_right _ _), Nat.add_sub_cancel_left,
    TokenStream.remaining, TokenStream.lookAhead]
  by_cases inside : k - 1 < stream.pending.length
  · rw [Nat.min_eq_left (Nat.le_of_lt inside), List.getElem?_append_left inside,
      List.getElem?_eq_getElem inside]
    rfl
  · have outside := Nat.le_of_not_lt inside
    rw [Nat.min_eq_right outside, List.getElem?_concat_length, List.getElem?_eq_none outside]
    rfl

theorem Holds.kindAt? (holds : Holds vector stream) (index : Nat) :
    vector.kindAt? (index + 1) = some (kindAt stream.pending index) := by
  rw [TokenVector.kindAt?, holds.lookAhead?, Option.map_some, TokenStream.lookAhead,
    Nat.add_sub_cancel, Lookahead.kindAt]
  cases stream.pending[index]? with
  | none => exact congrArg some stream.final_kind
  | some token => rfl

/-! ## Methods -/

theorem Holds.ahead_eq (holds : Holds vector stream) :
    (vector.tokens.drop vector.cursor).dropLast = stream.pending := by
  obtain ⟨consumed, tokens, cursor⟩ := holds
  rw [tokens, cursor, List.drop_left, TokenStream.remaining, List.dropLast_concat]

/-- A token before the end of input is not the last one of the vector. -/
theorem Holds.cursor_add_lt (holds : Holds vector stream) {index : Nat}
    (inside : index < stream.pending.length) :
    vector.cursor + (index + 1) < vector.tokens.length := by
  obtain ⟨consumed, tokens, cursor⟩ := holds
  rw [tokens, cursor, TokenStream.remaining, List.length_append, List.length_append,
    List.length_singleton]
  omega

theorem kindAt_drop (ahead : List Token) (index more : Nat) :
    kindAt (ahead.drop index) more = kindAt ahead (index + more) := by
  rw [kindAt, kindAt, List.getElem?_drop]

/-- Tokens from an index on, one of which is there, go on at the next index. -/
theorem drop_next {ahead tokens : List Token} {token : Token} {index : Nat}
    (rest : ahead.drop index = token :: tokens) :
    ahead.length = index + (tokens.length + 1) ∧ ahead.drop (index + 1) = tokens := by
  have length : (ahead.drop index).length = tokens.length + 1 := by rw [rest, List.length_cons]
  rw [List.length_drop] at length
  constructor
  · omega
  · rw [← List.drop_drop, rest, List.drop_succ_cons, List.drop_zero]

/-- What stands at an index, by the tokens from there on. -/
theorem Holds.kindAt?_drop (holds : Holds vector stream) {index : Nat} {rest : List Token}
    (ahead : stream.pending.drop index = rest) :
    vector.kindAt? (index + 1) = some (kindAt rest 0) := by
  rw [holds.kindAt?, ← ahead, kindAt_drop, Nat.add_zero]

theorem Holds.skipModifiers? (holds : Holds vector stream) {index : Nat}
    (inside : index ≤ stream.pending.length) :
    vector.skipModifiers? (index + 1) =
      some (stream.pending.length - (skipModifiers (stream.pending.drop index)).length + 1) := by
  induction rest : stream.pending.drop index generalizing index with
  | nil =>
    have length := List.length_eq_zero_iff.mpr rest
    rw [List.length_drop] at length
    rw [TokenVector.skipModifiers?, holds.kindAt?_drop rest]
    refine congrArg some ?_
    simp only [skipModifiers, List.dropWhile_nil, List.length_nil]
    omega
  | cons token tokens ih =>
    obtain ⟨length, next⟩ := drop_next rest
    rw [TokenVector.skipModifiers?, holds.kindAt?_drop rest, skipModifiers, List.dropWhile_cons]
    dsimp only [kindAt, List.getElem?_cons_zero, Option.elim_some]
    by_cases modifier : token.kind.isModifier = true
    · rw [if_pos modifier, if_pos (holds.cursor_add_lt (by omega)), if_pos modifier]
      exact ih (by omega) next
    · rw [if_neg modifier, if_neg modifier, List.length_cons]
      refine congrArg some ?_
      omega

/-- From an opening parenthesis on no parenthesis is closed that is not open. -/
theorem Holds.startsMethodBody? (holds : Holds vector stream) {depth index : Nat}
    (opened : 0 < depth) :
    vector.startsMethodBody? depth (index + 1) =
      some ((afterParentheses? depth (stream.pending.drop index)).any
        (startsWith (.opening .brace))) := by
  induction rest : stream.pending.drop index generalizing index depth with
  | nil =>
    rw [TokenVector.startsMethodBody?, holds.kindAt?_drop rest]
    rfl
  | cons token tokens ih =>
    obtain ⟨length, next⟩ := drop_next rest
    rw [TokenVector.startsMethodBody?, holds.kindAt?_drop rest, afterParentheses?]
    dsimp only [kindAt, List.getElem?_cons_zero, Option.elim_some]
    rw [if_pos (holds.cursor_add_lt (by omega))]
    by_cases opening : token.kind = .opening .paren
    · rw [if_neg (by simp [opening]), if_pos opening, if_pos opening]
      exact ih (Nat.succ_pos depth) next
    rw [if_neg opening, if_neg opening]
    by_cases closing : token.kind = .closing .paren
    · rw [if_neg (by simp [closing]), if_pos closing, if_pos closing]
      match depth, opened with
      | 1, _ =>
        simp only [Nat.ppred, holds.kindAt?_drop next, Option.map_some]
        rfl
      | depth + 2, _ => exact ih (Nat.succ_pos depth) next
    rw [if_neg closing, if_neg closing]
    by_cases ended : token.kind = .endOfInput
    · rw [if_pos ended, if_pos ended]
      rfl
    · rw [if_neg ended, if_neg ended]
      exact ih opened next

theorem Holds.startsMethodHead? (holds : Holds vector stream) (index : Nat) :
    vector.startsMethodHead? (index + 1) = some (startsMethodHead (stream.pending.drop index)) := by
  rw [TokenVector.startsMethodHead?, holds.kindAt?, Option.bind_some, holds.kindAt?,
    Option.map_some, startsMethodHead, startsPair, kindAt_drop, kindAt_drop]
  simp only [Nat.add_zero]

/-- After a name and an opening parenthesis the count starts from none. -/
theorem Holds.startsMethodBody?_zero (holds : Holds vector stream) {index : Nat}
    (heads : startsMethodHead (stream.pending.drop index) = true) :
    vector.startsMethodBody? 0 (index + 1 + 1) =
      some (startsMethodBody ((stream.pending.drop index).drop 1)) := by
  have opening : kindAt (stream.pending.drop index) 1 = .opening .paren :=
    beq_iff_eq.mp (Bool.and_eq_true_iff.mp heads).2
  rw [List.drop_drop]
  rw [kindAt_drop] at opening
  cases rest : stream.pending.drop (index + 1) with
  | nil =>
    have ended : kindAt (stream.pending.drop (index + 1)) 0 = .endOfInput := by rw [rest]; rfl
    rw [kindAt_drop, Nat.add_zero, opening] at ended
    cases ended
  | cons token tokens =>
    obtain ⟨length, next⟩ := drop_next rest
    have first : kindAt (stream.pending.drop (index + 1)) 0 = token.kind := by rw [rest]; rfl
    rw [kindAt_drop, Nat.add_zero, opening] at first
    rw [TokenVector.startsMethodBody?, holds.kindAt?, opening, startsMethodBody, afterParentheses?,
      if_pos first.symm]
    dsimp only
    rw [if_neg (by simp), if_pos (holds.cursor_add_lt (by omega)), if_pos rfl,
      holds.startsMethodBody? Nat.one_pos, next]

/-- What a name and an opening parenthesis decide, wherever they may stand. -/
theorem Holds.named (holds : Holds vector stream) {tail : List Token}
    (suffix : tail <:+ stream.pending) (otherwise : Option Bool) :
    ((vector.startsMethodHead? (stream.pending.length - tail.length + 1)).bind fun heads =>
      if heads then vector.startsMethodBody? 0 (stream.pending.length - tail.length + 1 + 1)
      else otherwise) =
      if startsMethodHead tail then some (startsMethodBody (tail.drop 1)) else otherwise := by
  have shape := List.suffix_iff_eq_drop.mp suffix
  rw [holds.startsMethodHead?, Option.bind_some, ← shape]
  by_cases heads : startsMethodHead tail = true
  · rw [if_pos heads, if_pos heads]
    rw [shape] at heads
    rw [holds.startsMethodBody?_zero heads, ← shape]
  · rw [if_neg heads, if_neg heads]

/-- Whether a method is declared is found out at every place of a stream. -/
theorem Holds.declaresMethod? (holds : Holds vector stream) :
    vector.declaresMethod? = some (declaresMethod stream.pending) := by
  have modifiers := holds.skipModifiers? (Nat.zero_le _)
  rw [List.drop_zero, Nat.zero_add] at modifiers
  have suffix : skipModifiers stream.pending <:+ stream.pending := List.dropWhile_suffix _
  have rest := List.suffix_iff_eq_drop.mp suffix
  have counted : ∀ n : Nat, (n + 1).psub 1 = some n := fun _ => rfl
  rw [TokenVector.declaresMethod?, modifiers, Option.bind_some, counted, Option.bind_some,
    declaresMethod, TokenVector.afterType?, holds.ahead_eq, Nat.add_sub_cancel, ← rest]
  dsimp only
  rw [holds.named suffix]
  have untyped : (if 0 < stream.pending.length - (skipModifiers stream.pending).length then
      if startsMethodHead (skipModifiers stream.pending) then
        some (startsMethodBody ((skipModifiers stream.pending).drop 1))
      else some false
      else some false) =
      some (decide ((skipModifiers stream.pending).length < stream.pending.length) &&
        startsMethodHead (skipModifiers stream.pending) &&
        startsMethodBody ((skipModifiers stream.pending).drop 1)) := by
    simp only [Nat.sub_pos_iff_lt]
    by_cases modified : (skipModifiers stream.pending).length < stream.pending.length <;>
      by_cases heads : startsMethodHead (skipModifiers stream.pending) =
        true <;> simp [modified, heads]
  rw [untyped]
  cases typed : Lookahead.afterType? (skipModifiers stream.pending) with
  | none => rfl
  | some tail =>
    rw [Option.map_some, Option.elim_some, holds.named ((afterType?_shrinks typed).1.trans suffix),
      Option.filter_some]
    by_cases heads : startsMethodHead tail = true
    · rw [if_pos heads, if_pos heads]
    · rw [if_neg heads, if_neg heads]

end TokenVector

end GroovyTidy
