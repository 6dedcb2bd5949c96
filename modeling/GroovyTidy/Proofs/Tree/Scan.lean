import GroovyTidy.Proofs.Tree.Alike
import GroovyTidy.Proofs.Tree.Commitment

set_option autoImplicit false

/-!
Looking ahead by index. Tokens ahead can be asked for one at a time, by how far ahead they stand.
Past the last of them the end of input is seen for ever, so a loop that asks for the next token and
the next has no end by itself. Here each loop is given a number of steps and fails when they are
used up. From any place in a stream one step more than there are tokens left is enough for a type,
and what is found are the places where the lists of tokens go on.
-/
namespace GroovyTidy

open Lookahead

/-- The kind of the token that stands `k` tokens ahead, counted from one. -/
def TokenStream.kindAhead (stream : TokenStream) (k : Nat) : TokenKind :=
  (stream.lookAhead k).kind

namespace Scan

section

-- The kinds of the tokens by how far ahead they stand.
variable (sight : Nat → TokenKind)

/-- Where leading pairs of tokens of kinds with two properties end. -/
def pairs (first second : TokenKind → Bool) : Nat → Nat → Option Nat
  | 0, _ => none
  | steps + 1, k =>
    if first (sight k) && second (sight (k + 1)) then pairs first second steps (k + 2) else some k

def brackets (steps k : Nat) : Option Nat :=
  pairs sight (· == .opening .bracket) (· == .closing .bracket) steps k

mutual

/-- Where a type ends that starts at an index. The outer option is for the steps. -/
def type : Nat → Nat → Option (Option Nat)
  | 0, _ => none
  | steps + 1, k =>
    if (sight k).isPrimitiveType then (brackets sight steps (k + 1)).map some
    else if (sight k).isIdentifier then
      (pairs sight (· == .dot) TokenKind.isIdentifier steps (k + 1)).bind fun named =>
        if sight named = .less then
          (typeArguments steps (named + 1)).bind fun found =>
            found.elim (some none) fun closed => (brackets sight steps closed).map some
        else (brackets sight steps named).map some
    else some none

/-- Where a list of types ends with its closing angle bracket. -/
def typeArguments : Nat → Nat → Option (Option Nat)
  | 0, _ => none
  | steps + 1, k =>
    (type steps k).bind fun found =>
      found.elim (some none) fun after =>
        if sight after = .comma then typeArguments steps (after + 1)
        else if sight after = .greater then some (some (after + 1))
        else some none

end

/-- Where leading modifiers end. -/
def modifiers : Nat → Nat → Option Nat
  | 0, _ => none
  | steps + 1, k => if (sight k).isModifier then modifiers steps (k + 1) else some k

/-- The parentheses of which so many are open are closed, and an opening brace follows them. -/
def methodBody : Nat → Nat → Nat → Option Bool
  | 0, _, _ => none
  | steps + 1, depth, k =>
    if sight k = .opening .paren then methodBody steps (depth + 1) (k + 1)
    else if sight k = .closing .paren then
      if depth ≤ 1 then some (sight (k + 1) == .opening .brace)
      else methodBody steps (depth - 1) (k + 1)
    else if sight k = .endOfInput then some false
    else methodBody steps depth (k + 1)

/-- A name of a method and an opening parenthesis stand at an index. -/
def methodHead (k : Nat) : Bool :=
  isMethodName (sight k) && sight (k + 1) == .opening .paren

/-- Modifiers, a type or at least one of the two, a name, parameters and an opening brace are
ahead. -/
def methodDeclaration (steps : Nat) : Option Bool :=
  (modifiers sight steps 1).bind fun start =>
    (type sight steps start).bind fun found =>
      (found.filter (methodHead sight)).elim
        (if 1 < start && methodHead sight start then methodBody sight steps 0 (start + 1)
          else some false)
        fun after => methodBody sight steps 0 (after + 1)

/-- Parameters of a closure stand at an index, up to an arrow. -/
def parameters : Nat → Nat → Option Bool
  | 0, _ => none
  | steps + 1, k =>
    (type sight steps k).bind fun found =>
      found.elim (some false) fun after =>
        let next := if (sight after).isIdentifier then after + 1 else after
        if sight next = .comma then parameters steps (next + 1) else some (sight next == .arrow)

/-- The head of a closure is ahead: an arrow, with or without parameters before it. -/
def closureHead (steps : Nat) : Option Bool :=
  if sight 1 = .arrow then some true else parameters sight steps 1

end

/-! ## What is seen -/

/-- From an index on, these tokens are seen, and then the end of input for ever. -/
def Sees (sight : Nat → TokenKind) (ahead : List Token) (k : Nat) : Prop :=
  ∀ index, sight (k + index) = kindAt ahead index

/-- The index at which the rest of the tokens from an index on stands. -/
def placeOf (k : Nat) (ahead rest : List Token) : Nat :=
  k + (ahead.length - rest.length)

theorem sees_kindAhead (stream : TokenStream) : Sees stream.kindAhead stream.pending 1 := by
  intro index
  rw [TokenStream.kindAhead, TokenStream.lookAhead, Nat.add_sub_cancel_left, kindAt]
  cases stream.pending[index]? with
  | none => exact stream.final_kind
  | some token => rfl

section

variable {sight : Nat → TokenKind} {ahead rest : List Token} {k : Nat}

theorem Sees.here (sees : Sees sight ahead k) : sight k = kindAt ahead 0 :=
  sees 0

theorem Sees.drop (sees : Sees sight ahead k) (n : Nat) : Sees sight (ahead.drop n) (k + n) := by
  intro index
  rw [Nat.add_assoc, sees, kindAt, kindAt, List.getElem?_drop]

theorem Sees.suffix (sees : Sees sight ahead k) (later : rest <:+ ahead) :
    Sees sight rest (placeOf k ahead rest) := by
  rw [List.suffix_iff_eq_drop.mp later]
  have same : (ahead.drop (ahead.length - rest.length)).length = rest.length := by
    rw [← List.suffix_iff_eq_drop.mp later]
  rw [placeOf, same]
  exact sees.drop _

/-- A place that is counted from another one. -/
theorem placeOf_placeOf {middle : List Token} (later : middle <:+ ahead) (last : rest <:+ middle) :
    placeOf (placeOf k ahead middle) middle rest = placeOf k ahead rest := by
  have first := later.length_le
  have second := last.length_le
  unfold placeOf
  omega

theorem placeOf_drop (inside : 0 < ahead.length) : placeOf k ahead (ahead.drop 1) = k + 1 := by
  rw [placeOf, List.length_drop]
  omega

/-! ## Loops over pairs and modifiers -/

theorem pairs_eq {first second : TokenKind → Bool} (ended : second .endOfInput = false)
    (sees : Sees sight ahead k) {steps : Nat} (enough : ahead.length < steps) :
    pairs sight first second steps k = some (placeOf k ahead (skipPairs first second ahead)) := by
  induction steps generalizing ahead k with
  | zero => omega
  | succ steps ih =>
    have tested : (first (sight k) && second (sight (k + 1))) = startsPair first second ahead := by
      rw [sees.here, sees 1, startsPair]
    rw [pairs, tested, skipPairs_eq ended]
    cases goes : startsPair first second ahead with
    | false => simp [placeOf]
    | true =>
      have long : 2 ≤ ahead.length := by
        by_contra short
        have missing : kindAt ahead 1 = .endOfInput := by
          rw [kindAt, List.getElem?_eq_none (by omega), Option.elim_none]
        rw [startsPair, missing, ended, Bool.and_false] at goes
        cases goes
      have later := skipPairs_suffix first second (ahead.drop 2)
      have place : placeOf k ahead (ahead.drop 2) = k + 2 := by
        rw [placeOf, List.length_drop]
        omega
      rw [if_pos rfl, if_pos rfl, ih (sees.drop 2) (by rw [List.length_drop]; omega), ← place,
        placeOf_placeOf (List.drop_suffix 2 ahead) later]

theorem brackets_eq (sees : Sees sight ahead k) {steps : Nat} (enough : ahead.length < steps) :
    brackets sight steps k = some (placeOf k ahead (skipBrackets ahead)) :=
  pairs_eq rfl sees enough

theorem brackets_after {middle : List Token} (sees : Sees sight ahead k) (later : middle <:+ ahead)
    {steps : Nat} (enough : middle.length < steps) :
    (brackets sight steps (placeOf k ahead middle)).map some =
      some (some (placeOf k ahead (skipBrackets middle))) := by
  have last : skipBrackets middle <:+ middle := skipPairs_suffix _ _ _
  rw [brackets_eq (sees.suffix later) enough, placeOf_placeOf later last, Option.map_some]

end

/-- The index of what follows in the tokens from an index on. -/
def indexed (k : Nat) (ahead : List Token) (found : Option (List Token)) : Option (Option Nat) :=
  some (found.map (placeOf k ahead))

/-- So many steps are enough for types of fewer tokens. -/
def FindsTypes (sight : Nat → TokenKind) (steps : Nat) : Prop :=
  ∀ ⦃ahead : List Token⦄ ⦃k bound : Nat⦄, Sees sight ahead k → ahead.length < steps →
    ahead.length < bound →
    type sight steps k = indexed k ahead (afterTypeWithin? bound ahead)

/-- So many steps are enough for lists of types. -/
def FindsLists (sight : Nat → TokenKind) (steps : Nat) : Prop :=
  ∀ (ahead : List Token) (k bound limit : Nat), Sees sight ahead k → ahead.length + 1 < steps →
    ahead.length < bound →
    ahead.length < limit →
    typeArguments sight steps k =
      indexed k ahead (afterTypeList? (afterTypeWithin? bound) limit ahead)

section

variable {sight : Nat → TokenKind} {steps : Nat}

theorem type_succ (lists : FindsLists sight steps) : FindsTypes sight (steps + 1) := by
  intro ahead k bound sees enough deep
  obtain ⟨bound, rfl⟩ := Nat.exists_eq_succ_of_ne_zero (Nat.ne_zero_of_lt deep)
  rw [type, sees.here]
  cases ahead with
  | nil => rfl
  | cons first rest =>
    have seen : kindAt (first :: rest) 0 = first.kind := rfl
    have next : Sees sight rest (k + 1) := sees.drop 1
    have place : placeOf k (first :: rest) rest = k + 1 := placeOf_drop (Nat.zero_lt_succ _)
    have tail : rest <:+ first :: rest := List.suffix_cons _ _
    rw [List.length_cons] at enough deep
    rw [seen, afterTypeWithin?_cons]
    by_cases primitive : first.kind.isPrimitiveType = true
    · rw [if_pos primitive, if_pos primitive, ← place, brackets_after sees tail (by omega)]
      rfl
    rw [if_neg primitive, if_neg primitive]
    by_cases name : first.kind.isIdentifier = true
    · have names : skipNames rest <:+ rest := skipPairs_suffix _ _ _
      have shorter := names.length_le
      have inside := names.trans tail
      have dotted : pairs sight (· == .dot) TokenKind.isIdentifier steps (k + 1) =
          some (placeOf k (first :: rest) (skipNames rest)) := by
        rw [pairs_eq rfl next (by omega), ← placeOf_placeOf tail names, place]
        rfl
      have test : sight (placeOf k (first :: rest) (skipNames rest)) = .less ↔
          startsWith .less (skipNames rest) = true := by
        rw [(sees.suffix inside).here, startsWith, beq_iff_eq]
      rw [if_pos name, if_pos name, dotted, Option.bind_some]
      by_cases less : startsWith .less (skipNames rest) = true
      · have filled := startsWith_length (by decide) less
        have within : (skipNames rest).drop 1 <:+ first :: rest :=
          (List.drop_suffix 1 _).trans inside
        have arguments : placeOf k (first :: rest) ((skipNames rest).drop 1) =
            placeOf k (first :: rest) (skipNames rest) + 1 := by
          rw [← placeOf_placeOf inside (List.drop_suffix 1 _), placeOf_drop filled]
        have dropped : ((skipNames rest).drop 1).length < rest.length := by
          rw [List.length_drop]
          omega
        rw [if_pos (test.mpr less), if_pos less, ← arguments,
          lists _ _ bound _ (sees.suffix within) (by omega) (by omega) dropped, indexed,
          Option.bind_some]
        cases listed : afterTypeList? (afterTypeWithin? bound) rest.length
          ((skipNames rest).drop 1) with
        | none => rfl
        | some closed =>
          obtain ⟨last, fewer⟩ := afterTypeList?_shrinks (afterTypeWithin?_shrinks bound) _ listed
          rw [Option.map_some, Option.elim_some, placeOf_placeOf within last,
            brackets_after sees (last.trans within) (by omega)]
          rfl
      · rw [if_neg (mt test.mp less), if_neg less, brackets_after sees inside (by omega)]
        rfl
    · rw [if_neg name, if_neg name]
      rfl

theorem typeArguments_succ (types : FindsTypes sight steps) (lists : FindsLists sight steps) :
    FindsLists sight (steps + 1) := by
  intro ahead k bound limit sees enough deep long
  obtain ⟨limit, rfl⟩ := Nat.exists_eq_succ_of_ne_zero (Nat.ne_zero_of_lt long)
  rw [typeArguments, types sees (by omega) deep, afterTypeList?_succ, indexed, Option.bind_some]
  cases scanned : afterTypeWithin? bound ahead with
  | none => rfl
  | some after =>
    obtain ⟨later, shorter⟩ := afterTypeWithin?_shrinks bound scanned
    have test (kind : TokenKind) : sight (placeOf k ahead after) = kind ↔
        startsWith kind after = true := by
      rw [(sees.suffix later).here, startsWith, beq_iff_eq]
    have place (filled : 0 < after.length) : placeOf k ahead (after.drop 1) =
        placeOf k ahead after + 1 := by
      rw [← placeOf_placeOf later (List.drop_suffix 1 after), placeOf_drop filled]
    rw [Option.map_some, Option.elim_some, Option.bind_some]
    by_cases comma : startsWith .comma after = true
    · have filled := startsWith_length (by decide) comma
      have within : after.drop 1 <:+ ahead := (List.drop_suffix 1 after).trans later
      have fewer : (after.drop 1).length < after.length := by
        rw [List.length_drop]
        omega
      rw [if_pos ((test _).mpr comma), if_pos comma, ← place filled,
        lists _ _ bound limit (sees.suffix within) (by omega) (by omega) (by omega), indexed]
      cases listed : afterTypeList? (afterTypeWithin? bound) limit (after.drop 1) with
      | none => rfl
      | some closed =>
        obtain ⟨last, -⟩ := afterTypeList?_shrinks (afterTypeWithin?_shrinks bound) _ listed
        rw [Option.map_some, placeOf_placeOf within last]
        rfl
    · rw [if_neg (mt (test _).mp comma), if_neg comma]
      by_cases greater : startsWith .greater after = true
      · rw [if_pos ((test _).mpr greater), if_pos greater,
          ← place (startsWith_length (by decide) greater)]
        rfl
      · rw [if_neg (mt (test _).mp greater), if_neg greater]
        rfl

theorem finds_types_and_lists (sight : Nat → TokenKind) (steps : Nat) :
    FindsTypes sight steps ∧ FindsLists sight steps := by
  induction steps with
  | zero =>
    constructor
    · intro ahead k bound _ enough
      omega
    · intro ahead k bound limit _ enough
      omega
  | succ steps ih => exact ⟨type_succ ih.2, typeArguments_succ ih.1 ih.2⟩

variable {ahead : List Token} {k : Nat} (sees : Sees sight ahead k)
include sees

theorem type_eq (enough : ahead.length < steps) :
    type sight steps k = indexed k ahead (afterType? ahead) :=
  (finds_types_and_lists sight steps).1 sees enough (Nat.lt_succ_self _)

end

end Scan

/-! ## Types as they are read -/

namespace TokenStream

theorem advanceBy_cons {stream : TokenStream} {token : Token} {rest : List Token}
    (pending : stream.pending = token :: rest) (n : Nat) : stream.advanceBy (n + 1) =
      ({ stream with pending := rest, position := stream.position + 1 } : TokenStream).advanceBy
        n := by
  rw [advanceBy, advance, pending]

/-- A stream that has passed over tokens is the one so many tokens further. -/
theorem eq_advanceBy {before after : TokenStream} {tokens : List Token}
    (pending : before.pending = tokens ++ after.pending) (final : after.final = before.final)
    (position : after.position = before.position + tokens.length) :
    after = before.advanceBy tokens.length := by
  induction tokens generalizing before with
  | nil =>
    obtain ⟨ahead, last, place, ended⟩ := after
    obtain ⟨others, final, start, closed⟩ := before
    cases pending
    cases final
    cases position
    rfl
  | cons token tokens ih =>
    rw [List.length_cons, advanceBy_cons pending]
    apply ih
    · rfl
    · exact final
    · rw [position, List.length_cons]
      change _ = before.position + 1 + tokens.length
      omega

end TokenStream

theorem Reading.Consumes.stream_eq {before after : Reading} {tokens : List Token}
    (step : before.Consumes tokens after) : after.stream = before.stream.advanceBy tokens.length :=
  TokenStream.eq_advanceBy step.ahead step.final step.position

/-- A type that is found ahead is read, and the place found for its end is as far ahead as the
reading moves on. -/
theorem type_moves {reading : Reading} {rest : List Token}
    (found : afterType? reading.ahead = some rest) :
    ∃ forest after, Grammar.type reading = .ok forest after ∧
      after.stream = reading.stream.advanceBy (Scan.placeOf 1 reading.ahead rest - 1) ∧
      after.stream.position + 1 = reading.stream.position + Scan.placeOf 1 reading.ahead rest := by
  obtain ⟨forest, reads⟩ := Grammar.type_reads found
  obtain ⟨after, success, left⟩ := reads reading rfl
  have consumed := (Grammar.type_yields _ _ _ success).consumes
  have length := consumed.length
  rw [left] at length
  have count : Scan.placeOf 1 reading.ahead rest = 1 + (Tree.forestTokens forest).length := by
    rw [Scan.placeOf]
    omega
  refine ⟨forest, after, success, ?_, ?_⟩
  · rw [count, Nat.add_sub_cancel_left, ← consumed.stream_eq]
  · rw [count, consumed.position]
    omega

/-- Scanning for a type and reading one agree, whatever the tokens of a stream are and wherever in
it a reading stands. The scan ends, with what the rules of the grammar find by looking ahead. It
finds a place `a` exactly if a type is read, and the reading then moves on by `a - 1` tokens. It
finds none exactly if the type is refused. -/
theorem type_read_as_scanned (reading : Reading) :
    ∃ found,
      (∀ steps, reading.ahead.length < steps →
        Scan.type reading.stream.kindAhead steps 1 = some found) ∧
      found = (afterType? reading.ahead).map (Scan.placeOf 1 reading.ahead) ∧
      (∀ a, found = some a ↔ ∃ forest after, Grammar.type reading = .ok forest after ∧
        after.stream = reading.stream.advanceBy (a - 1) ∧
          after.stream.position + 1 = reading.stream.position + a) ∧
      (found = none ↔ ∃ error after, Grammar.type reading = .error error after) := by
  refine ⟨_, fun steps enough => Scan.type_eq (Scan.sees_kindAhead reading.stream) enough,
    rfl, ?_, ?_⟩
  · intro a
    constructor
    · intro here
      obtain ⟨rest, found, rfl⟩ := Option.map_eq_some_iff.mp here
      exact type_moves found
    · rintro ⟨forest, after, success, -, moved⟩
      have found := Grammar.type_scanned success
      obtain ⟨other, reached, again, -, counted⟩ := type_moves found
      rw [success] at again
      cases again
      have same : Scan.placeOf 1 reading.ahead after.ahead = a := by omega
      exact Option.map_eq_some_iff.mpr ⟨after.ahead, found, same⟩
  · rw [Option.map_eq_none_iff]
    cases result : Grammar.type reading with
    | ok forest after =>
      have found := Grammar.type_scanned result
      constructor
      · intro none
        rw [show afterType? reading.stream.pending = some after.ahead from found] at none
        cases none
      · rintro ⟨error, reached, refused⟩
        cases refused
    | error error after =>
      refine ⟨fun _ => ⟨error, after, rfl⟩, fun _ => ?_⟩
      cases found : afterType? reading.stream.pending with
      | none => rfl
      | some rest =>
        obtain ⟨forest, reached, success, -⟩ := type_moves found
        rw [result] at success
        cases success

/-- The tokens of `static Map < String , a . B [ ] > [ ] x`. -/
def nestedTypeTokens : List Token :=
  Token.lineOf [(.modifier .staticWord, "static"), (.capitalizedIdentifier, "Map"), (.less, "<"),
    (.capitalizedIdentifier, "String"), (.comma, ","), (.identifier, "a"), (.dot, "."),
    (.capitalizedIdentifier, "B"), (.opening .bracket, "["), (.closing .bracket, "]"),
    (.greater, ">"), (.opening .bracket, "["), (.closing .bracket, "]"), (.identifier, "x")]

/-- Behind a modifier a type of twelve tokens is found and read; arguments that the end of input
breaks off are refused. -/
theorem type_read_as_scanned_of_nested :
    (∃ forest after,
      Grammar.type ⟨(TokenStream.ofTokens nestedTypeTokens).advanceBy 1, []⟩ = .ok forest after ∧
      after.stream.position = 13) ∧
    Scan.type ((TokenStream.ofTokens nestedTypeTokens).advanceBy 1).kindAhead 14 1 =
      some (some 13) ∧
    ∃ error after, Grammar.type ⟨(TokenStream.ofTokens (nestedTypeTokens.take 8)).advanceBy 1, []⟩ =
      .error error after := by
  obtain ⟨found, scans, rfl, reads, -⟩ :=
    type_read_as_scanned ⟨(TokenStream.ofTokens nestedTypeTokens).advanceBy 1, []⟩
  obtain ⟨broken, -, rfl, -, refuses⟩ :=
    type_read_as_scanned ⟨(TokenStream.ofTokens (nestedTypeTokens.take 8)).advanceBy 1, []⟩
  obtain ⟨forest, after, success, -, moved⟩ := (reads 13).mp (by decide +kernel)
  have start : ((TokenStream.ofTokens nestedTypeTokens).advanceBy 1).position = 1 := by
    decide +kernel
  refine ⟨⟨forest, after, success, ?_⟩, ?_, refuses.mp (by decide +kernel)⟩
  · rw [start] at moved
    omega
  · rw [scans 14 (by decide +kernel)]
    decide +kernel

end GroovyTidy
