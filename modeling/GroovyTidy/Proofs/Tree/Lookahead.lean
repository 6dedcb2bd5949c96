import GroovyTidy.Tree.Lookahead

set_option autoImplicit false

/-!
Facts about looking ahead: tests that names, literals and the ends of statements do not pass, and
what follows a type.
-/
namespace GroovyTidy

open Lookahead

/-- A test that neither names nor literals pass. -/
theorem TokenKind.eq_false_of_simple {kind : TokenKind}
    (simple : (kind.isIdentifier || kind.isLiteral) = true) (test : TokenKind → Bool)
    (name : test .identifier = false) (capitalized : test .capitalizedIdentifier = false)
    (literal : ∀ form, test (.literal form) = false) : test kind = false := by
  cases kind with
  | identifier => exact name
  | capitalizedIdentifier => exact capitalized
  | literal form => exact literal form
  | _ => cases simple

namespace Grammar

/-- A statement is over at a token of such a kind. -/
def isBoundary (kind : TokenKind) : Bool :=
  kind.isSeparator || kind == .endOfInput

theorem isBoundary_cases {kind : TokenKind} (ends : isBoundary kind = true) :
    kind = .newline ∨ kind = .semicolon ∨ kind = .endOfInput := by
  cases kind with
  | newline => exact .inl rfl
  | semicolon => exact .inr (.inl rfl)
  | endOfInput => exact .inr (.inr rfl)
  | _ => cases ends

/-- A test that no token passes at which a statement is over. -/
theorem eq_false_of_boundary {kind : TokenKind} (ends : isBoundary kind = true)
    (test : TokenKind → Bool) (newline : test .newline = false)
    (semicolon : test .semicolon = false) (ended : test .endOfInput = false) :
    test kind = false := by
  obtain rfl | rfl | rfl := isBoundary_cases ends
  · exact newline
  · exact semicolon
  · exact ended

theorem kindAt_cons_succ (token : Token) (rest : List Token) (index : Nat) :
    kindAt (token :: rest) (index + 1) = kindAt rest index :=
  rfl

end Grammar

namespace Lookahead

theorem skipPairs_of_kindAt {first second : TokenKind → Bool} {ahead : List Token}
    (stops : first (kindAt ahead 0) = false) : skipPairs first second ahead = ahead := by
  match ahead with
  | [] => rfl
  | [token] => rfl
  | left :: right :: rest =>
    have differs : first left.kind = false := stops
    rw [skipPairs, differs]
    rfl

theorem skipPairs_suffix (first second : TokenKind → Bool) (ahead : List Token) :
    skipPairs first second ahead <:+ ahead := by
  fun_induction skipPairs first second ahead with
  | case1 left right rest passed ih =>
    exact (ih.trans (List.suffix_cons right rest)).trans (List.suffix_cons left _)
  | case2 => exact List.suffix_rfl
  | case3 => exact List.suffix_rfl

theorem skipPairs_length (first second : TokenKind → Bool) (ahead : List Token) :
    (skipPairs first second ahead).length ≤ ahead.length :=
  (skipPairs_suffix first second ahead).length_le

/-- A token of such a kind goes on with the name of a type. -/
def extendsType (kind : TokenKind) : Bool :=
  kind == .dot || kind == .less || kind == .opening .bracket

/-- A name is a type by itself unless what follows goes on with it. -/
theorem afterType?_name {first : Token} (name : first.kind.isIdentifier = true) {rest : List Token}
    (ends : extendsType (kindAt rest 0) = false) : afterType? (first :: rest) = some rest := by
  simp only [extendsType, Bool.or_eq_false_iff, beq_eq_false_iff_ne] at ends
  obtain ⟨⟨dot, less⟩, bracket⟩ := ends
  have primitive : first.kind.isPrimitiveType = false :=
    TokenKind.eq_false_of_simple (Bool.or_eq_true_iff.mpr (.inl name)) _ rfl rfl fun _ => rfl
  have names : skipNames rest = rest := skipPairs_of_kindAt (by simpa using dot)
  have brackets : skipBrackets rest = rest := skipPairs_of_kindAt (by simpa using bracket)
  rw [afterType?, afterTypeWithin?, primitive, name, names]
  cases rest with
  | nil => rfl
  | cons token others =>
    have plain : token.kind ≠ .less := less
    simp only [Bool.false_eq_true, ↓reduceIte, plain, brackets]

/-- A type starts with its primitive word or with a name. -/
def startsType (kind : TokenKind) : Bool :=
  kind.isPrimitiveType || kind.isIdentifier

theorem afterTypeWithin?_none {bound : Nat} {ahead : List Token}
    (other : startsType (kindAt ahead 0) = false) : afterTypeWithin? bound ahead = none := by
  cases bound with
  | zero => rfl
  | succ bound =>
    cases ahead with
    | nil => rfl
    | cons first rest =>
      have differs : startsType first.kind = false := other
      simp only [startsType, Bool.or_eq_false_iff] at differs
      simp only [afterTypeWithin?, differs.1, differs.2, Bool.false_eq_true, ↓reduceIte]

theorem afterType?_none {ahead : List Token} (other : startsType (kindAt ahead 0) = false) :
    afterType? ahead = none :=
  afterTypeWithin?_none other

theorem startsType_of_afterType? {ahead rest : List Token} (found : afterType? ahead = some rest) :
    startsType (kindAt ahead 0) = true := by
  cases typed : startsType (kindAt ahead 0) with
  | true => rfl
  | false =>
    rw [afterType?_none typed] at found
    cases found

/-- What follows a name, or all that is ahead if there is none. -/
def skipName (ahead : List Token) : List Token :=
  if starts TokenKind.isIdentifier ahead then ahead.drop 1 else ahead

theorem listsParameters_succ (bound : Nat) (ahead : List Token) :
    listsParameters (bound + 1) ahead =
      (afterType? ahead).any fun rest =>
        if startsWith .comma (skipName rest) then listsParameters bound ((skipName rest).drop 1)
        else startsWith .arrow (skipName rest) := by
  rw [listsParameters]
  cases afterType? ahead with
  | none => rfl
  | some rest => rfl

/-- After each parameter of a closure stands a comma with more parameters after it, or the arrow. -/
theorem listsParameters_eq_true {bound : Nat} {ahead : List Token}
    (lists : listsParameters bound ahead = true) :
    ∃ rest, afterType? ahead = some rest ∧
      ((∃ comma more smaller, skipName rest = comma :: more ∧ comma.kind = .comma ∧
          listsParameters smaller more = true) ∨
        kindAt (skipName rest) 0 = .arrow) := by
  cases bound with
  | zero => cases lists
  | succ bound =>
    rw [listsParameters_succ] at lists
    obtain ⟨rest, found, lists⟩ := (Option.any_eq_true _ _).mp lists
    refine ⟨rest, found, ?_⟩
    split at lists
    · rename_i comma
      cases shape : skipName rest with
      | nil =>
        rw [shape] at comma
        cases comma
      | cons mark more =>
        rw [shape] at comma lists
        exact .inl ⟨mark, more, bound, rfl, beq_iff_eq.mp comma, lists⟩
    · exact .inr (beq_iff_eq.mp lists)

theorem skipModifiers_eq (ahead : List Token) :
    skipModifiers ahead = if starts TokenKind.isModifier ahead then skipModifiers (ahead.drop 1)
      else ahead := by
  cases ahead with
  | nil => rfl
  | cons first rest =>
    rw [skipModifiers, List.dropWhile_cons]
    rfl

/-- There are modifiers exactly if passing over them leaves less. -/
theorem skipModifiers_shorter (ahead : List Token) :
    decide ((skipModifiers ahead).length < ahead.length) = starts TokenKind.isModifier ahead := by
  cases ahead with
  | nil => rfl
  | cons first rest =>
    rw [skipModifiers_eq]
    cases starts TokenKind.isModifier (first :: rest) with
    | false =>
      rw [if_neg Bool.false_ne_true, decide_eq_false_iff_not]
      omega
    | true =>
      have short :=
        (List.dropWhile_sublist (l := rest) fun token : Token => token.kind.isModifier).length_le
      rw [if_pos rfl, decide_eq_true_eq, List.length_cons]
      exact Nat.lt_succ_of_le short

theorem skipModifiers_bare {ahead : List Token} (bare : starts TokenKind.isModifier ahead = false) :
    skipModifiers ahead = ahead := by
  rw [skipModifiers_eq, bare]
  rfl

theorem skipModifiers_simple {first : Token}
    (simple : (first.kind.isIdentifier || first.kind.isLiteral) = true) (rest : List Token) :
    skipModifiers (first :: rest) = first :: rest := by
  have plain : first.kind.isModifier = false :=
    TokenKind.eq_false_of_simple simple _ rfl rfl fun _ => rfl
  exact skipModifiers_bare plain

end Lookahead

end GroovyTidy
