import GroovyTidy.Proofs.Json
import GroovyTidy.Tree.Json

set_option autoImplicit false

/-!
The JSON of tokens and of trees loses nothing. Kinds are found again from their names, every part of
a token or of a node has a field of its own, and a JSON value is found again from its text.
-/
namespace GroovyTidy

/-! ## Names -/

theorem TokenKind.ofName?_name (kind : TokenKind) : TokenKind.ofName? kind.name = some kind := by
  cases kind with
  | literal part | modifier part | opening part | closing part => cases part <;> decide +kernel
  | _ => decide +kernel

theorem PathTrailer.ofName?_name (trailer : PathTrailer) :
    PathTrailer.ofName? trailer.name = some trailer := by
  cases trailer <;> decide +kernel

/-- The kind of a node from its JSON. -/
def NodeKind.ofJson? : Json → Option NodeKind
  | .text name => NodeKind.ofName? name
  | .object [(_, .text name)] => (PathTrailer.ofName? name).map .pathExpression
  | _ => none

theorem NodeKind.ofJson?_json (kind : NodeKind) : NodeKind.ofJson? kind.json = some kind := by
  cases kind with
  | pathExpression trailer =>
    rw [NodeKind.json, NodeKind.ofJson?, PathTrailer.ofName?_name, Option.map_some]
  | _ => decide +kernel

/-! ## Values -/

theorem TokenKind.name_injective : Function.Injective TokenKind.name := by
  intro left right same
  have read := congrArg TokenKind.ofName? same
  rw [TokenKind.ofName?_name, TokenKind.ofName?_name] at read
  exact Option.some.inj read

theorem NodeKind.json_injective : Function.Injective NodeKind.json := by
  intro left right same
  have read := congrArg NodeKind.ofJson? same
  rw [NodeKind.ofJson?_json, NodeKind.ofJson?_json] at read
  exact Option.some.inj read

theorem Span.json_injective : Function.Injective Span.json := by
  rintro ⟨start, stop⟩ ⟨start', stop'⟩ same
  simpa [Span.json] using same

theorem Token.json_injective : Function.Injective Token.json := by
  rintro ⟨kind, text, span, line, column⟩ ⟨kind', text', span', line', column'⟩ same
  simpa [Token.json, TokenKind.name_injective.eq_iff, Span.json_injective.eq_iff] using same

mutual

theorem Tree.json_inj (left right : Tree) (same : left.json = right.json) : left = right := by
  cases left with
  | node kind children =>
    cases right with
    | node kind' children' =>
      simp only [Tree.json, Json.object.injEq, Json.array.injEq, List.cons.injEq, Prod.mk.injEq,
        true_and, and_true] at same
      rw [NodeKind.json_injective same.1, Tree.forestJson_inj children children' same.2]
    | token leaf => simp [Tree.json] at same
  | token leaf =>
    cases right with
    | node kind children => simp [Tree.json] at same
    | token leaf' =>
      simp only [Tree.json, Json.object.injEq, List.cons.injEq, Prod.mk.injEq, true_and, and_true]
        at same
      rw [Token.json_injective same]

theorem Tree.forestJson_inj (left right : List Tree)
    (same : Tree.forestJson left = Tree.forestJson right) : left = right := by
  cases left with
  | nil =>
    cases right with
    | nil => rfl
    | cons tree forest => simp [Tree.forestJson] at same
  | cons tree forest =>
    cases right with
    | nil => simp [Tree.forestJson] at same
    | cons tree' forest' =>
      rw [Tree.forestJson, Tree.forestJson, List.cons.injEq] at same
      rw [Tree.json_inj tree tree' same.1, Tree.forestJson_inj forest forest' same.2]

end

theorem Node.json_injective : Function.Injective Node.json := by
  rintro ⟨kind, children⟩ ⟨kind', children'⟩ same
  simp only [Node.json, Json.object.injEq, Json.array.injEq, List.cons.injEq, Prod.mk.injEq,
    true_and, and_true] at same
  rw [NodeKind.json_injective same.1, Tree.forestJson_inj children children' same.2]

/-- Different trees have different JSON texts, and so do different lists of tokens. -/
theorem json_texts_injective :
    Function.Injective Node.toJson ∧ Function.Injective tokensToJson := by
  constructor
  · intro left right same
    exact Node.json_injective (Json.pretty_injective 0 same)
  · intro left right same
    have items := Json.array.inj (Json.pretty_injective 0 same)
    exact (List.map_inj_right fun _ _ same => Token.json_injective same).mp items

/-- A line break and the two characters of its escape are not written alike. -/
theorem json_texts_injective_of_escape :
    tokensToJson [⟨.newline, "\n", ⟨0, 1⟩, 1, 1⟩] ≠
      tokensToJson [⟨.newline, "\\n", ⟨0, 1⟩, 1, 1⟩] := by
  intro same
  have tokens := json_texts_injective.2 same
  simp at tokens

end GroovyTidy
