import GroovyTidy.Proofs.Token.Gap
import GroovyTidy.Proofs.Token.Spelling

set_option autoImplicit false

/-!
Tokens tile their source. Each token stands at its span with its own text, and what lies between the
end of the token before it and its start is a gap, so no character of the source is lost or counted
twice.
-/
namespace GroovyTidy

open Text Lexeme

/-- The delimiters that are open after tokens. -/
def openAfterAll (opened : List Delimiter) (tokens : List Token) : List Delimiter :=
  tokens.foldl (fun opened token => openAfter opened token.kind) opened

/-- The byte offset at which the last of some tokens ends, or the given one if there are none. -/
def reachedAfter (offset : Nat) (tokens : List Token) : Nat :=
  tokens.foldl (fun _ token => token.span.stop) offset

/-- A token after a gap that starts at a byte offset, before the rest of a text. -/
structure Tile (opened : List Delimiter) (offset : Nat) (gap : List Char) (token : Token)
    (rest : List Char) : Prop where
  skipped : Gap opened offset gap (token.text.toList ++ rest)
  placed : token.span =
    ⟨offset + byteLength gap, offset + byteLength gap + byteLength token.text.toList⟩
  newline : token.kind = .newline ↔ LineEnd token.text.toList rest
  outside : token.kind = .newline → ¬ Enclosed opened

/-- Tiles over a whole text, the end of input being the last. -/
inductive Tiled : Nat → List Delimiter → List Char → List Token → Prop where
  | last {offset : Nat} {opened : List Delimiter} {gap : List Char} {token : Token}
      (tile : Tile opened offset gap token []) (ended : token.spelling = (.endOfInput, "")) :
      Tiled offset opened gap [token]
  | cons {offset : Nat} {opened : List Delimiter} {gap rest : List Char} {token : Token}
      {tokens : List Token} (tile : Tile opened offset gap token rest) (filled : token.text ≠ "")
      (inside : token.kind ≠ .endOfInput)
      (more : Tiled token.span.stop (openAfter opened token.kind) rest tokens) :
      Tiled offset opened (gap ++ token.text.toList ++ rest) (token :: tokens)

theorem utf8ByteSize_eq (text : String) : text.utf8ByteSize = byteLength text.toList := by
  suffices ∀ chars : List Char, (String.ofList chars).utf8ByteSize = byteLength chars by
    have whole := this text.toList
    rwa [String.ofList_toList] at whole
  intro chars
  induction chars with
  | nil => rfl
  | cons c chars ih =>
    rw [String.ofList_cons, String.utf8ByteSize_append, String.utf8ByteSize_singleton, ih,
      byteLength_cons]

theorem placeToken_toList (index : LineIndex) (kind : TokenKind) (text : List Char) (offset : Nat) :
    (placeToken index kind (String.ofList text) offset).text.toList = text :=
  String.toList_ofList

theorem placeToken_span (index : LineIndex) (kind : TokenKind) (text : String) (offset : Nat) :
    (placeToken index kind text offset).span = ⟨offset, offset + byteLength text.toList⟩ := by
  rw [← utf8ByteSize_eq]
  rfl

/-! ## Every source is tiled -/

namespace Tile

variable {opened : List Delimiter} {offset : Nat} {gap rest : List Char} {token : Token}

/-- An item in front makes the gap before a token longer. -/
theorem skip {item : List Char}
    (here : GapItem (offset = 0) opened item (gap ++ (token.text.toList ++ rest)))
    (tile : Tile opened (offset + byteLength item) gap token rest) :
    Tile opened offset (item ++ gap) token rest where
  skipped := .cons here tile.skipped
  placed := by rw [tile.placed, byteLength_append, Nat.add_assoc offset]
  newline := tile.newline
  outside := tile.outside

/-- A token that the scanner finds is a tile with no gap before it. -/
theorem of_tokenAt {index : LineIndex} {c : Char} {text : List Char} {kind : TokenKind}
    {length : Nat} (found : TokenAt (endsStatements opened) c text kind length) :
    Tile opened offset [] (placeToken index kind (String.ofList ((c :: text).take length)) offset)
      ((c :: text).drop length) where
  skipped := .nil _ _
  placed := placeToken_span index kind _ offset
  newline := by
    rw [placeToken_toList]
    exact found.newline_iff
  outside := by
    intro newline
    obtain rfl : kind = .newline := newline
    exact (endsStatements_iff opened).mp found.lineEnd_of_newline.2.2

end Tile

namespace Tiled

variable {opened : List Delimiter} {offset : Nat} {text : List Char} {tokens : List Token}

theorem skip {item rest : List Char} (here : GapItem (offset = 0) opened item rest)
    (tiled : Tiled (offset + byteLength item) opened rest tokens) :
    Tiled offset opened (item ++ rest) tokens := by
  generalize startDef : offset + byteLength item = start at tiled
  cases tiled with
  | @last _ _ gap token tile ended =>
    subst startDef
    have empty : token.text.toList = [] := by
      rw [show token.text = "" from congrArg Prod.snd ended]
      rfl
    refine .last (.skip ?_ tile) ended
    rwa [empty, List.append_nil, List.append_nil]
  | @cons _ _ gap rest token tokens tile filled inside more =>
    subst startDef
    rw [List.append_assoc] at here
    rw [← List.append_assoc, ← List.append_assoc]
    exact .cons (.skip here tile) filled inside more

end Tiled

/-- The tokens of a text tile it. The characters that still belong to the lexeme before are tiled
already. -/
theorem tokensFrom_tiled {index : LineIndex} {offset : Nat} {opened : List Delimiter}
    {skipped : Nat} {text : List Char} {tokens : List Token}
    (success : tokensFrom index offset opened skipped text = .ok tokens) :
    Tiled (offset + byteLength (text.take skipped)) opened (text.drop skipped) tokens := by
  fun_induction tokensFrom index offset opened skipped text generalizing tokens with
  | case1 offset opened skipped =>
    cases success
    rw [List.take_nil, List.drop_nil]
    refine .last ⟨.nil _ _, placeToken_span _ _ _ _, ?_, ?_⟩ rfl
    · constructor
      · intro newline
        cases newline
      · intro lineEnd
        obtain ⟨c, more, shape, -⟩ := lineEnd.isLineEnd_head
        cases shape
    · intro newline
      cases newline
  | case2 offset opened skipped c rest ih =>
    rw [List.take_succ_cons, List.drop_succ_cons, byteLength_cons, ← Nat.add_assoc]
    exact ih success
  | case3 => cases success
  | case4 offset opened c rest length found ih =>
    obtain ⟨item, after, shape, total, here⟩ := gapItem_of_leading found
    obtain ⟨d, more, rfl⟩ := List.exists_cons_of_ne_nil here.ne_nil
    rw [List.cons_append, List.cons.injEq] at shape
    obtain ⟨rfl, rfl⟩ := shape
    have later := ih success
    rw [← total, List.length_cons, Nat.add_sub_cancel, List.take_left, List.drop_left,
      Nat.add_assoc, ← byteLength_cons] at later
    simp only [beq_iff_eq] at here
    exact .skip here later
  | case5 => cases success
  | case6 offset opened c rest kind length found token tokens more =>
    rename_i ih
    cases success
    have here := tokenAt_of_leading found
    have later := ih more
    have tile : Tile opened offset [] token ((c :: rest).drop length) := .of_tokenAt here
    have text : token.text.toList = c :: rest.take (length - 1) := by
      rw [← take_pos here.length_bounds.1]
      exact placeToken_toList _ _ _ _
    have filled : token.text ≠ "" := by
      intro empty
      rw [empty] at text
      cases text
    have legible : token.spelling.Legible := .of_tokenAt here
    have reached : token.span.stop = offset + c.utf8Size + byteLength (rest.take (length - 1)) := by
      rw [tile.placed, text, byteLength_cons, byteLength_nil, Nat.add_zero, Nat.add_assoc]
    have dropped : rest.drop (length - 1) = (c :: rest).drop length := by
      rw [← List.drop_succ_cons, Nat.sub_add_cancel here.length_bounds.1]
    rw [← reached, dropped] at later
    have whole := Tiled.cons tile filled legible.kind_ne_endOfInput later
    rw [List.nil_append, text, ← take_pos here.length_bounds.1, List.take_append_drop] at whole
    exact whole

namespace Tiled

variable {opened : List Delimiter} {offset : Nat} {text : List Char} {tokens : List Token}

/-- No token starts before the offset of its text. -/
theorem start_le (tiled : Tiled offset opened text tokens) :
    ∀ token ∈ tokens, offset ≤ token.span.start := by
  induction tiled with
  | last tile =>
    intro token member
    obtain rfl := List.mem_singleton.mp member
    rw [tile.placed]
    exact Nat.le_add_right _ _
  | cons tile _ _ _ ih =>
    intro token member
    rcases List.mem_cons.mp member with rfl | later
    · rw [tile.placed]
      exact Nat.le_add_right _ _
    · have bound := ih token later
      rw [tile.placed] at bound
      exact Nat.le_trans (by simp only [Nat.add_assoc, Nat.le_add_right]) bound

theorem pairwise (tiled : Tiled offset opened text tokens) :
    tokens.Pairwise fun left right => left.span.stop ≤ right.span.start := by
  induction tiled with
  | last => exact List.pairwise_singleton _ _
  | cons _ _ _ more ih => exact List.pairwise_cons.mpr ⟨more.start_le, ih⟩

/-- The end of input is the last token and no other, and it stands at the end of the text. -/
theorem ends (tiled : Tiled offset opened text tokens) :
    ∃ body last, tokens = body ++ [last] ∧ last.kind = .endOfInput ∧
      last.span = ⟨offset + byteLength text, offset + byteLength text⟩ ∧
      ∀ token ∈ body, token.kind ≠ .endOfInput ∧ token.text ≠ "" := by
  induction tiled with
  | @last offset opened gap token tile ended =>
    refine ⟨[], token, rfl, congrArg Prod.fst ended, ?_, by simp⟩
    rw [tile.placed, show token.text = "" from congrArg Prod.snd ended]
    rfl
  | @cons offset opened gap rest token tokens tile filled inside more ih =>
    obtain ⟨body, last, rfl, ended, placed, others⟩ := ih
    refine ⟨token :: body, last, rfl, ended, ?_,
      List.forall_mem_cons.mpr ⟨⟨inside, filled⟩, others⟩⟩
    rw [placed, tile.placed]
    simp only [byteLength_append, Nat.add_assoc]

/-- Each token has its tile, which starts where the token before it ends. -/
theorem tile (tiled : Tiled offset opened text tokens) {front back : List Token} {token : Token}
    (split : tokens = front ++ token :: back) :
    ∃ passed gap rest, text = passed ++ gap ++ token.text.toList ++ rest ∧
      offset + byteLength passed = reachedAfter offset front ∧
      Tile (openAfterAll opened front) (offset + byteLength passed) gap token rest := by
  induction tiled generalizing front with
  | @last offset opened gap first tile ended =>
    cases front with
    | nil =>
      cases split
      refine ⟨[], gap, [], ?_, rfl, tile⟩
      rw [show token.text = "" from congrArg Prod.snd ended]
      simp
    | cons other front => simp at split
  | @cons offset opened gap rest first tokens tile filled inside more ih =>
    cases front with
    | nil =>
      cases split
      exact ⟨[], gap, rest, rfl, rfl, tile⟩
    | cons other front =>
      rw [List.cons_append, List.cons.injEq] at split
      obtain ⟨rfl, split⟩ := split
      obtain ⟨passed, between, after, rfl, reached, later⟩ := ih split
      have moved : offset + byteLength (gap ++ first.text.toList ++ passed) =
          first.span.stop + byteLength passed := by
        rw [tile.placed]
        simp only [byteLength_append, Nat.add_assoc]
      refine ⟨gap ++ first.text.toList ++ passed, between, after, ?_, ?_, ?_⟩
      · simp only [List.append_assoc]
      · rw [moved]
        exact reached
      · rw [moved]
        exact later

end Tiled

/-- The tokens of a source tile it: they are in order and apart, only the last is the end of input,
and each stands after a gap that starts where the token before it ends. -/
theorem tokens_tile_source {source : String} {tokens : List Token}
    (success : tokenize source = .ok tokens) :
    tokens.Pairwise (fun left right => left.span.stop ≤ right.span.start) ∧
    (∃ body last, tokens = body ++ [last] ∧ last.kind = .endOfInput ∧
      last.span = ⟨byteLength source.toList, byteLength source.toList⟩ ∧
      ∀ token ∈ body, token.kind ≠ .endOfInput ∧ token.text ≠ "") ∧
    ∀ front token back, tokens = front ++ token :: back →
      ∃ passed gap rest, source.toList = passed ++ gap ++ token.text.toList ++ rest ∧
        byteLength passed = reachedAfter 0 front ∧
        Tile (openAfterAll [] front) (byteLength passed) gap token rest := by
  have tiled : Tiled 0 [] source.toList tokens := tokensFrom_tiled success
  refine ⟨tiled.pairwise, ?_, ?_⟩
  · obtain ⟨body, last, split, ended, placed, others⟩ := tiled.ends
    rw [Nat.zero_add] at placed
    exact ⟨body, last, split, ended, placed, others⟩
  · intro front token back split
    obtain ⟨passed, gap, rest, shape, reached, tile⟩ := tiled.tile split
    rw [Nat.zero_add] at reached tile
    exact ⟨passed, gap, rest, shape, reached, tile⟩

/-- The line end before a closing parenthesis is a gap, and the comment after it is another. -/
theorem tokens_tile_source_of_call :
    tokenize "f(1\n)//b" =
      .ok [.place .identifier "f" 0 1 1, .place (.opening .paren) "(" 1 1 2,
        .place (.literal .integer) "1" 2 1 3, .place (.closing .paren) ")" 4 2 1,
        .place .endOfInput "" 8 2 5] ∧
    (∃ passed gap rest, "f(1\n)//b".toList = passed ++ gap ++ [')'] ++ rest ∧
      byteLength passed = 3 ∧
      Tile [.paren] (byteLength passed) gap (.place (.closing .paren) ")" 4 2 1) rest) ∧
    ∃ passed gap rest, "f(1\n)//b".toList = passed ++ gap ++ [] ++ rest ∧ byteLength passed = 5 ∧
      Tile [] (byteLength passed) gap (.place .endOfInput "" 8 2 5) rest := by
  have success : tokenize "f(1\n)//b" =
      .ok [.place .identifier "f" 0 1 1, .place (.opening .paren) "(" 1 1 2,
        .place (.literal .integer) "1" 2 1 3, .place (.closing .paren) ")" 4 2 1,
        .place .endOfInput "" 8 2 5] := by
    rfl
  have tiles := (tokens_tile_source success).2.2
  exact ⟨success, tiles [_, _, _] _ [_] rfl, tiles [_, _, _, _] _ [] rfl⟩

end GroovyTidy
