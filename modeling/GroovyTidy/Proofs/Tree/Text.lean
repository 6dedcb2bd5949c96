import GroovyTidy.Proofs.Token.Truncated
import GroovyTidy.Proofs.Tree.Nesting
import GroovyTidy.Proofs.Tree.Places

set_option autoImplicit false

/-!
The texts of nodes. The text of a node has the texts of its tokens, next to one another where they
are so in the source and with one space where the source has any gap. It is read as the same tokens
again. A token depends on what follows it only up to the next gap, and what is open inside a node is
known without the source around it, since delimiters nest.
-/
namespace GroovyTidy

open Text Lexeme

/-! ## Tokens in front of a blank -/

namespace Lexeme

variable {endsStatements shown : Bool} {c : Char} {front rest other tail : List Char}
  {kind : TokenKind} {length : Nat}

theorem TokenAt.shows (found : TokenAt endsStatements c rest kind length)
    (visible : kind = .newline → shown = true) : TokenAt shown c rest kind length := by
  cases found with
  | lineEnd ended => exact .lineEnd ended (visible rfl)
  | word started => exact .word started
  | number digit => exact .number digit
  | string extent quote inside => exact .string extent quote inside
  | punctuation kind length inside => exact .punctuation kind length inside

theorem lineEndLength_append_blank (ended : isLineEnd c.toNat = true)
    (blank : ∀ d ∈ tail.head?, isBlank d.toNat = true) :
    lineEndLength (c :: (rest ++ tail)) = lineEndLength (c :: rest) := by
  rw [lineEndLength_cons ended, lineEndLength_cons ended]
  cases rest with
  | nil =>
    have noFeed : tail.head? ≠ some '\n' := by
      intro feed
      have white := blank '\n' feed
      cases white
    simp [noFeed]
  | cons d rest => rfl

/-- A token in front of a blank is found without what follows it. -/
theorem TokenAt.append_blank (found : TokenAt endsStatements c rest kind length)
    (blank : ∀ d ∈ tail.head?, isBlank d.toNat = true) :
    TokenAt endsStatements c (rest ++ tail) kind length := by
  have ends : EndsToken tail := fun d first => .inl (blank d first)
  cases found with
  | lineEnd ended shown =>
    have again : TokenAt endsStatements c (rest ++ tail) .newline _ := .lineEnd ended shown
    rwa [lineEndLength_append_blank ended blank] at again
  | word started =>
    have run : wordLength (c :: rest) ≤ (c :: rest).length := Number.runLength_le _ _
    have again : TokenAt endsStatements c (rest ++ tail) _ _ := .word started
    rwa [← List.cons_append, wordLength_append ends, List.take_append_of_le_length run] at again
  | number digit =>
    have again : TokenAt endsStatements c (rest ++ tail) _ _ := .number digit
    rwa [← List.cons_append, Number.leading_append ends] at again
  | string extent quote inside =>
    refine .string extent quote ?_
    cases tail with
    | nil => rwa [List.append_nil]
    | cons d tail =>
      have white := blank d rfl
      apply StringLiteral.leading_append _ inside
      rcases quote with rfl | rfl
      · rintro rfl
        cases white
      · rintro rfl
        cases white
  | punctuation kind length inside =>
    have cut := punctuation?_cut (rest.drop (length - 1) ++ tail) inside
    rw [← List.append_assoc, List.take_append_drop] at cut
    exact .punctuation kind length cut

end Lexeme

/-- The second text goes on like the first one up to a blank or up to its own end. -/
def AlikeToBlank (text other : List Char) : Prop :=
  ∃ shared left right, text = shared ++ left ∧ other = shared ++ right ∧
    ∀ c ∈ right.head?, isBlank c.toNat = true

namespace AlikeToBlank

theorem nil (text : List Char) : AlikeToBlank text [] :=
  ⟨[], text, [], rfl, rfl, by simp⟩

theorem blank (text : List Char) {c : Char} (known : isBlank c.toNat = true) (other : List Char) :
    AlikeToBlank text (c :: other) := by
  refine ⟨[], text, c :: other, rfl, rfl, ?_⟩
  intro d first
  cases first
  exact known

theorem append (front : List Char) {text other : List Char} (alike : AlikeToBlank text other) :
    AlikeToBlank (front ++ text) (front ++ other) := by
  obtain ⟨shared, left, right, rfl, rfl, blank⟩ := alike
  exact ⟨front ++ shared, left, right, by rw [List.append_assoc], by rw [List.append_assoc], blank⟩

/-- A token is the same where the text goes on alike up to a blank. -/
theorem tokenAt {rest other : List Char} (alike : AlikeToBlank rest other) {ends shown : Bool}
    {c : Char} {front : List Char} {kind : TokenKind}
    (found : TokenAt ends c (front ++ rest) kind (c :: front).length)
    (visible : kind = .newline → shown = true) :
    TokenAt shown c (front ++ other) kind (c :: front).length := by
  obtain ⟨shared, left, right, rfl, rfl, blank⟩ := alike
  have near :
      TokenAt ends c ((front ++ (shared ++ left)).take (front ++ shared).length) kind
        (c :: front).length := by
    apply found.take
    simp only [List.length_cons, List.length_append]
    omega
  rw [← List.append_assoc, List.take_left] at near
  rw [← List.append_assoc]
  exact (near.append_blank blank).shows visible

end AlikeToBlank

/-! ## One token of a text -/

/-- The first token of a text: what is passed over before it, and the tokens of what follows it. -/
theorem tokensFrom_cons {index : LineIndex} {offset : Nat} {opened : List Delimiter} {skipped : Nat}
    {text : List Char} {first : Token} {tokens : List Token} (more : tokens ≠ [])
    (success : tokensFrom index offset opened skipped text = .ok (first :: tokens)) :
    ∃ gap c front rest, text.drop skipped = gap ++ (c :: (front ++ rest)) ∧
      first.text.toList = c :: front ∧
      first.span.start = offset + byteLength (text.take skipped) + byteLength gap ∧
      TokenAt (endsStatements opened) c (front ++ rest) first.kind (c :: front).length ∧
      tokensFrom index first.span.stop (openAfter opened first.kind) 0 rest = .ok tokens := by
  fun_induction tokensFrom index offset opened skipped text with
  | case1 => simp [more.symm] at success
  | case2 offset opened skipped c rest ih =>
    obtain ⟨gap, d, front, after, shape, spelled, placed, found, later⟩ := ih success
    refine ⟨gap, d, front, after, shape, spelled, ?_, found, later⟩
    rw [placed, List.take_succ_cons, byteLength_cons, Nat.add_assoc offset]
  | case3 => cases success
  | case4 offset opened c rest length found ih =>
    obtain ⟨gap, d, front, after, shape, spelled, placed, here, later⟩ := ih success
    refine ⟨c :: (rest.take (length - 1) ++ gap), d, front, after, ?_, spelled, ?_, here, later⟩
    · rw [List.drop_zero, List.cons_append, List.append_assoc, ← shape, List.take_append_drop]
    · rw [placed, List.take_zero, byteLength_nil, byteLength_cons, byteLength_append]
      omega
  | case5 => cases success
  | case6 offset opened c rest kind length found token others following ih =>
    rw [Except.ok.injEq, List.cons.injEq] at success
    obtain ⟨rfl, rfl⟩ := success
    have here := tokenAt_of_leading found
    have bounds := here.length_bounds
    have text : (c :: rest).take length = c :: rest.take (length - 1) := take_pos bounds.1
    have size : (c :: rest.take (length - 1)).length = length := by
      rw [← text, List.length_take, Nat.min_eq_left bounds.2]
    have span := placeToken_span index kind (String.ofList ((c :: rest).take length)) offset
    refine ⟨[], c, rest.take (length - 1), rest.drop (length - 1), ?_, ?_, ?_, ?_, ?_⟩
    · rw [List.drop_zero, List.take_append_drop, List.nil_append]
    · rw [placeToken_toList, text]
    · rw [span]
      simp
    · rw [List.take_append_drop, size]
      exact here
    · rw [tokensFrom_drop] at following
      rw [span, String.toList_ofList, text, byteLength_cons, ← Nat.add_assoc]
      exact following

/-! ## Spellings of a text without its surroundings -/

theorem endsStatements_of_append {inner outer : List Delimiter}
    (ends : endsStatements (inner ++ outer) = true) : endsStatements inner = true := by
  cases inner with
  | nil => rfl
  | cons innermost inner =>
    cases innermost with
    | brace => rfl
    | paren | bracket => cases ends

/-- What is open outside stays open as long as only inner delimiters are closed. -/
theorem openAfter_append {inner next : List Delimiter} {kind : TokenKind}
    (found : trulyOpenAfter? inner kind = some next) (outer : List Delimiter) :
    openAfter (inner ++ outer) kind = next ++ outer := by
  have same := openAfter_of_trulyOpenAfter? found
  cases kind with
  | closing delimiter =>
    cases inner with
    | nil => cases found
    | cons innermost inner =>
      rw [← same]
      rfl
  | _ =>
    rw [← same]
    rfl

theorem spellingsFrom_skip (opened : List Delimiter) (front text : List Char) :
    spellingsFrom false opened front.length (front ++ text) =
      spellingsFrom false opened 0 text := by
  induction front with
  | nil => rfl
  | cons c front ih => exact ih

section

variable {opened : List Delimiter} {c : Char} {front text : List Char} {kind : TokenKind}
  {spellings : List Spelling}

theorem spellingsFrom_token (atStart : Bool)
    (found : TokenAt (endsStatements opened) c (front ++ text) kind (c :: front).length)
    (later : spellingsFrom false (openAfter opened kind) 0 text = some spellings) :
    spellingsFrom atStart opened 0 (c :: (front ++ text)) =
      some ((kind, String.ofList (c :: front)) :: spellings) := by
  have taken : (c :: (front ++ text)).take (c :: front).length = c :: front := by
    rw [← List.cons_append, List.take_left]
  rw [spellingsFrom, leading_of_tokenAt found]
  dsimp only
  rw [taken, List.length_cons, Nat.add_sub_cancel, spellingsFrom_skip, later, Option.map_some]

theorem spellingsFrom_space (filled : isBlank c.toNat = false) (text : List Char) :
    spellingsFrom false opened 0 (' ' :: c :: text) = spellingsFrom false opened 0 (c :: text) := by
  have known : isBlank ' '.toNat = true := rfl
  have run : Number.runLength (fun b => isBlank b.toNat) (' ' :: c :: text) = 1 := by
    rw [Number.runLength_cons, if_pos known, Number.runLength_cons, filled]
    rfl
  rw [spellingsFrom, leading_of_gapAt (.blanks known), run]

end

/-! ## Tokens with a space for each gap -/

theorem ne_empty_of_toList {text : String} {c : Char} {rest : List Char}
    (shape : text.toList = c :: rest) : text ≠ "" := by
  rintro rfl
  cases shape

theorem byteLength_pos {text : List Char} (filled : text ≠ []) : 0 < byteLength text := by
  obtain ⟨c, rest, rfl⟩ := List.exists_cons_of_ne_nil filled
  have size := c.utf8Size_pos
  rw [byteLength_cons]
  omega

theorem Node.spaced_cons (stop : Option Nat) {first : Token} (filled : first.text ≠ "")
    (rest : List Token) :
    spaced stop (first :: rest) =
      (if stop.any (· < first.span.start) then " " else "") ++ first.text ++
        spaced (some first.span.stop) rest := by
  rw [spaced, if_neg]
  rwa [String.isEmpty_iff]

/-- A token of a source in front of a text that goes on like the source, with fewer delimiters
open. -/
theorem spellingsFrom_first (atStart : Bool) {inner outer next : List Delimiter} {first : Token}
    {c : Char} {front rest other : List Char} {spellings : List Spelling}
    (spelled : first.text.toList = c :: front)
    (found : TokenAt (endsStatements (inner ++ outer)) c (front ++ rest) first.kind
      (c :: front).length) (opens : trulyOpenAfter? inner first.kind = some next)
    (alike : AlikeToBlank rest other) (read : spellingsFrom false next 0 other = some spellings) :
    spellingsFrom atStart inner 0 (first.text.toList ++ other) =
      some (first.spelling :: spellings) := by
  have visible : first.kind = .newline → endsStatements inner = true := by
    intro newline
    rw [newline] at found
    exact endsStatements_of_append found.lineEnd_of_newline.2.2
  have spelling : (first.kind, String.ofList (c :: front)) = first.spelling := by
    rw [← spelled, String.ofList_toList]
    rfl
  rw [← openAfter_of_trulyOpenAfter? opens] at read
  rw [spelled, ← spelling]
  exact spellingsFrom_token atStart (alike.tokenAt found visible) read

/-- The texts of tokens with a space for each gap between them are read as these tokens, with no
more delimiters open before them than they close. The induction is on the tokens. It carries along
that what is put together from the tokens goes on like the source up to the next gap, so that each
token is found in front of it. -/
theorem spaced_reads {index : LineIndex} {offset : Nat} {inner outer left : List Delimiter}
    {text : List Char} {tokens after : List Token} (more : after ≠ [])
    (success : tokensFrom index offset (inner ++ outer) 0 text = .ok (tokens ++ after))
    (nested : trulyOpen? inner tokens = some left) :
    AlikeToBlank text (Node.spaced (some offset) tokens).toList ∧
      spellingsFrom false inner 0 (Node.spaced (some offset) tokens).toList =
        some (tokens.map Token.spelling ++ [(.endOfInput, "")]) := by
  induction tokens generalizing offset inner text with
  | nil => exact ⟨.nil text, rfl⟩
  | cons first tokens ih =>
    obtain ⟨gap, c, front, rest, shape, spelled, placed, found, later⟩ :=
      tokensFrom_cons (by simp [more]) success
    obtain ⟨next, opens, closes⟩ := Option.bind_eq_some_iff.mp nested
    rw [openAfter_append opens] at later
    obtain ⟨alike, read⟩ := ih later closes
    have whole := spellingsFrom_first false spelled found opens alike read
    rw [List.drop_zero] at shape
    rw [List.take_zero, byteLength_nil, Nat.add_zero] at placed
    rw [Node.spaced_cons _ (ne_empty_of_toList spelled), placed, String.toList_append,
      String.toList_append, List.append_assoc]
    by_cases adjacent : gap = []
    · subst adjacent
      rw [if_neg (by simp)]
      refine ⟨?_, whole⟩
      rw [shape, spelled]
      exact alike.append (c :: front)
    · have apart : (some offset).any (· < offset + byteLength gap) = true := by
        simpa using byteLength_pos adjacent
      rw [if_pos apart]
      refine ⟨.blank text rfl _, ?_⟩
      rw [spelled] at whole ⊢
      exact (spellingsFrom_space found.not_blank _).trans whole

/-- The texts of tokens that nest are read as these tokens, wherever they stand in a source. -/
theorem tokenize_spaced {source : String} {before tokens after : List Token} (more : after ≠ [])
    (success : tokenize source = .ok (before ++ (tokens ++ after)))
    (nested : trulyOpen? [] tokens = some []) :
    ∃ again, tokenize (Node.spaced none tokens) = .ok again ∧
      again.map Token.spelling = tokens.map Token.spelling ++ [(.endOfInput, "")] := by
  apply tokenize_of_spellingsFrom
  cases tokens with
  | nil => rfl
  | cons first tokens =>
    obtain ⟨reached, skipped, text, -, starts⟩ := tokensFrom_split (List.cons_ne_nil _ _) success
    obtain ⟨gap, c, front, rest, -, spelled, -, found, later⟩ :=
      tokensFrom_cons (by simp [more]) starts
    obtain ⟨next, opens, closes⟩ := Option.bind_eq_some_iff.mp nested
    rw [← List.nil_append (openAfterAll [] before)] at found later
    rw [openAfter_append opens] at later
    obtain ⟨alike, read⟩ := spaced_reads more later closes
    rw [Node.spaced_cons _ (ne_empty_of_toList spelled), if_neg (by simp), String.toList_append,
      String.toList_append]
    exact spellingsFrom_first true spelled found opens alike read

/-! ## Nodes -/

theorem trulyOpen?_filter {test : Token → Bool} {tokens : List Token}
    (others : ∀ token ∈ tokens, test token = false → token.kind.isDelimiter = false)
    (opened : List Delimiter) :
    trulyOpen? opened (tokens.filter test) = trulyOpen? opened tokens := by
  induction tokens generalizing opened with
  | nil => rfl
  | cons first tokens ih =>
    obtain ⟨here, later⟩ := List.forall_mem_cons.mp others
    rw [List.filter_cons]
    split
    · rw [trulyOpen?, trulyOpen?]
      congr 1
      funext next
      exact ih later next
    · rename_i dropped
      rw [trulyOpen?, trulyOpenAfter?_other (here (by simpa using dropped)), Option.bind_some]
      exact ih later opened

/-- The end of input adds nothing to the text of a node. -/
theorem Node.spaced_filter {tokens : List Token}
    (empty : ∀ token ∈ tokens, token.kind = .endOfInput → token.text = "") (stop : Option Nat) :
    spaced stop (tokens.filter fun token => token.kind ≠ .endOfInput) = spaced stop tokens := by
  induction tokens generalizing stop with
  | nil => rfl
  | cons first tokens ih =>
    obtain ⟨here, later⟩ := List.forall_mem_cons.mp empty
    by_cases ended : first.kind = .endOfInput
    · rw [List.filter_cons_of_neg (by simp [ended]), ih later, spaced, here ended]
      rfl
    · rw [List.filter_cons_of_pos (by simp [ended]), spaced, spaced, ih later, ih later]

/-- The tokens of a child stand together among those of its node. -/
theorem Node.tokens_infix {node child : Node} (member : child ∈ node.childNodes) :
    child.tokens <:+: node.tokens := by
  obtain ⟨front, back, shape⟩ := List.append_of_mem (Node.mem_childNodes member)
  refine ⟨Tree.forestTokens front, Tree.forestTokens back, ?_⟩
  rw [Node.tokens, Node.tokens, shape, Tree.forestTokens_append, Tree.forestTokens,
    List.append_assoc]
  rfl

section

variable {source : String} {body : List Token} {last : Token}

/-- Without the end of input, the tokens of a source are those before it. -/
theorem filter_tokens (ended : last.kind = .endOfInput)
    (filled : ∀ token ∈ body, token.kind ≠ .endOfInput) :
    (body ++ [last]).filter (fun token => token.kind ≠ .endOfInput) = body := by
  rw [List.filter_append, List.filter_eq_self.mpr (by simpa using filled),
    List.filter_cons_of_neg (by simp [ended]), List.filter_nil, List.append_nil]

theorem tokenize_text (lexed : tokenize source = .ok (body ++ [last]))
    (spelled : last.spelling = (.endOfInput, ""))
    (filled : ∀ token ∈ body, token.kind ≠ .endOfInput) {node : Node}
    (conforms : node.tree.Conforms) (inside : node.tokens <:+: body ++ [last]) :
    ∃ again, tokenize node.text = .ok again ∧
      again.map Token.spelling =
        (node.tokens.filter fun token => token.kind ≠ .endOfInput).map Token.spelling ++
          [(.endOfInput, "")] := by
  have ended : last.kind = .endOfInput := congrArg Prod.fst spelled
  have empty : ∀ token ∈ node.tokens, token.kind = .endOfInput → token.text = "" := by
    intro token member atEnd
    rcases List.mem_append.mp (inside.subset member) with early | final
    · exact absurd atEnd (filled token early)
    · rw [List.mem_singleton.mp final]
      exact congrArg Prod.snd spelled
  have nested : trulyOpen? [] (node.tokens.filter fun token => token.kind ≠ .endOfInput) =
      some [] := by
    rw [trulyOpen?_filter]
    · exact conforms.nested.trulyOpen?_eq []
    · intro token _ dropped
      have atEnd : token.kind = .endOfInput := by simpa using dropped
      rw [atEnd]
      rfl
  obtain ⟨before, after, shape⟩ := inside.filter fun token => token.kind ≠ .endOfInput
  rw [filter_tokens ended filled] at shape
  rw [← shape, List.append_assoc, List.append_assoc] at lexed
  have read := tokenize_spaced (by simp) lexed nested
  rwa [Node.spaced_filter empty] at read

end

/-- The text of every node of a source that the grammar accepts has the tokens of the node, and the
text of the whole unit has the same tree up to places. -/
theorem node_text_faithful {source : String} {unit : Node} (success : parse source = .ok unit) :
    (∀ node ∈ unit.preorder, ∃ tokens, tokenize node.text = .ok tokens ∧
      tokens.map Token.spelling =
        (node.tokens.filter fun token => token.kind ≠ .endOfInput).map Token.spelling ++
          [(.endOfInput, "")]) ∧
    ∃ again, parse unit.text = .ok again ∧ again.unplaced = unit.unplaced := by
  obtain ⟨tokens, lexed, read⟩ := parse_eq_ok success
  have kept : unit.tokens = tokens := by
    rw [tokens_of_parseTokens read, throughEnd_of_tokenize lexed]
  obtain ⟨body, last, rfl, spelled, legible, -⟩ := tokensFrom_legible lexed
  have ended : last.kind = .endOfInput := congrArg Prod.fst spelled
  have filled : ∀ token ∈ body, token.kind ≠ .endOfInput :=
    fun token member => (legible token member).kind_ne_endOfInput
  have root : unit.tree.Conforms ∧ unit.tokens <:+: body ++ [last] :=
    ⟨(parseTokens_conforms read).2, kept ▸ List.infix_refl _⟩
  have below : ∀ node ∈ unit.preorder, node.tree.Conforms ∧ node.tokens <:+: body ++ [last] := by
    refine Node.forall_preorder (fun node child given member => ?_) root
    exact ⟨given.1.children _ (Node.mem_childNodes member),
      (Node.tokens_infix member).trans given.2⟩
  refine ⟨fun node member =>
      tokenize_text lexed spelled filled (below node member).1 (below node member).2, ?_⟩
  obtain ⟨others, relexed, same⟩ := tokenize_text lexed spelled filled root.1 root.2
  have whole : others.map Token.spelling = (body ++ [last]).map Token.spelling := by
    rw [same, kept, filter_tokens ended filled, List.map_append, List.map_singleton, spelled]
  obtain ⟨again, reread, unplaced⟩ := parseTokens_of_spellings ended read whole
  exact ⟨again, (parse_of_tokenize relexed).trans reread, unplaced⟩

/-- A number next to a dot, comments, a line continuation, and line ends inside brackets and inside
a closure. -/
theorem node_text_faithful_of_closure :
    ∃ unit, parse "y=1.f(a[\r2],/**/\n'',b) \x7bc ->// d\n  e \\\n1\r\x7d" = .ok unit ∧
      unit.text = "y=1.f(a[ 2], '',b) \x7bc -> \n e 1\r\x7d" ∧
      (∀ node ∈ unit.preorder, ∃ tokens, tokenize node.text = .ok tokens ∧
        tokens.map Token.spelling =
          (node.tokens.filter fun token => token.kind ≠ .endOfInput).map Token.spelling ++
            [(.endOfInput, "")]) ∧
      ∃ again, parse unit.text = .ok again ∧ again.unplaced = unit.unplaced := by
  have shown :
      ((parse "y=1.f(a[\r2],/**/\n'',b) \x7bc ->// d\n  e \\\n1\r\x7d").toOption.map Node.text) =
      some "y=1.f(a[ 2], '',b) \x7bc -> \n e 1\r\x7d" := by
    decide +kernel
  cases parsed : parse "y=1.f(a[\r2],/**/\n'',b) \x7bc ->// d\n  e \\\n1\r\x7d" with
  | ok unit =>
    rw [parsed] at shown
    exact ⟨unit, rfl, Option.some.inj shown, node_text_faithful parsed⟩
  | error error =>
    rw [parsed] at shown
    cases shown

end GroovyTidy
