import GroovyTidy.Proofs.Token.Lexeme

set_option autoImplicit false

/-!
Spellings: kinds and texts of tokens without their places. Every token of a source has a text that
is a token of its kind by itself, and a text put together from such spellings is read back as these,
whatever blanks stand between them, as long as no first character of what follows a token goes on
with it.
-/
namespace GroovyTidy

open Text Lexeme

/-- The kind and the text of a token. -/
abbrev Spelling := TokenKind × String

def Token.spelling (token : Token) : Spelling :=
  (token.kind, token.text)

/-- The text by itself is one token of the kind. -/
def Spelling.Legible (spelling : Spelling) : Prop :=
  ∃ c rest, spelling.2.toList = c :: rest ∧ TokenAt true c rest spelling.1 (c :: rest).length

/-- What the first character of a text says about the kind of token that it is. -/
inductive Spelling.Form (c : Char) : Spelling → Prop where
  | lineEnd (text : String) (ended : isLineEnd c.toNat = true) : Spelling.Form c (.newline, text)
  | word (text : String) (started : isIdentifierStart c.toNat = true) :
      Spelling.Form c (.ofWord text, text)
  | number (text : String) (form : LiteralForm) (digit : isDigit c.toNat = true)
      (numeric : form = .integer ∨ form = .floating) : Spelling.Form c (.literal form, text)
  | string (text : String) (form : LiteralForm) (quote : c = '\'' ∨ c = '"')
      (quoted : form = .string ∨ form = .interpolated) : Spelling.Form c (.literal form, text)
  | punctuation (kind : TokenKind) (text : String) (head : text.toList.head? = some c)
      (fixed : kind.fixedText? = some text) : Spelling.Form c (kind, text)

namespace Spelling.Legible

variable {spelling : Spelling} {kind : TokenKind} {text : String}

theorem of_tokenAt {ends : Bool} {c : Char} {rest : List Char} {length : Nat}
    (found : TokenAt ends c rest kind length) :
    Legible (kind, String.ofList ((c :: rest).take length)) := by
  have bounds := found.length_bounds
  have alone : TokenAt true c (rest.take (length - 1) ++ []) kind length :=
    found.cut (fun _ first => nomatch first) (fun _ => rfl)
  rw [List.append_nil] at alone
  refine ⟨c, rest.take (length - 1), ?_, ?_⟩
  · rw [String.toList_ofList, take_pos bounds.1]
  · have whole : (c :: rest.take (length - 1)).length = length := by
      rw [← take_pos bounds.1, List.length_take]
      omega
    rwa [whole]

/-- Whatever follows a spelling without going on with it, the same token is found. -/
theorem tokenAt (legible : Legible spelling) {tail : List Char} {ends : Bool}
    (stops : stopsAt (spelling.1.goesOn spelling.2.toList) tail)
    (visible : spelling.1 = .newline → ends = true) :
    ∃ c rest, spelling.2.toList = c :: rest ∧
      TokenAt ends c (rest ++ tail) spelling.1 spelling.2.toList.length := by
  obtain ⟨c, rest, shape, found⟩ := legible
  rw [shape] at stops
  have again :
      TokenAt ends c (rest.take ((c :: rest).length - 1) ++ tail) spelling.1
        (c :: rest).length := by
    refine found.cut ?_ visible
    rwa [List.take_length]
  rw [List.length_cons, Nat.add_sub_cancel, List.take_length] at again
  exact ⟨c, rest, shape, by rwa [shape]⟩

theorem fixedText?_of_punctuation? {c : Char} {rest : List Char}
    (found : punctuation? (c :: rest) = some (kind, (c :: rest).length)) :
    kind.fixedText? = some (String.ofList (c :: rest)) := by
  generalize lengthDef : (c :: rest).length = length at found
  unfold punctuation? at found
  split at found
  all_goals first
    | (rename_i shape
       rw [shape] at lengthDef ⊢
       cases found
       simp only [List.length_cons, Nat.reduceEqDiff, List.length_eq_zero_iff, Nat.add_eq_right]
         at lengthDef
       subst lengthDef
       rfl)
    | cases found

/-- The form of a legible spelling by its first character. -/
theorem form (legible : Legible spelling) :
    ∃ c rest, spelling.2.toList = c :: rest ∧ Form c spelling := by
  obtain ⟨c, rest, shape, found⟩ := legible
  refine ⟨c, rest, shape, ?_⟩
  obtain ⟨kind, text⟩ := spelling
  obtain rfl : text = String.ofList (c :: rest) := by
    rw [← shape, String.ofList_toList]
  dsimp only at found
  generalize lengthDef : (c :: rest).length = length at found
  cases found with
  | lineEnd ended => exact .lineEnd _ ended
  | word started =>
    rw [← lengthDef, List.take_length]
    exact .word _ started
  | number digit => exact .number _ _ digit (number_form _)
  | string extent quote inside => exact .string _ _ quote (by cases extent.interpolated <;> simp)
  | punctuation _ _ inside =>
    rw [← lengthDef] at inside
    exact .punctuation _ _ (by rw [shape, List.head?_cons]) (fixedText?_of_punctuation? inside)

theorem kind_ne_endOfInput (legible : Legible spelling) : spelling.1 ≠ .endOfInput := by
  obtain ⟨c, rest, -, form⟩ := legible.form
  cases form with
  | lineEnd | number | string => simp
  | word text =>
    intro ended
    have word := TokenKind.ofWord_isWord text
    rw [show TokenKind.ofWord text = .endOfInput from ended] at word
    cases word
  | punctuation kind text _ fixed =>
    rintro rfl
    cases fixed

/-- All tokens of some kinds read alike. -/
theorem text_of_fixed (legible : Legible spelling) {text : String}
    (fixed : spelling.1.fixedText? = some text) : spelling.2 = text := by
  obtain ⟨c, rest, -, form⟩ := legible.form
  cases form with
  | lineEnd | number | string => cases fixed
  | word word =>
    rw [TokenKind.fixedText?_of_isWord (TokenKind.ofWord_isWord word)] at fixed
    cases fixed
  | punctuation kind found _ known =>
    rw [known] at fixed
    exact Option.some.inj fixed

theorem text_of_package (legible : Legible spelling) (package : spelling.1 = .packageWord) :
    spelling.2 = "package" := by
  obtain ⟨c, rest, -, form⟩ := legible.form
  cases form with
  | lineEnd | number | string => cases package
  | word word => exact TokenKind.eq_of_ofWord package
  | punctuation kind found _ known =>
    rw [show kind = .packageWord from package] at known
    cases known

/-- A token that is no separator starts with a character that shows. -/
theorem head_shows (legible : Legible spelling) (inside : spelling.1.isSeparator = false) :
    ∃ c rest, spelling.2.toList = c :: rest ∧ isWhiteSpace c.toNat = false ∧ c ≠ ';' := by
  obtain ⟨c, rest, shape, form⟩ := legible.form
  refine ⟨c, rest, shape, ?_⟩
  cases form with
  | lineEnd => cases inside
  | word text started =>
    have known := not_whiteSpace_of_identifierStart started
    refine ⟨known, ?_⟩
    rintro rfl
    cases started
  | number text form digit =>
    refine ⟨not_whiteSpace_of_digit digit, ?_⟩
    rintro rfl
    cases digit
  | string text form quote => rcases quote with rfl | rfl <;> decide
  | punctuation kind text head fixed =>
    have other : kind ≠ .semicolon := by
      rintro rfl
      cases inside
    unfold TokenKind.fixedText? at fixed
    split at fixed
    all_goals first
      | (cases fixed
         cases head
         decide)
      | exact absurd rfl other
      | cases fixed

end Spelling.Legible

/-! ## Tokens of a text -/

/-- The characters that still belong to the lexeme before are passed over. -/
theorem tokensFrom_drop (index : LineIndex) (offset : Nat) (opened : List Delimiter) (skipped : Nat)
    (text : List Char) :
    tokensFrom index offset opened skipped text =
      tokensFrom index (offset + byteLength (text.take skipped)) opened 0 (text.drop skipped) := by
  induction skipped generalizing offset text with
  | zero => simp
  | succ skipped ih =>
    cases text with
    | nil => simp [tokensFrom]
    | cons c rest =>
      rw [tokensFrom, ih, List.take_succ_cons, List.drop_succ_cons, byteLength_cons, Nat.add_assoc]

/-- The tokens of a text are legible and follow one another in it, and an end of input follows
them. -/
theorem tokensFrom_legible {index : LineIndex} {offset : Nat} {opened : List Delimiter}
    {skipped : Nat} {text : List Char} {tokens : List Token}
    (success : tokensFrom index offset opened skipped text = .ok tokens) :
    ∃ body last, tokens = body ++ [last] ∧ last.spelling = (.endOfInput, "") ∧
      (∀ token ∈ body, token.spelling.Legible) ∧
      (body.flatMap fun token => token.text.toList).Sublist (text.drop skipped) := by
  fun_induction tokensFrom index offset opened skipped text generalizing tokens with
  | case1 offset opened skipped =>
    cases success
    exact ⟨[], _, rfl, rfl, by simp, by simp⟩
  | case2 offset opened skipped c rest ih =>
    rw [List.drop_succ_cons]
    exact ih success
  | case3 => cases success
  | case4 offset opened c rest length found ih =>
    obtain ⟨body, last, rfl, ended, legible, inside⟩ := ih success
    refine ⟨body, last, rfl, ended, legible, inside.trans ?_⟩
    exact (List.drop_sublist _ _).trans (List.sublist_cons_self _ _)
  | case5 => cases success
  | case6 offset opened c rest kind length found token tokens more =>
    rename_i ih
    cases success
    have here := tokenAt_of_leading found
    obtain ⟨body, last, rfl, ended, legible, inside⟩ := ih more
    refine ⟨token :: body, last, rfl, ended, ?_, ?_⟩
    · exact List.forall_mem_cons.mpr ⟨.of_tokenAt here, legible⟩
    · have split : (c :: rest).drop 0 = (c :: rest).take length ++ rest.drop (length - 1) := by
        obtain ⟨k, rfl⟩ := Nat.exists_eq_succ_of_ne_zero (Nat.ne_of_gt here.length_bounds.1)
        simp
      rw [split, List.flatMap_cons]
      refine List.Sublist.append ?_ inside
      simp [token, placeToken, Token.place]

/-- The spellings in a text, after the delimiters that are open before it: between them stand
blanks, and no character right after one goes on with it. -/
inductive Written : List Delimiter → List Char → List Spelling → Prop where
  | nil (opened : List Delimiter) : Written opened [] []
  | blank {opened : List Delimiter} {c : Char} {text : List Char} {spellings : List Spelling}
      (known : isBlank c.toNat = true) (rest : Written opened text spellings) : Written opened
      (c :: text) spellings
  | token {opened : List Delimiter} {spelling : Spelling} {text : List Char}
      {spellings : List Spelling} (legible : spelling.Legible)
      (stops : stopsAt (spelling.1.goesOn spelling.2.toList) text)
      (visible : spelling.1 = .newline → endsStatements opened = true)
      (rest : Written (openAfter opened spelling.1) text spellings) :
      Written opened (spelling.2.toList ++ text) (spelling :: spellings)

/-- A written text is read back as its spellings. The induction leaves open how many of the blanks
in front are passed over already. -/
theorem Written.tokensFrom {opened : List Delimiter} {text : List Char} {spellings : List Spelling}
    (written : Written opened text spellings) (index : LineIndex) (offset skipped : Nat)
    (short : skipped ≤ Number.runLength (fun c => isBlank c.toNat) text) :
    ∃ tokens, GroovyTidy.tokensFrom index offset opened skipped text = .ok tokens ∧
      tokens.map Token.spelling = spellings ++ [(.endOfInput, "")] := by
  induction written generalizing offset skipped with
  | nil opened => exact ⟨_, rfl, rfl⟩
  | @blank opened c text spellings known rest ih =>
    rw [Number.runLength_cons, if_pos known] at short
    cases skipped with
    | zero =>
      have gap : leading (offset == 0) (endsStatements opened) c text =
          .ok (.gap (Number.runLength (fun c => isBlank c.toNat) text + 1)) := by
        rw [leading, if_pos known, Number.runLength_cons, if_pos known]
      rw [GroovyTidy.tokensFrom, gap]
      exact ih _ _ (Nat.le_refl _)
    | succ skipped => exact ih _ _ (by omega)
  | @token opened spelling text spellings legible stops visible rest ih =>
    obtain ⟨c, front, shape, found⟩ := legible.tokenAt stops visible
    -- A token starts with no blank, so nothing in front of it is passed over.
    have filled : Number.runLength (fun c => isBlank c.toNat) (c :: (front ++ text)) = 0 := by
      rw [Number.runLength_cons, if_neg]
      simp [found.not_blank]
    rw [shape, List.cons_append, filled] at short
    obtain rfl : skipped = 0 := by omega
    obtain ⟨tokens, more, same⟩ := ih (offset + byteLength spelling.2.toList) 0 (Nat.zero_le _)
    have skip : GroovyTidy.tokensFrom index (offset + c.utf8Size) (openAfter opened spelling.1)
        (spelling.2.toList.length - 1) (front ++ text) = .ok tokens := by
      rw [tokensFrom_drop, ← more, shape]
      simp [Nat.add_assoc]
    have front : (c :: (front ++ text)).take spelling.2.toList.length = spelling.2.toList := by
      rw [shape, ← List.cons_append, List.take_left]
    refine ⟨placeToken index spelling.1 spelling.2 offset :: tokens, ?_, ?_⟩
    · rw [shape, List.cons_append, GroovyTidy.tokensFrom, leading_of_tokenAt found]
      simp only [skip, front, String.ofList_toList]
    · rw [List.map_cons, same]
      rfl

end GroovyTidy
