import GroovyTidy.Proofs.Token.Bytes
import GroovyTidy.Proofs.Token.Truncated

set_option autoImplicit false

/-!
The grammar of string literals. Between its quotes a literal consists of items, and it ends where
the closing quotes stand at the start of an item for the first time. The scanner finds exactly the
literals of this grammar, character by character and unit by unit, and it refuses a quote exactly if
no literal starts there.
-/
namespace GroovyTidy

open Text

namespace StringLiteral

/-! ## Items -/

/-- So many open braces are closed at the end of the text and not before. -/
structure Closes (depth : Nat) (text : List Char) : Prop where
  closed : text.count '\x7d' = text.count '\x7b' + depth
  inside : ∀ front back, text = front ++ back → back ≠ [] →
    front.count '\x7d' < front.count '\x7b' + depth

/-- An item of a literal, before the rest of the text, and whether it interpolates. -/
inductive Item (quote : Char) : List Char → List Char → Bool → Prop where
  | escaped (c : Char) (rest : List Char) : Item quote ['\\', c] rest false
  | dollars (double : quote = '"') (rest : List Char) : Item quote ['$', '$'] rest false
  | block (double : quote = '"') {inner : List Char} (braces : Closes 1 inner) (rest : List Char) :
      Item quote ('$' :: '\x7b' :: inner) rest true
  | dollar (double : quote = '"') {rest : List Char}
      (alone : ∀ c ∈ rest.head?, c ≠ '$' ∧ c ≠ '\x7b') :
      Item quote ['$'] rest (rest.head?.any fun c => c.isAlpha || c == '_')
  | plain {c : Char} (notEscape : c ≠ '\\') (notDollar : ¬ (c = '$' ∧ quote = '"'))
      (rest : List Char) : Item quote [c] rest false

/-- The quotes at either end of a literal. -/
def quotes (quote : Char) (triple : Bool) : List Char :=
  if triple then [quote, quote, quote] else [quote]

/-- Items up to the closing quotes, with the text of all of them. No item starts with the closing
quotes, and between single quotes no end of a line is an item. -/
inductive Content (quote : Char) (triple : Bool) :
    List (List Char × Bool) → List Char → List Char → Prop where
  | closed (rest : List Char) : Content quote triple [] (quotes quote triple) rest
  | next {item text rest : List Char} {interpolates : Bool} {items : List (List Char × Bool)}
      (opened : ¬ quotes quote triple <+: item ++ (text ++ rest))
      (here : Item quote item (text ++ rest) interpolates)
      (inLine : triple = false → item ≠ ['\n'] ∧ item ≠ ['\r'])
      (more : Content quote triple items text rest) :
      Content quote triple ((item, interpolates) :: items) (item ++ text) rest

/-- The text before the rest is a literal. Three quotes at its start are taken together. -/
def IsLiteral (quote : Char) (literal rest : List Char) (interpolated : Bool) : Prop :=
  ∃ triple items text, (triple = true ↔ [quote, quote, quote] <+: literal ++ rest) ∧
    literal = quotes quote triple ++ text ∧ Content quote triple items text rest ∧
    interpolated = items.any Prod.snd

/-- Some literal stands at the front of the text. -/
def StartsLiteral (quote : Char) (text : List Char) : Prop :=
  ∃ literal rest interpolated, text = literal ++ rest ∧ IsLiteral quote literal rest interpolated

/-! ## Blocks -/

/-- How many braces are open after a character. -/
def depthAfter (depth : Nat) (c : Char) : Nat :=
  if c = '\x7b' then depth + 1 else if c = '\x7d' then depth - 1 else depth

/-- The mode in which so many braces are open. -/
def openMode : Nat → Mode
  | 0 => .plain
  | depth + 1 => .block (depth + 1)

/-- An extent with so many characters more before it. -/
def Extent.skip (length : Nat) (interpolates : Bool) (extent : Extent) : Extent where
  length := length + extent.length
  interpolated := interpolates || extent.interpolated

theorem Extent.skip_zero : skip 0 false = id := by
  funext extent
  simp [skip]

theorem Extent.after_eq_skip (interpolates : Bool) : after interpolates = skip 1 interpolates := by
  funext extent
  simp [after, skip, Nat.add_comm]

theorem Extent.map_skip (front back : Nat) (left right : Bool) (extent : Option Extent) :
    (extent.map (skip back right)).map (skip front left) =
      extent.map (skip (front + back) (left || right)) := by
  rw [Option.map_map]
  congr 1
  funext extent
  simp [skip, Nat.add_assoc, Bool.or_assoc]

theorem body_next {quote : Char} {triple : Bool} {mode next : Mode} {c : Char} {rest : List Char}
    {interpolates : Bool} (stepped : step quote triple mode c rest = .next next interpolates) :
    body quote triple mode (c :: rest) =
      (body quote triple next rest).map (.skip 1 interpolates) := by
  rw [body, stepped, ← Extent.after_eq_skip]

theorem closes_nil_iff {depth : Nat} : Closes depth [] ↔ depth = 0 := by
  constructor
  · intro closes
    simpa using closes.closed.symm
  · rintro rfl
    refine ⟨rfl, ?_⟩
    intro front back shape filled
    simp_all

theorem Closes.eq_nil {text : List Char} (closes : Closes 0 text) : text = [] := by
  by_contra filled
  simpa using closes.inside [] text rfl filled

/-- A character changes the count of open braces by what it adds to the counts of both kinds. -/
theorem count_depthAfter (depth : Nat) (c : Char) (text : List Char) :
    (c :: text).count '\x7d' + text.count '\x7b' + depthAfter (depth + 1) c =
      text.count '\x7d' + (c :: text).count '\x7b' + (depth + 1) := by
  unfold depthAfter
  by_cases opening : c = '\x7b'
  · subst opening
    rw [List.count_cons_self, List.count_cons_of_ne (by decide), if_pos rfl]
    omega
  by_cases closing : c = '\x7d'
  · subst closing
    rw [List.count_cons_self, List.count_cons_of_ne (by decide), if_neg (by decide), if_pos rfl]
    omega
  · rw [List.count_cons_of_ne closing, List.count_cons_of_ne opening, if_neg opening,
      if_neg closing]

theorem closes_cons_iff {depth : Nat} {c : Char} {text : List Char} :
    Closes (depth + 1) (c :: text) ↔ Closes (depthAfter (depth + 1) c) text := by
  have whole := count_depthAfter depth c text
  constructor
  · intro closes
    have closed := closes.closed
    refine ⟨by omega, ?_⟩
    intro front back shape filled
    have counted := count_depthAfter depth c front
    have inside := closes.inside (c :: front) back (by rw [shape, List.cons_append]) filled
    omega
  · intro closes
    have closed := closes.closed
    refine ⟨by omega, ?_⟩
    intro front back shape filled
    cases front with
    | nil => simp
    | cons first front =>
      obtain ⟨rfl, later⟩ := List.cons.inj shape
      have counted := count_depthAfter depth c front
      have inside := closes.inside front back later filled
      omega

section

variable {quote : Char} {triple : Bool}

theorem blockMode_eq (depth : Nat) (c : Char) :
    blockMode (depth + 1) c = openMode (depthAfter (depth + 1) c) := by
  unfold blockMode depthAfter
  split
  · rfl
  · split
    · cases depth <;> rfl
    · rfl

theorem body_block_cons (depth : Nat) (c : Char) (rest : List Char) :
    body quote triple (openMode (depth + 1)) (c :: rest) =
      (body quote triple (openMode (depthAfter (depth + 1) c)) rest).map (.skip 1 false) := by
  rw [← blockMode_eq]
  exact body_next rfl

/-- Behind the braces that close a block the literal goes on. -/
theorem body_of_closes {depth : Nat} {inner : List Char} (closes : Closes depth inner)
    (rest : List Char) :
    body quote triple (openMode depth) (inner ++ rest) =
      (body quote triple .plain rest).map (.skip inner.length false) := by
  induction inner generalizing depth with
  | nil =>
    obtain rfl := closes_nil_iff.mp closes
    rw [List.length_nil, Extent.skip_zero, Option.map_id]
    rfl
  | cons c inner ih =>
    cases depth with
    | zero => exact absurd closes.eq_nil (List.cons_ne_nil c inner)
    | succ depth =>
      rw [List.cons_append, body_block_cons, ih (closes_cons_iff.mp closes), Extent.map_skip,
        List.length_cons, Nat.add_comm]
      rfl

/-- A literal that has an end has one behind every open block. -/
theorem closes_of_body {depth : Nat} {text : List Char} {extent : Extent}
    (found : body quote triple (openMode depth) text = some extent) :
    ∃ inner rest, text = inner ++ rest ∧ Closes depth inner := by
  induction text generalizing depth extent with
  | nil => cases found
  | cons c text ih =>
    cases depth with
    | zero => exact ⟨[], c :: text, rfl, closes_nil_iff.mpr rfl⟩
    | succ depth =>
      rw [body_block_cons] at found
      obtain ⟨later, foundLater, -⟩ := Option.map_eq_some_iff.mp found
      obtain ⟨inner, rest, rfl, closes⟩ := ih foundLater
      exact ⟨c :: inner, rest, rfl, closes_cons_iff.mpr closes⟩

end

/-! ## Dollar signs -/

theorem identifierStart_lt {n : Nat} (started : isIdentifierStart n = true) : n < 0x80 := by
  simp only [isIdentifierStart, isLetter, Bool.or_eq_true, Bool.and_eq_true, decide_eq_true_eq,
    beq_iff_eq] at started
  omega

/-- A brace or a name stands after a dollar sign also if a whole character is looked at. -/
theorem startsInterpolation_eq (rest : List Char) :
    (Cursor.ofText rest).startsInterpolation =
      rest.head?.any fun c => c == '\x7b' || isIdentifierStart c.toNat := by
  cases rest with
  | nil => rfl
  | cons c rest =>
    obtain ⟨unit, seen, same, -⟩ := lookAhead?_char c rest 0
    have brace : (unit == 0x7B) = (c == '\x7b') := by
      rw [Bool.eq_iff_iff, beq_iff_eq, beq_iff_eq]
      exact same '\x7b' (by decide)
    have name : isIdentifierStart unit = isIdentifierStart c.toNat := by
      by_cases narrow : c.toNat < 0x10000
      · rw [Option.some.inj (seen.symm.trans (lookAhead?_narrow narrow rest 0))]
      · obtain ⟨high, seenThen, bound⟩ := lookAhead?_wide narrow rest 0 false
        have wide : 0xD800 ≤ unit := Option.some.inj (seen.symm.trans seenThen) ▸ bound
        rw [Bool.eq_iff_iff]
        constructor
        · intro started
          have := identifierStart_lt started
          omega
        · intro started
          have := identifierStart_lt started
          omega
    rw [Cursor.startsInterpolation, Cursor.ofText, seen, Option.any_some, brace, name]
    rfl

theorem isAlpha_eq (c : Char) : c.isAlpha = isLetter c.toNat := by
  have upper : c.isUpper = true ↔ 0x41 ≤ c.toNat ∧ c.toNat ≤ 0x5A := decide_eq_true_iff
  have lower : c.isLower = true ↔ 0x61 ≤ c.toNat ∧ c.toNat ≤ 0x7A :=
    Bool.and_eq_true_iff.trans (and_congr decide_eq_true_iff decide_eq_true_iff)
  rw [Bool.eq_iff_iff, isLetter, Bool.or_eq_true, Bool.and_eq_true, Bool.and_eq_true]
  simp only [decide_eq_true_eq]
  rw [← upper, ← lower]
  exact Bool.or_eq_true_iff

theorem isIdentifierStart_eq (c : Char) : isIdentifierStart c.toNat = (c.isAlpha || c == '_') := by
  have underscore : (c == '_') = (c.toNat == 0x5F) := by
    rw [Bool.eq_iff_iff, beq_iff_eq, beq_iff_eq]
    exact Char.toNat_inj.symm
  rw [isIdentifierStart, isAlpha_eq, underscore]

theorem dollar_alone {rest : List Char} (alone : ∀ c ∈ rest.head?, c ≠ '$' ∧ c ≠ '\x7b') :
    dollar rest = .next .plain (rest.head?.any fun c => c.isAlpha || c == '_') := by
  have before : ∀ d : Char, d.toNat < 0x80 → (∀ c ∈ rest.head?, c ≠ d) →
      (Cursor.ofText rest).isBeforeAnyOf [d] = false := by
    intro d ascii differs
    rw [Bool.eq_false_iff]
    intro stands
    obtain ⟨more, rfl⟩ := (isBeforeAnyOf_iff ascii rest).mp stands
    exact differs d rfl rfl
  have brace := before '\x7b' (by decide) fun c here => (alone c here).2
  have sign := before '$' (by decide) fun c here => (alone c here).1
  have name : (Cursor.ofText rest).startsInterpolation = rest.head?.any fun c => c.isAlpha ||
      c == '_' := by
    rw [startsInterpolation_eq]
    cases rest with
    | nil => rfl
    | cons c rest =>
      have differs := (alone c rfl).2
      simp [differs, isIdentifierStart_eq]
  rw [dollar, brace, sign, name]
  cases rest.head?.any fun c => c.isAlpha || c == '_' <;> rfl

/-! ## Contents -/

section

variable {quote : Char} {triple : Bool}

theorem body_quotes (notEscape : quote ≠ '\\') (rest : List Char) :
    body quote triple .plain (quotes quote triple ++ rest) =
      some ⟨(quotes quote triple).length, false⟩ := by
  cases triple with
  | false => simp [quotes, body, step, notEscape]
  | true => simp [quotes, body, step, notEscape]

theorem step_plain {c : Char} {rest : List Char} (notEscape : c ≠ '\\')
    (notDollar : ¬ (c = '$' ∧ quote = '"')) (opened : ¬ quotes quote triple <+: c :: rest) :
    step quote triple .plain c rest = if isLineEnd c.toNat ∧ !triple then .refuse
      else .next .plain false := by
  by_cases here : c = quote
  · subst here
    cases triple with
    | false => exact absurd (List.prefix_append [c] rest) opened
    | true =>
      have more : rest.take 2 ≠ [c, c] := by
        intro closing
        apply opened
        rw [List.prefix_iff_eq_take]
        simp [quotes, closing]
      simp [step, notEscape, more]
  · simp [step, notEscape, here, notDollar]

/-- Behind an item the literal goes on. -/
theorem body_item {item rest : List Char} {interpolates : Bool}
    (opened : ¬ quotes quote triple <+: item ++ rest) (here : Item quote item rest interpolates)
    (inLine : triple = false → item ≠ ['\n'] ∧ item ≠ ['\r']) :
    body quote triple .plain (item ++ rest) =
      (body quote triple .plain rest).map (.skip item.length interpolates) := by
  cases here with
  | escaped c =>
    have first : step quote triple .plain '\\' (c :: rest) = .next .taken false := rfl
    have second : step quote triple .taken c rest = .next .plain false := rfl
    rw [List.cons_append, List.singleton_append, body_next first, body_next second, Extent.map_skip]
    rfl
  | dollars double =>
    subst double
    have first : step '"' triple .plain '$' ('$' :: rest) = .next .taken false := rfl
    have second : step '"' triple .taken '$' rest = .next .plain false := rfl
    rw [List.cons_append, List.singleton_append, body_next first, body_next second, Extent.map_skip]
    rfl
  | @block double inner braces =>
    subst double
    have first : step '"' triple .plain '$' ('\x7b' :: (inner ++ rest)) = .next (.block 0) true :=
      rfl
    have second : step '"' triple (.block 0) '\x7b' (inner ++ rest) = .next (openMode 1) false :=
      rfl
    rw [List.cons_append, List.cons_append, body_next first, body_next second,
      body_of_closes braces, Extent.map_skip, Extent.map_skip]
    congr 2
    simp only [List.length_cons]
    omega
  | dollar double alone =>
    subst double
    have first : step '"' triple .plain '$' rest = dollar rest := rfl
    rw [dollar_alone alone] at first
    exact body_next first
  | @plain c notEscape notDollar =>
    have stepped := step_plain notEscape notDollar opened
    rw [if_neg] at stepped
    · exact body_next stepped
    · rintro ⟨ended, single⟩
      obtain ⟨feed, carriage⟩ := inLine (by simpa using single)
      rcases (isLineEnd_iff c).mp ended with rfl | rfl
      · exact feed rfl
      · exact carriage rfl

/-- A literal that has an end starts with an item, unless it is closed at once. -/
theorem item_of_body {text : List Char} {extent : Extent}
    (found : body quote triple .plain text = some extent)
    (opened : ¬ quotes quote triple <+: text) :
    ∃ item rest interpolates, text = item ++ rest ∧ Item quote item rest interpolates ∧
      (triple = false → item ≠ ['\n'] ∧ item ≠ ['\r']) := by
  cases text with
  | nil => cases found
  | cons c text =>
    by_cases escape : c = '\\'
    · subst escape
      cases text with
      | nil => cases found
      | cons d rest => exact ⟨['\\', d], rest, false, rfl, .escaped d rest, by simp⟩
    by_cases sign : c = '$' ∧ quote = '"'
    · obtain ⟨rfl, rfl⟩ := sign
      by_cases brace : text.head? = some '\x7b'
      · obtain ⟨rest, rfl⟩ := List.head?_eq_some_iff.mp brace
        have first : step '"' triple .plain '$' ('\x7b' :: rest) = .next (.block 0) true := rfl
        have second : step '"' triple (.block 0) '\x7b' rest = .next (openMode 1) false := rfl
        rw [body_next first, body_next second, Extent.map_skip] at found
        obtain ⟨later, foundLater, -⟩ := Option.map_eq_some_iff.mp found
        obtain ⟨inner, after, rfl, braces⟩ := closes_of_body foundLater
        exact ⟨'$' :: '\x7b' :: inner, after, true, rfl, .block rfl braces after, by simp⟩
      by_cases again : text.head? = some '$'
      · obtain ⟨rest, rfl⟩ := List.head?_eq_some_iff.mp again
        exact ⟨['$', '$'], rest, false, rfl, .dollars rfl rest, by simp⟩
      · refine ⟨['$'], text, _, rfl, .dollar rfl ?_, by simp⟩
        intro d here
        constructor
        · rintro rfl
          exact again here
        · rintro rfl
          exact brace here
    · refine ⟨[c], text, false, rfl, .plain escape sign text, ?_⟩
      rintro rfl
      have stepped := step_plain escape sign opened
      have goesOn : ¬ isLineEnd c.toNat = true := by
        intro ended
        rw [if_pos ⟨ended, rfl⟩] at stepped
        rw [body, stepped] at found
        cases found
      constructor
      · rintro ⟨rfl⟩
        exact goesOn rfl
      · rintro ⟨rfl⟩
        exact goesOn rfl

theorem body_of_content (notEscape : quote ≠ '\\') {items : List (List Char × Bool)}
    {text rest : List Char} (content : Content quote triple items text rest) :
    body quote triple .plain (text ++ rest) = some ⟨text.length, items.any Prod.snd⟩ := by
  induction content with
  | closed rest => exact body_quotes notEscape rest
  | next opened here inLine more ih =>
    rw [List.append_assoc, body_item opened here inLine, ih]
    simp [Extent.skip]

/-- The items are found one after the other. The induction is on the length of the text, since an
item may be long. -/
theorem content_of_body {text : List Char} {extent : Extent}
    (found : body quote triple .plain text = some extent) :
    ∃ items front rest, text = front ++ rest ∧ Content quote triple items front rest := by
  induction lengthDef : text.length using Nat.strongRecOn generalizing text extent with
  | ind length ih =>
    by_cases closing : quotes quote triple <+: text
    · obtain ⟨rest, rfl⟩ := closing
      exact ⟨[], quotes quote triple, rest, rfl, .closed rest⟩
    · obtain ⟨item, later, interpolates, rfl, here, inLine⟩ := item_of_body found closing
      rw [body_item closing here inLine] at found
      obtain ⟨after, foundAfter, -⟩ := Option.map_eq_some_iff.mp found
      have shorter : later.length < length := by
        have filled : item ≠ [] := by
          cases here <;> simp
        have positive := List.length_pos_of_ne_nil filled
        rw [List.length_append] at lengthDef
        omega
      obtain ⟨items, front, rest, rfl, content⟩ := ih later.length shorter foundAfter rfl
      refine ⟨(item, interpolates) :: items, item ++ front, rest, by rw [List.append_assoc], ?_⟩
      exact .next closing here inLine content

end

/-! ## Literals -/

section

variable {quote : Char}

theorem leading_eq {triple : Bool} {text : List Char}
    (opening : triple = true ↔ [quote, quote, quote] <+: text) :
    leading quote text = (body quote triple .plain (text.drop (quotes quote triple).length)).map
      (.skip (quotes quote triple).length false) := by
  have taken : text.take 3 = [quote, quote, quote] ↔ triple = true := by
    rw [opening, List.prefix_iff_eq_take, eq_comm]
    rfl
  simp only [leading, taken, Bool.decide_eq_true]
  cases triple with
  | false => rfl
  | true => rfl

theorem leading_of_literal (notEscape : quote ≠ '\\') {literal rest : List Char}
    {interpolated : Bool} (isLiteral : IsLiteral quote literal rest interpolated) :
    leading quote (literal ++ rest) = some ⟨literal.length, interpolated⟩ := by
  obtain ⟨triple, items, text, opening, rfl, content, rfl⟩ := isLiteral
  rw [leading_eq opening, List.append_assoc, List.drop_left, body_of_content notEscape content,
    Option.map_some, List.length_append]
  rfl

/-- A text that starts with a quote starts with the quotes that open a literal. -/
theorem exists_opening (quote : Char) (text : List Char) :
    ∃ triple inside, quotes quote triple ++ inside = quote :: text ∧
      (triple = true ↔ [quote, quote, quote] <+: quote :: text) := by
  obtain ⟨triple, opening⟩ : ∃ triple : Bool, triple = true ↔
    [quote, quote, quote] <+: quote :: text :=
    ⟨decide _, decide_eq_true_iff⟩
  have opened : quotes quote triple <+: quote :: text := by
    cases triple with
    | false => exact List.prefix_append [quote] text
    | true => exact opening.mp rfl
  obtain ⟨inside, shape⟩ := opened
  exact ⟨triple, inside, shape, opening⟩

theorem literal_of_leading {text : List Char} {extent : Extent}
    (found : leading quote (quote :: text) = some extent) :
    StartsLiteral quote (quote :: text) := by
  obtain ⟨triple, inside, shape, opening⟩ := exists_opening quote text
  rw [leading_eq opening, ← shape, List.drop_left] at found
  obtain ⟨inner, foundInside, -⟩ := Option.map_eq_some_iff.mp found
  obtain ⟨items, front, rest, rfl, content⟩ := content_of_body foundInside
  have whole : quote :: text = (quotes quote triple ++ front) ++ rest := by
    rw [← shape, List.append_assoc]
  refine ⟨quotes quote triple ++ front, rest, _, whole, triple, items, front, ?_, rfl, content, rfl⟩
  rw [← whole]
  exact opening

/-- A quote is refused exactly if no literal starts there. -/
theorem leading_eq_none_iff (notEscape : quote ≠ '\\') (text : List Char) :
    leading quote (quote :: text) = none ↔ ¬ StartsLiteral quote (quote :: text) := by
  constructor
  · rintro none ⟨literal, rest, interpolated, shape, isLiteral⟩
    rw [shape, leading_of_literal notEscape isLiteral] at none
    cases none
  · intro absent
    cases found : leading quote (quote :: text) with
    | none => rfl
    | some extent => exact absurd (literal_of_leading found) absent

end

end StringLiteral

/-! ## Tokens -/

theorem Lexeme.leading_quote {quote : Char} (quoted : quote = '\'' ∨ quote = '"')
    (atStart ends : Bool) (text : List Char) :
    leading atStart ends quote text = Lexeme.quoted quote (quote :: text) := by
  rcases quoted with rfl | rfl <;> rfl

/-- After a token the scanner goes on with what follows its text. -/
theorem tokensFrom_token (index : LineIndex) {offset : Nat} {opened : List Delimiter} {c : Char}
    {front rest : List Char} {kind : TokenKind}
    (found : Lexeme.leading (offset == 0) (endsStatements opened) c (front ++ rest) =
      .ok (.token kind (front.length + 1))) :
    tokensFrom index offset opened 0 (c :: (front ++ rest)) =
      (tokensFrom index (offset + byteLength (c :: front)) (openAfter opened kind) 0 rest).map
        (placeToken index kind (String.ofList (c :: front)) offset :: ·) := by
  have after :
      tokensFrom index (offset + c.utf8Size) (openAfter opened kind) front.length (front ++ rest) =
      tokensFrom index (offset + byteLength (c :: front)) (openAfter opened kind) 0 rest := by
    rw [tokensFrom_drop, List.take_left, List.drop_left, byteLength_cons, Nat.add_assoc]
  rw [tokensFrom, found]
  simp only [Nat.add_sub_cancel, after, List.take_succ_cons, List.take_left]
  cases tokensFrom index (offset + byteLength (c :: front)) (openAfter opened kind) 0 rest <;> rfl

/-- An error at the very offset at which the scanner stands is that of the lexeme there. -/
theorem leading_of_tokensFrom_error {index : LineIndex} {offset : Nat} {opened : List Delimiter}
    {c : Char} {rest : List Char} {problem : Problem}
    (refused : tokensFrom index offset opened 0 (c :: rest) =
      .error (.atOffset problem index offset)) :
    Lexeme.leading (offset == 0) (endsStatements opened) c rest = .error problem := by
  obtain ⟨front, d, more, other, shape, -, placed, -, stopped⟩ := tokensFrom_eq_error refused
  have here : offset = offset + byteLength front := congrArg SyntaxError.offset placed
  cases front with
  | cons e front =>
    have positive := e.utf8Size_pos
    rw [byteLength_cons] at here
    omega
  | nil =>
    obtain ⟨rfl, rfl⟩ := List.cons.inj shape
    have same : problem = other := congrArg SyntaxError.problem placed
    rw [same]
    exact stopped _

/-- At a quote the scanner takes the literal of the grammar, of the kind that its items give it,
unit by unit as well as character by character, and it refuses the quote as unterminated exactly if
there is no such literal. -/
theorem literals_taken_by_grammar (quote : Char) (quoted : quote = '\'' ∨ quote = '"')
    (index : LineIndex) (offset : Nat) (opened : List Delimiter) (text : List Char) :
    (∀ literal rest interpolated, quote :: text = literal ++ rest →
      StringLiteral.IsLiteral quote literal rest interpolated →
        tokensFrom index offset opened 0 (quote :: text) =
          (tokensFrom index (offset + byteLength literal) opened 0 rest).map
            (placeToken index (.literal (if interpolated then .interpolated else .string))
              (String.ofList literal)
              offset :: ·) ∧
        StringLiteral.leadingUnits? quote text =
          some (some (byteLength literal.tail, interpolated))) ∧
    (¬ StringLiteral.StartsLiteral quote (quote :: text) ↔
      tokensFrom index offset opened 0 (quote :: text) =
        .error (.atOffset .unterminatedString index offset)) ∧
    (¬ StringLiteral.StartsLiteral quote (quote :: text) ↔
      StringLiteral.leadingUnits? quote text = some none) ∧
    (SyntaxError.atOffset .unterminatedString index offset).message =
      "unterminated string literal" := by
  have notEscape : quote ≠ '\\' := by
    rcases quoted with rfl | rfl <;> decide
  have ascii : quote.toNat < 0x80 := by
    rcases quoted with rfl | rfl <;> decide
  have units := StringLiteral.leadingUnits?_eq ascii notEscape text
  have absent := StringLiteral.leading_eq_none_iff notEscape text
  have here := Lexeme.leading_quote quoted (offset == 0) (endsStatements opened) text
  rw [Lexeme.quoted] at here
  refine ⟨?_, ?_, ?_, rfl⟩
  · intro literal rest interpolated shape isLiteral
    have found := StringLiteral.leading_of_literal notEscape isLiteral
    rw [← shape] at found
    rw [found] at units here
    cases literal with
    | nil =>
      obtain ⟨triple, items, inside, -, empty, -⟩ := isLiteral
      cases triple <;> cases empty
    | cons first front =>
      rw [List.cons_append] at shape
      obtain ⟨rfl, rfl⟩ := List.cons.inj shape
      refine ⟨tokensFrom_token index here, ?_⟩
      rw [units, Option.map_some, List.length_cons, Nat.add_sub_cancel, List.take_left,
        List.tail_cons]
  · rw [← absent]
    constructor
    · intro none
      rw [tokensFrom, here, none]
    · intro refused
      have stopped := leading_of_tokensFrom_error refused
      rw [here] at stopped
      cases found : StringLiteral.leading quote (quote :: text) with
      | none => rfl
      | some extent =>
        rw [found] at stopped
        cases stopped
  · rw [← absent, units, Option.some_inj, Option.map_eq_none_iff]

/-- Between triple quotes stand a backslash before a wide character, two dollar signs, a block with
a quote and braces in it, a dollar sign before a name, and two quotes that do not close. Without the
last quote nothing closes the literal. -/
theorem literals_taken_by_grammar_of_triple :
    let front := "\"\"\"\\😀$$$\x7b\"\x7b\x7d\x7d$b\"\"\n\"\"".toList
    let index := LineIndex.ofText (front ++ ['"', ';'])
    StringLiteral.IsLiteral '"' (front ++ ['"']) [';'] true ∧
      tokensFrom index 0 [] 0 (front ++ ['"', ';']) =
        .ok [⟨.literal .interpolated, String.ofList (front ++ ['"']), ⟨0, 24⟩, 1, 1⟩,
          ⟨.semicolon, ";", ⟨24, 25⟩, 2, 4⟩, ⟨.endOfInput, "", ⟨25, 25⟩, 2, 5⟩] ∧
      StringLiteral.leadingUnits? '"' (front.tail ++ ['"', ';']) = some (some (23, true)) ∧
      ¬ StringLiteral.StartsLiteral '"' front := by
  intro front index
  have block : StringLiteral.Closes 1 ['"', '\x7b', '\x7d', '\x7d'] := by
    simp only [StringLiteral.closes_cons_iff, StringLiteral.depthAfter, Char.reduceEq, ↓reduceIte,
      Nat.add_sub_cancel]
    exact StringLiteral.closes_nil_iff.mpr rfl
  have name : ∀ c ∈ some 'b', c ≠ '$' ∧ c ≠ '\x7b' := by
    simp
  have isLiteral : StringLiteral.IsLiteral '"' (front ++ ['"']) [';'] true := by
    refine ⟨true,
      [(['\\', '😀'], false), (['$', '$'], false),
        (['$', '\x7b', '"', '\x7b', '\x7d', '\x7d'], true), (['$'], true), (['b'], false),
        (['"'], false), (['"'], false), (['\n'], false)], front.drop 3 ++ ['"'], by decide, rfl,
      ?_, rfl⟩
    refine .next (by decide) (.escaped _ _) (by simp) ?_
    refine .next (by decide) (.dollars rfl _) (by simp) ?_
    refine .next (by decide) (.block rfl block _) (by simp) ?_
    refine .next (by decide) (.dollar rfl name) (by simp) ?_
    refine .next (by decide) (.plain (by decide) (by decide) _) (by simp) ?_
    refine .next (by decide) (.plain (by decide) (by decide) _) (by simp) ?_
    refine .next (by decide) (.plain (by decide) (by decide) _) (by simp) ?_
    refine .next (by decide) (.plain (by decide) (by decide) _) (by simp) ?_
    exact .closed _
  have taken := literals_taken_by_grammar '"' (.inr rfl) index 0 [] (front.tail ++ ['"', ';'])
  obtain ⟨tokens, units⟩ := taken.1 (front ++ ['"']) [';'] true rfl isLiteral
  have unclosed :=
    (literals_taken_by_grammar '"' (.inr rfl) index 0 [] front.tail).2.2.1.mpr (by decide +kernel)
  exact ⟨isLiteral, tokens.trans rfl, units.trans rfl, unclosed⟩

end GroovyTidy
