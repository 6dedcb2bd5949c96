import GroovyTidy.Proofs.Text.Positions
import GroovyTidy.Proofs.Token.LiteralGrammar

set_option autoImplicit false

/-!
Literals with a carriage return before each line feed. A literal is found as before, with one
exception. Between single quotes a backslash takes one character along, so it takes a line feed, but
of a carriage return with a line feed it takes the first alone and leaves a line end that the
literal cannot go on with.
-/
namespace GroovyTidy

open Text

/-! ## Texts -/

/-- A carriage return before a line feed, and every other character alone. -/
def withReturn (c : Char) : List Char :=
  if c = '\n' then ['\r', '\n'] else [c]

/-- The text with a carriage return before every line feed. -/
def withReturns (text : List Char) : List Char :=
  text.flatMap withReturn

theorem withReturns_feed (rest : List Char) :
    withReturns ('\n' :: rest) = '\r' :: '\n' :: withReturns rest :=
  rfl

theorem withReturns_cons {c : Char} (other : c ≠ '\n') (rest : List Char) :
    withReturns (c :: rest) = c :: withReturns rest := by
  rw [withReturns, List.flatMap_cons, withReturn, if_neg other]
  rfl

theorem exists_cons_withReturns (c : Char) (rest : List Char) :
    ∃ first more, withReturns (c :: rest) = first :: more := by
  by_cases feed : c = '\n'
  · subst feed
    exact ⟨'\r', '\n' :: withReturns rest, rfl⟩
  · exact ⟨c, withReturns rest, withReturns_cons feed rest⟩

theorem withReturns_append (left right : List Char) :
    withReturns (left ++ right) = withReturns left ++ withReturns right :=
  List.flatMap_append

theorem withReturns_of_not_mem {text : List Char} (absent : '\n' ∉ text) :
    withReturns text = text := by
  induction text with
  | nil => rfl
  | cons c text ih =>
    rw [List.mem_cons, not_or] at absent
    rw [withReturns_cons (Ne.symm absent.1), ih absent.2]

/-- Nothing is put in front of a piece without line ends. -/
theorem prefix_withReturns {piece : List Char} (noFeed : '\n' ∉ piece) (noReturn : '\r' ∉ piece)
    (text : List Char) : piece <+: withReturns text ↔ piece <+: text := by
  induction piece generalizing text with
  | nil => exact iff_of_true List.nil_prefix List.nil_prefix
  | cons d piece ih =>
    rw [List.mem_cons, not_or] at noFeed noReturn
    cases text with
    | nil => rfl
    | cons c text =>
      by_cases feed : c = '\n'
      · subst feed
        rw [withReturns_feed, List.cons_prefix_cons, List.cons_prefix_cons]
        exact iff_of_false (fun same => noReturn.1 same.1.symm) (fun same => noFeed.1 same.1.symm)
      · rw [withReturns_cons feed, List.cons_prefix_cons, List.cons_prefix_cons,
          ih noFeed.2 noReturn.2]

theorem head?_withReturns {d : Char} (notFeed : d ≠ '\n') (notReturn : d ≠ '\r')
    (text : List Char) : (withReturns text).head? = some d ↔ text.head? = some d := by
  have single : ∀ text : List Char, text.head? = some d ↔ [d] <+: text := by
    intro text
    rw [List.head?_eq_some_iff]
    exact exists_congr fun _ => eq_comm
  rw [single, single]
  exact prefix_withReturns (by simpa using Ne.symm notFeed) (by simpa using Ne.symm notReturn) text

/-- A text with line feeds only is read at the same positions. -/
theorem positionAfter_withReturns {front rest : List Char} (plain : '\r' ∉ front) :
    positionAfter (withReturns front) (withReturns rest) = positionAfter front rest := by
  induction front with
  | nil => rfl
  | cons c front ih =>
    rw [List.mem_cons, not_or] at plain
    have later := ih plain.2
    by_cases feed : c = '\n'
    · subst feed
      have more := positionAfter_line_pos front rest
      rw [withReturns_feed, positionAfter, positionAfter, later, positionAfter]
      have ends : closesLine '\n' (withReturns front ++ withReturns rest) = true := rfl
      have goesOn : closesLine '\r' ('\n' :: withReturns front ++ withReturns rest) = false := rfl
      have endsToo : closesLine '\n' (front ++ rest) = true := rfl
      rw [ends, goesOn, endsToo]
      simp only [Position.later, ↓reduceIte, Bool.false_eq_true]
      rw [if_neg (by omega)]
    · have goesOn : ∀ text, closesLine c text = false := by
        intro text
        simp [closesLine, feed, Ne.symm plain.1]
      rw [withReturns_cons feed, positionAfter, positionAfter, later, goesOn, goesOn]

/-! ## Literals -/

namespace StringLiteral

/-- Between single quotes a backslash takes a line feed along before the literal ends. -/
def escapes (quote : Char) (triple : Bool) : Mode → List Char → Bool
  | _, [] => false
  | mode, c :: rest =>
    !triple && mode == .taken && c == '\n' ||
      match step quote triple mode c rest with
      | .next mode _ => escapes quote triple mode rest
      | _ => false

theorem escapes_next {quote : Char} {triple : Bool} {mode next : Mode} {c : Char} {rest : List Char}
    {interpolates : Bool} (stepped : step quote triple mode c rest = .next next interpolates)
    (other : triple = false → mode = .taken → c ≠ '\n') :
    escapes quote triple mode (c :: rest) = escapes quote triple next rest := by
  have kept : (!triple && mode == .taken && c == '\n') = false := by
    simpa using other
  rw [escapes, kept, stepped, Bool.false_or]

/-- An extent in the text with carriage returns. -/
def Extent.widen (text : List Char) (extent : Extent) : Extent where
  length := (withReturns (text.take extent.length)).length
  interpolated := extent.interpolated

theorem Extent.widen_skip (c : Char) (rest : List Char) (interpolates : Bool) (extent : Extent) :
    (extent.skip 1 interpolates).widen (c :: rest) =
      (extent.widen rest).skip (withReturn c).length interpolates := by
  simp [widen, skip, Nat.add_comm 1, List.take_succ_cons, withReturns]

/-- What is found of a literal with carriage returns: the same as without them, but nothing if a
backslash takes a line feed along between single quotes. -/
def returnedBody (quote : Char) (triple : Bool) (mode : Mode) (text : List Char) : Option Extent :=
  if escapes quote triple mode text then none
  else (body quote triple mode text).map (Extent.widen text)

theorem returnedBody_next {quote : Char} {triple : Bool} {mode next : Mode} {c : Char}
    {rest : List Char} {interpolates : Bool}
    (stepped : step quote triple mode c rest = .next next interpolates)
    (other : triple = false → mode = .taken → c ≠ '\n') :
    returnedBody quote triple mode (c :: rest) =
      (returnedBody quote triple next rest).map (.skip (withReturn c).length interpolates) := by
  rw [returnedBody, returnedBody, escapes_next stepped other, body_next stepped]
  cases escapes quote triple next rest with
  | true => rfl
  | false =>
    simp only [Bool.false_eq_true, ↓reduceIte, Option.map_map]
    congr 1
    funext extent
    exact Extent.widen_skip c rest interpolates extent

theorem dollar_withReturns (rest : List Char) : dollar (withReturns rest) = dollar rest := by
  cases rest with
  | nil => rfl
  | cons c rest =>
    by_cases feed : c = '\n'
    · subst feed
      rfl
    · apply dollar_congr
      rw [withReturns_cons feed]
      rfl

/-- A literal is closed by its quotes. -/
theorem take_of_close {quote : Char} {triple : Bool} {mode : Mode} {c : Char} {rest : List Char}
    {length : Nat} (closed : step quote triple mode c rest = .close length) :
    (c :: rest).take length = List.replicate length quote := by
  obtain ⟨-, rfl, -, ⟨-, rfl⟩ | ⟨-, rfl, two⟩⟩ := step_eq_close closed
  · rfl
  · rw [List.take_succ_cons, two]
    rfl

section

variable {quote : Char} (quoted : quote = '\'' ∨ quote = '"')
include quoted

theorem quotes_withReturns (count : Nat) (text : List Char) :
    List.replicate count quote <+: withReturns text ↔ List.replicate count quote <+: text := by
  apply prefix_withReturns
  · intro inside
    rcases quoted with rfl | rfl <;> cases List.eq_of_mem_replicate inside
  · intro inside
    rcases quoted with rfl | rfl <;> cases List.eq_of_mem_replicate inside

theorem take_withReturns (rest : List Char) :
    (withReturns rest).take 2 = [quote, quote] ↔ rest.take 2 = [quote, quote] := by
  rw [eq_comm, eq_comm (a := rest.take 2)]
  exact List.prefix_iff_eq_take.symm.trans
    ((quotes_withReturns quoted 2 rest).trans List.prefix_iff_eq_take)

theorem step_withReturns (triple : Bool) (mode : Mode) (c : Char) (rest : List Char) :
    step quote triple mode c (withReturns rest) = step quote triple mode c rest := by
  cases mode with
  | taken => rfl
  | block depth => rfl
  | plain => simp only [step, dollar_withReturns, take_withReturns quoted]

theorem step_lineEnd {c : Char} (ended : c = '\r' ∨ c = '\n') (triple : Bool) (rest : List Char) :
    step quote triple .plain c rest = if triple then .next .plain false else .refuse := by
  rcases quoted with rfl | rfl <;> rcases ended with rfl | rfl <;> cases triple <;> rfl

theorem body_withReturns_feed {triple : Bool} {text : List Char}
    (later : ∀ mode,
      body quote triple mode (withReturns text) = returnedBody quote triple mode text)
    (mode : Mode) :
    body quote triple mode (withReturns ('\n' :: text)) =
      returnedBody quote triple mode ('\n' :: text) := by
  -- Outside of single quotes both characters of a line end are passed as the line feed was.
  have both : ∀ next, step quote triple mode '\r' ('\n' :: withReturns text) = .next next false →
      step quote triple next '\n' (withReturns text) = .next next false →
      body quote triple mode ('\r' :: '\n' :: withReturns text) =
        (returnedBody quote triple next text).map (.skip 2 false) := by
    intro next first second
    rw [body_next first, body_next second, Extent.map_skip, later]
    rfl
  rw [withReturns_feed]
  cases mode with
  | block depth =>
    rw [both (.block depth) rfl rfl, returnedBody_next rfl (by simp)]
    rfl
  | plain =>
    cases triple with
    | false => simp [body, returnedBody, escapes, step_lineEnd quoted]
    | true =>
      have passed := step_lineEnd quoted (.inr rfl) true text
      rw [both .plain (step_lineEnd quoted (.inl rfl) true _)
        (step_lineEnd quoted (.inr rfl) true _),
        returnedBody_next passed (by simp)]
      rfl
  | taken =>
    cases triple with
    | false =>
      -- The backslash takes the carriage return, and the line feed is refused.
      have first : step quote false .taken '\r' ('\n' :: withReturns text) = .next .plain false :=
        rfl
      rw [body_next first]
      simp [body, returnedBody, escapes, step_lineEnd quoted]
    | true =>
      rw [both .plain rfl (step_lineEnd quoted (.inr rfl) true _), returnedBody_next rfl (by simp)]
      rfl

theorem body_withReturns_other {triple : Bool} {c : Char} (other : c ≠ '\n') {text : List Char}
    (later : ∀ mode,
      body quote triple mode (withReturns text) = returnedBody quote triple mode text)
    (mode : Mode) :
    body quote triple mode (withReturns (c :: text)) =
      returnedBody quote triple mode (c :: text) := by
  have alone : withReturn c = [c] := if_neg other
  have same := step_withReturns quoted triple mode c text
  rw [withReturns_cons other]
  cases stepped : step quote triple mode c text with
  | refuse => simp [body, returnedBody, same, stepped]
  | close length =>
    have closing := take_of_close stepped
    obtain ⟨rfl, rfl, -, -⟩ := step_eq_close stepped
    have taken : withReturns (List.replicate length c) = List.replicate length c :=
      withReturns_of_not_mem fun inside => other (List.eq_of_mem_replicate inside).symm
    simp [body, returnedBody, escapes, same, stepped, Extent.widen, closing, taken]
  | next next interpolates =>
    rw [body_next (same.trans stepped), later, returnedBody_next stepped fun _ _ => other, alone]
    rfl

theorem body_withReturns (triple : Bool) (mode : Mode) (text : List Char) :
    body quote triple mode (withReturns text) = returnedBody quote triple mode text := by
  induction text generalizing mode with
  | nil => rfl
  | cons c text ih =>
    by_cases feed : c = '\n'
    · subst feed
      exact body_withReturns_feed quoted ih mode
    · exact body_withReturns_other quoted feed ih mode

theorem leading_withReturns {triple : Bool} {inner : List Char}
    (opening : triple = true ↔ [quote, quote, quote] <+: quotes quote triple ++ inner) :
    leading quote (withReturns (quotes quote triple ++ inner)) =
      if escapes quote triple .plain inner then none
      else (leading quote (quotes quote triple ++ inner)).map
        (Extent.widen (quotes quote triple ++ inner)) := by
  have alone : withReturns (quotes quote triple) = quotes quote triple := by
    apply withReturns_of_not_mem
    rcases quoted with rfl | rfl <;> cases triple <;> decide
  have openingToo := opening.trans (quotes_withReturns quoted 3 _).symm
  rw [leading_eq opening, leading_eq openingToo, withReturns_append, alone, List.drop_left,
    List.drop_left, body_withReturns quoted, returnedBody]
  cases escapes quote triple .plain inner with
  | true => rfl
  | false =>
    simp only [Bool.false_eq_true, ↓reduceIte, Option.map_map]
    congr 1
    funext extent
    simp [Extent.widen, Extent.skip, List.take_length_add_append, withReturns_append, alone]

end

/-! ## Escaped line feeds -/

/-- The text is a literal between single quotes, and one of its items is a line feed after a
backslash. -/
def EscapesFeed (literal : List Char) : Prop :=
  ∃ quote items text, (quote = '\'' ∨ quote = '"') ∧ literal = quote :: text ∧
    Content quote false items text [] ∧
    ['\\', '\n'] ∈ items.map Prod.fst

theorem EscapesFeed.quoted {c : Char} {rest : List Char} (escapes : EscapesFeed (c :: rest)) :
    c = '\'' ∨ c = '"' := by
  obtain ⟨quote, items, text, quoted, shape, -⟩ := escapes
  rwa [(List.cons.inj shape).1]

section

variable {quote : Char}

theorem escapes_triple (mode : Mode) (text : List Char) : escapes quote true mode text = false := by
  induction text generalizing mode with
  | nil => rfl
  | cons c text ih =>
    rw [escapes]
    cases step quote true mode c text <;> simp [ih]

theorem escapes_of_closes {depth : Nat} {inner : List Char} (closes : Closes depth inner)
    (rest : List Char) :
    escapes quote false (openMode depth) (inner ++ rest) = escapes quote false .plain rest := by
  induction inner generalizing depth with
  | nil =>
    obtain rfl := closes_nil_iff.mp closes
    rfl
  | cons c inner ih =>
    cases depth with
    | zero => exact absurd closes.eq_nil (List.cons_ne_nil c inner)
    | succ depth =>
      have stepped : step quote false (openMode (depth + 1)) c (inner ++ rest) =
          .next (openMode (depthAfter (depth + 1) c)) false := by
        rw [← blockMode_eq]
        rfl
      rw [List.cons_append, escapes_next stepped (by simp [openMode]),
        ih (closes_cons_iff.mp closes)]

theorem escapes_item {item rest : List Char} {interpolates : Bool}
    (opened : ¬ quotes quote false <+: item ++ rest) (here : Item quote item rest interpolates)
    (inLine : item ≠ ['\n'] ∧ item ≠ ['\r']) :
    escapes quote false .plain (item ++ rest) =
      (item == ['\\', '\n'] || escapes quote false .plain rest) := by
  cases here with
  | escaped c =>
    have first : step quote false .plain '\\' (c :: rest) = .next .taken false := rfl
    rw [List.cons_append, List.singleton_append, escapes_next first (by simp), escapes]
    simp [step]
  | dollars double =>
    subst double
    have first : step '"' false .plain '$' ('$' :: rest) = .next .taken false := rfl
    have second : step '"' false .taken '$' rest = .next .plain false := rfl
    rw [List.cons_append, List.singleton_append, escapes_next first (by simp),
      escapes_next second (by simp)]
    rfl
  | @block double inner braces =>
    subst double
    have first : step '"' false .plain '$' ('\x7b' :: (inner ++ rest)) = .next (.block 0) true :=
      rfl
    have second : step '"' false (.block 0) '\x7b' (inner ++ rest) = .next (openMode 1) false := rfl
    rw [List.cons_append, List.cons_append, escapes_next first (by simp),
      escapes_next second (by simp), escapes_of_closes braces]
    rfl
  | dollar double alone =>
    subst double
    have first : step '"' false .plain '$' rest = dollar rest := rfl
    rw [dollar_alone alone] at first
    exact escapes_next first (by simp)
  | @plain c notEscape notDollar =>
    have stepped : step quote false .plain c rest = _ := step_plain notEscape notDollar opened
    rw [if_neg] at stepped
    · rw [List.singleton_append, escapes_next stepped (by simp)]
      simp
    · rintro ⟨ended, -⟩
      rcases (isLineEnd_iff c).mp ended with rfl | rfl
      · exact inLine.1 rfl
      · exact inLine.2 rfl

theorem escapes_content (notEscape : quote ≠ '\\') {items : List (List Char × Bool)}
    {text rest : List Char} (content : Content quote false items text rest) :
    escapes quote false .plain (text ++ rest) = true ↔ ['\\', '\n'] ∈ items.map Prod.fst := by
  induction content with
  | closed rest => simp [escapes, quotes, step, notEscape]
  | next opened here inLine more ih =>
    rw [List.append_assoc, escapes_item opened here (inLine rfl), Bool.or_eq_true, beq_iff_eq, ih,
      List.map_cons, List.mem_cons, eq_comm]

theorem Item.congr {item left right : List Char} {interpolates : Bool}
    (here : Item quote item left interpolates) (same : left.head? = right.head?) :
    Item quote item right interpolates := by
  cases here with
  | escaped c => exact .escaped c right
  | dollars double => exact .dollars double right
  | block double braces => exact .block double braces right
  | plain notEscape notDollar => exact .plain notEscape notDollar right
  | dollar double alone =>
    rw [same] at alone ⊢
    exact .dollar double alone

/-- What follows a literal between single quotes does not matter, since the closing quote is a
single character. -/
theorem Content.before {items : List (List Char × Bool)} {text rest : List Char}
    (content : Content quote false items text rest) (other : List Char) :
    Content quote false items text other := by
  induction content with
  | closed rest => exact .closed other
  | @next item text rest interpolates items opened here inLine more ih =>
    have filled : text ≠ [] := by
      cases more with
      | closed => simp [quotes]
      | next _ here => cases here <;> simp
    have same : (text ++ rest).head? = (text ++ other).head? := by
      rw [List.head?_append_of_ne_nil _ filled, List.head?_append_of_ne_nil _ filled]
    refine .next ?_ (here.congr same) inLine ih
    obtain ⟨first, later, rfl⟩ : ∃ first later, item = first :: later := by
      cases here <;> exact ⟨_, _, rfl⟩
    simpa [quotes, List.cons_prefix_cons] using opened

/-- A line feed is escaped in a literal if the scanner takes one along. -/
theorem escapesFeed_iff (quoted : quote = '\'' ∨ quote = '"') {triple : Bool}
    {items : List (List Char × Bool)} {text rest : List Char}
    (content : Content quote triple items text rest) :
    EscapesFeed (quotes quote triple ++ text) ↔
    escapes quote triple .plain (text ++ rest) = true := by
  have notEscape : quote ≠ '\\' := by
    rcases quoted with rfl | rfl <;> decide
  cases triple with
  | true =>
    rw [escapes_triple]
    refine iff_of_false ?_ Bool.false_ne_true
    rintro ⟨other, others, inner, -, shape, inside, -⟩
    obtain ⟨rfl, rfl⟩ := List.cons.inj shape
    have whole := body_of_content notEscape inside
    have closed : body quote false .plain (quote :: (quote :: text ++ [])) = some ⟨1, false⟩ :=
      body_quotes notEscape _
    cases whole.symm.trans closed
  | false =>
    constructor
    · rintro ⟨other, others, inner, -, shape, inside, feed⟩
      obtain ⟨rfl, rfl⟩ := List.cons.inj shape
      exact (escapes_content notEscape (inside.before rest)).mpr feed
    · intro escaped
      exact ⟨quote, items, text, quoted, rfl, content.before [],
        (escapes_content notEscape content).mp escaped⟩

/-- The literal that is found at a quote is the one of the grammar. -/
theorem escapesFeed_of_leading (quoted : quote = '\'' ∨ quote = '"') {triple : Bool}
    {inside : List Char} {extent : Extent}
    (opening : triple = true ↔ [quote, quote, quote] <+: quotes quote triple ++ inside)
    (found : leading quote (quotes quote triple ++ inside) = some extent) :
    EscapesFeed ((quotes quote triple ++ inside).take extent.length) ↔
    escapes quote triple .plain inside = true := by
  have notEscape : quote ≠ '\\' := by
    rcases quoted with rfl | rfl <;> decide
  rw [leading_eq opening, List.drop_left] at found
  obtain ⟨inner, foundInside, rfl⟩ := Option.map_eq_some_iff.mp found
  obtain ⟨items, front, back, rfl, content⟩ := content_of_body foundInside
  rw [body_of_content notEscape content] at foundInside
  cases foundInside
  rw [← escapesFeed_iff quoted content]
  simp [Extent.skip, List.take_length_add_append]

end

end StringLiteral

end GroovyTidy
