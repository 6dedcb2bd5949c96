import GroovyTidy.Json

set_option autoImplicit false

/-!
A JSON value can be found again in its written form. Each kind of value starts with a character of
its own, and each ends where its first character says: a text at its quote, a number before the
first character that is no digit, an array or an object at its closing delimiter. So two values with
the same written form are the same, whatever follows them.
-/
namespace GroovyTidy.Json

/-! ## Texts -/

/-- The value of a hexadecimal digit. -/
def hexValue (digit : Char) : Nat :=
  if digit.toNat < 0x61 then digit.toNat - 0x30 else digit.toNat - 0x57

theorem hexValue_digitChar : ∀ n < 16, hexValue (Nat.digitChar n) = n := by
  decide

/-- Reads the first character of an escaped text; what is left of the text comes with it. -/
def unescape : List Char → Option (Char × List Char)
  | [] => none
  | '\\' :: 'b' :: rest => some ('\x08', rest)
  | '\\' :: 'f' :: rest => some ('\x0c', rest)
  | '\\' :: 'n' :: rest => some ('\n', rest)
  | '\\' :: 'r' :: rest => some ('\r', rest)
  | '\\' :: 't' :: rest => some ('\t', rest)
  | '\\' :: 'u' :: '0' :: '0' :: high :: low :: rest =>
    some (Char.ofNat (16 * hexValue high + hexValue low), rest)
  | '\\' :: c :: rest => some (c, rest)
  | c :: rest => some (c, rest)

theorem hexValue_control {n : Nat} (control : n < 0x20) :
    16 * hexValue (Nat.digitChar (n / 16)) + hexValue (Nat.digitChar (n % 16)) = n := by
  rw [hexValue_digitChar _ (by omega), hexValue_digitChar _ (by omega), Nat.div_add_mod]

theorem unescape_escaped (c : Char) (rest : List Char) :
    unescape (escaped c ++ rest) = some (c, rest) := by
  simp only [escaped]
  repeat' split
  all_goals simp_all [unescape, hexValue_control]

theorem head?_escaped (c : Char) (rest : List Char) : (escaped c ++ rest).head? ≠ some '"' := by
  simp only [escaped]
  repeat' split
  all_goals simp_all

/-- A text is found again in its escaped form, which has no quote before the one that ends it. -/
theorem flatMap_escaped_inj {left right after behind : List Char}
    (same : left.flatMap escaped ++ '"' :: after = right.flatMap escaped ++ '"' :: behind) :
    left = right ∧ after = behind := by
  induction left generalizing right with
  | nil =>
    cases right with
    | nil => simpa using same
    | cons d right =>
      have quote := head?_escaped d (right.flatMap escaped ++ '"' :: behind)
      rw [← List.append_assoc, ← List.flatMap_cons, ← same] at quote
      simp at quote
  | cons c left ih =>
    cases right with
    | nil =>
      have quote := head?_escaped c (left.flatMap escaped ++ '"' :: after)
      rw [← List.append_assoc, ← List.flatMap_cons, same] at quote
      simp at quote
    | cons d right =>
      rw [List.flatMap_cons, List.flatMap_cons, List.append_assoc, List.append_assoc] at same
      have read := congrArg unescape same
      rw [unescape_escaped, unescape_escaped, Option.some.injEq, Prod.mk.injEq] at read
      obtain ⟨rfl, rest⟩ := read
      obtain ⟨rfl, rfl⟩ := ih rest
      exact ⟨rfl, rfl⟩

theorem toList_quoted (text : String) :
    (quoted text).toList = '"' :: (text.toList.flatMap escaped ++ ['"']) := by
  simp [quoted]

theorem quoted_inj {left right : String} {after behind : List Char}
    (same : (quoted left).toList ++ after = (quoted right).toList ++ behind) :
    left = right ∧ after = behind := by
  simp only [toList_quoted, List.cons_append, List.append_assoc, List.nil_append, List.cons.injEq,
    true_and] at same
  obtain ⟨texts, rests⟩ := flatMap_escaped_inj same
  exact ⟨String.toList_injective texts, rests⟩

/-! ## Numbers -/

/-- A text does not go on with a digit. -/
def Stops (rest : List Char) : Prop :=
  ∀ c ∈ rest.head?, c.isDigit = false

theorem stops_nil : Stops [] := by
  simp [Stops]

theorem stops_cons {c : Char} (other : c.isDigit = false) (rest : List Char) :
    Stops (c :: rest) := by
  simp [Stops, other]

theorem Stops.takeWhile_isDigit {rest : List Char} (stops : Stops rest) :
    rest.takeWhile Char.isDigit = [] := by
  cases rest with
  | nil => rfl
  | cons c rest => rw [List.takeWhile_cons_of_neg (by simp [stops c rfl])]

theorem toList_toString (n : Nat) : (toString n).toList = Nat.toDigits 10 n := by
  rw [Nat.toString_eq_repr, Nat.toList_repr]

theorem isDigit_of_mem_toDigits {n : Nat} : ∀ c ∈ Nat.toDigits 10 n, c.isDigit = true :=
  fun _ member => Nat.isDigit_of_mem_toDigits (by decide) (by decide) member

theorem takeWhile_toString (n : Nat) {rest : List Char} (stops : Stops rest) :
    ((toString n).toList ++ rest).takeWhile Char.isDigit = Nat.toDigits 10 n := by
  rw [toList_toString, List.takeWhile_append_of_pos isDigit_of_mem_toDigits,
    stops.takeWhile_isDigit, List.append_nil]

theorem toString_inj {left right : Nat} {after behind : List Char} (stops : Stops after)
    (halts : Stops behind)
    (same : (toString left).toList ++ after = (toString right).toList ++ behind) :
    left = right ∧ after = behind := by
  have digits : Nat.toDigits 10 left = Nat.toDigits 10 right := by
    rw [← takeWhile_toString left stops, same, takeWhile_toString right halts]
  have numbers : left = right := by
    rw [← Nat.ofDigitChars_ten_toDigits (n := left), digits, Nat.ofDigitChars_ten_toDigits]
  subst numbers
  exact ⟨rfl, List.append_cancel_left same⟩

/-! ## Items between delimiters -/

/-- The items after the first, as they are written. -/
def later (depth : Nat) (items : List String) : List Char :=
  items.flatMap fun item => ',' :: '\n' :: ((margin (depth + 1)).toList ++ item.toList)

theorem later_cons (depth : Nat) (item : String) (items : List String) (rest : List Char) :
    later depth (item :: items) ++ rest =
      ',' :: '\n' ::
        ((margin (depth + 1)).toList ++ (item.toList ++ (later depth items ++ rest))) := by
  simp [later]

theorem toList_enclosed_nil (depth : Nat) (opening closing : String) :
    (enclosed depth opening closing []).toList = opening.toList ++ closing.toList := by
  simp [enclosed]

theorem toList_intercalate_cons (depth : Nat) (item : String) (items : List String) :
    (",\n".intercalate ((item :: items).map (margin (depth + 1) ++ ·))).toList =
      (margin (depth + 1)).toList ++ (item.toList ++ later depth items) := by
  rw [String.toList_intercalate]
  induction items generalizing item with
  | nil => simp [later]
  | cons next items ih =>
    rw [List.map_cons, List.map_cons, List.map_cons, List.map_cons, List.intercalate_cons_cons,
      ← List.map_cons, ← List.map_cons, ih next]
    simp [later]

theorem toList_enclosed_cons (depth : Nat) (opening closing item : String) (items : List String) :
    (enclosed depth opening closing (item :: items)).toList =
      opening.toList ++ '\n' ::
        ((margin (depth + 1)).toList ++ (item.toList ++ (later depth items ++
          '\n' :: ((margin depth).toList ++ closing.toList)))) := by
  rw [enclosed, if_neg (by simp)]
  simp only [String.toList_append, toList_intercalate_cons]
  simp

/-- An item can be found again in its written form, whatever follows. -/
def Legible {α : Type} (write : α → String) (item : α) : Prop :=
  ∀ (other : α) (after behind : List Char), Stops after → Stops behind →
    (write item).toList ++ after = (write other).toList ++ behind → item = other ∧ after = behind

section

variable {α : Type} {write : α → String}

/-- What follows an item is a comma or the end of its line. -/
theorem stops_later (depth : Nat) (items : List String) (rest : List Char) :
    Stops (later depth items ++ '\n' :: rest) := by
  cases items with
  | nil => exact stops_cons (by decide) rest
  | cons item items =>
    rw [later_cons]
    exact stops_cons (by decide) _

theorem later_inj {depth : Nat} {left right : List α} (each : ∀ item ∈ left, Legible write item)
    {after behind : List Char}
    (same : later depth (left.map write) ++ '\n' :: after =
      later depth (right.map write) ++ '\n' :: behind) :
    left = right ∧ after = behind := by
  induction left generalizing right with
  | nil =>
    cases right with
    | nil => simpa [later] using same
    | cons other right => simp [later] at same
  | cons item left ih =>
    cases right with
    | nil => simp [later] at same
    | cons other right =>
      obtain ⟨first, others⟩ := List.forall_mem_cons.mp each
      simp only [List.map_cons, later_cons, List.cons.injEq, true_and, List.append_cancel_left_eq]
        at same
      obtain ⟨rfl, rest⟩ := first other _ _ (stops_later _ _ _) (stops_later _ _ _) same
      obtain ⟨rfl, rfl⟩ := ih others rest
      exact ⟨rfl, rfl⟩

/-- Items are found again between delimiters: only a list without items has no line end behind its
first delimiter. -/
theorem enclosed_inj {depth : Nat} {opening closing : String} {mark : Char}
    (closes : closing.toList = [mark]) (inLine : mark ≠ '\n') {left right : List α}
    (each : ∀ item ∈ left, Legible write item) {after behind : List Char}
    (same : (enclosed depth opening closing (left.map write)).toList ++ after =
      (enclosed depth opening closing (right.map write)).toList ++ behind) :
    left = right ∧ after = behind := by
  cases left with
  | nil =>
    cases right with
    | nil => exact ⟨rfl, List.append_cancel_left same⟩
    | cons other right => simp [toList_enclosed_nil, toList_enclosed_cons, closes, inLine] at same
  | cons item left =>
    cases right with
    | nil => simp [toList_enclosed_nil, toList_enclosed_cons, closes, inLine.symm] at same
    | cons other right =>
      obtain ⟨first, others⟩ := List.forall_mem_cons.mp each
      simp only [List.map_cons, toList_enclosed_cons, List.append_assoc, List.cons_append,
        List.append_cancel_left_eq, List.cons.injEq, true_and] at same
      obtain ⟨rfl, rest⟩ := first other _ _ (stops_later _ _ _) (stops_later _ _ _) same
      obtain ⟨rfl, ends⟩ := later_inj others rest
      rw [List.append_cancel_left_eq, List.append_cancel_left_eq] at ends
      exact ⟨rfl, ends⟩

end

/-! ## Values -/

theorem prettyItems_eq_map (depth : Nat) (items : List Json) :
    prettyItems depth items = items.map (pretty depth) := by
  induction items with
  | nil => rfl
  | cons item items ih => rw [prettyItems, ih, List.map_cons]

/-- A field as it is written. -/
def prettyField (depth : Nat) (field : String × Json) : String :=
  quoted field.1 ++ ": " ++ pretty depth field.2

theorem prettyFields_eq_map (depth : Nat) (fields : List (String × Json)) :
    prettyFields depth fields = fields.map (prettyField depth) := by
  induction fields with
  | nil => rfl
  | cons field fields ih => rw [prettyFields, ih, List.map_cons, prettyField]

theorem Legible.field {depth : Nat} {value : Json} (legible : Legible (pretty depth) value)
    (key : String) : Legible (prettyField depth) (key, value) := by
  rintro ⟨name, other⟩ after behind stops halts same
  simp only [prettyField, String.toList_append, List.append_assoc] at same
  obtain ⟨rfl, values⟩ := quoted_inj same
  obtain ⟨rfl, rests⟩ := legible other after behind stops halts (List.append_cancel_left values)
  exact ⟨rfl, rests⟩

/-- The character that a value starts with; none for a number, which starts with a digit. -/
def mark? : Json → Option Char
  | .text _ => some '"'
  | .number _ => none
  | .array _ => some '['
  | .object _ => some '\x7b'

theorem exists_head_enclosed (depth : Nat) (opening closing : String) {mark : Char}
    (opens : opening.toList = [mark]) (items : List String) :
    ∃ rest, (enclosed depth opening closing items).toList = mark :: rest := by
  cases items with
  | nil => exact ⟨_, by rw [toList_enclosed_nil, opens, List.singleton_append]⟩
  | cons item items => exact ⟨_, by rw [toList_enclosed_cons, opens, List.singleton_append]⟩

theorem exists_head_pretty (depth : Nat) (value : Json) :
    ∃ c rest, (value.pretty depth).toList = c :: rest ∧
      value.mark? = if c.isDigit then none else some c := by
  cases value with
  | text value => exact ⟨'"', _, toList_quoted value, rfl⟩
  | number value =>
    obtain ⟨c, rest, digits⟩ :=
      List.exists_cons_of_ne_nil (Nat.toDigits_ne_nil (n := value) (b := 10))
    have digit : c.isDigit = true := isDigit_of_mem_toDigits (n := value) c (by simp [digits])
    exact ⟨c, rest, by rw [pretty, toList_toString, digits], by rw [digit]; rfl⟩
  | array items =>
    obtain ⟨rest, start⟩ := exists_head_enclosed depth "[" "]" rfl (prettyItems (depth + 1) items)
    exact ⟨'[', rest, start, rfl⟩
  | object fields =>
    obtain ⟨rest, start⟩ :=
      exists_head_enclosed depth "\x7b" "\x7d" rfl (prettyFields (depth + 1) fields)
    exact ⟨'\x7b', rest, start, rfl⟩

theorem mark?_eq {depth : Nat} {left right : Json} {after behind : List Char}
    (same : (left.pretty depth).toList ++ after = (right.pretty depth).toList ++ behind) :
    left.mark? = right.mark? := by
  obtain ⟨c, _, leftText, leftMark⟩ := exists_head_pretty depth left
  obtain ⟨d, _, rightText, rightMark⟩ := exists_head_pretty depth right
  rw [leftText, rightText, List.cons_append, List.cons_append, List.cons.injEq] at same
  rw [leftMark, rightMark, same.1]

mutual

theorem legible_pretty (depth : Nat) (value : Json) : Legible (pretty depth) value := by
  intro other after behind stops halts same
  -- The first characters tell the kinds apart, so only values of one kind are left to compare.
  have marks := mark?_eq same
  cases value with
  | text value =>
    cases other with
    | text other =>
      obtain ⟨rfl, rests⟩ := quoted_inj same
      exact ⟨rfl, rests⟩
    | number _ | array _ | object _ => simp [mark?] at marks
  | number value =>
    cases other with
    | number other =>
      obtain ⟨rfl, rests⟩ := toString_inj stops halts same
      exact ⟨rfl, rests⟩
    | text _ | array _ | object _ => simp [mark?] at marks
  | array items =>
    cases other with
    | array others =>
      rw [pretty, pretty, prettyItems_eq_map, prettyItems_eq_map] at same
      obtain ⟨rfl, rests⟩ := enclosed_inj rfl (by decide) (legible_items (depth + 1) items) same
      exact ⟨rfl, rests⟩
    | text _ | number _ | object _ => simp [mark?] at marks
  | object fields =>
    cases other with
    | object others =>
      rw [pretty, pretty, prettyFields_eq_map, prettyFields_eq_map] at same
      obtain ⟨rfl, rests⟩ := enclosed_inj rfl (by decide) (legible_fields (depth + 1) fields) same
      exact ⟨rfl, rests⟩
    | text _ | number _ | array _ => simp [mark?] at marks

theorem legible_items (depth : Nat) (items : List Json) :
    ∀ item ∈ items, Legible (pretty depth) item := by
  cases items with
  | nil => simp
  | cons item items =>
    exact List.forall_mem_cons.mpr ⟨legible_pretty depth item, legible_items depth items⟩

theorem legible_fields (depth : Nat) (fields : List (String × Json)) :
    ∀ field ∈ fields, Legible (prettyField depth) field := by
  cases fields with
  | nil => simp
  | cons field fields =>
    obtain ⟨key, value⟩ := field
    exact List.forall_mem_cons.mpr ⟨(legible_pretty depth value).field key,
      legible_fields depth fields⟩

end

theorem pretty_injective (depth : Nat) : Function.Injective (pretty depth) := by
  intro left right same
  exact (legible_pretty depth left right [] [] stops_nil stops_nil (by rw [same])).1

end GroovyTidy.Json
