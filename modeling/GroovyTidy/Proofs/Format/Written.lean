import GroovyTidy.Format.Groovy
import GroovyTidy.Proofs.Format.Portions
import GroovyTidy.Proofs.Tree.Decided

set_option autoImplicit false

/-!
What formatting writes. The text is a script of lines for portions of the source, so its tokens are
found among those of the source; and if it has as many significant characters as the source, they
are all of them.
-/
namespace GroovyTidy

open Production Printer

/-- The source has these tokens before its end, and the text is written for these portions of
them. -/
structure Formatted (source out : String) (body : List Token) (front back : List Portion) :
    Prop where
  tokens : ∃ last, tokenize source = .ok (body ++ [last]) ∧ last.spelling = (.endOfInput, "")
  legible : ∀ token ∈ body, token.spelling.Legible
  inside : (body.flatMap fun token => token.text.toList).Sublist source.toList
  portioned : Portioned decided body out.toList front back

theorem format_of_parse {options : LayoutOptions} {source : String} {unit : Node}
    (read : parse source = .ok unit) :
    Format.groovy.format options source = .ok (print unit).flat := by
  have rendered := (print_rigid unit).render_eq_flat options
  simp only [Format.format, Format.groovy, read, Except.mapError, bind, Except.bind, pure,
    Except.pure]
  exact congrArg _ rendered

theorem format_eq_ok {options : LayoutOptions} {source out : String}
    (success : Format.groovy.format options source = .ok out) :
    ∃ unit, parse source = .ok unit ∧ out = (print unit).flat := by
  cases read : parse source with
  | error error =>
    simp [Format.format, Format.groovy, read, Except.mapError, bind, Except.bind] at success
  | ok unit => exact ⟨unit, rfl, Except.ok.inj (success.symm.trans (format_of_parse read))⟩

theorem format_formatted {options : LayoutOptions} {source out : String}
    (success : Format.groovy.format options source = .ok out) :
    ∃ body front back, Formatted source out body front back := by
  obtain ⟨unit, read, rfl⟩ := format_eq_ok success
  obtain ⟨tokens, lexed, parsed⟩ := parse_eq_ok read
  obtain ⟨body, last, rfl, ended, legible, inside⟩ := tokensFrom_legible lexed
  have covered := tokens_of_parseTokens parsed
  rw [throughEnd_of_tokenize lexed] at covered
  obtain ⟨trees, middle, rfl, accounted, -⟩ := parseTokens_eq_ok Grammar.statements_decided parsed
  have split : Tree.forestTokens trees ++ [middle.stream.next] = body ++ [last] := by
    rw [← covered, Node.tokens, Tree.forestTokens_append]
    simp [Tree.forestTokens, Tree.tokens]
  obtain ⟨rfl, -⟩ := List.append_inj' split rfl
  have decided_le : decided ≤ statement := fun forest word => word.1
  obtain ⟨front, back, portioned⟩ :=
    unit_portions decided_le accounted.word accounted.conforms legible middle.stream.next
  exact ⟨_, front, back, ⟨last, lexed, ended⟩, legible, inside, portioned⟩

/-! ## Tokens that are shown -/

theorem Segments.visible_eq {segments : List (List Token)} {tokens : List Token}
    (laid : Segments segments tokens) : visible tokens = segments.flatMap visible := by
  induction laid with
  | nil => rfl
  | separator separates rest ih =>
    rw [← ih]
    simp [visible, separates]
  | segment first apart rest ih => rw [visible_append, ih, List.flatMap_cons]

theorem flatMap_sublist {α β : Type} {f g : α → List β} {list : List α}
    (each : ∀ a ∈ list, (f a).Sublist (g a)) : (list.flatMap f).Sublist (list.flatMap g) := by
  induction list with
  | nil => exact List.Sublist.refl _
  | cons first others ih =>
    obtain ⟨here, later⟩ := List.forall_mem_cons.mp each
    exact here.append (ih later)

theorem Script.filter_spellings {keeps : Spelling → Bool} (drops : keeps Spelling.lineEnd = false)
    {lines : List Line}
    (kept : ∀ line ∈ lines, ∀ spelling ∈ line.spellings, keeps spelling = true) :
    (spellings lines).filter keeps = lines.flatMap Line.spellings := by
  induction lines with
  | nil => simp [spellings, drops]
  | cons first others ih =>
    obtain ⟨here, later⟩ := List.forall_mem_cons.mp kept
    have whole := List.filter_eq_self.mpr here
    cases others with
    | nil => simp [spellings, drops, whole]
    | cons second others =>
      rw [spellings_cons, List.filter_append, List.filter_cons, drops, ih later, whole]
      rfl

namespace Formatted

variable {source out : String} {body : List Token} {front back : List Portion}

/-- What the lines show stands in the source in the same order. -/
theorem shown_sublist (formatted : Formatted source out body front back) :
    ((front ++ back).flatMap fun portion => portion.line.spellings).Sublist (visible body) := by
  rw [formatted.portioned.laid.visible_eq, List.flatMap_map]
  exact flatMap_sublist fun portion member =>
    (formatted.portioned.sound portion member).shows.sublist

theorem valid (formatted : Formatted source out body front back) :
    ∀ line ∈ (front ++ back).map Portion.line, line.Valid := by
  intro line member
  obtain ⟨portion, inside, rfl⟩ := List.mem_map.mp member
  exact (formatted.portioned.sound portion inside).valid

theorem written (formatted : Formatted source out body front back) :
    Written [] out.toList (Script.spellings ((front ++ back).map Portion.line)) := by
  rw [formatted.portioned.text]
  exact Script.written formatted.valid

/-- The text is read back as the spellings of its lines. -/
theorem reread (formatted : Formatted source out body front back) :
    ∃ tokens, tokenize out = .ok tokens ∧ tokens.map Token.spelling =
      Script.spellings ((front ++ back).map Portion.line) ++ [(.endOfInput, "")] :=
  formatted.written.tokensFrom _ _ _ (Nat.zero_le _)

/-- What is visible is neither a separator nor an end of input. -/
theorem of_mem_visible (formatted : Formatted source out body front back) {spelling : Spelling}
    (member : spelling ∈ visible body) :
    spelling.1.isSeparator = false ∧ spelling.1 ≠ .endOfInput ∧ spelling.Legible := by
  obtain ⟨token, inside, rfl⟩ := List.mem_map.mp member
  obtain ⟨below, filled⟩ := List.mem_filter.mp inside
  have separates : token.kind.isSeparator = false := by simpa using filled
  have legible := formatted.legible token below
  exact ⟨separates, legible.kind_ne_endOfInput, legible⟩

theorem of_mem_line (formatted : Formatted source out body front back) :
    ∀ line ∈ (front ++ back).map Portion.line, ∀ spelling ∈ line.spellings,
      spelling.1.isSeparator = false ∧ spelling.1 ≠ .endOfInput := by
  intro line member spelling inside
  obtain ⟨portion, found, rfl⟩ := List.mem_map.mp member
  have shown := formatted.shown_sublist.mem (List.mem_flatMap.mpr ⟨portion, found, inside⟩)
  obtain ⟨filled, ended, -⟩ := formatted.of_mem_visible shown
  exact ⟨filled, ended⟩

end Formatted

/-- Formatting invents nothing: what the text is read back as, besides line ends, stands in the
source in the same order, also where statements are dropped. -/
theorem format_invents_nothing {options : LayoutOptions} {source out : String}
    (success : Format.groovy.format options source = .ok out) :
    ∃ before after, tokenize source = .ok before ∧ tokenize out = .ok after ∧
      ((after.map Token.spelling).filter fun spelling =>
        spelling.1 != .newline && spelling.1 != .endOfInput).Sublist
      ((before.map Token.spelling).filter fun spelling =>
        spelling.1 != .newline && spelling.1 != .semicolon && spelling.1 != .endOfInput) := by
  obtain ⟨body, front, back, formatted⟩ := format_formatted success
  obtain ⟨last, lexed, ended⟩ := formatted.tokens
  obtain ⟨after, reread, spelled⟩ := formatted.reread
  refine ⟨_, after, lexed, reread, ?_⟩
  have source_eq : ((body ++ [last]).map Token.spelling).filter (fun spelling =>
      spelling.1 != .newline && spelling.1 != .semicolon && spelling.1 != .endOfInput) =
        visible body := by
    rw [List.map_append, List.filter_append, List.filter_map, visible]
    simp only [List.map_cons, List.map_nil, ended]
    refine (List.append_nil _).trans (congrArg _ (List.filter_congr fun token member => ?_))
    have inside : token.spelling.1 ≠ .endOfInput :=
      (formatted.legible token member).kind_ne_endOfInput
    have kind : token.kind = token.spelling.1 := rfl
    simp only [Function.comp_apply, bne, kind, isSeparator_eq, Bool.not_or,
      beq_eq_false_iff_ne.mpr inside, Bool.not_false, Bool.and_true]
  have out_eq : (after.map Token.spelling).filter (fun spelling =>
      spelling.1 != .newline && spelling.1 != .endOfInput) =
      (front ++ back).flatMap fun portion => portion.line.spellings := by
    rw [spelled, List.filter_append, Script.filter_spellings rfl, List.flatMap_map]
    · exact List.append_nil _
    · intro line member spelling inside
      obtain ⟨filled, ended⟩ := formatted.of_mem_line line member spelling inside
      rw [isSeparator_eq, Bool.or_eq_false_iff] at filled
      simp only [bne, filled.1, beq_eq_false_iff_ne.mpr ended, Bool.not_false, Bool.and_self]
  rw [source_eq, out_eq]
  exact formatted.shown_sublist

/-- An import, a declaration, a list and the arguments of calls are dropped here. -/
theorem format_invents_nothing_of_dropped :
    Format.groovy.format {}
      "import a.b\nrun x(2), [1], 'y'; def z = 3\nlist.add(4) /* done */; print z" =
      .ok "\nrun x, , 'y'\n\nlist\nprint z\n" ∧
    ∃ before after,
      tokenize "import a.b\nrun x(2), [1], 'y'; def z = 3\nlist.add(4) /* done */; print z" =
        .ok before ∧
      tokenize "\nrun x, , 'y'\n\nlist\nprint z\n" = .ok after ∧
      ((after.map Token.spelling).filter fun spelling =>
        spelling.1 != .newline && spelling.1 != .endOfInput).Sublist
      ((before.map Token.spelling).filter fun spelling =>
        spelling.1 != .newline && spelling.1 != .semicolon && spelling.1 != .endOfInput) := by
  have success : Format.groovy.format {}
      "import a.b\nrun x(2), [1], 'y'; def z = 3\nlist.add(4) /* done */; print z" =
      .ok "\nrun x, , 'y'\n\nlist\nprint z\n" := by
    decide +kernel
  exact ⟨success, format_invents_nothing success⟩

end GroovyTidy
