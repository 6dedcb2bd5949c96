import GroovyTidy.Proofs.Format.Written
import Mathlib.Algebra.Order.BigOperators.Group.List
import Mathlib.Algebra.Order.Ring.Nat

set_option autoImplicit false

/-!
Lossless formatting. That a text has the significant characters of its source is checked by
comparing characters only. Counting them token by token shows that nothing that shows is missing, so
every line shows the whole of its statement, and the statements stay apart.
-/
namespace GroovyTidy

open Text

/-- Characters that neither are blank nor separate statements. -/
def isSignificant (c : Char) : Bool :=
  !isWhiteSpace c.toNat && c != ';'

/-- The number of significant characters of a spelling. -/
def Spelling.weight (spelling : Spelling) : Nat :=
  (spelling.2.toList.filter isSignificant).length

def totalWeight (spellings : List Spelling) : Nat :=
  (spellings.map Spelling.weight).sum

theorem significantInGroovy_eq (text : String) :
    Format.significantInGroovy text = text.toList.filter isSignificant := by
  rw [Format.significantInGroovy, significant, List.filter_filter]
  refine List.filter_congr fun c _ => ?_
  simp only [isSignificant, Bool.and_comm]

theorem not_significant_of_blank {c : Char} (blank : isBlank c.toNat = true) :
    isSignificant c = false := by
  have white : isWhiteSpace c.toNat = true := by
    simp only [isBlank, isWhiteSpace, Bool.or_eq_true, beq_iff_eq, Bool.and_eq_true,
      decide_eq_true_eq] at blank ⊢
    omega
  simp [isSignificant, white]

theorem totalWeight_append (left right : List Spelling) :
    totalWeight (left ++ right) = totalWeight left + totalWeight right := by
  simp only [totalWeight, List.map_append, List.sum_append]

theorem totalWeight_cons (first : Spelling) (rest : List Spelling) :
    totalWeight (first :: rest) = first.weight + totalWeight rest :=
  rfl

/-- The significant characters of a written text are those of its spellings. -/
theorem Written.weight {opened : List Delimiter} {text : List Char} {spellings : List Spelling}
    (written : Written opened text spellings) :
    (text.filter isSignificant).length = totalWeight spellings := by
  induction written with
  | nil opened => rfl
  | blank known rest ih => rw [List.filter_cons, not_significant_of_blank known, ← ih]; rfl
  | token legible stops visible rest ih =>
    rw [List.filter_append, List.length_append, ih, totalWeight_cons, Spelling.weight]

theorem weight_pos {spelling : Spelling} (legible : spelling.Legible)
    (filled : spelling.1.isSeparator = false) : 0 < spelling.weight := by
  obtain ⟨c, rest, shape, shows, apart⟩ := legible.head_shows filled
  have significant : isSignificant c = true := by simp [isSignificant, shows, apart]
  rw [Spelling.weight, shape, List.filter_cons_of_pos significant]
  simp

/-- A part of a list of weighty spellings that weighs as much is the whole list. -/
theorem eq_of_totalWeight_le {part whole : List Spelling} (sublist : part.Sublist whole)
    (weighty : ∀ spelling ∈ whole, 0 < spelling.weight)
    (heavy : totalWeight whole ≤ totalWeight part) : part = whole := by
  induction sublist with
  | slnil => rfl
  | @cons part whole first rest ih =>
    obtain ⟨here, later⟩ := List.forall_mem_cons.mp weighty
    rw [totalWeight_cons] at heavy
    have same := ih later (by omega)
    rw [same] at heavy
    omega
  | @cons_cons part whole first rest ih =>
    obtain ⟨here, later⟩ := List.forall_mem_cons.mp weighty
    rw [totalWeight_cons, totalWeight_cons] at heavy
    rw [ih later (by omega)]

theorem totalWeight_sublist {part whole : List Spelling} (sublist : part.Sublist whole) :
    totalWeight part ≤ totalWeight whole :=
  (sublist.map Spelling.weight).sum_le_sum fun _ _ => Nat.zero_le _

theorem weight_flatMap (tokens : List Token) :
    ((tokens.flatMap fun token => token.text.toList).filter isSignificant).length =
      totalWeight (tokens.map Token.spelling) := by
  induction tokens with
  | nil => rfl
  | cons first rest ih =>
    rw [List.flatMap_cons, List.filter_append, List.length_append, ih, List.map_cons,
      totalWeight_cons]
    rfl

theorem visible_sublist (tokens : List Token) :
    (visible tokens).Sublist (tokens.map Token.spelling) :=
  List.filter_sublist.map _

theorem Script.totalWeight_spellings (lines : List Line) :
    totalWeight (spellings lines) = totalWeight (lines.flatMap Line.spellings) := by
  have ending : totalWeight [Spelling.lineEnd] = 0 := by decide
  induction lines with
  | nil => exact ending
  | cons first others ih =>
    cases others with
    | nil => simp [spellings, totalWeight_append, ending]
    | cons second others =>
      have start : totalWeight (Spelling.lineEnd :: spellings (second :: others)) =
          totalWeight (spellings (second :: others)) := by
        rw [← List.singleton_append, totalWeight_append, ending, Nat.zero_add]
      rw [spellings_cons, totalWeight_append, start, ih, ← totalWeight_append]
      rfl

/-- Parts that together are as long as the wholes are so one by one. -/
theorem length_eq_of_flatMap {α β : Type} {f g : α → List β} {list : List α}
    (each : ∀ a ∈ list, (f a).length ≤ (g a).length)
    (same : (list.flatMap f).length = (list.flatMap g).length) :
    ∀ a ∈ list, (f a).length = (g a).length := by
  have total : ∀ rest : List α, (∀ a ∈ rest, (f a).length ≤ (g a).length) →
      (rest.flatMap f).length ≤ (rest.flatMap g).length := by
    intro rest short
    rw [List.length_flatMap, List.length_flatMap]
    exact List.sum_le_sum short
  induction list with
  | nil => simp
  | cons first others ih =>
    obtain ⟨here, later⟩ := List.forall_mem_cons.mp each
    have rest := total others later
    rw [List.flatMap_cons, List.flatMap_cons, List.length_append, List.length_append] at same
    exact List.forall_mem_cons.mpr ⟨by omega, ih later (by omega)⟩

namespace Formatted

variable {source out : String} {body : List Token} {front back : List Portion}

/-- If no significant character is missing, the lines show all that is visible. -/
theorem shown_eq_visible (formatted : Formatted source out body front back)
    (lossless : Format.groovy.isLossless source out = true) :
    (front ++ back).flatMap (fun portion => portion.line.spellings) = visible body := by
  refine eq_of_totalWeight_le formatted.shown_sublist ?_ ?_
  · intro spelling member
    obtain ⟨filled, -, legible⟩ := formatted.of_mem_visible member
    exact weight_pos legible filled
  · have characters : source.toList.filter isSignificant = out.toList.filter isSignificant := by
      rw [← significantInGroovy_eq, ← significantInGroovy_eq]
      exact beq_iff_eq.mp lossless
    have outWeight : (out.toList.filter isSignificant).length =
        totalWeight ((front ++ back).flatMap fun portion => portion.line.spellings) := by
      rw [formatted.written.weight, Script.totalWeight_spellings, List.flatMap_map]
    -- Gaps of the source may hold significant characters, those of comments, which only add to its
    -- weight.
    calc totalWeight (visible body)
      _ ≤ totalWeight (body.map Token.spelling) := totalWeight_sublist (visible_sublist body)
      _ = ((body.flatMap fun token => token.text.toList).filter isSignificant).length :=
        (weight_flatMap body).symm
      _ ≤ (source.toList.filter isSignificant).length := (formatted.inside.filter _).length_le
      _ = totalWeight ((front ++ back).flatMap fun portion => portion.line.spellings) := by
        rw [characters, outWeight]

/-- If no significant character is missing, every line shows the whole of its statement. -/
theorem complete (formatted : Formatted source out body front back)
    (lossless : Format.groovy.isLossless source out = true) :
    ∀ portion ∈ front ++ back, portion.line.Full ∧
      portion.segment.map Token.spelling = portion.line.spellings := by
  have whole := formatted.shown_eq_visible lossless
  rw [formatted.portioned.laid.visible_eq, List.flatMap_map] at whole
  intro portion member
  have shows := (formatted.portioned.sound portion member).shows
  refine shows.complete (length_eq_of_flatMap ?_ (congrArg List.length whole) portion member)
  exact fun portion member => (formatted.portioned.sound portion member).shows.sublist.length_le

end Formatted

theorem Line.Full.spellings_ne_nil {line : Line} (full : line.Full) : line.spellings ≠ [] := by
  cases line with
  | package names => exact List.cons_ne_nil _ _
  | command head arguments =>
    obtain ⟨spelling, rfl⟩ := Option.isSome_iff_exists.mp full.1
    exact List.cons_ne_nil _ _

/-- A text that loses no significant character of its source loses, adds, merges, splits or moves no
token of it, and no boundary between statements moves: only the separators are put in order. -/
theorem format_keeps_tokens {options : LayoutOptions} {source out : String}
    (success : Format.groovy.format options source = .ok out)
    (lossless : Format.groovy.isLossless source out = true) :
    ∃ before after, tokenize source = .ok before ∧ tokenize out = .ok after ∧
      after.map Token.spelling = Spelling.normalized (before.map Token.spelling) := by
  obtain ⟨body, front, back, formatted⟩ := format_formatted success
  obtain ⟨last, lexed, ended⟩ := formatted.tokens
  obtain ⟨after, reread, spelled⟩ := formatted.reread
  refine ⟨_, after, lexed, reread, ?_⟩
  have complete := formatted.complete lossless
  have filled : ∀ segment ∈ (front ++ back).map Portion.segment,
      segment ≠ [] ∧ ∀ token ∈ segment, token.kind.isSeparator = false := by
    intro segment member
    obtain ⟨portion, inside, rfl⟩ := List.mem_map.mp member
    obtain ⟨full, same⟩ := complete portion inside
    refine ⟨?_, ?_⟩
    · intro empty
      rw [empty] at same
      exact full.spellings_ne_nil same.symm
    · intro token found
      have shown : token.spelling ∈ portion.line.spellings := same ▸ List.mem_map_of_mem found
      exact (formatted.of_mem_line _ (List.mem_map_of_mem inside) _ shown).1
  have runs : Spelling.runs (body.map Token.spelling) =
      ((front ++ back).map Portion.line).map Line.spellings := by
    rw [formatted.portioned.laid.runs_eq filled, List.map_map, List.map_map]
    exact List.map_congr_left fun portion member => (complete portion member).2
  have inner :
      ((body ++ [last]).map Token.spelling).filter (fun spelling => spelling.1 != .endOfInput) =
      body.map Token.spelling := by
    have kept : ∀ spelling ∈ body.map Token.spelling, (spelling.1 != .endOfInput) = true := by
      intro spelling member
      obtain ⟨token, found, rfl⟩ := List.mem_map.mp member
      exact bne_iff_ne.mpr (formatted.legible token found).kind_ne_endOfInput
    rw [List.map_append, List.filter_append, List.filter_eq_self.mpr kept]
    simp [ended]
  rw [spelled, Spelling.normalized, inner, runs, Script.spellings, List.append_assoc]
  rfl

/-- Separators at the start, several in a row and none at the end are put in order. -/
theorem format_keeps_tokens_of_package :
    Format.groovy.format {} ";package a.b;;foo 'x', 1 ;\r\nBar 2" =
      .ok "package a.b\nfoo 'x', 1\nBar 2\n" ∧
    Format.groovy.isLossless ";package a.b;;foo 'x', 1 ;\r\nBar 2"
      "package a.b\nfoo 'x', 1\nBar 2\n" = true ∧
    ∃ before after, tokenize ";package a.b;;foo 'x', 1 ;\r\nBar 2" = .ok before ∧
      tokenize "package a.b\nfoo 'x', 1\nBar 2\n" = .ok after ∧
      after.map Token.spelling = Spelling.normalized (before.map Token.spelling) := by
  have success : Format.groovy.format {} ";package a.b;;foo 'x', 1 ;\r\nBar 2" =
      .ok "package a.b\nfoo 'x', 1\nBar 2\n" := by
    decide +kernel
  have lossless : Format.groovy.isLossless ";package a.b;;foo 'x', 1 ;\r\nBar 2"
      "package a.b\nfoo 'x', 1\nBar 2\n" = true := by
    decide +kernel
  exact ⟨success, lossless, format_keeps_tokens success lossless⟩

end GroovyTidy
