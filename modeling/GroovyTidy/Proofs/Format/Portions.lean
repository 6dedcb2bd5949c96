import GroovyTidy.Proofs.Format.Outline
import GroovyTidy.Proofs.Tree.Coverage

set_option autoImplicit false

/-!
The portions of a compilation unit: the segments of its tokens, which are its package and its
statements, with the line that is written for each of them. The segments make up the tokens, and the
lines make up the text.
-/
namespace GroovyTidy

open scoped Computability
open Production Printer

/-- Tokens of a source, and the line that is written for them. -/
structure Portion where
  segment : List Token
  line : Line

/-- The line can be read back, and it shows what is said of the segment. -/
structure Portion.Sound (portion : Portion) : Prop where
  valid : portion.line.Valid
  shows : Shows portion.line.spellings portion.segment portion.line.Full

theorem Sketches.portion {node : Node} {line : Line} (sketches : Sketches node line) :
    Portion.Sound ⟨node.tokens, line⟩ :=
  ⟨sketches.valid, sketches.shows⟩

/-! ## Separators -/

theorem separators_forest {forest : List Tree} (word : forest ∈ separator∗) :
    forest.filterMap Tree.node? = [] ∧
    ∀ token ∈ Tree.forestTokens forest, token.kind.isSeparator = true := by
  obtain ⟨words, rfl, each⟩ := Language.mem_kstar.mp word
  clear word
  induction words with
  | nil => exact ⟨rfl, by simp [Tree.forestTokens]⟩
  | cons first words ih =>
    obtain ⟨here, later⟩ := List.forall_mem_cons.mp each
    obtain ⟨token, separates, rfl⟩ := here
    obtain ⟨none, all⟩ := ih later
    refine ⟨none, ?_⟩
    simp only [List.flatten_cons, List.cons_append, List.nil_append, Tree.forestTokens, Tree.tokens,
      List.forall_mem_cons]
    exact ⟨separates, all⟩

/-- After a segment separators follow, if anything does. -/
theorem apart_of_separatorRun {run rest : List Tree} (word : run ∈ separatorRun) :
    ∀ token ∈ (Tree.forestTokens (run ++ rest)).head?, token.kind.isSeparator = true := by
  have all := (separators_forest (Grammar.separatorRun_le word)).2
  have some := Grammar.separatorRun_tokens word
  rw [Tree.forestTokens_append]
  obtain ⟨first, others, shape⟩ := List.exists_cons_of_length_pos some
  rw [shape] at all ⊢
  rintro token ⟨⟩
  exact all first List.mem_cons_self

/-! ## Statements -/

/-- A run of statements consists of segments, one for each of its nodes. -/
theorem statementRun_segments {item : Language Tree} (inside : item ≤ statement)
    {forest : List Tree} (word : forest ∈ statementRun item) :
    ∃ nodes : List Node, nodes ≠ [] ∧ forest.filterMap Tree.node? = nodes ∧
      (∀ node ∈ nodes, [node.tree] ∈ item) ∧
      Segments (nodes.map Node.tokens) (Tree.forestTokens forest) := by
  obtain ⟨front, started, last, ending, rfl⟩ := Language.mem_mul.mp word
  obtain ⟨first, firstWord, middle, repeated, rfl⟩ := Language.mem_mul.mp started
  obtain ⟨words, rfl, each⟩ := Language.mem_kstar.mp repeated
  obtain ⟨noNodes, separates⟩ := separators_forest ending
  clear word started repeated
  induction words generalizing first with
  | nil =>
    obtain ⟨kind, children, -, rfl⟩ := inside firstWord
    refine ⟨[⟨kind, children⟩], by simp, ?_, ?_, ?_⟩
    · simp [Tree.node?, noNodes]
    · simpa [Node.tree] using firstWord
    · have tail : Segments [] (Tree.forestTokens last) := .of_separators separates
      have whole := Segments.segment (Tree.forestTokens children)
        (fun token found => separates token (List.mem_of_mem_head? found)) tail
      simpa [Node.tokens, Tree.forestTokens, Tree.tokens] using whole
  | cons step words ih =>
    obtain ⟨here, later⟩ := List.forall_mem_cons.mp each
    obtain ⟨run, runWord, next, nextWord, rfl⟩ := Language.mem_mul.mp here
    obtain ⟨kind, children, -, rfl⟩ := inside firstWord
    obtain ⟨nodes, -, found, known, laid⟩ := ih next nextWord later
    obtain ⟨noRun, separatesRun⟩ := separators_forest (Grammar.separatorRun_le runWord)
    have shape : [Tree.node kind children] ++ ((run ++ next) :: words).flatten ++ last =
        .node kind children :: (run ++ (next ++ words.flatten ++ last)) := by
      simp
    rw [shape]
    refine ⟨⟨kind, children⟩ :: nodes, by simp, ?_, ?_, ?_⟩
    · rw [← found, List.filterMap_cons, List.filterMap_append, noRun]
      rfl
    · exact List.forall_mem_cons.mpr ⟨firstWord, known⟩
    · have tail := Segments.separators_append separatesRun laid
      rw [← Tree.forestTokens_append] at tail
      exact .segment (Tree.forestTokens children) (apart_of_separatorRun runWord) tail

/-- The portion is a statement from a language, and a command is written for it, which is empty
unless the statement is an expression. -/
def Portion.IsCommand (item : Language Tree) (portion : Portion) : Prop :=
  ∃ node head arguments, [Node.tree node] ∈ item ∧
    portion = ⟨node.tokens, .command head arguments⟩ ∧
    (head.isSome = true → node.kind = .expressionStatement)

theorem print_statements {children : List Tree} {nodes : List Node}
    (found : children.filterMap Tree.node? = nodes)
    (statements : ∀ node ∈ nodes, node.kind.isStatement = true) :
    (print ⟨.statements, children⟩).flat.toList =
      ['\n'].intercalate (nodes.map fun node => (print node).flat.toList) := by
  have below : Node.childNodes ⟨.statements, children⟩ = nodes := found
  have all : chosen .statements (nodes.map fun node => (node, print node)) =
      nodes.map fun node => (node, print node) := by
    rw [chosen, List.filter_eq_self]
    intro pair member
    obtain ⟨node, inside, rfl⟩ := List.mem_map.mp member
    exact statements node inside
  rw [Printer.print_eq]
  simp only [printWith, printNode, rule?, below, all, build, Doc.flat, flatParts_eq_map,
    String.toList_intercalate, List.map_map]
  rfl

theorem statements_portions {item : Language Tree} (inside : item ≤ statement)
    {children : List Tree} (word : children ∈ statementRun item)
    (conforms : (Tree.node .statements children).Conforms)
    (legible : Node.Legible ⟨.statements, children⟩) :
    ∃ portions : List Portion, portions ≠ [] ∧
      Segments (portions.map Portion.segment) (Tree.forestTokens children) ∧
      (print ⟨.statements, children⟩).flat.toList =
        ['\n'].intercalate ((portions.map Portion.line).map Line.text) ∧
      ∀ portion ∈ portions, portion.Sound ∧ portion.IsCommand item := by
  obtain ⟨nodes, some, found, known, laid⟩ := statementRun_segments inside word
  have statements : ∀ node ∈ nodes, node.kind.isStatement = true := by
    intro node member
    obtain ⟨kind, below, statement, shape⟩ := inside (known node member)
    cases shape
    exact statement
  have each : ∀ node ∈ nodes, ∃ portion : Portion, (portion.Sound ∧ portion.IsCommand item) ∧
      (node.tokens = portion.segment ∧ (print node).flat.toList = portion.line.text) := by
    intro node member
    have below : node ∈ Node.childNodes ⟨.statements, children⟩ := by rwa [Node.childNodes, found]
    have child : node.tree ∈ children := Node.mem_childNodes below
    obtain ⟨head, arguments, sketches, shown⟩ :=
      statement_sketch (statements node member) (conforms.children _ child) (legible.child child)
    exact ⟨_, ⟨sketches.portion, node, head, arguments, known node member, rfl, shown⟩, rfl,
      sketches.text⟩
  obtain ⟨portions, drawn, sound⟩ := exists_forall₂ each
  refine ⟨portions, ?_, ?_, ?_, sound⟩
  · rintro rfl
    cases drawn
    exact some rfl
  · rwa [← map_eq_of_forall₂ (drawn.imp fun _ _ drawn => drawn.1)]
  · rw [print_statements found statements, List.map_map]
    exact congrArg _ (map_eq_of_forall₂ (drawn.imp fun _ _ drawn => drawn.2))

/-! ## Compilation units -/

theorem print_unit {children : List Tree} {nodes : List Node}
    (found : children.filterMap Tree.node? = nodes)
    (known : ∀ node ∈ nodes, node.kind = .packageDeclaration ∨ node.kind = .statements) :
    (print ⟨.compilationUnit, children⟩).flat.toList =
      ['\n'].intercalate (nodes.map fun node => (print node).flat.toList) ++ ['\n'] := by
  have below : Node.childNodes ⟨.compilationUnit, children⟩ = nodes := found
  have all : chosen .compilationUnit (nodes.map fun node => (node, print node)) =
      nodes.map fun node => (node, print node) := by
    rw [chosen, List.filter_eq_self]
    intro pair member
    obtain ⟨node, inside, rfl⟩ := List.mem_map.mp member
    rcases known node inside with kind | kind <;> simp [kind]
  rw [Printer.print_eq]
  simp only [printWith, printNode, rule?, below, all, build, Doc.flat, Doc.flatParts,
    flatParts_eq_map, String.toList_join, String.toList_intercalate, List.map_map,
    List.flatMap_cons, List.flatMap_nil, List.append_nil]
  rfl

/-- Texts that read alike when they are joined do so after others. -/
theorem intercalate_append_congr {separator : List Char} {left right : List (List Char)}
    (same : separator.intercalate left = separator.intercalate right)
    (empty : left = [] ↔ right = []) (front : List (List Char)) :
    separator.intercalate (front ++ left) = separator.intercalate (front ++ right) := by
  by_cases none : left = []
  · rw [none, empty.mp none]
  · have some : right ≠ [] := fun nothing => none (empty.mpr nothing)
    induction front with
    | nil => exact same
    | cons first front ih =>
      rw [List.cons_append, List.cons_append, List.intercalate_cons_of_ne_nil (by simp [none]),
        List.intercalate_cons_of_ne_nil (by simp [some]), ih]

/-- A unit with a package or none and with a list of statements or none is printed as a script. -/
theorem print_unit_script {children : List Tree} {packages lists : List Node}
    {front back : List Line} (found : children.filterMap Tree.node? = packages ++ lists)
    (packageKinds : ∀ node ∈ packages, node.kind = .packageDeclaration)
    (listKinds : ∀ node ∈ lists, node.kind = .statements)
    (packageTexts : packages.map (fun node => (print node).flat.toList) = front.map Line.text)
    (listTexts : ['\n'].intercalate (lists.map fun node => (print node).flat.toList) =
      ['\n'].intercalate (back.map Line.text))
    (empty : lists = [] ↔ back = []) :
    (print ⟨.compilationUnit, children⟩).flat.toList = Script.text (front ++ back) := by
  have known : ∀ node ∈ packages ++ lists, node.kind = .packageDeclaration ∨
      node.kind = .statements := by
    intro node member
    rcases List.mem_append.mp member with package | list
    · exact .inl (packageKinds node package)
    · exact .inr (listKinds node list)
  rw [print_unit found known, Script.text, List.map_append, List.map_append, packageTexts]
  -- The list of statements is one part of the unit, and a line for each statement in the script.
  refine congrArg (· ++ ['\n']) (intercalate_append_congr listTexts ?_ _)
  rw [List.map_eq_nil_iff, List.map_eq_nil_iff, empty]

/-- The portions of a source: a package, if there is one, and commands. -/
structure Portioned (item : Language Tree) (tokens : List Token) (text : List Char)
    (front back : List Portion) : Prop where
  laid : Segments ((front ++ back).map Portion.segment) tokens
  text : text = Script.text ((front ++ back).map Portion.line)
  sound : ∀ portion ∈ front ++ back, portion.Sound
  package : front = [] ∨ ∃ segment names, front = [⟨segment, .package names⟩]
  commands : ∀ portion ∈ back, portion.IsCommand item

/-- A compilation unit has a package or none and statements or none, with separators around them. -/
theorem unitBody_parts {statements : Language Tree} {body : List Tree}
    (word : body ∈ unitBody statements) :
    ∃ lead front gap tail, body = lead ++ (front ++ (gap ++ tail)) ∧ lead ∈ separator∗ ∧
      gap ∈ separator∗ ∧
      (front = [] ∨ front ∈ nodeOf .packageDeclaration) ∧ (tail = [] ∨ tail ∈ statements) ∧
      (front = [] ∨ tail = [] ∨ gap ∈ separatorRun) := by
  obtain ⟨lead, separated, rest, restWord, rfl⟩ := Language.mem_mul.mp word
  rcases restWord with packaged | plain
  · obtain ⟨front, declared, after, afterWord, rfl⟩ := Language.mem_mul.mp packaged
    rcases afterWord with stated | gap
    · obtain ⟨gap, run, tail, tailWord, rfl⟩ := Language.mem_mul.mp stated
      exact ⟨lead, front, gap, tail, rfl, separated, Grammar.separatorRun_le run, .inr declared,
        .inr tailWord, .inr (.inr run)⟩
    · exact ⟨lead, front, after, [],
        by simp, separated, gap, .inr declared, .inl rfl, .inr (.inl rfl)⟩
  · refine ⟨lead, [], [], rest, rfl, separated, Language.nil_mem_kstar _, .inl rfl, ?_, .inl rfl⟩
    rcases plain with rfl | tailWord
    · exact .inl rfl
    · exact .inr tailWord

section

variable {item : Language Tree} (inside : item ≤ statement)
include inside

/-- The portions of the statements of a unit, if it has any. -/
theorem tail_portions {tail : List Tree} (word : tail = [] ∨ tail ∈ statementsOf item)
    (conforms : ∀ tree ∈ tail, tree.Conforms)
    (legible : ∀ token ∈ Tree.forestTokens tail, token.spelling.Legible) :
    ∃ (nodes : List Node) (back : List Portion), tail.filterMap Tree.node? = nodes ∧
      (∀ node ∈ nodes, node.kind = .statements) ∧
      ['\n'].intercalate (nodes.map fun node => (print node).flat.toList) =
        ['\n'].intercalate ((back.map Portion.line).map Line.text) ∧
        (nodes = [] ↔ back.map Portion.line = []) ∧
      Segments (back.map Portion.segment) (Tree.forestTokens tail) ∧
      ∀ portion ∈ back, portion.Sound ∧ portion.IsCommand item := by
  rcases word with rfl | ⟨children, statementsWord, rfl⟩
  · exact ⟨[], [], rfl, by simp, rfl, by simp, .nil, by simp⟩
  · have tokens : Tree.forestTokens [.node .statements children] = Tree.forestTokens children := by
      simp [Tree.forestTokens, Tree.tokens]
    rw [tokens] at legible ⊢
    obtain ⟨back, some, laid, text, known⟩ :=
      statements_portions inside statementsWord (conforms _ (List.mem_singleton_self _)) legible
    refine ⟨[⟨.statements, children⟩], back, rfl, by simp, ?_, by simp [some], laid, known⟩
    rw [List.map_singleton, List.intercalate_singleton, text]

omit inside in
/-- The portion of the package of a unit, if it has one. -/
theorem front_portions {front : List Tree} (word : front = [] ∨ front ∈ nodeOf .packageDeclaration)
    (conforms : ∀ tree ∈ front, tree.Conforms)
    (legible : ∀ token ∈ Tree.forestTokens front, token.spelling.Legible) :
    ∃ (nodes : List Node) (first : List Portion), front.filterMap Tree.node? = nodes ∧
      (∀ node ∈ nodes, node.kind = .packageDeclaration) ∧
      nodes.map (fun node => (print node).flat.toList) = (first.map Portion.line).map Line.text ∧
      (first = [] ∧ front = [] ∨
        front ≠ [] ∧ ∃ names, first = [⟨Tree.forestTokens front, .package names⟩]) ∧
      ∀ portion ∈ first, portion.Sound := by
  rcases word with rfl | declared
  · exact ⟨[], [], rfl, by simp, rfl, .inl ⟨rfl, rfl⟩, by simp⟩
  · obtain ⟨below, rfl⟩ := mem_nodeOf.mp declared
    have tokens : Tree.forestTokens [.node .packageDeclaration below] =
        Tree.forestTokens below := by
      simp [Tree.forestTokens, Tree.tokens]
    rw [tokens] at legible ⊢
    obtain ⟨names, sketches⟩ := package_sketch (conforms _ (List.mem_singleton_self _)) legible
    refine ⟨[⟨.packageDeclaration, below⟩], [⟨Tree.forestTokens below, .package names⟩], rfl,
      by simp, ?_, .inr ⟨by simp, names, rfl⟩, ?_⟩
    · rw [List.map_singleton, List.map_singleton, List.map_singleton, sketches.text]
    · exact List.forall_mem_singleton.mpr sketches.portion

/-- A compilation unit consists of portions. -/
theorem unit_portions {body : List Tree} (word : body ∈ unitBody (statementsOf item))
    (conforms : ∀ tree ∈ body, tree.Conforms)
    (legible : ∀ token ∈ Tree.forestTokens body, token.spelling.Legible) (last : Token) :
    ∃ front back, Portioned item (Tree.forestTokens body)
      (print ⟨.compilationUnit, body ++ [.token last]⟩).flat.toList front back := by
  obtain ⟨lead, front, gap, tail, rfl, leadWord, gapWord, frontWord, tailWord, apart⟩ :=
    unitBody_parts word
  obtain ⟨noLead, leadSeparates⟩ := separators_forest leadWord
  obtain ⟨noGap, gapSeparates⟩ := separators_forest gapWord
  obtain ⟨packages, first, packageNodes, packageKinds, packageText, packageShape, packageSound⟩ :=
    front_portions frontWord (fun tree member => conforms tree (by simp [member]))
      (fun token member => legible token (by simp [member]))
  obtain ⟨lists, back, listNodes, listKinds, listText, listEmpty, listLaid, listKnown⟩ :=
    tail_portions inside tailWord (fun tree member => conforms tree (by simp [member]))
      (fun token member => legible token (by simp [member]))
  have nodes : (lead ++ (front ++ (gap ++ tail)) ++ [Tree.token last]).filterMap Tree.node? =
      packages ++ lists := by
    simp [List.filterMap_append, noLead, noGap, packageNodes, listNodes, Tree.node?]
  have gapLaid := Segments.separators_append gapSeparates listLaid
  refine ⟨first, back, ?_, ?_, ?_, ?_, ?_⟩
  · rw [Tree.forestTokens_append, Tree.forestTokens_append, Tree.forestTokens_append,
      List.map_append]
    refine Segments.separators_append leadSeparates ?_
    rcases packageShape with ⟨rfl, rfl⟩ | ⟨present, names, rfl⟩
    · exact gapLaid
    · -- Unless nothing follows the package, separators do.
      refine .segment (Tree.forestTokens front) ?_ gapLaid
      rcases apart with absent | rfl | run
      · exact absurd absent present
      · intro token found
        simp only [Tree.forestTokens, List.append_nil] at found
        exact gapSeparates token (List.mem_of_mem_head? found)
      · rw [← Tree.forestTokens_append]
        exact apart_of_separatorRun run
  · rw [List.map_append]
    exact print_unit_script nodes packageKinds listKinds packageText listText listEmpty
  · intro portion member
    rcases List.mem_append.mp member with package | list
    · exact packageSound portion package
    · exact (listKnown portion list).1
  · rcases packageShape with ⟨rfl, -⟩ | ⟨-, names, rfl⟩
    · exact .inl rfl
    · exact .inr ⟨_, names, rfl⟩
  · exact fun portion member => (listKnown portion member).2

end

end GroovyTidy
