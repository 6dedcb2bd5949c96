import GroovyTidy.Proofs.Doc.Rigid
import GroovyTidy.Proofs.Format.Runs
import GroovyTidy.Proofs.Format.Script
import GroovyTidy.Proofs.Tree.Production

set_option autoImplicit false

/-!
What printing shows of a tree that conforms to the grammar: a line for the package and for every
statement. A line shows all tokens of its statement, or fewer than there are besides separators.
-/
namespace GroovyTidy

open scoped Computability
open Production Printer

/-- The spellings of the tokens that are no separators. -/
def visible (tokens : List Token) : List Spelling :=
  (tokens.filter fun token => !token.kind.isSeparator).map Token.spelling

theorem visible_append (left right : List Token) :
    visible (left ++ right) = visible left ++ visible right := by
  simp only [visible, List.filter_append, List.map_append]

theorem visible_cons {token : Token} (filled : token.kind.isSeparator = false) (rest : List Token) :
    visible (token :: rest) = token.spelling :: visible rest := by
  simp [visible, filled]

/-- The spellings are found among the tokens in this order. If they are as many as the tokens that
are no separators, then they are all tokens, and the whole is shown. -/
structure Shows (shown : List Spelling) (tokens : List Token) (whole : Prop) : Prop where
  sublist : shown.Sublist (visible tokens)
  complete : shown.length = (visible tokens).length → whole ∧ tokens.map Token.spelling = shown

namespace Shows

variable {shown : List Spelling} {tokens : List Token} {whole : Prop}

theorem of_less (sublist : shown.Sublist (visible tokens))
    (less : shown.length < (visible tokens).length) : Shows shown tokens whole :=
  ⟨sublist, fun same => absurd same (Nat.ne_of_lt less)⟩

theorem token {token : Token} (filled : token.kind.isSeparator = false) (known : whole) :
    Shows [token.spelling] [token] whole := by
  refine ⟨?_, fun _ => ⟨known, rfl⟩⟩
  rw [visible_cons filled]
  exact (List.nil_sublist _).cons_cons _

theorem append {left right : List Spelling} {front back : List Token} {first second : Prop}
    (start : Shows left front first) (rest : Shows right back second) :
    Shows (left ++ right) (front ++ back) (first ∧ second) := by
  have frontShort := start.sublist.length_le
  have backShort := rest.sublist.length_le
  refine ⟨?_, fun same => ?_⟩
  · rw [visible_append]
    exact start.sublist.append rest.sublist
  · rw [visible_append, List.length_append, List.length_append] at same
    obtain ⟨frontWhole, frontSame⟩ := start.complete (by omega)
    obtain ⟨backWhole, backSame⟩ := rest.complete (by omega)
    exact ⟨⟨frontWhole, backWhole⟩, by rw [List.map_append, frontSame, backSame]⟩

theorem mono {wider : Prop} (shows : Shows shown tokens whole) (implies : whole → wider) :
    Shows shown tokens wider :=
  ⟨shows.sublist, fun same => ⟨implies (shows.complete same).1, (shows.complete same).2⟩⟩

/-- What follows is not shown, so unless nothing follows less than all is shown. -/
theorem extend (shows : Shows shown tokens whole) {more : List Tree}
    (conforms : ∀ tree ∈ more, tree.Conforms) (filled : ∀ tree ∈ more.head?, tree.isFilled = true) :
    Shows shown (tokens ++ Tree.forestTokens more) whole := by
  cases more with
  | nil => simpa only [Tree.forestTokens, List.append_nil] using shows
  | cons tree others =>
    obtain ⟨token, rest, shape, visibleToken⟩ :=
      (conforms tree (by simp)).first_token (filled tree rfl)
    have longer : visible (tokens ++ Tree.forestTokens (tree :: others)) =
        visible tokens ++ token.spelling :: visible (rest ++ Tree.forestTokens others) := by
      rw [visible_append, Tree.forestTokens, shape, List.cons_append, visible_cons visibleToken]
    refine of_less ?_ ?_
    · rw [longer]
      exact shows.sublist.trans (List.sublist_append_left _ _)
    · have short := shows.sublist.length_le
      rw [longer, List.length_append, List.length_cons]
      omega

end Shows

/-! ## Expressions -/

theorem Tree.mem_forestTokens {tree : Tree} {forest : List Tree} (member : tree ∈ forest)
    {token : Token} (inside : token ∈ tree.tokens) : token ∈ Tree.forestTokens forest := by
  obtain ⟨front, back, rfl⟩ := List.append_of_mem member
  rw [Tree.forestTokens_append, Tree.forestTokens]
  exact List.mem_append_right _ (List.mem_append_left _ inside)

/-- Every token under the node has a legible text. -/
def Node.Legible (node : Node) : Prop :=
  ∀ token ∈ node.tokens, token.spelling.Legible

theorem print_hidden {kind : NodeKind} (hidden : rule? kind = none) (children : List Tree) :
    (print ⟨kind, children⟩).flat = "" := by
  simp only [print_eq, printWith, printNode, hidden]
  rfl

/-- A rule that passes on shows the first child node. -/
theorem print_through {kind : NodeKind} (passes : rule? kind = some .through) (child : Node)
    (more : List Tree) : print ⟨kind, child.tree :: more⟩ = print child := by
  have first : ∀ below : List (Node × Doc), chosen kind below = below.take 1 := by
    intro below
    cases kind <;> first
      | rfl
      | cases passes
  simp only [print_eq ⟨kind, child.tree :: more⟩, printWith, printNode, passes, first]
  rfl

/-- The cell is what printing shows of the node. -/
structure Fills (node : Node) (cell : Cell) : Prop where
  text : (print node).flat.toList = cell.text
  valid : cell.Valid
  shows : Shows cell.toList node.tokens (cell.isSome = true)

theorem Fills.hidden {kind : NodeKind} (hidden : rule? kind = none)
    (inner : kind ≠ .compilationUnit) {children : List Tree}
    (conforms : (Tree.node kind children).Conforms) : Fills ⟨kind, children⟩ none := by
  refine ⟨?_, ?_, ?_⟩
  · rw [print_hidden hidden]
    rfl
  · intro spelling found
    cases found
  · obtain ⟨token, rest, shape, filled⟩ :=
      conforms.first_token (by simpa [Tree.isFilled] using inner)
    have tokens : Node.tokens ⟨kind, children⟩ = token :: rest := shape
    rw [tokens]
    refine .of_less (List.nil_sublist _) ?_
    rw [visible_cons filled]
    simp

theorem Fills.through {kind : NodeKind} (passes : rule? kind = some .through) {child : Node}
    {cell : Cell} (fills : Fills child cell) {more : List Tree}
    (conforms : ∀ tree ∈ more, tree.Conforms) (filled : ∀ tree ∈ more.head?, tree.isFilled = true) :
    Fills ⟨kind, child.tree :: more⟩ cell := by
  refine ⟨?_, fills.valid, ?_⟩
  · rw [print_through passes, fills.text]
  · exact fills.shows.extend conforms filled

/-- The rule for leaves shows the token. -/
theorem Fills.leaf {kind : NodeKind} (shown : rule? kind = some .leaf) {token : Token}
    (simple : token.spelling.isSimple = true) (legible : token.spelling.Legible) :
    Fills ⟨kind, [.token token]⟩ (some token.spelling) := by
  refine ⟨?_, ?_, ?_⟩
  · rw [print_eq]
    simp only [printWith, printNode, shown]
    rfl
  · rintro spelling ⟨⟩
    exact ⟨simple, legible⟩
  · exact .token (Spelling.filled_of_isSimple simple) rfl

theorem primary_fills {kind : NodeKind} (primary : isPrimary kind = true) {children : List Tree}
    (conforms : (Tree.node kind children).Conforms) (legible : Node.Legible ⟨kind, children⟩) :
    ∃ cell, Fills ⟨kind, children⟩ cell := by
  cases kind with
  | identifierPrimary =>
    obtain ⟨inside, rfl⟩ := mem_nodeOf.mp conforms.word
    obtain ⟨token, name, rfl⟩ := (conforms.children _ (List.mem_singleton_self _)).word
    have simple : token.spelling.isSimple = true := by
      simp [Spelling.isSimple, Token.spelling, name]
    have fills : Fills ⟨.identifier, [.token token]⟩ _ :=
      .leaf rfl simple (legible token (List.mem_singleton_self _))
    exact ⟨_, fills.through rfl (by simp) (by simp)⟩
  | literalPrimary =>
    obtain ⟨inside, rfl⟩ := mem_nodeOf.mp conforms.word
    obtain ⟨token, literal, rfl⟩ := (conforms.children _ (List.mem_singleton_self _)).word
    have simple : token.spelling.isSimple = true := by
      simp [Spelling.isSimple, Token.spelling, literal]
    have fills : Fills ⟨.literal, [.token token]⟩ _ :=
      .leaf rfl simple (legible token (List.mem_singleton_self _))
    exact ⟨_, fills.through rfl (by simp) (by simp)⟩
  | parenthesizedPrimary | closurePrimary | listPrimary =>
    exact ⟨none, .hidden rfl (by decide) conforms⟩
  | _ => cases primary

theorem Node.Legible.first {kind : NodeKind} {child : Node} {more : List Tree}
    (legible : Node.Legible ⟨kind, child.tree :: more⟩) : child.Legible := by
  intro token member
  exact legible token (List.mem_append_left _ member)

theorem Node.Legible.child {node child : Node} (legible : node.Legible)
    (member : child.tree ∈ node.children) : child.Legible := by
  intro token inside
  exact legible token (Tree.mem_forestTokens member inside)

/-- A path starts with a primary expression and goes on with its steps. -/
theorem path_word {trailer : PathTrailer} {children : List Tree}
    (word : children ∈ production (.pathExpression trailer)) :
    ∃ kind inside steps, isPrimary kind = true ∧ children = .node kind inside :: steps ∧
      ∀ step ∈ steps, step.isFilled = true := by
  have longer : children ∈
      nodeWhere isPrimary * (nodeOf .pathElement)∗ * Production.pathElement trailer →
      ∃ kind inside steps, isPrimary kind = true ∧ children = .node kind inside :: steps ∧
        ∀ step ∈ steps, step.isFilled = true := by
    intro word
    obtain ⟨front, started, last, ending, rfl⟩ := Language.mem_mul.mp word
    obtain ⟨_, ⟨kind, inside, primary, rfl⟩, middle, repeated, rfl⟩ := Language.mem_mul.mp started
    refine ⟨kind, inside, middle ++ last, primary, rfl, ?_⟩
    intro step member
    rcases List.mem_append.mp member with early | late
    · obtain ⟨words, rfl, each⟩ := Language.mem_kstar.mp repeated
      obtain ⟨word, found, here⟩ := List.mem_flatten.mp early
      obtain ⟨below, rfl⟩ := mem_nodeOf.mp (each word found)
      rw [List.mem_singleton.mp here]
      rfl
    · obtain ⟨below, -, rfl⟩ := ending
      rw [List.mem_singleton.mp late]
      rfl
  cases trailer with
  | bare =>
    obtain ⟨kind, inside, primary, rfl⟩ := word
    exact ⟨kind, inside, [], primary, rfl, by simp⟩
  | member | arguments | closure | index => exact longer word

theorem path_fills {trailer : PathTrailer} {children : List Tree}
    (conforms : (Tree.node (.pathExpression trailer) children).Conforms)
    (legible : Node.Legible ⟨.pathExpression trailer, children⟩) :
    ∃ cell, Fills ⟨.pathExpression trailer, children⟩ cell := by
  obtain ⟨kind, inside, steps, primary, rfl, filled⟩ := path_word conforms.word
  obtain ⟨first, others⟩ := List.forall_mem_cons.mp conforms.children
  obtain ⟨cell, fills⟩ := primary_fills primary first (Node.Legible.first legible)
  exact ⟨cell, fills.through rfl others fun step here => filled step (List.mem_of_mem_head? here)⟩

theorem postfix_fills {children : List Tree}
    (conforms : (Tree.node .postfixExpression children).Conforms)
    (legible : Node.Legible ⟨.postfixExpression, children⟩) :
    ∃ cell, Fills ⟨.postfixExpression, children⟩ cell := by
  obtain ⟨path, started, rest, optional, rfl⟩ := Language.mem_mul.mp conforms.word
  obtain ⟨kind, inside, isPath, rfl⟩ := started
  cases kind with
  | pathExpression trailer =>
    obtain ⟨first, others⟩ := List.forall_mem_cons.mp conforms.children
    obtain ⟨cell, fills⟩ := path_fills first (Node.Legible.first legible)
    refine ⟨cell, fills.through rfl others ?_⟩
    rcases optional with rfl | step
    · simp
    · obtain ⟨tree, _, rfl, filled⟩ := leafWhere_begins rfl rfl _ step
      rintro found ⟨⟩
      exact filled
  | _ => cases isPath

/-- Of an expression a name or a literal at its start is shown, or nothing. -/
theorem expression_fills {kind : NodeKind} (expression : isExpression kind = true)
    {children : List Tree} (conforms : (Tree.node kind children).Conforms)
    (legible : Node.Legible ⟨kind, children⟩) : ∃ cell, Fills ⟨kind, children⟩ cell := by
  cases kind with
  | postfixAlternative =>
    obtain ⟨inside, rfl⟩ := mem_nodeOf.mp conforms.word
    have below := conforms.children _ (List.mem_singleton_self _)
    obtain ⟨cell, fills⟩ := postfix_fills below (Node.Legible.first legible)
    exact ⟨cell, fills.through rfl (by simp) (by simp)⟩
  | assignmentAlternative => exact ⟨none, .hidden rfl (by decide) conforms⟩
  | _ => cases expression

/-! ## Lists with marks between their items -/

/-- The nodes, all of one kind, are the items of a forest in which tokens of one kind stand between
neighbours. -/
inductive Interleaved (mark : TokenKind) (kind : NodeKind) : List Node → List Tree → Prop where
  | single (children : List Tree) : Interleaved mark kind [⟨kind, children⟩] [.node kind children]
  | cons {nodes : List Node} {forest : List Tree} (children : List Tree) (token : Token)
      (marked : token.kind = mark) (rest : Interleaved mark kind nodes forest) :
      Interleaved mark kind (⟨kind, children⟩ :: nodes)
        (.node kind children :: .token token :: forest)

theorem interleaved_of_mem {mark : TokenKind} {kind : NodeKind} {forest : List Tree}
    (word : forest ∈ nodeOf kind * (leaf mark * nodeOf kind)∗) :
    ∃ nodes, Interleaved mark kind nodes forest := by
  obtain ⟨_, started, rest, repeated, rfl⟩ := Language.mem_mul.mp word
  obtain ⟨children, rfl⟩ := mem_nodeOf.mp started
  obtain ⟨words, rfl, each⟩ := Language.mem_kstar.mp repeated
  clear word started repeated
  induction words generalizing children with
  | nil => exact ⟨_, .single children⟩
  | cons first words ih =>
    obtain ⟨here, later⟩ := List.forall_mem_cons.mp each
    obtain ⟨_, marked, _, item, rfl⟩ := Language.mem_mul.mp here
    obtain ⟨token, same, rfl⟩ := mem_leaf.mp marked
    obtain ⟨inside, rfl⟩ := mem_nodeOf.mp item
    obtain ⟨nodes, more⟩ := ih inside later
    exact ⟨_, .cons children token same more⟩

namespace Interleaved

variable {mark : TokenKind} {kind : NodeKind} {nodes : List Node} {forest : List Tree}

theorem childNodes (list : Interleaved mark kind nodes forest) :
    forest.filterMap Tree.node? = nodes := by
  induction list with
  | single children => rfl
  | cons children token marked rest ih =>
    exact congrArg (List.cons _) ih

theorem mem_forest (list : Interleaved mark kind nodes forest) {node : Node}
    (member : node ∈ nodes) : node.tree ∈ forest := by
  have below : node ∈ Node.childNodes ⟨kind, forest⟩ := by
    rwa [Node.childNodes, list.childNodes]
  exact Node.mem_childNodes below

theorem ne_nil (list : Interleaved mark kind nodes forest) : nodes ≠ [] := by
  cases list <;> simp

theorem kind_eq (list : Interleaved mark kind nodes forest) : ∀ node ∈ nodes, node.kind = kind := by
  induction list with
  | single children => simp
  | cons children token marked rest ih => simpa using ih

/-- If a line shows each item by a cell, and the marks by their text, then it shows the list. -/
theorem shows {text : String} (fixed : mark.fixedText? = some text)
    (filled : mark.isSeparator = false) {shown : List (List Spelling)}
    {whole : List Spelling → Prop} (list : Interleaved mark kind nodes forest)
    (legible : ∀ token ∈ Tree.forestTokens forest, token.spelling.Legible)
    (each : List.Forall₂ (fun node part => Shows part node.tokens (whole part)) nodes shown) :
    Shows ([(mark, text)].intercalate shown) (Tree.forestTokens forest)
      (∀ part ∈ shown, whole part) := by
  induction list generalizing shown with
  | single children =>
    obtain ⟨part, here, rfl⟩ : ∃ part, Shows part _ (whole part) ∧ shown = [part] := by
      cases each with
      | cons here rest =>
        cases rest
        exact ⟨_, here, rfl⟩
    rw [List.intercalate_singleton, List.forall_mem_singleton, Tree.forestTokens, Tree.tokens,
      Tree.forestTokens, List.append_nil]
    exact here
  | @cons nodes forest children token marked rest ih =>
    have shape : Tree.forestTokens (.node kind children :: .token token :: forest) =
        Tree.forestTokens children ++ ([token] ++ Tree.forestTokens forest) := by
      simp only [Tree.forestTokens, Tree.tokens]
    rw [shape] at legible ⊢
    have spelled : token.spelling = (mark, text) := by
      have named := (legible token (by simp)).text_of_fixed (marked ▸ fixed)
      exact Prod.ext marked named
    have between : Shows [token.spelling] [token] True := .token (marked ▸ filled) trivial
    rw [spelled] at between
    cases each with
    | @cons _ part _ parts here others =>
      obtain ⟨next, parts, rfl⟩ : ∃ next more, parts = next :: more := by
        cases others with
        | nil => exact absurd rfl rest.ne_nil
        | cons first more => exact ⟨_, _, rfl⟩
      have back := ih (fun later member => legible later (by simp [member])) others
      rw [List.intercalate_cons_cons, List.append_assoc]
      refine (Shows.append here (between.append back)).mono ?_
      rintro ⟨first, -, more⟩
      exact List.forall_mem_cons.mpr ⟨first, more⟩

end Interleaved

/-! ## Lines -/

/-- The line is what printing shows of the node. -/
structure Sketches (node : Node) (line : Line) : Prop where
  text : (print node).flat.toList = line.text
  valid : line.Valid
  shows : Shows line.spellings node.tokens line.Full

theorem Sketches.hidden {node : Node} (fills : Fills node none) :
    Sketches node (.command none []) :=
  ⟨fills.text, ⟨fills.valid, by simp⟩, fills.shows.mono fun present => ⟨present, by simp⟩⟩

theorem Sketches.through {kind : NodeKind} (passes : rule? kind = some .through) {child : Node}
    {line : Line} (sketches : Sketches child line) : Sketches ⟨kind, [child.tree]⟩ line := by
  refine ⟨?_, sketches.valid, ?_⟩
  · rw [print_through passes, sketches.text]
  · simpa [Node.tokens, Node.tree, Tree.forestTokens, Tree.tokens] using sketches.shows

theorem exists_forall₂ {α β : Type} {relation : α → β → Prop} {property : β → Prop} {left : List α}
    (each : ∀ a ∈ left, ∃ b, property b ∧ relation a b) :
    ∃ right, List.Forall₂ relation left right ∧ ∀ b ∈ right, property b := by
  induction left with
  | nil => exact ⟨[], .nil, by simp⟩
  | cons first others ih =>
    obtain ⟨⟨b, known, here⟩, later⟩ := List.forall_mem_cons.mp each
    obtain ⟨right, more, all⟩ := ih later
    exact ⟨b :: right, .cons here more, List.forall_mem_cons.mpr ⟨known, all⟩⟩

theorem map_eq_of_forall₂ {α β γ : Type} {f : α → γ} {g : β → γ} {left : List α} {right : List β}
    (each : List.Forall₂ (fun a b => f a = g b) left right) : left.map f = right.map g := by
  induction each with
  | nil => rfl
  | cons here later ih => rw [List.map_cons, List.map_cons, here, ih]

theorem flatParts_eq_map (docs : List Doc) : Doc.flatParts docs = docs.map Doc.flat := by
  induction docs with
  | nil => rfl
  | cons doc docs ih => rw [Doc.flatParts, ih, List.map_cons]

/-- A list whose items are chosen is printed with a text between them. -/
theorem Interleaved.print_eq {mark : TokenKind} {outer kind : NodeKind} {nodes : List Node}
    {forest : List Tree} (list : Interleaved mark kind nodes forest) {separator : String}
    (separates : rule? outer = some (.separated separator))
    (chooses : ∀ below : List (Node × Doc),
      chosen outer below = below.filter fun child => child.1.kind == kind) :
    (print ⟨outer, forest⟩).flat.toList =
      separator.toList.intercalate (nodes.map fun node => (print node).flat.toList) := by
  have found : Node.childNodes ⟨outer, forest⟩ = nodes := list.childNodes
  have all : chosen outer (nodes.map fun node => (node, print node)) =
      nodes.map fun node => (node, print node) := by
    rw [chooses, List.filter_eq_self]
    intro pair member
    obtain ⟨node, inside, rfl⟩ := List.mem_map.mp member
    exact beq_iff_eq.mpr (list.kind_eq node inside)
  rw [Printer.print_eq]
  simp only [printWith, printNode, separates, found, all, build, Doc.flat, flatParts_eq_map,
    String.toList_intercalate, List.map_map]
  rfl

theorem argumentList_cells {children : List Tree}
    (conforms : (Tree.node .argumentList children).Conforms)
    (legible : Node.Legible ⟨.argumentList, children⟩) :
    ∃ cells : List Cell, cells ≠ [] ∧
      (print ⟨.argumentList, children⟩).flat.toList = [',', ' '].intercalate (cells.map Cell.text) ∧
      (∀ cell ∈ cells, cell.Valid) ∧
      Shows ([Spelling.comma].intercalate (cells.map Option.toList)) (Tree.forestTokens children)
        (∀ cell ∈ cells, cell.isSome = true) := by
  obtain ⟨nodes, list⟩ := interleaved_of_mem conforms.word
  have each : ∀ node ∈ nodes, ∃ cell : Cell, cell.Valid ∧ Fills node cell := by
    rintro ⟨kind, inside⟩ member
    obtain rfl : kind = .argumentListElement := list.kind_eq _ member
    have child := list.mem_forest member
    obtain ⟨kind, below, expression, rfl⟩ := (conforms.children _ child).word
    have element := (conforms.children _ child).children _ (List.mem_singleton_self _)
    have readable : Node.Legible ⟨kind, below⟩ := Node.Legible.first (legible.child child)
    obtain ⟨cell, fills⟩ := expression_fills expression element readable
    exact ⟨cell, fills.valid, fills.through rfl (by simp) (by simp)⟩
  obtain ⟨cells, fills, valid⟩ := exists_forall₂ each
  refine ⟨cells, ?_, ?_, valid, ?_⟩
  · rintro rfl
    cases fills
    exact list.ne_nil rfl
  · rw [list.print_eq rfl fun _ => rfl]
    exact congrArg _ (map_eq_of_forall₂ (fills.imp fun _ _ fills => fills.text))
  · have parts : List.Forall₂ (fun node part => Shows part node.tokens (part ≠ [])) nodes
        (cells.map Option.toList) := by
      rw [List.forall₂_map_right_iff]
      exact fills.imp fun _ _ fills => fills.shows.mono (by simp [Option.isSome_iff_ne_none])
    refine (list.shows rfl rfl legible parts).mono ?_
    simp [Option.isSome_iff_ne_none]

theorem print_command_bare (expression : Node) :
    print ⟨.commandExpression, [expression.tree]⟩ = print expression := by
  rw [print_eq]
  rfl

theorem print_command (expression arguments : Node) :
    (print ⟨.commandExpression, [expression.tree, arguments.tree]⟩).flat.toList =
      (print expression).flat.toList ++ ' ' :: (print arguments).flat.toList := by
  have shape : print ⟨.commandExpression, [expression.tree, arguments.tree]⟩ =
      .concat [print expression, .text " ", print arguments] := by
    rw [print_eq]
    rfl
  rw [shape, Doc.flat, String.toList_join]
  simp [Doc.flatParts, Doc.flat]

theorem commandExpression_sketch {children : List Tree}
    (conforms : (Tree.node .commandExpression children).Conforms)
    (legible : Node.Legible ⟨.commandExpression, children⟩) :
    ∃ head arguments, Sketches ⟨.commandExpression, children⟩ (.command head arguments) := by
  obtain ⟨_, ⟨kind, inside, expression, rfl⟩, rest, optional, rfl⟩ :=
    Language.mem_mul.mp conforms.word
  have started := conforms.children _ List.mem_cons_self
  obtain ⟨head, fills⟩ := expression_fills expression started (Node.Legible.first legible)
  rcases optional with rfl | list
  · refine ⟨head, [], ?_, ⟨fills.valid, by simp⟩, ?_⟩
    · have shape : print ⟨.commandExpression, [.node kind inside]⟩ = print ⟨kind, inside⟩ :=
        print_command_bare ⟨kind, inside⟩
      rw [List.append_nil, shape, fills.text, Line.text_command]
      exact (List.append_nil _).symm
    · have shown : Shows head.toList (Tree.forestTokens inside) (Line.command head []).Full :=
        fills.shows.mono fun present => ⟨present, by simp⟩
      simpa [Line.spellings_command, Node.tokens, Tree.forestTokens, Tree.tokens] using shown
  · obtain ⟨below, rfl⟩ := mem_nodeOf.mp list
    have listed := conforms.children (.node .argumentList below) (by simp)
    have readable : Node.Legible ⟨.argumentList, below⟩ := legible.child (by simp [Node.tree])
    obtain ⟨cells, filled, text, valid, shows⟩ := argumentList_cells listed readable
    refine ⟨head, cells, ?_, ⟨fills.valid, valid⟩, ?_⟩
    · obtain ⟨first, others, rfl⟩ := List.exists_cons_of_ne_nil filled
      rw [Line.text_command, Line.argumentsText_cons, ← fills.text, ← text]
      exact print_command ⟨kind, inside⟩ ⟨.argumentList, below⟩
    · have shown : Shows _ _ (Line.command head cells).Full := fills.shows.append shows
      simpa [Line.spellings_command, Node.tokens, Tree.forestTokens, Tree.tokens] using shown

/-- Of a statement a command is shown, or nothing. -/
theorem statement_sketch {kind : NodeKind} (statement : kind.isStatement = true)
    {children : List Tree} (conforms : (Tree.node kind children).Conforms)
    (legible : Node.Legible ⟨kind, children⟩) :
    ∃ head arguments, Sketches ⟨kind, children⟩ (.command head arguments) ∧
      (head.isSome = true → kind = .expressionStatement) := by
  cases kind with
  | expressionStatement =>
    obtain ⟨inside, rfl⟩ := mem_nodeOf.mp conforms.word
    have alternative := conforms.children _ (List.mem_singleton_self _)
    have readable : Node.Legible ⟨.commandAlternative, inside⟩ := Node.Legible.first legible
    obtain ⟨below, rfl⟩ := mem_nodeOf.mp alternative.word
    have command := alternative.children _ (List.mem_singleton_self _)
    obtain ⟨head, arguments, sketches⟩ :=
      commandExpression_sketch command (Node.Legible.first readable)
    exact ⟨head, arguments, .through rfl (.through rfl sketches), fun _ => rfl⟩
  | importStatement | methodDeclarationStatement | localVariableDeclarationStatement
  | returnStatement =>
    exact ⟨none, [], .hidden (.hidden rfl (by decide) conforms), nofun⟩
  | _ => cases statement

/-- A name is shown as it is. -/
theorem identifier_name {children : List Tree}
    (conforms : (Tree.node .identifier children).Conforms)
    (legible : Node.Legible ⟨.identifier, children⟩) :
    ∃ name : Spelling, (name.1.isIdentifier = true ∧ name.Legible) ∧
      Fills ⟨.identifier, children⟩ (some name) := by
  obtain ⟨token, named, rfl⟩ := conforms.word
  have readable := legible token (List.mem_singleton_self _)
  have simple : token.spelling.isSimple = true := by simp [Spelling.isSimple, Token.spelling, named]
  exact ⟨token.spelling, ⟨named, readable⟩, .leaf rfl simple readable⟩

theorem qualifiedName_names {children : List Tree}
    (conforms : (Tree.node .qualifiedName children).Conforms)
    (legible : Node.Legible ⟨.qualifiedName, children⟩) :
    ∃ names : List Spelling,
      (print ⟨.qualifiedName, children⟩).flat.toList =
        ['.'].intercalate (names.map fun name => name.2.toList) ∧
      (∀ name ∈ names, name.1.isIdentifier = true ∧ name.Legible) ∧
      Shows ([Spelling.dot].intercalate (names.map fun name => [name])) (Tree.forestTokens children)
        (names ≠ []) := by
  obtain ⟨nodes, list⟩ := interleaved_of_mem conforms.word
  have each : ∀ node ∈ nodes, ∃ name : Spelling,
      (name.1.isIdentifier = true ∧ name.Legible) ∧ Fills node (some name) := by
    rintro ⟨kind, inside⟩ member
    obtain rfl : kind = .identifier := list.kind_eq _ member
    have child := list.mem_forest member
    exact identifier_name (conforms.children _ child) (legible.child child)
  obtain ⟨names, fills, valid⟩ := exists_forall₂ each
  refine ⟨names, ?_, valid, ?_⟩
  · rw [list.print_eq rfl fun _ => rfl]
    exact congrArg _ (map_eq_of_forall₂ (fills.imp fun _ _ fills => fills.text))
  · have parts : List.Forall₂ (fun node part => Shows part node.tokens True) nodes
        (names.map fun name => [name]) := by
      rw [List.forall₂_map_right_iff]
      exact fills.imp fun _ _ fills => fills.shows.mono fun _ => trivial
    refine (list.shows rfl rfl legible parts).mono fun _ => ?_
    rintro rfl
    cases fills
    exact list.ne_nil rfl

theorem print_package (word : Token) (below : List Tree) :
    (print ⟨.packageDeclaration, [.token word, .node .qualifiedName below]⟩).flat.toList =
      "package".toList ++ ' ' :: (print ⟨.qualifiedName, below⟩).flat.toList := by
  have shape : print ⟨.packageDeclaration, [.token word, .node .qualifiedName below]⟩ =
      .concat [.text "package ", print ⟨.qualifiedName, below⟩] := by
    rw [Printer.print_eq]
    rfl
  have start : "package ".toList = "package".toList ++ [' '] := by decide
  rw [shape, Doc.flat, String.toList_join]
  simp only [Doc.flatParts, Doc.flat, List.flatMap_cons, List.flatMap_nil, List.append_nil, start,
    List.append_assoc, List.cons_append, List.nil_append]

/-- Of a package everything is shown. -/
theorem package_sketch {children : List Tree}
    (conforms : (Tree.node .packageDeclaration children).Conforms)
    (legible : Node.Legible ⟨.packageDeclaration, children⟩) :
    ∃ names, Sketches ⟨.packageDeclaration, children⟩ (.package names) := by
  obtain ⟨_, marked, _, named, rfl⟩ := Language.mem_mul.mp conforms.word
  obtain ⟨token, word, rfl⟩ := mem_leaf.mp marked
  obtain ⟨inside, rfl⟩ := mem_nodeOf.mp named
  have below := conforms.children (.node .qualifiedName inside) (by simp)
  have readable : Node.Legible ⟨.qualifiedName, inside⟩ := legible.child (by simp [Node.tree])
  obtain ⟨names, text, valid, shows⟩ := qualifiedName_names below readable
  refine ⟨names, ?_, valid, ?_⟩
  · exact (print_package token inside).trans (by rw [text]; rfl)
  · have spelled : token.spelling = Spelling.package := by
      have named :=
        (legible token (by simp [Node.tokens, Tree.forestTokens, Tree.tokens])).text_of_package word
      exact Prod.ext word named
    have front : Shows [Spelling.package] [token] True := by
      rw [← spelled]
      exact .token (by simp [word, TokenKind.isSeparator]) trivial
    have tokens :
        Node.tokens ⟨.packageDeclaration, [.token token] ++ [.node .qualifiedName inside]⟩ =
        [token] ++ Tree.forestTokens inside := by
      simp [Node.tokens, Tree.forestTokens, Tree.tokens]
    rw [tokens]
    exact (front.append shows).mono And.right

end GroovyTidy
