import GroovyTidy.Proofs.Command.Files
import GroovyTidy.Proofs.Format.Stable

set_option autoImplicit false

/-!
What a checking run tells about a writing run over the same files. What is written over a file
formats to itself, so no file is written over twice, whatever paths lead to it, and a writing run
changes something exactly if it starts with a file that is to be written over. A checking run
notices such files, and besides them the files whose output drops text, which a writing run leaves
as they are.
-/
namespace GroovyTidy.Command

namespace Plan

/-- The source in an entry has an output that may be written over it. -/
def Replaces (plan : Plan) (entry : Option (Option (List UInt8))) (output : String) : Prop :=
  ∃ bytes source, entry = some (some bytes) ∧ Text.ofBytes? bytes = some source ∧
    plan.stage.run .groovy plan.settings.layout source = .ok output ∧ output ≠ source ∧
    Format.groovy.isLossless source output = true

/-- The output for the file at a path lacks text of the source in it. -/
def Drops (plan : Plan) (tree : FileTree) (path : String) : Prop :=
  ∃ source output, plan.Yields tree path source output ∧
    Format.groovy.isLossless source output = false

section Entries

variable {plan : Plan} {tree : FileTree} {path output : String} {names : List String}

theorem rewrites_iff_replaces (write : plan.mode = .write) (located : tree.locate path = .ok names)
    (output : String) :
    plan.Rewrites tree path output ↔ plan.Replaces (tree.look names) output := by
  constructor
  · rintro ⟨-, source, ⟨bytes, readable, decoded, success⟩, differs, lossless⟩
    obtain ⟨reached, again, found⟩ := FileTree.read_eq_ok readable
    rw [located] at again
    cases again
    exact ⟨bytes, source, found, decoded, success, differs, lossless⟩
  · rintro ⟨bytes, source, found, decoded, success, differs, lossless⟩
    refine ⟨write, source, ⟨bytes, ?_, decoded, success⟩, differs, lossless⟩
    rw [FileTree.read_of_locate located, found]

theorem Replaces.unique {entry : Option (Option (List UInt8))} {other : String}
    (replaces : plan.Replaces entry output) (again : plan.Replaces entry other) :
    other = output := by
  obtain ⟨bytes, source, rfl, decoded, success, -, -⟩ := replaces
  obtain ⟨_, _, found, decodedAgain, successAgain, -, -⟩ := again
  cases found
  rw [decoded] at decodedAgain
  cases decodedAgain
  rw [success] at successAgain
  cases successAgain
  rfl

/-- What is written over a source formats to itself, so nothing is to be written over it. -/
theorem Replaces.not_again (formatted : plan.stage = .formatted)
    {entry : Option (Option (List UInt8))} (replaces : plan.Replaces entry output)
    (other : String) : ¬ plan.Replaces (some (some (Text.toBytes output))) other := by
  obtain ⟨bytes, source, -, -, success, -, lossless⟩ := replaces
  rintro ⟨_, again, found, decoded, successAgain, differs, -⟩
  cases found
  rw [Text.ofBytes?_toBytes] at decoded
  cases decoded
  rw [formatted] at success successAgain
  obtain ⟨body, front, back, result⟩ := format_formatted success
  obtain ⟨unit, read, text⟩ := result.reparse lossless
  have stable : Stage.formatted.run .groovy plan.settings.layout output = .ok output := by
    rw [Stage.run, format_of_parse read, text]
  rw [stable] at successAgain
  exact differs (Except.ok.inj successAgain).symm

/-- The output for a file is another text exactly if it may be written over the file or drops
text. -/
theorem differs_iff_rewrites_or_drops (plan : Plan) (tree : FileTree) (path : String) :
    plan.Differs tree path ↔
      (∃ output, { plan with mode := .write }.Rewrites tree path output) ∨
      plan.Drops tree path := by
  constructor
  · rintro ⟨source, output, yields, differs⟩
    cases lossless : Format.groovy.isLossless source output with
    | true => exact Or.inl ⟨output, rfl, source, yields, differs, lossless⟩
    | false => exact Or.inr ⟨source, output, yields, lossless⟩
  · rintro (⟨output, -, source, yields, differs, -⟩ | ⟨source, output, yields, lossy⟩)
    · exact ⟨source, output, yields, differs⟩
    · refine ⟨source, output, yields, ?_⟩
      rintro rfl
      have kept : Format.groovy.isLossless output output = true := beq_self_eq_true _
      rw [kept] at lossy
      cases lossy

end Entries

/-! ## A writing run -/

/-- What a writing run over paths has made of the files. -/
structure Rewritten (plan : Plan) (before : FileTree) (paths : List String) (after : FileTree) :
    Prop where
  located : ∀ path, after.locate path = before.locate path
  entries : ∀ names, after.look names = before.look names ∨
    ∃ output, plan.Replaces (before.look names) output ∧
      after.look names = some (some (Text.toBytes output))
  reached : ∀ path ∈ paths, ∀ names output, before.locate path = .ok names →
    plan.Replaces (before.look names) output → after.look names = some (some (Text.toBytes output))

section Writing

variable {plan : Plan} {before between after : FileTree} {path : String} {paths : List String}
  {status : Status}

theorem Handled.rewritten (handled : plan.Handled before path status after)
    (write : plan.mode = .write) : plan.Rewritten before [path] after where
  located := handled.locate_eq
  entries := by
    intro names
    by_cases written : ∃ output, plan.Rewrites before path output
    · obtain ⟨output, rewrites⟩ := written
      obtain ⟨place, old, reached, -, changed⟩ := handled.written output rewrites
      by_cases here : names = place
      · subst here
        refine Or.inr ⟨output, (rewrites_iff_replaces write reached output).mp rewrites, ?_⟩
        rw [changed, if_pos rfl]
      · left
        rw [changed, if_neg here]
    · left
      rw [handled.kept fun output rewrites => written ⟨output, rewrites⟩]
  reached := by
    intro other member names output reached replaces
    obtain rfl := List.mem_singleton.mp member
    have rewrites := (rewrites_iff_replaces write reached output).mpr replaces
    obtain ⟨place, old, again, -, changed⟩ := handled.written output rewrites
    rw [reached] at again
    cases again
    rw [changed, if_pos rfl]

/-- An entry that one file has changed is left alone by the others. -/
theorem Rewritten.cons (formatted : plan.stage = .formatted)
    (first : plan.Rewritten before [path] between) (rest : plan.Rewritten between paths after) :
    plan.Rewritten before (path :: paths) after := by
  have settled : ∀ names output, plan.Replaces (before.look names) output →
      between.look names = some (some (Text.toBytes output)) →
      after.look names = some (some (Text.toBytes output)) := by
    intro names output replaces changed
    rcases rest.entries names with same | ⟨other, again, -⟩
    · rw [same, changed]
    · rw [changed] at again
      exact absurd again (replaces.not_again formatted other)
  refine ⟨fun other => (rest.located other).trans (first.located other), ?_, ?_⟩
  · intro names
    rcases first.entries names with same | ⟨output, replaces, changed⟩
    · rw [← same]
      exact rest.entries names
    · exact Or.inr ⟨output, replaces, settled names output replaces changed⟩
  · intro other member names output located replaces
    rcases first.entries names with same | ⟨written, again, changed⟩
    · rcases List.mem_cons.mp member with rfl | later
      · exact settled names output replaces
          (first.reached other List.mem_cons_self names output located replaces)
      · rw [← first.located] at located
        rw [← same] at replaces
        exact rest.reached other later names output located replaces
    · obtain rfl := replaces.unique again
      exact settled names written replaces changed

theorem processFiles_rewritten (plan : Plan) (formatted : plan.stage = .formatted)
    (write : plan.mode = .write) (several : Bool) (paths : List String) (world : World) :
    plan.Rewritten world.files paths (plan.processFiles several paths world).2.files := by
  induction paths generalizing world with
  | nil => exact ⟨fun _ => rfl, fun _ => Or.inl rfl, fun _ member => absurd member List.not_mem_nil⟩
  | cons path paths ih =>
    exact ((plan.processFile_handled several path world).rewritten write).cons formatted (ih _)

/-- Some file changes exactly if the output for some file is to be written over it. -/
theorem Rewritten.changes (rewritten : plan.Rewritten before paths after)
    (write : plan.mode = .write) :
    (∃ path ∈ paths, after.read path ≠ before.read path) ↔
      ∃ path ∈ paths, ∃ output, plan.Rewrites before path output := by
  refine exists_congr fun path => and_congr_right fun member => ?_
  cases located : before.locate path with
  | error failure =>
    have same := FileTree.read_of_not_located ((rewritten.located path).trans located)
    rw [same, FileTree.read_of_not_located located]
    refine ⟨fun differs => absurd rfl differs, ?_⟩
    rintro ⟨output, -, source, ⟨bytes, readable, -⟩, -⟩
    rw [FileTree.read_of_not_located located] at readable
    cases readable
  | ok names =>
    have still := (rewritten.located path).trans located
    constructor
    · intro differs
      rcases rewritten.entries names with same | ⟨output, replaces, -⟩
      · rw [FileTree.read_of_locate still, FileTree.read_of_locate located, same] at differs
        exact absurd rfl differs
      · exact ⟨output, (rewrites_iff_replaces write located output).mpr replaces⟩
    · rintro ⟨output, rewrites⟩ same
      have replaces := (rewrites_iff_replaces write located output).mp rewrites
      have readable : after.read path = .ok (Text.toBytes output) := by
        rw [FileTree.read_of_locate still,
          rewritten.reached path member names output located replaces]
      obtain ⟨reached, again, found⟩ := FileTree.read_eq_ok (same ▸ readable)
      rw [located] at again
      cases again
      exact rewrites.look_ne located found

end Writing

/-! ## A checking run -/

/-- Files that are only read are treated each by what is in it, whatever paths lead to them. -/
theorem processFiles_treated_of_reading (plan : Plan) (reading : plan.mode ≠ .write)
    (several : Bool) (paths : List String) (world : World) :
    plan.Treated world.files paths (plan.processFiles several paths world).1
      (plan.processFiles several paths world).2.files := by
  induction paths generalizing world with
  | nil => exact .nil plan world.files
  | cons path paths ih =>
    have handled := plan.processFile_handled several path world
    refine Treated.cons handled (ih _) fun other _ => ?_
    rw [handled.kept]
    rintro output ⟨write, -⟩
    exact reading write

/-- A checking run notices what a writing run would change, and output that drops text. -/
theorem processFiles_check_iff (plan : Plan) (formatted : plan.stage = .formatted) (several : Bool)
    (paths : List String) (world : World)
    (legible : ∀ path ∈ paths, ∃ source output, plan.Yields world.files path source output) :
    ({ plan with mode := .check }.processFiles several paths world).1.code = 1 ↔
      (∃ path ∈ paths,
        ({ plan with mode := .write }.processFiles several paths world).2.files.read path ≠
        world.files.read path) ∨
      ∃ path ∈ paths, plan.Drops world.files path := by
  have effect :=
    ({ plan with mode := .check }.processFiles_treated_of_reading (by simp) several paths
      world).effect
  have rewritten :=
    { plan with mode := .write }.processFiles_rewritten formatted rfl several paths world
  have passes : ¬ ∃ path ∈ paths, { plan with mode := .check }.Fails world.files path := by
    rintro ⟨path, member, fails⟩
    obtain ⟨source, output, yields⟩ := legible path member
    exact Yields.not_fails yields fails
  have differs : (∃ path ∈ paths, plan.Differs world.files path) ↔
      (∃ path ∈ paths, ∃ output, { plan with mode := .write }.Rewrites world.files path output) ∨
      ∃ path ∈ paths, plan.Drops world.files path := by
    simp only [differs_iff_rewrites_or_drops, and_or_left, exists_or]
  rw [effect.wouldChange, rewritten.changes rfl, ← differs]
  exact ⟨fun noticed => noticed.2.2, fun noticed => ⟨passes, rfl, noticed⟩⟩

theorem processPaths_check_iff (plan : Plan) (formatted : plan.stage = .formatted)
    (paths : List String) (world : World)
    (legible : ∀ path ∈ plan.collect world.files paths, ∃ source output,
      plan.Yields world.files path source output) :
    ({ plan with mode := .check }.processPaths paths world).1.code = 1 ↔
      (∃ path ∈ plan.collect world.files paths,
        ({ plan with mode := .write }.processPaths paths world).2.files.read path ≠
          world.files.read path) ∨
      ∃ path ∈ plan.collect world.files paths, plan.Drops world.files path := by
  unfold processPaths
  dsimp only
  have collected : ∀ mode,
      { plan with mode := mode }.collect world.files paths = plan.collect world.files paths :=
    fun _ => rfl
  have logged : ∀ mode event, { plan with mode := mode }.log world event = plan.log world event :=
    fun _ _ => rfl
  simp only [collected, logged]
  generalize loggedDef : plan.log world _ = logged
  have same : logged.files = world.files := by rw [← loggedDef, files_log]
  rw [← same] at legible ⊢
  exact plan.processFiles_check_iff formatted _ _ logged legible

end Plan

/-- A run over paths with formatted output treats the files that these stand for. -/
theorem run_of_paths {arguments : List String} {invocation : Invocation} {settings : Settings}
    {files : FileTree} (input : List UInt8) (asked : parse arguments = .run invocation)
    (paths : invocation.paths ≠ []) (settled : Settings.load files invocation.layers = .ok settings)
    (shown : invocation.shownStage = .formatted) :
    run arguments files input =
      let plan : Plan := ⟨.formatted, invocation.mode, settings, invocation.verbosity⟩
      .finished (plan.processPaths invocation.paths ⟨files, "", ""⟩).1
        (plan.processPaths invocation.paths ⟨files, "", ""⟩).2 := by
  rw [run, asked]
  dsimp only
  rw [Invocation.run_of_paths input paths settled (Or.inl shown), shown]

/-- For all files that the paths of a command line stand for, if each has an output: a checking run
ends with the code for changes exactly if a writing run changes one of these files, or the output
for one of them drops text. So it tells exactly if the writing run changes something, unless some
output drops text and nothing is written. -/
theorem check_notices_writes_and_drops (invocation : Invocation) {checking writing : List String}
    {settings : Settings} {files : FileTree} (input : List UInt8)
    (checks : parse checking = .run { invocation with check := true, write := false })
    (writes : parse writing = .run { invocation with check := false, write := true })
    (paths : invocation.paths ≠ []) (shown : invocation.shownStage = .formatted)
    (settled : Settings.load files invocation.layers = .ok settings) :
    let plan : Plan := ⟨.formatted, .check, settings, invocation.verbosity⟩
    let collected := plan.collect files invocation.paths
    (∀ path ∈ collected, ∃ source output, plan.Yields files path source output) →
    let changes :=
      ∃ path ∈ collected, ((run writing files input).files files).read path ≠ files.read path
    let drops := ∃ path ∈ collected, plan.Drops files path
    ((run checking files input).code = 1 ↔ changes ∨ drops) ∧
      (((run checking files input).code = 1 ↔ changes) ↔ (drops → changes)) := by
  intro plan collected legible changes drops
  have checked : run checking files input =
      .finished (plan.processPaths invocation.paths ⟨files, "", ""⟩).1
        (plan.processPaths invocation.paths ⟨files, "", ""⟩).2 :=
    run_of_paths input checks paths settled shown
  have written : run writing files input =
      .finished ({ plan with mode := .write }.processPaths invocation.paths ⟨files, "", ""⟩).1
        ({ plan with mode := .write }.processPaths invocation.paths ⟨files, "", ""⟩).2 :=
    run_of_paths input writes paths settled shown
  have noticed : (run checking files input).code = 1 ↔ changes ∨ drops := by
    unfold changes
    rw [checked, written]
    exact plan.processPaths_check_iff rfl invocation.paths ⟨files, "", ""⟩ legible
  refine ⟨noticed, ?_⟩
  rw [noticed]
  exact or_iff_left_iff_imp

/-- Two paths lead to one file, which is written over once. -/
theorem check_notices_writes_and_drops_of_alias :
    let files : FileTree := ⟨[("a.groovy", .file (Text.toBytes "x  1")), ("d", .directory [])]⟩
    (run ["--check", "a.groovy", "d/../a.groovy"] files []).code = 1 ∧
      ∃ path ∈ ["a.groovy", "d/../a.groovy"],
        ((run ["--write", "a.groovy", "d/../a.groovy"] files []).files files).read path ≠
          files.read path := by
  intro files
  let settings : Settings := ⟨{}, ["groovy", "gradle", "gvy", "gy", "gsh"]⟩
  let plan : Plan := ⟨.formatted, .check, settings, 0⟩
  let invocation : Invocation := { paths := ["a.groovy", "d/../a.groovy"] }
  have settled : Settings.load files invocation.layers = .ok settings := by rfl
  have checks : parse ["--check", "a.groovy", "d/../a.groovy"] =
      .run { invocation with check := true } := by
    decide +kernel
  have writes : parse ["--write", "a.groovy", "d/../a.groovy"] =
      .run { invocation with write := true } := by
    decide +kernel
  have collected : plan.collect files invocation.paths = ["a.groovy", "d/../a.groovy"] := by
    have expanded : ["a.groovy", "d/../a.groovy"].flatMap (plan.expand files) =
        ["a.groovy", "d/../a.groovy"] := by
      rfl
    rw [Plan.collect, expanded, List.mergeSort_of_pairwise (by decide +kernel)]
    decide +kernel
  have yields : ∀ path ∈ plan.collect files invocation.paths,
      plan.Yields files path "x  1" "x 1\n" := by
    intro path member
    refine ⟨Text.toBytes "x  1", ?_, Text.ofBytes?_toBytes _, by decide +kernel⟩
    rw [collected] at member
    rcases List.mem_pair.mp member with rfl | rfl
    · rfl
    · rfl
  have code : (run ["--check", "a.groovy", "d/../a.groovy"] files []).code = 1 := by
    rw [run_of_paths [] checks (by decide) settled rfl]
    change (plan.processPaths invocation.paths ⟨files, "", ""⟩).1.code = 1
    rw [Plan.processPaths, collected]
    decide +kernel
  refine ⟨code, ?_⟩
  have noticed := check_notices_writes_and_drops invocation [] checks writes (by decide) rfl settled
    fun path member => ⟨_, _, yields path member⟩
  rcases noticed.1.mp code with
    ⟨path, member, changed⟩ | ⟨path, member, source, output, again, lossy⟩
  · exact ⟨path, collected ▸ member, changed⟩
  · obtain ⟨rfl, rfl⟩ := (yields path member).unique again
    exact absurd lossy (by decide +kernel)

/-- Checking notices a file whose text would be dropped, and writing leaves it as it is. -/
theorem check_notices_unwritten :
    let files : FileTree := ⟨[("a.groovy", .file (Text.toBytes "def x = 1\n"))]⟩
    (run ["--check", "a.groovy"] files []).code = 1 ∧
      (run ["--write", "a.groovy"] files []).files files = files := by
  intro files
  let settings : Settings := ⟨{}, ["groovy", "gradle", "gvy", "gy", "gsh"]⟩
  let plan : Plan := ⟨.formatted, .check, settings, 0⟩
  let invocation : Invocation := { paths := ["a.groovy"] }
  have settled : Settings.load files invocation.layers = .ok settings := by rfl
  have checks : parse ["--check", "a.groovy"] = .run { invocation with check := true } := by
    decide +kernel
  have writes : parse ["--write", "a.groovy"] = .run { invocation with write := true } := by
    decide +kernel
  have collected : plan.collect files invocation.paths = ["a.groovy"] := by
    have expanded : ["a.groovy"].flatMap (plan.expand files) = ["a.groovy"] := by rfl
    rw [Plan.collect, expanded, List.mergeSort_singleton]
    rfl
  have yields : plan.Yields files "a.groovy" "def x = 1\n" "\n" :=
    ⟨Text.toBytes "def x = 1\n", rfl, Text.ofBytes?_toBytes _, by decide +kernel⟩
  constructor
  · rw [run_of_paths [] checks (by decide) settled rfl]
    change (plan.processPaths invocation.paths ⟨files, "", ""⟩).1.code = 1
    rw [Plan.processPaths, collected]
    decide +kernel
  · rw [run_of_paths [] writes (by decide) settled rfl]
    change ({ plan with mode := .write }.processPaths invocation.paths ⟨files, "", ""⟩).2.files =
      files
    rw [Plan.processPaths]
    change ({ plan with mode := .write }.processFiles _ (plan.collect files invocation.paths)
      ⟨files, "", ""⟩).2.files =
      files
    rw [collected]
    refine ({ plan with mode := .write }.processFile_handled _ "a.groovy" ⟨files, "", ""⟩).kept ?_
    rintro output ⟨-, source, again, -, lossless⟩
    obtain ⟨rfl, rfl⟩ := Plan.Yields.unique yields again
    exact absurd lossless (by decide +kernel)

end GroovyTidy.Command
