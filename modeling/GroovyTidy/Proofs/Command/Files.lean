import GroovyTidy.Command.Run
import GroovyTidy.Proofs.FileTree
import GroovyTidy.Proofs.Text.Utf8
import Mathlib.Control.Monad.Basic

set_option autoImplicit false

/-!
What a run does to files, and the status it ends with. One file is treated at a time, and what that
does is told by the contents of this file alone; a run over many files that are apart does to each
what it would do to it alone.
-/
namespace GroovyTidy.Command

namespace Plan

/-- The file at a path holds a source, and the stage of the plan gives an output for it. -/
def Yields (plan : Plan) (tree : FileTree) (path source output : String) : Prop :=
  ∃ bytes, tree.read path = .ok bytes ∧ Text.ofBytes? bytes = some source ∧
    plan.stage.run .groovy plan.settings.layout source = .ok output

/-- The file at a path cannot be read, or the source in it is refused. -/
def Fails (plan : Plan) (tree : FileTree) (path : String) : Prop :=
  (∃ failure, tree.read path = .error failure) ∨
    ∃ bytes source error, tree.read path = .ok bytes ∧ Text.ofBytes? bytes = some source ∧
      plan.stage.run .groovy plan.settings.layout source = .error error

/-- The output for the file at a path is not the source in it. -/
def Differs (plan : Plan) (tree : FileTree) (path : String) : Prop :=
  ∃ source output, plan.Yields tree path source output ∧ output ≠ source

/-- The output for the file at a path is to be written over it. -/
def Rewrites (plan : Plan) (tree : FileTree) (path output : String) : Prop :=
  plan.mode = .write ∧ ∃ source, plan.Yields tree path source output ∧ output ≠ source ∧
    Format.groovy.isLossless source output = true

/-- What one file does to the status and to the files. -/
structure Handled (plan : Plan) (before : FileTree) (path : String) (status : Status)
    (after : FileTree) : Prop where
  failed : status = .failed ↔ plan.Fails before path
  wouldChange : status = .wouldChange ↔ plan.mode = .check ∧ plan.Differs before path
  kept : (∀ output, ¬ plan.Rewrites before path output) → after = before
  written : ∀ output, plan.Rewrites before path output →
    ∃ names old, before.locate path = .ok names ∧ before.look names = some (some old) ∧
      ∀ other, after.look other = if other = names then some (some (Text.toBytes output))
        else before.look other

/-! ## What the contents of a file decide -/

section Contents

variable {plan : Plan} {tree : FileTree} {path source output : String} {bytes : List UInt8}

theorem Yields.unique {otherSource otherOutput : String}
    (yields : plan.Yields tree path source output)
    (other : plan.Yields tree path otherSource otherOutput) :
    otherSource = source ∧ otherOutput = output := by
  obtain ⟨bytes, readable, decoded, success⟩ := yields
  obtain ⟨_, readAgain, decodedAgain, successAgain⟩ := other
  rw [readable] at readAgain
  cases readAgain
  rw [decoded] at decodedAgain
  cases decodedAgain
  rw [success] at successAgain
  cases successAgain
  exact ⟨rfl, rfl⟩

theorem Yields.not_fails (yields : plan.Yields tree path source output) :
    ¬ plan.Fails tree path := by
  obtain ⟨bytes, readable, decoded, success⟩ := yields
  rintro (⟨failure, unreadable⟩ | ⟨_, _, error, readAgain, decodedAgain, refused⟩)
  · rw [readable] at unreadable
    cases unreadable
  · rw [readable] at readAgain
    cases readAgain
    rw [decoded] at decodedAgain
    cases decodedAgain
    rw [success] at refused
    cases refused

theorem Yields.differs_iff (yields : plan.Yields tree path source output) :
    plan.Differs tree path ↔ output ≠ source := by
  constructor
  · rintro ⟨otherSource, otherOutput, other, differs⟩
    obtain ⟨rfl, rfl⟩ := yields.unique other
    exact differs
  · intro differs
    exact ⟨source, output, yields, differs⟩

theorem Yields.rewrites_iff (yields : plan.Yields tree path source output) (other : String) :
    plan.Rewrites tree path other ↔
      other = output ∧ plan.mode = .write ∧ output ≠ source ∧
      Format.groovy.isLossless source output = true := by
  constructor
  · rintro ⟨write, otherSource, again, differs, lossless⟩
    obtain ⟨rfl, rfl⟩ := yields.unique again
    exact ⟨rfl, write, differs, lossless⟩
  · rintro ⟨rfl, write, differs, lossless⟩
    exact ⟨write, source, yields, differs, lossless⟩

/-- A file that fails leaves all files as they are. -/
theorem Handled.of_fails (fails : plan.Fails tree path) : plan.Handled tree path .failed tree where
  failed := ⟨fun _ => fails, fun _ => rfl⟩
  wouldChange := by
    refine ⟨fun impossible => (nomatch impossible), ?_⟩
    rintro ⟨-, source, output, yields, -⟩
    exact absurd fails yields.not_fails
  kept := fun _ => rfl
  written := by
    rintro output ⟨-, source, yields, -⟩
    exact absurd fails yields.not_fails

/-- A file that is no text is passed over. -/
theorem Handled.of_skipped (readable : tree.read path = .ok bytes)
    (skipped : Text.ofBytes? bytes = none) : plan.Handled tree path .clean tree := by
  have none : ∀ source output, ¬ plan.Yields tree path source output := by
    rintro source output ⟨_, readAgain, decoded, -⟩
    rw [readable] at readAgain
    cases readAgain
    rw [skipped] at decoded
    cases decoded
  constructor
  · refine ⟨fun impossible => (nomatch impossible), ?_⟩
    rintro (⟨failure, unreadable⟩ | ⟨_, _, error, readAgain, decoded, -⟩)
    · rw [readable] at unreadable
      cases unreadable
    · rw [readable] at readAgain
      cases readAgain
      rw [skipped] at decoded
      cases decoded
  · refine ⟨fun impossible => (nomatch impossible), ?_⟩
    rintro ⟨-, source, output, yields, -⟩
    exact absurd yields (none source output)
  · exact fun _ => rfl
  · rintro output ⟨-, source, yields, -⟩
    exact absurd yields (none source output)

/-- A file with an output that is not written is left as it is. -/
theorem Handled.of_kept (yields : plan.Yields tree path source output) {status : Status}
    (passed : status ≠ .failed)
    (noticed : status = .wouldChange ↔ plan.mode = .check ∧ output ≠ source)
    (kept : ¬ (plan.mode = .write ∧ output ≠ source ∧
      Format.groovy.isLossless source output = true)) :
    plan.Handled tree path status tree where
  failed := ⟨fun failed => absurd failed passed, fun fails => absurd fails yields.not_fails⟩
  wouldChange := by rw [yields.differs_iff, noticed]
  kept := fun _ => rfl
  written := by
    intro other rewrites
    exact absurd ((yields.rewrites_iff other).mp rewrites).2 kept

/-- A file with an output that is written gets this output as its contents. -/
theorem Handled.of_written {names : List String} {old : List UInt8} {after : FileTree}
    (yields : plan.Yields tree path source output) (write : plan.mode = .write)
    (differs : output ≠ source) (lossless : Format.groovy.isLossless source output = true)
    (located : tree.locate path = .ok names) (found : tree.look names = some (some old))
    (changed : ∀ other,
      after.look other =
        if other = names then some (some (Text.toBytes output)) else tree.look other) :
    plan.Handled tree path .clean after where
  failed := ⟨fun impossible => (nomatch impossible), fun fails => absurd fails yields.not_fails⟩
  wouldChange := by
    refine ⟨fun impossible => (nomatch impossible), ?_⟩
    rintro ⟨check, -⟩
    rw [write] at check
    cases check
  kept := by
    intro none
    exact absurd ((yields.rewrites_iff output).mpr ⟨rfl, write, differs, lossless⟩) (none output)
  written := by
    intro other rewrites
    obtain ⟨rfl, -⟩ := (yields.rewrites_iff other).mp rewrites
    exact ⟨names, old, located, found, changed⟩

end Contents

/-! ## One file -/

section World

variable (plan : Plan) (world : World)

@[simp] theorem files_log (event : Event) : (plan.log world event).files = world.files := by
  unfold Plan.log World.log
  split <;> rfl

@[simp] theorem output_log (event : Event) : (plan.log world event).output = world.output := by
  unfold Plan.log World.log
  split <;> rfl

@[simp] theorem output_foldl_log (events : List Event) :
    (events.foldl plan.log world).output = world.output := by
  induction events generalizing world with
  | nil => rfl
  | cons event events ih => rw [List.foldl_cons, ih, output_log]

@[simp] theorem files_foldl_log (events : List Event) :
    (events.foldl plan.log world).files = world.files := by
  induction events generalizing world with
  | nil => rfl
  | cons event events ih => rw [List.foldl_cons, ih, files_log]

/-- There is one format only, so every path gets it. -/
theorem languageFor_eq (path : String) :
    (plan.languageFor path world).1 = .groovy ∧
    (plan.languageFor path world).2.files = world.files ∧
      (plan.languageFor path world).2.output = world.output := by
  have only : ∀ language, Registry.standard.forPath path = .ok language → language = .groovy := by
    intro language claimed
    unfold Registry.forPath at claimed
    dsimp only at claimed
    split at claimed
    · rename_i found first
      cases claimed
      exact List.mem_singleton.mp (List.mem_of_find?_eq_some first)
    · cases claimed
  unfold languageFor
  split
  · rename_i language claimed
    exact ⟨only language claimed, rfl, rfl⟩
  · exact ⟨rfl, plan.files_log world _, plan.output_log world _⟩

end World

variable {plan : Plan} {path source output : String} {bytes : List UInt8} {world : World}

theorem overwrite_handled (write : plan.mode = .write)
    (readable : world.files.read path = .ok bytes)
    (yields : plan.Yields world.files path source output) :
    plan.Handled world.files path (plan.overwrite .groovy path source output world).1
      (plan.overwrite .groovy path source output world).2.files := by
  have quiet : ∀ status : Status, status = .clean →
      (status = .wouldChange ↔ plan.mode = .check ∧ output ≠ source) := by
    rintro status rfl
    rw [write]
    simp
  unfold overwrite
  split
  · rename_i same
    refine .of_kept yields (by simp) (quiet _ rfl) ?_
    rintro ⟨-, differs, -⟩
    exact differs same
  · rename_i differs
    split
    · rename_i lossy
      rw [files_log]
      refine .of_kept yields (by simp) (quiet _ rfl) ?_
      rintro ⟨-, -, lossless⟩
      rw [lossless] at lossy
      cases lossy
    · rename_i kept
      obtain ⟨names, after, located, found, written, changed⟩ :=
        FileTree.write_of_read readable (Text.toBytes output)
      rw [written]
      dsimp only
      rw [files_log]
      refine .of_written yields write differs ?_ located found changed
      simpa using kept

theorem process_handled (readable : world.files.read path = .ok bytes)
    (decoded : Text.ofBytes? bytes = some source) :
    plan.Handled world.files path (plan.process .groovy path source world).1
      (plan.process .groovy path source world).2.files := by
  unfold process
  dsimp only
  have same := plan.files_foldl_log world (Event.ofSource plan.stage source)
  generalize (Event.ofSource plan.stage source).foldl plan.log world = logged at same
  rw [← same] at readable ⊢
  split
  · rename_i error refused
    exact .of_fails (Or.inr ⟨bytes, source, error, readable, decoded, refused⟩)
  · rename_i output success
    have yields : plan.Yields logged.files path source output := ⟨bytes, readable, decoded, success⟩
    split
    · rename_i print
      refine .of_kept yields (by simp) ?_ ?_
      · rw [print]
        simp
      · rw [print]
        simp
    · rename_i check
      split
      · rename_i unchanged
        refine .of_kept yields (by simp) ?_ ?_
        · simp [unchanged]
        · simp [unchanged]
      · rename_i differs
        refine .of_kept yields (by simp) ?_ ?_
        · simp [check, differs]
        · simp [check]
    · rename_i write
      exact overwrite_handled write readable yields

/-- One file does to the status and to the files what its contents decide. -/
theorem processFile_handled (plan : Plan) (several : Bool) (path : String) (world : World) :
    plan.Handled world.files path (plan.processFile several path world).1
      (plan.processFile several path world).2.files := by
  unfold processFile
  split
  · rename_i failure unreadable
    exact .of_fails (Or.inl ⟨failure, unreadable⟩)
  · rename_i bytes readable
    split
    · rename_i skipped
      rw [files_log]
      exact .of_skipped readable skipped
    · rename_i source decoded
      obtain ⟨language, same, -⟩ := plan.languageFor_eq world path
      dsimp only
      rw [language]
      generalize (plan.languageFor path world).2 = chosen at same
      have shown :
          (if several && plan.mode == .print then chosen.print ("==> " ++ path ++ " <==\n")
            else chosen).files = world.files := by
        rw [← same]
        split <;> rfl
      rw [← shown] at readable ⊢
      exact process_handled readable decoded

/-! ## All files -/

/-- Paths that lead to different entries. -/
def Apart (tree : FileTree) (left right : String) : Prop :=
  ∀ names, tree.locate left = .ok names → tree.locate right ≠ .ok names

/-- Paths are apart if no two of them lead to the same names. -/
theorem pairwise_apart {tree : FileTree} {paths : List String}
    (places : (paths.filterMap fun path => (tree.locate path).toOption).Nodup) :
    paths.Pairwise (Apart tree) := by
  rw [List.Nodup, List.pairwise_filterMap] at places
  refine places.imp ?_
  intro left right different names located locatedToo
  refine different names ?_ names ?_ rfl
  · rw [located]
    rfl
  · rw [locatedToo]
    rfl

/-- What files one after another do to the status and to the files. -/
structure Treated (plan : Plan) (before : FileTree) (paths : List String) (status : Status)
    (after : FileTree) : Prop where
  failed : status = .failed ↔ ∃ path ∈ paths, plan.Fails before path
  wouldChange : status = .wouldChange ↔
    plan.mode = .check ∧ (¬ ∃ path ∈ paths, plan.Fails before path) ∧
      ∃ path ∈ paths, plan.Differs before path
  kept : plan.mode ≠ .write → after = before
  contents : ∀ names,
    (∃ path ∈ paths, ∃ output, before.locate path = .ok names ∧ plan.Rewrites before path output ∧
      after.look names = some (some (Text.toBytes output))) ∨
    (∀ path ∈ paths, ∀ output, before.locate path = .ok names →
      ¬ plan.Rewrites before path output) ∧
      after.look names = before.look names

theorem worst_eq_failed (left right : Status) :
    left.worst right = .failed ↔ left = .failed ∨ right = .failed := by
  cases left <;> cases right <;> decide

theorem worst_eq_wouldChange (left right : Status) :
    left.worst right = .wouldChange ↔
      left ≠ .failed ∧ right ≠ .failed ∧ (left = .wouldChange ∨ right = .wouldChange) := by
  cases left <;> cases right <;> decide

section Frame

variable {before after : FileTree} {status : Status}

theorem Handled.locate_eq (handled : plan.Handled before path status after) (other : String) :
    after.locate other = before.locate other := by
  by_cases written : ∃ output, plan.Rewrites before path output
  · obtain ⟨output, rewrites⟩ := written
    obtain ⟨names, old, -, found, changed⟩ := handled.written output rewrites
    exact (FileTree.sameShape_of_look found changed).locate_eq other
  · rw [handled.kept (fun output rewrites => written ⟨output, rewrites⟩)]

/-- A file leaves those alone that are apart from it. -/
theorem Handled.read_eq (handled : plan.Handled before path status after) {other : String}
    (apart : Apart before path other) : after.read other = before.read other := by
  by_cases written : ∃ output, plan.Rewrites before path output
  · obtain ⟨output, rewrites⟩ := written
    obtain ⟨names, old, located, -, changed⟩ := handled.written output rewrites
    have same := handled.locate_eq other
    cases reached : before.locate other with
    | error failure =>
      rw [reached] at same
      rw [FileTree.read_of_not_located same, FileTree.read_of_not_located reached]
    | ok place =>
      rw [reached] at same
      rw [FileTree.read_of_locate same, FileTree.read_of_locate reached, changed, if_neg]
      rintro rfl
      exact apart place located reached
  · rw [handled.kept (fun output rewrites => written ⟨output, rewrites⟩)]

theorem yields_congr (same : after.read path = before.read path) (source output : String) :
    plan.Yields after path source output ↔ plan.Yields before path source output := by
  rw [Yields, same, Yields]

theorem fails_congr (same : after.read path = before.read path) :
    plan.Fails after path ↔ plan.Fails before path := by
  rw [Fails, same, Fails]

theorem differs_congr (same : after.read path = before.read path) :
    plan.Differs after path ↔ plan.Differs before path := by
  simp only [Differs, yields_congr same]

theorem rewrites_congr (same : after.read path = before.read path) (output : String) :
    plan.Rewrites after path output ↔ plan.Rewrites before path output := by
  simp only [Rewrites, yields_congr same]

end Frame

/-- After the first file come the others, which find their contents as they were. -/
theorem Treated.cons {before between after : FileTree} {first rest : Status} {paths : List String}
    (handled : plan.Handled before path first between)
    (treated : plan.Treated between paths rest after)
    (same : ∀ other ∈ paths, between.read other = before.read other) :
    plan.Treated before (path :: paths) (first.worst rest) after := by
  have fails : (∃ other ∈ paths, plan.Fails between other) ↔
      ∃ other ∈ paths, plan.Fails before other :=
    exists_congr fun other => and_congr_right fun member => fails_congr (same other member)
  have differs : (∃ other ∈ paths, plan.Differs between other) ↔
      ∃ other ∈ paths, plan.Differs before other :=
    exists_congr fun other => and_congr_right fun member => differs_congr (same other member)
  have restFailed := treated.failed.trans fails
  constructor
  · rw [worst_eq_failed, handled.failed, restFailed]
    simp only [List.mem_cons, exists_eq_or_imp]
  · rw [worst_eq_wouldChange, handled.wouldChange, treated.wouldChange, Ne, Ne, handled.failed,
      restFailed, fails, differs]
    simp only [List.mem_cons, exists_eq_or_imp, not_or]
    constructor
    · rintro ⟨firstPasses, restPasses, ⟨check, here⟩ | ⟨check, -, later⟩⟩
      · exact ⟨check, ⟨firstPasses, restPasses⟩, Or.inl here⟩
      · exact ⟨check, ⟨firstPasses, restPasses⟩, Or.inr later⟩
    · rintro ⟨check, ⟨firstPasses, restPasses⟩, here | later⟩
      · exact ⟨firstPasses, restPasses, Or.inl ⟨check, here⟩⟩
      · exact ⟨firstPasses, restPasses, Or.inr ⟨check, restPasses, later⟩⟩
  · intro reading
    rw [treated.kept reading, handled.kept]
    rintro output ⟨write, -⟩
    exact reading write
  · intro names
    rcases treated.contents names with
      ⟨other, member, output, located, rewrites, looked⟩ | ⟨untouched, looked⟩
    · refine Or.inl ⟨other, List.mem_cons_of_mem _ member, output, ?_, ?_, looked⟩
      · rw [← handled.locate_eq, located]
      · rwa [← rewrites_congr (same other member)]
    · have later : ∀ other ∈ paths, ∀ output, before.locate other = .ok names →
          ¬ plan.Rewrites before other output := by
        intro other member output located rewrites
        rw [← handled.locate_eq] at located
        rw [← rewrites_congr (same other member)] at rewrites
        exact untouched other member output located rewrites
      by_cases written : ∃ output, plan.Rewrites before path output ∧ before.locate path = .ok names
      · obtain ⟨output, rewrites, here⟩ := written
        obtain ⟨place, old, located, -, changed⟩ := handled.written output rewrites
        rw [here] at located
        cases located
        refine Or.inl ⟨path, List.mem_cons_self, output, here, rewrites, ?_⟩
        rw [looked, changed, if_pos rfl]
      · refine Or.inr ⟨List.forall_mem_cons.mpr ⟨?_, later⟩, ?_⟩
        · intro output located rewrites
          exact written ⟨output, rewrites, located⟩
        · rw [looked]
          by_cases elsewhere : ∃ output, plan.Rewrites before path output
          · obtain ⟨output, rewrites⟩ := elsewhere
            obtain ⟨place, old, located, -, changed⟩ := handled.written output rewrites
            rw [changed, if_neg]
            rintro rfl
            exact written ⟨output, rewrites, located⟩
          · rw [handled.kept (fun output rewrites => elsewhere ⟨output, rewrites⟩)]

theorem Treated.nil (plan : Plan) (tree : FileTree) : plan.Treated tree [] .clean tree := by
  refine ⟨?_, ?_, fun _ => rfl, fun names => Or.inr ⟨?_, rfl⟩⟩
  · simp
  · simp
  · simp

/-- Files that are apart are treated each by what is in it. -/
theorem processFiles_treated (plan : Plan) (several : Bool) (paths : List String) (world : World)
    (apart : paths.Pairwise (Apart world.files)) :
    plan.Treated world.files paths (plan.processFiles several paths world).1
      (plan.processFiles several paths world).2.files := by
  induction paths generalizing world with
  | nil => exact .nil plan world.files
  | cons path paths ih =>
    obtain ⟨first, later⟩ := List.pairwise_cons.mp apart
    have handled := plan.processFile_handled several path world
    refine Treated.cons handled (ih _ (later.imp ?_)) fun other member =>
      handled.read_eq (first other member)
    intro left right different names located
    rw [handled.locate_eq] at located ⊢
    exact different names located

/-- The effect of a run over paths on the files, and the code it ends with. -/
structure Effect (plan : Plan) (before : FileTree) (paths : List String) (code : Nat)
    (after : FileTree) : Prop where
  changes : ∀ names, after.look names ≠ before.look names ↔
    ∃ path ∈ paths, before.locate path = .ok names ∧ ∃ output, plan.Rewrites before path output
  contents : ∀ path ∈ paths, ∀ names output, before.locate path = .ok names →
    plan.Rewrites before path output →
    after.look names = some (some (Text.toBytes output))
  kept : plan.mode ≠ .write → after = before
  failed : code = 2 ↔ ∃ path ∈ paths, plan.Fails before path
  wouldChange : code = 1 ↔
    (¬ ∃ path ∈ paths, plan.Fails before path) ∧ plan.mode = .check ∧
      ∃ path ∈ paths, plan.Differs before path
  clean : code = 0 ↔
    (¬ ∃ path ∈ paths, plan.Fails before path) ∧
      ¬ (plan.mode = .check ∧ ∃ path ∈ paths, plan.Differs before path)

/-- The contents of a file tell what is written over it, whatever path leads to it. -/
theorem Rewrites.unique {tree : FileTree} {left right leftOutput rightOutput : String}
    {names : List String} (rewrites : plan.Rewrites tree left leftOutput)
    (other : plan.Rewrites tree right rightOutput) (located : tree.locate left = .ok names)
    (locatedToo : tree.locate right = .ok names) : leftOutput = rightOutput := by
  have same : tree.read left = tree.read right := by
    rw [FileTree.read_of_locate located, FileTree.read_of_locate locatedToo]
  obtain ⟨-, source, ⟨bytes, readable, decoded, success⟩, -⟩ := rewrites
  obtain ⟨-, otherSource, yields, -⟩ := other
  have again : plan.Yields tree right source leftOutput :=
    ⟨bytes, same ▸ readable, decoded, success⟩
  exact (yields.unique again).2

/-- What is written over a file differs from its contents. -/
theorem Rewrites.look_ne {tree : FileTree} {names : List String}
    (rewrites : plan.Rewrites tree path output) (located : tree.locate path = .ok names) :
    tree.look names ≠ some (some (Text.toBytes output)) := by
  obtain ⟨-, source, ⟨bytes, readable, decoded, -⟩, differs, -⟩ := rewrites
  intro same
  rw [FileTree.read_of_locate located, same] at readable
  cases readable
  rw [Text.ofBytes?_toBytes] at decoded
  exact differs (Option.some.inj decoded)

theorem Treated.effect {before after : FileTree} {paths : List String} {status : Status}
    (treated : plan.Treated before paths status after) :
    plan.Effect before paths status.code after := by
  have failed : status.code = 2 ↔ status = .failed := by cases status <;> decide
  have wouldChange : status.code = 1 ↔ status = .wouldChange := by cases status <;> decide
  have clean : status.code = 0 ↔ status ≠ .failed ∧ status ≠ .wouldChange := by
    cases status <;> decide
  constructor
  · intro names
    rcases treated.contents names with
      ⟨path, member, output, located, rewrites, looked⟩ | ⟨untouched, looked⟩
    · rw [looked]
      exact ⟨fun _ => ⟨path, member, located, output, rewrites⟩,
        fun _ => (rewrites.look_ne located).symm⟩
    · rw [looked]
      refine ⟨fun differs => absurd rfl differs, ?_⟩
      rintro ⟨path, member, located, output, rewrites⟩
      exact absurd rewrites (untouched path member output located)
  · intro path member names output located rewrites
    rcases treated.contents names with ⟨other, -, written, reached, again, looked⟩ | ⟨untouched, -⟩
    · rw [looked, again.unique rewrites reached located]
    · exact absurd rewrites (untouched path member output located)
  · exact treated.kept
  · rw [failed, treated.failed]
  · rw [wouldChange, treated.wouldChange]
    exact and_left_comm
  · rw [clean, Ne, Ne, treated.failed, treated.wouldChange]
    constructor
    · rintro ⟨passes, quiet⟩
      exact ⟨passes, fun ⟨check, differs⟩ => quiet ⟨check, passes, differs⟩⟩
    · rintro ⟨passes, quiet⟩
      exact ⟨passes, fun ⟨check, _, differs⟩ => quiet ⟨check, differs⟩⟩

theorem processFiles_effect (plan : Plan) (several : Bool) (paths : List String) (world : World)
    (apart : paths.Pairwise (Apart world.files)) :
    plan.Effect world.files paths (plan.processFiles several paths world).1.code
      (plan.processFiles several paths world).2.files :=
  (plan.processFiles_treated several paths world apart).effect

theorem processPaths_effect (plan : Plan) (paths : List String) (world : World)
    (apart : (plan.collect world.files paths).Pairwise (Apart world.files)) :
    plan.Effect world.files (plan.collect world.files paths) (plan.processPaths paths world).1.code
      (plan.processPaths paths world).2.files := by
  unfold processPaths
  dsimp only
  generalize loggedDef : plan.log world _ = logged
  have same : logged.files = world.files := by rw [← loggedDef, files_log]
  rw [← same] at apart ⊢
  exact plan.processFiles_effect _ _ logged apart

/-! ## What is printed -/

/-- What is printed for a source: the output of the stage for the layout of the plan, if there is
one. -/
def rendered (plan : Plan) (source : String) : String :=
  match plan.stage.run .groovy plan.settings.layout source with
  | .ok output => plan.printed output
  | .error _ => ""

/-- What is printed for the file at a path, below its path if there are several. -/
def shown (plan : Plan) (tree : FileTree) (several : Bool) (path : String) : String :=
  match tree.read path with
  | .error _ => ""
  | .ok bytes =>
    match Text.ofBytes? bytes with
    | none => ""
    | some source => (if several then "==> " ++ path ++ " <==\n" else "") ++ plan.rendered source

section Printing

variable {plan : Plan} (print : plan.mode = .print)
include print

theorem process_output (path source : String) (world : World) :
    (plan.process .groovy path source world).2.output = world.output ++ plan.rendered source := by
  unfold process rendered
  dsimp only
  have same := plan.output_foldl_log world (Event.ofSource plan.stage source)
  generalize (Event.ofSource plan.stage source).foldl plan.log world = logged at same
  rw [print, ← same]
  cases plan.stage.run .groovy plan.settings.layout source with
  | error error => exact String.append_empty.symm
  | ok output => rfl

theorem processFile_output (several : Bool) (path : String) (world : World) :
    (plan.processFile several path world).2.output =
      world.output ++ plan.shown world.files several path := by
  unfold processFile shown
  cases world.files.read path with
  | error failure => exact String.append_empty.symm
  | ok bytes =>
    dsimp only
    cases Text.ofBytes? bytes with
    | none => exact (plan.output_log world _).trans String.append_empty.symm
    | some source =>
      obtain ⟨language, -, same⟩ := plan.languageFor_eq world path
      dsimp only
      rw [language, process_output print, print, ← same, ← String.append_assoc]
      cases several with
      | false => rw [if_neg (by decide), if_neg (by decide), String.append_empty]
      | true => rfl

theorem processFiles_output (several : Bool) (paths : List String) (world : World) :
    (plan.processFiles several paths world).2.output =
      world.output ++ String.join (paths.map (plan.shown world.files several)) := by
  induction paths generalizing world with
  | nil => exact String.append_empty.symm
  | cons path paths ih =>
    have kept : (plan.processFile several path world).2.files = world.files := by
      refine (plan.processFile_handled several path world).kept ?_
      rintro output ⟨write, -⟩
      rw [print] at write
      cases write
    have later := ih (plan.processFile several path world).2
    rw [kept, processFile_output print] at later
    rw [List.map_cons, String.join_cons, ← String.append_assoc]
    exact later

theorem processPaths_output (paths : List String) (world : World) :
    (plan.processPaths paths world).2.output =
      let files := plan.collect world.files paths
      world.output ++ String.join (files.map (plan.shown world.files (1 < files.length))) := by
  unfold processPaths
  dsimp only
  rw [processFiles_output print, output_log, files_log]

end Printing

/-- Standard input is printed in every mode but the checking one. -/
theorem processInput_output {plan : Plan} (silent : plan.mode ≠ .check) {input : List UInt8}
    {source : String} (decoded : Text.ofBytes? input = some source) (world : World) :
    (plan.processInput input world).2.output = world.output ++ plan.rendered source := by
  unfold processInput
  rw [decoded]
  dsimp only
  split
  · rw [process_output rfl, output_log]
    rfl
  · rename_i other
    have print : plan.mode = .print := by
      cases mode : plan.mode with
      | print => rfl
      | check => exact absurd mode silent
      | write => exact absurd mode other
    exact process_output print _ _ _

/-- Checked standard input is clean exactly if the stage gives it back. -/
theorem processInput_code {plan : Plan} (check : plan.mode = .check) {input : List UInt8}
    {source : String} (decoded : Text.ofBytes? input = some source) (world : World) :
    (plan.processInput input world).1.code = 0 ↔
      plan.stage.run .groovy plan.settings.layout source = .ok source := by
  unfold processInput
  rw [decoded]
  dsimp only
  rw [check, if_neg (by decide)]
  unfold process
  dsimp only
  rw [check]
  cases plan.stage.run .groovy plan.settings.layout source with
  | error error => exact ⟨fun failed => (by cases failed), fun failed => (by cases failed)⟩
  | ok output =>
    dsimp only
    rw [Except.ok.injEq]
    split
    · rename_i same
      exact ⟨fun _ => same, fun _ => rfl⟩
    · rename_i other
      exact ⟨fun changed => (by cases changed), fun same => absurd same other⟩

/-- A plan is carried out: what is printed, what is written over files and the code come from the
outputs that the plan has for sources. -/
structure CarriedOut (plan : Plan) (paths : List String) (files : FileTree) (input : List UInt8)
    (outcome : Outcome) : Prop where
  fromInput : paths = [] → plan.mode ≠ .check → ∀ source, Text.ofBytes? input = some source →
    outcome.output = plan.rendered source
  checkedInput : paths = [] → plan.mode = .check → ∀ source, Text.ofBytes? input = some source →
    (outcome.code = 0 ↔ plan.stage.run .groovy plan.settings.layout source = .ok source)
  printed : paths ≠ [] → plan.mode = .print →
    outcome.output = String.join ((plan.collect files paths).map
      (plan.shown files (1 < (plan.collect files paths).length)))
  effect : paths ≠ [] → (plan.collect files paths).Pairwise (Apart files) →
    plan.Effect files (plan.collect files paths) outcome.code (outcome.files files)

end Plan

namespace Invocation

variable {invocation : Invocation} {settings : Settings} {files : FileTree}

/-- With the default stage or without a mode of its own, a run treats standard input or paths. -/
theorem runWith_eq (input : List UInt8)
    (shown : invocation.shownStage = .formatted ∨ invocation.mode = .print) :
    invocation.runWith settings files input =
      let plan : Plan := ⟨invocation.shownStage, invocation.mode, settings, invocation.verbosity⟩
      let treated :=
        if invocation.paths.isEmpty then plan.processInput input ⟨files, "", ""⟩
        else plan.processPaths invocation.paths ⟨files, "", ""⟩
      .finished treated.1 treated.2 := by
  rw [runWith]
  dsimp only
  rw [if_neg]
  rintro ⟨other, writing⟩
  rcases shown with formatted | print
  · exact other formatted
  · exact writing print

/-- A run over paths treats the files that these stand for. -/
theorem run_of_paths (input : List UInt8) (paths : invocation.paths ≠ [])
    (settled : Settings.load files invocation.layers = .ok settings)
    (shown : invocation.shownStage = .formatted ∨ invocation.mode = .print) :
    invocation.run files input =
      let plan : Plan := ⟨invocation.shownStage, invocation.mode, settings, invocation.verbosity⟩
      .finished (plan.processPaths invocation.paths ⟨files, "", ""⟩).1
        (plan.processPaths invocation.paths ⟨files, "", ""⟩).2 := by
  have filled : invocation.paths.isEmpty = false := by
    rw [List.isEmpty_eq_false_iff]
    exact paths
  rw [run, settled]
  dsimp only
  rw [runWith_eq input shown, filled]
  rfl

/-- A run with settings carries its plan out. -/
theorem runWith_carriedOut (input : List UInt8)
    (shown : invocation.shownStage = .formatted ∨ invocation.mode = .print) :
    Plan.CarriedOut ⟨invocation.shownStage, invocation.mode, settings, invocation.verbosity⟩
      invocation.paths files input (invocation.runWith settings files input) := by
  rw [runWith_eq input shown]
  dsimp only
  constructor
  · intro none talks source decoded
    rw [none]
    exact (Plan.processInput_output talks decoded _).trans String.empty_append
  · intro none check source decoded
    rw [none]
    exact Plan.processInput_code check decoded _
  · intro some print
    rw [List.isEmpty_eq_false_iff.mpr some]
    exact (Plan.processPaths_output print _ _).trans String.empty_append
  · intro some apart
    rw [List.isEmpty_eq_false_iff.mpr some]
    exact Plan.processPaths_effect _ _ ⟨files, "", ""⟩ apart

end Invocation

/-- With any list of files that are apart, and with all files that the paths of a command line stand
for: exactly the files change whose output is to be written over them, each to its output, and the
code is that of the worst file. -/
theorem run_effect :
    (∀ (plan : Plan) (several : Bool) (paths : List String) (world : World),
      paths.Pairwise (Plan.Apart world.files) →
      plan.Effect world.files paths (plan.processFiles several paths world).1.code
        (plan.processFiles several paths world).2.files) ∧
    ∀ (arguments : List String) (invocation : Invocation) (settings : Settings) (files : FileTree)
      (input : List UInt8), parse arguments = .run invocation → invocation.paths ≠ [] →
      Settings.load files invocation.layers = .ok settings →
      (invocation.shownStage = .formatted ∨ invocation.mode = .print) →
      let plan : Plan := ⟨invocation.shownStage, invocation.mode, settings, invocation.verbosity⟩
      (plan.collect files invocation.paths).Pairwise (Plan.Apart files) →
      plan.Effect files (plan.collect files invocation.paths) (run arguments files input).code
        ((run arguments files input).files files) := by
  refine ⟨Plan.processFiles_effect, ?_⟩
  intro arguments invocation settings files input asked paths settled shown plan apart
  rw [run, asked]
  dsimp only
  rw [Invocation.run_of_paths input paths settled shown]
  exact plan.processPaths_effect invocation.paths ⟨files, "", ""⟩ apart

/-- A refused file sets the code, and the file before it is written over all the same. -/
theorem run_effect_of_write :
    let files : FileTree :=
      ⟨[("a.groovy", .file [120, 32, 32, 49]), ("b.groovy", .file [40]), ("c.groovy", .file [255])]⟩
    let ending := run ["--write", "a.groovy", "b.groovy", "c.groovy"] files []
    ending.code = 2 ∧
      (ending.files files).look ["a.groovy"] = some (some (Text.toBytes "x 1\n")) := by
  intro files ending
  let settings : Settings := ⟨{}, ["groovy", "gradle", "gvy", "gy", "gsh"]⟩
  let plan : Plan := ⟨.formatted, .write, settings, 0⟩
  have settled : Settings.load files [.optionalFile "groovy-fmt.toml"] = .ok settings := by rfl
  have collected : plan.collect files ["a.groovy", "b.groovy", "c.groovy"] =
      ["a.groovy", "b.groovy", "c.groovy"] := by
    have expanded : ["a.groovy", "b.groovy", "c.groovy"].flatMap (plan.expand files) =
        ["a.groovy", "b.groovy", "c.groovy"] := by
      rfl
    rw [Plan.collect, expanded, List.mergeSort_of_pairwise (by decide +kernel)]
    decide +kernel
  have apart :
      (plan.collect files ["a.groovy", "b.groovy", "c.groovy"]).Pairwise (Plan.Apart files) := by
    rw [collected]
    exact Plan.pairwise_apart (by decide +kernel)
  have effect :
      plan.Effect files ["a.groovy", "b.groovy", "c.groovy"] ending.code (ending.files files) := by
    rw [← collected]
    exact run_effect.2 ["--write", "a.groovy", "b.groovy", "c.groovy"]
      { paths := ["a.groovy", "b.groovy", "c.groovy"], write := true } settings files []
      (by decide +kernel)
      (by decide) settled (Or.inl rfl) apart
  have refused : ∃ error, plan.stage.run .groovy plan.settings.layout "(" = .error error := ⟨_, rfl⟩
  have formatted : plan.stage.run .groovy plan.settings.layout "x  1" = .ok "x 1\n" := by
    decide +kernel
  have rewrites : plan.Rewrites files "a.groovy" "x 1\n" :=
    ⟨rfl, "x  1", ⟨_, rfl, by decide +kernel, formatted⟩, by decide, by decide +kernel⟩
  have fails : plan.Fails files "b.groovy" := by
    obtain ⟨error, refused⟩ := refused
    exact Or.inr ⟨_, "(", error, rfl, by decide +kernel, refused⟩
  constructor
  · exact effect.failed.mpr ⟨"b.groovy", by decide, fails⟩
  · exact effect.contents "a.groovy" (by decide) ["a.groovy"] _ rfl rewrites

end GroovyTidy.Command
