import GroovyTidy.Proofs.Command.Files
import GroovyTidy.Proofs.Settings.Precedence

set_option autoImplicit false

/-!
Widths on the command line. A width has 64 bits and passes through a number with a sign on its way
to the settings, which half of the widths do not survive. Such a width is refused. No width becomes
another one, whatever the files say.
-/
namespace GroovyTidy.Command

open Settings (Layer Value decodeNatural)

/-! ## Arguments -/

/-- The widths that are given have 64 bits. -/
structure Invocation.Fits (invocation : Invocation) : Prop where
  printWidth : ∀ n, invocation.printWidth = some n → n < Nat.pow 2 64
  indentWidth : ∀ n, invocation.indentWidth = some n → n < Nat.pow 2 64

def Progress.Fits : Progress → Prop
  | .going invocation | .waiting invocation _ => invocation.Fits
  | .version | .refused => True

theorem natural?_lt {text : String} {n : Nat} (read : Settings.natural? text = some n) :
    n < Nat.pow 2 64 := by
  simp only [Settings.natural?] at read
  generalize (if text.toList.head? = some '+' then text.toList.drop 1 else text.toList) =
    digits at read
  split at read
  · cases read
  · rename_i inside
    cases read
    exact Nat.lt_of_not_le fun large => inside (Or.inr (Or.inr large))

theorem Progress.fits_ofOption {found : Option Invocation}
    (fits : ∀ invocation, found = some invocation → invocation.Fits) :
    (Progress.ofOption found).Fits := by
  cases found with
  | none => trivial
  | some invocation => exact fits invocation rfl

namespace Invocation

variable {invocation changed : Invocation}

theorem give_eq_some {α : Type} {current value given : Option α}
    (success : give current value = some given) : given = value := by
  cases current with
  | some old => cases success
  | none =>
    cases value with
    | none => cases success
    | some value =>
      cases success
      rfl

theorem Fits.set (fits : invocation.Fits) {setting : Setting} {value : String}
    (success : invocation.set setting value = some changed) : changed.Fits := by
  cases setting with
  | stage =>
    obtain ⟨stage, -, rfl⟩ := Option.map_eq_some_iff.mp success
    exact ⟨fits.printWidth, fits.indentWidth⟩
  | printWidth =>
    obtain ⟨width, given, rfl⟩ := Option.map_eq_some_iff.mp success
    refine ⟨fun n here => natural?_lt ((give_eq_some given).symm.trans here), fits.indentWidth⟩
  | indentWidth =>
    obtain ⟨width, given, rfl⟩ := Option.map_eq_some_iff.mp success
    refine ⟨fits.printWidth, fun n here => natural?_lt ((give_eq_some given).symm.trans here)⟩
  | config =>
    obtain ⟨config, -, rfl⟩ := Option.map_eq_some_iff.mp success
    exact ⟨fits.printWidth, fits.indentWidth⟩

theorem Fits.setFlag (fits : invocation.Fits) {flag : Flag}
    (success : invocation.setFlag flag = some changed) : changed.Fits := by
  cases flag with
  | check =>
    rw [Invocation.setFlag] at success
    split at success
    · cases success
    · cases success
      exact ⟨fits.printWidth, fits.indentWidth⟩
  | write =>
    rw [Invocation.setFlag] at success
    split at success
    · cases success
    · cases success
      exact ⟨fits.printWidth, fits.indentWidth⟩
  | verbose =>
    cases success
    exact ⟨fits.printWidth, fits.indentWidth⟩
  | version =>
    cases success
    exact fits

theorem Fits.addPath (fits : invocation.Fits) {path : String}
    (success : invocation.addPath path = some changed) : changed.Fits := by
  rw [Invocation.addPath] at success
  split at success
  · cases success
  · cases success
    exact ⟨fits.printWidth, fits.indentWidth⟩

theorem Fits.addPaths (fits : invocation.Fits) {paths : List String}
    (success : invocation.addPaths paths = some changed) : changed.Fits := by
  induction paths generalizing invocation with
  | nil =>
    cases success
    exact fits
  | cons path paths ih =>
    obtain ⟨middle, first, rest⟩ := Option.bind_eq_some_iff.mp success
    exact ih (fits.addPath first) rest

end Invocation

theorem fits_shortOptions {invocation : Invocation} (fits : invocation.Fits) (options : List Char) :
    (shortOptions invocation options).Fits := by
  induction options generalizing invocation with
  | nil => exact fits
  | cons c rest ih =>
    unfold shortOptions
    split
    · trivial
    · trivial
    · split
      · rename_i changed success
        exact ih (fits.setFlag success)
      · trivial
    · split
      · exact fits
      · exact Progress.fits_ofOption fun changed success => fits.set success

theorem fits_longOption {invocation : Invocation} (fits : invocation.Fits) (argument : List Char) :
    (longOption invocation argument).Fits := by
  unfold longOption
  dsimp only
  split
  · trivial
  · exact Progress.fits_ofOption fun changed success => fits.setFlag success
  · exact fits
  · exact Progress.fits_ofOption fun changed success => fits.set success
  · trivial

theorem fits_readArgument {invocation : Invocation} (fits : invocation.Fits) (argument : String) :
    (readArgument invocation argument).Fits := by
  unfold readArgument
  split
  · exact fits_longOption fits _
  · exact fits_shortOptions fits _
  · exact Progress.fits_ofOption fun changed success => fits.addPath success

theorem fits_readArguments {progress : Progress} (fits : progress.Fits) (arguments : List String) :
    (readArguments progress arguments).Fits := by
  induction arguments generalizing progress with
  | nil => cases progress <;> exact fits
  | cons argument rest ih =>
    cases progress with
    | going invocation =>
      rw [readArguments]
      split
      · exact Progress.fits_ofOption fun changed success => Invocation.Fits.addPaths fits success
      · exact ih (fits_readArgument fits argument)
    | waiting invocation setting =>
      rw [readArguments]
      split
      · exact ih (Progress.fits_ofOption fun changed success => Invocation.Fits.set fits success)
      · trivial
    | version => exact fits
    | refused => exact fits

/-- Widths on a command line that is understood have 64 bits. -/
theorem fits_of_parse {arguments : List String} {invocation : Invocation}
    (parsed : parse arguments = .run invocation) : invocation.Fits := by
  have start : (Progress.going {}).Fits :=
    ⟨fun n none => (by cases none), fun n none => (by cases none)⟩
  have fits := fits_readArguments start arguments
  unfold parse at parsed
  split at parsed
  · rename_i found read
    rw [read] at fits
    split at parsed
    · cases parsed
    · cases parsed
      exact fits
  · cases parsed
  · cases parsed
  · cases parsed

/-! ## Widths as settings -/

/-- The sign of a width tells whether it has survived. -/
theorem bmod_width {n : Nat} (fits : n < Nat.pow 2 64) :
    Int.bmod n (Nat.pow 2 64) = if n < Nat.pow 2 63 then (n : Int) else n - Nat.pow 2 64 := by
  have word : Nat.pow 2 64 = 18446744073709551616 := rfl
  have half : Nat.pow 2 63 = 9223372036854775808 := rfl
  rw [word] at fits ⊢
  rw [half, Int.bmod_def]
  split <;> split <;> omega

/-- A width below half of the numbers survives. -/
theorem content?_signedWidth {n : Nat} (small : n < Nat.pow 2 63) :
    (signedWidth n).content? = some (.width n) := by
  have fits : n < Nat.pow 2 64 := Nat.lt_trans small (by decide)
  have natural : ¬ ((n : Int) < 0) := by omega
  rw [signedWidth, bmod_width fits, if_pos small, Value.content?, if_neg natural, Int.toNat_natCast]

/-- A width that comes back from a number with a sign is the same width. -/
theorem eq_of_decodeNatural_signedWidth {n decoded : Nat} (fits : n < Nat.pow 2 64)
    {path : List Settings.Step} (success : decodeNatural path (signedWidth n) = .ok decoded) :
    decoded = n := by
  by_cases small : n < Nat.pow 2 63
  · rw [Settings.decodeNatural_of_content (content?_signedWidth small)] at success
    cases success
    rfl
  · have negative : (n : Int) - Nat.pow 2 64 < 0 := by omega
    simp only [decodeNatural, signedWidth, bmod_width fits, if_neg small, if_pos negative]
      at success
    cases success

theorem path?_printWidth :
    Settings.path? "format.print_width" = some Settings.Entry.printWidth.steps := by
  decide +kernel

theorem path?_indentWidth :
    Settings.path? "format.indent_width" = some Settings.Entry.indentWidth.steps := by
  decide +kernel

theorem addressed_steps (entry own : Settings.Entry) : entry.Addressed own.steps ↔ own = entry := by
  cases entry <;> cases own <;> decide +kernel

theorem meant_of_path {text : String} {own : Settings.Entry}
    (path : Settings.path? text = some own.steps) {value : Value} (plain : value.isTable = false) :
    (Layer.override text value).Meant := by
  refine ⟨own.steps, path, fun entry => ?_⟩
  by_cases same : own = entry
  · exact Or.inr ⟨(addressed_steps entry own).mpr same, plain⟩
  · exact Or.inl (((addressed_steps own own).mpr rfl).missed (Ne.symm same))

theorem fromOverride?_width {text : String} {own : Settings.Entry}
    (path : Settings.path? text = some own.steps) (n : Nat) (entry : Settings.Entry) :
    (Layer.override text (signedWidth n)).fromOverride? entry =
      if own = entry then some (signedWidth n) else none := by
  rw [Layer.fromOverride?, Layer.change?, path, Option.map_some, Option.bind_some,
    Settings.Entry.given?]
  simp only [addressed_steps]

theorem filterMap_width {text : String} {own : Settings.Entry}
    (path : Settings.path? text = some own.steps) (width : Option Nat) (entry : Settings.Entry) :
    (width.map fun n => Layer.override text (signedWidth n)).toList.filterMap
      (Layer.fromOverride? entry) =
      if own = entry then (width.map signedWidth).toList else [] := by
  cases width with
  | none => split <;> rfl
  | some n =>
    rw [Option.map_some, Option.toList_some, List.filterMap_cons, List.filterMap_nil,
      fromOverride?_width path]
    by_cases same : own = entry
    · rw [if_pos same, if_pos same]
      rfl
    · rw [if_neg same, if_neg same]

namespace Invocation

variable (invocation : Invocation)

/-- The width that is given for a setting. -/
def width? : Settings.Entry → Option Nat
  | .printWidth => invocation.printWidth
  | .indentWidth => invocation.indentWidth
  | .extensions => none

/-- The single values among the layers of a run are the widths. -/
theorem getLast?_overrides (entry : Settings.Entry) :
    (invocation.layers.filterMap (Layer.fromOverride? entry)).getLast? =
      (invocation.width? entry).map signedWidth := by
  have project :
      [Layer.optionalFile "groovy-fmt.toml"].filterMap (Layer.fromOverride? entry) = [] := rfl
  have config :
      (invocation.config.map Layer.file).toList.filterMap (Layer.fromOverride? entry) = [] := by
    cases invocation.config <;> rfl
  have last {values : Option Value} : values.toList.getLast? = values := by
    cases values <;> rfl
  rw [layers, List.filterMap_append, List.filterMap_append, List.filterMap_append, project, config,
    filterMap_width path?_printWidth, filterMap_width path?_indentWidth, List.append_nil,
    List.nil_append]
  cases entry with
  | printWidth => rw [if_pos rfl, if_neg (by decide), List.append_nil, last, width?]
  | indentWidth => rw [if_pos rfl, if_neg (by decide), List.nil_append, last, width?]
  | extensions => rfl

theorem mem_layers {layer : Layer} (member : layer ∈ invocation.layers) :
    layer = .optionalFile "groovy-fmt.toml" ∨
    (∃ path, invocation.config = some path ∧ layer = .file path) ∨
      ∃ text value, layer = .override text value ∧ (Layer.override text value).Meant := by
  simp only [layers, List.mem_append, List.mem_singleton, Option.mem_toList, Option.map_eq_some_iff]
    at member
  rcases member with ((project | ⟨path, config, rfl⟩) | ⟨n, -, rfl⟩) | ⟨n, -, rfl⟩
  · exact Or.inl project
  · exact Or.inr (Or.inl ⟨path, config, rfl⟩)
  · exact Or.inr (Or.inr ⟨_, _, rfl, meant_of_path path?_printWidth rfl⟩)
  · exact Or.inr (Or.inr ⟨_, _, rfl, meant_of_path path?_indentWidth rfl⟩)

theorem meant_of_mem_layers {layer : Layer} (member : layer ∈ invocation.layers) : layer.Meant := by
  rcases invocation.mem_layers member with rfl | ⟨path, -, rfl⟩ | ⟨text, value, rfl, meant⟩
  · trivial
  · trivial
  · exact meant

variable {invocation}

/-- Settings that are loaded for a run have its widths, whatever the files say. -/
theorem Fits.load_widths (fits : invocation.Fits) {files : FileTree} {settings : Settings}
    (success : Settings.load files invocation.layers = .ok settings) :
    (∀ n, invocation.printWidth = some n → settings.layout.printWidth = n) ∧
    ∀ n, invocation.indentWidth = some n → settings.layout.indentWidth = n := by
  obtain ⟨value, decoded, here⟩ :=
    Settings.load_eq_ok (fun _ => invocation.meant_of_mem_layers) success
  obtain ⟨printed, indented⟩ := Settings.decode_widths decoded
  have last {entry : Settings.Entry} {n : Nat} (given : invocation.width? entry = some n) :
      value.at? entry = some (signedWidth n) := by
    apply here
    rw [getLast?_overrides, given, Option.map_some]
  exact ⟨fun n given =>
      eq_of_decodeNatural_signedWidth (fits.printWidth n given) (printed _ (last given)),
    fun n given =>
      eq_of_decodeNatural_signedWidth (fits.indentWidth n given) (indented _ (last given))⟩

/-- With proper files and widths below half of the numbers there are settings. -/
theorem load_of_proper {files : FileTree}
    (project : (Layer.optionalFile "groovy-fmt.toml").Proper files)
    (config : ∀ path, invocation.config = some path → (Layer.file path).Proper files)
    (small : ∀ entry n, invocation.width? entry = some n → n < Nat.pow 2 63) :
    ∃ settings, Settings.load files invocation.layers = .ok settings := by
  have proper : ∀ layer ∈ invocation.layers, layer.Proper files := by
    intro layer member
    rcases invocation.mem_layers member with rfl | ⟨path, given, rfl⟩ | ⟨text, value, rfl, meant⟩
    · exact project
    · exact config path given
    · exact meant
  have accepted : ∀ entry : Settings.Entry,
      entry.accepts (Settings.prevailing files invocation.layers entry) = true := by
    intro entry
    apply Settings.accepts_prevailing proper
    intro value last
    rw [getLast?_overrides] at last
    obtain ⟨n, given, rfl⟩ := Option.map_eq_some_iff.mp last
    rw [Settings.Entry.accepts, content?_signedWidth (small entry n given), Option.any_some]
    cases entry with
    | printWidth => rfl
    | indentWidth => rfl
    | extensions => cases given
  obtain ⟨settings, success, -⟩ := Settings.settingsOf_of_accepts accepted
  exact ⟨settings, (Settings.load_eq_settingsOf proper).trans success⟩

theorem runWith_ne_unsettled (settings : Settings) (files : FileTree) (input : List UInt8)
    (error : Settings.Error) : invocation.runWith settings files input ≠ .unsettled error := by
  simp only [runWith]
  split
  · exact Outcome.noConfusion
  · exact Outcome.noConfusion

variable (invocation)

theorem run_of_load (files : FileTree) (input : List UInt8) :
    (∀ error, Settings.load files invocation.layers = .error error →
      invocation.run files input = .unsettled error) ∧
    ∀ settings, Settings.load files invocation.layers = .ok settings →
      invocation.run files input = invocation.runWith settings files input := by
  constructor
  · intro error failed
    rw [run, failed]
  · intro settings success
    rw [run, success]

end Invocation

/-- Settings are what the last layer that concerns them says, and widths of the command line stay
what they are.

* For any files with tables of some of the settings and single values for settings, in any order,
  each setting is decoded from what prevails: the last single value for it, else what the last file
  with the setting says, else what is built in. If the last single values are numbers and lists of
  texts, there are settings, and they are exactly these.
* A run with widths on the command line treats every source with a layout of these very widths,
  whatever the files hold, or ends with an error of the settings. It has settings if the files are
  proper and the widths are below half of the numbers. -/
theorem settings_prevail_and_widths_hold :
    (∀ (tree : FileTree) (layers : List Layer), (∀ layer ∈ layers, layer.Proper tree) →
      Settings.load tree layers = Settings.settingsOf (Settings.prevailing tree layers) ∧
      ((∀ (entry : Settings.Entry) (value : Value),
          (layers.filterMap (Layer.fromOverride? entry)).getLast? = some value →
            entry.accepts value = true) →
        ∃ settings, Settings.load tree layers = .ok settings ∧
          ∀ entry : Settings.Entry,
            (Settings.prevailing tree layers entry).content? = some (entry.content settings))) ∧
    ∀ (arguments : List String) (invocation : Invocation) (files : FileTree) (input : List UInt8),
      parse arguments = .run invocation →
        ((∃ error, run arguments files input = .unsettled error) ∨
          ∃ settings, Settings.load files invocation.layers = .ok settings ∧
            run arguments files input = invocation.runWith settings files input ∧
            ((invocation.shownStage = .formatted ∨ invocation.mode = .print) →
              Plan.CarriedOut ⟨invocation.shownStage, invocation.mode, settings,
                invocation.verbosity⟩
                invocation.paths files input (run arguments files input)) ∧
            (∀ n, invocation.printWidth = some n → settings.layout.printWidth = n) ∧
            ∀ n, invocation.indentWidth = some n → settings.layout.indentWidth = n) ∧
        ((Layer.optionalFile "groovy-fmt.toml").Proper files →
          (∀ path, invocation.config = some path → (Layer.file path).Proper files) →
          (∀ entry n, invocation.width? entry = some n → n < Nat.pow 2 63) →
          ∀ error, run arguments files input ≠ .unsettled error) := by
  constructor
  · intro tree layers proper
    have decoded := Settings.load_eq_settingsOf proper
    refine ⟨decoded, fun accepted => ?_⟩
    rw [decoded]
    exact Settings.settingsOf_of_accepts fun entry =>
      Settings.accepts_prevailing proper (accepted entry)
  · intro arguments invocation files input parsed
    have fits := fits_of_parse parsed
    have started : run arguments files input = invocation.run files input := by rw [run, parsed]
    obtain ⟨failing, settled⟩ := invocation.run_of_load files input
    rw [started]
    constructor
    · cases loaded : Settings.load files invocation.layers with
      | error error => exact Or.inl ⟨error, failing error loaded⟩
      | ok settings =>
        have ran := settled settings loaded
        refine Or.inr ⟨settings, rfl, ran, fun shown => ?_, fits.load_widths loaded⟩
        rw [ran]
        exact Invocation.runWith_carriedOut input shown
    · intro project config small error
      obtain ⟨settings, loaded⟩ := Invocation.load_of_proper project config small
      rw [settled settings loaded]
      exact Invocation.runWith_ne_unsettled settings files input error

/-- Two files of settings. -/
def twoSettingsFiles : FileTree :=
  ⟨[("a.toml", .file (Text.toBytes "[format]\nindent_width=2\nprint_width=99")),
    ("b.toml", .file (Text.toBytes "files.extensions=['g']\n[format]\nprint_width=60"))]⟩

/-- Files and single values in turns, one of them for a setting that does not exist. -/
def mixedLayers : List Layer :=
  [.override "format.indent_width" (.scalar none (.integer 8)), .file "a.toml",
    .override "format.tabs" (.scalar none (.boolean true)), .optionalFile "b.toml",
    .optionalFile "c.toml"]

/-- Of two files the later one sets the width, and the indentation is the single value in front of
both. A width on the command line stands above the file, and one with all of the 64 bits is
refused. -/
theorem settings_prevail_and_widths_hold_of_mixed :
    Settings.load twoSettingsFiles mixedLayers = .ok ⟨⟨60, 8⟩, ["g"]⟩ ∧
    (∃ settings, run ["--print-width=90", "--config", "a.toml"] twoSettingsFiles [] =
      Invocation.runWith { printWidth := some 90, config := some "a.toml" } settings
        twoSettingsFiles [] ∧
      settings.layout.printWidth = 90) ∧
    ∃ error, run ["--print-width=18446744073709551615"] ⟨[]⟩ [] = .unsettled error := by
  obtain ⟨prevail, hold⟩ := settings_prevail_and_widths_hold
  have first : (Layer.file "a.toml").Proper twoSettingsFiles := by
    show (Settings.fileFields? twoSettingsFiles "a.toml").any Settings.wellFormed = true
    decide +kernel
  have proper : ∀ layer ∈ mixedLayers, layer.Proper twoSettingsFiles := by
    intro layer member
    simp only [mixedLayers, List.mem_cons, List.not_mem_nil, or_false] at member
    rcases member with rfl | rfl | rfl | rfl | rfl
    · exact meant_of_path path?_indentWidth rfl
    · exact first
    · refine ⟨[.key "format", .key "tabs"],
        by decide +kernel, fun entry => Or.inl fun _ => ⟨"tabs", [], rfl, ?_⟩⟩
      cases entry <;> decide +kernel
    · refine Or.inr ?_
      decide +kernel
    · refine Or.inl ?_
      decide +kernel
  refine ⟨?_, ?_, ?_⟩
  · obtain ⟨-, settle⟩ := prevail twoSettingsFiles mixedLayers proper
    obtain ⟨⟨⟨printWidth, indentWidth⟩, extensions⟩, loaded, means⟩ :=
      settle fun entry value last => by
        have all :
            ((mixedLayers.filterMap (Layer.fromOverride? entry)).getLast?).all
              entry.accepts = true := by
          cases entry <;> decide +kernel
        rw [last] at all
        exact all
    have contents : [Settings.Entry.printWidth, .indentWidth, .extensions].map
        (fun entry => (Settings.prevailing twoSettingsFiles mixedLayers entry).content?) =
          [some (.width 60), some (.width 8), some (.texts ["g"])] := by
      decide +kernel
    simp only [List.map_cons, List.map_nil, List.cons.injEq, and_true] at contents
    obtain ⟨width, indentation, listed⟩ := contents
    cases width.symm.trans (means .printWidth)
    cases indentation.symm.trans (means .indentWidth)
    cases listed.symm.trans (means .extensions)
    exact loaded
  · obtain ⟨used, settled⟩ := hold ["--print-width=90", "--config", "a.toml"]
      { printWidth := some 90, config := some "a.toml" } twoSettingsFiles [] (by decide +kernel)
    rcases used with ⟨error, failed⟩ | ⟨settings, -, ran, -, widths, -⟩
    · refine absurd failed (settled (Or.inl (by decide +kernel)) ?_ ?_ error)
      · intro path named
        cases named
        exact first
      · intro entry n given
        cases entry with
        | printWidth =>
          cases given
          decide
        | indentWidth => cases given
        | extensions => cases given
    · exact ⟨settings, ran, widths 90 rfl⟩
  · obtain ⟨failed | ⟨settings, loaded, -⟩, -⟩ := hold ["--print-width=18446744073709551615"]
      { printWidth := some 18446744073709551615 } ⟨[]⟩ [] (by decide +kernel)
    · exact failed
    · have refused :
          (Settings.load ⟨[]⟩ (Invocation.layers
            { printWidth := some 18446744073709551615 })).toBool = false := by
        decide +kernel
      rw [loaded] at refused
      cases refused

end GroovyTidy.Command
