import GroovyTidy.Format.Groovy
import GroovyTidy.Path

set_option autoImplicit false

/-!
Registries of formats, in the order of their names.
-/
namespace GroovyTidy

/-- Formats in the order of their names, each name once. -/
def Ordered (formats : List Format) : Prop :=
  formats.Pairwise fun left right => left.name < right.name

/-- Formats by name. -/
structure Registry where
  formats : List Format
  ordered : Ordered formats

/-- Puts a format at its place among others, instead of one of its name. -/
def insertFormat (added : Format) : List Format → List Format
  | [] => [added]
  | format :: formats =>
    if added.name = format.name then added :: formats
    else if added.name < format.name then added :: format :: formats
    else format :: insertFormat added formats

theorem mem_of_mem_insertFormat {added format : Format} {formats : List Format}
    (member : format ∈ insertFormat added formats) : format = added ∨ format ∈ formats := by
  induction formats with
  | nil => exact .inl (List.mem_singleton.mp member)
  | cons first formats ih =>
    rw [insertFormat] at member
    split at member
    · exact (List.mem_cons.mp member).imp_right (List.mem_cons_of_mem _)
    · split at member
      · exact List.mem_cons.mp member
      · rcases List.mem_cons.mp member with rfl | later
        · exact .inr List.mem_cons_self
        · exact (ih later).imp_right (List.mem_cons_of_mem _)

theorem Ordered.insertFormat {formats : List Format} (ordered : Ordered formats) (added : Format) :
    Ordered (insertFormat added formats) := by
  induction formats with
  | nil => exact List.pairwise_singleton _ _
  | cons first formats ih =>
    obtain ⟨least, rest⟩ := List.pairwise_cons.mp ordered
    rw [GroovyTidy.insertFormat]
    split
    · rename_i replaced
      exact List.pairwise_cons.mpr ⟨fun later member => replaced ▸ least later member, rest⟩
    · rename_i other
      split
      · rename_i less
        refine List.pairwise_cons.mpr ⟨fun later member => ?_, ordered⟩
        rcases List.mem_cons.mp member with rfl | later
        · exact less
        · exact String.lt_trans less (least _ later)
      · rename_i greater
        refine List.pairwise_cons.mpr ⟨fun later member => ?_, ih rest⟩
        rcases mem_of_mem_insertFormat member with rfl | member
        · exact Classical.byContradiction fun notLess =>
            other (String.le_antisymm notLess greater)
        · exact least later member

namespace Registry

def empty : Registry where
  formats := []
  ordered := List.Pairwise.nil

/-- Adds a format, in place of one of the same name. -/
def register (registry : Registry) (format : Format) : Registry where
  formats := insertFormat format registry.formats
  ordered := registry.ordered.insertFormat format

def standard : Registry :=
  empty.register .groovy

def get (registry : Registry) (name : String) : Except FormatError Format :=
  match registry.formats.find? fun format => format.name == name with
  | some format => .ok format
  | none => .error (.unknownFormat name)

def contains (registry : Registry) (name : String) : Bool :=
  registry.formats.any fun format => format.name == name

/-- The names of all formats, in the order of their bytes. -/
def names (registry : Registry) : List String :=
  registry.formats.map Format.name

/-- The first format that claims the extension of a path. A path without an extension has an empty
one. -/
def forPath (registry : Registry) (path : String) : Except FormatError Format :=
  let extension := (Path.extension? path).getD ""
  match registry.formats.find? fun format => format.claims extension with
  | some format => .ok format
  | none => .error (.unclaimedExtension extension)

def format (registry : Registry) (name : String) (options : LayoutOptions) (source : String) :
    Except FormatError String := do
  (← registry.get name).format options source

end Registry

end GroovyTidy
