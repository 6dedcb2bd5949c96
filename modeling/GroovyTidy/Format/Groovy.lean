import GroovyTidy.Doc.Printer
import GroovyTidy.Format.Basic
import GroovyTidy.Tree.Parse

set_option autoImplicit false

/-!
The format of Groovy sources.
-/
namespace GroovyTidy.Format

/-- The characters of a Groovy text that are neither blank nor a semicolon: statements may be
separated by line ends instead. -/
def significantInGroovy (text : String) : List Char :=
  (significant text).filter (· != ';')

def groovy : Format where
  name := "groovy"
  description := "Groovy source and Gradle build scripts"
  extensions := ["groovy", "gradle", "gvy", "gy", "gsh"]
  parse source := (GroovyTidy.parse source).mapError .malformed
  printNode := Printer.printNode
  isLossless source output := significantInGroovy source == significantInGroovy output

end GroovyTidy.Format
