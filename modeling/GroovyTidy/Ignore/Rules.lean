import GroovyTidy.FileTree
import GroovyTidy.Ignore.Glob

set_option autoImplicit false

/-!
Rules of which files to leave out. A directory may hold files of such rules, which apply to
everything below it. The last rule of a file that matches a path decides, and a nearer directory
decides before one further up.
-/
namespace GroovyTidy.Ignore

/-- A rule: a pattern for paths, whether it takes them in again, and whether it is only about
directories. -/
structure Rule where
  pattern : List Glob
  takesIn : Bool
  onlyDirectories : Bool

/-- What rules say about a path. -/
inductive Verdict where
  | undecided
  | leaveOut
  | takeIn
  deriving DecidableEq, Repr

def Verdict.orElse (first second : Verdict) : Verdict :=
  if first = .undecided then second else first

def trimEnd (line : List Char) : List Char :=
  (line.reverse.dropWhile fun c => Text.isWhiteSpace c.toNat).reverse

/-- A line without what marks it: whether it takes paths in again, whether it starts at the
directory of its file, and the pattern. A backslash makes a mark part of the pattern. -/
def unmarked (line : List Char) : Bool × Bool × List Char :=
  match line with
  | '\\' :: '!' :: rest => (false, false, '!' :: rest)
  | '\\' :: '#' :: rest => (false, false, '#' :: rest)
  | '!' :: '/' :: rest => (true, true, rest)
  | '!' :: rest => (true, false, rest)
  | '/' :: rest => (false, true, rest)
  | rest => (false, false, rest)

def withoutFinalSlash (pattern : List Char) : Bool × List Char :=
  match pattern.reverse with
  | '/' :: '\\' :: rest => (true, rest.reverse)
  | '/' :: rest => (true, rest.reverse)
  | _ => (false, pattern)

/-- A pattern without a slash matches in every directory. -/
def anywhere (anchored : Bool) (pattern : List Char) : List Char :=
  if anchored || pattern.contains '/' || pattern = ['*', '*'] then pattern
  else '*' :: '*' :: '/' :: pattern

/-- A pattern for everything below a directory does not match the directory. -/
def strictlyBelow (pattern : List Char) : List Char :=
  if ['*', '*', '/'].isPrefixOf pattern.reverse then pattern ++ ['/', '*'] else pattern

def ruleOf (line : List Char) : Option Rule :=
  let (takesIn, anchored, rest) := unmarked line
  let (onlyDirectories, pattern) := withoutFinalSlash rest
  (Glob.parse? (strictlyBelow (anywhere anchored pattern))).map fun pattern =>
    { pattern, takesIn, onlyDirectories }

def lineRule? (line : List Char) : Option Rule :=
  if line.head? = some '#' then none
  else
    let line := if [' ', '\\'].isPrefixOf line.reverse then line else trimEnd line
    if line.isEmpty then none else ruleOf line

/-- The lines of a file that come before the first one that is no text. -/
def textLines (bytes : List UInt8) : List (List Char) :=
  let found := Text.decodeFrom 0 bytes
  let text := (found.takeWhile Option.isSome).filterMap id
  if found.all Option.isSome then Text.feedLines text
  else (Text.splitAt '\n' text).dropLast.map Text.dropFinalReturn

/-- The rules of a file. A byte order mark may stand before them. -/
def rulesOf (bytes : List UInt8) : List Rule :=
  match textLines bytes with
  | [] => []
  | first :: rest => (first.dropWhile (· == '\ufeff') :: rest).filterMap lineRule?

/-- The verdict of the rules of a file on a path from its directory. -/
def judge (rules : List Rule) (path : List UInt8) (isDirectory : Bool) : Verdict :=
  match rules.reverse.find? fun rule => (!rule.onlyDirectories || isDirectory) &&
    Glob.isMatch rule.pattern path with
  | none => .undecided
  | some rule => if rule.takesIn then .takeIn else .leaveOut

/-- The rules that a directory holds. -/
structure DirectoryRules where
  own : List Rule
  repository : List Rule
  /-- Rules of a repository that are not part of its contents. -/
  excluded : List Rule
  /-- The directory is the top of a repository. -/
  isRepository : Bool

def rulesAt (entries : List (String × Entry)) (names : List String) : List Rule :=
  match (Entry.directory entries).descend names with
  | some (.file bytes) => rulesOf bytes
  | _ => []

def DirectoryRules.ofEntries (entries : List (String × Entry)) : DirectoryRules where
  own := rulesAt entries [".ignore"]
  repository := rulesAt entries [".gitignore"]
  excluded := rulesAt entries [".git", "info", "exclude"]
  isRepository := (entries.lookup ".git").isSome

/-- The rules around a directory, its own first: those of each directory further up, with the names
that lead down from there. -/
abbrev Surroundings := List (DirectoryRules × List String)

namespace Surroundings

def enter (around : Surroundings) (name : String) (entries : List (String × Entry)) :
    Surroundings :=
  (.ofEntries entries, []) :: around.map fun above => (above.1, above.2 ++ [name])

/-- The verdict of the nearest rules of a sort. -/
def verdict (sort : DirectoryRules → List Rule) (name : String) (isDirectory : Bool) :
    Surroundings → Verdict
  | [] => .undecided
  | (rules, names) :: above =>
    (judge (sort rules) (Text.toBytes ("/".intercalate (names ++ [name]))) isDirectory).orElse
      (verdict sort name isDirectory above)

/-- The rules up to the top of the nearest repository. -/
def withinRepository : Surroundings → Surroundings
  | [] => []
  | here :: above => if here.1.isRepository then [here] else here :: withinRepository above

/-- The verdict on an entry of a directory. Rules of a repository count only inside one. -/
def judgeEntry (around : Surroundings) (name : String) (isDirectory : Bool) : Verdict :=
  let inside := if around.any fun here => here.1.isRepository then around.withinRepository else []
  (verdict DirectoryRules.own name isDirectory around).orElse
    ((verdict DirectoryRules.repository name isDirectory inside).orElse
      (verdict DirectoryRules.excluded name isDirectory inside))

/-- An entry is left out if a rule says so. Hidden ones are, unless a rule takes them in. -/
def leavesOut (around : Surroundings) (name : String) (isDirectory : Bool) : Bool :=
  match around.judgeEntry name isDirectory with
  | .leaveOut => true
  | .takeIn => false
  | .undecided => name.toList.head? = some '.'

end Surroundings

end GroovyTidy.Ignore
