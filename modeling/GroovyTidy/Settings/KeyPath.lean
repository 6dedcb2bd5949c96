import GroovyTidy.Settings.Value

set_option autoImplicit false

/-!
Paths to settings: a key, and then keys after dots and indices in brackets.
-/
namespace GroovyTidy.Settings

open Toml (Scan)
open Toml.Scan

def isKeyChar (c : Char) : Bool :=
  Text.isLetter c.toNat || Toml.isDigit c || c == ' ' || c == '_' || c == '-'

def pathKey : Scan Step := do
  return .key (String.ofList (← someOf isKeyChar))

def pathChild : Scan Step := do
  char '.'
  pathKey

/-- An index of 64 bits, with blanks around it. -/
def pathIndex : Scan Step := do
  char '['
  Toml.white
  let negative := (← maybe (char '-')).isSome
  let value : Int := Toml.valueOf 10 (← someOf Toml.isDigit)
  Toml.white
  char ']'
  return .index (← Toml.inRange (if negative then -value else value))

/-- The path that a text stands for. -/
def path? (text : String) : Option (List Step) :=
  let scan : Scan (List Step) := do
    let first ← pathKey
    let rest ← many (pathChild <|> pathIndex)
    atEnd
    return first :: rest
  (scan text.toList).map Prod.fst

end GroovyTidy.Settings
