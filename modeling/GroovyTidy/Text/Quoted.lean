import GroovyTidy.Text.Printable

set_option autoImplicit false

/-!
Quoted texts: how messages show a character or a text that may hold anything.
-/
namespace GroovyTidy.Text

def hexDigits (n : Nat) : String :=
  String.ofList (Nat.toDigits 16 n)

/-- One character between quotes of the given kind: the named escapes, a backslash before the quote,
a code point in braces for what does not print or joins its neighbour, and all else as it is. -/
def quotedChar (quote c : Char) : String :=
  if c = '\x00' then "\\0"
  else if c = '\t' then "\\t"
  else if c = '\r' then "\\r"
  else if c = '\n' then "\\n"
  else if c = '\\' then "\\\\"
  else if c = quote then String.ofList ['\\', quote]
  else if isGraphemeExtend c.toNat || isUnprintable c.toNat then
    "\\u\x7b" ++ hexDigits c.toNat ++ "\x7d"
  else c.toString

def quoteChar (c : Char) : String :=
  "'" ++ quotedChar '\'' c ++ "'"

def quoteText (text : String) : String :=
  "\"" ++ String.join (text.toList.map (quotedChar '"')) ++ "\""

end GroovyTidy.Text
