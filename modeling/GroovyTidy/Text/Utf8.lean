set_option autoImplicit false

/-!
Text as bytes in UTF-8, and bytes as text.
-/
namespace GroovyTidy.Text

def toBytes (text : String) : List UInt8 :=
  text.toUTF8.toList

/-- How many bytes follow a first byte, and between which bounds the one after it lies. -/
def following (first : Nat) : Option (Nat × Nat × Nat) :=
  if first < 0x80 then some (0, 0x80, 0xBF)
  else if 0xC2 ≤ first ∧ first ≤ 0xDF then some (1, 0x80, 0xBF)
  else if first = 0xE0 then some (2, 0xA0, 0xBF)
  else if first = 0xED then some (2, 0x80, 0x9F)
  else if 0xE1 ≤ first ∧ first ≤ 0xEF then some (2, 0x80, 0xBF)
  else if first = 0xF0 then some (3, 0x90, 0xBF)
  else if 0xF1 ≤ first ∧ first ≤ 0xF3 then some (3, 0x80, 0xBF)
  else if first = 0xF4 then some (3, 0x80, 0x8F)
  else none

/-- The bits that a first byte with so many followers gives to its code point. -/
def leadingBits (followers first : Nat) : Nat :=
  if followers = 0 then first else first % Nat.pow 2 (6 - followers)

/-- Up to so many bytes between bounds, the bounds of all but the first being those of every
follower. -/
def followers : Nat → Nat → Nat → List UInt8 → List Nat
  | 0, _, _, _ => []
  | _ + 1, _, _, [] => []
  | count + 1, least, greatest, byte :: rest =>
    if least ≤ byte.toNat ∧ byte.toNat ≤ greatest then byte.toNat :: followers count 0x80 0xBF rest
    else []

/-- The character at the front of some bytes, or none if they start with no character, and how many
of the bytes after the first one belong to what was found. -/
def leadingChar (first : UInt8) (rest : List UInt8) : Option Char × Nat :=
  match following first.toNat with
  | none => (none, 0)
  | some (count, least, greatest) =>
    let found := followers count least greatest rest
    if found.length = count then
      (some (Char.ofNat (found.foldl (fun value byte => value * 64 + byte % 64)
        (leadingBits count first.toNat))), count)
    else (none, found.length)

/-- The characters of some bytes, after those that still belong to the character before them;
nothing where no character is. -/
def decodeFrom : Nat → List UInt8 → List (Option Char)
  | _, [] => []
  | skipped + 1, _ :: rest => decodeFrom skipped rest
  | 0, first :: rest =>
    let (found, more) := leadingChar first rest
    found :: decodeFrom more rest

def ofBytes? (bytes : List UInt8) : Option String :=
  ((decodeFrom 0 bytes).mapM id).map String.ofList

/-- The text of some bytes, with a replacement character for what is no text. -/
def ofBytesLossy (bytes : List UInt8) : String :=
  String.ofList ((decodeFrom 0 bytes).map fun found => found.getD '\ufffd')

def dropByteOrderMark (bytes : List UInt8) : List UInt8 :=
  if bytes.take 3 = [0xEF, 0xBB, 0xBF] then bytes.drop 3 else bytes

end GroovyTidy.Text
