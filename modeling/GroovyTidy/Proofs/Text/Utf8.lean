import GroovyTidy.Text.Utf8

set_option autoImplicit false

/-!
Text goes to bytes and back. The bytes of a character are read as this character whatever follows
them, so a text is found again in its bytes.
-/
namespace GroovyTidy.Text

/-! ## Bytes of texts -/

theorem toList_loop_eq (bytes : ByteArray) (i : Nat) (passed : List UInt8) :
    ByteArray.toList.loop bytes i passed = passed.reverse ++ bytes.data.toList.drop i := by
  fun_induction ByteArray.toList.loop bytes i passed with
  | case1 i passed inside ih =>
    have here : i < bytes.data.toList.length := by simpa using inside
    have byte : bytes.get! i = bytes.data.toList[i] := by simp [ByteArray.get!, inside]
    rw [ih, List.drop_eq_getElem_cons here, byte, List.reverse_cons, List.append_assoc]
    rfl
  | case2 i passed outside =>
    have past : bytes.data.toList.length ≤ i := by simpa using outside
    rw [List.drop_eq_nil_of_le past, List.append_nil]

theorem toBytes_eq (text : String) : toBytes text = text.toList.flatMap String.utf8EncodeChar := by
  have bytes : text.toUTF8 = (text.toList.flatMap String.utf8EncodeChar).toByteArray := by
    rw [String.toUTF8_eq_toByteArray]
    conv => lhs; rw [← String.ofList_toList (s := text)]
    exact String.toByteArray_ofList
  rw [toBytes, bytes, ByteArray.toList, toList_loop_eq, List.toList_data_toByteArray]
  rfl

/-! ## Characters at the front of bytes -/

theorem followers_cons {count least greatest : Nat} {byte : UInt8} (rest : List UInt8)
    (low : least ≤ byte.toNat) (high : byte.toNat ≤ greatest) :
    followers (count + 1) least greatest (byte :: rest) =
      byte.toNat :: followers count 0x80 0xBF rest := by
  rw [followers, if_pos ⟨low, high⟩]

theorem following_two {n : Nat} (low : 0xC2 ≤ n) (high : n ≤ 0xDF) :
    following n = some (1, 0x80, 0xBF) := by
  rw [following, if_neg (by omega), if_pos ⟨low, high⟩]

/-- A first byte of three takes every follower, unless the code point would be too small or a
surrogate. -/
theorem following_three (n next : Nat) (low : 0xE0 ≤ n) (high : n ≤ 0xEF) (least : 0x80 ≤ next)
    (most : next ≤ 0xBF) (large : n = 0xE0 → 0xA0 ≤ next) (scalar : n = 0xED → next ≤ 0x9F) :
    ∃ lower upper, following n = some (2, lower, upper) ∧ lower ≤ next ∧ next ≤ upper := by
  rw [following, if_neg (by omega), if_neg (by omega)]
  by_cases first : n = 0xE0
  · exact ⟨0xA0, 0xBF, by rw [if_pos first], large first, most⟩
  · rw [if_neg first]
    by_cases surrogate : n = 0xED
    · exact ⟨0x80, 0x9F, by rw [if_pos surrogate], least, scalar surrogate⟩
    · exact ⟨0x80, 0xBF, by rw [if_neg surrogate, if_pos (by omega)], least, most⟩

/-- A first byte of four takes every follower, unless the code point would be too small or too
large. -/
theorem following_four (n next : Nat) (low : 0xF0 ≤ n) (high : n ≤ 0xF4) (least : 0x80 ≤ next)
    (most : next ≤ 0xBF) (large : n = 0xF0 → 0x90 ≤ next) (scalar : n = 0xF4 → next ≤ 0x8F) :
    ∃ lower upper, following n = some (3, lower, upper) ∧ lower ≤ next ∧ next ≤ upper := by
  rw [following, if_neg (by omega), if_neg (by omega), if_neg (by omega), if_neg (by omega),
    if_neg (by omega)]
  by_cases first : n = 0xF0
  · exact ⟨0x90, 0xBF, by rw [if_pos first], large first, most⟩
  · rw [if_neg first]
    by_cases last : n = 0xF4
    · exact ⟨0x80, 0x8F, by rw [if_neg (by omega), if_pos last], least, scalar last⟩
    · exact ⟨0x80, 0xBF, by rw [if_pos (by omega)], least, most⟩

theorem leadingChar_of_followers {first : UInt8} (rest : List UInt8) {more : List UInt8}
    (lower upper : Nat) {c : Char}
    (known : following first.toNat = some (rest.length, lower, upper))
    (found : followers rest.length lower upper (rest ++ more) = rest.map UInt8.toNat)
    (value : (rest.map UInt8.toNat).foldl (fun value byte => value * 64 + byte % 64)
      (leadingBits rest.length first.toNat) = c.toNat) :
    leadingChar first (rest ++ more) = (some c, rest.length) := by
  rw [leadingChar, known]
  dsimp only
  rw [found, value, List.length_map, if_pos rfl, Char.ofNat_toNat]

theorem toNat_ofNat_byte {n : Nat} (small : n < 256) : (UInt8.ofNat n).toNat = n := by
  rw [UInt8.toNat_ofNat', Nat.mod_eq_of_lt small]

section Encoded

variable {c : Char} (more : List UInt8)

theorem leadingChar_one (small : c.toNat ≤ 0x7F) :
    leadingChar (UInt8.ofNat c.toNat) more = (some c, 0) := by
  have first := toNat_ofNat_byte (n := c.toNat) (by omega)
  refine leadingChar_of_followers [] 0x80 0xBF ?_ rfl ?_
  · rw [first, following, if_pos (by omega)]
    rfl
  · rw [first]
    rfl

theorem leadingChar_two (large : 0x7F < c.toNat) (small : c.toNat ≤ 0x7FF) :
    leadingChar (UInt8.ofNat (c.toNat / 64 % 32 + 0xC0))
      (UInt8.ofNat (c.toNat % 64 + 0x80) :: more) =
      (some c, 1) := by
  have first := toNat_ofNat_byte (n := c.toNat / 64 % 32 + 0xC0) (by omega)
  have second := toNat_ofNat_byte (n := c.toNat % 64 + 0x80) (by omega)
  refine leadingChar_of_followers [_] 0x80 0xBF ?_ ?_ ?_
  · rw [first]
    exact following_two (by omega) (by omega)
  · exact followers_cons more (by omega) (by omega)
  · show (leadingBits 1 _ * 64 + _ % 64) = c.toNat
    rw [first, second, leadingBits, if_neg (by decide), Nat.pow_eq]
    omega

theorem leadingChar_three (large : 0x7FF < c.toNat) (small : c.toNat ≤ 0xFFFF) :
    leadingChar (UInt8.ofNat (c.toNat / 4096 % 16 + 0xE0))
        (UInt8.ofNat (c.toNat / 64 % 64 + 0x80) :: UInt8.ofNat (c.toNat % 64 + 0x80) :: more) =
      (some c, 2) := by
  have valid : c.toNat < 0xD800 ∨ 0xDFFF < c.toNat ∧ c.toNat < 0x110000 := c.valid
  have first := toNat_ofNat_byte (n := c.toNat / 4096 % 16 + 0xE0) (by omega)
  have second := toNat_ofNat_byte (n := c.toNat / 64 % 64 + 0x80) (by omega)
  have third := toNat_ofNat_byte (n := c.toNat % 64 + 0x80) (by omega)
  obtain ⟨lower, upper, known, low, high⟩ :=
    following_three (c.toNat / 4096 % 16 + 0xE0) (c.toNat / 64 % 64 + 0x80)
      (by omega) (by omega) (by omega) (by omega) (by omega) (by omega)
  refine leadingChar_of_followers [_, _] lower upper ?_ ?_ ?_
  · rw [first]
    exact known
  · show followers 2 _ _ (_ :: _ :: more) = [_, _]
    rw [followers_cons _ (by omega) (by omega), followers_cons _ (by omega) (by omega)]
    rfl
  · show (leadingBits 2 _ * 64 + _ % 64) * 64 + _ % 64 = c.toNat
    rw [first, second, third, leadingBits, if_neg (by decide), Nat.pow_eq]
    omega

theorem leadingChar_four (large : 0xFFFF < c.toNat) :
    leadingChar (UInt8.ofNat (c.toNat / 262144 % 8 + 0xF0))
        (UInt8.ofNat (c.toNat / 4096 % 64 + 0x80) :: UInt8.ofNat (c.toNat / 64 % 64 + 0x80) ::
          UInt8.ofNat (c.toNat % 64 + 0x80) :: more) =
      (some c, 3) := by
  have valid : c.toNat < 0xD800 ∨ 0xDFFF < c.toNat ∧ c.toNat < 0x110000 := c.valid
  have first := toNat_ofNat_byte (n := c.toNat / 262144 % 8 + 0xF0) (by omega)
  have second := toNat_ofNat_byte (n := c.toNat / 4096 % 64 + 0x80) (by omega)
  have third := toNat_ofNat_byte (n := c.toNat / 64 % 64 + 0x80) (by omega)
  have fourth := toNat_ofNat_byte (n := c.toNat % 64 + 0x80) (by omega)
  obtain ⟨lower, upper, known, low, high⟩ :=
    following_four (c.toNat / 262144 % 8 + 0xF0) (c.toNat / 4096 % 64 + 0x80)
      (by omega) (by omega) (by omega) (by omega) (by omega) (by omega)
  refine leadingChar_of_followers [_, _, _] lower upper ?_ ?_ ?_
  · rw [first]
    exact known
  · show followers 3 _ _ (_ :: _ :: _ :: more) = [_, _, _]
    rw [followers_cons _ (by omega) (by omega), followers_cons _ (by omega) (by omega),
      followers_cons _ (by omega) (by omega)]
    rfl
  · show ((leadingBits 3 _ * 64 + _ % 64) * 64 + _ % 64) * 64 + _ % 64 = c.toNat
    rw [first, second, third, fourth, leadingBits, if_neg (by decide), Nat.pow_eq]
    omega

end Encoded

/-- The bytes of a character are read as this character, whatever follows them. -/
theorem leadingChar_encode (c : Char) (more : List UInt8) :
    ∃ first rest, String.utf8EncodeChar c = first :: rest ∧
      leadingChar first (rest ++ more) = (some c, rest.length) := by
  unfold String.utf8EncodeChar
  rw [show c.val.toNat = c.toNat from rfl]
  dsimp only
  split
  · rename_i small
    exact ⟨_, _, rfl, leadingChar_one more small⟩
  · rename_i one
    split
    · rename_i small
      exact ⟨_, _, rfl, leadingChar_two more (by omega) small⟩
    · rename_i two
      split
      · rename_i small
        exact ⟨_, _, rfl, leadingChar_three more (by omega) small⟩
      · exact ⟨_, _, rfl, leadingChar_four more (by omega)⟩

/-! ## Texts -/

theorem decodeFrom_append (passed more : List UInt8) :
    decodeFrom passed.length (passed ++ more) = decodeFrom 0 more := by
  induction passed with
  | nil => rfl
  | cons byte passed ih => exact ih

theorem decodeFrom_encode (chars : List Char) :
    decodeFrom 0 (chars.flatMap String.utf8EncodeChar) = chars.map some := by
  induction chars with
  | nil => rfl
  | cons c chars ih =>
    obtain ⟨first, rest, bytes, found⟩ := leadingChar_encode c (chars.flatMap String.utf8EncodeChar)
    rw [List.flatMap_cons, bytes, List.cons_append, decodeFrom, found]
    dsimp only
    rw [decodeFrom_append, ih, List.map_cons]

theorem mapM_some (chars : List Char) : (chars.map some).mapM id = some chars := by
  induction chars with
  | nil => rfl
  | cons c chars ih =>
    rw [List.map_cons, List.mapM_cons, ih]
    rfl

/-- The text of the bytes of a text is this text. -/
theorem ofBytes?_toBytes (text : String) : ofBytes? (toBytes text) = some text := by
  rw [ofBytes?, toBytes_eq, decodeFrom_encode, mapM_some, Option.map_some, String.ofList_toList]

end GroovyTidy.Text
