import GroovyTidy.Proofs.Text.Utf8

set_option autoImplicit false

/-!
The order of texts by their bytes. The bytes of a character are in the order of the code points, and
no character's bytes start those of another, so texts compare by their bytes as they do by their
characters.
-/
namespace GroovyTidy.Text

theorem byte_lt_iff {m n : Nat} (left : m < 256) (right : n < 256) :
    UInt8.ofNat m < UInt8.ofNat n ↔ m < n := by
  rw [UInt8.lt_iff_toNat_lt, toNat_ofNat_byte left, toNat_ofNat_byte right]

theorem byte_eq_iff {m n : Nat} (left : m < 256) (right : n < 256) :
    UInt8.ofNat m = UInt8.ofNat n ↔ m = n := by
  rw [← UInt8.toNat_inj, toNat_ofNat_byte left, toNat_ofNat_byte right]

theorem digit_lt {m n : Nat} (less : m < n) :
    m / 64 < n / 64 ∨ m / 64 = n / 64 ∧ m % 64 < n % 64 := by
  omega

/-- The bytes of a smaller character come first, whatever follows both. -/
theorem encode_lt {c d : Char} (less : c.toNat < d.toNat) (left right : List UInt8) :
    String.utf8EncodeChar c ++ left < String.utf8EncodeChar d ++ right := by
  have valid : d.toNat < 0xD800 ∨ 0xDFFF < d.toNat ∧ d.toNat < 0x110000 := d.valid
  unfold String.utf8EncodeChar
  rw [show c.val.toNat = c.toNat from rfl, show d.val.toNat = d.toNat from rfl]
  dsimp only
  -- Where both take as many bytes, these end in the digits of the code points to the base 64.
  have first := digit_lt less
  have second : c.toNat / 64 < d.toNat / 64 → _ := digit_lt
  have third : c.toNat / 4096 < d.toNat / 4096 → _ := digit_lt
  simp only [Nat.div_div_eq_div_mul, Nat.reduceMul] at second third
  have top : d.toNat / 262144 % 8 = d.toNat / 262144 := Nat.mod_eq_of_lt (by omega)
  have top' : c.toNat / 262144 % 8 = c.toNat / 262144 := Nat.mod_eq_of_lt (by omega)
  repeat' split
  all_goals try omega
  all_goals simp (disch := omega) only [List.cons_append, List.nil_append, List.cons_lt_cons_iff,
    byte_lt_iff, byte_eq_iff]
  all_goals omega

/-- Characters that come first put their bytes first. The induction is on the left text. -/
theorem flatMap_encode_lt {left right : List Char} (less : left < right) :
    left.flatMap String.utf8EncodeChar < right.flatMap String.utf8EncodeChar := by
  induction left generalizing right with
  | nil =>
    cases right with
    | nil => exact absurd less (List.lt_irrefl [])
    | cons d right =>
      obtain ⟨first, rest, bytes, -⟩ := leadingChar_encode d []
      rw [List.flatMap_cons, bytes]
      exact List.nil_lt_cons _ _
  | cons c left ih =>
    cases right with
    | nil => exact absurd less (List.not_lt_nil _)
    | cons d right =>
      rw [List.flatMap_cons, List.flatMap_cons]
      rcases List.cons_lt_cons_iff.mp less with smaller | ⟨rfl, later⟩
      · exact encode_lt smaller _ _
      · exact List.append_left_lt (ih later)

/-- Texts are in the order of their bytes. -/
theorem toBytes_lt_iff {left right : String} : toBytes left < toBytes right ↔ left < right := by
  rw [toBytes_eq, toBytes_eq]
  change _ ↔ left.toList < right.toList
  constructor
  · intro less
    refine Classical.byContradiction fun other => ?_
    rcases List.le_iff_lt_or_eq.mp other with greater | same
    · exact List.lt_asymm less (flatMap_encode_lt greater)
    · rw [same] at less
      exact List.lt_irrefl _ less
  · exact flatMap_encode_lt

end GroovyTidy.Text
