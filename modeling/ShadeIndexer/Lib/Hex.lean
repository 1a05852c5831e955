import Mathlib.Data.List.Basic

/-!
Hexadecimal text: the lowercase encoder and the case-insensitive decoder of
byte strings, without any prefix.
-/

namespace ShadeIndexer.Lib.Hex

def digit (n : Nat) : Char :=
  if n < 10 then Char.ofNat (48 + n) else Char.ofNat (87 + n)

def encode (bytes : List UInt8) : String :=
  String.ofList (bytes.flatMap fun b => [digit (b.toNat / 16), digit (b.toNat % 16)])

def nibble? (c : Char) : Option Nat :=
  if 48 ≤ c.toNat ∧ c.toNat ≤ 57 then some (c.toNat - 48)
  else if 97 ≤ c.toNat ∧ c.toNat ≤ 102 then some (c.toNat - 87)
  else if 65 ≤ c.toNat ∧ c.toNat ≤ 70 then some (c.toNat - 55)
  else none

/-- An odd number of digits or a character that is not a digit is an error. -/
def decodeChars : List Char → Option (List UInt8)
  | [] => some []
  | [_] => none
  | hi :: lo :: rest => do
      let h ← nibble? hi
      let l ← nibble? lo
      let tail ← decodeChars rest
      pure (UInt8.ofNat (16 * h + l) :: tail)

/-- `strip_prefix("0x").unwrap_or(s)`, on the characters of the text. -/
def strip0x : List Char → List Char
  | '0' :: 'x' :: rest => rest
  | cs => cs

theorem nibble?_digit : ∀ n < 16, nibble? (digit n) = some n := by
  decide

/-- Decoding the digits of a byte string gives it back. -/
theorem decodeChars_encode (bytes : List UInt8) :
    decodeChars (encode bytes).toList = some bytes := by
  rw [encode, String.toList_ofList]
  induction bytes with
  | nil => rfl
  | cons b rest ih =>
      have hb : b.toNat < 256 := b.toNat_lt
      have hbyte : UInt8.ofNat (16 * (b.toNat / 16) + b.toNat % 16) = b := by
        rw [Nat.div_add_mod, UInt8.ofNat_toNat]
      rw [List.flatMap_cons]
      simp only [List.cons_append, List.nil_append, decodeChars,
        nibble?_digit (b.toNat / 16) (by omega), nibble?_digit (b.toNat % 16) (by omega), ih,
        Option.bind_eq_bind, Option.bind_some, Option.pure_def, hbyte]

end ShadeIndexer.Lib.Hex
