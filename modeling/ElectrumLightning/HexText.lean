import ElectrumLightning.ByteStrings

/-!
Byte strings as hexadecimal text, two lower-case digits a byte.
-/

namespace ElectrumLightning.HexText

open ElectrumLightning.ByteStrings

def hexDigit (n : Nat) : Char :=
  if n < 10 then Char.ofNat ('0'.toNat + n) else Char.ofNat ('a'.toNat + (n - 10))

def hexValue (c : Char) : Option Nat :=
  if '0' ≤ c ∧ c ≤ '9' then some (c.toNat - '0'.toNat)
  else if 'a' ≤ c ∧ c ≤ 'f' then some (c.toNat - 'a'.toNat + 10)
  else if 'A' ≤ c ∧ c ≤ 'F' then some (c.toNat - 'A'.toNat + 10)
  else none

def hexDigits : Bytes → List Char
  | [] => []
  | b :: bs => hexDigit (b.toNat / 16) :: hexDigit (b.toNat % 16) :: hexDigits bs

def hexlify (bs : Bytes) : String := String.ofList (hexDigits bs)

/-- Digits read in pairs; an odd one at the end is an error. -/
def bytesOfDigits : List Char → Option Bytes
  | [] => some []
  | [_] => none
  | c :: d :: ds => do
      let high ← hexValue c
      let low ← hexValue d
      let bs ← bytesOfDigits ds
      some (UInt8.ofNat (16 * high + low) :: bs)

def unhexlify (s : String) : Option Bytes := bytesOfDigits s.toList

theorem hexValue_hexDigit {n : Nat} (h : n < 16) : hexValue (hexDigit n) = some n := by
  revert n
  decide

theorem bytesOfDigits_hexDigits (bs : Bytes) : bytesOfDigits (hexDigits bs) = some bs := by
  induction bs with
  | nil => rfl
  | cons b bs ih =>
      have hbyte : b.toNat < 256 := b.toNat_lt
      have hhigh : b.toNat / 16 < 16 := by omega
      have hlow : b.toNat % 16 < 16 := by omega
      have hb : UInt8.ofNat (16 * (b.toNat / 16) + b.toNat % 16) = b := by
        rw [Nat.div_add_mod]
        exact UInt8.ofNat_toNat
      simp only [hexDigits, bytesOfDigits, hexValue_hexDigit hhigh, hexValue_hexDigit hlow, ih,
        Option.bind_eq_bind, Option.bind_some, hb]

@[simp] theorem unhexlify_hexlify (bs : Bytes) : unhexlify (hexlify bs) = some bs := by
  rw [unhexlify, hexlify, String.toList_ofList]
  exact bytesOfDigits_hexDigits bs

theorem hexlify_injective : Function.Injective hexlify := by
  intro bs cs heq
  have hread := unhexlify_hexlify bs
  rw [heq, unhexlify_hexlify] at hread
  exact (Option.some.inj hread).symm

end ElectrumLightning.HexText
