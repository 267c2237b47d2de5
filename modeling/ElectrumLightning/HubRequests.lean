import Mathlib.Data.List.Basic
import ElectrumLightning.SocksHandler

/-!
The requests that the hub numbers and puts on `writeQueue`, and the objects
that answer them.
-/

namespace ElectrumLightning.HubRequests

open ElectrumLightning.ByteStrings
open ElectrumLightning.JsonText
open ElectrumLightning.SocksHandler

/-- The object `{"id": str(id), "method": method, "params": [params]}`. -/
structure Request where
  id : Nat
  method : String
  params : String
deriving DecidableEq

/-- The decimal text of a number, as the characters of a decoded string. -/
def str (n : Nat) : List Nat := (Nat.toDigits 10 n).map Char.toNat

theorem str_injective : Function.Injective str := by
  intro m n h
  have hchars : Function.Injective Char.toNat := fun _ _ => Char.toNat_inj.mp
  have hdigits : Nat.toDigits 10 m = Nat.toDigits 10 n := List.map_injective_iff.mpr hchars h
  calc
    m = Nat.ofDigitChars 10 (Nat.toDigits 10 m) 0 := Nat.ofDigitChars_ten_toDigits.symm
    _ = Nat.ofDigitChars 10 (Nat.toDigits 10 n) 0 := by rw [hdigits]
    _ = n := Nat.ofDigitChars_ten_toDigits

def carriesId (recursionLimit : Nat) (payload : Bytes) (id : Nat) : Bool :=
  match loads recursionLimit payload with
  | .ok v =>
      match v.member? idKey with
      | some (.string units) => units == str id
      | _ => false
  | .error _ => false

theorem carriesId_of_loads_eq {recursionLimit : Nat} {text payload : Bytes} {id : Nat}
    (hloads : loads recursionLimit payload = loads recursionLimit text)
    (h : carriesId recursionLimit text id = true) :
    carriesId recursionLimit payload id = true := by
  rw [carriesId, hloads]
  exact h

theorem carriesId_unique {recursionLimit : Nat} {payload : Bytes} {id id' : Nat}
    (h : carriesId recursionLimit payload id = true)
    (h' : carriesId recursionLimit payload id' = true) : id = id' := by
  unfold carriesId at h h'
  split at h
  · split at h
    · simp only [beq_iff_eq] at h h'
      exact str_injective (h.symm.trans (by simp_all))
    · cases h
  · cases h

end ElectrumLightning.HubRequests
