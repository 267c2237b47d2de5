import ElectrumLightning.BitPrefixes
import ElectrumLightning.ProxySerialization

/-!
The revocation secrets of a channel: every index has a hash, and the hash of an
index gives those of the indexes that it is a prefix of.
-/

namespace ElectrumLightning.RevocationSecrets

open ElectrumLightning.BitPrefixes
open ElectrumLightning.ByteStrings
open ElectrumLightning.ProxySerialization

abbrev Index := BitVec 64

structure Element where
  index : Index
  hash : ByteArrayOf 32
deriving DecidableEq

def maxHeight : UInt8 := 48

def rootIndex : Index := 0

def startIndex : Index := (1 <<< maxHeight.toNat) - 1

def newIndex (v : UInt64) : Index := startIndex - v.toBitVec

def getBit (index : Index) (position : UInt8) : UInt8 :=
  ⟨((index >>> position.toNat) &&& 1).setWidth 8⟩

/-- The loop of `countTrailingZeros`, with the rounds that are left to it. -/
def countZerosFrom (index : Index) : Nat → UInt8 → UInt8
  | 0, zeros => zeros
  | rounds + 1, zeros =>
      if getBit index zeros ≠ 0 then zeros else countZerosFrom index rounds (zeros + 1)

def countTrailingZeros (index : Index) : UInt8 := countZerosFrom index maxHeight.toNat 0

def getPrefix (index : Index) (position : UInt8) : Index :=
  let zero : Index := 0
  let mask := (zero - 1) - ((1 <<< position.toNat) - 1)
  index &&& mask

/-- The loop over the positions, which ends after the position zero. -/
def positionsFrom (toIndex : Index) : Nat → List UInt8
  | 0 => if getBit toIndex 0 = 1 then [0] else []
  | position + 1 =>
      (if getBit toIndex (UInt8.ofNat (position + 1)) = 1 then [UInt8.ofNat (position + 1)] else []) ++
        positionsFrom toIndex position

/-- The positions of the bits to be set, from the highest one down. The counter
is unsigned, and no zeros would let it start at 255. -/
def deriveBitTransformations (fromIndex toIndex : Index) : Except String (List UInt8) :=
  if fromIndex = toIndex then .ok []
  else
    let zeros := countTrailingZeros fromIndex
    if fromIndex ≠ getPrefix toIndex zeros then
      .error "prefixes are different - indexes aren't derivable"
    else .ok (positionsFrom toIndex (zeros - 1).toNat)

/-- `buf[position/8] ^= 1 << (position%8)`; the byte is always one of the 32. -/
def flipBit (buf : ByteArrayOf 32) (position : UInt8) : ByteArrayOf 32 :=
  ⟨buf.val.modify (position / 8).toNat (fun b => b ^^^ (1 <<< (position % 8))), by
    rw [List.length_modify, buf.property]⟩

section Derivation

variable (sha256 : ByteArrayOf 32 → ByteArrayOf 32)

def hashAlong (positions : List UInt8) (hash : ByteArrayOf 32) : ByteArrayOf 32 :=
  positions.foldl (fun buf position => sha256 (flipBit buf position)) hash

def derive (e : Element) (toIndex : Index) : Except String Element := do
  let positions ← deriveBitTransformations e.index toIndex
  pure ⟨toIndex, hashAlong sha256 positions e.hash⟩

structure RevocationProducer where
  root : Element
deriving DecidableEq

def newRevocationProducer (root : ByteArrayOf 32) : RevocationProducer := ⟨⟨rootIndex, root⟩⟩

def RevocationProducer.atIndex (p : RevocationProducer) (v : UInt64) :
    Except String (ByteArrayOf 32) := do
  let element ← derive sha256 p.root (newIndex v)
  pure element.hash

end Derivation

/-! ### What the bit operations compute -/

theorem getBit_eq (index : Index) (position : UInt8) :
    getBit index position = if index.getLsbD position.toNat then 1 else 0 := by
  have hbit := BitVec.and_one_eq_setWidth_ofBool_getLsbD (x := index >>> position.toNat)
  rw [BitVec.getLsbD_ushiftRight, Nat.add_zero] at hbit
  have hvalue : getBit index position =
      ⟨(BitVec.setWidth 64 (BitVec.ofBool (index.getLsbD position.toNat))).setWidth 8⟩ :=
    congrArg (fun bit : BitVec 64 => UInt8.ofBitVec (bit.setWidth 8)) hbit
  rw [hvalue]
  cases index.getLsbD position.toNat <;> rfl

theorem getPrefix_eq (index : Index) (position : UInt8) :
    getPrefix index position = clearLow index position.toNat :=
  and_mask index position.toNat

theorem countZerosFrom_eq (index : Index) {rounds : Nat} {zeros : UInt8}
    (hrounds : zeros.toNat + rounds = 48) (hbelow : ∀ i < zeros.toNat, index.getLsbD i = false) :
    (countZerosFrom index rounds zeros).toNat = height 48 index := by
  induction rounds generalizing zeros with
  | zero => exact (height_eq (by decide) (by omega) hbelow (by omega)).symm
  | succ rounds ih =>
      rw [countZerosFrom, getBit_eq]
      cases hbit : index.getLsbD zeros.toNat with
      | true => exact (height_eq (by decide) (by omega) hbelow fun _ => hbit).symm
      | false =>
          have hnext : (zeros + 1).toNat = zeros.toNat + 1 := by
            rw [UInt8.toNat_add, Nat.mod_eq_of_lt]
            · rfl
            · change zeros.toNat + 1 < 256
              omega
          refine ih (by omega) fun i hi => ?_
          rw [hnext] at hi
          rcases Nat.lt_succ_iff_lt_or_eq.mp hi with hlt | rfl
          · exact hbelow i hlt
          · exact hbit

theorem countTrailingZeros_eq (index : Index) :
    (countTrailingZeros index).toNat = height 48 index :=
  countZerosFrom_eq index rfl fun _ hi => absurd hi (Nat.not_lt_zero _)

theorem getBit_ofNat (index : Index) {position : Nat} (h : position < 256) :
    getBit index (UInt8.ofNat position) = if index.getLsbD position then 1 else 0 := by
  rw [getBit_eq, UInt8.toNat_ofNat_of_lt' h]

theorem positionsFrom_eq (toIndex : Index) {position : Nat} (h : position < 256) :
    positionsFrom toIndex position = (setBits toIndex (position + 1)).map UInt8.ofNat := by
  induction position with
  | zero =>
      rw [positionsFrom, setBits, setBits]
      have hbit := getBit_ofNat toIndex h
      rw [show (0 : UInt8) = UInt8.ofNat 0 from rfl, hbit]
      cases toIndex.getLsbD 0 <;> rfl
  | succ position ih =>
      rw [positionsFrom, setBits, getBit_ofNat toIndex h, ih (by omega), List.map_append]
      congr 1
      cases toIndex.getLsbD (position + 1) <;> rfl

/-! ### Derivation -/

/-- The bits that are set on the way from one index to another. -/
def positions (fromIndex toIndex : Index) : List UInt8 :=
  (setBits toIndex (height 48 fromIndex)).map UInt8.ofNat

theorem deriveBitTransformations_eq (fromIndex toIndex : Index) :
    deriveBitTransformations fromIndex toIndex =
      if IsPrefix 48 fromIndex toIndex then .ok (positions fromIndex toIndex)
      else .error "prefixes are different - indexes aren't derivable" := by
  unfold deriveBitTransformations
  by_cases heq : fromIndex = toIndex
  · subst heq
    rw [if_pos rfl, if_pos (IsPrefix.refl 48 fromIndex), positions,
      setBits_eq_nil fun _ hi => getLsbD_of_lt_height hi]
    rfl
  rw [if_neg heq]
  dsimp only
  rw [getPrefix_eq, countTrailingZeros_eq]
  by_cases hcover : IsPrefix 48 fromIndex toIndex
  · -- without a zero to be set the indexes would be equal
    have hpos : height 48 fromIndex ≠ 0 := by
      intro hzero
      refine heq (BitVec.eq_of_getLsbD_eq fun i _ => hcover.getLsbD ?_)
      omega
    have hle := height_le 48 fromIndex
    have hlast : (countTrailingZeros fromIndex - 1).toNat = height 48 fromIndex - 1 := by
      rw [UInt8.toNat_sub_of_le, countTrailingZeros_eq]
      · rfl
      · rw [UInt8.le_iff_toNat_le, countTrailingZeros_eq]
        exact Nat.one_le_iff_ne_zero.mpr hpos
    have hsame : ¬ fromIndex ≠ clearLow toIndex (height 48 fromIndex) := not_not.mpr hcover
    rw [if_neg hsame, if_pos hcover, hlast, positionsFrom_eq _ (by omega),
      Nat.sub_add_cancel (Nat.one_le_iff_ne_zero.mpr hpos)]
    rfl
  · have hother : fromIndex ≠ clearLow toIndex (height 48 fromIndex) := hcover
    rw [if_pos hother, if_neg hcover]

section

variable (sha256 : ByteArrayOf 32 → ByteArrayOf 32)

theorem derive_eq (e : Element) (toIndex : Index) :
    derive sha256 e toIndex =
      if IsPrefix 48 e.index toIndex then
        .ok ⟨toIndex, hashAlong sha256 (positions e.index toIndex) e.hash⟩
      else .error "prefixes are different - indexes aren't derivable" := by
  rw [derive, deriveBitTransformations_eq]
  split_ifs with hcover <;> rfl

theorem derive_eq_ok_iff {e e' : Element} {toIndex : Index} :
    derive sha256 e toIndex = .ok e' ↔ IsPrefix 48 e.index toIndex ∧
      e' = ⟨toIndex, hashAlong sha256 (positions e.index toIndex) e.hash⟩ := by
  rw [derive_eq]
  split_ifs with hcover
  · simp [hcover, eq_comm]
  · simp [hcover]

theorem positions_append {a b c : Index} (hab : IsPrefix 48 a b) (hbc : IsPrefix 48 b c) :
    positions a c = positions a b ++ positions b c := by
  rw [positions, hab.setBits_append (by decide) hbc, List.map_append]
  rfl

theorem hashAlong_append (first second : List UInt8) (hash : ByteArrayOf 32) :
    hashAlong sha256 (first ++ second) hash =
      hashAlong sha256 second (hashAlong sha256 first hash) :=
  List.foldl_append

/-- An element derived over another one is the one derived at once. -/
theorem derive_trans {e e' e'' : Element} {b c : Index} (hab : derive sha256 e b = .ok e')
    (hbc : derive sha256 e' c = .ok e'') : derive sha256 e c = .ok e'' := by
  obtain ⟨hfirst, rfl⟩ := (derive_eq_ok_iff sha256).mp hab
  obtain ⟨hsecond, rfl⟩ := (derive_eq_ok_iff sha256).mp hbc
  refine (derive_eq_ok_iff sha256).mpr ⟨hfirst.trans (by decide) hsecond, ?_⟩
  rw [positions_append hfirst hsecond, hashAlong_append]

theorem toNat_newIndex (v : UInt64) :
    (newIndex v).toNat = (2 ^ 64 - v.toNat + (2 ^ 48 - 1)) % 2 ^ 64 :=
  BitVec.toNat_sub startIndex v.toBitVec

theorem isPrefix_rootIndex_iff (v : UInt64) :
    IsPrefix 48 rootIndex (newIndex v) ↔ v.toNat < 2 ^ 48 := by
  have hheight : height 48 rootIndex = 48 :=
    height_eq (by decide) (by decide) (fun _ _ => BitVec.getLsbD_zero)
      fun hlt => absurd hlt (Nat.lt_irrefl 48)
  have hv := v.toNat_lt
  have hcover : IsPrefix 48 rootIndex (newIndex v) ↔ clearLow (newIndex v) 48 = 0#64 := by
    rw [IsPrefix, hheight, eq_comm]
    rfl
  rw [hcover, clearLow_eq_zero_iff, toNat_newIndex]
  omega

theorem atIndex_eq (root : ByteArrayOf 32) (v : UInt64) :
    (newRevocationProducer root).atIndex sha256 v =
      if v.toNat < 2 ^ 48 then .ok (hashAlong sha256 (positions rootIndex (newIndex v)) root)
      else .error "prefixes are different - indexes aren't derivable" := by
  have hderive : derive sha256 ⟨rootIndex, root⟩ (newIndex v) =
      if IsPrefix 48 rootIndex (newIndex v) then
        .ok ⟨newIndex v, hashAlong sha256 (positions rootIndex (newIndex v)) root⟩
      else .error "prefixes are different - indexes aren't derivable" :=
    derive_eq sha256 ⟨rootIndex, root⟩ (newIndex v)
  change (derive sha256 ⟨rootIndex, root⟩ (newIndex v) >>= fun e => pure e.hash) = _
  rw [hderive]
  generalize hashAlong sha256 (positions rootIndex (newIndex v)) root = secret
  by_cases hv : v.toNat < 2 ^ 48
  · rw [if_pos ((isPrefix_rootIndex_iff v).mpr hv), if_pos hv]
    rfl
  · rw [if_neg (mt (isPrefix_rootIndex_iff v).mp hv), if_neg hv]
    rfl

/-- An index is derivable from its prefixes, derivations compose, and the
producer has a secret for exactly the indexes below `2 ^ 48`. -/
theorem derive_consistent :
    (∀ (a b : Index) (hash : ByteArrayOf 32),
      (∃ e, derive sha256 ⟨a, hash⟩ b = .ok e) ↔ a = b ∨ a = clearLow b (height 48 a)) ∧
    (∀ (a b c : Index) (hash : ByteArrayOf 32) (e e' : Element),
      derive sha256 ⟨a, hash⟩ b = .ok e → derive sha256 e c = .ok e' →
        derive sha256 ⟨a, hash⟩ c = .ok e') ∧
    ∀ (root : ByteArrayOf 32) (v : UInt64),
      (∃ secret, (newRevocationProducer root).atIndex sha256 v = .ok secret) ↔
        v.toNat < 2 ^ 48 := by
  refine ⟨fun a b hash => ⟨?_, ?_⟩, fun a b c hash e e' hab hbc => derive_trans sha256 hab hbc,
    fun root v => ?_⟩
  · rintro ⟨e, he⟩
    exact .inr ((derive_eq_ok_iff sha256).mp he).1
  · rintro (rfl | hcover)
    · exact ⟨_, (derive_eq_ok_iff sha256).mpr ⟨IsPrefix.refl 48 a, rfl⟩⟩
    · exact ⟨_, (derive_eq_ok_iff sha256).mpr ⟨hcover, rfl⟩⟩
  · rw [atIndex_eq]
    split_ifs with hv
    · exact iff_of_true ⟨_, rfl⟩ hv
    · refine iff_of_false ?_ hv
      rintro ⟨secret, hsecret⟩
      cases hsecret

end

def recordedHash : ByteArrayOf 32 :=
  ⟨[87, 120, 249, 133, 219, 117, 76, 102, 40, 105, 31, 86, 250, 218, 229, 12, 101, 253, 219, 232,
    235, 46, 147, 3, 150, 51, 254, 250, 5, 212, 94, 49], rfl⟩

def recordedNextHash : ByteArrayOf 32 :=
  ⟨[171, 77, 236, 149, 230, 149, 243, 175, 113, 132, 145, 160, 168, 141, 142, 213, 82, 18, 57, 136,
    112, 206, 188, 2, 251, 85, 40, 251, 55, 52, 139, 58], rfl⟩

def zeroRoot : ByteArrayOf 32 := ⟨List.replicate 32 0, rfl⟩

/-- The two hashes on the way from zero over 2 to 3. -/
def recordedSha256 (buf : ByteArrayOf 32) : ByteArrayOf 32 :=
  if buf = flipBit zeroRoot 1 then recordedHash
  else if buf = flipBit recordedHash 0 then recordedNextHash
  else zeroRoot

theorem derive_zero_two_three :
    derive recordedSha256 ⟨0, zeroRoot⟩ 3 = .ok ⟨3, recordedNextHash⟩ :=
  (derive_consistent recordedSha256).2.1 0 2 3 zeroRoot ⟨2, recordedHash⟩ ⟨3, recordedNextHash⟩
    (by decide +kernel) (by decide +kernel)

end ElectrumLightning.RevocationSecrets
