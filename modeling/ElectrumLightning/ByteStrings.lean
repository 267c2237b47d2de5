import Mathlib.Algebra.Order.Ring.Nat

/-!
Byte strings: fixed-width integers in both byte orders, the minimal
big-endian form of a natural number, and slices with signed bounds.
-/

namespace ElectrumLightning.ByteStrings

abbrev Bytes := List UInt8

/-- The `width` low-order bytes of a number, least significant first. -/
def littleEndian : Nat → Nat → Bytes
  | 0, _ => []
  | width + 1, n => UInt8.ofNat n :: littleEndian width (n / 256)

def littleEndianValue : Bytes → Nat
  | [] => 0
  | b :: bs => b.toNat + 256 * littleEndianValue bs

@[simp] theorem length_littleEndian (width n : Nat) :
    (littleEndian width n).length = width := by
  induction width generalizing n with
  | zero => rfl
  | succ width ih => simp [littleEndian, ih]

theorem littleEndianValue_littleEndian (width n : Nat) :
    littleEndianValue (littleEndian width n) = n % 256 ^ width := by
  induction width generalizing n with
  | zero => simp [littleEndian, littleEndianValue, Nat.mod_one]
  | succ width ih =>
      have hbyte : (UInt8.ofNat n).toNat = n % 256 := by simp
      rw [littleEndian, littleEndianValue, ih, hbyte, pow_succ', Nat.mod_mul]

theorem littleEndian_inj {width m n : Nat} (hm : m < 256 ^ width) (hn : n < 256 ^ width)
    (h : littleEndian width m = littleEndian width n) : m = n := by
  rw [← Nat.mod_eq_of_lt hm, ← Nat.mod_eq_of_lt hn, ← littleEndianValue_littleEndian, h,
    littleEndianValue_littleEndian]

theorem littleEndianValue_lt (bs : Bytes) :
    littleEndianValue bs < 256 ^ bs.length := by
  induction bs with
  | nil => simp [littleEndianValue]
  | cons b bs ih =>
      have hbyte : b.toNat < 256 := b.toNat_lt
      rw [littleEndianValue, List.length_cons, pow_succ]
      omega

theorem littleEndian_littleEndianValue (bs : Bytes) :
    littleEndian bs.length (littleEndianValue bs) = bs := by
  induction bs with
  | nil => rfl
  | cons b bs ih =>
      have hbyte : b.toNat < 256 := b.toNat_lt
      have hhigh : (b.toNat + 256 * littleEndianValue bs) / 256 = littleEndianValue bs := by
        omega
      rw [List.length_cons, littleEndian, littleEndianValue, hhigh, ih]
      congr 1
      apply UInt8.toNat_inj.mp
      simp

theorem littleEndian_add (extra width n : Nat) (h : n < 256 ^ width) :
    littleEndian (width + extra) n = littleEndian width n ++ List.replicate extra 0 := by
  induction width generalizing n with
  | zero =>
      have hzero : n = 0 := by simpa using h
      subst hzero
      induction extra with
      | zero => rfl
      | succ extra ih =>
          rw [Nat.zero_add] at ih ⊢
          simp [littleEndian, List.replicate_succ, ih]
  | succ width ih =>
      have hdiv : n / 256 < 256 ^ width := by
        rw [pow_succ] at h
        omega
      rw [Nat.succ_add]
      simp [littleEndian, ih (n / 256) hdiv]

/-- The `width` low-order bytes of a number, most significant first. -/
def bigEndian (width n : Nat) : Bytes := (littleEndian width n).reverse

def bigEndianValue (bs : Bytes) : Nat := littleEndianValue bs.reverse

@[simp] theorem length_bigEndian (width n : Nat) :
    (bigEndian width n).length = width := by
  simp [bigEndian]

theorem bigEndianValue_bigEndian (width n : Nat) :
    bigEndianValue (bigEndian width n) = n % 256 ^ width := by
  simp [bigEndian, bigEndianValue, littleEndianValue_littleEndian]

theorem bigEndianValue_bigEndian_of_lt {width n : Nat} (h : n < 256 ^ width) :
    bigEndianValue (bigEndian width n) = n := by
  rw [bigEndianValue_bigEndian, Nat.mod_eq_of_lt h]

theorem bigEndianValue_lt (bs : Bytes) : bigEndianValue bs < 256 ^ bs.length := by
  simpa [bigEndianValue] using littleEndianValue_lt bs.reverse

theorem bigEndian_bigEndianValue (bs : Bytes) :
    bigEndian bs.length (bigEndianValue bs) = bs := by
  have h := littleEndian_littleEndianValue bs.reverse
  rw [List.length_reverse] at h
  rw [bigEndian, bigEndianValue, h, List.reverse_reverse]

theorem bigEndian_inj {width m n : Nat} (hm : m < 256 ^ width) (hn : n < 256 ^ width)
    (h : bigEndian width m = bigEndian width n) : m = n :=
  littleEndian_inj hm hn (List.reverse_inj.mp h)

theorem bigEndian_add (extra width n : Nat) (h : n < 256 ^ width) :
    bigEndian (extra + width) n = List.replicate extra 0 ++ bigEndian width n := by
  rw [bigEndian, Nat.add_comm, littleEndian_add extra width n h]
  simp [bigEndian]

@[simp] theorem bigEndian_zero (width : Nat) :
    bigEndian width 0 = List.replicate width 0 := by
  simpa [bigEndian, littleEndian] using bigEndian_add width 0 0 (by simp)

theorem bigEndian_eq_zeros_iff {width n : Nat} (h : n < 256 ^ width) :
    bigEndian width n = List.replicate width 0 ↔ n = 0 := by
  constructor
  · intro heq
    exact bigEndian_inj h (Nat.pow_pos (by omega)) (heq.trans (bigEndian_zero width).symm)
  · rintro rfl
    exact bigEndian_zero width

/-- The number of bytes of the minimal form of a number; zero has none. -/
def byteLength (n : Nat) : Nat := if n = 0 then 0 else n.log2 / 8 + 1

def minimalBigEndian (n : Nat) : Bytes := bigEndian (byteLength n) n

theorem lt_pow_byteLength (n : Nat) : n < 256 ^ byteLength n := by
  unfold byteLength
  split
  · omega
  · calc
      n < 2 ^ (n.log2 + 1) := Nat.lt_log2_self
      _ ≤ 2 ^ (8 * (n.log2 / 8 + 1)) := Nat.pow_le_pow_right (by omega) (by omega)
      _ = 256 ^ (n.log2 / 8 + 1) := by rw [Nat.pow_mul]

theorem byteLength_le {width n : Nat} (h : n < 256 ^ width) : byteLength n ≤ width := by
  unfold byteLength
  split
  · omega
  · rename_i hn
    have hpow : n < 2 ^ (8 * width) := by rwa [Nat.pow_mul]
    have hlog := (Nat.log2_lt hn).mpr hpow
    omega

@[simp] theorem bigEndianValue_minimalBigEndian (n : Nat) :
    bigEndianValue (minimalBigEndian n) = n :=
  bigEndianValue_bigEndian_of_lt (lt_pow_byteLength n)

/-- Left-padding the minimal form with zeros gives the fixed-width form. -/
theorem zeros_append_minimalBigEndian {width n : Nat} (h : n < 256 ^ width) :
    List.replicate (width - byteLength n) 0 ++ minimalBigEndian n = bigEndian width n := by
  have hle := byteLength_le h
  rw [minimalBigEndian, ← bigEndian_add _ _ _ (lt_pow_byteLength n),
    Nat.sub_add_cancel hle]

section Slices

variable {α : Type*}

/-- The position that a signed slice bound denotes in a list. -/
def sliceBound (xs : List α) (k : Int) : Nat :=
  if k < 0 then (k + xs.length).toNat else k.toNat

/-- The slice `xs[:k]`, which never fails. -/
def sliceTo (xs : List α) (k : Int) : List α := xs.take (sliceBound xs k)

/-- The slice `xs[k:]`, which never fails. -/
def sliceFrom (xs : List α) (k : Int) : List α := xs.drop (sliceBound xs k)

@[simp] theorem sliceBound_natCast (xs : List α) (n : Nat) : sliceBound xs n = n := by
  unfold sliceBound
  split <;> omega

theorem sliceTo_append_sliceFrom (xs : List α) (k : Int) :
    sliceTo xs k ++ sliceFrom xs k = xs :=
  List.take_append_drop _ xs

/-- A slice that leaves something behind it is not cut short. -/
theorem length_sliceTo {xs : List α} {k : Int} (hk : 0 ≤ k) (h : sliceFrom xs k ≠ []) :
    ((sliceTo xs k).length : Int) = k := by
  have hbound : sliceBound xs k = k.toNat := if_neg (by omega)
  have hlt : k.toNat < xs.length := by
    by_contra hge
    apply h
    rw [sliceFrom, hbound]
    exact List.drop_eq_nil_of_le (by omega)
  rw [sliceTo, hbound, List.length_take]
  omega

theorem ne_nil_of_sliceFrom {xs : List α} {k : Int} (h : sliceFrom xs k ≠ []) : xs ≠ [] := by
  rintro rfl
  exact h (List.drop_nil)

theorem sliceTo_append {xs ys : List α} {k : Int} (h : (xs.length : Int) = k) :
    sliceTo (xs ++ ys) k = xs := by
  subst h
  simp [sliceTo]

theorem sliceFrom_append {xs ys : List α} {k : Int} (h : (xs.length : Int) = k) :
    sliceFrom (xs ++ ys) k = ys := by
  subst h
  simp [sliceFrom]

theorem sliceTo_append_neg {xs ys : List α} {k : Int} (h : (ys.length : Int) = -k)
    (hk : k < 0) : sliceTo (xs ++ ys) k = xs := by
  have hbound : sliceBound (xs ++ ys) k = xs.length := by
    rw [sliceBound, if_pos hk, List.length_append]
    omega
  rw [sliceTo, hbound]
  simp

theorem sliceFrom_append_neg {xs ys : List α} {k : Int} (h : (ys.length : Int) = -k)
    (hk : k < 0) : sliceFrom (xs ++ ys) k = ys := by
  have hbound : sliceBound (xs ++ ys) k = xs.length := by
    rw [sliceBound, if_pos hk, List.length_append]
    omega
  rw [sliceFrom, hbound]
  simp

theorem sliceTo_append_sub {xs ys : List α} {k : Int} (h : (ys.length : Int) = k) :
    sliceTo (xs ++ ys) ((xs ++ ys).length - k) = xs := by
  apply sliceTo_append
  rw [List.length_append]
  omega

end Slices

end ElectrumLightning.ByteStrings
