import Mathlib.Data.Nat.Bitwise

/-!
Bit vectors as prefixes of one another: the low bits of a prefix are zeros, up
to a bounded height, and the higher ones are those of the longer vector.
-/

namespace ElectrumLightning.BitPrefixes

variable {w cap : Nat} {a b c : BitVec w}

def clearLow (x : BitVec w) (n : Nat) : BitVec w := (x >>> n) <<< n

theorem getLsbD_clearLow (x : BitVec w) (n i : Nat) :
    (clearLow x n).getLsbD i = (decide (n ≤ i) && x.getLsbD i) := by
  rw [clearLow, BitVec.getLsbD_shiftLeft, BitVec.getLsbD_ushiftRight]
  by_cases hwidth : i < w
  · by_cases hle : n ≤ i
    · simp [hwidth, hle, Nat.not_lt.mpr hle]
    · simp [hle, Nat.lt_of_not_le hle]
  · simp [hwidth, BitVec.getLsbD_of_ge x i (Nat.le_of_not_lt hwidth)]

theorem clearLow_eq_zero_iff {x : BitVec w} {n : Nat} :
    clearLow x n = 0#w ↔ x.toNat < 2 ^ n := by
  constructor
  · intro hzero
    refine Nat.lt_pow_two_of_testBit x.toNat fun i hi => ?_
    have hbit := getLsbD_clearLow x n i
    rw [hzero, BitVec.getLsbD_zero, decide_eq_true hi, Bool.true_and] at hbit
    exact hbit.symm
  · intro hlt
    apply BitVec.eq_of_getLsbD_eq
    intro i _
    rw [getLsbD_clearLow, BitVec.getLsbD_zero]
    by_cases hle : n ≤ i
    · have hbit : x.getLsbD i = false :=
        Nat.testBit_lt_two_pow (Nat.lt_of_lt_of_le hlt (Nat.pow_le_pow_right (by decide) hle))
      rw [hbit, Bool.and_false]
    · rw [decide_eq_false hle, Bool.false_and]

theorem shiftLeft_sub_one {n : Nat} (h : n < w) :
    (1#w <<< n) - 1#w = BitVec.ofNat w (2 ^ n - 1) := by
  have hpow : 1 ≤ 2 ^ n := Nat.one_le_two_pow
  have hlt : 2 ^ n < 2 ^ w := Nat.pow_lt_pow_right (by decide) h
  have hone : (1#w).toNat = 1 := by
    rw [BitVec.toNat_ofNat, Nat.mod_eq_of_lt (by omega)]
  have hshift : (1#w <<< n).toNat = 2 ^ n := by
    rw [BitVec.toNat_shiftLeft, hone, Nat.shiftLeft_eq, one_mul, Nat.mod_eq_of_lt hlt]
  have hle : 1#w ≤ 1#w <<< n := by
    rw [BitVec.le_def, hshift, hone]
    exact hpow
  apply BitVec.eq_of_toNat_eq
  rw [BitVec.toNat_sub_of_le hle, hshift, hone, BitVec.toNat_ofNat, Nat.mod_eq_of_lt (by omega)]

/-- The mask that clears the low bits. -/
theorem and_mask (x : BitVec w) (n : Nat) :
    x &&& (BitVec.allOnes w - ((1#w <<< n) - 1#w)) = clearLow x n := by
  apply BitVec.eq_of_getLsbD_eq
  intro i hi
  rw [BitVec.allOnes_sub_eq_not, BitVec.getLsbD_and, BitVec.getLsbD_not, getLsbD_clearLow,
    Bool.and_comm]
  congr 1
  rcases Nat.lt_or_ge n w with hlt | hge
  · rw [shiftLeft_sub_one hlt, BitVec.getLsbD_ofNat, Nat.testBit_two_pow_sub_one]
    by_cases hle : n ≤ i
    · simp [hi, hle]
    · simp [hi, hle, Nat.lt_of_not_le hle]
  · have hnone : ¬ n ≤ i := by omega
    rw [BitVec.shiftLeft_eq_zero hge, BitVec.zero_sub, BitVec.neg_one_eq_allOnes,
      BitVec.getLsbD_allOnes]
    simp [hi, hnone]

/-- The number of zeros at the low end, counted up to `cap`. -/
def height (cap : Nat) (x : BitVec w) : Nat := min cap x.ctz.toNat

theorem height_le (cap : Nat) (x : BitVec w) : height cap x ≤ cap := Nat.min_le_left _ _

theorem getLsbD_of_lt_height {x : BitVec w} {i : Nat} (h : i < height cap x) :
    x.getLsbD i = false :=
  BitVec.getLsbD_false_of_lt_ctz (Nat.lt_of_lt_of_le h (Nat.min_le_right _ _))

theorem getLsbD_height {x : BitVec w} (hcap : cap ≤ w) (h : height cap x < cap) :
    x.getLsbD (height cap x) = true := by
  have hctz : height cap x = x.ctz.toNat := by
    unfold height at h ⊢
    omega
  have hwidth : (w : BitVec w).toNat = w := by
    rw [BitVec.natCast_eq_ofNat, BitVec.toNat_ofNat, Nat.mod_eq_of_lt Nat.lt_two_pow_self]
  have hzero : x ≠ 0#w := by
    rw [← BitVec.ctz_lt_iff_ne_zero, BitVec.lt_def, hwidth]
    omega
  rw [hctz]
  exact BitVec.getLsbD_true_ctz_of_ne_zero hzero

theorem height_eq {x : BitVec w} {n : Nat} (hcap : cap ≤ w) (hle : n ≤ cap)
    (hbelow : ∀ i < n, x.getLsbD i = false) (hat : n < cap → x.getLsbD n = true) :
    height cap x = n := by
  rcases Nat.lt_trichotomy (height cap x) n with hlt | heq | hgt
  · have hone := getLsbD_height hcap (Nat.lt_of_lt_of_le hlt hle)
    rw [hbelow _ hlt] at hone
    cases hone
  · exact heq
  · have hone := hat (Nat.lt_of_lt_of_le hgt (height_le cap x))
    rw [getLsbD_of_lt_height hgt] at hone
    cases hone

/-- The positions of the ones below `n`, from the highest one down. -/
def setBits (x : BitVec w) : Nat → List Nat
  | 0 => []
  | n + 1 => (if x.getLsbD n then [n] else []) ++ setBits x n

theorem setBits_eq_nil {x : BitVec w} {n : Nat} (h : ∀ i < n, x.getLsbD i = false) :
    setBits x n = [] := by
  induction n with
  | zero => rfl
  | succ n ih =>
      rw [setBits, h n (Nat.lt_succ_self n), ih fun i hi => h i (Nat.lt_succ_of_lt hi)]
      rfl

theorem setBits_append {m n : Nat} (hle : m ≤ n)
    (hhigh : ∀ i, m ≤ i → b.getLsbD i = c.getLsbD i) (hlow : ∀ i < m, b.getLsbD i = false) :
    setBits c n = setBits b n ++ setBits c m := by
  induction n, hle using Nat.le_induction with
  | base => rw [setBits_eq_nil hlow, List.nil_append]
  | succ n hle ih => rw [setBits, setBits, hhigh n hle, ih, List.append_assoc]

def IsPrefix (cap : Nat) (a b : BitVec w) : Prop := a = clearLow b (height cap a)

instance (cap : Nat) (a b : BitVec w) : Decidable (IsPrefix cap a b) :=
  inferInstanceAs (Decidable (_ = _))

namespace IsPrefix

theorem getLsbD (h : IsPrefix cap a b) {i : Nat} (hle : height cap a ≤ i) :
    a.getLsbD i = b.getLsbD i := by
  have hbit := congrArg (fun x => BitVec.getLsbD x i) h
  simp only [getLsbD_clearLow, hle, decide_true, Bool.true_and] at hbit
  exact hbit

theorem of_getLsbD (h : ∀ i, height cap a ≤ i → a.getLsbD i = b.getLsbD i) : IsPrefix cap a b := by
  apply BitVec.eq_of_getLsbD_eq
  intro i _
  rw [getLsbD_clearLow]
  by_cases hle : height cap a ≤ i
  · simp [hle, h i hle]
  · simp [hle, getLsbD_of_lt_height (Nat.lt_of_not_le hle)]

theorem refl (cap : Nat) (a : BitVec w) : IsPrefix cap a a := of_getLsbD fun _ _ => rfl

/-- A longer vector has no more zeros at its low end. -/
theorem height_le (hcap : cap ≤ w) (h : IsPrefix cap a b) : height cap b ≤ height cap a := by
  refine Nat.le_of_not_lt fun hlt => ?_
  have hone := getLsbD_height hcap (Nat.lt_of_lt_of_le hlt (BitPrefixes.height_le cap b))
  rw [h.getLsbD (Nat.le_refl _), getLsbD_of_lt_height hlt] at hone
  cases hone

theorem trans (hcap : cap ≤ w) (hab : IsPrefix cap a b) (hbc : IsPrefix cap b c) :
    IsPrefix cap a c :=
  of_getLsbD fun _ hi =>
    (hab.getLsbD hi).trans (hbc.getLsbD (Nat.le_trans (hab.height_le hcap) hi))

/-- The ones that lead from `a` to `c` are those that lead to `b`, and then those
that lead on from there. -/
theorem setBits_append (hcap : cap ≤ w) (hab : IsPrefix cap a b) (hbc : IsPrefix cap b c) :
    setBits c (height cap a) = setBits b (height cap a) ++ setBits c (height cap b) :=
  BitPrefixes.setBits_append (hab.height_le hcap) (fun _ hi => hbc.getLsbD hi)
    fun _ hi => getLsbD_of_lt_height hi

end IsPrefix

end ElectrumLightning.BitPrefixes
