import ElectrumLightning.ByteStrings
import Mathlib.Data.Nat.Digits.Lemmas

/-!
Octal numbers as text: `%.{precision}o` of printf, and strtol and strtoul with
base eight.
-/

namespace ElectrumLightning.OctalText

open ElectrumLightning.ByteStrings

def octalDigit (d : Nat) : UInt8 := UInt8.ofNat (0x30 + d)

def isOctal (b : UInt8) : Bool := 0x30 ≤ b && b ≤ 0x37

def digitValue (b : UInt8) : Nat := b.toNat - 0x30

/-- At least `precision` digits. -/
def format (precision n : Nat) : Bytes :=
  List.replicate (precision - (Nat.digits 8 n).length) 0x30 ++
    (Nat.digits 8 n).reverse.map octalDigit

def value (ds : Bytes) : Nat := ds.foldl (fun v b => v * 8 + digitValue b) 0

def isSpace (b : UInt8) : Bool := b == 0x20 || 0x09 ≤ b && b ≤ 0x0d

/-- Whether a minus sign stands there, and the digits, which end at the first
byte that is none. -/
def scan (text : Bytes) : Bool × Nat :=
  match text.dropWhile isSpace with
  | 0x2d :: ds => (true, value (ds.takeWhile isOctal))
  | 0x2b :: ds => (false, value (ds.takeWhile isOctal))
  | ds => (false, value (ds.takeWhile isOctal))

/-- A value out of range is the nearest one in range. -/
def strtol (text : Bytes) : Int :=
  let (negative, n) := scan text
  if negative then max (-(n : Int)) (-2 ^ 63) else min (n : Int) (2 ^ 63 - 1)

/-- A value out of range is the largest one; a minus sign is applied to the
unsigned value. -/
def strtoul (text : Bytes) : Nat :=
  let (negative, n) := scan text
  if 2 ^ 64 ≤ n then 2 ^ 64 - 1 else if negative then (2 ^ 64 - n) % 2 ^ 64 else n

/-! ### Reading what was printed -/

theorem digitValue_octalDigit {d : Nat} (h : d < 8) : digitValue (octalDigit d) = d := by
  have hall : ∀ d : Fin 8, digitValue (octalDigit d) = d := by decide
  exact hall ⟨d, h⟩

theorem isOctal_octalDigit {d : Nat} (h : d < 8) : isOctal (octalDigit d) = true := by
  have hall : ∀ d : Fin 8, isOctal (octalDigit d) = true := by decide
  exact hall ⟨d, h⟩

theorem isOctal_format {precision n : Nat} : ∀ b ∈ format precision n, isOctal b = true := by
  intro b hb
  rcases List.mem_append.mp hb with hb | hb
  · rw [List.eq_of_mem_replicate hb]
    rfl
  · obtain ⟨d, hd, rfl⟩ := List.mem_map.mp hb
    exact isOctal_octalDigit (Nat.digits_lt_base (by omega) (List.mem_reverse.mp hd))

theorem length_format {precision n : Nat} (h : n < 8 ^ precision) :
    (format precision n).length = precision := by
  have hdigits := (Nat.digits_length_le_iff (by omega : 1 < 8) n).mpr h
  rw [format, List.length_append, List.length_replicate, List.length_map, List.length_reverse]
  omega

/-- A number of more digits than are asked for. -/
theorem length_format_long {precision width n : Nat} (hprecision : precision ≤ width + 1)
    (hlow : 8 ^ width ≤ n) (hhigh : n < 8 ^ (width + 1)) :
    (format precision n).length = width + 1 := by
  have hle := (Nat.digits_length_le_iff (by omega : 1 < 8) n).mpr hhigh
  have hgt := mt (Nat.digits_length_le_iff (by omega : 1 < 8) n).mp (Nat.not_lt.mpr hlow)
  rw [format, List.length_append, List.length_replicate, List.length_map, List.length_reverse]
  omega

theorem le_length_format (precision n : Nat) : precision ≤ (format precision n).length := by
  rw [format, List.length_append, List.length_replicate, List.length_map, List.length_reverse]
  omega

theorem value_append (front back : Bytes) :
    value (front ++ back) = back.foldl (fun v b => v * 8 + digitValue b) (value front) :=
  List.foldl_append

theorem value_zeros (n : Nat) : value (List.replicate n 0x30) = 0 := by
  induction n with
  | zero => rfl
  | succ n ih => rw [List.replicate_succ', value_append, ih]; rfl

theorem foldl_reverse_digits {ds : List Nat} (h : ∀ d ∈ ds, d < 8) :
    (ds.reverse.map octalDigit).foldl (fun v b => v * 8 + digitValue b) 0 = Nat.ofDigits 8 ds := by
  induction ds with
  | nil => rfl
  | cons d ds ih =>
      rw [List.forall_mem_cons] at h
      rw [List.reverse_cons, List.map_append, List.foldl_append, ih h.2, Nat.ofDigits_cons]
      simp only [List.map_cons, List.map_nil, List.foldl_cons, List.foldl_nil,
        digitValue_octalDigit h.1]
      omega

theorem value_format (precision n : Nat) : value (format precision n) = n := by
  rw [format, value_append, value_zeros,
    foldl_reverse_digits fun d hd => Nat.digits_lt_base (by omega) hd, Nat.ofDigits_digits]

theorem value_append_eq (front back : Bytes) :
    value (front ++ back) = value front * 8 ^ back.length + value back := by
  induction back using List.reverseRecOn with
  | nil => rw [List.append_nil, List.length_nil, Nat.pow_zero, Nat.mul_one]; rfl
  | append_singleton back b ih =>
      rw [← List.append_assoc, value_append (front ++ back) [b], value_append back [b], ih,
        List.length_append, List.length_singleton, Nat.pow_succ]
      simp only [List.foldl_cons, List.foldl_nil]
      ring

theorem digitValue_lt {b : UInt8} (h : isOctal b = true) : digitValue b < 8 := by
  have hhigh : b.toNat ≤ 0x37 :=
    UInt8.le_iff_toNat_le.mp (of_decide_eq_true (Bool.and_eq_true_iff.mp h).2)
  rw [digitValue]
  omega

theorem value_lt {ds : Bytes} (hds : ∀ b ∈ ds, isOctal b = true) : value ds < 8 ^ ds.length := by
  induction ds using List.reverseRecOn with
  | nil => exact Nat.one_pos
  | append_singleton ds b ih =>
      have hfront := ih fun c hc => hds c (List.mem_append_left _ hc)
      have hb := digitValue_lt (hds b (List.mem_append_right _ List.mem_cons_self))
      rw [value_append, List.length_append, List.length_singleton, Nat.pow_succ]
      simp only [List.foldl_cons, List.foldl_nil]
      omega

/-- The leading digits of a number. -/
theorem value_take {ds : Bytes} (hds : ∀ b ∈ ds, isOctal b = true) (n : Nat) :
    value (ds.take n) = value ds / 8 ^ (ds.length - n) := by
  have hdrop : ∀ b ∈ ds.drop n, isOctal b = true := fun b hb => hds b (List.mem_of_mem_drop hb)
  have hback : value (ds.drop n) < 8 ^ (ds.length - n) := by
    rw [← List.length_drop]
    exact value_lt hdrop
  have happend := value_append_eq (ds.take n) (ds.drop n)
  rw [List.take_append_drop, List.length_drop] at happend
  rw [happend, Nat.mul_comm, Nat.mul_add_div (Nat.pow_pos (by omega)), Nat.div_eq_of_lt hback,
    Nat.add_zero]

/-- Nothing follows, or something that is no digit. -/
def Stops (rest : Bytes) : Prop := ∀ b ∈ rest.head?, isOctal b = false

theorem takeWhile_append_of_stops {ds rest : Bytes} (hds : ∀ b ∈ ds, isOctal b = true)
    (hrest : Stops rest) : (ds ++ rest).takeWhile isOctal = ds := by
  rw [List.takeWhile_append_of_pos hds]
  cases rest with
  | nil => rw [List.takeWhile_nil, List.append_nil]
  | cons b rest =>
      rw [List.takeWhile_cons_of_neg (by rw [hrest b rfl]; exact Bool.false_ne_true),
        List.append_nil]

theorem of_isOctal {b : UInt8} (h : isOctal b = true) :
    isSpace b = false ∧ b ≠ 0x2d ∧ b ≠ 0x2b := by
  obtain ⟨hlow, hhigh⟩ := Bool.and_eq_true_iff.mp h
  have hlow' : 0x30 ≤ b.toNat := UInt8.le_iff_toNat_le.mp (of_decide_eq_true hlow)
  have hhigh' : b.toNat ≤ 0x37 := UInt8.le_iff_toNat_le.mp (of_decide_eq_true hhigh)
  have hall : ∀ d : Fin 8, isSpace (octalDigit d) = false ∧ octalDigit d ≠ 0x2d ∧
      octalDigit d ≠ 0x2b := by decide
  have hdigit : octalDigit (b.toNat - 0x30) = b := by
    rw [octalDigit, Nat.add_sub_cancel' hlow', UInt8.ofNat_toNat]
  have hb := hall ⟨b.toNat - 0x30, by omega⟩
  rwa [hdigit] at hb

theorem scan_digits {ds rest : Bytes} (hds : ∀ b ∈ ds, isOctal b = true) (hne : ds ≠ [])
    (hrest : Stops rest) : scan (ds ++ rest) = (false, value ds) := by
  have htake := takeWhile_append_of_stops hds hrest
  cases ds with
  | nil => exact absurd rfl hne
  | cons b ds =>
      obtain ⟨hspace, hminus, hplus⟩ := of_isOctal (hds b List.mem_cons_self)
      have hdrop : (b :: ds ++ rest).dropWhile isSpace = b :: ds ++ rest :=
        List.dropWhile_cons_of_neg (by rw [hspace]; exact Bool.false_ne_true)
      rw [scan, hdrop]
      split
      · rename_i heq
        exact absurd (List.cons.inj heq).1 hminus
      · rename_i heq
        exact absurd (List.cons.inj heq).1 hplus
      · rw [htake]

theorem format_ne_nil {precision n : Nat} (h : 0 < precision) : format precision n ≠ [] := by
  intro hnil
  rw [format, List.append_eq_nil_iff] at hnil
  have hdigits := congrArg List.length hnil.2
  have hzeros := congrArg List.length hnil.1
  rw [List.length_map, List.length_reverse, List.length_nil] at hdigits
  rw [List.length_replicate, List.length_nil, hdigits] at hzeros
  omega

theorem strtoul_digits {ds rest : Bytes} (hds : ∀ b ∈ ds, isOctal b = true) (hne : ds ≠ [])
    (hrest : Stops rest) (h : value ds < 2 ^ 64) : strtoul (ds ++ rest) = value ds := by
  rw [strtoul, scan_digits hds hne hrest]
  dsimp only
  rw [if_neg (Nat.not_le.mpr h), if_neg Bool.false_ne_true]

theorem strtol_digits {ds rest : Bytes} (hds : ∀ b ∈ ds, isOctal b = true) (hne : ds ≠ [])
    (hrest : Stops rest) (h : value ds < 2 ^ 63) : strtol (ds ++ rest) = value ds := by
  rw [strtol, scan_digits hds hne hrest]
  dsimp only
  rw [if_neg Bool.false_ne_true]
  omega

end ElectrumLightning.OctalText
