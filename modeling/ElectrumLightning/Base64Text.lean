import ElectrumLightning.ByteStrings

/-!
Byte strings as base 64 text. The decoder is a lenient one: it passes over what is
no digit, and stops at the padding that completes a group.
-/

namespace ElectrumLightning.Base64Text

open ElectrumLightning.ByteStrings

def pad : UInt8 := 0x3d

/-- The character of a group of six bits. -/
def digit (n : Nat) : UInt8 :=
  if n < 26 then UInt8.ofNat (0x41 + n)
  else if n < 52 then UInt8.ofNat (0x61 + (n - 26))
  else if n < 62 then UInt8.ofNat (0x30 + (n - 52))
  else if n = 62 then 0x2b
  else 0x2f

def digitValue (b : UInt8) : Option Nat :=
  if 0x41 ≤ b ∧ b ≤ 0x5a then some (b.toNat - 0x41)
  else if 0x61 ≤ b ∧ b ≤ 0x7a then some (b.toNat - 0x61 + 26)
  else if 0x30 ≤ b ∧ b ≤ 0x39 then some (b.toNat - 0x30 + 52)
  else if b = 0x2b then some 62
  else if b = 0x2f then some 63
  else none

def encode : Bytes → Bytes
  | [] => []
  | [a] => [digit (a.toNat / 4), digit (a.toNat % 4 * 16), pad, pad]
  | [a, b] =>
      [digit (a.toNat / 4), digit (a.toNat % 4 * 16 + b.toNat / 16), digit (b.toNat % 16 * 4), pad]
  | a :: b :: c :: rest =>
      digit (a.toNat / 4) :: digit (a.toNat % 4 * 16 + b.toNat / 16) ::
        digit (b.toNat % 16 * 4 + c.toNat / 64) :: digit (c.toNat % 64) :: encode rest

/-- How many digits of a group have been read, their bits that are not used yet,
the padding since the last digit, and the bytes so far. -/
structure Decoder where
  quad : Nat
  left : Nat
  pads : Nat
  out : Bytes

def Decoder.start : Decoder := ⟨0, 0, 0, []⟩

def Decoder.next (d : Decoder) (v : Nat) : Decoder :=
  match d.quad with
  | 0 => ⟨1, v, 0, d.out⟩
  | 1 => ⟨2, v % 16, 0, d.out ++ [UInt8.ofNat (d.left * 4 + v / 16)]⟩
  | 2 => ⟨3, v % 4, 0, d.out ++ [UInt8.ofNat (d.left * 16 + v / 4)]⟩
  | _ => ⟨0, 0, 0, d.out ++ [UInt8.ofNat (d.left * 64 + v)]⟩

def Decoder.read (d : Decoder) : Bytes → Option Bytes
  | [] => if d.quad = 0 then some d.out else none
  | b :: bs =>
      if b = pad then
        if 2 ≤ d.quad then
          if 4 ≤ d.quad + (d.pads + 1) then some d.out
          else Decoder.read { d with pads := d.pads + 1 } bs
        else d.read bs
      else
        match digitValue b with
        | some v => (d.next v).read bs
        | none => d.read bs

def decode (text : Bytes) : Option Bytes := Decoder.start.read text

/-! ### Reading what was written -/

theorem digitValue_digit {n : Nat} (h : n < 64) : digitValue (digit n) = some n := by
  have hall : ∀ n : Fin 64, digitValue (digit n) = some n.val := by decide
  exact hall ⟨n, h⟩

theorem digit_ne_pad {n : Nat} (h : n < 64) : digit n ≠ pad := by
  intro hpad
  have hvalue := digitValue_digit h
  rw [hpad] at hvalue
  cases hvalue

theorem read_digit {n : Nat} (h : n < 64) (d : Decoder) (bs : Bytes) :
    d.read (digit n :: bs) = (d.next n).read bs := by
  rw [Decoder.read, if_neg (digit_ne_pad h), digitValue_digit h]

/-- The bits of a byte from the two digits that they are in. -/
theorem ofNat_eq {a : UInt8} {n : Nat} (h : n = a.toNat) : UInt8.ofNat n = a := by
  rw [h, UInt8.ofNat_toNat]

theorem read_encode (bs : Bytes) (out : Bytes) :
    Decoder.read ⟨0, 0, 0, out⟩ (encode bs) = some (out ++ bs) := by
  induction bs using encode.induct generalizing out with
  | case1 => rw [encode, Decoder.read, if_pos rfl, List.append_nil]
  | case2 a =>
      have ha := a.toNat_lt
      rw [encode, read_digit (by omega), read_digit (by omega)]
      simp only [Decoder.next]
      rw [ofNat_eq (a := a) (by omega)]
      rfl
  | case3 a b =>
      have ha := a.toNat_lt
      have hb := b.toNat_lt
      rw [encode, read_digit (by omega), read_digit (by omega), read_digit (by omega)]
      simp only [Decoder.next]
      rw [ofNat_eq (a := a) (by omega), ofNat_eq (a := b) (by omega)]
      simp only [Decoder.read, pad, if_true, List.append_assoc, List.cons_append, List.nil_append]
      rfl
  | case4 a b c rest ih =>
      have ha := a.toNat_lt
      have hb := b.toNat_lt
      have hc := c.toNat_lt
      rw [encode, read_digit (by omega), read_digit (by omega), read_digit (by omega),
        read_digit (by omega)]
      simp only [Decoder.next]
      rw [ofNat_eq (a := a) (by omega), ofNat_eq (a := b) (by omega), ofNat_eq (a := c) (by omega),
        ih]
      simp only [List.append_assoc, List.cons_append, List.nil_append]

theorem decode_encode (bs : Bytes) : decode (encode bs) = some bs :=
  read_encode bs []

/-- The characters that are written. -/
theorem mem_encode {b : UInt8} {bs : Bytes} (h : b ∈ encode bs) :
    b = pad ∨ ∃ n < 64, b = digit n := by
  induction bs using encode.induct with
  | case1 => cases h
  | case2 a =>
      have ha := a.toNat_lt
      simp only [encode, List.mem_cons, List.not_mem_nil, or_false] at h
      rcases h with rfl | rfl | h | h
      · exact .inr ⟨_, by omega, rfl⟩
      · exact .inr ⟨_, by omega, rfl⟩
      · exact .inl h
      · exact .inl h
  | case3 a b' =>
      have ha := a.toNat_lt
      have hb := b'.toNat_lt
      simp only [encode, List.mem_cons, List.not_mem_nil, or_false] at h
      rcases h with rfl | rfl | rfl | h
      · exact .inr ⟨_, by omega, rfl⟩
      · exact .inr ⟨_, by omega, rfl⟩
      · exact .inr ⟨_, by omega, rfl⟩
      · exact .inl h
  | case4 a b' c rest ih =>
      have ha := a.toNat_lt
      have hb := b'.toNat_lt
      have hc := c.toNat_lt
      simp only [encode, List.mem_cons] at h
      rcases h with rfl | rfl | rfl | rfl | h
      · exact .inr ⟨_, by omega, rfl⟩
      · exact .inr ⟨_, by omega, rfl⟩
      · exact .inr ⟨_, by omega, rfl⟩
      · exact .inr ⟨_, by omega, rfl⟩
      · exact ih h

/-! ### What is passed over -/

def isDigit (b : UInt8) : Bool := (digitValue b).isSome

/-- A character that is read. -/
def counts (b : UInt8) : Bool := isDigit b || b == pad

theorem read_filter (d : Decoder) (text : Bytes) : d.read (text.filter counts) = d.read text := by
  induction text generalizing d with
  | nil => rfl
  | cons b text ih =>
      cases hb : counts b with
      | true =>
          rw [List.filter_cons_of_pos hb]
          simp only [Decoder.read, ih]
      | false =>
          obtain ⟨hdigit, hpad⟩ := Bool.or_eq_false_iff.mp hb
          have hvalue : digitValue b = none := Option.isNone_iff_eq_none.mp
            (Option.isSome_eq_false_iff.mp hdigit)
          rw [List.filter_cons_of_neg (Bool.eq_false_iff.mp hb), ih, Decoder.read,
            if_neg (beq_eq_false_iff_ne.mp hpad), hvalue]

/-- Other characters may stand anywhere in a text. -/
theorem decode_of_filter {text bs : Bytes} (h : text.filter counts = encode bs) :
    decode text = some bs := by
  rw [decode, ← read_filter, h]
  exact decode_encode bs

/-! ### How many digits there are -/

def digits (text : Bytes) : Nat := text.countP isDigit

theorem digits_encode (bs : Bytes) :
    3 * digits (encode bs) / 4 = bs.length ∧ digits (encode bs) % 4 ≠ 1 := by
  have hdigit {n : Nat} (h : n < 64) : isDigit (digit n) = true := by
    rw [isDigit, digitValue_digit h]
    rfl
  have hpad : isDigit pad = false := rfl
  induction bs using encode.induct with
  | case1 => exact ⟨rfl, by decide⟩
  | case2 a =>
      have ha := a.toNat_lt
      simp only [encode, digits, List.countP_cons, List.countP_nil, hpad, Bool.false_eq_true,
        if_false, hdigit (by omega : a.toNat / 4 < 64), hdigit (by omega : a.toNat % 4 * 16 < 64),
        if_true, List.length_cons, List.length_nil]
      decide
  | case3 a b =>
      have ha := a.toNat_lt
      have hb := b.toNat_lt
      simp only [encode, digits, List.countP_cons, List.countP_nil, hpad, Bool.false_eq_true,
        if_false, hdigit (by omega : a.toNat / 4 < 64),
        hdigit (by omega : a.toNat % 4 * 16 + b.toNat / 16 < 64),
        hdigit (by omega : b.toNat % 16 * 4 < 64), if_true, List.length_cons, List.length_nil]
      decide
  | case4 a b c rest ih =>
      have ha := a.toNat_lt
      have hb := b.toNat_lt
      have hc := c.toNat_lt
      have hcount : digits (encode (a :: b :: c :: rest)) = digits (encode rest) + 4 := by
        simp only [encode, digits, List.countP_cons, hdigit (by omega : a.toNat / 4 < 64),
          hdigit (by omega : a.toNat % 4 * 16 + b.toNat / 16 < 64),
          hdigit (by omega : b.toNat % 16 * 4 + c.toNat / 64 < 64),
          hdigit (by omega : c.toNat % 64 < 64), if_true]
      rw [hcount]
      simp only [List.length_cons]
      omega

/-- What has been read of `n` digits. -/
structure Counted (d : Decoder) (n : Nat) : Prop where
  quad : d.quad = n % 4
  out : d.out.length = 3 * n / 4

theorem Counted.next {d : Decoder} {n : Nat} (h : Counted d n) (v : Nat) :
    Counted (d.next v) (n + 1) := by
  obtain ⟨hquad, hout⟩ := h
  obtain ⟨quad, left, pads, out⟩ := d
  dsimp only at hquad hout
  have hlt : n % 4 < 4 := Nat.mod_lt _ (by omega)
  unfold Decoder.next
  constructor
  · split <;> simp_all <;> omega
  · split <;> simp_all <;> omega

/-- The bytes are those of the digits up to a place where a group may end. -/
theorem length_of_read {d : Decoder} {n : Nat} (h : Counted d n) {text bs : Bytes}
    (hread : d.read text = some bs) :
    ∃ k ≤ digits text, bs.length = 3 * (n + k) / 4 ∧ (n + k) % 4 ≠ 1 := by
  induction text generalizing d n with
  | nil =>
      rw [Decoder.read] at hread
      split_ifs at hread with hquad
      cases hread
      refine ⟨0, Nat.le_refl _, h.out, ?_⟩
      have hzero := h.quad
      omega
  | cons b text ih =>
      have hmono : digits text ≤ digits (b :: text) :=
        (List.sublist_cons_self b text).countP_le
      rw [Decoder.read] at hread
      split_ifs at hread with hpad hquad hends
      · cases hread
        refine ⟨0, Nat.zero_le _, h.out, ?_⟩
        have hn := h.quad
        omega
      · have hpads : Counted { d with pads := d.pads + 1 } n := ⟨h.quad, h.out⟩
        obtain ⟨k, hk, hlength⟩ := ih hpads hread
        exact ⟨k, Nat.le_trans hk hmono, hlength⟩
      · obtain ⟨k, hk, hlength⟩ := ih h hread
        exact ⟨k, Nat.le_trans hk hmono, hlength⟩
      · cases hvalue : digitValue b with
        | none =>
            rw [hvalue] at hread
            obtain ⟨k, hk, hlength⟩ := ih h hread
            exact ⟨k, Nat.le_trans hk hmono, hlength⟩
        | some v =>
            rw [hvalue] at hread
            obtain ⟨k, hk, hlength, hends⟩ := ih (h.next v) hread
            have hdigit : isDigit b = true := by
              rw [isDigit, hvalue]
              rfl
            have hcount : digits (b :: text) = digits text + 1 := List.countP_cons_of_pos hdigit
            refine ⟨k + 1, by omega, ?_, ?_⟩
            · rw [hlength]
              congr 2
              omega
            · rwa [Nat.add_assoc, Nat.add_comm 1] at hends

/-- A text with fewer digits is not read as the same bytes. -/
theorem decode_ne_of_digits_lt {text bs : Bytes} (h : digits text < digits (encode bs)) :
    decode text ≠ some bs := by
  intro hread
  obtain ⟨k, hk, hlength, hends⟩ := length_of_read (n := 0) ⟨rfl, rfl⟩ hread
  obtain ⟨hencode, hends'⟩ := digits_encode bs
  have hgroup : digits (encode bs) % 4 = 0 ∨ digits (encode bs) % 4 = 2 ∨
      digits (encode bs) % 4 = 3 := by
    omega
  rcases hgroup with hgroup | hgroup | hgroup
  all_goals omega

end ElectrumLightning.Base64Text
