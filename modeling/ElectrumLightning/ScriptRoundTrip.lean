import ElectrumLightning.ScriptParsing

/-!
The parser of scripts as it is written, with an index into the script and
slices that panic out of range, and the way back to the bytes.
-/

namespace ElectrumLightning.ScriptRoundTrip

open ElectrumLightning.ByteStrings
open ElectrumLightning.ScriptParsing

/-- `script[i]`; the result is `none` where it panics. -/
def byteAt (script : Bytes) (i : Int) : Option UInt8 :=
  if i < 0 then none else script[i.toNat]?

/-- `script[low:high]`, within the length of the script. -/
def slice (script : Bytes) (low high : Int) : Option Bytes :=
  if 0 ≤ low ∧ low ≤ high ∧ high ≤ script.length then
    some ((script.drop low.toNat).take (high - low).toNat)
  else none

/-- The errors, with the opcode that is named in their texts. -/
inductive ParseError where
  | requires (op : Opcode) (bytes remaining : Int)
  | invalidLength (length : Int)
  | pushes (op : Opcode) (bytes remaining : Int)
deriving DecidableEq

/-- The length of the data, least significant byte first. -/
def pushLength (script : Bytes) (off length : Int) : Option (Except ParseError Nat) :=
  if length = -1 then do
    let b ← byteAt script off
    some (.ok b.toNat)
  else if length = -2 then do
    let b1 ← byteAt script (off + 1)
    let b0 ← byteAt script off
    some (.ok (b1.toNat <<< 8 ||| b0.toNat))
  else if length = -4 then do
    let b3 ← byteAt script (off + 3)
    let b2 ← byteAt script (off + 2)
    let b1 ← byteAt script (off + 1)
    let b0 ← byteAt script off
    some (.ok (b3.toNat <<< 24 ||| b2.toNat <<< 16 ||| b1.toNat <<< 8 ||| b0.toNat))
  else some (.error (.invalidLength length))

/-- One iteration of the loop of `parseScriptTemplate`: the instruction at an
index and the next index, or an error; or nothing, where it panics. -/
def parseAt (opcodes : UInt8 → Opcode) (script : Bytes) (i : Int) :
    Option (Except ParseError (ParsedOpcode × Int)) := do
  let instr ← byteAt script i
  let op := opcodes instr
  if op.length = 1 then some (.ok (⟨op, []⟩, i + 1))
  else if 1 < op.length then
    let remaining ← slice script i script.length
    if remaining.length < op.length then some (.error (.requires op op.length remaining.length))
    else
      let data ← slice script (i + 1) (i + op.length)
      some (.ok (⟨op, data⟩, i + op.length))
  else if op.length < 0 then
    let off := i + 1
    let remaining ← slice script off script.length
    if remaining.length < -op.length then
      some (.error (.requires op (-op.length) remaining.length))
    else
      match ← pushLength script off op.length with
      | .error e => some (.error e)
      | .ok l =>
          let off := off - op.length
          let remaining ← slice script off script.length
          if (remaining.length : Int) < l ∨ (l : Int) < 0 then
            some (.error (.pushes op l remaining.length))
          else
            let data ← slice script off (off + l)
            some (.ok (⟨op, data⟩, i + (1 - op.length + l)))
  else some (.ok (⟨op, []⟩, i))

inductive Parsing where
  | returned (pops : List ParsedOpcode)
  | failed (e : ParseError) (retScript : List ParsedOpcode)
  | panicked
  | running
deriving DecidableEq

/-- The loop, for a number of iterations. -/
def parseFrom (opcodes : UInt8 → Opcode) (script : Bytes) :
    Nat → Int → List ParsedOpcode → Parsing
  | 0, _, _ => .running
  | fuel + 1, i, retScript =>
      if i < script.length then
        match parseAt opcodes script i with
        | none => .panicked
        | some (.error e) => .failed e retScript
        | some (.ok (pop, i)) => parseFrom opcodes script fuel i (retScript ++ [pop])
      else .returned retScript

def parseScriptTemplate (script : Bytes) (opcodes : UInt8 → Opcode) (fuel : Nat) : Parsing :=
  parseFrom opcodes script fuel 0 []

/-! ### Indexing a script that is cut in two -/

theorem byteAt_append (front back : Bytes) (k : Nat) :
    byteAt (front ++ back) (front.length + k) = back[k]? := by
  have hindex : ((front.length + k : Int)).toNat = front.length + k := by omega
  rw [byteAt, if_neg (by omega), hindex, List.getElem?_append_right (by omega),
    Nat.add_sub_cancel_left]

theorem slice_append (front back : Bytes) {k l : Nat} (h : k + l ≤ back.length) :
    slice (front ++ back) (front.length + k) (front.length + k + l) =
      some ((back.drop k).take l) := by
  have hlow : ((front.length + k : Int)).toNat = front.length + k := by omega
  have hlength : (front.length + k + l - (front.length + k) : Int).toNat = l := by omega
  rw [slice, if_pos ⟨by omega, by omega, by rw [List.length_append]; omega⟩, hlow, hlength,
    ← List.drop_drop, List.drop_left]

theorem slice_append_to_end (front back : Bytes) {k : Nat} (h : k ≤ back.length) :
    slice (front ++ back) (front.length + k) (front ++ back).length = some (back.drop k) := by
  have hend : ((front ++ back).length : Int) = front.length + k + (back.length - k : Nat) := by
    rw [List.length_append]
    omega
  rw [hend, slice_append front back (by omega), List.take_of_length_le]
  rw [List.length_drop]

theorem or_eq_add {x b : Nat} (width : Nat) (hx : 2 ^ width ∣ x) (hb : b < 2 ^ width) :
    x ||| b = x + b := by
  obtain ⟨a, rfl⟩ := hx
  exact (Nat.two_pow_add_eq_or_of_lt hb a).symm

/-! ### One iteration of the loop -/

theorem opcodeArray_cases (v : UInt8) : (opcodeArray v).length = 1 ∨
    (∃ n : Nat, 0 < n ∧ (opcodeArray v).length = n + 1) ∨
      ∃ width : Nat, (width = 1 ∨ width = 2 ∨ width = 4) ∧
        (opcodeArray v).length = -(width : Int) := by
  unfold opcodeArray
  split_ifs with hdata
  · refine .inr (.inl ⟨v.toNat, ?_, rfl⟩)
    have hle : (1 : UInt8).toNat ≤ v.toNat := UInt8.le_iff_toNat_le.mp hdata.1
    exact hle
  · exact .inr (.inr ⟨1, .inl rfl, rfl⟩)
  · exact .inr (.inr ⟨2, .inr (.inl rfl), rfl⟩)
  · exact .inr (.inr ⟨4, .inr (.inr rfl), rfl⟩)
  · exact .inl rfl

theorem opcodeArray_value (v : UInt8) : (opcodeArray v).value = v := by
  unfold opcodeArray
  split_ifs <;> rfl

section Iteration

variable {instr : UInt8} {rest : Bytes}

theorem parseOpcode_single (h : (opcodeArray instr).length = 1) :
    parseOpcode instr rest = some (⟨opcodeArray instr, []⟩, rest) := by
  simp [parseOpcode, h]

theorem parseOpcode_fixed {n : Nat} (hpos : 0 < n) (h : (opcodeArray instr).length = n + 1) :
    parseOpcode instr rest = if rest.length < n then none
      else some (⟨opcodeArray instr, rest.take n⟩, rest.drop n) := by
  have hone : ¬ ((n : Int) + 1 = 1) := by omega
  have hlarge : (1 : Int) < n + 1 := by omega
  have hlength : ((rest.length : Int) + 1 < n + 1) ↔ rest.length < n := by omega
  simp only [parseOpcode, h, hone, hlarge, hlength, if_false, if_true, Int.add_sub_cancel,
    Int.toNat_natCast]

theorem parseOpcode_push {width : Nat} (hpos : 0 < width)
    (h : (opcodeArray instr).length = -(width : Int)) :
    parseOpcode instr rest = if rest.length < width then none
      else if (rest.drop width).length < littleEndianValue (rest.take width) then none
      else some (⟨opcodeArray instr,
        (rest.drop width).take (littleEndianValue (rest.take width))⟩,
          (rest.drop width).drop (littleEndianValue (rest.take width))) := by
  have hone : ¬ (-(width : Int) = 1) := by omega
  have hlarge : ¬ ((1 : Int) < -(width : Int)) := by omega
  have hneg : -(width : Int) < 0 := by omega
  have hwidth : (opcodeArray instr).width = width := by
    rw [Opcode.width, h]
    omega
  simp only [parseOpcode, h, hone, hlarge, hneg, hwidth, if_false, if_true]

theorem pushLength_append (front : Bytes) {width : Nat}
    (hwidth : width = 1 ∨ width = 2 ∨ width = 4) (h : width ≤ rest.length) :
    pushLength (front ++ instr :: rest) (front.length + 1) (-(width : Int)) =
      some (.ok (littleEndianValue (rest.take width))) := by
  have hbyte : ∀ k : Nat, byteAt (front ++ instr :: rest) (front.length + 1 + k) = rest[k]? := by
    intro k
    have hindex : (front.length + 1 + k : Int) = front.length + (k + 1 : Nat) := by omega
    rw [hindex, byteAt_append, List.getElem?_cons_succ]
  have hfirst : byteAt (front ++ instr :: rest) (front.length + 1) = rest[0]? := by
    have hzero := hbyte 0
    rwa [Int.natCast_zero, Int.add_zero] at hzero
  rcases hwidth with rfl | rfl | rfl
  · rcases rest with _ | ⟨b0, rest⟩
    · cases h
    · simp [pushLength, hfirst, littleEndianValue]
  · rcases rest with _ | ⟨b0, _ | ⟨b1, rest⟩⟩
    · cases h
    · exact absurd h (by simp)
    · have hsecond : byteAt (front ++ instr :: b0 :: b1 :: rest) (front.length + 1 + 1) =
          some b1 := hbyte 1
      have hvalue : b1.toNat <<< 8 ||| b0.toNat = b0.toNat + 256 * b1.toNat := by
        rw [Nat.shiftLeft_eq, or_eq_add 8 (Nat.dvd_mul_left ..) b0.toNat_lt]
        omega
      simp [pushLength, hfirst, hsecond, littleEndianValue, hvalue]
  · rcases rest with _ | ⟨b0, _ | ⟨b1, _ | ⟨b2, _ | ⟨b3, rest⟩⟩⟩⟩
    iterate 4 exact absurd h (by simp)
    have hsecond : byteAt (front ++ instr :: b0 :: b1 :: b2 :: b3 :: rest)
        (front.length + 1 + 1) = some b1 := hbyte 1
    have hthird : byteAt (front ++ instr :: b0 :: b1 :: b2 :: b3 :: rest)
        (front.length + 1 + 2) = some b2 := hbyte 2
    have hfourth : byteAt (front ++ instr :: b0 :: b1 :: b2 :: b3 :: rest)
        (front.length + 1 + 3) = some b3 := hbyte 3
    have hvalue : b3.toNat <<< 24 ||| b2.toNat <<< 16 ||| b1.toNat <<< 8 ||| b0.toNat =
        b0.toNat + 256 * (b1.toNat + 256 * (b2.toNat + 256 * b3.toNat)) := by
      have h0 := b0.toNat_lt
      have h1 := b1.toNat_lt
      have h2 := b2.toNat_lt
      simp only [Nat.shiftLeft_eq]
      have hhigh : b3.toNat * 2 ^ 24 ||| b2.toNat * 2 ^ 16 =
          b3.toNat * 2 ^ 24 + b2.toNat * 2 ^ 16 :=
        or_eq_add 24 (Nat.dvd_mul_left ..) (by omega)
      have hmiddle : (b3.toNat * 2 ^ 24 + b2.toNat * 2 ^ 16) ||| b1.toNat * 2 ^ 8 =
          b3.toNat * 2 ^ 24 + b2.toNat * 2 ^ 16 + b1.toNat * 2 ^ 8 :=
        or_eq_add 16 (by omega) (by omega)
      rw [hhigh, hmiddle, or_eq_add 8 (by omega) h0]
      omega
    simp [pushLength, hfirst, hsecond, hthird, hfourth, littleEndianValue, hvalue]

/-- The bytes from the instruction on, and those after it. -/
theorem remaining_append (front : Bytes) :
    slice (front ++ instr :: rest) front.length (front ++ instr :: rest).length =
      some (instr :: rest) := by
  have h := slice_append_to_end front (instr :: rest) (Nat.zero_le _)
  rwa [Int.natCast_zero, Int.add_zero] at h

theorem byteAt_front (front : Bytes) :
    byteAt (front ++ instr :: rest) front.length = some instr := by
  have h := byteAt_append front (instr :: rest) 0
  rwa [Int.natCast_zero, Int.add_zero] at h

theorem parseAt_single (front : Bytes) (h : (opcodeArray instr).length = 1) :
    parseAt opcodeArray (front ++ instr :: rest) front.length =
      some (.ok (⟨opcodeArray instr, []⟩, front.length + 1)) := by
  simp [parseAt, byteAt_front, h]

theorem parseAt_fixed (front : Bytes) {n : Nat} (hpos : 0 < n)
    (h : (opcodeArray instr).length = n + 1) :
    parseAt opcodeArray (front ++ instr :: rest) front.length =
      if rest.length < n then
        some (.error (.requires (opcodeArray instr) (n + 1) (rest.length + 1)))
      else some (.ok (⟨opcodeArray instr, rest.take n⟩, front.length + (n + 1))) := by
  have hone : ¬ ((n : Int) + 1 = 1) := by omega
  have hlarge : (1 : Int) < n + 1 := by omega
  simp only [parseAt, byteAt_front, remaining_append, h, hone, hlarge, if_false, if_true,
    Option.bind_eq_bind, Option.bind_some, List.length_cons]
  by_cases hshort : rest.length < n
  · rw [if_pos hshort, if_pos (by omega)]
    rfl
  · have hdata : slice (front ++ instr :: rest) (front.length + 1) (front.length + (n + 1)) =
        some (rest.take n) := by
      have hslice := slice_append front (instr :: rest) (k := 1) (l := n)
        (by rw [List.length_cons]; omega)
      have hend : (front.length + (n + 1) : Int) = front.length + (1 : Nat) + n := by omega
      rw [hend]
      exact hslice
    rw [if_neg hshort, if_neg (by omega), hdata]
    rfl

/-- The length of the data and what is left of the script are read with slices
within it, whether the data is all there or not. -/
theorem parseAt_push (front : Bytes) {width : Nat} (hwidth : width = 1 ∨ width = 2 ∨ width = 4)
    (h : (opcodeArray instr).length = -(width : Int)) :
    parseAt opcodeArray (front ++ instr :: rest) front.length =
      if rest.length < width then
        some (.error (.requires (opcodeArray instr) width rest.length))
      else if (rest.drop width).length < littleEndianValue (rest.take width) then
        some (.error (.pushes (opcodeArray instr) (littleEndianValue (rest.take width))
          (rest.drop width).length))
      else some (.ok (⟨opcodeArray instr,
        (rest.drop width).take (littleEndianValue (rest.take width))⟩,
          front.length + (1 + width + littleEndianValue (rest.take width)))) := by
  have hone : ¬ (-(width : Int) = 1) := by omega
  have hlarge : ¬ ((1 : Int) < -(width : Int)) := by omega
  have hneg : -(width : Int) < 0 := by omega
  have hrest : slice (front ++ instr :: rest) (front.length + 1)
      (front ++ instr :: rest).length = some rest := by
    have hslice := slice_append_to_end front (instr :: rest) (k := 1) (by simp)
    exact hslice
  simp only [parseAt, byteAt_front, h, hone, hlarge, hneg, hrest, if_false, if_true,
    Option.bind_eq_bind, Option.bind_some, Int.neg_neg]
  by_cases hshort : rest.length < width
  · rw [if_pos hshort, if_pos (by omega)]
  rw [if_neg hshort, if_neg (by omega), pushLength_append front hwidth (Nat.not_lt.mp hshort)]
  have hdata : slice (front ++ instr :: rest) (front.length + 1 - -(width : Int))
      (front ++ instr :: rest).length = some (rest.drop width) := by
    have hslice := slice_append_to_end front (instr :: rest) (k := width + 1)
      (by rw [List.length_cons]; omega)
    have hstart : (front.length + 1 - -(width : Int) : Int) =
        front.length + (width + 1 : Nat) := by omega
    rw [hstart]
    exact hslice
  simp only [Option.bind_some, hdata]
  set l := littleEndianValue (rest.take width)
  by_cases hlong : (rest.drop width).length < l
  · rw [if_pos hlong, if_pos (.inl (by omega))]
  · have hpushed : slice (front ++ instr :: rest) (front.length + 1 - -(width : Int))
        (front.length + 1 - -(width : Int) + l) = some ((rest.drop width).take l) := by
      have hslice := slice_append front (instr :: rest) (k := width + 1) (l := l) (by
        rw [List.length_drop] at hlong
        rw [List.length_cons]
        omega)
      have hstart : (front.length + 1 - -(width : Int) : Int) =
          front.length + (width + 1 : Nat) := by omega
      rw [hstart]
      exact hslice
    rw [if_neg hlong, if_neg (by omega), hpushed]
    simp only [Option.bind_some, Option.some_inj, Except.ok.injEq, Prod.mk.injEq, true_and]
    omega

/-! ### The bytes of one instruction -/

variable {pop : ParsedOpcode}

theorem bytes_single (h : pop.opcode.length = 1) :
    pop.bytes = if pop.data = [] then some [pop.opcode.value] else none := by
  rw [ParsedOpcode.bytes, if_pos h]
  by_cases hdata : pop.data = [] <;> simp [hdata]

theorem bytes_fixed {n : Nat} (hpos : 0 < n) (h : pop.opcode.length = n + 1) :
    pop.bytes = if pop.data.length = n then some (pop.opcode.value :: pop.data) else none := by
  have hone : ¬ ((n : Int) + 1 = 1) := by omega
  have hneg : ¬ ((n : Int) + 1 < 0) := by omega
  have hlength : (((pop.opcode.value :: pop.data).length : Int) ≠ n + 1) ↔
      ¬ pop.data.length = n := by
    rw [List.length_cons]
    omega
  simp only [ParsedOpcode.bytes, h, hone, hneg, hlength, if_false]
  exact ite_not ..

theorem bytes_push {width : Nat} (hpos : 0 < width) (h : pop.opcode.length = -(width : Int)) :
    pop.bytes = if pop.data.length < 256 ^ width then
      some (pop.opcode.value :: (littleEndian width pop.data.length ++ pop.data)) else none := by
  have hone : ¬ (-(width : Int) = 1) := by omega
  have hneg : -(width : Int) < 0 := by omega
  have hwidth : pop.opcode.width = width := by
    rw [Opcode.width, h]
    omega
  have hlength : (pop.opcode.value :: (littleEndian width pop.data.length ++ pop.data)).length ≠
      littleEndianValue (littleEndian width pop.data.length) +
        (1 + (littleEndian width pop.data.length).length) ↔ ¬ pop.data.length < 256 ^ width := by
    rw [littleEndianValue_littleEndian, List.length_cons, List.length_append, length_littleEndian]
    have hmod := Nat.mod_lt pop.data.length (Nat.pow_pos (n := width) (by decide : 0 < 256))
    constructor
    · intro hne hlt
      rw [Nat.mod_eq_of_lt hlt] at hne
      omega
    · intro hge heq
      omega
  simp only [ParsedOpcode.bytes, h, hone, hneg, hwidth, hlength, if_false, if_true]
  exact ite_not ..

/-- What one iteration does: the instruction is the bytes that it is unparsed
to, and the index moves past them; or it is an error. -/
theorem parseAt_cases (front : Bytes) (instr : UInt8) (rest : Bytes) :
    (∃ pop b rest', parseOpcode instr rest = some (pop, rest') ∧ pop.bytes = some (instr :: b) ∧
      rest = b ++ rest' ∧ parseAt opcodeArray (front ++ instr :: rest) front.length =
        some (.ok (pop, (front ++ instr :: b).length))) ∨
    (parseOpcode instr rest = none ∧
      ∃ e, parseAt opcodeArray (front ++ instr :: rest) front.length = some (.error e)) := by
  rcases opcodeArray_cases instr with h | ⟨n, hpos, h⟩ | ⟨width, hwidth, h⟩
  · left
    refine ⟨_, [], rest, parseOpcode_single h, ?_, rfl, ?_⟩
    · rw [bytes_single h, if_pos rfl, opcodeArray_value]
    · rw [parseAt_single front h, List.length_append]
      rfl
  · rw [parseOpcode_fixed hpos h, parseAt_fixed front hpos h]
    by_cases hshort : rest.length < n
    · rw [if_pos hshort, if_pos hshort]
      exact .inr ⟨rfl, _, rfl⟩
    · have hlength : (rest.take n).length = n := List.length_take_of_le (Nat.not_lt.mp hshort)
      rw [if_neg hshort, if_neg hshort]
      refine .inl ⟨_, rest.take n, rest.drop n, rfl, ?_, (List.take_append_drop ..).symm, ?_⟩
      · rw [bytes_fixed hpos h, if_pos hlength, opcodeArray_value]
      · rw [List.length_append, List.length_cons, hlength]
        rfl
  · have hpos : 0 < width := by omega
    rw [parseOpcode_push hpos h, parseAt_push front hwidth h]
    by_cases hshort : rest.length < width
    · rw [if_pos hshort, if_pos hshort]
      exact .inr ⟨rfl, _, rfl⟩
    rw [if_neg hshort, if_neg hshort]
    have hfield : (rest.take width).length = width :=
      List.length_take_of_le (Nat.not_lt.mp hshort)
    have hlt := littleEndianValue_lt (rest.take width)
    have hback := littleEndian_littleEndianValue (rest.take width)
    rw [hfield] at hlt hback
    set l := littleEndianValue (rest.take width)
    by_cases hlong : (rest.drop width).length < l
    · rw [if_pos hlong, if_pos hlong]
      exact .inr ⟨rfl, _, rfl⟩
    · have hlength : ((rest.drop width).take l).length = l :=
        List.length_take_of_le (Nat.not_lt.mp hlong)
      rw [if_neg hlong, if_neg hlong]
      refine .inl ⟨_, rest.take width ++ (rest.drop width).take l, (rest.drop width).drop l, rfl,
        ?_, ?_, ?_⟩
      · rw [bytes_push hpos h, opcodeArray_value, hlength, if_pos hlt, hback]
      · rw [List.append_assoc, List.take_append_drop, List.take_append_drop]
      · rw [List.length_append, List.length_cons, List.length_append, hfield, hlength]
        simp only [Option.some_inj, Except.ok.injEq, Prod.mk.injEq, true_and]
        omega

/-- An instruction of the table is parsed from the bytes that it is unparsed to. -/
theorem parseOpcode_of_bytes {v : UInt8} {b : Bytes} (hopcode : pop.opcode = opcodeArray v)
    (hbytes : pop.bytes = some b) : ∃ tail, b = v :: tail ∧
      ∀ rest, parseOpcode v (tail ++ rest) = some (pop, rest) := by
  obtain ⟨opcode, data⟩ := pop
  subst hopcode
  rcases opcodeArray_cases v with h | ⟨n, hpos, h⟩ | ⟨width, hwidth, h⟩
  · rw [bytes_single h] at hbytes
    obtain ⟨hdata, hb⟩ := Option.ite_none_right_eq_some.mp hbytes
    refine ⟨[], ?_, fun rest => ?_⟩
    · rw [← Option.some.inj hb, opcodeArray_value]
    · rw [List.nil_append, parseOpcode_single h]
      cases hdata
      rfl
  · rw [bytes_fixed hpos h] at hbytes
    obtain ⟨hlength, hb⟩ := Option.ite_none_right_eq_some.mp hbytes
    have hdata : data.length = n := hlength
    refine ⟨data, ?_, fun rest => ?_⟩
    · rw [← Option.some.inj hb, opcodeArray_value]
    · rw [parseOpcode_fixed hpos h, if_neg, List.take_left' hdata, List.drop_left' hdata]
      rw [List.length_append]
      omega
  · have hpos : 0 < width := by omega
    rw [bytes_push hpos h] at hbytes
    obtain ⟨hdata, hb⟩ := Option.ite_none_right_eq_some.mp hbytes
    have hfield : (littleEndian width data.length).length = width := length_littleEndian ..
    have hvalue : littleEndianValue (littleEndian width data.length) = data.length := by
      rw [littleEndianValue_littleEndian]
      exact Nat.mod_eq_of_lt hdata
    refine ⟨littleEndian width data.length ++ data, ?_, fun rest => ?_⟩
    · rw [← Option.some.inj hb, opcodeArray_value]
    · rw [List.append_assoc, parseOpcode_push hpos h, List.take_left' hfield,
        List.drop_left' hfield, hvalue, if_neg, if_neg, List.take_left, List.drop_left]
      · rw [List.length_append]
        omega
      · rw [List.length_append, hfield]
        omega

end Iteration

/-! ### Whole scripts -/

theorem parseScript_cons_none {instr : UInt8} {rest : Bytes} (h : parseOpcode instr rest = none) :
    parseScript (instr :: rest) = none := by
  rw [parseScript]
  split
  · rfl
  · rename_i hsome
    rw [h] at hsome
    cases hsome

/-- The loop, from any index on and with more iterations than there are bytes
left, does what the recursion on the bytes does, and what it returns is unparsed
to those bytes. -/
theorem parseFrom_cases {fuel : Nat} (front : Bytes) {back : Bytes} (hfuel : back.length < fuel)
    (retScript : List ParsedOpcode) :
    (∃ pops, parseScript back = some pops ∧ unparseScript pops = some back ∧
      parseFrom opcodeArray (front ++ back) fuel front.length retScript =
        .returned (retScript ++ pops)) ∨
    (parseScript back = none ∧
      ∃ e pops, parseFrom opcodeArray (front ++ back) fuel front.length retScript =
        .failed e (retScript ++ pops)) := by
  induction fuel generalizing front back retScript with
  | zero => exact absurd hfuel (Nat.not_lt_zero _)
  | succ fuel ih =>
      rcases back with _ | ⟨instr, rest⟩
      · refine .inl ⟨[], parseScript_nil, rfl, ?_⟩
        simp [parseFrom]
      · have hinside : ((front.length : Int) < (front ++ instr :: rest).length) := by
          rw [List.length_append, List.length_cons]
          omega
        rw [parseFrom, if_pos hinside]
        rcases parseAt_cases front instr rest with
          ⟨pop, b, rest', hparse, hbytes, rfl, hat⟩ | ⟨hnone, e, hat⟩
        · have hshorter : rest'.length < fuel := by
            rw [List.length_cons, List.length_append] at hfuel
            omega
          have hsplit : front ++ instr :: (b ++ rest') = (front ++ instr :: b) ++ rest' := by
            rw [List.append_assoc]
            rfl
          rw [hat]
          dsimp only
          rw [hsplit, parseScript_cons hparse]
          rcases ih (front ++ instr :: b) hshorter (retScript ++ [pop]) with
            ⟨pops, hpops, hunparse, hloop⟩ | ⟨hpops, e, pops, hloop⟩
          · left
            refine ⟨pop :: pops, by rw [hpops]; rfl, ?_, ?_⟩
            · simp [unparseScript, hbytes, hunparse]
            · rw [hloop, List.append_assoc]
              rfl
          · right
            refine ⟨by rw [hpops]; rfl, e, pop :: pops, ?_⟩
            rw [hloop, List.append_assoc]
            rfl
        · right
          refine ⟨parseScript_cons_none hnone, e, [], ?_⟩
          rw [hat, List.append_nil]

theorem parseScript_of_unparseScript {pops : List ParsedOpcode} {script : Bytes}
    (htable : ∀ pop ∈ pops, ∃ v, pop.opcode = opcodeArray v)
    (h : unparseScript pops = some script) : parseScript script = some pops := by
  induction pops generalizing script with
  | nil =>
      cases h
      exact parseScript_nil
  | cons pop pops ih =>
      obtain ⟨b, hb, hrest⟩ := Option.bind_eq_some_iff.mp h
      obtain ⟨tail, hunparse, hscript⟩ := Option.bind_eq_some_iff.mp hrest
      cases hscript
      obtain ⟨v, hv⟩ := htable pop List.mem_cons_self
      obtain ⟨data, rfl, hparse⟩ := parseOpcode_of_bytes hv hb
      rw [List.cons_append, parseScript_cons (hparse tail),
        ih (fun p hp => htable p (List.mem_cons_of_mem _ hp)) hunparse]
      rfl

/-- `parseScriptTemplate` with as many iterations as there are bytes and one
more is `parseScript`. -/
theorem parseScriptTemplate_cases {script : Bytes} {fuel : Nat} (hfuel : script.length < fuel) :
    (∃ pops, parseScript script = some pops ∧ unparseScript pops = some script ∧
      parseScriptTemplate script opcodeArray fuel = .returned pops) ∨
    (parseScript script = none ∧
      ∃ e pops, parseScriptTemplate script opcodeArray fuel = .failed e pops) :=
  parseFrom_cases [] hfuel []

/-- The loop ends on every script without an access out of range, what it
returns is unparsed to the script, and it returns every list of instructions of
the table from the bytes that it is unparsed to. -/
theorem parse_unparse_inverse :
    (∀ script fuel, script.length < fuel →
      parseScriptTemplate script opcodeArray fuel ≠ .panicked ∧
      parseScriptTemplate script opcodeArray fuel ≠ .running ∧
      ∀ pops, parseScriptTemplate script opcodeArray fuel = .returned pops →
        unparseScript pops = some script) ∧
    ∀ pops script fuel, (∀ pop ∈ pops, ∃ v, pop.opcode = opcodeArray v) →
      unparseScript pops = some script → script.length < fuel →
        parseScriptTemplate script opcodeArray fuel = .returned pops := by
  constructor
  · intro script fuel hfuel
    rcases parseScriptTemplate_cases hfuel with
      ⟨pops, -, hunparse, hloop⟩ | ⟨-, e, pops, hloop⟩
    · rw [hloop]
      refine ⟨Parsing.noConfusion, Parsing.noConfusion, fun other hother => ?_⟩
      cases hother
      exact hunparse
    · rw [hloop]
      refine ⟨Parsing.noConfusion, Parsing.noConfusion, fun other hother => ?_⟩
      cases hother
  · intro pops script fuel htable hunparse hfuel
    have hparse := parseScript_of_unparseScript htable hunparse
    rcases parseScriptTemplate_cases hfuel with ⟨other, hother, -, hloop⟩ | ⟨hnone, -⟩
    · rw [hparse] at hother
      cases hother
      exact hloop
    · rw [hparse] at hnone
      cases hnone

/-- A single byte pushed with `OP_PUSHDATA1`, longer than it need be. -/
theorem nonMinimalPush_inverse :
    parseScriptTemplate [0x4c, 0x01, 0xaa] opcodeArray 4 =
        .returned [⟨opcodeArray 0x4c, [0xaa]⟩] ∧
      unparseScript [⟨opcodeArray 0x4c, [0xaa]⟩] = some [0x4c, 0x01, 0xaa] := by
  have hunparse : unparseScript [⟨opcodeArray 0x4c, [0xaa]⟩] = some [0x4c, 0x01, 0xaa] := by
    decide
  have htable : ∀ pop ∈ [(⟨opcodeArray 0x4c, [0xaa]⟩ : ParsedOpcode)],
      ∃ v, pop.opcode = opcodeArray v := by
    intro pop hpop
    rw [List.mem_singleton.mp hpop]
    exact ⟨0x4c, rfl⟩
  have hparse := parse_unparse_inverse.2 _ _ 4 htable hunparse (by decide)
  exact ⟨hparse, (parse_unparse_inverse.1 _ 4 (by decide)).2.2 _ hparse⟩

end ElectrumLightning.ScriptRoundTrip
