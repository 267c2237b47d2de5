import ElectrumLightning.ByteStrings

/-!
Scripts as the Go signer reads and writes them. An opcode is a single byte,
pushes a fixed number of bytes, or announces the length of its data in one, two
or four bytes, least significant first.
-/

namespace ElectrumLightning.ScriptParsing

open ElectrumLightning.ByteStrings

/-- An entry of the table: the length is that of the whole instruction, or the
negated width of its length field. -/
structure Opcode where
  value : UInt8
  length : Int
deriving DecidableEq

structure ParsedOpcode where
  opcode : Opcode
  data : Bytes
deriving DecidableEq

def opcodeArray (instr : UInt8) : Opcode :=
  if 0x01 ≤ instr ∧ instr ≤ 0x4b then ⟨instr, instr.toNat + 1⟩
  else if instr = 0x4c then ⟨instr, -1⟩
  else if instr = 0x4d then ⟨instr, -2⟩
  else if instr = 0x4e then ⟨instr, -4⟩
  else ⟨instr, 1⟩

def Opcode.width (op : Opcode) : Nat := (-op.length).toNat

/-- One iteration of the loop of `parseScriptTemplate`: the instruction at the
front and the rest of the script, or an error. -/
def parseOpcode (instr : UInt8) (rest : Bytes) : Option (ParsedOpcode × Bytes) :=
  let op := opcodeArray instr
  if op.length = 1 then some (⟨op, []⟩, rest)
  else if 1 < op.length then
    if (rest.length + 1 : Int) < op.length then none
    else some (⟨op, rest.take (op.length - 1).toNat⟩, rest.drop (op.length - 1).toNat)
  else if op.length < 0 then
    if rest.length < op.width then none
    else
      let l := littleEndianValue (rest.take op.width)
      let rest := rest.drop op.width
      if rest.length < l then none else some (⟨op, rest.take l⟩, rest.drop l)
  else
    -- No case of the switch: the index would stay where it is.
    some (⟨op, []⟩, instr :: rest)

theorem opcodeArray_length_ne_zero (instr : UInt8) : (opcodeArray instr).length ≠ 0 := by
  unfold opcodeArray
  split_ifs
  · change (instr.toNat : Int) + 1 ≠ 0
    omega
  · change (-1 : Int) ≠ 0
    decide
  · change (-2 : Int) ≠ 0
    decide
  · change (-4 : Int) ≠ 0
    decide
  · change (1 : Int) ≠ 0
    decide

theorem length_le_of_parseOpcode {instr : UInt8} {rest rest' : Bytes} {pop : ParsedOpcode}
    (h : parseOpcode instr rest = some (pop, rest')) : rest'.length ≤ rest.length := by
  unfold parseOpcode at h
  dsimp only at h
  split_ifs at h with hsingle hfixed hshort hpush hwidth hdata
  · cases h
    exact le_rfl
  · cases h
    rw [List.length_drop]
    omega
  · cases h
    simp only [List.length_drop]
    omega
  · have hzero := opcodeArray_length_ne_zero instr
    omega

/-- `parseScript`. It ends because no entry of the table has length zero. -/
def parseScript : Bytes → Option (List ParsedOpcode)
  | [] => some []
  | instr :: rest =>
      match _h : parseOpcode instr rest with
      | none => none
      | some (pop, rest') => (parseScript rest').map (pop :: ·)
termination_by script => script.length
decreasing_by
  have hle := length_le_of_parseOpcode _h
  rw [List.length_cons]
  omega

theorem parseScript_nil : parseScript [] = some [] := by
  rw [parseScript]

theorem parseScript_cons {instr : UInt8} {rest rest' : Bytes} {pop : ParsedOpcode}
    (h : parseOpcode instr rest = some (pop, rest')) :
    parseScript (instr :: rest) = (parseScript rest').map (pop :: ·) := by
  rw [parseScript]
  split
  · rename_i hnone
    rw [h] at hnone
    cases hnone
  · rename_i hsome
    rw [h] at hsome
    cases hsome
    rfl

/-- The bytes of an instruction, or an inconsistency between its opcode and its
data. -/
def ParsedOpcode.bytes (pop : ParsedOpcode) : Option Bytes :=
  if pop.opcode.length = 1 then
    if pop.data.length ≠ 0 then none else some [pop.opcode.value]
  else if pop.opcode.length < 0 then
    let lengthField := littleEndian pop.opcode.width pop.data.length
    let nbytes := littleEndianValue lengthField + (1 + lengthField.length)
    let retbytes := pop.opcode.value :: (lengthField ++ pop.data)
    if retbytes.length ≠ nbytes then none else some retbytes
  else
    let retbytes := pop.opcode.value :: pop.data
    if (retbytes.length : Int) ≠ pop.opcode.length then none else some retbytes

def unparseScript : List ParsedOpcode → Option Bytes
  | [] => some []
  | pop :: pops => do
      let b ← pop.bytes
      let script ← unparseScript pops
      some (b ++ script)

def op0 : UInt8 := 0x00
def opData20 : UInt8 := 0x14
def opDup : UInt8 := 0x76
def opEqualVerify : UInt8 := 0x88
def opHash160 : UInt8 := 0xa9
def opCheckSig : UInt8 := 0xac

def isWitnessPubKeyHash : List ParsedOpcode → Bool
  | [first, second] => first.opcode.value = op0 ∧ second.opcode.value = opData20
  | _ => false

/-- A length in the variable-length format, for numbers below 2⁶⁴. -/
def writeVarInt (val : Nat) : Bytes :=
  if val < 0xfd then [UInt8.ofNat val]
  else if val ≤ 0xffff then 0xfd :: littleEndian 2 val
  else if val ≤ 0xffffffff then 0xfe :: littleEndian 4 val
  else 0xff :: littleEndian 8 val

def writeVarBytes (bs : Bytes) : Bytes := writeVarInt bs.length ++ bs

def witnessPubKeyHash (hash : Bytes) : Bytes := op0 :: opData20 :: hash

theorem parseScript_witnessPubKeyHash {hash : Bytes} (h : hash.length = 20) :
    parseScript (witnessPubKeyHash hash) =
      some [⟨opcodeArray op0, []⟩, ⟨opcodeArray opData20, hash⟩] := by
  have hzero : parseOpcode op0 (opData20 :: hash) =
      some (⟨opcodeArray op0, []⟩, opData20 :: hash) := rfl
  have hpush : parseOpcode opData20 hash = some (⟨opcodeArray opData20, hash⟩, []) := by
    have hlength : (opcodeArray opData20).length = 21 := rfl
    simp [parseOpcode, hlength, h, List.take_of_length_le, List.drop_eq_nil_of_le]
  rw [witnessPubKeyHash, parseScript_cons hzero, parseScript_cons hpush, parseScript_nil]
  rfl

end ElectrumLightning.ScriptParsing
