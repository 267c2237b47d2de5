import ElectrumLightning.WitnessSigning

/-!
The standard encoding of transactions, and the digest preimage of a witness
input that is defined over it.
-/

namespace ElectrumLightning.TransactionEncoding

open ElectrumLightning.ByteStrings
open ElectrumLightning.ProxySerialization
open ElectrumLightning.ScriptParsing
open ElectrumLightning.WitnessSigning

/-- A count or a length in one, three, five or nine bytes. -/
def compactSize (n : Nat) : Bytes :=
  if n ≤ 252 then littleEndian 1 n
  else if n < 2 ^ 16 then 0xfd :: littleEndian 2 n
  else if n < 2 ^ 32 then 0xfe :: littleEndian 4 n
  else 0xff :: littleEndian 8 n

def varBytes (bs : Bytes) : Bytes := compactSize bs.length ++ bs

def encodeOutPoint (op : OutPoint) : Bytes := op.hash.val ++ littleEndian 4 op.index.toNat

def encodeTxIn (i : TxIn) : Bytes :=
  encodeOutPoint i.previousOutPoint ++ varBytes i.signatureScript ++
    littleEndian 4 i.sequence.toNat

def encodeTxOut (out : TxOut) : Bytes :=
  littleEndian 8 out.value.toBitVec.toNat ++ varBytes out.pkScript

def encodeWitness (i : TxIn) : Bytes := compactSize i.witness.length ++ i.witness.flatMap varBytes

def hasWitness (tx : MsgTx) : Bool := tx.txIn.any fun i => !i.witness.isEmpty

/-- The encoding; marker, flag and witness stacks stand there exactly when some
input has a witness. -/
def encodeTx (tx : MsgTx) : Bytes :=
  littleEndian 4 tx.version.toBitVec.toNat ++
    (if hasWitness tx then [0x00, 0x01] else []) ++
    compactSize tx.txIn.length ++ tx.txIn.flatMap encodeTxIn ++
    compactSize tx.txOut.length ++ tx.txOut.flatMap encodeTxOut ++
    (if hasWitness tx then tx.txIn.flatMap encodeWitness else []) ++
    littleEndian 4 tx.lockTime.toNat

/-! ### The digest of a witness input -/

section Digest

variable (doubleHash : Bytes → Bytes)

/-- The bits of a hash type that tell which outputs are signed. -/
def outputsType (hashType : UInt32) : UInt32 := hashType &&& 0x1f

def anyoneCanPay (hashType : UInt32) : Bool := hashType &&& 0x80 ≠ 0

def hashPrevouts (tx : MsgTx) (hashType : UInt32) : Bytes :=
  if anyoneCanPay hashType then List.replicate 32 0
  else doubleHash (tx.txIn.flatMap fun i => encodeOutPoint i.previousOutPoint)

def hashSequence (tx : MsgTx) (hashType : UInt32) : Bytes :=
  if anyoneCanPay hashType = false ∧ outputsType hashType ≠ sigHashSingle ∧
      outputsType hashType ≠ sigHashNone then
    doubleHash (tx.txIn.flatMap fun i => littleEndian 4 i.sequence.toNat)
  else List.replicate 32 0

def hashOutputs (tx : MsgTx) (idx : Nat) (hashType : UInt32) : Bytes :=
  if outputsType hashType ≠ sigHashSingle ∧ outputsType hashType ≠ sigHashNone then
    doubleHash (tx.txOut.flatMap encodeTxOut)
  else if outputsType hashType = sigHashSingle then
    match tx.txOut[idx]? with
    | some out => doubleHash (encodeTxOut out)
    | none => List.replicate 32 0
  else List.replicate 32 0

/-- The pay-to-public-key-hash script for a witness program of a public key
hash, and the script itself for any other. -/
def digestScript (script : Bytes) : Bytes :=
  if script.length = 22 ∧ script.take 2 = [op0, opData20] then
    [0x19, opDup, opHash160, opData20] ++ script.drop 2 ++ [opEqualVerify, opCheckSig]
  else varBytes script

def digestPreimage (tx : MsgTx) (txIn : TxIn) (idx : Nat) (script : Bytes) (amt : Int64)
    (hashType : UInt32) : Bytes :=
  littleEndian 4 tx.version.toBitVec.toNat ++ hashPrevouts doubleHash tx hashType ++
    hashSequence doubleHash tx hashType ++ encodeOutPoint txIn.previousOutPoint ++
    digestScript script ++ littleEndian 8 amt.toBitVec.toNat ++
    littleEndian 4 txIn.sequence.toNat ++ hashOutputs doubleHash tx idx hashType ++
    littleEndian 4 tx.lockTime.toNat ++ littleEndian 4 hashType.toNat

end Digest

/-! ### The same functions in the source -/

theorem writeVarInt_eq_compactSize (n : Nat) : writeVarInt n = compactSize n := by
  unfold writeVarInt compactSize
  by_cases hone : n ≤ 252
  · rw [if_pos (by omega), if_pos hone]
    rfl
  rw [if_neg (by omega), if_neg hone]
  by_cases htwo : n < 2 ^ 16
  · rw [if_pos (by omega), if_pos htwo]
  rw [if_neg (by omega), if_neg htwo]
  by_cases hfour : n < 2 ^ 32
  · rw [if_pos (by omega), if_pos hfour]
  · rw [if_neg (by omega), if_neg hfour]

theorem writeVarBytes_eq_varBytes (bs : Bytes) : writeVarBytes bs = varBytes bs := by
  rw [writeVarBytes, writeVarInt_eq_compactSize]
  rfl

theorem writeTxOut_eq_encodeTxOut (out : TxOut) : writeTxOut out = encodeTxOut out := by
  rw [writeTxOut, writeVarBytes_eq_varBytes]
  rfl

end ElectrumLightning.TransactionEncoding
