import ElectrumLightning.ScriptParsing
import ElectrumLightning.SignerDecoding

/-!
How the Go signer signs an input: the digest of a witness input, and the
script and witness that spend a nested pay-to-witness-public-key-hash output.
-/

namespace ElectrumLightning.WitnessSigning

open ElectrumLightning.ByteStrings
open ElectrumLightning.ProxySerialization
open ElectrumLightning.ScriptParsing
open ElectrumLightning.SignerDecoding

structure OutPoint where
  hash : ByteArrayOf 32
  index : UInt32
deriving DecidableEq

structure TxIn where
  previousOutPoint : OutPoint
  signatureScript : Bytes
  witness : List Bytes
  sequence : UInt32
deriving DecidableEq

structure MsgTx where
  version : Int32
  txIn : List TxIn
  txOut : List TxOut
  lockTime : UInt32
deriving DecidableEq

/-- What both signers use and neither defines: hashes, public keys, the parser
of transactions, and deterministic signatures in DER, which may fail. -/
structure Primitives extends Crypto where
  uncompressedPubKey : PrivateKey → Bytes
  hash160 : Bytes → ByteArrayOf 20
  doubleHash : Bytes → Bytes
  deserialize : Bytes → Option MsgTx
  sign : PrivateKey → Bytes → Option Bytes

/-- The two scripts that the signer has built by a library: the witness program
of an address, and a script with a single short push. -/
structure ScriptBuilder where
  payToAddrScript : ByteArrayOf 20 → Bytes
  addData : Bytes → Bytes
  payToAddrScript_eq : ∀ hash, payToAddrScript hash = witnessPubKeyHash hash.val
  addData_eq : ∀ data : Bytes, 2 ≤ data.length → data.length ≤ 75 →
    addData data = UInt8.ofNat data.length :: data

def sigHashAll : UInt32 := 0x1
def sigHashNone : UInt32 := 0x2
def sigHashSingle : UInt32 := 0x3
def sigHashAnyOneCanPay : UInt32 := 0x80
def sigHashMask : UInt32 := 0x1f

def zeroHash : Bytes := List.replicate 32 0

def leUint32 (n : UInt32) : Bytes := littleEndian 4 n.toNat

def leInt64 (n : Int64) : Bytes := littleEndian 8 n.toBitVec.toNat

def writeTxOut (out : TxOut) : Bytes := leInt64 out.value ++ writeVarBytes out.pkScript

/-- `script[i]`, which panics out of range. -/
def index {α : Type} (xs : List α) (i : Int) : Option α := if i < 0 then none else xs[i.toNat]?

/-- The script that a digest commits to. An error of `unparseScript` is
discarded. -/
def scriptCode (subScript : List ParsedOpcode) : Bytes :=
  if isWitnessPubKeyHash subScript then
    [0x19, opDup, opHash160, opData20] ++ (subScript[1]?.map ParsedOpcode.data).getD [] ++
      [opEqualVerify, opCheckSig]
  else writeVarBytes ((unparseScript subScript).getD [])

variable (o : Primitives)

/-- What `calcWitnessSignatureHash` writes to its buffer, or an error. -/
def sigHash (subScript : List ParsedOpcode) (sigHashes : TxSigHashes) (hashType : UInt32)
    (tx : MsgTx) (idx : Int) (amt : Int64) : Option Bytes :=
  if idx > tx.txIn.length - 1 then none
  else do
    let bVersion := littleEndian 4 tx.version.toBitVec.toNat
    let hashPrevOuts :=
      if hashType &&& sigHashAnyOneCanPay = 0 then sigHashes.hashPrevOuts.val else zeroHash
    let hashSequence :=
      if hashType &&& sigHashAnyOneCanPay = 0 ∧ hashType &&& sigHashMask ≠ sigHashSingle ∧
          hashType &&& sigHashMask ≠ sigHashNone then sigHashes.hashSequence.val
      else zeroHash
    let txIn ← index tx.txIn idx
    let outPoint := txIn.previousOutPoint.hash.val ++ leUint32 txIn.previousOutPoint.index
    let hashOutputs :=
      if hashType &&& sigHashSingle ≠ sigHashSingle ∧ hashType &&& sigHashNone ≠ sigHashNone then
        sigHashes.hashOutputs.val
      else if hashType &&& sigHashMask = sigHashSingle ∧ idx < tx.txOut.length then
        ((index tx.txOut idx).map fun out => o.doubleHash (writeTxOut out)).getD zeroHash
      else zeroHash
    some (bVersion ++ hashPrevOuts ++ hashSequence ++ outPoint ++ scriptCode subScript ++
      leInt64 amt ++ leUint32 txIn.sequence ++ hashOutputs ++ leUint32 tx.lockTime ++
      leUint32 hashType)

def calcWitnessSignatureHash (subScript : List ParsedOpcode) (sigHashes : TxSigHashes)
    (hashType : UInt32) (tx : MsgTx) (idx : Int) (amt : Int64) : Option Bytes :=
  (sigHash o subScript sigHashes hashType tx idx amt).map o.doubleHash

def rawTxInWitnessSignature (tx : MsgTx) (sigHashes : TxSigHashes) (idx : Int) (amt : Int64)
    (subScript : Bytes) (hashType : UInt32) (key : PrivateKey) : Option Bytes := do
  let parsedScript ← parseScript subScript
  let hash ← calcWitnessSignatureHash o parsedScript sigHashes hashType tx idx amt
  let signature ← o.sign key hash
  some (signature ++ [hashType.toUInt8])

def witnessSignature (tx : MsgTx) (sigHashes : TxSigHashes) (idx : Int) (amt : Int64)
    (subscript : Bytes) (hashType : UInt32) (privKey : PrivateKey) (compress : Bool) :
    Option (List Bytes) := do
  let sig ← rawTxInWitnessSignature o tx sigHashes idx amt subscript hashType privKey
  let pkData := if compress then o.pubKey privKey else o.uncompressedPubKey privKey
  some [sig, pkData]

structure InputScript where
  witness : List Bytes
  scriptSig : Bytes
deriving DecidableEq

def computeInputScript (builder : ScriptBuilder) (tx : MsgTx) (signDesc : SignDescriptor)
    (privKey : PrivateKey) : Option InputScript := do
  let outputScript := signDesc.output.pkScript
  let isNestedWitness := true
  let pubKeyHash := o.hash160 (o.pubKey privKey)
  let witnessProgram :=
    if isNestedWitness then builder.payToAddrScript pubKeyHash else outputScript
  let scriptSig := if isNestedWitness then builder.addData witnessProgram else []
  let privKey := maybeTweakPrivKey o.toCrypto signDesc privKey
  let witnessScript ← witnessSignature o tx signDesc.sigHashes signDesc.inputIndex.toInt
    signDesc.output.value witnessProgram sigHashAll privKey true
  some ⟨witnessScript, scriptSig⟩

/-- The digest preimage of an input that spends a nested public key hash and
signs everything. -/
def preimage (sigHashes : TxSigHashes) (tx : MsgTx) (txIn : TxIn) (amt : Int64)
    (pubKeyHash : Bytes) : Bytes :=
  littleEndian 4 tx.version.toBitVec.toNat ++ sigHashes.hashPrevOuts.val ++
    sigHashes.hashSequence.val ++
    (txIn.previousOutPoint.hash.val ++ leUint32 txIn.previousOutPoint.index) ++
    ([0x19, opDup, opHash160, opData20] ++ pubKeyHash ++ [opEqualVerify, opCheckSig]) ++
    leInt64 amt ++ leUint32 txIn.sequence ++ sigHashes.hashOutputs.val ++ leUint32 tx.lockTime ++
    leUint32 sigHashAll

theorem index_eq_some {α : Type} {xs : List α} {i : Int} (hnonneg : 0 ≤ i)
    (hlt : i < xs.length) : ∃ x, xs[i.toNat]? = some x ∧ index xs i = some x := by
  have hbound : i.toNat < xs.length := by omega
  refine ⟨xs[i.toNat], List.getElem?_eq_getElem hbound, ?_⟩
  rw [index, if_neg (by omega), List.getElem?_eq_getElem hbound]

theorem sigHash_witnessPubKeyHash {sigHashes : TxSigHashes} {tx : MsgTx} {idx : Int}
    {amt : Int64} {pubKeyHash : Bytes} {txIn : TxIn} (hindex : idx < tx.txIn.length)
    (htxIn : index tx.txIn idx = some txIn) :
    sigHash o [⟨opcodeArray op0, []⟩, ⟨opcodeArray opData20, pubKeyHash⟩] sigHashes sigHashAll
        tx idx amt = some (preimage sigHashes tx txIn amt pubKeyHash) := by
  have hrange : ¬ idx > tx.txIn.length - 1 := by omega
  have hall : sigHashAll &&& sigHashAnyOneCanPay = 0 := by decide
  have hsequence : sigHashAll &&& sigHashMask ≠ sigHashSingle ∧
      sigHashAll &&& sigHashMask ≠ sigHashNone := by decide
  have houtputs : sigHashAll &&& sigHashSingle ≠ sigHashSingle ∧
      sigHashAll &&& sigHashNone ≠ sigHashNone := by decide
  rw [sigHash, if_neg hrange, htxIn]
  simp only [Option.bind_eq_bind, Option.bind_some, if_pos hall, if_pos (And.intro hall hsequence),
    if_pos houtputs]
  rfl

/-- The script that the signer gives: the program is of the key that it has, the
signature and the key of the witness are of the tweaked one. -/
def signed (base tweaked : PrivateKey) (signature : Bytes) : InputScript :=
  ⟨[signature ++ [1], o.pubKey tweaked],
    0x16 :: witnessPubKeyHash (o.hash160 (o.pubKey base)).val⟩

theorem computeInputScript_eq_signed (builder : ScriptBuilder) {tx : MsgTx}
    {signDesc : SignDescriptor} {txIn : TxIn} (privKey : PrivateKey)
    (hindex : signDesc.inputIndex.toInt < tx.txIn.length)
    (htxIn : index tx.txIn signDesc.inputIndex.toInt = some txIn) :
    computeInputScript o builder tx signDesc privKey =
      (o.sign (maybeTweakPrivKey o.toCrypto signDesc privKey) (o.doubleHash (preimage
        signDesc.sigHashes tx txIn signDesc.output.value (o.hash160 (o.pubKey privKey)).val))).map
          (signed o privKey (maybeTweakPrivKey o.toCrypto signDesc privKey)) := by
  set hash := o.hash160 (o.pubKey privKey) with hhash
  have hlength : (witnessPubKeyHash hash.val).length = 22 := by
    simp [witnessPubKeyHash, hash.property]
  have hpush : builder.addData (witnessPubKeyHash hash.val) =
      0x16 :: witnessPubKeyHash hash.val := by
    rw [builder.addData_eq _ (by omega) (by omega), hlength]
    rfl
  simp only [computeInputScript, if_true, builder.payToAddrScript_eq, ← hhash, hpush,
    witnessSignature, rawTxInWitnessSignature, parseScript_witnessPubKeyHash hash.property,
    calcWitnessSignatureHash, sigHash_witnessPubKeyHash o hindex htxIn, Option.map_some,
    Option.bind_eq_bind, Option.bind_some]
  cases o.sign (maybeTweakPrivKey o.toCrypto signDesc privKey) _ with
  | none => rfl
  | some signature =>
      rw [hhash]
      rfl

theorem computeInputScript_eq (builder : ScriptBuilder) {tx : MsgTx} {signDesc : SignDescriptor}
    {txIn : TxIn} (privKey : PrivateKey)
    (hindex : signDesc.inputIndex.toInt < tx.txIn.length)
    (htxIn : index tx.txIn signDesc.inputIndex.toInt = some txIn)
    (hsingle : signDesc.singleTweak = none) (hdouble : signDesc.doubleTweak = none) :
    computeInputScript o builder tx signDesc privKey =
      (o.sign privKey (o.doubleHash (preimage signDesc.sigHashes tx txIn signDesc.output.value
        (o.hash160 (o.pubKey privKey)).val))).map (signed o privKey privKey) := by
  have hkey : maybeTweakPrivKey o.toCrypto signDesc privKey = privKey := by
    rw [maybeTweakPrivKey, hsingle, hdouble]
  rw [computeInputScript_eq_signed o builder privKey hindex htxIn, hkey]

end ElectrumLightning.WitnessSigning
