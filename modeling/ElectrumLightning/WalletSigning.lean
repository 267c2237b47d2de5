import ElectrumLightning.HexText
import ElectrumLightning.SigndescDecoding
import ElectrumLightning.WitnessSigning

/-!
How the wallet signs an input. Its functions carry assertions that compare what
they compute with one recorded signature.
-/

namespace ElectrumLightning.WalletSigning

open ElectrumLightning.ByteStrings
open ElectrumLightning.HexText
open ElectrumLightning.ProxySerialization
open ElectrumLightning.SigndescDecoding
open ElectrumLightning.WitnessSigning (MsgTx Primitives zeroHash)

/-- An input as `transaction.deserialize` gives it: the hash of the spent
transaction is hexadecimal text, most significant byte first. -/
structure TxInput where
  prevoutHash : String
  prevoutN : Int
  sequence : Int

structure Decoded where
  version : Int
  inputs : List TxInput
  lockTime : Int

def decodedInput (txIn : WitnessSigning.TxIn) : TxInput where
  prevoutHash := hexlify txIn.previousOutPoint.hash.val.reverse
  prevoutN := txIn.previousOutPoint.index.toNat
  sequence := txIn.sequence.toNat

def decoded (tx : MsgTx) : Decoded where
  version := tx.version.toInt
  inputs := tx.txIn.map decodedInput
  lockTime := tx.lockTime.toNat

/-- What `script_GetOp` yields: an opcode, its data and the position after it. -/
structure ScriptOp where
  opcode : Nat
  data : Bytes
  length : Nat

/-- What the wallet uses of its own library. Parsing an output script or a
script may raise. -/
structure Library (Address MasterKey : Type) where
  getAddressFromOutputScript : Bytes → Option Address
  searchKey : Address → MasterKey → Option PrivateKey
  scriptGetOp : Bytes → Option (List ScriptOp)
  scriptGetOp_witnessPubKeyHash : ∀ hash : ByteArrayOf 20,
    scriptGetOp (0x00 :: 0x14 :: hash.val) = some [⟨0, [], 1⟩, ⟨20, hash.val, 22⟩]

/-- `struct.pack` of an unsigned number, which raises out of range. -/
def LEtobytes (x : Int) (l : Nat) : Option Bytes :=
  if l = 2 ∨ l = 4 ∨ l = 8 then
    if 0 ≤ x ∧ x < 256 ^ l then some (littleEndian l x.toNat) else none
  else none

def sigHashMask : Bytes := [0x1f]
def sigHashAll : Bytes := [0x01]
def sigHashNone : Bytes := [0x02]
def sigHashSingle : Bytes := [0x03]
def sigHashAnyOneCanPay : Bytes := [0x80]

def isWitnessPubKeyHash : List ScriptOp → Bool
  | [first, second] => first.opcode = 0 ∧ second.opcode = 20
  | _ => false

def correct : Bytes :=
  [1, 0, 0, 0, 217, 43, 73, 76, 147, 7, 70, 63, 188, 219, 20, 47, 234, 97, 195, 13, 216, 87, 117,
    11, 107, 76, 81, 144, 254, 102, 255, 191, 72, 130, 26, 154, 59, 177, 48, 41, 206, 123, 31, 85,
    158, 245, 231, 71, 252, 172, 67, 159, 20, 85, 162, 236, 124, 95, 9, 183, 34, 144, 121, 94, 112,
    102, 80, 68, 211, 171, 158, 20, 224, 139, 71, 93, 77, 94, 74, 135, 98, 70, 57, 191, 79, 168,
    32, 75, 105, 235, 123, 26, 235, 34, 171, 178, 162, 172, 163, 27, 1, 0, 0, 0, 25, 118, 169, 20,
    157, 152, 5, 36, 153, 45, 228, 145, 20, 188, 199, 140, 125, 173, 247, 140, 169, 123, 131, 107,
    136, 172, 0, 228, 11, 84, 2, 0, 0, 0, 255, 255, 255, 255, 49, 104, 166, 12, 84, 134, 136, 136,
    201, 54, 92, 173, 174, 23, 215, 5, 206, 240, 150, 172, 65, 238, 5, 213, 166, 63, 170, 11, 195,
    67, 37, 187, 0, 0, 0, 0, 1, 0, 0, 0]

/-- `assert correct[:len(sigHash)] == sigHash` -/
def assertPrefix (sigHash : Bytes) : Option Unit :=
  assert (sliceTo correct sigHash.length = sigHash)

def recordedPrevoutHash : String :=
  "1ba3aca2b2ab22eb1a7beb694b20a84fbf394662874a5e4d5d478be0149eabd3"

/-- What `calcWitnessSignatureHash` hashes, or an exception. -/
def sigHash (subscript : List ScriptOp) (sigHashes : SigHashes) (hashType : Bytes)
    (decoded : Decoded) (idx amt : Nat) : Option Bytes := do
  assert (¬ (idx : Int) > decoded.inputs.length - 1)
  let txin ← decoded.inputs[idx]?
  let sigHash ← LEtobytes decoded.version 4
  let hashType' ← toint hashType
  let mask ← toint sigHashMask
  let none' ← toint sigHashNone
  let single ← toint sigHashSingle
  let anyOneCanPay ← toint sigHashAnyOneCanPay
  let sigHash := sigHash ++
    if hashType' &&& anyOneCanPay = 0 then sigHashes.hashPrevOuts else zeroHash
  assertPrefix sigHash
  let sigHash := sigHash ++
    if hashType' &&& anyOneCanPay = 0 ∧ hashType' &&& mask ≠ single ∧ hashType' &&& mask ≠ none'
    then sigHashes.hashSequence else zeroHash
  assertPrefix sigHash
  assert (txin.prevoutHash = recordedPrevoutHash)
  let prevoutHash ← unhexlify txin.prevoutHash
  let prevoutN ← LEtobytes txin.prevoutN 4
  let sigHash := sigHash ++ prevoutHash.reverse ++ prevoutN
  assertPrefix sigHash
  assert (isWitnessPubKeyHash subscript = true)
  let second ← subscript[1]?
  let sigHash := sigHash ++ [0x19, 0x76, 0xa9, 0x14] ++ second.data ++ [0x88, 0xac]
  assertPrefix sigHash
  let amount ← LEtobytes amt 8
  let sequence ← LEtobytes txin.sequence 4
  let sigHash := sigHash ++ amount ++ sequence
  assertPrefix sigHash
  -- Otherwise a name that is not defined is used, or an exception is raised.
  assert (hashType' &&& single ≠ single ∧ hashType' &&& none' ≠ none')
  let sigHash := sigHash ++ sigHashes.hashOutputs
  let lockTime ← LEtobytes decoded.lockTime 4
  let hashTypeBytes ← LEtobytes hashType' 4
  let sigHash := sigHash ++ lockTime ++ hashTypeBytes
  assertPrefix sigHash
  assert (sigHash = correct)
  some sigHash

variable (o : Primitives)

def calcWitnessSignatureHash (subscript : List ScriptOp) (sigHashes : SigHashes)
    (hashType : Bytes) (tx : Bytes) (idx amt : Nat) : Option Bytes := do
  let tx ← o.deserialize tx
  let sigHash ← sigHash subscript sigHashes hashType (decoded tx) idx amt
  some (o.doubleHash sigHash)

def recordedDigest : Bytes :=
  [33, 236, 33, 111, 254, 94, 205, 8, 151, 34, 154, 141, 176, 156, 16, 118, 34, 2, 183, 224, 53, 72,
    53, 155, 60, 72, 96, 110, 24, 220, 112, 24]

variable {Address MasterKey : Type} (library : Library Address MasterKey)

def rawTxInWitnessSignature (tx : Bytes) (sigHashes : SigHashes) (idx amt : Nat)
    (subscript hashType : Bytes) (key : PrivateKey) : Option Bytes := do
  let parsed ← library.scriptGetOp subscript
  let digest ← calcWitnessSignatureHash o parsed sigHashes hashType tx idx amt
  assert (digest = recordedDigest)
  let sig ← o.sign key digest
  some (sig ++ hashType)

def ref : Bytes :=
  [48, 68, 2, 32, 62, 85, 194, 71, 180, 244, 2, 87, 141, 53, 208, 147, 25, 47, 181, 82, 25, 88, 118,
    216, 45, 70, 168, 14, 65, 144, 142, 71, 205, 4, 105, 209, 2, 32, 17, 185, 10, 179, 229, 150,
    236, 161, 45, 49, 199, 206, 16, 79, 105, 228, 13, 185, 39, 231, 184, 62, 199, 137, 80, 190, 249,
    211, 70, 248, 95, 40, 1]

/-- `get_public_key`, as hexadecimal text. -/
def getPublicKey (key : PrivateKey) (compressed : Bool) : String :=
  hexlify (if compressed then o.pubKey key else o.uncompressedPubKey key)

def witnessSignature (tx : Bytes) (sigHashes : SigHashes) (idx amt : Nat)
    (subscript hashType : Bytes) (privKey : PrivateKey) (compress : Bool) :
    Option (Bytes × Bytes) := do
  let sig ← rawTxInWitnessSignature o library tx sigHashes idx amt subscript hashType privKey
  assert (sig = ref)
  let pkData ← unhexlify (getPublicKey o privKey compress)
  some (sig, pkData)

/-- The functions that would apply a tweak are not defined. -/
def maybeTweakPrivKey (signdesc : Signdesc) (pri : PrivateKey) : Option PrivateKey :=
  match signdesc.singleTweak, signdesc.doubleTweak with
  | some _, _ => none
  | none, some _ => none
  | none, none => some pri

structure InputScript where
  scriptSig : Bytes
  witness : Bytes × Bytes
deriving DecidableEq

def refwitnessprogram : Bytes :=
  [0, 20, 157, 152, 5, 36, 153, 45, 228, 145, 20, 188, 199, 140, 125, 173, 247, 140, 169, 123, 131,
    107]

def referenceScriptSig : Bytes :=
  [22, 0, 20, 157, 152, 5, 36, 153, 45, 228, 145, 20, 188, 199, 140, 125, 173, 247, 140, 169, 123,
    131, 107]

def computeInputScript (tx : Bytes) (signdesc : Signdesc) (masterkey : MasterKey) :
    Option InputScript := do
  let strAddress ← library.getAddressFromOutputScript signdesc.output.pkScript
  let pri ← library.searchKey strAddress masterkey
  -- `isNestedWitness` is hardcoded.
  let pub ← unhexlify (getPublicKey o pri true)
  let scr := (o.hash160 pub).val
  let witnessProgram := [0x00, 0x14] ++ scr
  assert (refwitnessprogram = witnessProgram)
  let ourScriptSig := [0x16, 0x00, 0x14] ++ scr
  assert (ourScriptSig = referenceScriptSig)
  let pri2 ← maybeTweakPrivKey signdesc pri
  let (witnessScript, pkData) ← witnessSignature o library tx signdesc.sigHashes
    signdesc.inputIndex signdesc.output.value witnessProgram sigHashAll pri2 true
  some ⟨ourScriptSig, (witnessScript, pkData)⟩

end ElectrumLightning.WalletSigning
