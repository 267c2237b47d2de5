import ElectrumLightning.HexText
import ElectrumLightning.PrefixDecoding
import ElectrumLightning.SignerRequests
import ElectrumLightning.TransactionEncoding

/-!
How the Go signer decodes a transaction: the scripts are read one by one, and
then moved into a single buffer in which the message keeps their locations.
-/

namespace ElectrumLightning.TransactionDecoding

open ElectrumLightning.ByteStrings
open ElectrumLightning.HexText
open ElectrumLightning.PrefixDecoding
open ElectrumLightning.ProxySerialization
open ElectrumLightning.SignerRequests (Same decodeRequest same_without_key)
open ElectrumLightning.TransactionEncoding
open ElectrumLightning.WitnessSigning

inductive Failure where
  | eof
  | unexpectedEof
  | error (text : String)
  | panic (text : String)
deriving DecidableEq

abbrev Reading := Decoder Failure UInt8

def readFull (n : Nat) : Reading Bytes := fun r =>
  if n ≤ r.length then .ok (r.take n, r.drop n)
  else if r.isEmpty then .error .eof
  else .error .unexpectedEof

def uintOfWidth (width : Nat) : Reading Nat := do
  let buf ← readFull width
  pure (littleEndianValue buf)

def uint8 : Reading Nat := uintOfWidth 1
def uint16 : Reading Nat := uintOfWidth 2
def uint32 : Reading Nat := uintOfWidth 4
def uint64 : Reading Nat := uintOfWidth 8

/-- The rest of a number whose first byte says how wide it is. A number that
has a shorter form is a panic. -/
def readVarIntOfWidth (uint : Reading Nat) (min : Nat) : Reading Nat := do
  let rv ← uint
  failIf (rv < min) (.panic "ReadVarInt")
  pure rv

def readVarIntRest (discriminant : Nat) : Reading Nat :=
  if discriminant = 0xff then readVarIntOfWidth uint64 0x100000000
  else if discriminant = 0xfe then readVarIntOfWidth uint32 0x10000
  else if discriminant = 0xfd then readVarIntOfWidth uint16 0xfd
  else pure discriminant

def readVarInt : Reading Nat := do
  let discriminant ← uint8
  readVarIntRest discriminant

def readScript (maxAllowed : Nat) (fieldName : String) : Reading Bytes := do
  let count ← readVarInt
  failIf (count > maxAllowed)
    (.error s!"{fieldName} is larger than the max allowed size [count {count}, max {maxAllowed}]")
  readFull count

def readElementInt64 : Reading Int64 := do
  let rv ← uint64
  pure (Int64.ofNat rv)

def readElementUint32 : Reading UInt32 := do
  let rv ← uint32
  pure (UInt32.ofNat rv)

/-- The 32 bytes of a hash. -/
def readHash : Reading (ByteArrayOf 32) := fun r =>
  if h : 32 ≤ r.length then .ok (⟨r.take 32, List.length_take_of_le h⟩, r.drop 32)
  else if r.isEmpty then .error .eof
  else .error .unexpectedEof

def readOutPoint : Reading OutPoint := do
  let hash ← readHash
  let index ← readElementUint32
  pure ⟨hash, index⟩

def readTxIn : Reading TxIn := do
  let previousOutPoint ← readOutPoint
  let signatureScript ← readScript 10000 "transaction input signature script"
  let sequence ← readElementUint32
  pure ⟨previousOutPoint, signatureScript, [], sequence⟩

def readTxOut : Reading TxOut := do
  let value ← readElementInt64
  let pkScript ← readScript 10000 "transaction output public key script"
  pure ⟨value, pkScript⟩

def tooMany (what : String) (count max : Nat) : String :=
  s!"too many {what} to fit into max message size [count {count}, max {max}]"

def readWitness (total : Nat) : Reading (List Bytes × Nat) := do
  let witCount ← readVarInt
  failIf (witCount > 100) (.error (tooMany "witness items" witCount 100))
  readMany (readScript 1000 "script witness item") List.length witCount total

/-- The witness stacks of the inputs that were read before. -/
def readWitnesses : List TxIn → Nat → Reading (List TxIn × Nat)
  | [], total => pure ([], total)
  | txIn :: txIns, total => do
      let (witness, total) ← readWitness total
      let (txIns, total) ← readWitnesses txIns total
      pure ({ txIn with witness := witness } :: txIns, total)

/-- The witnesses stand there unless the flag is zero. -/
def readWitnessSection (flag : UInt8) (txIn : List TxIn) (total : Nat) :
    Reading (List TxIn × Nat) :=
  if flag ≠ 0 then readWitnesses txIn total else pure (txIn, total)

def maxTxInPerMessage : Nat := 1000

/-- The number of inputs, and the flag byte that stands behind a zero. -/
def readInputCount : Reading (UInt8 × Nat) := do
  let count ← readVarInt
  if count = 0 then
    let flag ← uint8
    failIf (flag ≠ 0x01)
      (.panic s!"witness tx but flag byte is {hexlify [UInt8.ofNat flag]}")
    let count ← readVarInt
    pure (UInt8.ofNat flag, count)
  else pure (0, count)

/-- The message with a buffer for each script, and the sizes of the scripts. -/
def readMessage : Reading (MsgTx × Nat) := do
  let version ← uint32
  let (flag, count) ← readInputCount
  failIf (count > maxTxInPerMessage)
    (.panic (tooMany "input transactions" count maxTxInPerMessage))
  let (txIn, total) ← readMany readTxIn (fun txIn => txIn.signatureScript.length) count 0
  let count ← readVarInt
  failIf (count > 1000) (.error (tooMany "output transactions" count 1000))
  let (txOut, total) ← readMany readTxOut (fun txOut => txOut.pkScript.length) count total
  let (txIn, total) ← readWitnessSection flag txIn total
  let lockTime ← uint32
  pure (⟨Int32.ofNat version, txIn, txOut, UInt32.ofNat lockTime⟩, total)

/-! ### Moving the scripts -/

/-- The bytes `scripts[start:stop]`. -/
structure Location where
  start : Nat
  stop : Nat
deriving DecidableEq

def Location.bytes (scripts : Bytes) (l : Location) : Bytes :=
  (scripts.drop l.start).take (l.stop - l.start)

structure Buffer where
  scripts : Bytes
  offset : Nat
deriving DecidableEq

/-- `copy(dst[offset:], src)`, which writes no further than the end. -/
def copyAt (dst : Bytes) (offset : Nat) (src : Bytes) : Bytes :=
  dst.take offset ++ src.take (dst.length - offset) ++ dst.drop (offset + src.length)

abbrev Placing := StateT Buffer (Except Failure)

def moveScript (script : Bytes) : Placing Location := fun b =>
  let stop := b.offset + script.length
  if b.offset > b.scripts.length then
    .error (.panic "runtime error: slice bounds out of range")
  else
    let scripts := copyAt b.scripts b.offset script
    if stop > scripts.length then .error (.panic "runtime error: slice bounds out of range")
    else .ok (⟨b.offset, stop⟩, ⟨scripts, stop⟩)

structure PlacedTxIn where
  previousOutPoint : OutPoint
  signatureScript : Location
  witness : List Location
  sequence : UInt32
deriving DecidableEq

structure PlacedTxOut where
  value : Int64
  pkScript : Location
deriving DecidableEq

structure PlacedTx where
  version : Int32
  txIn : List PlacedTxIn
  txOut : List PlacedTxOut
  lockTime : UInt32
  scripts : Bytes
deriving DecidableEq

def placeTxIn (txIn : TxIn) : Placing PlacedTxIn := do
  let signatureScript ← moveScript txIn.signatureScript
  let witness ← txIn.witness.mapM moveScript
  pure ⟨txIn.previousOutPoint, signatureScript, witness, txIn.sequence⟩

def placeTxOut (txOut : TxOut) : Placing PlacedTxOut := do
  let pkScript ← moveScript txOut.pkScript
  pure ⟨txOut.value, pkScript⟩

def placeScripts (msg : MsgTx) (totalScriptSize : Nat) : Except Failure PlacedTx := do
  let (txIn, b) ← (msg.txIn.mapM placeTxIn).run ⟨List.replicate totalScriptSize 0, 0⟩
  let (txOut, b) ← (msg.txOut.mapM placeTxOut).run b
  pure ⟨msg.version, txIn, txOut, msg.lockTime, b.scripts⟩

def btcDecode : Reading PlacedTx := do
  let (msg, totalScriptSize) ← readMessage
  liftM (placeScripts msg totalScriptSize)

def deserialize : Reading PlacedTx := btcDecode

/-! ### What the placed message holds -/

def PlacedTxIn.contents (scripts : Bytes) (i : PlacedTxIn) : TxIn :=
  ⟨i.previousOutPoint, i.signatureScript.bytes scripts, i.witness.map (Location.bytes scripts),
    i.sequence⟩

def PlacedTxOut.contents (scripts : Bytes) (out : PlacedTxOut) : TxOut :=
  ⟨out.value, out.pkScript.bytes scripts⟩

def PlacedTx.contents (tx : PlacedTx) : MsgTx :=
  ⟨tx.version, tx.txIn.map (PlacedTxIn.contents tx.scripts),
    tx.txOut.map (PlacedTxOut.contents tx.scripts), tx.lockTime⟩

/-! ### The encodings of a transaction -/

/-- The encoding with or without marker, flag and witness stacks. -/
def encodeWith (segwit : Bool) (tx : MsgTx) : Bytes :=
  littleEndian 4 tx.version.toBitVec.toNat ++
    (if segwit then [0x00, 0x01] else []) ++
    compactSize tx.txIn.length ++ tx.txIn.flatMap encodeTxIn ++
    compactSize tx.txOut.length ++ tx.txOut.flatMap encodeTxOut ++
    (if segwit then tx.txIn.flatMap encodeWitness else []) ++
    littleEndian 4 tx.lockTime.toNat

theorem encodeWith_hasWitness (tx : MsgTx) : encodeWith (hasWitness tx) tx = encodeTx tx := rfl

/-- What the decoder bounds. -/
structure Bounded (tx : MsgTx) : Prop where
  inputs : tx.txIn.length ≤ 1000
  outputs : tx.txOut.length ≤ 1000
  signatureScripts : ∀ txIn ∈ tx.txIn, txIn.signatureScript.length ≤ 10000
  pkScripts : ∀ txOut ∈ tx.txOut, txOut.pkScript.length ≤ 10000
  witnesses : ∀ txIn ∈ tx.txIn,
    txIn.witness.length ≤ 100 ∧ ∀ item ∈ txIn.witness, item.length ≤ 1000

/-- Without the marker there is at least one input, and no witness. -/
def Encodable (segwit : Bool) (tx : MsgTx) : Prop :=
  segwit = false → tx.txIn ≠ [] ∧ ∀ txIn ∈ tx.txIn, txIn.witness = []

/-- The limits of the decoder, and what it needs to tell an encoding without the marker
from one with it. -/
structure WithinLimits (tx : MsgTx) : Prop extends Bounded tx where
  someInput : tx.txIn ≠ []

theorem WithinLimits.encodable {tx : MsgTx} (h : WithinLimits tx) :
    Encodable (hasWitness tx) tx := by
  refine fun hsegwit => ⟨h.someInput, fun txIn hmem => ?_⟩
  have hempty := List.any_eq_false.mp hsegwit txIn hmem
  simpa using hempty

/-! ### Reading an encoded transaction -/

section Reading

theorem reads_readFull (xs : Bytes) : Reads (readFull xs.length) xs xs := by
  intro rest
  have hle : xs.length ≤ (xs ++ rest).length := by simp
  have hrun : (readFull xs.length).run (xs ++ rest) =
      .ok ((xs ++ rest).take xs.length, (xs ++ rest).drop xs.length) := if_pos hle
  rw [hrun, List.take_left, List.drop_left]

theorem reads_uintOfWidth (width : Nat) {n : Nat} (h : n < 256 ^ width) :
    Reads (uintOfWidth width) (littleEndian width n) n := by
  have hread := reads_readFull (littleEndian width n)
  rw [length_littleEndian] at hread
  have hvalue : littleEndianValue (littleEndian width n) = n := by
    rw [littleEndianValue_littleEndian, Nat.mod_eq_of_lt h]
  have huint := hread.bind_pure (f := littleEndianValue)
  rwa [hvalue] at huint

theorem reads_uint8 (b : UInt8) : Reads uint8 [b] b.toNat := by
  have hread := reads_uintOfWidth 1 b.toNat_lt
  have hbyte : littleEndian 1 b.toNat = [b] := by
    simp [littleEndian]
  rwa [hbyte] at hread

theorem reads_readVarIntOfWidth (width : Nat) {n min : Nat} (hmin : min ≤ n)
    (h : n < 256 ^ width) :
    Reads (readVarIntOfWidth (uintOfWidth width) min) (littleEndian width n) n := by
  rw [← List.append_nil (littleEndian width n)]
  refine (reads_uintOfWidth width h).bind ?_
  exact (Reads.failIf (Nat.not_lt.mpr hmin)).skip (Reads.pure n)

theorem reads_readVarInt_cons (discriminant : UInt8) {payload : Bytes} {n : Nat}
    (h : Reads (readVarIntRest discriminant.toNat) payload n) :
    Reads readVarInt (discriminant :: payload) n :=
  (reads_uint8 discriminant).bind h

theorem reads_readVarInt {n : Nat} (h : n < 256 ^ 8) : Reads readVarInt (compactSize n) n := by
  unfold compactSize
  split_ifs with hone htwo hfour
  · have hbyte : (UInt8.ofNat n).toNat = n := by
      simp
      omega
    refine reads_readVarInt_cons (UInt8.ofNat n) ?_
    rw [hbyte, readVarIntRest, if_neg (by omega), if_neg (by omega), if_neg (by omega)]
    exact Reads.pure n
  · exact reads_readVarInt_cons 0xfd (reads_readVarIntOfWidth 2 (by omega) (by omega))
  · exact reads_readVarInt_cons 0xfe (reads_readVarIntOfWidth 4 (by omega) (by omega))
  · exact reads_readVarInt_cons 0xff (reads_readVarIntOfWidth 8 (by omega) (by omega))

theorem reads_readScript {maxAllowed : Nat} (fieldName : String) {script : Bytes}
    (h : script.length ≤ maxAllowed) (hmax : maxAllowed < 256 ^ 8) :
    Reads (readScript maxAllowed fieldName) (varBytes script) script := by
  refine (reads_readVarInt (by omega)).bind ?_
  exact (Reads.failIf (Nat.not_lt.mpr h)).skip (reads_readFull script)

theorem reads_readElementInt64 (n : Int64) :
    Reads readElementInt64 (littleEndian 8 n.toBitVec.toNat) n := by
  have hread := (reads_uintOfWidth 8 n.toBitVec.isLt).bind_pure (f := Int64.ofNat)
  have hvalue : Int64.ofNat n.toBitVec.toNat = n := by
    apply Int64.toBitVec_inj.mp
    simp
  rwa [hvalue] at hread

theorem reads_readElementUint32 (n : UInt32) :
    Reads readElementUint32 (littleEndian 4 n.toNat) n := by
  have hread := (reads_uintOfWidth 4 n.toNat_lt).bind_pure (f := UInt32.ofNat)
  rwa [UInt32.ofNat_toNat] at hread

theorem reads_readHash (hash : ByteArrayOf 32) : Reads readHash hash.val hash := by
  intro rest
  have hlength := hash.property
  have hle : 32 ≤ (hash.val ++ rest).length := by
    rw [List.length_append]
    omega
  have hrun : readHash.run (hash.val ++ rest) =
      .ok (⟨(hash.val ++ rest).take 32, List.length_take_of_le hle⟩, (hash.val ++ rest).drop 32) :=
    dif_pos hle
  rw [hrun, List.drop_left' hlength]
  congr 2
  apply Subtype.ext
  exact List.take_left' hlength

theorem reads_readOutPoint (op : OutPoint) : Reads readOutPoint (encodeOutPoint op) op :=
  (reads_readHash op.hash).bind (reads_readElementUint32 op.index).bind_pure

/-- The inputs as they are read first, without their witnesses. -/
def withoutWitness (txIn : TxIn) : TxIn := { txIn with witness := [] }

theorem reads_readTxIn {txIn : TxIn} (h : txIn.signatureScript.length ≤ 10000) :
    Reads readTxIn (encodeTxIn txIn) (withoutWitness txIn) := by
  rw [encodeTxIn, List.append_assoc]
  refine (reads_readOutPoint txIn.previousOutPoint).bind ?_
  refine (reads_readScript _ h (by decide)).bind ?_
  exact (reads_readElementUint32 txIn.sequence).bind_pure

theorem reads_readTxOut {txOut : TxOut} (h : txOut.pkScript.length ≤ 10000) :
    Reads readTxOut (encodeTxOut txOut) txOut :=
  (reads_readElementInt64 txOut.value).bind (reads_readScript _ h (by decide)).bind_pure

theorem reads_readWitness {txIn : TxIn} (hcount : txIn.witness.length ≤ 100)
    (hitems : ∀ item ∈ txIn.witness, item.length ≤ 1000) (total : Nat) :
    Reads (readWitness total) (encodeWitness txIn)
      (txIn.witness, total + (txIn.witness.map List.length).sum) := by
  refine (reads_readVarInt (by omega)).bind ?_
  refine (Reads.failIf (Nat.not_lt.mpr hcount)).skip ?_
  have hread : ∀ item ∈ txIn.witness,
      Reads (readScript 1000 "script witness item") (varBytes item) item :=
    fun item hitem => reads_readScript _ (hitems item hitem) (by decide)
  exact Reads.many List.length hread total

def witnessSize (txIn : TxIn) : Nat := (txIn.witness.map List.length).sum

theorem reads_readWitnesses {txIns : List TxIn}
    (hcount : ∀ txIn ∈ txIns, txIn.witness.length ≤ 100)
    (hitems : ∀ txIn ∈ txIns, ∀ item ∈ txIn.witness, item.length ≤ 1000) (total : Nat) :
    Reads (readWitnesses (txIns.map withoutWitness) total) (txIns.flatMap encodeWitness)
      (txIns, total + (txIns.map witnessSize).sum) := by
  induction txIns generalizing total with
  | nil => exact Reads.pure _
  | cons txIn txIns ih =>
      rw [List.forall_mem_cons] at hcount hitems
      have hfirst := reads_readWitness hcount.1 hitems.1 total
      have hrest := ih hcount.2 hitems.2 (total + witnessSize txIn)
      rw [List.map_cons, List.map_cons, List.sum_cons, ← Nat.add_assoc]
      exact hfirst.bind hrest.bind_pure

theorem reads_readInputCount {segwit : Bool} {n : Nat} (hsome : segwit = false → 0 < n)
    (h : n < 256 ^ 8) :
    Reads readInputCount ((if segwit then [0x00, 0x01] else []) ++ compactSize n)
      (if segwit then 1 else 0, n) := by
  cases segwit with
  | false =>
      refine (reads_readVarInt h).last ?_
      rw [if_neg (Nat.ne_of_gt (hsome rfl))]
      exact Reads.pure _
  | true =>
      have hzero : Reads readVarInt [0x00] 0 := reads_readVarInt_cons 0x00 (Reads.pure 0)
      have hbytes : ([0x00, 0x01] : Bytes) ++ compactSize n =
          [0x00] ++ ([0x01] ++ compactSize n) := by
        simp only [List.cons_append, List.nil_append]
      simp only [if_true, hbytes]
      refine hzero.bind ?_
      rw [if_pos rfl]
      refine (reads_uint8 0x01).bind ?_
      exact (Reads.failIf (by decide)).skip (reads_readVarInt h).bind_pure

theorem reads_readTxIns {txIns : List TxIn}
    (h : ∀ txIn ∈ txIns, txIn.signatureScript.length ≤ 10000) (total : Nat) :
    Reads (readMany readTxIn (fun txIn => txIn.signatureScript.length) txIns.length total)
      (txIns.flatMap encodeTxIn)
      (txIns.map withoutWitness,
        total + (txIns.map fun txIn => txIn.signatureScript.length).sum) := by
  have hread : ∀ txIn ∈ txIns.map withoutWitness, Reads readTxIn (encodeTxIn txIn) txIn := by
    intro txIn hmem
    obtain ⟨full, hfull, rfl⟩ := List.mem_map.mp hmem
    exact reads_readTxIn (h full hfull)
  have hmany := Reads.many (fun txIn : TxIn => txIn.signatureScript.length) hread total
  rw [List.length_map, List.flatMap_map, List.map_map] at hmany
  exact hmany

def scriptSize (tx : MsgTx) : Nat :=
  (tx.txIn.map fun txIn => txIn.signatureScript.length).sum +
    (tx.txOut.map fun txOut => txOut.pkScript.length).sum + (tx.txIn.map witnessSize).sum

theorem map_withoutWitness {txIns : List TxIn} (h : ∀ txIn ∈ txIns, txIn.witness = []) :
    txIns.map withoutWitness = txIns := by
  refine (List.map_congr_left fun txIn hmem => ?_).trans (List.map_id txIns)
  rw [withoutWitness, ← h txIn hmem]
  rfl

theorem sum_witnessSize {txIns : List TxIn} (h : ∀ txIn ∈ txIns, txIn.witness = []) :
    (txIns.map witnessSize).sum = 0 := by
  refine List.sum_eq_zero fun size hsize => ?_
  obtain ⟨txIn, hmem, rfl⟩ := List.mem_map.mp hsize
  rw [witnessSize, h txIn hmem]
  rfl

theorem reads_readWitnessSection {segwit : Bool} {txIns : List TxIn}
    (hnone : segwit = false → ∀ txIn ∈ txIns, txIn.witness = [])
    (hitems : ∀ txIn ∈ txIns,
      txIn.witness.length ≤ 100 ∧ ∀ item ∈ txIn.witness, item.length ≤ 1000) (total : Nat) :
    Reads (readWitnessSection (if segwit then 1 else 0) (txIns.map withoutWitness) total)
      (if segwit then txIns.flatMap encodeWitness else [])
      (txIns, total + (txIns.map witnessSize).sum) := by
  cases segwit with
  | true =>
      exact reads_readWitnesses (fun txIn hmem => (hitems txIn hmem).1)
        (fun txIn hmem => (hitems txIn hmem).2) total
  | false =>
      rw [map_withoutWitness (hnone rfl), sum_witnessSize (hnone rfl)]
      exact Reads.pure _

theorem reads_readMessage {segwit : Bool} {tx : MsgTx} (h : Bounded tx)
    (hsegwit : Encodable segwit tx) :
    Reads readMessage (encodeWith segwit tx) (tx, scriptSize tx) := by
  have hinputs := h.inputs
  have houtputs := h.outputs
  have hversion : Int32.ofNat tx.version.toBitVec.toNat = tx.version := by
    apply Int32.toBitVec_inj.mp
    simp
  rw [encodeWith]
  simp only [List.append_assoc]
  refine (reads_uintOfWidth 4 tx.version.toBitVec.isLt).bind ?_
  rw [← List.append_assoc]
  refine (reads_readInputCount (fun hfalse => List.length_pos_iff.mpr (hsegwit hfalse).1)
    (by omega)).bind ?_
  refine (Reads.failIf (Nat.not_lt.mpr hinputs)).skip ?_
  refine (reads_readTxIns h.signatureScripts 0).bind ?_
  refine (reads_readVarInt (by omega)).bind ?_
  refine (Reads.failIf (Nat.not_lt.mpr houtputs)).skip ?_
  refine (Reads.many (fun txOut : TxOut => txOut.pkScript.length)
    (fun txOut hmem => reads_readTxOut (h.pkScripts txOut hmem)) _).bind ?_
  refine (reads_readWitnessSection (fun hfalse => (hsegwit hfalse).2) h.witnesses _).bind ?_
  refine (reads_uintOfWidth 4 tx.lockTime.toNat_lt).last ?_
  rw [hversion, UInt32.ofNat_toNat, Nat.zero_add]
  exact Reads.pure _

end Reading


/-! ### Placing the scripts -/

section Placing

/-- The scripts moved so far stand in front of what is still zero. -/
structure Filled (b : Buffer) (filled : Bytes) (n : Nat) : Prop where
  scripts : b.scripts = filled ++ List.replicate n 0
  offset : b.offset = filled.length

theorem copyAt_filled (filled script : Bytes) (n : Nat) :
    copyAt (filled ++ List.replicate (script.length + n) 0) filled.length script =
      filled ++ script ++ List.replicate n 0 := by
  have hroom : script.length ≤
      (filled ++ List.replicate (script.length + n) (0 : UInt8)).length - filled.length := by
    rw [List.length_append, List.length_replicate]
    omega
  rw [copyAt, List.take_left, List.take_of_length_le hroom, List.drop_length_add_append,
    List.drop_replicate, Nat.add_sub_cancel_left]

theorem bytes_filled (filled script rest : Bytes) :
    Location.bytes (filled ++ script ++ rest) ⟨filled.length, filled.length + script.length⟩ =
      script := by
  rw [Location.bytes, List.append_assoc, List.drop_left, Nat.add_sub_cancel_left, List.take_left]

variable {α β γ α' β' γ' : Type} {p : Placing α} {q : Placing β} {xs ys : Bytes}
  {resolve : Bytes → α → α'} {resolve' : Bytes → β → β'} {a' : α'} {b' : β'}

/-- An action that moves the bytes `xs`, and whose result is resolved to `a'` in
every buffer that begins with what has been filled. -/
def Places (p : Placing α) (xs : Bytes) (resolve : Bytes → α → α') (a' : α') : Prop :=
  ∀ buffer filled n, Filled buffer filled (xs.length + n) →
    ∃ a buffer', p.run buffer = .ok (a, buffer') ∧ Filled buffer' (filled ++ xs) n ∧
      ∀ rest, resolve (filled ++ xs ++ rest) a = a'

theorem places_moveScript (script : Bytes) :
    Places (moveScript script) script Location.bytes script := by
  intro buffer filled n h
  obtain ⟨scripts, offset⟩ := buffer
  obtain ⟨rfl, rfl⟩ := h
  refine ⟨_, ⟨filled ++ script ++ List.replicate n 0, (filled ++ script).length⟩, ?_,
    ⟨rfl, rfl⟩, bytes_filled filled script⟩
  have hstart : ¬ filled.length >
      (filled ++ List.replicate (script.length + n) (0 : UInt8)).length := by
    rw [List.length_append]
    omega
  have hstop : ¬ filled.length + script.length >
      (filled ++ script ++ List.replicate n (0 : UInt8)).length := by
    simp
  have hrun : (moveScript script).run
      ⟨filled ++ List.replicate (script.length + n) 0, filled.length⟩ = _ := if_neg hstart
  rw [hrun, copyAt_filled, if_neg hstop, List.length_append]

theorem Places.pure {a : α} (h : ∀ scripts, resolve scripts a = a') :
    Places (Pure.pure a) [] resolve a' := by
  intro buffer filled n hfilled
  rw [List.length_nil, Nat.zero_add] at hfilled
  refine ⟨a, buffer, rfl, ?_, fun rest => h _⟩
  rwa [List.append_nil]

theorem Places.map {f : α → γ} {resolveMap : Bytes → γ → γ'} {g : α' → γ'}
    (hp : Places p xs resolve a')
    (hf : ∀ scripts a, resolveMap scripts (f a) = g (resolve scripts a)) :
    Places (do let a ← p; Pure.pure (f a)) xs resolveMap (g a') := by
  intro buffer filled n hfilled
  obtain ⟨a, buffer', hrun, hfilled', hresolve⟩ := hp buffer filled n hfilled
  refine ⟨f a, buffer', ?_, hfilled', fun rest => ?_⟩
  · rw [StateT.run_bind, hrun]
    rfl
  · rw [hf, hresolve rest]

/-- What an earlier action placed is still there after a later one. -/
theorem Places.seq {f : α → β → γ} {resolvePair : Bytes → γ → γ'} {g : α' → β' → γ'}
    (hp : Places p xs resolve a') (hq : Places q ys resolve' b')
    (hf : ∀ scripts a b,
      resolvePair scripts (f a b) = g (resolve scripts a) (resolve' scripts b)) :
    Places (do let a ← p; let b ← q; Pure.pure (f a b)) (xs ++ ys) resolvePair (g a' b') := by
  intro buffer filled n hfilled
  rw [List.length_append, Nat.add_assoc] at hfilled
  obtain ⟨a, buffer₁, hrun₁, hfilled₁, hfirst⟩ := hp buffer filled (ys.length + n) hfilled
  obtain ⟨b, buffer₂, hrun₂, hfilled₂, hsecond⟩ := hq buffer₁ (filled ++ xs) n hfilled₁
  refine ⟨f a b, buffer₂, ?_, ?_, fun rest => ?_⟩
  · rw [StateT.run_bind, hrun₁]
    change StateT.run (do let b ← q; Pure.pure (f a b)) buffer₁ = _
    rw [StateT.run_bind, hrun₂]
    rfl
  · rwa [← List.append_assoc]
  · rw [hf, ← List.append_assoc, hsecond rest, List.append_assoc, hfirst (ys ++ rest)]

theorem Places.mapM {p : β → Placing α} (moved : β → Bytes) (value : β → α') {bs : List β}
    (h : ∀ b ∈ bs, Places (p b) (moved b) resolve (value b)) :
    Places (bs.mapM p) (bs.flatMap moved) (fun scripts as => as.map (resolve scripts))
      (bs.map value) := by
  induction bs with
  | nil => exact Places.pure fun _ => rfl
  | cons b bs ih =>
      rw [List.forall_mem_cons] at h
      rw [List.mapM_cons, List.flatMap_cons, List.map_cons]
      exact h.1.seq (ih h.2) fun _ _ _ => rfl

/-- The scripts of an input in the order in which they are moved. -/
def movedTxIn (txIn : TxIn) : Bytes := txIn.signatureScript ++ txIn.witness.flatMap id

theorem length_movedTxIn (txIn : TxIn) :
    (movedTxIn txIn).length = txIn.signatureScript.length + witnessSize txIn := by
  rw [movedTxIn, List.length_append, List.length_flatMap]
  rfl

theorem places_placeTxIn (txIn : TxIn) :
    Places (placeTxIn txIn) (movedTxIn txIn) PlacedTxIn.contents txIn := by
  have hwitness := Places.mapM id id fun item (_ : item ∈ txIn.witness) => places_moveScript item
  rw [List.map_id] at hwitness
  exact Places.seq
    (f := fun script witness => PlacedTxIn.mk txIn.previousOutPoint script witness txIn.sequence)
    (g := fun script witness => TxIn.mk txIn.previousOutPoint script witness txIn.sequence)
    (places_moveScript txIn.signatureScript) hwitness fun _ _ _ => rfl

theorem places_placeTxOut (txOut : TxOut) :
    Places (placeTxOut txOut) txOut.pkScript PlacedTxOut.contents txOut :=
  Places.map (f := PlacedTxOut.mk txOut.value) (g := TxOut.mk txOut.value)
    (places_moveScript txOut.pkScript) fun _ _ => rfl

theorem scriptSize_eq (tx : MsgTx) :
    scriptSize tx =
      (tx.txIn.flatMap movedTxIn).length + (tx.txOut.flatMap TxOut.pkScript).length := by
  have hinputs : (tx.txIn.flatMap movedTxIn).length =
      (tx.txIn.map fun txIn => txIn.signatureScript.length).sum +
        (tx.txIn.map witnessSize).sum := by
    rw [List.length_flatMap, ← List.sum_map_add]
    simp only [length_movedTxIn]
  rw [hinputs, List.length_flatMap, scriptSize]
  omega

/-- Every script of the placed message is its own one. -/
theorem placeScripts_contents (tx : MsgTx) :
    ∃ placed, placeScripts tx (scriptSize tx) = .ok placed ∧ placed.contents = tx := by
  have htxIn := Places.mapM movedTxIn id fun txIn (_ : txIn ∈ tx.txIn) => places_placeTxIn txIn
  have htxOut := Places.mapM TxOut.pkScript id
    fun txOut (_ : txOut ∈ tx.txOut) => places_placeTxOut txOut
  rw [List.map_id] at htxIn htxOut
  have hempty : Filled ⟨List.replicate (scriptSize tx) 0, 0⟩ []
      ((tx.txIn.flatMap movedTxIn).length + (tx.txOut.flatMap TxOut.pkScript).length) :=
    ⟨by rw [scriptSize_eq, List.nil_append], rfl⟩
  obtain ⟨placedIn, buffer₁, hrun₁, hfilled₁, hin⟩ := htxIn _ _ _ hempty
  obtain ⟨placedOut, buffer₂, hrun₂, hfilled₂, hout⟩ := htxOut buffer₁ _ 0 hfilled₁
  refine ⟨⟨tx.version, placedIn, placedOut, tx.lockTime, buffer₂.scripts⟩, ?_, ?_⟩
  · simp only [placeScripts, hrun₁, hrun₂, bind, Except.bind, pure, Except.pure]
  · have hscripts : buffer₂.scripts =
        tx.txIn.flatMap movedTxIn ++ tx.txOut.flatMap TxOut.pkScript := by
      rw [hfilled₂.scripts, List.replicate_zero, List.append_nil, List.nil_append]
    have hplacedIn : placedIn.map (PlacedTxIn.contents buffer₂.scripts) = tx.txIn := by
      rw [hscripts]
      exact hin (tx.txOut.flatMap TxOut.pkScript)
    have hplacedOut : placedOut.map (PlacedTxOut.contents buffer₂.scripts) = tx.txOut := by
      rw [hscripts, ← List.append_nil (_ ++ _)]
      exact hout []
    simp only [PlacedTx.contents, hplacedIn, hplacedOut]

end Placing

theorem reads_deserialize {tx : MsgTx} (h : WithinLimits tx) :
    ∃ placed, Reads deserialize (encodeTx tx) placed ∧ placed.contents = tx := by
  obtain ⟨placed, hplaced, hcontents⟩ := placeScripts_contents tx
  have hlift : Reads (liftM (placeScripts tx (scriptSize tx)) : Reading PlacedTx) [] placed := by
    rw [hplaced]
    exact fun rest => rfl
  have hmessage := reads_readMessage h.toBounded h.encodable
  rw [encodeWith_hasWitness] at hmessage
  exact ⟨placed, hmessage.last hlift, hcontents⟩

/-- Within its limits the decoder consumes the encoding of a transaction exactly,
and the message that it leaves in the buffer is that transaction. -/
theorem deserialize_encodeTx {tx : MsgTx} (h : WithinLimits tx) (trailing : Bytes) :
    ∃ placed, deserialize.run (encodeTx tx ++ trailing) = .ok (placed, trailing) ∧
      placed.contents = tx := by
  obtain ⟨placed, hreads, hcontents⟩ := reads_deserialize h
  exact ⟨placed, hreads trailing, hcontents⟩

def twoInputs : MsgTx where
  version := 2
  txIn := [
    ⟨⟨⟨List.replicate 32 0x11, rfl⟩, 7⟩, [0x51], [[0x01, 0x02], []], 0xffffffff⟩,
    ⟨⟨⟨List.replicate 32 0x22, rfl⟩, 0⟩, [], [], 0⟩]
  txOut := [⟨5000, [0x00, 0x14]⟩]
  lockTime := 500000

theorem deserialize_twoInputs :
    ∃ placed, deserialize.run (encodeTx twoInputs ++ [0xaa]) = .ok (placed, [0xaa]) ∧
      placed.contents = twoInputs := by
  refine deserialize_encodeTx ⟨⟨?_, ?_, ?_, ?_, ?_⟩, ?_⟩ [0xaa]
  all_goals decide

/-! ### The decoder in the reading of a request -/

def parseTransaction (raw : Bytes) : Option MsgTx :=
  match deserialize.run raw with
  | .ok (placed, _) => some placed.contents
  | .error _ => none

theorem parseTransaction_encodeTx {tx : MsgTx} (h : WithinLimits tx) :
    parseTransaction (encodeTx tx) = some tx := by
  obtain ⟨placed, hreads, hcontents⟩ := reads_deserialize h
  have hrun := hreads []
  rw [List.append_nil] at hrun
  rw [parseTransaction, hrun]
  exact congrArg some hcontents

example : encodeTx SignerAgreement.recordedTx = SignerAgreement.recordedTransaction := by
  decide +kernel

example :
    parseTransaction SignerAgreement.recordedTransaction = some SignerAgreement.recordedTx := by
  decide +kernel

/-- A request without the remote key gives the signer the transaction that the
proxy encoded, and the descriptor that the wallet reads. -/
theorem decodeRequest_encodeTx {btcec : Btcec} {parsePubKey : Bytes → Option (ByteArrayOf 33)}
    {tx : MsgTx} {message : Bytes} {s : SignDescriptor} {key : ByteArrayOf 33}
    (h : WithinLimits tx) (hmessage : serializetx btcec (some (encodeTx tx)) s key = some message)
    (htx : (encodeTx tx).length = 125) (hbody : s.body.length < 65536)
    (hparse : ∀ key ∈ s.pubKey, parsePubKey key.val = some key)
    (hkey : ∀ key ∈ s.pubKey, SignerDecoding.pubkeyVal key.val ≠ 0) :
    ∃ request signdesc, message = request ++ key.val ∧
      decodeRequest btcec parseTransaction parsePubKey request =
          some (tx, SignerDecoding.received s.pubKey s) ∧
        SigndescDecoding.decodeRequest message = some (encodeTx tx, signdesc, key.val) ∧
          Same (SignerDecoding.received s.pubKey s) signdesc :=
  same_without_key hmessage htx hbody (parseTransaction_encodeTx h) hparse hkey

end ElectrumLightning.TransactionDecoding
