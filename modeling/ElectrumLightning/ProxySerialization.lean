import ElectrumLightning.ByteStrings

/-!
The messages that the proxy sends to the signer. Lengths are written as
signed 16-bit integers through a buffered writer, which is flushed before the
fields themselves are written to the buffer.
-/

namespace ElectrumLightning.ProxySerialization

open ElectrumLightning.ByteStrings

abbrev ByteArrayOf (length : Nat) := { bs : Bytes // bs.length = length }

abbrev Slice := Option Bytes

def Slice.bytes (s : Slice) : Bytes := s.getD []

structure PrivateKey where
  d : Nat
deriving DecidableEq

/-- The scalar, padded with zeros to 32 bytes where it is shorter. -/
def PrivateKey.padded (k : PrivateKey) : Bytes :=
  List.replicate (32 - byteLength k.d) 0 ++ minimalBigEndian k.d

/-- What `btcec` does with a private key, as it is documented: it writes the scalar
padded to 32 bytes, and reads a scalar from bytes of any length. -/
structure Btcec where
  serialize : PrivateKey → Bytes
  privKeyFromBytes : Bytes → PrivateKey
  serialize_eq : ∀ k, serialize k = k.padded
  privKeyFromBytes_d : ∀ pk, (privKeyFromBytes pk).d = bigEndianValue pk

def simpleBtcec : Btcec where
  serialize := PrivateKey.padded
  privKeyFromBytes := fun pk => ⟨bigEndianValue pk⟩
  serialize_eq := fun _ => rfl
  privKeyFromBytes_d := fun _ => rfl

structure TxOut where
  value : Int64
  pkScript : Bytes
deriving DecidableEq

structure TxSigHashes where
  hashPrevOuts : ByteArrayOf 32
  hashSequence : ByteArrayOf 32
  hashOutputs : ByteArrayOf 32
deriving DecidableEq

/-- What is needed to sign an output. A public key is its compressed
serialization. -/
structure SignDescriptor where
  pubKey : Option (ByteArrayOf 33)
  singleTweak : Slice
  doubleTweak : Option PrivateKey
  witnessScript : Slice
  output : TxOut
  hashType : UInt32
  sigHashes : TxSigHashes
  inputIndex : Int64
deriving DecidableEq

structure Buffers where
  buf : Bytes
  pending : Bytes

namespace Buffers

def empty : Buffers := ⟨[], []⟩

/-- `buf.Write`, past the writer. -/
def write (b : Buffers) (bs : Bytes) : Buffers := { b with buf := b.buf ++ bs }

/-- `binary.Write` to the writer. -/
def binaryWrite (b : Buffers) (bs : Bytes) : Buffers := { b with pending := b.pending ++ bs }

def flush (b : Buffers) : Buffers := ⟨b.buf ++ b.pending, []⟩

end Buffers

/-- The bytes of `int16(n)`, which wraps around. -/
def int16 (n : Nat) : Bytes := bigEndian 2 (Int16.ofNat n).toBitVec.toNat

def int64 (n : Int64) : Bytes := bigEndian 8 n.toBitVec.toNat

def uint32 (n : UInt32) : Bytes := bigEndian 4 n.toNat

def writePubKey (b : Buffers) : Option (ByteArrayOf 33) → Buffers
  | some key => b.write key.val
  | none => b.write (List.replicate 33 0)

section Writing

variable (btcec : Btcec)

def writeDoubleTweak (b : Buffers) : Option PrivateKey → Option Buffers
  | some key =>
      let bajts := btcec.serialize key
      -- panic("weird length")
      if bajts.length ≠ 32 then none else some (b.write bajts)
  | none => some (b.write (List.replicate 32 0))

/-- `serialize`; the result is `none` where it panics. -/
def serialize (s : SignDescriptor) : Option Bytes := do
  let b := writePubKey .empty s.pubKey
  let b := (b.binaryWrite (int16 s.singleTweak.bytes.length)).flush
  let b := b.write s.singleTweak.bytes
  let b ← writeDoubleTweak btcec b s.doubleTweak
  let b := (b.binaryWrite (int16 s.witnessScript.bytes.length)).flush
  let b := b.write s.witnessScript.bytes
  let b := (b.binaryWrite (int64 s.output.value)).flush
  let b := (b.binaryWrite (int16 s.output.pkScript.length)).flush
  let b := b.write s.output.pkScript
  let b := (b.binaryWrite (uint32 s.hashType)).flush
  let b := b.write s.sigHashes.hashPrevOuts.val
  let b := b.write s.sigHashes.hashSequence.val
  let b := b.write s.sigHashes.hashOutputs.val
  let b := (b.binaryWrite (int64 s.inputIndex)).flush
  let bajts := b.buf
  let lenbuf := (Buffers.empty.binaryWrite (int16 bajts.length)).flush
  some (lenbuf.buf ++ bajts)

/-- `serializetx`, with the result of `tx.Serialize` and the compressed node
key. -/
def serializetx (tx : Option Bytes) (signDesc : SignDescriptor) (key : ByteArrayOf 33) :
    Option Bytes := do
  let bajts ← tx
  let lenbuf := (Buffers.empty.binaryWrite (int16 bajts.length)).flush
  let part3 ← serialize btcec signDesc
  some (lenbuf.buf ++ bajts ++ part3 ++ key.val)

end Writing

/-! ### The layout of a message -/

@[simp] theorem length_int16 (n : Nat) : (int16 n).length = 2 := length_bigEndian ..

@[simp] theorem length_int64 (n : Int64) : (int64 n).length = 8 := length_bigEndian ..

@[simp] theorem length_uint32 (n : UInt32) : (uint32 n).length = 4 := length_bigEndian ..

/-- A length below 2¹⁶ stands there as an unsigned number, whatever its sign
as an `int16`. -/
theorem int16_of_lt {n : Nat} (h : n < 65536) : int16 n = bigEndian 2 n := by
  have hwrap : (Int16.ofNat n).toBitVec.toNat = n := Nat.mod_eq_of_lt h
  rw [int16, hwrap]

theorem bigEndianValue_int16 {n : Nat} (h : n < 65536) : bigEndianValue (int16 n) = n := by
  rw [int16_of_lt h]
  exact bigEndianValue_bigEndian_of_lt h

theorem bigEndianValue_int64 (n : Int64) : bigEndianValue (int64 n) = n.toBitVec.toNat :=
  bigEndianValue_bigEndian_of_lt n.toBitVec.isLt

theorem toNat_toBitVec_int64 {n : Int64} (h : 0 ≤ n.toInt) :
    n.toBitVec.toNat = n.toInt.toNat := by
  have htoInt := BitVec.toInt_eq_toNat_cond n.toBitVec
  rw [Int64.toInt_toBitVec] at htoInt
  split at htoInt <;> omega

theorem padded_of_lt {k : PrivateKey} (h : k.d < 256 ^ 32) : k.padded = bigEndian 32 k.d :=
  zeros_append_minimalBigEndian h

theorem length_padded (k : PrivateKey) : k.padded.length = 32 ↔ k.d < 256 ^ 32 := by
  constructor
  · intro hlength
    have hle : byteLength k.d ≤ 32 := by
      simp only [PrivateKey.padded, minimalBigEndian, List.length_append,
        List.length_replicate, length_bigEndian] at hlength
      omega
    exact (lt_pow_byteLength k.d).trans_le (Nat.pow_le_pow_right (by omega) hle)
  · intro hlt
    rw [padded_of_lt hlt, length_bigEndian]

def SignDescriptor.pubKeyBytes (s : SignDescriptor) : Bytes :=
  match s.pubKey with
  | some key => key.val
  | none => List.replicate 33 0

def SignDescriptor.doubleTweakBytes (s : SignDescriptor) : Bytes :=
  match s.doubleTweak with
  | some key => key.padded
  | none => List.replicate 32 0

@[simp] theorem length_pubKeyBytes (s : SignDescriptor) : s.pubKeyBytes.length = 33 := by
  unfold SignDescriptor.pubKeyBytes
  split
  · rename_i key _
    exact key.property
  · exact List.length_replicate

theorem length_doubleTweakBytes {s : SignDescriptor} (h : ∀ k ∈ s.doubleTweak, k.d < 256 ^ 32) :
    s.doubleTweakBytes.length = 32 := by
  unfold SignDescriptor.doubleTweakBytes
  split
  · rename_i key hkey
    exact (length_padded key).mpr (h key hkey)
  · exact List.length_replicate

def SignDescriptor.front (s : SignDescriptor) : Bytes :=
  s.pubKeyBytes ++ (int16 s.singleTweak.bytes.length ++ (s.singleTweak.bytes ++
    (s.doubleTweakBytes ++ (int16 s.witnessScript.bytes.length ++ (s.witnessScript.bytes ++
      (int64 s.output.value ++ (int16 s.output.pkScript.length ++ s.output.pkScript)))))))

/-- The five fields of fixed length at the end. -/
def SignDescriptor.back (s : SignDescriptor) : Bytes :=
  uint32 s.hashType ++ s.sigHashes.hashPrevOuts.val ++ s.sigHashes.hashSequence.val ++
    s.sigHashes.hashOutputs.val ++ int64 s.inputIndex

def SignDescriptor.body (s : SignDescriptor) : Bytes := s.front ++ s.back

theorem writePubKey_eq (b : Buffers) (s : SignDescriptor) :
    writePubKey b s.pubKey = b.write s.pubKeyBytes := by
  unfold SignDescriptor.pubKeyBytes
  cases s.pubKey <;> rfl

section Layout

variable {btcec : Btcec}

theorem writeDoubleTweak_eq (b : Buffers) {s : SignDescriptor}
    (h : ∀ k ∈ s.doubleTweak, k.d < 256 ^ 32) :
    writeDoubleTweak btcec b s.doubleTweak = some (b.write s.doubleTweakBytes) := by
  unfold SignDescriptor.doubleTweakBytes
  cases htweak : s.doubleTweak with
  | none => rfl
  | some key =>
      have hlength := (length_padded key).mpr (h key htweak)
      simp [writeDoubleTweak, btcec.serialize_eq, hlength]

theorem serialize_eq {s : SignDescriptor} (h : ∀ k ∈ s.doubleTweak, k.d < 256 ^ 32) :
    serialize btcec s = some (int16 s.body.length ++ s.body) := by
  simp [serialize, writePubKey_eq, writeDoubleTweak_eq _ h, Buffers.write, Buffers.binaryWrite,
    Buffers.flush, Buffers.empty, SignDescriptor.body, SignDescriptor.front, SignDescriptor.back,
    Nat.add_assoc]

theorem serialize_eq_none {s : SignDescriptor} {k : PrivateKey} (hk : s.doubleTweak = some k)
    (h : 256 ^ 32 ≤ k.d) : serialize btcec s = none := by
  have hlength : k.padded.length ≠ 32 := fun hlength =>
    Nat.not_lt.mpr h ((length_padded k).mp hlength)
  simp [serialize, hk, writeDoubleTweak, btcec.serialize_eq, hlength]

theorem doubleTweak_lt_of_serialize {s : SignDescriptor} {bs : Bytes}
    (h : serialize btcec s = some bs) : ∀ k ∈ s.doubleTweak, k.d < 256 ^ 32 := by
  intro k hk
  by_contra hlarge
  rw [serialize_eq_none hk (Nat.le_of_not_lt hlarge)] at h
  contradiction

theorem serializetx_of_lt (btcec : Btcec) {s : SignDescriptor}
    (hdouble : ∀ k ∈ s.doubleTweak, k.d < 256 ^ 32) (tx : Bytes) (key : ByteArrayOf 33) :
    serializetx btcec (some tx) s key =
      some (int16 tx.length ++ (tx ++ (int16 s.body.length ++ (s.body ++ key.val)))) := by
  simp [serializetx, serialize_eq hdouble, Buffers.binaryWrite, Buffers.flush, Buffers.empty]

/-- What is sent when nothing panics. -/
theorem serializetx_eq_some {tx message : Bytes} {s : SignDescriptor} {key : ByteArrayOf 33}
    (h : serializetx btcec (some tx) s key = some message) :
    (∀ k ∈ s.doubleTweak, k.d < 256 ^ 32) ∧
      message = int16 tx.length ++ (tx ++ (int16 s.body.length ++ (s.body ++ key.val))) := by
  cases hserialize : serialize btcec s with
  | none => simp [serializetx, hserialize] at h
  | some part3 =>
      have hdouble := doubleTweak_lt_of_serialize hserialize
      rw [serializetx_of_lt btcec hdouble, Option.some_inj] at h
      exact ⟨hdouble, h.symm⟩

end Layout

theorem length_body {s : SignDescriptor} (h : ∀ k ∈ s.doubleTweak, k.d < 256 ^ 32) :
    s.body.length = 187 + (s.singleTweak.bytes.length + s.witnessScript.bytes.length +
      s.output.pkScript.length) := by
  simp only [SignDescriptor.body, SignDescriptor.front, SignDescriptor.back, List.length_append,
    length_pubKeyBytes, length_doubleTweakBytes h, length_int16, length_int64, length_uint32,
    s.sigHashes.hashPrevOuts.property, s.sigHashes.hashSequence.property,
    s.sigHashes.hashOutputs.property]
  omega

end ElectrumLightning.ProxySerialization
