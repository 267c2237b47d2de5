import ElectrumLightning.ProxySerialization

/-!
How the Go signer reads a descriptor, and how it derives the key that signs.
A slice of the message is never nil, even when it is empty.
-/

namespace ElectrumLightning.SignerDecoding

open ElectrumLightning.ByteStrings
open ElectrumLightning.ProxySerialization

/-- `x := s[:n]; s = s[n:]`, which panics when the slice is too short. -/
def cut (n : Nat) (s : Bytes) : Option (Bytes × Bytes) :=
  if n ≤ s.length then some (s.take n, s.drop n) else none

def arrayOf (n : Nat) (s : Bytes) : Option (ByteArrayOf n) :=
  if h : s.length = n then some ⟨s, h⟩ else none

def pubkeyVal (pubkey : Bytes) : Nat :=
  (List.range 4).foldl (fun val i => val ||| bigEndianValue (((pubkey.drop 1).drop (8 * i)).take 8))
    (bigEndianValue (pubkey.take 1))

def panicIf (c : Prop) [Decidable c] : Option Unit := if c then none else some ()

/-- Zeros stand for a nil key, and a key that cannot be parsed is a panic. -/
def pubkeyObj (parsePubKey : Bytes → Option (ByteArrayOf 33)) (pubkey : Bytes) :
    Option (Option (ByteArrayOf 33)) :=
  if pubkeyVal pubkey = 0 then some none else (parsePubKey pubkey).map some

/-- The reading of a descriptor; the result is `none` where it panics.
`parsePubKey` gives a key as its compressed serialization. -/
def decode (btcec : Btcec) (parsePubKey : Bytes → Option (ByteArrayOf 33)) (signdesc : Bytes) :
    Option SignDescriptor := do
  let (leng, signdesc) ← cut 2 signdesc
  panicIf (bigEndianValue leng ≠ signdesc.length)
  let (pubkey, signdesc) ← cut 33 signdesc
  let (singletweaklen, signdesc) ← cut 2 signdesc
  let (singletweak, signdesc) ← cut (bigEndianValue singletweaklen) signdesc
  let (doubletweak, signdesc) ← cut 32 signdesc
  let (witnessscriptlen, signdesc) ← cut 2 signdesc
  let (witnessscript, signdesc) ← cut (bigEndianValue witnessscriptlen) signdesc
  let (outputvalue, signdesc) ← cut 8 signdesc
  let (outputpkscriptlen, signdesc) ← cut 2 signdesc
  let (outputpkscript, signdesc) ← cut (bigEndianValue outputpkscriptlen) signdesc
  let (hashtype, signdesc) ← cut 4 signdesc
  let (hashprevouts, signdesc) ← cut 32 signdesc
  let (hashsequence, signdesc) ← cut 32 signdesc
  let (hashoutputs, signdesc) ← cut 32 signdesc
  let (inputindex, signdesc) ← cut 8 signdesc
  let pubkeyobj ← pubkeyObj parsePubKey pubkey
  panicIf (signdesc.length ≠ 0)
  let h1 ← arrayOf 32 hashprevouts
  let h2 ← arrayOf 32 hashoutputs
  let h3 ← arrayOf 32 hashsequence
  some {
    pubKey := pubkeyobj
    singleTweak := some singletweak
    doubleTweak := some (btcec.privKeyFromBytes doubletweak)
    witnessScript := some witnessscript
    output := ⟨Int64.ofNat (bigEndianValue outputvalue), outputpkscript⟩
    hashType := UInt32.ofNat (bigEndianValue hashtype)
    sigHashes := { hashPrevOuts := h1, hashOutputs := h2, hashSequence := h3 }
    inputIndex := Int64.ofNat (bigEndianValue inputindex) }

def order : Nat := 0xfffffffffffffffffffffffffffffffebaaedce6af48a03bbfd25e8cd0364141

/-- What the signer uses of the curve and of the hash package: the compressed
public key of a scalar, and SHA-256. -/
structure Crypto extends Btcec where
  pubKey : PrivateKey → Bytes
  sha256 : Bytes → Bytes

variable (crypto : Crypto)

def tweakPrivKey (basePriv : PrivateKey) (commitTweak : Bytes) : PrivateKey :=
  crypto.privKeyFromBytes (minimalBigEndian ((bigEndianValue commitTweak + basePriv.d) % order))

def singleTweakBytes (commitPoint basePoint : Bytes) : Bytes :=
  crypto.sha256 (commitPoint ++ basePoint)

def revokeTweakInt (revokeBasePriv commitSecret : PrivateKey) : Nat :=
  bigEndianValue
    (singleTweakBytes crypto (crypto.pubKey revokeBasePriv) (crypto.pubKey commitSecret))

def commitTweakInt (revokeBasePriv commitSecret : PrivateKey) : Nat :=
  bigEndianValue
    (singleTweakBytes crypto (crypto.pubKey commitSecret) (crypto.pubKey revokeBasePriv))

def deriveRevocationPrivKey (revokeBasePriv commitSecret : PrivateKey) : PrivateKey :=
  let revokeHalfPriv := revokeTweakInt crypto revokeBasePriv commitSecret * revokeBasePriv.d
  let commitHalfPriv := commitTweakInt crypto revokeBasePriv commitSecret * commitSecret.d
  crypto.privKeyFromBytes (minimalBigEndian ((revokeHalfPriv + commitHalfPriv) % order))

/-- The key that signs, selected by which tweak is not nil. -/
def maybeTweakPrivKey (signDesc : SignDescriptor) (privKey : PrivateKey) : PrivateKey :=
  match signDesc.singleTweak, signDesc.doubleTweak with
  | some singleTweak, _ => tweakPrivKey crypto privKey singleTweak
  | none, some doubleTweak => deriveRevocationPrivKey crypto privKey doubleTweak
  | none, none => privKey

/-! ### Reading what the proxy serialized -/

variable {btcec : Btcec}

theorem cut_append {n : Nat} {xs ys : Bytes} (h : xs.length = n) :
    cut n (xs ++ ys) = some (xs, ys) := by
  subst h
  simp [cut]

theorem bind_cut_append {α : Type} {n : Nat} {xs ys : Bytes} {f : Bytes × Bytes → Option α}
    {r : Option α} (h : xs.length = n) (hf : f (xs, ys) = r) : (cut n (xs ++ ys) >>= f) = r := by
  rw [cut_append h]
  exact hf

theorem arrayOf_val {n : Nat} (bs : ByteArrayOf n) : arrayOf n bs.val = some bs :=
  dif_pos bs.property

theorem ofNat_int64 (n : Int64) : Int64.ofNat (bigEndianValue (int64 n)) = n := by
  rw [bigEndianValue_int64]
  apply Int64.toBitVec_inj.mp
  simp

theorem ofNat_uint32 (n : UInt32) : UInt32.ofNat (bigEndianValue (uint32 n)) = n := by
  rw [uint32, bigEndianValue_bigEndian_of_lt n.toNat_lt]
  exact UInt32.ofNat_toNat

/-- The descriptor that arrives: neither of the tweaks is nil, and neither is
the witness script. -/
def received (pubKey : Option (ByteArrayOf 33)) (s : SignDescriptor) : SignDescriptor :=
  { s with
    pubKey := pubKey
    singleTweak := some s.singleTweak.bytes
    doubleTweak := some (s.doubleTweak.getD ⟨0⟩)
    witnessScript := some s.witnessScript.bytes }

theorem privateKey_ext {k l : PrivateKey} : k = l ↔ k.d = l.d := by
  cases k
  cases l
  simp

theorem bigEndianValue_doubleTweakBytes {s : SignDescriptor}
    (h : ∀ k ∈ s.doubleTweak, k.d < 256 ^ 32) :
    bigEndianValue s.doubleTweakBytes = (s.doubleTweak.getD ⟨0⟩).d := by
  unfold SignDescriptor.doubleTweakBytes
  cases hcase : s.doubleTweak with
  | none => rw [← bigEndian_zero 32, bigEndianValue_bigEndian_of_lt (by decide)]; rfl
  | some k =>
      simp only [padded_of_lt (h k hcase), bigEndianValue_bigEndian_of_lt (h k hcase),
        Option.getD_some]

theorem privKeyFromBytes_doubleTweakBytes {s : SignDescriptor}
    (h : ∀ k ∈ s.doubleTweak, k.d < 256 ^ 32) :
    btcec.privKeyFromBytes s.doubleTweakBytes = s.doubleTweak.getD ⟨0⟩ :=
  privateKey_ext.mpr ((btcec.privKeyFromBytes_d _).trans (bigEndianValue_doubleTweakBytes h))

theorem panicIf_of_not {c : Prop} [Decidable c] (h : ¬ c) : panicIf c = some () := if_neg h

theorem pubkeyObj_pubKeyBytes {parsePubKey : Bytes → Option (ByteArrayOf 33)}
    {s : SignDescriptor} (hparse : ∀ key ∈ s.pubKey, (parsePubKey key.val).isSome = true) :
    ∃ pubKey, pubkeyObj parsePubKey s.pubKeyBytes = some pubKey := by
  unfold SignDescriptor.pubKeyBytes
  cases hkey : s.pubKey with
  | none => exact ⟨none, if_pos (by decide)⟩
  | some key =>
      obtain ⟨parsed, hparsed⟩ := Option.isSome_iff_exists.mp (hparse key hkey)
      by_cases hzero : pubkeyVal key.val = 0
      · exact ⟨none, if_pos hzero⟩
      · exact ⟨some parsed, by simp [pubkeyObj, hzero, hparsed]⟩

theorem decode_serialize_of_pubkeyObj {parsePubKey : Bytes → Option (ByteArrayOf 33)}
    {s : SignDescriptor} {pubKey : Option (ByteArrayOf 33)}
    (hpubKey : pubkeyObj parsePubKey s.pubKeyBytes = some pubKey)
    (hdouble : ∀ k ∈ s.doubleTweak, k.d < 256 ^ 32)
    (hlengths : s.singleTweak.bytes.length + s.witnessScript.bytes.length +
      s.output.pkScript.length ≤ 65348) :
    (serialize btcec s).bind (decode btcec parsePubKey) = some (received pubKey s) := by
  have hlength : s.body.length < 65536 := by
    rw [length_body hdouble]
    omega
  have hbody : s.body = s.pubKeyBytes ++ (int16 s.singleTweak.bytes.length ++
      (s.singleTweak.bytes ++ (s.doubleTweakBytes ++ (int16 s.witnessScript.bytes.length ++
        (s.witnessScript.bytes ++ (int64 s.output.value ++ (int16 s.output.pkScript.length ++
          (s.output.pkScript ++ (uint32 s.hashType ++ (s.sigHashes.hashPrevOuts.val ++
            (s.sigHashes.hashSequence.val ++ (s.sigHashes.hashOutputs.val ++
              (int64 s.inputIndex ++ []))))))))))))) := by
    simp [SignDescriptor.body, SignDescriptor.front, SignDescriptor.back]
  have hsingle : bigEndianValue (int16 s.singleTweak.bytes.length) = s.singleTweak.bytes.length :=
    bigEndianValue_int16 (by omega)
  have hwitness : bigEndianValue (int16 s.witnessScript.bytes.length) =
      s.witnessScript.bytes.length :=
    bigEndianValue_int16 (by omega)
  have hscript : bigEndianValue (int16 s.output.pkScript.length) = s.output.pkScript.length :=
    bigEndianValue_int16 (by omega)
  rw [serialize_eq hdouble, Option.bind_some, decode]
  apply bind_cut_append (length_int16 _)
  dsimp only
  rw [panicIf_of_not (not_not_intro (bigEndianValue_int16 hlength)), hbody]
  apply bind_cut_append (length_pubKeyBytes s)
  apply bind_cut_append (length_int16 _)
  apply bind_cut_append hsingle.symm
  apply bind_cut_append (length_doubleTweakBytes hdouble)
  apply bind_cut_append (length_int16 _)
  apply bind_cut_append hwitness.symm
  apply bind_cut_append (length_int64 _)
  apply bind_cut_append (length_int16 _)
  apply bind_cut_append hscript.symm
  apply bind_cut_append (length_uint32 _)
  apply bind_cut_append s.sigHashes.hashPrevOuts.property
  apply bind_cut_append s.sigHashes.hashSequence.property
  apply bind_cut_append s.sigHashes.hashOutputs.property
  apply bind_cut_append (length_int64 _)
  dsimp only
  rw [hpubKey, panicIf_of_not (not_not_intro List.length_nil)]
  simp only [arrayOf_val, ofNat_int64, ofNat_uint32, privKeyFromBytes_doubleTweakBytes hdouble,
    Option.bind_eq_bind, Option.bind_some]
  rfl

theorem decode_serialize {parsePubKey : Bytes → Option (ByteArrayOf 33)} {s : SignDescriptor}
    (hparse : ∀ key ∈ s.pubKey, (parsePubKey key.val).isSome = true)
    (hdouble : ∀ k ∈ s.doubleTweak, k.d < 256 ^ 32)
    (hlengths : s.singleTweak.bytes.length + s.witnessScript.bytes.length +
      s.output.pkScript.length ≤ 65348) :
    ∃ pubKey, (serialize btcec s).bind (decode btcec parsePubKey) = some (received pubKey s) := by
  obtain ⟨pubKey, hpubKey⟩ := pubkeyObj_pubKeyBytes hparse
  exact ⟨pubKey, decode_serialize_of_pubkeyObj hpubKey hdouble hlengths⟩

/-- Too long a descriptor has a length prefix that has wrapped around. -/
theorem decode_serialize_eq_none (parsePubKey : Bytes → Option (ByteArrayOf 33))
    {s : SignDescriptor} (hlengths : 65348 < s.singleTweak.bytes.length +
      s.witnessScript.bytes.length + s.output.pkScript.length) :
    (serialize btcec s).bind (decode btcec parsePubKey) = none := by
  by_cases hdouble : ∀ k ∈ s.doubleTweak, k.d < 256 ^ 32
  · have hlength : 65536 ≤ s.body.length := by
      rw [length_body hdouble]
      omega
    have hwrapped : bigEndianValue (int16 s.body.length) ≠ s.body.length := by
      have hlt := bigEndianValue_lt (int16 s.body.length)
      rw [length_int16] at hlt
      omega
    rw [serialize_eq hdouble, Option.bind_some, decode]
    apply bind_cut_append (length_int16 _)
    dsimp only
    rw [panicIf, if_pos hwrapped]
    rfl
  · obtain ⟨k, hk, hlarge⟩ : ∃ k, s.doubleTweak = some k ∧ 256 ^ 32 ≤ k.d := by
      simpa using hdouble
    rw [serialize_eq_none hk hlarge]
    rfl

end ElectrumLightning.SignerDecoding
