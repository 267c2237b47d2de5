import ElectrumLightning.SignerDecoding

/-!
What the wire does to the tweaks. The signer selects the tweak by which one is
not nil, but after decoding neither is, so the single tweak is always taken.
-/

namespace ElectrumLightning.TweakedKeys

open ElectrumLightning.ByteStrings
open ElectrumLightning.ProxySerialization
open ElectrumLightning.SignerDecoding

section Keys

variable {crypto : Crypto}

theorem tweakPrivKey_d (basePriv : PrivateKey) (commitTweak : Bytes) :
    (tweakPrivKey crypto basePriv commitTweak).d =
      (bigEndianValue commitTweak + basePriv.d) % order :=
  (crypto.privKeyFromBytes_d _).trans (bigEndianValue_minimalBigEndian _)

theorem deriveRevocationPrivKey_d (revokeBasePriv commitSecret : PrivateKey) :
    (deriveRevocationPrivKey crypto revokeBasePriv commitSecret).d =
      (revokeTweakInt crypto revokeBasePriv commitSecret * revokeBasePriv.d +
        commitTweakInt crypto revokeBasePriv commitSecret * commitSecret.d) % order :=
  (crypto.privKeyFromBytes_d _).trans (bigEndianValue_minimalBigEndian _)

theorem maybeTweakPrivKey_received (pubKey : Option (ByteArrayOf 33)) (s : SignDescriptor)
    (privKey : PrivateKey) :
    maybeTweakPrivKey crypto (received pubKey s) privKey =
      tweakPrivKey crypto privKey s.singleTweak.bytes := rfl

/-- The condition on the tweaks: a single tweak is set, or none is and the base
key is reduced, or the double tweak happens to lead to the base key. -/
def SelectsSameKey (crypto : Crypto) (s : SignDescriptor) (privKey : PrivateKey) : Prop :=
  match s.singleTweak, s.doubleTweak with
  | some _, _ => True
  | none, none => privKey.d < order
  | none, some k =>
      (revokeTweakInt crypto privKey k * privKey.d + commitTweakInt crypto privKey k * k.d) %
        order = privKey.d % order

theorem tweakPrivKey_nil_d (privKey : PrivateKey) :
    (tweakPrivKey crypto privKey []).d = privKey.d % order := by
  rw [tweakPrivKey_d]
  change (0 + privKey.d) % order = _
  rw [Nat.zero_add]

theorem selectsSameKey_iff (s : SignDescriptor) (privKey : PrivateKey) :
    tweakPrivKey crypto privKey s.singleTweak.bytes = maybeTweakPrivKey crypto s privKey ↔
      SelectsSameKey crypto s privKey := by
  unfold maybeTweakPrivKey SelectsSameKey
  cases hsingle : s.singleTweak with
  | some singleTweak => exact iff_of_true rfl trivial
  | none =>
      change tweakPrivKey crypto privKey [] = _ ↔ _
      rw [privateKey_ext, tweakPrivKey_nil_d]
      cases hdouble : s.doubleTweak with
      | none =>
          constructor
          · intro hsame
            change privKey.d % order = privKey.d at hsame
            rw [← hsame]
            exact Nat.mod_lt _ (by decide)
          · exact Nat.mod_eq_of_lt
      | some k =>
          change _ = (deriveRevocationPrivKey crypto privKey k).d ↔ _
          rw [deriveRevocationPrivKey_d]
          exact eq_comm

end Keys

/-- The fields fit into 16-bit lengths, and the double tweak into 32 bytes. -/
structure Serializable (s : SignDescriptor) : Prop where
  lengths : s.singleTweak.bytes.length + s.witnessScript.bytes.length +
    s.output.pkScript.length ≤ 65348
  doubleTweak : ∀ k ∈ s.doubleTweak, k.d < 256 ^ 32

theorem serializable_of_decoded {btcec : Btcec} {parsePubKey : Bytes → Option (ByteArrayOf 33)}
    {s r : SignDescriptor} (h : (serialize btcec s).bind (decode btcec parsePubKey) = some r) :
    Serializable s where
  lengths := by
    by_contra hlong
    rw [decode_serialize_eq_none parsePubKey (Nat.lt_of_not_le hlong)] at h
    cases h
  doubleTweak := by
    intro k hk
    by_contra hlarge
    rw [serialize_eq_none hk (Nat.le_of_not_lt hlarge)] at h
    cases h

/-- The signer derives the same key from the decoded descriptor if and only if
the descriptor is serializable and selects the same key. -/
theorem tweaks_survive_iff (crypto : Crypto) (parsePubKey : Bytes → Option (ByteArrayOf 33))
    (s : SignDescriptor) (privKey : PrivateKey)
    (hparse : ∀ key ∈ s.pubKey, (parsePubKey key.val).isSome = true) :
    ((serialize crypto.toBtcec s).bind (decode crypto.toBtcec parsePubKey)).map
        (fun r => maybeTweakPrivKey crypto r privKey) =
      some (maybeTweakPrivKey crypto s privKey) ↔
    Serializable s ∧ SelectsSameKey crypto s privKey := by
  constructor
  · intro hsurvives
    obtain ⟨r, hr, -⟩ := Option.map_eq_some_iff.mp hsurvives
    have hserializable := serializable_of_decoded hr
    obtain ⟨pubKey, hdecoded⟩ :=
      decode_serialize hparse hserializable.doubleTweak hserializable.lengths
    rw [hdecoded, Option.map_some, maybeTweakPrivKey_received, Option.some.injEq] at hsurvives
    exact ⟨hserializable, (selectsSameKey_iff s privKey).mp hsurvives⟩
  · rintro ⟨hserializable, hselects⟩
    obtain ⟨pubKey, hdecoded⟩ :=
      decode_serialize hparse hserializable.doubleTweak hserializable.lengths
    rw [hdecoded, Option.map_some, maybeTweakPrivKey_received]
    exact congrArg some ((selectsSameKey_iff s privKey).mpr hselects)

/-! ### The keys one and two -/

def generator : Bytes :=
  bigEndian 33 0x0279be667ef9dcbbac55a06295ce870b07029bfcdb2dce28d959f2815b16f81798

def doubledGenerator : Bytes :=
  bigEndian 33 0x02c6047f9441ed7d6d3045406e95c07cd85c778e4b8cef3ca7abac09b95c709ee5

/-- The public keys of the scalars one and two, and the digests of the two
concatenations of them. -/
def smallKeys : Crypto where
  toBtcec := simpleBtcec
  pubKey := fun k => if k.d = 1 then generator else doubledGenerator
  sha256 := fun text =>
    if text = generator ++ doubledGenerator then
      bigEndian 32 0xf79b1f58098df82a19c3bbb53339999264e77386375a1ffdb05d681af3b261af
    else bigEndian 32 0x0187eefaf38b40119a0f470903ab475002b19a7fff1c65a13a6833dbc7a9bc1a

def descriptor (singleTweak : Slice) (doubleTweak : Option PrivateKey) : SignDescriptor where
  pubKey := some ⟨generator, length_bigEndian ..⟩
  singleTweak := singleTweak
  doubleTweak := doubleTweak
  witnessScript := none
  output := ⟨10000, [0x51]⟩
  hashType := 1
  sigHashes := ⟨⟨bigEndian 32 2, length_bigEndian ..⟩, ⟨bigEndian 32 3, length_bigEndian ..⟩,
    ⟨bigEndian 32 4, length_bigEndian ..⟩⟩
  inputIndex := 0

def parseCompressed : Bytes → Option (ByteArrayOf 33) := arrayOf 33

theorem singleTweak_survives :
    ((serialize simpleBtcec (descriptor (some [5]) none)).bind
      (decode simpleBtcec parseCompressed)).map
        (fun r => maybeTweakPrivKey smallKeys r ⟨1⟩) = some ⟨6⟩ := by
  have hsame := (tweaks_survive_iff smallKeys parseCompressed (descriptor (some [5]) none) ⟨1⟩
    (by rintro key ⟨⟩; decide)).mpr ⟨⟨by decide, by simp [descriptor]⟩, trivial⟩
  exact hsame.trans (by decide)

/-- A double tweak is lost on the wire: the signer signs with the base key. -/
theorem doubleTweak_lost :
    ((serialize simpleBtcec (descriptor none (some ⟨2⟩))).bind
      (decode simpleBtcec parseCompressed)).map
        (fun r => maybeTweakPrivKey smallKeys r ⟨1⟩) = some ⟨1⟩ ∧
      maybeTweakPrivKey smallKeys (descriptor none (some ⟨2⟩)) ⟨1⟩ ≠ ⟨1⟩ := by
  constructor
  · decide +kernel
  · decide +kernel

end ElectrumLightning.TweakedKeys
