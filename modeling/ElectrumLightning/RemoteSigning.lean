import ElectrumLightning.TransactionDecoding
import ElectrumLightning.TweakedKeys
import ElectrumLightning.WitnessDigest

/-!
From a request of the proxy to an input script of the signer, and what that
script is worth: when the network lets it spend the output of the descriptor.
-/

namespace ElectrumLightning.RemoteSigning

open ElectrumLightning.ByteStrings
open ElectrumLightning.ProxySerialization
open ElectrumLightning.ScriptParsing
open ElectrumLightning.SignerAgreement
open ElectrumLightning.SignerDecoding
open ElectrumLightning.SignerRequests (Same decodeRequest recordedDescriptor_doubleTweak
  recordedNodeKey)
open ElectrumLightning.TransactionDecoding
open ElectrumLightning.TransactionEncoding
open ElectrumLightning.WitnessDigest
open ElectrumLightning.WitnessSigning

def opEqual : UInt8 := 0x87

/-- The output script that pays to the hash of a script. -/
def payToScriptHash (scriptHash : ByteArrayOf 20) : Bytes :=
  [opHash160, opData20] ++ scriptHash.val ++ [opEqual]

variable {o : Primitives} {builder : ScriptBuilder} {tx : MsgTx} {txIn : TxIn} {idx : Nat}
  {sigHashes : TxSigHashes}

/-- The hashes that a descriptor carries are those of the transaction. -/
structure Midstates (o : Primitives) (tx : MsgTx) (sigHashes : TxSigHashes) : Prop where
  prevOuts : sigHashes.hashPrevOuts.val =
    o.doubleHash (tx.txIn.flatMap fun i => encodeOutPoint i.previousOutPoint)
  sequences : sigHashes.hashSequence.val =
    o.doubleHash (tx.txIn.flatMap fun i => littleEndian 4 i.sequence.toNat)
  outputs : sigHashes.hashOutputs.val = o.doubleHash (tx.txOut.flatMap encodeTxOut)

/-- A spend of a witness public key hash behind a script hash: the script pushes
the program whose hash is in the output, and the witness is a key with that
hash and its signature of the digest, for the amount of the output. -/
def Spends (o : Primitives) (Verifies : Bytes → Bytes → Bytes → Prop) (tx : MsgTx) (idx : Nat)
    (output : TxOut) (r : InputScript) : Prop :=
  ∃ txIn keyHash pubKey signature hashType, tx.txIn[idx]? = some txIn ∧
    output.pkScript = payToScriptHash (o.hash160 (witnessPubKeyHash keyHash)) ∧
    r.scriptSig = 0x16 :: witnessPubKeyHash keyHash ∧ keyHash = (o.hash160 pubKey).val ∧
    r.witness = [signature ++ [hashType], pubKey] ∧
    Verifies pubKey (o.doubleHash (digestPreimage o.doubleHash tx txIn idx
      (witnessPubKeyHash keyHash) output.value hashType.toUInt32)) signature

theorem index_of_getElem? {n : Int} (hindex : n = idx) (hin : tx.txIn[idx]? = some txIn) :
    n < tx.txIn.length ∧ index tx.txIn n = some txIn := by
  obtain ⟨hlt, -⟩ := List.getElem?_eq_some_iff.mp hin
  subst hindex
  refine ⟨by omega, ?_⟩
  rw [index, if_neg (by omega), Int.toNat_natCast, hin]

/-- The preimage that the signer hashes is the one that is defined over the
transaction. -/
theorem preimage_eq_digest (h : Midstates o tx sigHashes) {hash : ByteArrayOf 20}
    (hin : tx.txIn[idx]? = some txIn) {amt : Int64} :
    preimage sigHashes tx txIn amt hash.val =
      digestPreimage o.doubleHash tx txIn idx (witnessPubKeyHash hash.val) amt sigHashAll := by
  have hsignable : Signable o tx sigHashes (witnessPubKeyHash hash.val)
      [⟨opcodeArray op0, []⟩, ⟨opcodeArray opData20, hash.val⟩] :=
    { parsed := parseScript_witnessPubKeyHash hash.property
      noSeparator := by
        rintro pop hpop
        rcases List.mem_pair.mp hpop with rfl | rfl
        · decide
        · change (opcodeArray opData20).value ≠ opCodeSeparator
          decide
      prevOuts := h.prevOuts
      sequences := h.sequences
      outputs := h.outputs }
  obtain ⟨hrange, htxIn⟩ := index_of_getElem? rfl hin
  apply Option.some_inj.mp
  rw [← sigHash_witnessPubKeyHash o hrange htxIn]
  refine (sigHash_eq_preimage_iff hsignable hin amt sigHashAll).mpr ?_
  exact (signerHashOutputs_eq_iff hsignable idx sigHashAll).mpr (.inl (by decide))

theorem spends_signed_iff {Verifies : Bytes → Bytes → Bytes → Prop} {output : TxOut}
    {base tweaked : PrivateKey} {signature : Bytes} (hin : tx.txIn[idx]? = some txIn)
    (hverifies : Verifies (o.pubKey tweaked) (o.doubleHash (digestPreimage o.doubleHash tx txIn idx
      (witnessPubKeyHash (o.hash160 (o.pubKey base)).val) output.value sigHashAll)) signature) :
    Spends o Verifies tx idx output (signed o base tweaked signature) ↔
      output.pkScript =
          payToScriptHash (o.hash160 (witnessPubKeyHash (o.hash160 (o.pubKey base)).val)) ∧
        o.hash160 (o.pubKey tweaked) = o.hash160 (o.pubKey base) := by
  constructor
  · rintro ⟨txIn', keyHash, pubKey, signature', hashType, -, hscript, hpush, rfl, hwitness, -⟩
    obtain ⟨-, hpubKey⟩ := List.cons.inj hwitness
    obtain ⟨rfl, -⟩ := List.cons.inj hpubKey
    obtain ⟨-, hprogram⟩ := List.cons.inj hpush
    obtain ⟨-, hrest⟩ := List.cons.inj hprogram
    obtain ⟨-, hhash⟩ := List.cons.inj hrest
    rw [hhash]
    exact ⟨hscript, Subtype.ext hhash.symm⟩
  · rintro ⟨hscript, hhash⟩
    refine ⟨txIn, _, o.pubKey tweaked, signature, 1, hin, hscript, rfl, ?_, rfl, hverifies⟩
    rw [hhash]

/-- What the signature package is documented to do for the keys that are scalars of
the curve. -/
def Signs (o : Primitives) (Verifies : Bytes → Bytes → Bytes → Prop) : Prop :=
  ∀ k : PrivateKey, 0 < k.d → k.d < order → ∀ digest,
    ∃ signature, o.sign k digest = some signature ∧ Verifies (o.pubKey k) digest signature

/-- The signer answers a descriptor that has arrived, and its answer spends the output
exactly if that is the nested output of its own key and the single tweak leaves the
hash of that key as it is. -/
theorem exists_spends_iff {Verifies : Bytes → Bytes → Bytes → Prop} (hsigns : Signs o Verifies)
    (s : SignDescriptor) (base : PrivateKey) (hindex : s.inputIndex.toInt = idx)
    (hin : tx.txIn[idx]? = some txIn)
    (htweaked : (bigEndianValue s.singleTweak.bytes + base.d) % order ≠ 0) :
    ∃ r, computeInputScript o builder tx (received s.pubKey s) base = some r ∧
      (Midstates o tx s.sigHashes → (Spends o Verifies tx idx s.output r ↔
        s.output.pkScript =
            payToScriptHash (o.hash160 (witnessPubKeyHash (o.hash160 (o.pubKey base)).val)) ∧
          o.hash160 (o.pubKey (tweakPrivKey o.toCrypto base s.singleTweak.bytes)) =
            o.hash160 (o.pubKey base))) := by
  set tweaked := tweakPrivKey o.toCrypto base s.singleTweak.bytes with htweakedKey
  set hash := o.hash160 (o.pubKey base) with hhash
  have hd : tweaked.d = (bigEndianValue s.singleTweak.bytes + base.d) % order :=
    TweakedKeys.tweakPrivKey_d base s.singleTweak.bytes
  have hpos : 0 < tweaked.d := by omega
  have hlt : tweaked.d < order := by
    rw [hd]
    exact Nat.mod_lt _ (by decide)
  obtain ⟨signature, hsigned, hverifies⟩ := hsigns tweaked hpos hlt
    (o.doubleHash (preimage s.sigHashes tx txIn s.output.value hash.val))
  obtain ⟨hrange, htxIn⟩ := index_of_getElem? hindex hin
  refine ⟨signed o base tweaked signature, ?_, fun hmid => ?_⟩
  · have hscript : computeInputScript o builder tx (received s.pubKey s) base = _ :=
      computeInputScript_eq_signed o builder base hrange htxIn
    rw [hscript, TweakedKeys.maybeTweakPrivKey_received, ← htweakedKey]
    exact congrArg (Option.map _) hsigned
  · rw [preimage_eq_digest hmid hin] at hverifies
    exact spends_signed_iff hin hverifies

/-- A request of the proxy reaches the signer without the remote key as the transaction
and the descriptor that were sent, which are those that the wallet reads. The signer
answers it, and for the hashes of the transaction its answer spends the output exactly
in the case above. -/
theorem remote_spends_iff {parsePubKey : Bytes → Option (ByteArrayOf 33)}
    {Verifies : Bytes → Bytes → Bytes → Prop} {s : SignDescriptor} {message : Bytes}
    {key : ByteArrayOf 33} (hlimits : WithinLimits tx)
    (hmessage : serializetx o.toBtcec (some (encodeTx tx)) s key = some message)
    (htx : (encodeTx tx).length = 125) (hbody : s.body.length < 65536)
    (hparse : ∀ key ∈ s.pubKey, parsePubKey key.val = some key)
    (hkey : ∀ key ∈ s.pubKey, pubkeyVal key.val ≠ 0) :
    ∃ request signdesc, message = request ++ key.val ∧
      decodeRequest o.toBtcec parseTransaction parsePubKey request =
        some (tx, received s.pubKey s) ∧
      SigndescDecoding.decodeRequest message = some (encodeTx tx, signdesc, key.val) ∧
      Same (received s.pubKey s) signdesc ∧
      (Signs o Verifies → ∀ (base : PrivateKey) (idx : Nat) (txIn : TxIn),
        s.inputIndex.toInt = idx → tx.txIn[idx]? = some txIn →
        (bigEndianValue s.singleTweak.bytes + base.d) % order ≠ 0 →
        ∃ r, computeInputScript o builder tx (received s.pubKey s) base = some r ∧
          (Midstates o tx s.sigHashes → (Spends o Verifies tx idx s.output r ↔
            s.output.pkScript =
                payToScriptHash (o.hash160 (witnessPubKeyHash (o.hash160 (o.pubKey base)).val)) ∧
              o.hash160 (o.pubKey (tweakPrivKey o.toCrypto base s.singleTweak.bytes)) =
                o.hash160 (o.pubKey base)))) := by
  obtain ⟨request, signdesc, hrequest, hdecode, hwallet, hsame⟩ :=
    decodeRequest_encodeTx hlimits hmessage htx hbody hparse hkey
  refine ⟨request, signdesc, hrequest, hdecode, hwallet, hsame, ?_⟩
  intro hsigns base idx txIn hindex hin htweaked
  exact exists_spends_iff hsigns s base hindex hin htweaked

theorem length_recordedHash : ((WalletSigning.correct.drop 108).take 20).length = 20 := rfl

/-- The hash of the recorded key, and the hash of its witness program, which is
in the recorded output. -/
def scriptHashPrimitives : Primitives :=
  { midstatePrimitives with
    hash160 := fun text =>
      if text = recordedPubKey then
        ⟨(WalletSigning.correct.drop 108).take 20, length_recordedHash⟩
      else ⟨[128, 199, 54, 81, 52, 79, 130, 219, 224, 213, 226, 92, 93, 27, 6, 153, 193, 105, 11,
        130], rfl⟩ }

/-- What verifies is the recorded signature by the recorded key. -/
def RecordedVerifies (pubKey _digest signature : Bytes) : Prop :=
  pubKey = recordedPubKey ∧ signature = WalletSigning.ref.take 70

theorem remote_spends_recorded :
    ∃ message, serializetx simpleBtcec (some (encodeTx recordedTx))
        (recordedDescriptor 10000000000) recordedNodeKey = some message ∧
      ∃ request signDesc r, message = request ++ recordedNodeKey.val ∧
        decodeRequest simpleBtcec parseTransaction (arrayOf 33) request =
          some (recordedTx, signDesc) ∧
        computeInputScript scriptHashPrimitives simpleBuilder recordedTx signDesc recordedKey =
          some r ∧
        Spends scriptHashPrimitives RecordedVerifies recordedTx 0
          (recordedDescriptor 10000000000).output r := by
  have hserialize : serializetx scriptHashPrimitives.toBtcec (some (encodeTx recordedTx))
      (recordedDescriptor 10000000000) recordedNodeKey = _ :=
    serializetx_of_lt simpleBtcec (recordedDescriptor_doubleTweak 10000000000)
      (encodeTx recordedTx) recordedNodeKey
  have hlimits : WithinLimits recordedTx := by
    refine ⟨⟨?_, ?_, ?_, ?_, ?_⟩, ?_⟩
    all_goals decide
  have hbody : (recordedDescriptor 10000000000).body.length < 65536 := by
    rw [SignerRequests.length_recordedDescriptor]
    decide
  have hmid : Midstates scriptHashPrimitives recordedTx
      (recordedDescriptor 10000000000).sigHashes :=
    ⟨recorded_signable.prevOuts, recorded_signable.sequences, recorded_signable.outputs⟩
  have hsigns : Signs scriptHashPrimitives RecordedVerifies :=
    fun _ _ _ _ => ⟨_, rfl, rfl, rfl⟩
  have hparse : ∀ key ∈ (recordedDescriptor 10000000000).pubKey, arrayOf 33 key.val = some key := by
    rintro key ⟨⟩
  have hkey : ∀ key ∈ (recordedDescriptor 10000000000).pubKey, pubkeyVal key.val ≠ 0 := by
    rintro key ⟨⟩
  obtain ⟨request, signdesc, hmessage, hdecode, -, -, hanswer⟩ :=
    remote_spends_iff hlimits hserialize (by decide +kernel) hbody hparse hkey
  obtain ⟨r, hscript, hspends⟩ :=
    hanswer hsigns recordedKey 0 _ rfl rfl (by decide +kernel)
  exact ⟨_, hserialize, request, _, r, hmessage, hdecode, hscript,
    (hspends hmid).mpr ⟨by decide, rfl⟩⟩

end ElectrumLightning.RemoteSigning
