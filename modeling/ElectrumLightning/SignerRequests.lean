import ElectrumLightning.RequestGrammar
import ElectrumLightning.SignerAgreement

/-!
How the Go signer reads a whole request. It takes everything that follows the
transaction for the descriptor, and so does not expect the remote key that the
proxy appends.
-/

namespace ElectrumLightning.SignerRequests

open ElectrumLightning.ByteStrings
open ElectrumLightning.ProxySerialization
open ElectrumLightning.SigndescDecoding (Signdesc splitSigndescAndTx)
open ElectrumLightning.SignerDecoding
open ElectrumLightning.RequestGrammar (Fields)
open ElectrumLightning.WitnessSigning (MsgTx)

section Decoding

variable (btcec : Btcec) (deserialize : Bytes → Option MsgTx)
variable (parsePubKey : Bytes → Option (ByteArrayOf 33))

/-- The reading of a request in `TestComputeInputScript`; the result is `none`
where it panics. -/
def decodeRequest (message : Bytes) : Option (MsgTx × SignDescriptor) := do
  let (txlen, rest) ← cut 2 message
  -- panic("wrong len")
  panicIf (bigEndianValue txlen ≠ 125)
  let (raw, signdesc) ← cut (bigEndianValue txlen) rest
  let tx ← deserialize raw
  let signDesc ← decode btcec parsePubKey signdesc
  some (tx, signDesc)

/-- The signer and the wallet have read the same fields. -/
structure Same (s : SignDescriptor) (signdesc : Signdesc) : Prop where
  pubKey : s.pubKeyBytes = signdesc.pubKey
  singleTweak : s.singleTweak.bytes = signdesc.singleTweak.getD []
  doubleTweak : (s.doubleTweak.getD ⟨0⟩).d = bigEndianValue (signdesc.doubleTweak.getD [])
  witnessScript : s.witnessScript.bytes = signdesc.witnessScript.getD []
  value : s.output.value = Int64.ofNat signdesc.output.value
  pkScript : s.output.pkScript = signdesc.output.pkScript
  hashType : uint32 s.hashType = signdesc.hashType
  hashPrevOuts : s.sigHashes.hashPrevOuts.val = signdesc.sigHashes.hashPrevOuts
  hashSequence : s.sigHashes.hashSequence.val = signdesc.sigHashes.hashSequence
  hashOutputs : s.sigHashes.hashOutputs.val = signdesc.sigHashes.hashOutputs
  inputIndex : s.inputIndex = Int64.ofNat signdesc.inputIndex

/-- The signer accepts a message and recovers what the wallet recovers. -/
def ReadsAlike (message : Bytes) : Prop :=
  ∃ tx s raw signdesc nodeid, decodeRequest btcec deserialize parsePubKey message = some (tx, s) ∧
    SigndescDecoding.decodeRequest message = some (raw, signdesc, nodeid) ∧
      deserialize raw = some tx ∧ Same s signdesc

end Decoding

/-! ### What the proxy sends -/

/-- The fields of the request in which the proxy sends a descriptor. -/
def requestFields (tx : Bytes) (s : SignDescriptor) (key : ByteArrayOf 33)
    (hdouble : ∀ k ∈ s.doubleTweak, k.d < 256 ^ 32) : Fields where
  tx := tx
  pubKey := ⟨s.pubKeyBytes, length_pubKeyBytes s⟩
  singleTweak := s.singleTweak.bytes
  doubleTweak := ⟨s.doubleTweakBytes, length_doubleTweakBytes hdouble⟩
  witnessScript := s.witnessScript.bytes
  value := ⟨int64 s.output.value, length_int64 _⟩
  pkScript := s.output.pkScript
  hashType := ⟨uint32 s.hashType, length_uint32 _⟩
  hashPrevOuts := s.sigHashes.hashPrevOuts
  hashSequence := s.sigHashes.hashSequence
  hashOutputs := s.sigHashes.hashOutputs
  inputIndex := ⟨int64 s.inputIndex, length_int64 _⟩
  nodeId := key

theorem descriptor_requestFields {tx : Bytes} {s : SignDescriptor} {key : ByteArrayOf 33}
    (hdouble : ∀ k ∈ s.doubleTweak, k.d < 256 ^ 32) (hbody : s.body.length < 65536) :
    (requestFields tx s key hdouble).descriptor = s.body := by
  have hlengths := length_body hdouble
  have hsingle : s.singleTweak.bytes.length < 65536 := by omega
  have hwitness : s.witnessScript.bytes.length < 65536 := by omega
  have hscript : s.output.pkScript.length < 65536 := by omega
  simp only [Fields.descriptor, Fields.front, Fields.back, RequestGrammar.prefixed,
    RequestGrammar.be16, requestFields, SignDescriptor.body, SignDescriptor.front,
    SignDescriptor.back, int16_of_lt hsingle, int16_of_lt hwitness, int16_of_lt hscript,
    List.append_assoc]

section Reading

variable {btcec : Btcec} {deserialize : Bytes → Option MsgTx}
variable {parsePubKey : Bytes → Option (ByteArrayOf 33)}
variable {tx message : Bytes} {s : SignDescriptor} {key : ByteArrayOf 33}

/-- The wallet reads every request whose lengths have not wrapped around. -/
theorem wallet_reads (hmessage : serializetx btcec (some tx) s key = some message)
    (htx : tx.length < 65536) (hbody : s.body.length < 65536) :
    ∃ hdouble, SigndescDecoding.decodeRequest message =
      some (tx, RequestGrammar.assemble (requestFields tx s key hdouble).head
        (requestFields tx s key hdouble).tail, key.val) := by
  obtain ⟨hdouble, rfl⟩ := serializetx_eq_some hmessage
  have hdescriptor : (requestFields tx s key hdouble).descriptor = s.body :=
    descriptor_requestFields hdouble hbody
  have hsized : (requestFields tx s key hdouble).Sized := by
    refine ⟨htx, ?_⟩
    rw [hdescriptor]
    exact hbody
  have hmessage : int16 tx.length ++ (tx ++ (int16 s.body.length ++ (s.body ++ key.val))) =
      (requestFields tx s key hdouble).body := by
    rw [Fields.body, hdescriptor, int16_of_lt htx, int16_of_lt hbody]
    simp [RequestGrammar.prefixed, RequestGrammar.be16, requestFields]
  refine ⟨hdouble, ?_⟩
  rw [hmessage]
  exact RequestGrammar.decodeRequest_body hsized

theorem decode_eq_none {n : Nat} {rest : Bytes} (h : bigEndianValue (int16 n) ≠ rest.length) :
    decode btcec parsePubKey (int16 n ++ rest) = none := by
  rw [decode]
  apply bind_cut_append (length_int16 n)
  dsimp only
  rw [panicIf, if_pos h]
  rfl

theorem decodeRequest_append {rest : Bytes} (htx : tx.length = 125) :
    decodeRequest btcec deserialize parsePubKey (int16 tx.length ++ (tx ++ rest)) =
      (deserialize tx).bind fun msgTx =>
        (decode btcec parsePubKey rest).map fun s => (msgTx, s) := by
  have hvalue : bigEndianValue (int16 tx.length) = 125 := by
    rw [bigEndianValue_int16 (by omega), htx]
  rw [decodeRequest]
  apply bind_cut_append (length_int16 _)
  dsimp only
  rw [panicIf_of_not (not_not_intro hvalue), hvalue]
  apply bind_cut_append htx
  cases deserialize tx with
  | none => rfl
  | some msgTx =>
      cases decode btcec parsePubKey rest <;> rfl

/-- The remote key makes the rest longer than the length before it, and the
signer panics. -/
theorem signer_panics (hmessage : serializetx btcec (some tx) s key = some message)
    (htx : tx.length < 65536) (hbody : s.body.length < 65536) :
    decodeRequest btcec deserialize parsePubKey message = none := by
  obtain ⟨-, rfl⟩ := serializetx_eq_some hmessage
  by_cases hlength : tx.length = 125
  · have hrest : bigEndianValue (int16 s.body.length) ≠ (s.body ++ key.val).length := by
      rw [bigEndianValue_int16 hbody, List.length_append, key.property]
      omega
    rw [decodeRequest_append hlength, decode_eq_none hrest]
    cases deserialize tx <;> rfl
  · rw [decodeRequest]
    apply bind_cut_append (length_int16 _)
    dsimp only
    rw [panicIf, if_pos]
    · rfl
    · rwa [bigEndianValue_int16 htx]

theorem pubkeyObj_eq (hparse : ∀ key ∈ s.pubKey, parsePubKey key.val = some key)
    (hkey : ∀ key ∈ s.pubKey, pubkeyVal key.val ≠ 0) :
    pubkeyObj parsePubKey s.pubKeyBytes = some s.pubKey := by
  unfold SignDescriptor.pubKeyBytes
  cases hcase : s.pubKey with
  | none => exact if_pos (by decide)
  | some key => simp [pubkeyObj, hkey key hcase, hparse key hcase]

/-- Zeros are no double tweak for the wallet and the number zero for the signer. -/
theorem bigEndianValue_of_zeros (width : Nat) (bs : Bytes) :
    bigEndianValue ((if bs = List.replicate width 0 then none else some bs).getD []) =
      bigEndianValue bs := by
  split
  · rename_i hzero
    rw [hzero, ← bigEndian_zero, bigEndianValue_bigEndian_of_lt (Nat.pow_pos (by omega))]
    rfl
  · rfl

theorem same_received (hdouble : ∀ k ∈ s.doubleTweak, k.d < 256 ^ 32) :
    Same (received s.pubKey s) (RequestGrammar.assemble (requestFields tx s key hdouble).head
      (requestFields tx s key hdouble).tail) where
  pubKey := rfl
  singleTweak := by
    simp only [RequestGrammar.assemble, List.length_eq_zero_iff, RequestGrammar.getD_of_ne]
    rfl
  doubleTweak := by
    have hvalue := bigEndianValue_doubleTweakBytes hdouble
    exact ((bigEndianValue_of_zeros 32 _).trans hvalue).symm
  witnessScript := by
    simp only [RequestGrammar.assemble, List.length_eq_zero_iff, RequestGrammar.getD_of_ne]
    rfl
  value := (ofNat_int64 _).symm
  pkScript := rfl
  hashType := rfl
  hashPrevOuts := rfl
  hashSequence := rfl
  hashOutputs := rfl
  inputIndex := (ofNat_int64 _).symm

/-- Nothing but the remote key keeps the signer from reading what the wallet
reads. -/
theorem same_without_key {msgTx : MsgTx}
    (hmessage : serializetx btcec (some tx) s key = some message) (htx : tx.length = 125)
    (hbody : s.body.length < 65536) (hdeserialize : deserialize tx = some msgTx)
    (hparse : ∀ key ∈ s.pubKey, parsePubKey key.val = some key)
    (hkey : ∀ key ∈ s.pubKey, pubkeyVal key.val ≠ 0) :
    ∃ request signdesc, message = request ++ key.val ∧
      decodeRequest btcec deserialize parsePubKey request = some (msgTx, received s.pubKey s) ∧
        SigndescDecoding.decodeRequest message = some (tx, signdesc, key.val) ∧
          Same (received s.pubKey s) signdesc := by
  obtain ⟨hdouble, hwallet⟩ := wallet_reads hmessage (by omega) hbody
  obtain ⟨-, rfl⟩ := serializetx_eq_some hmessage
  have hlengths := length_body hdouble
  have hdecode : (serialize btcec s).bind (decode btcec parsePubKey) = _ :=
    decode_serialize_of_pubkeyObj (pubkeyObj_eq hparse hkey) hdouble (by omega)
  rw [serialize_eq hdouble, Option.bind_some] at hdecode
  refine ⟨int16 tx.length ++ (tx ++ (int16 s.body.length ++ s.body)), _, ?_, ?_, hwallet,
    same_received hdouble⟩
  · simp
  · rw [decodeRequest_append htx, hdeserialize, hdecode]
    rfl

/-- The signer reads no request of the proxy. -/
theorem not_readsAlike (btcec : Btcec) (deserialize : Bytes → Option MsgTx)
    (parsePubKey : Bytes → Option (ByteArrayOf 33)) {tx message : Bytes} {s : SignDescriptor}
    {key : ByteArrayOf 33} (hmessage : serializetx btcec (some tx) s key = some message)
    (htx : tx.length < 65536) (hbody : s.body.length < 65536) :
    ¬ ReadsAlike btcec deserialize parsePubKey message := by
  rintro ⟨msgTx, signDesc, raw, signdesc, nodeid, hsigner, -⟩
  rw [signer_panics hmessage htx hbody] at hsigner
  contradiction

end Reading

/-! ### The recorded transaction with the current trailer -/

def recordedNodeKey : ByteArrayOf 33 := ⟨SignerAgreement.recordedPubKey, rfl⟩

theorem recordedDescriptor_doubleTweak (value : Int64) :
    ∀ k ∈ (SignerAgreement.recordedDescriptor value).doubleTweak, k.d < 256 ^ 32 := by
  rintro k ⟨⟩

theorem length_recordedDescriptor (value : Int64) :
    (SignerAgreement.recordedDescriptor value).body.length = 210 :=
  length_body (recordedDescriptor_doubleTweak value)

theorem length_recordedTransaction : SignerAgreement.recordedTransaction.length = 125 := rfl

theorem not_readsAlike_recorded :
    ∃ message, serializetx simpleBtcec (some SignerAgreement.recordedTransaction)
        (SignerAgreement.recordedDescriptor 10000000000) recordedNodeKey = some message ∧
      ¬ ReadsAlike simpleBtcec SignerAgreement.recordedPrimitives.deserialize (arrayOf 33)
        message := by
  have hserialize := serializetx_of_lt simpleBtcec (recordedDescriptor_doubleTweak 10000000000)
    SignerAgreement.recordedTransaction recordedNodeKey
  have htx := length_recordedTransaction
  have hbody := length_recordedDescriptor 10000000000
  exact ⟨_, hserialize, not_readsAlike _ _ _ hserialize (by omega) (by omega)⟩

/-- The transaction is within the signer's limits, the lengths do not wrap and
the wallet reads the request, but the signer panics. -/
theorem signer_panics_recorded :
    ∃ message, serializetx simpleBtcec (some SignerAgreement.recordedTransaction)
        (SignerAgreement.recordedDescriptor 10000000000) recordedNodeKey = some message ∧
      SignerAgreement.recordedTransaction.length = 125 ∧
      SignerAgreement.recordedPrimitives.deserialize SignerAgreement.recordedTransaction =
        some SignerAgreement.recordedTx ∧
      (SignerAgreement.recordedDescriptor 10000000000).body.length = 210 ∧
      (SigndescDecoding.decodeRequest message).isSome = true ∧
      decodeRequest simpleBtcec SignerAgreement.recordedPrimitives.deserialize (arrayOf 33)
        message = none ∧
      ¬ ReadsAlike simpleBtcec SignerAgreement.recordedPrimitives.deserialize (arrayOf 33)
        message := by
  have hserialize := serializetx_of_lt simpleBtcec (recordedDescriptor_doubleTweak 10000000000)
    SignerAgreement.recordedTransaction recordedNodeKey
  have htx := length_recordedTransaction
  have hbody := length_recordedDescriptor 10000000000
  have hsigner : decodeRequest simpleBtcec SignerAgreement.recordedPrimitives.deserialize
      (arrayOf 33) _ = none :=
    signer_panics hserialize (by omega) (by omega)
  obtain ⟨_, hwallet⟩ := wallet_reads hserialize (by omega) (by omega)
  refine ⟨_, hserialize, htx, by simp [SignerAgreement.recordedPrimitives], hbody, ?_, hsigner, ?_⟩
  · exact Option.isSome_iff_exists.mpr ⟨_, hwallet⟩
  · rintro ⟨msgTx, signDesc, raw, signdesc, nodeid, hsome, -⟩
    cases hsigner.symm.trans hsome

end ElectrumLightning.SignerRequests
