import ElectrumLightning.WalletSigning

/-!
Where the two signers agree. The wallet's assertions let through the input of
the recorded signature, and nothing else.
-/

namespace ElectrumLightning.SignerAgreement

open ElectrumLightning.ByteStrings
open ElectrumLightning.HexText
open ElectrumLightning.ProxySerialization
open ElectrumLightning.ScriptParsing (witnessPubKeyHash opcodeArray op0 opData20)
open ElectrumLightning.SigndescDecoding
open ElectrumLightning.WitnessSigning
open ElectrumLightning.WalletSigning (Library ScriptOp LEtobytes assertPrefix correct
  recordedDigest recordedPrevoutHash ref decoded)

/-- The fields of the recorded preimage, at their offsets. -/
structure Recorded (sigHashes : TxSigHashes) (tx : MsgTx) (txIn : TxIn) (amt : Int64)
    (pubKeyHash : Bytes) : Prop where
  version : tx.version = 1
  hashPrevOuts : sigHashes.hashPrevOuts.val = (correct.drop 4).take 32
  hashSequence : sigHashes.hashSequence.val = (correct.drop 36).take 32
  prevoutHash : txIn.previousOutPoint.hash.val = (correct.drop 68).take 32
  prevoutIndex : txIn.previousOutPoint.index = 1
  pubKeyHash : pubKeyHash = (correct.drop 108).take 20
  amount : amt = 10000000000
  sequence : txIn.sequence = 0xffffffff
  hashOutputs : sigHashes.hashOutputs.val = (correct.drop 142).take 32
  lockTime : tx.lockTime = 0

theorem leUint32_inj {m n : UInt32} : leUint32 m = leUint32 n ↔ m = n :=
  ⟨fun heq => UInt32.toNat_inj.mp (littleEndian_inj m.toNat_lt n.toNat_lt heq), congrArg _⟩

theorem leInt64_inj {m n : Int64} : leInt64 m = leInt64 n ↔ m = n := by
  constructor
  · intro heq
    have hvalue := littleEndian_inj m.toBitVec.isLt n.toBitVec.isLt heq
    exact Int64.toBitVec_inj.mp (BitVec.eq_of_toNat_eq hvalue)
  · exact congrArg _

theorem leInt32_inj {m n : Int32} :
    littleEndian 4 m.toBitVec.toNat = littleEndian 4 n.toBitVec.toNat ↔ m = n := by
  constructor
  · intro heq
    have hvalue := littleEndian_inj m.toBitVec.isLt n.toBitVec.isLt heq
    exact Int32.toBitVec_inj.mp (BitVec.eq_of_toNat_eq hvalue)
  · rintro rfl
    rfl

theorem correct_eq_fields :
    correct = littleEndian 4 (1 : Int32).toBitVec.toNat ++ ((correct.drop 4).take 32 ++
      ((correct.drop 36).take 32 ++ ((correct.drop 68).take 32 ++ (leUint32 1 ++
        ([0x19, 0x76, 0xa9, 0x14] ++ ((correct.drop 108).take 20 ++ ([0x88, 0xac] ++
          (leInt64 10000000000 ++ (leUint32 0xffffffff ++ ((correct.drop 142).take 32 ++
            (leUint32 0 ++ leUint32 sigHashAll))))))))))) := by
  rfl

theorem preimage_eq_correct_iff {sigHashes : TxSigHashes} {tx : MsgTx} {txIn : TxIn} {amt : Int64}
    {pubKeyHash : Bytes} (hlength : pubKeyHash.length = 20) :
    preimage sigHashes tx txIn amt pubKeyHash = correct ↔
      Recorded sigHashes tx txIn amt pubKeyHash := by
  have hpieces : preimage sigHashes tx txIn amt pubKeyHash =
      littleEndian 4 tx.version.toBitVec.toNat ++ (sigHashes.hashPrevOuts.val ++
        (sigHashes.hashSequence.val ++ (txIn.previousOutPoint.hash.val ++
          (leUint32 txIn.previousOutPoint.index ++ ([0x19, 0x76, 0xa9, 0x14] ++ (pubKeyHash ++
            ([0x88, 0xac] ++ (leInt64 amt ++ (leUint32 txIn.sequence ++
              (sigHashes.hashOutputs.val ++ (leUint32 tx.lockTime ++
                leUint32 sigHashAll))))))))))) := by
    simp only [preimage, List.append_assoc]
    rfl
  rw [hpieces, correct_eq_fields]
  rw [List.append_eq_append_iff_of_size_eq_left (by simp), leInt32_inj,
    List.append_eq_append_iff_of_size_eq_left sigHashes.hashPrevOuts.property,
    List.append_eq_append_iff_of_size_eq_left sigHashes.hashSequence.property,
    List.append_eq_append_iff_of_size_eq_left txIn.previousOutPoint.hash.property,
    List.append_eq_append_iff_of_size_eq_left (by simp [leUint32]), leUint32_inj,
    List.append_cancel_left_eq, List.append_eq_append_iff_of_size_eq_left hlength,
    List.append_cancel_left_eq, List.append_eq_append_iff_of_size_eq_left (by simp [leInt64]),
    leInt64_inj, List.append_eq_append_iff_of_size_eq_left (by simp [leUint32]), leUint32_inj,
    List.append_eq_append_iff_of_size_eq_left sigHashes.hashOutputs.property,
    List.append_cancel_right_eq, leUint32_inj]
  constructor
  · rintro ⟨h1, h2, h3, h4, h5, h6, h7, h8, h9, h10⟩
    exact ⟨h1, h2, h3, h4, h5, h6, h7, h8, h9, h10⟩
  · intro h
    exact ⟨h.version, h.hashPrevOuts, h.hashSequence, h.prevoutHash, h.prevoutIndex,
      h.pubKeyHash, h.amount, h.sequence, h.hashOutputs, h.lockTime⟩

/-! ### The wallet's preimage -/

theorem assertPrefix_bind_eq_some {α : Type} {xs : Bytes} {f : Unit → Option α} {r : α} :
    (assertPrefix xs >>= f) = some r ↔ sliceTo correct xs.length = xs ∧ f () = some r :=
  assert_bind_eq_some

theorem LEtobytes_of_lt {n l : Nat} (hl : l = 2 ∨ l = 4 ∨ l = 8) (hlt : n < 256 ^ l) :
    LEtobytes n l = some (littleEndian l n) := by
  have hrange : 0 ≤ (n : Int) ∧ (n : Int) < 256 ^ l := ⟨by omega, by exact_mod_cast hlt⟩
  rw [LEtobytes, if_pos hl, if_pos hrange, Int.toNat_natCast]

theorem LEtobytes_uint32 (n : UInt32) : LEtobytes n.toNat 4 = some (leUint32 n) :=
  LEtobytes_of_lt (by omega) n.toNat_lt

theorem LEtobytes_int64 {n : Int64} (h : 0 ≤ n.toInt) :
    LEtobytes (n.toInt.toNat : Nat) 8 = some (leInt64 n) := by
  rw [← toNat_toBitVec_int64 h]
  exact LEtobytes_of_lt (by omega) n.toBitVec.isLt

theorem LEtobytes_int32 (n : Int32) :
    LEtobytes n.toInt 4 =
      if 0 ≤ n.toInt then some (littleEndian 4 n.toBitVec.toNat) else none := by
  have htoInt := BitVec.toInt_eq_toNat_cond n.toBitVec
  rw [Int32.toInt_toBitVec] at htoInt
  split_ifs with hnonneg
  · have hvalue : n.toInt = n.toBitVec.toNat := by
      split at htoInt <;> omega
    rw [hvalue]
    exact LEtobytes_of_lt (by omega) n.toBitVec.isLt
  · rw [LEtobytes, if_pos (by omega), if_neg (by omega)]

theorem sliceTo_correct {xs : Bytes} (h : xs <+: correct) :
    sliceTo correct xs.length = xs := by
  obtain ⟨ys, hys⟩ := h
  rw [← hys]
  exact sliceTo_append rfl

theorem isPrefix_of_append {xs ys : Bytes} (h : xs ++ ys <+: correct) : xs <+: correct :=
  (List.prefix_append xs ys).trans h

section Preimages

variable {s : SignDescriptor} {tx : MsgTx} {txIn : TxIn} {hash : Bytes}

/-- The script operations of a witness program. -/
def programOps (hash : Bytes) : List ScriptOp := [⟨0, [], 1⟩, ⟨20, hash, 22⟩]

/-- The wallet's run of `calcWitnessSignatureHash` up to the digest. -/
def walletSigHash (s : SignDescriptor) (tx : MsgTx) (hash : Bytes) : Option Bytes :=
  WalletSigning.sigHash (programOps hash) (represent s).sigHashes WalletSigning.sigHashAll
    (decoded tx) (represent s).inputIndex (represent s).output.value

/-- The preimage in the parts in which the wallet appends it to its buffer. -/
theorem preimage_eq_parts (s : SignDescriptor) (tx : MsgTx) (txIn : TxIn) (hash : Bytes) :
    preimage s.sigHashes tx txIn s.output.value hash =
      littleEndian 4 tx.version.toBitVec.toNat ++
        (represent s).sigHashes.hashPrevOuts ++ (represent s).sigHashes.hashSequence ++
          txIn.previousOutPoint.hash.val ++ leUint32 txIn.previousOutPoint.index ++
            [0x19, 0x76, 0xa9, 0x14] ++ hash ++ [0x88, 0xac] ++ leInt64 s.output.value ++
              leUint32 txIn.sequence ++ (represent s).sigHashes.hashOutputs ++
                leUint32 tx.lockTime ++ leUint32 sigHashAll := by
  simp only [preimage, List.append_assoc]
  rfl

theorem walletSigHash_eq_some_iff (hlength : hash.length = 20)
    (htxIn : tx.txIn[s.inputIndex.toInt.toNat]? = some txIn) (hvalue : 0 ≤ s.output.value.toInt)
    {p : Bytes} :
    walletSigHash s tx hash = some p ↔
      Recorded s.sigHashes tx txIn s.output.value hash ∧ p = correct := by
  have hinput : (decoded tx).inputs[(represent s).inputIndex]? =
      some (WalletSigning.decodedInput txIn) := by
    change (tx.txIn.map WalletSigning.decodedInput)[s.inputIndex.toInt.toNat]? = _
    rw [List.getElem?_map, htxIn]
    rfl
  have hrange : ¬ ((represent s).inputIndex : Int) > (decoded tx).inputs.length - 1 := by
    obtain ⟨hlt, -⟩ := List.getElem?_eq_some_iff.mp hinput
    omega
  rw [walletSigHash, WalletSigning.sigHash, assert_bind_eq_some, bind_of_eq_some hinput]
  by_cases hversion : 0 ≤ tx.version.toInt
  · have hprevoutN : LEtobytes (WalletSigning.decodedInput txIn).prevoutN 4 =
        some (leUint32 txIn.previousOutPoint.index) := LEtobytes_uint32 _
    have hsequence : LEtobytes (WalletSigning.decodedInput txIn).sequence 4 =
        some (leUint32 txIn.sequence) := LEtobytes_uint32 _
    have hlockTime : LEtobytes (decoded tx).lockTime 4 = some (leUint32 tx.lockTime) :=
      LEtobytes_uint32 _
    have hamount : LEtobytes (represent s).output.value 8 = some (leInt64 s.output.value) :=
      LEtobytes_int64 hvalue
    have hversion' : LEtobytes (decoded tx).version 4 =
        some (littleEndian 4 tx.version.toBitVec.toNat) :=
      (LEtobytes_int32 _).trans (if_pos hversion)
    have hprevoutHash : unhexlify (WalletSigning.decodedInput txIn).prevoutHash =
        some txIn.previousOutPoint.hash.val.reverse := unhexlify_hexlify _
    have hhashType : LEtobytes (1 : Nat) 4 = some (leUint32 sigHashAll) := by rfl
    have hall : toint WalletSigning.sigHashAll = some 1 := rfl
    have hmask : toint WalletSigning.sigHashMask = some 0x1f := rfl
    have hnone : toint WalletSigning.sigHashNone = some 2 := rfl
    have hsingle : toint WalletSigning.sigHashSingle = some 3 := rfl
    have hanyOneCanPay : toint WalletSigning.sigHashAnyOneCanPay = some 0x80 := rfl
    have hprevOuts : 1 &&& 0x80 = 0 := rfl
    have hsequences : 1 &&& 0x1f ≠ 3 ∧ 1 &&& 0x1f ≠ 2 := by decide
    have hsecond : (programOps hash)[1]? = some ⟨20, hash, 22⟩ := rfl
    dsimp only
    rw [bind_of_eq_some hversion',
      bind_of_eq_some hall, bind_of_eq_some hmask, bind_of_eq_some hnone, bind_of_eq_some hsingle,
      bind_of_eq_some hanyOneCanPay, if_pos hprevOuts, if_pos ⟨hprevOuts, hsequences⟩,
      assertPrefix_bind_eq_some,
      assertPrefix_bind_eq_some, assert_bind_eq_some, bind_of_eq_some hprevoutHash,
      bind_of_eq_some hprevoutN, assertPrefix_bind_eq_some, assert_bind_eq_some,
      bind_of_eq_some hsecond,
      assertPrefix_bind_eq_some, bind_of_eq_some hamount, bind_of_eq_some hsequence,
      assertPrefix_bind_eq_some, assert_bind_eq_some, bind_of_eq_some hlockTime,
      bind_of_eq_some hhashType, assertPrefix_bind_eq_some, assert_bind_eq_some,
      List.reverse_reverse]
    dsimp only
    constructor
    · rintro ⟨-, -, -, -, -, -, -, -, -, -, hfull, hp⟩
      have hpreimage := (preimage_eq_parts s tx txIn hash).trans hfull
      rw [hfull] at hp
      exact ⟨(preimage_eq_correct_iff hlength).mp hpreimage, (Option.some.inj hp).symm⟩
    · rintro ⟨hrecorded, rfl⟩
      have hpreimage := (preimage_eq_correct_iff hlength).mpr hrecorded
      have hfull := (preimage_eq_parts s tx txIn hash).symm.trans hpreimage
      have htext : (WalletSigning.decodedInput txIn).prevoutHash = recordedPrevoutHash := by
        rw [WalletSigning.decodedInput, hrecorded.prevoutHash]
        rfl
      -- Each assertion but the last compares a prefix of the whole.
      have hoverall : _ <+: correct := ⟨[], (List.append_nil _).trans hfull⟩
      have hwithSequence := isPrefix_of_append (isPrefix_of_append (isPrefix_of_append hoverall))
      have hwithScript := isPrefix_of_append (isPrefix_of_append hwithSequence)
      have hwithOutpoint := isPrefix_of_append (isPrefix_of_append (isPrefix_of_append hwithScript))
      have hwithHashes := isPrefix_of_append (isPrefix_of_append hwithOutpoint)
      exact ⟨hrange, sliceTo_correct (isPrefix_of_append hwithHashes),
        sliceTo_correct hwithHashes, htext, sliceTo_correct hwithOutpoint, rfl,
        sliceTo_correct hwithScript, sliceTo_correct hwithSequence, by decide,
        sliceTo_correct hoverall, hfull, congrArg some hfull⟩
  · have hnone : LEtobytes (decoded tx).version 4 = none :=
      (LEtobytes_int32 _).trans (if_neg hversion)
    rw [hnone]
    constructor
    · rintro ⟨-, hrun⟩
      cases hrun
    · rintro ⟨hrecorded, -⟩
      rw [hrecorded.version] at hversion
      exact absurd (by decide) hversion

/-- The signer's run of `calcWitnessSignatureHash` up to the digest. -/
def signerSigHash (o : Primitives) (s : SignDescriptor) (tx : MsgTx) (hash : Bytes) :
    Option Bytes :=
  sigHash o [⟨opcodeArray op0, []⟩, ⟨opcodeArray opData20, hash⟩] s.sigHashes sigHashAll tx
    s.inputIndex.toInt s.output.value

def SamePreimage (o : Primitives) (s : SignDescriptor) (tx : MsgTx) (hash : Bytes) : Prop :=
  ∃ p, walletSigHash s tx hash = some p ∧ signerSigHash o s tx hash = some p

theorem samePreimage_iff {o : Primitives} (hlength : hash.length = 20)
    (htxIn : index tx.txIn s.inputIndex.toInt = some txIn)
    (hindex : s.inputIndex.toInt < tx.txIn.length)
    (hnth : tx.txIn[s.inputIndex.toInt.toNat]? = some txIn) (hvalue : 0 ≤ s.output.value.toInt) :
    SamePreimage o s tx hash ↔ Recorded s.sigHashes tx txIn s.output.value hash := by
  have hsigner : signerSigHash o s tx hash =
      some (preimage s.sigHashes tx txIn s.output.value hash) :=
    sigHash_witnessPubKeyHash o hindex htxIn
  constructor
  · rintro ⟨p, hwallet, -⟩
    exact ((walletSigHash_eq_some_iff hlength hnth hvalue).mp hwallet).1
  · intro hrecorded
    refine ⟨correct, (walletSigHash_eq_some_iff hlength hnth hvalue).mpr ⟨hrecorded, rfl⟩, ?_⟩
    rw [hsigner, (preimage_eq_correct_iff hlength).mpr hrecorded]

end Preimages

/-! ### The input scripts -/

section InputScripts

variable {o : Primitives} {builder : ScriptBuilder} {Address MasterKey : Type}
  {library : Library Address MasterKey} {raw : Bytes} {tx : MsgTx} {txIn : TxIn}
  {s : SignDescriptor} {key : PrivateKey} {masterkey : MasterKey}

/-- The same script, and the same two elements of the witness. -/
def Agree (wallet : Option WalletSigning.InputScript) (signer : Option InputScript) : Prop :=
  ∃ r, wallet = some r ∧ signer = some ⟨[r.witness.1, r.witness.2], r.scriptSig⟩

/-- The input is the recorded one, and so are its digest and its signature. -/
structure RecordedRun (o : Primitives) (library : Library Address MasterKey) (tx : MsgTx)
    (txIn : TxIn) (s : SignDescriptor) (key : PrivateKey) : Prop where
  address : (library.getAddressFromOutputScript s.output.pkScript).isSome = true
  input : Recorded s.sigHashes tx txIn s.output.value (o.hash160 (o.pubKey key)).val
  digest : o.doubleHash correct = recordedDigest
  signature : (o.sign key recordedDigest).map (fun sig => sig ++ [1]) = some ref

theorem rawTxInWitnessSignature_eq_some_iff {hash : ByteArrayOf 20} {sig : Bytes}
    (hparse : o.deserialize raw = some tx)
    (htxIn : tx.txIn[s.inputIndex.toInt.toNat]? = some txIn) (hvalue : 0 ≤ s.output.value.toInt) :
    WalletSigning.rawTxInWitnessSignature o library raw (represent s).sigHashes
        (represent s).inputIndex (represent s).output.value (0x00 :: 0x14 :: hash.val)
        WalletSigning.sigHashAll key = some sig ↔
      Recorded s.sigHashes tx txIn s.output.value hash.val ∧
        o.doubleHash correct = recordedDigest ∧
          (o.sign key recordedDigest).map (fun sig => sig ++ [1]) = some sig := by
  have hdigest : ∀ {digest}, WalletSigning.calcWitnessSignatureHash o (programOps hash.val)
      (represent s).sigHashes WalletSigning.sigHashAll raw (represent s).inputIndex
        (represent s).output.value = some digest ↔
      Recorded s.sigHashes tx txIn s.output.value hash.val ∧ o.doubleHash correct = digest := by
    intro digest
    rw [WalletSigning.calcWitnessSignatureHash, bind_of_eq_some hparse]
    change (walletSigHash s tx hash.val >>= fun p => some (o.doubleHash p)) = _ ↔ _
    rw [bind_eq_some]
    constructor
    · rintro ⟨p, hp, hhash⟩
      obtain ⟨hrecorded, rfl⟩ :=
        (walletSigHash_eq_some_iff hash.property htxIn hvalue).mp hp
      exact ⟨hrecorded, Option.some.inj hhash⟩
    · rintro ⟨hrecorded, rfl⟩
      exact ⟨correct,
        (walletSigHash_eq_some_iff hash.property htxIn hvalue).mpr ⟨hrecorded, rfl⟩, rfl⟩
  have happend : (o.sign key recordedDigest >>=
      fun sig => some (sig ++ WalletSigning.sigHashAll)) =
        (o.sign key recordedDigest).map fun sig => sig ++ [1] := Option.map_eq_bind.symm
  rw [WalletSigning.rawTxInWitnessSignature,
    bind_of_eq_some (library.scriptGetOp_witnessPubKeyHash hash)]
  rw [bind_eq_some]
  constructor
  · rintro ⟨digest, hcalc, hrun⟩
    obtain ⟨hrecorded, rfl⟩ := hdigest.mp hcalc
    obtain ⟨heq, hrun⟩ := assert_bind_eq_some.mp hrun
    rw [heq] at hrun
    exact ⟨hrecorded, heq, happend.symm.trans hrun⟩
  · rintro ⟨hrecorded, heq, hsign⟩
    exact ⟨recordedDigest, hdigest.mpr ⟨hrecorded, heq⟩,
      assert_bind_eq_some.mpr ⟨rfl, happend.trans hsign⟩⟩

theorem refwitnessprogram_eq_iff {hash : Bytes} :
    WalletSigning.refwitnessprogram = [0x00, 0x14] ++ hash ↔
      hash = (correct.drop 108).take 20 := by
  have hcut : WalletSigning.refwitnessprogram = [0x00, 0x14] ++ (correct.drop 108).take 20 := rfl
  rw [hcut, List.append_cancel_left_eq, eq_comm]

theorem walletComputeInputScript_eq_some_iff {r : WalletSigning.InputScript}
    (hparse : o.deserialize raw = some tx)
    (htxIn : tx.txIn[s.inputIndex.toInt.toNat]? = some txIn) (hvalue : 0 ≤ s.output.value.toInt)
    (hsingle : s.singleTweak = none) (hdouble : s.doubleTweak = none)
    (hsearch : ∀ address, library.searchKey address masterkey = some key) :
    WalletSigning.computeInputScript o library raw (represent s) masterkey = some r ↔
      RecordedRun o library tx txIn s key ∧
        r = ⟨0x16 :: witnessPubKeyHash (o.hash160 (o.pubKey key)).val, (ref, o.pubKey key)⟩ := by
  set hash := o.hash160 (o.pubKey key) with hhash
  have hkey : unhexlify (WalletSigning.getPublicKey o key true) = some (o.pubKey key) :=
    unhexlify_hexlify _
  have htweak : WalletSigning.maybeTweakPrivKey (represent s) key = some key := by
    simp [WalletSigning.maybeTweakPrivKey, represent, hsingle, hdouble, Slice.bytes]
  have hwitness : ∀ {witness}, WalletSigning.witnessSignature o library raw
      (represent s).sigHashes (represent s).inputIndex (represent s).output.value
        (0x00 :: 0x14 :: hash.val) WalletSigning.sigHashAll key true = some witness ↔
      (Recorded s.sigHashes tx txIn s.output.value hash.val ∧
        o.doubleHash correct = recordedDigest ∧
          (o.sign key recordedDigest).map (fun sig => sig ++ [1]) = some ref) ∧
        witness = (ref, o.pubKey key) := by
    intro witness
    rw [WalletSigning.witnessSignature, bind_eq_some]
    constructor
    · rintro ⟨sig, hsig, hrun⟩
      obtain ⟨rfl, hrun⟩ := assert_bind_eq_some.mp hrun
      rw [bind_of_eq_some hkey] at hrun
      exact ⟨(rawTxInWitnessSignature_eq_some_iff hparse htxIn hvalue).mp hsig,
        (Option.some.inj hrun).symm⟩
    · rintro ⟨hrecorded, rfl⟩
      refine ⟨ref, (rawTxInWitnessSignature_eq_some_iff hparse htxIn hvalue).mpr hrecorded,
        assert_bind_eq_some.mpr ⟨rfl, ?_⟩⟩
      rw [bind_of_eq_some hkey]
  rw [WalletSigning.computeInputScript, bind_eq_some]
  constructor
  · rintro ⟨address, haddress, hrun⟩
    rw [bind_of_eq_some (hsearch address), bind_of_eq_some hkey] at hrun
    obtain ⟨-, hrun⟩ := assert_bind_eq_some.mp hrun
    obtain ⟨-, hrun⟩ := assert_bind_eq_some.mp hrun
    rw [bind_of_eq_some htweak, bind_eq_some] at hrun
    obtain ⟨witness, hwit, hrun⟩ := hrun
    obtain ⟨⟨hrecorded, hdigest, hsignature⟩, rfl⟩ := hwitness.mp hwit
    have hsome : (library.getAddressFromOutputScript s.output.pkScript).isSome = true :=
      Option.isSome_of_eq_some haddress
    exact ⟨⟨hsome, hrecorded, hdigest, hsignature⟩, (Option.some.inj hrun).symm⟩
  · rintro ⟨hrun, rfl⟩
    obtain ⟨address, haddress⟩ := Option.isSome_iff_exists.mp hrun.address
    refine ⟨address, haddress, ?_⟩
    have hprogram := refwitnessprogram_eq_iff.mpr hrun.input.pubKeyHash
    rw [bind_of_eq_some (hsearch address), bind_of_eq_some hkey]
    refine assert_bind_eq_some.mpr ⟨hprogram, assert_bind_eq_some.mpr ⟨?_, ?_⟩⟩
    · exact congrArg (List.cons 0x16) hprogram.symm
    · rw [bind_of_eq_some htweak]
      exact bind_of_eq_some (hwitness.mpr ⟨⟨hrun.input, hrun.digest, hrun.signature⟩, rfl⟩) _

/-- The signers agree on an input without tweaks if and only if it is the
recorded one; and so do the preimages of their digests. -/
theorem signers_agree_iff (o : Primitives) (builder : ScriptBuilder)
    (library : Library Address MasterKey) (s : SignDescriptor) {raw : Bytes} {tx : MsgTx}
    {key : PrivateKey} {masterkey : MasterKey} (hparse : o.deserialize raw = some tx)
    (hnonneg : 0 ≤ s.inputIndex.toInt) (hindex : s.inputIndex.toInt < tx.txIn.length)
    (hvalue : 0 ≤ s.output.value.toInt) (hsingle : s.singleTweak = none)
    (hdouble : s.doubleTweak = none)
    (hsearch : ∀ address, library.searchKey address masterkey = some key) :
    ∃ txIn, tx.txIn[s.inputIndex.toInt.toNat]? = some txIn ∧
      (Agree (WalletSigning.computeInputScript o library raw (represent s) masterkey)
          (computeInputScript o builder tx s key) ↔ RecordedRun o library tx txIn s key) ∧
      ∀ hash : ByteArrayOf 20, SamePreimage o s tx hash.val ↔
        Recorded s.sigHashes tx txIn s.output.value hash.val := by
  obtain ⟨txIn, hnth, htxIn⟩ := index_eq_some hnonneg hindex
  have hsigner := computeInputScript_eq o builder key hindex htxIn hsingle hdouble
  refine ⟨txIn, hnth, ⟨?_, ?_⟩, ?_⟩
  · rintro ⟨r, hwallet, -⟩
    exact ((walletComputeInputScript_eq_some_iff hparse hnth hvalue hsingle hdouble hsearch).mp
      hwallet).1
  · intro hrun
    refine ⟨_, (walletComputeInputScript_eq_some_iff hparse hnth hvalue hsingle hdouble
      hsearch).mpr ⟨hrun, rfl⟩, ?_⟩
    obtain ⟨signature, hsign, happend⟩ := Option.map_eq_some_iff.mp hrun.signature
    rw [hsigner, (preimage_eq_correct_iff (o.hash160 _).property).mpr hrun.input, hrun.digest,
      hsign, Option.map_some, signed, happend]
  · intro hash
    exact samePreimage_iff hash.property htxIn hindex hnth hvalue

end InputScripts

/-! ### The recorded input -/

def recordedTransaction : Bytes :=
  [1, 0, 0, 0, 1, 211, 171, 158, 20, 224, 139, 71, 93, 77, 94, 74, 135, 98, 70, 57, 191, 79, 168,
    32, 75, 105, 235, 123, 26, 235, 34, 171, 178, 162, 172, 163, 27, 1, 0, 0, 0, 0, 255, 255, 255,
    255, 2, 16, 39, 0, 0, 0, 0, 0, 0, 34, 0, 32, 241, 106, 220, 228, 192, 219, 245, 222, 136, 170,
    106, 154, 87, 194, 100, 111, 30, 116, 37, 236, 5, 105, 182, 73, 206, 51, 218, 34, 151, 46,
    170, 28, 224, 149, 11, 84, 2, 0, 0, 0, 22, 0, 20, 145, 192, 229, 78, 173, 112, 91, 95, 249,
    249, 254, 9, 53, 182, 97, 159, 113, 210, 165, 116, 0, 0, 0, 0]

def recordedTx : MsgTx where
  version := 1
  txIn := [⟨⟨⟨(correct.drop 68).take 32, rfl⟩, 1⟩, [], [], 0xffffffff⟩]
  txOut := [
    ⟨10000,
      [0, 32, 241, 106, 220, 228, 192, 219, 245, 222, 136, 170, 106, 154, 87, 194, 100, 111, 30,
        116, 37, 236, 5, 105, 182, 73, 206, 51, 218, 34, 151, 46, 170, 28]⟩,
    ⟨9999980000,
      [0, 20, 145, 192, 229, 78, 173, 112, 91, 95, 249, 249, 254, 9, 53, 182, 97, 159, 113, 210,
        165, 116]⟩]
  lockTime := 0

def recordedKey : PrivateKey :=
  simpleBtcec.privKeyFromBytes
    [227, 0, 92, 166, 142, 91, 9, 127, 71, 60, 232, 138, 62, 20, 208, 83, 191, 85, 135, 108, 94,
      243, 108, 105, 17, 47, 130, 70, 14, 222, 55, 7]

def recordedPubKey : Bytes :=
  [2, 152, 114, 200, 214, 173, 54, 35, 226, 31, 183, 214, 244, 94, 192, 247, 57, 2, 88, 88, 67,
    25, 135, 209, 219, 147, 55, 211, 41, 252, 217, 54, 52]

/-- Functions with the recorded values at the recorded arguments. -/
def recordedPrimitives : Primitives where
  toBtcec := simpleBtcec
  pubKey := fun _ => recordedPubKey
  sha256 := fun _ => zeroHash
  uncompressedPubKey := fun _ => []
  hash160 := fun _ => ⟨(correct.drop 108).take 20, rfl⟩
  doubleHash := fun text => if text = correct then recordedDigest else zeroHash
  deserialize := fun raw => if raw = recordedTransaction then some recordedTx else none
  sign := fun _ _ => some (ref.take 70)

def simpleBuilder : ScriptBuilder where
  payToAddrScript := fun hash => witnessPubKeyHash hash.val
  addData := fun data => UInt8.ofNat data.length :: data
  payToAddrScript_eq := fun _ => rfl
  addData_eq := fun _ _ _ => rfl

/-- A library in which an output script is its own address, and the master key
is the key of every address. -/
def simpleLibrary : Library Bytes PrivateKey where
  getAddressFromOutputScript := some
  searchKey := fun _ key => some key
  scriptGetOp := fun script => match script with
    | 0x00 :: 0x14 :: hash => some [⟨0, [], 1⟩, ⟨20, hash, 22⟩]
    | _ => none
  scriptGetOp_witnessPubKeyHash := fun _ => rfl

def recordedDescriptor (value : Int64) : SignDescriptor where
  pubKey := none
  singleTweak := none
  doubleTweak := none
  witnessScript := none
  output := ⟨value,
    [169, 20, 128, 199, 54, 81, 52, 79, 130, 219, 224, 213, 226, 92, 93, 27, 6, 153, 193, 105, 11,
      130, 135]⟩
  hashType := 1
  sigHashes :=
    { hashPrevOuts := ⟨(correct.drop 4).take 32, rfl⟩
      hashSequence := ⟨(correct.drop 36).take 32, rfl⟩
      hashOutputs := ⟨(correct.drop 142).take 32, rfl⟩ }
  inputIndex := 0

theorem signers_agree_recorded :
    Agree
      (WalletSigning.computeInputScript recordedPrimitives simpleLibrary recordedTransaction
        (represent (recordedDescriptor 10000000000)) recordedKey)
      (computeInputScript recordedPrimitives simpleBuilder recordedTx
        (recordedDescriptor 10000000000) recordedKey) := by
  have hparse : recordedPrimitives.deserialize recordedTransaction = some recordedTx := by
    simp [recordedPrimitives]
  have hdigest : recordedPrimitives.doubleHash correct = recordedDigest := by
    simp [recordedPrimitives]
  obtain ⟨txIn, htxIn, hagree, -⟩ := signers_agree_iff recordedPrimitives simpleBuilder
    simpleLibrary (recordedDescriptor 10000000000) hparse (by decide) (by decide) (by decide)
    rfl rfl (fun _ => rfl)
  cases htxIn
  refine hagree.mpr ⟨rfl, ?_, hdigest, rfl⟩
  exact ⟨rfl, rfl, rfl, rfl, rfl, rfl, rfl, rfl, rfl, rfl⟩

/-- With another amount the signer signs and the wallet fails. -/
theorem signers_disagree_on_amount :
    ¬ Agree
      (WalletSigning.computeInputScript recordedPrimitives simpleLibrary recordedTransaction
        (represent (recordedDescriptor 10000)) recordedKey)
      (computeInputScript recordedPrimitives simpleBuilder recordedTx
        (recordedDescriptor 10000) recordedKey) ∧
    (computeInputScript recordedPrimitives simpleBuilder recordedTx
      (recordedDescriptor 10000) recordedKey).isSome = true := by
  constructor
  · have hwallet : WalletSigning.computeInputScript recordedPrimitives simpleLibrary
        recordedTransaction (represent (recordedDescriptor 10000)) recordedKey = none := by
      decide +kernel
    rintro ⟨r, hsome, -⟩
    rw [hwallet] at hsome
    cases hsome
  · rw [computeInputScript_eq recordedPrimitives simpleBuilder recordedKey (by decide) rfl rfl rfl]
    rfl

end ElectrumLightning.SignerAgreement
