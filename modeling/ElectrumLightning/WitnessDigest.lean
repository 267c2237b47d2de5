import ElectrumLightning.ScriptRoundTrip
import ElectrumLightning.SignerAgreement
import ElectrumLightning.TransactionEncoding
import Mathlib.Data.Nat.Bitwise

/-!
The digest that the signer computes for a witness input, compared with the
preimage that is defined for it.
-/

namespace ElectrumLightning.WitnessDigest

open ElectrumLightning.ByteStrings
open ElectrumLightning.ProxySerialization
open ElectrumLightning.ScriptParsing
open ElectrumLightning.ScriptRoundTrip
open ElectrumLightning.SignerAgreement
open ElectrumLightning.TransactionEncoding
open ElectrumLightning.WitnessSigning

/-! ### The script -/

theorem opcode_of_parseOpcode {instr : UInt8} {rest rest' : Bytes} {pop : ParsedOpcode}
    (h : parseOpcode instr rest = some (pop, rest')) : pop.opcode = opcodeArray instr := by
  unfold parseOpcode at h
  dsimp only at h
  split_ifs at h <;> cases h <;> rfl

theorem opcode_of_parseScript {script : Bytes} {pops : List ParsedOpcode}
    (h : parseScript script = some pops) {pop : ParsedOpcode} (hpop : pop ∈ pops) :
    pop.opcode = opcodeArray pop.opcode.value := by
  induction hlength : script.length using Nat.strong_induction_on generalizing script pops with
  | _ n ih =>
      rcases script with _ | ⟨instr, rest⟩
      · rw [parseScript_nil] at h
        cases h
        cases hpop
      · rcases hparse : parseOpcode instr rest with _ | ⟨first, rest'⟩
        · rw [parseScript_cons_none hparse] at h
          cases h
        · rw [parseScript_cons hparse] at h
          obtain ⟨pops, hpops, rfl⟩ := Option.map_eq_some_iff.mp h
          rcases List.mem_cons.mp hpop with rfl | hlater
          · rw [opcode_of_parseOpcode hparse, opcodeArray_value]
          · have hle := length_le_of_parseOpcode hparse
            refine ih rest'.length ?_ hpops hlater rfl
            rw [← hlength, List.length_cons]
            omega

theorem unparseScript_of_parseScript {script : Bytes} {pops : List ParsedOpcode}
    (h : parseScript script = some pops) : unparseScript pops = some script := by
  rcases parseScriptTemplate_cases (Nat.lt_succ_self script.length) with
    ⟨other, hother, hunparse, -⟩ | ⟨hnone, -⟩
  · rw [h] at hother
    cases hother
    exact hunparse
  · rw [h] at hnone
    cases hnone

theorem length_opcodeArray_op0 : (opcodeArray op0).length = 1 := rfl

theorem length_opcodeArray_opData20 : (opcodeArray opData20).length = (20 : Nat) + 1 := rfl

theorem isWitnessPubKeyHash_iff {script : Bytes} {pops : List ParsedOpcode}
    (h : parseScript script = some pops) :
    isWitnessPubKeyHash pops = true ↔ ∃ hash : Bytes, hash.length = 20 ∧
      script = witnessPubKeyHash hash ∧
        pops = [⟨opcodeArray op0, []⟩, ⟨opcodeArray opData20, hash⟩] := by
  constructor
  · intro hwitness
    rcases pops with _ | ⟨⟨firstOp, firstData⟩, _ | ⟨⟨secondOp, hash⟩, _ | ⟨third, pops⟩⟩⟩
    · cases hwitness
    · cases hwitness
    · simp only [isWitnessPubKeyHash, decide_eq_true_eq] at hwitness
      have hfirst := opcode_of_parseScript h List.mem_cons_self
      have hsecond := opcode_of_parseScript h (List.mem_cons_of_mem _ List.mem_cons_self)
      simp only [hwitness] at hfirst hsecond
      subst hfirst hsecond
      have hunparse := unparseScript_of_parseScript h
      obtain ⟨b, hb, hrest⟩ := Option.bind_eq_some_iff.mp hunparse
      obtain ⟨tail, htail, hscript⟩ := Option.bind_eq_some_iff.mp hrest
      obtain ⟨c, hc, hlast⟩ := Option.bind_eq_some_iff.mp htail
      rw [bytes_single length_opcodeArray_op0] at hb
      rw [bytes_fixed (by decide) length_opcodeArray_opData20] at hc
      obtain ⟨hempty, hb⟩ := Option.ite_none_right_eq_some.mp hb
      obtain ⟨hlength, hc⟩ := Option.ite_none_right_eq_some.mp hc
      have hnil : firstData = [] := hempty
      subst hnil
      refine ⟨hash, hlength, ?_, rfl⟩
      cases hb
      cases hc
      cases hlast
      cases hscript
      simp [witnessPubKeyHash, opcodeArray_value]
    · cases hwitness
  · rintro ⟨hash, -, -, rfl⟩
    rfl

theorem witnessPubKeyHash_iff (script : Bytes) :
    (∃ hash : Bytes, hash.length = 20 ∧ script = witnessPubKeyHash hash) ↔
      script.length = 22 ∧ script.take 2 = [op0, opData20] := by
  constructor
  · rintro ⟨hash, hlength, rfl⟩
    refine ⟨?_, rfl⟩
    simp [witnessPubKeyHash, hlength]
  · rintro ⟨hlength, htake⟩
    refine ⟨script.drop 2, ?_, ?_⟩
    · rw [List.length_drop, hlength]
    · rw [witnessPubKeyHash, ← List.take_append_drop 2 script, htake]
      rfl

theorem scriptCode_eq_digestScript {script : Bytes} {pops : List ParsedOpcode}
    (h : parseScript script = some pops) : scriptCode pops = digestScript script := by
  by_cases hwitness : isWitnessPubKeyHash pops = true
  · obtain ⟨hash, hlength, rfl, rfl⟩ := (isWitnessPubKeyHash_iff h).mp hwitness
    have hshape := (witnessPubKeyHash_iff _).mp ⟨hash, hlength, rfl⟩
    rw [scriptCode, if_pos hwitness, digestScript, if_pos hshape]
    rfl
  · have hshape : ¬ (script.length = 22 ∧ script.take 2 = [op0, opData20]) := by
      intro hshape
      obtain ⟨hash, hlength, rfl⟩ := (witnessPubKeyHash_iff script).mpr hshape
      rw [parseScript_witnessPubKeyHash hlength] at h
      cases h
      exact hwitness rfl
    rw [scriptCode, if_neg hwitness, digestScript, if_neg hshape, unparseScript_of_parseScript h,
      Option.getD_some, writeVarBytes_eq_varBytes]

/-! ### The bits of the hash type -/

theorem and_none_cases (hashType : UInt32) :
    hashType &&& sigHashNone = 0 ∨ hashType &&& sigHashNone = sigHashNone := by
  have hbit : (hashType &&& sigHashNone).toNat = (hashType.toNat.testBit 1).toNat * 2 := by
    rw [UInt32.toNat_and]
    exact Nat.and_two_pow hashType.toNat 1
  cases hvalue : hashType.toNat.testBit 1 <;> rw [hvalue] at hbit
  · exact .inl (UInt32.toNat_inj.mp hbit)
  · exact .inr (UInt32.toNat_inj.mp hbit)

theorem and_none_of_and {hashType value : UInt32} (mask : UInt32)
    (hmask : mask &&& sigHashNone = sigHashNone)
    (hvalue : value &&& sigHashNone = sigHashNone) (h : hashType &&& mask = value) :
    hashType &&& sigHashNone = sigHashNone :=
  calc
    hashType &&& sigHashNone = hashType &&& (mask &&& sigHashNone) := by rw [hmask]
    _ = value &&& sigHashNone := by rw [← UInt32.and_assoc, h]
    _ = sigHashNone := hvalue

/-- The second bit decides the choice in the source. -/
theorem outputs_unmasked_iff (hashType : UInt32) :
    (hashType &&& sigHashSingle ≠ sigHashSingle ∧ hashType &&& sigHashNone ≠ sigHashNone) ↔
      hashType &&& sigHashNone = 0 := by
  constructor
  · rintro ⟨-, hnone⟩
    exact (and_none_cases hashType).resolve_right hnone
  · intro hzero
    refine ⟨fun hsingle => ?_, fun hnone => ?_⟩
    · have hbit := and_none_of_and sigHashSingle rfl rfl hsingle
      rw [hzero] at hbit
      exact absurd hbit (by decide)
    · rw [hzero] at hnone
      exact absurd hnone (by decide)

theorem and_none_of_outputsType {hashType value : UInt32}
    (hvalue : value &&& sigHashNone = sigHashNone) (h : outputsType hashType = value) :
    hashType &&& sigHashNone = sigHashNone :=
  and_none_of_and 0x1f (by decide) hvalue h

theorem outputsType_ne_of_zero {hashType value : UInt32}
    (hvalue : value &&& sigHashNone = sigHashNone) (h : hashType &&& sigHashNone = 0) :
    outputsType hashType ≠ value := by
  intro htype
  have hbit := and_none_of_outputsType hvalue htype
  rw [h] at hbit
  exact absurd hbit (by decide)

theorem anyoneCanPay_eq_false_iff (hashType : UInt32) :
    anyoneCanPay hashType = false ↔ hashType &&& sigHashAnyOneCanPay = 0 := by
  rw [anyoneCanPay, decide_eq_false_iff_not, Ne, not_not]
  rfl

/-! ### The preimage -/

section Preimage

variable {o : Primitives} {tx : MsgTx} {sigHashes : TxSigHashes} {script : Bytes}
  {pops : List ParsedOpcode}

def opCodeSeparator : UInt8 := 0xab

/-- A script without separators that the signer parses, and the midstates of the
transaction. -/
structure Signable (o : Primitives) (tx : MsgTx) (sigHashes : TxSigHashes) (script : Bytes)
    (pops : List ParsedOpcode) : Prop where
  parsed : parseScript script = some pops
  noSeparator : ∀ pop ∈ pops, pop.opcode.value ≠ opCodeSeparator
  prevOuts : sigHashes.hashPrevOuts.val =
    o.doubleHash (tx.txIn.flatMap fun i => encodeOutPoint i.previousOutPoint)
  sequences : sigHashes.hashSequence.val =
    o.doubleHash (tx.txIn.flatMap fun i => littleEndian 4 i.sequence.toNat)
  outputs : sigHashes.hashOutputs.val = o.doubleHash (tx.txOut.flatMap encodeTxOut)

/-- The choice of the outputs in the source. -/
def signerHashOutputs (o : Primitives) (sigHashes : TxSigHashes) (tx : MsgTx) (idx : Nat)
    (hashType : UInt32) : Bytes :=
  if hashType &&& sigHashSingle ≠ sigHashSingle ∧ hashType &&& sigHashNone ≠ sigHashNone then
    sigHashes.hashOutputs.val
  else if hashType &&& sigHashMask = sigHashSingle ∧ (idx : Int) < tx.txOut.length then
    ((index tx.txOut idx).map fun out => o.doubleHash (writeTxOut out)).getD zeroHash
  else zeroHash

theorem index_natCast {α : Type} (xs : List α) (i : Nat) : index xs i = xs[i]? := by
  rw [index, if_neg (by omega), Int.toNat_natCast]

/-- The output that is signed alone, if there is one. -/
theorem signerHashOutputs_single {idx : Nat} {hashType : UInt32}
    (h : outputsType hashType = sigHashSingle) :
    signerHashOutputs o sigHashes tx idx hashType = hashOutputs o.doubleHash tx idx hashType := by
  have hbit := and_none_of_outputsType (by decide) h
  have hmasked : hashType &&& sigHashMask = sigHashSingle := h
  have hspec : ¬ (outputsType hashType ≠ sigHashSingle ∧ outputsType hashType ≠ sigHashNone) :=
    fun hboth => hboth.1 h
  rw [signerHashOutputs, if_neg (fun hboth => hboth.2 hbit), hashOutputs, if_neg hspec, if_pos h]
  rw [index_natCast]
  rcases hout : tx.txOut[idx]? with _ | out
  · have hrange : ¬ (hashType &&& sigHashMask = sigHashSingle ∧ (idx : Int) < tx.txOut.length) := by
      rw [List.getElem?_eq_none_iff] at hout
      omega
    rw [if_neg hrange]
    rfl
  · have hlt := (List.getElem?_eq_some_iff.mp hout).1
    rw [if_pos ⟨hmasked, by omega⟩, Option.map_some, Option.getD_some, writeTxOut_eq_encodeTxOut]

/-- The two choices agree, unless the second bit is set and the masked type is
neither of the two that it stands for. -/
theorem signerHashOutputs_eq_iff (h : Signable o tx sigHashes script pops) (idx : Nat)
    (hashType : UInt32) :
    signerHashOutputs o sigHashes tx idx hashType = hashOutputs o.doubleHash tx idx hashType ↔
      hashType &&& sigHashNone = 0 ∨ outputsType hashType = sigHashNone ∨
        outputsType hashType = sigHashSingle ∨ sigHashes.hashOutputs.val = zeroHash := by
  by_cases hzero : hashType &&& sigHashNone = 0
  · refine iff_of_true ?_ (.inl hzero)
    rw [signerHashOutputs, if_pos ((outputs_unmasked_iff hashType).mpr hzero), hashOutputs,
      if_pos ⟨outputsType_ne_of_zero (by decide) hzero, outputsType_ne_of_zero (by decide) hzero⟩,
      h.outputs]
  by_cases hsingle : outputsType hashType = sigHashSingle
  · exact iff_of_true (signerHashOutputs_single hsingle) (.inr (.inr (.inl hsingle)))
  have hsigner : signerHashOutputs o sigHashes tx idx hashType = zeroHash := by
    rw [signerHashOutputs, if_neg (fun hboth => hzero ((outputs_unmasked_iff hashType).mp hboth)),
      if_neg (fun hboth => hsingle hboth.1)]
  rw [hsigner]
  by_cases hnone : outputsType hashType = sigHashNone
  · refine iff_of_true ?_ (.inr (.inl hnone))
    rw [hashOutputs, if_neg (fun hboth => hboth.2 hnone), if_neg hsingle]
    rfl
  · rw [hashOutputs, if_pos ⟨hsingle, hnone⟩, ← h.outputs]
    constructor
    · intro heq
      exact .inr (.inr (.inr heq.symm))
    · rintro (hbit | htype | htype | heq)
      · exact absurd hbit hzero
      · exact absurd htype hnone
      · exact absurd htype hsingle
      · exact heq.symm

theorem hashPrevOuts_eq (h : Signable o tx sigHashes script pops) (hashType : UInt32) :
    (if hashType &&& sigHashAnyOneCanPay = 0 then sigHashes.hashPrevOuts.val else zeroHash) =
      hashPrevouts o.doubleHash tx hashType := by
  rw [h.prevOuts, hashPrevouts]
  cases hbit : anyoneCanPay hashType with
  | false => rw [if_pos ((anyoneCanPay_eq_false_iff hashType).mp hbit), if_neg Bool.false_ne_true]
  | true =>
      have hset : ¬ hashType &&& sigHashAnyOneCanPay = 0 := by
        rw [← anyoneCanPay_eq_false_iff, hbit]
        exact Bool.noConfusion
      rw [if_neg hset, if_pos rfl]
      rfl

theorem hashSequence_eq (h : Signable o tx sigHashes script pops) (hashType : UInt32) :
    (if hashType &&& sigHashAnyOneCanPay = 0 ∧ hashType &&& sigHashMask ≠ sigHashSingle ∧
        hashType &&& sigHashMask ≠ sigHashNone then sigHashes.hashSequence.val else zeroHash) =
      hashSequence o.doubleHash tx hashType := by
  rw [h.sequences]
  exact if_congr (and_congr_left' (anyoneCanPay_eq_false_iff hashType).symm) rfl rfl

theorem sigHash_eq (h : Signable o tx sigHashes script pops) {idx : Nat} {txIn : TxIn}
    (hin : tx.txIn[idx]? = some txIn) (amt : Int64) (hashType : UInt32) :
    sigHash o pops sigHashes hashType tx idx amt =
      some (littleEndian 4 tx.version.toBitVec.toNat ++ hashPrevouts o.doubleHash tx hashType ++
        hashSequence o.doubleHash tx hashType ++ encodeOutPoint txIn.previousOutPoint ++
        digestScript script ++ littleEndian 8 amt.toBitVec.toNat ++
        littleEndian 4 txIn.sequence.toNat ++ signerHashOutputs o sigHashes tx idx hashType ++
        littleEndian 4 tx.lockTime.toNat ++ littleEndian 4 hashType.toNat) := by
  have hlt := (List.getElem?_eq_some_iff.mp hin).1
  have hrange : ¬ ((idx : Int) > tx.txIn.length - 1) := by omega
  rw [sigHash, if_neg hrange, index_natCast, hin]
  simp only [hashPrevOuts_eq h, hashSequence_eq h, scriptCode_eq_digestScript h.parsed,
    Option.bind_eq_bind, Option.bind_some]
  rfl

theorem sigHash_eq_preimage_iff (h : Signable o tx sigHashes script pops) {idx : Nat}
    {txIn : TxIn} (hin : tx.txIn[idx]? = some txIn) (amt : Int64) (hashType : UInt32) :
    sigHash o pops sigHashes hashType tx idx amt =
        some (digestPreimage o.doubleHash tx txIn idx script amt hashType) ↔
      signerHashOutputs o sigHashes tx idx hashType =
        hashOutputs o.doubleHash tx idx hashType := by
  rw [sigHash_eq h hin, digestPreimage, Option.some_inj]
  simp only [List.append_left_inj, List.append_right_inj]

/-- The bytes that the signer hashes are the preimage exactly when the second bit
of the hash type is clear, or its masked type is one of the two types, or the
hash of the outputs is zero. -/
theorem witnessDigest_iff (h : Signable o tx sigHashes script pops) {idx : Nat} {txIn : TxIn}
    (hin : tx.txIn[idx]? = some txIn) (amt : Int64) (hashType : UInt32) :
    sigHash o pops sigHashes hashType tx idx amt =
        some (digestPreimage o.doubleHash tx txIn idx script amt hashType) ↔
      hashType &&& sigHashNone = 0 ∨ outputsType hashType = sigHashNone ∨
        outputsType hashType = sigHashSingle ∨ sigHashes.hashOutputs.val = zeroHash := by
  rw [sigHash_eq_preimage_iff h hin, signerHashOutputs_eq_iff h idx hashType]

end Preimage

/-! ### The recorded input -/

def recordedMidstates : TxSigHashes := (recordedDescriptor 0).sigHashes

/-- The three hashes of the recorded transaction. -/
def midstatePrimitives : Primitives :=
  { recordedPrimitives with
    doubleHash := fun text =>
      if text = recordedTx.txIn.flatMap fun i => encodeOutPoint i.previousOutPoint then
        recordedMidstates.hashPrevOuts.val
      else if text = recordedTx.txIn.flatMap fun i => littleEndian 4 i.sequence.toNat then
        recordedMidstates.hashSequence.val
      else if text = recordedTx.txOut.flatMap encodeTxOut then recordedMidstates.hashOutputs.val
      else zeroHash }

def recordedScript : Bytes := witnessPubKeyHash ((WalletSigning.correct.drop 108).take 20)

def recordedOpcodes : List ParsedOpcode :=
  [⟨opcodeArray op0, []⟩, ⟨opcodeArray opData20, (WalletSigning.correct.drop 108).take 20⟩]

theorem recorded_signable :
    Signable midstatePrimitives recordedTx recordedMidstates recordedScript recordedOpcodes where
  parsed := parseScript_witnessPubKeyHash rfl
  noSeparator := by decide
  prevOuts := by decide +kernel
  sequences := by decide +kernel
  outputs := by decide +kernel

theorem signAll_digests_preimage :
    sigHash midstatePrimitives recordedOpcodes recordedMidstates sigHashAll recordedTx 0
        10000000000 =
      some (digestPreimage midstatePrimitives.doubleHash recordedTx
        ⟨⟨⟨(WalletSigning.correct.drop 68).take 32, rfl⟩, 1⟩, [], [], 0xffffffff⟩ 0 recordedScript
        10000000000 sigHashAll) :=
  (witnessDigest_iff recorded_signable rfl 10000000000 sigHashAll).mpr (.inl rfl)

/-- With hash type 6 all outputs are signed, and the signer writes zeros. -/
theorem hashType_six_not_preimage :
    Signable midstatePrimitives recordedTx recordedMidstates recordedScript recordedOpcodes ∧
    sigHash midstatePrimitives recordedOpcodes recordedMidstates 6 recordedTx 0 10000000000 ≠
      some (digestPreimage midstatePrimitives.doubleHash recordedTx
        ⟨⟨⟨(WalletSigning.correct.drop 68).take 32, rfl⟩, 1⟩, [], [], 0xffffffff⟩ 0 recordedScript
        10000000000 6) := by
  refine ⟨recorded_signable, fun heq => ?_⟩
  have houtputs := (sigHash_eq_preimage_iff recorded_signable rfl 10000000000 6).mp heq
  exact absurd houtputs (by decide +kernel)

end ElectrumLightning.WitnessDigest
