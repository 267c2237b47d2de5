import ElectrumLightning.TransactionDecoding

/-!
Which byte strings the Go signer's decoder accepts, and what becomes of one that
is cut short.
-/

namespace ElectrumLightning.DecodedEncodings

open ElectrumLightning.ByteStrings
open ElectrumLightning.PrefixDecoding
open ElectrumLightning.ProxySerialization
open ElectrumLightning.TransactionDecoding
open ElectrumLightning.TransactionEncoding
open ElectrumLightning.WitnessSigning

variable {xs bs rest : Bytes}

/-! ### What was read -/

theorem readFull_eq_ok {n : Nat} (h : (readFull n).run xs = .ok (bs, rest)) :
    bs.length = n ∧ xs = bs ++ rest := by
  unfold StateT.run readFull at h
  split at h
  · rename_i hle
    cases h
    exact ⟨List.length_take_of_le hle, (List.take_append_drop n xs).symm⟩
  · split at h
    · cases h
    · cases h

theorem uintOfWidth_eq_ok {width n : Nat} (h : (uintOfWidth width).run xs = .ok (n, rest)) :
    n < 256 ^ width ∧ xs = littleEndian width n ++ rest := by
  obtain ⟨buf, mid, hbuf, hvalue⟩ := run_bind_eq_ok.mp h
  obtain ⟨rfl, rfl⟩ := run_pure_eq_ok.mp hvalue
  obtain ⟨rfl, rfl⟩ := readFull_eq_ok hbuf
  exact ⟨littleEndianValue_lt buf, by rw [littleEndian_littleEndianValue]⟩

theorem readVarIntOfWidth_eq_ok {width min n : Nat}
    (h : (readVarIntOfWidth (uintOfWidth width) min).run xs = .ok (n, rest)) :
    min ≤ n ∧ n < 256 ^ width ∧ xs = littleEndian width n ++ rest := by
  obtain ⟨rv, mid, hrv, hcheck⟩ := run_bind_eq_ok.mp h
  obtain ⟨u, mid', hguard, hlast⟩ := run_bind_eq_ok.mp hcheck
  obtain ⟨hmin, rfl⟩ := run_failIf_eq_ok.mp hguard
  obtain ⟨rfl, rfl⟩ := run_pure_eq_ok.mp hlast
  exact ⟨Nat.not_lt.mp hmin, uintOfWidth_eq_ok hrv⟩

/-- Only the shortest form of a number is read. -/
theorem readVarInt_eq_ok {n : Nat} (h : readVarInt.run xs = .ok (n, rest)) :
    n < 256 ^ 8 ∧ xs = compactSize n ++ rest := by
  obtain ⟨discriminant, mid, hdiscriminant, hrest⟩ := run_bind_eq_ok.mp h
  obtain ⟨hbyte, rfl⟩ := uintOfWidth_eq_ok hdiscriminant
  unfold readVarIntRest at hrest
  unfold compactSize
  split_ifs at hrest with height hfour htwo
  · obtain ⟨hmin, hlt, rfl⟩ := readVarIntOfWidth_eq_ok hrest
    subst height
    rw [if_neg (by omega), if_neg (by omega), if_neg (by omega)]
    exact ⟨hlt, rfl⟩
  · obtain ⟨hmin, hlt, rfl⟩ := readVarIntOfWidth_eq_ok hrest
    subst hfour
    rw [if_neg (by omega), if_neg (by omega), if_pos (by omega)]
    exact ⟨by omega, rfl⟩
  · obtain ⟨hmin, hlt, rfl⟩ := readVarIntOfWidth_eq_ok hrest
    subst htwo
    rw [if_neg (by omega), if_pos (by omega)]
    exact ⟨by omega, rfl⟩
  · obtain ⟨rfl, rfl⟩ := run_pure_eq_ok.mp hrest
    rw [if_pos (by omega)]
    exact ⟨by omega, rfl⟩

theorem readScript_eq_ok {maxAllowed : Nat} {fieldName : String}
    (h : (readScript maxAllowed fieldName).run xs = .ok (bs, rest)) :
    bs.length ≤ maxAllowed ∧ xs = varBytes bs ++ rest := by
  obtain ⟨count, mid, hcount, hrest⟩ := run_bind_eq_ok.mp h
  obtain ⟨u, mid', hguard, hfull⟩ := run_bind_eq_ok.mp hrest
  obtain ⟨hmax, rfl⟩ := run_failIf_eq_ok.mp hguard
  obtain ⟨rfl, rfl⟩ := readFull_eq_ok hfull
  obtain ⟨-, rfl⟩ := readVarInt_eq_ok hcount
  exact ⟨Nat.not_lt.mp hmax, by rw [varBytes, List.append_assoc]⟩

theorem readElementUint32_eq_ok {n : UInt32}
    (h : readElementUint32.run xs = .ok (n, rest)) : xs = littleEndian 4 n.toNat ++ rest := by
  obtain ⟨rv, mid, hrv, hlast⟩ := run_bind_eq_ok.mp h
  obtain ⟨rfl, rfl⟩ := run_pure_eq_ok.mp hlast
  obtain ⟨hlt, rfl⟩ := uintOfWidth_eq_ok hrv
  rw [UInt32.toNat_ofNat_of_lt' hlt]

theorem readElementInt64_eq_ok {n : Int64} (h : readElementInt64.run xs = .ok (n, rest)) :
    xs = littleEndian 8 n.toBitVec.toNat ++ rest := by
  obtain ⟨rv, mid, hrv, hlast⟩ := run_bind_eq_ok.mp h
  obtain ⟨rfl, rfl⟩ := run_pure_eq_ok.mp hlast
  obtain ⟨hlt, rfl⟩ := uintOfWidth_eq_ok hrv
  have hvalue : (Int64.ofNat rv).toBitVec.toNat = rv := by
    rw [Int64.toBitVec_ofNat', BitVec.toNat_ofNat]
    exact Nat.mod_eq_of_lt hlt
  rw [hvalue]

theorem readHash_eq_ok {hash : ByteArrayOf 32} (h : readHash.run xs = .ok (hash, rest)) :
    xs = hash.val ++ rest := by
  unfold StateT.run readHash at h
  split at h
  · cases h
    exact (List.take_append_drop 32 xs).symm
  · split at h
    · cases h
    · cases h

theorem readOutPoint_eq_ok {op : OutPoint} (h : readOutPoint.run xs = .ok (op, rest)) :
    xs = encodeOutPoint op ++ rest := by
  obtain ⟨hash, mid, hhash, hrest⟩ := run_bind_eq_ok.mp h
  obtain ⟨index, mid', hindex, hlast⟩ := run_bind_eq_ok.mp hrest
  obtain ⟨rfl, rfl⟩ := run_pure_eq_ok.mp hlast
  rw [readHash_eq_ok hhash, readElementUint32_eq_ok hindex, encodeOutPoint, List.append_assoc]

theorem readTxIn_eq_ok {txIn : TxIn} (h : readTxIn.run xs = .ok (txIn, rest)) :
    (txIn.signatureScript.length ≤ 10000 ∧ txIn.witness = []) ∧ xs = encodeTxIn txIn ++ rest := by
  obtain ⟨previousOutPoint, mid, hprevious, hrest⟩ := run_bind_eq_ok.mp h
  obtain ⟨signatureScript, mid', hscript, hrest⟩ := run_bind_eq_ok.mp hrest
  obtain ⟨sequence, mid'', hsequence, hlast⟩ := run_bind_eq_ok.mp hrest
  obtain ⟨rfl, rfl⟩ := run_pure_eq_ok.mp hlast
  obtain ⟨hmax, rfl⟩ := readScript_eq_ok hscript
  refine ⟨⟨hmax, rfl⟩, ?_⟩
  rw [readOutPoint_eq_ok hprevious, readElementUint32_eq_ok hsequence, encodeTxIn,
    List.append_assoc, List.append_assoc]

theorem readTxOut_eq_ok {txOut : TxOut} (h : readTxOut.run xs = .ok (txOut, rest)) :
    txOut.pkScript.length ≤ 10000 ∧ xs = encodeTxOut txOut ++ rest := by
  obtain ⟨value, mid, hvalue, hrest⟩ := run_bind_eq_ok.mp h
  obtain ⟨pkScript, mid', hscript, hlast⟩ := run_bind_eq_ok.mp hrest
  obtain ⟨rfl, rfl⟩ := run_pure_eq_ok.mp hlast
  obtain ⟨hmax, rfl⟩ := readScript_eq_ok hscript
  refine ⟨hmax, ?_⟩
  rw [readElementInt64_eq_ok hvalue, encodeTxOut, List.append_assoc]

theorem readWitness_eq_ok {total total' : Nat} {witness : List Bytes}
    (h : (readWitness total).run xs = .ok ((witness, total'), rest)) :
    (witness.length ≤ 100 ∧ ∀ item ∈ witness, item.length ≤ 1000) ∧
      total' = total + (witness.map List.length).sum ∧
      xs = compactSize witness.length ++ witness.flatMap varBytes ++ rest := by
  obtain ⟨witCount, mid, hcount, hrest⟩ := run_bind_eq_ok.mp h
  obtain ⟨u, mid', hguard, hitems⟩ := run_bind_eq_ok.mp hrest
  obtain ⟨hmax, rfl⟩ := run_failIf_eq_ok.mp hguard
  obtain ⟨rfl, hall, rfl, rfl⟩ := readMany_eq_ok (fun _ _ _ => readScript_eq_ok) hitems
  obtain ⟨-, rfl⟩ := readVarInt_eq_ok hcount
  exact ⟨⟨Nat.not_lt.mp hmax, hall⟩, rfl, by rw [List.append_assoc]⟩

theorem readWitnesses_eq_ok {txIns txIns' : List TxIn} {total total' : Nat}
    (hbare : ∀ txIn ∈ txIns, txIn.witness = [])
    (h : (readWitnesses txIns total).run xs = .ok ((txIns', total'), rest)) :
    txIns = txIns'.map withoutWitness ∧
      (∀ txIn ∈ txIns', txIn.witness.length ≤ 100 ∧ ∀ item ∈ txIn.witness, item.length ≤ 1000) ∧
      total' = total + (txIns'.map witnessSize).sum ∧
      xs = txIns'.flatMap encodeWitness ++ rest := by
  induction txIns generalizing txIns' total xs with
  | nil =>
      obtain ⟨hsame, rfl⟩ := run_pure_eq_ok.mp h
      cases hsame
      exact ⟨rfl, List.forall_mem_nil _, rfl, rfl⟩
  | cons txIn txIns ih =>
      obtain ⟨⟨witness, first⟩, mid, hwitness, hrest⟩ := run_bind_eq_ok.mp h
      obtain ⟨⟨others, last⟩, mid', hwitnesses, hlast⟩ := run_bind_eq_ok.mp hrest
      obtain ⟨hsame, rfl⟩ := run_pure_eq_ok.mp hlast
      cases hsame
      rw [List.forall_mem_cons] at hbare
      obtain ⟨hitems, rfl, rfl⟩ := readWitness_eq_ok hwitness
      obtain ⟨rfl, hall, rfl, rfl⟩ := ih hbare.2 hwitnesses
      refine ⟨?_, List.forall_mem_cons.mpr ⟨hitems, hall⟩, ?_, ?_⟩
      · rw [List.map_cons, withoutWitness, ← hbare.1]
      · rw [List.map_cons, List.sum_cons, ← Nat.add_assoc]
        rfl
      · rw [List.flatMap_cons, encodeWitness]
        simp only [List.append_assoc]

theorem readWitnessSection_eq_ok {segwit : Bool} {txIns txIns' : List TxIn} {total total' : Nat}
    (hbare : ∀ txIn ∈ txIns, txIn.witness = [])
    (h : (readWitnessSection (if segwit then 1 else 0) txIns total).run xs =
      .ok ((txIns', total'), rest)) :
    txIns = txIns'.map withoutWitness ∧
      (segwit = false → ∀ txIn ∈ txIns', txIn.witness = []) ∧
      (∀ txIn ∈ txIns', txIn.witness.length ≤ 100 ∧ ∀ item ∈ txIn.witness, item.length ≤ 1000) ∧
      total' = total + (txIns'.map witnessSize).sum ∧
      xs = (if segwit then txIns'.flatMap encodeWitness else []) ++ rest := by
  cases segwit with
  | true =>
      obtain ⟨hsame, hitems, htotal, hxs⟩ := readWitnesses_eq_ok hbare h
      exact ⟨hsame, fun hfalse => (by cases hfalse), hitems, htotal, hxs⟩
  | false =>
      obtain ⟨hsame, rfl⟩ := run_pure_eq_ok.mp h
      cases hsame
      refine ⟨(map_withoutWitness hbare).symm, fun _ => hbare, fun txIn hmem => ?_, ?_, rfl⟩
      · rw [hbare txIn hmem]
        exact ⟨Nat.zero_le _, List.forall_mem_nil _⟩
      · rw [sum_witnessSize hbare]
        rfl

theorem readInputCount_eq_ok {flag : UInt8} {count : Nat}
    (h : readInputCount.run xs = .ok ((flag, count), rest)) :
    ∃ segwit : Bool, flag = (if segwit then 1 else 0) ∧ (segwit = false → count ≠ 0) ∧
      xs = (if segwit then [0x00, 0x01] else []) ++ compactSize count ++ rest := by
  obtain ⟨first, mid, hfirst, hrest⟩ := run_bind_eq_ok.mp h
  obtain ⟨-, rfl⟩ := readVarInt_eq_ok hfirst
  split at hrest
  · rename_i hzero
    obtain ⟨byte, mid, hbyte, hrest⟩ := run_bind_eq_ok.mp hrest
    obtain ⟨u, mid, hguard, hrest⟩ := run_bind_eq_ok.mp hrest
    obtain ⟨second, mid, hsecond, hlast⟩ := run_bind_eq_ok.mp hrest
    obtain ⟨hone, rfl⟩ := run_failIf_eq_ok.mp hguard
    obtain ⟨hsame, rfl⟩ := run_pure_eq_ok.mp hlast
    cases hsame
    obtain ⟨-, rfl⟩ := readVarInt_eq_ok hsecond
    obtain ⟨-, rfl⟩ := uintOfWidth_eq_ok hbyte
    obtain rfl := not_ne_iff.mp hone
    subst hzero
    exact ⟨true, rfl, fun h => (by cases h), rfl⟩
  · rename_i hsome
    obtain ⟨hsame, rfl⟩ := run_pure_eq_ok.mp hrest
    cases hsame
    exact ⟨false, rfl, fun _ => hsome, rfl⟩

/-! ### The encodings of a transaction -/

theorem readMessage_eq_ok {tx : MsgTx} {total : Nat}
    (h : readMessage.run xs = .ok ((tx, total), rest)) :
    total = scriptSize tx ∧ Bounded tx ∧
      ∃ segwit, Encodable segwit tx ∧ xs = encodeWith segwit tx ++ rest := by
  obtain ⟨version, mid, hversion, h⟩ := run_bind_eq_ok.mp h
  obtain ⟨⟨flag, count⟩, mid, hcount, h⟩ := run_bind_eq_ok.mp h
  obtain ⟨u, mid, hguard, h⟩ := run_bind_eq_ok.mp h
  obtain ⟨⟨txIn, first⟩, mid, htxIn, h⟩ := run_bind_eq_ok.mp h
  obtain ⟨countOut, mid, hcountOut, h⟩ := run_bind_eq_ok.mp h
  obtain ⟨u', mid, hguardOut, h⟩ := run_bind_eq_ok.mp h
  obtain ⟨⟨txOut, second⟩, mid, htxOut, h⟩ := run_bind_eq_ok.mp h
  obtain ⟨⟨txIn', third⟩, mid, hwitness, h⟩ := run_bind_eq_ok.mp h
  obtain ⟨lockTime, mid, hlockTime, h⟩ := run_bind_eq_ok.mp h
  obtain ⟨hsame, rfl⟩ := run_pure_eq_ok.mp h
  cases hsame
  obtain ⟨hversionLt, rfl⟩ := uintOfWidth_eq_ok hversion
  obtain ⟨segwit, rfl, hsome, rfl⟩ := readInputCount_eq_ok hcount
  obtain ⟨hmax, rfl⟩ := run_failIf_eq_ok.mp hguard
  obtain ⟨rfl, hbare, rfl, rfl⟩ := readMany_eq_ok (fun _ _ _ => readTxIn_eq_ok) htxIn
  obtain ⟨-, rfl⟩ := readVarInt_eq_ok hcountOut
  obtain ⟨hmaxOut, rfl⟩ := run_failIf_eq_ok.mp hguardOut
  obtain ⟨rfl, hscripts, rfl, rfl⟩ := readMany_eq_ok (fun _ _ _ => readTxOut_eq_ok) htxOut
  obtain ⟨hlockTimeLt, rfl⟩ := uintOfWidth_eq_ok hlockTime
  obtain ⟨rfl, hnone, hitems, rfl, rfl⟩ :=
    readWitnessSection_eq_ok (fun txIn hmem => (hbare txIn hmem).2) hwitness
  rw [List.length_map] at hsome hmax
  refine ⟨?_, ⟨Nat.not_lt.mp hmax, Nat.not_lt.mp hmaxOut, fun txIn hmem => ?_, hscripts, hitems⟩,
    segwit, fun hfalse => ⟨?_, hnone hfalse⟩, ?_⟩
  · rw [scriptSize, Nat.zero_add, List.map_map]
    rfl
  · exact (hbare _ (List.mem_map_of_mem hmem)).1
  · exact List.ne_nil_of_length_pos (Nat.pos_of_ne_zero (hsome hfalse))
  · have hversion' : (Int32.ofNat version).toBitVec.toNat = version := by
      rw [Int32.toBitVec_ofNat', BitVec.toNat_ofNat]
      exact Nat.mod_eq_of_lt hversionLt
    rw [encodeWith, hversion', UInt32.toNat_ofNat_of_lt' hlockTimeLt, List.flatMap_map,
      List.length_map]
    simp only [List.append_assoc]
    rfl

/-- The decoder accepts exactly the two encodings of a transaction within its
bounds, whatever follows them. -/
theorem run_deserialize_eq_ok_iff {tx : MsgTx} :
    (∃ placed, deserialize.run xs = .ok (placed, rest) ∧ placed.contents = tx) ↔
      Bounded tx ∧ ∃ segwit, Encodable segwit tx ∧ xs = encodeWith segwit tx ++ rest := by
  constructor
  · rintro ⟨placed, h, rfl⟩
    obtain ⟨⟨tx, total⟩, mid, hmessage, hplace⟩ := run_bind_eq_ok.mp h
    obtain ⟨rfl, hbounded, segwit, hsegwit, rfl⟩ := readMessage_eq_ok hmessage
    obtain ⟨placed', hplaced', hcontents⟩ := placeScripts_contents tx
    simp only [hplaced'] at hplace
    obtain ⟨rfl, rfl⟩ := run_pure_eq_ok.mp hplace
    rw [hcontents]
    exact ⟨hbounded, segwit, hsegwit, rfl⟩
  · rintro ⟨hbounded, segwit, hsegwit, rfl⟩
    obtain ⟨placed, hplaced, hcontents⟩ := placeScripts_contents tx
    refine ⟨placed, ?_, hcontents⟩
    refine run_bind_eq_ok.mpr ⟨_, _, reads_readMessage hbounded hsegwit rest, ?_⟩
    simp only [hplaced]
    rfl

/-! ### Inputs that are cut short -/

/-- The reader had nothing, or not enough. -/
def Starved (e : Failure) : Prop := e = .eof ∨ e = .unexpectedEof

theorem incremental_readFull (n : Nat) : Incremental Starved (readFull n) := by
  intro xs ys
  unfold StateT.run readFull
  rcases Nat.lt_or_ge xs.length n with hshort | hfits
  · rw [if_neg (Nat.not_le.mpr hshort)]
    cases xs with
    | nil => exact .inl (.inl rfl)
    | cons x xs => exact .inl (.inr rfl)
  · have hmore : n ≤ (xs ++ ys).length := by
      rw [List.length_append]
      omega
    simp only [if_pos hfits, if_pos hmore, List.take_append_of_le_length hfits,
      List.drop_append_of_le_length hfits]

theorem incremental_readHash : Incremental Starved readHash := by
  intro xs ys
  unfold StateT.run readHash
  rcases Nat.lt_or_ge xs.length 32 with hshort | hfits
  · rw [dif_neg (Nat.not_le.mpr hshort)]
    cases xs with
    | nil => exact .inl (.inl rfl)
    | cons x xs => exact .inl (.inr rfl)
  · have hmore : 32 ≤ (xs ++ ys).length := by
      rw [List.length_append]
      omega
    simp only [dif_pos hfits, dif_pos hmore, List.take_append_of_le_length hfits,
      List.drop_append_of_le_length hfits]

theorem incremental_uintOfWidth (width : Nat) : Incremental Starved (uintOfWidth width) :=
  (incremental_readFull width).bind fun _ => .pure _

theorem incremental_readVarIntOfWidth (width min : Nat) :
    Incremental Starved (readVarIntOfWidth (uintOfWidth width) min) :=
  (incremental_uintOfWidth width).bind fun _ => (Incremental.failIf _ _).bind fun _ => .pure _

theorem incremental_readVarInt : Incremental Starved readVarInt :=
  (incremental_uintOfWidth 1).bind fun _ =>
    (incremental_readVarIntOfWidth 8 _).ite ((incremental_readVarIntOfWidth 4 _).ite
      ((incremental_readVarIntOfWidth 2 _).ite (.pure _)))

theorem incremental_readScript (maxAllowed : Nat) (fieldName : String) :
    Incremental Starved (readScript maxAllowed fieldName) :=
  incremental_readVarInt.bind fun count =>
    (Incremental.failIf _ _).bind fun _ => incremental_readFull count

theorem incremental_readElementUint32 : Incremental Starved readElementUint32 :=
  (incremental_uintOfWidth 4).bind fun _ => .pure _

theorem incremental_readTxIn : Incremental Starved readTxIn := by
  have houtPoint : Incremental Starved readOutPoint :=
    incremental_readHash.bind fun _ => incremental_readElementUint32.bind fun _ => .pure _
  exact houtPoint.bind fun _ => (incremental_readScript _ _).bind fun _ =>
    incremental_readElementUint32.bind fun _ => .pure _

theorem incremental_readTxOut : Incremental Starved readTxOut := by
  have hvalue : Incremental Starved readElementInt64 :=
    (incremental_uintOfWidth 8).bind fun _ => .pure _
  exact hvalue.bind fun _ => (incremental_readScript _ _).bind fun _ => .pure _

theorem incremental_readWitness (total : Nat) : Incremental Starved (readWitness total) :=
  incremental_readVarInt.bind fun count => (Incremental.failIf _ _).bind fun _ =>
    (incremental_readScript _ _).many List.length count total

theorem incremental_readWitnesses (txIns : List TxIn) (total : Nat) :
    Incremental Starved (readWitnesses txIns total) := by
  induction txIns generalizing total with
  | nil => exact .pure _
  | cons txIn txIns ih =>
      exact (incremental_readWitness total).bind fun _ => (ih _).bind fun _ => .pure _

theorem incremental_readInputCount : Incremental Starved readInputCount :=
  incremental_readVarInt.bind fun _ =>
    ((incremental_uintOfWidth 1).bind fun _ => (Incremental.failIf _ _).bind fun _ =>
      incremental_readVarInt.bind fun _ => .pure _).ite (.pure _)

theorem incremental_readMessage : Incremental Starved readMessage := by
  refine (incremental_uintOfWidth 4).bind fun version => ?_
  refine incremental_readInputCount.bind fun head => ?_
  refine (Incremental.failIf _ _).bind fun _ => ?_
  refine (incremental_readTxIn.many _ head.2 0).bind fun inputs => ?_
  refine incremental_readVarInt.bind fun count => ?_
  refine (Incremental.failIf _ _).bind fun _ => ?_
  refine (incremental_readTxOut.many _ count inputs.2).bind fun outputs => ?_
  refine ((incremental_readWitnesses inputs.1 outputs.2).ite (.pure _)).bind fun witnesses => ?_
  exact (incremental_uintOfWidth 4).bind fun _ => .pure _

theorem incremental_deserialize : Incremental Starved deserialize :=
  incremental_readMessage.bind fun ⟨_, _⟩ => .lift _

/-- An accepted input that is cut anywhere inside the transaction is refused for
want of input, never as malformed and never with a panic, and one that goes on
is accepted as the same transaction. -/
theorem deserialize_cut {placed : PlacedTx} (h : deserialize.run xs = .ok (placed, rest)) :
    (∀ more, deserialize.run (xs ++ more) = .ok (placed, rest ++ more)) ∧
      ∀ front back, xs = front ++ back → rest.length < back.length →
        deserialize.run front = .error .eof ∨ deserialize.run front = .error .unexpectedEof := by
  constructor
  · intro more
    have hmore := incremental_deserialize xs more
    rw [h] at hmore
    exact hmore
  · rintro front back rfl hcut
    obtain ⟨e, rfl | rfl, herror⟩ := incremental_deserialize.starved_of_append h hcut
    · exact .inl herror
    · exact .inr herror

theorem deserialize_cut_twoInputs :
    ∃ placed, (∀ more, deserialize.run (encodeTx twoInputs ++ more) = .ok (placed, more)) ∧
      ∀ front back, encodeTx twoInputs = front ++ back → 0 < back.length →
        deserialize.run front = .error .eof ∨ deserialize.run front = .error .unexpectedEof := by
  have hlimits : WithinLimits twoInputs := by
    refine ⟨⟨?_, ?_, ?_, ?_, ?_⟩, ?_⟩
    all_goals decide
  obtain ⟨placed, hreads, -⟩ := reads_deserialize hlimits
  have hrun := hreads []
  rw [List.append_nil] at hrun
  exact ⟨placed, deserialize_cut hrun⟩

end ElectrumLightning.DecodedEncodings
