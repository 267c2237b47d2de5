import ElectrumLightning.SigndescDecoding

/-!
The grammar of a signing request. The wallet's decoder never looks ahead, and
its slices never fail, but every field that is cut short is noticed by a later
assertion.
-/

namespace ElectrumLightning.RequestGrammar

open ElectrumLightning.ByteStrings
open ElectrumLightning.ProxySerialization
open ElectrumLightning.SigndescDecoding

def be16 (n : Nat) : Bytes := bigEndian 2 n

def prefixed (bs : Bytes) : Bytes := be16 bs.length ++ bs

/-- The fields of a request, in the order in which they stand. -/
structure Fields where
  tx : Bytes
  pubKey : ByteArrayOf 33
  singleTweak : Bytes
  doubleTweak : ByteArrayOf 32
  witnessScript : Bytes
  value : ByteArrayOf 8
  pkScript : Bytes
  hashType : ByteArrayOf 4
  hashPrevOuts : ByteArrayOf 32
  hashSequence : ByteArrayOf 32
  hashOutputs : ByteArrayOf 32
  inputIndex : ByteArrayOf 8
  nodeId : ByteArrayOf 33

namespace Fields

def front (f : Fields) : Bytes :=
  f.pubKey.val ++ (prefixed f.singleTweak ++ (f.doubleTweak.val ++ (prefixed f.witnessScript ++
    (f.value.val ++ prefixed f.pkScript))))

def back (f : Fields) : Bytes :=
  f.hashType.val ++ f.hashPrevOuts.val ++ f.hashSequence.val ++ f.hashOutputs.val ++
    f.inputIndex.val

def descriptor (f : Fields) : Bytes := f.front ++ f.back

def body (f : Fields) : Bytes := prefixed f.tx ++ prefixed f.descriptor ++ f.nodeId.val

/-- Both lengths fit into 16 bits, and with the second one every length within
the descriptor. -/
structure Sized (f : Fields) : Prop where
  tx : f.tx.length < 65536
  descriptor : f.descriptor.length < 65536

end Fields

/-! ### Writing back what was read -/

def writeHead (head : Head) : Bytes :=
  head.pubKey ++ (prefixed head.singleTweak ++ (head.doubleTweak ++
    (prefixed head.witnessScript ++ (bigEndian 8 head.outputValue ++
      prefixed head.outputPkScript))))

def writeTail (tail : Tail) : Bytes :=
  tail.hashType ++ tail.sigHashes.hashPrevOuts ++ tail.sigHashes.hashSequence ++
    tail.sigHashes.hashOutputs ++ bigEndian 8 tail.inputIndex

/-- The fields in their order; an absent tweak is empty or 32 zeros, an absent
witness script is empty. -/
def writeSigndesc (s : Signdesc) : Bytes :=
  writeHead
    { pubKey := s.pubKey
      singleTweak := s.singleTweak.getD []
      doubleTweak := s.doubleTweak.getD (List.replicate 32 0)
      witnessScript := s.witnessScript.getD []
      outputValue := s.output.value
      outputPkScript := s.output.pkScript } ++
  writeTail
    { hashType := s.hashType
      sigHashes := s.sigHashes
      inputIndex := s.inputIndex }

def writeRequest (r : Bytes × Signdesc × Bytes) : Bytes :=
  prefixed r.1 ++ prefixed (writeSigndesc r.2.1) ++ r.2.2

/-! ### A field that was read is what stands there -/

section Slices

variable {xs : Bytes} {n : Nat}

theorem length_sliceTo_of_lt (h : n < xs.length) : (sliceTo xs n).length = n := by
  rw [sliceTo, sliceBound_natCast, List.length_take]
  omega

theorem sliceFrom_ne_nil_of_lt (h : n < xs.length) : sliceFrom xs n ≠ [] := by
  rw [sliceFrom, sliceBound_natCast, ne_eq, List.drop_eq_nil_iff]
  omega

/-- A last slice that leaves something before it is not cut short. -/
theorem length_sliceFrom_neg {k : Int} (hk : k < 0) (h : sliceTo xs k ≠ []) :
    ((sliceFrom xs k).length : Int) = -k := by
  have hbound : sliceBound xs k = (k + xs.length).toNat := if_pos hk
  have hpos : 0 < sliceBound xs k := by
    apply Nat.pos_of_ne_zero
    intro hzero
    exact h (by rw [sliceTo, hzero, List.take_zero])
  rw [sliceFrom, List.length_drop]
  omega

/-- The bound that counts from the end and the one that counts from the front
are one position. -/
theorem sliceTo_sub_append_sliceFrom_neg (k : Nat) (hk : 0 < k)
    (h : (sliceFrom xs (-k)).length = k) :
    sliceTo xs (xs.length - k) ++ sliceFrom xs (-k) = xs := by
  have hneg : sliceBound xs (-k) = (-k + xs.length : Int).toNat := if_pos (by omega)
  have hle : k ≤ xs.length := by
    rw [sliceFrom, List.length_drop] at h
    omega
  have hbound : sliceBound xs (xs.length - k) = sliceBound xs (-k) := by
    rw [hneg, sliceBound, if_neg (by omega)]
    omega
  rw [sliceTo, hbound, sliceFrom, List.take_append_drop]

theorem eq_bigEndian_of_toint (h : toint xs = some n) :
    xs = bigEndian xs.length n ∧ n < 256 ^ xs.length := by
  unfold toint at h
  split at h
  · obtain rfl := Option.some_inj.mp h
    exact ⟨(bigEndian_bigEndianValue xs).symm, bigEndianValue_lt xs⟩
  · contradiction

theorem ne_nil_of_lt (h : n < xs.length) : xs ≠ [] := by
  rintro rfl
  exact absurd h (Nat.not_lt_zero n)

theorem length_sliceTo_eq (width : Nat) {k : Int} (hk : (width : Int) = k)
    (h : sliceFrom xs k ≠ []) : (sliceTo xs k).length = width := by
  have hlength := length_sliceTo (by omega) h
  omega

theorem sliceFrom_eq_self {k : Int} (h : sliceTo xs k = []) : sliceFrom xs k = xs := by
  have hwhole := sliceTo_append_sliceFrom xs k
  rwa [h, List.nil_append] at hwhole

theorem append_of_toint (width : Nat) {k : Int} (hk : (width : Int) = k)
    (h : toint (sliceTo xs k) = some n) (hne : sliceFrom xs k ≠ []) :
    n < 256 ^ width ∧ bigEndian width n ++ sliceFrom xs k = xs := by
  obtain ⟨heq, hlt⟩ := eq_bigEndian_of_toint h
  rw [length_sliceTo_eq width hk hne] at heq hlt
  rw [← heq, sliceTo_append_sliceFrom]
  exact ⟨hlt, rfl⟩

theorem prefixed_append_of_toint (h : toint (sliceTo xs 2) = some n)
    (hlt : n < (sliceFrom xs 2).length) :
    (sliceTo (sliceFrom xs 2) n).length < 65536 ∧
      prefixed (sliceTo (sliceFrom xs 2) n) ++ sliceFrom (sliceFrom xs 2) n = xs := by
  obtain ⟨hn, heq⟩ := append_of_toint 2 (by rfl) h (ne_nil_of_lt hlt)
  rw [prefixed, length_sliceTo_of_lt hlt, List.append_assoc, sliceTo_append_sliceFrom]
  exact ⟨hn, heq⟩

end Slices

structure HeadSized (head : Head) : Prop where
  pubKey : head.pubKey.length = 33
  singleTweak : head.singleTweak.length < 65536
  doubleTweak : head.doubleTweak.length = 32
  witnessScript : head.witnessScript.length < 65536
  outputValue : head.outputValue < 256 ^ 8
  outputPkScript : head.outputPkScript.length < 65536

structure TailSized (tail : Tail) : Prop where
  hashType : tail.hashType.length = 4
  hashPrevOuts : tail.sigHashes.hashPrevOuts.length = 32
  hashSequence : tail.sigHashes.hashSequence.length = 32
  hashOutputs : tail.sigHashes.hashOutputs.length = 32
  inputIndex : tail.inputIndex < 256 ^ 8

theorem tailSized_mk {hashtype prevouts sequence outputs : Bytes} {inputindex : Nat}
    (hhashtype : hashtype.length = 4) (hprevouts : prevouts.length = 32)
    (hsequence : sequence.length = 32) (houtputs : outputs.length = 32)
    (hinputindex : inputindex < 256 ^ 8) :
    TailSized ⟨hashtype, ⟨outputs, sequence, prevouts⟩, inputindex⟩ :=
  ⟨hhashtype, hprevouts, hsequence, houtputs, hinputindex⟩

theorem decodeHead_writeHead {head : Head} (h : HeadSized head) {rest : Bytes}
    (hrest : rest ≠ []) : decodeHead (writeHead head ++ rest) = some (head, rest) := by
  simp only [writeHead, prefixed, be16, List.append_assoc]
  exact decodeHead_append h.pubKey h.singleTweak h.doubleTweak h.witnessScript h.outputValue
    h.outputPkScript hrest

theorem decodeTail_writeTail {tail : Tail} (h : TailSized tail) :
    decodeTail (writeTail tail) = some tail :=
  decodeTail_append h.hashType h.hashPrevOuts h.hashSequence h.hashOutputs h.inputIndex


theorem decodeHead_eq_some {body rest : Bytes} {head : Head}
    (h : decodeHead body = some (head, rest)) :
    HeadSized head ∧ rest ≠ [] ∧ writeHead head ++ rest = body := by
  unfold decodeHead at h
  obtain ⟨singletweaklen, hsinglelen, h⟩ := bind_eq_some.mp h
  obtain ⟨hsinglelt, h⟩ := assert_bind_eq_some.mp h
  obtain ⟨-, h⟩ := assert_bind_eq_some.mp h
  obtain ⟨witnessscriptlen, hwitnesslen, h⟩ := bind_eq_some.mp h
  obtain ⟨hwitnesslt, h⟩ := assert_bind_eq_some.mp h
  obtain ⟨-, h⟩ := assert_bind_eq_some.mp h
  obtain ⟨-, h⟩ := assert_bind_eq_some.mp h
  obtain ⟨outputvalue, hvalue, h⟩ := bind_eq_some.mp h
  obtain ⟨outputpkscriptlen, hscriptlen, h⟩ := bind_eq_some.mp h
  obtain ⟨hscriptlt, h⟩ := assert_bind_eq_some.mp h
  obtain ⟨-, h⟩ := assert_bind_eq_some.mp h
  obtain ⟨rfl, rfl⟩ := Prod.mk.inj (Option.some_inj.mp h)
  clear h
  -- a strict assertion leaves something to read, so nothing before it was cut short
  obtain ⟨hscript, hscripteq⟩ := prefixed_append_of_toint hscriptlen hscriptlt
  obtain ⟨hvaluelt, hvalueeq⟩ :=
    append_of_toint 8 (by rfl) hvalue (ne_nil_of_sliceFrom (ne_nil_of_lt hscriptlt))
  obtain ⟨hwitness, hwitnesseq⟩ := prefixed_append_of_toint hwitnesslen hwitnesslt
  have hdouble := length_sliceTo_eq 32 (by rfl) (ne_nil_of_sliceFrom (ne_nil_of_lt hwitnesslt))
  obtain ⟨hsingle, hsingleeq⟩ := prefixed_append_of_toint hsinglelen hsinglelt
  have hpubkey := length_sliceTo_eq 33 (by rfl) (ne_nil_of_sliceFrom (ne_nil_of_lt hsinglelt))
  refine ⟨⟨hpubkey, hsingle, hdouble, hwitness, hvaluelt, hscript⟩,
    sliceFrom_ne_nil_of_lt hscriptlt, ?_⟩
  simp only [writeHead, List.append_assoc]
  rw [hscripteq, hvalueeq, hwitnesseq, sliceTo_append_sliceFrom, hsingleeq,
    sliceTo_append_sliceFrom]

theorem decodeTail_eq_some {body : Bytes} {tail : Tail} (h : decodeTail body = some tail) :
    TailSized tail ∧ writeTail tail = body := by
  unfold decodeTail at h
  obtain ⟨hindexlength, h⟩ := assert_bind_eq_some.mp h
  obtain ⟨inputindex, hindex, h⟩ := bind_eq_some.mp h
  obtain ⟨houtputs, h⟩ := assert_bind_eq_some.mp h
  obtain ⟨hsequence, h⟩ := assert_bind_eq_some.mp h
  obtain ⟨hprevouts, h⟩ := assert_bind_eq_some.mp h
  obtain ⟨hhashtype, h⟩ := assert_bind_eq_some.mp h
  obtain ⟨hrest, h⟩ := assert_bind_eq_some.mp h
  obtain rfl := Option.some_inj.mp h
  clear h
  obtain ⟨hindexeq, hindexlt⟩ := eq_bigEndian_of_toint hindex
  rw [hindexlength] at hindexeq hindexlt
  have hjoin : ∀ {xs : Bytes}, (sliceFrom xs (-32)).length = 32 →
      sliceTo xs (xs.length - 32) ++ sliceFrom xs (-32) = xs :=
    fun hlength => sliceTo_sub_append_sliceFrom_neg 32 (by decide) hlength
  refine ⟨tailSized_mk hhashtype hprevouts hsequence houtputs hindexlt, ?_⟩
  simp only [writeTail]
  rw [sliceFrom_eq_self (List.eq_nil_of_length_eq_zero hrest), hjoin hprevouts,
    hjoin hsequence, hjoin houtputs, ← hindexeq, sliceTo_append_sliceFrom]

/-- What the decoder makes of the fields it has read. -/
def assemble (head : Head) (tail : Tail) : Signdesc where
  pubKey := head.pubKey
  singleTweak := if head.singleTweak.length = 0 then none else some head.singleTweak
  doubleTweak := if head.doubleTweak = List.replicate 32 0 then none else some head.doubleTweak
  witnessScript := if head.witnessScript.length = 0 then none else some head.witnessScript
  output := ⟨head.outputValue, head.outputPkScript⟩
  hashType := tail.hashType
  sigHashes := tail.sigHashes
  inputIndex := tail.inputIndex

theorem getD_of_ne {c bs : Bytes} :
    (if bs = c then none else some bs).getD c = bs := by
  split
  · rename_i heq
    exact heq.symm
  · rfl

theorem writeSigndesc_assemble (head : Head) (tail : Tail) :
    writeSigndesc (assemble head tail) = writeHead head ++ writeTail tail := by
  simp only [writeSigndesc, assemble, List.length_eq_zero_iff, getD_of_ne]

theorem writeTail_ne_nil (tail : Tail) : writeTail tail ≠ [] := by
  intro hnil
  have hlength := congrArg List.length hnil
  simp [writeTail] at hlength

theorem decodeSigndesc_prefixed {head : Head} {tail : Tail} (hhead : HeadSized head)
    (htail : TailSized tail) (hlength : (writeHead head ++ writeTail tail).length < 65536) :
    decodeSigndesc (prefixed (writeHead head ++ writeTail tail)) = some (assemble head tail) := by
  have htwo : ((be16 (writeHead head ++ writeTail tail).length).length : Int) = 2 := by
    simp [be16]
  have htoint : toint (be16 (writeHead head ++ writeTail tail).length) =
      some (writeHead head ++ writeTail tail).length := toint_two hlength
  rw [prefixed, decodeSigndesc]
  simp only [sliceTo_append htwo, sliceFrom_append htwo, htoint, Option.bind_eq_bind,
    Option.bind_some, assert_of, decodeHead_writeHead hhead (writeTail_ne_nil tail),
    decodeTail_writeTail htail]
  rfl

theorem decodeSigndesc_eq_some {body : Bytes} {s : Signdesc} (h : decodeSigndesc body = some s) :
    ∃ head tail, HeadSized head ∧ TailSized tail ∧ assemble head tail = s ∧
      (writeHead head ++ writeTail tail).length < 65536 ∧
        prefixed (writeHead head ++ writeTail tail) = body := by
  unfold decodeSigndesc at h
  obtain ⟨overalllength, hlen, h⟩ := bind_eq_some.mp h
  obtain ⟨hlength, h⟩ := assert_bind_eq_some.mp h
  obtain ⟨⟨head, rest⟩, hdecode, h⟩ := bind_eq_some.mp h
  obtain ⟨tail, htail, hresult⟩ := bind_eq_some.mp h
  obtain ⟨hhead, hrest, hbody⟩ := decodeHead_eq_some hdecode
  obtain ⟨htailsized, rfl⟩ := decodeTail_eq_some htail
  have hne : sliceFrom body 2 ≠ [] := by
    rw [← hbody]
    exact List.append_ne_nil_of_right_ne_nil _ hrest
  obtain ⟨hlt, heq⟩ := append_of_toint 2 (by rfl) hlen hne
  rw [hlength, ← hbody] at hlt heq
  exact ⟨head, tail, hhead, htailsized, Option.some_inj.mp hresult, hlt, heq⟩

theorem splitSigndescAndTx_prefixed {tx rest nodeid : Bytes} (htx : tx.length < 65536)
    (hrest : rest ≠ []) (hnodeid : nodeid.length = 33) :
    splitSigndescAndTx (prefixed tx ++ rest ++ nodeid) = some (tx, rest, nodeid) := by
  simp only [prefixed, be16, List.append_assoc]
  rw [← List.append_assoc tx]
  exact splitSigndescAndTx_append htx hrest hnodeid

/-- What is left of the transaction when the descriptor is not empty is whole. -/
theorem splitSigndescAndTx_eq_some {body tx rest nodeid : Bytes}
    (h : splitSigndescAndTx body = some (tx, rest, nodeid)) (hrest : rest ≠ []) :
    tx.length < 65536 ∧ nodeid.length = 33 ∧ prefixed tx ++ rest ++ nodeid = body := by
  unfold splitSigndescAndTx at h
  obtain ⟨txlen, hlen, h⟩ := bind_eq_some.mp h
  obtain ⟨hlt, h⟩ := assert_bind_eq_some.mp h
  obtain ⟨rfl, hpair⟩ := Prod.mk.inj (Option.some_inj.mp h)
  obtain ⟨rfl, rfl⟩ := Prod.mk.inj hpair
  obtain ⟨htxlen, heq⟩ := append_of_toint 2 (by rfl) hlen (ne_nil_of_lt hlt)
  have htx := length_sliceTo (by omega) hrest
  have hnodeid := length_sliceFrom_neg (by decide) (ne_nil_of_sliceFrom hrest)
  rw [Int.natCast_inj] at htx
  refine ⟨by omega, by omega, ?_⟩
  rw [prefixed, htx, List.append_assoc (be16 txlen), sliceTo_append_sliceFrom,
    List.append_assoc, sliceTo_append_sliceFrom]
  exact heq

/-! ### Requests -/

namespace Fields

def head (f : Fields) : Head where
  pubKey := f.pubKey.val
  singleTweak := f.singleTweak
  doubleTweak := f.doubleTweak.val
  witnessScript := f.witnessScript
  outputValue := bigEndianValue f.value.val
  outputPkScript := f.pkScript

def tail (f : Fields) : Tail where
  hashType := f.hashType.val
  sigHashes := ⟨f.hashOutputs.val, f.hashSequence.val, f.hashPrevOuts.val⟩
  inputIndex := bigEndianValue f.inputIndex.val

theorem bigEndian_val {width : Nat} (bs : ByteArrayOf width) :
    bigEndian width (bigEndianValue bs.val) = bs.val := by
  have h := bigEndian_bigEndianValue bs.val
  rwa [bs.property] at h

theorem bigEndianValue_val_lt {width : Nat} (bs : ByteArrayOf width) :
    bigEndianValue bs.val < 256 ^ width := by
  have h := bigEndianValue_lt bs.val
  rwa [bs.property] at h

theorem descriptor_eq (f : Fields) : f.descriptor = writeHead f.head ++ writeTail f.tail := by
  simp only [descriptor, front, back, writeHead, writeTail, head, tail, bigEndian_val]

theorem headSized {f : Fields} (h : f.Sized) : HeadSized f.head := by
  have hlength := h.descriptor
  simp only [descriptor, front, prefixed, List.length_append] at hlength
  exact {
    pubKey := f.pubKey.property
    singleTweak := by simp only [head]; omega
    doubleTweak := f.doubleTweak.property
    witnessScript := by simp only [head]; omega
    outputValue := bigEndianValue_val_lt f.value
    outputPkScript := by simp only [head]; omega }

theorem tailSized (f : Fields) : TailSized f.tail where
  hashType := f.hashType.property
  hashPrevOuts := f.hashPrevOuts.property
  hashSequence := f.hashSequence.property
  hashOutputs := f.hashOutputs.property
  inputIndex := bigEndianValue_val_lt f.inputIndex

/-- The fields of a request that was read. -/
def ofRead (tx nodeid : Bytes) (head : Head) (tail : Tail) (hnodeid : nodeid.length = 33)
    (hhead : HeadSized head) (htail : TailSized tail) : Fields where
  tx := tx
  pubKey := ⟨head.pubKey, hhead.pubKey⟩
  singleTweak := head.singleTweak
  doubleTweak := ⟨head.doubleTweak, hhead.doubleTweak⟩
  witnessScript := head.witnessScript
  value := ⟨bigEndian 8 head.outputValue, length_bigEndian ..⟩
  pkScript := head.outputPkScript
  hashType := ⟨tail.hashType, htail.hashType⟩
  hashPrevOuts := ⟨tail.sigHashes.hashPrevOuts, htail.hashPrevOuts⟩
  hashSequence := ⟨tail.sigHashes.hashSequence, htail.hashSequence⟩
  hashOutputs := ⟨tail.sigHashes.hashOutputs, htail.hashOutputs⟩
  inputIndex := ⟨bigEndian 8 tail.inputIndex, length_bigEndian ..⟩
  nodeId := ⟨nodeid, hnodeid⟩

theorem head_ofRead {tx nodeid : Bytes} {head : Head} {tail : Tail}
    (hnodeid : nodeid.length = 33) (hhead : HeadSized head) (htail : TailSized tail) :
    (ofRead tx nodeid head tail hnodeid hhead htail).head = head := by
  simp only [Fields.head, ofRead, bigEndianValue_bigEndian_of_lt hhead.outputValue]

theorem tail_ofRead {tx nodeid : Bytes} {head : Head} {tail : Tail}
    (hnodeid : nodeid.length = 33) (hhead : HeadSized head) (htail : TailSized tail) :
    (ofRead tx nodeid head tail hnodeid hhead htail).tail = tail := by
  simp only [Fields.tail, ofRead, bigEndianValue_bigEndian_of_lt htail.inputIndex]

end Fields

/-- A request with all its fields is read as these fields. -/
theorem decodeRequest_body {f : Fields} (h : f.Sized) :
    decodeRequest f.body = some (f.tx, assemble f.head f.tail, f.nodeId.val) := by
  have hlength := h.descriptor
  have hne : prefixed f.descriptor ≠ [] := by
    intro hnil
    have hnone := congrArg List.length hnil
    simp [prefixed, be16] at hnone
  rw [decodeRequest, Fields.body]
  simp only [splitSigndescAndTx_prefixed h.tx hne f.nodeId.property, Option.bind_eq_bind,
    Option.bind_some]
  rw [Fields.descriptor_eq] at hlength ⊢
  simp only [decodeSigndesc_prefixed (Fields.headSized h) f.tailSized hlength, Option.bind_some]

/-- Only such a request is read. -/
theorem decodeRequest_eq_some {body : Bytes} {r : Bytes × Signdesc × Bytes}
    (h : decodeRequest body = some r) : ∃ f : Fields, f.Sized ∧ f.body = body ∧
      r = (f.tx, assemble f.head f.tail, f.nodeId.val) := by
  unfold decodeRequest at h
  obtain ⟨⟨tx, rest, nodeid⟩, hsplit, h⟩ := bind_eq_some.mp h
  obtain ⟨signdesc, hdecode, hresult⟩ := bind_eq_some.mp h
  obtain ⟨head, tail, hhead, htail, rfl, hlength, hrest⟩ := decodeSigndesc_eq_some hdecode
  have hne : rest ≠ [] := by
    rw [← hrest]
    exact List.append_ne_nil_of_left_ne_nil (List.cons_ne_nil _ _) _
  obtain ⟨htx, hnodeid, hbody⟩ := splitSigndescAndTx_eq_some hsplit hne
  refine ⟨Fields.ofRead tx nodeid head tail hnodeid hhead htail, ⟨htx, hlength⟩, ?_, ?_⟩
  · rw [← hbody, ← hrest]
    rfl
  · rw [Fields.head_ofRead, Fields.tail_ofRead]
    exact (Option.some_inj.mp hresult).symm

/-- The decoder accepts the grammar and nothing else, and what it returns is
the request, field by field. -/
theorem decodeRequest_image (body : Bytes) :
    ((decodeRequest body).isSome ↔ ∃ f : Fields, f.Sized ∧ body = f.body) ∧
      ∀ r, decodeRequest body = some r → writeRequest r = body := by
  refine ⟨⟨?_, ?_⟩, ?_⟩
  · intro h
    obtain ⟨r, hr⟩ := Option.isSome_iff_exists.mp h
    obtain ⟨f, hsized, hbody, _⟩ := decodeRequest_eq_some hr
    exact ⟨f, hsized, hbody.symm⟩
  · rintro ⟨f, hsized, rfl⟩
    rw [decodeRequest_body hsized]
    rfl
  · intro r hr
    obtain ⟨f, _, rfl, rfl⟩ := decodeRequest_eq_some hr
    simp only [writeRequest, writeSigndesc_assemble, Fields.body, Fields.descriptor_eq]

end ElectrumLightning.RequestGrammar
