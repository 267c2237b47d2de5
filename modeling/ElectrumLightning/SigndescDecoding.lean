import ElectrumLightning.ProxySerialization

/-!
How the wallet reads a signing request: the head of the descriptor front to
back, and the five fixed fields at its end back to front.
-/

namespace ElectrumLightning.SigndescDecoding

open ElectrumLightning.ByteStrings
open ElectrumLightning.ProxySerialization

structure Output where
  value : Nat
  pkScript : Bytes
deriving DecidableEq

structure SigHashes where
  hashOutputs : Bytes
  hashSequence : Bytes
  hashPrevOuts : Bytes
deriving DecidableEq

/-- The wallet's own `SignDescriptor`; a field may be `None`. -/
structure Signdesc where
  pubKey : Bytes
  singleTweak : Option Bytes
  doubleTweak : Option Bytes
  witnessScript : Option Bytes
  output : Output
  hashType : Bytes
  sigHashes : SigHashes
  inputIndex : Nat
deriving DecidableEq

/-- `toint`, which knows the widths one, two, four and eight. -/
def toint (x : Bytes) : Option Nat :=
  if x.length = 1 ∨ x.length = 2 ∨ x.length = 4 ∨ x.length = 8 then some (bigEndianValue x)
  else none

def assert (c : Prop) [Decidable c] : Option Unit := if c then some () else none

structure Head where
  pubKey : Bytes
  singleTweak : Bytes
  doubleTweak : Bytes
  witnessScript : Bytes
  outputValue : Nat
  outputPkScript : Bytes

/-- The part of `decodeSigndesc` that reads forwards. -/
def decodeHead (rest : Bytes) : Option (Head × Bytes) := do
  let pubkey := sliceTo rest 33
  let rest := sliceFrom rest 33
  let singletweaklen ← toint (sliceTo rest 2)
  let rest := sliceFrom rest 2
  assert (singletweaklen < rest.length)
  let singletweak := sliceTo rest singletweaklen
  let rest := sliceFrom rest singletweaklen
  assert (singletweak.length = singletweaklen)
  let doubletweak := sliceTo rest 32
  let rest := sliceFrom rest 32
  let witnessscriptlen ← toint (sliceTo rest 2)
  let rest := sliceFrom rest 2
  assert (witnessscriptlen < rest.length)
  let witnessscript := sliceTo rest witnessscriptlen
  let rest := sliceFrom rest witnessscriptlen
  assert (witnessscript.length = witnessscriptlen)
  assert (4 < rest.length)
  let outputvalue ← toint (sliceTo rest 8)
  let rest := sliceFrom rest 8
  let outputpkscriptlen ← toint (sliceTo rest 2)
  let rest := sliceFrom rest 2
  assert (outputpkscriptlen < rest.length)
  let outputpkscript := sliceTo rest outputpkscriptlen
  let rest := sliceFrom rest outputpkscriptlen
  assert (outputpkscript.length = outputpkscriptlen)
  some (⟨pubkey, singletweak, doubletweak, witnessscript, outputvalue, outputpkscript⟩, rest)

structure Tail where
  hashType : Bytes
  sigHashes : SigHashes
  inputIndex : Nat

/-- The part of `decodeSigndesc` that reads backwards. -/
def decodeTail (rest : Bytes) : Option Tail := do
  let inputindex := sliceFrom rest (-8)
  let rest := sliceTo rest (-8)
  assert (inputindex.length = 8)
  let inputindex ← toint inputindex
  let hashoutputs := sliceFrom rest (-32)
  let rest := sliceTo rest (rest.length - 32)
  assert (hashoutputs.length = 32)
  let hashsequence := sliceFrom rest (-32)
  let rest := sliceTo rest (rest.length - 32)
  assert (hashsequence.length = 32)
  let hashprevouts := sliceFrom rest (-32)
  let rest := sliceTo rest (rest.length - 32)
  assert (hashprevouts.length = 32)
  let hashtype := sliceFrom rest (-4)
  let rest := sliceTo rest (-4)
  assert (hashtype.length = 4)
  assert (rest.length = 0)
  some ⟨hashtype, ⟨hashoutputs, hashsequence, hashprevouts⟩, inputindex⟩

def decodeSigndesc (rest : Bytes) : Option Signdesc := do
  let overalllength ← toint (sliceTo rest 2)
  let rest := sliceFrom rest 2
  assert (overalllength = rest.length)
  let (head, rest) ← decodeHead rest
  let tail ← decodeTail rest
  some {
    pubKey := head.pubKey
    singleTweak := if head.singleTweak.length = 0 then none else some head.singleTweak
    doubleTweak := if head.doubleTweak = List.replicate 32 0 then none else some head.doubleTweak
    witnessScript := if head.witnessScript.length = 0 then none else some head.witnessScript
    output := ⟨head.outputValue, head.outputPkScript⟩
    hashType := tail.hashType
    sigHashes := tail.sigHashes
    inputIndex := tail.inputIndex }

def splitSigndescAndTx (rest : Bytes) : Option (Bytes × Bytes × Bytes) := do
  let txlen ← toint (sliceTo rest 2)
  let rest := sliceFrom rest 2
  assert (txlen < rest.length)
  let nodeid := sliceFrom rest (-33)
  let rest := sliceTo rest (-33)
  some (sliceTo rest txlen, sliceFrom rest txlen, nodeid)

def decodeRequest (message : Bytes) : Option (Bytes × Signdesc × Bytes) := do
  let (tx, rest, nodeid) ← splitSigndescAndTx message
  let signdesc ← decodeSigndesc rest
  some (tx, signdesc, nodeid)

/-- How the wallet represents a descriptor of the proxy. -/
def represent (s : SignDescriptor) : Signdesc where
  pubKey := s.pubKeyBytes
  singleTweak := if s.singleTweak.bytes = [] then none else some s.singleTweak.bytes
  doubleTweak := s.doubleTweak.map fun k => bigEndian 32 k.d
  witnessScript := if s.witnessScript.bytes = [] then none else some s.witnessScript.bytes
  output := ⟨s.output.value.toInt.toNat, s.output.pkScript⟩
  hashType := bigEndian 4 s.hashType.toNat
  sigHashes :=
    { hashOutputs := s.sigHashes.hashOutputs.val
      hashSequence := s.sigHashes.hashSequence.val
      hashPrevOuts := s.sigHashes.hashPrevOuts.val }
  inputIndex := s.inputIndex.toInt.toNat

/-- What the wire format can carry: the lengths fit into 16 bits, the double
tweak is a non-zero scalar of 32 bytes, and the numbers are not negative. -/
structure Fits (s : SignDescriptor) : Prop where
  lengths : s.singleTweak.bytes.length + s.witnessScript.bytes.length +
    s.output.pkScript.length ≤ 65348
  doubleTweak : ∀ k ∈ s.doubleTweak, 0 < k.d ∧ k.d < 256 ^ 32
  value : 0 ≤ s.output.value.toInt
  inputIndex : 0 ≤ s.inputIndex.toInt

theorem toint_bigEndian {width n : Nat} (hwidth : width = 1 ∨ width = 2 ∨ width = 4 ∨ width = 8)
    (hn : n < 256 ^ width) : toint (bigEndian width n) = some n := by
  rw [toint, length_bigEndian, if_pos hwidth, bigEndianValue_bigEndian_of_lt hn]

theorem toint_two {n : Nat} (h : n < 65536) : toint (bigEndian 2 n) = some n :=
  toint_bigEndian (by omega) h

theorem toint_eight {n : Nat} (h : n < 256 ^ 8) : toint (bigEndian 8 n) = some n :=
  toint_bigEndian (by omega) h

theorem assert_of {c : Prop} [Decidable c] (h : c) : assert c = some () := if_pos h

theorem assert_bind_eq_some {α : Type} {c : Prop} [Decidable c] {f : Unit → Option α} {r : α} :
    (assert c >>= f) = some r ↔ c ∧ f () = some r := by
  by_cases hc : c <;> simp [assert, hc]

theorem bind_eq_some {α β : Type} {x : Option α} {f : α → Option β} {r : β} :
    (x >>= f) = some r ↔ ∃ a, x = some a ∧ f a = some r :=
  Option.bind_eq_some_iff

theorem bind_of_eq_some {α β : Type} {x : Option α} {a : α} (h : x = some a)
    (f : α → Option β) : (x >>= f) = f a := by
  rw [h]
  rfl

theorem decodeHead_append {pubkey singletweak doubletweak witnessscript script rest : Bytes}
    {value : Nat} (hpubkey : pubkey.length = 33) (hsingletweak : singletweak.length < 65536)
    (hdoubletweak : doubletweak.length = 32) (hwitnessscript : witnessscript.length < 65536)
    (hvalue : value < 256 ^ 8) (hscript : script.length < 65536) (hrest : rest ≠ []) :
    decodeHead (pubkey ++ (bigEndian 2 singletweak.length ++ (singletweak ++ (doubletweak ++
      (bigEndian 2 witnessscript.length ++ (witnessscript ++ (bigEndian 8 value ++
        (bigEndian 2 script.length ++ (script ++ rest))))))))) =
      some (⟨pubkey, singletweak, doubletweak, witnessscript, value, script⟩, rest) := by
  have hpos : 0 < rest.length := List.length_pos_iff.mpr hrest
  have hpub : (pubkey.length : Int) = 33 := by omega
  have htwo : ∀ n, ((bigEndian 2 n).length : Int) = 2 := by simp
  have height : ((bigEndian 8 value).length : Int) = 8 := by simp
  have hthirtytwo : (doubletweak.length : Int) = 32 := by omega
  rw [decodeHead]
  simp only [sliceTo_append hpub, sliceFrom_append hpub, sliceTo_append (htwo _),
    sliceFrom_append (htwo _), toint_two hsingletweak, Option.bind_eq_bind, Option.bind_some,
    sliceTo_append rfl, sliceFrom_append rfl]
  rw [assert_of (by simp only [List.length_append]; omega)]
  simp only [Option.bind_some, sliceTo_append hthirtytwo, sliceFrom_append hthirtytwo,
    sliceTo_append (htwo _), sliceFrom_append (htwo _), toint_two hwitnessscript,
    sliceTo_append rfl, sliceFrom_append rfl, assert_of]
  rw [assert_of (by simp only [List.length_append]; omega),
    assert_of (by simp only [List.length_append, length_bigEndian]; omega)]
  simp only [Option.bind_some, sliceTo_append height, sliceFrom_append height,
    toint_eight hvalue, sliceTo_append (htwo _), sliceFrom_append (htwo _), toint_two hscript,
    sliceTo_append rfl, sliceFrom_append rfl, assert_of]
  rw [assert_of (by simp only [List.length_append]; omega)]
  rfl

theorem decodeTail_append {hashtype hashprevouts hashsequence hashoutputs : Bytes}
    {inputindex : Nat} (hhashtype : hashtype.length = 4) (hhashprevouts : hashprevouts.length = 32)
    (hhashsequence : hashsequence.length = 32) (hhashoutputs : hashoutputs.length = 32)
    (hinputindex : inputindex < 256 ^ 8) :
    decodeTail (hashtype ++ hashprevouts ++ hashsequence ++ hashoutputs ++
      bigEndian 8 inputindex) =
      some ⟨hashtype, ⟨hashoutputs, hashsequence, hashprevouts⟩, inputindex⟩ := by
  have height : ((bigEndian 8 inputindex).length : Int) = -(-8) := by simp
  have hfour : (hashtype.length : Int) = -(-4) := by omega
  have hto : ∀ {xs ys : Bytes}, ys.length = 32 →
      sliceTo (xs ++ ys) ((xs ++ ys).length - 32) = xs :=
    fun hlength => sliceTo_append_sub (by omega)
  have hfrom : ∀ {xs ys : Bytes}, ys.length = 32 → sliceFrom (xs ++ ys) (-32) = ys :=
    fun hlength => sliceFrom_append_neg (by omega) (by omega)
  rw [← List.nil_append hashtype, decodeTail]
  simp only [sliceFrom_append_neg height (by omega), sliceTo_append_neg height (by omega),
    assert_of (length_bigEndian _ _), toint_eight hinputindex, Option.bind_eq_bind,
    Option.bind_some, hfrom hhashoutputs, hto hhashoutputs, assert_of hhashoutputs,
    hfrom hhashsequence, hto hhashsequence, assert_of hhashsequence,
    hfrom hhashprevouts, hto hhashprevouts, assert_of hhashprevouts,
    sliceFrom_append_neg hfour (by omega), sliceTo_append_neg hfour (by omega),
    assert_of hhashtype, assert_of List.length_nil]
  rfl

theorem int64_of_nonneg {n : Int64} (h : 0 ≤ n.toInt) : int64 n = bigEndian 8 n.toInt.toNat := by
  rw [int64, toNat_toBitVec_int64 h]

theorem toNat_toInt_lt {n : Int64} (h : 0 ≤ n.toInt) : n.toInt.toNat < 256 ^ 8 := by
  rw [← toNat_toBitVec_int64 h]
  exact n.toBitVec.isLt

theorem decodeHead_front {s : SignDescriptor} (h : Fits s) {rest : Bytes} (hrest : rest ≠ []) :
    decodeHead (s.front ++ rest) =
      some (⟨s.pubKeyBytes, s.singleTweak.bytes, s.doubleTweakBytes, s.witnessScript.bytes,
        s.output.value.toInt.toNat, s.output.pkScript⟩, rest) := by
  have hlengths := h.lengths
  have hsingle : s.singleTweak.bytes.length < 65536 := by omega
  have hwitness : s.witnessScript.bytes.length < 65536 := by omega
  have hscript : s.output.pkScript.length < 65536 := by omega
  have hdouble : s.doubleTweakBytes.length = 32 :=
    length_doubleTweakBytes fun k hk => (h.doubleTweak k hk).2
  rw [SignDescriptor.front, int16_of_lt hsingle, int16_of_lt hwitness, int16_of_lt hscript,
    int64_of_nonneg h.value]
  simp only [List.append_assoc]
  exact decodeHead_append (length_pubKeyBytes s) hsingle hdouble hwitness
    (toNat_toInt_lt h.value) hscript hrest

theorem decodeTail_back {s : SignDescriptor} (h : Fits s) :
    decodeTail s.back = some ⟨bigEndian 4 s.hashType.toNat, (represent s).sigHashes,
      s.inputIndex.toInt.toNat⟩ := by
  rw [SignDescriptor.back, int64_of_nonneg h.inputIndex]
  exact decodeTail_append (length_uint32 _) s.sigHashes.hashPrevOuts.property
    s.sigHashes.hashSequence.property s.sigHashes.hashOutputs.property
    (toNat_toInt_lt h.inputIndex)

theorem decodeSigndesc_body {s : SignDescriptor} (h : Fits s) :
    decodeSigndesc (int16 s.body.length ++ s.body) = some (represent s) := by
  have hdouble : ∀ k ∈ s.doubleTweak, k.d < 256 ^ 32 := fun k hk => (h.doubleTweak k hk).2
  have hlength : s.body.length < 65536 := by
    have hlengths := h.lengths
    rw [length_body hdouble]
    omega
  have htwo : ((int16 s.body.length).length : Int) = 2 := by simp
  have hback : s.back ≠ [] := by
    intro hnil
    have hnone := congrArg List.length hnil
    simp [SignDescriptor.back] at hnone
  have htweak : (if s.doubleTweakBytes = List.replicate 32 0 then none
      else some s.doubleTweakBytes) = s.doubleTweak.map fun k => bigEndian 32 k.d := by
    unfold SignDescriptor.doubleTweakBytes
    cases hcase : s.doubleTweak with
    | none => rfl
    | some k =>
        obtain ⟨hpos, hlt⟩ := h.doubleTweak k hcase
        have hzero : bigEndian 32 k.d ≠ List.replicate 32 0 := by
          rw [ne_eq, bigEndian_eq_zeros_iff hlt]
          omega
        simp only [padded_of_lt hlt, hzero, if_false, Option.map_some]
  rw [decodeSigndesc]
  rw [int16_of_lt hlength] at htwo ⊢
  simp only [sliceTo_append htwo, sliceFrom_append htwo, toint_two hlength,
    Option.bind_eq_bind, Option.bind_some, assert_of]
  rw [SignDescriptor.body]
  simp only [decodeHead_front h hback, Option.bind_some, decodeTail_back h, htweak,
    List.length_eq_zero_iff]
  rfl

theorem splitSigndescAndTx_append {tx rest nodeid : Bytes} (htx : tx.length < 65536)
    (hrest : rest ≠ []) (hnodeid : nodeid.length = 33) :
    splitSigndescAndTx (bigEndian 2 tx.length ++ (tx ++ rest ++ nodeid)) =
      some (tx, rest, nodeid) := by
  have htwo : ((bigEndian 2 tx.length).length : Int) = 2 := by simp
  have hkey : (nodeid.length : Int) = -(-33) := by omega
  have hpos : 0 < rest.length := List.length_pos_iff.mpr hrest
  rw [splitSigndescAndTx]
  simp only [sliceTo_append htwo, sliceFrom_append htwo, toint_two htx, Option.bind_eq_bind,
    Option.bind_some]
  rw [assert_of (by simp only [List.length_append]; omega)]
  simp only [Option.bind_some, sliceTo_append_neg hkey (by omega),
    sliceFrom_append_neg hkey (by omega), sliceTo_append rfl, sliceFrom_append rfl]

/-- A signing request is read back as it was sent. -/
theorem decodeRequest_serializetx (btcec : Btcec) (tx : Bytes) (s : SignDescriptor)
    (key : ByteArrayOf 33) (htx : tx.length ≤ 65535) (h : Fits s) :
    (serializetx btcec (some tx) s key).bind decodeRequest = some (tx, represent s, key.val) := by
  have hdouble : ∀ k ∈ s.doubleTweak, k.d < 256 ^ 32 := fun k hk => (h.doubleTweak k hk).2
  have htxlen : tx.length < 65536 := by omega
  have hserialized : serializetx btcec (some tx) s key =
      some (bigEndian 2 tx.length ++ (tx ++ (int16 s.body.length ++ s.body) ++ key.val)) := by
    rw [serializetx_of_lt btcec hdouble, int16_of_lt htxlen]
    simp only [List.append_assoc]
  have hrest : int16 s.body.length ++ s.body ≠ [] := by
    apply List.append_ne_nil_of_left_ne_nil
    intro hnil
    simpa using congrArg List.length hnil
  rw [hserialized, Option.bind_some, decodeRequest]
  simp only [splitSigndescAndTx_append htxlen hrest key.property, Option.bind_eq_bind,
    Option.bind_some, decodeSigndesc_body h]

def filled (length : Nat) (b : UInt8) : Bytes := List.replicate length b

theorem length_filled (length : Nat) (b : UInt8) : (filled length b).length = length :=
  List.length_replicate

def hashOf (b : UInt8) : ByteArrayOf 32 := ⟨filled 32 b, length_filled 32 b⟩

/-- A descriptor whose witness script has a negative `int16` length. -/
def longScript : SignDescriptor where
  pubKey := none
  singleTweak := none
  doubleTweak := some ⟨7⟩
  witnessScript := some (filled 40000 1)
  output := ⟨10000, [0x51]⟩
  hashType := 1
  sigHashes := ⟨hashOf 2, hashOf 3, hashOf 4⟩
  inputIndex := 1

theorem decodeRequest_longScript :
    (serializetx simpleBtcec (some (filled 50000 5)) longScript
      ⟨filled 33 6, length_filled 33 6⟩).bind decodeRequest =
        some (filled 50000 5, represent longScript, filled 33 6) := by
  have hscript : longScript.witnessScript.bytes.length = 40000 := length_filled 40000 1
  have hfits : Fits longScript :=
    { lengths := by
        rw [hscript]
        decide
      doubleTweak := by
        rintro k ⟨⟩
        exact ⟨by decide, by decide⟩
      value := by decide
      inputIndex := by decide }
  exact decodeRequest_serializetx _ _ _ _ (by rw [length_filled]; omega) hfits

end ElectrumLightning.SigndescDecoding
