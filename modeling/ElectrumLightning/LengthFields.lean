import ElectrumLightning.ProxySerialization

/-!
The length fields of a request to the signer, and the bytes that each of them
announces.
-/

namespace ElectrumLightning.LengthFields

open ElectrumLightning.ByteStrings
open ElectrumLightning.ProxySerialization

/-- Where a field of two bytes stands, and the bytes that follow it. -/
structure LengthField where
  position : Nat
  announced : Bytes
deriving DecidableEq

def LengthField.value (f : LengthField) (msg : Bytes) : Nat :=
  bigEndianValue ((msg.drop f.position).take 2)

def LengthField.payload (f : LengthField) (msg : Bytes) : Bytes :=
  (msg.drop (f.position + 2)).take f.announced.length

def LengthField.honest (f : LengthField) (msg : Bytes) : Prop :=
  f.value msg = f.announced.length

def LengthField.shift (offset : Nat) (f : LengthField) : LengthField :=
  { f with position := offset + f.position }

/-- The fields that `serialize` writes: the body, the tweak, the witness script
and the script of the output. -/
def descriptorFields (s : SignDescriptor) : List LengthField :=
  [⟨0, s.body⟩, ⟨35, s.singleTweak.bytes⟩,
    ⟨69 + s.singleTweak.bytes.length, s.witnessScript.bytes⟩,
    ⟨79 + s.singleTweak.bytes.length + s.witnessScript.bytes.length, s.output.pkScript⟩]

/-- The fields of a whole request, the first of them for the transaction. -/
def lengthFields (bajts : Bytes) (s : SignDescriptor) : List LengthField :=
  ⟨0, bajts⟩ :: (descriptorFields s).map (LengthField.shift (2 + bajts.length))

/-! ### Each field stands before the bytes that it announces -/

def LengthField.Stands (f : LengthField) (msg : Bytes) : Prop :=
  ∃ front back, front.length = f.position ∧
    msg = front ++ (int16 f.announced.length ++ (f.announced ++ back))

theorem bigEndianValue_int16_mod (n : Nat) : bigEndianValue (int16 n) = n % 65536 := by
  rw [int16, bigEndianValue_bigEndian]
  exact Nat.mod_mod _ _

theorem LengthField.Stands.value_eq {f : LengthField} {msg : Bytes} (h : f.Stands msg) :
    f.value msg = f.announced.length % 65536 := by
  obtain ⟨front, back, hposition, rfl⟩ := h
  rw [LengthField.value, ← hposition, List.drop_left,
    List.take_left' (length_int16 _), bigEndianValue_int16_mod]

theorem LengthField.Stands.payload_eq {f : LengthField} {msg : Bytes} (h : f.Stands msg) :
    f.payload msg = f.announced := by
  obtain ⟨front, back, hposition, rfl⟩ := h
  rw [LengthField.payload, ← hposition, ← List.drop_drop, List.drop_left,
    List.drop_left' (length_int16 _), List.take_left]

theorem LengthField.Stands.honest_iff {f : LengthField} {msg : Bytes} (h : f.Stands msg) :
    f.honest msg ↔ f.announced.length < 65536 := by
  rw [LengthField.honest, h.value_eq]
  omega

theorem LengthField.Stands.shift {f : LengthField} {msg : Bytes} (h : f.Stands msg)
    (front back : Bytes) : (f.shift front.length).Stands (front ++ (msg ++ back)) := by
  obtain ⟨before, after, hposition, rfl⟩ := h
  refine ⟨front ++ before, after ++ back, ?_, ?_⟩
  · rw [List.length_append, hposition]
    rfl
  · simp [LengthField.shift]

theorem descriptorFields_stand {s : SignDescriptor} (h : ∀ k ∈ s.doubleTweak, k.d < 256 ^ 32)
    {f : LengthField} (hf : f ∈ descriptorFields s) :
    f.Stands (int16 s.body.length ++ s.body) := by
  have hpubKey := length_pubKeyBytes s
  have hdouble := length_doubleTweakBytes h
  simp only [descriptorFields, List.mem_cons, List.not_mem_nil, or_false] at hf
  rcases hf with rfl | rfl | rfl | rfl
  · exact ⟨[], [], rfl, by simp⟩
  · refine ⟨int16 s.body.length ++ s.pubKeyBytes, s.doubleTweakBytes ++
      (int16 s.witnessScript.bytes.length ++ (s.witnessScript.bytes ++
        (int64 s.output.value ++ (int16 s.output.pkScript.length ++
          (s.output.pkScript ++ s.back))))), ?_, ?_⟩
    · simp [hpubKey]
    · simp only [SignDescriptor.body, SignDescriptor.front, List.append_assoc]
  · refine ⟨int16 s.body.length ++ s.pubKeyBytes ++ int16 s.singleTweak.bytes.length ++
      s.singleTweak.bytes ++ s.doubleTweakBytes, int64 s.output.value ++
        (int16 s.output.pkScript.length ++ (s.output.pkScript ++ s.back)), ?_, ?_⟩
    · simp only [List.length_append, length_int16, hpubKey, hdouble]
      omega
    · simp only [SignDescriptor.body, SignDescriptor.front, List.append_assoc]
  · refine ⟨int16 s.body.length ++ s.pubKeyBytes ++ int16 s.singleTweak.bytes.length ++
      s.singleTweak.bytes ++ s.doubleTweakBytes ++ int16 s.witnessScript.bytes.length ++
      s.witnessScript.bytes ++ int64 s.output.value, s.back, ?_, ?_⟩
    · simp only [List.length_append, length_int16, length_int64, hpubKey, hdouble]
      omega
    · simp only [SignDescriptor.body, SignDescriptor.front, List.append_assoc]

theorem lengthFields_stand {btcec : Btcec} {bajts msg : Bytes} {s : SignDescriptor}
    {key : ByteArrayOf 33}
    (h : serializetx btcec (some bajts) s key = some msg) {f : LengthField}
    (hf : f ∈ lengthFields bajts s) : f.Stands msg := by
  obtain ⟨hdouble, rfl⟩ := serializetx_eq_some h
  rcases List.mem_cons.mp hf with rfl | hf
  · exact ⟨[], int16 s.body.length ++ (s.body ++ key.val), rfl, by simp⟩
  · obtain ⟨g, hg, rfl⟩ := List.mem_map.mp hf
    have hshift := (descriptorFields_stand hdouble hg).shift (int16 bajts.length ++ bajts) key.val
    simpa only [List.length_append, length_int16, List.append_assoc] using hshift

/-! ### When the fields are right -/

/-- In every request the five fields stand before the bytes that they announce,
and all of them are right exactly when the transaction and the body of the
descriptor are shorter than 65536 bytes. -/
theorem lengthFields_honest_iff {btcec : Btcec} {bajts msg : Bytes} {s : SignDescriptor}
    {key : ByteArrayOf 33}
    (h : serializetx btcec (some bajts) s key = some msg) :
    (∀ f ∈ lengthFields bajts s, f.payload msg = f.announced) ∧
      ((∀ f ∈ lengthFields bajts s, f.honest msg) ↔
        bajts.length < 65536 ∧ s.singleTweak.bytes.length + s.witnessScript.bytes.length +
          s.output.pkScript.length ≤ 65348) := by
  refine ⟨fun f hf => (lengthFields_stand h hf).payload_eq, ?_⟩
  have hlength := length_body (serializetx_eq_some h).1
  have honest : (∀ f ∈ lengthFields bajts s, f.honest msg) ↔
      ∀ f ∈ lengthFields bajts s, f.announced.length < 65536 :=
    forall₂_congr fun f hf => (lengthFields_stand h hf).honest_iff
  rw [honest]
  simp only [lengthFields, descriptorFields, LengthField.shift, List.map_cons, List.map_nil,
    List.forall_mem_cons, List.not_mem_nil, false_imp_iff, implies_true, and_true]
  omega

/-- Version 1 without inputs and outputs. -/
def emptyTx : Bytes := [1, 0, 0, 0, 0, 0, 0, 0, 0, 0]

def zeros32 : ByteArrayOf 32 := ⟨List.replicate 32 0, List.length_replicate⟩

def nodeKey : ByteArrayOf 33 := ⟨2 :: List.replicate 32 1, rfl⟩

/-- A descriptor for a witness script of a given length. -/
def scriptOfLength (length : Nat) : SignDescriptor where
  pubKey := some nodeKey
  singleTweak := none
  doubleTweak := none
  witnessScript := some (List.replicate length 0x61)
  output := ⟨0, []⟩
  hashType := 1
  sigHashes := ⟨zeros32, zeros32, zeros32⟩
  inputIndex := 0

theorem exists_request (bajts : Bytes) (length : Nat) :
    ∃ msg, serializetx simpleBtcec (some bajts) (scriptOfLength length) nodeKey = some msg := by
  have hdouble : ∀ k ∈ (scriptOfLength length).doubleTweak, k.d < 256 ^ 32 := by
    intro k hk
    cases hk
  exact ⟨_, serializetx_of_lt simpleBtcec hdouble bajts nodeKey⟩

/-- One byte more than fits: the request is sent all the same, and the length
of its descriptor is announced as zero. -/
theorem long_script_is_sent :
    ∃ msg, serializetx simpleBtcec (some emptyTx) (scriptOfLength 65349) nodeKey = some msg ∧
      ∃ f ∈ lengthFields emptyTx (scriptOfLength 65349), f.announced.length = 65536 ∧
        f.value msg = 0 ∧ ¬ f.honest msg := by
  obtain ⟨msg, hmsg⟩ := exists_request emptyTx 65349
  have hlength := length_body (serializetx_eq_some hmsg).1
  have hscript : (scriptOfLength 65349).witnessScript.bytes.length = 65349 :=
    List.length_replicate
  have hf : (⟨12, (scriptOfLength 65349).body⟩ : LengthField) ∈
      lengthFields emptyTx (scriptOfLength 65349) := by
    apply List.mem_cons_of_mem
    exact List.mem_cons_self
  have hbody : (scriptOfLength 65349).body.length = 65536 := by
    rw [hlength, hscript]
    rfl
  have hvalue := (lengthFields_stand hmsg hf).value_eq
  refine ⟨msg, hmsg, _, hf, hbody, ?_, ?_⟩
  · rw [hvalue, hbody]
  · rw [LengthField.honest, hvalue, hbody]
    decide

/-- The longest script that fits. -/
theorem fitting_script_honest :
    ∃ msg, serializetx simpleBtcec (some emptyTx) (scriptOfLength 65348) nodeKey = some msg ∧
      ∀ f ∈ lengthFields emptyTx (scriptOfLength 65348), f.honest msg := by
  obtain ⟨msg, hmsg⟩ := exists_request emptyTx 65348
  have hscript : (scriptOfLength 65348).witnessScript.bytes.length = 65348 :=
    List.length_replicate
  refine ⟨msg, hmsg, (lengthFields_honest_iff hmsg).2.mpr ⟨by decide, ?_⟩⟩
  rw [hscript]
  rfl

end ElectrumLightning.LengthFields
