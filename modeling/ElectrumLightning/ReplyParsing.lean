import ElectrumLightning.BufferedReading
import ElectrumLightning.ProxySerialization

/-!
How the proxy parses the signer's reply to `ComputeInputScript`. The lengths
are read in full, but an item is whatever one read delivers, filled up with
zeros.
-/

namespace ElectrumLightning.ReplyParsing

open ElectrumLightning.ByteStrings
open ElectrumLightning.ProxySerialization (Slice)
open ElectrumLightning.BufferedReading

structure InputScript where
  witness : List Bytes
  scriptSig : Slice
deriving DecidableEq

/-- How a call ends. -/
inductive Outcome where
  | returned (inputScript : InputScript)
  | failed
  | panicked
  | exited
deriving DecidableEq

/-- The default buffer of `bufio.NewReader`. -/
def bufferSize : Nat := 4096

/-- The loop over the witnesses; the result is `none` where it exits with
`log.Fatal`. -/
def readWitnesses : Nat → Reader UInt8 → Option (List Bytes × Reader UInt8)
  | 0, reader => some ([], reader)
  | count + 1, reader => do
      let (sizeBytes, reader) ← reader.readFull bufferSize 2
      let sizeWitness := bigEndianValue sizeBytes
      let (bytes, reader) ← reader.read bufferSize sizeWitness
      if bytes.length < 1 then none
      else
        -- `these` was made with its full length
        let these := bytes ++ List.replicate (sizeWitness - bytes.length) 0
        let (witnesses, reader) ← readWitnesses count reader
        some (these :: witnesses, reader)

/-- The parsing in `ComputeInputScript`. Its `return nil, errors.New(..)` are
never reached, since they stand after `log.Fatal`. -/
def parseReply (msg : Bytes) : Outcome :=
  if msg.length < 2 then .panicked
  else
    match readWitnesses (bigEndianValue (msg.take 2)) ⟨[], msg.drop 2⟩ with
    | none => .exited
    | some (witnesses, reader) =>
        let scriptSigBytes := reader.readToEnd bufferSize
        .returned ⟨witnesses, if scriptSigBytes.length = 0 then none else some scriptSigBytes⟩

/-! ### The format -/

def encodeItem (item : Bytes) : Bytes := bigEndian 2 item.length ++ item

def encodeItems (items : List Bytes) : Bytes := items.flatMap encodeItem

def encodeReply (items : List Bytes) (scriptSig : Bytes) : Bytes :=
  bigEndian 2 items.length ++ (encodeItems items ++ scriptSig)

/-- The counts and the lengths fit into 16 bits. -/
structure Encodable (items : List Bytes) : Prop where
  count : items.length ≤ 65535
  lengths : ∀ item ∈ items, item.length ≤ 65535

def WellFormed (msg : Bytes) : Prop :=
  ∃ items scriptSig, Encodable items ∧ msg = encodeReply items scriptSig

def nilWhenEmpty (scriptSig : Bytes) : Slice := if scriptSig = [] then none else some scriptSig

/-- The parser returns what was encoded, and an error for anything else. -/
structure Accepts (msg : Bytes) : Prop where
  exact : ∀ items scriptSig, Encodable items → msg = encodeReply items scriptSig →
    parseReply msg = .returned ⟨items, nilWhenEmpty scriptSig⟩
  rejects : ¬ WellFormed msg → parseReply msg = .failed

/-- No item is empty, and each finds the buffer used up or holding the whole of
it when it is read. -/
def Readable : Fill → List Bytes → Prop
  | _, [] => True
  | fill, item :: items =>
      0 < item.length ∧ (fill.skipFull bufferSize 2).Whole item.length ∧
        Readable ((fill.skipFull bufferSize 2).skip bufferSize item.length) items

instance : ∀ fill items, Decidable (Readable fill items)
  | _, [] => inferInstanceAs (Decidable True)
  | fill, item :: items =>
      have : Decidable (Readable ((fill.skipFull bufferSize 2).skip bufferSize item.length) items) :=
        instDecidableReadable _ items
      inferInstanceAs (Decidable (_ ∧ _ ∧ _))

/-! ### What the loop consumes -/

variable {items witnesses : List Bytes} {scriptSig : Bytes} {reader reader' : Reader UInt8}

theorem length_encodeItem (item : Bytes) : (encodeItem item).length = 2 + item.length := by
  simp [encodeItem]

@[simp] theorem encodeItems_cons (item : Bytes) (items : List Bytes) :
    encodeItems (item :: items) = encodeItem item ++ encodeItems items :=
  List.flatMap_cons

/-- The inversion of one round. -/
theorem readWitnesses_succ {count : Nat}
    (h : readWitnesses (count + 1) reader = some (witnesses, reader')) :
    ∃ sizeBytes reader₁ bytes reader₂ rest,
      reader.readFull bufferSize 2 = some (sizeBytes, reader₁) ∧
      reader₁.read bufferSize (bigEndianValue sizeBytes) = some (bytes, reader₂) ∧
      0 < bytes.length ∧ readWitnesses count reader₂ = some (rest, reader') ∧
      witnesses =
        (bytes ++ List.replicate (bigEndianValue sizeBytes - bytes.length) 0) :: rest := by
  obtain ⟨⟨sizeBytes, reader₁⟩, hsize, h⟩ := Option.bind_eq_some_iff.mp h
  obtain ⟨⟨bytes, reader₂⟩, hread, h⟩ := Option.bind_eq_some_iff.mp h
  dsimp only at h
  split at h
  · contradiction
  · rename_i hpos
    obtain ⟨⟨rest, reader₃⟩, hrest, h⟩ := Option.bind_eq_some_iff.mp h
    obtain ⟨rfl, rfl⟩ := Prod.mk.inj (Option.some_inj.mp h)
    exact ⟨sizeBytes, reader₁, bytes, reader₂, rest, hsize, hread, by omega, hrest, rfl⟩

/-- What comes out and what is left account for all that was there; padding
only adds to it. -/
theorem length_contents_le {count : Nat}
    (h : readWitnesses count reader = some (witnesses, reader')) :
    reader.contents.length ≤ (encodeItems witnesses).length + reader'.contents.length := by
  induction count generalizing reader witnesses with
  | zero =>
      cases h
      simp [encodeItems]
  | succ count ih =>
      obtain ⟨sizeBytes, reader₁, bytes, reader₂, rest, hsize, hread, -, hrest, rfl⟩ :=
        readWitnesses_succ h
      obtain ⟨hsizeBytes, htwo⟩ := Reader.of_readFull hsize
      have hbytes := Reader.contents_of_read hread
      have hle := ih hrest
      rw [← hsizeBytes, ← hbytes]
      simp only [encodeItems_cons, length_encodeItem, List.length_append, htwo]
      omega

theorem bigEndianValue_length {item : Bytes} (h : item.length ≤ 65535) :
    bigEndianValue (bigEndian 2 item.length) = item.length :=
  bigEndianValue_bigEndian_of_lt (Nat.lt_succ_of_le h)

/-- The length of an item is always read. -/
theorem readFull_encodeItem {item rest : Bytes}
    (h : reader.contents = encodeItem item ++ rest) :
    ∃ reader₁, reader.readFull bufferSize 2 = some (bigEndian 2 item.length, reader₁) ∧
      reader₁.contents = item ++ rest ∧ reader₁.fill = reader.fill.skipFull bufferSize 2 := by
  have hcontents : reader.contents = bigEndian 2 item.length ++ (item ++ rest) := by
    rw [h, encodeItem, List.append_assoc]
  have hlength : 2 ≤ reader.contents.length := by
    rw [hcontents, List.length_append, length_bigEndian]
    omega
  obtain ⟨reader₁, hread, hrest, hfill⟩ := Reader.readFull_eq bufferSize (by omega) hlength
  rw [hcontents, List.take_left' (length_bigEndian 2 _)] at hread
  rw [hcontents, List.drop_left' (length_bigEndian 2 _)] at hrest
  exact ⟨reader₁, hread, hrest, hfill⟩

/-- An item that is whole is read as it is. -/
theorem read_item {item rest : Bytes} (hpos : 0 < item.length)
    (h : reader.contents = item ++ rest) (hwhole : reader.fill.Whole item.length) :
    ∃ reader₁, reader.read bufferSize item.length = some (item, reader₁) ∧
      reader₁.contents = rest ∧ reader₁.fill = reader.fill.skip bufferSize item.length := by
  have hlength : item.length ≤ reader.contents.length := by
    rw [h, List.length_append]
    omega
  obtain ⟨reader₁, hread, hrest, hfill⟩ := Reader.read_whole bufferSize hpos hlength hwhole
  rw [h, List.take_left] at hread
  rw [h, List.drop_left] at hrest
  exact ⟨reader₁, hread, hrest, hfill⟩

/-- The items come out unchanged if and only if they are readable. -/
theorem readWitnesses_iff (hlengths : ∀ item ∈ items, item.length ≤ 65535)
    (h : reader.contents = encodeItems items ++ scriptSig) :
    (∃ reader', readWitnesses items.length reader = some (items, reader') ∧
      reader'.contents = scriptSig) ↔ Readable reader.fill items := by
  induction items generalizing reader with
  | nil => exact iff_of_true ⟨reader, rfl, h⟩ trivial
  | cons item items ih =>
      rw [encodeItems_cons, List.append_assoc] at h
      obtain ⟨reader₁, hsize, hcontents₁, hfill₁⟩ := readFull_encodeItem h
      have hvalue := bigEndianValue_length (hlengths item List.mem_cons_self)
      have hlengths' : ∀ item ∈ items, item.length ≤ 65535 :=
        fun item hitem => hlengths item (List.mem_cons_of_mem _ hitem)
      rw [Readable, ← hfill₁]
      constructor
      · rintro ⟨reader', hread, hrest⟩
        obtain ⟨sizeBytes, reader₂, bytes, reader₃, rest, hsize', hread', hpos, hloop, heq⟩ :=
          readWitnesses_succ hread
        obtain ⟨rfl, rfl⟩ := Prod.mk.inj (Option.some_inj.mp (hsize.symm.trans hsize'))
        rw [hvalue] at hread' heq
        obtain ⟨hitem, rfl⟩ := List.cons.inj heq
        have hitempos : 0 < item.length := by
          rw [hitem, List.length_append]
          omega
        have hwhole : reader₁.fill.Whole item.length := by
          by_contra hshort
          obtain ⟨-, hlt⟩ := not_or.mp hshort
          have hbytes := (Prod.mk.inj (Option.some_inj.mp
            ((Reader.read_short hshort).symm.trans hread'))).1
          have htotal := congrArg List.length (Reader.contents_of_read hread')
          have hle := length_contents_le hloop
          rw [hcontents₁] at htotal
          simp only [List.length_append, ← hbytes] at htotal
          simp only [Reader.fill] at hlt
          rw [hrest] at hle
          omega
        obtain ⟨reader₂, hread, hcontents₂, hfill₂⟩ := read_item hitempos hcontents₁ hwhole
        obtain ⟨-, rfl⟩ := Prod.mk.inj (Option.some_inj.mp (hread.symm.trans hread'))
        refine ⟨hitempos, hwhole, ?_⟩
        rw [← hfill₂]
        exact (ih hlengths' hcontents₂).mp ⟨reader', hloop, hrest⟩
      · rintro ⟨hpos, hwhole, hreadable⟩
        obtain ⟨reader₂, hread, hcontents₂, hfill₂⟩ := read_item hpos hcontents₁ hwhole
        rw [← hfill₂] at hreadable
        obtain ⟨reader', hloop, hrest⟩ := (ih hlengths' hcontents₂).mpr hreadable
        refine ⟨reader', ?_, hrest⟩
        rw [List.length_cons, readWitnesses, hsize]
        simp only [Option.bind_eq_bind, Option.bind_some, hvalue, hread]
        rw [if_neg (by omega), hloop]
        simp

/-! ### Whole replies -/

theorem nilWhenEmpty_inj {sig₁ sig₂ : Bytes} (h : nilWhenEmpty sig₁ = nilWhenEmpty sig₂) :
    sig₁ = sig₂ := by
  unfold nilWhenEmpty at h
  split_ifs at h with h₁ h₂ h₂
  · rw [h₁, h₂]
  · exact Option.some_inj.mp h

theorem parseReply_ne_failed (msg : Bytes) : parseReply msg ≠ .failed := by
  unfold parseReply
  split
  · exact nofun
  · split <;> exact nofun

theorem parseReply_eq {msg : Bytes} (h : 2 ≤ msg.length) :
    parseReply msg =
      match readWitnesses (bigEndianValue (msg.take 2)) ⟨[], msg.drop 2⟩ with
      | none => .exited
      | some (witnesses, reader) => .returned ⟨witnesses, nilWhenEmpty reader.contents⟩ := by
  rw [parseReply, if_neg (by omega)]
  simp only [Reader.readToEnd_eq (by decide : 0 < bufferSize), List.length_eq_zero_iff]
  rfl

theorem length_encodeReply (items : List Bytes) (scriptSig : Bytes) :
    (encodeReply items scriptSig).length = 2 + (encodeItems items ++ scriptSig).length := by
  simp [encodeReply]

theorem take_encodeReply (items : List Bytes) (scriptSig : Bytes) :
    (encodeReply items scriptSig).take 2 = bigEndian 2 items.length :=
  List.take_left' (length_bigEndian 2 _)

theorem drop_encodeReply (items : List Bytes) (scriptSig : Bytes) :
    (encodeReply items scriptSig).drop 2 = encodeItems items ++ scriptSig :=
  List.drop_left' (length_bigEndian 2 _)

/-- The reader on a fresh message. -/
def start (msg : Bytes) : Fill := ⟨0, msg.length - 2⟩

theorem parseReply_encodeReply (hencodable : Encodable items) :
    parseReply (encodeReply items scriptSig) = .returned ⟨items, nilWhenEmpty scriptSig⟩ ↔
      Readable (start (encodeReply items scriptSig)) items := by
  have hlength : 2 ≤ (encodeReply items scriptSig).length := by
    rw [length_encodeReply]
    omega
  have hcount : bigEndianValue (bigEndian 2 items.length) = items.length :=
    bigEndianValue_bigEndian_of_lt (Nat.lt_succ_of_le hencodable.count)
  have hstart : start (encodeReply items scriptSig) =
      (Reader.mk [] (encodeItems items ++ scriptSig)).fill := by
    rw [start, length_encodeReply, Nat.add_sub_cancel_left]
    rfl
  rw [parseReply_eq hlength, take_encodeReply, drop_encodeReply, hcount, hstart,
    ← readWitnesses_iff hencodable.lengths rfl]
  constructor
  · intro h
    split at h
    · contradiction
    · rename_i witnesses reader hread
      obtain ⟨rfl, hsig⟩ := InputScript.mk.inj (Outcome.returned.inj h)
      exact ⟨reader, hread, nilWhenEmpty_inj hsig⟩
  · rintro ⟨reader, hread, rfl⟩
    rw [hread]

theorem encodeItems_inj {items₁ items₂ : List Bytes} {sig₁ sig₂ : Bytes}
    (h₁ : ∀ item ∈ items₁, item.length ≤ 65535) (h₂ : ∀ item ∈ items₂, item.length ≤ 65535)
    (hlength : items₁.length = items₂.length)
    (h : encodeItems items₁ ++ sig₁ = encodeItems items₂ ++ sig₂) :
    items₁ = items₂ ∧ sig₁ = sig₂ := by
  induction items₁ generalizing items₂ with
  | nil =>
      obtain rfl := List.eq_nil_of_length_eq_zero hlength.symm
      exact ⟨rfl, h⟩
  | cons item₁ items₁ ih =>
      obtain ⟨item₂, items₂, rfl⟩ := List.exists_cons_of_length_eq_add_one hlength.symm
      simp only [encodeItems_cons, encodeItem, List.append_assoc] at h
      obtain ⟨hsize, hrest⟩ := List.append_inj h (by simp)
      have hlt₁ := Nat.lt_succ_of_le (h₁ item₁ List.mem_cons_self)
      have hlt₂ := Nat.lt_succ_of_le (h₂ item₂ List.mem_cons_self)
      obtain ⟨rfl, htail⟩ := List.append_inj hrest (bigEndian_inj hlt₁ hlt₂ hsize)
      obtain ⟨rfl, rfl⟩ := ih (fun item hitem => h₁ item (List.mem_cons_of_mem _ hitem))
        (fun item hitem => h₂ item (List.mem_cons_of_mem _ hitem)) (Nat.succ_inj.mp hlength) htail
      exact ⟨rfl, rfl⟩

theorem encodeReply_inj {items₁ items₂ : List Bytes} {sig₁ sig₂ : Bytes}
    (h₁ : Encodable items₁) (h₂ : Encodable items₂)
    (h : encodeReply items₁ sig₁ = encodeReply items₂ sig₂) : items₁ = items₂ ∧ sig₁ = sig₂ := by
  obtain ⟨hcount, h⟩ := List.append_inj h (by simp)
  have hlength := bigEndian_inj (Nat.lt_succ_of_le h₁.count) (Nat.lt_succ_of_le h₂.count) hcount
  exact encodeItems_inj h₁.lengths h₂.lengths hlength h

/-- The parser keeps to the format exactly for the replies whose items are all
readable, and for no reply that is malformed. -/
theorem accepts_iff_readable (msg : Bytes) :
    Accepts msg ↔ ∃ items scriptSig, Encodable items ∧ msg = encodeReply items scriptSig ∧
      Readable (start msg) items := by
  constructor
  · intro haccepts
    by_cases hformed : WellFormed msg
    · obtain ⟨items, scriptSig, hencodable, rfl⟩ := hformed
      have hexact := haccepts.exact items scriptSig hencodable rfl
      exact ⟨items, scriptSig, hencodable, rfl, (parseReply_encodeReply hencodable).mp hexact⟩
    · exact absurd (haccepts.rejects hformed) (parseReply_ne_failed msg)
  · rintro ⟨items, scriptSig, hencodable, rfl, hreadable⟩
    constructor
    · intro items' scriptSig' hencodable' heq
      obtain ⟨rfl, rfl⟩ := encodeReply_inj hencodable hencodable' heq
      exact (parseReply_encodeReply hencodable).mpr hreadable
    · intro hmalformed
      exact absurd ⟨items, scriptSig, hencodable, rfl⟩ hmalformed

/-- When all of the reply is in the buffer, nothing is cut short. -/
theorem readable_of_buffered (hpos : ∀ item ∈ items, 0 < item.length) {fill : Fill}
    (hsource : fill.source = 0) (hle : (encodeItems items).length ≤ fill.buffered) :
    Readable fill items := by
  induction items generalizing fill with
  | nil => trivial
  | cons item items ih =>
      obtain ⟨buffered, source⟩ := fill
      obtain rfl : source = 0 := hsource
      simp only [encodeItems_cons, List.length_append, length_encodeItem] at hle
      have hitem := hpos item List.mem_cons_self
      have hskip : Fill.skipFull bufferSize 2 ⟨buffered, 0⟩ = ⟨buffered - 2, 0⟩ := by
        rw [Fill.skipFull, if_pos (.inr (show 2 ≤ buffered by omega)), Fill.skip,
          if_pos (show buffered ≠ 0 by omega)]
      have hitemskip : Fill.skip bufferSize item.length ⟨buffered - 2, 0⟩ =
          ⟨buffered - 2 - item.length, 0⟩ :=
        if_pos (show buffered - 2 ≠ 0 by omega)
      rw [Readable, hskip, hitemskip]
      refine ⟨hitem, .inr ?_, ?_⟩
      · show item.length ≤ buffered - 2
        omega
      · apply ih (fun item hitem => hpos item (List.mem_cons_of_mem _ hitem)) rfl
        show _ ≤ buffered - 2 - item.length
        omega

theorem readable_of_short (hpos : ∀ item ∈ items, 0 < item.length)
    (hshort : (encodeReply items scriptSig).length ≤ 2 + bufferSize) :
    Readable (start (encodeReply items scriptSig)) items := by
  rcases items with _ | ⟨item, items⟩
  · trivial
  · have hitem := hpos item List.mem_cons_self
    rw [length_encodeReply] at hshort
    rw [start, length_encodeReply, Nat.add_sub_cancel_left, Readable]
    simp only [encodeItems_cons, List.length_append, length_encodeItem] at hshort ⊢
    generalize hsource : 2 + item.length + (encodeItems items).length + scriptSig.length = source
      at hshort ⊢
    have hskip : Fill.skipFull bufferSize 2 ⟨0, source⟩ = ⟨source - 2, 0⟩ := by
      simp only [Fill.skipFull, Fill.Whole, Fill.skip, bufferSize] at hshort ⊢
      simp
      omega
    have hitemskip : Fill.skip bufferSize item.length ⟨source - 2, 0⟩ =
        ⟨source - 2 - item.length, 0⟩ :=
      if_pos (show source - 2 ≠ 0 by omega)
    rw [hskip, hitemskip]
    refine ⟨hitem, .inr ?_, ?_⟩
    · show item.length ≤ source - 2
      omega
    · apply readable_of_buffered (fun item hitem => hpos item (List.mem_cons_of_mem _ hitem)) rfl
      show _ ≤ source - 2 - item.length
      omega

theorem not_accepts_empty_item : ¬ Accepts (encodeReply [[]] []) := by
  intro haccepts
  have hexact := haccepts.exact [[]] [] ⟨by decide, by decide⟩ rfl
  have hexits : parseReply (encodeReply [[]] []) = .exited := by decide
  rw [hexits] at hexact
  contradiction

end ElectrumLightning.ReplyParsing
