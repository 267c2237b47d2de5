import ElectrumLightning.DecoderRefinement
import ElectrumLightning.FreeLists
import ElectrumLightning.TransactionDecoding

/-!
The decoder of transactions with the buffers that it borrows: one of eight bytes
for every integer, and one for every script until the scripts are moved. It reads
what the plain decoder reads, whatever the buffers held before.
-/

namespace ElectrumLightning.ScriptBuffers

open ElectrumLightning.ByteStrings
open ElectrumLightning.DecoderRefinement
open ElectrumLightning.FreeLists
open ElectrumLightning.PrefixDecoding
open ElectrumLightning.ProxySerialization (TxOut)
open ElectrumLightning.TransactionDecoding (Failure Reading Buffer Location PlacedTx PlacedTxIn
  PlacedTxOut moveScript tooMany)
open ElectrumLightning.WitnessSigning

structure BufferedTxIn where
  previousOutPoint : OutPoint
  signatureScript : Slice
  witness : List Slice
  sequence : UInt32
deriving DecidableEq

structure BufferedTxOut where
  value : Int64
  pkScript : Slice
deriving DecidableEq

/-- The inputs and outputs that the message has so far. -/
structure Message where
  txIn : List BufferedTxIn
  txOut : List BufferedTxOut
deriving DecidableEq

/-- The memory of all buffers, and the two channels with the free ones. -/
structure Pools where
  memory : Memory UInt8
  binarySerializer : List Nat
  scriptPool : List Nat
deriving DecidableEq

structure Decoding extends Pools where
  input : Bytes
  msg : Message
deriving DecidableEq

abbrev Buffered := Stateful Failure Decoding

/-- A reader that borrows nothing. -/
def ofReading {α : Type} (d : Reading α) : Buffered α := fun s =>
  match d.run s.input with
  | .ok (a, rest) => (.ok a, { s with input := rest })
  | .error e => (.error e, s)

/-- `io.ReadFull(r, buf)`, which leaves in the buffer what there was. -/
def Decoding.readFull (s : Decoding) (buf : Slice) : Except Failure Unit × Decoding :=
  let read := { s with
    input := s.input.drop buf.length
    memory := overwrite s.memory buf.buffer (s.input.take buf.length) }
  if buf.length ≤ s.input.length then (.ok (), read)
  else if s.input.isEmpty then (.error .eof, read)
  else (.error .unexpectedEof, read)

/-! ### The functions of `binaryFreeList` -/

def binaryFreeListMaxItems : Nat := 1024

def Decoding.borrowBinary (s : Decoding) : Nat × Decoding :=
  let (buf, memory, free) := borrow 0 8 s.memory s.binarySerializer
  (buf, { s with memory := memory, binarySerializer := free })

def Decoding.returnBinary (s : Decoding) (buf : Nat) : Decoding :=
  { s with binarySerializer := giveBack binaryFreeListMaxItems s.binarySerializer buf }

def uintOfWidth (width : Nat) : Buffered Nat := fun s =>
  let (buffer, s) := s.borrowBinary
  let buf : Slice := ⟨buffer, width⟩
  match s.readFull buf with
  | (.error e, s) => (.error e, s.returnBinary buffer)
  | (.ok (), s) => (.ok (littleEndianValue (buf.contents s.memory)), s.returnBinary buffer)

def uint8 : Buffered Nat := uintOfWidth 1
def uint16 : Buffered Nat := uintOfWidth 2
def uint32 : Buffered Nat := uintOfWidth 4
def uint64 : Buffered Nat := uintOfWidth 8

def failIf (c : Prop) [Decidable c] (e : Failure) : Buffered Unit :=
  if c then throw e else pure ()

def readVarIntOfWidth (uint : Buffered Nat) (min : Nat) : Buffered Nat := do
  let rv ← uint
  failIf (rv < min) (.panic "ReadVarInt")
  pure rv

def readVarIntRest (discriminant : Nat) : Buffered Nat :=
  if discriminant = 0xff then readVarIntOfWidth uint64 0x100000000
  else if discriminant = 0xfe then readVarIntOfWidth uint32 0x10000
  else if discriminant = 0xfd then readVarIntOfWidth uint16 0xfd
  else pure discriminant

def readVarInt : Buffered Nat := do
  let discriminant ← uint8
  readVarIntRest discriminant

def readElementInt64 : Buffered Int64 := do
  let rv ← uint64
  pure (Int64.ofNat rv)

def readElementUint32 : Buffered UInt32 := do
  let rv ← uint32
  pure (UInt32.ofNat rv)

/-! ### The functions of `scriptFreeList` -/

def freeListMaxItems : Nat := 1000
def freeListMaxScriptSize : Nat := 1000

def capacity (memory : Memory UInt8) (buf : Slice) : Nat :=
  (memory[buf.buffer]?.getD []).length

def Decoding.borrowScript (s : Decoding) (size : Nat) : Slice × Decoding :=
  if size > freeListMaxScriptSize then
    let (buf, memory) := make 0 size s.memory
    (⟨buf, size⟩, { s with memory := memory })
  else
    let (buf, memory, free) := borrow 0 freeListMaxScriptSize s.memory s.scriptPool
    (⟨buf, size⟩, { s with memory := memory, scriptPool := free })

def Pools.returnScript (s : Pools) (buf : Slice) : Pools :=
  if capacity s.memory buf ≠ freeListMaxScriptSize then s
  else { s with scriptPool := giveBack freeListMaxItems s.scriptPool buf.buffer }

/-- The end of `readScript`. The caller assigns the buffer to a field of the
message. -/
def fillScript (count : Nat) (assign : Slice → Message → Message) : Buffered Nat := fun s =>
  let (b, s) := s.borrowScript count
  match s.readFull b with
  | (.error e, s) => (.error e, { s with toPools := s.toPools.returnScript b })
  | (.ok (), s) => (.ok count, { s with msg := assign b s.msg })

def readScript (maxAllowed : Nat) (fieldName : String) (assign : Slice → Message → Message) :
    Buffered Nat := do
  let count ← readVarInt
  failIf (count > maxAllowed)
    (.error s!"{fieldName} is larger than the max allowed size [count {count}, max {maxAllowed}]")
  fillScript count assign

/-! ### The message -/

def readOutPoint : Buffered OutPoint := do
  let hash ← ofReading TransactionDecoding.readHash
  let index ← readElementUint32
  pure ⟨hash, index⟩

/-- A new input with its script. Without one it has nothing to be returned. -/
def Message.addTxIn (previousOutPoint : OutPoint) (script : Slice) (msg : Message) : Message :=
  { msg with txIn := msg.txIn ++ [⟨previousOutPoint, script, [], 0⟩] }

def Message.setSequence (sequence : UInt32) (msg : Message) : Message :=
  { msg with
    txIn := msg.txIn.modify (msg.txIn.length - 1) fun ti => { ti with sequence := sequence } }

def Message.addTxOut (value : Int64) (script : Slice) (msg : Message) : Message :=
  { msg with txOut := msg.txOut ++ [⟨value, script⟩] }

def Message.addWitness (i : Nat) (item : Slice) (msg : Message) : Message :=
  { msg with txIn := msg.txIn.modify i fun ti => { ti with witness := ti.witness ++ [item] } }

def change (f : Message → Message) : Buffered Unit := fun s => (.ok (), { s with msg := f s.msg })

/-- The result is the length of the script. -/
def readTxIn : Buffered Nat := do
  let previousOutPoint ← readOutPoint
  let size ← readScript 10000 "transaction input signature script"
    (Message.addTxIn previousOutPoint)
  let sequence ← readElementUint32
  change (Message.setSequence sequence)
  pure size

def readTxOut : Buffered Nat := do
  let value ← readElementInt64
  readScript 10000 "transaction output public key script" (Message.addTxOut value)

def readWitness (i : Nat) (total : Nat) : Buffered Nat := do
  let witCount ← readVarInt
  failIf (witCount > 100) (.error (tooMany "witness items" witCount 100))
  repeatTotal (readScript 1000 "script witness item" (Message.addWitness i)) witCount total

/-- The witnesses of `count` inputs from the input `i` on. -/
def readWitnesses : Nat → Nat → Nat → Buffered Nat
  | _, 0, total => pure total
  | i, count + 1, total => do
      let total ← readWitness i total
      readWitnesses (i + 1) count total

def readWitnessSection (flag : UInt8) (total : Nat) : Buffered Nat :=
  if flag ≠ 0 then fun s => readWitnesses 0 s.msg.txIn.length total s else pure total

def readInputCount : Buffered (UInt8 × Nat) := do
  let count ← readVarInt
  if count = 0 then
    let flag ← ofReading TransactionDecoding.uint8
    failIf (flag ≠ 0x01)
      (.panic s!"witness tx but flag byte is {HexText.hexlify [UInt8.ofNat flag]}")
    let count ← readVarInt
    pure (UInt8.ofNat flag, count)
  else pure (0, count)

/-- The version, the lock time and the total size of the scripts. -/
def readMessage : Buffered (Int32 × UInt32 × Nat) := do
  let version ← uint32
  let (flag, count) ← readInputCount
  failIf (count > TransactionDecoding.maxTxInPerMessage)
    (.panic (tooMany "input transactions" count TransactionDecoding.maxTxInPerMessage))
  let total ← repeatTotal readTxIn count 0
  let count ← readVarInt
  failIf (count > 1000) (.error (tooMany "output transactions" count 1000))
  let total ← repeatTotal readTxOut count total
  let total ← readWitnessSection flag total
  let lockTime ← uint32
  pure (Int32.ofNat version, UInt32.ofNat lockTime, total)

def Message.scripts (msg : Message) : List Slice :=
  (msg.txIn.flatMap fun ti => ti.signatureScript :: ti.witness) ++
    msg.txOut.map BufferedTxOut.pkScript

def Pools.returnScripts (p : Pools) (scripts : List Slice) : Pools :=
  scripts.foldl Pools.returnScript p

/-! ### Moving the scripts -/

abbrev Moving := StateT (Buffer × Pools) (Except Failure)

def moveSlice (script : Slice) : Moving Location := fun (b, p) => do
  let (location, b) ← moveScript (script.contents p.memory) b
  pure (location, b, p.returnScript script)

def placeTxIn (ti : BufferedTxIn) : Moving PlacedTxIn := do
  let signatureScript ← moveSlice ti.signatureScript
  let witness ← ti.witness.mapM moveSlice
  pure ⟨ti.previousOutPoint, signatureScript, witness, ti.sequence⟩

def placeTxOut (out : BufferedTxOut) : Moving PlacedTxOut := do
  let pkScript ← moveSlice out.pkScript
  pure ⟨out.value, pkScript⟩

def placeScripts (version : Int32) (lockTime : UInt32) (totalScriptSize : Nat) (msg : Message)
    (p : Pools) : Except Failure (PlacedTx × Pools) := do
  let (txIn, b, p) ← (msg.txIn.mapM placeTxIn).run (⟨List.replicate totalScriptSize 0, 0⟩, p)
  let (txOut, b, p) ← (msg.txOut.mapM placeTxOut).run (b, p)
  pure (⟨version, txIn, txOut, lockTime, b.scripts⟩, p)

def isPanic : Failure → Bool
  | .panic _ => true
  | _ => false

/-- `BtcDecode` into a new message, with the pools afterwards. Every error that it
returns is preceded by `returnScriptBuffers`, but not a panic. -/
def btcDecode (input : Bytes) (p : Pools) : Except Failure (PlacedTx × Bytes) × Pools :=
  match readMessage { p with input := input, msg := ⟨[], []⟩ } with
  | (.error e, s) =>
      (.error e, if isPanic e then s.toPools else s.toPools.returnScripts s.msg.scripts)
  | (.ok (version, lockTime, totalScriptSize), s) =>
      match placeScripts version lockTime totalScriptSize s.msg s.toPools with
      | .error e => (.error e, s.toPools)
      | .ok (placed, p) => (.ok (placed, s.input), p)

/-- Transactions decoded one after the other. -/
def decodeAll : List Bytes → Pools → List (Except Failure (PlacedTx × Bytes)) × Pools
  | [], p => ([], p)
  | input :: inputs, p =>
      let (result, p) := btcDecode input p
      let (results, p) := decodeAll inputs p
      (result :: results, p)

/-! ### What is borrowed -/

/-- The buffers in `live` are borrowed and nobody else has them, and what is
lent and what is free together were free at the start. -/
structure Valid (kept : Nat) (live : List Slice) (p : Pools) : Prop where
  shared : Shared freeListMaxScriptSize freeListMaxItems 8 binaryFreeListMaxItems p.memory
    p.scriptPool p.binarySerializer (live.map Slice.buffer)
  sized : ∀ b ∈ live, ∃ size, Sized p.memory size b.buffer ∧ b.length ≤ size
  kept_le : kept ≤ p.scriptPool.length +
    live.countP fun b => decide (capacity p.memory b = freeListMaxScriptSize)
  kept_le_max : kept ≤ freeListMaxItems

theorem capacity_of_sized {memory : Memory UInt8} {size : Nat} {b : Slice}
    (h : Sized memory size b.buffer) : capacity memory b = size := by
  obtain ⟨bs, hbs, rfl⟩ := h
  rw [capacity, hbs]
  rfl

section Borrowing

variable {kept : Nat} {live : List Slice} {p p' : Pools} {b : Slice}

theorem countP_capacity {memory memory' : Memory UInt8}
    (h : Keeps (live.map Slice.buffer) memory memory') :
    live.countP (fun b => decide (capacity memory' b = freeListMaxScriptSize)) =
      live.countP fun b => decide (capacity memory b = freeListMaxScriptSize) := by
  refine List.countP_congr fun b hb => ?_
  rw [capacity, capacity, h.contents b.buffer (List.mem_map_of_mem hb)]

theorem Valid.congr (h : Valid kept live p)
    (hshared : Shared freeListMaxScriptSize freeListMaxItems 8 binaryFreeListMaxItems p'.memory
      p'.scriptPool p'.binarySerializer (live.map Slice.buffer))
    (hkeeps : Keeps (live.map Slice.buffer) p.memory p'.memory)
    (hpool : p'.scriptPool = p.scriptPool) : Valid kept live p' where
  shared := hshared
  sized := by
    intro b hb
    obtain ⟨size, hsize, hle⟩ := h.sized b hb
    exact ⟨size, hkeeps.sized hsize, hle⟩
  kept_le := by
    rw [hpool, countP_capacity hkeeps]
    exact h.kept_le
  kept_le_max := h.kept_le_max

theorem Valid.of_perm {live' : List Slice} (h : Valid kept live p) (hperm : live.Perm live') :
    Valid kept live' p where
  shared := h.shared.of_perm (hperm.map Slice.buffer)
  sized := fun b hb => h.sized b (hperm.mem_iff.mpr hb)
  kept_le := by
    rw [← hperm.countP_eq]
    exact h.kept_le
  kept_le_max := h.kept_le_max

theorem Valid.returnScript (h : Valid kept (b :: live) p) :
    Valid kept live (p.returnScript b) := by
  obtain ⟨size, hsized, -⟩ := h.sized b List.mem_cons_self
  have hcapacity := capacity_of_sized hsized
  have hkept := h.kept_le
  have hmax := h.kept_le_max
  have hlive : ∀ b' ∈ live, ∃ size, Sized p.memory size b'.buffer ∧ b'.length ≤ size :=
    fun b' hb' => h.sized b' (List.mem_cons_of_mem b hb')
  rw [List.countP_cons, hcapacity] at hkept
  rw [Pools.returnScript, hcapacity]
  split
  · rename_i hother
    refine ⟨h.shared.drop, hlive, ?_, hmax⟩
    simpa [hother] using hkept
  · rename_i hpooled
    rw [not_not] at hpooled
    subst hpooled
    refine ⟨h.shared.giveBack hsized, hlive, ?_, hmax⟩
    have hlength := length_giveBack (a := b.buffer) h.shared.first.length_le
    simp only [decide_true, if_true] at hkept ⊢
    omega

theorem Valid.returnScripts (h : Valid kept live p) : Valid kept [] (p.returnScripts live) := by
  induction live generalizing p with
  | nil => exact h
  | cons b live ih => exact ih h.returnScript

/-- A buffer for a script is borrowed, or made. -/
theorem borrowScript_spec {s : Decoding} (h : Valid kept live s.toPools) (size : Nat) :
    ∃ b p', s.borrowScript size = (b, { s with toPools := p' }) ∧ b.length = size ∧
      Valid kept (b :: live) p' ∧ Keeps (live.map Slice.buffer) s.memory p'.memory := by
  have hkept := h.kept_le
  rw [Decoding.borrowScript]
  split
  · have hkeeps := keeps_make (0 : UInt8) size s.memory h.shared.known
    have hsized := sized_make (0 : UInt8) size s.memory
    refine ⟨_, { s.toPools with memory := (make 0 size s.memory).2 }, rfl, rfl,
      ⟨h.shared.make 0 size, ?_, ?_, h.kept_le_max⟩, hkeeps⟩
    · intro b hb
      rcases List.mem_cons.mp hb with rfl | hlive
      · exact ⟨size, hsized, Nat.le_refl _⟩
      · obtain ⟨size', hsize', hle⟩ := h.sized b hlive
        exact ⟨size', hkeeps.sized hsize', hle⟩
    · rw [List.countP_cons, countP_capacity hkeeps]
      dsimp only
      omega
  · rename_i hsmall
    obtain ⟨a, memory', free', hborrow, hshared, hsized, hkeeps, hlength⟩ := h.shared.borrow 0
    rw [hborrow]
    refine ⟨_, { s.toPools with memory := memory', scriptPool := free' }, rfl, rfl,
      ⟨hshared, ?_, ?_, h.kept_le_max⟩, hkeeps⟩
    · intro b hb
      rcases List.mem_cons.mp hb with rfl | hlive
      · exact ⟨freeListMaxScriptSize, hsized, Nat.not_lt.mp hsmall⟩
      · obtain ⟨size', hsize', hle⟩ := h.sized b hlive
        exact ⟨size', hkeeps.sized hsize', hle⟩
    · have hcapacity : capacity memory' ⟨a, size⟩ = freeListMaxScriptSize :=
        capacity_of_sized hsized
      rw [List.countP_cons, countP_capacity hkeeps, hcapacity]
      simp only [decide_true, if_true]
      omega

/-- A borrowed buffer is filled, and no other one changes. -/
theorem Valid.overwrite (h : Valid kept (b :: live) p) (xs : Bytes) :
    Valid kept (b :: live) { p with memory := overwrite p.memory b.buffer xs } ∧
      Keeps (live.map Slice.buffer) p.memory (overwrite p.memory b.buffer xs) ∧
      (xs.length = b.length → b.contents (overwrite p.memory b.buffer xs) = xs) := by
  obtain ⟨hshared, hkeeps⟩ := h.shared.overwrite xs
  obtain ⟨size, hsized, hle⟩ := h.sized b List.mem_cons_self
  have hall : Keeps [] p.memory (FreeLists.overwrite p.memory b.buffer xs) :=
    keeps_overwrite List.not_mem_nil xs
  refine ⟨⟨hshared, ?_, ?_, h.kept_le_max⟩, hkeeps, fun hlength => ?_⟩
  · intro b' hb'
    obtain ⟨size', hsize', hle'⟩ := h.sized b' hb'
    exact ⟨size', hall.sized hsize', hle'⟩
  · have hkept := h.kept_le
    rw [List.countP_cons, capacity_of_sized hsized] at hkept
    rw [List.countP_cons, countP_capacity hkeeps, capacity_of_sized (hall.sized hsized)]
    exact hkept
  · have hread := contents_overwrite hsized (hlength ▸ hle)
    rwa [hlength] at hread

end Borrowing

/-! ### What the message holds -/

abbrev Contents := List TxIn × List TxOut

def BufferedTxIn.contents (memory : Memory UInt8) (ti : BufferedTxIn) : TxIn :=
  ⟨ti.previousOutPoint, ti.signatureScript.contents memory,
    ti.witness.map (Slice.contents memory), ti.sequence⟩

def BufferedTxOut.contents (memory : Memory UInt8) (out : BufferedTxOut) : TxOut :=
  ⟨out.value, out.pkScript.contents memory⟩

def Message.contents (memory : Memory UInt8) (msg : Message) : Contents :=
  (msg.txIn.map (BufferedTxIn.contents memory), msg.txOut.map (BufferedTxOut.contents memory))

def Decoding.holds (s : Decoding) : Contents := s.msg.contents s.memory

/-- A message reads the same wherever its own buffers are unchanged. -/
theorem contents_congr {msg : Message} {memory memory' : Memory UInt8}
    (h : Keeps (msg.scripts.map Slice.buffer) memory memory') :
    msg.contents memory' = msg.contents memory := by
  have hslice : ∀ b ∈ msg.scripts, b.contents memory' = b.contents memory :=
    fun b hb => h.slice (List.mem_map_of_mem hb)
  have hin : ∀ ti ∈ msg.txIn, ∀ b ∈ ti.signatureScript :: ti.witness, b ∈ msg.scripts :=
    fun ti hti b hb => List.mem_append_left _ (List.mem_flatMap.mpr ⟨ti, hti, hb⟩)
  refine Prod.ext (List.map_congr_left fun ti hti => ?_) (List.map_congr_left fun out hout => ?_)
  · have hscript := hslice _ (hin ti hti _ List.mem_cons_self)
    have hwitness : ti.witness.map (Slice.contents memory') =
        ti.witness.map (Slice.contents memory) :=
      List.map_congr_left fun b hb => hslice b (hin ti hti b (List.mem_cons_of_mem _ hb))
    rw [BufferedTxIn.contents, BufferedTxIn.contents, hscript, hwitness]
  · have hscript := hslice out.pkScript (List.mem_append_right _ (List.mem_map_of_mem hout))
    rw [BufferedTxOut.contents, BufferedTxOut.contents, hscript]

def view (kept : Nat) : View UInt8 Decoding where
  input := Decoding.input
  valid := fun s => Valid kept s.msg.scripts s.toPools

/-- The action reads what the decoder reads and leaves the message alone. -/
def Quiet {α : Type} (kept : Nat) (p : Buffered α) (d : Reading α) : Prop :=
  ∀ c, Refines (view kept) (fun s => s.holds = c) p d fun a b s => b = a ∧ s.holds = c

section Numbers

variable {kept : Nat} {α : Type}

theorem quiet_ofReading (d : Reading α) : Quiet kept (ofReading d) d := by
  intro c s hvalid hholds
  unfold ofReading
  have hsame : (view kept).input s = s.input := rfl
  rw [hsame]
  cases d.run s.input with
  | error e => exact ⟨s, rfl, hvalid⟩
  | ok result =>
      obtain ⟨a, rest⟩ := result
      exact ⟨a, { s with input := rest }, rfl, rfl, hvalid, rfl, hholds⟩

theorem quiet_uintOfWidth {width : Nat} (hwidth : width ≤ 8) :
    Quiet kept (uintOfWidth width) (TransactionDecoding.uintOfWidth width) := by
  intro c s hvalid hholds
  have hshared : Valid kept s.msg.scripts s.toPools := hvalid
  obtain ⟨a, memory, free, hborrow, hlent, hsized, hkeeps, -⟩ := hshared.shared.swap.borrow 0
  obtain ⟨hwritten, hwrote⟩ := hlent.overwrite (s.input.take width)
  have hall : Keeps [] memory (overwrite memory a (s.input.take width)) :=
    keeps_overwrite List.not_mem_nil _
  have hreturned := (hwritten.giveBack (hall.sized hsized)).swap
  have hkept := hkeeps.trans hwrote
  -- the state after the buffer has been returned
  let s' : Decoding :=
    { s with
      input := s.input.drop width
      memory := overwrite memory a (s.input.take width)
      binarySerializer := giveBack binaryFreeListMaxItems free a }
  have hvalid' : Valid kept s'.msg.scripts s'.toPools := hshared.congr hreturned hkept rfl
  have hholds' : s'.holds = c := (contents_congr hkept).trans hholds
  have hrun : uintOfWidth width s =
      if width ≤ s.input.length then
        (.ok (littleEndianValue (Slice.contents s'.memory ⟨a, width⟩)), s')
      else if s.input.isEmpty then (.error .eof, s') else (.error .unexpectedEof, s') := by
    unfold uintOfWidth Decoding.borrowBinary
    rw [hborrow]
    dsimp only [Decoding.readFull]
    split_ifs <;> rfl
  have hinput : (view kept).input s = s.input := rfl
  rw [hrun, hinput, TransactionDecoding.uintOfWidth, StateT.run_bind]
  by_cases hlength : width ≤ s.input.length
  · have hread : (TransactionDecoding.readFull width).run s.input =
        .ok (s.input.take width, s.input.drop width) := if_pos hlength
    have htake : (s.input.take width).length = width := List.length_take_of_le hlength
    have hvalue : Slice.contents s'.memory ⟨a, width⟩ = s.input.take width := by
      have h := contents_overwrite hsized (htake.symm ▸ hwidth)
      rwa [htake] at h
    rw [hread, if_pos hlength, hvalue]
    exact ⟨_, s', rfl, rfl, hvalid', rfl, hholds'⟩
  · rw [if_neg hlength]
    by_cases hempty : s.input.isEmpty = true
    · have hread : (TransactionDecoding.readFull width).run s.input = .error .eof :=
        (if_neg hlength).trans (if_pos hempty)
      rw [hread, if_pos hempty]
      exact ⟨s', rfl, hvalid'⟩
    · have hread : (TransactionDecoding.readFull width).run s.input = .error .unexpectedEof :=
        (if_neg hlength).trans (if_neg hempty)
      rw [hread, if_neg hempty]
      exact ⟨s', rfl, hvalid'⟩

theorem Quiet.bind {β : Type} {p : Buffered α} {d : Reading α} {q : α → Buffered β}
    {f : α → Reading β} (hp : Quiet kept p d) (hq : ∀ a, Quiet kept (q a) (f a)) :
    Quiet kept (p >>= q) (d >>= f) := by
  intro c
  refine (hp c).bind fun a b => ?_
  intro s hvalid hs
  obtain ⟨rfl, hholds⟩ := hs
  exact hq b c s hvalid hholds

theorem quiet_pure (a : α) : Quiet kept (pure a) (pure a) :=
  fun _ => Refines.pure fun _ hs => ⟨rfl, hs⟩

theorem quiet_failIf (c : Prop) [Decidable c] (e : Failure) :
    Quiet kept (failIf c e) (PrefixDecoding.failIf c e) :=
  fun _ => Refines.failIf fun _ hs => ⟨rfl, hs⟩

theorem quiet_readVarIntOfWidth {width : Nat} (hwidth : width ≤ 8) (min : Nat) :
    Quiet kept (readVarIntOfWidth (uintOfWidth width) min)
      (TransactionDecoding.readVarIntOfWidth (TransactionDecoding.uintOfWidth width) min) :=
  (quiet_uintOfWidth hwidth).bind fun rv => (quiet_failIf _ _).bind fun _ => quiet_pure rv

theorem quiet_readVarInt : Quiet kept readVarInt TransactionDecoding.readVarInt := by
  refine (quiet_uintOfWidth (by decide)).bind fun discriminant => ?_
  intro c
  unfold readVarIntRest TransactionDecoding.readVarIntRest
  refine Refines.ite (quiet_readVarIntOfWidth (by decide) _ c) (Refines.ite ?_ (Refines.ite ?_ ?_))
  · exact quiet_readVarIntOfWidth (by decide) _ c
  · exact quiet_readVarIntOfWidth (by decide) _ c
  · exact quiet_pure discriminant c

theorem quiet_readElementInt64 :
    Quiet kept readElementInt64 TransactionDecoding.readElementInt64 :=
  (quiet_uintOfWidth (by decide)).bind fun _ => quiet_pure _

theorem quiet_readElementUint32 :
    Quiet kept readElementUint32 TransactionDecoding.readElementUint32 :=
  (quiet_uintOfWidth (by decide)).bind fun _ => quiet_pure _

theorem quiet_readInputCount :
    Quiet kept readInputCount TransactionDecoding.readInputCount := by
  refine quiet_readVarInt.bind fun count c => Refines.ite ?_ (quiet_pure _ c)
  exact ((quiet_ofReading _).bind fun flag => (quiet_failIf _ _).bind fun _ =>
    quiet_readVarInt.bind fun count => quiet_pure _) c

end Numbers

/-! ### Scripts -/

/-- Assigning a buffer makes the message hold it, and what it then reads as. -/
structure Assigns (assign : Slice → Message → Message) (c : Contents) (c' : Bytes → Contents) :
    Prop where
  scripts : ∀ ⦃b msg memory⦄, msg.contents memory = c →
    (assign b msg).scripts.Perm (b :: msg.scripts)
  contents : ∀ ⦃b msg memory⦄, msg.contents memory = c →
    (assign b msg).contents memory = c' (b.contents memory)

section Scripts

variable {kept : Nat} {assign : Slice → Message → Message} {c : Contents} {c' : Bytes → Contents}

theorem refines_fillScript (h : Assigns assign c c') (count : Nat) :
    Refines (view kept) (fun s => s.holds = c) (fillScript count assign)
      (TransactionDecoding.readFull count) fun bs n s => n = bs.length ∧ s.holds = c' bs := by
  intro s hvalid hholds
  have hs : Valid kept s.msg.scripts s.toPools := hvalid
  obtain ⟨b, p, hborrow, hlength, hlent, hkeeps⟩ := borrowScript_spec hs count
  obtain ⟨hfilled, hwrote, hread⟩ := hlent.overwrite (s.input.take count)
  have hkept := hkeeps.trans hwrote
  have hmsg : s.msg.contents (overwrite p.memory b.buffer (s.input.take count)) = c :=
    (contents_congr hkept).trans hholds
  -- the state after the buffer has been filled
  let s' : Decoding :=
    { toPools := { p with memory := overwrite p.memory b.buffer (s.input.take count) }
      input := s.input.drop count
      msg := s.msg }
  have hrun : fillScript count assign s =
      if count ≤ s.input.length then (.ok count, { s' with msg := assign b s.msg })
      else if s.input.isEmpty then
        (.error .eof, { s' with toPools := s'.toPools.returnScript b })
      else (.error .unexpectedEof, { s' with toPools := s'.toPools.returnScript b }) := by
    unfold fillScript
    rw [hborrow]
    dsimp only [Decoding.readFull]
    rw [hlength]
    split_ifs <;> rfl
  have hinput : (view kept).input s = s.input := rfl
  rw [hrun, hinput]
  by_cases hfits : count ≤ s.input.length
  · have hplain : (TransactionDecoding.readFull count).run s.input =
        .ok (s.input.take count, s.input.drop count) := if_pos hfits
    have htake : (s.input.take count).length = count := List.length_take_of_le hfits
    have hbytes : b.contents s'.memory = s.input.take count := hread (htake.trans hlength.symm)
    rw [hplain, if_pos hfits]
    refine ⟨count, { s' with msg := assign b s.msg }, rfl, rfl, ?_, htake.symm, ?_⟩
    · exact hfilled.of_perm (h.scripts hmsg).symm
    · exact (h.contents hmsg).trans (congrArg c' hbytes)
  · have hreturned : Valid kept s.msg.scripts (s'.toPools.returnScript b) := hfilled.returnScript
    rw [if_neg hfits]
    by_cases hempty : s.input.isEmpty = true
    · have hplain : (TransactionDecoding.readFull count).run s.input = .error .eof :=
        (if_neg hfits).trans (if_pos hempty)
      rw [hplain, if_pos hempty]
      exact ⟨_, rfl, hreturned⟩
    · have hplain : (TransactionDecoding.readFull count).run s.input = .error .unexpectedEof :=
        (if_neg hfits).trans (if_neg hempty)
      rw [hplain, if_neg hempty]
      exact ⟨_, rfl, hreturned⟩

theorem refines_readScript (h : Assigns assign c c') (maxAllowed : Nat) (fieldName : String) :
    Refines (view kept) (fun s => s.holds = c) (readScript maxAllowed fieldName assign)
      (TransactionDecoding.readScript maxAllowed fieldName)
      fun bs n s => n = bs.length ∧ s.holds = c' bs := by
  refine (quiet_readVarInt c).bind fun count count' => ?_
  intro s hvalid hs
  obtain ⟨rfl, hholds⟩ := hs
  refine ((quiet_failIf _ _ c).bind fun _ _ => ?_) s hvalid hholds
  exact (refines_fillScript h count').imp (fun _ hs => hs.2) fun _ _ _ hs => hs

theorem assigns_addTxIn (previousOutPoint : OutPoint) (txIn : List TxIn) (txOut : List TxOut) :
    Assigns (Message.addTxIn previousOutPoint) (txIn, txOut)
      fun bs => (txIn ++ [⟨previousOutPoint, bs, [], 0⟩], txOut) where
  scripts := by
    intro b msg memory _
    simp [Message.scripts, Message.addTxIn]
  contents := by
    intro b msg memory hmsg
    obtain ⟨rfl, rfl⟩ := Prod.mk.inj hmsg
    simp [Message.contents, Message.addTxIn, BufferedTxIn.contents]

theorem assigns_addTxOut (value : Int64) (txIn : List TxIn) (txOut : List TxOut) :
    Assigns (Message.addTxOut value) (txIn, txOut) fun bs => (txIn, txOut ++ [⟨value, bs⟩]) where
  scripts := by
    intro b msg memory _
    have hlast : (msg.scripts ++ [b]).Perm (b :: msg.scripts) := List.perm_append_singleton _ _
    simpa [Message.scripts, Message.addTxOut] using hlast
  contents := by
    intro b msg memory hmsg
    obtain ⟨rfl, rfl⟩ := Prod.mk.inj hmsg
    simp [Message.contents, Message.addTxOut, BufferedTxOut.contents]

theorem modify_middle {α : Type} (f : α → α) (done : List α) (a : α) (rest : List α) :
    (done ++ a :: rest).modify done.length f = done ++ f a :: rest := by
  induction done with
  | nil => rfl
  | cons b done ih =>
      rw [List.cons_append, List.length_cons, List.modify_succ_cons, ih]
      rfl

/-- Where an input of the message stands. -/
theorem txIn_split {msg : Message} {memory : Memory UInt8} {done : List TxIn} {ti : TxIn}
    {rest : List TxIn} {txOut : List TxOut}
    (h : msg.contents memory = (done ++ ti :: rest, txOut)) :
    ∃ done' ti' rest', msg.txIn = done' ++ ti' :: rest' ∧ done'.length = done.length ∧
      done'.map (BufferedTxIn.contents memory) = done ∧ ti'.contents memory = ti ∧
      rest'.map (BufferedTxIn.contents memory) = rest := by
  obtain ⟨done', tail, htxIn, hdone, htail⟩ := List.map_eq_append_iff.mp (Prod.mk.inj h).1
  obtain ⟨ti', rest', rfl, hti, hrest⟩ := List.map_eq_cons_iff.mp htail
  refine ⟨done', ti', rest', htxIn, ?_, hdone, hti, hrest⟩
  rw [← hdone, List.length_map]

theorem assigns_addWitness (done : List TxIn) (ti : TxIn) (rest : List TxIn)
    (txOut : List TxOut) :
    Assigns (Message.addWitness done.length) (done ++ ti :: rest, txOut)
      fun bs => (done ++ { ti with witness := ti.witness ++ [bs] } :: rest, txOut) where
  scripts := by
    intro b msg memory hmsg
    obtain ⟨done', ti', rest', htxIn, hlength, -⟩ := txIn_split hmsg
    let f : BufferedTxIn → List Slice := fun ti => ti.signatureScript :: ti.witness
    have hmiddle : ((done'.flatMap f ++ f ti') ++ b ::
        (rest'.flatMap f ++ msg.txOut.map BufferedTxOut.pkScript)).Perm
          (b :: ((done'.flatMap f ++ f ti') ++
            (rest'.flatMap f ++ msg.txOut.map BufferedTxOut.pkScript))) := List.perm_middle
    have hbefore : msg.scripts = (done'.flatMap f ++ f ti') ++
        (rest'.flatMap f ++ msg.txOut.map BufferedTxOut.pkScript) := by
      simp [Message.scripts, htxIn, f]
    have hafter : (Message.addWitness done.length b msg).scripts = (done'.flatMap f ++ f ti') ++
        b :: (rest'.flatMap f ++ msg.txOut.map BufferedTxOut.pkScript) := by
      rw [Message.scripts, Message.addWitness, htxIn, ← hlength, modify_middle]
      simp [f]
    rw [hbefore, hafter]
    exact hmiddle
  contents := by
    intro b msg memory hmsg
    obtain ⟨done', ti', rest', htxIn, hlength, rfl, rfl, rfl⟩ := txIn_split hmsg
    have htxOut := (Prod.mk.inj hmsg).2
    rw [Message.contents, Message.addWitness, htxIn, ← hlength, modify_middle]
    simp [BufferedTxIn.contents, htxOut]

end Scripts

/-! ### The whole message -/

section Reading

variable {kept : Nat}

theorem quiet_readOutPoint : Quiet kept readOutPoint TransactionDecoding.readOutPoint :=
  (quiet_ofReading _).bind fun _ => quiet_readElementUint32.bind fun _ => quiet_pure _

theorem setSequence_last (sequence : UInt32) {msg : Message} {memory : Memory UInt8}
    {done : List TxIn} {ti : TxIn} {txOut : List TxOut}
    (h : msg.contents memory = (done ++ [ti], txOut)) :
    (msg.setSequence sequence).scripts = msg.scripts ∧
      (msg.setSequence sequence).contents memory =
        (done ++ [{ ti with sequence := sequence }], txOut) := by
  obtain ⟨done', ti', rest', htxIn, hlength, rfl, rfl, hrest⟩ := txIn_split h
  obtain rfl := List.map_eq_nil_iff.mp hrest
  have htxOut := (Prod.mk.inj h).2
  have hlast : msg.txIn.length - 1 = done'.length := by
    rw [htxIn, List.length_append]
    rfl
  have hset : (msg.setSequence sequence).txIn = done' ++ [{ ti' with sequence := sequence }] := by
    rw [Message.setSequence, hlast, htxIn, modify_middle]
  constructor
  · rw [Message.scripts, Message.scripts, hset, htxIn]
    simp [Message.setSequence]
  · rw [Message.contents, hset]
    simp [BufferedTxIn.contents, Message.setSequence, htxOut]

/-- The inputs read so far have no witness yet. -/
def Bare (txIn : List TxIn) : Prop := ∀ ti ∈ txIn, ti.witness = []

theorem refines_readTxIn (done : List TxIn) (txOut : List TxOut) :
    Refines (view kept) (fun s => Bare done ∧ s.holds = (done, txOut)) readTxIn
      TransactionDecoding.readTxIn fun ti n s =>
        n = ti.signatureScript.length ∧ Bare (done ++ [ti]) ∧ s.holds = (done ++ [ti], txOut) := by
  rintro s hvalid ⟨hbare, hholds⟩
  refine ((quiet_readOutPoint _).bind fun _ previousOutPoint => ?_) s hvalid hholds
  rintro s hvalid ⟨rfl, hholds⟩
  refine ((refines_readScript (assigns_addTxIn _ done txOut) _ _).bind fun script n => ?_) s
    hvalid hholds
  rintro s hvalid ⟨rfl, hholds⟩
  refine ((quiet_readElementUint32 _).bind fun _ sequence => ?_) s hvalid hholds
  rintro s hvalid ⟨rfl, hholds⟩
  obtain ⟨hscripts, hcontents⟩ := setSequence_last sequence hholds
  refine ⟨script.length, { s with msg := s.msg.setSequence sequence }, rfl, rfl, ?_, rfl, ?_,
    hcontents⟩
  · have hs : Valid kept s.msg.scripts s.toPools := hvalid
    rw [← hscripts] at hs
    exact hs
  · intro ti hti
    rcases List.mem_append.mp hti with hold | hlast
    · exact hbare ti hold
    · rw [List.mem_singleton.mp hlast]

theorem refines_readTxIns (count : Nat) :
    Refines (view kept) (fun s => s.holds = ([], [])) (repeatTotal readTxIn count 0)
      (readMany TransactionDecoding.readTxIn (fun txIn => txIn.signatureScript.length) count 0)
      fun result n s => n = result.2 ∧ Bare result.1 ∧ s.holds = (result.1, []) := by
  have hmany := Refines.many (I := fun done (s : Decoding) => Bare done ∧ s.holds = (done, []))
    (fun done => @refines_readTxIn kept done []) [] count 0
  exact hmany.imp (fun s hs => ⟨List.forall_mem_nil _, hs⟩) fun _ _ _ hs => hs

theorem refines_readTxOut (txIn : List TxIn) (done : List TxOut) :
    Refines (view kept) (fun s => s.holds = (txIn, done)) readTxOut
      TransactionDecoding.readTxOut fun out n s =>
        n = out.pkScript.length ∧ s.holds = (txIn, done ++ [out]) := by
  refine (quiet_readElementInt64 _).bind fun _ value => ?_
  rintro s hvalid ⟨rfl, hholds⟩
  have hlast : ∀ (script : Bytes) (n : Nat),
      Refines (view kept)
        (fun s => n = script.length ∧ s.holds = (txIn, done ++ [⟨value, script⟩]))
        (pure n : Buffered Nat) (pure ⟨value, script⟩ : Reading TxOut) fun out n s =>
          n = out.pkScript.length ∧ s.holds = (txIn, done ++ [out]) :=
    fun _ _ => Refines.pure fun _ hs => hs
  have hscript := (refines_readScript (assigns_addTxOut value txIn done) 10000
    "transaction output public key script").bind hlast
  rw [bind_pure] at hscript
  exact hscript s hvalid hholds

theorem refines_readTxOuts (txIn : List TxIn) (count total : Nat) :
    Refines (view kept) (fun s => s.holds = (txIn, [])) (repeatTotal readTxOut count total)
      (readMany TransactionDecoding.readTxOut (fun txOut => txOut.pkScript.length) count total)
      fun result n s => n = result.2 ∧ s.holds = (txIn, result.1) :=
  Refines.many (I := fun done (s : Decoding) => s.holds = (txIn, done)) (refines_readTxOut txIn)
    [] count total

theorem refines_readWitness (done : List TxIn) {ti : TxIn} (hbare : ti.witness = [])
    (rest : List TxIn) (txOut : List TxOut) (total : Nat) :
    Refines (view kept) (fun s => s.holds = (done ++ ti :: rest, txOut))
      (readWitness done.length total) (TransactionDecoding.readWitness total)
      fun result n s => n = result.2 ∧
        s.holds = (done ++ { ti with witness := result.1 } :: rest, txOut) := by
  refine (quiet_readVarInt _).bind fun _ witCount => ?_
  rintro s hvalid ⟨rfl, hholds⟩
  refine ((quiet_failIf _ _ _).bind fun _ _ => ?_) s hvalid hholds
  rintro s hvalid ⟨-, hholds⟩
  have hitem : ∀ items : List Bytes,
      Refines (view kept)
        (fun s => s.holds = (done ++ { ti with witness := items } :: rest, txOut))
        (readScript 1000 "script witness item" (Message.addWitness done.length))
        (TransactionDecoding.readScript 1000 "script witness item") fun item n s =>
          n = item.length ∧
            s.holds = (done ++ { ti with witness := items ++ [item] } :: rest, txOut) :=
    fun items => refines_readScript (assigns_addWitness done _ rest txOut) _ _
  have hstart : s.holds = (done ++ { ti with witness := [] } :: rest, txOut) := by
    rw [← hbare]
    exact hholds
  exact Refines.many hitem [] witCount total s hvalid hstart

theorem refines_readWitnesses (done : List TxIn) {txIn : List TxIn} (hbare : Bare txIn)
    (txOut : List TxOut) (total : Nat) :
    Refines (view kept) (fun s => s.holds = (done ++ txIn, txOut))
      (readWitnesses done.length txIn.length total)
      (TransactionDecoding.readWitnesses txIn total)
      fun result n s => n = result.2 ∧ s.holds = (done ++ result.1, txOut) := by
  induction txIn generalizing done total with
  | nil => exact Refines.pure fun s hs => ⟨rfl, hs⟩
  | cons ti rest ih =>
      refine (refines_readWitness done (hbare ti List.mem_cons_self) rest txOut total).bind
        fun result n => ?_
      rintro s hvalid ⟨rfl, hholds⟩
      obtain ⟨witness, total'⟩ := result
      have hnext := ih (done ++ [{ ti with witness := witness }])
        (fun t ht => hbare t (List.mem_cons_of_mem ti ht)) total'
      have hpure : ∀ (result : List TxIn × Nat) (n : Nat),
          Refines (view kept)
            (fun s => n = result.2 ∧
              s.holds = (done ++ [{ ti with witness := witness }] ++ result.1, txOut))
            (pure n : Buffered Nat)
            (pure ({ ti with witness := witness } :: result.1, result.2) : Reading _)
            fun result n s => n = result.2 ∧ s.holds = (done ++ result.1, txOut) :=
        fun _ _ => Refines.pure fun _ hs => by simpa using hs
      have hlast := hnext.bind hpure
      rw [bind_pure] at hlast
      have hlength : done.length + 1 = (done ++ [{ ti with witness := witness }]).length := by
        simp
      have hholds' : s.holds = (done ++ [{ ti with witness := witness }] ++ rest, txOut) := by
        simpa using hholds
      have hrun := hlast s hvalid hholds'
      rw [← hlength] at hrun
      exact hrun

theorem refines_readWitnessSection (flag : UInt8) {txIn : List TxIn} (hbare : Bare txIn)
    (txOut : List TxOut) (total : Nat) :
    Refines (view kept) (fun s => s.holds = (txIn, txOut)) (readWitnessSection flag total)
      (TransactionDecoding.readWitnessSection flag txIn total)
      fun result n s => n = result.2 ∧ s.holds = (result.1, txOut) := by
  refine Refines.ite (fun s hvalid hholds => ?_) (Refines.pure fun s hs => ⟨rfl, hs⟩)
  have hlength : s.msg.txIn.length = txIn.length := by
    have hmap : s.msg.txIn.map (BufferedTxIn.contents s.memory) = txIn := (Prod.mk.inj hholds).1
    rw [← hmap, List.length_map]
  have hrun := refines_readWitnesses [] hbare txOut total s hvalid hholds
  rw [← hlength] at hrun
  exact hrun

theorem refines_readMessage :
    Refines (view kept) (fun s => s.holds = ([], [])) readMessage
      TransactionDecoding.readMessage fun result read s =>
        read = (result.1.version, result.1.lockTime, result.2) ∧
          s.holds = (result.1.txIn, result.1.txOut) := by
  refine (quiet_uintOfWidth (by decide) _).bind fun _ version => ?_
  rintro s hvalid ⟨rfl, hholds⟩
  refine ((quiet_readInputCount _).bind fun _ head => ?_) s hvalid hholds
  obtain ⟨flag, count⟩ := head
  rintro s hvalid ⟨rfl, hholds⟩
  refine ((quiet_failIf _ _ _).bind fun _ _ => ?_) s hvalid hholds
  rintro s hvalid ⟨-, hholds⟩
  refine ((refines_readTxIns count).bind fun result n => ?_) s hvalid hholds
  obtain ⟨txIn, total⟩ := result
  rintro s hvalid ⟨rfl, hbare, hholds⟩
  refine ((quiet_readVarInt _).bind fun _ count => ?_) s hvalid hholds
  rintro s hvalid ⟨rfl, hholds⟩
  refine ((quiet_failIf _ _ _).bind fun _ _ => ?_) s hvalid hholds
  rintro s hvalid ⟨-, hholds⟩
  refine ((refines_readTxOuts txIn count n).bind fun result n => ?_) s hvalid hholds
  obtain ⟨txOut, total⟩ := result
  rintro s hvalid ⟨rfl, hholds⟩
  refine ((refines_readWitnessSection flag hbare txOut n).bind fun result n => ?_) s hvalid hholds
  obtain ⟨txIn, total⟩ := result
  rintro s hvalid ⟨rfl, hholds⟩
  refine ((quiet_uintOfWidth (by decide) _).bind fun _ lockTime => ?_) s hvalid hholds
  rintro s hvalid ⟨rfl, hholds⟩
  exact ⟨_, s, rfl, rfl, hvalid, rfl, hholds⟩

end Reading

/-! ### Moving the scripts out -/

section Moving

variable {α β γ : Type} {memory : Memory UInt8} {m : Moving α} {q : TransactionDecoding.Placing α}

/-- The action moves what the plain one moves, and returns the buffers of the
scripts; it fails only with a panic, as the plain one does. -/
def Mirrors (memory : Memory UInt8) (m : Moving α) (q : TransactionDecoding.Placing α)
    (scripts : List Slice) : Prop :=
  ∀ b p, p.memory = memory →
    match q.run b with
    | .ok (a, b') => m.run (b, p) = .ok (a, b', p.returnScripts scripts)
    | .error e => m.run (b, p) = .error e ∧ isPanic e = true

theorem memory_returnScript (p : Pools) (script : Slice) :
    (p.returnScript script).memory = p.memory := by
  unfold Pools.returnScript
  split <;> rfl

theorem memory_returnScripts (p : Pools) (scripts : List Slice) :
    (p.returnScripts scripts).memory = p.memory := by
  induction scripts generalizing p with
  | nil => rfl
  | cons script scripts ih => exact (ih _).trans (memory_returnScript p script)

theorem mirrors_moveSlice (memory : Memory UInt8) (script : Slice) :
    Mirrors memory (moveSlice script) (moveScript (script.contents memory)) [script] := by
  rintro b p rfl
  have hrun : (moveSlice script).run (b, p) =
      (do
        let (location, b) ← moveScript (script.contents p.memory) b
        pure (location, b, p.returnScript script)) := rfl
  have hplain : (moveScript (script.contents p.memory)).run b =
      moveScript (script.contents p.memory) b := rfl
  rw [hrun, hplain]
  unfold moveScript
  dsimp only
  split_ifs
  · exact ⟨rfl, rfl⟩
  · exact ⟨rfl, rfl⟩
  · rfl

theorem mirrors_pure (memory : Memory UInt8) (a : α) :
    Mirrors memory (pure a) (pure a) [] :=
  fun _ _ _ => rfl

theorem Mirrors.bind {f : α → Moving β} {g : α → TransactionDecoding.Placing β}
    {first second : List Slice} (h : Mirrors memory m q first)
    (hf : ∀ a, Mirrors memory (f a) (g a) second) :
    Mirrors memory (m >>= f) (q >>= g) (first ++ second) := by
  intro b p hp
  have hfirst := h b p hp
  rw [StateT.run_bind, StateT.run_bind]
  cases hq : q.run b with
  | error e =>
      rw [hq] at hfirst
      rw [hfirst.1]
      exact ⟨rfl, hfirst.2⟩
  | ok result =>
      obtain ⟨a, b'⟩ := result
      rw [hq] at hfirst
      have hsecond := hf a b' (p.returnScripts first) ((memory_returnScripts p first).trans hp)
      rw [show (p.returnScripts first).returnScripts second = p.returnScripts (first ++ second)
        from List.foldl_append.symm] at hsecond
      rw [show m.run (b, p) = _ from hfirst]
      exact hsecond

theorem Mirrors.mapM {f : β → Moving α} {g : γ → TransactionDecoding.Placing α} {read : β → γ}
    {held : β → List Slice} (h : ∀ x, Mirrors memory (f x) (g (read x)) (held x)) (xs : List β) :
    Mirrors memory (xs.mapM f) ((xs.map read).mapM g) (xs.flatMap held) := by
  induction xs with
  | nil => exact mirrors_pure memory []
  | cons x xs ih =>
      rw [List.mapM_cons, List.map_cons, List.mapM_cons, List.flatMap_cons]
      refine (h x).bind fun a => ?_
      have hrest := ih.bind fun as => mirrors_pure memory (a :: as)
      rwa [List.append_nil] at hrest

theorem mirrors_placeTxIn (ti : BufferedTxIn) :
    Mirrors memory (placeTxIn ti) (TransactionDecoding.placeTxIn (ti.contents memory))
      (ti.signatureScript :: ti.witness) := by
  have hwitness := Mirrors.mapM (mirrors_moveSlice memory) ti.witness
  rw [List.flatMap_singleton'] at hwitness
  refine (mirrors_moveSlice memory ti.signatureScript).bind fun script => ?_
  have hlast := hwitness.bind fun witness => mirrors_pure memory
    (PlacedTxIn.mk ti.previousOutPoint script witness ti.sequence)
  rwa [List.append_nil] at hlast

theorem mirrors_placeTxOut (out : BufferedTxOut) :
    Mirrors memory (placeTxOut out) (TransactionDecoding.placeTxOut (out.contents memory))
      [out.pkScript] :=
  (mirrors_moveSlice memory out.pkScript).bind fun script =>
    mirrors_pure memory (PlacedTxOut.mk out.value script)

end Moving

/-! ### The decoder -/

def Pools.WellFormed (p : Pools) : Prop :=
  Shared freeListMaxScriptSize freeListMaxItems 8 binaryFreeListMaxItems p.memory p.scriptPool
    p.binarySerializer []

section Decoder

variable {p : Pools}

theorem Valid.wellFormed {kept : Nat} {live : List Slice} (h : Valid kept live p) :
    p.WellFormed := by
  have hshared := h.shared
  generalize live.map Slice.buffer = used at hshared
  induction used with
  | nil => exact hshared
  | cons a used ih => exact ih hshared.drop

theorem Pools.WellFormed.valid (h : p.WellFormed) : Valid p.scriptPool.length [] p where
  shared := h
  sized := List.forall_mem_nil _
  kept_le := Nat.le_add_right _ _
  kept_le_max := h.first.length_le

theorem run_btcDecode (input : Bytes) :
    TransactionDecoding.deserialize.run input =
      match TransactionDecoding.readMessage.run input with
      | .error e => .error e
      | .ok ((msg, total), rest) =>
          (TransactionDecoding.placeScripts msg total).map fun placed => (placed, rest) := by
  have hbind : TransactionDecoding.deserialize.run input = _ := StateT.run_bind ..
  rw [hbind]
  cases TransactionDecoding.readMessage.run input with
  | error e => rfl
  | ok result =>
      obtain ⟨⟨msg, total⟩, rest⟩ := result
      change _ = (TransactionDecoding.placeScripts msg total).map fun placed => (placed, rest)
      change (liftM (TransactionDecoding.placeScripts msg total) : Reading PlacedTx).run rest = _
      cases TransactionDecoding.placeScripts msg total <;> rfl

/-- The scripts are moved as the plain decoder moves them, and all their buffers
are returned. -/
theorem placeScripts_eq (version : Int32) (lockTime : UInt32) (total : Nat) (msg : Message)
    {txIn : List TxIn} {txOut : List TxOut} (hmsg : msg.contents p.memory = (txIn, txOut)) :
    match TransactionDecoding.placeScripts ⟨version, txIn, txOut, lockTime⟩ total with
    | .ok placed => placeScripts version lockTime total msg p =
        .ok (placed, p.returnScripts msg.scripts)
    | .error e => placeScripts version lockTime total msg p = .error e ∧ isPanic e = true := by
  obtain ⟨rfl, rfl⟩ := Prod.mk.inj hmsg
  have hin := Mirrors.mapM mirrors_placeTxIn msg.txIn ⟨List.replicate total 0, 0⟩ p rfl
  unfold TransactionDecoding.placeScripts placeScripts
  dsimp only
  cases hrunIn : ((msg.txIn.map (BufferedTxIn.contents p.memory)).mapM
      TransactionDecoding.placeTxIn).run ⟨List.replicate total 0, 0⟩ with
  | error e =>
      rw [hrunIn] at hin
      rw [hin.1]
      exact ⟨rfl, hin.2⟩
  | ok result =>
      obtain ⟨placedIn, b⟩ := result
      rw [hrunIn] at hin
      dsimp only at hin
      rw [hin]
      have hout := Mirrors.mapM mirrors_placeTxOut msg.txOut b _
        (memory_returnScripts p (msg.txIn.flatMap fun ti => ti.signatureScript :: ti.witness))
      have hbind : ∀ {α β : Type} (a : α) (f : α → Except Failure β),
          (Except.ok a >>= f) = f a := fun _ _ => rfl
      simp only [hbind]
      cases hrunOut : ((msg.txOut.map (BufferedTxOut.contents p.memory)).mapM
          TransactionDecoding.placeTxOut).run b with
      | error e =>
          rw [hrunOut] at hout
          rw [hout.1]
          exact ⟨rfl, hout.2⟩
      | ok result =>
          obtain ⟨placedOut, b'⟩ := result
          rw [hrunOut] at hout
          dsimp only at hout
          rw [hout]
          have hall : (p.returnScripts (msg.txIn.flatMap fun ti =>
              ti.signatureScript :: ti.witness)).returnScripts
                (msg.txOut.flatMap fun out => [out.pkScript]) = p.returnScripts msg.scripts := by
            rw [Message.scripts, ← List.map_eq_flatMap]
            exact List.foldl_append.symm
          rw [hall]
          rfl

/-- No panic interrupts the decoding. -/
def Returns {α : Type} (result : Except Failure α) : Prop :=
  ∀ e, result = .error e → isPanic e = false

/-- Decoding with borrowed buffers gives what decoding without them gives. Where
it does not panic, the pool of scripts has not become smaller. -/
theorem btcDecode_spec (h : p.WellFormed) (input : Bytes) :
    (btcDecode input p).1 = TransactionDecoding.deserialize.run input ∧
      (btcDecode input p).2.WellFormed ∧
      (Returns (TransactionDecoding.deserialize.run input) →
        p.scriptPool.length ≤ (btcDecode input p).2.scriptPool.length) := by
  have hread := @refines_readMessage p.scriptPool.length
    { p with input := input, msg := ⟨[], []⟩ } h.valid rfl
  have hinput : (view p.scriptPool.length).input { p with input := input, msg := ⟨[], []⟩ } =
      input := rfl
  rw [hinput] at hread
  rw [run_btcDecode, btcDecode]
  have hkept : ∀ {q : Pools}, Valid p.scriptPool.length [] q →
      p.scriptPool.length ≤ q.scriptPool.length := fun hq => hq.kept_le
  cases hplain : TransactionDecoding.readMessage.run input with
  | error e =>
      rw [hplain] at hread
      obtain ⟨s, hrun, hvalid⟩ := hread
      have hs : Valid p.scriptPool.length s.msg.scripts s.toPools := hvalid
      rw [hrun]
      cases hpanic : isPanic e with
      | true =>
          dsimp only
          rw [hpanic, if_pos rfl]
          refine ⟨rfl, hs.wellFormed, fun hreturns => ?_⟩
          have hfalse := hreturns e rfl
          rw [hpanic] at hfalse
          cases hfalse
      | false =>
          dsimp only
          rw [hpanic, if_neg Bool.false_ne_true]
          exact ⟨rfl, hs.returnScripts.wellFormed, fun _ => hkept hs.returnScripts⟩
  | ok result =>
      obtain ⟨⟨msg, total⟩, rest⟩ := result
      rw [hplain] at hread
      obtain ⟨read, s, hrun, hrest, hvalid, rfl, hholds⟩ := hread
      have hs : Valid p.scriptPool.length s.msg.scripts s.toPools := hvalid
      have hplaced := placeScripts_eq (p := s.toPools) msg.version msg.lockTime total s.msg hholds
      rw [hrun]
      dsimp only
      cases hplace : TransactionDecoding.placeScripts msg total with
      | error e =>
          rw [hplace] at hplaced
          rw [hplaced.1]
          refine ⟨rfl, hs.wellFormed, fun hreturns => ?_⟩
          have hfalse := hreturns e rfl
          rw [hplaced.2] at hfalse
          cases hfalse
      | ok placed =>
          rw [hplace] at hplaced
          dsimp only at hplaced
          rw [hplaced]
          refine ⟨?_, hs.returnScripts.wellFormed, fun _ => hkept hs.returnScripts⟩
          rw [← hrest]
          rfl

/-- Transactions that are decoded one after the other do not see each other's
buffers. -/
theorem decodeAll_spec (h : p.WellFormed) (inputs : List Bytes) :
    (decodeAll inputs p).1 = inputs.map TransactionDecoding.deserialize.run ∧
      (decodeAll inputs p).2.WellFormed ∧
      ((∀ result ∈ (decodeAll inputs p).1, Returns result) →
        p.scriptPool.length ≤ (decodeAll inputs p).2.scriptPool.length) := by
  induction inputs generalizing p with
  | nil => exact ⟨rfl, h, fun _ => Nat.le_refl _⟩
  | cons input inputs ih =>
      obtain ⟨hresult, hwell, hlength⟩ := btcDecode_spec h input
      obtain ⟨hresults, hwell', hlength'⟩ := ih hwell
      refine ⟨?_, hwell', fun hreturns => ?_⟩
      · rw [List.map_cons, ← hresult, ← hresults]
        rfl
      · have hall := List.forall_mem_cons.mp hreturns
        have hfirst := hlength (hresult ▸ hall.1)
        exact hfirst.trans (hlength' hall.2)

end Decoder

/-- Pools with a used buffer each. -/
def usedPools : Pools where
  memory := [List.replicate 1000 0xff, List.replicate 8 0xee]
  binarySerializer := [1]
  scriptPool := [0]

theorem wellFormed_usedPools : usedPools.WellFormed := by
  refine ⟨⟨by decide, ?_, by decide, by decide⟩, ⟨by decide, ?_, by decide, by decide⟩⟩
  · intro a ha
    rw [List.mem_singleton.mp ha]
    exact ⟨_, rfl, List.length_replicate⟩
  · intro a ha
    rw [List.mem_singleton.mp ha]
    exact ⟨_, rfl, List.length_replicate⟩

theorem decodeAll_usedPools :
    (decodeAll [TransactionEncoding.encodeTx TransactionDecoding.twoInputs, [0x01]] usedPools).1 =
        [TransactionEncoding.encodeTx TransactionDecoding.twoInputs, [0x01]].map
          TransactionDecoding.deserialize.run ∧
      (decodeAll [TransactionEncoding.encodeTx TransactionDecoding.twoInputs, [0x01]]
        usedPools).2.WellFormed :=
  ⟨(decodeAll_spec wellFormed_usedPools _).1, (decodeAll_spec wellFormed_usedPools _).2.1⟩

end ElectrumLightning.ScriptBuffers
