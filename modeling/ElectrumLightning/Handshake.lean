import ElectrumLightning.DistinctPorts
import ElectrumLightning.SocksHandler

/-!
The beginning of a wallet connection. The word and the key are each read with
one call, which gives what has arrived and no more, so that it depends on the
arrival of the bytes which key the ports are allocated for.
-/

namespace ElectrumLightning.Handshake

open ElectrumLightning.ByteStrings
open ElectrumLightning.DistinctPorts
open ElectrumLightning.HexText
open ElectrumLightning.LabelledRuns
open ElectrumLightning.OneToOneMaps
open ElectrumLightning.PortAllocation (State)
open ElectrumLightning.SocksHandler

structure StreamReader where
  buffer : Bytes
  eof : Bool

/-- `reader.read(n)`; the result is `none` where it has to wait. -/
def StreamReader.read (r : StreamReader) (n : Nat) : Option (Bytes × StreamReader) :=
  if r.buffer = [] ∧ r.eof = false then none
  else some (r.buffer.take n, { r with buffer := r.buffer.drop n })

/-- A connection: what the wallet has still to send, the reader, the handler,
the keys it has called `get` with, and whether it has closed the writer. -/
structure Connection where
  pending : Bytes
  reader : StreamReader
  handler : HandlerState Bytes
  requested : List Bytes
  closed : Bool
  supplier : State

def Connection.start (supplier : State) (stream : Bytes) : Connection where
  pending := stream
  reader := ⟨[], false⟩
  handler := .readingMagic
  requested := []
  closed := false
  supplier := supplier

inductive Event where
  | arrives (length : Nat)
  | ends
  | resumes
deriving DecidableEq

namespace Connection

def applyEffect (c : Connection) : Effect Bytes → Option Connection
  | .closeWriter => some { c with closed := true }
  | .requestPort key =>
      (c.supplier.get key).map fun supplier =>
        { c with requested := c.requested ++ [key], supplier := supplier }
  | _ => some c

def readSize : HandlerState Bytes → Option Nat
  | .readingMagic => some 5
  | .readingKey => some 6
  | _ => none

/-- From one read to the next, or nothing where the read has to wait. -/
def readOnce (recursionLimit : Nat) (c : Connection) : Option Connection := do
  let n ← readSize c.handler
  let (chunk, reader) ← c.reader.read n
  let atEof := reader.eof && reader.buffer.isEmpty
  let (handler, effects) ← resume recursionLimit (hasId recursionLimit) c.handler
    (.bytes chunk atEof)
  effects.foldlM applyEffect { c with reader := reader, handler := handler }

/-- The second read does not wait when there is something left of the first. -/
def resumes (recursionLimit : Nat) (c : Connection) : Option Connection :=
  (c.readOnce recursionLimit).map fun d => (d.readOnce recursionLimit).getD d

end Connection

def step (recursionLimit : Nat) (c : Connection) : Event → Option Connection
  | .arrives length =>
      if 0 < length ∧ length ≤ c.pending.length then
        some { c with
          pending := c.pending.drop length
          reader := { c.reader with buffer := c.reader.buffer ++ c.pending.take length } }
      else none
  | .ends =>
      if c.pending = [] ∧ c.reader.eof = false then
        some { c with reader := { c.reader with eof := true } }
      else none
  | .resumes => c.resumes recursionLimit

/-- The key that the handler would go on with. -/
def Connection.nextKey (c : Connection) : Option Bytes :=
  match c.handler with
  | .readingMagic =>
      if c.reader.buffer.take 5 = magic then
        (StreamReader.read { c.reader with buffer := c.reader.buffer.drop 5 } 6).map Prod.fst
      else none
  | .readingKey => (c.reader.read 6).map Prod.fst
  | _ => none

/-- The word and the key have arrived as a whole when they are read. -/
def whole (c : Connection) : Event → Bool
  | .resumes => (c.handler != .readingMagic || decide (5 ≤ c.reader.buffer.length)) &&
      c.nextKey.all fun key => key.length == 6
  | _ => true

def Whole (c : Connection) (e : Event) : Prop := whole c e = true

instance : DecidableRel Whole := fun _ _ => inferInstanceAs (Decidable (_ = true))

/-- A call of `get` gives this key no new offset. -/
def settled (s : State) (key : Bytes) : Bool :=
  (s.keysToOffset.lookup key).isSome ||
    match s.keyToPort.lookup (hexlify key) with
    | none => false
    | some port => decide (8432 + 5 * port ∈ s.assoc) || decide (9 ≤ port)

/-- No key is read but those that get no new offset. -/
def onlySettled (c : Connection) : Event → Bool
  | .resumes => c.nextKey.all (settled c.supplier)
  | _ => true

def OnlySettled (c : Connection) (e : Event) : Prop := onlySettled c e = true

instance : DecidableRel OnlySettled := fun _ _ => inferInstanceAs (Decidable (_ = true))

structure OffsetsKept (s t : State) : Prop where
  keyToPort : ∀ hexKey, t.keyToPort.lookup hexKey = s.keyToPort.lookup hexKey
  keysToOffset : ∀ key, t.keysToOffset.lookup key = s.keysToOffset.lookup key

/-! ### A call of `get` -/

theorem OffsetsKept.refl (s : State) : OffsetsKept s s := ⟨fun _ => rfl, fun _ => rfl⟩

theorem exists_get (s : State) (key : Bytes) : ∃ t, s.get key = some t := by
  unfold State.get
  split
  · exact ⟨_, rfl⟩
  · obtain ⟨⟨current, port⟩, hchoose⟩ := exists_choosePort s (hexlify key)
    rw [hchoose]
    exact ⟨_, rfl⟩

/-- A key that is saved is set up again with its offset, unless an assertion
fails. -/
theorem offsetsKept_setUp_iff {s : State} {key : Bytes} {port : Int}
    (hnew : s.keysToOffset.lookup key = none)
    (hsaved : s.keyToPort.lookup (hexlify key) = some port) :
    OffsetsKept s (s.setUp key port) ↔ (8432 + 5 * port ∈ s.assoc ∨ 9 ≤ port) := by
  by_cases hmem : 8432 + 5 * port ∈ s.assoc
  · rw [setUp_of_mem hmem]
    exact iff_of_true ⟨lookup_insert_same hsaved, fun _ => rfl⟩ (.inl hmem)
  by_cases hlt : port < 9
  · rw [setUp_of_lt hmem hlt]
    apply iff_of_false
    · intro hkept
      have hlookup := (AList.lookup_insert s.keysToOffset).symm.trans (hkept.keysToOffset key)
      rw [hnew] at hlookup
      cases hlookup
    · rintro (hport | hge)
      · exact hmem hport
      · omega
  · rw [setUp_of_ge hmem hlt]
    exact iff_of_true ⟨lookup_insert_same hsaved, fun _ => rfl⟩ (.inr (by omega))

theorem not_offsetsKept_setUp {s : State} {key : Bytes} (port : Int)
    (hunsaved : s.keyToPort.lookup (hexlify key) = none) : ¬ OffsetsKept s (s.setUp key port) := by
  intro hkept
  have hlookup := hkept.keyToPort (hexlify key)
  rw [(setUp_cases s key port).1, AList.lookup_insert, hunsaved] at hlookup
  cases hlookup

theorem offsetsKept_get_iff {s t : State} {key : Bytes} (h : s.get key = some t) :
    OffsetsKept s t ↔ settled s key = true := by
  unfold State.get at h
  rcases hoffset : s.keysToOffset.lookup key with _ | offset
  · simp only [hoffset] at h
    obtain ⟨⟨current, port⟩, hchoose, hset⟩ := Option.bind_eq_some_iff.mp h
    cases Option.some.inj hset
    rcases hsaved : s.keyToPort.lookup (hexlify key) with _ | saved
    · have hchanged := not_offsetsKept_setUp (s := { s with currentOffset := current }) port hsaved
      apply iff_of_false
      · exact fun hkept => hchanged ⟨hkept.keyToPort, hkept.keysToOffset⟩
      · simp [settled, hoffset, hsaved]
    · have hport : (current, port) = (s.currentOffset, saved) := by
        simp only [State.choosePort, hsaved, Option.some_inj] at hchoose
        exact hchoose.symm
      cases hport
      rw [offsetsKept_setUp_iff hoffset hsaved]
      simp [settled, hoffset, hsaved]
  · simp only [hoffset, Option.some_inj] at h
    subst h
    obtain ⟨-, hport, hkeys, -⟩ := sameOffsets_returnPortPair s key
    apply iff_of_true
    · exact ⟨fun _ => by rw [hport], fun _ => by rw [hkeys]⟩
    · simp [settled, hoffset]

/-! ### What the handler does when it is resumed -/

/-- From one time that the handler has to wait to the next. -/
inductive Resumed (c : Connection) : Connection → Prop where
  | refused (hhandler : c.handler = .readingMagic) (hword : c.reader.buffer.take 5 ≠ magic) :
      Resumed c { c with
        reader := { c.reader with buffer := c.reader.buffer.drop 5 }
        handler := .returned
        closed := true }
  | greeted (hhandler : c.handler = .readingMagic) (hword : c.reader.buffer = magic)
      (hkey : c.nextKey = none) :
      Resumed c { c with
        reader := { c.reader with buffer := [] }
        handler := .readingKey }
  | identified (word key rest : Bytes) (supplier : State)
      (hhandler : (c.handler = .readingMagic ∧ word = magic) ∨
        (c.handler = .readingKey ∧ word = []))
      (hbuffer : c.reader.buffer = word ++ (key ++ rest)) (hlength : key.length ≤ 6)
      (hkey : c.nextKey = some key) (hget : c.supplier.get key = some supplier) :
      Resumed c { c with
        reader := { c.reader with buffer := rest }
        handler := .awaitingPort key
        requested := c.requested ++ [key]
        supplier := supplier }

theorem read_eq_some {r t : StreamReader} {n : Nat} {chunk : Bytes}
    (h : r.read n = some (chunk, t)) :
    (r.buffer ≠ [] ∨ r.eof = true) ∧ chunk = r.buffer.take n ∧
      t = { r with buffer := r.buffer.drop n } := by
  unfold StreamReader.read at h
  split at h
  · cases h
  · rename_i hready
    cases h
    refine ⟨?_, rfl, rfl⟩
    simpa [or_iff_not_imp_left] using hready

theorem readOnce_readingKey {recursionLimit : Nat} {c d : Connection}
    (hhandler : c.handler = .readingKey) (h : c.readOnce recursionLimit = some d) :
    ∃ key supplier, (c.reader.read 6).map Prod.fst = some key ∧
      c.supplier.get key = some supplier ∧ key = c.reader.buffer.take 6 ∧
        d = { c with
          reader := { c.reader with buffer := c.reader.buffer.drop 6 }
          handler := .awaitingPort key
          requested := c.requested ++ [key]
          supplier := supplier } := by
  unfold Connection.readOnce at h
  simp only [hhandler, Connection.readSize, Option.bind_eq_bind, Option.bind_some] at h
  obtain ⟨⟨chunk, reader⟩, hread, h⟩ := Option.bind_eq_some_iff.mp h
  obtain ⟨-, hchunk, hreader⟩ := read_eq_some hread
  simp only [resume, Option.bind_some, List.foldlM_cons, List.foldlM_nil, Connection.applyEffect,
    Option.pure_def, Option.bind_eq_bind, Option.bind_fun_some] at h
  obtain ⟨supplier, hget, rfl⟩ := Option.map_eq_some_iff.mp h
  refine ⟨chunk, supplier, ?_, hget, hchunk, ?_⟩
  · rw [hread]
    rfl
  · rw [hreader]

theorem readOnce_readingMagic {recursionLimit : Nat} {c d : Connection}
    (hhandler : c.handler = .readingMagic) (h : c.readOnce recursionLimit = some d) :
    (c.reader.buffer.take 5 ≠ magic ∧ d = { c with
      reader := { c.reader with buffer := c.reader.buffer.drop 5 }
      handler := .returned
      closed := true }) ∨
    (c.reader.buffer.take 5 = magic ∧ d = { c with
      reader := { c.reader with buffer := c.reader.buffer.drop 5 }
      handler := .readingKey }) := by
  unfold Connection.readOnce at h
  simp only [hhandler, Connection.readSize, Option.bind_eq_bind, Option.bind_some] at h
  obtain ⟨⟨chunk, reader⟩, hread, h⟩ := Option.bind_eq_some_iff.mp h
  obtain ⟨-, hchunk, hreader⟩ := read_eq_some hread
  subst hchunk hreader
  by_cases hword : c.reader.buffer.take 5 = magic
  · right
    simp only [resume, hword, if_true, Option.bind_some, List.foldlM_nil, Option.pure_def,
      Option.some_inj] at h
    exact ⟨hword, h.symm⟩
  · left
    simp only [resume, hword, if_false, Option.bind_eq_bind, Option.bind_some, List.foldlM_cons,
      List.foldlM_nil, Connection.applyEffect, Option.pure_def, Option.some_inj] at h
    exact ⟨hword, h.symm⟩

theorem exists_readOnce (recursionLimit : Nat) {c : Connection}
    (hready : c.reader.buffer ≠ [] ∨ c.reader.eof = true)
    (hhandler : c.handler = .readingMagic ∨ c.handler = .readingKey) :
    ∃ d, c.readOnce recursionLimit = some d := by
  have hread : ∀ n, c.reader.read n =
      some (c.reader.buffer.take n, { c.reader with buffer := c.reader.buffer.drop n }) := by
    intro n
    apply if_neg
    rintro ⟨hnil, heof⟩
    rcases hready with hne | htrue
    · exact hne hnil
    · rw [heof] at htrue
      cases htrue
  rcases hhandler with hhandler | hhandler
  · by_cases hword : c.reader.buffer.take 5 = magic <;>
      simp [Connection.readOnce, hhandler, Connection.readSize, hread, resume, hword,
        Connection.applyEffect]
  · obtain ⟨supplier, hget⟩ := exists_get c.supplier (c.reader.buffer.take 6)
    simp [Connection.readOnce, hhandler, Connection.readSize, hread, resume,
      Connection.applyEffect, hget]

theorem readOnce_eq_none {recursionLimit : Nat} {c : Connection}
    (h : Connection.readSize c.handler = none) : c.readOnce recursionLimit = none := by
  rw [Connection.readOnce, h]
  rfl

theorem resumed_of_resumes {recursionLimit : Nat} {c d : Connection}
    (h : c.resumes recursionLimit = some d)
    (hhandler : c.handler = .readingMagic ∨ c.handler = .readingKey) : Resumed c d := by
  obtain ⟨r, hfirst, rfl⟩ := Option.map_eq_some_iff.mp h
  rcases hhandler with hmagic | hkey
  · rcases readOnce_readingMagic hmagic hfirst with ⟨hword, rfl⟩ | ⟨hword, rfl⟩
    · rw [readOnce_eq_none rfl, Option.getD_none]
      exact .refused hmagic hword
    · rcases hsecond : Connection.readOnce recursionLimit { c with
          reader := { c.reader with buffer := c.reader.buffer.drop 5 }
          handler := .readingKey } with _ | d
      · have hwaits : ¬ (c.reader.buffer.drop 5 ≠ [] ∨ c.reader.eof = true) := by
          intro hready
          obtain ⟨d, hd⟩ := exists_readOnce recursionLimit (c := { c with
            reader := { c.reader with buffer := c.reader.buffer.drop 5 }
            handler := .readingKey }) hready (.inr rfl)
          rw [hd] at hsecond
          cases hsecond
        simp only [ne_eq, not_or, not_not, Bool.not_eq_true] at hwaits
        obtain ⟨hnil, heof⟩ := hwaits
        have hkey : c.nextKey = none := by
          simp [Connection.nextKey, hmagic, hword, StreamReader.read, hnil, heof]
        have hbuffer : c.reader.buffer = magic := by
          have hsplit := List.take_append_drop 5 c.reader.buffer
          rwa [hnil, List.append_nil, hword, eq_comm] at hsplit
        rw [hnil]
        exact .greeted hmagic hbuffer hkey
      · obtain ⟨key, supplier, hread, hget, htake, rfl⟩ := readOnce_readingKey rfl hsecond
        rw [Option.getD_some]
        refine .identified magic key _ supplier (.inl ⟨hmagic, rfl⟩) ?_ ?_ ?_ hget
        · rw [htake, List.take_append_drop, ← hword, List.take_append_drop]
        · rw [htake]
          exact List.length_take_le ..
        · simp only [Connection.nextKey, hmagic, hword, if_true]
          exact hread
  · obtain ⟨key, supplier, hread, hget, htake, rfl⟩ := readOnce_readingKey hkey hfirst
    rw [readOnce_eq_none rfl, Option.getD_none]
    refine .identified [] key _ supplier (.inr ⟨hkey, rfl⟩) ?_ ?_ ?_ hget
    · rw [htake, List.take_append_drop]
      rfl
    · rw [htake]
      exact List.length_take_le ..
    · simp only [Connection.nextKey, hkey]
      exact hread

/-! ### Every run -/

/-- How far a connection has come on its stream. -/
def Follows (stream : Bytes) (s : State) (c : Connection) : Prop :=
  match c.handler with
  | .readingMagic => stream = c.reader.buffer ++ c.pending ∧ c.requested = [] ∧
      c.closed = false ∧ c.supplier = s
  | .readingKey => stream = magic ++ (c.reader.buffer ++ c.pending) ∧ c.requested = [] ∧
      c.closed = false ∧ c.supplier = s
  | .awaitingPort key => (∃ rest, stream = magic ++ (key ++ rest)) ∧ c.requested = [key] ∧
      c.closed = false ∧ s.get key = some c.supplier
  | .returned => c.requested = [] ∧ c.closed = true ∧ c.supplier = s
  | _ => False

section Runs

variable {recursionLimit : Nat} {stream : Bytes} {s : State} {c d : Connection}

theorem follows_start : Follows stream s (.start s stream) := ⟨rfl, rfl, rfl, rfl⟩

/-- What arrives is appended to what is there. -/
theorem follows_arrives (h : Follows stream s c) (length : Nat) :
    Follows stream s { c with
      pending := c.pending.drop length
      reader := { c.reader with buffer := c.reader.buffer ++ c.pending.take length } } := by
  have hbytes : c.reader.buffer ++ c.pending.take length ++ c.pending.drop length =
      c.reader.buffer ++ c.pending := by
    rw [List.append_assoc, List.take_append_drop]
  unfold Follows at h ⊢
  dsimp only
  cases hhandler : c.handler <;> simp only [hhandler] at h
  case readingMagic => exact ⟨by rw [hbytes]; exact h.1, h.2⟩
  case readingKey => exact ⟨by rw [hbytes]; exact h.1, h.2⟩
  all_goals exact h

/-- Only a handler that reads is resumed. -/
theorem reading_of_resumes (h : Follows stream s c) (hstep : c.resumes recursionLimit = some d) :
    c.handler = .readingMagic ∨ c.handler = .readingKey := by
  obtain ⟨r, hfirst, -⟩ := Option.map_eq_some_iff.mp hstep
  have hnone : ∀ {st}, c.handler = st → Connection.readSize st = none → False := by
    rintro st rfl hsize
    rw [readOnce_eq_none hsize] at hfirst
    cases hfirst
  cases hhandler : c.handler <;> simp only [Follows, hhandler] at h
  case readingMagic => exact .inl rfl
  case readingKey => exact .inr rfl
  all_goals exact (hnone hhandler rfl).elim

theorem follows_resumes (h : Follows stream s c) (hresumed : Resumed c d) :
    Follows stream s d := by
  cases hresumed with
  | refused hhandler hword =>
      simp only [Follows, hhandler] at h
      exact ⟨h.2.1, rfl, h.2.2.2⟩
  | greeted hhandler hword hkey =>
      simp only [Follows, hhandler, hword] at h
      exact h
  | identified word key rest supplier hhandler hbuffer hlength hkey hget =>
      rcases hhandler with ⟨hhandler, rfl⟩ | ⟨hhandler, rfl⟩
      · simp only [Follows, hhandler, hbuffer] at h
        obtain ⟨hstream, hrequested, hclosed, rfl⟩ := h
        exact ⟨⟨rest ++ c.pending, by simp [hstream]⟩, by simp [hrequested], hclosed, hget⟩
      · simp only [Follows, hhandler, hbuffer] at h
        obtain ⟨hstream, hrequested, hclosed, rfl⟩ := h
        exact ⟨⟨rest ++ c.pending, by simp [hstream]⟩, by simp [hrequested], hclosed, hget⟩

theorem supplier_of_reading (h : Follows stream s c)
    (hreading : c.handler = .readingMagic ∨ c.handler = .readingKey) : c.supplier = s := by
  rcases hreading with hhandler | hhandler
  · simp only [Follows, hhandler] at h
    exact h.2.2.2
  · simp only [Follows, hhandler] at h
    exact h.2.2.2

theorem step_cases {e : Event} (hstep : step recursionLimit c e = some d) :
    (∃ length, e = .arrives length ∧ d = { c with
      pending := c.pending.drop length
      reader := { c.reader with buffer := c.reader.buffer ++ c.pending.take length } }) ∨
    (e = .ends ∧ d = { c with reader := { c.reader with eof := true } }) ∨
    (e = .resumes ∧ c.resumes recursionLimit = some d) := by
  cases e with
  | arrives length =>
      simp only [step] at hstep
      split at hstep
      · exact .inl ⟨length, rfl, (Option.some.inj hstep).symm⟩
      · cases hstep
  | ends =>
      simp only [step] at hstep
      split at hstep
      · exact .inr (.inl ⟨rfl, (Option.some.inj hstep).symm⟩)
      · cases hstep
  | resumes => exact .inr (.inr ⟨rfl, hstep⟩)

theorem follows_step {e : Event} (h : Follows stream s c)
    (hstep : step recursionLimit c e = some d) : Follows stream s d := by
  rcases step_cases hstep with ⟨length, -, rfl⟩ | ⟨-, rfl⟩ | ⟨-, hresumes⟩
  · exact follows_arrives h length
  · exact h
  · exact follows_resumes h (resumed_of_resumes hresumes (reading_of_resumes h hresumes))

/-- No connection is closed and no key is cut short. -/
structure Undisturbed (c : Connection) : Prop where
  opened : c.closed = false
  whole : ∀ key ∈ c.requested, key.length = 6

theorem undisturbed_of_step {e : Event} (h : Follows stream s c)
    (hstep : step recursionLimit c e = some d) (hd : Undisturbed d) : Undisturbed c := by
  rcases step_cases hstep with ⟨length, -, rfl⟩ | ⟨-, rfl⟩ | ⟨-, hresumes⟩
  · exact ⟨hd.opened, hd.whole⟩
  · exact ⟨hd.opened, hd.whole⟩
  · have hreading := reading_of_resumes h hresumes
    cases resumed_of_resumes hresumes hreading with
    | refused hhandler hword => cases hd.opened
    | greeted hhandler hword hkey => exact ⟨hd.opened, hd.whole⟩
    | identified word key rest supplier hhandler hbuffer hlength hkey hget =>
        exact ⟨hd.opened, fun k hk => hd.whole k (List.mem_append_left _ hk)⟩

theorem whole_iff_undisturbed {after : Bytes} {e : Event}
    (h : Follows (magic ++ after) s c) (hc : Undisturbed c)
    (hstep : step recursionLimit c e = some d) : Whole c e ↔ Undisturbed d := by
  rcases step_cases hstep with ⟨length, rfl, rfl⟩ | ⟨rfl, rfl⟩ | ⟨rfl, hresumes⟩
  · exact iff_of_true rfl ⟨hc.opened, hc.whole⟩
  · exact iff_of_true rfl ⟨hc.opened, hc.whole⟩
  · have hreading := reading_of_resumes h hresumes
    cases resumed_of_resumes hresumes hreading with
    | refused hhandler hword =>
        apply iff_of_false
        · intro hwhole
          simp only [Whole, whole, hhandler, bne_self_eq_false, Bool.false_or, Bool.and_eq_true,
            decide_eq_true_eq] at hwhole
          simp only [Follows, hhandler] at h
          apply hword
          have htake := congrArg (List.take 5) h.1
          rw [List.take_append_of_le_length hwhole.1] at htake
          exact htake.symm
        · intro hd
          cases hd.opened
    | greeted hhandler hword hkey =>
        apply iff_of_true
        · simp [Whole, whole, hkey, hword, magic]
        · exact ⟨hc.opened, hc.whole⟩
    | identified word key rest supplier hhandler hbuffer hlength hkey hget =>
        have hmagic : c.handler = .readingMagic → 5 ≤ c.reader.buffer.length := by
          intro hreadsMagic
          rcases hhandler with ⟨-, rfl⟩ | ⟨hreadsKey, -⟩
          · simp [hbuffer, magic]
          · rw [hreadsMagic] at hreadsKey
            cases hreadsKey
        have hguard : Whole c .resumes ↔ key.length = 6 := by
          simp only [Whole, whole, hkey, Option.all_some, Bool.and_eq_true, Bool.or_eq_true,
            bne_iff_ne, decide_eq_true_eq, beq_iff_eq, and_iff_right_iff_imp]
          intro _
          by_cases hreadsMagic : c.handler = .readingMagic
          · exact .inr (hmagic hreadsMagic)
          · exact .inl hreadsMagic
        rw [hguard]
        constructor
        · intro hkeyLength
          refine ⟨hc.opened, ?_⟩
          exact List.forall_mem_append.mpr ⟨hc.whole, List.forall_mem_singleton.mpr hkeyLength⟩
        · intro hd
          exact hd.whole key (List.mem_append_right _ (List.mem_singleton_self key))

theorem offsetsKept_of_step {e : Event} (h : Follows stream s c)
    (hstep : step recursionLimit c e = some d) (hd : OffsetsKept s d.supplier) :
    OffsetsKept s c.supplier := by
  rcases step_cases hstep with ⟨length, -, rfl⟩ | ⟨-, rfl⟩ | ⟨-, hresumes⟩
  · exact hd
  · exact hd
  · rw [supplier_of_reading h (reading_of_resumes h hresumes)]
    exact .refl s

theorem onlySettled_iff_offsetsKept {e : Event} (h : Follows stream s c)
    (hc : OffsetsKept s c.supplier) (hstep : step recursionLimit c e = some d) :
    OnlySettled c e ↔ OffsetsKept s d.supplier := by
  rcases step_cases hstep with ⟨length, rfl, rfl⟩ | ⟨rfl, rfl⟩ | ⟨rfl, hresumes⟩
  · exact iff_of_true rfl hc
  · exact iff_of_true rfl hc
  · have hreading := reading_of_resumes h hresumes
    have hsupplier := supplier_of_reading h hreading
    cases resumed_of_resumes hresumes hreading with
    | refused hhandler hword =>
        apply iff_of_true _ hc
        simp [OnlySettled, onlySettled, Connection.nextKey, hhandler, hword]
    | greeted hhandler hword hkey =>
        apply iff_of_true _ hc
        simp [OnlySettled, onlySettled, hkey]
    | identified word key rest supplier hhandler hbuffer hlength hkey hget =>
        rw [hsupplier] at hget
        simp only [OnlySettled, onlySettled, hkey, Option.all_some, hsupplier]
        exact (offsetsKept_get_iff hget).symm

/-- Once everything has arrived and the handler has nothing to go on with, an
undisturbed connection has asked for the services of its key. -/
theorem requested_iff_undisturbed {key : Bytes} (hlength : key.length = 6)
    (h : Follows (magic ++ key) s c) (hpending : c.pending = [])
    (hwaits : c.resumes recursionLimit = none) :
    (c.requested = [key] ∧ c.closed = false) ↔ Undisturbed c := by
  have hread : c.handler = .readingMagic ∨ c.handler = .readingKey → c.reader.buffer = [] := by
    intro hreading
    by_contra hne
    obtain ⟨d, hd⟩ := exists_readOnce recursionLimit (.inl hne) hreading
    simp [Connection.resumes, hd] at hwaits
  constructor
  · rintro ⟨hrequested, hclosed⟩
    refine ⟨hclosed, fun k hk => ?_⟩
    rw [hrequested] at hk
    rwa [List.mem_singleton.mp hk]
  · intro hc
    refine ⟨?_, hc.opened⟩
    cases hhandler : c.handler <;> simp only [Follows, hhandler] at h
    case readingMagic =>
      have hnil := h.1
      rw [hread (.inl hhandler), hpending] at hnil
      cases hnil
    case readingKey =>
      have hnil := List.append_cancel_left h.1
      rw [hread (.inr hhandler), hpending] at hnil
      rw [hnil] at hlength
      cases hlength
    case awaitingPort other =>
      obtain ⟨⟨rest, hstream⟩, hrequested, -⟩ := h
      have hother : other.length = 6 := by
        apply hc.whole
        rw [hrequested]
        exact List.mem_singleton_self other
      have hrest : key ++ [] = other ++ rest := by
        rw [List.append_nil]
        exact List.append_cancel_left hstream
      have hkey := (List.append_inj hrest (hlength.trans hother.symm)).1
      rw [hrequested, hkey]
    case returned =>
      rw [hc.opened] at h
      cases h.2.1

end Runs

/-- A stream of the word and a key gets the services of that key, however it is
cut, exactly when the word and the key are each there as a whole at the time
that they are read. For any other stream no offset is allocated exactly when
what is read as a key, if anything, has its offset already. -/
theorem handshake_iff (recursionLimit : Nat) (s : State) :
    (∀ key es c, key.length = 6 →
      run (step recursionLimit) (.start s (magic ++ key)) es = some c →
      c.pending = [] → step recursionLimit c .resumes = none →
        ((c.requested = [key] ∧ c.closed = false) ↔
          runWithin (step recursionLimit) Whole (.start s (magic ++ key)) es = some c)) ∧
    ∀ stream es c, (¬ ∃ key rest, key.length = 6 ∧ stream = magic ++ (key ++ rest)) →
      run (step recursionLimit) (.start s stream) es = some c →
        (OffsetsKept s c.supplier ↔
          runWithin (step recursionLimit) OnlySettled (.start s stream) es = some c) := by
  constructor
  · intro key es c hlength hrun hpending hwaits
    have hc : Follows (magic ++ key) s c := by
      apply (reachable_of_runWithin hrun).invariant follows_start
      intro r e t hr _ hstep
      exact follows_step hr hstep
    rw [requested_iff_undisturbed hlength hc hpending hwaits]
    symm
    apply runWithin_iff_last (J := Follows (magic ++ key) s)
    · intro r e t hr hstep
      exact follows_step hr hstep
    · intro r e t hr hstep ht
      exact undisturbed_of_step hr hstep ht
    · intro r e t hr hI hstep
      exact whole_iff_undisturbed hr hI hstep
    · exact follows_start
    · exact ⟨rfl, fun k hk => by cases hk⟩
    · exact hrun
  · intro stream es c _ hrun
    symm
    apply runWithin_iff_last (J := Follows stream s) (I := fun c => OffsetsKept s c.supplier)
    · intro r e t hr hstep
      exact follows_step hr hstep
    · intro r e t hr hstep ht
      exact offsetsKept_of_step hr hstep ht
    · intro r e t hr hI hstep
      exact onlySettled_iff_offsetsKept hr hI hstep
    · exact follows_start
    · exact .refl s
    · exact hrun

def walletKey : Bytes := [1, 2, 3, 4, 5, 6]

def inOneSegment : List Event := [.arrives 11, .resumes]

def cutInTheWord : List Event := [.arrives 3, .resumes, .arrives 8]

def cutInTheKey : List Event := [.arrives 7, .resumes, .arrives 4]

def endsAfterTheWord : List Event := [.arrives 5, .resumes, .ends, .resumes]

theorem handshake_inOneSegment :
    ∃ c, run (step 1000) (.start (.start ∅) (magic ++ walletKey)) inOneSegment = some c ∧
      c.requested = [walletKey] ∧ c.closed = false := by
  have hfacts : (runWithin (step 1000) Whole (.start (.start ∅) (magic ++ walletKey))
      inOneSegment).map (fun c => (c.pending, (step 1000 c .resumes).isNone)) =
        some ([], true) := by
    decide +kernel
  obtain ⟨c, hc, hlast⟩ := Option.map_eq_some_iff.mp hfacts
  obtain ⟨hpending, hwaits⟩ := Prod.mk.inj hlast
  have hrun := run_of_runWithin hc
  exact ⟨c, hrun, ((handshake_iff 1000 (.start ∅)).1 walletKey inOneSegment c rfl hrun hpending
    (Option.isNone_iff_eq_none.mp hwaits)).mpr hc⟩

/-- Cut within the word the connection is closed, and cut within the key another
key gets an offset. The end of the stream is a key as well. -/
theorem handshake_depends_on_segments :
    (∃ c, run (step 1000) (.start (.start ∅) (magic ++ walletKey)) cutInTheWord = some c ∧
      c.closed = true ∧ c.requested = []) ∧
    (∃ c, run (step 1000) (.start (.start ∅) (magic ++ walletKey)) cutInTheKey = some c ∧
      c.requested = [[1, 2]] ∧ c.supplier.keysToOffset.lookup [1, 2] = some 0) ∧
    ∃ c, run (step 1000) (.start (.start ∅) magic) endsAfterTheWord = some c ∧
      c.requested = [[]] ∧ c.supplier.keysToOffset.lookup [] = some 0 := by
  have hword : (run (step 1000) (.start (.start ∅) (magic ++ walletKey)) cutInTheWord).map
      (fun c => (c.closed, c.requested)) = some (true, []) := by
    decide +kernel
  have hkey : (run (step 1000) (.start (.start ∅) (magic ++ walletKey)) cutInTheKey).map
      (fun c => (c.requested, c.supplier.keysToOffset.lookup [1, 2])) =
        some ([[1, 2]], some 0) := by
    decide +kernel
  have hend : (run (step 1000) (.start (.start ∅) magic) endsAfterTheWord).map
      (fun c => (c.requested, c.supplier.keysToOffset.lookup [])) = some ([[]], some 0) := by
    decide +kernel
  refine ⟨?_, ?_, ?_⟩
  · obtain ⟨c, hc, hlast⟩ := Option.map_eq_some_iff.mp hword
    exact ⟨c, hc, Prod.mk.inj hlast⟩
  · obtain ⟨c, hc, hlast⟩ := Option.map_eq_some_iff.mp hkey
    exact ⟨c, hc, Prod.mk.inj hlast⟩
  · obtain ⟨c, hc, hlast⟩ := Option.map_eq_some_iff.mp hend
    exact ⟨c, hc, Prod.mk.inj hlast⟩

end ElectrumLightning.Handshake
