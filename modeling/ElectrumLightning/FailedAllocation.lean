import ElectrumLightning.DistinctPorts
import Mathlib.Data.List.InsertIdx

/-!
What a call of `get` leaves behind when it raises. The maps as they were before
each call are recorded next to the supplier and compared with those at the time
when the call raises.
-/

namespace ElectrumLightning.FailedAllocation

open ElectrumLightning.ByteStrings
open ElectrumLightning.DistinctPorts
open ElectrumLightning.HexText
open ElectrumLightning.LabelledRuns
open ElectrumLightning.OneToOneMaps
open ElectrumLightning.PortAllocation (Event Resumption State)

/-- `KEY_TO_PORT`, `keysToOffset` and the keys of `assoc`. -/
structure Maps where
  keyToPort : Map String Int
  keysToOffset : Map Bytes Int
  assoc : List Int

def maps (s : State) : Maps := ⟨s.keyToPort, s.keysToOffset, s.assoc⟩

structure Maps.Same (a b : Maps) : Prop where
  keyToPort : ∀ hexKey, a.keyToPort.lookup hexKey = b.keyToPort.lookup hexKey
  keysToOffset : ∀ socksKey, a.keysToOffset.lookup socksKey = b.keysToOffset.lookup socksKey
  assoc : ∀ port, port ∈ a.assoc ↔ port ∈ b.assoc

/-- A call that raised, with the maps before it and at its end. -/
structure Failure where
  socksKey : Bytes
  before : Maps
  after : Maps

/-- The supplier, with the maps before each of the waiting calls. -/
structure Watched where
  supplier : State
  before : List (Bytes × Maps)
  failures : List Failure

def Watched.start (keyToPort : Map String Int) : Watched := ⟨.start keyToPort, [], []⟩

def failure (s t : State) (call : Bytes × Maps) : List Failure :=
  if s.raised.length < t.raised.length then [⟨call.1, call.2, maps t⟩] else []

def Watched.observe (w : Watched) (s : State) : Event → Watched
  | .get socksKey =>
      { supplier := s
        before :=
          if w.supplier.waiting.length < s.waiting.length then
            w.before ++ [(socksKey, maps w.supplier)]
          else w.before
        failures := w.failures ++ failure w.supplier s (socksKey, maps w.supplier) }
  | .resume call _ =>
      { supplier := s
        before :=
          if s.waiting.length < w.supplier.waiting.length then w.before.eraseIdx call
          else w.before
        failures := w.failures ++ (w.before[call]?).toList.flatMap (failure w.supplier s) }

def step (w : Watched) (e : Event) : Option Watched :=
  (PortAllocation.step w.supplier e).map fun s => w.observe s e

/-- A call that raised has changed nothing, so that the next one for its key
tries again, and no port pair was returned without a subscription. -/
structure Traceless (w : Watched) : Prop where
  same : ∀ f ∈ w.failures, f.before.Same f.after
  again : ∀ f ∈ w.failures, f.after.keysToOffset.lookup f.socksKey = none
  subscribed : ∀ key pair, (key, pair) ∈ w.supplier.returned → key ∈ w.supplier.subscribed

/-- The saved offset of a key, or the first one from the cursor on that no key
has. -/
def OffsetFor (s : State) (hexKey : String) (offset : Int) : Prop :=
  match s.keyToPort.lookup hexKey with
  | some saved => offset = saved
  | none =>
      s.currentOffset ≤ offset ∧ offset ∉ values s.keyToPort ∧
        ∀ lower, s.currentOffset ≤ lower → lower < offset → lower ∈ values s.keyToPort

/-- A key without services has an offset below 9 with a free port, or a saved
one whose port is in use; a key with services is not waiting for them. -/
def Requestable (s : State) (socksKey : Bytes) : Prop :=
  if (s.keysToOffset.lookup socksKey).isSome = true then socksKey ∉ s.waiting.map Prod.fst
  else
    ∀ offset, OffsetFor s (hexlify socksKey) offset →
      if 8432 + 5 * offset ∈ s.assoc then
        (s.keyToPort.lookup (hexlify socksKey)).isSome = true
      else offset < 9

/-- Only such keys are requested, and no macaroon is missing. -/
def Prepared (w : Watched) : Event → Prop
  | .get socksKey => Requestable w.supplier socksKey
  | .resume _ resumption => resumption ≠ .fails

/-! ### The chosen offset -/

theorem offsetFor_iff {s : State} {hexKey : String} {current port offset : Int}
    (h : s.choosePort hexKey = some (current, port)) :
    OffsetFor s hexKey offset ↔ offset = port := by
  rcases hlookup : s.keyToPort.lookup hexKey with _ | saved
  · simp only [State.choosePort, hlookup] at h
    obtain ⟨chosen, hchosen, hpair⟩ := Option.map_eq_some_iff.mp h
    cases hpair
    obtain ⟨hle, hfree, hbetween⟩ := skipTaken_spec hchosen
    simp only [OffsetFor, hlookup]
    constructor
    · rintro ⟨hle', hfree', hbetween'⟩
      apply le_antisymm
      · exact not_lt.mp fun hlt => hfree (hbetween' current hle hlt)
      · exact not_lt.mp fun hlt => hfree' (hbetween offset hle' hlt)
    · rintro rfl
      exact ⟨hle, hfree, hbetween⟩
  · simp only [State.choosePort, hlookup, Option.some.injEq, Prod.mk.injEq] at h
    obtain ⟨-, rfl⟩ := h
    simp only [OffsetFor, hlookup]

instance (s : State) (hexKey : String) (P : Int → Prop) [DecidablePred P] :
    Decidable (∀ offset, OffsetFor s hexKey offset → P offset) :=
  match h : s.choosePort hexKey with
  | some (_, port) => decidable_of_iff (P port) (by simp only [offsetFor_iff h, forall_eq])
  | none => .isTrue (by
      obtain ⟨p, hp⟩ := exists_choosePort s hexKey
      cases h.symm.trans hp)

instance (s : State) (socksKey : Bytes) : Decidable (Requestable s socksKey) := by
  unfold Requestable
  infer_instance

instance : DecidableRel Prepared := fun w e =>
  match e with
  | .get socksKey => inferInstanceAs (Decidable (Requestable w.supplier socksKey))
  | .resume _ resumption => inferInstanceAs (Decidable (resumption ≠ .fails))

/-! ### What the record says of the calls in progress -/

/-- A key has services from the set-up on. Its only call waits, has
subscribed, or has failed and left the offset behind. -/
structure Tracked (w : Watched) : Prop where
  calls : w.before.map Prod.fst = w.supplier.waiting.map Prod.fst
  fresh : ∀ key before, (key, before) ∈ w.before → before.keysToOffset.lookup key = none
  nodup : (w.supplier.waiting.map Prod.fst).Nodup
  waiting : ∀ key ∈ w.supplier.waiting.map Prod.fst,
    (w.supplier.keysToOffset.lookup key).isSome = true ∧ key ∉ w.supplier.subscribed
  subscribed : ∀ key ∈ w.supplier.subscribed, (w.supplier.keysToOffset.lookup key).isSome = true
  known : ∀ key, (w.supplier.keysToOffset.lookup key).isSome = true →
    key ∈ w.supplier.waiting.map Prod.fst ∨ key ∈ w.supplier.subscribed ∨
      ∃ f ∈ w.failures, ¬ f.before.Same f.after

theorem tracked_start (keyToPort : Map String Int) : Tracked (.start keyToPort) where
  calls := rfl
  fresh := by simp [Watched.start]
  nodup := .nil
  waiting := by simp [Watched.start, State.start]
  subscribed := by simp [Watched.start, State.start]
  known := by simp [Watched.start, State.start]

theorem traceless_start (keyToPort : Map String Int) : Traceless (.start keyToPort) where
  same := by simp [Watched.start]
  again := by simp [Watched.start]
  subscribed := by simp [Watched.start, State.start]

section Steps

variable {w v : Watched}

/-- While no call has left a trace, the keys with services are those that wait
and those that have subscribed. -/
theorem subscribed_iff (hw : Tracked w) (htraceless : Traceless w) {key : Bytes}
    (hkey : (w.supplier.keysToOffset.lookup key).isSome = true) :
    key ∉ w.supplier.waiting.map Prod.fst ↔ key ∈ w.supplier.subscribed := by
  constructor
  · intro hwaiting
    rcases hw.known key hkey with hmem | hsubscribed | ⟨f, hf, htrace⟩
    · exact absurd hmem hwaiting
    · exact hsubscribed
    · exact absurd (htraceless.same f hf) htrace
  · exact fun hsubscribed hwaiting => (hw.waiting key hwaiting).2 hsubscribed

/-- The ways in which a request goes. -/
theorem get_cases {socksKey : Bytes} (h : step w (.get socksKey) = some v) :
    (∃ offset pair, w.supplier.keysToOffset.lookup socksKey = some offset ∧
      v = { w with supplier :=
        { w.supplier with returned := w.supplier.returned ++ [(socksKey, pair)] } }) ∨
    ∃ current port, w.supplier.keysToOffset.lookup socksKey = none ∧
      w.supplier.choosePort (hexlify socksKey) = some (current, port) ∧
        v = w.observe ({ w.supplier with currentOffset := current }.setUp socksKey port)
          (.get socksKey) := by
  obtain ⟨s, hs, rfl⟩ := Option.map_eq_some_iff.mp h
  change w.supplier.get socksKey = some s at hs
  unfold State.get at hs
  split at hs
  · rename_i offset hlookup
    obtain rfl := Option.some_inj.mp hs
    refine .inl ⟨offset, ⟨8432 + offset * 5, 10009 + offset, PortAllocation.lnddir socksKey⟩,
      hlookup, ?_⟩
    simp [State.returnPortPair, hlookup, Watched.observe, failure]
  · rename_i hnew
    obtain ⟨⟨current, port⟩, hchoose, hrest⟩ := Option.bind_eq_some_iff.mp hs
    obtain rfl := Option.some_inj.mp hrest
    exact .inr ⟨current, port, hnew, hchoose, rfl⟩

section SetUp

variable {socksKey : Bytes} {current port : Int}

theorem observe_setUp_of_mem (h : 8432 + 5 * port ∈ w.supplier.assoc) :
    w.observe ({ w.supplier with currentOffset := current }.setUp socksKey port) (.get socksKey) =
      { supplier :=
          { w.supplier with
            currentOffset := current
            keyToPort := w.supplier.keyToPort.insert (hexlify socksKey) port
            raised := w.supplier.raised ++ [socksKey] }
        before := w.before
        failures := w.failures ++ [⟨socksKey, maps w.supplier,
          { maps w.supplier with
            keyToPort := w.supplier.keyToPort.insert (hexlify socksKey) port }⟩] } := by
  have hmem : 8432 + 5 * port ∈ { w.supplier with currentOffset := current }.assoc := h
  rw [setUp_of_mem hmem]
  simp [Watched.observe, failure, maps]

theorem observe_setUp_of_ge (h : 8432 + 5 * port ∉ w.supplier.assoc) (hge : ¬ port < 9) :
    w.observe ({ w.supplier with currentOffset := current }.setUp socksKey port) (.get socksKey) =
      { supplier :=
          { w.supplier with
            currentOffset := current
            keyToPort := w.supplier.keyToPort.insert (hexlify socksKey) port
            assoc := w.supplier.assoc ++ [8432 + 5 * port]
            raised := w.supplier.raised ++ [socksKey] }
        before := w.before
        failures := w.failures ++ [⟨socksKey, maps w.supplier,
          { maps w.supplier with
            keyToPort := w.supplier.keyToPort.insert (hexlify socksKey) port
            assoc := w.supplier.assoc ++ [8432 + 5 * port] }⟩] } := by
  have hmem : 8432 + 5 * port ∉ { w.supplier with currentOffset := current }.assoc := h
  rw [setUp_of_ge hmem hge]
  simp [Watched.observe, failure, maps]

theorem observe_setUp_of_lt (h : 8432 + 5 * port ∉ w.supplier.assoc) (hlt : port < 9) :
    w.observe ({ w.supplier with currentOffset := current }.setUp socksKey port) (.get socksKey) =
      { supplier :=
          { w.supplier with
            currentOffset := current
            keyToPort := w.supplier.keyToPort.insert (hexlify socksKey) port
            assoc := w.supplier.assoc ++ [8432 + 5 * port]
            keysToOffset := w.supplier.keysToOffset.insert socksKey port
            chains := w.supplier.chains ++ [(socksKey, services socksKey port)]
            waiting := w.supplier.waiting ++ [(socksKey, port)] }
        before := w.before ++ [(socksKey, maps w.supplier)]
        failures := w.failures } := by
  have hmem : 8432 + 5 * port ∉ { w.supplier with currentOffset := current }.assoc := h
  rw [setUp_of_lt hmem hlt]
  simp [Watched.observe, failure, maps]

end SetUp

/-- Other calls keep what they have. -/
theorem Tracked.congr (hw : Tracked w) (hbefore : v.before = w.before)
    (hwaiting : v.supplier.waiting = w.supplier.waiting)
    (hoffsets : v.supplier.keysToOffset = w.supplier.keysToOffset)
    (hsubscribed : v.supplier.subscribed = w.supplier.subscribed)
    (hfailures : ∀ f ∈ w.failures, f ∈ v.failures) : Tracked v := by
  refine ⟨?_, ?_, ?_, ?_, ?_, ?_⟩
  · rw [hbefore, hwaiting]
    exact hw.calls
  · rw [hbefore]
    exact hw.fresh
  · rw [hwaiting]
    exact hw.nodup
  · rw [hwaiting, hoffsets, hsubscribed]
    exact hw.waiting
  · rw [hoffsets, hsubscribed]
    exact hw.subscribed
  · rw [hwaiting, hoffsets, hsubscribed]
    intro key hkey
    rcases hw.known key hkey with hmem | hmem | ⟨f, hf, htrace⟩
    · exact .inl hmem
    · exact .inr (.inl hmem)
    · exact .inr (.inr ⟨f, hfailures f hf, htrace⟩)

theorem isSome_lookup_insert {m : Map Bytes Int} {key key' : Bytes} {offset : Int} :
    ((m.insert key offset).lookup key').isSome = true ↔
      key' = key ∨ (m.lookup key').isSome = true := by
  by_cases hkey : key' = key
  · subst hkey
    simp
  · simp [AList.lookup_insert_ne hkey, hkey]

theorem tracked_get (hw : Tracked w) {socksKey : Bytes} (h : step w (.get socksKey) = some v) :
    Tracked v := by
  rcases get_cases h with ⟨offset, pair, hlookup, rfl⟩ | ⟨current, port, hnew, hchoose, rfl⟩
  · exact hw.congr rfl rfl rfl rfl fun _ hf => hf
  · by_cases hport : 8432 + 5 * port ∈ w.supplier.assoc
    · rw [observe_setUp_of_mem hport]
      exact hw.congr rfl rfl rfl rfl fun _ hf => List.mem_append_left _ hf
    by_cases hlt : port < 9
    · have hkey : (w.supplier.keysToOffset.lookup socksKey).isSome ≠ true := by simp [hnew]
      have hwaiting : socksKey ∉ w.supplier.waiting.map Prod.fst :=
        fun hmem => hkey (hw.waiting socksKey hmem).1
      rw [observe_setUp_of_lt hport hlt]
      refine ⟨?_, ?_, ?_, ?_, ?_, ?_⟩
      · simp [hw.calls]
      · intro key before hmem
        rcases List.mem_append.mp hmem with hold | hlast
        · exact hw.fresh key before hold
        · cases List.mem_singleton.mp hlast
          exact hnew
      · rw [List.map_append]
        exact hw.nodup.append (List.nodup_singleton _) (by simpa using hwaiting)
      · intro key hmem
        rw [List.map_append] at hmem
        rcases List.mem_append.mp hmem with hold | hlast
        · exact ⟨isSome_lookup_insert.mpr (.inr (hw.waiting key hold).1), (hw.waiting key hold).2⟩
        · obtain rfl : key = socksKey := List.mem_singleton.mp hlast
          exact ⟨isSome_lookup_insert.mpr (.inl rfl), fun hmem => hkey (hw.subscribed key hmem)⟩
      · intro key hmem
        exact isSome_lookup_insert.mpr (.inr (hw.subscribed key hmem))
      · intro key hsome
        rw [List.map_append]
        rcases isSome_lookup_insert.mp hsome with rfl | hold
        · exact .inl (List.mem_append_right _ (List.mem_singleton_self _))
        · rcases hw.known key hold with hmem | hmem | hfailure
          · exact .inl (List.mem_append_left _ hmem)
          · exact .inr (.inl hmem)
          · exact .inr (.inr hfailure)
    · rw [observe_setUp_of_ge hport hlt]
      exact hw.congr rfl rfl rfl rfl fun _ hf => List.mem_append_left _ hf

section Resume

variable {call : Nat} {socksKey : Bytes} {port : Int}

theorem before_of_waiting (hw : Tracked w) (h : w.supplier.waiting[call]? = some (socksKey, port)) :
    ∃ before, w.before[call]? = some (socksKey, before) := by
  have hkey : (w.before.map Prod.fst)[call]? = some socksKey := by
    rw [hw.calls, List.getElem?_map, h]
    rfl
  rw [List.getElem?_map] at hkey
  obtain ⟨⟨key, before⟩, hget, rfl⟩ := Option.map_eq_some_iff.mp hkey
  exact ⟨before, hget⟩

theorem key_mem_waiting (h : w.supplier.waiting[call]? = some (socksKey, port)) :
    socksKey ∈ w.supplier.waiting.map Prod.fst :=
  List.mem_map.mpr ⟨_, List.mem_of_getElem? h, rfl⟩

theorem keys_eraseIdx (hw : Tracked w) (h : w.supplier.waiting[call]? = some (socksKey, port)) :
    (w.supplier.waiting.eraseIdx call).map Prod.fst =
      (w.supplier.waiting.map Prod.fst).erase socksKey := by
  have hkey : (w.supplier.waiting.map Prod.fst)[call]? = some socksKey := by
    rw [List.getElem?_map, h]
    rfl
  obtain ⟨hlt, rfl⟩ := List.getElem?_eq_some_iff.mp hkey
  rw [hw.nodup.erase_getElem call hlt, List.eraseIdx_map]

theorem length_eraseIdx_lt (h : w.supplier.waiting[call]? = some (socksKey, port)) :
    (w.supplier.waiting.eraseIdx call).length < w.supplier.waiting.length := by
  obtain ⟨hlt, -⟩ := List.getElem?_eq_some_iff.mp h
  rw [List.length_eraseIdx_of_lt hlt]
  omega

end Resume

/-- The ways in which a call goes on. -/
theorem resume_cases (hw : Tracked w) {call : Nat} {resumption : Resumption}
    (h : step w (.resume call resumption) = some v) :
    ∃ socksKey port before, w.supplier.waiting[call]? = some (socksKey, port) ∧
      w.before[call]? = some (socksKey, before) ∧
        (resumption = .notReady ∧ v = w ∨
          resumption = .fails ∧ v =
            { supplier :=
                { w.supplier with
                  waiting := w.supplier.waiting.eraseIdx call
                  raised := w.supplier.raised ++ [socksKey] }
              before := w.before.eraseIdx call
              failures := w.failures ++ [⟨socksKey, before, maps w.supplier⟩] } ∨
          resumption = .ready ∧ ∃ pair, v =
            { supplier :=
                { w.supplier with
                  waiting := w.supplier.waiting.eraseIdx call
                  subscribed := w.supplier.subscribed ++ [socksKey]
                  returned := w.supplier.returned ++ [(socksKey, pair)] }
              before := w.before.eraseIdx call
              failures := w.failures }) := by
  obtain ⟨s, hs, rfl⟩ := Option.map_eq_some_iff.mp h
  obtain ⟨⟨socksKey, port⟩, hcall, rfl⟩ := Option.map_eq_some_iff.mp hs
  obtain ⟨before, hbefore⟩ := before_of_waiting hw hcall
  have hlt := length_eraseIdx_lt hcall
  refine ⟨socksKey, port, before, hcall, hbefore, ?_⟩
  cases resumption with
  | notReady =>
      refine .inl ⟨rfl, ?_⟩
      simp [State.resume, Watched.observe, hbefore, failure]
  | fails =>
      refine .inr (.inl ⟨rfl, ?_⟩)
      simp [State.resume, Watched.observe, hbefore, failure, hlt, maps]
  | ready =>
      obtain ⟨offset, hlookup⟩ :=
        Option.isSome_iff_exists.mp (hw.waiting _ (key_mem_waiting hcall)).1
      refine .inr (.inr
        ⟨rfl, ⟨8432 + offset * 5, 10009 + offset, PortAllocation.lnddir socksKey⟩, ?_⟩)
      simp [State.resume, State.returnPortPair, Watched.observe, hbefore, failure, hlt, hlookup]

/-- A call that has set up its daemon leaves a trace of it. -/
theorem not_same_of_waiting (hw : Tracked w) {call : Nat} {socksKey : Bytes} {port : Int}
    {before : Maps} (hcall : w.supplier.waiting[call]? = some (socksKey, port))
    (hbefore : w.before[call]? = some (socksKey, before)) :
    ¬ before.Same (maps w.supplier) := by
  intro hsame
  have hnone := hw.fresh socksKey before (List.mem_of_getElem? hbefore)
  have hsome := (hw.waiting _ (key_mem_waiting hcall)).1
  rw [hsame.keysToOffset] at hnone
  exact absurd hsome (by simp [show w.supplier.keysToOffset.lookup socksKey = none from hnone])

theorem tracked_resume (hw : Tracked w) {call : Nat} {resumption : Resumption}
    (h : step w (.resume call resumption) = some v) : Tracked v := by
  obtain ⟨socksKey, port, before, hcall, hbefore, hcases⟩ := resume_cases hw h
  have hkeys := keys_eraseIdx hw hcall
  have hcalls : (w.before.eraseIdx call).map Prod.fst =
      (w.supplier.waiting.eraseIdx call).map Prod.fst := by
    rw [← List.eraseIdx_map, hw.calls, List.eraseIdx_map]
  have hfresh : ∀ key m, (key, m) ∈ w.before.eraseIdx call → m.keysToOffset.lookup key = none :=
    fun key m hmem => hw.fresh key m (List.mem_of_mem_eraseIdx hmem)
  rcases hcases with ⟨-, rfl⟩ | ⟨-, rfl⟩ | ⟨-, pair, rfl⟩
  · exact hw
  · have htrace := not_same_of_waiting hw hcall hbefore
    refine ⟨hcalls, hfresh, ?_, ?_, hw.subscribed, ?_⟩
    · rw [hkeys]
      exact hw.nodup.erase _
    · intro key hkey
      rw [hkeys] at hkey
      exact hw.waiting key (List.mem_of_mem_erase hkey)
    · intro key hkey
      rw [hkeys, hw.nodup.mem_erase_iff]
      by_cases hsame : key = socksKey
      · exact .inr (.inr ⟨_, List.mem_append_right _ (List.mem_singleton_self _), htrace⟩)
      · rcases hw.known key hkey with hwaiting | hsubscribed | ⟨f, hf, hdiffers⟩
        · exact .inl ⟨hsame, hwaiting⟩
        · exact .inr (.inl hsubscribed)
        · exact .inr (.inr ⟨f, List.mem_append_left _ hf, hdiffers⟩)
  · refine ⟨hcalls, hfresh, ?_, ?_, ?_, ?_⟩
    · rw [hkeys]
      exact hw.nodup.erase _
    · intro key hkey
      rw [hkeys, hw.nodup.mem_erase_iff] at hkey
      obtain ⟨hoffset, hnew⟩ := hw.waiting key hkey.2
      refine ⟨hoffset, fun hmem => ?_⟩
      rcases List.mem_append.mp hmem with hold | hlast
      · exact hnew hold
      · exact hkey.1 (List.mem_singleton.mp hlast)
    · exact List.forall_mem_append.mpr ⟨hw.subscribed,
        List.forall_mem_singleton.mpr (hw.waiting _ (key_mem_waiting hcall)).1⟩
    · intro key hkey
      rw [hkeys, hw.nodup.mem_erase_iff]
      by_cases hsame : key = socksKey
      · exact .inr (.inl (List.mem_append_right _ (List.mem_singleton.mpr hsame)))
      · rcases hw.known key hkey with hwaiting | hsubscribed | hfailure
        · exact .inl ⟨hsame, hwaiting⟩
        · exact .inr (.inl (List.mem_append_left _ hsubscribed))
        · exact .inr (.inr hfailure)

theorem step_tracked (hw : Tracked w) {e : Event} (h : step w e = some v) : Tracked v := by
  cases e with
  | get socksKey => exact tracked_get hw h
  | resume call resumption => exact tracked_resume hw h

/-! ### Which steps leave a trace -/

theorem traceless_failed (hw : Traceless w) {f : Failure}
    (hfailures : v.failures = w.failures ++ [f])
    (hreturned : v.supplier.returned = w.supplier.returned)
    (hsubscribed : v.supplier.subscribed = w.supplier.subscribed) :
    Traceless v ↔ f.before.Same f.after ∧ f.after.keysToOffset.lookup f.socksKey = none := by
  have hmem : f ∈ v.failures := by
    rw [hfailures]
    exact List.mem_append_right _ (List.mem_singleton_self _)
  constructor
  · exact fun hv => ⟨hv.same f hmem, hv.again f hmem⟩
  · rintro ⟨hsame, hagain⟩
    refine ⟨?_, ?_, ?_⟩
    · rw [hfailures]
      exact List.forall_mem_append.mpr ⟨hw.same, List.forall_mem_singleton.mpr hsame⟩
    · rw [hfailures]
      exact List.forall_mem_append.mpr ⟨hw.again, List.forall_mem_singleton.mpr hagain⟩
    · rw [hreturned, hsubscribed]
      exact hw.subscribed

theorem traceless_returned (hw : Traceless w) {key : Bytes} {pair : PortAllocation.PortPair}
    (hfailures : v.failures = w.failures)
    (hreturned : v.supplier.returned = w.supplier.returned ++ [(key, pair)])
    (hsubscribed : ∀ key ∈ w.supplier.subscribed, key ∈ v.supplier.subscribed) :
    Traceless v ↔ key ∈ v.supplier.subscribed := by
  constructor
  · intro hv
    apply hv.subscribed key pair
    rw [hreturned]
    exact List.mem_append_right _ (List.mem_singleton_self _)
  · intro hmem
    refine ⟨?_, ?_, fun key' pair' hmem' => ?_⟩
    · rw [hfailures]
      exact hw.same
    · rw [hfailures]
      exact hw.again
    · rw [hreturned] at hmem'
      rcases List.mem_append.mp hmem' with hold | hlast
      · exact hsubscribed key' (hw.subscribed key' pair' hold)
      · cases List.mem_singleton.mp hlast
        exact hmem

theorem requestable_iff_of_new {socksKey : Bytes} {current port : Int}
    (hnew : w.supplier.keysToOffset.lookup socksKey = none)
    (hchoose : w.supplier.choosePort (hexlify socksKey) = some (current, port)) :
    Requestable w.supplier socksKey ↔
      if 8432 + 5 * port ∈ w.supplier.assoc then
        (w.supplier.keyToPort.lookup (hexlify socksKey)).isSome = true
      else port < 9 := by
  simp only [Requestable, hnew, Option.isSome_none, Bool.false_eq_true, if_false,
    offsetFor_iff hchoose, forall_eq]

/-- Recording the chosen offset changes nothing where the key was saved. -/
theorem same_insert_iff {s : State} {hexKey : String} {current port : Int}
    (hchoose : s.choosePort hexKey = some (current, port)) :
    (maps s).Same { maps s with keyToPort := s.keyToPort.insert hexKey port } ↔
      (s.keyToPort.lookup hexKey).isSome = true := by
  constructor
  · intro hsame
    have hlookup := hsame.keyToPort hexKey
    rw [AList.lookup_insert] at hlookup
    exact Option.isSome_iff_exists.mpr ⟨port, hlookup⟩
  · intro hsaved
    obtain ⟨saved, hlookup⟩ := Option.isSome_iff_exists.mp hsaved
    have hport : saved = port := by
      simp only [State.choosePort, hlookup, Option.some.injEq, Prod.mk.injEq] at hchoose
      exact hchoose.2
    refine ⟨fun other => ?_, fun _ => rfl, fun _ => .rfl⟩
    by_cases hother : other = hexKey
    · subst hother
      simp [maps, hlookup, hport]
    · simp [maps, AList.lookup_insert_ne hother]

theorem requestable_iff_traceless (hw : Tracked w) (htraceless : Traceless w) {socksKey : Bytes}
    (h : step w (.get socksKey) = some v) : Requestable w.supplier socksKey ↔ Traceless v := by
  rcases get_cases h with ⟨offset, pair, hlookup, rfl⟩ | ⟨current, port, hnew, hchoose, rfl⟩
  · have hkey : (w.supplier.keysToOffset.lookup socksKey).isSome = true := by simp [hlookup]
    rw [Requestable, if_pos hkey, subscribed_iff hw htraceless hkey]
    refine Iff.trans ?_ (traceless_returned htraceless (by rfl) (by rfl) ?_).symm
    · exact .rfl
    · exact fun _ hmem => hmem
  · rw [requestable_iff_of_new hnew hchoose]
    by_cases hport : 8432 + 5 * port ∈ w.supplier.assoc
    · rw [observe_setUp_of_mem hport, if_pos hport, ← same_insert_iff hchoose]
      refine Iff.trans ?_ (traceless_failed htraceless (by rfl) (by rfl) (by rfl)).symm
      exact (and_iff_left hnew).symm
    by_cases hlt : port < 9
    · rw [observe_setUp_of_lt hport hlt, if_neg hport]
      exact iff_of_true hlt ⟨htraceless.same, htraceless.again, htraceless.subscribed⟩
    · rw [observe_setUp_of_ge hport hlt, if_neg hport]
      refine Iff.trans ?_ (traceless_failed htraceless (by rfl) (by rfl) (by rfl)).symm
      refine iff_of_false hlt fun ⟨hsame, _⟩ => hport ?_
      exact (hsame.assoc _).mpr (List.mem_append_right _ (List.mem_singleton_self _))

theorem prepared_iff_traceless (hw : Tracked w) (htraceless : Traceless w) {e : Event}
    (h : step w e = some v) : Prepared w e ↔ Traceless v := by
  cases e with
  | get socksKey => exact requestable_iff_traceless hw htraceless h
  | resume call resumption =>
      obtain ⟨socksKey, port, before, hcall, hbefore, hcases⟩ := resume_cases hw h
      rcases hcases with ⟨rfl, rfl⟩ | ⟨rfl, rfl⟩ | ⟨rfl, pair, rfl⟩
      · exact iff_of_true nofun htraceless
      · refine Iff.trans ?_ (traceless_failed htraceless (by rfl) (by rfl) (by rfl)).symm
        refine iff_of_false (fun hne => hne rfl) fun ⟨_, hagain⟩ => ?_
        have hsome := (hw.waiting _ (key_mem_waiting hcall)).1
        exact absurd hsome (by simp [show w.supplier.keysToOffset.lookup socksKey = none from hagain])
      · refine Iff.trans ?_ (traceless_returned htraceless (by rfl) (by rfl) ?_).symm
        · exact iff_of_true nofun (List.mem_append_right _ (List.mem_singleton_self _))
        · exact fun _ hmem => List.mem_append_left _ hmem

end Steps

/-- In a run no call leaves a trace of a failure if and only if every step
meets the condition. -/
theorem traceless_iff_prepared (keyToPort : Map String Int) {w : Watched} {es : List Event}
    (hrun : run step (.start keyToPort) es = some w) :
    runWithin step Prepared (.start keyToPort) es = some w ↔
      ∀ v ∈ trace step (.start keyToPort) es, Traceless v :=
  runWithin_iff_forall_trace (fun _ _ _ hw h => step_tracked hw h)
    (fun _ _ _ hw htraceless h => prepared_iff_traceless hw htraceless h)
    (tracked_start keyToPort) (traceless_start keyToPort) hrun

/-! ### A macaroon that comes after the certificate -/

def macaroonInTime : List Event :=
  [.get [0x0a], .resume 0 .notReady, .resume 0 .ready, .get [0x0a]]

def macaroonTooLate : List Event := [.get [0x0a], .resume 0 .fails, .get [0x0a]]

theorem traceless_macaroonInTime :
    ∃ w, run step (.start ∅) macaroonInTime = some w ∧ w.supplier.returned.length = 2 ∧
      (runWithin step Prepared (.start ∅) macaroonInTime = some w ↔
        ∀ v ∈ trace step (.start ∅) macaroonInTime, Traceless v) := by
  have hreturned : (run step (.start ∅) macaroonInTime).map
      (fun w => w.supplier.returned.length) = some 2 := by
    decide +kernel
  obtain ⟨w, hrun, hlength⟩ := Option.map_eq_some_iff.mp hreturned
  exact ⟨w, hrun, hlength, traceless_iff_prepared ∅ hrun⟩

/-- The call that raised leaves the offset of its key, and the next call returns
a port pair without a subscription. -/
theorem not_traceless_macaroonTooLate :
    ∃ w, run step (.start ∅) macaroonTooLate = some w ∧ ¬ Traceless w := by
  have hcalls : (run step (.start ∅) macaroonTooLate).map
      (fun w => (w.supplier.returned, w.supplier.subscribed)) =
        some ([([0x0a], ⟨8432, 10009, PortAllocation.lnddir [0x0a]⟩)], []) := by
    decide +kernel
  obtain ⟨w, hrun, hpair⟩ := Option.map_eq_some_iff.mp hcalls
  obtain ⟨hreturned, hsubscribed⟩ := Prod.mk.inj hpair
  refine ⟨w, hrun, fun htraceless => ?_⟩
  have hmem := htraceless.subscribed [0x0a] _ (hreturned ▸ List.mem_singleton_self _)
  rw [hsubscribed] at hmem
  cases hmem

end ElectrumLightning.FailedAllocation
