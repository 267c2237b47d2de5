import ElectrumLightning.PortAllocation

/-!
The offsets of the wallets. `KEY_TO_PORT` stays one-to-one and only grows,
`keysToOffset` follows it, and so no two wallets share a port or a directory.
-/

namespace ElectrumLightning.DistinctPorts

open ElectrumLightning.ByteStrings
open ElectrumLightning.HexText
open ElectrumLightning.LabelledRuns
open ElectrumLightning.OneToOneMaps
open ElectrumLightning.PortAllocation

def services (socksKey : Bytes) (offset : Int) : Chain where
  assocPort := 8432 + 5 * offset
  serverPort := 9090 + offset
  peerport := 9735 + offset
  rpcport := 10009 + offset
  restport := 8081 + offset
  lnddir := lnddir socksKey

def portPair (c : Chain) : PortPair := ⟨c.assocPort, c.rpcport, c.lnddir⟩

structure Disjoint (c d : Chain) : Prop where
  assocPort : c.assocPort ≠ d.assocPort
  serverPort : c.serverPort ≠ d.serverPort
  peerport : c.peerport ≠ d.peerport
  rpcport : c.rpcport ≠ d.rpcport
  restport : c.restport ≠ d.restport
  lnddir : c.lnddir ≠ d.lnddir

theorem lnddir_injective : Function.Injective lnddir :=
  fun _ _ h => hexlify_injective ((String.append_right_inj _).mp h)

theorem disjoint_services {key key' : Bytes} {offset offset' : Int} (hkey : key ≠ key')
    (hoffset : offset ≠ offset') : Disjoint (services key offset) (services key' offset') := by
  refine ⟨?_, ?_, ?_, ?_, ?_, fun h => hkey (lnddir_injective h)⟩
  all_goals
    dsimp only [services]
    omega

/-- What holds in every state: the saved offsets are one-to-one, a key in use
has its saved offset, and what was started or returned for it goes with it. -/
structure Allocated (s : State) : Prop where
  oneToOne : OneToOne s.keyToPort
  recorded : ∀ ⦃key offset⦄, s.keysToOffset.lookup key = some offset →
    s.keyToPort.lookup (hexlify key) = some offset
  chains : ∀ ⦃key chain⦄, (key, chain) ∈ s.chains →
    ∃ offset, s.keysToOffset.lookup key = some offset ∧ chain = services key offset
  returned : ∀ ⦃key pair⦄, (key, pair) ∈ s.returned →
    ∃ offset, s.keysToOffset.lookup key = some offset ∧ pair = portPair (services key offset)

/-- No offset is lost or changed. -/
structure Grows (s t : State) : Prop where
  keyToPort : Extends s.keyToPort t.keyToPort
  keysToOffset : Extends s.keysToOffset t.keysToOffset

theorem Grows.refl (s : State) : Grows s s := ⟨.refl _, .refl _⟩

theorem Grows.trans {r s t : State} (hrs : Grows r s) (hst : Grows s t) : Grows r t :=
  ⟨hrs.keyToPort.trans hst.keyToPort, hrs.keysToOffset.trans hst.keysToOffset⟩

theorem allocated_start {keyToPort : Map String Int} (h : OneToOne keyToPort) :
    Allocated (State.start keyToPort) where
  oneToOne := h
  recorded := by
    intro key offset hlookup
    cases hlookup
  chains := by
    intro key chain hmem
    cases hmem
  returned := by
    intro key pair hmem
    cases hmem

/-! ### One step -/

structure SameOffsets (s t : State) : Prop where
  currentOffset : t.currentOffset = s.currentOffset
  keyToPort : t.keyToPort = s.keyToPort
  keysToOffset : t.keysToOffset = s.keysToOffset
  chains : t.chains = s.chains

theorem SameOffsets.grows {s t : State} (h : SameOffsets s t) : Grows s t := by
  constructor
  · rw [h.keyToPort]
    exact .refl _
  · rw [h.keysToOffset]
    exact .refl _

theorem SameOffsets.allocated {s t : State} (h : SameOffsets s t) (hs : Allocated s)
    (hreturned : ∀ ⦃key pair⦄, (key, pair) ∈ t.returned → (key, pair) ∈ s.returned ∨
      ∃ offset, s.keysToOffset.lookup key = some offset ∧
        pair = portPair (services key offset)) : Allocated t where
  oneToOne := by
    rw [h.keyToPort]
    exact hs.oneToOne
  recorded := by
    rw [h.keyToPort, h.keysToOffset]
    exact hs.recorded
  chains := by
    rw [h.keysToOffset, h.chains]
    exact hs.chains
  returned := by
    rw [h.keysToOffset]
    intro key pair hmem
    rcases hreturned hmem with hold | hnew
    · exact hs.returned hold
    · exact hnew

theorem sameOffsets_returnPortPair (s : State) (socksKey : Bytes) :
    SameOffsets s (s.returnPortPair socksKey) := by
  unfold State.returnPortPair
  split <;> exact ⟨rfl, rfl, rfl, rfl⟩

theorem mem_returned_returnPortPair {s : State} {socksKey key : Bytes} {pair : PortPair}
    (h : (key, pair) ∈ (s.returnPortPair socksKey).returned) : (key, pair) ∈ s.returned ∨
      ∃ offset, s.keysToOffset.lookup key = some offset ∧
        pair = portPair (services key offset) := by
  unfold State.returnPortPair at h
  split at h
  · exact Or.inl h
  · rename_i offset hlookup
    rcases List.mem_append.mp h with hold | hnew
    · exact Or.inl hold
    · cases List.mem_singleton.mp hnew
      refine Or.inr ⟨offset, hlookup, ?_⟩
      simp only [portPair, services, Int.mul_comm]

/-- A saved port is chosen again. -/
theorem choosePort_saved {s : State} {hexKey : String} {current port : Int}
    (h : s.choosePort hexKey = some (current, port)) :
    ∀ saved ∈ s.keyToPort.lookup hexKey, saved = port := by
  intro saved hsaved
  unfold State.choosePort at h
  split at h
  · rename_i known hknown
    cases h
    exact Option.some.inj (hsaved.symm.trans hknown)
  · rename_i hnone
    cases hsaved.symm.trans hnone

/-- No other key has the port that is chosen. -/
theorem choosePort_free {s : State} (hs : Allocated s) {hexKey : String} {current port : Int}
    (h : s.choosePort hexKey = some (current, port)) :
    ∀ other, s.keyToPort.lookup other = some port → other = hexKey := by
  intro other hother
  unfold State.choosePort at h
  split at h
  · rename_i saved hsaved
    cases h
    exact hs.oneToOne hother hsaved
  · obtain ⟨chosen, hchosen, hfree⟩ :=
      exists_skipTaken (values s.keyToPort) s.currentOffset
    rw [hchosen] at h
    cases h
    exact absurd (mem_values_iff.mpr ⟨other, hother⟩) hfree

theorem exists_choosePort (s : State) (hexKey : String) : ∃ p, s.choosePort hexKey = some p := by
  unfold State.choosePort
  split
  · exact ⟨_, rfl⟩
  · obtain ⟨chosen, hchosen, -⟩ := exists_skipTaken (values s.keyToPort) s.currentOffset
    rw [hchosen]
    exact ⟨_, rfl⟩

section SetUp

variable {s : State} {socksKey : Bytes} {chosenPort : Int}

theorem setUp_of_mem (h : 8432 + 5 * chosenPort ∈ s.assoc) :
    s.setUp socksKey chosenPort =
      { s with
        keyToPort := s.keyToPort.insert (hexlify socksKey) chosenPort
        raised := s.raised ++ [socksKey] } := by
  have hmul : 8432 + chosenPort * 5 ∈ s.assoc := by rwa [Int.mul_comm]
  simp [State.setUp, makeChain, hmul]

theorem setUp_of_ge (h : 8432 + 5 * chosenPort ∉ s.assoc) (hge : ¬ chosenPort < 9) :
    s.setUp socksKey chosenPort =
      { s with
        keyToPort := s.keyToPort.insert (hexlify socksKey) chosenPort
        assoc := s.assoc ++ [8432 + 5 * chosenPort]
        raised := s.raised ++ [socksKey] } := by
  rw [Int.mul_comm] at h
  have hdiv : chosenPort * 5 / 5 = chosenPort := Int.mul_ediv_cancel _ (by decide)
  simp [State.setUp, makeChain, h, hdiv, hge, Int.mul_comm]

theorem setUp_of_lt (h : 8432 + 5 * chosenPort ∉ s.assoc) (hlt : chosenPort < 9) :
    s.setUp socksKey chosenPort =
      { s with
        keyToPort := s.keyToPort.insert (hexlify socksKey) chosenPort
        assoc := s.assoc ++ [8432 + 5 * chosenPort]
        keysToOffset := s.keysToOffset.insert socksKey chosenPort
        chains := s.chains ++ [(socksKey, services socksKey chosenPort)]
        waiting := s.waiting ++ [(socksKey, chosenPort)] } := by
  rw [Int.mul_comm] at h
  have hdiv : chosenPort * 5 / 5 = chosenPort := Int.mul_ediv_cancel _ (by decide)
  simp [State.setUp, makeChain, services, h, hdiv, hlt, Int.mul_comm]

/-- The two ways in which a set-up ends: an assertion failed, or the services
were started. -/
theorem setUp_cases (s : State) (socksKey : Bytes) (chosenPort : Int) :
    (s.setUp socksKey chosenPort).keyToPort =
        s.keyToPort.insert (hexlify socksKey) chosenPort ∧
      (s.setUp socksKey chosenPort).returned = s.returned ∧
      ((s.setUp socksKey chosenPort).keysToOffset = s.keysToOffset ∧
          (s.setUp socksKey chosenPort).chains = s.chains ∨
        (s.setUp socksKey chosenPort).keysToOffset = s.keysToOffset.insert socksKey chosenPort ∧
          (s.setUp socksKey chosenPort).chains =
            s.chains ++ [(socksKey, services socksKey chosenPort)]) := by
  by_cases hport : 8432 + 5 * chosenPort ∈ s.assoc
  · rw [setUp_of_mem hport]
    exact ⟨rfl, rfl, .inl ⟨rfl, rfl⟩⟩
  by_cases hlt : chosenPort < 9
  · rw [setUp_of_lt hport hlt]
    exact ⟨rfl, rfl, .inr ⟨rfl, rfl⟩⟩
  · rw [setUp_of_ge hport hlt]
    exact ⟨rfl, rfl, .inl ⟨rfl, rfl⟩⟩

theorem grows_setUp (hnew : s.keysToOffset.lookup socksKey = none)
    (hsaved : ∀ saved ∈ s.keyToPort.lookup (hexlify socksKey), saved = chosenPort) :
    Grows s (s.setUp socksKey chosenPort) := by
  obtain ⟨hport, -, hoffset⟩ := setUp_cases s socksKey chosenPort
  constructor
  · rw [hport]
    exact extends_insert hsaved
  · rcases hoffset with ⟨hsame, -⟩ | ⟨hinsert, -⟩
    · rw [hsame]
      exact .refl _
    · rw [hinsert]
      refine extends_insert fun b hb => ?_
      rw [hnew] at hb
      cases hb

theorem allocated_setUp (hs : Allocated s) (hnew : s.keysToOffset.lookup socksKey = none)
    (hsaved : ∀ saved ∈ s.keyToPort.lookup (hexlify socksKey), saved = chosenPort)
    (hfree : ∀ other, s.keyToPort.lookup other = some chosenPort → other = hexlify socksKey) :
    Allocated (s.setUp socksKey chosenPort) := by
  have hgrows := grows_setUp hnew hsaved
  obtain ⟨hport, hreturned, hoffset⟩ := setUp_cases s socksKey chosenPort
  refine ⟨?_, ?_, ?_, ?_⟩
  · rw [hport]
    exact hs.oneToOne.insert hfree
  · intro key offset hlookup
    rcases hoffset with ⟨hsame, -⟩ | ⟨hinsert, -⟩
    · rw [hsame] at hlookup
      exact hgrows.keyToPort (hs.recorded hlookup)
    · rw [hinsert, lookup_insert_iff] at hlookup
      rcases hlookup with ⟨rfl, rfl⟩ | ⟨-, hold⟩
      · rw [hport]
        exact AList.lookup_insert _
      · exact hgrows.keyToPort (hs.recorded hold)
  · intro key chain hmem
    rcases hoffset with ⟨-, hchains⟩ | ⟨hinsert, hchains⟩
    · rw [hchains] at hmem
      obtain ⟨offset, hlookup, hchain⟩ := hs.chains hmem
      exact ⟨offset, hgrows.keysToOffset hlookup, hchain⟩
    · rw [hchains] at hmem
      rcases List.mem_append.mp hmem with hold | hlast
      · obtain ⟨offset, hlookup, hchain⟩ := hs.chains hold
        exact ⟨offset, hgrows.keysToOffset hlookup, hchain⟩
      · cases List.mem_singleton.mp hlast
        refine ⟨chosenPort, ?_, rfl⟩
        rw [hinsert]
        exact AList.lookup_insert _
  · rw [hreturned]
    intro key pair hmem
    obtain ⟨offset, hlookup, hpair⟩ := hs.returned hmem
    exact ⟨offset, hgrows.keysToOffset hlookup, hpair⟩

end SetUp

/-- What a step does: it keeps every offset, or it sets up the services of a
key that has none. -/
theorem step_cases {s t : State} {e : Event} (h : step s e = some t) :
    (SameOffsets s t ∧ ∀ ⦃key pair⦄, (key, pair) ∈ t.returned → (key, pair) ∈ s.returned ∨
      ∃ offset, s.keysToOffset.lookup key = some offset ∧
        pair = portPair (services key offset)) ∨
    ∃ socksKey current port, s.keysToOffset.lookup socksKey = none ∧
      s.choosePort (hexlify socksKey) = some (current, port) ∧
        t = { s with currentOffset := current }.setUp socksKey port := by
  cases e with
  | get socksKey =>
      change s.get socksKey = some t at h
      unfold State.get at h
      split at h
      · cases h
        exact Or.inl ⟨sameOffsets_returnPortPair s socksKey,
          fun _ _ hmem => mem_returned_returnPortPair hmem⟩
      · rename_i hnew
        obtain ⟨⟨current, port⟩, hchoose, hrest⟩ := Option.bind_eq_some_iff.mp h
        exact Or.inr ⟨socksKey, current, port, hnew, hchoose, (Option.some.inj hrest).symm⟩
  | resume call resumption =>
      left
      obtain ⟨⟨socksKey, port⟩, -, rfl⟩ := Option.map_eq_some_iff.mp h
      cases resumption with
      | notReady => exact ⟨⟨rfl, rfl, rfl, rfl⟩, fun _ _ hmem => Or.inl hmem⟩
      | fails => exact ⟨⟨rfl, rfl, rfl, rfl⟩, fun _ _ hmem => Or.inl hmem⟩
      | ready =>
          let waited : State :=
            { s with
              waiting := s.waiting.eraseIdx call
              subscribed := s.subscribed ++ [socksKey] }
          obtain ⟨hcurrent, hport, hoffset, hchains⟩ := sameOffsets_returnPortPair waited socksKey
          refine ⟨⟨hcurrent, hport, hoffset, hchains⟩, fun key pair hmem => ?_⟩
          have hcase : (key, pair) ∈ waited.returned ∨ _ := mem_returned_returnPortPair hmem
          exact hcase

theorem step_grows {s t : State} {e : Event} (h : step s e = some t) : Grows s t := by
  rcases step_cases h with ⟨hsame, -⟩ | ⟨socksKey, current, port, hnew, hchoose, rfl⟩
  · exact hsame.grows
  · have hsaved := choosePort_saved hchoose
    have hgrows : Grows { s with currentOffset := current } _ := grows_setUp hnew hsaved
    exact ⟨hgrows.keyToPort, hgrows.keysToOffset⟩

theorem step_allocated {s t : State} {e : Event} (hs : Allocated s) (h : step s e = some t) :
    Allocated t ∧ Grows s t := by
  refine ⟨?_, step_grows h⟩
  rcases step_cases h with ⟨hsame, hreturned⟩ | ⟨socksKey, current, port, hnew, hchoose, rfl⟩
  · exact hsame.allocated hs hreturned
  · have hs' : Allocated { s with currentOffset := current } :=
      ⟨hs.oneToOne, hs.recorded, hs.chains, hs.returned⟩
    have hsaved := choosePort_saved hchoose
    exact allocated_setUp hs' hnew hsaved (choosePort_free hs hchoose)

/-! ### Every run -/

theorem run_allocated {s t : State} (hs : Allocated s)
    (h : Reachable step Unrestricted s t) : Allocated t ∧ Grows s t := by
  refine h.invariant (I := fun t => Allocated t ∧ Grows s t) ⟨hs, .refl s⟩ ?_
  rintro r e t ⟨hr, hgrows⟩ - hstep
  obtain ⟨ht, hlast⟩ := step_allocated hr hstep
  exact ⟨ht, hgrows.trans hlast⟩

/-- In every state of every run the two maps are one-to-one and agree, no
offset changes any more, the next free offset is found, and what distinct keys
have is disjoint. -/
theorem allocation_invariant {keyToPort : Map String Int} (hsaved : OneToOne keyToPort)
    {s : State} (hrun : Reachable step Unrestricted (State.start keyToPort) s) :
    OneToOne s.keyToPort ∧ OneToOne s.keysToOffset ∧
    (∀ key offset, s.keysToOffset.lookup key = some offset →
      s.keyToPort.lookup (hexlify key) = some offset) ∧
    (∀ t, Reachable step Unrestricted s t →
      Extends s.keyToPort t.keyToPort ∧ Extends s.keysToOffset t.keysToOffset) ∧
    (∃ chosen, skipTaken (values s.keyToPort) ((values s.keyToPort).length + 1)
      s.currentOffset = some chosen) ∧
    (∀ key, (s.get key).isSome = true) ∧
    (∀ key key' offset offset', key ≠ key' →
      s.keyToPort.lookup (hexlify key) = some offset →
      s.keyToPort.lookup (hexlify key') = some offset' →
        Disjoint (services key offset) (services key' offset')) ∧
    (∀ key chain, (key, chain) ∈ s.chains →
      ∃ offset, s.keysToOffset.lookup key = some offset ∧ chain = services key offset) ∧
    ∀ key pair, (key, pair) ∈ s.returned →
      ∃ offset, s.keysToOffset.lookup key = some offset ∧
        pair = portPair (services key offset) := by
  obtain ⟨hs, -⟩ := run_allocated (allocated_start hsaved) hrun
  refine ⟨hs.oneToOne, hs.oneToOne.of_follows hexlify_injective hs.recorded,
    fun _ _ hlookup => hs.recorded hlookup, ?_, ?_, ?_, ?_,
    fun _ _ hmem => hs.chains hmem, fun _ _ hmem => hs.returned hmem⟩
  · intro t ht
    obtain ⟨-, hgrows⟩ := run_allocated hs ht
    exact ⟨hgrows.keyToPort, hgrows.keysToOffset⟩
  · obtain ⟨chosen, hchosen, -⟩ := exists_skipTaken (values s.keyToPort) s.currentOffset
    exact ⟨chosen, hchosen⟩
  · intro key
    unfold State.get
    split
    · rfl
    · obtain ⟨⟨current, port⟩, hchoose⟩ := exists_choosePort s (hexlify key)
      rw [hchoose]
      rfl
  · intro key key' offset offset' hkey hoffset hoffset'
    refine disjoint_services hkey fun hsame => hkey (hexlify_injective ?_)
    exact hs.oneToOne hoffset (hsame ▸ hoffset')

/-! ### Offsets that are not negative -/

def ports (c : Chain) : List Int := [c.assocPort, c.serverPort, c.peerport, c.rpcport, c.restport]

/-- The families of ports are apart for the offsets from 0 to 8. -/
theorem notMem_ports_services {key key' : Bytes} {offset offset' : Int} (h : 0 ≤ offset)
    (hlt : offset < 9) (h' : 0 ≤ offset') (hlt' : offset' < 9) (hne : offset ≠ offset')
    {port : Int} (hport : port ∈ ports (services key offset)) :
    port ∉ ports (services key' offset') := by
  intro hport'
  simp only [ports, services, List.mem_cons, List.not_mem_nil, or_false] at hport hport'
  omega

/-- No saved offset is negative, and the services have offsets from 0 to 8. -/
structure Natural (s : State) : Prop where
  cursor : 0 ≤ s.currentOffset
  saved : ∀ hexKey port, s.keyToPort.lookup hexKey = some port → 0 ≤ port
  chains : ∀ key chain, (key, chain) ∈ s.chains →
    ∃ offset, 0 ≤ offset ∧ offset < 9 ∧ chain = services key offset

theorem natural_start {keyToPort : Map String Int}
    (h : ∀ hexKey port, keyToPort.lookup hexKey = some port → 0 ≤ port) :
    Natural (State.start keyToPort) where
  cursor := le_refl 0
  saved := h
  chains := by
    intro key chain hmem
    cases hmem

theorem choosePort_natural {s : State} (hs : Natural s) {hexKey : String} {current port : Int}
    (h : s.choosePort hexKey = some (current, port)) : 0 ≤ current ∧ 0 ≤ port := by
  unfold State.choosePort at h
  split at h
  · rename_i saved hsaved
    cases h
    exact ⟨hs.cursor, hs.saved hexKey _ hsaved⟩
  · obtain ⟨chosen, hchosen, heq⟩ := Option.map_eq_some_iff.mp h
    cases heq
    have hle := hs.cursor.trans (skipTaken_spec hchosen).1
    exact ⟨hle, hle⟩

theorem natural_setUp {s : State} (hs : Natural s) (socksKey : Bytes) {port : Int}
    (hport : 0 ≤ port) : Natural (s.setUp socksKey port) := by
  have hsaved : ∀ hexKey saved,
      (s.keyToPort.insert (hexlify socksKey) port).lookup hexKey = some saved → 0 ≤ saved := by
    intro hexKey saved hlookup
    rcases lookup_insert_iff.mp hlookup with ⟨-, rfl⟩ | ⟨-, hold⟩
    · exact hport
    · exact hs.saved hexKey saved hold
  by_cases hused : 8432 + 5 * port ∈ s.assoc
  · rw [setUp_of_mem hused]
    exact ⟨hs.cursor, hsaved, hs.chains⟩
  by_cases hlt : port < 9
  · rw [setUp_of_lt hused hlt]
    refine ⟨hs.cursor, hsaved, fun key chain hmem => ?_⟩
    rcases List.mem_append.mp hmem with hold | hlast
    · exact hs.chains key chain hold
    · cases List.mem_singleton.mp hlast
      exact ⟨port, hport, hlt, rfl⟩
  · rw [setUp_of_ge hused hlt]
    exact ⟨hs.cursor, hsaved, hs.chains⟩

theorem step_natural {s t : State} {e : Event} (hs : Natural s) (h : step s e = some t) :
    Natural t := by
  rcases step_cases h with ⟨hsame, -⟩ | ⟨socksKey, current, port, -, hchoose, rfl⟩
  · refine ⟨hsame.currentOffset ▸ hs.cursor, ?_, ?_⟩
    · rw [hsame.keyToPort]
      exact hs.saved
    · rw [hsame.chains]
      exact hs.chains
  · obtain ⟨hcurrent, hport⟩ := choosePort_natural hs hchoose
    have hs' : Natural { s with currentOffset := current } := ⟨hcurrent, hs.saved, hs.chains⟩
    exact natural_setUp hs' socksKey hport

/-! ### A saved key between two new ones -/

def savedPorts : Map String Int := AList.insert "0a" 1 ∅

def threeWallets : List Event :=
  [.get [0x0b], .get [0x0a], .resume 0 .ready, .get [0x0c], .get [0x0b]]

theorem oneToOne_savedPorts : OneToOne savedPorts :=
  oneToOne_empty.insert fun _ h => by cases h

/-- The cursor steps over the offset of the saved key. -/
theorem threeWallets_offsets :
    ∃ s, run step (State.start savedPorts) threeWallets = some s ∧
      (s.keysToOffset.lookup [0x0b], s.keysToOffset.lookup [0x0a], s.keysToOffset.lookup [0x0c]) =
        (some 0, some 1, some 2) ∧
      OneToOne s.keyToPort := by
  have hoffsets : (run step (State.start savedPorts) threeWallets).map (fun s =>
      (s.keysToOffset.lookup [0x0b], s.keysToOffset.lookup [0x0a],
        s.keysToOffset.lookup [0x0c])) = some (some 0, some 1, some 2) := by
    decide +kernel
  obtain ⟨s, hrun, hlookups⟩ := Option.map_eq_some_iff.mp hoffsets
  exact ⟨s, hrun, hlookups,
    (allocation_invariant oneToOne_savedPorts (reachable_of_runWithin hrun)).1⟩

end ElectrumLightning.DistinctPorts
