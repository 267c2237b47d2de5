import ElectrumLightning.DistinctPorts

/-!
To whom the chains belong, whatever ports were saved. `make_chain` refuses a port
that is in use, so that no two keys have one offset, even where the saved map gives
them one.
-/

namespace ElectrumLightning.ChainOwners

open ElectrumLightning.ByteStrings
open ElectrumLightning.DistinctPorts
open ElectrumLightning.LabelledRuns
open ElectrumLightning.OneToOneMaps
open ElectrumLightning.PortAllocation

/-- What the supplier keeps: every key in use has its own chain, no two keys use one
port, and what was returned for a key goes with its chain. -/
structure Owned (s : State) : Prop where
  chains : ∀ ⦃key chain⦄, (key, chain) ∈ s.chains →
    ∃ offset, s.keysToOffset.lookup key = some offset ∧ chain = services key offset
  started : ∀ ⦃key offset⦄, s.keysToOffset.lookup key = some offset →
    (key, services key offset) ∈ s.chains
  registered : ∀ ⦃key offset⦄, s.keysToOffset.lookup key = some offset →
    8432 + 5 * offset ∈ s.assoc
  oneToOne : OneToOne s.keysToOffset
  waiting : ∀ ⦃key offset⦄, (key, offset) ∈ s.waiting →
    s.keysToOffset.lookup key = some offset
  returned : ∀ ⦃key pair⦄, (key, pair) ∈ s.returned →
    ∃ offset, s.keysToOffset.lookup key = some offset ∧ pair = portPair (services key offset)

/-- How a call that does not wait any longer has ended. -/
def Ended (s t : State) (key : Bytes) : Prop :=
  ∀ key' pair, t.returned[s.returned.length]? = some (key', pair) →
    ∃ offset, t.keysToOffset.lookup key = some offset ∧ pair = portPair (services key offset)

theorem owned_start (keyToPort : Map String Int) : Owned (.start keyToPort) where
  chains := by
    intro key chain hmem
    cases hmem
  started := by
    intro key offset hlookup
    cases hlookup
  registered := by
    intro key offset hlookup
    cases hlookup
  oneToOne := oneToOne_empty
  waiting := by
    intro key offset hmem
    cases hmem
  returned := by
    intro key pair hmem
    cases hmem

section Supplier

variable {s t : State} {key key' : Bytes} {offset offset' : Int}

/-- The chains of different keys have different offsets. -/
theorem Owned.offset_ne (hs : Owned s) (hc : (key, services key offset) ∈ s.chains)
    (hc' : (key', services key' offset') ∈ s.chains) (hne : key ≠ key') : offset ≠ offset' := by
  rintro rfl
  obtain ⟨own, hown, hservices⟩ := hs.chains hc
  obtain ⟨own', hown', hservices'⟩ := hs.chains hc'
  have heq : offset = own := by
    have hport := congrArg Chain.serverPort hservices
    simp only [services] at hport
    omega
  have heq' : offset = own' := by
    have hport := congrArg Chain.serverPort hservices'
    simp only [services] at hport
    omega
  rw [← heq] at hown
  rw [← heq'] at hown'
  exact hne (hs.oneToOne hown hown')

theorem Owned.disjoint (hs : Owned s) {c c' : Chain} (hc : (key, c) ∈ s.chains)
    (hc' : (key', c') ∈ s.chains) (hne : key ≠ key') : Disjoint c c' := by
  obtain ⟨offset, -, rfl⟩ := hs.chains hc
  obtain ⟨offset', -, rfl⟩ := hs.chains hc'
  exact disjoint_services hne (hs.offset_ne hc hc' hne)

/-- Where no saved offset is negative, different keys share no port at all. -/
theorem Owned.notMem_ports (hs : Owned s) (hnatural : Natural s) {c c' : Chain}
    (hc : (key, c) ∈ s.chains) (hc' : (key', c') ∈ s.chains) (hne : key ≠ key') {port : Int}
    (hport : port ∈ ports c) : port ∉ ports c' := by
  obtain ⟨offset, hle, hlt, rfl⟩ := hnatural.chains key c hc
  obtain ⟨offset', hle', hlt', rfl⟩ := hnatural.chains key' c' hc'
  exact notMem_ports_services hle hlt hle' hlt' (hs.offset_ne hc hc' hne) hport

/-! ### One step -/

theorem Owned.congr (hs : Owned s) (hoffset : t.keysToOffset = s.keysToOffset)
    (hchains : t.chains = s.chains) (hassoc : ∀ port ∈ s.assoc, port ∈ t.assoc)
    (hwaiting : ∀ call ∈ t.waiting, call ∈ s.waiting) (hreturned : t.returned = s.returned) :
    Owned t where
  chains := by
    rw [hoffset, hchains]
    exact hs.chains
  started := by
    rw [hoffset, hchains]
    exact hs.started
  registered := by
    rw [hoffset]
    intro key offset hlookup
    exact hassoc _ (hs.registered hlookup)
  oneToOne := by
    rw [hoffset]
    exact hs.oneToOne
  waiting := by
    rw [hoffset]
    intro key offset hmem
    exact hs.waiting (hwaiting _ hmem)
  returned := by
    rw [hoffset, hreturned]
    exact hs.returned

theorem owned_setUp (hs : Owned s) (hnew : s.keysToOffset.lookup key = none)
    (hport : 8432 + 5 * offset ∉ s.assoc) (hlt : offset < 9) :
    Owned (s.setUp key offset) ∧
      Extends s.keysToOffset (s.setUp key offset).keysToOffset := by
  have hextends : Extends s.keysToOffset (s.keysToOffset.insert key offset) := by
    refine extends_insert fun b hb => ?_
    rw [hnew] at hb
    cases hb
  rw [setUp_of_lt hport hlt]
  refine ⟨⟨?_, ?_, ?_, ?_, ?_, ?_⟩, hextends⟩
  · intro key' chain hmem
    rcases List.mem_append.mp hmem with hold | hlast
    · obtain ⟨offset', hlookup, hchain⟩ := hs.chains hold
      exact ⟨offset', hextends hlookup, hchain⟩
    · cases List.mem_singleton.mp hlast
      exact ⟨offset, AList.lookup_insert _, rfl⟩
  · intro key' offset' hlookup
    rcases lookup_insert_iff.mp hlookup with ⟨rfl, rfl⟩ | ⟨-, hold⟩
    · exact List.mem_append_right _ (List.mem_singleton_self _)
    · exact List.mem_append_left _ (hs.started hold)
  · intro key' offset' hlookup
    rcases lookup_insert_iff.mp hlookup with ⟨rfl, rfl⟩ | ⟨-, hold⟩
    · exact List.mem_append_right _ (List.mem_singleton_self _)
    · exact List.mem_append_left _ (hs.registered hold)
  · refine hs.oneToOne.insert fun key' hlookup => ?_
    exact absurd (hs.registered hlookup) hport
  · intro key' offset' hmem
    rcases List.mem_append.mp hmem with hold | hlast
    · exact hextends (hs.waiting hold)
    · cases List.mem_singleton.mp hlast
      exact AList.lookup_insert _
  · intro key' pair hmem
    obtain ⟨offset', hlookup, hpair⟩ := hs.returned hmem
    exact ⟨offset', hextends hlookup, hpair⟩

theorem returnPortPair_of_some (h : s.keysToOffset.lookup key = some offset) :
    s.returnPortPair key =
      { s with returned := s.returned ++ [(key, portPair (services key offset))] } := by
  simp only [State.returnPortPair, h, portPair, services, Int.mul_comm]

theorem Owned.returnPortPair (hs : Owned s) (h : s.keysToOffset.lookup key = some offset) :
    Owned (s.returnPortPair key) := by
  rw [returnPortPair_of_some h]
  have hlast : ∀ key' pair, (key', pair) = (key, portPair (services key offset)) →
      ∃ offset', s.keysToOffset.lookup key' = some offset' ∧
        pair = portPair (services key' offset') := by
    rintro key' pair heq
    cases heq
    exact ⟨offset, h, rfl⟩
  exact
    { hs with
      returned := by
        intro key' pair hmem
        rcases List.mem_append.mp hmem with hold | hnew
        · exact hs.returned hold
        · exact hlast key' pair (List.mem_singleton.mp hnew) }

/-- A call ends at once, or it waits with an offset of its key. -/
theorem get_spec (hs : Owned s) (h : s.get key = some t) :
    Owned t ∧ Extends s.keysToOffset t.keysToOffset ∧
      ((∃ offset, t.waiting = s.waiting ++ [(key, offset)]) ∨
        t.waiting = s.waiting ∧ Ended s t key) := by
  unfold State.get at h
  split at h
  · rename_i offset hlookup
    have howned := hs.returnPortPair hlookup
    rw [returnPortPair_of_some hlookup] at h howned
    cases h
    refine ⟨howned, .refl _, .inr ⟨rfl, ?_⟩⟩
    intro key' pair hreturned
    rw [List.getElem?_concat_length] at hreturned
    cases hreturned
    exact ⟨offset, hlookup, rfl⟩
  · rename_i hnew
    obtain ⟨⟨current, port⟩, -, hrest⟩ := Option.bind_eq_some_iff.mp h
    cases hrest
    have hended : ∀ t : State, t.returned = s.returned → Ended s t key := by
      intro t hsame key' pair hreturned
      rw [hsame, List.getElem?_eq_none (Nat.le_refl _)] at hreturned
      cases hreturned
    have hs' : Owned { s with currentOffset := current } :=
      hs.congr rfl rfl (fun _ h => h) (fun _ h => h) rfl
    by_cases hport : 8432 + 5 * port ∈ s.assoc
    · rw [setUp_of_mem (s := { s with currentOffset := current }) hport]
      exact ⟨hs.congr rfl rfl (fun _ h => h) (fun _ h => h) rfl, .refl _, .inr ⟨rfl, hended _ rfl⟩⟩
    by_cases hlt : port < 9
    · obtain ⟨howned, hextends⟩ := owned_setUp hs' hnew hport hlt
      refine ⟨howned, hextends, .inl ⟨port, ?_⟩⟩
      rw [setUp_of_lt (s := { s with currentOffset := current }) hport hlt]
    · rw [setUp_of_ge (s := { s with currentOffset := current }) hport hlt]
      exact ⟨hs.congr rfl rfl (fun _ h => List.mem_append_left _ h) (fun _ h => h) rfl, .refl _,
        .inr ⟨rfl, hended _ rfl⟩⟩

/-- A call that waited ends in one of two ways. -/
theorem resume_spec (hs : Owned s) {call : Nat} (hwaiting : s.waiting[call]? = some (key, offset))
    {resumption : Resumption} (hready : resumption ≠ .notReady) :
    Owned (s.resume call key resumption) ∧
      (s.resume call key resumption).keysToOffset = s.keysToOffset ∧
      (s.resume call key resumption).waiting = s.waiting.eraseIdx call ∧
      Ended s (s.resume call key resumption) key := by
  have hmem : ∀ c ∈ s.waiting.eraseIdx call, c ∈ s.waiting := fun c hc =>
    List.mem_of_mem_eraseIdx hc
  cases resumption with
  | notReady => exact absurd rfl hready
  | fails =>
      refine ⟨hs.congr rfl rfl (fun _ h => h) hmem rfl, rfl, rfl, ?_⟩
      intro key' pair hreturned
      rw [State.resume, List.getElem?_eq_none (Nat.le_refl _)] at hreturned
      cases hreturned
  | ready =>
      let waited : State :=
        { s with
          waiting := s.waiting.eraseIdx call
          subscribed := s.subscribed ++ [key] }
      have hlookup : waited.keysToOffset.lookup key = some offset :=
        hs.waiting (List.mem_of_getElem? hwaiting)
      have hwaited : Owned waited := hs.congr rfl rfl (fun _ h => h) hmem rfl
      have howned := hwaited.returnPortPair hlookup
      have hresume : s.resume call key .ready = waited.returnPortPair key := rfl
      rw [hresume, returnPortPair_of_some hlookup] at *
      refine ⟨howned, rfl, rfl, ?_⟩
      intro key' pair hreturned
      rw [List.getElem?_concat_length] at hreturned
      cases hreturned
      exact ⟨offset, hlookup, rfl⟩

theorem step_owned {e : Event} (hs : Owned s) (h : step s e = some t) : Owned t := by
  cases e with
  | get key => exact (get_spec hs h).1
  | resume call resumption =>
      obtain ⟨⟨key, offset⟩, hwaiting, rfl⟩ := Option.map_eq_some_iff.mp h
      cases resumption with
      | notReady => exact hs
      | fails => exact (resume_spec hs hwaiting (by decide)).1
      | ready => exact (resume_spec hs hwaiting (by decide)).1

end Supplier

end ElectrumLightning.ChainOwners
