import ElectrumLightning.ChainOwners

/-!
How the nodes of the wallets are connected to each other. A node is registered
under its peer port when it has started, and a wallet connects to those that
were registered when its own services were set up.
-/

namespace ElectrumLightning.PeerMesh

open ElectrumLightning.ByteStrings
open ElectrumLightning.ChainOwners
open ElectrumLightning.DistinctPorts
open ElectrumLightning.HexText
open ElectrumLightning.LabelledRuns
open ElectrumLightning.OneToOneMaps
open ElectrumLightning.PortAllocation (Chain Resumption State)

/-- A wallet whose services were set up, with its `snapshotPeerports`. -/
structure Wallet where
  key : Bytes
  chain : Chain
  snapshot : List Int

/-- A `connect` command of `lncli`. -/
structure Command where
  key : Bytes
  otherPort : Int
  otherPubkey : String
deriving DecidableEq

/-- The hub, with `PEERPORTS_TO_PUBKEYS`, the peer ports of the nodes that are
starting, and the `connectOtherNodes` tasks with what is left of the snapshot.
`requested` records the keys of the calls of `get`, and `issued` the commands. -/
structure Mesh where
  supplier : State
  requested : List Bytes
  registry : List (Int × String)
  starting : List Int
  wallets : List Wallet
  tasks : List (Bytes × List Int)
  issued : List Command

def Mesh.start (keyToPort : Map String Int) : Mesh := ⟨.start keyToPort, [], [], [], [], [], []⟩

inductive Event where
  | supplier (event : PortAllocation.Event)
  | registers (startup : Nat) (pubkey : String)
  | connects (task : Nat)

def peerports (registry : List (Int × String)) : List Int := registry.map Prod.fst

/-- `PEERPORTS_TO_PUBKEYS[peerport] = pubkey`. -/
def assign (registry : List (Int × String)) (peerport : Int) (pubkey : String) :
    List (Int × String) :=
  if peerport ∈ peerports registry then
    registry.map fun entry => if entry.1 = peerport then (peerport, pubkey) else entry
  else registry ++ [(peerport, pubkey)]

/-- The rest of `get` for services that `make_chain` has prepared: the node is
started, and a task connects it to the nodes of the snapshot. -/
def Mesh.setUp (m : Mesh) (services : Bytes × Chain) : Mesh :=
  { m with
    starting := m.starting ++ [services.2.peerport]
    wallets := m.wallets ++ [⟨services.1, services.2, peerports m.registry⟩]
    tasks := m.tasks ++ [(services.1, peerports m.registry)] }

def requestedBy : PortAllocation.Event → List Bytes
  | .get socksKey => [socksKey]
  | .resume _ _ => []

def step (m : Mesh) : Event → Option Mesh
  | .supplier event =>
      (PortAllocation.step m.supplier event).map fun supplier =>
        (supplier.chains.drop m.supplier.chains.length).foldl Mesh.setUp
          { m with
            supplier := supplier
            requested := m.requested ++ requestedBy event }
  | .registers startup pubkey =>
      (m.starting[startup]?).map fun peerport =>
        { m with
          starting := m.starting.eraseIdx startup
          registry := assign m.registry peerport pubkey }
  | .connects task =>
      match m.tasks[task]? with
      | some (key, otherPort :: rest) =>
          (m.registry.lookup otherPort).map fun otherPubkey =>
            { m with
              tasks := m.tasks.set task (key, rest)
              issued := m.issued ++ [⟨key, otherPort, otherPubkey⟩] }
      | _ => none

/-- Nothing is left to do for the calls so far. -/
structure Terminal (m : Mesh) : Prop where
  calls : m.supplier.waiting = []
  startups : m.starting = []
  tasks : ∀ task ∈ m.tasks, task.2 = []

def Commanded (m : Mesh) (key : Bytes) (otherPort : Int) : Prop :=
  ∃ command ∈ m.issued, command.key = key ∧ command.otherPort = otherPort

/-- The wallet of one key was told to connect to the node of another one. -/
def Connected (m : Mesh) (key key' : Bytes) : Prop :=
  ∃ chain, (key', chain) ∈ m.supplier.chains ∧ Commanded m key chain.peerport

/-- Of every two keys that were requested, the wallet of one was told to connect to
the node of the other. -/
def Covered (m : Mesh) : Prop :=
  ∀ key ∈ m.requested, ∀ key' ∈ m.requested, key ≠ key' →
    Connected m key key' ∨ Connected m key' key

/-- The services of the key are set up, and their node is registered. -/
def Ready (m : Mesh) (key : Bytes) : Prop :=
  ∃ entry ∈ m.supplier.chains, entry.1 = key ∧ entry.2.peerport ∈ peerports m.registry

/-- The port chosen for the key is one that `make_chain` does not refuse. -/
def Admits (s : State) (key : Bytes) : Prop :=
  ∃ choice ∈ s.choosePort (hexlify key), 8432 + 5 * choice.2 ∉ s.assoc ∧ choice.2 < 9

instance (s : State) (key : Bytes) : Decidable (Admits s key) :=
  inferInstanceAs (Decidable (∃ choice ∈ s.choosePort (hexlify key),
    8432 + 5 * choice.2 ∉ s.assoc ∧ choice.2 < 9))

/-- After the first key another one is requested only when `make_chain` does not refuse
its port and the nodes of all keys requested before are registered. -/
def OneAtATime (m : Mesh) : Event → Prop
  | .supplier (.get key) => key ∈ m.requested ∨ m.requested = [] ∨
      Admits m.supplier key ∧ ∀ key' ∈ m.requested, Ready m key'
  | .supplier (.resume _ _) | .registers _ _ | .connects _ => True

instance (m : Mesh) (key : Bytes) : Decidable (Ready m key) :=
  inferInstanceAs (Decidable (∃ entry ∈ m.supplier.chains, entry.1 = key ∧
    entry.2.peerport ∈ peerports m.registry))

instance : DecidableRel OneAtATime
  | m, .supplier (.get key) =>
      inferInstanceAs (Decidable (key ∈ m.requested ∨ m.requested = [] ∨
        Admits m.supplier key ∧ ∀ key' ∈ m.requested, Ready m key'))
  | _, .supplier (.resume _ _) => inferInstanceAs (Decidable True)
  | _, .registers _ _ => inferInstanceAs (Decidable True)
  | _, .connects _ => inferInstanceAs (Decidable True)

/-! ### The calls of the supplier -/

/-- The services of the keys stay as they are. -/
structure Unserved (s t : State) : Prop where
  chains : t.chains = s.chains
  keysToOffset : t.keysToOffset = s.keysToOffset
  assoc : ∀ port ∈ s.assoc, port ∈ t.assoc

/-- The services of a key that has none are set up on a port that is not in use. -/
structure Serves (s t : State) (key : Bytes) (offset : Int) : Prop where
  new : s.keysToOffset.lookup key = none
  free : 8432 + 5 * offset ∉ s.assoc
  chains : t.chains = s.chains ++ [(key, services key offset)]
  keysToOffset : t.keysToOffset = s.keysToOffset.insert key offset
  assoc : t.assoc = s.assoc ++ [8432 + 5 * offset]

theorem unserved_returnPortPair (s : State) (key : Bytes) : Unserved s (s.returnPortPair key) := by
  unfold State.returnPortPair
  split
  · exact ⟨rfl, rfl, fun _ hport => hport⟩
  · exact ⟨rfl, rfl, fun _ hport => hport⟩

theorem setUp_serves (s : State) {key : Bytes} (hnew : s.keysToOffset.lookup key = none)
    (offset : Int) :
    ¬ (8432 + 5 * offset ∉ s.assoc ∧ offset < 9) ∧ Unserved s (s.setUp key offset) ∨
      (8432 + 5 * offset ∉ s.assoc ∧ offset < 9) ∧ Serves s (s.setUp key offset) key offset := by
  by_cases hport : 8432 + 5 * offset ∈ s.assoc
  · rw [setUp_of_mem hport]
    exact .inl ⟨fun hadmits => hadmits.1 hport, rfl, rfl, fun _ hport => hport⟩
  by_cases hlt : offset < 9
  · rw [setUp_of_lt hport hlt]
    exact .inr ⟨⟨hport, hlt⟩, hnew, hport, rfl, rfl, rfl⟩
  · rw [setUp_of_ge hport hlt]
    exact .inl ⟨fun hadmits => hlt hadmits.2, rfl, rfl, fun _ hport => List.mem_append_left _ hport⟩

/-- Whether a port is refused or not, it is saved and in use afterwards. -/
theorem chosen_setUp (s : State) (key : Bytes) (offset : Int) :
    (s.setUp key offset).keyToPort.lookup (hexlify key) = some offset ∧
      8432 + 5 * offset ∈ (s.setUp key offset).assoc := by
  by_cases hport : 8432 + 5 * offset ∈ s.assoc
  · rw [setUp_of_mem hport]
    exact ⟨AList.lookup_insert _, hport⟩
  by_cases hlt : offset < 9
  · rw [setUp_of_lt hport hlt]
    exact ⟨AList.lookup_insert _, List.mem_append_right _ (List.mem_singleton_self _)⟩
  · rw [setUp_of_ge hport hlt]
    exact ⟨AList.lookup_insert _, List.mem_append_right _ (List.mem_singleton_self _)⟩

/-- What a call of `get` does for a key that has services, for one whose port is
refused, and for one whose services it sets up. -/
theorem get_cases {s t : State} {key : Bytes} (h : PortAllocation.step s (.get key) = some t) :
    (∃ offset, s.keysToOffset.lookup key = some offset) ∧ Unserved s t ∨
    s.keysToOffset.lookup key = none ∧ ∃ port,
      (∀ saved ∈ s.keyToPort.lookup (hexlify key), saved = port) ∧
      t.keyToPort.lookup (hexlify key) = some port ∧ 8432 + 5 * port ∈ t.assoc ∧
      (¬ Admits s key ∧ Unserved s t ∨ Admits s key ∧ Serves s t key port) := by
  change s.get key = some t at h
  unfold State.get at h
  split at h
  · rename_i offset hoffset
    cases h
    exact .inl ⟨⟨offset, hoffset⟩, unserved_returnPortPair s key⟩
  · rename_i hnew
    obtain ⟨⟨current, port⟩, hchoose, hrest⟩ := Option.bind_eq_some_iff.mp h
    obtain rfl := Option.some_inj.mp hrest
    obtain ⟨hsaved, hassoc⟩ := chosen_setUp { s with currentOffset := current } key port
    have hadmits : Admits s key ↔ 8432 + 5 * port ∉ s.assoc ∧ port < 9 := by
      simp [Admits, hchoose]
    refine .inr ⟨hnew, port, choosePort_saved hchoose, hsaved, hassoc, ?_⟩
    rw [hadmits]
    rcases setUp_serves { s with currentOffset := current } hnew port with ⟨hnot, hsame⟩ |
      ⟨hfree, hserves⟩
    · exact .inl ⟨hnot, hsame.chains, hsame.keysToOffset, hsame.assoc⟩
    · exact .inr ⟨hfree, hnew, hserves.free, hserves.chains, hserves.keysToOffset, hserves.assoc⟩

theorem unserved_resume {s t : State} {call : Nat} {resumption : Resumption}
    (h : PortAllocation.step s (.resume call resumption) = some t) : Unserved s t := by
  obtain ⟨⟨key, port⟩, -, rfl⟩ := Option.map_eq_some_iff.mp h
  cases resumption with
  | notReady => exact ⟨rfl, rfl, fun _ hport => hport⟩
  | fails => exact ⟨rfl, rfl, fun _ hport => hport⟩
  | ready =>
      let waited : State :=
        { s with
          waiting := s.waiting.eraseIdx call
          subscribed := s.subscribed ++ [key] }
      obtain ⟨hchains, hoffset, hassoc⟩ := unserved_returnPortPair waited key
      exact ⟨hchains, hoffset, hassoc⟩

theorem step_serves {s t : State} {e : PortAllocation.Event}
    (h : PortAllocation.step s e = some t) :
    Unserved s t ∨ ∃ key offset, e = .get key ∧ Serves s t key offset := by
  cases e with
  | get key =>
      rcases get_cases h with ⟨-, hsame⟩ | ⟨-, port, -, -, -, ⟨-, hsame⟩ | ⟨-, hserves⟩⟩
      · exact .inl hsame
      · exact .inl hsame
      · exact .inr ⟨key, port, rfl, hserves⟩
  | resume call resumption => exact .inl (unserved_resume h)

theorem peerports_assign_of_mem {registry : List (Int × String)} {peerport : Int}
    (h : peerport ∈ peerports registry) (pubkey : String) :
    peerports (assign registry peerport pubkey) = peerports registry := by
  rw [assign, if_pos h, peerports, peerports, List.map_map]
  apply List.map_congr_left
  intro entry _
  simp only [Function.comp_apply]
  split
  · rename_i heq
    exact heq.symm
  · rfl

theorem mem_peerports_assign {registry : List (Int × String)} {peerport port : Int}
    {pubkey : String} :
    port ∈ peerports (assign registry peerport pubkey) ↔
      port ∈ peerports registry ∨ port = peerport := by
  by_cases hmem : peerport ∈ peerports registry
  · rw [peerports_assign_of_mem hmem]
    refine ⟨.inl, ?_⟩
    rintro (hport | rfl)
    · exact hport
    · exact hmem
  · rw [assign, if_neg hmem]
    simp [peerports]

theorem lookup_of_mem_peerports {registry : List (Int × String)} {port : Int}
    (h : port ∈ peerports registry) : ∃ pubkey, registry.lookup port = some pubkey := by
  induction registry with
  | nil => cases h
  | cons entry registry ih =>
      obtain ⟨port', pubkey⟩ := entry
      by_cases hport : port = port'
      · exact ⟨pubkey, by simp [hport]⟩
      · obtain ⟨pubkey', hlookup⟩ := ih ((List.mem_cons.mp h).resolve_left hport)
        exact ⟨pubkey', by simp [List.lookup_cons, beq_eq_false_iff_ne.mpr hport, hlookup]⟩

/-! ### The registry and the snapshots -/

def walletPorts (m : Mesh) : List Int := m.wallets.map fun w => w.chain.peerport

/-- Every wallet is registered or still starting, and a snapshot has only
wallets that were set up before, none of which has the wallet in its own. -/
structure Registered (m : Mesh) : Prop where
  owned : Owned m.supplier
  chains : m.supplier.chains = m.wallets.map fun w => (w.key, w.chain)
  keys : (m.wallets.map Wallet.key).Nodup
  ports : (walletPorts m).Nodup
  startups : m.starting.Nodup
  registered : ∀ port, port ∈ walletPorts m ↔ port ∈ peerports m.registry ∨ port ∈ m.starting
  apart : ∀ port ∈ m.starting, port ∉ peerports m.registry
  snapshots : ∀ w ∈ m.wallets, ∀ port ∈ w.snapshot, port ∈ peerports m.registry
  asymmetric : ∀ v ∈ m.wallets, ∀ w ∈ m.wallets, w.chain.peerport ∈ v.snapshot →
    v.chain.peerport ∉ w.snapshot

/-- Only requested keys have wallets, and a requested key has a port that is saved
and in use, also where it was refused. -/
structure Requested (m : Mesh) : Prop where
  keys : ∀ w ∈ m.wallets, w.key ∈ m.requested
  offsets : ∀ key offset, m.supplier.keysToOffset.lookup key = some offset → key ∈ m.requested
  chosen : ∀ key ∈ m.requested, ∃ port,
    m.supplier.keyToPort.lookup (hexlify key) = some port ∧ 8432 + 5 * port ∈ m.supplier.assoc

/-- What is left of a snapshot is with the task of the wallet. -/
structure Connecting (m : Mesh) : Prop where
  tasks : ∀ key rest, (key, rest) ∈ m.tasks →
    ∃ w ∈ m.wallets, w.key = key ∧ ∀ port ∈ rest, port ∈ w.snapshot
  issued : ∀ command ∈ m.issued,
    ∃ w ∈ m.wallets, w.key = command.key ∧ command.otherPort ∈ w.snapshot
  complete : ∀ w ∈ m.wallets, ∀ port ∈ w.snapshot,
    Commanded m w.key port ∨ ∃ rest, (w.key, rest) ∈ m.tasks ∧ port ∈ rest

theorem registered_start (keyToPort : Map String Int) : Registered (.start keyToPort) where
  owned := owned_start keyToPort
  chains := rfl
  keys := .nil
  ports := .nil
  startups := .nil
  registered := by simp [Mesh.start, walletPorts, peerports]
  apart := by simp [Mesh.start]
  snapshots := by simp [Mesh.start]
  asymmetric := by simp [Mesh.start]

theorem requested_start (keyToPort : Map String Int) : Requested (.start keyToPort) where
  keys := by simp [Mesh.start]
  offsets := by simp [Mesh.start, State.start]
  chosen := by simp [Mesh.start]

theorem connecting_start (keyToPort : Map String Int) : Connecting (.start keyToPort) where
  tasks := by simp [Mesh.start]
  issued := by simp [Mesh.start]
  complete := by simp [Mesh.start]

section Steps

variable {m n : Mesh}

/-- The two ways in which a step of the supplier goes. -/
theorem supplier_cases {event : PortAllocation.Event} (h : step m (.supplier event) = some n) :
    ∃ s, PortAllocation.step m.supplier event = some s ∧
      (Unserved m.supplier s ∧
          n = { m with supplier := s, requested := m.requested ++ requestedBy event } ∨
        ∃ key offset, event = .get key ∧ Serves m.supplier s key offset ∧
          n = { m with supplier := s, requested := m.requested ++ [key] }.setUp
            (key, services key offset)) := by
  obtain ⟨s, hs, rfl⟩ := Option.map_eq_some_iff.mp h
  refine ⟨s, hs, ?_⟩
  rcases step_serves hs with hsame | ⟨key, offset, rfl, hserves⟩
  · refine .inl ⟨hsame, ?_⟩
    rw [hsame.chains, List.drop_length]
    rfl
  · refine .inr ⟨key, offset, rfl, hserves, ?_⟩
    rw [hserves.chains, List.drop_left]
    rfl

theorem mem_chains_iff (h : Registered m) {key : Bytes} {chain : Chain} :
    (key, chain) ∈ m.supplier.chains ↔ ∃ w ∈ m.wallets, w.key = key ∧ w.chain = chain := by
  rw [h.chains, List.mem_map]
  simp only [Prod.mk.injEq]

theorem key_notMem_of_new (h : Registered m) {key : Bytes}
    (hnew : m.supplier.keysToOffset.lookup key = none) : key ∉ m.wallets.map Wallet.key := by
  intro hmem
  obtain ⟨w, hw, rfl⟩ := List.mem_map.mp hmem
  obtain ⟨offset, hlookup, -⟩ := h.owned.chains ((mem_chains_iff h).mpr ⟨w, hw, rfl, rfl⟩)
  rw [hnew] at hlookup
  cases hlookup

theorem port_notMem_of_free (h : Registered m) {key : Bytes} {offset : Int}
    (hfree : 8432 + 5 * offset ∉ m.supplier.assoc) :
    (services key offset).peerport ∉ walletPorts m := by
  intro hmem
  obtain ⟨w, hw, hport⟩ := List.mem_map.mp hmem
  obtain ⟨offset', hlookup, hservices⟩ :=
    h.owned.chains ((mem_chains_iff h).mpr ⟨w, hw, rfl, rfl⟩)
  have hsame : offset' = offset := by
    simp only [hservices, services] at hport
    omega
  exact hfree (hsame ▸ h.owned.registered hlookup)

theorem registered_setUp (h : Registered m) {s : State} {key : Bytes} {offset : Int}
    (hserves : Serves m.supplier s key offset) (hs : Owned s) (requested : List Bytes) :
    Registered ({ m with supplier := s, requested := requested }.setUp
      (key, services key offset)) := by
  have hkey := key_notMem_of_new h hserves.new
  have hport : (services key offset).peerport ∉ walletPorts m :=
    port_notMem_of_free h hserves.free
  have hfresh := fun hmem => hport ((h.registered _).mpr hmem)
  refine ⟨hs, ?_, ?_, ?_, ?_, ?_, ?_, ?_, ?_⟩
  · simp [Mesh.setUp, hserves.chains, h.chains]
  · simp only [Mesh.setUp, List.map_append, List.map_cons, List.map_nil]
    exact List.Nodup.append h.keys (List.nodup_singleton _) (by simpa using hkey)
  · simp only [Mesh.setUp, walletPorts, List.map_append, List.map_cons, List.map_nil]
    exact List.Nodup.append h.ports (List.nodup_singleton _) (by simpa [walletPorts] using hport)
  · simp only [Mesh.setUp]
    apply List.Nodup.append h.startups (List.nodup_singleton _)
    simpa using fun hmem => hfresh (.inr hmem)
  · intro port
    have hold := h.registered port
    simp only [walletPorts] at hold
    simp only [Mesh.setUp, walletPorts, List.map_append, List.map_cons, List.map_nil,
      List.mem_append, List.mem_singleton, hold, or_assoc]
  · have hlast := fun hmem => hfresh (.inl hmem)
    exact List.forall_mem_append.mpr ⟨h.apart, List.forall_mem_singleton.mpr hlast⟩
  · have hlast : ∀ port ∈ peerports m.registry, port ∈ peerports m.registry := fun _ hmem => hmem
    exact List.forall_mem_append.mpr ⟨h.snapshots, List.forall_mem_singleton.mpr hlast⟩
  · have hunknown : ∀ w ∈ m.wallets, (services key offset).peerport ∉ w.snapshot :=
      fun w hw hmem => hfresh (.inl (h.snapshots w hw _ hmem))
    intro v hv w hw hport
    rcases List.mem_append.mp hw with hold | hlast
    · rcases List.mem_append.mp hv with hold' | hlast'
      · exact h.asymmetric v hold' w hold hport
      · rw [List.mem_singleton.mp hlast']
        exact hunknown w hold
    · rw [List.mem_singleton.mp hlast] at hport
      rcases List.mem_append.mp hv with hold' | hlast'
      · exact absurd hport (hunknown v hold')
      · rw [List.mem_singleton.mp hlast'] at hport
        exact absurd (.inl hport) hfresh

theorem connecting_setUp (h : Connecting m) (s : State) (requested : List Bytes)
    (services : Bytes × Chain) :
    Connecting ({ m with supplier := s, requested := requested }.setUp services) where
  tasks := by
    intro key rest hmem
    rcases List.mem_append.mp hmem with hold | hlast
    · obtain ⟨w, hw, htask⟩ := h.tasks key rest hold
      exact ⟨w, List.mem_append_left _ hw, htask⟩
    · obtain ⟨rfl, rfl⟩ := Prod.mk.inj (List.mem_singleton.mp hlast)
      exact ⟨_, List.mem_append_right _ (List.mem_singleton_self _), rfl, fun _ hport => hport⟩
  issued := by
    intro command hmem
    obtain ⟨w, hw, hcommand⟩ := h.issued command hmem
    exact ⟨w, List.mem_append_left _ hw, hcommand⟩
  complete := by
    intro w hw port hport
    rcases List.mem_append.mp hw with hold | hlast
    · rcases h.complete w hold port hport with hcommanded | ⟨rest, htask, hrest⟩
      · exact .inl hcommanded
      · exact .inr ⟨rest, List.mem_append_left _ htask, hrest⟩
    · rw [List.mem_singleton] at hlast
      subst hlast
      exact .inr ⟨_, List.mem_append_right _ (List.mem_singleton_self _), hport⟩

theorem registered_registers (h : Registered m) {startup : Nat} {peerport : Int}
    (hstartup : m.starting[startup]? = some peerport) (pubkey : String) :
    Registered { m with
      starting := m.starting.eraseIdx startup
      registry := assign m.registry peerport pubkey } := by
  obtain ⟨hlt, rfl⟩ := List.getElem?_eq_some_iff.mp hstartup
  have herase : ∀ port, port ∈ m.starting.eraseIdx startup ↔
      port ∈ m.starting ∧ port ≠ m.starting[startup] := by
    intro port
    rw [← h.startups.erase_getElem startup hlt, h.startups.mem_erase_iff, and_comm]
  refine ⟨h.owned, h.chains, h.keys, h.ports, ?_, ?_, ?_, ?_, h.asymmetric⟩
  · exact h.startups.sublist (List.eraseIdx_sublist ..)
  · intro port
    rw [mem_peerports_assign, herase]
    have hold := h.registered port
    simp only [walletPorts] at hold ⊢
    rw [hold]
    have hstarting : port = m.starting[startup] → port ∈ m.starting := by
      rintro rfl
      exact List.getElem_mem hlt
    tauto
  · intro port hport
    obtain ⟨hstarting, hne⟩ := (herase port).mp hport
    rw [mem_peerports_assign]
    exact not_or.mpr ⟨h.apart port hstarting, hne⟩
  · intro w hw port hport
    exact mem_peerports_assign.mpr (.inl (h.snapshots w hw port hport))

theorem connecting_registers (h : Connecting m) (starting : List Int)
    (registry : List (Int × String)) :
    Connecting { m with starting := starting, registry := registry } :=
  ⟨h.tasks, h.issued, h.complete⟩

theorem connecting_connects (h : Connecting m) {task : Nat} {key : Bytes} {otherPort : Int}
    {rest : List Int} (htask : m.tasks[task]? = some (key, otherPort :: rest))
    (otherPubkey : String) :
    Connecting { m with
      tasks := m.tasks.set task (key, rest)
      issued := m.issued ++ [⟨key, otherPort, otherPubkey⟩] } := by
  obtain ⟨hlt, hget⟩ := List.getElem?_eq_some_iff.mp htask
  obtain ⟨w, hw, hkey, hports⟩ := h.tasks key _ (hget ▸ List.getElem_mem hlt)
  refine ⟨?_, ?_, ?_⟩
  · intro key' rest' hmem
    rcases List.mem_or_eq_of_mem_set hmem with hold | hnew
    · exact h.tasks key' rest' hold
    · obtain ⟨rfl, rfl⟩ := Prod.mk.inj hnew
      exact ⟨w, hw, hkey, fun port hport => hports port (List.mem_cons_of_mem _ hport)⟩
  · have hlast := hports otherPort List.mem_cons_self
    exact List.forall_mem_append.mpr
      ⟨h.issued, List.forall_mem_singleton.mpr ⟨w, hw, hkey, hlast⟩⟩
  · intro v hv port hport
    rcases h.complete v hv port hport with ⟨command, hmem, hcommand⟩ | ⟨left, hleft, hin⟩
    · exact .inl ⟨command, List.mem_append_left _ hmem, hcommand⟩
    · obtain ⟨i, hi, hieq⟩ := List.getElem_of_mem hleft
      by_cases hsame : i = task
      · subst hsame
        obtain ⟨rfl, rfl⟩ := Prod.mk.inj (hieq.symm.trans hget)
        rcases List.mem_cons.mp hin with rfl | hlater
        · exact .inl ⟨_, List.mem_append_right _ (List.mem_singleton_self _), rfl, rfl⟩
        · exact .inr ⟨rest, List.mem_set hlt _, hlater⟩
      · refine .inr ⟨left, ?_, hin⟩
        have hi' : i < (m.tasks.set task (key, rest)).length := by simpa using hi
        have hkept : (m.tasks.set task (key, rest))[i] = (v.key, left) := by
          rw [List.getElem_set_ne (Ne.symm hsame), hieq]
        exact hkept ▸ List.getElem_mem hi'

theorem requested_of_supplier (h : Requested m) {event : PortAllocation.Event} {s : State}
    (hs : PortAllocation.step m.supplier event = some s) :
    (∀ key offset, s.keysToOffset.lookup key = some offset →
      key ∈ m.requested ++ requestedBy event) ∧
    ∀ key ∈ m.requested ++ requestedBy event, ∃ port,
      s.keyToPort.lookup (hexlify key) = some port ∧ 8432 + 5 * port ∈ s.assoc := by
  have hkeyToPort := (step_grows hs).keyToPort
  have hold : (∀ port ∈ m.supplier.assoc, port ∈ s.assoc) → ∀ key ∈ m.requested, ∃ port,
      s.keyToPort.lookup (hexlify key) = some port ∧ 8432 + 5 * port ∈ s.assoc := by
    intro hassoc key hkey
    obtain ⟨port, hlookup, hport⟩ := h.chosen key hkey
    exact ⟨port, hkeyToPort hlookup, hassoc _ hport⟩
  cases event with
  | resume call resumption =>
      have hsame := unserved_resume hs
      rw [requestedBy, List.append_nil, hsame.keysToOffset]
      exact ⟨h.offsets, hold hsame.assoc⟩
  | get key =>
      rcases get_cases hs with ⟨⟨offset, hoffset⟩, hsame⟩ |
        ⟨-, port, -, hlookup, hport, ⟨-, hsame⟩ | ⟨-, hserves⟩⟩
      · rw [hsame.keysToOffset]
        refine ⟨fun key' offset' hkey => List.mem_append_left _ (h.offsets key' offset' hkey), ?_⟩
        have hrequested := h.offsets key offset hoffset
        exact List.forall_mem_append.mpr ⟨hold hsame.assoc,
          List.forall_mem_singleton.mpr (hold hsame.assoc key hrequested)⟩
      · rw [hsame.keysToOffset]
        refine ⟨fun key' offset' hkey => List.mem_append_left _ (h.offsets key' offset' hkey), ?_⟩
        exact List.forall_mem_append.mpr ⟨hold hsame.assoc,
          List.forall_mem_singleton.mpr ⟨port, hlookup, hport⟩⟩
      · constructor
        · intro key' offset' hkey
          rw [hserves.keysToOffset, lookup_insert_iff] at hkey
          rcases hkey with ⟨rfl, -⟩ | ⟨-, hkey⟩
          · exact List.mem_append_right _ (List.mem_singleton_self _)
          · exact List.mem_append_left _ (h.offsets key' offset' hkey)
        · have hassoc : ∀ port ∈ m.supplier.assoc, port ∈ s.assoc := by
            rw [hserves.assoc]
            exact fun port => List.mem_append_left _
          exact List.forall_mem_append.mpr ⟨hold hassoc,
            List.forall_mem_singleton.mpr ⟨port, hlookup, hport⟩⟩

/-- A key that was requested before is never set up. -/
theorem notMem_of_serves (h : Requested m) {s : State} {key : Bytes} {offset : Int}
    (hs : PortAllocation.step m.supplier (.get key) = some s)
    (hserves : Serves m.supplier s key offset) : key ∉ m.requested := by
  intro hmem
  obtain ⟨port, hlookup, hport⟩ := h.chosen key hmem
  rcases get_cases hs with ⟨⟨offset', hoffset⟩, -⟩ |
    ⟨-, port', hsaved, -, -, ⟨-, hsame⟩ | ⟨-, hserves'⟩⟩
  · cases hserves.new.symm.trans hoffset
  · have hchains := hserves.chains.symm.trans hsame.chains
    simp at hchains
  · obtain rfl := hsaved port hlookup
    exact hserves'.free hport

/-- What holds in every state. -/
structure Sound (m : Mesh) : Prop where
  registered : Registered m
  connecting : Connecting m
  requested : Requested m

theorem sound_start (keyToPort : Map String Int) : Sound (.start keyToPort) :=
  ⟨registered_start keyToPort, connecting_start keyToPort, requested_start keyToPort⟩

theorem sound_step (h : Sound m) {e : Event} (hstep : step m e = some n) : Sound n := by
  obtain ⟨hregistered, hconnecting, hrequested⟩ := h
  cases e with
  | supplier event =>
      obtain ⟨s, hs, ⟨hsame, rfl⟩ | ⟨key, offset, rfl, hserves, rfl⟩⟩ := supplier_cases hstep
      · obtain ⟨hoffsets, hchosen⟩ := requested_of_supplier hrequested hs
        refine ⟨{ hregistered with owned := ?_, chains := ?_ },
          ⟨hconnecting.tasks, hconnecting.issued, hconnecting.complete⟩, ?_, hoffsets, hchosen⟩
        · exact step_owned hregistered.owned hs
        · exact hsame.chains.trans hregistered.chains
        · exact fun w hw => List.mem_append_left _ (hrequested.keys w hw)
      · obtain ⟨hoffsets, hchosen⟩ := requested_of_supplier hrequested hs
        have howned := step_owned hregistered.owned hs
        refine ⟨registered_setUp hregistered hserves howned _, connecting_setUp hconnecting s _ _,
          ?_, hoffsets, hchosen⟩
        have hlast : key ∈ m.requested ++ [key] :=
          List.mem_append_right _ (List.mem_singleton_self _)
        exact List.forall_mem_append.mpr
          ⟨fun w hw => List.mem_append_left _ (hrequested.keys w hw),
            List.forall_mem_singleton.mpr hlast⟩
  | registers startup pubkey =>
      obtain ⟨peerport, hstartup, rfl⟩ := Option.map_eq_some_iff.mp hstep
      exact ⟨registered_registers hregistered hstartup pubkey, connecting_registers hconnecting _ _,
        hrequested.keys, hrequested.offsets, hrequested.chosen⟩
  | connects task =>
      simp only [step] at hstep
      split at hstep
      · rename_i key otherPort rest htask
        obtain ⟨otherPubkey, -, rfl⟩ := Option.map_eq_some_iff.mp hstep
        exact ⟨{ hregistered with }, connecting_connects hconnecting htask otherPubkey,
          hrequested.keys, hrequested.offsets, hrequested.chosen⟩
      · cases hstep

end Steps

/-- The public key that a task looks up has been registered, so that every task
comes to its end. -/
theorem connects_enabled {m : Mesh} (h : Registered m) (hconnecting : Connecting m) {task : Nat}
    {key : Bytes} {otherPort : Int} {rest : List Int}
    (htask : m.tasks[task]? = some (key, otherPort :: rest)) :
    ∃ n, step m (.connects task) = some n := by
  obtain ⟨w, hw, -, hports⟩ := hconnecting.tasks key _ (List.mem_of_getElem? htask)
  have hregistered := h.snapshots w hw otherPort (hports otherPort List.mem_cons_self)
  obtain ⟨pubkey, hpubkey⟩ := lookup_of_mem_peerports hregistered
  simp [step, htask, hpubkey]

/-! ### Which pairs are connected -/

/-- Of every two requested keys one has the node of the other in its snapshot. -/
def Promised (m : Mesh) : Prop :=
  ∀ key ∈ m.requested, ∀ key' ∈ m.requested, key ≠ key' →
    ∃ v ∈ m.wallets, ∃ w ∈ m.wallets, v.key = key ∧ w.key = key' ∧
      (v.chain.peerport ∈ w.snapshot ∨ w.chain.peerport ∈ v.snapshot)

section Pairs

variable {m n : Mesh}

/-- The promise is about the keys, not about the order of the calls. -/
theorem promised_congr (hwallets : n.wallets = m.wallets)
    (hrequested : ∀ key, key ∈ n.requested ↔ key ∈ m.requested) : Promised n ↔ Promised m := by
  simp only [Promised, hwallets, hrequested]

theorem ready_iff (h : Registered m) {key : Bytes} : Ready m key ↔
    ∃ w ∈ m.wallets, w.key = key ∧ w.chain.peerport ∈ peerports m.registry := by
  simp only [Ready, h.chains, List.mem_map]
  constructor
  · rintro ⟨-, ⟨w, hw, rfl⟩, hkey, hport⟩
    exact ⟨w, hw, hkey, hport⟩
  · rintro ⟨w, hw, hkey, hport⟩
    exact ⟨_, ⟨w, hw, rfl⟩, hkey, hport⟩

/-- Where a new key is refused, no pair with it is promised. -/
theorem promised_refused (h : Requested m) {key : Bytes} (hnew : key ∉ m.requested) (s : State) :
    Promised { m with supplier := s, requested := m.requested ++ [key] } ↔ m.requested = [] := by
  constructor
  · intro hall
    apply List.eq_nil_iff_forall_not_mem.mpr
    intro key' hkey'
    have hne : key ≠ key' := fun hsame => hnew (hsame ▸ hkey')
    obtain ⟨v, hv, -, -, rfl, -⟩ := hall key (List.mem_append_right _ (List.mem_singleton_self _))
      key' (List.mem_append_left _ hkey') hne
    exact hnew (h.keys v hv)
  · intro hnone key₁ hkey₁ key₂ hkey₂ hne
    simp only [hnone, List.nil_append, List.mem_singleton] at hkey₁ hkey₂
    exact absurd (hkey₁.trans hkey₂.symm) hne

/-- A new key keeps the promise if all keys before it are ready. -/
theorem promised_setUp (h : Sound m) (hpromised : Promised m) {s : State} {key : Bytes}
    {offset : Int} (hnew : key ∉ m.requested) (hserves : Serves m.supplier s key offset) :
    Promised ({ m with supplier := s, requested := m.requested ++ [key] }.setUp
      (key, services key offset)) ↔ ∀ key' ∈ m.requested, Ready m key' := by
  have hfresh : (services key offset).peerport ∉ peerports m.registry := fun hmem =>
    port_notMem_of_free h.registered hserves.free ((h.registered.registered _).mpr (.inl hmem))
  constructor
  · intro hall key' hkey'
    have hne : key' ≠ key := fun hsame => hnew (hsame ▸ hkey')
    obtain ⟨v, hv, w, hw, rfl, hwkey, hport⟩ := hall key' (List.mem_append_left _ hkey') key
      (List.mem_append_right _ (List.mem_singleton_self _)) hne
    have hv' : v ∈ m.wallets := by
      refine (List.mem_append.mp hv).resolve_right fun hlast => hne ?_
      rw [List.mem_singleton.mp hlast]
    have hw' : w = ⟨key, services key offset, peerports m.registry⟩ := by
      refine List.mem_singleton.mp ((List.mem_append.mp hw).resolve_left fun hold => hnew ?_)
      exact hwkey ▸ h.requested.keys w hold
    subst hw'
    refine (ready_iff h.registered).mpr ⟨v, hv', rfl, hport.resolve_right fun hmem => ?_⟩
    exact hfresh (h.registered.snapshots v hv' _ hmem)
  · intro hready
    have hpair : ∀ key' ∈ m.requested, ∃ v ∈ m.wallets, v.key = key' ∧
        v.chain.peerport ∈ peerports m.registry := fun key' hkey' =>
      (ready_iff h.registered).mp (hready key' hkey')
    intro key₁ hkey₁ key₂ hkey₂ hne
    rcases List.mem_append.mp hkey₁ with hold₁ | hlast₁ <;>
      rcases List.mem_append.mp hkey₂ with hold₂ | hlast₂
    · obtain ⟨v, hv, w, hw, hpromise⟩ := hpromised key₁ hold₁ key₂ hold₂ hne
      exact ⟨v, List.mem_append_left _ hv, w, List.mem_append_left _ hw, hpromise⟩
    · obtain ⟨v, hv, hkey, hport⟩ := hpair key₁ hold₁
      exact ⟨v, List.mem_append_left _ hv, _, List.mem_append_right _ (List.mem_singleton_self _),
        hkey, (List.mem_singleton.mp hlast₂).symm, .inl hport⟩
    · obtain ⟨w, hw, hkey, hport⟩ := hpair key₂ hold₂
      exact ⟨_, List.mem_append_right _ (List.mem_singleton_self _), w, List.mem_append_left _ hw,
        (List.mem_singleton.mp hlast₁).symm, hkey, .inr hport⟩
    · exact absurd ((List.mem_singleton.mp hlast₁).trans (List.mem_singleton.mp hlast₂).symm) hne

/-- Whether a step keeps the promise is decided before it. -/
theorem oneAtATime_iff (h : Sound m) (hpromised : Promised m) {e : Event}
    (hstep : step m e = some n) : OneAtATime m e ↔ Promised n := by
  cases e with
  | supplier event =>
      cases event with
      | resume call resumption =>
          refine iff_of_true trivial ?_
          obtain ⟨s, -, ⟨-, rfl⟩ | ⟨key, offset, heq, -⟩⟩ := supplier_cases hstep
          · refine Iff.mpr (@promised_congr m _ rfl fun key => ?_) hpromised
            simp [requestedBy]
          · cases heq
      | get key =>
          rw [OneAtATime]
          obtain ⟨s, hs, ⟨hsame, rfl⟩ | ⟨key', offset, heq, hserves, rfl⟩⟩ := supplier_cases hstep
          · by_cases hmem : key ∈ m.requested
            · refine iff_of_true (.inl hmem) ?_
              refine Iff.mpr (@promised_congr m _ rfl fun key' => ?_) hpromised
              simp only [requestedBy, List.mem_append, List.mem_singleton, or_iff_left_iff_imp]
              exact fun heq => heq ▸ hmem
            · have hrefused : ¬ Admits m.supplier key := by
                intro hadmits
                rcases get_cases hs with ⟨⟨offset, hoffset⟩, -⟩ |
                  ⟨-, port, -, -, -, ⟨hnot, -⟩ | ⟨-, hserves⟩⟩
                · exact hmem (h.requested.offsets key offset hoffset)
                · exact hnot hadmits
                · have hchains := hserves.chains.symm.trans hsame.chains
                  simp at hchains
              rw [requestedBy, promised_refused h.requested hmem]
              simp [hmem, hrefused]
          · cases heq
            have hmem := notMem_of_serves h.requested hs hserves
            have hadmits : Admits m.supplier key := by
              rcases get_cases hs with ⟨⟨offset', hoffset⟩, -⟩ |
                ⟨-, port, -, -, -, ⟨-, hsame⟩ | ⟨hadmits, -⟩⟩
              · cases hserves.new.symm.trans hoffset
              · have hchains := hserves.chains.symm.trans hsame.chains
                simp at hchains
              · exact hadmits
            rw [promised_setUp h hpromised hmem hserves]
            simp only [hmem, hadmits, true_and, false_or, or_iff_right_iff_imp]
            intro hnone
            simp [hnone]
  | registers startup pubkey =>
      obtain ⟨peerport, -, rfl⟩ := Option.map_eq_some_iff.mp hstep
      exact iff_of_true trivial hpromised
  | connects task =>
      simp only [step] at hstep
      split at hstep
      · obtain ⟨otherPubkey, -, rfl⟩ := Option.map_eq_some_iff.mp hstep
        exact iff_of_true trivial hpromised
      · cases hstep

theorem promised_of_step {e : Event} (h : Sound m) (hstep : step m e = some n)
    (hpromised : Promised n) : Promised m := by
  cases e with
  | supplier event =>
      obtain ⟨s, hs, ⟨-, rfl⟩ | ⟨key, offset, rfl, hserves, rfl⟩⟩ := supplier_cases hstep
      · intro key hkey key' hkey' hne
        exact hpromised key (List.mem_append_left _ hkey) key' (List.mem_append_left _ hkey') hne
      · have hnew := notMem_of_serves h.requested hs hserves
        intro key₁ hkey₁ key₂ hkey₂ hne
        obtain ⟨v, hv, w, hw, rfl, rfl, hport⟩ := hpromised key₁ (List.mem_append_left _ hkey₁)
          key₂ (List.mem_append_left _ hkey₂) hne
        have hold {u : Wallet} (hu : u ∈ m.wallets ++
            [⟨key, services key offset, peerports m.registry⟩]) (hkey : u.key ∈ m.requested) :
            u ∈ m.wallets := by
          refine (List.mem_append.mp hu).resolve_right fun hlast => hnew ?_
          rw [List.mem_singleton.mp hlast] at hkey
          exact hkey
        exact ⟨v, hold hv hkey₁, w, hold hw hkey₂, rfl, rfl, hport⟩
  | registers startup pubkey =>
      obtain ⟨peerport, -, rfl⟩ := Option.map_eq_some_iff.mp hstep
      exact hpromised
  | connects task =>
      simp only [step] at hstep
      split at hstep
      · obtain ⟨otherPubkey, -, rfl⟩ := Option.map_eq_some_iff.mp hstep
        exact hpromised
      · cases hstep

theorem mem_snapshot_of_commanded (h : Registered m) (hconnecting : Connecting m) {w : Wallet}
    (hw : w ∈ m.wallets) {port : Int} (hcommanded : Commanded m w.key port) :
    port ∈ w.snapshot := by
  obtain ⟨command, hmem, hkey, rfl⟩ := hcommanded
  obtain ⟨v, hv, hvkey, hport⟩ := hconnecting.issued command hmem
  obtain rfl := List.inj_on_of_nodup_map h.keys hv hw (hvkey.trans hkey)
  exact hport

theorem commanded_of_terminal (hconnecting : Connecting m) (hterminal : Terminal m) {w : Wallet}
    (hw : w ∈ m.wallets) {port : Int} (hport : port ∈ w.snapshot) : Commanded m w.key port := by
  rcases hconnecting.complete w hw port hport with hcommanded | ⟨rest, htask, hrest⟩
  · exact hcommanded
  · have hnil : rest = [] := hterminal.tasks _ htask
    rw [hnil] at hrest
    cases hrest

/-- A wallet connects only to nodes that are in its snapshot. -/
theorem snapshot_of_connected (h : Sound m) {key key' : Bytes} (hconnected : Connected m key key') :
    ∃ v ∈ m.wallets, ∃ w ∈ m.wallets, v.key = key ∧ w.key = key' ∧
      w.chain.peerport ∈ v.snapshot := by
  obtain ⟨chain, hchain, hcommanded⟩ := hconnected
  obtain ⟨w, hw, rfl, rfl⟩ := (mem_chains_iff h.registered).mp hchain
  obtain ⟨command, hmem, hkey, -⟩ := id hcommanded
  obtain ⟨v, hv, hvkey, -⟩ := h.connecting.issued command hmem
  obtain rfl := hvkey.trans hkey
  exact ⟨v, hv, w, hw, rfl, rfl, mem_snapshot_of_commanded h.registered h.connecting hv hcommanded⟩

/-- In a terminal state the connections made are those in the snapshots. -/
theorem connected_iff (h : Sound m) (hterminal : Terminal m) {key key' : Bytes} :
    Connected m key key' ↔ ∃ v ∈ m.wallets, ∃ w ∈ m.wallets, v.key = key ∧ w.key = key' ∧
      w.chain.peerport ∈ v.snapshot := by
  refine ⟨snapshot_of_connected h, ?_⟩
  rintro ⟨v, hv, w, hw, rfl, rfl, hport⟩
  exact ⟨w.chain, (mem_chains_iff h.registered).mpr ⟨w, hw, rfl, rfl⟩,
    commanded_of_terminal h.connecting hterminal hv hport⟩

theorem covered_iff_promised (h : Sound m) (hterminal : Terminal m) : Covered m ↔ Promised m := by
  refine forall₅_congr fun key _ key' _ _ => ?_
  rw [connected_iff h hterminal, connected_iff h hterminal]
  constructor
  · rintro (⟨v, hv, w, hw, hkey, hkey', hport⟩ | ⟨w, hw, v, hv, hkey', hkey, hport⟩)
    · exact ⟨v, hv, w, hw, hkey, hkey', .inr hport⟩
    · exact ⟨v, hv, w, hw, hkey, hkey', .inl hport⟩
  · rintro ⟨v, hv, w, hw, hkey, hkey', hport | hport⟩
    · exact .inr ⟨w, hw, v, hv, hkey', hkey, hport⟩
    · exact .inl ⟨v, hv, w, hw, hkey, hkey', hport⟩

end Pairs

/-- A run that has come to its end has connected every pair of requested wallets if
and only if each of them but the first was set up, and that when all earlier ones
were registered. -/
theorem covered_iff_oneAtATime (keyToPort : Map String Int)
    {m : Mesh} {es : List Event} (hrun : run step (.start keyToPort) es = some m)
    (hterminal : Terminal m) :
    Covered m ↔ runWithin step OneAtATime (.start keyToPort) es = some m := by
  have hsound : Sound m := (reachable_of_runWithin hrun).invariant (sound_start keyToPort)
    fun _ _ _ h _ hstep => sound_step h hstep
  rw [covered_iff_promised hsound hterminal]
  refine (runWithin_iff_last (fun _ _ _ h hstep => sound_step h hstep)
    (fun _ _ _ h hstep => promised_of_step h hstep)
    (fun _ _ _ h hpromised hstep => oneAtATime_iff h hpromised hstep) (sound_start keyToPort) ?_
    hrun).symm
  intro key hkey
  cases hkey

/-! ### Two wallets -/

def oneAfterTheOther : List Event :=
  [.supplier (.get [0x0a]), .registers 0 "02aa", .supplier (.resume 0 .ready),
    .supplier (.get [0x0b]), .registers 0 "02bb", .supplier (.resume 0 .ready), .connects 1]

def bothAtOnce : List Event :=
  [.supplier (.get [0x0a]), .supplier (.get [0x0b]), .registers 0 "02aa", .registers 0 "02bb",
    .supplier (.resume 0 .ready), .supplier (.resume 0 .ready)]

/-- The port that is saved for the second key is refused. -/
def refusedSecond : List Event :=
  [.supplier (.get [0x0a]), .registers 0 "02aa", .supplier (.resume 0 .ready),
    .supplier (.get [0x0b])]

example : (runWithin step OneAtATime (.start (AList.insert "0b" 9 ∅)) refusedSecond).isNone := by
  decide

/-- What a run leaves: whether it is terminal, and the requested keys and commands. -/
def Mesh.summary (m : Mesh) : Bool × List Bytes × List Command :=
  (m.supplier.waiting.isEmpty && m.starting.isEmpty && m.tasks.all fun task => task.2.isEmpty,
    m.requested, m.issued)

theorem terminal_of_summary {m : Mesh} (h : m.summary.1 = true) : Terminal m := by
  simp only [Mesh.summary, Bool.and_eq_true, List.isEmpty_iff, List.all_eq_true] at h
  exact ⟨h.1.1, h.1.2, h.2⟩

/-- The second wallet connects to the first, which was registered before. -/
theorem covered_oneAfterTheOther : ∃ m, run step (.start ∅) oneAfterTheOther = some m ∧ Terminal m ∧
      (Covered m ↔ runWithin step OneAtATime (.start ∅) oneAfterTheOther = some m) ∧
      m.issued = [⟨[0x0b], 9735, "02aa"⟩] := by
  have hsummary : (run step (.start ∅) oneAfterTheOther).map Mesh.summary =
      some (true, [[0x0a], [0x0b]], [⟨[0x0b], 9735, "02aa"⟩]) := by
    decide
  obtain ⟨m, hrun, hm⟩ := Option.map_eq_some_iff.mp hsummary
  have hterminal := terminal_of_summary (congrArg Prod.fst hm)
  exact ⟨m, hrun, hterminal, covered_iff_oneAtATime ∅ hrun hterminal, congrArg (·.2.2) hm⟩

/-- Two wallets that were both set up before either was registered are never
connected. -/
theorem not_covered_bothAtOnce : ∃ m, run step (.start ∅) bothAtOnce = some m ∧
    Terminal m ∧ ¬ Covered m := by
  have hsummary : (run step (.start ∅) bothAtOnce).map Mesh.summary =
      some (true, [[0x0a], [0x0b]], []) := by
    decide
  obtain ⟨m, hrun, hm⟩ := Option.map_eq_some_iff.mp hsummary
  refine ⟨m, hrun, terminal_of_summary (congrArg Prod.fst hm), fun hcovered => ?_⟩
  have hrequested : m.requested = [[0x0a], [0x0b]] := congrArg (·.2.1) hm
  have hissued : m.issued = [] := congrArg (·.2.2) hm
  rw [Covered, hrequested] at hcovered
  have hpair := hcovered [0x0a] (by decide) [0x0b] (by decide) (by decide)
  simp [Connected, Commanded, hissued] at hpair

end ElectrumLightning.PeerMesh
