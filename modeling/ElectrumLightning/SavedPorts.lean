import ElectrumLightning.DistinctPorts

/-!
The file `key_to_port` across restarts of the hub. Every run writes its
`KEY_TO_PORT` when it ends, but a simnet run starts with an empty one.
-/

namespace ElectrumLightning.SavedPorts

open ElectrumLightning.ByteStrings
open ElectrumLightning.DistinctPorts
open ElectrumLightning.HexText
open ElectrumLightning.LabelledRuns
open ElectrumLightning.OneToOneMaps
open ElectrumLightning.PortAllocation

inductive Mode where
  | simnet
  | testnet
deriving DecidableEq

/-- The map with which a run starts; the file may not exist. -/
def loadKeyToPort (mode : Mode) (file : Option (Map String Int)) : Map String Int :=
  match mode with
  | .simnet => ∅
  | .testnet => file.getD ∅

structure HubRun where
  mode : Mode
  events : List Event

/-- A run that has ended, with the map that it wrote. -/
structure Record where
  run : HubRun
  keyToPort : Map String Int

def HubRun.serve (hubRun : HubRun) (file : Option (Map String Int)) : Option Record :=
  (run step (State.start (loadKeyToPort hubRun.mode file)) hubRun.events).map fun s =>
    ⟨hubRun, s.keyToPort⟩

/-- The runs one after the other, each interrupted at its end. -/
def history : Option (Map String Int) → List HubRun → Option (List Record)
  | _, [] => some []
  | file, hubRun :: hubRuns => do
      let record ← hubRun.serve file
      let records ← history (some record.keyToPort) hubRuns
      some (record :: records)

def Record.requested (record : Record) (key : Bytes) : Prop := .get key ∈ record.run.events

def Record.assigns (record : Record) (key : Bytes) (offset : Int) : Prop :=
  record.requested key ∧ record.keyToPort.lookup (hexlify key) = some offset

/-- What a testnet run has assigned, a later one assigns to the same key and to
no other. -/
def Respects (earlier later : Record) : Prop :=
  earlier.run.mode = .testnet → later.run.mode = .testnet →
    ∀ key offset, earlier.assigns key offset →
      (later.requested key → later.assigns key offset) ∧
        ∀ key', later.assigns key' offset → key' = key

def Stable (records : List Record) : Prop := records.Pairwise Respects

/-! ### One run -/

theorem serve_extends {hubRun : HubRun} {file : Option (Map String Int)} {record : Record}
    (hfile : OneToOne (loadKeyToPort hubRun.mode file)) (h : hubRun.serve file = some record) :
    record.run = hubRun ∧ OneToOne record.keyToPort ∧
      Extends (loadKeyToPort hubRun.mode file) record.keyToPort := by
  obtain ⟨s, hrun, rfl⟩ := Option.map_eq_some_iff.mp h
  obtain ⟨hallocated, hgrows⟩ :=
    run_allocated (allocated_start hfile) (reachable_of_runWithin hrun)
  exact ⟨rfl, hallocated.oneToOne, hgrows.keyToPort⟩

theorem oneToOne_loadKeyToPort {mode : Mode} {file : Option (Map String Int)}
    (h : ∀ m ∈ file, OneToOne m) : OneToOne (loadKeyToPort mode file) := by
  cases mode with
  | simnet => exact oneToOne_empty
  | testnet =>
      cases file with
      | none => exact oneToOne_empty
      | some m => exact h m rfl

/-- A key that is requested has an offset from then on. -/
theorem lookup_of_get {s t : State} {key : Bytes} (hs : Allocated s)
    (h : step s (.get key) = some t) : ∃ offset, t.keyToPort.lookup (hexlify key) = some offset := by
  obtain ⟨ht, hgrows⟩ := step_allocated hs h
  rcases hlookup : s.keysToOffset.lookup key with _ | offset
  · obtain ⟨⟨current, port⟩, hchoose⟩ := exists_choosePort s (hexlify key)
    have hget : some ({ s with currentOffset := current }.setUp key port) = some t := by
      rw [← h]
      simp only [step, State.get, hlookup, hchoose]
      rfl
    obtain rfl := Option.some_inj.mp hget
    rw [(setUp_cases { s with currentOffset := current } key port).1]
    exact ⟨port, AList.lookup_insert _⟩
  · exact ⟨offset, hgrows.keyToPort (hs.recorded hlookup)⟩

theorem lookup_of_requested {s t : State} {events : List Event} {key : Bytes} (hs : Allocated s)
    (hrun : run step s events = some t) (h : .get key ∈ events) :
    ∃ offset, t.keyToPort.lookup (hexlify key) = some offset := by
  induction events generalizing s with
  | nil => cases h
  | cons e events ih =>
      obtain ⟨r, hstep, hrest⟩ := run_cons_iff.mp hrun
      obtain ⟨hr, -⟩ := step_allocated hs hstep
      rcases List.mem_cons.mp h with rfl | htail
      · obtain ⟨offset, hlookup⟩ := lookup_of_get hs hstep
        obtain ⟨-, hgrows⟩ := run_allocated hr (reachable_of_runWithin hrest)
        exact ⟨offset, hgrows.keyToPort hlookup⟩
      · exact ih hr hrest htail

/-- Every key that a run is asked for is assigned an offset. -/
theorem exists_assigns {hubRun : HubRun} {file : Option (Map String Int)} {record : Record}
    (hfile : ∀ m ∈ file, OneToOne m) (h : hubRun.serve file = some record) {key : Bytes}
    (hkey : record.requested key) : ∃ offset, record.assigns key offset := by
  obtain ⟨s, hrun, rfl⟩ := Option.map_eq_some_iff.mp h
  obtain ⟨offset, hlookup⟩ :=
    lookup_of_requested (allocated_start (oneToOne_loadKeyToPort hfile)) hrun hkey
  exact ⟨offset, hkey, hlookup⟩

/-! ### Runs in a row -/

theorem history_cons {file : Option (Map String Int)} {hubRun : HubRun} {hubRuns : List HubRun}
    {records : List Record} (h : history file (hubRun :: hubRuns) = some records) :
    ∃ record rest, hubRun.serve file = some record ∧
      history (some record.keyToPort) hubRuns = some rest ∧ records = record :: rest := by
  obtain ⟨record, hserve, h⟩ := Option.bind_eq_some_iff.mp h
  obtain ⟨rest, hrest, hrecords⟩ := Option.bind_eq_some_iff.mp h
  exact ⟨record, rest, hserve, hrest, (Option.some_inj.mp hrecords).symm⟩

theorem history_of_serve {file : Option (Map String Int)} {hubRun : HubRun}
    {hubRuns : List HubRun} {record : Record} {rest : List Record}
    (hserve : hubRun.serve file = some record)
    (hrest : history (some record.keyToPort) hubRuns = some rest) :
    history file (hubRun :: hubRuns) = some (record :: rest) := by
  refine Option.bind_eq_some_iff.mpr ⟨record, hserve, ?_⟩
  exact Option.bind_eq_some_iff.mpr ⟨rest, hrest, rfl⟩

theorem modes_of_history {file : Option (Map String Int)} {hubRuns : List HubRun}
    {records : List Record} (h : history file hubRuns = some records) :
    records.map Record.run = hubRuns := by
  induction hubRuns generalizing file records with
  | nil =>
      cases h
      rfl
  | cons hubRun hubRuns ih =>
      obtain ⟨record, rest, hserve, hrest, rfl⟩ := history_cons h
      obtain ⟨s, -, rfl⟩ := Option.map_eq_some_iff.mp hserve
      rw [List.map_cons, ih hrest]

/-- As long as no simnet run comes before a testnet run, the testnet runs keep
what the file held at first. -/
theorem extends_of_history {m : Map String Int} (hm : OneToOne m) {hubRuns : List HubRun}
    {records : List Record} (h : history (some m) hubRuns = some records)
    (hmodes : ¬ [Mode.simnet, .testnet].Sublist (hubRuns.map HubRun.mode)) :
    ∀ record ∈ records, record.run.mode = .testnet →
      OneToOne record.keyToPort ∧ Extends m record.keyToPort := by
  induction hubRuns generalizing m records with
  | nil =>
      cases h
      intro record hmem
      cases hmem
  | cons hubRun hubRuns ih =>
      obtain ⟨first, rest, hserve, hrest, rfl⟩ := history_cons h
      have hfile : ∀ m' ∈ some m, OneToOne m' := by
        rintro m' ⟨⟩
        exact hm
      obtain ⟨hrun, honeToOne, hextends⟩ := serve_extends (oneToOne_loadKeyToPort hfile) hserve
      rw [List.map_cons] at hmodes
      intro record hmem htestnet
      cases hmode : hubRun.mode with
      | simnet =>
          -- the rest has no testnet run
          exfalso
          rcases List.mem_cons.mp hmem with rfl | hlater
          · rw [hrun, hmode] at htestnet
            cases htestnet
          · apply hmodes
            rw [hmode, List.cons_sublist_cons, List.singleton_sublist, ← htestnet,
              ← modes_of_history hrest, List.map_map]
            exact List.mem_map_of_mem hlater
      | testnet =>
          rw [hmode] at hextends
          rcases List.mem_cons.mp hmem with rfl | hlater
          · exact ⟨honeToOne, hextends⟩
          · have hmodes' : ¬ [Mode.simnet, .testnet].Sublist (hubRuns.map HubRun.mode) :=
              fun hsub => hmodes (hsub.cons _)
            obtain ⟨hlast, hkept⟩ := ih honeToOne hrest hmodes' record hlater htestnet
            exact ⟨hlast, hextends.trans hkept⟩

theorem stable_of_history {file : Option (Map String Int)} (hfile : ∀ m ∈ file, OneToOne m)
    {hubRuns : List HubRun} {records : List Record} (h : history file hubRuns = some records)
    (hmodes : ¬ [Mode.testnet, .simnet, .testnet].Sublist (hubRuns.map HubRun.mode)) :
    Stable records := by
  induction hubRuns generalizing file records with
  | nil =>
      cases h
      exact .nil
  | cons hubRun hubRuns ih =>
      obtain ⟨first, rest, hserve, hrest, rfl⟩ := history_cons h
      obtain ⟨hrun, honeToOne, -⟩ := serve_extends (oneToOne_loadKeyToPort hfile) hserve
      rw [List.map_cons] at hmodes
      refine .cons ?_ (ih ?_ hrest fun hsub => hmodes (hsub.cons _))
      · rintro later hlater hearlier htestnet key offset ⟨-, hassigned⟩
        rw [hrun] at hearlier
        rw [hearlier, List.cons_sublist_cons] at hmodes
        obtain ⟨hlast, hkept⟩ := extends_of_history honeToOne hrest hmodes later hlater htestnet
        refine ⟨fun hrequested => ⟨hrequested, hkept hassigned⟩, ?_⟩
        rintro key' ⟨-, hother⟩
        exact hexlify_injective (hlast hother (hkept hassigned))
      · rintro m' ⟨⟩
        exact honeToOne

/-! ### A simnet run between two testnet runs -/

def fileAfter : Option (Map String Int) → List Record → Option (Map String Int)
  | file, [] => file
  | _, record :: records => fileAfter (some record.keyToPort) records

theorem history_append {file : Option (Map String Int)} {front back : List HubRun}
    {earlier later : List Record} (hfront : history file front = some earlier)
    (hback : history (fileAfter file earlier) back = some later) :
    history file (front ++ back) = some (earlier ++ later) := by
  induction front generalizing file earlier with
  | nil =>
      cases hfront
      exact hback
  | cons hubRun front ih =>
      obtain ⟨record, rest, hserve, hrest, rfl⟩ := history_cons hfront
      exact history_of_serve hserve (ih hrest hback)

def idle (mode : Mode) : HubRun := ⟨mode, []⟩

theorem exists_history_idle (modes : List Mode) (file : Option (Map String Int)) :
    ∃ records, history file (modes.map idle) = some records := by
  induction modes generalizing file with
  | nil => exact ⟨[], rfl⟩
  | cons mode modes ih =>
      obtain ⟨records, hrecords⟩ := ih (some (loadKeyToPort mode file))
      have hserve : (idle mode).serve file = some ⟨idle mode, loadKeyToPort mode file⟩ := rfl
      exact ⟨_, history_of_serve hserve hrecords⟩

theorem exists_serve_get (mode : Mode) (key : Bytes) (file : Option (Map String Int)) :
    ∃ record offset, HubRun.serve ⟨mode, [.get key]⟩ file = some record ∧
      record.run = ⟨mode, [.get key]⟩ ∧ record.keyToPort.lookup (hexlify key) = some offset := by
  let s := State.start (loadKeyToPort mode file)
  obtain ⟨⟨current, port⟩, hchoose⟩ := exists_choosePort s (hexlify key)
  let t := { s with currentOffset := current }.setUp key port
  have hstep : step s (.get key) = some t := by
    have hnew : s.keysToOffset.lookup key = none := rfl
    simp only [step, State.get, hnew, hchoose]
    rfl
  have hrun : run step s [.get key] = some t := run_cons_iff.mpr ⟨t, hstep, rfl⟩
  refine ⟨⟨⟨mode, [.get key]⟩, t.keyToPort⟩, port, ?_, rfl, ?_⟩
  · exact Option.map_eq_some_iff.mpr ⟨t, hrun, rfl⟩
  · rw [(setUp_cases { s with currentOffset := current } key port).1]
    exact AList.lookup_insert _

def firstKey : Bytes := [0x0a]

def otherKey : Bytes := [0x0b]

/-- Served by a simnet run of its own, or after another key, the first key has
another offset than before. -/
theorem exists_overwritten (file : Option (Map String Int)) (offset : Int) :
    ∃ key record₁ record₂ offset',
      history file [⟨.simnet, [.get key]⟩, ⟨.testnet, [.get firstKey]⟩] =
        some [record₁, record₂] ∧
      record₂.keyToPort.lookup (hexlify firstKey) = some offset' ∧ offset' ≠ offset := by
  by_cases hzero : offset = 0
  · have hserved : (history none [⟨.simnet, [.get otherKey]⟩, ⟨.testnet, [.get firstKey]⟩]).map
        (List.map fun record => record.keyToPort.lookup (hexlify firstKey)) =
        some [none, some 1] := by
      decide +kernel
    obtain ⟨records, hrecords, hlookups⟩ := Option.map_eq_some_iff.mp hserved
    obtain ⟨record₁, record₂, rfl⟩ :=
      List.length_eq_two.mp (by simpa using congrArg List.length hlookups)
    exact ⟨otherKey, record₁, record₂, 1, hrecords, (List.cons.inj (List.cons.inj hlookups).2).1,
      by omega⟩
  · have hserved : (history none [⟨.simnet, [.get firstKey]⟩, ⟨.testnet, [.get firstKey]⟩]).map
        (List.map fun record => record.keyToPort.lookup (hexlify firstKey)) =
        some [some 0, some 0] := by
      decide +kernel
    obtain ⟨records, hrecords, hlookups⟩ := Option.map_eq_some_iff.mp hserved
    obtain ⟨record₁, record₂, rfl⟩ :=
      List.length_eq_two.mp (by simpa using congrArg List.length hlookups)
    exact ⟨firstKey, record₁, record₂, 0, hrecords, (List.cons.inj (List.cons.inj hlookups).2).1,
      by omega⟩

theorem exists_adjacent {modes : List Mode} (h : [Mode.simnet, .testnet].Sublist modes) :
    ∃ front back, modes = front ++ .simnet :: .testnet :: back := by
  induction modes with
  | nil => cases h
  | cons mode modes ih =>
      rcases List.cons_sublist_cons'.mp h with hlater | ⟨hmode, htestnet⟩
      · obtain ⟨front, back, rfl⟩ := ih hlater
        exact ⟨mode :: front, back, rfl⟩
      · rcases modes with _ | ⟨next, modes⟩
        · cases htestnet
        · cases next with
          | testnet => exact ⟨[], modes, by rw [← hmode]; rfl⟩
          | simnet =>
              have hlater : [Mode.simnet, .testnet].Sublist (Mode.simnet :: modes) := by
                rw [List.singleton_sublist] at htestnet
                rw [List.cons_sublist_cons, List.singleton_sublist]
                exact (List.mem_cons.mp htestnet).resolve_left nofun
              obtain ⟨front, back, hsplit⟩ := ih hlater
              exact ⟨mode :: front, back, by rw [hsplit]; rfl⟩

theorem exists_between {modes : List Mode} (h : [Mode.testnet, .simnet, .testnet].Sublist modes) :
    ∃ front middle back,
      modes = front ++ .testnet :: (middle ++ .simnet :: .testnet :: back) := by
  obtain ⟨r₁, r₂, rfl, hmem, hsub⟩ := List.cons_sublist_iff.mp h
  obtain ⟨front, middle, rfl⟩ := List.append_of_mem hmem
  obtain ⟨middle', back, rfl⟩ := exists_adjacent hsub
  exact ⟨front, middle ++ middle', back, by simp⟩

theorem map_mode_idle (modes : List Mode) : (modes.map idle).map HubRun.mode = modes := by
  rw [List.map_map]
  exact List.map_id modes

/-- Between two testnet runs a simnet run can overwrite the file. -/
theorem exists_unstable {modes : List Mode}
    (h : [Mode.testnet, .simnet, .testnet].Sublist modes) (file : Option (Map String Int)) :
    ∃ hubRuns records, hubRuns.map HubRun.mode = modes ∧
      history file hubRuns = some records ∧ ¬ Stable records := by
  obtain ⟨front, middle, back, rfl⟩ := exists_between h
  obtain ⟨records₁, hfront⟩ := exists_history_idle front file
  obtain ⟨first, offset, hfirst, hfirstrun, hassigned⟩ :=
    exists_serve_get .testnet firstKey (fileAfter file records₁)
  obtain ⟨records₂, hmiddle⟩ := exists_history_idle middle (some first.keyToPort)
  obtain ⟨key, simnet, last, offset', hoverwritten, hreassigned, hne⟩ :=
    exists_overwritten (fileAfter (some first.keyToPort) records₂) offset
  obtain ⟨records₃, hback⟩ := exists_history_idle back (some last.keyToPort)
  have hlater := history_append hmiddle (history_append hoverwritten hback)
  refine ⟨_, _, ?_, history_append hfront (history_of_serve hfirst hlater), ?_⟩
  · simp only [List.map_append, List.map_cons, map_mode_idle, List.cons_append,
      List.nil_append]
  · intro hstable
    have hlastrun : last.run = ⟨.testnet, [.get firstKey]⟩ :=
      (List.cons.inj (List.cons.inj (modes_of_history hoverwritten)).2).1
    have hfirstkey : first.assigns firstKey offset := by
      refine ⟨?_, hassigned⟩
      rw [Record.requested, hfirstrun]
      exact List.mem_singleton_self _
    have hlastkey : last.requested firstKey := by
      rw [Record.requested, hlastrun]
      exact List.mem_singleton_self _
    have hrespects : Respects first last :=
      (List.pairwise_cons.mp (List.pairwise_append.mp hstable).2.1).1 last (by simp)
    have hsame := (hrespects (by rw [hfirstrun]) (by rw [hlastrun]) firstKey offset hfirstkey).1
      hlastkey
    exact hne (Option.some_inj.mp (hreassigned.symm.trans hsame.2))

/-- The assignments of the testnet runs are stable, whatever the runs serve, if
and only if no simnet run comes between two of them. -/
theorem stable_iff_no_simnet_between (file : Option (Map String Int))
    (hfile : ∀ m ∈ file, OneToOne m) (modes : List Mode) :
    (∀ hubRuns records, hubRuns.map HubRun.mode = modes → history file hubRuns = some records →
      Stable records) ↔ ¬ [Mode.testnet, .simnet, .testnet].Sublist modes := by
  constructor
  · intro hall hbetween
    obtain ⟨hubRuns, records, hmodes, hhistory, hunstable⟩ := exists_unstable hbetween file
    exact hunstable (hall hubRuns records hmodes hhistory)
  · rintro hmodes hubRuns records rfl hhistory
    exact stable_of_history hfile hhistory hmodes

/-- Two testnet runs with the offset of the first key saved before them. -/
theorem stable_testnet_twice :
    ∃ records, history (some savedPorts)
        [⟨.testnet, [.get otherKey, .get firstKey]⟩, ⟨.testnet, [.get firstKey]⟩] = some records ∧
      Stable records := by
  have hserved : (history (some savedPorts)
      [⟨.testnet, [.get otherKey, .get firstKey]⟩, ⟨.testnet, [.get firstKey]⟩]).isSome = true := by
    decide +kernel
  have hfile : ∀ m ∈ some savedPorts, OneToOne m := by
    rintro m ⟨⟩
    exact oneToOne_savedPorts
  obtain ⟨records, hrecords⟩ := Option.isSome_iff_exists.mp hserved
  exact ⟨records, hrecords,
    (stable_iff_no_simnet_between (some savedPorts) hfile [.testnet, .testnet]).mpr (by decide) _ _
      rfl hrecords⟩

/-- The first key is served by a testnet run, another one by a simnet run, and
then the first one by a testnet run again. -/
theorem not_stable_after_simnet :
    ¬ ∀ hubRuns records, history none hubRuns = some records → Stable records := by
  intro hall
  have hserved : (history none [⟨.testnet, [.get firstKey]⟩, ⟨.simnet, [.get otherKey]⟩,
      ⟨.testnet, [.get firstKey]⟩]).map
      (List.map fun record => record.keyToPort.lookup (hexlify firstKey)) =
      some [some 0, none, some 1] := by
    decide +kernel
  obtain ⟨records, hrecords, hlookups⟩ := Option.map_eq_some_iff.mp hserved
  obtain ⟨first, simnet, last, rfl⟩ :=
    List.length_eq_three.mp (by simpa using congrArg List.length hlookups)
  obtain ⟨hfirst, hrest⟩ := List.cons.inj hlookups
  have hlast := (List.cons.inj (List.cons.inj hrest).2).1
  obtain ⟨hfirstrun, hruns⟩ := List.cons.inj (modes_of_history hrecords)
  have hlastrun := (List.cons.inj (List.cons.inj hruns).2).1
  have hrespects : Respects first last :=
    (List.pairwise_cons.mp (hall _ _ hrecords)).1 last (by simp)
  have hfirstkey : first.assigns firstKey 0 := by
    refine ⟨?_, hfirst⟩
    rw [Record.requested, hfirstrun]
    exact List.mem_singleton_self _
  have hlastkey : last.requested firstKey := by
    rw [Record.requested, hlastrun]
    exact List.mem_singleton_self _
  have hsame := (hrespects (by rw [hfirstrun]) (by rw [hlastrun]) firstKey 0 hfirstkey).1 hlastkey
  cases hlast.symm.trans hsame.2

end ElectrumLightning.SavedPorts
