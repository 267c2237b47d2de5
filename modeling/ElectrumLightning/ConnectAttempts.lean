import ElectrumLightning.PeerMesh

/-!
How a wallet's node is connected to another one: the command is tried up to ten
times, until it succeeds. An attempt that does not end in time is given up. An
exception ends the task, with what is left of its snapshot.
-/

namespace ElectrumLightning.ConnectAttempts

open ElectrumLightning.ByteStrings
open ElectrumLightning.LabelledRuns
open ElectrumLightning.OneToOneMaps
open ElectrumLightning.PeerMesh (Command Mesh OneAtATime Wallet)

/-- How an attempt ends: `lncli` returns zero, or another number, or not in time,
or the task raises, as it does where what `lncli` writes is no UTF-8. -/
inductive Outcome where
  | connected
  | refused
  | timedOut
  | raises
deriving DecidableEq

/-- Another attempt follows, if there is one left. -/
def Outcome.goesOn : Outcome → Bool
  | .refused => true
  | .timedOut => true
  | _ => false

/-- Where a task `connectOtherNodes` is. A command that it tries is given by its
place among the commands issued. -/
inductive Progress where
  | idle
  | trying (command attemptNumber : Nat)
  | raised
deriving DecidableEq

def Progress.isTrying : Progress → Bool
  | .trying _ _ => true
  | _ => false

/-- The mesh, with the places of its tasks and how the attempts ended. -/
structure Network where
  mesh : Mesh
  progress : Nat → Progress
  attempts : List (Nat × Outcome)

def Network.start (keyToPort : Map String Int) : Network := ⟨.start keyToPort, fun _ => .idle, []⟩

inductive Event where
  | mesh (event : PeerMesh.Event)
  | ends (task : Nat) (outcome : Outcome)

def maxAttempts : Nat := 10

/-- What follows an attempt. -/
def next (command attemptNumber : Nat) (outcome : Outcome) : Progress :=
  match outcome with
  | .connected => .idle
  | .raises => .raised
  | _ =>
      if attemptNumber + 1 < maxAttempts then .trying command (attemptNumber + 1) else .idle

def step (n : Network) : Event → Option Network
  | .mesh (.connects task) =>
      if n.progress task = .idle then
        (PeerMesh.step n.mesh (.connects task)).map fun mesh =>
          { n with
            mesh := mesh
            progress := Function.update n.progress task (.trying n.mesh.issued.length 0) }
      else none
  | .mesh event => (PeerMesh.step n.mesh event).map fun mesh => { n with mesh := mesh }
  | .ends task outcome =>
      match n.progress task with
      | .trying command attemptNumber =>
          some { n with
            progress := Function.update n.progress task (next command attemptNumber outcome)
            attempts := n.attempts ++ [(command, outcome)] }
      | _ => none

/-- How the attempts of a command ended, in their order. -/
def outcomes (attempts : List (Nat × Outcome)) (command : Nat) : List Outcome :=
  attempts.filterMap fun attempt => if attempt.1 = command then some attempt.2 else none

/-- More attempts follow. -/
structure Open (os : List Outcome) : Prop where
  goesOn : ∀ o ∈ os, o.goesOn = true
  short : os.length < maxAttempts

/-- The last attempt was made: it ended the loop, or was the tenth. -/
def Ended (os : List Outcome) : Prop :=
  ∃ front last, os = front ++ [last] ∧ Open front ∧
    (last.goesOn = false ∨ front.length + 1 = maxAttempts)

/-- A command of a key to connect to a port was tried to the end. -/
def Tried (n : Network) (key : Bytes) (otherPort : Int) : Prop :=
  ∃ i command, n.mesh.issued[i]? = some command ∧ command.key = key ∧
    command.otherPort = otherPort ∧ Ended (outcomes n.attempts i)

/-- The wallet of one key tried to connect to the node of another one. -/
def TriedNode (n : Network) (key key' : Bytes) : Prop :=
  ∃ chain, (key', chain) ∈ n.mesh.supplier.chains ∧ Tried n key chain.peerport

/-- Of every two keys that were requested, the wallet of one tried to connect to the
node of the other. -/
def AllTried (n : Network) : Prop :=
  ∀ key ∈ n.mesh.requested, ∀ key' ∈ n.mesh.requested, key ≠ key' →
    TriedNode n key key' ∨ TriedNode n key' key

/-- Nothing is left to do for the calls so far: every task has come to the end of its
snapshot or was ended by an exception. -/
structure Settled (n : Network) : Prop where
  calls : n.mesh.supplier.waiting = []
  startups : n.mesh.starting = []
  tasks : ∀ task key rest, n.mesh.tasks[task]? = some (key, rest) →
    n.progress task = .raised ∨ n.progress task = .idle ∧ rest = []

/-- The task has come to the end of its snapshot. -/
def AtEnd (m : Mesh) (task : Nat) : Prop := ∀ entry ∈ m.tasks[task]?, entry.2 = []

instance (m : Mesh) (task : Nat) : Decidable (AtEnd m task) :=
  inferInstanceAs (Decidable (∀ entry ∈ m.tasks[task]?, entry.2 = []))

/-- The wallets are set up one at a time, and an exception ends a task only with the
last command of its snapshot. -/
def Guarded (n : Network) : Event → Prop
  | .mesh event => OneAtATime n.mesh event
  | .ends task outcome => outcome = .raises → AtEnd n.mesh task

instance : DecidableRel Guarded
  | n, .mesh event => inferInstanceAs (Decidable (OneAtATime n.mesh event))
  | n, .ends task outcome => inferInstanceAs (Decidable (outcome = .raises → AtEnd n.mesh task))

/-! ### What a step does -/

section Steps

variable {n n' : Network}

/-- Only `connects` issues a command, and only for a task that exists. -/
theorem issued_of_step {m m' : Mesh} {event : PeerMesh.Event}
    (h : PeerMesh.step m event = some m') :
    m.tasks.length ≤ m'.tasks.length ∧
      ((∀ task, event ≠ .connects task) ∧ m'.issued = m.issued ∨
        ∃ task command, event = .connects task ∧ task < m.tasks.length ∧
          m'.issued = m.issued ++ [command]) := by
  cases event with
  | supplier event =>
      have hne : ∀ task, PeerMesh.Event.supplier event ≠ .connects task := by
        rintro task ⟨⟩
      obtain ⟨s, -, ⟨-, rfl⟩ | ⟨key, offset, -, -, rfl⟩⟩ := PeerMesh.supplier_cases h
      · exact ⟨Nat.le_refl _, .inl ⟨hne, rfl⟩⟩
      · refine ⟨?_, .inl ⟨hne, rfl⟩⟩
        simp only [Mesh.setUp, List.length_append]
        omega
  | registers startup pubkey =>
      have hne : ∀ task, PeerMesh.Event.registers startup pubkey ≠ .connects task := by
        rintro task ⟨⟩
      obtain ⟨peerport, -, rfl⟩ := Option.map_eq_some_iff.mp h
      exact ⟨Nat.le_refl _, .inl ⟨hne, rfl⟩⟩
  | connects task =>
      simp only [PeerMesh.step] at h
      split at h
      · rename_i key otherPort rest htask
        obtain ⟨otherPubkey, -, rfl⟩ := Option.map_eq_some_iff.mp h
        obtain ⟨hlt, -⟩ := List.getElem?_eq_some_iff.mp htask
        refine ⟨?_, .inr ⟨task, _, rfl, hlt, rfl⟩⟩
        rw [List.length_set]
      · cases h

/-- The three ways in which a step goes. -/
theorem step_cases {e : Event} (h : step n e = some n') :
    (∃ event mesh, e = .mesh event ∧ (∀ task, event ≠ .connects task) ∧
      PeerMesh.step n.mesh event = some mesh ∧ mesh.issued = n.mesh.issued ∧
        n' = { n with mesh := mesh }) ∨
    (∃ task mesh command, e = .mesh (.connects task) ∧ n.progress task = .idle ∧
      PeerMesh.step n.mesh (.connects task) = some mesh ∧ task < n.mesh.tasks.length ∧
      mesh.issued = n.mesh.issued ++ [command] ∧
      n' = { n with
        mesh := mesh
        progress := Function.update n.progress task (.trying n.mesh.issued.length 0) }) ∨
    ∃ task command attemptNumber outcome, e = .ends task outcome ∧
      n.progress task = .trying command attemptNumber ∧
      n' = { n with
        progress := Function.update n.progress task (next command attemptNumber outcome)
        attempts := n.attempts ++ [(command, outcome)] } := by
  cases e with
  | mesh event =>
      by_cases hconnects : ∃ task, event = .connects task
      · obtain ⟨task, rfl⟩ := hconnects
        rw [step] at h
        split_ifs at h with hidle
        obtain ⟨mesh, hmesh, rfl⟩ := Option.map_eq_some_iff.mp h
        obtain ⟨-, ⟨hne, -⟩ | ⟨task', command, heq, hlt, hissued⟩⟩ := issued_of_step hmesh
        · exact absurd rfl (hne task)
        · cases heq
          exact .inr (.inl ⟨task, mesh, command, rfl, hidle, hmesh, hlt, hissued, rfl⟩)
      · have hother : (PeerMesh.step n.mesh event).map (fun mesh => { n with mesh := mesh }) =
            some n' := by
          rw [step] at h
          · exact h
          · exact fun task heq => hconnects ⟨task, heq⟩
        obtain ⟨mesh, hmesh, rfl⟩ := Option.map_eq_some_iff.mp hother
        obtain ⟨-, ⟨hne, hissued⟩ | ⟨task, command, heq, -⟩⟩ := issued_of_step hmesh
        · exact .inl ⟨event, mesh, rfl, hne, hmesh, hissued, rfl⟩
        · exact absurd ⟨task, heq⟩ hconnects
  | ends task outcome =>
      rw [step] at h
      split at h
      · rename_i command attemptNumber htrying
        cases h
        exact .inr (.inr ⟨task, command, attemptNumber, outcome, rfl, htrying, rfl⟩)
      · cases h

/-- On the mesh a step is a step of the mesh, or nothing. -/
theorem mesh_of_step {e : Event} (h : step n e = some n') :
    (∃ event, e = .mesh event ∧ PeerMesh.step n.mesh event = some n'.mesh) ∨
      (∃ task outcome, e = .ends task outcome) ∧ n'.mesh = n.mesh := by
  obtain ⟨event, mesh, rfl, -, hmesh, -, rfl⟩ | ⟨task, mesh, -, rfl, -, hmesh, -, -, rfl⟩ |
    ⟨task, -, -, outcome, rfl, -, rfl⟩ := step_cases h
  · exact .inl ⟨event, rfl, hmesh⟩
  · exact .inl ⟨.connects task, rfl, hmesh⟩
  · exact .inr ⟨⟨task, outcome, rfl⟩, rfl⟩

end Steps

/-! ### The attempts of a command -/

theorem outcomes_append (attempts : List (Nat × Outcome)) (command i : Nat) (outcome : Outcome) :
    outcomes (attempts ++ [(command, outcome)]) i =
      outcomes attempts i ++ if command = i then [outcome] else [] := by
  rw [outcomes, List.filterMap_append]
  congr 1
  split_ifs with heq
  · simp [heq]
  · simp [heq]

theorem outcomes_of_ne {attempts : List (Nat × Outcome)} {command i : Nat} (hne : command ≠ i)
    (outcome : Outcome) : outcomes (attempts ++ [(command, outcome)]) i = outcomes attempts i := by
  rw [outcomes_append, if_neg hne, List.append_nil]

theorem outcomes_self (attempts : List (Nat × Outcome)) (i : Nat) (outcome : Outcome) :
    outcomes (attempts ++ [(i, outcome)]) i = outcomes attempts i ++ [outcome] := by
  rw [outcomes_append, if_pos rfl]

theorem outcomes_eq_nil {attempts : List (Nat × Outcome)} {i : Nat}
    (h : ∀ attempt ∈ attempts, attempt.1 < i) : outcomes attempts i = [] := by
  apply List.filterMap_eq_nil_iff.mpr
  intro attempt hattempt
  exact if_neg (Nat.ne_of_lt (h attempt hattempt))

/-- After an attempt the next one follows, or the attempts are over. -/
theorem next_cases {os : List Outcome} (h : Open os) (command : Nat) (outcome : Outcome) :
    next command os.length outcome = .trying command (os.length + 1) ∧ Open (os ++ [outcome]) ∨
      (next command os.length outcome).isTrying = false ∧ Ended (os ++ [outcome]) := by
  have hgoesOn (houtcome : outcome.goesOn = true)
      (hnext : next command os.length outcome =
        if os.length + 1 < maxAttempts then .trying command (os.length + 1) else .idle) :
      next command os.length outcome = .trying command (os.length + 1) ∧ Open (os ++ [outcome]) ∨
        (next command os.length outcome).isTrying = false ∧ Ended (os ++ [outcome]) := by
    rw [hnext]
    split_ifs with hleft
    · refine .inl ⟨rfl, List.forall_mem_append.mpr ⟨h.goesOn, ?_⟩, ?_⟩
      · exact List.forall_mem_singleton.mpr houtcome
      · rw [List.length_append]
        exact hleft
    · refine .inr ⟨rfl, os, outcome, rfl, h, .inr ?_⟩
      have hshort := h.short
      omega
  cases outcome with
  | connected => exact .inr ⟨rfl, os, _, rfl, h, .inl rfl⟩
  | refused => exact hgoesOn rfl rfl
  | timedOut => exact hgoesOn rfl rfl
  | raises => exact .inr ⟨rfl, os, _, rfl, h, .inl rfl⟩

theorem eq_raises_of_next {command attemptNumber : Nat} {outcome : Outcome}
    (h : next command attemptNumber outcome = .raised) : outcome = .raises := by
  cases outcome with
  | raises => rfl
  | connected => cases h
  | refused =>
      unfold next at h
      split_ifs at h
  | timedOut =>
      unfold next at h
      split_ifs at h

/-- Every command that was issued is tried by one task, or was tried to the end. -/
structure Attempted (n : Network) : Prop where
  issued : ∀ attempt ∈ n.attempts, attempt.1 < n.mesh.issued.length
  tasks : ∀ task, n.progress task ≠ .idle → task < n.mesh.tasks.length
  trying : ∀ task i k, n.progress task = .trying i k →
    i < n.mesh.issued.length ∧ Open (outcomes n.attempts i) ∧ (outcomes n.attempts i).length = k
  apart : ∀ task task' i k k', n.progress task = .trying i k → n.progress task' = .trying i k' →
    task = task'
  all : ∀ i < n.mesh.issued.length,
    Ended (outcomes n.attempts i) ∨ ∃ task k, n.progress task = .trying i k

theorem Attempted.lt_of_trying {n : Network} (h : Attempted n) {task command attemptNumber : Nat}
    (htrying : n.progress task = .trying command attemptNumber) : task < n.mesh.tasks.length := by
  refine h.tasks task ?_
  rw [htrying]
  exact Progress.noConfusion

theorem Attempted.lt_of_raised {n : Network} (h : Attempted n) {task : Nat}
    (hraised : n.progress task = .raised) : task < n.mesh.tasks.length := by
  refine h.tasks task ?_
  rw [hraised]
  exact Progress.noConfusion

theorem attempted_start (keyToPort : Map String Int) : Attempted (.start keyToPort) where
  issued := nofun
  tasks := fun _ hbusy => absurd rfl hbusy
  trying := nofun
  apart := nofun
  all := nofun

section Preserved

variable {n : Network}

theorem attempted_mesh (h : Attempted n) {mesh : Mesh} (hissued : mesh.issued = n.mesh.issued)
    (htasks : n.mesh.tasks.length ≤ mesh.tasks.length) : Attempted { n with mesh := mesh } where
  issued := hissued ▸ h.issued
  tasks := fun task hbusy => Nat.lt_of_lt_of_le (h.tasks task hbusy) htasks
  trying := by
    dsimp only
    rw [hissued]
    exact h.trying
  apart := h.apart
  all := by
    dsimp only
    rw [hissued]
    exact h.all

/-- A new command is tried by the task that has issued it. -/
theorem attempted_connects (h : Attempted n) {task : Nat} (hidle : n.progress task = .idle)
    (htask : task < n.mesh.tasks.length) {mesh : Mesh} {command : Command}
    (hissued : mesh.issued = n.mesh.issued ++ [command])
    (htasks : n.mesh.tasks.length ≤ mesh.tasks.length) :
    Attempted { n with
      mesh := mesh
      progress := Function.update n.progress task (.trying n.mesh.issued.length 0) } := by
  have hlength : mesh.issued.length = n.mesh.issued.length + 1 := by
    rw [hissued, List.length_append, List.length_singleton]
  have hnone : outcomes n.attempts n.mesh.issued.length = [] := outcomes_eq_nil h.issued
  have hcases {t i k : Nat}
      (ht : Function.update n.progress task (.trying n.mesh.issued.length 0) t = .trying i k) :
      t = task ∧ i = n.mesh.issued.length ∧ k = 0 ∨ t ≠ task ∧ n.progress t = .trying i k := by
    rcases eq_or_ne t task with rfl | hne
    · rw [Function.update_self] at ht
      cases ht
      exact .inl ⟨rfl, rfl, rfl⟩
    · rw [Function.update_of_ne hne] at ht
      exact .inr ⟨hne, ht⟩
  refine ⟨?_, ?_, ?_, ?_, ?_⟩
  · intro attempt hattempt
    have hlt := h.issued attempt hattempt
    dsimp only
    omega
  · intro t hbusy
    dsimp only at hbusy
    rcases eq_or_ne t task with rfl | hne
    · exact Nat.lt_of_lt_of_le htask htasks
    · rw [Function.update_of_ne hne] at hbusy
      exact Nat.lt_of_lt_of_le (h.tasks t hbusy) htasks
  · intro t i k ht
    dsimp only
    rcases hcases ht with ⟨-, rfl, rfl⟩ | ⟨-, ht⟩
    · rw [hnone, hlength]
      exact ⟨Nat.lt_succ_self _, ⟨nofun, Nat.succ_pos 9⟩, rfl⟩
    · obtain ⟨hlt, hopen, hk⟩ := h.trying t i k ht
      exact ⟨by omega, hopen, hk⟩
  · intro t t' i k k' ht ht'
    rcases hcases ht with ⟨rfl, rfl, -⟩ | ⟨-, hold⟩
    · rcases hcases ht' with ⟨rfl, -⟩ | ⟨-, hold'⟩
      · rfl
      · exact absurd (h.trying t' _ k' hold').1 (Nat.lt_irrefl _)
    · rcases hcases ht' with ⟨-, rfl, -⟩ | ⟨-, hold'⟩
      · exact absurd (h.trying t _ k hold).1 (Nat.lt_irrefl _)
      · exact h.apart t t' i k k' hold hold'
  · intro i hi
    dsimp only at hi ⊢
    rcases Nat.lt_succ_iff_lt_or_eq.mp (hlength ▸ hi) with hold | rfl
    · rcases h.all i hold with hended | ⟨t, k, ht⟩
      · exact .inl hended
      · have hne : t ≠ task := by
          rintro rfl
          rw [hidle] at ht
          cases ht
        exact .inr ⟨t, k, (Function.update_of_ne hne _ _).trans ht⟩
    · exact .inr ⟨task, 0, Function.update_self _ _ _⟩

theorem attempted_ends (h : Attempted n) {task command attemptNumber : Nat}
    (htrying : n.progress task = .trying command attemptNumber) (outcome : Outcome) :
    Attempted { n with
      progress := Function.update n.progress task (next command attemptNumber outcome)
      attempts := n.attempts ++ [(command, outcome)] } := by
  obtain ⟨hlt, hopen, rfl⟩ := h.trying task command attemptNumber htrying
  have hother {t i k : Nat} (hne : t ≠ task) (ht : n.progress t = .trying i k) : command ≠ i := by
    rintro rfl
    exact hne (h.apart t task command k _ ht htrying)
  have hcases {t i k : Nat} (ht : Function.update n.progress task
      (next command (outcomes n.attempts command).length outcome) t = .trying i k) :
      t = task ∧ i = command ∧ Open (outcomes n.attempts command ++ [outcome]) ∧
          k = (outcomes n.attempts command).length + 1 ∨
        t ≠ task ∧ n.progress t = .trying i k := by
    rcases eq_or_ne t task with rfl | hne
    · rw [Function.update_self] at ht
      rcases next_cases hopen command outcome with ⟨hnext, hopen'⟩ | ⟨hnext, -⟩
      · cases hnext.symm.trans ht
        exact .inl ⟨rfl, rfl, hopen', rfl⟩
      · rw [ht] at hnext
        cases hnext
    · rw [Function.update_of_ne hne] at ht
      exact .inr ⟨hne, ht⟩
  refine ⟨?_, ?_, ?_, ?_, ?_⟩
  · exact List.forall_mem_append.mpr ⟨h.issued, List.forall_mem_singleton.mpr hlt⟩
  · intro t hbusy
    dsimp only at hbusy
    rcases eq_or_ne t task with rfl | hne
    · exact h.lt_of_trying htrying
    · rw [Function.update_of_ne hne] at hbusy
      exact h.tasks t hbusy
  · intro t i k ht
    dsimp only
    rcases hcases ht with ⟨-, rfl, hopen', rfl⟩ | ⟨hne, ht⟩
    · rw [outcomes_self]
      exact ⟨hlt, hopen', List.length_append⟩
    · rw [outcomes_of_ne (hother hne ht)]
      exact h.trying t i k ht
  · intro t t' i k k' ht ht'
    rcases hcases ht with ⟨rfl, rfl, -⟩ | ⟨hne, hold⟩
    · rcases hcases ht' with ⟨rfl, -⟩ | ⟨hne', hold'⟩
      · rfl
      · exact absurd rfl (hother hne' hold')
    · rcases hcases ht' with ⟨-, rfl, -⟩ | ⟨-, hold'⟩
      · exact absurd rfl (hother hne hold)
      · exact h.apart t t' i k k' hold hold'
  · intro i hi
    dsimp only
    rcases eq_or_ne command i with rfl | hne
    · rw [outcomes_self]
      rcases next_cases hopen command outcome with ⟨hnext, -⟩ | ⟨-, hended⟩
      · exact .inr ⟨task, _, (Function.update_self _ _ _).trans hnext⟩
      · exact .inl hended
    · rw [outcomes_of_ne hne]
      rcases h.all i hi with hended | ⟨t, k, ht⟩
      · exact .inl hended
      · have htask : t ≠ task := by
          rintro rfl
          rw [htrying] at ht
          cases ht
          exact hne rfl
        exact .inr ⟨t, k, (Function.update_of_ne htask _ _).trans ht⟩

end Preserved

theorem attempted_step {n n' : Network} (h : Attempted n) {e : Event}
    (hstep : step n e = some n') : Attempted n' := by
  obtain ⟨event, mesh, -, -, hmesh, hissued, rfl⟩ | ⟨task, mesh, command, -, hidle, hmesh, htask,
    hissued, rfl⟩ | ⟨task, command, attemptNumber, outcome, -, htrying, rfl⟩ := step_cases hstep
  · exact attempted_mesh h hissued (issued_of_step hmesh).1
  · exact attempted_connects h hidle htask hissued (issued_of_step hmesh).1
  · exact attempted_ends h htrying outcome

/-! ### What is left of the snapshots -/

/-- Every wallet has one task, and what is left of its snapshot was not commanded. -/
structure Remaining (m : Mesh) : Prop where
  registry : (PeerMesh.peerports m.registry).Nodup
  keys : m.tasks.map Prod.fst = m.wallets.map Wallet.key
  left : ∀ key rest, (key, rest) ∈ m.tasks →
    rest.Nodup ∧ ∀ port ∈ rest, ¬ PeerMesh.Commanded m key port

theorem remaining_start (keyToPort : Map String Int) : Remaining (.start keyToPort) where
  registry := .nil
  keys := rfl
  left := nofun

theorem nodup_assign {registry : List (Int × String)} (h : (PeerMesh.peerports registry).Nodup)
    (peerport : Int) (pubkey : String) :
    (PeerMesh.peerports (PeerMesh.assign registry peerport pubkey)).Nodup := by
  by_cases hmem : peerport ∈ PeerMesh.peerports registry
  · have hsame : PeerMesh.peerports (PeerMesh.assign registry peerport pubkey) =
        PeerMesh.peerports registry := PeerMesh.peerports_assign_of_mem hmem pubkey
    rw [hsame]
    exact h
  · rw [PeerMesh.assign, if_neg hmem, PeerMesh.peerports, List.map_append]
    exact h.append (List.nodup_singleton _) (by simpa using hmem)

section Remains

variable {m m' : Mesh} {key : Bytes}

/-- The wallet of a new key has been told nothing yet. -/
theorem remaining_setUp (hm : PeerMesh.Sound m) (h : Remaining m) {s : PortAllocation.State}
    {offset : Int} (hserves : PeerMesh.Serves m.supplier s key offset) (requested : List Bytes) :
    Remaining ({ m with supplier := s, requested := requested }.setUp
      (key, DistinctPorts.services key offset)) := by
  refine ⟨h.registry, ?_, ?_⟩
  · simp [Mesh.setUp, h.keys]
  · intro key' rest hmem
    rcases List.mem_append.mp hmem with hold | hlast
    · exact h.left key' rest hold
    · obtain ⟨rfl, rfl⟩ := Prod.mk.inj (List.mem_singleton.mp hlast)
      refine ⟨h.registry, fun port _ hcommanded => ?_⟩
      obtain ⟨command, hcommand, hkey, -⟩ := hcommanded
      obtain ⟨w, hw, hwkey, -⟩ := hm.connecting.issued command hcommand
      apply PeerMesh.key_notMem_of_new hm.registered hserves.new
      exact List.mem_map.mpr ⟨w, hw, hwkey.trans hkey⟩

/-- What one more command tells whom. -/
theorem commanded_append {key' : Bytes} {port : Int} {command : Command}
    {tasks : List (Bytes × List Int)}
    (h : PeerMesh.Commanded { m with tasks := tasks, issued := m.issued ++ [command] } key' port) :
    PeerMesh.Commanded m key' port ∨ key' = command.key ∧ port = command.otherPort := by
  obtain ⟨command', hmem, rfl, rfl⟩ := h
  rcases List.mem_append.mp hmem with hold | hlast
  · exact .inl ⟨command', hold, rfl, rfl⟩
  · rw [List.mem_singleton.mp hlast]
    exact .inr ⟨rfl, rfl⟩

/-- A task goes over to the rest of its snapshot, in which the port is not again. -/
theorem remaining_connects (hm : PeerMesh.Sound m) (h : Remaining m) {task : Nat}
    {otherPort : Int} {rest : List Int} (htask : m.tasks[task]? = some (key, otherPort :: rest))
    (otherPubkey : String) :
    Remaining { m with
      tasks := m.tasks.set task (key, rest)
      issued := m.issued ++ [⟨key, otherPort, otherPubkey⟩] } := by
  obtain ⟨hlt, hget⟩ := List.getElem?_eq_some_iff.mp htask
  obtain ⟨hnodup, hleft⟩ := h.left key _ (hget ▸ List.getElem_mem hlt)
  obtain ⟨hnew, hrest⟩ := List.nodup_cons.mp hnodup
  have hkeys : (m.tasks.map Prod.fst).Nodup := h.keys ▸ hm.registered.keys
  refine ⟨h.registry, ?_, ?_⟩
  · rw [List.map_set, ← h.keys]
    apply List.ext_getElem?
    intro i
    rcases eq_or_ne task i with rfl | hne
    · rw [List.getElem?_map, htask, List.getElem?_set_self (by simpa using hlt)]
      rfl
    · rw [List.getElem?_set_ne hne]
  · intro key' rest' hmem
    obtain ⟨i, hi, hieq⟩ := List.getElem_of_mem hmem
    by_cases hsame : i = task
    · subst hsame
      rw [List.getElem_set_self] at hieq
      obtain ⟨rfl, rfl⟩ := Prod.mk.inj hieq
      refine ⟨hrest, fun port hport hdone => ?_⟩
      rcases commanded_append hdone with hold | ⟨-, rfl⟩
      · exact hleft port (List.mem_cons_of_mem _ hport) hold
      · exact hnew hport
    · rw [List.getElem_set_ne (Ne.symm hsame)] at hieq
      have hi' : i < m.tasks.length := by simpa using hi
      obtain ⟨hnodup', hleft'⟩ := h.left key' rest' (hieq ▸ List.getElem_mem hi')
      refine ⟨hnodup', fun port hport hdone => ?_⟩
      rcases commanded_append hdone with hold | ⟨rfl, -⟩
      · exact hleft' port hport hold
      · apply hsame
        apply (List.getElem?_inj (by simpa using hi') hkeys).mp
        rw [List.getElem?_map, List.getElem?_map, htask, List.getElem?_eq_getElem hi', hieq]
        rfl

theorem remaining_step (hm : PeerMesh.Sound m) (h : Remaining m) {event : PeerMesh.Event}
    (hstep : PeerMesh.step m event = some m') : Remaining m' := by
  cases event with
  | supplier event =>
      obtain ⟨s, -, ⟨-, rfl⟩ | ⟨key, offset, -, hserves, rfl⟩⟩ := PeerMesh.supplier_cases hstep
      · exact ⟨h.registry, h.keys, h.left⟩
      · exact remaining_setUp hm h hserves _
  | registers startup pubkey =>
      obtain ⟨peerport, -, rfl⟩ := Option.map_eq_some_iff.mp hstep
      exact ⟨nodup_assign h.registry peerport pubkey, h.keys, h.left⟩
  | connects task =>
      simp only [PeerMesh.step] at hstep
      split at hstep
      · rename_i key otherPort rest htask
        obtain ⟨otherPubkey, -, rfl⟩ := Option.map_eq_some_iff.mp hstep
        exact remaining_connects hm h htask otherPubkey
      · cases hstep

end Remains

/-! ### Runs -/

/-- What holds in every state. -/
structure Sound (n : Network) : Prop where
  mesh : PeerMesh.Sound n.mesh
  remaining : Remaining n.mesh
  attempted : Attempted n

theorem sound_start (keyToPort : Map String Int) : Sound (.start keyToPort) :=
  ⟨PeerMesh.sound_start _, remaining_start _, attempted_start _⟩

theorem sound_step {n n' : Network} (h : Sound n) {e : Event} (hstep : step n e = some n') :
    Sound n' := by
  have hattempted := attempted_step h.attempted hstep
  obtain ⟨event, -, hmesh⟩ | ⟨-, hmesh⟩ := mesh_of_step hstep
  · exact ⟨PeerMesh.sound_step h.mesh hmesh, remaining_step h.mesh h.remaining hmesh, hattempted⟩
  · exact ⟨hmesh ▸ h.mesh, hmesh ▸ h.remaining, hattempted⟩

section Settled

variable {n n' : Network}

theorem ended_of_settled (h : Attempted n) (hsettled : Settled n) {i : Nat}
    (hi : i < n.mesh.issued.length) : Ended (outcomes n.attempts i) := by
  rcases h.all i hi with hended | ⟨task, k, htrying⟩
  · exact hended
  · have hlt := h.lt_of_trying htrying
    rcases hentry : n.mesh.tasks[task] with ⟨key, rest⟩
    have hget : n.mesh.tasks[task]? = some (key, rest) := by
      rw [List.getElem?_eq_getElem hlt, hentry]
    rcases hsettled.tasks task key rest hget with hraised | ⟨hidle, -⟩
    · cases htrying.symm.trans hraised
    · cases htrying.symm.trans hidle

/-- Once nothing is left to do, what was commanded was tried to the end. -/
theorem tried_iff_commanded (h : Attempted n) (hsettled : Settled n) {key : Bytes}
    {otherPort : Int} : Tried n key otherPort ↔ PeerMesh.Commanded n.mesh key otherPort := by
  constructor
  · rintro ⟨i, command, hissued, hkey, hport, -⟩
    exact ⟨command, List.mem_of_getElem? hissued, hkey, hport⟩
  · rintro ⟨command, hmem, hkey, hport⟩
    obtain ⟨i, hi, rfl⟩ := List.getElem_of_mem hmem
    exact ⟨i, _, List.getElem?_eq_getElem hi, hkey, hport, ended_of_settled h hsettled hi⟩

/-- No task was ended by an exception in front of the end of its snapshot. -/
def Finished (n : Network) : Prop := ∀ task, n.progress task = .raised → AtEnd n.mesh task

/-- All that the requested keys need was promised, and the promises were kept. -/
structure Kept (n : Network) : Prop where
  promised : PeerMesh.Promised n.mesh
  finished : Finished n

theorem commanded_of_finished (h : Sound n) (hsettled : Settled n) (hfinished : Finished n)
    {w : Wallet} (hw : w ∈ n.mesh.wallets) {port : Int} (hport : port ∈ w.snapshot) :
    PeerMesh.Commanded n.mesh w.key port := by
  rcases h.mesh.connecting.complete w hw port hport with hcommanded | ⟨rest, hmem, hrest⟩
  · exact hcommanded
  · obtain ⟨task, hlt, hget⟩ := List.getElem_of_mem hmem
    have hentry : n.mesh.tasks[task]? = some (w.key, rest) := by
      rw [List.getElem?_eq_getElem hlt, hget]
    have hnil : rest = [] := by
      rcases hsettled.tasks task w.key rest hentry with hraised | ⟨-, hnil⟩
      · exact hfinished task hraised _ hentry
      · exact hnil
    rw [hnil] at hrest
    cases hrest

theorem triedNode_iff (h : Sound n) (hsettled : Settled n) {key key' : Bytes} :
    TriedNode n key key' ↔ PeerMesh.Connected n.mesh key key' := by
  simp only [TriedNode, PeerMesh.Connected, tried_iff_commanded h.attempted hsettled]

/-- What a task has left when an exception ends it is tried by nobody. -/
theorem finished_of_allTried (h : Sound n) (hsettled : Settled n) (hall : AllTried n) :
    Finished n := by
  rintro task - ⟨key, rest⟩ hentry
  apply List.eq_nil_iff_forall_not_mem.mpr
  intro port hport
  have hmem := List.mem_of_getElem? hentry
  obtain ⟨v, hv, rfl, hsnapshot⟩ := h.mesh.connecting.tasks key rest hmem
  have hregistered := h.mesh.registered.snapshots v hv port (hsnapshot port hport)
  obtain ⟨w, hw, rfl⟩ := List.mem_map.mp
    ((h.mesh.registered.registered port).mpr (.inl hregistered))
  have hasymmetric := h.mesh.registered.asymmetric v hv w hw (hsnapshot _ hport)
  have hne : v.key ≠ w.key := by
    intro hsame
    obtain rfl := List.inj_on_of_nodup_map h.mesh.registered.keys hv hw hsame
    exact hasymmetric (hsnapshot _ hport)
  have hpair := hall v.key (h.mesh.requested.keys v hv) w.key (h.mesh.requested.keys w hw) hne
  rw [triedNode_iff h hsettled, triedNode_iff h hsettled] at hpair
  have hchain {u : Wallet} (hu : u ∈ n.mesh.wallets) {key : Bytes}
      (hconnected : PeerMesh.Connected n.mesh key u.key) :
      PeerMesh.Commanded n.mesh key u.chain.peerport := by
    obtain ⟨chain, hchain, hcommanded⟩ := hconnected
    obtain ⟨u', hu', hkey, rfl⟩ := (PeerMesh.mem_chains_iff h.mesh.registered).mp hchain
    obtain rfl := List.inj_on_of_nodup_map h.mesh.registered.keys hu' hu hkey
    exact hcommanded
  rcases hpair with htried | htried
  · exact (h.remaining.left _ _ hmem).2 _ hport (hchain hw htried)
  · exact hasymmetric (PeerMesh.mem_snapshot_of_commanded h.mesh.registered h.mesh.connecting hw
      (hchain hv htried))

theorem allTried_iff_kept (h : Sound n) (hsettled : Settled n) : AllTried n ↔ Kept n := by
  constructor
  · intro hall
    refine ⟨fun key hkey key' hkey' hne => ?_, finished_of_allTried h hsettled hall⟩
    have hpair := hall key hkey key' hkey' hne
    rw [triedNode_iff h hsettled, triedNode_iff h hsettled] at hpair
    rcases hpair with hconnected | hconnected
    · obtain ⟨v, hv, w, hw, hvkey, hwkey, hport⟩ := PeerMesh.snapshot_of_connected h.mesh hconnected
      exact ⟨v, hv, w, hw, hvkey, hwkey, .inr hport⟩
    · obtain ⟨w, hw, v, hv, hwkey, hvkey, hport⟩ := PeerMesh.snapshot_of_connected h.mesh hconnected
      exact ⟨v, hv, w, hw, hvkey, hwkey, .inl hport⟩
  · intro hkept key hkey key' hkey' hne
    rw [triedNode_iff h hsettled, triedNode_iff h hsettled]
    obtain ⟨v, hv, w, hw, rfl, rfl, hport⟩ := hkept.promised key hkey key' hkey' hne
    have hchain {u : Wallet} (hu : u ∈ n.mesh.wallets) :=
      (PeerMesh.mem_chains_iff h.mesh.registered).mpr ⟨u, hu, rfl, rfl⟩
    rcases hport with hport | hport
    · exact .inr ⟨v.chain, hchain hv, commanded_of_finished h hsettled hkept.finished hw hport⟩
    · exact .inl ⟨w.chain, hchain hw, commanded_of_finished h hsettled hkept.finished hv hport⟩

end Settled

section Guard

variable {n n' : Network} {e : Event}

/-- A step of the mesh leaves the tasks that are not idle as they are. -/
theorem tasks_of_mesh {m m' : Mesh} {event : PeerMesh.Event}
    (hstep : PeerMesh.step m event = some m') {task : Nat} (hlt : task < m.tasks.length)
    (hother : event ≠ .connects task) : m'.tasks[task]? = m.tasks[task]? := by
  cases event with
  | supplier event =>
      obtain ⟨s, -, ⟨-, rfl⟩ | ⟨key, offset, -, -, rfl⟩⟩ := PeerMesh.supplier_cases hstep
      · rfl
      · exact List.getElem?_append_left hlt
  | registers startup pubkey =>
      obtain ⟨peerport, -, rfl⟩ := Option.map_eq_some_iff.mp hstep
      rfl
  | connects task' =>
      simp only [PeerMesh.step] at hstep
      split at hstep
      · obtain ⟨otherPubkey, -, rfl⟩ := Option.map_eq_some_iff.mp hstep
        exact List.getElem?_set_ne fun hsame => hother (congrArg _ hsame)
      · cases hstep

/-- A task that an exception has ended stays as it is. -/
theorem raised_step (h : Sound n) (hstep : step n e = some n') {task : Nat}
    (hraised : n.progress task = .raised) :
    n'.progress task = .raised ∧ n'.mesh.tasks[task]? = n.mesh.tasks[task]? := by
  have htask := h.attempted.lt_of_raised hraised
  obtain ⟨event, mesh, rfl, hne, hmesh, -, rfl⟩ | ⟨other, mesh, command, rfl, hidle, hmesh, -, -,
    rfl⟩ | ⟨other, command, attemptNumber, outcome, rfl, htrying, rfl⟩ := step_cases hstep
  · exact ⟨hraised, tasks_of_mesh hmesh htask (hne task)⟩
  · have hne : task ≠ other := by
      rintro rfl
      cases hidle.symm.trans hraised
    refine ⟨(Function.update_of_ne hne _ _).trans hraised, tasks_of_mesh hmesh htask ?_⟩
    intro hsame
    cases hsame
    exact hne rfl
  · have hne : task ≠ other := by
      rintro rfl
      cases htrying.symm.trans hraised
    exact ⟨(Function.update_of_ne hne _ _).trans hraised, rfl⟩

/-- Only an attempt that raises ends a task by an exception. -/
theorem raised_of_step (hstep : step n e = some n') {task : Nat}
    (hraised : n'.progress task = .raised) :
    n.progress task = .raised ∨ e = .ends task .raises := by
  obtain ⟨event, mesh, rfl, -, -, -, rfl⟩ | ⟨other, mesh, command, rfl, -, -, -, -, rfl⟩ |
    ⟨other, command, attemptNumber, outcome, rfl, -, rfl⟩ := step_cases hstep
  · exact .inl hraised
  · dsimp only at hraised
    rcases eq_or_ne task other with rfl | hne
    · rw [Function.update_self] at hraised
      cases hraised
    · rw [Function.update_of_ne hne] at hraised
      exact .inl hraised
  · dsimp only at hraised
    rcases eq_or_ne task other with rfl | hne
    · rw [Function.update_self] at hraised
      rw [eq_raises_of_next hraised]
      exact .inr rfl
    · rw [Function.update_of_ne hne] at hraised
      exact .inl hraised

theorem kept_of_step (h : Sound n) (hstep : step n e = some n') (hkept : Kept n') : Kept n where
  promised := by
    obtain ⟨event, -, hmesh⟩ | ⟨-, hmesh⟩ := mesh_of_step hstep
    · exact PeerMesh.promised_of_step h.mesh hmesh hkept.promised
    · exact hmesh ▸ hkept.promised
  finished := by
    intro task hraised
    obtain ⟨hraised', htasks⟩ := raised_step h hstep hraised
    have hend := hkept.finished task hraised'
    rwa [AtEnd, htasks] at hend

theorem guarded_iff (h : Sound n) (hkept : Kept n) (hstep : step n e = some n') :
    Guarded n e ↔ Kept n' := by
  obtain ⟨event, rfl, hmesh⟩ | ⟨⟨task, outcome, rfl⟩, hmesh⟩ := mesh_of_step hstep
  · have hfinished : Finished n' := by
      intro task hraised
      obtain hold | hends := raised_of_step hstep hraised
      · rw [AtEnd, (raised_step h hstep hold).2]
        exact hkept.finished task hold
      · cases hends
    rw [Guarded, PeerMesh.oneAtATime_iff h.mesh hkept.promised hmesh]
    exact ⟨fun hpromised => ⟨hpromised, hfinished⟩, Kept.promised⟩
  · constructor
    · intro hguard
      refine ⟨hmesh ▸ hkept.promised, fun task' hraised => ?_⟩
      rw [hmesh]
      obtain hold | hends := raised_of_step hstep hraised
      · exact hkept.finished task' hold
      · cases hends
        exact hguard rfl
    · rintro hkept' rfl
      rw [← hmesh]
      apply hkept'.finished task
      obtain ⟨event, mesh, heq, -⟩ | ⟨task', mesh, command, heq, -⟩ |
        ⟨task', command, attemptNumber, outcome, heq, -, rfl⟩ := step_cases hstep
      · cases heq
      · cases heq
      · cases heq
        exact Function.update_self _ _ _

end Guard

/-- A run that has come to its end has tried every command that it issued until
it succeeded or raised, or the last attempt was used up; and it has tried to connect
every pair of requested wallets if and only if each of them but the first was set up,
and that when all earlier ones were registered, and no exception ended a task in front
of the end of its snapshot, however the other attempts ended. -/
theorem allTried_iff_oneAtATime (keyToPort : Map String Int) {n : Network} {es : List Event}
    (hrun : run step (.start keyToPort) es = some n) (hsettled : Settled n) :
    (∀ i < n.mesh.issued.length, Ended (outcomes n.attempts i)) ∧
      (AllTried n ↔ runWithin step Guarded (.start keyToPort) es = some n) := by
  have hsound : Sound n := (reachable_of_runWithin hrun).invariant (sound_start keyToPort)
    fun _ _ _ h _ hstep => sound_step h hstep
  refine ⟨fun i hi => ended_of_settled hsound.attempted hsettled hi, ?_⟩
  rw [allTried_iff_kept hsound hsettled]
  refine (runWithin_iff_last (J := Sound) (fun _ _ _ h hstep => sound_step h hstep)
    (fun _ _ _ h hstep => kept_of_step h hstep)
    (fun _ _ _ h hkept hstep => guarded_iff h hkept hstep) (sound_start keyToPort) ?_
    hrun).symm
  exact ⟨nofun, nofun⟩

def thirdAttempt : List Event :=
  [.mesh (.supplier (.get [0x0a])), .mesh (.registers 0 "02aa"),
    .mesh (.supplier (.resume 0 .ready)), .mesh (.supplier (.get [0x0b])),
    .mesh (.registers 0 "02bb"), .mesh (.supplier (.resume 0 .ready)), .mesh (.connects 1),
    .ends 1 .timedOut, .ends 1 .refused, .ends 1 .connected]

/-- The first of two commands ends its task. -/
def raisesEarly : List Event :=
  [.mesh (.supplier (.get [0x0a])), .mesh (.registers 0 "02aa"),
    .mesh (.supplier (.resume 0 .ready)), .mesh (.supplier (.get [0x0b])),
    .mesh (.registers 0 "02bb"), .mesh (.supplier (.resume 0 .ready)),
    .mesh (.connects 1), .ends 1 .connected, .mesh (.supplier (.get [0x0c])),
    .mesh (.registers 0 "02cc"), .mesh (.supplier (.resume 0 .ready)), .mesh (.connects 2),
    .ends 2 .raises]

example : (runWithin step Guarded (.start ∅) raisesEarly).isNone := by decide

/-- What a run leaves of the attempts. -/
def Network.summary (n : Network) : Bool × List Progress × List (Nat × Outcome) :=
  (n.mesh.summary.1, (List.range n.mesh.tasks.length).map n.progress, n.attempts)

theorem settled_of_summary {n : Network} (hmesh : n.summary.1 = true)
    (hidle : ∀ p ∈ n.summary.2.1, p = .idle) : Settled n := by
  have hterminal := PeerMesh.terminal_of_summary hmesh
  refine ⟨hterminal.calls, hterminal.startups, fun task key rest hentry => .inr ⟨?_, ?_⟩⟩
  · obtain ⟨hlt, -⟩ := List.getElem?_eq_some_iff.mp hentry
    exact hidle _ (List.mem_map_of_mem (List.mem_range.mpr hlt))
  · exact hterminal.tasks _ (List.mem_of_getElem? hentry)

/-- The second wallet connects to the first with its third attempt. -/
theorem allTried_thirdAttempt : ∃ n, run step (.start ∅) thirdAttempt = some n ∧ Settled n ∧
    outcomes n.attempts 0 = [.timedOut, .refused, .connected] ∧
      (∀ i < n.mesh.issued.length, Ended (outcomes n.attempts i)) ∧
      (AllTried n ↔ runWithin step Guarded (.start ∅) thirdAttempt = some n) := by
  have hsummary : (run step (.start ∅) thirdAttempt).map Network.summary =
      some (true, [.idle, .idle], [(0, .timedOut), (0, .refused), (0, .connected)]) := by
    decide
  obtain ⟨n, hrun, hn⟩ := Option.map_eq_some_iff.mp hsummary
  have hsettled : Settled n := by
    refine settled_of_summary (congrArg Prod.fst hn) ?_
    rw [hn]
    decide
  have hattempts : n.attempts = [(0, .timedOut), (0, .refused), (0, .connected)] :=
    congrArg (·.2.2) hn
  refine ⟨n, hrun, hsettled, ?_, allTried_iff_oneAtATime ∅ hrun hsettled⟩
  rw [hattempts]
  rfl

end ElectrumLightning.ConnectAttempts
