import ElectrumLightning.LabelledRuns
import ElectrumLightning.ProxySerialization

/-!
The life of the proxy's connection: the flag that is set before a client is
served, the root key that is its first message, and the errors that end the
process.
-/

namespace ElectrumLightning.ProxyLifecycle

open ElectrumLightning.ByteStrings
open ElectrumLightning.LabelledRuns
open ElectrumLightning.ProxySerialization

/-- The proxy; `handling` tells whether a handler is between setting the flag
and its end, `pumping` counts the clients whose pumps run, and `greetings` are
the first messages of the clients with the root key of the wallet at the time. -/
structure Proxy where
  connected : Bool
  rootKeyRaw : Slice
  wallet : Option PrivateKey
  handling : Bool
  pumping : Nat
  greetings : List (Option PrivateKey × Bytes)
  exited : Bool
deriving DecidableEq

/-- `New`, which starts the server before there is a wallet. -/
def Proxy.new : Proxy :=
  { connected := false
    rootKeyRaw := none
    wallet := none
    handling := false
    pumping := 0
    greetings := []
    exited := false }

inductive Pump where
  | writePump
  | readPump
deriving DecidableEq

/-- What happens at the proxy. The root key of the wallet may not be available,
and the pumps start after the upgrade and the first write have succeeded. -/
inductive Event where
  | setWallet (root : Option PrivateKey)
  | clientConnects
  | upgradeFails
  | firstWriteFails
  | pumpsStart
  | pumpFails (pump : Pump)
deriving DecidableEq

namespace Proxy

/-- `log.Fatal`, or a panic that nothing recovers from. -/
def exit (p : Proxy) : Proxy := { p with exited := true }

def setWallet (btcec : Btcec) (p : Proxy) : Option PrivateKey → Proxy
  | none => p.exit
  | some root => { p with rootKeyRaw := some (btcec.serialize root), wallet := some root }

def clientConnects (p : Proxy) : Proxy :=
  if p.connected then p.exit else { p with connected := true, handling := true }

/-- The handler returns early; the flag stays set. -/
def handlerReturns (p : Proxy) : Proxy := { p with handling := false }

def pumpsStart (p : Proxy) : Proxy :=
  { p with
    handling := false
    pumping := p.pumping + 1
    greetings := p.greetings ++ [(p.wallet, p.rootKeyRaw.bytes)] }

def pumpFails (p : Proxy) : Proxy := { p with connected := false }.exit

end Proxy

section Order

variable (btcec : Btcec)

def step (p : Proxy) (e : Event) : Option Proxy :=
  if p.exited then none
  else match e with
    | .setWallet root => some (p.setWallet btcec root)
    | .clientConnects => some p.clientConnects
    | .upgradeFails => if p.handling then some p.handlerReturns else none
    | .firstWriteFails => if p.handling then some p.handlerReturns else none
    | .pumpsStart => if p.handling then some p.pumpsStart else none
    | .pumpFails _ => if 0 < p.pumping then some p.pumpFails else none

/-- The first message of a client is the root key of the wallet. -/
def Greeted (p : Proxy) : Prop :=
  ∀ g ∈ p.greetings, ∃ root, g = (some root, btcec.serialize root)

/-- The process runs, and when no handler is under way the flag is set exactly
while the pumps of one client run. -/
structure InOrder (p : Proxy) : Prop where
  running : p.exited = false
  flag : p.handling = false → (p.connected = true ↔ p.pumping = 1)
  greeted : Greeted btcec p

/-- As above, but with the flag compared while a handler is under way too. -/
structure InStrictOrder (p : Proxy) : Prop where
  running : p.exited = false
  flag : p.connected = true ↔ p.pumping = 1
  greeted : Greeted btcec p

end Order

/-- The steps that keep the order: a client comes when the flag is not set, it is
upgraded and greeted after the wallet is set, and its pumps do not fail. -/
def Orderly (p : Proxy) : Event → Prop
  | .setWallet root => root.isSome = true
  | .clientConnects => p.connected = false
  | .pumpsStart => p.wallet.isSome = true
  | .upgradeFails | .firstWriteFails | .pumpFails _ => False

instance : DecidableRel Orderly := fun p e =>
  match e with
  | .setWallet root => inferInstanceAs (Decidable (root.isSome = true))
  | .clientConnects => inferInstanceAs (Decidable (p.connected = false))
  | .pumpsStart => inferInstanceAs (Decidable (p.wallet.isSome = true))
  | .upgradeFails | .firstWriteFails | .pumpFails _ => isFalse id

/-- Only the wallet is set. -/
def WalletOnly (_ : Proxy) : Event → Prop
  | .setWallet root => root.isSome = true
  | .clientConnects | .upgradeFails | .firstWriteFails | .pumpsStart | .pumpFails _ => False

instance : DecidableRel WalletOnly := fun _ e =>
  match e with
  | .setWallet root => inferInstanceAs (Decidable (root.isSome = true))
  | .clientConnects | .upgradeFails | .firstWriteFails | .pumpsStart | .pumpFails _ => isFalse id

/-! ### Every step -/

/-- What holds whatever fails: the key to send is that of the wallet, a handler
runs with the flag set and no pumps, and pumps run with the flag set. -/
structure Consistent (btcec : Btcec) (p : Proxy) : Prop where
  key : p.rootKeyRaw = p.wallet.map btcec.serialize
  handler : p.handling = true → p.connected = true ∧ p.pumping = 0
  pumps : p.exited = false → 0 < p.pumping → p.connected = true ∧ p.pumping = 1

section Steps

variable {btcec : Btcec}

theorem consistent_new : Consistent btcec .new where
  key := rfl
  handler := by
    intro h
    cases h
  pumps := by
    intro _ h
    cases h

theorem step_cases {p q : Proxy} {e : Event} (h : step btcec p e = some q) : p.exited = false ∧
    ((∃ root, e = .setWallet root ∧ q = p.setWallet btcec root) ∨
      (e = .clientConnects ∧ q = p.clientConnects) ∨
      ((e = .upgradeFails ∨ e = .firstWriteFails) ∧ p.handling = true ∧ q = p.handlerReturns) ∨
      (e = .pumpsStart ∧ p.handling = true ∧ q = p.pumpsStart) ∨
      ∃ pump, e = .pumpFails pump ∧ 0 < p.pumping ∧ q = p.pumpFails) := by
  unfold step at h
  split at h
  · cases h
  · rename_i hrunning
    refine ⟨Bool.eq_false_iff.mpr hrunning, ?_⟩
    cases e with
    | setWallet root => exact .inl ⟨root, rfl, (Option.some.inj h).symm⟩
    | clientConnects => exact .inr (.inl ⟨rfl, (Option.some.inj h).symm⟩)
    | upgradeFails =>
        obtain ⟨hhandling, hq⟩ := Option.ite_none_right_eq_some.mp h
        exact .inr (.inr (.inl ⟨.inl rfl, hhandling, (Option.some.inj hq).symm⟩))
    | firstWriteFails =>
        obtain ⟨hhandling, hq⟩ := Option.ite_none_right_eq_some.mp h
        exact .inr (.inr (.inl ⟨.inr rfl, hhandling, (Option.some.inj hq).symm⟩))
    | pumpsStart =>
        obtain ⟨hhandling, hq⟩ := Option.ite_none_right_eq_some.mp h
        exact .inr (.inr (.inr (.inl ⟨rfl, hhandling, (Option.some.inj hq).symm⟩)))
    | pumpFails pump =>
        obtain ⟨hpumping, hq⟩ := Option.ite_none_right_eq_some.mp h
        exact .inr (.inr (.inr (.inr ⟨pump, rfl, hpumping, (Option.some.inj hq).symm⟩)))

theorem consistent_step {p q : Proxy} {e : Event} (hp : Consistent btcec p)
    (h : step btcec p e = some q) : Consistent btcec q := by
  obtain ⟨hrunning, ⟨root, -, rfl⟩ | ⟨-, rfl⟩ | ⟨-, hhandling, rfl⟩ | ⟨-, hhandling, rfl⟩ |
    ⟨pump, -, hpumping, rfl⟩⟩ := step_cases h
  · cases root with
    | none => exact ⟨hp.key, hp.handler, fun hexited => by cases hexited⟩
    | some root => exact ⟨rfl, hp.handler, hp.pumps⟩
  · unfold Proxy.clientConnects
    split
    · exact ⟨hp.key, hp.handler, fun hexited => by cases hexited⟩
    · rename_i hconnected
      have hpumping : p.pumping = 0 := by
        by_contra hne
        exact hconnected (hp.pumps hrunning (Nat.pos_of_ne_zero hne)).1
      refine ⟨hp.key, fun _ => ⟨rfl, hpumping⟩, fun _ hpos => ?_⟩
      exact absurd hpumping (Nat.ne_of_gt hpos)
  · exact ⟨hp.key, fun hreturned => (by cases hreturned), hp.pumps⟩
  · obtain ⟨hconnected, hpumping⟩ := hp.handler hhandling
    refine ⟨hp.key, fun hreturned => (by cases hreturned), fun _ _ => ⟨hconnected, ?_⟩⟩
    rw [Proxy.pumpsStart, hpumping]
  · refine ⟨hp.key, fun hhandling => ?_, fun hexited => by cases hexited⟩
    have hnone := (hp.handler hhandling).2
    omega

theorem greeted_pumpsStart {p : Proxy} (hp : Consistent btcec p) (hgreeted : Greeted btcec p) :
    Greeted btcec p.pumpsStart ↔ p.wallet.isSome = true := by
  have hkey := hp.key
  constructor
  · intro hall
    obtain ⟨root, hroot⟩ := hall (p.wallet, p.rootKeyRaw.bytes)
      (List.mem_append_right _ (List.mem_singleton_self _))
    rw [(Prod.mk.inj hroot).1]
    rfl
  · intro hwallet
    obtain ⟨root, hroot⟩ := Option.isSome_iff_exists.mp hwallet
    rw [hroot] at hkey
    intro g hg
    rcases List.mem_append.mp hg with hold | hnew
    · exact hgreeted g hold
    · refine ⟨root, ?_⟩
      rw [List.mem_singleton.mp hnew, hroot, hkey]
      rfl

/-- A step keeps the order exactly when it is one of the orderly steps. -/
theorem orderly_iff {p q : Proxy} {e : Event} (hp : Consistent btcec p) (hI : InOrder btcec p)
    (h : step btcec p e = some q) : Orderly p e ↔ InOrder btcec q := by
  obtain ⟨hrunning, ⟨root, rfl, rfl⟩ | ⟨rfl, rfl⟩ | ⟨he, hhandling, rfl⟩ | ⟨rfl, hhandling, rfl⟩ |
    ⟨pump, rfl, hpumping, rfl⟩⟩ := step_cases h
  · cases root with
    | none => exact iff_of_false Bool.false_ne_true fun hq => by cases hq.running
    | some root => exact iff_of_true rfl ⟨hI.running, hI.flag, hI.greeted⟩
  · unfold Proxy.clientConnects
    split
    · rename_i hconnected
      apply iff_of_false
      · intro hdisconnected
        rw [Orderly, hconnected] at hdisconnected
        cases hdisconnected
      · intro hq
        cases hq.running
    · rename_i hconnected
      apply iff_of_true (Bool.eq_false_iff.mpr hconnected)
      exact ⟨hrunning, fun hreturned => (by cases hreturned), hI.greeted⟩
  · obtain ⟨hconnected, hpumping⟩ := hp.handler hhandling
    have hnot : ¬ Orderly p e := by
      rcases he with rfl | rfl <;> exact id
    apply iff_of_false hnot
    intro hq
    have hone : p.pumping = 1 := (hq.flag rfl).mp hconnected
    omega
  · obtain ⟨hconnected, hpumping⟩ := hp.handler hhandling
    rw [Orderly, ← greeted_pumpsStart hp hI.greeted]
    constructor
    · intro hgreeted
      refine ⟨hrunning, fun _ => iff_of_true hconnected ?_, hgreeted⟩
      rw [Proxy.pumpsStart, hpumping]
    · exact InOrder.greeted
  · exact iff_of_false id fun hq => by cases hq.running

/-- With the flag compared at every time, not even the first client may come. -/
theorem walletOnly_iff {p q : Proxy} {e : Event} (hp : Consistent btcec p) (hI : InStrictOrder btcec p)
    (h : step btcec p e = some q) : WalletOnly p e ↔ InStrictOrder btcec q := by
  have hidle : p.handling ≠ true := by
    intro hhandling
    obtain ⟨hconnected, hpumping⟩ := hp.handler hhandling
    have hone := hI.flag.mp hconnected
    omega
  obtain ⟨hrunning, ⟨root, rfl, rfl⟩ | ⟨rfl, rfl⟩ | ⟨-, hhandling, -⟩ | ⟨-, hhandling, -⟩ |
    ⟨pump, rfl, -, rfl⟩⟩ := step_cases h
  · cases root with
    | none => exact iff_of_false Bool.false_ne_true fun hq => by cases hq.running
    | some root => exact iff_of_true rfl ⟨hI.running, hI.flag, hI.greeted⟩
  · apply iff_of_false id
    unfold Proxy.clientConnects
    split
    · exact fun hq => by cases hq.running
    · rename_i hconnected
      intro hq
      have hone : p.pumping = 1 := hq.flag.mp rfl
      exact hconnected (hI.flag.mpr hone)
  · exact absurd hhandling hidle
  · exact absurd hhandling hidle
  · exact iff_of_false id fun hq => by cases hq.running

/-! ### Every run -/

/-- In every run the order is kept in every state exactly when all steps are
orderly: no client is greeted before the wallet is set, none comes while another
is there, and nothing fails. With the flag compared while a handler is under way
too, it is kept exactly when no client comes. -/
theorem lifecycle_iff {es : List Event} {p : Proxy} (hrun : run (step btcec) .new es = some p) :
    (runWithin (step btcec) Orderly .new es = some p ↔
      ∀ q ∈ trace (step btcec) .new es, InOrder btcec q) ∧
      (runWithin (step btcec) WalletOnly .new es = some p ↔
        ∀ q ∈ trace (step btcec) .new es, InStrictOrder btcec q) := by
  have hgreeted : Greeted btcec .new := by
    intro g hg
    cases hg
  have hflag : Proxy.new.connected = true ↔ Proxy.new.pumping = 1 :=
    iff_of_false Bool.false_ne_true Nat.zero_ne_one
  constructor
  · apply runWithin_iff_forall_trace (J := Consistent btcec) (I := InOrder btcec)
    · intro q e r hq hstep
      exact consistent_step hq hstep
    · intro q e r hq hI hstep
      exact orderly_iff hq hI hstep
    · exact consistent_new
    · exact ⟨rfl, fun _ => hflag, hgreeted⟩
    · exact hrun
  · apply runWithin_iff_forall_trace (J := Consistent btcec) (I := InStrictOrder btcec)
    · intro q e r hq hstep
      exact consistent_step hq hstep
    · intro q e r hq hI hstep
      exact walletOnly_iff hq hI hstep
    · exact consistent_new
    · exact ⟨rfl, hflag, hgreeted⟩
    · exact hrun

end Steps

def rootKey : PrivateKey := ⟨7⟩

def oneClient : List Event := [.setWallet (some rootKey), .clientConnects, .pumpsStart]

theorem oneClient_inOrder :
    ∃ p, run (step simpleBtcec) .new oneClient = some p ∧
      p.greetings = [(some rootKey, simpleBtcec.serialize rootKey)] ∧
      ∀ q ∈ trace (step simpleBtcec) .new oneClient, InOrder simpleBtcec q := by
  have hfacts : (runWithin (step simpleBtcec) Orderly .new oneClient).map Proxy.greetings =
      some [(some rootKey, simpleBtcec.serialize rootKey)] := by
    decide +kernel
  obtain ⟨p, hp, hgreetings⟩ := Option.map_eq_some_iff.mp hfacts
  have hrun := run_of_runWithin hp
  exact ⟨p, hrun, hgreetings, (lifecycle_iff hrun).1.mp hp⟩

/-- A client that fails the upgrade leaves the flag set, so that the next one
ends the process. A client that comes before the wallet is sent an empty
message. -/
theorem failed_upgrade_and_early_client :
    (∃ p, run (step simpleBtcec) .new
      [.setWallet (some rootKey), .clientConnects, .upgradeFails] = some p ∧
      p.handling = false ∧ p.connected = true ∧ p.pumping = 0 ∧
      ∃ q, step simpleBtcec p .clientConnects = some q ∧ q.exited = true) ∧
    ∃ p, run (step simpleBtcec) .new [.clientConnects, .pumpsStart] = some p ∧
      p.greetings = [(none, [])] :=
  ⟨⟨_, rfl, rfl, rfl, rfl, _, rfl, rfl⟩, _, rfl, rfl⟩

def Event.isClient : Event → Bool
  | .clientConnects => true
  | _ => false

/-- While the order is kept, the flag is never reset, and there is one client at
most. -/
theorem clients_le_one {btcec : Btcec} {p q : Proxy} {es : List Event}
    (h : runWithin (step btcec) Orderly p es = some q) :
    es.countP Event.isClient ≤ if p.connected then 0 else 1 := by
  induction es generalizing p with
  | nil => simp
  | cons e es ih =>
      obtain ⟨horderly, r, hstep, hrest⟩ := runWithin_cons_iff.mp h
      have hle := ih hrest
      obtain ⟨-, ⟨root, rfl, rfl⟩ | ⟨rfl, rfl⟩ | ⟨rfl | rfl, -, -⟩ | ⟨rfl, -, rfl⟩ |
        ⟨pump, rfl, -, -⟩⟩ := step_cases hstep
      · cases root with
        | none => cases horderly
        | some root =>
            rw [List.countP_cons_of_neg Bool.false_ne_true]
            exact hle
      · have hconnected : p.connected = false := horderly
        simp only [Proxy.clientConnects, hconnected, Bool.false_eq_true, if_false, if_true] at hle ⊢
        rw [List.countP_cons_of_pos rfl]
        omega
      · exact horderly.elim
      · exact horderly.elim
      · rw [List.countP_cons_of_neg Bool.false_ne_true]
        exact hle
      · exact horderly.elim

end ElectrumLightning.ProxyLifecycle
