import Mathlib.Algebra.BigOperators.Group.List.Basic
import Mathlib.Algebra.Order.Ring.Nat

/-!
Decoders that consume the front of their input. A decoder reads a value from
some symbols when it gives that value and leaves whatever follows them.
-/

namespace ElectrumLightning.PrefixDecoding

variable {ε σ α β : Type}

abbrev Decoder (ε σ : Type) := StateT (List σ) (Except ε)

def failIf (c : Prop) [Decidable c] (e : ε) : Decoder ε σ Unit :=
  if c then throw e else pure ()

/-- Reads `count` values and adds their sizes to a total. -/
def readMany (d : Decoder ε σ α) (size : α → Nat) : Nat → Nat → Decoder ε σ (List α × Nat)
  | 0, total => pure ([], total)
  | count + 1, total => do
      let a ← d
      let (as, total) ← readMany d size count (total + size a)
      pure (a :: as, total)

def Reads (d : Decoder ε σ α) (xs : List σ) (a : α) : Prop :=
  ∀ rest, d.run (xs ++ rest) = .ok (a, rest)

namespace Reads

variable {d : Decoder ε σ α} {xs ys : List σ} {a : α} {b : β}

theorem pure (a : α) : Reads (Pure.pure a : Decoder ε σ α) [] a := fun _ => rfl

theorem bind {f : α → Decoder ε σ β} (hd : Reads d xs a) (hf : Reads (f a) ys b) :
    Reads (d >>= f) (xs ++ ys) b := by
  intro rest
  rw [List.append_assoc, StateT.run_bind, hd (ys ++ rest)]
  exact hf rest

theorem last {f : α → Decoder ε σ β} (hd : Reads d xs a) (hf : Reads (f a) [] b) :
    Reads (d >>= f) xs b := by
  have h := hd.bind hf
  rwa [List.append_nil] at h

theorem bind_pure {f : α → β} (hd : Reads d xs a) :
    Reads (do let a ← d; Pure.pure (f a)) xs (f a) :=
  hd.last (Reads.pure (f a))

theorem skip {f : α → Decoder ε σ β} (hd : Reads d [] a) (hf : Reads (f a) ys b) :
    Reads (d >>= f) ys b :=
  hd.bind hf

theorem failIf {c : Prop} [Decidable c] {e : ε} (h : ¬ c) :
    Reads (PrefixDecoding.failIf (σ := σ) c e) [] () := by
  intro rest
  rw [PrefixDecoding.failIf, if_neg h]
  rfl

theorem many {encode : α → List σ} (size : α → Nat) {as : List α}
    (h : ∀ a ∈ as, Reads d (encode a) a) (total : Nat) :
    Reads (readMany d size as.length total) (as.flatMap encode)
      (as, total + (as.map size).sum) := by
  induction as generalizing total with
  | nil => exact Reads.pure _
  | cons a as ih =>
      have hrest := ih (fun b hb => h b (List.mem_cons_of_mem a hb)) (total + size a)
      rw [List.map_cons, List.sum_cons, ← Nat.add_assoc]
      exact (h a List.mem_cons_self).bind hrest.bind_pure

end Reads

/-! ### What a decoder has read -/

theorem run_bind_eq_ok {d : Decoder ε σ α} {f : α → Decoder ε σ β} {xs rest : List σ} {b : β} :
    (d >>= f).run xs = .ok (b, rest) ↔
      ∃ a mid, d.run xs = .ok (a, mid) ∧ (f a).run mid = .ok (b, rest) := by
  rw [StateT.run_bind]
  cases d.run xs with
  | error e =>
      constructor
      · intro h
        cases h
      · rintro ⟨a, mid, h, -⟩
        cases h
  | ok result =>
      constructor
      · intro h
        exact ⟨result.1, result.2, rfl, h⟩
      · rintro ⟨a, mid, h, hf⟩
        cases h
        exact hf

theorem run_pure_eq_ok {a b : α} {xs rest : List σ} :
    (pure a : Decoder ε σ α).run xs = .ok (b, rest) ↔ a = b ∧ xs = rest := by
  rw [StateT.run_pure]
  constructor
  · intro h
    cases h
    exact ⟨rfl, rfl⟩
  · rintro ⟨rfl, rfl⟩
    rfl

theorem run_failIf_eq_ok {c : Prop} [Decidable c] {e : ε} {u : Unit} {xs rest : List σ} :
    (failIf (σ := σ) c e).run xs = .ok (u, rest) ↔ ¬ c ∧ xs = rest := by
  rw [failIf]
  split
  · rename_i hc
    refine iff_of_false (fun h => ?_) fun h => h.1 hc
    cases h
  · rename_i hc
    rw [run_pure_eq_ok]
    exact ⟨fun h => ⟨hc, h.2⟩, fun h => ⟨rfl, h.2⟩⟩

/-- A counted list was read element by element. -/
theorem readMany_eq_ok {d : Decoder ε σ α} {size : α → Nat} {encode : α → List σ} {P : α → Prop}
    (h : ∀ xs a rest, d.run xs = .ok (a, rest) → P a ∧ xs = encode a ++ rest)
    {count total total' : Nat} {as : List α} {xs rest : List σ}
    (hread : (readMany d size count total).run xs = .ok ((as, total'), rest)) :
    as.length = count ∧ (∀ a ∈ as, P a) ∧ total' = total + (as.map size).sum ∧
      xs = as.flatMap encode ++ rest := by
  induction count generalizing total as xs with
  | zero =>
      obtain ⟨hsame, rfl⟩ := run_pure_eq_ok.mp hread
      cases hsame
      exact ⟨rfl, List.forall_mem_nil _, rfl, rfl⟩
  | succ count ih =>
      obtain ⟨a, mid, hfirst, hrest⟩ := run_bind_eq_ok.mp hread
      obtain ⟨⟨as', total''⟩, mid', hmany, hlast⟩ := run_bind_eq_ok.mp hrest
      obtain ⟨hsame, rfl⟩ := run_pure_eq_ok.mp hlast
      cases hsame
      obtain ⟨ha, rfl⟩ := h xs a mid hfirst
      obtain ⟨hlength, hall, rfl, rfl⟩ := ih hmany
      refine ⟨by rw [List.length_cons, hlength], List.forall_mem_cons.mpr ⟨ha, hall⟩, ?_, ?_⟩
      · rw [List.map_cons, List.sum_cons, Nat.add_assoc]
      · rw [List.flatMap_cons, List.append_assoc]

/-! ### More input -/

/-- More input is left over, and a failure stays, unless it was for want of
input. -/
def Incremental (starved : ε → Prop) (d : Decoder ε σ α) : Prop :=
  ∀ xs ys, match d.run xs with
    | .ok (a, rest) => d.run (xs ++ ys) = .ok (a, rest ++ ys)
    | .error e => starved e ∨ d.run (xs ++ ys) = .error e

namespace Incremental

variable {starved : ε → Prop} {d : Decoder ε σ α} {f : α → Decoder ε σ β}

theorem pure (a : α) : Incremental starved (Pure.pure a : Decoder ε σ α) := fun _ _ => rfl

theorem throw (e : ε) : Incremental starved (throw e : Decoder ε σ α) := fun _ _ => .inr rfl

theorem lift (result : Except ε α) : Incremental starved (liftM result : Decoder ε σ α) := by
  cases result with
  | ok a => exact pure a
  | error e => exact throw e

theorem bind (hd : Incremental starved d) (hf : ∀ a, Incremental starved (f a)) :
    Incremental starved (d >>= f) := by
  intro xs ys
  have hfirst := hd xs ys
  rw [StateT.run_bind, StateT.run_bind]
  cases hrun : d.run xs with
  | error e =>
      rw [hrun] at hfirst
      rcases hfirst with hstarved | hsame
      · exact .inl hstarved
      · rw [hsame]
        exact .inr rfl
  | ok result =>
      obtain ⟨a, mid⟩ := result
      rw [hrun] at hfirst
      have hsame : d.run (xs ++ ys) = .ok (a, mid ++ ys) := hfirst
      rw [hsame]
      exact hf a mid ys

theorem failIf (c : Prop) [Decidable c] (e : ε) :
    Incremental starved (PrefixDecoding.failIf (σ := σ) c e) := by
  rw [PrefixDecoding.failIf]
  split
  · exact throw e
  · exact pure ()

theorem ite {c : Prop} [Decidable c] {d' : Decoder ε σ α} (hthen : Incremental starved d)
    (helse : Incremental starved d') : Incremental starved (if c then d else d') := by
  split
  · exact hthen
  · exact helse

theorem many (hd : Incremental starved d) (size : α → Nat) (count total : Nat) :
    Incremental starved (readMany d size count total) := by
  induction count generalizing total with
  | zero => exact pure _
  | succ count ih => exact hd.bind fun a => (ih _).bind fun as => pure _

/-- What is cut off of the part that was read is what is missing. -/
theorem starved_of_append (hd : Incremental starved d) {xs ys rest : List σ} {a : α}
    (h : d.run (xs ++ ys) = .ok (a, rest)) (hcut : rest.length < ys.length) :
    ∃ e, starved e ∧ d.run xs = .error e := by
  have hmore := hd xs ys
  cases hrun : d.run xs with
  | error e =>
      rw [hrun] at hmore
      rcases hmore with hstarved | hsame
      · exact ⟨e, hstarved, rfl⟩
      · rw [h] at hsame
        cases hsame
  | ok result =>
      obtain ⟨b, rest'⟩ := result
      rw [hrun] at hmore
      have hsame : d.run (xs ++ ys) = .ok (b, rest' ++ ys) := hmore
      rw [h] at hsame
      injection hsame with hpair
      rw [(Prod.mk.inj hpair).2, List.length_append] at hcut
      omega

end Incremental

end ElectrumLightning.PrefixDecoding
