import Mathlib.Algebra.Order.Ring.Int
import Mathlib.Data.List.AList

/-!
Finite maps that only grow, with distinct values at distinct keys, and the
search for an integer that is no value yet.
-/

namespace ElectrumLightning.OneToOneMaps

universe u v w

variable {α : Type u} {β : Type v} [DecidableEq α]

abbrev Map (α : Type u) (β : Type v) := AList fun _ : α => β

def values (m : Map α β) : List β := m.entries.map Sigma.snd

theorem mem_values_iff {m : Map α β} {b : β} : b ∈ values m ↔ ∃ a, m.lookup a = some b := by
  constructor
  · intro hb
    obtain ⟨⟨a, b'⟩, hentry, rfl⟩ := List.mem_map.mp hb
    exact ⟨a, AList.mem_lookup_iff.mpr hentry⟩
  · rintro ⟨a, ha⟩
    exact List.mem_map.mpr ⟨⟨a, b⟩, AList.mem_lookup_iff.mp ha, rfl⟩

def OneToOne (m : Map α β) : Prop :=
  ∀ ⦃a a' b⦄, m.lookup a = some b → m.lookup a' = some b → a = a'

/-- What one map records, the other one records as well. -/
def Extends (m n : Map α β) : Prop :=
  ∀ ⦃a b⦄, m.lookup a = some b → n.lookup a = some b

theorem Extends.refl (m : Map α β) : Extends m m := fun _ _ h => h

theorem Extends.trans {l m n : Map α β} (hlm : Extends l m) (hmn : Extends m n) : Extends l n :=
  fun _ _ h => hmn (hlm h)

theorem oneToOne_empty : OneToOne (∅ : Map α β) := by
  intro a a' b h
  rw [AList.lookup_empty] at h
  cases h

theorem lookup_insert_iff {m : Map α β} {a a' : α} {b b' : β} :
    (m.insert a b).lookup a' = some b' ↔ a' = a ∧ b' = b ∨ a' ≠ a ∧ m.lookup a' = some b' := by
  by_cases hkey : a' = a
  · subst hkey
    simp [eq_comm]
  · simp [AList.lookup_insert_ne hkey, hkey]

theorem lookup_insert_same {m : Map α β} {a : α} {b : β} (h : m.lookup a = some b) (a' : α) :
    (m.insert a b).lookup a' = m.lookup a' := by
  rcases eq_or_ne a' a with rfl | hne
  · rw [AList.lookup_insert, h]
  · exact AList.lookup_insert_ne hne

theorem extends_insert {m : Map α β} {a : α} {b : β} (h : ∀ b' ∈ m.lookup a, b' = b) :
    Extends m (m.insert a b) := by
  intro a' b' hlookup
  rw [lookup_insert_iff]
  by_cases hkey : a' = a
  · subst hkey
    exact Or.inl ⟨rfl, h b' hlookup⟩
  · exact Or.inr ⟨hkey, hlookup⟩

/-- Recording a value that no other key has. -/
theorem OneToOne.insert {m : Map α β} {a : α} {b : β} (hm : OneToOne m)
    (hb : ∀ a', m.lookup a' = some b → a' = a) : OneToOne (m.insert a b) := by
  intro a₁ a₂ b' h₁ h₂
  rcases lookup_insert_iff.mp h₁ with ⟨hkey₁, hvalue₁⟩ | ⟨-, hold₁⟩ <;>
    rcases lookup_insert_iff.mp h₂ with ⟨hkey₂, hvalue₂⟩ | ⟨-, hold₂⟩
  · rw [hkey₁, hkey₂]
  · rw [hkey₁, hb a₂ (hvalue₁ ▸ hold₂)]
  · rw [hkey₂, hb a₁ (hvalue₂ ▸ hold₁)]
  · exact hm hold₁ hold₂

/-- A map that follows a one-to-one map along an injection of its keys. -/
theorem OneToOne.of_follows {γ : Type w} [DecidableEq γ] {m : Map α β} {n : Map γ β} {f : γ → α}
    (hm : OneToOne m) (hf : Function.Injective f)
    (h : ∀ ⦃c b⦄, n.lookup c = some b → m.lookup (f c) = some b) : OneToOne n :=
  fun _ _ _ h₁ h₂ => hf (hm (h h₁) (h h₂))

/-- Count upwards from `current` past the taken integers, for at most `fuel`
steps. -/
def skipTaken (taken : List Int) : Nat → Int → Option Int
  | 0, _ => none
  | fuel + 1, current =>
      if current ∈ taken then skipTaken taken fuel (current + 1) else some current

theorem countP_succ_lt {taken : List Int} {current : Int} (h : current ∈ taken) :
    taken.countP (fun v => decide (current + 1 ≤ v)) <
      taken.countP (fun v => decide (current ≤ v)) := by
  induction taken with
  | nil => cases h
  | cons v vs ih =>
      have hle : vs.countP (fun v => decide (current + 1 ≤ v)) ≤
          vs.countP (fun v => decide (current ≤ v)) :=
        List.countP_mono_left fun w _ hw => by
          simp only [decide_eq_true_eq] at hw ⊢
          omega
      simp only [List.countP_cons, decide_eq_true_eq]
      rcases List.mem_cons.mp h with rfl | htail
      · rw [if_neg (by omega), if_pos (by omega)]
        omega
      · have hlt := ih htail
        split_ifs <;> omega

theorem skipTaken_of_countP_lt {taken : List Int} {fuel : Nat} {current : Int}
    (h : taken.countP (fun v => decide (current ≤ v)) < fuel) :
    ∃ chosen, skipTaken taken fuel current = some chosen ∧ chosen ∉ taken := by
  induction fuel generalizing current with
  | zero => omega
  | succ fuel ih =>
      rw [skipTaken]
      split
      · rename_i htaken
        have hlt := countP_succ_lt htaken
        exact ih (by omega)
      · rename_i hfree
        exact ⟨current, rfl, hfree⟩

/-- The search ends: it takes at most as many steps as there are values. -/
theorem exists_skipTaken (taken : List Int) (current : Int) :
    ∃ chosen, skipTaken taken (taken.length + 1) current = some chosen ∧ chosen ∉ taken :=
  skipTaken_of_countP_lt (Nat.lt_succ_of_le List.countP_le_length)

/-- The search stops at the first integer that is not taken. -/
theorem skipTaken_spec {taken : List Int} {fuel : Nat} {current chosen : Int}
    (h : skipTaken taken fuel current = some chosen) :
    current ≤ chosen ∧ chosen ∉ taken ∧
      ∀ lower, current ≤ lower → lower < chosen → lower ∈ taken := by
  induction fuel generalizing current with
  | zero => cases h
  | succ fuel ih =>
      rw [skipTaken] at h
      split at h
      · rename_i htaken
        obtain ⟨hle, hfree, hbetween⟩ := ih h
        refine ⟨by omega, hfree, fun lower hlower hlt => ?_⟩
        rcases hlower.eq_or_lt with rfl | hlater
        · exact htaken
        · exact hbetween lower (by omega) hlt
      · rename_i hfree
        obtain rfl := Option.some_inj.mp h
        exact ⟨le_refl _, hfree, fun lower hle hlt => by omega⟩

end ElectrumLightning.OneToOneMaps
