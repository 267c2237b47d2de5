import ElectrumLightning.PrefixDecoding

/-!
Decoders that keep a state of their own, compared with plain decoders. The state
has the input in it, and is valid before and after every action, also where the
action fails.
-/

namespace ElectrumLightning.DecoderRefinement

open ElectrumLightning.PrefixDecoding

variable {ε τ σ α β α' β' : Type}

abbrev Stateful (ε σ : Type) := ExceptT ε (StateM σ)

/-- Where the input stands in a state, and which states are valid. -/
structure View (τ σ : Type) where
  input : σ → List τ
  valid : σ → Prop

/-- From a valid state that meets `pre`, the action fails with the error with
which the decoder fails, or both give results that are related. -/
def Refines (view : View τ σ) (pre : σ → Prop) (p : Stateful ε σ β) (d : Decoder ε τ α)
    (post : α → β → σ → Prop) : Prop :=
  ∀ s, view.valid s → pre s →
    match d.run (view.input s) with
    | .ok (a, rest) => ∃ b s', p s = (.ok b, s') ∧ view.input s' = rest ∧ view.valid s' ∧
        post a b s'
    | .error e => ∃ s', p s = (.error e, s') ∧ view.valid s'

/-- Repeats an action whose results are added to a total. -/
def repeatTotal (p : Stateful ε σ Nat) : Nat → Nat → Stateful ε σ Nat
  | 0, total => pure total
  | count + 1, total => do
      let n ← p
      repeatTotal p count (total + n)

namespace Refines

variable {view : View τ σ} {pre pre' : σ → Prop} {p : Stateful ε σ β} {d : Decoder ε τ α}
  {post post' : α → β → σ → Prop}

theorem pure {a : α} {b : β} (h : ∀ s, pre s → post a b s) :
    Refines view pre (Pure.pure b : Stateful ε σ β) (Pure.pure a : Decoder ε τ α) post :=
  fun s hvalid hpre => ⟨b, s, rfl, rfl, hvalid, h s hpre⟩

theorem bind {q : β → Stateful ε σ β'} {f : α → Decoder ε τ α'} {last : α' → β' → σ → Prop}
    (hp : Refines view pre p d post) (hq : ∀ a b, Refines view (post a b) (q b) (f a) last) :
    Refines view pre (p >>= q) (d >>= f) last := by
  intro s hvalid hpre
  have hfirst := hp s hvalid hpre
  rw [StateT.run_bind]
  cases hd : d.run (view.input s) with
  | error e =>
      rw [hd] at hfirst
      obtain ⟨s', hrun, hvalid'⟩ := hfirst
      refine ⟨s', ?_, hvalid'⟩
      change ExceptT.bindCont q (p s).1 (p s).2 = _
      rw [hrun]
      rfl
  | ok result =>
      obtain ⟨a, rest⟩ := result
      rw [hd] at hfirst
      obtain ⟨b, s', hrun, rfl, hvalid', hpost⟩ := hfirst
      have hsecond := hq a b s' hvalid' hpost
      have hboth : (p >>= q) s = q b s' := by
        change ExceptT.bindCont q (p s).1 (p s).2 = _
        rw [hrun]
        rfl
      rw [hboth]
      exact hsecond

theorem imp (hp : Refines view pre p d post) (hpre : ∀ s, pre' s → pre s)
    (hpost : ∀ a b s, post a b s → post' a b s) : Refines view pre' p d post' := by
  intro s hvalid hs
  have h := hp s hvalid (hpre s hs)
  cases hd : d.run (view.input s) with
  | error e =>
      rw [hd] at h
      exact h
  | ok result =>
      rw [hd] at h
      obtain ⟨b, s', hrun, hinput, hvalid', hresult⟩ := h
      exact ⟨b, s', hrun, hinput, hvalid', hpost _ b s' hresult⟩

theorem throw (e : ε) :
    Refines view pre (throw e : Stateful ε σ β) (throw e : Decoder ε τ α) post :=
  fun s hvalid _ => ⟨s, rfl, hvalid⟩

theorem failIf {c : Prop} [Decidable c] {e : ε} {post : Unit → Unit → σ → Prop}
    (h : ∀ s, pre s → post () () s) :
    Refines view pre (if c then MonadExcept.throw e else Pure.pure () : Stateful ε σ Unit)
      (PrefixDecoding.failIf (σ := τ) c e) post := by
  unfold PrefixDecoding.failIf
  split
  · exact throw e
  · exact pure h

/-- Both sides start with the same test. -/
theorem ite {c : Prop} [Decidable c] {q : Stateful ε σ β} {f : Decoder ε τ α}
    (hthen : Refines view pre p d post) (helse : Refines view pre q f post) :
    Refines view pre (if c then p else q) (if c then d else f) post := by
  split
  · exact hthen
  · exact helse

/-- A loop that goes on with what was read before. -/
theorem many {p : Stateful ε σ Nat} {size : α → Nat} {I : List α → σ → Prop}
    (h : ∀ done, Refines view (I done) p d fun a n s => n = size a ∧ I (done ++ [a]) s)
    (done : List α) (count total : Nat) :
    Refines view (I done) (repeatTotal p count total) (readMany d size count total)
      fun result n s => n = result.2 ∧ I (done ++ result.1) s := by
  induction count generalizing done total with
  | zero => exact pure fun s hs => ⟨rfl, by rwa [List.append_nil]⟩
  | succ count ih =>
      refine (h done).bind fun a n s hvalid hs => ?_
      obtain ⟨rfl, hdone⟩ := hs
      have hlast : ∀ (result : List α × Nat) (n : Nat),
          Refines view (fun s => n = result.2 ∧ I (done ++ [a] ++ result.1) s)
            (Pure.pure n : Stateful ε σ Nat)
            (Pure.pure (a :: result.1, result.2) : Decoder ε τ (List α × Nat))
            fun result n s => n = result.2 ∧ I (done ++ result.1) s := fun result n =>
        pure fun s hs => ⟨hs.1, by simpa using hs.2⟩
      have hrest := (ih (done ++ [a]) (total + size a)).bind hlast
      have hpure : repeatTotal p count (total + size a) >>=
          (fun n => (Pure.pure n : Stateful ε σ Nat)) = repeatTotal p count (total + size a) :=
        bind_pure _
      rw [hpure] at hrest
      exact hrest s hvalid hdone

end Refines

end ElectrumLightning.DecoderRefinement
