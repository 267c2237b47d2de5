import ElectrumLightning.ReplyFraming
import Mathlib.Data.Nat.Find
import Mathlib.Logic.Function.Iterate

/-!
The loop in which the queue monitor reads a request of the node, one byte at a
time. At the end of the file a read returns at once and adds nothing.
-/

namespace ElectrumLightning.QueueMonitor

open ElectrumLightning.ByteStrings
open ElectrumLightning.JsonText
open ElectrumLightning.ReplyFraming

inductive Copying where
  | reading (data stream : Bytes)
  | returned (payload rest : Bytes)
  | raised (data : Bytes)
deriving DecidableEq

/-- One iteration of the loop of `copyToSocks`, for a stream that ends where its
bytes end. -/
def Copying.iterate (recursionLimit : Nat) : Copying → Copying
  | .reading data stream =>
      match loads recursionLimit data with
      | .ok _ => .returned data stream
      | .error .valueError => .reading (data ++ stream.take 1) (stream.drop 1)
      -- not a ValueError, so nothing around the call catches it
      | .error .recursionError => .raised data
  | .returned payload rest => .returned payload rest
  | .raised data => .raised data

def Copying.ended : Copying → Bool
  | .reading _ _ => false
  | _ => true

/-- The loop after a number of iterations. -/
def after (recursionLimit : Nat) (stream : Bytes) (n : Nat) : Copying :=
  (Copying.iterate recursionLimit)^[n] (.reading [] stream)

/-- The loop puts one complete text on `writeQueue` and returns. -/
def Forwards (recursionLimit : Nat) (stream : Bytes) : Prop :=
  ∃ n payload rest v, after recursionLimit stream n = .returned payload rest ∧
    payload ++ rest = stream ∧ loads recursionLimit payload = .ok v

/-- Some front of the stream is a complete text, and no shorter one nests too
deeply. -/
def Complete (recursionLimit : Nat) (stream : Bytes) : Prop :=
  ∃ k v, loads recursionLimit (stream.take k) = .ok v ∧
    ∀ j < k, loads recursionLimit (stream.take j) ≠ .error .recursionError

/-! ### Where the loop is after so many iterations -/

section Loop

variable {recursionLimit : Nat} {stream : Bytes}

theorem iterate_of_ended {c : Copying} (h : c.ended = true) : c.iterate recursionLimit = c := by
  cases c with
  | reading data stream => cases h
  | returned payload rest => rfl
  | raised data => rfl

theorem iterate_of_valueError {data : Bytes} (h : loads recursionLimit data = .error .valueError) :
    (Copying.reading data stream).iterate recursionLimit =
      .reading (data ++ stream.take 1) (stream.drop 1) := by
  simp only [Copying.iterate, h]

theorem after_succ (n : Nat) :
    after recursionLimit stream (n + 1) = (after recursionLimit stream n).iterate recursionLimit :=
  Function.iterate_succ_apply' ..

theorem after_of_valueErrors {n : Nat}
    (h : ∀ j < n, loads recursionLimit (stream.take j) = .error .valueError) :
    after recursionLimit stream n = .reading (stream.take n) (stream.drop n) := by
  induction n with
  | zero => rfl
  | succ n ih =>
      rw [after_succ, ih fun j hj => h j (by omega), iterate_of_valueError (h n (by omega)),
        List.drop_drop, ← List.take_add]

theorem after_of_ended {m n : Nat} (hle : m ≤ n)
    (h : (after recursionLimit stream m).ended = true) :
    after recursionLimit stream n = after recursionLimit stream m := by
  induction n, hle using Nat.le_induction with
  | base => rfl
  | succ n hle ih => rw [after_succ, ih, iterate_of_ended h]

/-- The first front that gives anything but a `ValueError` ends the loop. -/
theorem after_of_first {k : Nat}
    (hbefore : ∀ j < k, loads recursionLimit (stream.take j) = .error .valueError)
    (hfirst : loads recursionLimit (stream.take k) ≠ .error .valueError) :
    (∃ v, loads recursionLimit (stream.take k) = .ok v ∧
        after recursionLimit stream (k + 1) = .returned (stream.take k) (stream.drop k)) ∨
      (loads recursionLimit (stream.take k) = .error .recursionError ∧
        after recursionLimit stream (k + 1) = .raised (stream.take k)) := by
  rw [after_succ, after_of_valueErrors hbefore]
  rcases hloads : loads recursionLimit (stream.take k) with e | v
  · cases e with
    | valueError => exact absurd hloads hfirst
    | recursionError =>
        right
        simp only [Copying.iterate, hloads, true_and]
  · left
    refine ⟨v, rfl, ?_⟩
    simp only [Copying.iterate, hloads]

theorem exists_first (h : ∃ k, loads recursionLimit (stream.take k) ≠ .error .valueError) :
    ∃ k, (∀ j < k, loads recursionLimit (stream.take j) = .error .valueError) ∧
      loads recursionLimit (stream.take k) ≠ .error .valueError := by
  classical
  refine ⟨Nat.find h, fun j hj => ?_, Nat.find_spec h⟩
  exact not_not.mp (Nat.find_min h hj)

/-! ### When it ends -/

theorem ended_iff : (∃ n, (after recursionLimit stream n).ended = true) ↔
    ∃ k, loads recursionLimit (stream.take k) ≠ .error .valueError := by
  constructor
  · rintro ⟨n, hended⟩
    by_contra hnone
    push Not at hnone
    rw [after_of_valueErrors fun j _ => hnone j] at hended
    cases hended
  · intro h
    obtain ⟨k, hbefore, hfirst⟩ := exists_first h
    refine ⟨k + 1, ?_⟩
    rcases after_of_first hbefore hfirst with ⟨v, -, hafter⟩ | ⟨-, hafter⟩ <;>
      rw [hafter] <;> rfl

theorem complete_of_forwards (h : Forwards recursionLimit stream) :
    Complete recursionLimit stream := by
  obtain ⟨n, payload, rest, v, hreturned, -, -⟩ := h
  have hended : (after recursionLimit stream n).ended = true := by
    rw [hreturned]
    rfl
  obtain ⟨k, hbefore, hfirst⟩ := exists_first (ended_iff.mp ⟨n, hended⟩)
  rcases after_of_first hbefore hfirst with ⟨w, hloads, -⟩ | ⟨-, hraised⟩
  · refine ⟨k, w, hloads, fun j hj herror => ?_⟩
    rw [hbefore j hj] at herror
    cases herror
  · have hsame : after recursionLimit stream n = after recursionLimit stream (k + 1) := by
      rcases le_total n (k + 1) with hle | hle
      · exact (after_of_ended hle hended).symm
      · exact after_of_ended hle (by rw [hraised]; rfl)
    rw [hreturned, hraised] at hsame
    cases hsame

theorem forwards_of_complete (h : Complete recursionLimit stream) :
    Forwards recursionLimit stream := by
  obtain ⟨k, v, hloads, hshallow⟩ := h
  have hsome : ∃ k, loads recursionLimit (stream.take k) ≠ .error .valueError := by
    refine ⟨k, fun herror => ?_⟩
    rw [hloads] at herror
    cases herror
  obtain ⟨first, hbefore, hfirst⟩ := exists_first hsome
  rcases after_of_first hbefore hfirst with ⟨w, hvalue, hafter⟩ | ⟨herror, -⟩
  · exact ⟨first + 1, _, _, w, hafter, List.take_append_drop .., hvalue⟩
  · rcases Nat.lt_trichotomy first k with hlt | rfl | hgt
    · exact absurd herror (hshallow first hlt)
    · rw [hloads] at herror
      cases herror
    · rw [hbefore k hgt] at hloads
      cases hloads

/-- What `copyToSocks` gives while the stream goes on is what the loop comes to,
and where it waits for more the loop stays at the end of the file. -/
theorem exists_iterate_copyToSocks (recursionLimit : Nat) (data stream : Bytes) :
    ∃ n, (Copying.iterate recursionLimit)^[n] (.reading data stream) =
      match copyToSocks recursionLimit data stream with
      | .forwarded payload rest => .returned payload rest
      | .waiting data => .reading data []
      | .raised data => .raised data := by
  induction stream generalizing data with
  | nil =>
      refine ⟨1, ?_⟩
      rw [copyToSocks.eq_def]
      rcases hloads : loads recursionLimit data with e | v
      · cases e <;> simp [Copying.iterate, hloads]
      · simp [Copying.iterate, hloads]
  | cons b stream ih =>
      rw [copyToSocks.eq_def]
      rcases hloads : loads recursionLimit data with e | v
      · cases e with
        | valueError =>
            obtain ⟨n, hn⟩ := ih (data ++ [b])
            refine ⟨n + 1, ?_⟩
            rw [Function.iterate_succ_apply, iterate_of_valueError hloads]
            exact hn
        | recursionError => exact ⟨1, by simp [Copying.iterate, hloads]⟩
      · exact ⟨1, by simp [Copying.iterate, hloads]⟩

end Loop

/-- The loop puts a complete text on the queue exactly when some front of the
stream is one, and it ends at all exactly when some front gives anything but a
`ValueError`. Otherwise it reads at the end of the file for ever. -/
theorem copyToSocks_ends_iff (recursionLimit : Nat) (stream : Bytes) :
    (Forwards recursionLimit stream ↔ Complete recursionLimit stream) ∧
      ((∃ n, (after recursionLimit stream n).ended = true) ↔
        ∃ k, loads recursionLimit (stream.take k) ≠ .error .valueError) ∧
      ((∀ k, loads recursionLimit (stream.take k) = .error .valueError) →
        ∀ n, stream.length ≤ n → after recursionLimit stream n = .reading stream []) := by
  refine ⟨⟨complete_of_forwards, forwards_of_complete⟩, ended_iff, ?_⟩
  intro hnone n hn
  rw [after_of_valueErrors fun j _ => hnone j, List.take_of_length_le hn,
    List.drop_eq_nil_of_le hn]

/-- A node that closes its connection after the first byte of a request. -/
theorem opened_brace_never_ends :
    ¬ Forwards 1000 [0x7b] ∧ ∀ n, (after 1000 [0x7b] n).ended = false := by
  have hnone : ∀ k, loads 1000 (([0x7b] : Bytes).take k) = .error .valueError := by
    intro k
    cases k with
    | zero => rfl
    | succ k => rw [List.take_succ_cons, List.take_nil]; rfl
  have hreading : ∀ n, (after 1000 [0x7b] n).ended = false := by
    intro n
    rw [after_of_valueErrors fun j _ => hnone j]
    rfl
  refine ⟨?_, hreading⟩
  rintro ⟨n, payload, rest, v, hreturned, -⟩
  have hended := hreading n
  rw [hreturned] at hended
  cases hended

end ElectrumLightning.QueueMonitor
