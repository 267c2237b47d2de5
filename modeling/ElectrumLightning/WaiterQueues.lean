import Mathlib.Data.List.Basic

/-!
An unbounded first-in first-out queue whose takers wait when it is empty.
Putting an item wakes the longest waiting taker, but does not hand the item
over: a woken taker tries again, and another taker may come first.
-/

namespace ElectrumLightning.WaiterQueues

universe u v

structure WaiterQueue (α : Type u) (τ : Type v) where
  items : List α
  getters : List τ
deriving DecidableEq

namespace WaiterQueue

variable {α : Type u} {τ : Type v}

/-- Add an item; the second component is the taker that is woken. -/
def put (q : WaiterQueue α τ) (item : α) : WaiterQueue α τ × Option τ :=
  (⟨q.items ++ [item], q.getters.tail⟩, q.getters.head?)

/-- One attempt of a taker, which waits at the end of the line if there is
nothing to take. -/
def get (q : WaiterQueue α τ) (taker : τ) : WaiterQueue α τ × Option α :=
  match q.items with
  | [] => (⟨[], q.getters ++ [taker]⟩, none)
  | item :: rest => (⟨rest, q.getters⟩, some item)

@[simp] theorem items_put (q : WaiterQueue α τ) (item : α) :
    (q.put item).1.items = q.items ++ [item] := rfl

@[simp] theorem getters_put (q : WaiterQueue α τ) (item : α) :
    (q.put item).1.getters = q.getters.tail := rfl

@[simp] theorem woken_put (q : WaiterQueue α τ) (item : α) :
    (q.put item).2 = q.getters.head? := rfl

theorem get_of_nil {q : WaiterQueue α τ} (h : q.items = []) (taker : τ) :
    q.get taker = (⟨[], q.getters ++ [taker]⟩, none) := by
  simp [get, h]

theorem get_of_cons {q : WaiterQueue α τ} {item : α} {rest : List α}
    (h : q.items = item :: rest) (taker : τ) :
    q.get taker = (⟨rest, q.getters⟩, some item) := by
  simp [get, h]

end WaiterQueue

end ElectrumLightning.WaiterQueues
