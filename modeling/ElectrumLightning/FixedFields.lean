import Mathlib.Algebra.Order.Ring.Nat
import Mathlib.Data.List.Basic

/-!
Records of a fixed size that are written field by field. What is written at an
offset is found there again, and every field apart from it is as before.
-/

namespace ElectrumLightning.FixedFields

universe u

variable {α : Type u} {size : Nat}

abbrev Block (α : Type u) (size : Nat) := { bs : List α // bs.length = size }

def Block.blank (a : α) : Block α size := ⟨List.replicate size a, List.length_replicate⟩

/-- Write at an offset, no further than the end of the block. -/
def Block.write (b : Block α size) (off : Nat) (xs : List α) : Block α size :=
  ⟨b.val.take off ++ xs.take (size - off) ++ b.val.drop (off + xs.length), by
    have hb := b.property
    simp only [List.length_append, List.length_take, List.length_drop]
    omega⟩

def Block.field (b : Block α size) (off len : Nat) : List α := (b.val.drop off).take len

/-- Everything from an offset on. -/
def Block.suffix (b : Block α size) (off : Nat) : List α := b.val.drop off

namespace Block

variable {b : Block α size} {off len woff : Nat} {xs : List α}

theorem getElem?_write (b : Block α size) (off : Nat) (xs : List α) (i : Nat) :
    (b.write off xs).val[i]? =
      if off ≤ i ∧ i < off + xs.length ∧ i < size then xs[i - off]? else b.val[i]? := by
  have hb := b.property
  simp only [write, List.getElem?_append, List.length_append, List.length_take,
    List.getElem?_take, List.getElem?_drop]
  split_ifs
  all_goals first
    | omega
    | rfl
    | (congr 1; omega)
    | (rw [List.getElem?_eq_none (by omega)])
    | skip
  rcases Nat.lt_or_ge i size with hi | hi
  · congr 1
    omega
  · rw [List.getElem?_eq_none (by omega), List.getElem?_eq_none (by omega)]

theorem getElem?_field (b : Block α size) (off len i : Nat) :
    (b.field off len)[i]? = if i < len then b.val[off + i]? else none := by
  rw [field, List.getElem?_take, List.getElem?_drop]

theorem drop_field (b : Block α size) (off len n : Nat) :
    (b.field off len).drop n = b.field (off + n) (len - n) := by
  rw [field, field, List.drop_take, List.drop_drop]

theorem suffix_eq (b : Block α size) (off len : Nat) :
    b.suffix off = b.field off len ++ b.suffix (off + len) := by
  rw [suffix, suffix, field, ← List.drop_drop, List.take_append_drop]

theorem field_write_of_disjoint (h : woff + xs.length ≤ off ∨ off + len ≤ woff) :
    (b.write woff xs).field off len = b.field off len := by
  refine List.ext_getElem? fun i => ?_
  rw [getElem?_field, getElem?_field, getElem?_write]
  split_ifs
  · omega
  · rfl
  · rfl

/-- What is written at the front of a field, and what was behind it. -/
theorem field_write (hxs : xs.length ≤ len) (hlen : off + len ≤ size) :
    (b.write off xs).field off len = xs ++ b.field (off + xs.length) (len - xs.length) := by
  refine List.ext_getElem? fun i => ?_
  rw [getElem?_field, getElem?_write, List.getElem?_append, getElem?_field]
  split_ifs
  all_goals first
    | omega
    | rfl
    | (congr 1; omega)

theorem field_write_self (hxs : xs.length = len) (hlen : off + len ≤ size) :
    (b.write off xs).field off len = xs := by
  rw [field_write (Nat.le_of_eq hxs) hlen, hxs, Nat.sub_self, field, List.take_zero,
    List.append_nil]

/-- A write of the whole size. -/
theorem write_all (b : Block α size) (hxs : xs.length = size) : (b.write 0 xs).val = xs := by
  have hb := b.property
  change b.val.take 0 ++ xs.take (size - 0) ++ b.val.drop (0 + xs.length) = xs
  rw [List.take_zero, List.nil_append, List.take_of_length_le (by omega),
    List.drop_of_length_le (by omega), List.append_nil]

theorem field_blank (a : α) (h : off + len ≤ size) :
    (blank a : Block α size).field off len = List.replicate len a := by
  rw [blank, field, List.drop_replicate, List.take_replicate]
  congr 1
  omega

end Block

/-! ### Sums over the places of a record -/

theorem sum_mapIdx_add (xs : List α) (f g f' g' : Nat → α → Nat) (m n : Nat)
    (h : ∀ i x, f i x + m * g i x = f' i x + n * g' i x) :
    (xs.mapIdx f).sum + m * (xs.mapIdx g).sum = (xs.mapIdx f').sum + n * (xs.mapIdx g').sum := by
  induction xs generalizing f g f' g' with
  | nil => rfl
  | cons x xs ih =>
    simp only [List.mapIdx_cons, List.sum_cons]
    have hhead := h 0 x
    have htail := ih (fun i => f (i + 1)) (fun i => g (i + 1)) (fun i => f' (i + 1))
      (fun i => g' (i + 1)) fun i => h (i + 1)
    simp only [Nat.mul_add]
    omega

theorem sum_mapIdx_le (xs : List α) (f : Nat → α → Nat) (m : Nat) (h : ∀ i x, f i x ≤ m) :
    (xs.mapIdx f).sum ≤ xs.length * m := by
  induction xs generalizing f with
  | nil => exact Nat.zero_le _
  | cons x xs ih =>
    have hhead := h 0 x
    have htail := ih (fun i => f (i + 1)) fun i => h (i + 1)
    rw [List.mapIdx_cons, List.sum_cons, List.length_cons, Nat.succ_mul]
    omega

end ElectrumLightning.FixedFields
