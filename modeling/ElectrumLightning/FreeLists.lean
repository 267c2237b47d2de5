import Mathlib.Data.List.Nodup

/-!
Buffers that are lent from a bounded free list. All buffers ever made are in one
memory and are named by their place in it. A buffer that is lent may hold
anything.
-/

namespace ElectrumLightning.FreeLists

universe u

variable {α : Type u}

abbrev Memory (α : Type u) := List (List α)

/-- A buffer with its length in use. -/
structure Slice where
  buffer : Nat
  length : Nat
deriving DecidableEq

def Slice.contents (memory : Memory α) (s : Slice) : List α :=
  (memory[s.buffer]?.getD []).take s.length

/-- A new buffer. -/
def make (blank : α) (size : Nat) (memory : Memory α) : Nat × Memory α :=
  (memory.length, memory ++ [List.replicate size blank])

/-- The first buffer of a free list, or a new one. -/
def borrow (blank : α) (size : Nat) (memory : Memory α) : List Nat → Nat × Memory α × List Nat
  | a :: free => (a, memory, free)
  | [] => ((make blank size memory).1, (make blank size memory).2, [])

/-- A full list lets the buffer go. -/
def giveBack (max : Nat) (free : List Nat) (a : Nat) : List Nat :=
  if free.length < max then free ++ [a] else free

/-- Write to the front of a buffer, as far as it reaches. -/
def overwrite (memory : Memory α) (a : Nat) (xs : List α) : Memory α :=
  memory.modify a fun bs => xs.take bs.length ++ bs.drop xs.length

def Sized (memory : Memory α) (size a : Nat) : Prop :=
  ∃ bs, memory[a]? = some bs ∧ bs.length = size

/-- A free list of buffers of one size, none of which is in use elsewhere. -/
structure WellKept (size max : Nat) (memory : Memory α) (free used : List Nat) : Prop where
  nodup : (free ++ used).Nodup
  sized : ∀ a ∈ free, Sized memory size a
  known : ∀ a ∈ used, a < memory.length
  length_le : free.length ≤ max

/-- The memory keeps its buffers and their sizes, and the contents of those that
are in use. -/
structure Keeps (used : List Nat) (before after : Memory α) : Prop where
  contents : ∀ a ∈ used, after[a]? = before[a]?
  sized : ∀ ⦃size a⦄, Sized before size a → Sized after size a
  length_le : before.length ≤ after.length

theorem Sized.lt {memory : Memory α} {size a : Nat} (h : Sized memory size a) :
    a < memory.length := by
  obtain ⟨bs, hbs, -⟩ := h
  exact (List.getElem?_eq_some_iff.mp hbs).1

theorem Sized.unique {memory : Memory α} {size size' a : Nat} (h : Sized memory size a)
    (h' : Sized memory size' a) : size = size' := by
  obtain ⟨bs, hbs, rfl⟩ := h
  obtain ⟨bs', hbs', rfl⟩ := h'
  rw [hbs] at hbs'
  cases hbs'
  rfl

namespace Keeps

variable {used : List Nat} {m₁ m₂ m₃ : Memory α}

theorem refl (used : List Nat) (m : Memory α) : Keeps used m m :=
  ⟨fun _ _ => rfl, fun _ _ h => h, Nat.le_refl _⟩

theorem trans (h₁₂ : Keeps used m₁ m₂) (h₂₃ : Keeps used m₂ m₃) : Keeps used m₁ m₃ :=
  ⟨fun a ha => (h₂₃.contents a ha).trans (h₁₂.contents a ha),
    fun _ _ h => h₂₃.sized (h₁₂.sized h), Nat.le_trans h₁₂.length_le h₂₃.length_le⟩

theorem slice (h : Keeps used m₁ m₂) {s : Slice} (hs : s.buffer ∈ used) :
    s.contents m₂ = s.contents m₁ := by
  rw [Slice.contents, Slice.contents, h.contents s.buffer hs]

end Keeps

theorem nodup_middle {free used : List Nat} {a : Nat} :
    (free ++ a :: used).Nodup ↔ (a :: (free ++ used)).Nodup :=
  List.perm_middle.nodup_iff

section Lending

variable {memory : Memory α} {size max : Nat} {free used : List Nat} {a : Nat}

theorem keeps_make (blank : α) (size : Nat) (memory : Memory α)
    (hused : ∀ a ∈ used, a < memory.length) : Keeps used memory (make blank size memory).2 where
  contents := fun a ha => List.getElem?_append_left (hused a ha)
  sized := by
    rintro size' a ⟨bs, hbs, hlength⟩
    refine ⟨bs, ?_, hlength⟩
    rw [make, List.getElem?_append_left (List.getElem?_eq_some_iff.mp hbs).1]
    exact hbs
  length_le := by simp [make]

theorem sized_make (blank : α) (size : Nat) (memory : Memory α) :
    Sized (make blank size memory).2 size (make blank size memory).1 :=
  ⟨List.replicate size blank, List.getElem?_concat_length, List.length_replicate⟩

theorem WellKept.congr {memory' : Memory α} (h : WellKept size max memory free used)
    (hkeeps : Keeps used memory memory') : WellKept size max memory' free used :=
  ⟨h.nodup, fun a ha => hkeeps.sized (h.sized a ha),
    fun a ha => Nat.lt_of_lt_of_le (h.known a ha) hkeeps.length_le, h.length_le⟩

/-- Who else uses a buffer does not matter, as long as it is not a free one. -/
theorem WellKept.of_perm {used' : List Nat} (h : WellKept size max memory free used)
    (hperm : used.Perm used') : WellKept size max memory free used' :=
  ⟨(hperm.append_left free).nodup_iff.mp h.nodup, h.sized,
    fun a ha => h.known a (hperm.mem_iff.mpr ha), h.length_le⟩

/-- A new buffer is in use by nobody. -/
theorem WellKept.make (h : WellKept size max memory free used) (blank : α) (size' : Nat) :
    WellKept size max (make blank size' memory).2 free ((make blank size' memory).1 :: used) := by
  have hkeeps := keeps_make blank size' memory h.known
  have hnew : memory.length ∉ free ++ used := by
    intro hmem
    rcases List.mem_append.mp hmem with hfree | hused
    · exact Nat.lt_irrefl _ (h.sized _ hfree).lt
    · exact Nat.lt_irrefl _ (h.known _ hused)
  refine ⟨?_, fun a ha => hkeeps.sized (h.sized a ha), ?_, h.length_le⟩
  · exact nodup_middle.mpr (List.nodup_cons.mpr ⟨hnew, h.nodup⟩)
  · intro a ha
    rcases List.mem_cons.mp ha with rfl | hused
    · simp [FreeLists.make]
    · exact Nat.lt_of_lt_of_le (h.known a hused) hkeeps.length_le

/-- What is borrowed has the size of the list and is in use by nobody. -/
theorem WellKept.borrow (h : WellKept size max memory free used) (blank : α) :
    ∃ a memory' free', borrow blank size memory free = (a, memory', free') ∧
      WellKept size max memory' free' (a :: used) ∧ Sized memory' size a ∧
      Keeps used memory memory' ∧ free.length ≤ free'.length + 1 := by
  cases free with
  | nil =>
      exact ⟨_, _, [], rfl, h.make blank size, sized_make blank size memory,
        keeps_make blank size memory h.known, Nat.zero_le _⟩
  | cons a free =>
      have hperm : (a :: free ++ used).Perm (free ++ a :: used) := List.perm_middle.symm
      refine ⟨a, memory, free, rfl, ⟨hperm.nodup_iff.mp h.nodup, ?_, ?_, ?_⟩,
        h.sized a List.mem_cons_self, .refl _ _, Nat.le_refl _⟩
      · exact fun b hb => h.sized b (List.mem_cons_of_mem a hb)
      · intro b hb
        rcases List.mem_cons.mp hb with rfl | hused
        · exact (h.sized b List.mem_cons_self).lt
        · exact h.known b hused
      · exact Nat.le_trans (Nat.le_succ _) h.length_le

theorem WellKept.giveBack (h : WellKept size max memory free (a :: used))
    (ha : Sized memory size a) : WellKept size max memory (giveBack max free a) used := by
  have hperm : (free ++ a :: used).Perm (free ++ [a] ++ used) := by
    rw [List.append_assoc]
    exact .refl _
  rw [FreeLists.giveBack]
  split
  · rename_i hroom
    refine ⟨hperm.nodup_iff.mp h.nodup, ?_, fun b hb => h.known b (List.mem_cons_of_mem a hb), ?_⟩
    · intro b hb
      rcases List.mem_append.mp hb with hfree | hlast
      · exact h.sized b hfree
      · rw [List.mem_singleton.mp hlast]
        exact ha
    · rw [List.length_append]
      exact hroom
  · refine ⟨?_, h.sized, fun b hb => h.known b (List.mem_cons_of_mem a hb), h.length_le⟩
    exact (nodup_middle.mp h.nodup).of_cons

/-- A buffer that is not given back goes to the garbage collector. -/
theorem WellKept.drop (h : WellKept size max memory free (a :: used)) :
    WellKept size max memory free used :=
  ⟨(nodup_middle.mp h.nodup).of_cons, h.sized,
    fun b hb => h.known b (List.mem_cons_of_mem a hb), h.length_le⟩

theorem length_giveBack (hle : free.length ≤ max) :
    min max (free.length + 1) ≤ (giveBack max free a).length := by
  rw [giveBack]
  split
  · rw [List.length_append]
    exact Nat.min_le_right _ _
  · omega

theorem keeps_overwrite (ha : a ∉ used) (xs : List α) :
    Keeps used memory (overwrite memory a xs) where
  contents := by
    intro b hb
    have hne : a ≠ b := fun hab => ha (hab ▸ hb)
    rw [overwrite, List.getElem?_modify_ne _ _ hne]
  sized := by
    rintro size b ⟨bs, hbs, rfl⟩
    by_cases hab : a = b
    · subst hab
      refine ⟨xs.take bs.length ++ bs.drop xs.length, ?_, ?_⟩
      · rw [overwrite, List.getElem?_modify_eq, hbs]
        rfl
      · rw [List.length_append, List.length_take, List.length_drop]
        omega
    · refine ⟨bs, ?_, rfl⟩
      rw [overwrite, List.getElem?_modify_ne _ _ hab]
      exact hbs
  length_le := Nat.le_of_eq (List.length_modify ..).symm

/-- What was written is read back, whatever the buffer held. -/
theorem contents_overwrite (ha : Sized memory size a) {xs : List α} (hfits : xs.length ≤ size) :
    Slice.contents (overwrite memory a xs) ⟨a, xs.length⟩ = xs := by
  obtain ⟨bs, hbs, rfl⟩ := ha
  have hread : (overwrite memory a xs)[a]? = some (xs.take bs.length ++ bs.drop xs.length) := by
    rw [overwrite, List.getElem?_modify_eq, hbs]
    rfl
  rw [Slice.contents, hread, Option.getD_some, List.take_of_length_le hfits, List.take_left]

end Lending

/-- Two free lists with their buffers in one memory. -/
structure Shared (size max size' max' : Nat) (memory : Memory α) (free other used : List Nat) :
    Prop where
  first : WellKept size max memory free (other ++ used)
  second : WellKept size' max' memory other (free ++ used)

section Sharing

variable {memory memory' : Memory α} {size max size' max' : Nat} {free other used : List Nat}
  {a : Nat}

theorem Shared.swap (h : Shared size max size' max' memory free other used) :
    Shared size' max' size max memory other free used :=
  ⟨h.second, h.first⟩

theorem Shared.of_perm {used' : List Nat} (h : Shared size max size' max' memory free other used)
    (hperm : used.Perm used') : Shared size max size' max' memory free other used' :=
  ⟨h.first.of_perm (hperm.append_left other), h.second.of_perm (hperm.append_left free)⟩

theorem Shared.known (h : Shared size max size' max' memory free other used) :
    ∀ a ∈ used, a < memory.length :=
  fun a ha => h.first.known a (List.mem_append_right other ha)

theorem Shared.make (h : Shared size max size' max' memory free other used) (blank : α)
    (size'' : Nat) :
    Shared size max size' max' (make blank size'' memory).2 free other
      ((make blank size'' memory).1 :: used) :=
  ⟨(h.first.make blank size'').of_perm List.perm_middle.symm,
    (h.second.make blank size'').of_perm List.perm_middle.symm⟩

theorem Shared.borrow (h : Shared size max size' max' memory free other used) (blank : α) :
    ∃ a memory' free', borrow blank size memory free = (a, memory', free') ∧
      Shared size max size' max' memory' free' other (a :: used) ∧ Sized memory' size a ∧
      Keeps used memory memory' ∧ free.length ≤ free'.length + 1 := by
  have hkept : ∀ {memory' : Memory α}, Keeps (other ++ used) memory memory' →
      Keeps used memory memory' := fun hkeeps =>
    ⟨fun a ha => hkeeps.contents a (List.mem_append_right other ha), hkeeps.sized,
      hkeeps.length_le⟩
  obtain ⟨a, memory', free', hborrow, hfirst, hsized, hkeeps, hlength⟩ := h.first.borrow blank
  refine ⟨a, memory', free', hborrow, ⟨hfirst.of_perm List.perm_middle.symm, ?_⟩, hsized,
    hkept hkeeps, hlength⟩
  cases free with
  | nil =>
      cases hborrow
      exact h.second.make blank size
  | cons b free =>
      cases hborrow
      exact h.second.of_perm List.perm_middle.symm

theorem Shared.giveBack (h : Shared size max size' max' memory free other (a :: used))
    (ha : Sized memory size a) :
    Shared size max size' max' memory (giveBack max free a) other used := by
  refine ⟨(h.first.of_perm List.perm_middle).giveBack ha, ?_⟩
  have hsecond : WellKept size' max' memory other (a :: (free ++ used)) :=
    h.second.of_perm List.perm_middle
  rw [FreeLists.giveBack]
  split
  · refine hsecond.of_perm ?_
    rw [List.append_assoc]
    exact List.perm_middle.symm
  · exact hsecond.drop

theorem Shared.drop (h : Shared size max size' max' memory free other (a :: used)) :
    Shared size max size' max' memory free other used :=
  ⟨(h.first.of_perm List.perm_middle).drop, (h.second.of_perm List.perm_middle).drop⟩

/-- A buffer in use is written, and the free lists do not notice. -/
theorem Shared.overwrite (h : Shared size max size' max' memory free other (a :: used))
    (xs : List α) :
    Shared size max size' max' (overwrite memory a xs) free other (a :: used) ∧
      Keeps used memory (overwrite memory a xs) := by
  have hunused : a ∉ used := fun ha =>
    (List.nodup_cons.mp (nodup_middle.mp (List.nodup_append.mp h.first.nodup).2.1)).1
      (List.mem_append_right other ha)
  have hsized : ∀ {size b}, Sized memory size b → Sized (FreeLists.overwrite memory a xs) size b :=
    fun hb => (keeps_overwrite (List.not_mem_nil (a := a)) xs).sized hb
  have hlength : memory.length ≤ (FreeLists.overwrite memory a xs).length :=
    (keeps_overwrite (List.not_mem_nil (a := a)) xs).length_le
  refine ⟨⟨⟨h.first.nodup, fun b hb => hsized (h.first.sized b hb), fun b hb => ?_,
    h.first.length_le⟩, ⟨h.second.nodup, fun b hb => hsized (h.second.sized b hb), fun b hb => ?_,
    h.second.length_le⟩⟩, keeps_overwrite hunused xs⟩
  · exact Nat.lt_of_lt_of_le (h.first.known b hb) hlength
  · exact Nat.lt_of_lt_of_le (h.second.known b hb) hlength

end Sharing

end ElectrumLightning.FreeLists
