import Mathlib.Data.List.TakeDrop

/-!
A reader with a buffer over a source that never delivers less than it has. One
read takes from the buffer alone, or, when that is empty, from one read of the
source.
-/

namespace ElectrumLightning.BufferedReading

variable {α : Type*}

structure Reader (α : Type*) where
  buffered : List α
  source : List α

namespace Reader

def contents (r : Reader α) : List α := r.buffered ++ r.source

/-- A read of at most `n` elements; the result is `none` at the end of the
input. A large read with an empty buffer goes past the buffer. -/
def read (size n : Nat) (r : Reader α) : Option (List α × Reader α) :=
  if n = 0 then some ([], r)
  else if r.buffered ≠ [] then some (r.buffered.take n, ⟨r.buffered.drop n, r.source⟩)
  else if r.source = [] then none
  else if size ≤ n then some (r.source.take n, ⟨[], r.source.drop n⟩)
  else some ((r.source.take size).take n, ⟨(r.source.take size).drop n, r.source.drop size⟩)

/-- Reads until there are `n` elements. Every read delivers at least one, so
`n` rounds are enough. -/
def readAtLeast (size : Nat) : Nat → Nat → Reader α → Option (List α × Reader α)
  | _, 0, r => some ([], r)
  | 0, _ + 1, _ => none
  | rounds + 1, n + 1, r => do
      let (xs, r) ← r.read size (n + 1)
      let (ys, r) ← readAtLeast size rounds (n + 1 - xs.length) r
      some (xs ++ ys, r)

def readFull (size n : Nat) (r : Reader α) : Option (List α × Reader α) :=
  readAtLeast size n n r

def readByte (size : Nat) (r : Reader α) : Option (α × Reader α) :=
  match r.buffered with
  | x :: xs => some (x, ⟨xs, r.source⟩)
  | [] =>
      match r.source.take size with
      | [] => none
      | x :: xs => some (x, ⟨xs, r.source.drop size⟩)

def readBytes (size : Nat) : Nat → Reader α → List α
  | 0, _ => []
  | rounds + 1, r =>
      match r.readByte size with
      | none => []
      | some (x, r) => x :: readBytes size rounds r

/-- Reads one element after the other until the end of the input. -/
def readToEnd (size : Nat) (r : Reader α) : List α := readBytes size (r.contents.length + 1) r

/-! ### What is read is what was there -/

section Contents

variable {size n : Nat} {r r' : Reader α} {xs ys : List α}

theorem contents_of_read (h : r.read size n = some (xs, r')) :
    xs ++ r'.contents = r.contents := by
  unfold read at h
  split_ifs at h with hzero hbuffered hsource hsize
  all_goals
    cases h
    simp_all [contents, ← List.append_assoc]

theorem length_of_read (h : r.read size n = some (xs, r')) : xs.length ≤ n := by
  unfold read at h
  split_ifs at h with hzero hbuffered hsource hsize
  all_goals
    cases h
    simp only [List.length_take, List.length_nil]
    omega

theorem of_readAtLeast {rounds : Nat} (h : readAtLeast size rounds n r = some (xs, r')) :
    xs ++ r'.contents = r.contents ∧ xs.length = n := by
  induction rounds generalizing n r xs with
  | zero =>
      cases n with
      | zero =>
          rw [readAtLeast, Option.some_inj] at h
          cases h
          exact ⟨rfl, rfl⟩
      | succ n => cases h
  | succ rounds ih =>
      cases n with
      | zero =>
          rw [readAtLeast, Option.some_inj] at h
          cases h
          exact ⟨rfl, rfl⟩
      | succ n =>
          obtain ⟨⟨ys, r₁⟩, hread, h⟩ := Option.bind_eq_some_iff.mp h
          obtain ⟨⟨zs, r₂⟩, hrest, h⟩ := Option.bind_eq_some_iff.mp h
          cases h
          obtain ⟨hcontents, hlength⟩ := ih hrest
          have hle := length_of_read hread
          constructor
          · rw [List.append_assoc, hcontents, contents_of_read hread]
          · rw [List.length_append, hlength]
            omega

theorem of_readFull (h : r.readFull size n = some (xs, r')) :
    xs ++ r'.contents = r.contents ∧ xs.length = n :=
  of_readAtLeast h

theorem readBytes_eq (hsize : 0 < size) {rounds : Nat} (h : r.contents.length < rounds) :
    readBytes size rounds r = r.contents := by
  induction rounds generalizing r with
  | zero => omega
  | succ rounds ih =>
      obtain ⟨buffered, source⟩ := r
      cases buffered with
      | cons x buffered =>
          have hrest : readBytes size rounds ⟨buffered, source⟩ = buffered ++ source :=
            ih (by simpa [contents] using h)
          simp only [readBytes, readByte, hrest]
          rfl
      | nil =>
          cases source with
          | nil => simp [readBytes, readByte, contents]
          | cons x source =>
              obtain ⟨room, rfl⟩ := Nat.exists_eq_succ_of_ne_zero (Nat.ne_of_gt hsize)
              have hrest : readBytes (room + 1) rounds ⟨source.take room, source.drop room⟩ =
                  source.take room ++ source.drop room :=
                ih (by simpa [contents] using h)
              simp only [readBytes, readByte, List.take_succ_cons, List.drop_succ_cons, hrest]
              simp [contents]

theorem readToEnd_eq (hsize : 0 < size) (r : Reader α) : r.readToEnd size = r.contents :=
  readBytes_eq hsize (Nat.lt_succ_self _)

end Contents

end Reader

/-! ### How full the buffer is -/

/-- The numbers of elements in the buffer and behind it. -/
structure Fill where
  buffered : Nat
  source : Nat
deriving DecidableEq

namespace Fill

/-- A read of `n` elements is not cut short by the end of the buffer. -/
def Whole (f : Fill) (n : Nat) : Prop := f.buffered = 0 ∨ n ≤ f.buffered

instance (f : Fill) (n : Nat) : Decidable (f.Whole n) := inferInstanceAs (Decidable (_ ∨ _))

/-- After a read of `n` elements. -/
def skip (size n : Nat) (f : Fill) : Fill :=
  if f.buffered ≠ 0 then ⟨f.buffered - n, f.source⟩
  else if size ≤ n then ⟨0, f.source - n⟩
  else ⟨min size f.source - n, f.source - size⟩

/-- After the reads of `n` elements: when the buffer holds some of them, these
are read first. -/
def skipFull (size n : Nat) (f : Fill) : Fill :=
  if f.Whole n then f.skip size n
  else skip size (n - f.buffered) ⟨0, f.source⟩

end Fill

namespace Reader

def fill (r : Reader α) : Fill := ⟨r.buffered.length, r.source.length⟩

variable {size n : Nat} {r : Reader α}

theorem read_whole (size : Nat) (hn : 0 < n) (hlength : n ≤ r.contents.length)
    (hwhole : r.fill.Whole n) :
    ∃ r', r.read size n = some (r.contents.take n, r') ∧ r'.contents = r.contents.drop n ∧
      r'.fill = r.fill.skip size n := by
  obtain ⟨buffered, source⟩ := r
  simp only [contents, List.length_append] at hlength
  have hne : n ≠ 0 := by omega
  rcases buffered with _ | ⟨x, buffered⟩
  · have hsource : source ≠ [] := by
      rintro rfl
      simp at hlength
      omega
    by_cases hsize : size ≤ n
    · refine ⟨⟨[], source.drop n⟩, ?_, rfl, ?_⟩
      · simp [read, hne, hsource, hsize, contents]
      · simp [fill, Fill.skip, hsize]
    · have htake : (source.take size).take n = source.take n := by
        rw [List.take_take, Nat.min_eq_left (by omega)]
      refine ⟨⟨(source.take size).drop n, source.drop size⟩, ?_, ?_, ?_⟩
      · simp [read, hne, hsource, hsize, contents, htake]
      · have hdrop : source.drop size = (source.drop n).drop (size - n) := by
          rw [List.drop_drop]
          congr 1
          omega
        simp only [contents, List.nil_append]
        rw [List.drop_take, hdrop, List.take_append_drop]
      · simp [fill, Fill.skip, hsize]
  · have hle : n ≤ (x :: buffered).length := by
      rcases hwhole with hzero | hle
      · simp [fill] at hzero
      · exact hle
    refine ⟨⟨(x :: buffered).drop n, source⟩, ?_, ?_, ?_⟩
    · rw [contents, List.take_append_of_le_length hle]
      simp [read, hne]
    · rw [contents, contents, List.drop_append_of_le_length hle]
    · simp [fill, Fill.skip]

/-- A read that would be cut short delivers what the buffer holds. -/
theorem read_short (hwhole : ¬ r.fill.Whole n) :
    r.read size n = some (r.buffered, ⟨[], r.source⟩) := by
  obtain ⟨hpos, hlt⟩ := not_or.mp hwhole
  have hne : r.buffered ≠ [] := fun hnil => hpos (congrArg List.length hnil)
  have hle : r.buffered.length ≤ n := Nat.le_of_not_le hlt
  have hn : n ≠ 0 := by
    rintro rfl
    exact hlt (Nat.zero_le _)
  simp [read, hn, hne, List.take_of_length_le hle, List.drop_eq_nil_of_le hle]

theorem readAtLeast_append {rounds : Nat} {r₁ r₂ : Reader α} {xs ys : List α} (hn : 0 < n)
    (hread : r.read size n = some (xs, r₁))
    (hrest : readAtLeast size rounds (n - xs.length) r₁ = some (ys, r₂)) :
    readAtLeast size (rounds + 1) n r = some (xs ++ ys, r₂) := by
  obtain ⟨n, rfl⟩ := Nat.exists_eq_succ_of_ne_zero (Nat.ne_of_gt hn)
  refine Option.bind_eq_some_iff.mpr ⟨(xs, r₁), hread, ?_⟩
  exact Option.bind_eq_some_iff.mpr ⟨(ys, r₂), hrest, rfl⟩

theorem readAtLeast_whole (size rounds : Nat) (hn : 0 < n) (hlength : n ≤ r.contents.length)
    (hwhole : r.fill.Whole n) :
    ∃ r', readAtLeast size (rounds + 1) n r = some (r.contents.take n, r') ∧
      r'.contents = r.contents.drop n ∧ r'.fill = r.fill.skip size n := by
  obtain ⟨r', hread, hcontents, hfill⟩ := read_whole size hn hlength hwhole
  refine ⟨r', ?_, hcontents, hfill⟩
  rw [← List.append_nil (r.contents.take n)]
  apply readAtLeast_append hn hread
  rw [List.length_take_of_le hlength, Nat.sub_self, readAtLeast]

theorem readFull_eq (size : Nat) (hn : 0 < n) (hlength : n ≤ r.contents.length) :
    ∃ r', r.readFull size n = some (r.contents.take n, r') ∧
      r'.contents = r.contents.drop n ∧ r'.fill = r.fill.skipFull size n := by
  obtain ⟨rounds, rfl⟩ := Nat.exists_eq_succ_of_ne_zero (Nat.ne_of_gt hn)
  by_cases hwhole : r.fill.Whole (rounds + 1)
  · rw [Fill.skipFull, if_pos hwhole]
    exact readAtLeast_whole size rounds hn hlength hwhole
  · obtain ⟨hpos, hlt⟩ := not_or.mp hwhole
    simp only [fill] at hpos hlt
    have hbuffered : r.buffered.length ≤ rounds + 1 := Nat.le_of_not_le hlt
    simp only [contents, List.length_append] at hlength
    -- the first round empties the buffer, the second one reads from the source
    obtain ⟨rest, rfl⟩ : ∃ rest, rounds = rest + 1 := ⟨rounds - 1, by omega⟩
    have hsource : rest + 1 + 1 - r.buffered.length ≤
        (Reader.mk [] r.source).contents.length := by
      simp only [contents, List.nil_append]
      omega
    obtain ⟨r', hread, hcontents, hfill⟩ :=
      readAtLeast_whole size rest (by omega) hsource (.inl rfl)
    refine ⟨r', ?_, ?_, ?_⟩
    · rw [contents, List.take_append, List.take_of_length_le hbuffered]
      exact readAtLeast_append hn (read_short hwhole) hread
    · have hdrop : r.contents.drop (rest + 1 + 1) =
          r.source.drop (rest + 1 + 1 - r.buffered.length) := by
        rw [contents, List.drop_append, List.drop_eq_nil_of_le hbuffered, List.nil_append]
      rw [hcontents, hdrop]
      rfl
    · rw [hfill, Fill.skipFull, if_neg hwhole]
      rfl

end Reader

end ElectrumLightning.BufferedReading
