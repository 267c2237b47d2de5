import ElectrumLightning.JsonText

/-!
JSON texts on a stream. White space that no string holds can be left out of a
text: it decides nothing between two tokens, for one of them is a bracket, a
comma, a colon or a quoted string. The texts of objects can be told apart when
they stand one after the other.
-/

namespace ElectrumLightning.JsonText

open ElectrumLightning.ByteStrings

/-- The white space that a string has to escape. -/
def isBreak (b : UInt8) : Bool := b == 0x09 || b == 0x0a || b == 0x0d

theorem eq_of_isBreak {b : UInt8} (h : isBreak b = true) : b = 0x09 ∨ b = 0x0a ∨ b = 0x0d := by
  simp only [isBreak, Bool.or_eq_true, beq_iff_eq] at h
  rcases h with (rfl | rfl) | rfl
  · exact .inl rfl
  · exact .inr (.inl rfl)
  · exact .inr (.inr rfl)

theorem isSpace_of_isBreak {b : UInt8} (h : isBreak b = true) : isSpace b = true := by
  rcases eq_of_isBreak h with rfl | rfl | rfl
  all_goals rfl

/-- A constant that is being read has no break in the rest of its spelling. -/
def Reader.Spelled (r : Reader) : Prop :=
  ∀ ⦃text rest⦄, r.mode = .constant text rest → rest.any isBreak = false

theorem spelled_of_mode {mode : Mode} {stack : List Frame}
    (h : ∀ text rest, mode ≠ .constant text rest) : Reader.Spelled ⟨mode, stack⟩ :=
  fun text rest heq => absurd heq (h text rest)

theorem spelled_of_complete {v : Json} {stack : List Frame} {r : Reader}
    (h : complete v stack = .ok r) : r.Spelled := by
  unfold complete at h
  split at h <;> cases h
  all_goals exact spelled_of_mode fun _ _ => Mode.noConfusion

theorem spelled_of_openContainer {limit : Nat} {mode : Mode} {frame : Frame} {stack : List Frame}
    {r : Reader} (hmode : ∀ text rest, mode ≠ .constant text rest)
    (h : openContainer limit mode frame stack = .ok r) : r.Spelled := by
  unfold openContainer at h
  split at h <;> cases h
  exact spelled_of_mode hmode

theorem of_ite {c : Prop} [Decidable c] {x y : Except LoadsError Reader} {r : Reader} {P : Prop}
    (h : (if c then x else y) = .ok r) (hx : c → x = .ok r → P) (hy : y = .ok r → P) : P := by
  split at h
  · rename_i hc
    exact hx hc h
  · exact hy h

theorem spelled_of_ok {mode : Mode} {stack : List Frame} {r : Reader}
    (hmode : ∀ text rest, mode ≠ .constant text rest)
    (h : (.ok ⟨mode, stack⟩ : Except LoadsError Reader) = .ok r) : r.Spelled := by
  cases h
  exact spelled_of_mode hmode

theorem spelled_of_constant {text rest : Bytes} {stack : List Frame} {r : Reader}
    (hrest : rest.any isBreak = false)
    (h : (.ok ⟨.constant text rest, stack⟩ : Except LoadsError Reader) = .ok r) : r.Spelled := by
  cases h
  rintro text' rest' ⟨⟩
  exact hrest

theorem spelled_of_startValue {limit : Nat} {b : UInt8} {stack : List Frame} {r : Reader}
    (h : startValue limit b stack = .ok r) : r.Spelled := by
  have hopen : ∀ mode frame, (∀ text rest, mode ≠ .constant text rest) →
      openContainer limit mode frame stack = .ok r → r.Spelled :=
    fun _ _ hmode => spelled_of_openContainer hmode
  refine of_ite h (fun _ => spelled_of_ok fun _ _ => Mode.noConfusion) fun h => ?_
  refine of_ite h (fun _ => hopen _ _ fun _ _ => Mode.noConfusion) fun h => ?_
  refine of_ite h (fun _ => hopen _ _ fun _ _ => Mode.noConfusion) fun h => ?_
  refine of_ite h (fun _ => spelled_of_ok fun _ _ => Mode.noConfusion) fun h => ?_
  refine of_ite h (fun _ => spelled_of_ok fun _ _ => Mode.noConfusion) fun h => ?_
  refine of_ite h (fun _ => spelled_of_ok fun _ _ => Mode.noConfusion) fun h => ?_
  refine of_ite h (fun _ => spelled_of_constant rfl) fun h => ?_
  refine of_ite h (fun _ => spelled_of_constant rfl) fun h => ?_
  refine of_ite h (fun _ => spelled_of_constant rfl) fun h => ?_
  refine of_ite h (fun _ => spelled_of_constant rfl) fun h => ?_
  refine of_ite h (fun _ => spelled_of_constant rfl) fun h => ?_
  cases h

/-- A byte that can follow a value is white space, a comma or a closing bracket. -/
theorem continueAfter_eq_ok {b : UInt8} {r t : Reader} (h : continueAfter b r = .ok t) :
    isSpace b = true ∧ t = r ∨ (b = 0x2c ∨ b = 0x5d ∨ b = 0x7d) ∧ t.Spelled := by
  refine of_ite h (fun hspace h => ?_) fun h => .inr ?_
  · cases h
    exact .inl ⟨hspace, rfl⟩
  · split at h
    · refine of_ite h (fun hcomma h => ?_) fun h => of_ite h (fun hclose h => ?_) fun h => ?_
      · exact ⟨.inl hcomma, spelled_of_ok (fun _ _ => Mode.noConfusion) h⟩
      · exact ⟨.inr (.inl hclose), spelled_of_complete h⟩
      · cases h
    · refine of_ite h (fun hcomma h => ?_) fun h => of_ite h (fun hclose h => ?_) fun h => ?_
      · exact ⟨.inl hcomma, spelled_of_ok (fun _ _ => Mode.noConfusion) h⟩
      · exact ⟨.inr (.inr hclose), spelled_of_complete h⟩
      · cases h
    · cases h

theorem spelled_of_continueAfter {b : UInt8} {r t : Reader} (hr : r.Spelled)
    (h : continueAfter b r = .ok t) : t.Spelled := by
  rcases continueAfter_eq_ok h with ⟨-, rfl⟩ | ⟨-, ht⟩
  · exact hr
  · exact ht

theorem spelled_of_endNumber {text : Bytes} {b : UInt8} {stack : List Frame} {r : Reader}
    (h : endNumber text b stack = .ok r) : r.Spelled := by
  obtain ⟨m, hm, hlast⟩ := bind_eq_ok_iff.mp h
  exact spelled_of_continueAfter (spelled_of_complete hm) hlast

theorem spelled_of_readByte {limit : Nat} {b : UInt8} {r t : Reader} (hr : r.Spelled)
    (h : readByte limit r b = .ok t) : t.Spelled := by
  obtain ⟨mode, stack⟩ := r
  have hsame : (.ok ⟨mode, stack⟩ : Except LoadsError Reader) = .ok t → t.Spelled := by
    rintro ⟨⟩
    exact hr
  cases mode with
  | value => exact of_ite h (fun _ => hsame) spelled_of_startValue
  | firstItem =>
      exact of_ite h (fun _ => hsame) fun h =>
        of_ite h (fun _ => spelled_of_complete) spelled_of_startValue
  | firstKey =>
      refine of_ite h (fun _ => hsame) fun h => of_ite h (fun _ => spelled_of_complete) fun h => ?_
      refine of_ite h (fun _ => spelled_of_ok fun _ _ => Mode.noConfusion) fun h => ?_
      cases h
  | nextKey =>
      refine of_ite h (fun _ => hsame) fun h => ?_
      refine of_ite h (fun _ => spelled_of_ok fun _ _ => Mode.noConfusion) fun h => ?_
      cases h
  | string isKey units =>
      refine of_ite h (fun _ h => ?_) fun h => ?_
      · exact of_ite h (fun _ => spelled_of_ok fun _ _ => Mode.noConfusion) spelled_of_complete
      · refine of_ite h (fun _ => spelled_of_ok fun _ _ => Mode.noConfusion) fun h => ?_
        refine of_ite h (fun _ h => ?_) (spelled_of_ok fun _ _ => Mode.noConfusion)
        cases h
  | escape isKey units =>
      refine of_ite h (fun _ => spelled_of_ok fun _ _ => Mode.noConfusion) fun h => ?_
      split at h
      · exact spelled_of_ok (fun _ _ => Mode.noConfusion) h
      · cases h
  | unicode isKey units missing code =>
      dsimp only [readByte] at h
      split at h
      · exact of_ite h (fun _ => spelled_of_ok fun _ _ => Mode.noConfusion)
          (spelled_of_ok fun _ _ => Mode.noConfusion)
      · cases h
  | colon key =>
      refine of_ite h (fun _ => hsame) fun h => ?_
      split at h
      · refine of_ite h (fun _ => spelled_of_ok fun _ _ => Mode.noConfusion) fun h => ?_
        cases h
      · cases h
  | constant text rest =>
      dsimp only [readByte] at h
      split at h
      · refine of_ite h (fun _ => spelled_of_complete) fun h => ?_
        cases h
      · have hspelled := hr rfl
        rw [List.any_cons, Bool.or_eq_false_iff] at hspelled
        refine of_ite h (fun _ => spelled_of_constant hspelled.2) fun h => ?_
        cases h
      · cases h
  | number phase text =>
      dsimp only [readByte] at h
      split at h
      · exact spelled_of_ok (fun _ _ => Mode.noConfusion) h
      · refine of_ite h (fun _ => spelled_of_endNumber) fun h => ?_
        refine of_ite h (fun _ => spelled_of_constant rfl) fun h => ?_
        cases h
  | afterValue => exact spelled_of_continueAfter hr h
  | finished v => exact spelled_of_continueAfter hr h

/-- A reader that has not been given the breaks. It lags behind only at the end
of a number, which it takes to be unfinished. -/
inductive Lags : Reader → Reader → Prop where
  | same (r : Reader) : Lags r r
  | number {phase : NumberPhase} {text : Bytes} {stack : List Frame} {r : Reader}
      (hends : endsNumber phase = true) (hcomplete : complete (.number text) stack = .ok r) :
      Lags ⟨.number phase text, stack⟩ r

theorem continueAfter_break {b : UInt8} (hb : isBreak b = true) (r : Reader) :
    continueAfter b r = .ok r := by
  rw [continueAfter, if_pos (isSpace_of_isBreak hb)]

theorem readByte_of_complete {limit : Nat} {v : Json} {stack : List Frame} {r : Reader}
    (h : complete v stack = .ok r) (b : UInt8) : readByte limit r b = continueAfter b r := by
  unfold complete at h
  split at h <;> cases h
  all_goals rfl

theorem numberPhase_break {b : UInt8} (hb : isBreak b = true) (phase : NumberPhase) :
    numberPhase phase b = none := by
  rcases eq_of_isBreak hb with rfl | rfl | rfl
  all_goals
    cases phase
    all_goals rfl

/-- A break inside a token is an error. -/
theorem readByte_break {limit : Nat} {b : UInt8} {mode : Mode} {stack : List Frame} {t : Reader}
    (hb : isBreak b = true) (hr : Reader.Spelled ⟨mode, stack⟩)
    (h : readByte limit ⟨mode, stack⟩ b = .ok t) :
    t = ⟨mode, stack⟩ ∨ ∃ phase text, mode = .number phase text ∧ endsNumber phase = true ∧
      complete (.number text) stack = .ok t := by
  have hspace := isSpace_of_isBreak hb
  cases mode with
  | value | firstItem | firstKey | nextKey | colon =>
      dsimp only [readByte] at h
      rw [if_pos hspace] at h
      cases h
      exact .inl rfl
  | afterValue | finished =>
      dsimp only [readByte] at h
      rw [continueAfter_break hb] at h
      cases h
      exact .inl rfl
  | string | escape | unicode =>
      rcases eq_of_isBreak hb with rfl | rfl | rfl
      all_goals cases h
  | constant text rest =>
      have hspelled : ∀ c ∈ rest, b ≠ c := by
        rintro c hc rfl
        exact List.any_eq_false.mp (hr rfl) b hc hb
      dsimp only [readByte] at h
      split at h
      · rw [if_neg (hspelled _ List.mem_cons_self)] at h
        cases h
      · rw [if_neg (hspelled _ List.mem_cons_self)] at h
        cases h
      · cases h
  | number phase text =>
      dsimp only [readByte] at h
      rw [numberPhase_break hb] at h
      dsimp only at h
      split at h
      · rename_i hends
        obtain ⟨m, hm, hlast⟩ := bind_eq_ok_iff.mp h
        rw [continueAfter_break hb] at hlast
        cases hlast
        exact .inr ⟨phase, text, rfl, hends, hm⟩
      · rcases eq_of_isBreak hb with rfl | rfl | rfl
        all_goals
          rw [if_neg (by simp)] at h
          cases h

theorem lags_of_break {limit : Nat} {b : UInt8} {s r t : Reader} (hb : isBreak b = true)
    (hr : r.Spelled) (h : Lags s r) (hread : readByte limit r b = .ok t) : Lags s t := by
  cases h with
  | number hends hcomplete =>
      rw [readByte_of_complete hcomplete, continueAfter_break hb] at hread
      cases hread
      exact .number hends hcomplete
  | same =>
      obtain ⟨mode, stack⟩ := s
      rcases readByte_break hb hr hread with rfl | ⟨phase, text, rfl, hends, hcomplete⟩
      · exact .same _
      · exact .number hends hcomplete

/-- What can follow a value does not belong to a number. -/
theorem numberPhase_of_continueAfter {b : UInt8} {r t : Reader} {phase : NumberPhase}
    (h : continueAfter b r = .ok t) : numberPhase phase b = none := by
  have hbyte : isSpace b = true ∨ b = 0x2c ∨ b = 0x5d ∨ b = 0x7d := by
    rcases continueAfter_eq_ok h with ⟨hspace, -⟩ | ⟨hbyte, -⟩
    · exact .inl hspace
    · exact .inr hbyte
  simp only [isSpace, Bool.or_eq_true, beq_iff_eq] at hbyte
  rcases hbyte with (((rfl | rfl) | rfl) | rfl) | rfl | rfl | rfl
  all_goals
    cases phase
    all_goals rfl

theorem lags_of_readByte {limit : Nat} {b : UInt8} {s r t : Reader} (h : Lags s r)
    (hread : readByte limit r b = .ok t) : ∃ u, readByte limit s b = .ok u ∧ Lags u t := by
  cases h with
  | same => exact ⟨t, hread, .same t⟩
  | number hends hcomplete =>
      rw [readByte_of_complete hcomplete] at hread
      refine ⟨t, ?_, .same t⟩
      dsimp only [readByte]
      rw [numberPhase_of_continueAfter hread]
      dsimp only
      rw [if_pos hends]
      exact bind_eq_ok_iff.mpr ⟨_, hcomplete, hread⟩

theorem finish_of_lags {s r : Reader} {v : Json} (h : Lags s r) (hfinish : r.finish = .ok v) :
    s.finish = .ok v := by
  cases h with
  | same => exact hfinish
  | @number phase text stack r hends hcomplete =>
      unfold complete at hcomplete
      split at hcomplete <;> cases hcomplete
      · cases hfinish
        exact if_pos hends
      · cases hfinish
      · cases hfinish

/-- Left out are some of the breaks. -/
theorem lags_of_readBytes {limit : Nat} {leftOut : UInt8 → Bool} {text : Bytes} {s r t : Reader}
    (hbreaks : ∀ b, leftOut b = true → isBreak b = true) (hr : r.Spelled) (h : Lags s r)
    (hread : readBytes limit r text = .ok t) :
    ∃ u, readBytes limit s (text.filter fun b => !leftOut b) = .ok u ∧ Lags u t := by
  induction text generalizing s r with
  | nil =>
      cases hread
      exact ⟨s, rfl, h⟩
  | cons b text ih =>
      rw [readBytes_cons] at hread
      obtain ⟨m, hm, hrest⟩ := bind_eq_ok_iff.mp hread
      have hspelled := spelled_of_readByte hr hm
      cases hb : leftOut b with
      | true =>
          obtain ⟨u, hu, hlags⟩ := ih hspelled (lags_of_break (hbreaks b hb) hr h hm) hrest
          refine ⟨u, ?_, hlags⟩
          rw [List.filter_cons_of_neg (by rw [hb]; simp), hu]
      | false =>
          obtain ⟨m', hm', hlags⟩ := lags_of_readByte h hm
          obtain ⟨u, hu, hlast⟩ := ih hspelled hlags hrest
          refine ⟨u, ?_, hlast⟩
          rw [List.filter_cons_of_pos (by rw [hb]; rfl), readBytes_cons, hm']
          exact hu

/-- The breaks of a JSON text do not matter. -/
theorem loads_without_breaks {limit : Nat} {leftOut : UInt8 → Bool} {text : Bytes} {v : Json}
    (hbreaks : ∀ b, leftOut b = true → isBreak b = true) (h : loads limit text = .ok v) :
    loads limit (text.filter fun b => !leftOut b) = .ok v := by
  have hascii := isAscii_of_loads h
  have hkept : isAscii (text.filter fun b => !leftOut b) = true :=
    List.all_eq_true.mpr fun b hb => List.all_eq_true.mp hascii b (List.mem_filter.mp hb).1
  rw [loads, if_pos hascii] at h
  rw [loads, if_pos hkept]
  obtain ⟨r, hr, hfinish⟩ := bind_eq_ok_iff.mp h
  obtain ⟨u, hu, hlags⟩ :=
    lags_of_readBytes hbreaks (spelled_of_mode fun _ _ => Mode.noConfusion) (.same _) hr
  exact bind_eq_ok_iff.mpr ⟨u, hu, finish_of_lags hlags hfinish⟩

theorem getLast?_filter {α : Type} {p : α → Bool} {xs : List α} {a : α}
    (hlast : xs.getLast? = some a) (ha : p a = true) : (xs.filter p).getLast? = some a := by
  obtain ⟨front, rfl⟩ := List.getLast?_eq_some_iff.mp hlast
  rw [List.filter_append, List.filter_cons_of_pos ha, List.filter_nil, List.getLast?_concat]

theorem head?_filter {α : Type} {p : α → Bool} {xs : List α} {a : α}
    (hhead : xs.head? = some a) (ha : p a = true) : (xs.filter p).head? = some a := by
  cases xs with
  | nil => cases hhead
  | cons x xs =>
      cases hhead
      rw [List.filter_cons_of_pos ha, List.head?_cons]

theorem ObjectText.without_breaks {limit : Nat} {leftOut : UInt8 → Bool} {text : Bytes} {v : Json}
    (h : ObjectText limit text v) (hbreaks : ∀ b, leftOut b = true → isBreak b = true) :
    ObjectText limit (text.filter fun b => !leftOut b) v := by
  have hkept : ∀ b, isBreak b = false → (!leftOut b) = true := by
    intro b hb
    cases hleft : leftOut b with
    | false => rfl
    | true =>
        rw [hbreaks b hleft] at hb
        cases hb
  exact ⟨head?_filter h.opens (hkept _ rfl), getLast?_filter h.closes (hkept _ rfl),
    loads_without_breaks hbreaks h.value⟩

/-! ### Texts that follow each other -/

/-- What has been read since the last value, and the values. -/
structure Splitter where
  pending : Bytes
  values : List Json

def Splitter.feed (limit : Nat) (s : Splitter) (b : UInt8) : Splitter :=
  match loads limit (s.pending ++ [b]) with
  | .ok v => ⟨[], s.values ++ [v]⟩
  | .error _ => ⟨s.pending ++ [b], s.values⟩

/-- Reading byte by byte, until what has been read since the last value is a
value itself. -/
def Splitter.read (limit : Nat) (s : Splitter) (bs : Bytes) : Splitter :=
  bs.foldl (Splitter.feed limit) s

theorem Splitter.read_append (limit : Nat) (s : Splitter) (front back : Bytes) :
    s.read limit (front ++ back) = (s.read limit front).read limit back :=
  List.foldl_append

/-- As long as it cannot be loaded, the input is kept. -/
theorem Splitter.read_incomplete {limit : Nat} {pending bs : Bytes} {values : List Json}
    (h : ∀ front back, bs = front ++ back → front ≠ [] →
      ∃ e, loads limit (pending ++ front) = .error e) :
    Splitter.read limit ⟨pending, values⟩ bs = ⟨pending ++ bs, values⟩ := by
  induction bs generalizing pending with
  | nil => rw [List.append_nil]; rfl
  | cons b bs ih =>
      obtain ⟨e, he⟩ := h [b] bs rfl (List.cons_ne_nil b [])
      have hrest := @ih (pending ++ [b]) fun front back hsplit _ => by
        obtain ⟨e, he⟩ := h (b :: front) back (by rw [hsplit]; rfl) (List.cons_ne_nil b front)
        exact ⟨e, by rwa [List.append_assoc]⟩
      rw [List.append_assoc] at hrest
      change Splitter.read limit (Splitter.feed limit ⟨pending, values⟩ b) bs = _
      rw [Splitter.feed, he]
      exact hrest

theorem Splitter.read_spaces {limit : Nat} {pending spaces : Bytes} {values : List Json}
    (hpending : ∀ b ∈ pending, isSpace b = true) (hspaces : ∀ b ∈ spaces, isSpace b = true) :
    Splitter.read limit ⟨pending, values⟩ spaces = ⟨pending ++ spaces, values⟩ := by
  refine Splitter.read_incomplete fun front back hsplit _ => ⟨.valueError, loads_spaces ?_⟩
  intro b hb
  rcases List.mem_append.mp hb with hb | hb
  · exact hpending b hb
  · exact hspaces b (hsplit ▸ List.mem_append_left back hb)

/-- The text of an object is complete at its last byte, and not before. -/
theorem Splitter.read_object {limit : Nat} {spaces text : Bytes} {values : List Json} {v : Json}
    (hspaces : ∀ b ∈ spaces, isSpace b = true) (h : ObjectText limit text v) :
    Splitter.read limit ⟨spaces, values⟩ text = ⟨[], values ++ [v]⟩ := by
  obtain ⟨body, rfl⟩ := List.getLast?_eq_some_iff.mp h.closes
  have hbody : Splitter.read limit ⟨spaces, values⟩ body = ⟨spaces ++ body, values⟩ := by
    refine Splitter.read_incomplete fun front back hsplit _ => ⟨.valueError, ?_⟩
    rw [loads_spaces_append hspaces]
    subst hsplit
    rw [List.append_assoc] at h
    exact h.loads_incomplete_text (by simp)
  rw [Splitter.read_append, hbody]
  change Splitter.feed limit ⟨spaces ++ body, values⟩ 0x7d = _
  rw [Splitter.feed, List.append_assoc, loads_spaces_append hspaces, h.value]

/-- The text of an object, with white space behind it. -/
def Framed (limit : Nat) (item : Bytes) (v : Json) : Prop :=
  ∃ text spaces, item = text ++ spaces ∧ ObjectText limit text v ∧ ∀ b ∈ spaces, isSpace b = true

/-- A stream of objects is read as their values, one by one. -/
theorem Splitter.read_flatten {limit : Nat} {pending : Bytes} {items : List Bytes}
    {values vs : List Json} (hpending : ∀ b ∈ pending, isSpace b = true)
    (h : List.Forall₂ (Framed limit) items vs) :
    ∃ spaces, Splitter.read limit ⟨pending, values⟩ items.flatten = ⟨spaces, values ++ vs⟩ ∧
      ∀ b ∈ spaces, isSpace b = true := by
  induction h generalizing pending values with
  | nil => exact ⟨pending, by rw [List.append_nil]; rfl, hpending⟩
  | @cons item v items vs hitem _ ih =>
      obtain ⟨text, spaces, rfl, htext, hspaces⟩ := hitem
      obtain ⟨last, hread, hlast⟩ := ih hspaces
      refine ⟨last, ?_, hlast⟩
      rw [List.flatten_cons, Splitter.read_append, Splitter.read_append,
        Splitter.read_object hpending htext,
        Splitter.read_spaces (List.forall_mem_nil _) hspaces, List.nil_append, hread,
        List.append_assoc]
      rfl

end ElectrumLightning.JsonText
