import ElectrumLightning.ByteStrings

/-!
A JSON reader that consumes its text byte by byte: `loads` accepts a value
with white space around it, limits the nesting of containers, and reports
whether a rejected text is malformed or nested too deeply. As a fold over
the bytes it makes the behaviour on the prefixes of a text immediate.
-/

namespace ElectrumLightning.JsonText

open ElectrumLightning.ByteStrings

/-- Decoded values. Numbers and constants keep their text, strings are
UTF-16 code units. -/
inductive Json where
  | constant (text : Bytes)
  | number (text : Bytes)
  | string (units : List Nat)
  | array (items : List Json)
  | object (members : List (List Nat × Json))

inductive LoadsError where
  | valueError
  | recursionError
deriving DecidableEq

/-- An open container, with its contents so far in reverse. `member` is an
object waiting for the value of `key`. -/
inductive Frame where
  | array (items : List Json)
  | object (members : List (List Nat × Json))
  | member (members : List (List Nat × Json)) (key : List Nat)

inductive NumberPhase where
  | minus
  | zero
  | digits
  | point
  | fraction
  | exponent
  | exponentSign
  | exponentDigits
deriving DecidableEq

inductive Mode where
  | value
  | firstItem
  | firstKey
  | nextKey
  | string (isKey : Bool) (units : List Nat)
  | escape (isKey : Bool) (units : List Nat)
  | unicode (isKey : Bool) (units : List Nat) (missing code : Nat)
  | colon (key : List Nat)
  | constant (text rest : Bytes)
  | number (phase : NumberPhase) (text : Bytes)
  | afterValue
  | finished (v : Json)

structure Reader where
  mode : Mode
  stack : List Frame

def Reader.start : Reader := ⟨.value, []⟩

def isSpace (b : UInt8) : Bool := b == 0x20 || b == 0x09 || b == 0x0a || b == 0x0d

def isDigit (b : UInt8) : Bool := 0x30 ≤ b && b ≤ 0x39

def hexValue (b : UInt8) : Option Nat :=
  if isDigit b then some (b.toNat - 0x30)
  else if 0x61 ≤ b && b ≤ 0x66 then some (b.toNat - 0x57)
  else if 0x41 ≤ b && b ≤ 0x46 then some (b.toNat - 0x37)
  else none

def complete (v : Json) : List Frame → Except LoadsError Reader
  | [] => .ok ⟨.finished v, []⟩
  | .array items :: stack => .ok ⟨.afterValue, .array (v :: items) :: stack⟩
  | .member members key :: stack => .ok ⟨.afterValue, .object ((key, v) :: members) :: stack⟩
  | .object _ :: _ => .error .valueError

/-- Enter a container unless `limit` containers are open already. -/
def openContainer (limit : Nat) (mode : Mode) (frame : Frame) (stack : List Frame) :
    Except LoadsError Reader :=
  if limit ≤ stack.length then .error .recursionError else .ok ⟨mode, frame :: stack⟩

def startValue (limit : Nat) (b : UInt8) (stack : List Frame) : Except LoadsError Reader :=
  if b = 0x22 then .ok ⟨.string false [], stack⟩
  else if b = 0x7b then openContainer limit .firstKey (.object []) stack
  else if b = 0x5b then openContainer limit .firstItem (.array []) stack
  else if b = 0x2d then .ok ⟨.number .minus [b], stack⟩
  else if b = 0x30 then .ok ⟨.number .zero [b], stack⟩
  else if isDigit b then .ok ⟨.number .digits [b], stack⟩
  -- null, true, false and the constants NaN and Infinity
  else if b = 0x6e then .ok ⟨.constant [b] [0x75, 0x6c, 0x6c], stack⟩
  else if b = 0x74 then .ok ⟨.constant [b] [0x72, 0x75, 0x65], stack⟩
  else if b = 0x66 then .ok ⟨.constant [b] [0x61, 0x6c, 0x73, 0x65], stack⟩
  else if b = 0x4e then .ok ⟨.constant [b] [0x61, 0x4e], stack⟩
  else if b = 0x49 then .ok ⟨.constant [b] [0x6e, 0x66, 0x69, 0x6e, 0x69, 0x74, 0x79], stack⟩
  else .error .valueError

def continueAfter (b : UInt8) (r : Reader) : Except LoadsError Reader :=
  if isSpace b then .ok r
  else match r.mode, r.stack with
    | .afterValue, .array items :: stack =>
        if b = 0x2c then .ok ⟨.value, .array items :: stack⟩
        else if b = 0x5d then complete (.array items.reverse) stack
        else .error .valueError
    | .afterValue, .object members :: stack =>
        if b = 0x2c then .ok ⟨.nextKey, .object members :: stack⟩
        else if b = 0x7d then complete (.object members.reverse) stack
        else .error .valueError
    | _, _ => .error .valueError

/-- The phase after one more byte of a number, if the byte belongs to it. -/
def numberPhase (phase : NumberPhase) (b : UInt8) : Option NumberPhase :=
  match phase with
  | .minus => if b = 0x30 then some .zero else if isDigit b then some .digits else none
  | .zero => if b = 0x2e then some .point
      else if b = 0x65 || b = 0x45 then some .exponent else none
  | .digits => if isDigit b then some .digits else if b = 0x2e then some .point
      else if b = 0x65 || b = 0x45 then some .exponent else none
  | .point => if isDigit b then some .fraction else none
  | .fraction => if isDigit b then some .fraction
      else if b = 0x65 || b = 0x45 then some .exponent else none
  | .exponent => if isDigit b then some .exponentDigits
      else if b = 0x2b || b = 0x2d then some .exponentSign else none
  | .exponentSign => if isDigit b then some .exponentDigits else none
  | .exponentDigits => if isDigit b then some .exponentDigits else none

def endsNumber : NumberPhase → Bool
  | .zero | .digits | .fraction | .exponentDigits => true
  | _ => false

def endNumber (text : Bytes) (b : UInt8) (stack : List Frame) : Except LoadsError Reader :=
  (complete (.number text) stack).bind (continueAfter b)

def escapeUnit (b : UInt8) : Option Nat :=
  if b = 0x22 || b = 0x5c || b = 0x2f then some b.toNat
  else if b = 0x62 then some 8
  else if b = 0x66 then some 12
  else if b = 0x6e then some 10
  else if b = 0x72 then some 13
  else if b = 0x74 then some 9
  else none

def readByte (limit : Nat) (r : Reader) (b : UInt8) : Except LoadsError Reader :=
  match r.mode with
  | .value => if isSpace b then .ok r else startValue limit b r.stack
  | .firstItem =>
      if isSpace b then .ok r
      else if b = 0x5d then complete (.array []) r.stack.tail
      else startValue limit b r.stack
  | .firstKey =>
      if isSpace b then .ok r
      else if b = 0x7d then complete (.object []) r.stack.tail
      else if b = 0x22 then .ok ⟨.string true [], r.stack⟩
      else .error .valueError
  | .nextKey =>
      if isSpace b then .ok r
      else if b = 0x22 then .ok ⟨.string true [], r.stack⟩
      else .error .valueError
  | .string isKey units =>
      if b = 0x22 then
        if isKey then .ok ⟨.colon units.reverse, r.stack⟩
        else complete (.string units.reverse) r.stack
      else if b = 0x5c then .ok ⟨.escape isKey units, r.stack⟩
      else if b < 0x20 then .error .valueError
      else .ok ⟨.string isKey (b.toNat :: units), r.stack⟩
  | .escape isKey units =>
      if b = 0x75 then .ok ⟨.unicode isKey units 3 0, r.stack⟩
      else match escapeUnit b with
        | some unit => .ok ⟨.string isKey (unit :: units), r.stack⟩
        | none => .error .valueError
  | .unicode isKey units missing code =>
      match hexValue b with
      | some digit =>
          if missing = 0 then .ok ⟨.string isKey ((code * 16 + digit) :: units), r.stack⟩
          else .ok ⟨.unicode isKey units (missing - 1) (code * 16 + digit), r.stack⟩
      | none => .error .valueError
  | .colon key =>
      if isSpace b then .ok r
      else match r.stack with
        | .object members :: stack =>
            if b = 0x3a then .ok ⟨.value, .member members key :: stack⟩
            else .error .valueError
        | _ => .error .valueError
  | .constant text rest =>
      match rest with
      | [c] => if b = c then complete (.constant (text ++ [b])) r.stack else .error .valueError
      | c :: rest =>
          if b = c then .ok ⟨.constant (text ++ [b]) rest, r.stack⟩ else .error .valueError
      | [] => .error .valueError
  | .number phase text =>
      match numberPhase phase b with
      | some phase => .ok ⟨.number phase (text ++ [b]), r.stack⟩
      | none =>
          if endsNumber phase then endNumber text b r.stack
          else if phase = .minus && b = 0x49 then
            .ok ⟨.constant (text ++ [b]) [0x6e, 0x66, 0x69, 0x6e, 0x69, 0x74, 0x79], r.stack⟩
          else .error .valueError
  | .afterValue => continueAfter b r
  | .finished _ => continueAfter b r

def readBytes (limit : Nat) (r : Reader) (text : Bytes) : Except LoadsError Reader :=
  text.foldlM (readByte limit) r

def Reader.finish (r : Reader) : Except LoadsError Json :=
  match r.mode, r.stack with
  | .finished v, [] => .ok v
  | .number phase text, [] => if endsNumber phase then .ok (.number text) else .error .valueError
  | _, _ => .error .valueError

def isAscii (text : Bytes) : Bool := text.all (· < 0x80)

/-- Decode an ASCII text of one JSON value, with at most `limit` nested
containers. -/
def loads (limit : Nat) (text : Bytes) : Except LoadsError Json :=
  if isAscii text then (readBytes limit .start text).bind Reader.finish
  else .error .valueError

/-- The last member with the given key, as a lookup in the decoded dictionary
finds it. -/
def Json.member? (key : List Nat) : Json → Option Json
  | .object members => (members.reverse.find? fun m => m.1 == key).map Prod.snd
  | _ => none

theorem bind_eq_ok_iff {ε α β : Type*} {x : Except ε α} {f : α → Except ε β} {b : β} :
    x.bind f = .ok b ↔ ∃ a, x = .ok a ∧ f a = .ok b := by
  cases x with
  | error e => simp [Except.bind]
  | ok a => simp [Except.bind]

theorem readBytes_append (limit : Nat) (r : Reader) (front back : Bytes) :
    readBytes limit r (front ++ back) =
      (readBytes limit r front).bind fun r => readBytes limit r back :=
  List.foldlM_append

theorem readBytes_cons (limit : Nat) (r : Reader) (b : UInt8) (text : Bytes) :
    readBytes limit r (b :: text) =
      (readByte limit r b).bind fun r => readBytes limit r text :=
  List.foldlM_cons

theorem readBytes_spaces {limit : Nat} {r : Reader} {spaces : Bytes}
    (hspaces : ∀ b ∈ spaces, isSpace b = true)
    (hstay : ∀ b, isSpace b = true → readByte limit r b = .ok r) :
    readBytes limit r spaces = .ok r := by
  induction spaces with
  | nil => rfl
  | cons b spaces ih =>
      rw [readBytes_cons, hstay b (hspaces b (by simp))]
      exact ih fun c hc => hspaces c (by simp [hc])

theorem readByte_start_space (limit : Nat) (b : UInt8) (hb : isSpace b = true) :
    readByte limit .start b = .ok .start := by
  simp [readByte, Reader.start, hb]

theorem readByte_finished (limit : Nat) (v : Json) (stack : List Frame) (b : UInt8) :
    readByte limit ⟨.finished v, stack⟩ b =
      if isSpace b then .ok ⟨.finished v, stack⟩ else .error .valueError := by
  simp [readByte, continueAfter]

/-- A container is still open, or the whole value has been read. -/
def Reader.Opened (r : Reader) : Prop := r.stack ≠ [] ∨ ∃ v, r = ⟨.finished v, []⟩

theorem opened_of_complete {v : Json} {stack : List Frame} {r : Reader}
    (h : complete v stack = .ok r) : r.Opened := by
  unfold complete at h
  split at h <;> cases h
  · exact .inr ⟨v, rfl⟩
  · exact .inl (by simp)
  · exact .inl (by simp)

theorem opened_of_ite {c : Prop} [Decidable c] {x y : Except LoadsError Reader} {r : Reader}
    (h : (if c then x else y) = .ok r) (hx : x = .ok r → r.Opened) (hy : y = .ok r → r.Opened) :
    r.Opened := by
  split at h
  · exact hx h
  · exact hy h

theorem opened_of_openContainer {limit : Nat} {mode : Mode} {frame : Frame} {stack : List Frame}
    {r : Reader} (h : openContainer limit mode frame stack = .ok r) : r.Opened := by
  unfold openContainer at h
  split at h <;> cases h
  exact .inl (List.cons_ne_nil _ _)

theorem opened_of_startValue {limit : Nat} {b : UInt8} {stack : List Frame} {r : Reader}
    (hstack : stack ≠ []) (h : startValue limit b stack = .ok r) : r.Opened := by
  have hsame : ∀ mode, (.ok ⟨mode, stack⟩ : Except LoadsError Reader) = .ok r → r.Opened := by
    rintro mode ⟨⟩
    exact .inl hstack
  refine opened_of_ite h (hsame _) fun h => ?_
  refine opened_of_ite h opened_of_openContainer fun h => ?_
  refine opened_of_ite h opened_of_openContainer fun h => ?_
  refine opened_of_ite h (hsame _) fun h => opened_of_ite h (hsame _) fun h => ?_
  refine opened_of_ite h (hsame _) fun h => opened_of_ite h (hsame _) fun h => ?_
  refine opened_of_ite h (hsame _) fun h => opened_of_ite h (hsame _) fun h => ?_
  refine opened_of_ite h (hsame _) fun h => opened_of_ite h (hsame _) fun h => ?_
  cases h

theorem opened_of_continueAfter {b : UInt8} {r t : Reader} (hr : r.Opened)
    (h : continueAfter b r = .ok t) : t.Opened := by
  unfold continueAfter at h
  repeat' split at h
  all_goals first
    | exact opened_of_complete h
    | cases h
  all_goals first
    | exact hr
    | exact .inl (by simp)

theorem opened_of_endNumber {text : Bytes} {b : UInt8} {stack : List Frame} {r : Reader}
    (h : endNumber text b stack = .ok r) : r.Opened := by
  obtain ⟨m, hm, hlast⟩ := bind_eq_ok_iff.mp h
  exact opened_of_continueAfter (opened_of_complete hm) hlast

theorem opened_of_readByte {limit : Nat} {b : UInt8} {r t : Reader} (hr : r.Opened)
    (h : readByte limit r b = .ok t) : t.Opened := by
  rcases hr with hstack | ⟨v, rfl⟩
  · obtain ⟨mode, stack⟩ := r
    cases mode
    all_goals
      dsimp only [readByte] at h
      repeat' split at h
    all_goals first
      | exact opened_of_complete h
      | exact opened_of_startValue hstack h
      | exact opened_of_continueAfter (.inl hstack) h
      | exact opened_of_endNumber h
      | (cases h; exact .inl hstack)
      | (cases h; exact .inl (List.cons_ne_nil _ _))
      | cases h
  · rw [readByte_finished] at h
    split at h
    · cases h
      exact .inr ⟨v, rfl⟩
    · cases h

theorem opened_of_readBytes {limit : Nat} {text : Bytes} {r t : Reader} (hr : r.Opened)
    (h : readBytes limit r text = .ok t) : t.Opened := by
  induction text generalizing r with
  | nil =>
      cases h
      exact hr
  | cons b text ih =>
      rw [readBytes_cons] at h
      obtain ⟨m, hm, hrest⟩ := bind_eq_ok_iff.mp h
      exact ih (opened_of_readByte hr hm) hrest

theorem opened_of_readBytes_brace {limit : Nat} {text : Bytes} {r : Reader}
    (hopens : text.head? = some 0x7b) (h : readBytes limit .start text = .ok r) :
    r.Opened := by
  obtain ⟨rest, rfl⟩ : ∃ rest, text = 0x7b :: rest := by
    cases text with
    | nil => simp at hopens
    | cons b rest => exact ⟨rest, by simpa using hopens⟩
  rw [readBytes_cons] at h
  obtain ⟨m, hm, hrest⟩ := bind_eq_ok_iff.mp h
  refine opened_of_readBytes ?_ hrest
  have hfirst : openContainer limit .firstKey (.object []) [] = .ok m := hm
  exact opened_of_openContainer hfirst

theorem finish_of_stack_ne_nil {r : Reader} (h : r.stack ≠ []) :
    r.finish = .error .valueError := by
  unfold Reader.finish
  split <;> simp_all

/-- The text of one object, from its opening to its closing brace. -/
structure ObjectText (limit : Nat) (text : Bytes) (v : Json) : Prop where
  opens : text.head? = some 0x7b
  closes : text.getLast? = some 0x7d
  value : loads limit text = .ok v

theorem isAscii_append (front back : Bytes) :
    isAscii (front ++ back) = (isAscii front && isAscii back) := by
  simp [isAscii]

theorem isAscii_of_spaces {spaces : Bytes} (h : ∀ b ∈ spaces, isSpace b = true) :
    isAscii spaces = true := by
  apply List.all_eq_true.mpr
  intro b hb
  have hspace := h b hb
  simp only [isSpace, Bool.or_eq_true, beq_iff_eq] at hspace
  rcases hspace with ((rfl | rfl) | rfl) | rfl <;> decide

theorem isAscii_of_loads {limit : Nat} {text : Bytes} {v : Json}
    (h : loads limit text = .ok v) : isAscii text = true := by
  unfold loads at h
  split at h
  · assumption
  · cases h

theorem ObjectText.readBytes_eq {limit : Nat} {text : Bytes} {v : Json}
    (h : ObjectText limit text v) :
    readBytes limit .start text = .ok ⟨.finished v, []⟩ := by
  have hvalue := h.value
  rw [loads, if_pos (isAscii_of_loads h.value)] at hvalue
  obtain ⟨r, hr, hfinish⟩ := bind_eq_ok_iff.mp hvalue
  rcases opened_of_readBytes_brace h.opens hr with hstack | ⟨w, rfl⟩
  · rw [finish_of_stack_ne_nil hstack] at hfinish
    cases hfinish
  · cases hfinish
    exact hr

theorem readBytes_finished_brace {limit : Nat} {v : Json} {text : Bytes} {r : Reader}
    (hcloses : text.getLast? = some 0x7d) :
    readBytes limit ⟨.finished v, []⟩ text ≠ .ok r := by
  intro h
  induction text with
  | nil => simp at hcloses
  | cons b text ih =>
      rw [readBytes_cons, readByte_finished] at h
      cases text with
      | nil =>
          obtain rfl : b = 0x7d := by simpa using hcloses
          simp [isSpace, Except.bind] at h
      | cons c text =>
          split at h
          · exact ih (by simpa using hcloses) h
          · simp [Except.bind] at h

/-- No proper prefix of the text of an object is the text of a value. -/
theorem ObjectText.loads_incomplete_text {limit : Nat} {front back : Bytes} {v : Json}
    (h : ObjectText limit (front ++ back) v) (hback : back ≠ []) :
    loads limit front = .error .valueError := by
  have hascii : isAscii front = true := by
    have hboth := isAscii_of_loads h.value
    rw [isAscii_append, Bool.and_eq_true] at hboth
    exact hboth.1
  have hread := h.readBytes_eq
  rw [readBytes_append] at hread
  obtain ⟨r, hr, hrest⟩ := bind_eq_ok_iff.mp hread
  rw [loads, if_pos hascii, hr]
  change r.finish = _
  cases front with
  | nil =>
      cases hr
      rfl
  | cons b front =>
      have hopens : (b :: front).head? = some 0x7b := by simpa using h.opens
      rcases opened_of_readBytes_brace hopens hr with hstack | ⟨w, rfl⟩
      · exact finish_of_stack_ne_nil hstack
      · have hcloses : back.getLast? = some 0x7d := by
          have hcloses := h.closes
          rw [List.getLast?_append, List.getLast?_eq_some_getLast hback] at hcloses
          rw [List.getLast?_eq_some_getLast hback]
          simpa using hcloses
        exact absurd hrest (readBytes_finished_brace hcloses)

theorem loads_spaces_append {limit : Nat} {spaces text : Bytes}
    (h : ∀ b ∈ spaces, isSpace b = true) :
    loads limit (spaces ++ text) = loads limit text := by
  have hread := readBytes_spaces h (readByte_start_space limit)
  simp only [loads, isAscii_append, isAscii_of_spaces h, Bool.true_and,
    readBytes_append, hread]
  rfl

theorem loads_spaces {limit : Nat} {spaces : Bytes} (h : ∀ b ∈ spaces, isSpace b = true) :
    loads limit spaces = .error .valueError := by
  have happend : loads limit (spaces ++ []) = loads limit [] := loads_spaces_append h
  rw [List.append_nil] at happend
  rw [happend]
  rfl

theorem ObjectText.loads_append_spaces {limit : Nat} {text spaces : Bytes} {v : Json}
    (h : ObjectText limit text v) (hspaces : ∀ b ∈ spaces, isSpace b = true) :
    loads limit (text ++ spaces) = .ok v := by
  have hstay : readBytes limit ⟨.finished v, []⟩ spaces = .ok ⟨.finished v, []⟩ :=
    readBytes_spaces hspaces fun b hb => by simp [readByte_finished, hb]
  simp only [loads, isAscii_append, isAscii_of_loads h.value, isAscii_of_spaces hspaces,
    Bool.and_self, if_true, readBytes_append, h.readBytes_eq]
  change (readBytes limit ⟨.finished v, []⟩ spaces).bind Reader.finish = _
  rw [hstay]
  rfl

end ElectrumLightning.JsonText
