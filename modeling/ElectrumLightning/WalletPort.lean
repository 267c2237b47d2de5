import ElectrumLightning.LabelledRuns
import ElectrumLightning.SocksHandler
import ElectrumLightning.WaiterQueues

/-!
The connections of all clients that present the key of one port, with their
handlers, and the `writeQueue` from which the handlers take their items. A
handler that comes back to `toWrite.get()` tries at once; a handler that was
woken tries when its task runs.
-/

namespace ElectrumLightning.WalletPort

open ElectrumLightning.ByteStrings
open ElectrumLightning.SocksHandler
open ElectrumLightning.WaiterQueues

structure Connection where
  isOpen : Bool
  handler : HandlerState Bytes
deriving DecidableEq

/-- An item that a handler took, and the connections that were open then. -/
structure Taken where
  taker : Nat
  item : Bytes
  live : List Nat
deriving DecidableEq

/-- The port. `submitted`, `taken` and `answered` record every item that was
put from outside, taken by a handler and answered on `readQueue`. -/
structure Port where
  connections : List Connection
  writeQueue : WaiterQueue Bytes Nat
  woken : List Nat
  submitted : List Bytes
  taken : List Taken
  answered : List (Bytes × Bytes)
deriving DecidableEq

def Port.start : Port :=
  { connections := []
    writeQueue := ⟨[], []⟩
    woken := []
    submitted := []
    taken := []
    answered := [] }

inductive Event where
  | connect
  | peerCloses (connection : Nat)
  | put (item : Bytes)
  | runWoken
  | outcome (connection : Nat) (o : Outcome Bytes)
deriving DecidableEq

def Port.live (p : Port) : List Nat :=
  (List.range p.connections.length).filter fun i => p.connections[i]?.any Connection.isOpen

def Port.putItem (p : Port) (item : Bytes) : Port :=
  { p with
    writeQueue := (p.writeQueue.put item).1
    woken := p.woken ++ (p.writeQueue.put item).2.toList }

def Port.close (p : Port) (i : Nat) : Port :=
  { p with connections := p.connections.modify i fun c => { c with isOpen := false } }

def Port.setHandler (p : Port) (i : Nat) (handler : HandlerState Bytes) : Port :=
  { p with connections := p.connections.modify i fun c => { c with handler := handler } }

def Port.applyEffect (p : Port) (i : Nat) : Effect Bytes → Port
  | .closeWriter => p.close i
  | .putBack req => p.putItem req
  | .putReply req data => { p with answered := p.answered ++ [(req, data)] }
  | .requestPort _ | .write _ => p

/-- `toWrite.get()` of handler `i`: the next item is written, or the handler
waits in line. -/
def Port.get (p : Port) (i : Nat) : Port :=
  match p.writeQueue.get i with
  | (q, none) => { p with writeQueue := q }
  | (q, some item) =>
      Port.setHandler
        { p with
          writeQueue := q
          taken := p.taken ++ [⟨i, item, p.live⟩] } i (.draining item)

def Port.proceed (p : Port) (i : Nat) (handler : HandlerState Bytes)
    (effects : List (Effect Bytes)) : Port :=
  let p := effects.foldl (fun p effect => p.applyEffect i effect) (p.setHandler i handler)
  if handler = .getting then p.get i else p

/-- A text in ASCII without null bytes, so that its encoding is not in doubt. -/
def isText (item : Bytes) : Bool := item.all fun b => 0x00 < b && b < 0x80

def Outcome.isItem : Outcome Bytes → Bool
  | .item _ => true
  | _ => false

def presents (key : Bytes) : HandlerState Bytes → Outcome Bytes → Bool
  | .readingKey, .bytes chunk _ => chunk == key
  | _, _ => true

def step (recursionLimit : Nat) (key : Bytes) (p : Port) : Event → Option Port
  | .connect => some { p with connections := p.connections ++ [⟨true, .readingMagic⟩] }
  | .peerCloses i => if i < p.connections.length then some (p.close i) else none
  | .put item =>
      if isText item then some { p.putItem item with submitted := p.submitted ++ [item] }
      else none
  | .runWoken =>
      match p.woken with
      | [] => none
      | i :: rest => some ({ p with woken := rest }.get i)
  | .outcome i o =>
      match p.connections[i]? with
      | none => none
      | some c =>
          if presents key c.handler o && !Outcome.isItem o then
            (resume recursionLimit (hasId recursionLimit) c.handler o).map
              fun (handler, effects) => p.proceed i handler effects
          else none

/-! ### The handlers -/

def Port.handlerAt (p : Port) (i : Nat) : Option (HandlerState Bytes) :=
  p.connections[i]?.map Connection.handler

theorem handlerAt_setHandler (p : Port) (i j : Nat) (handler : HandlerState Bytes) :
    (p.setHandler i handler).handlerAt j =
      if i = j then (p.handlerAt j).map fun _ => handler else p.handlerAt j := by
  by_cases hij : i = j
  · subst hij
    simp [Port.handlerAt, Port.setHandler, Function.comp_def]
  · simp [Port.handlerAt, Port.setHandler, List.getElem?_modify_ne, hij]

theorem handlerAt_close (p : Port) (i j : Nat) : (p.close i).handlerAt j = p.handlerAt j := by
  by_cases hij : i = j
  · subst hij
    simp [Port.handlerAt, Port.close, Function.comp_def]
  · simp [Port.handlerAt, Port.close, List.getElem?_modify_ne, hij]

theorem handlerAt_applyEffect (p : Port) (i j : Nat) (effect : Effect Bytes) :
    (p.applyEffect i effect).handlerAt j = p.handlerAt j := by
  cases effect with
  | closeWriter => exact handlerAt_close p i j
  | _ => rfl

/-- What one effect leaves alone, all effects of a handler leave alone. -/
theorem applyEffects_eq {β : Type*} (f : Port → β) {i : Nat}
    (heffect : ∀ p effect, f (Port.applyEffect p i effect) = f p) (p : Port)
    (effects : List (Effect Bytes)) :
    f (effects.foldl (fun p effect => p.applyEffect i effect) p) = f p := by
  induction effects generalizing p with
  | nil => rfl
  | cons effect effects ih => rw [List.foldl_cons, ih, heffect]

/-- The handlers that wait for an item, the next one to run first. -/
def Port.waiting (p : Port) : List Nat := p.woken ++ p.writeQueue.getters

@[simp] theorem waiting_putItem (p : Port) (item : Bytes) :
    (p.putItem item).waiting = p.waiting := by
  cases hgetters : p.writeQueue.getters <;> simp [Port.putItem, Port.waiting, hgetters]

theorem waiting_applyEffect (p : Port) (i : Nat) (effect : Effect Bytes) :
    (p.applyEffect i effect).waiting = p.waiting := by
  cases effect with
  | putBack req => exact waiting_putItem p req
  | _ => rfl

/-- A handler waits at most once, and does nothing else meanwhile. -/
structure WaitersIdle (p : Port) : Prop where
  nodup : p.waiting.Nodup
  idle : ∀ i ∈ p.waiting, p.handlerAt i = some .getting

theorem waitersIdle_get {p : Port} (h : WaitersIdle p) {i : Nat} (hi : i ∉ p.waiting)
    (hhandler : p.handlerAt i = some .getting) : WaitersIdle (p.get i) := by
  cases hitems : p.writeQueue.items with
  | nil =>
      have hget : p.get i = { p with writeQueue := ⟨[], p.writeQueue.getters ++ [i]⟩ } := by
        simp [Port.get, WaiterQueue.get_of_nil hitems]
      have hwaiting : (p.get i).waiting = p.waiting ++ [i] := by
        simp [hget, Port.waiting]
      constructor
      · rw [hwaiting]
        exact List.nodup_append.mpr ⟨h.nodup, by simp, by
          rintro j hj _ hmem rfl
          rw [List.mem_singleton] at hmem
          exact hi (hmem ▸ hj)⟩
      · intro j hj
        rw [hwaiting, List.mem_append, List.mem_singleton] at hj
        rw [hget]
        rcases hj with hj | rfl
        · exact h.idle j hj
        · exact hhandler
  | cons item rest =>
      have hget : p.get i = Port.setHandler { p with
          writeQueue := ⟨rest, p.writeQueue.getters⟩
          taken := p.taken ++ [⟨i, item, p.live⟩] } i (.draining item) := by
        simp [Port.get, WaiterQueue.get_of_cons hitems]
      have hwaiting : (p.get i).waiting = p.waiting := by
        rw [hget]
        rfl
      refine ⟨hwaiting ▸ h.nodup, ?_⟩
      intro j hj
      rw [hwaiting] at hj
      have hother : i ≠ j := fun hij => hi (hij ▸ hj)
      rw [hget, handlerAt_setHandler, if_neg hother]
      exact h.idle j hj

def Port.performed (p : Port) (i : Nat) (handler : HandlerState Bytes)
    (effects : List (Effect Bytes)) : Port :=
  effects.foldl (fun p effect => p.applyEffect i effect) (p.setHandler i handler)

theorem proceed_eq (p : Port) (i : Nat) (handler : HandlerState Bytes)
    (effects : List (Effect Bytes)) :
    p.proceed i handler effects =
      if handler = .getting then (p.performed i handler effects).get i
      else p.performed i handler effects := rfl

theorem handlerAt_performed (p : Port) (i j : Nat) (handler : HandlerState Bytes)
    (effects : List (Effect Bytes)) :
    (p.performed i handler effects).handlerAt j =
      if i = j then (p.handlerAt j).map fun _ => handler else p.handlerAt j := by
  rw [← handlerAt_setHandler]
  exact applyEffects_eq (fun p => p.handlerAt j)
    (fun p effect => handlerAt_applyEffect p i j effect) (p.setHandler i handler) effects

theorem waiting_performed (p : Port) (i : Nat) (handler : HandlerState Bytes)
    (effects : List (Effect Bytes)) :
    (p.performed i handler effects).waiting = p.waiting :=
  applyEffects_eq Port.waiting (fun p effect => waiting_applyEffect p i effect)
    (p.setHandler i handler) effects

theorem waitersIdle_proceed {p : Port} (h : WaitersIdle p) {i : Nat}
    {st : HandlerState Bytes} (hst : p.handlerAt i = some st) (hbusy : st ≠ .getting)
    (handler : HandlerState Bytes) (effects : List (Effect Bytes)) :
    WaitersIdle (p.proceed i handler effects) := by
  have hi : i ∉ p.waiting := by
    intro hmem
    rw [h.idle i hmem] at hst
    exact hbusy (Option.some.inj hst).symm
  have hperformed : WaitersIdle (p.performed i handler effects) := by
    refine ⟨by rw [waiting_performed]; exact h.nodup, ?_⟩
    intro j hj
    rw [waiting_performed] at hj
    have hother : i ≠ j := fun hij => hi (hij ▸ hj)
    rw [handlerAt_performed, if_neg hother]
    exact h.idle j hj
  rw [proceed_eq]
  split
  · rename_i hget
    refine waitersIdle_get hperformed ?_ ?_
    · rw [waiting_performed]
      exact hi
    · rw [handlerAt_performed, if_pos rfl, hst, hget]
      rfl
  · exact hperformed

theorem handlerAt_get {p : Port} {i j : Nat} {st : HandlerState Bytes}
    (h : (p.get i).handlerAt j = some st) :
    p.handlerAt j = some st ∨ (i = j ∧ ∃ item, st = .draining item) := by
  cases hitems : p.writeQueue.items with
  | nil =>
      simp only [Port.get, WaiterQueue.get_of_nil hitems] at h
      exact .inl h
  | cons item rest =>
      simp only [Port.get, WaiterQueue.get_of_cons hitems, handlerAt_setHandler] at h
      split at h
      · rename_i hij
        obtain ⟨_, _, hst⟩ := Option.map_eq_some_iff.mp h
        exact .inr ⟨hij, item, hst.symm⟩
      · exact .inl h

theorem handlerAt_proceed {p : Port} {i j : Nat} {handler st : HandlerState Bytes}
    {effects : List (Effect Bytes)} (h : (p.proceed i handler effects).handlerAt j = some st) :
    (i ≠ j ∧ p.handlerAt j = some st) ∨
      (i = j ∧ (st = handler ∨ (handler = .getting ∧ ∃ item, st = .draining item))) := by
  have hperformed : ∀ st', (p.performed i handler effects).handlerAt j = some st' →
      (i ≠ j ∧ p.handlerAt j = some st') ∨ (i = j ∧ st' = handler) := by
    intro st' hst'
    rw [handlerAt_performed] at hst'
    split at hst'
    · rename_i hij
      obtain ⟨_, _, hsame⟩ := Option.map_eq_some_iff.mp hst'
      exact .inr ⟨hij, hsame.symm⟩
    · rename_i hij
      exact .inl ⟨hij, hst'⟩
  rw [proceed_eq] at h
  split at h
  · rename_i hget
    rcases handlerAt_get h with hst | ⟨hij, hdraining⟩
    · rcases hperformed st hst with hother | ⟨hij, hsame⟩
      · exact .inl hother
      · exact .inr ⟨hij, .inl hsame⟩
    · exact .inr ⟨hij, .inr ⟨hget, hdraining⟩⟩
  · rcases hperformed st h with hother | ⟨hij, hsame⟩
    · exact .inl hother
    · exact .inr ⟨hij, .inl hsame⟩

theorem handlerAt_proceed_self {p : Port} {i : Nat} {st handler : HandlerState Bytes}
    (hst : p.handlerAt i = some st) (hget : handler ≠ .getting) (effects : List (Effect Bytes)) :
    (p.proceed i handler effects).handlerAt i = some handler := by
  rw [proceed_eq, if_neg hget, handlerAt_performed, if_pos rfl, hst]
  rfl

theorem handlerAt_connect {connections : List Connection} {p : Port} {j : Nat}
    {st : HandlerState Bytes}
    (hconnections : connections = p.connections ++ [⟨true, .readingMagic⟩])
    (h : connections[j]?.map Connection.handler = some st) :
    p.handlerAt j = some st ∨ (j = p.connections.length ∧ st = .readingMagic) := by
  subst hconnections
  rcases Nat.lt_trichotomy j p.connections.length with hlt | rfl | hgt
  · rw [List.getElem?_append_left hlt] at h
    exact .inl h
  · rw [List.getElem?_concat_length] at h
    exact .inr ⟨rfl, (Option.some.inj h).symm⟩
  · rw [List.getElem?_eq_none (by simp; omega)] at h
    cases h

/-- What a step does: outside the handlers it changes one component, and a
handler proceeds as `resume` says. -/
theorem step_cases {recursionLimit : Nat} {key : Bytes} {p q : Port} {e : Event}
    (h : step recursionLimit key p e = some q) :
    (e = .connect ∧ q = { p with connections := p.connections ++ [⟨true, .readingMagic⟩] }) ∨
    (∃ i, e = .peerCloses i ∧ q = p.close i) ∨
    (∃ item, e = .put item ∧ q = { p.putItem item with submitted := p.submitted ++ [item] }) ∨
    (∃ i rest, e = .runWoken ∧ p.woken = i :: rest ∧ q = { p with woken := rest }.get i) ∨
    (∃ i o st handler effects, e = .outcome i o ∧ p.handlerAt i = some st ∧ st ≠ .getting ∧
      o.taken = [] ∧ resume recursionLimit (hasId recursionLimit) st o = some (handler, effects) ∧
      q = p.proceed i handler effects) := by
  cases e with
  | connect => exact .inl ⟨rfl, (Option.some.inj h).symm⟩
  | peerCloses i =>
      simp only [step] at h
      split at h <;> cases h
      exact .inr (.inl ⟨i, rfl, rfl⟩)
  | put item =>
      simp only [step] at h
      split at h <;> cases h
      exact .inr (.inr (.inl ⟨item, rfl, rfl⟩))
  | runWoken =>
      simp only [step] at h
      split at h
      · cases h
      · rename_i i rest hwoken
        cases h
        exact .inr (.inr (.inr (.inl ⟨i, rest, rfl, hwoken, rfl⟩)))
  | outcome i o =>
      simp only [step] at h
      split at h
      · cases h
      · rename_i c hc
        split at h
        · rename_i hallowed
          obtain ⟨⟨handler, effects⟩, hresume, hq⟩ := Option.map_eq_some_iff.mp h
          have hitem : o.taken = [] := by
            cases o <;> simp [Outcome.isItem] at hallowed <;> rfl
          have hbusy : c.handler ≠ .getting := by
            intro hget
            rw [hget] at hresume
            cases o <;> simp [resume, Outcome.taken] at hresume hitem
          exact .inr (.inr (.inr (.inr ⟨i, o, c.handler, handler, effects, rfl,
            by simp [Port.handlerAt, hc], hbusy, hitem, hresume, hq.symm⟩)))
        · cases h

theorem waitersIdle_start : WaitersIdle .start :=
  ⟨List.nodup_nil, by simp [Port.start, Port.waiting]⟩

theorem waitersIdle_step {recursionLimit : Nat} {key : Bytes} {p q : Port} {e : Event}
    (h : WaitersIdle p) (hstep : step recursionLimit key p e = some q) : WaitersIdle q := by
  rcases step_cases hstep with ⟨-, rfl⟩ | ⟨i, -, rfl⟩ | ⟨item, -, rfl⟩ |
    ⟨i, rest, -, hwoken, rfl⟩ | ⟨i, o, st, handler, effects, -, hst, hbusy, -, -, rfl⟩
  · refine ⟨h.nodup, ?_⟩
    intro j hj
    have hidle := h.idle j hj
    obtain ⟨c, hc, -⟩ := Option.map_eq_some_iff.mp hidle
    have hlength : j < p.connections.length := (List.getElem?_eq_some_iff.mp hc).1
    simpa [Port.handlerAt, List.getElem?_append_left hlength] using hidle
  · exact ⟨h.nodup, fun j hj => by rw [handlerAt_close]; exact h.idle j hj⟩
  · have hput : WaitersIdle (p.putItem item) := by
      constructor
      · rw [waiting_putItem]
        exact h.nodup
      · rw [waiting_putItem]
        exact h.idle
    exact ⟨hput.nodup, hput.idle⟩
  · have hnodup : (i :: (rest ++ p.writeQueue.getters)).Nodup := by
      simpa [Port.waiting, hwoken] using h.nodup
    have hrest : WaitersIdle { p with woken := rest } := by
      refine ⟨(List.nodup_cons.mp hnodup).2, ?_⟩
      intro j hj
      exact h.idle j (by simpa [Port.waiting, hwoken] using Or.inr (List.mem_append.mp hj))
    apply waitersIdle_get hrest (List.nodup_cons.mp hnodup).1
    exact h.idle i (by simp [Port.waiting, hwoken])
  · exact waitersIdle_proceed h hst hbusy handler effects

end ElectrumLightning.WalletPort
