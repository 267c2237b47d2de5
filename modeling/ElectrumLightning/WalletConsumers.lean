import ElectrumLightning.WalletPort

/-!
Which handler takes the items of a port. Only the handler of the newest open
connection should, but a handler that waits for an item notices neither a
newer connection nor the end of its own.
-/

namespace ElectrumLightning.WalletConsumers

open ElectrumLightning.ByteStrings
open ElectrumLightning.LabelledRuns
open ElectrumLightning.SocksHandler
open ElectrumLightning.WaiterQueues
open ElectrumLightning.WalletPort

def servesAt (p : Port) (i : Nat) : Prop := (p.handlerAt i).any HandlerState.serving = true

def Newest (live : List Nat) (i : Nat) : Prop := i ∈ live ∧ ∀ j ∈ live, j ≤ i

/-- At most one handler takes items, it is the handler of the most recent open
connection, and so was the taker of every item when it took it. -/
structure OneConsumer (p : Port) : Prop where
  sole : ∀ i j, servesAt p i → servesAt p j → i = j
  newest : ∀ i, servesAt p i → Newest p.live i
  taken : ∀ t ∈ p.taken, Newest t.live t.taker

def Unserved (p : Port) : Prop := ∀ c ∈ p.connections, c.handler.serving = false

/-- A client connects only while no handler serves, a peer closes only while
its own handler does not serve, and a handler gets its queues only while its
connection is the newest open one and no handler serves. -/
def OneAtATime (p : Port) : Event → Prop
  | .connect => Unserved p
  | .peerCloses i => ∀ st ∈ p.handlerAt i, st.serving = false
  | .outcome i .portPair => Newest p.live i ∧ Unserved p
  | _ => True

instance (live : List Nat) (i : Nat) : Decidable (Newest live i) :=
  inferInstanceAs (Decidable (_ ∧ _))

instance (p : Port) : Decidable (Unserved p) :=
  inferInstanceAs (Decidable (∀ c ∈ p.connections, _))

instance : DecidableRel OneAtATime := by
  intro p e
  unfold OneAtATime
  split <;> infer_instance

/-! ### Open connections -/

theorem mem_live {p : Port} {i : Nat} :
    i ∈ p.live ↔ p.connections[i]?.any Connection.isOpen = true := by
  simp only [Port.live, List.mem_filter, List.mem_range, and_iff_right_iff_imp]
  intro hopen
  by_contra hlength
  rw [List.getElem?_eq_none (by omega)] at hopen
  cases hopen

theorem live_setHandler (p : Port) (i : Nat) (handler : HandlerState Bytes) :
    (p.setHandler i handler).live = p.live := by
  have hlength : (p.setHandler i handler).connections.length = p.connections.length := by
    simp [Port.setHandler]
  simp only [Port.live, hlength]
  apply List.filter_congr
  intro j _
  by_cases hij : i = j
  · subst hij
    cases hc : p.connections[i]? <;> simp [Port.setHandler, hc]
  · simp [Port.setHandler, List.getElem?_modify_ne, hij]

theorem mem_live_close {p : Port} {i j : Nat} :
    j ∈ (p.close i).live ↔ i ≠ j ∧ j ∈ p.live := by
  rw [mem_live, mem_live]
  by_cases hij : i = j
  · subst hij
    cases hc : p.connections[i]? <;> simp [Port.close, hc]
  · simp [Port.close, List.getElem?_modify_ne, hij]

theorem live_get (p : Port) (i : Nat) : (p.get i).live = p.live := by
  cases hitems : p.writeQueue.items with
  | nil => simp [Port.get, WaiterQueue.get_of_nil hitems, Port.live]
  | cons item rest =>
      simp only [Port.get, WaiterQueue.get_of_cons hitems, live_setHandler]
      rfl

/-- Of a handler's effects only `writer.close()` closes its connection. -/
theorem mem_live_applyEffects {p : Port} {i j : Nat} {effects : List (Effect Bytes)}
    (h : i ≠ j ∨ Effect.closeWriter ∉ effects) :
    j ∈ (effects.foldl (fun p effect => p.applyEffect i effect) p).live ↔ j ∈ p.live := by
  induction effects generalizing p with
  | nil => rfl
  | cons effect effects ih =>
      rw [List.foldl_cons, ih (h.imp_right fun hnot hmem => hnot (List.mem_cons_of_mem _ hmem))]
      cases effect with
      | closeWriter =>
          have hij : i ≠ j := h.resolve_right fun hnot => hnot (List.mem_cons_self ..)
          simp [Port.applyEffect, mem_live_close, hij]
      | _ => rfl

theorem mem_live_of_applyEffects {p : Port} {i j : Nat} {effects : List (Effect Bytes)}
    (h : j ∈ (effects.foldl (fun p effect => p.applyEffect i effect) p).live) : j ∈ p.live := by
  induction effects generalizing p with
  | nil => exact h
  | cons effect effects ih =>
      have hfirst := ih h
      cases effect with
      | closeWriter => exact (mem_live_close.mp hfirst).2
      | _ => exact hfirst

theorem mem_live_proceed {p : Port} {i j : Nat} {handler : HandlerState Bytes}
    {effects : List (Effect Bytes)} (h : i ≠ j ∨ Effect.closeWriter ∉ effects) :
    j ∈ (p.proceed i handler effects).live ↔ j ∈ p.live := by
  have hperformed : j ∈ (p.performed i handler effects).live ↔ j ∈ p.live := by
    rw [Port.performed, mem_live_applyEffects h, live_setHandler]
  rw [proceed_eq]
  split
  · rw [live_get]
    exact hperformed
  · exact hperformed

theorem mem_live_of_proceed {p : Port} {i j : Nat} {handler : HandlerState Bytes}
    {effects : List (Effect Bytes)} (h : j ∈ (p.proceed i handler effects).live) :
    j ∈ p.live := by
  have hperformed : j ∈ (p.performed i handler effects).live := by
    rw [proceed_eq] at h
    split at h
    · rwa [live_get] at h
    · exact h
  have hset := mem_live_of_applyEffects hperformed
  rwa [live_setHandler] at hset

/-! ### Serving handlers -/

theorem servesAt_iff {p : Port} {i : Nat} :
    servesAt p i ↔ ∃ st, p.handlerAt i = some st ∧ st.serving = true := by
  simp [servesAt, Option.any_eq_true]

theorem unserved_iff {p : Port} : Unserved p ↔ ∀ i, ¬ servesAt p i := by
  constructor
  · intro h i hserves
    obtain ⟨st, hst, hserving⟩ := servesAt_iff.mp hserves
    obtain ⟨c, hc, rfl⟩ := Option.map_eq_some_iff.mp hst
    simp [h c (List.mem_of_getElem? hc)] at hserving
  · intro h c hc
    obtain ⟨i, hi⟩ := List.getElem?_of_mem hc
    have hnot := h i
    simp only [servesAt_iff, Port.handlerAt, hi, Option.map_some, Option.some.injEq] at hnot
    exact Bool.eq_false_iff.mpr fun hserving => hnot ⟨_, rfl, hserving⟩

theorem servesAt_get {p : Port} {i j : Nat} (hidle : p.handlerAt i = some .getting) :
    servesAt (p.get i) j ↔ servesAt p j := by
  cases hitems : p.writeQueue.items with
  | nil => simp [Port.get, WaiterQueue.get_of_nil hitems, servesAt, Port.handlerAt]
  | cons item rest =>
      simp only [Port.get, WaiterQueue.get_of_cons hitems, servesAt, handlerAt_setHandler]
      by_cases hij : i = j
      · subst hij
        change Option.any _ (if i = i then (p.handlerAt i).map _ else _) = true ↔ _
        simp [hidle, HandlerState.serving]
      · simp only [hij, if_false]
        rfl

theorem servesAt_proceed {p : Port} {i j : Nat} {st handler : HandlerState Bytes}
    (hst : p.handlerAt i = some st) (effects : List (Effect Bytes)) :
    servesAt (p.proceed i handler effects) j ↔
      if i = j then handler.serving = true else servesAt p j := by
  have hperformed : servesAt (p.performed i handler effects) j ↔
      if i = j then handler.serving = true else servesAt p j := by
    simp only [servesAt, handlerAt_performed]
    split
    · rename_i hij
      subst hij
      simp [hst]
    · rfl
  rw [proceed_eq]
  split
  · rename_i hget
    rw [servesAt_get, hperformed]
    rw [handlerAt_performed, if_pos rfl, hst, hget]
    rfl
  · exact hperformed

theorem mem_taken_get {p : Port} {i : Nat} {t : Taken} (h : t ∈ (p.get i).taken) :
    t ∈ p.taken ∨ (t.taker = i ∧ t.live = p.live) := by
  cases hitems : p.writeQueue.items with
  | nil =>
      simp only [Port.get, WaiterQueue.get_of_nil hitems] at h
      exact .inl h
  | cons item rest =>
      simp only [Port.get, WaiterQueue.get_of_cons hitems, Port.setHandler, List.mem_append,
        List.mem_singleton] at h
      exact h.imp_right fun ht => by simp [ht]

theorem taken_performed (p : Port) (i : Nat) (handler : HandlerState Bytes)
    (effects : List (Effect Bytes)) : (p.performed i handler effects).taken = p.taken := by
  have heffect : ∀ (p : Port) effect, (p.applyEffect i effect).taken = p.taken := by
    intro p effect
    cases effect <;> rfl
  exact applyEffects_eq Port.taken heffect (p.setHandler i handler) effects

theorem mem_taken_proceed {p : Port} {i : Nat} {handler : HandlerState Bytes}
    {effects : List (Effect Bytes)} {t : Taken}
    (h : t ∈ (p.proceed i handler effects).taken) :
    t ∈ p.taken ∨ (handler = .getting ∧ t.taker = i ∧
      t.live = (p.proceed i handler effects).live) := by
  rw [proceed_eq] at h ⊢
  split at h
  · rename_i hget
    rw [if_pos hget, live_get]
    rcases mem_taken_get h with hold | hnew
    · rw [taken_performed] at hold
      exact .inl hold
    · exact .inr ⟨hget, hnew⟩
  · rw [taken_performed] at h
    exact .inl h

theorem resume_serving {recursionLimit : Nat} {withId : Bytes → Bool}
    {st st' : HandlerState Bytes} {o : Outcome Bytes} {effects : List (Effect Bytes)}
    (hresume : resume recursionLimit withId st o = some (st', effects))
    (hserving : st'.serving = true) :
    Effect.closeWriter ∉ effects ∧ (st.serving = true ∨ o = .portPair) := by
  cases resumes_of_resume hresume with
  | connected key => exact ⟨by simp, .inr rfl⟩
  | takes req => exact ⟨by simp, .inl rfl⟩
  | awaits req hid => exact ⟨by simp, .inl rfl⟩
  | drainedAtEof req hid => exact ⟨by simp, .inl rfl⟩
  | notifies req atEof hid => exact ⟨by simp, .inl rfl⟩
  | answers req data chunk atEof v hloads => exact ⟨by simp, .inl rfl⟩
  | readsOn req data chunk hloads => exact ⟨by simp, .inl rfl⟩
  | readAtEof req data chunk hloads => exact ⟨by simp, .inl rfl⟩
  | timesOut req data => exact ⟨by simp, .inl rfl⟩
  | _ => cases hserving

theorem resume_portPair {recursionLimit : Nat} {withId : Bytes → Bool}
    {st st' : HandlerState Bytes} {effects : List (Effect Bytes)}
    (hresume : resume recursionLimit withId st .portPair = some (st', effects)) :
    st.serving = false ∧ st' = .getting := by
  cases resumes_of_resume hresume
  exact ⟨rfl, rfl⟩

/-! ### Runs -/

theorem oneConsumer_of_newest {p : Port} (hnewest : ∀ i, servesAt p i → Newest p.live i)
    (htaken : ∀ t ∈ p.taken, Newest t.live t.taker) : OneConsumer p where
  sole := by
    intro i j hi hj
    obtain ⟨hmemi, hmaxi⟩ := hnewest i hi
    obtain ⟨hmemj, hmaxj⟩ := hnewest j hj
    exact Nat.le_antisymm (hmaxj i hmemi) (hmaxi j hmemj)
  newest := hnewest
  taken := htaken

theorem oneConsumer_start : OneConsumer .start :=
  oneConsumer_of_newest (by simp [servesAt, Port.start, Port.handlerAt]) (by simp [Port.start])

theorem connect_iff {p q : Port} (h : OneConsumer p)
    (hconnections : q.connections = p.connections ++ [⟨true, .readingMagic⟩])
    (htaken : q.taken = p.taken) : Unserved p ↔ OneConsumer q := by
  have hserves : ∀ i, servesAt q i ↔ servesAt p i := by
    intro i
    simp only [servesAt, Port.handlerAt, hconnections]
    rcases Nat.lt_trichotomy i p.connections.length with hlt | rfl | hgt
    · rw [List.getElem?_append_left hlt]
    · simp [HandlerState.serving]
    · rw [List.getElem?_eq_none (by simp; omega), List.getElem?_eq_none (by omega)]
  have hlast : p.connections.length ∈ q.live := by
    simp [mem_live, hconnections]
  constructor
  · intro hunserved
    refine oneConsumer_of_newest ?_ (htaken ▸ h.taken)
    intro i hi
    exact absurd ((hserves i).mp hi) (unserved_iff.mp hunserved i)
  · intro hone
    rw [unserved_iff]
    intro i hi
    have hmax := (hone.newest i ((hserves i).mpr hi)).2 _ hlast
    obtain ⟨st, hst, -⟩ := servesAt_iff.mp hi
    obtain ⟨c, hc, -⟩ := Option.map_eq_some_iff.mp hst
    have hlt := (List.getElem?_eq_some_iff.mp hc).1
    omega

theorem peerCloses_iff {p : Port} (h : OneConsumer p) (i : Nat) :
    (∀ st ∈ p.handlerAt i, st.serving = false) ↔ OneConsumer (p.close i) := by
  have hserves : ∀ j, servesAt (p.close i) j ↔ servesAt p j := by
    intro j
    simp only [servesAt, handlerAt_close]
  constructor
  · intro hidle
    refine oneConsumer_of_newest ?_ h.taken
    intro j hj
    obtain ⟨hmem, hmax⟩ := h.newest j ((hserves j).mp hj)
    have hother : i ≠ j := by
      rintro rfl
      obtain ⟨st, hst, hserving⟩ := servesAt_iff.mp ((hserves i).mp hj)
      simp [hidle st hst] at hserving
    exact ⟨mem_live_close.mpr ⟨hother, hmem⟩, fun k hk => hmax k (mem_live_close.mp hk).2⟩
  · intro hone st hst
    apply Bool.eq_false_iff.mpr
    intro hserving
    have hserves' : servesAt (p.close i) i := (hserves i).mpr (servesAt_iff.mpr ⟨st, hst, hserving⟩)
    exact (mem_live_close.mp (hone.newest i hserves').1).1 rfl

theorem oneConsumer_runWoken {p : Port} {i : Nat} (h : OneConsumer p)
    (hidle : p.handlerAt i = some .getting) : OneConsumer (p.get i) := by
  have hserves : servesAt p i := servesAt_iff.mpr ⟨.getting, hidle, rfl⟩
  refine oneConsumer_of_newest ?_ ?_
  · intro j hj
    rw [live_get]
    exact h.newest j ((servesAt_get hidle).mp hj)
  · intro t ht
    rcases mem_taken_get ht with hold | ⟨htaker, hlive⟩
    · exact h.taken t hold
    · rw [htaker, hlive]
      exact h.newest i hserves

theorem oneConsumer_proceed_stopped {p : Port} (h : OneConsumer p) {i : Nat}
    {st handler : HandlerState Bytes} (hst : p.handlerAt i = some st)
    (hstopped : handler.serving = false) (effects : List (Effect Bytes)) :
    OneConsumer (p.proceed i handler effects) := by
  refine oneConsumer_of_newest ?_ ?_
  · intro j hj
    rw [servesAt_proceed hst, hstopped] at hj
    split at hj
    · cases hj
    · rename_i hij
      obtain ⟨hmem, hmax⟩ := h.newest j hj
      exact ⟨(mem_live_proceed (.inl hij)).mpr hmem, fun k hk => hmax k (mem_live_of_proceed hk)⟩
  · intro t ht
    rcases mem_taken_proceed ht with hold | ⟨rfl, -, -⟩
    · exact h.taken t hold
    · cases hstopped

theorem oneConsumer_proceed_serving {p : Port} (h : OneConsumer p) {i : Nat}
    {st handler : HandlerState Bytes} (hst : p.handlerAt i = some st)
    (hserving : handler.serving = true) {effects : List (Effect Bytes)}
    (hclose : Effect.closeWriter ∉ effects) :
    OneConsumer (p.proceed i handler effects) ↔
      Newest p.live i ∧ ∀ j, i ≠ j → ¬ servesAt p j := by
  have hlive : ∀ j, Newest (p.proceed i handler effects).live j ↔ Newest p.live j := by
    intro j
    simp only [Newest, mem_live_proceed (.inr hclose)]
  have hself : servesAt (p.proceed i handler effects) i := by
    rw [servesAt_proceed hst, if_pos rfl]
    exact hserving
  constructor
  · intro hone
    refine ⟨(hlive i).mp (hone.newest i hself), ?_⟩
    intro j hij hj
    refine hij (hone.sole i j hself ?_)
    rw [servesAt_proceed hst, if_neg hij]
    exact hj
  · rintro ⟨hnewest, hothers⟩
    refine oneConsumer_of_newest ?_ ?_
    · intro j hj
      rw [servesAt_proceed hst] at hj
      split at hj
      · rename_i hij
        exact hij ▸ (hlive i).mpr hnewest
      · rename_i hij
        exact absurd hj (hothers j hij)
    · intro t ht
      rcases mem_taken_proceed ht with hold | ⟨-, htaker, hsame⟩
      · exact h.taken t hold
      · rw [htaker, hsame]
        exact (hlive i).mpr hnewest

theorem proceed_iff {recursionLimit : Nat} {p : Port} (h : OneConsumer p) {i : Nat}
    {o : Outcome Bytes} {st handler : HandlerState Bytes} {effects : List (Effect Bytes)}
    (hst : p.handlerAt i = some st)
    (hresume : resume recursionLimit (hasId recursionLimit) st o = some (handler, effects)) :
    OneAtATime p (.outcome i o) ↔ OneConsumer (p.proceed i handler effects) := by
  by_cases hport : o = .portPair
  · subst hport
    obtain ⟨hbefore, rfl⟩ := resume_portPair hresume
    rw [oneConsumer_proceed_serving h hst rfl (resume_serving hresume rfl).1]
    refine and_congr_right fun _ => ?_
    rw [unserved_iff]
    constructor
    · exact fun hnone j _ => hnone j
    · intro hothers j hj
      by_cases hij : i = j
      · subst hij
        obtain ⟨st', hst', hserving⟩ := servesAt_iff.mp hj
        rw [hst] at hst'
        cases hst'
        simp [hbefore] at hserving
      · exact hothers j hij hj
  · have hguard : OneAtATime p (.outcome i o) := by
      unfold OneAtATime
      split <;> simp_all
    apply iff_of_true hguard
    cases hserving : handler.serving with
    | false => exact oneConsumer_proceed_stopped h hst hserving effects
    | true =>
        obtain ⟨hclose, hbefore⟩ := resume_serving hresume hserving
        have hserves : servesAt p i := servesAt_iff.mpr ⟨st, hst, hbefore.resolve_right hport⟩
        rw [oneConsumer_proceed_serving h hst hserving hclose]
        exact ⟨h.newest i hserves, fun j hij hj => hij (h.sole i j hserves hj)⟩

theorem oneAtATime_iff {recursionLimit : Nat} {key : Bytes} {p q : Port} {e : Event}
    (hwaiters : WaitersIdle p) (h : OneConsumer p)
    (hstep : step recursionLimit key p e = some q) : OneAtATime p e ↔ OneConsumer q := by
  rcases step_cases hstep with ⟨rfl, rfl⟩ | ⟨i, rfl, rfl⟩ | ⟨item, rfl, rfl⟩ |
    ⟨i, rest, rfl, hwoken, rfl⟩ | ⟨i, o, st, handler, effects, rfl, hst, -, -, hresume, rfl⟩
  · exact connect_iff h rfl rfl
  · exact peerCloses_iff h i
  · exact iff_of_true trivial (oneConsumer_of_newest h.newest h.taken)
  · refine iff_of_true trivial (oneConsumer_runWoken ?_ ?_)
    · exact oneConsumer_of_newest h.newest h.taken
    · exact hwaiters.idle i (by simp [Port.waiting, hwoken])
  · exact proceed_iff h hst hresume

/-- A run has a single consumer, on the newest open connection, in every
state it passes if and only if every step meets the condition. -/
theorem oneConsumer_iff_oneAtATime (recursionLimit : Nat) (key : Bytes) (events : List Event)
    (p : Port) (hrun : run (step recursionLimit key) .start events = some p) :
    (∀ q ∈ trace (step recursionLimit key) .start events, OneConsumer q) ↔
      runWithin (step recursionLimit key) OneAtATime .start events = some p := by
  symm
  refine runWithin_iff_forall_trace (J := WaitersIdle) ?_ ?_ waitersIdle_start
    oneConsumer_start hrun
  · intro s e t hs hstep
    exact waitersIdle_step hs hstep
  · intro s e t hs hone hstep
    exact oneAtATime_iff hs hone hstep

def invoice : Bytes := [0x7b, 0x7d]

/-- A client with the key `abcdef` connects as connection `i` and is served. -/
def served (i : Nat) : List Event :=
  [.connect, .outcome i (.bytes magic false),
    .outcome i (.bytes [0x61, 0x62, 0x63, 0x64, 0x65, 0x66] false), .outcome i .portPair]

/-- The first client's drain fails, and the second one gets the invoice. -/
def servedInTurn : List Event :=
  served 0 ++ [.put invoice, .runWoken, .outcome 0 (.raises .connectionResetError),
    .peerCloses 0] ++ served 1 ++ [.outcome 1 (.drained false)]

theorem oneConsumer_servedInTurn :
    (run (step 1000 [0x61, 0x62, 0x63, 0x64, 0x65, 0x66]) .start servedInTurn).isSome = true ∧
      ∀ q ∈ trace (step 1000 [0x61, 0x62, 0x63, 0x64, 0x65, 0x66]) .start servedInTurn,
        OneConsumer q := by
  have hrun : (runWithin (step 1000 [0x61, 0x62, 0x63, 0x64, 0x65, 0x66]) OneAtATime .start
      servedInTurn).isSome = true := by
    decide +kernel
  obtain ⟨p, hp⟩ := Option.isSome_iff_exists.mp hrun
  exact ⟨Option.isSome_of_eq_some (run_of_runWithin hp),
    (oneConsumer_iff_oneAtATime 1000 _ servedInTurn p (run_of_runWithin hp)).mpr hp⟩

/-- The first peer has gone and the second client is connected, but the
handler of the first connection takes the invoice. -/
theorem not_oneConsumer_after_reconnect :
    ¬ ∀ p, Reachable (step 1000 [0x61, 0x62, 0x63, 0x64, 0x65, 0x66]) Unrestricted .start p →
      OneConsumer p := by
  intro hall
  have hrun : (run (step 1000 [0x61, 0x62, 0x63, 0x64, 0x65, 0x66]) .start
      (served 0 ++ [.peerCloses 0] ++ served 1 ++ [.put invoice, .runWoken,
        .outcome 0 (.drained false)])).map Port.taken =
      some [⟨0, invoice, [1]⟩] := by
    decide +kernel
  obtain ⟨p, hp, htaken⟩ := Option.map_eq_some_iff.mp hrun
  have hnewest := (hall p (reachable_of_runWithin hp)).taken ⟨0, invoice, [1]⟩ (by simp [htaken])
  simp [Newest] at hnewest

end ElectrumLightning.WalletConsumers
