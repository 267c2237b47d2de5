import ElectrumLightning.WalletPort

/-!
What becomes of the requests of a port. Counting them shows that a request
can only be missing because an exception took down the handler that held it.
-/

namespace ElectrumLightning.RequestConservation

open ElectrumLightning.ByteStrings
open ElectrumLightning.JsonText
open ElectrumLightning.LabelledRuns
open ElectrumLightning.SocksHandler
open ElectrumLightning.WaiterQueues
open ElectrumLightning.WalletPort

def held (p : Port) : List Bytes := p.connections.flatMap fun c => c.handler.held

def lost (p : Port) : List Bytes := p.connections.flatMap fun c => c.handler.lost

/-- Every request with an id is as often on `writeQueue`, with a running
handler or answered as it was put. -/
def Conserved (recursionLimit : Nat) (p : Port) : Prop :=
  ∀ req, hasId recursionLimit req = true →
    p.submitted.count req =
      p.writeQueue.items.count req + (held p).count req + (p.answered.map Prod.fst).count req

/-- While a handler awaits a reply, its read raises nothing but the timeout,
and the text read so far does not nest too deeply. -/
def ReplyReadable (recursionLimit : Nat) : HandlerState Bytes → Outcome Bytes → Prop
  | .reading _ _, .raises e => e = .timeoutError
  | .reading _ data, .bytes chunk _ =>
      loads recursionLimit (data ++ chunk) ≠ .error .recursionError
  | _, _ => True

instance (recursionLimit : Nat) : DecidableRel (ReplyReadable recursionLimit) := by
  intro st o
  unfold ReplyReadable
  split
  · infer_instance
  · rename_i data chunk atEof
    cases hloads : loads recursionLimit (data ++ chunk) with
    | ok v => exact isTrue (by simp)
    | error e => exact decidable_of_iff (e ≠ .recursionError) (by simp)
  · infer_instance

def RepliesReadable (recursionLimit : Nat) (p : Port) : Event → Prop
  | .outcome i o => ∀ st ∈ p.handlerAt i, ReplyReadable recursionLimit st o
  | _ => True

/-! ### Counting -/

/-- All copies of a request that the port knows of. -/
def tally (p : Port) (req : Bytes) : Nat :=
  p.writeQueue.items.count req + (held p).count req + (p.answered.map Prod.fst).count req +
    (lost p).count req

theorem count_flatMap_modify {α β : Type*} [BEq β] (xs : List α) (i : Nat) (f : α → α)
    (g : α → List β) {x : α} (hx : xs[i]? = some x) (b : β) :
    ((xs.modify i f).flatMap g).count b + (g x).count b =
      (xs.flatMap g).count b + (g (f x)).count b := by
  induction xs generalizing i with
  | nil => simp at hx
  | cons y ys ih =>
      cases i with
      | zero =>
          obtain rfl : y = x := by simpa using hx
          simp only [List.modify_zero_cons, List.flatMap_cons, List.count_append]
          omega
      | succ i =>
          have htail := ih i (by simpa using hx)
          simp only [List.modify_succ_cons, List.flatMap_cons, List.count_append]
          omega

theorem flatMap_modify_same {α β : Type*} (xs : List α) (i : Nat) {f : α → α}
    {g : α → List β} (hsame : ∀ x, g (f x) = g x) : (xs.modify i f).flatMap g = xs.flatMap g := by
  induction xs generalizing i with
  | nil => simp
  | cons x xs ih =>
      cases i with
      | zero => simp [hsame]
      | succ i => simp [ih]

theorem tally_putItem (p : Port) (item req : Bytes) :
    tally (p.putItem item) req = tally p req + [item].count req := by
  simp only [tally, held, lost, Port.putItem, WaiterQueue.items_put, List.count_append]
  omega

theorem lost_close (p : Port) (i : Nat) : lost (p.close i) = lost p :=
  flatMap_modify_same _ _ fun _ => rfl

theorem tally_close (p : Port) (i : Nat) (req : Bytes) : tally (p.close i) req = tally p req := by
  have hheld : held (p.close i) = held p := flatMap_modify_same _ _ fun _ => rfl
  rw [tally, hheld, lost_close]
  rfl

theorem tally_setHandler {p : Port} {i : Nat} {st : HandlerState Bytes}
    (hst : p.handlerAt i = some st) (handler : HandlerState Bytes) (req : Bytes) :
    tally (p.setHandler i handler) req + st.held.count req + st.lost.count req =
      tally p req + handler.held.count req + handler.lost.count req := by
  obtain ⟨c, hc, rfl⟩ := Option.map_eq_some_iff.mp hst
  have hheld := count_flatMap_modify p.connections i (fun c => { c with handler := handler })
    (fun c => c.handler.held) hc req
  have hlost := count_flatMap_modify p.connections i (fun c => { c with handler := handler })
    (fun c => c.handler.lost) hc req
  dsimp only at hheld hlost
  simp only [tally, held, lost, Port.setHandler]
  omega

theorem tally_applyEffect (p : Port) (i : Nat) (effect : Effect Bytes) (req : Bytes) :
    tally (p.applyEffect i effect) req =
      tally p req + effect.returnedRequest.count req + effect.answeredRequest.count req := by
  cases effect with
  | closeWriter => exact tally_close p i req
  | requestPort key => rfl
  | write item => rfl
  | putBack item => exact tally_putItem p item req
  | putReply item data =>
      simp only [tally, held, lost, Port.applyEffect, Effect.returnedRequest,
        Effect.answeredRequest, List.map_append, List.map_cons, List.map_nil,
        List.count_append, List.count_nil]
      omega

theorem tally_applyEffects (p : Port) (i : Nat) (effects : List (Effect Bytes)) (req : Bytes) :
    tally (effects.foldl (fun p effect => p.applyEffect i effect) p) req =
      tally p req + (effects.flatMap Effect.returnedRequest).count req +
        (effects.flatMap Effect.answeredRequest).count req := by
  induction effects generalizing p with
  | nil => rfl
  | cons effect effects ih =>
      rw [List.foldl_cons, ih, tally_applyEffect]
      simp only [List.flatMap_cons, List.count_append]
      omega

theorem tally_get {p : Port} {i : Nat} (hidle : p.handlerAt i = some .getting) (req : Bytes) :
    tally (p.get i) req = tally p req := by
  cases hitems : p.writeQueue.items with
  | nil => simp [Port.get, WaiterQueue.get_of_nil hitems, tally, held, lost, hitems]
  | cons item rest =>
      have hset := tally_setHandler (p := { p with
        writeQueue := ⟨rest, p.writeQueue.getters⟩
        taken := p.taken ++ [⟨i, item, p.live⟩] }) hidle (.draining item) req
      have hrest : tally p req = tally { p with
          writeQueue := ⟨rest, p.writeQueue.getters⟩
          taken := p.taken ++ [⟨i, item, p.live⟩] } req + [item].count req := by
        simp only [tally, held, lost, hitems, List.count_cons, List.count_nil]
        omega
      simp only [Port.get, WaiterQueue.get_of_cons hitems]
      simp only [HandlerState.held, HandlerState.lost, List.count_nil] at hset
      omega

theorem lost_nil_of_resume {recursionLimit : Nat} {withId : Bytes → Bool}
    {st st' : HandlerState Bytes} {o : Outcome Bytes} {effects : List (Effect Bytes)}
    (h : resume recursionLimit withId st o = some (st', effects)) : st.lost = [] := by
  cases resumes_of_resume h <;> rfl

theorem tally_proceed {recursionLimit : Nat} {p : Port} {i : Nat} {st handler : HandlerState Bytes}
    {o : Outcome Bytes} {effects : List (Effect Bytes)} (hst : p.handlerAt i = some st)
    (hitem : o.taken = [])
    (hresume : resume recursionLimit (hasId recursionLimit) st o = some (handler, effects))
    {req : Bytes} (hid : hasId recursionLimit req = true) :
    tally (p.proceed i handler effects) req = tally p req := by
  have hperformed : tally (p.performed i handler effects) req = tally p req := by
    have hset := tally_setHandler hst handler req
    have heffects := tally_applyEffects (p.setHandler i handler) i effects req
    have hconserves := congrArg (List.count req) (resume_conserves hresume)
    simp only [List.count_filter hid, hitem, List.nil_append, List.count_append] at hconserves
    rw [lost_nil_of_resume hresume, List.count_nil] at hset
    rw [Port.performed]
    omega
  rw [proceed_eq]
  split
  · rename_i hget
    rw [tally_get ?_ req, hperformed]
    rw [handlerAt_performed, if_pos rfl, hst, hget]
    rfl
  · exact hperformed

/-! ### Runs -/

/-- A request whose reply is awaited has an id. -/
def Identified (recursionLimit : Nat) : HandlerState Bytes → Prop
  | .reading req _ => hasId recursionLimit req = true
  | .raised req => ∀ r ∈ req, hasId recursionLimit r = true
  | _ => True

theorem identified_resume {recursionLimit : Nat} {st st' : HandlerState Bytes}
    {o : Outcome Bytes} {effects : List (Effect Bytes)} (h : Identified recursionLimit st)
    (hresume : resume recursionLimit (hasId recursionLimit) st o = some (st', effects)) :
    Identified recursionLimit st' := by
  cases resumes_of_resume hresume with
  | awaits req hid => exact hid
  | readsOn req data chunk hloads => exact h
  | nestsTooDeeply req data chunk atEof hloads => simpa [Identified] using h
  | readFails req data e htimeout => simpa [Identified] using h
  | magicFails e => simp [Identified]
  | keyFails e => simp [Identified]
  | portFails key e => simp [Identified]
  | _ => trivial

/-- Every request that was put is counted once. -/
structure Accounted (recursionLimit : Nat) (p : Port) : Prop where
  waiters : WaitersIdle p
  tallied : ∀ req, hasId recursionLimit req = true → p.submitted.count req = tally p req
  identified : ∀ i st, p.handlerAt i = some st → Identified recursionLimit st

theorem accounted_start (recursionLimit : Nat) : Accounted recursionLimit .start where
  waiters := waitersIdle_start
  tallied := fun _ _ => rfl
  identified := by simp [Port.start, Port.handlerAt]

theorem submitted_get (p : Port) (i : Nat) : (p.get i).submitted = p.submitted := by
  cases hitems : p.writeQueue.items with
  | nil => simp [Port.get, WaiterQueue.get_of_nil hitems]
  | cons item rest => simp [Port.get, WaiterQueue.get_of_cons hitems, Port.setHandler]

theorem submitted_performed (p : Port) (i : Nat) (handler : HandlerState Bytes)
    (effects : List (Effect Bytes)) :
    (p.performed i handler effects).submitted = p.submitted := by
  have heffect : ∀ (p : Port) effect, (p.applyEffect i effect).submitted = p.submitted := by
    intro p effect
    cases effect <;> rfl
  exact applyEffects_eq Port.submitted heffect (p.setHandler i handler) effects

theorem submitted_proceed (p : Port) (i : Nat) (handler : HandlerState Bytes)
    (effects : List (Effect Bytes)) :
    (p.proceed i handler effects).submitted = p.submitted := by
  rw [proceed_eq]
  split
  · rw [submitted_get, submitted_performed]
  · exact submitted_performed p i handler effects

theorem accounted_step {recursionLimit : Nat} {key : Bytes} {p q : Port} {e : Event}
    (h : Accounted recursionLimit p) (hstep : step recursionLimit key p e = some q) :
    Accounted recursionLimit q := by
  have hwaiters := waitersIdle_step h.waiters hstep
  rcases step_cases hstep with ⟨-, rfl⟩ | ⟨i, -, rfl⟩ | ⟨item, -, rfl⟩ |
    ⟨i, rest, -, hwoken, rfl⟩ | ⟨i, o, st, handler, effects, -, hst, -, hitem, hresume, rfl⟩
  · refine ⟨hwaiters, ?_, ?_⟩
    · intro req hid
      rw [h.tallied req hid]
      simp [tally, held, lost, HandlerState.held, HandlerState.lost]
    · intro j st hst
      rcases handlerAt_connect rfl hst with hold | ⟨-, rfl⟩
      · exact h.identified j st hold
      · trivial
  · refine ⟨hwaiters, ?_, ?_⟩
    · intro req hid
      rw [tally_close]
      exact h.tallied req hid
    · intro j st hst
      rw [handlerAt_close] at hst
      exact h.identified j st hst
  · refine ⟨hwaiters, ?_, h.identified⟩
    intro req hid
    have hput := tally_putItem p item req
    rw [List.count_append, h.tallied req hid]
    exact hput.symm
  · refine ⟨hwaiters, ?_, ?_⟩
    · intro req hid
      have hidle : p.handlerAt i = some .getting :=
        h.waiters.idle i (by simp [Port.waiting, hwoken])
      rw [submitted_get, tally_get (p := { p with woken := rest }) hidle]
      exact h.tallied req hid
    · intro j st hst
      rcases handlerAt_get hst with hold | ⟨-, item, rfl⟩
      · exact h.identified j st hold
      · trivial
  · refine ⟨hwaiters, ?_, ?_⟩
    · intro req hid
      rw [submitted_proceed, tally_proceed hst hitem hresume hid]
      exact h.tallied req hid
    · intro j st' hst'
      rcases handlerAt_proceed hst' with ⟨-, hold⟩ | ⟨-, rfl | ⟨-, item, rfl⟩⟩
      · exact h.identified j st' hold
      · exact identified_resume (h.identified i st hst) hresume
      · trivial

theorem lost_eq_nil_iff {p : Port} :
    lost p = [] ↔ ∀ i st, p.handlerAt i = some st → st.lost = [] := by
  simp only [lost, List.flatMap_eq_nil_iff]
  constructor
  · intro h i st hst
    obtain ⟨c, hc, rfl⟩ := Option.map_eq_some_iff.mp hst
    exact h c (List.mem_of_getElem? hc)
  · intro h c hc
    obtain ⟨i, hi⟩ := List.getElem?_of_mem hc
    exact h i c.handler (by simp [Port.handlerAt, hi])

/-- With everything counted, a request is missing exactly when a handler took
it down. -/
theorem conserved_iff_lost {recursionLimit : Nat} {p : Port}
    (h : Accounted recursionLimit p) : Conserved recursionLimit p ↔ lost p = [] := by
  constructor
  · intro hconserved
    rw [lost_eq_nil_iff]
    intro i st hst
    by_contra hlost
    obtain ⟨req, hreq⟩ := List.exists_mem_of_ne_nil _ hlost
    have hid : hasId recursionLimit req = true := by
      cases st with
      | raised held =>
          exact h.identified i _ hst req (by simpa [HandlerState.lost] using hreq)
      | _ => simp [HandlerState.lost] at hreq
    have hmissing : 0 < (lost p).count req := by
      obtain ⟨c, hc, rfl⟩ := Option.map_eq_some_iff.mp hst
      apply List.count_pos_iff.mpr
      exact List.mem_flatMap.mpr ⟨c, List.mem_of_getElem? hc, hreq⟩
    have hcount := hconserved req hid
    have htally := h.tallied req hid
    rw [tally] at htally
    omega
  · intro hlost req hid
    rw [h.tallied req hid, tally, hlost, List.count_nil, Nat.add_zero]

theorem lost_resume {recursionLimit : Nat} {withId : Bytes → Bool}
    {st st' : HandlerState Bytes} {o : Outcome Bytes} {effects : List (Effect Bytes)}
    (hresume : resume recursionLimit withId st o = some (st', effects)) :
    st'.lost = [] ↔ ReplyReadable recursionLimit st o := by
  cases resumes_of_resume hresume with
  | answers req data chunk atEof v hloads => simp [HandlerState.lost, ReplyReadable, hloads]
  | readsOn req data chunk hloads => simp [HandlerState.lost, ReplyReadable, hloads]
  | readAtEof req data chunk hloads => simp [HandlerState.lost, ReplyReadable, hloads]
  | nestsTooDeeply req data chunk atEof hloads => simp [HandlerState.lost, ReplyReadable, hloads]
  | readFails req data e htimeout => simp [HandlerState.lost, ReplyReadable, htimeout]
  | _ => simp [HandlerState.lost, ReplyReadable]

theorem repliesReadable_iff {recursionLimit : Nat} {key : Bytes} {p q : Port} {e : Event}
    (hlost : lost p = []) (hstep : step recursionLimit key p e = some q) :
    RepliesReadable recursionLimit p e ↔ lost q = [] := by
  rw [lost_eq_nil_iff] at hlost
  rcases step_cases hstep with ⟨rfl, rfl⟩ | ⟨i, rfl, rfl⟩ | ⟨item, rfl, rfl⟩ |
    ⟨i, rest, rfl, hwoken, rfl⟩ | ⟨i, o, st, handler, effects, rfl, hst, -, -, hresume, rfl⟩
  · refine iff_of_true trivial (lost_eq_nil_iff.mpr ?_)
    intro j st hst
    rcases handlerAt_connect rfl hst with hold | ⟨-, rfl⟩
    · exact hlost j st hold
    · rfl
  · apply iff_of_true trivial
    rw [lost_close]
    exact lost_eq_nil_iff.mpr hlost
  · exact iff_of_true trivial (lost_eq_nil_iff.mpr hlost)
  · refine iff_of_true trivial (lost_eq_nil_iff.mpr ?_)
    intro j st hst
    rcases handlerAt_get hst with hold | ⟨-, item, rfl⟩
    · exact hlost j st hold
    · rfl
  · have hguard : RepliesReadable recursionLimit p (.outcome i o) ↔ handler.lost = [] := by
      rw [lost_resume hresume]
      simp [RepliesReadable, hst]
    rw [hguard, lost_eq_nil_iff]
    constructor
    · intro hhandler j st' hst'
      rcases handlerAt_proceed hst' with ⟨-, hold⟩ | ⟨-, rfl | ⟨-, item, rfl⟩⟩
      · exact hlost j st' hold
      · exact hhandler
      · rfl
    · intro hall
      by_cases hget : handler = .getting
      · rw [hget]
        rfl
      · exact hall i handler (handlerAt_proceed_self hst hget effects)

instance (recursionLimit : Nat) : DecidableRel (RepliesReadable recursionLimit) := by
  intro p e
  unfold RepliesReadable
  split <;> infer_instance

/-- A run keeps every request in every state it passes if and only if every
step meets the condition. -/
theorem conserved_iff_repliesReadable (recursionLimit : Nat) (key : Bytes) (events : List Event)
    (p : Port) (hrun : run (step recursionLimit key) .start events = some p) :
    (∀ q ∈ trace (step recursionLimit key) .start events, Conserved recursionLimit q) ↔
      runWithin (step recursionLimit key) (RepliesReadable recursionLimit) .start events =
        some p := by
  symm
  refine runWithin_iff_forall_trace (J := Accounted recursionLimit) ?_ ?_
    (accounted_start recursionLimit) (fun _ _ => rfl) hrun
  · intro s e t hs hstep
    exact accounted_step hs hstep
  · intro s e t hs hconserved hstep
    rw [conserved_iff_lost (accounted_step hs hstep)]
    exact repliesReadable_iff ((conserved_iff_lost hs).mp hconserved) hstep

def request : Bytes := [0x7b, 0x22, 0x69, 0x64, 0x22, 0x3a, 0x22, 0x31, 0x22, 0x7d]

def walletKey : Bytes := [1, 2, 3, 4, 5, 6]

def taken : List Event :=
  [.connect, .outcome 0 (.bytes magic false), .outcome 0 (.bytes walletKey false),
    .outcome 0 .portPair, .put request, .runWoken, .outcome 0 (.drained false)]

/-- The request is sent again after a timeout, a failed drain and an end of
file, and answered last. -/
def answeredLate : List Event :=
  taken ++ [.outcome 0 (.bytes [0x7b] false), .outcome 0 (.raises .timeoutError),
    .outcome 0 (.raises .connectionResetError), .connect, .outcome 1 (.bytes magic false),
    .outcome 1 (.bytes walletKey false), .outcome 1 .portPair, .outcome 1 (.drained false),
    .outcome 1 (.bytes request false)]

theorem conserved_answeredLate :
    (run (step 1000 walletKey) .start answeredLate).isSome = true ∧
      ∀ q ∈ trace (step 1000 walletKey) .start answeredLate, Conserved 1000 q := by
  have hrun : (runWithin (step 1000 walletKey) (RepliesReadable 1000) .start
      answeredLate).isSome = true := by
    decide +kernel
  obtain ⟨p, hp⟩ := Option.isSome_iff_exists.mp hrun
  exact ⟨Option.isSome_of_eq_some (run_of_runWithin hp),
    (conserved_iff_repliesReadable 1000 walletKey answeredLate p (run_of_runWithin hp)).mpr hp⟩

theorem not_conserved_after_reset :
    ¬ ∀ p, Reachable (step 1000 walletKey) Unrestricted .start p → Conserved 1000 p := by
  intro hall
  have hrun : (run (step 1000 walletKey) .start
      (taken ++ [.outcome 0 (.raises .connectionResetError)])).map
        (fun p => (p.submitted.count request, p.writeQueue.items.count request +
          (held p).count request + (p.answered.map Prod.fst).count request)) = some (1, 0) := by
    decide +kernel
  obtain ⟨p, hp, hcounts⟩ := Option.map_eq_some_iff.mp hrun
  obtain ⟨hsubmitted, hplaces⟩ := Prod.mk.inj hcounts
  have hcount := hall p (reachable_of_runWithin hp) request (by decide +kernel)
  omega

end ElectrumLightning.RequestConservation
