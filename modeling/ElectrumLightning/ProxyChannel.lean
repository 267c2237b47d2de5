import ElectrumLightning.ByteStrings
import ElectrumLightning.LabelledRuns

/-!
The channel `rx` of the signing proxy. Callers, `writePump` and `readPump`
send and receive on the same unbuffered channel, and a send meets any
goroutine that is blocked receiving.
-/

namespace ElectrumLightning.ProxyChannel

open ElectrumLightning.ByteStrings
open ElectrumLightning.LabelledRuns

inductive Message where
  | request (call : Nat) (body : Bytes)
  | reply (call : Nat) (body : Bytes)
deriving DecidableEq

/-- Where a call of `ComputeInputScript` or `SignOutputRaw` is. -/
inductive CallState where
  | sending (request : Bytes)
  | sent
  | receiving
  | received (msg : Message)
deriving DecidableEq

inductive WritePump where
  | notStarted
  | receiving
  | writing (msg : Message)
  | written
deriving DecidableEq

inductive ReadPump where
  | notStarted
  | reading
  | sending (msg : Message)
deriving DecidableEq

/-- The proxy and the signer. `inbox` and `outbox` are the two directions of
the websocket; `written` and `answered` record what `writePump` wrote and what
the signer answered to each call. -/
structure Proxy where
  calls : List CallState
  writePump : WritePump
  readPump : ReadPump
  inbox : List Message
  outbox : List Message
  written : List Message
  answered : List (Nat × Bytes)
deriving DecidableEq

def Proxy.start : Proxy :=
  { calls := []
    writePump := .notStarted
    readPump := .notStarted
    inbox := []
    outbox := []
    written := []
    answered := [] }

inductive Sender where
  | call (i : Nat)
  | readPump
deriving DecidableEq

inductive Receiver where
  | call (i : Nat)
  | writePump
deriving DecidableEq

inductive Event where
  | connects
  | calls (request : Bytes)
  | startsReceiving (call : Nat)
  | sync (sender : Sender) (receiver : Receiver)
  | pumpWrites
  | pumpLoops
  | signerAnswers (body : Bytes)
  | pumpReads

/-- What a goroutine blocked sending on `rx` sends. -/
def Proxy.offered (p : Proxy) : Sender → Option Message
  | .call i =>
      match p.calls[i]? with
      | some (.sending request) => some (.request i request)
      | _ => none
  | .readPump =>
      match p.readPump with
      | .sending msg => some msg
      | _ => none

def Proxy.blocked (p : Proxy) : Receiver → Bool
  | .call i => p.calls[i]? == some .receiving
  | .writePump => p.writePump == .receiving

def Proxy.sendReturns (p : Proxy) : Sender → Proxy
  | .call i => { p with calls := p.calls.set i .sent }
  | .readPump => { p with readPump := .reading }

def Proxy.deliver (p : Proxy) (msg : Message) : Receiver → Proxy
  | .call i => { p with calls := p.calls.set i (.received msg) }
  | .writePump => { p with writePump := .writing msg }

def step (p : Proxy) : Event → Option Proxy
  | .connects =>
      match p.writePump, p.readPump with
      | .notStarted, .notStarted => some { p with writePump := .receiving, readPump := .reading }
      | _, _ => none
  | .calls request => some { p with calls := p.calls ++ [.sending request] }
  | .startsReceiving i =>
      if p.calls[i]? = some .sent then some { p with calls := p.calls.set i .receiving } else none
  | .sync sender receiver =>
      match p.offered sender with
      | none => none
      | some msg =>
          if p.blocked receiver then some ((p.sendReturns sender).deliver msg receiver) else none
  | .pumpWrites =>
      match p.writePump with
      | .writing msg => some { p with
          writePump := .written
          inbox := p.inbox ++ [msg]
          written := p.written ++ [msg] }
      | _ => none
  | .pumpLoops =>
      match p.writePump with
      | .written => some { p with writePump := .receiving }
      | _ => none
  | .signerAnswers body =>
      match p.inbox with
      | .request call _ :: inbox => some { p with
          inbox := inbox
          outbox := p.outbox ++ [.reply call body]
          answered := p.answered ++ [(call, body)] }
      -- what is not a request gets no answer
      | .reply _ _ :: inbox => some { p with inbox := inbox }
      | [] => none
  | .pumpReads =>
      match p.readPump, p.outbox with
      | .reading, msg :: outbox => some { p with readPump := .sending msg, outbox := outbox }
      | _, _ => none

def IsAnswer (p : Proxy) (call : Nat) (msg : Message) : Prop :=
  ∃ body, msg = .reply call body ∧ (call, body) ∈ p.answered

def IsRequest (msg : Message) : Prop := ∃ call body, msg = .request call body

/-- Every call receives the answer to its own request, and `writePump` has
nothing but requests to write. -/
structure Agreed (p : Proxy) : Prop where
  answers : ∀ i msg, p.calls[i]? = some (.received msg) → IsAnswer p i msg
  writing : ∀ msg, p.writePump = .writing msg → IsRequest msg
  written : ∀ msg ∈ p.written, IsRequest msg

def intended : Message → Receiver
  | .request _ _ => .writePump
  | .reply call _ => .call call

/-- Nobody but the intended goroutine is blocked receiving on `rx`. -/
def Unrivalled (p : Proxy) (sender : Sender) : Prop :=
  ∀ msg ∈ p.offered sender, (p.blocked .writePump = true → intended msg = .writePump) ∧
    ∀ i < p.calls.length, p.blocked (.call i) = true → intended msg = .call i

instance (p : Proxy) (sender : Sender) : Decidable (Unrivalled p sender) :=
  inferInstanceAs (Decidable (∀ msg ∈ p.offered sender, _ ∧ _))

/-- Whenever two goroutines meet on `rx`, the receiver had no rival. -/
def NoRivals (p : Proxy) : Event → Prop
  | .sync sender _ => Unrivalled p sender
  | _ => True

instance : DecidableRel NoRivals := by
  intro p e
  unfold NoRivals
  split <;> infer_instance

/-! ### Runs without rivals -/

/-- Every message is where it belongs. -/
structure Routed (p : Proxy) : Prop extends Agreed p where
  offered : ∀ msg, p.readPump = .sending msg → ∃ call, IsAnswer p call msg
  inbox : ∀ msg ∈ p.inbox, IsRequest msg
  outbox : ∀ msg ∈ p.outbox, ∃ call, IsAnswer p call msg

theorem routed_start : Routed .start where
  answers := by simp [Proxy.start]
  writing := by simp [Proxy.start]
  written := by simp [Proxy.start]
  offered := by simp [Proxy.start]
  inbox := by simp [Proxy.start]
  outbox := by simp [Proxy.start]

theorem intended_of_unrivalled {p : Proxy} {sender : Sender} {msg : Message}
    (h : Unrivalled p sender) (hmsg : p.offered sender = some msg) {receiver : Receiver}
    (hblocked : p.blocked receiver = true) : intended msg = receiver := by
  obtain ⟨hpump, hcalls⟩ := h msg hmsg
  cases receiver with
  | writePump => exact hpump hblocked
  | call i =>
      refine hcalls i ?_ hblocked
      simp only [Proxy.blocked, beq_iff_eq] at hblocked
      exact (List.getElem?_eq_some_iff.mp hblocked).1

theorem IsAnswer.mono {p q : Proxy} {call : Nat} {msg : Message} (h : IsAnswer p call msg)
    (hanswered : ∀ a ∈ p.answered, a ∈ q.answered) : IsAnswer q call msg := by
  obtain ⟨body, hmsg, hmem⟩ := h
  exact ⟨body, hmsg, hanswered _ hmem⟩

theorem received_of_set {calls : List CallState} {i j : Nat} {st : CallState} {msg : Message}
    (h : (calls.set i st)[j]? = some (.received msg)) :
    (i = j ∧ st = .received msg) ∨ calls[j]? = some (.received msg) := by
  rw [List.getElem?_set] at h
  split at h
  · rename_i hij
    split at h
    · exact .inl ⟨hij, Option.some.inj h⟩
    · cases h
  · exact .inr h

theorem routed_send {p : Proxy} (h : Routed p) (i : Nat) (request : Bytes) :
    Routed { p with calls := p.calls.set i .sent, writePump := .writing (.request i request) } where
  answers := by
    intro j msg hj
    rcases received_of_set hj with ⟨-, hsent⟩ | hold
    · cases hsent
    · exact h.answers j msg hold
  writing := by
    intro msg hmsg
    cases hmsg
    exact ⟨i, request, rfl⟩
  written := h.written
  offered := h.offered
  inbox := h.inbox
  outbox := h.outbox

theorem routed_receive {p : Proxy} (h : Routed p) {i : Nat} {msg : Message}
    (hanswer : IsAnswer p i msg) :
    Routed { p with readPump := .reading, calls := p.calls.set i (.received msg) } where
  answers := by
    intro j msg' hj
    rcases received_of_set hj with ⟨rfl, hreceived⟩ | hold
    · cases hreceived
      exact hanswer
    · exact h.answers j msg' hold
  writing := h.writing
  written := h.written
  offered := by
    intro msg' hmsg'
    cases hmsg'
  inbox := h.inbox
  outbox := h.outbox

theorem routed_sync {p q : Proxy} {sender : Sender} {receiver : Receiver} (h : Routed p)
    (hguard : Unrivalled p sender) (hstep : step p (.sync sender receiver) = some q) :
    Routed q := by
  simp only [step] at hstep
  split at hstep
  · cases hstep
  · rename_i msg hmsg
    split at hstep
    · rename_i hblocked
      have hintended := intended_of_unrivalled hguard hmsg hblocked
      cases hstep
      cases sender with
      | call i =>
          simp only [Proxy.offered] at hmsg
          split at hmsg
          · rename_i request hrequest
            cases hmsg
            subst hintended
            exact routed_send h i request
          · cases hmsg
      | readPump =>
          simp only [Proxy.offered] at hmsg
          split at hmsg
          · rename_i msg' hsending
            cases hmsg
            obtain ⟨call, body, rfl, hmem⟩ := h.offered msg hsending
            subst hintended
            exact routed_receive h ⟨body, rfl, hmem⟩
          · cases hmsg
    · cases hstep

theorem routed_signerAnswers {p q : Proxy} {body : Bytes} (h : Routed p)
    (hstep : step p (.signerAnswers body) = some q) : Routed q := by
  simp only [step] at hstep
  split at hstep
  · rename_i call request inbox hinbox
    cases hstep
    have hmore : ∀ {c msg}, IsAnswer p c msg → IsAnswer { p with
        inbox := inbox
        outbox := p.outbox ++ [.reply call body]
        answered := p.answered ++ [(call, body)] } c msg :=
      fun hanswer => hanswer.mono fun _ hmem => List.mem_append_left _ hmem
    exact
      { answers := fun i msg hi => hmore (h.answers i msg hi)
        writing := h.writing
        written := h.written
        offered := by
          intro msg hmsg
          obtain ⟨c, hc⟩ := h.offered msg hmsg
          exact ⟨c, hmore hc⟩
        inbox := fun msg hmem => h.inbox msg (by simp [hinbox, hmem])
        outbox := by
          intro msg hmem
          rcases List.mem_append.mp hmem with hold | hnew
          · obtain ⟨c, hc⟩ := h.outbox msg hold
            exact ⟨c, hmore hc⟩
          · rw [List.mem_singleton.mp hnew]
            exact ⟨call, body, rfl, by simp⟩ }
  · rename_i call reply inbox hinbox
    obtain ⟨_, _, hrequest⟩ := h.inbox (.reply call reply) (by simp [hinbox])
    cases hrequest
  · cases hstep

theorem routed_step {p q : Proxy} {e : Event} (h : Routed p) (hguard : NoRivals p e)
    (hstep : step p e = some q) : Routed q := by
  cases e with
  | sync sender receiver => exact routed_sync h hguard hstep
  | signerAnswers body => exact routed_signerAnswers h hstep
  | connects =>
      simp only [step] at hstep
      split at hstep <;> cases hstep
      exact ⟨⟨h.answers, by simp, h.written⟩, by simp, h.inbox, h.outbox⟩
  | calls request =>
      cases hstep
      refine ⟨⟨?_, h.writing, h.written⟩, h.offered, h.inbox, h.outbox⟩
      intro i msg hi
      rcases Nat.lt_or_ge i p.calls.length with hlt | hge
      · rw [List.getElem?_append_left hlt] at hi
        exact h.answers i msg hi
      · rw [List.getElem?_append_right hge] at hi
        have hnew := List.mem_of_getElem? hi
        simp at hnew
  | startsReceiving i =>
      simp only [step] at hstep
      split at hstep <;> cases hstep
      refine ⟨⟨?_, h.writing, h.written⟩, h.offered, h.inbox, h.outbox⟩
      intro j msg hj
      rcases received_of_set hj with ⟨-, hreceiving⟩ | hold
      · cases hreceiving
      · exact h.answers j msg hold
  | pumpWrites =>
      simp only [step] at hstep
      split at hstep <;> cases hstep
      rename_i msg hwriting
      have hrequest := h.writing msg hwriting
      refine ⟨⟨h.answers, by simp, ?_⟩, h.offered, ?_, h.outbox⟩
      · exact List.forall_mem_append.mpr ⟨h.written, List.forall_mem_singleton.mpr hrequest⟩
      · exact List.forall_mem_append.mpr ⟨h.inbox, List.forall_mem_singleton.mpr hrequest⟩
  | pumpLoops =>
      simp only [step] at hstep
      split at hstep <;> cases hstep
      exact ⟨⟨h.answers, by simp, h.written⟩, h.offered, h.inbox, h.outbox⟩
  | pumpReads =>
      simp only [step] at hstep
      split at hstep <;> cases hstep
      rename_i msg outbox hreading houtbox
      refine ⟨⟨h.answers, h.writing, h.written⟩, ?_, h.inbox, ?_⟩
      · intro msg' hmsg'
        cases hmsg'
        exact h.outbox msg (by simp [houtbox])
      · exact fun msg' hmem => h.outbox msg' (by simp [houtbox, hmem])

theorem routed_of_reachable {p : Proxy} (h : Reachable step NoRivals .start p) : Routed p :=
  h.invariant routed_start fun _ _ _ hs hguard hstep => routed_step hs hguard hstep

/-! ### Sends with a rival -/

/-- A receiver that takes a message without breaking the agreement is the one
the message is meant for. -/
theorem intended_of_agreed {p q : Proxy} {sender : Sender} {receiver : Receiver} {msg : Message}
    (hmsg : p.offered sender = some msg) (hblocked : p.blocked receiver = true)
    (hstep : step p (.sync sender receiver) = some q) (h : Agreed q) :
    intended msg = receiver := by
  simp only [step, hmsg, hblocked, if_true, Option.some.injEq] at hstep
  subst hstep
  cases receiver with
  | writePump =>
      obtain ⟨call, body, rfl⟩ := h.writing msg rfl
      rfl
  | call i =>
      have hlength : i < p.calls.length := by
        simp only [Proxy.blocked, beq_iff_eq] at hblocked
        exact (List.getElem?_eq_some_iff.mp hblocked).1
      have hreceived : ((p.sendReturns sender).deliver msg (.call i)).calls[i]? =
          some (.received msg) := by
        cases sender <;> simp [Proxy.sendReturns, Proxy.deliver, hlength]
      obtain ⟨body, rfl, -⟩ := h.answers i msg hreceived
      rfl

/-- A send keeps the agreement whoever receives it exactly when the intended
goroutine has no rival. -/
theorem agreed_sync_iff {p : Proxy} (h : Routed p) (sender : Sender) :
    (∀ receiver q, step p (.sync sender receiver) = some q → Agreed q) ↔
      Unrivalled p sender := by
  constructor
  · intro hall msg hmsg
    have hintended : ∀ receiver, p.blocked receiver = true → intended msg = receiver := by
      intro receiver hblocked
      have hstep : step p (.sync sender receiver) =
          some ((p.sendReturns sender).deliver msg receiver) := by
        simp only [step, Option.mem_def.mp hmsg, hblocked, if_true]
      exact intended_of_agreed hmsg hblocked hstep (hall receiver _ hstep)
    exact ⟨hintended .writePump, fun i _ => hintended (.call i)⟩
  · intro hguard receiver q hstep
    exact (routed_sync h hguard hstep).toAgreed

/-- Runs in which no receiver has a rival keep requests and replies together,
and the next send is safe whoever receives it exactly when its receiver has no
rival either. -/
theorem agreed_of_noRivals (p : Proxy) (h : Reachable step NoRivals .start p) :
    Agreed p ∧ ∀ sender,
      (∀ receiver q, step p (.sync sender receiver) = some q → Agreed q) ↔ Unrivalled p sender :=
  ⟨(routed_of_reachable h).toAgreed, agreed_sync_iff (routed_of_reachable h)⟩

/-- Two calls one after the other, each answered before `writePump` is back at
its receive. -/
def inTurn : List Event :=
  [.connects, .calls [1], .sync (.call 0) .writePump, .pumpWrites, .startsReceiving 0,
    .signerAnswers [2], .pumpReads, .sync .readPump (.call 0), .pumpLoops,
    .calls [3], .sync (.call 1) .writePump, .startsReceiving 1, .pumpWrites,
    .signerAnswers [4], .pumpReads, .sync .readPump (.call 1)]

theorem agreed_inTurn :
    ∃ p, runWithin step NoRivals .start inTurn = some p ∧
      p.calls = [.received (.reply 0 [2]), .received (.reply 1 [4])] ∧ Agreed p := by
  have hrun : (runWithin step NoRivals .start inTurn).map Proxy.calls =
      some [.received (.reply 0 [2]), .received (.reply 1 [4])] := by
    decide +kernel
  obtain ⟨p, hp, hcalls⟩ := Option.map_eq_some_iff.mp hrun
  exact ⟨p, hp, hcalls, (agreed_of_noRivals p (reachable_of_runWithin hp)).1⟩

theorem not_agreed_two_callers :
    ¬ ∀ p, Reachable step Unrestricted .start p → Agreed p := by
  intro hall
  have hrun : (run step .start [.connects, .calls [1], .calls [3],
      .sync (.call 0) .writePump, .startsReceiving 0, .sync (.call 1) (.call 0)]).map
        Proxy.calls = some [.received (.request 1 [3]), .sent] := by
    decide +kernel
  obtain ⟨p, hp, hcalls⟩ := Option.map_eq_some_iff.mp hrun
  obtain ⟨body, hbody, -⟩ := (hall p (reachable_of_runWithin hp)).answers 0 (.request 1 [3])
    (by simp [hcalls])
  cases hbody

end ElectrumLightning.ProxyChannel
