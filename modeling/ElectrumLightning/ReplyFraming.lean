import ElectrumLightning.PositionalPairing

/-!
The replies of a wallet on its connection. The handler finds the end of a
reply by trying to load what it has read so far, so that the way in which the
bytes are cut into chunks makes no difference.
-/

namespace ElectrumLightning.ReplyFraming

open ElectrumLightning.ByteStrings
open ElectrumLightning.JsonText
open ElectrumLightning.LabelledRuns
open ElectrumLightning.PositionalPairing
open ElectrumLightning.ReplyCorrelation (spacesOnly)
open ElectrumLightning.SocksHandler

universe u

/-- The text of an object, followed by white space. -/
structure Reply (recursionLimit : Nat) where
  text : Bytes
  spaces : Bytes
  value : Json
  object : ObjectText recursionLimit text value
  blank : spacesOnly spaces = true

def Reply.bytes {recursionLimit : Nat} (reply : Reply recursionLimit) : Bytes :=
  reply.text ++ reply.spaces

/-- A connection and the handler that serves it. `written` counts the requests
with an id that the handler has written, `sent` the replies of the wallet. -/
structure Connection (Req : Type u) where
  handler : HandlerState Req
  written : Nat
  sent : Nat
  fromWallet : Bytes
  payloads : List Bytes

def Connection.start {Req : Type u} : Connection Req := ⟨.getting, 0, 0, [], []⟩

inductive Event (Req : Type u) where
  | takes (req : Req)
  | drains
  | sends
  | arrives (length : Nat)

section Steps

variable {Req : Type u} (recursionLimit : Nat) (withId : Req → Bool)
  (replies : List (Reply recursionLimit))

def Connection.applyEffect (c : Connection Req) : Effect Req → Connection Req
  | .write req => if withId req then { c with written := c.written + 1 } else c
  | .putReply _ data => { c with payloads := c.payloads ++ [data] }
  | _ => c

def Connection.resumeHandler (c : Connection Req) (o : Outcome Req) : Option (Connection Req) :=
  (resume recursionLimit withId c.handler o).map fun (handler, effects) =>
    effects.foldl (Connection.applyEffect withId) { c with handler := handler }

/-- The wallet sends its next reply only when a request is written that it has
not answered. A chunk has at most 2048 bytes. -/
def step (c : Connection Req) : Event Req → Option (Connection Req)
  | .takes req => c.resumeHandler recursionLimit withId (.item req)
  | .drains => c.resumeHandler recursionLimit withId (.drained false)
  | .sends =>
      match replies[c.sent]? with
      | none => none
      | some reply =>
          if c.sent < c.written then
            some { c with sent := c.sent + 1, fromWallet := c.fromWallet ++ reply.bytes }
          else none
  | .arrives length =>
      if 0 < length ∧ length ≤ 2048 ∧ length ≤ c.fromWallet.length then
        { c with fromWallet := c.fromWallet.drop length }.resumeHandler recursionLimit withId
          (.bytes (c.fromWallet.take length) false)
      else none

end Steps

/-! ### The replies arrive whole and in order -/

section Framing

variable {Req : Type u} {recursionLimit : Nat} {withId : Req → Bool}
  {replies : List (Reply recursionLimit)} {c d : Connection Req}

/-- What was read and what is on its way end in the middle of white space
before the reply, or in the middle of the reply. -/
structure Arriving (reply : Reply recursionLimit) (data rest : Bytes) : Prop where
  exists_lead : ∃ lead, spacesOnly lead = true ∧ data ++ rest = lead ++ reply.bytes ∧
    data.length < lead.length + reply.text.length

/-- One request is written and not answered. -/
def Pending (replies : List (Reply recursionLimit)) (c : Connection Req) (data : Bytes) : Prop :=
  c.written = c.payloads.length + 1 ∧
    ((c.sent = c.payloads.length ∧ spacesOnly (data ++ c.fromWallet) = true) ∨
      (c.sent = c.payloads.length + 1 ∧ ∃ reply, replies[c.payloads.length]? = some reply ∧
        Arriving reply data c.fromWallet))

def Idle (c : Connection Req) : Prop :=
  c.written = c.payloads.length ∧ c.sent = c.payloads.length ∧ spacesOnly c.fromWallet = true

def WireInOrder (withId : Req → Bool) (replies : List (Reply recursionLimit))
    (c : Connection Req) : Prop :=
  match c.handler with
  | .getting => Idle c
  | .draining req => if withId req then Pending replies c [] else Idle c
  | .reading _ data => Pending replies c data
  | _ => False

/-- The payloads are the first replies, one by one. -/
def Parsed (replies : List (Reply recursionLimit)) (payloads : List Bytes) : Prop :=
  List.Forall₂ (fun payload reply => loads recursionLimit payload = .ok reply.value)
    payloads (replies.take payloads.length)

structure InStep (withId : Req → Bool) (replies : List (Reply recursionLimit))
    (c : Connection Req) : Prop where
  parsed : Parsed replies c.payloads
  wire : WireInOrder withId replies c

theorem Parsed.length_le {payloads : List Bytes} (h : Parsed replies payloads) :
    payloads.length ≤ replies.length := by
  have hlength := List.Forall₂.length_eq h
  rw [List.length_take] at hlength
  omega

theorem Parsed.concat {payloads : List Bytes} {payload : Bytes} {reply : Reply recursionLimit}
    (h : Parsed replies payloads) (hreply : replies[payloads.length]? = some reply)
    (hpayload : loads recursionLimit payload = .ok reply.value) :
    Parsed replies (payloads ++ [payload]) := by
  have hnext : replies.take (payloads ++ [payload]).length =
      replies.take payloads.length ++ [reply] := by
    rw [List.length_append, List.length_singleton, List.take_add_one, hreply]
    rfl
  rw [Parsed, hnext]
  exact List.rel_append h (.cons hpayload .nil)

theorem inStep_start : InStep withId replies .start where
  parsed := .nil
  wire := ⟨rfl, rfl, rfl⟩

theorem text_pos (reply : Reply recursionLimit) : 0 < reply.text.length := by
  apply List.length_pos_iff.mpr
  intro hnil
  simpa [hnil] using reply.object.opens

theorem inStep_takes (h : InStep withId replies c) {req : Req}
    (hstep : step recursionLimit withId replies c (.takes req) = some d) :
    InStep withId replies d := by
  have hwire := h.wire
  cases hhandler : c.handler with
  | getting =>
      simp only [WireInOrder, hhandler, Idle] at hwire
      obtain ⟨hwritten, hsent, hspaces⟩ := hwire
      simp only [step, Connection.resumeHandler, hhandler, resume, Option.map_some,
        List.foldl_cons, List.foldl_nil, Connection.applyEffect, Option.some_inj] at hstep
      subst hstep
      constructor
      · split <;> exact h.parsed
      · by_cases hid : withId req
        · simp only [hid, if_true, WireInOrder, Pending]
          exact ⟨by omega, .inl ⟨hsent, hspaces⟩⟩
        · simp only [hid, Bool.false_eq_true, if_false, WireInOrder]
          exact ⟨hwritten, hsent, hspaces⟩
  | _ => simp [step, Connection.resumeHandler, hhandler, resume] at hstep

theorem inStep_drains (h : InStep withId replies c)
    (hstep : step recursionLimit withId replies c .drains = some d) :
    InStep withId replies d := by
  have hwire := h.wire
  cases hhandler : c.handler with
  | draining req =>
      simp only [step, Connection.resumeHandler, hhandler, resume, awaitReply] at hstep
      by_cases hid : withId req
      · simp only [hid, if_true, Bool.false_eq_true, if_false, Option.map_some,
          List.foldl_nil, Option.some_inj] at hstep
        subst hstep
        simp only [WireInOrder, hhandler, hid, if_true] at hwire
        exact ⟨h.parsed, hwire⟩
      · simp only [hid, Bool.false_eq_true, if_false, Option.map_some, List.foldl_nil,
          Option.some_inj] at hstep
        subst hstep
        simp only [WireInOrder, hhandler, hid, Bool.false_eq_true, if_false] at hwire
        exact ⟨h.parsed, hwire⟩
  | _ => simp [step, Connection.resumeHandler, hhandler, resume] at hstep

theorem pending_sends {data : Bytes} (h : Pending replies c data) {reply : Reply recursionLimit}
    (hreply : replies[c.sent]? = some reply) (hlt : c.sent < c.written) :
    Pending replies
      { c with sent := c.sent + 1, fromWallet := c.fromWallet ++ reply.bytes } data := by
  obtain ⟨hwritten, ⟨hsent, hspaces⟩ | ⟨hsent, -⟩⟩ := h
  · rw [hsent] at hreply
    refine ⟨hwritten, .inr ⟨congrArg Nat.succ hsent, reply, hreply, ⟨data ++ c.fromWallet, ?_⟩⟩⟩
    refine ⟨hspaces, (List.append_assoc ..).symm, ?_⟩
    have hpos := text_pos reply
    rw [List.length_append]
    omega
  · omega

theorem inStep_sends (h : InStep withId replies c)
    (hstep : step recursionLimit withId replies c .sends = some d) :
    InStep withId replies d := by
  simp only [step] at hstep
  split at hstep
  · cases hstep
  · rename_i reply hreply
    split at hstep
    · rename_i hlt
      cases hstep
      refine ⟨h.parsed, ?_⟩
      have hwire := h.wire
      cases hhandler : c.handler with
      | getting =>
          simp only [WireInOrder, hhandler, Idle] at hwire
          omega
      | draining req =>
          simp only [WireInOrder, hhandler] at hwire ⊢
          by_cases hid : withId req
          · simp only [hid, if_true] at hwire ⊢
            exact pending_sends hwire hreply hlt
          · simp only [hid, Bool.false_eq_true, if_false, Idle] at hwire
            omega
      | reading req data =>
          simp only [WireInOrder, hhandler] at hwire ⊢
          exact pending_sends hwire hreply hlt
      | _ => simp only [WireInOrder, hhandler] at hwire
    · cases hstep

/-- A chunk completes the reply or leaves it incomplete. -/
theorem Arriving.readChunk {reply : Reply recursionLimit} {data chunk rest : Bytes}
    (h : Arriving reply data (chunk ++ rest)) :
    (loads recursionLimit (data ++ chunk) = .ok reply.value ∧ spacesOnly rest = true) ∨
      (loads recursionLimit (data ++ chunk) = .error .valueError ∧
        Arriving reply (data ++ chunk) rest) := by
  obtain ⟨lead, hlead, hall, -⟩ := h.exists_lead
  have hwhole : data ++ (chunk ++ rest) = lead ++ reply.text ++ reply.spaces := by
    rw [hall, Reply.bytes, List.append_assoc]
  rcases chunk_cases hlead reply.object reply.blank hwhole with
    ⟨-, hvalue, hrest⟩ | ⟨hlength, hvalue⟩
  · exact .inl ⟨hvalue, hrest⟩
  · rw [← List.append_assoc] at hall
    exact .inr ⟨hvalue, ⟨lead, hlead, hall, hlength⟩⟩

theorem inStep_arrives (h : InStep withId replies c) {length : Nat}
    (hstep : step recursionLimit withId replies c (.arrives length) = some d) :
    InStep withId replies d := by
  simp only [step] at hstep
  split at hstep
  · have hwire := h.wire
    cases hhandler : c.handler with
    | reading req data =>
        simp only [WireInOrder, hhandler, Pending] at hwire
        simp only [Connection.resumeHandler, hhandler, resume] at hstep
        obtain ⟨hwritten, ⟨hsent, hspaces⟩ | ⟨hsent, reply, hreply, harriving⟩⟩ := hwire
        · have hsplit : spacesOnly
              (data ++ c.fromWallet.take length ++ c.fromWallet.drop length) = true := by
            rw [List.append_assoc, List.take_append_drop]
            exact hspaces
          have hread : spacesOnly (data ++ c.fromWallet.take length) = true := by
            rw [spacesOnly_append, Bool.and_eq_true] at hsplit
            exact hsplit.1
          simp only [loads_spaces (isSpace_of_spacesOnly hread), awaitReply, Bool.false_eq_true,
            if_false, Option.map_some, List.foldl_nil, Option.some_inj] at hstep
          subst hstep
          exact ⟨h.parsed, hwritten, .inl ⟨hsent, hsplit⟩⟩
        · rw [← List.take_append_drop length c.fromWallet] at harriving
          rcases harriving.readChunk with ⟨hvalue, hrest⟩ | ⟨hvalue, hmore⟩
          · simp only [hvalue, Option.map_some, List.foldl_cons, List.foldl_nil,
              Connection.applyEffect, Option.some_inj] at hstep
            subst hstep
            refine ⟨h.parsed.concat hreply hvalue, ?_, ?_, hrest⟩
            · simpa using hwritten
            · simpa using hsent
          · simp only [hvalue, awaitReply, Bool.false_eq_true, if_false, Option.map_some,
              List.foldl_nil, Option.some_inj] at hstep
            subst hstep
            exact ⟨h.parsed, hwritten, .inr ⟨hsent, reply, hreply, hmore⟩⟩
    | _ => simp [WireInOrder, hhandler, Connection.resumeHandler, resume] at hwire hstep
  · cases hstep

theorem inStep_step (h : InStep withId replies c) {e : Event Req}
    (hstep : step recursionLimit withId replies c e = some d) : InStep withId replies d := by
  cases e with
  | takes req => exact inStep_takes h hstep
  | drains => exact inStep_drains h hstep
  | sends => exact inStep_sends h hstep
  | arrives length => exact inStep_arrives h hstep

theorem inStep_of_reachable
    (h : Reachable (step recursionLimit withId replies) Unrestricted .start c) :
    InStep withId replies c :=
  h.invariant inStep_start fun _ _ _ hs _ hstep => inStep_step hs hstep

/-! ### No reply is lost -/

def Event.isTakes : Event Req → Bool
  | .takes _ => true
  | _ => false

/-- Nothing can happen before another request is taken. -/
def Quiet (withId : Req → Bool) (replies : List (Reply recursionLimit)) (c : Connection Req) :
    Prop :=
  ∀ e : Event Req, e.isTakes = false → step recursionLimit withId replies c e = none

theorem length_payloads_of_quiet (h : InStep withId replies c) (hquiet : Quiet withId replies c) :
    c.payloads.length = min c.written replies.length := by
  have hle := h.parsed.length_le
  have hwire := h.wire
  cases hhandler : c.handler with
  | getting =>
      simp only [WireInOrder, hhandler, Idle] at hwire
      omega
  | draining req =>
      have hdrains := hquiet .drains rfl
      simp only [step, Connection.resumeHandler, hhandler, resume] at hdrains
      split at hdrains <;> simp at hdrains
  | reading req data =>
      simp only [WireInOrder, hhandler] at hwire
      obtain ⟨hwritten, ⟨hsent, -⟩ | ⟨-, reply, -, harriving⟩⟩ := hwire
      · have hsends := hquiet .sends rfl
        simp only [step] at hsends
        split at hsends
        · rename_i hnone
          rw [List.getElem?_eq_none_iff] at hnone
          omega
        · rw [if_pos (by omega)] at hsends
          cases hsends
      · have harrives := hquiet (.arrives 1) rfl
        obtain ⟨lead, -, hall, hlength⟩ := harriving.exists_lead
        have htotal := congrArg List.length hall
        simp only [Reply.bytes, List.length_append] at htotal
        simp only [step] at harrives
        rw [if_pos ⟨by decide, by decide, by omega⟩] at harrives
        simp only [Connection.resumeHandler, hhandler, resume] at harrives
        split at harrives <;> simp at harrives
  | _ => simp only [WireInOrder, hhandler] at hwire

/-- What is left to do for the requests taken so far. -/
def work (replies : List (Reply recursionLimit)) (c : Connection Req) : Nat :=
  ((replies.drop c.sent).map fun reply => reply.bytes.length + 1).sum + c.fromWallet.length +
    match c.handler with
    | .draining _ => 1
    | _ => 0

theorem work_lt_of_step (h : InStep withId replies c) {e : Event Req} (he : e.isTakes = false)
    (hstep : step recursionLimit withId replies c e = some d) : work replies d < work replies c := by
  cases e with
  | takes req => cases he
  | drains =>
      cases hhandler : c.handler with
      | draining req =>
          simp only [step, Connection.resumeHandler, hhandler, resume, awaitReply] at hstep
          by_cases hid : withId req <;> simp [hid] at hstep <;> subst hstep <;>
            simp [work, hhandler]
      | _ => simp [step, Connection.resumeHandler, hhandler, resume] at hstep
  | sends =>
      simp only [step] at hstep
      split at hstep
      · cases hstep
      · rename_i reply hreply
        split at hstep
        · cases hstep
          obtain ⟨hlt, rfl⟩ := List.getElem?_eq_some_iff.mp hreply
          simp only [work, List.drop_eq_getElem_cons hlt, List.map_cons, List.sum_cons,
            List.length_append]
          omega
        · cases hstep
  | arrives length =>
      simp only [step] at hstep
      split at hstep
      · rename_i hlength
        cases hhandler : c.handler with
        | reading req data =>
            simp only [Connection.resumeHandler, hhandler, resume, awaitReply] at hstep
            split at hstep <;> simp at hstep <;> subst hstep <;>
              simp [work, hhandler, Connection.applyEffect] <;> omega
        | _ =>
            have hwire := h.wire
            simp [WireInOrder, hhandler, Connection.resumeHandler, resume] at hwire hstep
      · cases hstep

theorem work_of_takes {req : Req}
    (hstep : step recursionLimit withId replies c (.takes req) = some d) :
    work replies d = work replies c + 1 := by
  cases hhandler : c.handler with
  | getting =>
      simp only [step, Connection.resumeHandler, hhandler, resume, Option.map_some,
        List.foldl_cons, List.foldl_nil, Connection.applyEffect, Option.some_inj] at hstep
      subst hstep
      split <;> simp [work, hhandler]
  | _ => simp [step, Connection.resumeHandler, hhandler, resume] at hstep

/-- Between the requests that are taken only so many things can happen. -/
theorem work_of_run (h : InStep withId replies c) {es : List (Event Req)}
    (hrun : run (step recursionLimit withId replies) c es = some d) :
    work replies d + es.countP (fun e => !e.isTakes) ≤
      work replies c + es.countP Event.isTakes := by
  induction es generalizing c with
  | nil =>
      cases hrun
      simp
  | cons e es ih =>
      obtain ⟨r, hstep, hrest⟩ := run_cons_iff.mp hrun
      have hle := ih (inStep_step h hstep) hrest
      cases htakes : e.isTakes with
      | false =>
          have hlt := work_lt_of_step h htakes hstep
          simp only [List.countP_cons, htakes, Bool.not_false, if_true, Bool.false_eq_true,
            if_false]
          omega
      | true =>
          obtain ⟨req, rfl⟩ : ∃ req, e = .takes req := by
            cases e with
            | takes req => exact ⟨req, rfl⟩
            | _ => cases htakes
          have hmore := work_of_takes hstep
          simp only [List.countP_cons, htakes, Bool.not_true, if_true, Bool.false_eq_true,
            if_false]
          omega

end Framing

/-! ### The copy of one object towards the wallet -/

inductive CopyOutcome where
  | forwarded (data rest : Bytes)
  | waiting (data : Bytes)
  | raised (data : Bytes)
deriving DecidableEq

/-- `copyToSocks`, as a function of the bytes read so far and of those that
follow: it reads one byte at a time until the data can be loaded. -/
def copyToSocks (recursionLimit : Nat) (data stream : Bytes) : CopyOutcome :=
  match loads recursionLimit data with
  | .ok _ => .forwarded data stream
  | .error .recursionError => .raised data
  | .error .valueError =>
      match stream with
      | [] => .waiting data
      | b :: stream => copyToSocks recursionLimit (data ++ [b]) stream

theorem copyToSocks_missing {recursionLimit : Nat} {lead text data missing : Bytes} {v : Json}
    (hlead : spacesOnly lead = true) (hobject : ObjectText recursionLimit text v)
    (hcut : lead ++ text = data ++ missing) (rest : Bytes) :
    copyToSocks recursionLimit data (missing ++ rest) = .forwarded (lead ++ text) rest := by
  induction missing generalizing data with
  | nil =>
      have hwhole : loads recursionLimit (lead ++ text ++ []) = .ok v :=
        loads_complete hlead hobject rfl
      rw [List.append_nil] at hwhole hcut
      rw [← hcut, copyToSocks.eq_def, hwhole]
      rfl
  | cons b missing ih =>
      have hmore := loads_incomplete hlead hobject hcut (List.cons_ne_nil b missing)
      rw [copyToSocks.eq_def, hmore]
      apply ih
      rw [hcut, List.append_assoc]
      rfl

/-- The object is forwarded up to its last byte, and nothing of what follows. -/
theorem copyToSocks_object {recursionLimit : Nat} {lead text : Bytes} {v : Json}
    (hlead : spacesOnly lead = true) (hobject : ObjectText recursionLimit text v)
    (rest : Bytes) :
    copyToSocks recursionLimit [] (lead ++ text ++ rest) = .forwarded (lead ++ text) rest :=
  copyToSocks_missing hlead hobject (List.nil_append _).symm rest

/-- In every run the payloads are the first replies, each whole. When nothing
more can happen every request that the wallet answers has its payload, and a
run comes to that point after so many steps. An object copied towards the
wallet ends where it ends. -/
theorem framing_independent_of_chunks {Req : Type u} (recursionLimit : Nat) (withId : Req → Bool)
    (replies : List (Reply recursionLimit)) :
    (∀ es c, run (step recursionLimit withId replies) .start es = some c →
      Parsed replies c.payloads ∧
      (Quiet withId replies c → c.payloads.length = min c.written replies.length) ∧
      es.countP (fun e => !e.isTakes) ≤
        (replies.map fun reply => reply.bytes.length + 1).sum + es.countP Event.isTakes) ∧
    ∀ lead text v rest, spacesOnly lead = true → ObjectText recursionLimit text v →
      copyToSocks recursionLimit [] (lead ++ text ++ rest) = .forwarded (lead ++ text) rest := by
  refine ⟨?_, fun lead text v rest hlead hobject => copyToSocks_object hlead hobject rest⟩
  intro es c hrun
  have hreachable := reachable_of_runWithin hrun
  have hinStep := inStep_of_reachable hreachable
  refine ⟨hinStep.parsed, length_payloads_of_quiet hinStep, ?_⟩
  have hle := work_of_run inStep_start hrun
  simp only [work, Connection.start, List.drop_zero, List.length_nil] at hle
  omega

/-- A closing brace within a string, and a line feed at the end. -/
def bracedReply : Reply 1000 where
  text := [0x7b, 0x22, 0x61, 0x22, 0x3a, 0x22, 0x7d, 0x22, 0x7d]
  spaces := [0x0a]
  value := .object [([0x61], .string [0x7d])]
  object := ⟨rfl, rfl, rfl⟩
  blank := rfl

/-- The line feed of the first reply arrives with the second one. -/
def twoReplies : List (Event Unit) :=
  [.takes (), .drains, .sends, .arrives 7, .arrives 2, .takes (), .drains, .sends, .arrives 4,
    .arrives 6]

theorem framing_twoReplies :
    ∃ c, run (step 1000 (fun _ => true) [bracedReply, bracedReply]) .start twoReplies = some c ∧
      c.payloads = [bracedReply.text, 0x0a :: bracedReply.text] ∧
      Parsed [bracedReply, bracedReply] c.payloads ∧
      copyToSocks 1000 [] ([] ++ bracedReply.text ++ [0x7b]) =
        .forwarded ([] ++ bracedReply.text) [0x7b] := by
  have hrun : (run (step 1000 (fun _ => true) [bracedReply, bracedReply]) .start twoReplies).map
      Connection.payloads = some [bracedReply.text, 0x0a :: bracedReply.text] := by
    decide +kernel
  obtain ⟨c, hc, hpayloads⟩ := Option.map_eq_some_iff.mp hrun
  obtain ⟨hruns, hcopies⟩ :=
    framing_independent_of_chunks 1000 (fun _ : Unit => true) [bracedReply, bracedReply]
  exact ⟨c, hc, hpayloads, (hruns twoReplies c hc).1,
    hcopies [] bracedReply.text bracedReply.value [0x7b] rfl bracedReply.object⟩

end ElectrumLightning.ReplyFraming
