import Mathlib.Data.List.Nodup
import ElectrumLightning.ReplyCorrelation

/-!
The pairing of replies with streams by position. As long as no read times
out and no `readQueue.get()` overtakes a stream that waits already, requests
and replies pass through the port in the order of their ids.
-/

namespace ElectrumLightning.PositionalPairing

open ElectrumLightning.ByteStrings
open ElectrumLightning.HubRequests
open ElectrumLightning.JsonText
open ElectrumLightning.LabelledRuns
open ElectrumLightning.ReplyCorrelation
open ElectrumLightning.SocksHandler
open ElectrumLightning.WaiterQueues

/-! ### The stages of a stream -/

@[simp] def putting : Callback → Option (Nat × Request)
  | .put stream req => some (stream, req)
  | _ => none

@[simp] def finished : Callback → Option Nat
  | .done stream => some stream
  | _ => none

@[simp] def starting : Callback → Option Nat
  | .getStart stream => some stream
  | _ => none

@[simp] def woken : Callback → Option Nat
  | .getWake stream => some stream
  | _ => none

@[simp] def answering : Callback → Option (Nat × Bytes)
  | .done2 stream payload => some (stream, payload)
  | _ => none

/-- The streams that have their payload, in the order in which they got it. -/
def delivered (p : HubPort) : List (Nat × Bytes) :=
  p.responses ++ p.ready.filterMap answering

/-- The streams without a payload, the most advanced ones first. -/
def waiting (p : HubPort) : List Nat :=
  p.ready.filterMap woken ++ p.readQueue.getters ++ p.ready.filterMap starting ++
    p.ready.filterMap finished ++ (p.ready.filterMap putting).map Prod.fst

def unanswered (p : HubPort) : List Request :=
  p.handler.held ++ p.writeQueue ++ (p.ready.filterMap putting).map Prod.snd

/-- The text that the handler has not accepted yet ends in the middle of
white space before the reply, or in the middle of the reply. -/
structure ReplyOnWire (recursionLimit id : Nat) (data rest : Bytes) : Prop where
  exists_text : ∃ lead text trail v, spacesOnly lead = true ∧ spacesOnly trail = true ∧
    ObjectText recursionLimit text v ∧ carriesId recursionLimit text id = true ∧
    data ++ rest = lead ++ text ++ trail ∧ data.length < lead.length + text.length

/-- One request is on its way: the wallet has it, or its reply is coming. -/
def Outstanding (recursionLimit : Nat) (p : HubPort) (req : Request) (data : Bytes) : Prop :=
  (p.toWallet = [req] ∧ spacesOnly (data ++ p.fromWallet) = true) ∨
    (p.toWallet = [] ∧ ReplyOnWire recursionLimit req.id data p.fromWallet)

/-- The connection carries at most the reply that the handler waits for. -/
def WireInOrder (recursionLimit : Nat) (p : HubPort) : Prop :=
  match p.handler with
  | .getting => p.toWallet = [] ∧ spacesOnly p.fromWallet = true
  | .draining req => Outstanding recursionLimit p req []
  | .reading req data => Outstanding recursionLimit p req data
  | _ => False

/-- Every woken stream finds a reply, and a reply stays on the queue only when
no stream waits for it. -/
structure RepliesAwaited (p : HubPort) : Prop where
  enough : (p.ready.filterMap woken).length ≤ p.readQueue.items.length
  exact : p.readQueue.getters ≠ [] →
    (p.ready.filterMap woken).length = p.readQueue.items.length

structure InOrder (recursionLimit : Nat) (p : HubPort) : Prop where
  nodup : (p.assigned.map Prod.snd).Nodup
  fresh : ∀ id ∈ p.assigned.map Prod.snd, id < p.serialNumber
  streams : p.assigned.map Prod.fst = (delivered p).map Prod.fst ++ waiting p
  requests : ∃ answered,
    List.Forall₂ (fun payload id => carriesId recursionLimit payload id = true)
      ((delivered p).map Prod.snd ++ p.readQueue.items) answered ∧
    p.assigned.map Prod.snd = answered ++ (unanswered p).map Request.id
  awaited : RepliesAwaited p
  wire : WireInOrder recursionLimit p

theorem inOrder_start (recursionLimit : Nat) : InOrder recursionLimit .start where
  nodup := by simp [HubPort.start]
  fresh := by simp [HubPort.start]
  streams := rfl
  requests := ⟨[], .nil, rfl⟩
  awaited := ⟨Nat.le_refl 0, fun h => absurd rfl h⟩
  wire := ⟨rfl, rfl⟩

theorem InOrder.of_stages {recursionLimit : Nat} {p q : HubPort}
    (h : InOrder recursionLimit p) (hassigned : q.assigned = p.assigned)
    (hserial : q.serialNumber = p.serialNumber) (hqueue : q.readQueue = p.readQueue)
    (hdelivered : delivered q = delivered p) (hwaiting : waiting q = waiting p)
    (hunanswered : unanswered q = unanswered p)
    (hwoken : q.ready.filterMap woken = p.ready.filterMap woken)
    (hwire : WireInOrder recursionLimit q) : InOrder recursionLimit q where
  nodup := by
    rw [hassigned]
    exact h.nodup
  fresh := by
    rw [hassigned, hserial]
    exact h.fresh
  streams := by
    rw [hassigned, hdelivered, hwaiting]
    exact h.streams
  requests := by
    rw [hassigned, hdelivered, hunanswered, hqueue]
    exact h.requests
  awaited :=
    { enough := by
        rw [hwoken, hqueue]
        exact h.awaited.enough
      exact := by
        rw [hwoken, hqueue]
        exact h.awaited.exact }
  wire := hwire

/-! ### The steps of the event loop -/

section Loop

variable {recursionLimit : Nat} {p : HubPort}

theorem inOrder_completeStream (h : InOrder recursionLimit p) (stream : Nat)
    (method params : String) :
    InOrder recursionLimit (p.completeStream stream method params) where
  nodup := by
    have hnew : p.serialNumber ∉ p.assigned.map Prod.snd := by
      intro hmem
      exact Nat.lt_irrefl _ (h.fresh _ hmem)
    simp only [HubPort.completeStream, List.map_append, List.map_cons, List.map_nil]
    exact List.Nodup.append h.nodup (List.nodup_singleton _) (by simpa using hnew)
  fresh := by
    intro id hid
    simp only [HubPort.completeStream, List.map_append, List.mem_append, List.map_cons,
      List.map_nil, List.mem_singleton] at hid ⊢
    rcases hid with hold | rfl
    · exact Nat.lt_succ_of_lt (h.fresh id hold)
    · exact Nat.lt_succ_self _
  streams := by
    have hstreams := h.streams
    simp only [delivered, waiting] at hstreams
    simp [HubPort.completeStream, delivered, waiting, List.filterMap_cons, hstreams]
  requests := by
    obtain ⟨answered, hpayloads, hids⟩ := h.requests
    refine ⟨answered, ?_, ?_⟩
    · simpa [HubPort.completeStream, delivered, List.filterMap_cons] using hpayloads
    · simp only [unanswered] at hids
      simp [HubPort.completeStream, unanswered, hids]
  awaited := by
    obtain ⟨henough, hexact⟩ := h.awaited
    exact ⟨by simpa [HubPort.completeStream, List.filterMap_cons] using henough,
      by simpa [HubPort.completeStream, List.filterMap_cons] using hexact⟩
  wire := h.wire

/-- Outside `readQueue.get()` a callback moves its stream to the next stage
without changing the order. -/
theorem stages_runCallback {callback : Callback} {rest : List Callback}
    (hready : p.ready = callback :: rest) (hstart : starting callback = none)
    (hwake : woken callback = none) :
    delivered ({ p with ready := rest }.runCallback callback) = delivered p ∧
      waiting ({ p with ready := rest }.runCallback callback) = waiting p ∧
      unanswered ({ p with ready := rest }.runCallback callback) = unanswered p ∧
      (({ p with ready := rest }.runCallback callback).ready.filterMap woken) =
        p.ready.filterMap woken := by
  cases callback with
  | getStart stream => simp at hstart
  | getWake stream => simp at hwake
  | put stream req =>
      simp [HubPort.runCallback, delivered, waiting, unanswered, hready, List.filterMap_cons]
  | done stream =>
      simp [HubPort.runCallback, delivered, waiting, unanswered, hready, List.filterMap_cons]
  | done2 stream payload =>
      simp [HubPort.runCallback, delivered, waiting, unanswered, hready, List.filterMap_cons]

theorem inOrder_advance (h : InOrder recursionLimit p) {callback : Callback}
    {rest : List Callback} (hready : p.ready = callback :: rest)
    (hstart : starting callback = none) (hwake : woken callback = none) :
    InOrder recursionLimit ({ p with ready := rest }.runCallback callback) := by
  obtain ⟨hdelivered, hwaiting, hunanswered, hwoken⟩ := stages_runCallback hready hstart hwake
  have hkeep := h.of_stages (q := { p with ready := rest }.runCallback callback)
  have hwire := h.wire
  cases callback with
  | getStart stream => simp at hstart
  | getWake stream => simp at hwake
  | put stream req =>
      exact hkeep rfl rfl rfl hdelivered hwaiting hunanswered hwoken hwire
  | done stream =>
      exact hkeep rfl rfl rfl hdelivered hwaiting hunanswered hwoken hwire
  | done2 stream payload =>
      exact hkeep rfl rfl rfl hdelivered hwaiting hunanswered hwoken hwire

/-- The stream that gets the first reply is the first of the waiting ones. -/
theorem inOrder_deliver (h : InOrder recursionLimit p) {stream : Nat} {callback : Callback}
    {rest : List Callback} (hready : p.ready = callback :: rest)
    (hget : callback = .getWake stream ∨ callback = .getStart stream ∧
      p.readQueue.getters = [] ∧ rest.filterMap woken = [])
    (hitems : p.readQueue.items ≠ []) :
    InOrder recursionLimit ({ p with ready := rest }.get stream) := by
  obtain ⟨payload, items, hcons⟩ := List.exists_cons_of_ne_nil hitems
  have hq : ({ p with ready := rest }.get stream) = { p with
      ready := rest ++ [.done2 stream payload]
      readQueue := ⟨items, p.readQueue.getters⟩ } := by
    simp [HubPort.get, WaiterQueue.get_of_cons hcons]
  rw [hq]
  obtain ⟨answered, hpayloads, hids⟩ := h.requests
  have hstreams := h.streams
  obtain ⟨henough, hexact⟩ := h.awaited
  simp only [delivered, waiting, unanswered, hready, hcons]
    at hstreams hpayloads hids henough hexact
  refine ⟨h.nodup, h.fresh, ?_, ⟨answered, ?_, ?_⟩, ⟨?_, ?_⟩, h.wire⟩
  · rcases hget with rfl | ⟨rfl, hgetters, hwakes⟩
    · simpa [delivered, waiting, List.filterMap_cons] using hstreams
    · simpa [delivered, waiting, List.filterMap_cons, hgetters, hwakes] using hstreams
  · rcases hget with rfl | ⟨rfl, -, -⟩ <;>
      simpa [delivered, List.filterMap_cons] using hpayloads
  · rcases hget with rfl | ⟨rfl, -, -⟩ <;>
      simpa [unanswered, List.filterMap_cons] using hids
  · rcases hget with rfl | ⟨rfl, -, hwakes⟩
    · simpa [List.filterMap_cons] using henough
    · simp [List.filterMap_cons, hwakes]
  · rcases hget with rfl | ⟨rfl, hgetters, -⟩
    · simpa [List.filterMap_cons] using hexact
    · simp [hgetters]

theorem inOrder_wait (h : InOrder recursionLimit p) {stream : Nat} {rest : List Callback}
    (hready : p.ready = .getStart stream :: rest) (hitems : p.readQueue.items = []) :
    InOrder recursionLimit ({ p with ready := rest }.get stream) := by
  have hq : ({ p with ready := rest }.get stream) = { p with
      ready := rest
      readQueue := ⟨[], p.readQueue.getters ++ [stream]⟩ } := by
    simp [HubPort.get, WaiterQueue.get_of_nil hitems]
  rw [hq]
  obtain ⟨answered, hpayloads, hids⟩ := h.requests
  have hstreams := h.streams
  have henough := h.awaited.enough
  simp only [delivered, waiting, unanswered, hready, hitems] at hstreams hpayloads hids henough
  refine ⟨h.nodup, h.fresh, ?_, ⟨answered, ?_, ?_⟩, ⟨?_, ?_⟩, h.wire⟩
  · simpa [delivered, waiting, List.filterMap_cons] using hstreams
  · simpa [delivered, List.filterMap_cons] using hpayloads
  · simpa [unanswered, List.filterMap_cons] using hids
  · simpa [List.filterMap_cons] using henough
  · simpa [List.filterMap_cons] using henough

theorem items_ne_nil_of_getWake (h : RepliesAwaited p) {stream : Nat} {rest : List Callback}
    (hready : p.ready = .getWake stream :: rest) : p.readQueue.items ≠ [] := by
  intro hitems
  have henough := h.enough
  simp [hready, hitems] at henough

theorem inOrder_runReady (h : InOrder recursionLimit p) {callback : Callback}
    {rest : List Callback} (hready : p.ready = callback :: rest)
    (hguard : Undisturbed p .runReady) :
    InOrder recursionLimit ({ p with ready := rest }.runCallback callback) := by
  cases callback with
  | put stream req => exact inOrder_advance h hready rfl rfl
  | done stream => exact inOrder_advance h hready rfl rfl
  | done2 stream payload => exact inOrder_advance h hready rfl rfl
  | getWake stream =>
      exact inOrder_deliver h hready (.inl rfl) (items_ne_nil_of_getWake h.awaited hready)
  | getStart stream =>
      simp only [Undisturbed, hready] at hguard
      by_cases hitems : p.readQueue.items = []
      · exact inOrder_wait h hready hitems
      · obtain ⟨hgetters, hwakes⟩ := hguard.resolve_left hitems
        have hnone : rest.filterMap woken = [] := by
          apply List.filterMap_eq_nil_iff.mpr
          intro callback hmem
          have hnot := hwakes callback hmem
          cases callback <;> simp_all [Callback.isGetWake]
        exact inOrder_deliver h hready (.inr ⟨rfl, hgetters, hnone⟩) hitems

end Loop

/-! ### The steps of the handler and of the wallet -/

section Wire

variable {recursionLimit : Nat} {p q : HubPort}

theorem spacesOnly_append (front back : Bytes) :
    spacesOnly (front ++ back) = (spacesOnly front && spacesOnly back) := by
  simp [spacesOnly]

theorem isSpace_of_spacesOnly {text : Bytes} (h : spacesOnly text = true) :
    ∀ b ∈ text, isSpace b = true :=
  List.all_eq_true.mp h

theorem exists_objectText {text : Bytes} {id : Nat}
    (h : isReplyText recursionLimit text id = true) :
    ∃ v, ObjectText recursionLimit text v ∧ carriesId recursionLimit text id = true := by
  simp only [isReplyText, Bool.and_eq_true, beq_iff_eq] at h
  obtain ⟨⟨hopens, hcloses⟩, hid⟩ := h
  cases hloads : loads recursionLimit text with
  | ok v => exact ⟨v, ⟨hopens, hcloses, hloads⟩, hid⟩
  | error e => simp [carriesId, hloads] at hid

theorem outstanding_walletReplies {req : Request} {data : Bytes}
    (h : Outstanding recursionLimit p req data) {position : Nat} {text spaces : Bytes}
    (hstep : step recursionLimit p (.walletReplies position text spaces) = some q) :
    q = { p with toWallet := [], fromWallet := p.fromWallet ++ text ++ spaces } ∧
      Outstanding recursionLimit q req data := by
  simp only [step] at hstep
  split at hstep
  · cases hstep
  · rename_i req' hreq
    split at hstep
    · rename_i hreply
      cases hstep
      rcases h with ⟨hwallet, hspaces⟩ | ⟨hwallet, -⟩
      · rw [hwallet] at hreq ⊢
        obtain ⟨rfl, rfl⟩ : position = 0 ∧ req = req' := by
          cases position with
          | zero => exact ⟨rfl, by simpa using hreq⟩
          | succ position => simp at hreq
        refine ⟨rfl, .inr ⟨rfl, ⟨data ++ p.fromWallet, text, spaces, ?_⟩⟩⟩
        simp only [Bool.and_eq_true] at hreply
        obtain ⟨v, hobject, hid⟩ := exists_objectText hreply.1
        refine ⟨v, hspaces, hreply.2, hobject, hid, by simp, ?_⟩
        have hpos : 0 < text.length := by
          cases text with
          | nil => simpa using hobject.opens
          | cons b text => exact Nat.succ_pos _
        simp only [List.length_append]
        omega
      · simp [hwallet] at hreq
    · cases hstep

theorem loads_incomplete {lead text front missing : Bytes} {v : Json}
    (hlead : spacesOnly lead = true) (hobject : ObjectText recursionLimit text v)
    (hcut : lead ++ text = front ++ missing) (hmissing : missing ≠ []) :
    loads recursionLimit front = .error .valueError := by
  rcases List.append_eq_append_iff.mp hcut with ⟨back, hfront, htext⟩ | ⟨back, hspaces, -⟩
  · rw [hfront, loads_spaces_append (isSpace_of_spacesOnly hlead)]
    exact (htext ▸ hobject).loads_incomplete_text hmissing
  · rw [hspaces, spacesOnly_append, Bool.and_eq_true] at hlead
    exact loads_spaces (isSpace_of_spacesOnly hlead.1)

theorem loads_complete {lead text trail : Bytes} {v : Json}
    (hlead : spacesOnly lead = true) (hobject : ObjectText recursionLimit text v)
    (htrail : spacesOnly trail = true) :
    loads recursionLimit (lead ++ text ++ trail) = .ok v := by
  rw [List.append_assoc, loads_spaces_append (isSpace_of_spacesOnly hlead)]
  exact hobject.loads_append_spaces (isSpace_of_spacesOnly htrail)

/-- What a further chunk makes of the text read so far: the object is complete
and only white space is left, or it is still incomplete. -/
theorem chunk_cases {lead text trail data chunk rest : Bytes} {v : Json}
    (hlead : spacesOnly lead = true) (hobject : ObjectText recursionLimit text v)
    (htrail : spacesOnly trail = true) (hall : data ++ (chunk ++ rest) = lead ++ text ++ trail) :
    (lead.length + text.length ≤ (data ++ chunk).length ∧
        loads recursionLimit (data ++ chunk) = .ok v ∧ spacesOnly rest = true) ∨
      ((data ++ chunk).length < lead.length + text.length ∧
        loads recursionLimit (data ++ chunk) = .error .valueError) := by
  rw [← List.append_assoc] at hall
  by_cases hlength : (data ++ chunk).length < lead.length + text.length
  · refine .inr ⟨hlength, ?_⟩
    rcases List.append_eq_append_iff.mp hall with ⟨missing, hcut, -⟩ | ⟨extra, hfront, -⟩
    · apply loads_incomplete hlead hobject hcut
      rintro rfl
      have hsame := congrArg List.length hcut
      simp only [List.length_append, List.length_nil] at hsame hlength
      omega
    · rw [hfront] at hlength
      simp only [List.length_append] at hlength
      omega
  · left
    obtain ⟨extra, hfront, hrest⟩ : ∃ extra, data ++ chunk = lead ++ text ++ extra ∧
        trail = extra ++ rest := by
      rcases List.append_eq_append_iff.mp hall with ⟨missing, hcut, hrest⟩ | hextra
      · have hnone : missing = [] := by
          have hsame := congrArg List.length hcut
          simp only [List.length_append] at hsame hlength
          exact List.length_eq_zero_iff.mp (by omega)
        subst hnone
        exact ⟨[], by simpa using hcut.symm, by simpa using hrest.symm⟩
      · exact hextra
    rw [hrest, spacesOnly_append, Bool.and_eq_true] at htrail
    exact ⟨Nat.le_of_not_lt hlength, hfront ▸ loads_complete hlead hobject htrail.1, htrail.2⟩

theorem ReplyOnWire.readChunk {id : Nat} {data chunk rest : Bytes}
    (h : ReplyOnWire recursionLimit id data (chunk ++ rest)) :
    (∃ v, loads recursionLimit (data ++ chunk) = .ok v ∧
        carriesId recursionLimit (data ++ chunk) id = true ∧ spacesOnly rest = true) ∨
      (loads recursionLimit (data ++ chunk) = .error .valueError ∧
        ReplyOnWire recursionLimit id (data ++ chunk) rest) := by
  obtain ⟨lead, text, trail, v, hlead, htrail, hobject, hid, hall, -⟩ := h.exists_text
  rcases chunk_cases hlead hobject htrail hall with ⟨-, hvalue, hrest⟩ | ⟨hlength, hvalue⟩
  · exact .inl ⟨v, hvalue, carriesId_of_loads_eq (by rw [hvalue, hobject.value]) hid, hrest⟩
  · rw [← List.append_assoc] at hall
    exact .inr ⟨hvalue, ⟨lead, text, trail, v, hlead, htrail, hobject, hid, hall, hlength⟩⟩

theorem inOrder_putReply (h : InOrder recursionLimit p) {req : Request} {data payload rest : Bytes}
    (hhandler : p.handler = .reading req data)
    (hid : carriesId recursionLimit payload req.id = true) (hwallet : p.toWallet = [])
    (hrest : spacesOnly rest = true) :
    InOrder recursionLimit
      ({ p with fromWallet := rest, handler := .getting }.applyEffect (.putReply req payload)) := by
  obtain ⟨answered, hpayloads, hids⟩ := h.requests
  have hstreams := h.streams
  obtain ⟨henough, hexact⟩ := h.awaited
  simp only [delivered, waiting, unanswered, hhandler, HandlerState.held] at hstreams hpayloads hids
  refine ⟨h.nodup, h.fresh, ?_, ⟨answered ++ [req.id], ?_, ?_⟩, ⟨?_, ?_⟩, ⟨hwallet, hrest⟩⟩
  · cases hgetters : p.readQueue.getters with
    | nil => simpa [HubPort.applyEffect, delivered, waiting, hgetters] using hstreams
    | cons stream getters =>
        simpa [HubPort.applyEffect, delivered, waiting, hgetters, List.filterMap_cons]
          using hstreams
  · have hmore := List.rel_append hpayloads (List.Forall₂.cons hid .nil)
    cases hgetters : p.readQueue.getters with
    | nil => simpa [HubPort.applyEffect, delivered, hgetters] using hmore
    | cons stream getters =>
        simpa [HubPort.applyEffect, delivered, hgetters, List.filterMap_cons] using hmore
  · cases hgetters : p.readQueue.getters with
    | nil => simpa [HubPort.applyEffect, unanswered, HandlerState.held, hgetters] using hids
    | cons stream getters =>
        simpa [HubPort.applyEffect, unanswered, HandlerState.held, hgetters, List.filterMap_cons]
          using hids
  · cases hgetters : p.readQueue.getters with
    | nil =>
        simp only [HubPort.applyEffect, WaiterQueue.put, hgetters, List.head?_nil,
          Option.toList_none, List.map_nil, List.append_nil, List.length_append,
          List.length_cons, List.length_nil]
        omega
    | cons stream getters =>
        simp only [HubPort.applyEffect, WaiterQueue.put, hgetters, List.head?_cons,
          Option.toList_some, List.map_cons, List.map_nil, List.filterMap_append,
          List.filterMap_cons, woken, List.filterMap_nil, List.length_append,
          List.length_cons, List.length_nil]
        omega
  · cases hgetters : p.readQueue.getters with
    | nil => simp [HubPort.applyEffect, hgetters]
    | cons stream getters =>
        have hsame := hexact (by simp [hgetters])
        simp [HubPort.applyEffect, hgetters, hsame]

theorem inOrder_handlerTakes (h : InOrder recursionLimit p)
    (hstep : step recursionLimit p .handlerTakes = some q) : InOrder recursionLimit q := by
  simp only [step] at hstep
  split at hstep
  · cases hstep
  · rename_i req rest hqueue
    have hwire := h.wire
    cases hhandler : p.handler with
    | getting =>
        simp only [HubPort.resumeHandler, hhandler, resume, Option.map_some,
          List.foldl_cons, List.foldl_nil, HubPort.applyEffect, Option.some.injEq] at hstep
        subst hstep
        simp only [WireInOrder, hhandler] at hwire
        refine h.of_stages rfl rfl rfl rfl rfl ?_ rfl ?_
        · simp [unanswered, hhandler, hqueue, HandlerState.held]
        · exact .inl ⟨by simp [hwire.1], by simpa using hwire.2⟩
    | _ => simp [HubPort.resumeHandler, hhandler, resume] at hstep

theorem inOrder_drainReturns (h : InOrder recursionLimit p)
    (hstep : step recursionLimit p .drainReturns = some q) : InOrder recursionLimit q := by
  simp only [step] at hstep
  have hwire := h.wire
  cases hhandler : p.handler with
  | draining req =>
      simp only [HubPort.resumeHandler, hhandler, resume, awaitReply, if_true,
        Bool.false_eq_true, if_false, Option.map_some, List.foldl_nil,
        Option.some.injEq] at hstep
      subst hstep
      simp only [WireInOrder, hhandler] at hwire
      refine h.of_stages rfl rfl rfl rfl rfl ?_ rfl hwire
      simp [unanswered, hhandler, HandlerState.held]
  | _ => simp [HubPort.resumeHandler, hhandler, resume] at hstep

theorem inOrder_walletReplies (h : InOrder recursionLimit p) {position : Nat}
    {text spaces : Bytes}
    (hstep : step recursionLimit p (.walletReplies position text spaces) = some q) :
    InOrder recursionLimit q := by
  have hkeep : ∀ req data, Outstanding recursionLimit p req data →
      WireInOrder recursionLimit
        { p with toWallet := [], fromWallet := p.fromWallet ++ text ++ spaces } →
      InOrder recursionLimit q := by
    intro req data hout hwire
    obtain ⟨rfl, -⟩ := outstanding_walletReplies hout hstep
    exact h.of_stages rfl rfl rfl rfl rfl rfl rfl hwire
  have hwire := h.wire
  cases hhandler : p.handler with
  | getting =>
      simp only [WireInOrder, hhandler] at hwire
      simp [step, hwire.1] at hstep
  | draining req =>
      simp only [WireInOrder, hhandler] at hwire
      obtain ⟨rfl, hout⟩ := outstanding_walletReplies hwire hstep
      exact hkeep req [] hwire (by simpa only [WireInOrder, hhandler] using hout)
  | reading req data =>
      simp only [WireInOrder, hhandler] at hwire
      obtain ⟨rfl, hout⟩ := outstanding_walletReplies hwire hstep
      exact hkeep req data hwire (by simpa only [WireInOrder, hhandler] using hout)
  | _ => simp [WireInOrder, hhandler] at hwire

theorem inOrder_chunkArrives (h : InOrder recursionLimit p) {length : Nat}
    (hstep : step recursionLimit p (.chunkArrives length) = some q) :
    InOrder recursionLimit q := by
  simp only [step] at hstep
  split at hstep
  · have hwire := h.wire
    cases hhandler : p.handler with
    | reading req data =>
        simp only [WireInOrder, hhandler, Outstanding] at hwire
        simp only [HubPort.resumeHandler, hhandler, resume] at hstep
        rcases hwire with ⟨hwallet, hspaces⟩ | ⟨hwallet, hcoming⟩
        · have hsplit : spacesOnly (data ++ p.fromWallet.take length ++ p.fromWallet.drop length) =
              true := by
            rw [List.append_assoc, List.take_append_drop]
            exact hspaces
          have hread : spacesOnly (data ++ p.fromWallet.take length) = true := by
            rw [spacesOnly_append, Bool.and_eq_true] at hsplit
            exact hsplit.1
          simp only [loads_spaces (isSpace_of_spacesOnly hread), awaitReply, Bool.false_eq_true,
            if_false, Option.map_some, List.foldl_nil, Option.some.injEq] at hstep
          subst hstep
          refine h.of_stages rfl rfl rfl rfl rfl ?_ rfl (.inl ⟨hwallet, hsplit⟩)
          simp [unanswered, hhandler, HandlerState.held]
        · rw [← List.take_append_drop length p.fromWallet] at hcoming
          rcases hcoming.readChunk with ⟨v, hvalue, hid, hrest⟩ | ⟨hvalue, hmore⟩
          · simp only [hvalue, Option.map_some, List.foldl_cons, List.foldl_nil,
              Option.some.injEq] at hstep
            subst hstep
            exact inOrder_putReply h hhandler hid hwallet hrest
          · simp only [hvalue, awaitReply, Bool.false_eq_true, if_false, Option.map_some,
              List.foldl_nil, Option.some.injEq] at hstep
            subst hstep
            refine h.of_stages rfl rfl rfl rfl rfl ?_ rfl (.inr ⟨hwallet, hmore⟩)
            simp [unanswered, hhandler, HandlerState.held]
    | _ => simp [WireInOrder, hhandler, HubPort.resumeHandler, resume] at hwire hstep
  · cases hstep

theorem inOrder_step (h : InOrder recursionLimit p) {e : Event} (hguard : Undisturbed p e)
    (hstep : step recursionLimit p e = some q) : InOrder recursionLimit q := by
  cases e with
  | streamCompletes stream method params =>
      simp only [step] at hstep
      split at hstep <;> cases hstep
      exact inOrder_completeStream h stream method params
  | runReady =>
      simp only [step] at hstep
      split at hstep
      · cases hstep
      · rename_i callback rest hready
        cases hstep
        exact inOrder_runReady h hready hguard
  | handlerTakes => exact inOrder_handlerTakes h hstep
  | drainReturns => exact inOrder_drainReturns h hstep
  | walletReplies position text spaces => exact inOrder_walletReplies h hstep
  | chunkArrives length => exact inOrder_chunkArrives h hstep
  | readTimesOut => exact hguard.elim

end Wire

theorem inOrder_of_reachable {recursionLimit : Nat} {p : HubPort}
    (h : Reachable (step recursionLimit) Undisturbed .start p) : InOrder recursionLimit p :=
  h.invariant (inOrder_start recursionLimit) fun _ _ _ hs hguard hstep =>
    inOrder_step hs hguard hstep

/-! ### The responses -/

theorem exists_assigned_of_delivered {recursionLimit : Nat} {p : HubPort}
    (h : InOrder recursionLimit p) {stream : Nat} {payload : Bytes}
    (hmem : (stream, payload) ∈ delivered p) :
    ∃ id, (stream, id) ∈ p.assigned ∧ carriesId recursionLimit payload id = true := by
  obtain ⟨answered, hpayloads, hids⟩ := h.requests
  obtain ⟨i, hi, hget⟩ := List.getElem_of_mem hmem
  have hlength : i < answered.length := by
    have hsame := hpayloads.length_eq
    simp only [List.length_append, List.length_map] at hsame
    omega
  have hassigned : i < p.assigned.length := by
    have hsame := congrArg List.length hids
    simp only [List.length_append, List.length_map] at hsame
    omega
  have hstream : p.assigned[i].1 = stream := by
    have hsame := congrArg (fun streams => streams[i]?) h.streams
    simpa [List.getElem?_append_left, hi, hassigned, hget] using hsame
  have hid : p.assigned[i].2 = answered[i] := by
    have hsame := congrArg (fun ids => ids[i]?) hids
    simpa [List.getElem?_append_left, hlength, hassigned] using hsame
  have hcarries : carriesId recursionLimit payload answered[i] = true := by
    have hrel := (List.forall₂_iff_get.mp hpayloads).2 i
      (by simp only [List.length_append, List.length_map]; omega) hlength
    simpa [List.getElem_append_left, hi, hget] using hrel
  refine ⟨answered[i], ?_, hcarries⟩
  have hpair : p.assigned[i] = (stream, answered[i]) := Prod.ext hstream hid
  exact hpair ▸ List.getElem_mem hassigned

theorem correlated_of_inOrder {recursionLimit : Nat} {p : HubPort}
    (h : InOrder recursionLimit p) : Correlated recursionLimit p := by
  intro stream payload hmem
  obtain ⟨id, hassigned, hcarries⟩ :=
    exists_assigned_of_delivered h (List.mem_append_left _ hmem)
  refine ⟨id, hassigned, hcarries, ?_⟩
  intro stream' id' hassigned' hother
  apply Bool.eq_false_iff.mpr
  intro hcarries'
  obtain rfl := carriesId_unique hcarries hcarries'
  have hsame := List.inj_on_of_nodup_map h.nodup hassigned' hassigned rfl
  exact hother (congrArg Prod.fst hsame)

/-- Undisturbed runs answer every stream with the reply to its own request. -/
theorem correlated_of_undisturbed (recursionLimit : Nat) (p : HubPort)
    (h : Reachable (step recursionLimit) Undisturbed .start p) :
    Correlated recursionLimit p :=
  correlated_of_inOrder (inOrder_of_reachable h)

def replyText (digit : UInt8) : Bytes :=
  [0x7b, 0x22, 0x69, 0x64, 0x22, 0x3a, 0x22, digit, 0x22, 0x7d]

/-- Two streams at once, the first reply in two chunks. -/
def twoStreams : List Event :=
  [.streamCompletes 1 "NewAddress" "{}", .streamCompletes 3 "ConfirmedBalance" "{}",
    .runReady, .handlerTakes, .runReady, .runReady, .drainReturns, .runReady,
    .walletReplies 0 (replyText 0x31) [0x0a], .chunkArrives 4, .runReady, .runReady,
    .chunkArrives 7, .handlerTakes, .drainReturns, .runReady,
    .walletReplies 0 (replyText 0x32) [], .chunkArrives 10, .runReady, .runReady, .runReady]

theorem correlated_twoStreams :
    ∃ p, runWithin (step 1000) Undisturbed .start twoStreams = some p ∧
      p.responses = [(1, replyText 0x31 ++ [0x0a]), (3, replyText 0x32)] ∧
      Correlated 1000 p := by
  have hrun : (runWithin (step 1000) Undisturbed .start twoStreams).map HubPort.responses =
      some [(1, replyText 0x31 ++ [0x0a]), (3, replyText 0x32)] := by
    decide +kernel
  obtain ⟨p, hp, hresponses⟩ := Option.map_eq_some_iff.mp hrun
  exact ⟨p, hp, hresponses, correlated_of_undisturbed 1000 p (reachable_of_runWithin hp)⟩

/-- A read times out, the request is sent again, and both replies arrive. -/
def repliedTwice : List Event :=
  [.streamCompletes 1 "NewAddress" "{}", .runReady, .runReady, .runReady,
    .handlerTakes, .drainReturns, .readTimesOut, .handlerTakes, .drainReturns,
    .walletReplies 0 (replyText 0x31) [0x0a], .walletReplies 0 (replyText 0x31) [0x0a],
    .chunkArrives 11, .runReady, .runReady,
    .streamCompletes 3 "ConfirmedBalance" "{}", .runReady, .runReady, .runReady,
    .handlerTakes, .drainReturns, .chunkArrives 11, .runReady, .runReady]

theorem not_correlated_after_timeout :
    ¬ ∀ p, Reachable (step 1000) Unrestricted .start p → Correlated 1000 p := by
  intro hall
  have hrun : (run (step 1000) .start repliedTwice).map
      (fun p => (p.responses, p.assigned)) =
      some ([(1, replyText 0x31 ++ [0x0a]), (3, replyText 0x31 ++ [0x0a])],
        [(1, 1), (3, 2)]) := by
    decide +kernel
  obtain ⟨p, hp, hpair⟩ := Option.map_eq_some_iff.mp hrun
  obtain ⟨hresponses, hassigned⟩ := Prod.mk.inj hpair
  obtain ⟨id, hid, hcarries, -⟩ := hall p (reachable_of_runWithin hp) 3
    (replyText 0x31 ++ [0x0a]) (by simp [hresponses])
  obtain rfl : id = 2 := by simpa [hassigned] using hid
  have hother : carriesId 1000 (replyText 0x31 ++ [0x0a]) 2 = false := by decide +kernel
  simp [hother] at hcarries

end ElectrumLightning.PositionalPairing
