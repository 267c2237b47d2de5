import ElectrumLightning.Http2Server
import ElectrumLightning.LabelledRuns

/-!
The connections to one port, which all share the protocol that `servers`
keeps for it. What `receive_data` makes of the bytes, which calls the package
accepts, and the order of the replies are left open.
-/

namespace ElectrumLightning.ConnectionIsolation

open ElectrumLightning.ByteStrings
open ElectrumLightning.Http2Server
open ElectrumLightning.LabelledRuns

structure Pending where
  origin : Nat
  call : Call
deriving DecidableEq

/-- Bytes written on account of one connection, and the connection whose
transport they were written to. -/
structure Write where
  origin : Nat
  target : Option Nat
deriving DecidableEq

/-- Data that a connection delivered, with what the protocol was when it came: its
transport, the calls on its connection object, and the connections whose data the
object had received. -/
structure Delivery where
  origin : Nat
  transport : Option Nat
  conn : List H2Call
  sources : List Nat
deriving DecidableEq

/-- One port. `starts` records the protocol that each connection found when it
was made; `unsent` are the connections on whose account the object has something
to send. -/
structure Hub where
  server : Option H2Protocol
  opened : Nat
  live : List Nat
  sources : List Nat
  pending : List Pending
  unsent : List Nat
  starts : List H2Protocol
  deliveries : List Delivery
  writes : List Write
deriving DecidableEq

def Hub.start : Hub :=
  { server := none
    opened := 0
    live := []
    sources := []
    pending := []
    unsent := []
    starts := []
    deliveries := []
    writes := [] }

/-- `accepted` are how many calls of `done2` the package accepts. -/
inductive Event where
  | connects
  | dataArrives (connection : Nat) (data : Bytes) (result : Option (List H2Event))
  | connectionLost (connection : Nat)
  | replies (position : Nat) (body : Bytes) (accepted : Nat)

/-- What is written, and what remains to be sent, when calls are made on account of
one connection: `data_to_send`, whose result is always written to the transport,
gives what all the calls before it have left. -/
def flushed (origin : Nat) (target : Option Nat) (unsent : List Nat) :
    List H2Call → List Write × List Nat
  | [] => ([], unsent)
  | .dataToSend :: calls =>
      let rest := flushed origin target [] calls
      (unsent.map (fun j => ⟨j, target⟩) ++ rest.1, rest.2)
  | _ :: calls => flushed origin target (unsent ++ [origin]) calls

def Hub.handler (hub : Hub) : H2Protocol := hub.server.getD .new

/-- The protocol becomes `q`, by calls made on account of one connection. -/
def Hub.become (hub : Hub) (origin : Nat) (q : H2Protocol) : Hub :=
  let calls := q.conn.drop hub.handler.conn.length
  let sent := flushed origin q.transport hub.unsent calls
  { hub with
    server := some q
    unsent := sent.2
    writes := hub.writes ++ sent.1 }

def Hub.connect (hub : Hub) : Hub :=
  { hub.become hub.opened (hub.handler.connectionMade hub.opened) with
    opened := hub.opened + 1
    live := hub.live ++ [hub.opened]
    starts := hub.starts ++ [hub.handler] }

def Hub.receive (lib : Libraries) (hub : Hub) (p : H2Protocol) (i : Nat) (data : Bytes)
    (result : Option (List H2Event)) : Hub :=
  let received := p.dataReceived lib data result
  { hub.become i received.protocol with
    live := if received.closes then hub.live.filter fun j => p.transport != some j else hub.live
    sources := hub.sources ++ [i]
    pending := hub.pending ++ received.calls.map fun call => ⟨i, call⟩
    deliveries := hub.deliveries ++ [⟨i, p.transport, p.conn, hub.sources⟩] }

/-- `done2`, which is left by an exception at the first call that the package
refuses. -/
def Hub.reply (hub : Hub) (p : H2Protocol) (position : Nat) (pending : Pending) (body : Bytes)
    (accepted : Nat) : Hub :=
  { hub.become pending.origin (p.replyUpTo pending.call.stream body accepted) with
    pending := hub.pending.eraseIdx position }

def step (lib : Libraries) (hub : Hub) : Event → Option Hub
  | .connects => some hub.connect
  | .dataArrives i data result =>
      match hub.server with
      | none => none
      | some p =>
          if i ∈ hub.live ∧ data ≠ [] then some (hub.receive lib p i data result) else none
  | .connectionLost i =>
      if i ∈ hub.live then some { hub with live := hub.live.erase i } else none
  | .replies position body accepted =>
      match hub.server, hub.pending[position]? with
      | some p, some pending => some (hub.reply p position pending body accepted)
      | _, _ => none

/-- An `H2Connection` accepts the client preface once, at its beginning. -/
def AcceptsPreface (conn : List H2Call) : Prop :=
  ∀ data result, H2Call.receiveData data result ∉ conn

/-- Every connection starts with a fresh protocol, sends its preface to a connection
object that accepts it, is served by a protocol that has its transport and nobody
else's data, and all that is written on its account is written to it. -/
structure Isolated (hub : Hub) : Prop where
  starts : ∀ p ∈ hub.starts, AcceptsPreface p.conn ∧ p.streamData = []
  prefaces : ∀ d ∈ hub.deliveries, d.origin ∉ d.sources → AcceptsPreface d.conn
  served : ∀ d ∈ hub.deliveries, d.transport = some d.origin ∧ ∀ j ∈ d.sources, j = d.origin
  writes : ∀ w ∈ hub.writes, w.target = some w.origin

/-- A connection is made only while no connection has delivered data, and only the
newest connection delivers any. -/
def Separate (hub : Hub) : Event → Prop
  | .connects => hub.sources = []
  | .dataArrives i _ _ => i + 1 = hub.opened
  | .connectionLost _ | .replies _ _ _ => True

instance : DecidableRel Separate := by
  intro hub e
  unfold Separate
  split <;> infer_instance

/-- What the protocol object remembers of the connections. -/
structure Tracked (hub : Hub) : Prop where
  unopened : hub.server = none → hub.opened = 0 ∧ hub.sources = []
  transport : ∀ p ∈ hub.server, p.transport.map (· + 1) = some hub.opened
  preface : ∀ p ∈ hub.server, AcceptsPreface p.conn ↔ hub.sources = []
  streams : ∀ p ∈ hub.server, hub.sources = [] → p.streamData = []
  pending : ∀ q ∈ hub.pending, q.origin ∈ hub.sources
  unsent : ∀ j ∈ hub.unsent, j ∈ hub.sources
  newest : Isolated hub → ∀ i ∈ hub.sources, i + 1 = hub.opened

/-! ### What is written -/

theorem mem_flushed {origin : Nat} {target : Option Nat} {unsent : List Nat}
    {calls : List H2Call} :
    (∀ w ∈ (flushed origin target unsent calls).1,
      w.target = target ∧ (w.origin ∈ unsent ∨ w.origin = origin)) ∧
    ∀ j ∈ (flushed origin target unsent calls).2, j ∈ unsent ∨ j = origin := by
  induction calls generalizing unsent with
  | nil => exact ⟨List.forall_mem_nil _, fun j hj => .inl hj⟩
  | cons c calls ih =>
      have hother : (∀ w ∈ (flushed origin target (unsent ++ [origin]) calls).1,
          w.target = target ∧ (w.origin ∈ unsent ∨ w.origin = origin)) ∧
          ∀ j ∈ (flushed origin target (unsent ++ [origin]) calls).2, j ∈ unsent ∨ j = origin := by
        refine ⟨fun w hw => ?_, fun j hj => ?_⟩
        · simpa [or_assoc] using ih.1 w hw
        · simpa [or_assoc] using ih.2 j hj
      cases c with
      | dataToSend =>
          obtain ⟨hwrites, hunsent⟩ := @ih []
          refine ⟨fun w hw => ?_, fun j hj => ?_⟩
          · rcases List.mem_append.mp hw with hold | hnew
            · obtain ⟨j, hj, rfl⟩ := List.mem_map.mp hold
              exact ⟨rfl, .inl hj⟩
            · obtain ⟨htarget, horigin⟩ := hwrites w hnew
              exact ⟨htarget, .inr (horigin.resolve_left List.not_mem_nil)⟩
          · exact .inr ((hunsent j hj).resolve_left List.not_mem_nil)
      | initiateConnection => exact hother
      | receiveData data result => exact hother
      | sendHeaders stream headers endStream => exact hother
      | sendData stream data => exact hother
      | resetStream stream => exact hother
      | acknowledgeReceivedData length stream => exact hother
      | incrementFlowControlWindow increment => exact hother

/-- What a change of the protocol has written. -/
theorem mem_become {hub : Hub} {origin : Nat} {q : H2Protocol} :
    (∀ w ∈ (hub.become origin q).writes, w ∈ hub.writes ∨
      w.target = q.transport ∧ (w.origin ∈ hub.unsent ∨ w.origin = origin)) ∧
    ∀ j ∈ (hub.become origin q).unsent, j ∈ hub.unsent ∨ j = origin := by
  refine ⟨fun w hw => ?_, mem_flushed.2⟩
  exact (List.mem_append.mp hw).imp_right (mem_flushed.1 w)

/-- Making a connection sends all that is left. -/
theorem unsent_connect (hub : Hub) : hub.connect.unsent = [] := by
  simp [Hub.connect, Hub.become, H2Protocol.connectionMade, H2Protocol.call, flushed]

/-! ### The protocol object -/

theorem acceptsPreface_nil : AcceptsPreface [] := by
  intro data result hmem
  cases hmem

theorem acceptsPreface_of_continues {p q : H2Protocol} (h : Continues p q) :
    AcceptsPreface q.conn ↔ AcceptsPreface p.conn := by
  obtain ⟨calls, hcalls, hq⟩ := h
  have hnone : ∀ data result, H2Call.receiveData data result ∉ calls := by
    intro data result hmem
    have houtbound := List.all_eq_true.mp hcalls _ hmem
    cases houtbound
  simp only [AcceptsPreface, hq, List.mem_append, hnone, or_false]

theorem not_acceptsPreface_dataReceived (lib : Libraries) (p : H2Protocol) (data : Bytes)
    (result : Option (List H2Event)) :
    ¬ AcceptsPreface (p.dataReceived lib data result).protocol.conn := by
  rw [acceptsPreface_of_continues (continues_dataReceived lib p data result)]
  intro haccepts
  exact haccepts data result (by simp [H2Protocol.call])

theorem tracked_start : Tracked .start where
  unopened := fun _ => ⟨rfl, rfl⟩
  transport := fun p hp => absurd hp (by simp [Hub.start])
  preface := fun p hp => absurd hp (by simp [Hub.start])
  streams := fun p hp => absurd hp (by simp [Hub.start])
  pending := List.forall_mem_nil _
  unsent := List.forall_mem_nil _
  newest := fun _ => List.forall_mem_nil _

theorem fresh_handler {hub : Hub} (h : Tracked hub) :
    (AcceptsPreface hub.handler.conn ∧ hub.handler.streamData = []) ↔ hub.sources = [] := by
  cases hserver : hub.server with
  | none =>
      refine iff_of_true ?_ (h.unopened hserver).2
      simp only [Hub.handler, hserver, Option.getD_none]
      exact ⟨acceptsPreface_nil, rfl⟩
  | some p =>
      simp only [Hub.handler, hserver, Option.getD_some]
      rw [h.preface p hserver]
      exact ⟨And.left, fun hnone => ⟨hnone, h.streams p hserver hnone⟩⟩

/-- The transport is that of the newest connection. -/
theorem Tracked.transport_eq {hub : Hub} (h : Tracked hub) {p : H2Protocol}
    (hserver : hub.server = some p) (i : Nat) : p.transport = some i ↔ i + 1 = hub.opened := by
  have htransport := h.transport p hserver
  cases hp : p.transport with
  | none => simp [hp] at htransport
  | some j =>
      simp only [hp, Option.map_some, Option.some.injEq] at htransport ⊢
      omega

/-! ### One step -/

theorem step_cases {lib : Libraries} {hub hub' : Hub} {e : Event}
    (h : step lib hub e = some hub') :
    (e = .connects ∧ hub' = hub.connect) ∨
    (∃ i data result p, e = .dataArrives i data result ∧ hub.server = some p ∧
      hub' = hub.receive lib p i data result) ∨
    (∃ i, e = .connectionLost i ∧ hub' = { hub with live := hub.live.erase i }) ∨
    (∃ position body accepted p pending, e = .replies position body accepted ∧
      hub.server = some p ∧ hub.pending[position]? = some pending ∧
        hub' = hub.reply p position pending body accepted) := by
  cases e with
  | connects => exact .inl ⟨rfl, (Option.some.inj h).symm⟩
  | dataArrives i data result =>
      simp only [step] at h
      split at h
      · cases h
      · rename_i p hserver
        split at h <;> cases h
        exact .inr (.inl ⟨i, data, result, p, rfl, hserver, rfl⟩)
  | connectionLost i =>
      simp only [step] at h
      split at h <;> cases h
      exact .inr (.inr (.inl ⟨i, rfl, rfl⟩))
  | replies position body accepted =>
      simp only [step] at h
      split at h
      · rename_i p pending hserver hpending
        cases h
        exact .inr (.inr (.inr ⟨position, body, accepted, p, pending, rfl, hserver, hpending, rfl⟩))
      · cases h

theorem connect_iff {hub : Hub} (ht : Tracked hub) (h : Isolated hub) :
    hub.sources = [] ↔ Isolated hub.connect := by
  constructor
  · intro hnone
    have hfresh := (fresh_handler ht).mpr hnone
    refine ⟨?_, h.prefaces, h.served, ?_⟩
    · exact List.forall_mem_append.mpr ⟨h.starts, List.forall_mem_singleton.mpr hfresh⟩
    · intro w hw
      rcases mem_become.1 w hw with hold | ⟨htarget, hunsent | horigin⟩
      · exact h.writes w hold
      · have hsource := ht.unsent _ hunsent
        rw [hnone] at hsource
        cases hsource
      · rw [horigin]
        exact htarget
  · intro hisolated
    apply (fresh_handler ht).mp
    exact hisolated.starts hub.handler (by simp [Hub.connect])

theorem receive_iff {lib : Libraries} {hub : Hub} (ht : Tracked hub) (h : Isolated hub)
    {p : H2Protocol} (hserver : hub.server = some p) (i : Nat) (data : Bytes)
    (result : Option (List H2Event)) :
    i + 1 = hub.opened ↔ Isolated (hub.receive lib p i data result) := by
  rw [← ht.transport_eq hserver]
  constructor
  · intro htransport
    have hown : ∀ j ∈ hub.sources, j = i := by
      intro j hj
      have hnewest := (ht.transport_eq hserver j).mpr (ht.newest h j hj)
      exact Option.some_inj.mp (hnewest.symm.trans htransport)
    have hpreface : i ∉ hub.sources → AcceptsPreface p.conn := by
      intro hfirst
      refine (ht.preface p hserver).mpr (List.eq_nil_iff_forall_not_mem.mpr fun j hj => hfirst ?_)
      exact hown j hj ▸ hj
    refine ⟨h.starts, ?_, ?_, ?_⟩
    · exact List.forall_mem_append.mpr ⟨h.prefaces, List.forall_mem_singleton.mpr hpreface⟩
    · exact List.forall_mem_append.mpr
        ⟨h.served, List.forall_mem_singleton.mpr ⟨htransport, hown⟩⟩
    · intro w hw
      rcases mem_become.1 w hw with hold | ⟨htarget, horigin⟩
      · exact h.writes w hold
      · rw [transport_dataReceived, htransport] at htarget
        rcases horigin with hunsent | horigin
        · rw [htarget, hown _ (ht.unsent _ hunsent)]
        · rw [htarget, horigin]
  · intro hisolated
    exact (hisolated.served ⟨i, p.transport, p.conn, hub.sources⟩ (by simp [Hub.receive])).1

theorem isolated_reply {hub : Hub} (ht : Tracked hub) (h : Isolated hub) {p : H2Protocol}
    (hserver : hub.server = some p) (position : Nat) {pending : Pending}
    (hpending : pending ∈ hub.pending) (body : Bytes) (accepted : Nat) :
    Isolated (hub.reply p position pending body accepted) := by
  refine ⟨h.starts, h.prefaces, h.served, fun w hw => ?_⟩
  rcases mem_become.1 w hw with hold | ⟨htarget, horigin⟩
  · exact h.writes w hold
  · have hsource : w.origin ∈ hub.sources := by
      rcases horigin with hunsent | horigin
      · exact ht.unsent _ hunsent
      · exact horigin ▸ ht.pending pending hpending
    rw [H2Protocol.replyUpTo, foldl_call] at htarget
    exact htarget.trans ((ht.transport_eq hserver w.origin).mpr (ht.newest h _ hsource))

/-- What was recorded stays so. -/
theorem Isolated.of_append {hub hub' : Hub} (h : Isolated hub')
    (hstarts : hub.starts ⊆ hub'.starts) (hdeliveries : hub.deliveries ⊆ hub'.deliveries)
    (hwrites : hub.writes ⊆ hub'.writes) : Isolated hub where
  starts := fun p hp => h.starts p (hstarts hp)
  prefaces := fun d hd => h.prefaces d (hdeliveries hd)
  served := fun d hd => h.served d (hdeliveries hd)
  writes := fun w hw => h.writes w (hwrites hw)

theorem tracked_connect {hub : Hub} (ht : Tracked hub) : Tracked hub.connect := by
  have hfresh := fresh_handler ht
  have hpreface : AcceptsPreface hub.handler.conn ↔ hub.sources = [] := by
    refine ⟨fun haccepts => ?_, fun hnone => (hfresh.mpr hnone).1⟩
    cases hserver : hub.server with
    | none => exact (ht.unopened hserver).2
    | some p =>
        simp only [Hub.handler, hserver, Option.getD_some] at haccepts
        exact (ht.preface p hserver).mp haccepts
  refine ⟨by simp [Hub.connect, Hub.become], ?_, ?_, ?_, ht.pending, ?_, ?_⟩
  · intro p hp
    cases hp
    rfl
  · intro p hp
    cases hp
    rw [acceptsPreface_of_continues (continues_connectionMade _ _)]
    exact hpreface
  · intro p hp hnone
    cases hp
    exact (hfresh.mpr hnone).2
  · rw [unsent_connect]
    exact List.forall_mem_nil _
  · intro hisolated
    have hbefore : Isolated hub := hisolated.of_append (List.subset_append_left _ _)
      (List.Subset.refl _) (List.subset_append_left _ _)
    have hnone := (connect_iff ht hbefore).mpr hisolated
    intro i hi
    rw [Hub.connect, Hub.become, hnone] at hi
    cases hi

theorem tracked_receive {lib : Libraries} {hub : Hub} (ht : Tracked hub) {p : H2Protocol}
    (hserver : hub.server = some p) (i : Nat) (data : Bytes) (result : Option (List H2Event)) :
    Tracked (hub.receive lib p i data result) := by
  have hsome : (hub.receive lib p i data result).sources ≠ [] := by simp [Hub.receive]
  refine ⟨by simp [Hub.receive, Hub.become], ?_, ?_, ?_, ?_, ?_, ?_⟩
  · intro q hq
    cases hq
    rw [transport_dataReceived]
    exact ht.transport p hserver
  · intro q hq
    cases hq
    exact iff_of_false (not_acceptsPreface_dataReceived lib p data result) hsome
  · exact fun q _ hnone => absurd hnone hsome
  · intro q hq
    rcases List.mem_append.mp hq with hold | hnew
    · exact List.mem_append_left _ (ht.pending q hold)
    · obtain ⟨call, -, rfl⟩ := List.mem_map.mp hnew
      exact List.mem_append_right _ (List.mem_singleton_self i)
  · intro j hj
    rcases mem_become.2 j hj with hold | rfl
    · exact List.mem_append_left _ (ht.unsent j hold)
    · exact List.mem_append_right _ (List.mem_singleton_self j)
  · intro hisolated
    have hbefore : Isolated hub := hisolated.of_append (List.Subset.refl _)
      (List.subset_append_left _ _) (List.subset_append_left _ _)
    have hnewest := (receive_iff ht hbefore hserver i data result).mpr hisolated
    exact List.forall_mem_append.mpr
      ⟨ht.newest hbefore, List.forall_mem_singleton.mpr hnewest⟩

theorem tracked_reply {hub : Hub} (ht : Tracked hub) {p : H2Protocol}
    (hserver : hub.server = some p) (position : Nat) {pending : Pending}
    (hpending : pending ∈ hub.pending) (body : Bytes) (accepted : Nat) :
    Tracked (hub.reply p position pending body accepted) := by
  have hcontinues := continues_replyUpTo p pending.call.stream body accepted
  have hreply : p.replyUpTo pending.call.stream body accepted = { p with
      conn := (p.replyUpTo pending.call.stream body accepted).conn } := by
    rw [H2Protocol.replyUpTo, foldl_call]
  refine ⟨by simp [Hub.reply, Hub.become], ?_, ?_, ?_, ?_, ?_, ?_⟩
  · intro q hq
    cases hq
    rw [hreply]
    exact ht.transport p hserver
  · intro q hq
    cases hq
    rw [acceptsPreface_of_continues hcontinues]
    exact ht.preface p hserver
  · intro q hq hnone
    cases hq
    rw [hreply]
    exact ht.streams p hserver hnone
  · exact fun q hq => ht.pending q (List.mem_of_mem_eraseIdx hq)
  · intro j hj
    rcases mem_become.2 j hj with hold | rfl
    · exact ht.unsent j hold
    · exact ht.pending pending hpending
  · intro hisolated
    exact ht.newest (hisolated.of_append (List.Subset.refl _) (List.Subset.refl _)
      (List.subset_append_left _ _))

theorem tracked_step {lib : Libraries} {hub hub' : Hub} {e : Event} (ht : Tracked hub)
    (hstep : step lib hub e = some hub') : Tracked hub' := by
  rcases step_cases hstep with ⟨-, rfl⟩ | ⟨i, data, result, p, -, hserver, rfl⟩ | ⟨i, -, rfl⟩ |
    ⟨position, body, accepted, p, pending, -, hserver, hpending, rfl⟩
  · exact tracked_connect ht
  · exact tracked_receive ht hserver i data result
  · refine ⟨ht.unopened, ht.transport, ht.preface, ht.streams, ht.pending, ht.unsent, ?_⟩
    exact fun hisolated => ht.newest ⟨hisolated.starts, hisolated.prefaces, hisolated.served,
      hisolated.writes⟩
  · exact tracked_reply ht hserver position (List.mem_of_getElem? hpending) body accepted

theorem separate_iff {lib : Libraries} {hub hub' : Hub} {e : Event} (ht : Tracked hub)
    (h : Isolated hub) (hstep : step lib hub e = some hub') :
    Separate hub e ↔ Isolated hub' := by
  rcases step_cases hstep with ⟨rfl, rfl⟩ | ⟨i, data, result, p, rfl, hserver, rfl⟩ |
    ⟨i, rfl, rfl⟩ | ⟨position, body, accepted, p, pending, rfl, hserver, hpending, rfl⟩
  · exact connect_iff ht h
  · exact receive_iff ht h hserver i data result
  · exact iff_of_true trivial ⟨h.starts, h.prefaces, h.served, h.writes⟩
  · exact iff_of_true trivial
      (isolated_reply ht h hserver position (List.mem_of_getElem? hpending) body accepted)

theorem isolated_start : Isolated .start where
  starts := List.forall_mem_nil _
  prefaces := List.forall_mem_nil _
  served := List.forall_mem_nil _
  writes := List.forall_mem_nil _

/-- A run keeps the connections apart in every state it passes if and only if
every step meets the condition. -/
theorem isolated_iff_separate (lib : Libraries) (events : List Event) (hub : Hub)
    (hrun : run (step lib) .start events = some hub) :
    (∀ r ∈ trace (step lib) .start events, Isolated r) ↔
      runWithin (step lib) Separate .start events = some hub := by
  symm
  refine runWithin_iff_forall_trace (J := Tracked) ?_ ?_ tracked_start isolated_start hrun
  · intro s e t hs hstep
    exact tracked_step hs hstep
  · intro s e t hs hisolated hstep
    exact separate_iff hs hisolated hstep

def request : List H2Event :=
  [.requestReceived isSyncedHeaders 1, .dataReceived [0, 0, 0, 0, 0] 1, .streamEnded 1]

/-- Two connections are made, and the second sends two requests, each answered
before the next. -/
def oneConnection : List Event :=
  [.connects, .connects, .dataArrives 1 [1] (some request), .replies 0 [] 4,
    .dataArrives 1 [2] (some [.requestReceived isSyncedHeaders 3, .dataReceived [0, 0, 0, 0, 0] 3,
      .streamEnded 3]),
    .connectionLost 1, .replies 0 [] 4]

theorem isolated_oneConnection :
    (run (step bridge) .start oneConnection).isSome = true ∧
      ∀ r ∈ trace (step bridge) .start oneConnection, Isolated r := by
  have hrun : (runWithin (step bridge) Separate .start oneConnection).isSome = true := by
    decide
  obtain ⟨hub, hhub⟩ := Option.isSome_iff_exists.mp hrun
  exact ⟨Option.isSome_of_eq_some (run_of_runWithin hhub),
    (isolated_iff_separate bridge oneConnection hub (run_of_runWithin hhub)).mpr hhub⟩

/-- The client reconnects after a request, while the reply is still coming. -/
theorem not_isolated_after_reconnect :
    ¬ ∀ hub, Reachable (step bridge) Unrestricted .start hub → Isolated hub := by
  intro hall
  have hrun : (run (step bridge) .start [.connects, .dataArrives 0 [1] (some request),
      .connectionLost 0, .connects, .replies 0 [] 4]).map
        (fun hub => decide (⟨0, some 1⟩ ∈ hub.writes)) = some true := by
    decide
  obtain ⟨hub, hhub, hmem⟩ := Option.map_eq_some_iff.mp hrun
  have htarget := (hall hub (reachable_of_runWithin hhub)).writes ⟨0, some 1⟩
    (of_decide_eq_true hmem)
  cases htarget

end ElectrumLightning.ConnectionIsolation
