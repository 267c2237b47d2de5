import ElectrumLightning.ChainOwners
import ElectrumLightning.SocksHandler
import ElectrumLightning.WaiterQueues

/-!
The whole hub: the connections of the wallets, the nodes behind the HTTP/2
servers and the update streams, the queue monitors, the HTTP endpoint, and the
supplier that brings them together. What passes between a node and a wallet
stays with one key.
-/

namespace ElectrumLightning.HubIsolation

open ElectrumLightning.ByteStrings
open ElectrumLightning.ChainOwners
open ElectrumLightning.DistinctPorts
open ElectrumLightning.JsonText
open ElectrumLightning.LabelledRuns
open ElectrumLightning.OneToOneMaps
open ElectrumLightning.PortAllocation (Chain PortPair Resumption State)
open ElectrumLightning.SocksHandler
open ElectrumLightning.WaiterQueues

/-- Where an item of a `writeQueue` comes from: a request on the port of an
HTTP/2 server, an update of the node with some port, or the process on the port
to which a queue monitor has connected. -/
inductive Source where
  | server (port : Int)
  | node (rpcport : Int)
  | process (port : Int)
deriving DecidableEq

structure Item where
  source : Source
  text : Bytes
deriving DecidableEq

/-- A reply, with the key of the connection on which it came. -/
structure Reply where
  key : Option Bytes
  data : Bytes
deriving DecidableEq

/-- A connection with the variables `key` and `realPort` of its handler. -/
structure Connection where
  handler : HandlerState Item
  key : Option Bytes
  realPort : Option Int
deriving DecidableEq

/-- A `queueMonitor` that is connected, and whether `copyToSocks` and
`copyFromSocks` go on. -/
structure Monitor where
  copying : Bool
  forwarding : Bool
deriving DecidableEq

/-- The queues of a port with the length of `killQueue`, the handlers that
`writeQueue.put` has woken, and the monitor. -/
structure Queues where
  readQueue : List Reply
  writeQueue : WaiterQueue Item Nat
  killQueue : Nat
  woken : List Nat
  monitor : Option Monitor
deriving DecidableEq

/-- Who waits for a call of the supplier. -/
inductive Caller where
  | wallet (connection : Nat)
  | endpoint
deriving DecidableEq

/-- The hub. `callers` belong to the calls in `supplier.waiting`, and `streams`
are the ports chosen by the calls that have subscribed. `written`, `delivered`,
`forwarded` and `commands` record what reached a wallet, a node, the process of
a queue monitor, or a shell. -/
structure Hub where
  supplier : State
  callers : List Caller
  connections : List Connection
  queues : Int → Queues
  streams : List Int
  written : List (Option Bytes × Item)
  delivered : List (Int × Reply)
  forwarded : List (Int × Reply)
  commands : List (Bytes × PortPair)

def Hub.start (keyToPort : Map String Int) : Hub where
  supplier := .start keyToPort
  callers := []
  connections := []
  queues := fun _ => ⟨[], ⟨[], []⟩, 0, [], none⟩
  streams := []
  written := []
  delivered := []
  forwarded := []
  commands := []

def Hub.keyOf (h : Hub) (i : Nat) : Option Bytes := h.connections[i]?.bind Connection.key

def Hub.portOf (h : Hub) (i : Nat) : Option Int := h.connections[i]?.bind Connection.realPort

def Hub.update (h : Hub) (i : Nat) (f : Connection → Connection) : Hub :=
  { h with connections := h.connections.modify i f }

def Hub.setHandler (h : Hub) (i : Nat) (handler : HandlerState Item) : Hub :=
  h.update i fun c => { c with handler := handler }

def Hub.setQueues (h : Hub) (port : Int) (q : Queues) : Hub :=
  { h with queues := Function.update h.queues port q }

def Queues.put (q : Queues) (item : Item) : Queues :=
  { q with
    writeQueue := (q.writeQueue.put item).1
    woken := q.woken ++ (q.writeQueue.put item).2.toList }

/-- `toWrite.get()`, and the write of what it gives. -/
def Hub.take (h : Hub) (i : Nat) (port : Int) : Hub :=
  match (h.queues port).writeQueue.get i with
  | (q, none) => h.setQueues port { h.queues port with writeQueue := q }
  | (q, some item) =>
      { (h.setQueues port { h.queues port with writeQueue := q }).setHandler i (.draining item) with
        written := h.written ++ [(h.keyOf i, item)] }

def Hub.applyEffect (h : Hub) (i : Nat) (port : Int) : Effect Item → Hub
  | .putBack req => h.setQueues port ((h.queues port).put req)
  | .putReply _ data =>
      h.setQueues port
        { h.queues port with readQueue := (h.queues port).readQueue ++ [⟨h.keyOf i, data⟩] }
  | .closeWriter | .requestPort _ | .write _ => h

/-- The handler goes on after `realPortsSupplier.get`. -/
def Hub.attach (h : Hub) (i : Nat) (realPort : Int) : Hub :=
  if realPort ∈ h.supplier.assoc then
    (h.update i fun c => { c with handler := .getting, realPort := some realPort }).take i realPort
  else h.setHandler i (.raised none)

/-- A call of `get` has ended in the supplier `t`: it returned or it raised. -/
def Hub.complete (h : Hub) (caller : Caller) (key : Bytes) (t : State) : Hub :=
  let h' := { h with supplier := t }
  match caller, t.returned[h.supplier.returned.length]? with
  | .wallet i, some (_, pair) => h'.attach i pair.electrumReverseHTTPPort
  | .wallet i, none => h'.setHandler i (.raised none)
  | .endpoint, some (_, pair) => { h' with commands := h.commands ++ [(key, pair)] }
  | .endpoint, none => h'

/-- A call of `get`, which returns, raises or waits. -/
def Hub.call (h : Hub) (caller : Caller) (key : Bytes) : Option Hub :=
  (h.supplier.get key).map fun t =>
    if h.supplier.waiting.length < t.waiting.length then
      { h with supplier := t, callers := h.callers ++ [caller] }
    else h.complete caller key t

/-- The handler of a connection as `resume` leaves it, with its effects. -/
def Hub.proceed (h : Hub) (i : Nat) (handler : HandlerState Item)
    (effects : List (Effect Item)) : Option Hub :=
  match handler with
  | .awaitingPort key =>
      (h.update i fun c => { c with handler := handler, key := some key }).call (.wallet i) key
  | _ =>
      match h.portOf i with
      | none => some (h.setHandler i handler)
      | some port =>
          let h := effects.foldl (fun h effect => h.applyEffect i port effect)
            (h.setHandler i handler)
          some (if handler = .getting then h.take i port else h)

/-- The handler awaits its connection, and not the supplier or its queue. -/
def awaitsPeer : HandlerState Item → Bool
  | .awaitingPort _ | .getting => false
  | _ => true

inductive Event where
  | connect
  | outcome (connection : Nat) (o : Outcome Item)
  | certificate (call : Nat) (resumption : Resumption)
  | post (key : Bytes)
  | request (serverPort : Int) (text : Bytes)
  | update (stream : Nat) (text : Bytes)
  | runWoken (port : Int)
  | takesReply (serverPort : Int) (sent : Bool)
  | monitorConnects (port : Int)
  | monitorCopies (port : Int) (text : Bytes)
  | monitorForwards (port : Int) (raises : Bool)
  | monitorKilled (port : Int)
deriving DecidableEq

/-- The port in `assoc` whose queues the server of a chain uses. -/
def Hub.assocPortOf (h : Hub) (serverPort : Int) : Option Int :=
  (h.supplier.chains.find? fun (_, c) => c.serverPort = serverPort).map fun (_, c) => c.assocPort

/-- The steps of the queue monitor of a port: it connects, copies one text of its
process, forwards a reply to it, and starts again when there is something on
`killQueue`. -/
def Hub.connectMonitor (h : Hub) (port : Int) : Option Hub :=
  if (h.supplier.chains.any fun (_, c) => c.assocPort = port) ∧ (h.queues port).monitor = none then
    some (h.setQueues port { h.queues port with monitor := some ⟨true, true⟩ })
  else none

def Hub.copyToSocks (recursionLimit : Nat) (h : Hub) (port : Int) (text : Bytes) : Option Hub :=
  match (h.queues port).monitor, loads recursionLimit text with
  | some ⟨true, forwarding⟩, .ok _ =>
      some (h.setQueues port
        { (h.queues port).put ⟨.process port, text⟩ with monitor := some ⟨false, forwarding⟩ })
  | _, _ => none

def Hub.copyFromSocks (h : Hub) (port : Int) (raises : Bool) : Option Hub :=
  match (h.queues port).monitor, (h.queues port).readQueue with
  | some ⟨copying, true⟩, reply :: rest =>
      some
        { h.setQueues port
            { h.queues port with readQueue := rest, monitor := some ⟨copying, !raises⟩ } with
          forwarded := h.forwarded ++ [(port, reply)] }
  | _, _ => none

def Hub.killMonitor (h : Hub) (port : Int) : Option Hub :=
  match (h.queues port).monitor, (h.queues port).killQueue with
  | some _, n + 1 => some (h.setQueues port { h.queues port with killQueue := n, monitor := none })
  | _, _ => none

def step (recursionLimit : Nat) (h : Hub) : Event → Option Hub
  | .connect => some { h with connections := h.connections ++ [⟨.readingMagic, none, none⟩] }
  | .outcome i o =>
      match h.connections[i]? with
      | none => none
      | some c =>
          if awaitsPeer c.handler then
            (resume recursionLimit (fun item => hasId recursionLimit item.text) c.handler o).bind
              fun (handler, effects) => h.proceed i handler effects
          else none
  | .certificate call resumption =>
      match h.supplier.waiting[call]?, h.callers[call]? with
      | some (key, chosenPort), some caller =>
          match resumption with
          | .notReady => some h
          | .fails =>
              some (Hub.complete { h with callers := h.callers.eraseIdx call } caller key
                (h.supplier.resume call key .fails))
          | .ready =>
              some (Hub.complete
                { h with
                  callers := h.callers.eraseIdx call
                  streams := h.streams ++ [chosenPort] } caller key
                (h.supplier.resume call key .ready))
      | _, _ => none
  | .post key => h.call .endpoint key
  | .request serverPort text =>
      (h.assocPortOf serverPort).map fun port =>
        h.setQueues port ((h.queues port).put ⟨.server serverPort, text⟩)
  | .update stream text =>
      (h.streams[stream]?).map fun chosenPort =>
        let port := 8432 + chosenPort * 5
        h.setQueues port ((h.queues port).put ⟨.node (chosenPort + 10009), text⟩)
  | .runWoken port =>
      match (h.queues port).woken with
      | [] => none
      | i :: rest => some ((h.setQueues port { h.queues port with woken := rest }).take i port)
  | .takesReply serverPort sent =>
      (h.assocPortOf serverPort).bind fun port =>
        match (h.queues port).readQueue with
        | [] => none
        | reply :: rest =>
            some
              { h.setQueues port
                  { h.queues port with
                    readQueue := rest
                    killQueue := (h.queues port).killQueue + if sent then 1 else 0 } with
                delivered := h.delivered ++ [(serverPort, reply)] }
  | .monitorConnects port => h.connectMonitor port
  | .monitorCopies port text => h.copyToSocks recursionLimit port text
  | .monitorForwards port raises => h.copyFromSocks port raises
  | .monitorKilled port => h.killMonitor port

/-! ### What belongs together -/

/-- The port in `assoc` of the chain to which a server, a node or a process belongs. -/
def Source.port : Source → Int
  | .server port => 8432 + 5 * (port - 9090)
  | .node rpcport => 8432 + 5 * (rpcport - 10009)
  | .process port => port

def Item.port (item : Item) : Int := item.source.port

/-- The key has an offset, and the port in `assoc` that goes with it. -/
def Owns (s : State) (key : Option Bytes) (port : Int) : Prop :=
  ∃ k offset, key = some k ∧ s.keysToOffset.lookup k = some offset ∧ port = 8432 + 5 * offset

theorem Owns.mono {s t : State} {key : Option Bytes} {port : Int}
    (hextends : Extends s.keysToOffset t.keysToOffset) : Owns s key port → Owns t key port := by
  rintro ⟨k, offset, hkey, hlookup, hport⟩
  exact ⟨k, offset, hkey, hextends hlookup, hport⟩

theorem Owns.unique {s : State} {key : Option Bytes} {port port' : Int} (h : Owns s key port)
    (h' : Owns s key port') : port = port' := by
  obtain ⟨k, offset, hkey, hlookup, rfl⟩ := h
  obtain ⟨k', offset', hkey', hlookup', rfl⟩ := h'
  rw [hkey] at hkey'
  cases hkey'
  rw [hlookup] at hlookup'
  cases hlookup'
  rfl

/-- The queues of a port hold only what belongs to the port. -/
structure Filed (h : Hub) (port : Int) (q : Queues) : Prop where
  items : ∀ item ∈ q.writeQueue.items, item.port = port
  waiters : ∀ i ∈ q.woken ++ q.writeQueue.getters, h.portOf i = some port
  replies : ∀ reply ∈ q.readQueue, Owns h.supplier reply.key port

/-- What holds in every state of the hub. -/
structure Consistent (h : Hub) : Prop where
  owned : Owned h.supplier
  length : h.callers.length = h.supplier.waiting.length
  calls : ∀ ⦃j i : Nat⦄ ⦃key : Bytes⦄ ⦃offset : Int⦄, h.callers[j]? = some (.wallet i) →
    h.supplier.waiting[j]? = some (key, offset) → h.keyOf i = some key
  greeting : ∀ ⦃i : Nat⦄ ⦃c : Connection⦄, h.connections[i]? = some c →
    c.handler = .readingMagic ∨ c.handler = .readingKey → c.key = none
  attached : ∀ ⦃i port⦄, h.portOf i = some port → Owns h.supplier (h.keyOf i) port
  held : ∀ ⦃i : Nat⦄ ⦃c : Connection⦄ ⦃item : Item⦄, h.connections[i]? = some c →
    item ∈ c.handler.held → c.realPort = some item.port
  queues : ∀ port, Filed h port (h.queues port)
  written : ∀ ⦃key item⦄, (key, item) ∈ h.written → Owns h.supplier key item.port
  delivered : ∀ ⦃serverPort reply⦄, (serverPort, reply) ∈ h.delivered →
    Owns h.supplier reply.key (8432 + 5 * (serverPort - 9090))
  forwarded : ∀ ⦃port reply⦄, (port, reply) ∈ h.forwarded → Owns h.supplier reply.key port
  commands : ∀ ⦃key pair⦄, (key, pair) ∈ h.commands →
    ∃ offset, h.supplier.keysToOffset.lookup key = some offset ∧
      pair = portPair (services key offset)

theorem consistent_start (keyToPort : Map String Int) : Consistent (.start keyToPort) where
  owned := owned_start keyToPort
  length := rfl
  calls := by
    intro j i key offset hcaller
    cases hcaller
  greeting := by
    intro i c hc
    cases hc
  attached := by
    intro i port hport
    cases hport
  held := by
    intro i c item hc
    cases hc
  queues := fun port => ⟨by simp [Hub.start], by simp [Hub.start], by simp [Hub.start]⟩
  written := by
    intro key item hmem
    cases hmem
  delivered := by
    intro serverPort reply hmem
    cases hmem
  forwarded := by
    intro port reply hmem
    cases hmem
  commands := by
    intro key pair hmem
    cases hmem

/-! ### One step -/

section Updates

variable {h : Hub} {i j : Nat} {f : Connection → Connection}

theorem getElem?_update (h : Hub) (i j : Nat) (f : Connection → Connection) :
    (h.update i f).connections[j]? =
      (h.connections[j]?).map fun c => if i = j then f c else c := by
  simp only [Hub.update, List.getElem?_modify]
  rfl

theorem keyOf_update (hf : ∀ c, (f c).key = c.key) : (h.update i f).keyOf j = h.keyOf j := by
  rw [Hub.keyOf, Hub.keyOf, getElem?_update]
  cases h.connections[j]? with
  | none => rfl
  | some c =>
      by_cases hij : i = j
      · simp [hij, hf]
      · simp [hij]

theorem portOf_update (hf : ∀ c, (f c).realPort = c.realPort) :
    (h.update i f).portOf j = h.portOf j := by
  rw [Hub.portOf, Hub.portOf, getElem?_update]
  cases h.connections[j]? with
  | none => rfl
  | some c =>
      by_cases hij : i = j
      · simp [hij, hf]
      · simp [hij]

@[simp] theorem keyOf_setHandler (handler : HandlerState Item) :
    (h.setHandler i handler).keyOf j = h.keyOf j :=
  keyOf_update fun _ => rfl

@[simp] theorem portOf_setHandler (handler : HandlerState Item) :
    (h.setHandler i handler).portOf j = h.portOf j :=
  portOf_update fun _ => rfl

theorem keyOf_of_getElem? {c : Connection} (hc : h.connections[i]? = some c) :
    h.keyOf i = c.key := by
  rw [Hub.keyOf, hc]
  rfl

theorem portOf_of_getElem? {c : Connection} (hc : h.connections[i]? = some c) :
    h.portOf i = c.realPort := by
  rw [Hub.portOf, hc]
  rfl

theorem Filed.congr {h h' : Hub} {port : Int} {q : Queues} (hq : Filed h port q)
    (hextends : Extends h.supplier.keysToOffset h'.supplier.keysToOffset)
    (hport : ∀ i, h.portOf i = some port → h'.portOf i = some port) : Filed h' port q :=
  ⟨hq.items, fun i hi => hport i (hq.waiters i hi),
    fun reply hreply => (hq.replies reply hreply).mono hextends⟩

theorem Filed.put {port : Int} {q : Queues} {item : Item} (hq : Filed h port q)
    (hitem : item.port = port) : Filed h port (q.put item) where
  items := by
    intro other hother
    rcases List.mem_append.mp hother with hold | hlast
    · exact hq.items other hold
    · rw [List.mem_singleton.mp hlast]
      exact hitem
  waiters := by
    intro i hi
    refine hq.waiters i ?_
    have hmem : i ∈ (q.woken ++ q.writeQueue.getters.head?.toList) ++
        q.writeQueue.getters.tail := hi
    cases hgetters : q.writeQueue.getters with
    | nil => simpa [hgetters] using hmem
    | cons first rest => simpa [hgetters] using hmem
  replies := hq.replies

/-- Neither the monitor nor `killQueue` matters to what is filed. -/
theorem Filed.keep {port : Int} {q q' : Queues} (hq : Filed h port q)
    (hreplies : q'.readQueue = q.readQueue) (hitems : q'.writeQueue = q.writeQueue)
    (hwoken : q'.woken = q.woken) : Filed h port q' where
  items := hitems ▸ hq.items
  waiters := hitems ▸ hwoken ▸ hq.waiters
  replies := hreplies ▸ hq.replies

theorem Filed.takes {port : Int} {q : Queues} (hq : Filed h port q) {reply : Reply}
    {rest : List Reply} (hreplies : q.readQueue = reply :: rest) :
    Owns h.supplier reply.key port ∧ Filed h port { q with readQueue := rest } := by
  have howns : ∀ other ∈ reply :: rest, Owns h.supplier other.key port := hreplies ▸ hq.replies
  exact ⟨howns reply List.mem_cons_self, hq.items, hq.waiters,
    fun other hother => howns other (List.mem_cons_of_mem reply hother)⟩

theorem Consistent.setQueues (hc : Consistent h) {port : Int} {q : Queues}
    (hq : Filed h port q) : Consistent (h.setQueues port q) :=
  { hc with
    queues := by
      intro port'
      by_cases hport : port' = port
      · subst hport
        have hsame : (h.setQueues port' q).queues port' = q := Function.update_self ..
        rw [hsame]
        exact hq.congr (.refl _) fun _ h => h
      · have hother : (h.setQueues port q).queues port' = h.queues port' :=
          Function.update_of_ne hport ..
        rw [hother]
        exact (hc.queues port').congr (.refl _) fun _ h => h }

/-- A handler goes on, with what belongs to its port, and does not greet again
once it has a key. -/
theorem Consistent.setHandler (hc : Consistent h) {handler : HandlerState Item}
    (hheld : ∀ item ∈ handler.held, h.portOf i = some item.port)
    (hgreeting : handler = .readingMagic ∨ handler = .readingKey → h.keyOf i = none) :
    Consistent (h.setHandler i handler) where
  owned := hc.owned
  length := hc.length
  calls := by
    intro j i' key offset hcaller hwaiting
    rw [keyOf_setHandler]
    exact hc.calls hcaller hwaiting
  greeting := by
    intro j c hcj hgreets
    rw [Hub.setHandler, getElem?_update] at hcj
    obtain ⟨c', hc', rfl⟩ := Option.map_eq_some_iff.mp hcj
    by_cases hij : i = j
    · subst hij
      rw [if_pos rfl] at hgreets ⊢
      rw [keyOf_of_getElem? hc'] at hgreeting
      exact hgreeting hgreets
    · rw [if_neg hij] at hgreets ⊢
      exact hc.greeting hc' hgreets
  attached := by
    intro j port hport
    rw [portOf_setHandler] at hport
    rw [keyOf_setHandler]
    exact hc.attached hport
  held := by
    intro j c item hcj hitem
    rw [Hub.setHandler, getElem?_update] at hcj
    obtain ⟨c', hc', rfl⟩ := Option.map_eq_some_iff.mp hcj
    by_cases hij : i = j
    · subst hij
      rw [if_pos rfl] at hitem ⊢
      rw [← portOf_of_getElem? hc']
      exact hheld item hitem
    · rw [if_neg hij] at hitem ⊢
      exact hc.held hc' hitem
  queues := fun port => (hc.queues port).congr (.refl _) fun j hj => by
    rw [portOf_setHandler]
    exact hj
  written := hc.written
  delivered := hc.delivered
  forwarded := hc.forwarded
  commands := hc.commands

theorem Consistent.record (hc : Consistent h) {key : Option Bytes} {item : Item}
    (howns : Owns h.supplier key item.port) :
    Consistent { h with written := h.written ++ [(key, item)] } :=
  { hc with
    queues := fun port => (hc.queues port).congr (.refl _) fun _ h => h
    written := by
      intro key' item' hmem
      rcases List.mem_append.mp hmem with hold | hlast
      · exact hc.written hold
      · cases List.mem_singleton.mp hlast
        exact howns }

theorem Consistent.take (hc : Consistent h) {port : Int} (hport : h.portOf i = some port) :
    Consistent (h.take i port) := by
  have hfiled := hc.queues port
  cases hitems : (h.queues port).writeQueue.items with
  | nil =>
      rw [Hub.take, WaiterQueue.get_of_nil hitems]
      refine hc.setQueues ⟨by simp, ?_, hfiled.replies⟩
      intro j hj
      rw [← List.append_assoc] at hj
      rcases List.mem_append.mp hj with hold | hlast
      · exact hfiled.waiters j hold
      · rw [List.mem_singleton.mp hlast]
        exact hport
  | cons item rest =>
      have hitem : item.port = port := hfiled.items item (hitems ▸ List.mem_cons_self)
      have hq : Filed h port
          { h.queues port with writeQueue := ⟨rest, (h.queues port).writeQueue.getters⟩ } :=
        ⟨fun other hother => hfiled.items other (hitems ▸ List.mem_cons_of_mem item hother),
          hfiled.waiters, hfiled.replies⟩
      have hheld : ∀ other ∈ (HandlerState.draining item).held, h.portOf i = some other.port := by
        intro other hother
        rw [List.mem_singleton.mp hother, hitem]
        exact hport
      have hdraining := (hc.setQueues hq).setHandler hheld fun hgreets => by simp at hgreets
      have howns : Owns h.supplier (h.keyOf i) item.port := hitem ▸ hc.attached hport
      rw [Hub.take, WaiterQueue.get_of_cons hitems]
      exact hdraining.record howns

theorem Consistent.applyEffect (hc : Consistent h) {port : Int} (hport : h.portOf i = some port)
    {effect : Effect Item} (heffect : ∀ req ∈ effect.returnedRequest, req.port = port) :
    Consistent (h.applyEffect i port effect) := by
  have hfiled := hc.queues port
  cases effect with
  | putBack req => exact hc.setQueues (hfiled.put (heffect req (List.mem_singleton_self req)))
  | putReply req data =>
      refine hc.setQueues ⟨hfiled.items, hfiled.waiters, ?_⟩
      intro reply hreply
      rcases List.mem_append.mp hreply with hold | hlast
      · exact hfiled.replies reply hold
      · rw [List.mem_singleton.mp hlast]
        exact hc.attached hport
  | _ => exact hc

theorem portOf_applyEffect (port : Int) (effect : Effect Item) :
    (h.applyEffect i port effect).portOf j = h.portOf j := by
  cases effect <;> rfl

theorem Consistent.applyEffects {port : Int} {effects : List (Effect Item)} {h : Hub}
    (hc : Consistent h) (hport : h.portOf i = some port)
    (heffects : ∀ req ∈ effects.flatMap Effect.returnedRequest, req.port = port) :
    Consistent (effects.foldl (fun h effect => h.applyEffect i port effect) h) ∧
      (effects.foldl (fun h effect => h.applyEffect i port effect) h).portOf i = some port := by
  induction effects generalizing h with
  | nil => exact ⟨hc, hport⟩
  | cons effect effects ih =>
      rw [List.flatMap_cons] at heffects
      refine ih (hc.applyEffect hport fun req hreq => ?_) ?_ fun req hreq => ?_
      · exact heffects req (List.mem_append_left _ hreq)
      · rw [portOf_applyEffect]
        exact hport
      · exact heffects req (List.mem_append_right _ hreq)

/-- The supplier goes on, and the calls in progress with it. -/
theorem Consistent.setSupplier (hc : Consistent h) {t : State} (ht : Owned t)
    (hextends : Extends h.supplier.keysToOffset t.keysToOffset) {callers : List Caller}
    (hlength : callers.length = t.waiting.length)
    (hcalls : ∀ ⦃j i : Nat⦄ ⦃key : Bytes⦄ ⦃offset : Int⦄, callers[j]? = some (.wallet i) →
      t.waiting[j]? = some (key, offset) → h.keyOf i = some key) (streams : List Int) :
    Consistent { h with supplier := t, callers := callers, streams := streams } where
  owned := ht
  length := hlength
  calls := hcalls
  greeting := hc.greeting
  attached := fun _ _ hport => (hc.attached hport).mono hextends
  held := hc.held
  queues := fun port => (hc.queues port).congr hextends fun _ h => h
  written := fun _ _ hmem => (hc.written hmem).mono hextends
  delivered := fun _ _ hmem => (hc.delivered hmem).mono hextends
  forwarded := fun _ _ hmem => (hc.forwarded hmem).mono hextends
  commands := by
    intro key pair hmem
    obtain ⟨offset, hlookup, hpair⟩ := hc.commands hmem
    exact ⟨offset, hextends hlookup, hpair⟩

theorem Consistent.attach (hc : Consistent h) {key : Bytes} {offset : Int}
    (hkey : h.keyOf i = some key) (hlookup : h.supplier.keysToOffset.lookup key = some offset) :
    Consistent (h.attach i (8432 + 5 * offset)) := by
  have howns : Owns h.supplier (h.keyOf i) (8432 + 5 * offset) := ⟨key, offset, hkey, hlookup, rfl⟩
  obtain ⟨c, hci, hckey⟩ := Option.bind_eq_some_iff.mp hkey
  let f : Connection → Connection := fun c =>
    { c with handler := .getting, realPort := some (8432 + 5 * offset) }
  have hkeyOf : ∀ j, (h.update i f).keyOf j = h.keyOf j := fun j => keyOf_update fun _ => rfl
  have hnew : (h.update i f).portOf i = some (8432 + 5 * offset) := by
    rw [Hub.portOf, getElem?_update, hci]
    simp [f]
  have hother : ∀ j, i ≠ j → (h.update i f).portOf j = h.portOf j := by
    intro j hij
    rw [Hub.portOf, Hub.portOf, getElem?_update]
    simp [hij]
  -- a handler that already had a port gets the same one again
  have hkept : ∀ j port, h.portOf j = some port → (h.update i f).portOf j = some port := by
    intro j port hport
    by_cases hij : i = j
    · subst hij
      rw [hnew, howns.unique (hc.attached hport)]
    · rw [hother j hij]
      exact hport
  have hattached : Consistent (h.update i f) :=
    { hc with
      calls := by
        intro j i' key' offset' hcaller hwaiting
        rw [hkeyOf]
        exact hc.calls hcaller hwaiting
      greeting := by
        intro j c' hcj hgreets
        rw [getElem?_update] at hcj
        obtain ⟨c'', hc'', rfl⟩ := Option.map_eq_some_iff.mp hcj
        by_cases hij : i = j
        · rw [if_pos hij] at hgreets
          simp [f] at hgreets
        · rw [if_neg hij] at hgreets ⊢
          exact hc.greeting hc'' hgreets
      attached := by
        intro j port hport
        rw [hkeyOf]
        by_cases hij : i = j
        · subst hij
          rw [hnew] at hport
          cases hport
          exact howns
        · rw [hother j hij] at hport
          exact hc.attached hport
      held := by
        intro j c' item hcj hitem
        rw [getElem?_update] at hcj
        obtain ⟨c'', hc'', rfl⟩ := Option.map_eq_some_iff.mp hcj
        by_cases hij : i = j
        · rw [if_pos hij] at hitem
          simp [f, HandlerState.held] at hitem
        · rw [if_neg hij] at hitem ⊢
          exact hc.held hc'' hitem
      queues := fun port => (hc.queues port).congr (.refl _) fun j hj => hkept j port hj }
  rw [Hub.attach, if_pos (hc.owned.registered hlookup)]
  exact hattached.take hnew

/-- A call that has ended takes its caller on. -/
theorem Consistent.complete {t : State} (hc : Consistent { h with supplier := t }) {key : Bytes}
    (hended : Ended h.supplier t key) {caller : Caller}
    (hcaller : ∀ i, caller = .wallet i → h.keyOf i = some key) :
    Consistent (h.complete caller key t) := by
  unfold Hub.complete
  dsimp only
  split
  · rename_i i key' pair hreturned
    obtain ⟨offset, hlookup, rfl⟩ := hended key' pair hreturned
    exact hc.attach (hcaller i rfl) hlookup
  · exact hc.setHandler (fun item hitem => by simp [HandlerState.held] at hitem)
      (fun hgreets => by simp at hgreets)
  · rename_i key' pair hreturned
    obtain ⟨offset, hlookup, rfl⟩ := hended key' pair hreturned
    exact
      { hc with
        queues := fun port => (hc.queues port).congr (.refl _) fun _ h => h
        commands := by
          intro k pair hmem
          rcases List.mem_append.mp hmem with hold | hlast
          · exact hc.commands hold
          · cases List.mem_singleton.mp hlast
            exact ⟨offset, hlookup, rfl⟩ }
  · exact hc

theorem Consistent.call (hc : Consistent h) {caller : Caller} {key : Bytes}
    (hcaller : ∀ i, caller = .wallet i → h.keyOf i = some key) {h' : Hub}
    (hcall : h.call caller key = some h') : Consistent h' := by
  obtain ⟨t, hget, rfl⟩ := Option.map_eq_some_iff.mp hcall
  obtain ⟨howned, hextends, ⟨offset, hwaits⟩ | ⟨hsame, hended⟩⟩ := get_spec hc.owned hget
  · rw [if_pos (by rw [hwaits]; simp)]
    refine hc.setSupplier howned hextends ?_ ?_ h.streams
    · rw [hwaits, List.length_append, List.length_append, hc.length]
      rfl
    · intro j i key' offset' hj hwaiting
      rw [hwaits] at hwaiting
      rcases Nat.lt_or_ge j h.callers.length with hlt | hge
      · rw [List.getElem?_append_left hlt] at hj
        rw [List.getElem?_append_left (hc.length ▸ hlt)] at hwaiting
        exact hc.calls hj hwaiting
      · rw [List.getElem?_append_right hge, List.getElem?_singleton] at hj
        rw [List.getElem?_append_right (hc.length ▸ hge), List.getElem?_singleton] at hwaiting
        split at hj <;> cases hj
        split at hwaiting <;> cases hwaiting
        exact hcaller i rfl
  · rw [if_neg (by rw [hsame]; exact lt_irrefl _)]
    refine Consistent.complete ?_ hended hcaller
    exact hc.setSupplier howned hextends (by rw [hsame]; exact hc.length)
      (by rw [hsame]; exact hc.calls) h.streams

end Updates

/-! ### The handlers -/

section Handlers

variable {recursionLimit : Nat} {withId : Item → Bool} {st st' : HandlerState Item}
  {o : Outcome Item} {effects : List (Effect Item)}

/-- A handler that waits for its peer puts back and keeps only what it held. -/
theorem held_of_resume (h : resume recursionLimit withId st o = some (st', effects))
    (hpeer : awaitsPeer st = true) :
    (∀ item ∈ st'.held, item ∈ st.held) ∧
      ∀ item ∈ effects.flatMap Effect.returnedRequest, item ∈ st.held := by
  cases resumes_of_resume h with
  | takes req => cases hpeer
  | _ => simp [HandlerState.held, Effect.returnedRequest]

theorem eq_readingKey_of_resume {key : Bytes}
    (h : resume recursionLimit withId st o = some (.awaitingPort key, effects)) :
    st = .readingKey := by
  cases resumes_of_resume h
  rfl

theorem greeting_of_resume (h : resume recursionLimit withId st o = some (st', effects))
    (hgreets : st' = .readingMagic ∨ st' = .readingKey) : st = .readingMagic := by
  cases resumes_of_resume h with
  | greeted atEof => rfl
  | _ => simp at hgreets

/-- The key is recorded where the handler asks for its port. -/
theorem Consistent.identify {h : Hub} (hc : Consistent h) {i : Nat} {c : Connection}
    (hci : h.connections[i]? = some c) (hkey : c.handler = .readingKey) (key : Bytes) :
    Consistent (h.update i fun c => { c with handler := .awaitingPort key, key := some key }) ∧
      (h.update i fun c => { c with handler := .awaitingPort key, key := some key }).keyOf i =
        some key := by
  have hnone : h.keyOf i = none := by
    rw [keyOf_of_getElem? hci]
    exact hc.greeting hci (.inr hkey)
  let f : Connection → Connection := fun c =>
    { c with handler := .awaitingPort key, key := some key }
  have hother : ∀ j k, h.keyOf j = some k → (h.update i f).keyOf j = some k := by
    intro j k hj
    by_cases hij : i = j
    · subst hij
      rw [hnone] at hj
      cases hj
    · rw [Hub.keyOf, getElem?_update]
      simpa [Hub.keyOf, hij] using hj
  have hport : ∀ j, (h.update i f).portOf j = h.portOf j := fun j => portOf_update fun _ => rfl
  refine ⟨?_, ?_⟩
  · refine
      { hc with
        calls := fun j i' key' offset hcaller hwaiting => hother i' key' (hc.calls hcaller hwaiting)
        greeting := ?_
        attached := ?_
        held := ?_
        queues := ?_ }
    · intro j c' hcj hgreets
      rw [getElem?_update] at hcj
      obtain ⟨c'', hc'', rfl⟩ := Option.map_eq_some_iff.mp hcj
      by_cases hij : i = j
      · rw [if_pos hij] at hgreets
        simp at hgreets
      · rw [if_neg hij] at hgreets ⊢
        exact hc.greeting hc'' hgreets
    · intro j port hj
      rw [hport] at hj
      obtain ⟨k, offset, hk, hlookup, rfl⟩ := hc.attached hj
      exact ⟨k, offset, hother j k hk, hlookup, rfl⟩
    · intro j c' item hcj hitem
      rw [getElem?_update] at hcj
      obtain ⟨c'', hc'', rfl⟩ := Option.map_eq_some_iff.mp hcj
      by_cases hij : i = j
      · rw [if_pos hij] at hitem
        simp [HandlerState.held] at hitem
      · rw [if_neg hij] at hitem ⊢
        exact hc.held hc'' hitem
    · intro port
      refine (hc.queues port).congr (.refl _) fun j hj => ?_
      rw [hport]
      exact hj
  · rw [Hub.keyOf, getElem?_update, hci]
    simp

theorem Consistent.proceed {h h' : Hub} (hc : Consistent h) {i : Nat} {c : Connection}
    (hci : h.connections[i]? = some c) (hpeer : awaitsPeer c.handler = true)
    (hresume : resume recursionLimit withId c.handler o = some (st', effects))
    (hproceed : h.proceed i st' effects = some h') : Consistent h' := by
  obtain ⟨hheld, hreturned⟩ := held_of_resume hresume hpeer
  have hset : Consistent (h.setHandler i st') := by
    refine hc.setHandler (fun item hitem => ?_) fun hgreets => ?_
    · rw [portOf_of_getElem? hci]
      exact hc.held hci (hheld item hitem)
    · rw [keyOf_of_getElem? hci]
      exact hc.greeting hci (.inl (greeting_of_resume hresume hgreets))
  unfold Hub.proceed at hproceed
  split at hproceed
  · rename_i key
    obtain ⟨hidentified, hkey⟩ := hc.identify hci (eq_readingKey_of_resume hresume) key
    refine hidentified.call (fun i' hi' => ?_) hproceed
    cases hi'
    exact hkey
  · split at hproceed
    · cases hproceed
      exact hset
    · rename_i port hport
      have hport' : (h.setHandler i st').portOf i = some port := by
        rw [portOf_setHandler]
        exact hport
      obtain ⟨heffects, hstill⟩ := hset.applyEffects hport' fun req hreq => by
        have hitem := hc.held hci (hreturned req hreq)
        rw [portOf_of_getElem? hci, hitem] at hport
        exact Option.some.inj hport
      cases hproceed
      split
      · exact heffects.take hstill
      · exact heffects

end Handlers

/-! ### Every run -/

section Runs

variable {h h' : Hub}

theorem assocPortOf_eq (hc : Consistent h) {serverPort port : Int}
    (hfound : h.assocPortOf serverPort = some port) : port = 8432 + 5 * (serverPort - 9090) := by
  obtain ⟨⟨key, c⟩, hfind, rfl⟩ := Option.map_eq_some_iff.mp hfound
  obtain ⟨offset, -, rfl⟩ := hc.owned.chains (List.mem_of_find?_eq_some hfind)
  have hmatch := List.find?_some hfind
  have hserver : 9090 + offset = serverPort := of_decide_eq_true hmatch
  simp only [services]
  omega

theorem Consistent.certificate (hc : Consistent h) {call : Nat} {key : Bytes} {offset : Int}
    {caller : Caller} (hwaiting : h.supplier.waiting[call]? = some (key, offset))
    (hcaller : h.callers[call]? = some caller) {resumption : Resumption}
    (hready : resumption ≠ .notReady) (streams : List Int) :
    Consistent (Hub.complete
      { h with callers := h.callers.eraseIdx call, streams := streams } caller key
      (h.supplier.resume call key resumption)) := by
  obtain ⟨howned, hoffset, herased, hended⟩ := resume_spec hc.owned hwaiting hready
  have hextends : Extends h.supplier.keysToOffset
      (h.supplier.resume call key resumption).keysToOffset := by
    rw [hoffset]
    exact .refl _
  refine Consistent.complete
    (h := { h with callers := h.callers.eraseIdx call, streams := streams }) ?_ hended
    fun i hi => ?_
  · refine hc.setSupplier howned hextends ?_ ?_ streams
    · have hcallers := (List.getElem?_eq_some_iff.mp hcaller).1
      have hwaits := (List.getElem?_eq_some_iff.mp hwaiting).1
      rw [herased, List.length_eraseIdx_of_lt hcallers, List.length_eraseIdx_of_lt hwaits,
        hc.length]
    · intro j i key' offset' hj hj'
      rw [herased, List.getElem?_eraseIdx] at hj'
      rw [List.getElem?_eraseIdx] at hj
      split at hj
      · rename_i hlt
        rw [if_pos hlt] at hj'
        exact hc.calls hj hj'
      · rename_i hge
        rw [if_neg hge] at hj'
        exact hc.calls hj hj'
  · subst hi
    exact hc.calls hcaller hwaiting

theorem Consistent.connect (hc : Consistent h) :
    Consistent { h with connections := h.connections ++ [⟨.readingMagic, none, none⟩] } := by
  have hcases : ∀ {j : Nat} {c : Connection},
      (h.connections ++ [⟨.readingMagic, none, none⟩])[j]? = some c →
        h.connections[j]? = some c ∨ c = ⟨.readingMagic, none, none⟩ := by
    intro j c hcj
    rcases Nat.lt_or_ge j h.connections.length with hlt | hge
    · rw [List.getElem?_append_left hlt] at hcj
      exact .inl hcj
    · rw [List.getElem?_append_right hge, List.getElem?_singleton] at hcj
      split at hcj <;> cases hcj
      exact .inr rfl
  have hkept : ∀ {j : Nat} {c : Connection}, h.connections[j]? = some c →
      (h.connections ++ [⟨.readingMagic, none, none⟩])[j]? = some c := fun hcj => by
    rw [List.getElem?_append_left (List.getElem?_eq_some_iff.mp hcj).1]
    exact hcj
  refine
    { hc with
      calls := ?_
      greeting := ?_
      attached := ?_
      held := ?_
      queues := ?_ }
  · intro j i key offset hcaller hwaiting
    obtain ⟨c, hci, hkey⟩ := Option.bind_eq_some_iff.mp (hc.calls hcaller hwaiting)
    exact Option.bind_eq_some_iff.mpr ⟨c, hkept hci, hkey⟩
  · intro i c hci hgreets
    rcases hcases hci with hold | rfl
    · exact hc.greeting hold hgreets
    · rfl
  · intro i port hport
    obtain ⟨c, hci, hcport⟩ := Option.bind_eq_some_iff.mp hport
    rcases hcases hci with hold | rfl
    · obtain ⟨k, offset, hk, hlookup, rfl⟩ :=
        hc.attached ((portOf_of_getElem? hold).trans hcport)
      rw [keyOf_of_getElem? hold] at hk
      exact ⟨k, offset, (keyOf_of_getElem? hci).trans hk, hlookup, rfl⟩
    · cases hcport
  · intro i c item hci hitem
    rcases hcases hci with hold | rfl
    · exact hc.held hold hitem
    · simp [HandlerState.held] at hitem
  · intro port
    refine (hc.queues port).congr (.refl _) fun j hj => ?_
    obtain ⟨c, hcj, hcport⟩ := Option.bind_eq_some_iff.mp hj
    exact Option.bind_eq_some_iff.mpr ⟨c, hkept hcj, hcport⟩

/-- The first handler that `put` has woken takes from the queue. -/
theorem Consistent.runWoken (hc : Consistent h) {port : Int} {i : Nat} {rest : List Nat}
    (hwoken : (h.queues port).woken = i :: rest) :
    Consistent ((h.setQueues port { h.queues port with woken := rest }).take i port) := by
  have hfiled := hc.queues port
  have hwaiters : ∀ j ∈ (i :: rest) ++ (h.queues port).writeQueue.getters,
      h.portOf j = some port := hwoken ▸ hfiled.waiters
  have hq : Filed h port { h.queues port with woken := rest } :=
    ⟨hfiled.items, fun j hj => hwaiters j (List.mem_cons_of_mem i hj), hfiled.replies⟩
  exact (hc.setQueues hq).take (hwaiters i List.mem_cons_self)

theorem Consistent.deliver (hc : Consistent h) {serverPort : Int} {reply : Reply}
    (howns : Owns h.supplier reply.key (8432 + 5 * (serverPort - 9090))) :
    Consistent { h with delivered := h.delivered ++ [(serverPort, reply)] } :=
  { hc with
    queues := fun port => (hc.queues port).congr (.refl _) fun _ h => h
    delivered := by
      intro serverPort' reply' hmem
      rcases List.mem_append.mp hmem with hold | hlast
      · exact hc.delivered hold
      · cases List.mem_singleton.mp hlast
        exact howns }

theorem Consistent.forward (hc : Consistent h) {port : Int} {reply : Reply}
    (howns : Owns h.supplier reply.key port) :
    Consistent { h with forwarded := h.forwarded ++ [(port, reply)] } :=
  { hc with
    queues := fun port => (hc.queues port).congr (.refl _) fun _ h => h
    forwarded := by
      intro port' reply' hmem
      rcases List.mem_append.mp hmem with hold | hlast
      · exact hc.forwarded hold
      · cases List.mem_singleton.mp hlast
        exact howns }

theorem Consistent.connectMonitor (hc : Consistent h) {port : Int}
    (hstep : h.connectMonitor port = some h') : Consistent h' := by
  unfold Hub.connectMonitor at hstep
  split at hstep <;> cases hstep
  exact hc.setQueues ((hc.queues port).keep rfl rfl rfl)

theorem Consistent.copyToSocks {recursionLimit : Nat} (hc : Consistent h) {port : Int}
    {text : Bytes} (hstep : h.copyToSocks recursionLimit port text = some h') :
    Consistent h' := by
  unfold Hub.copyToSocks at hstep
  split at hstep <;> cases hstep
  have hput : Filed h port ((h.queues port).put ⟨.process port, text⟩) :=
    (hc.queues port).put rfl
  exact hc.setQueues (hput.keep rfl rfl rfl)

theorem Consistent.copyFromSocks (hc : Consistent h) {port : Int} {raises : Bool}
    (hstep : h.copyFromSocks port raises = some h') : Consistent h' := by
  unfold Hub.copyFromSocks at hstep
  split at hstep
  · rename_i copying reply rest hmonitor hreplies
    cases hstep
    obtain ⟨hreply, hfiled⟩ := (hc.queues port).takes hreplies
    have htaken : Filed h port { h.queues port with
        readQueue := rest
        monitor := some ⟨copying, !raises⟩ } :=
      hfiled.keep rfl rfl rfl
    exact (hc.setQueues htaken).forward hreply
  · cases hstep

theorem Consistent.killMonitor (hc : Consistent h) {port : Int}
    (hstep : h.killMonitor port = some h') : Consistent h' := by
  unfold Hub.killMonitor at hstep
  split at hstep <;> cases hstep
  exact hc.setQueues ((hc.queues port).keep rfl rfl rfl)

theorem step_consistent {recursionLimit : Nat} {e : Event} (hc : Consistent h)
    (hstep : step recursionLimit h e = some h') : Consistent h' := by
  cases e with
  | connect =>
      cases hstep
      exact hc.connect
  | outcome i o =>
      simp only [step] at hstep
      split at hstep
      · cases hstep
      · rename_i c hci
        split at hstep
        · rename_i hpeer
          obtain ⟨⟨st', effects⟩, hresume, hproceed⟩ := Option.bind_eq_some_iff.mp hstep
          exact hc.proceed hci hpeer hresume hproceed
        · cases hstep
  | certificate call resumption =>
      simp only [step] at hstep
      split at hstep
      · rename_i key offset caller hwaiting hcaller
        cases resumption with
        | notReady =>
            cases hstep
            exact hc
        | fails =>
            cases hstep
            exact hc.certificate hwaiting hcaller (by decide) h.streams
        | ready =>
            cases hstep
            exact hc.certificate hwaiting hcaller (by decide) (h.streams ++ [offset])
      · cases hstep
  | post key => exact hc.call (fun i hi => by cases hi) hstep
  | request serverPort text =>
      obtain ⟨port, hfound, rfl⟩ := Option.map_eq_some_iff.mp hstep
      exact hc.setQueues ((hc.queues port).put (assocPortOf_eq hc hfound).symm)
  | update stream text =>
      obtain ⟨chosenPort, -, rfl⟩ := Option.map_eq_some_iff.mp hstep
      refine hc.setQueues ((hc.queues _).put ?_)
      simp only [Item.port, Source.port]
      omega
  | runWoken port =>
      simp only [step] at hstep
      split at hstep
      · cases hstep
      · rename_i i rest hwoken
        cases hstep
        exact hc.runWoken hwoken
  | takesReply serverPort sent =>
      obtain ⟨port, hfound, htakes⟩ := Option.bind_eq_some_iff.mp hstep
      split at htakes
      · cases htakes
      · rename_i reply rest hreplies
        cases htakes
        obtain ⟨hreply, hfiled⟩ := (hc.queues port).takes hreplies
        have htaken : Filed h port { h.queues port with
            readQueue := rest
            killQueue := (h.queues port).killQueue + if sent then 1 else 0 } :=
          hfiled.keep rfl rfl rfl
        rw [assocPortOf_eq hc hfound] at hreply
        exact (hc.setQueues htaken).deliver hreply
  | monitorConnects port => exact hc.connectMonitor hstep
  | monitorCopies port text => exact hc.copyToSocks hstep
  | monitorForwards port raises => exact hc.copyFromSocks hstep
  | monitorKilled port => exact hc.killMonitor hstep

/-- The server, the node or the process is one of the chain. -/
def Source.IsOf (c : Chain) : Source → Prop
  | .server port => port = c.serverPort
  | .node rpcport => rpcport = c.rpcport
  | .process port => port = c.assocPort

/-- What reached a wallet came from the chain of its key, what reached a node, or
the process of a queue monitor, came from the wallet of the key that the chain was
made for, every command was run on the chain of the key it was posted for, and
chains of different keys have no port of one family in common. -/
structure Isolated (h : Hub) : Prop where
  written : ∀ ⦃key item⦄, (key, item) ∈ h.written →
    ∃ k c, key = some k ∧ (k, c) ∈ h.supplier.chains ∧ item.source.IsOf c
  delivered : ∀ ⦃serverPort reply⦄, (serverPort, reply) ∈ h.delivered →
    ∃ k c, reply.key = some k ∧ (k, c) ∈ h.supplier.chains ∧ serverPort = c.serverPort
  forwarded : ∀ ⦃port reply⦄, (port, reply) ∈ h.forwarded →
    ∃ k c, reply.key = some k ∧ (k, c) ∈ h.supplier.chains ∧ port = c.assocPort
  commands : ∀ ⦃key pair⦄, (key, pair) ∈ h.commands →
    ∃ c, (key, c) ∈ h.supplier.chains ∧ pair = portPair c
  disjoint : ∀ ⦃key key' c c'⦄, (key, c) ∈ h.supplier.chains → (key', c') ∈ h.supplier.chains →
    (key = key' → c = c') ∧ (key ≠ key' → Disjoint c c')

theorem isolated_of_consistent (hc : Consistent h) : Isolated h where
  written := by
    intro key item hmem
    obtain ⟨k, offset, hkey, hlookup, hport⟩ := hc.written hmem
    refine ⟨k, services k offset, hkey, hc.owned.started hlookup, ?_⟩
    unfold Item.port Source.port at hport
    unfold Source.IsOf
    cases hsource : item.source with
    | process port =>
        simp only [hsource] at hport
        exact hport
    | server port =>
        simp only [hsource, services] at hport ⊢
        omega
    | node rpcport =>
        simp only [hsource, services] at hport ⊢
        omega
  delivered := by
    intro serverPort reply hmem
    obtain ⟨k, offset, hkey, hlookup, hport⟩ := hc.delivered hmem
    refine ⟨k, services k offset, hkey, hc.owned.started hlookup, ?_⟩
    simp only [services]
    omega
  forwarded := by
    intro port reply hmem
    obtain ⟨k, offset, hkey, hlookup, hport⟩ := hc.forwarded hmem
    exact ⟨k, services k offset, hkey, hc.owned.started hlookup, hport⟩
  commands := by
    intro key pair hmem
    obtain ⟨offset, hlookup, rfl⟩ := hc.commands hmem
    exact ⟨services key offset, hc.owned.started hlookup, rfl⟩
  disjoint := by
    intro key key' c c' hmem hmem'
    refine ⟨?_, hc.owned.disjoint hmem hmem'⟩
    rintro rfl
    obtain ⟨offset, hlookup, rfl⟩ := hc.owned.chains hmem
    obtain ⟨offset', hlookup', rfl⟩ := hc.owned.chains hmem'
    rw [hlookup] at hlookup'
    cases hlookup'
    rfl

/-! ### Offsets that are not negative -/

theorem supplier_take (h : Hub) (i : Nat) (port : Int) :
    (h.take i port).supplier = h.supplier := by
  unfold Hub.take
  split <;> rfl

theorem supplier_complete (h : Hub) (caller : Caller) (key : Bytes) (t : State) :
    (h.complete caller key t).supplier = t := by
  unfold Hub.complete
  dsimp only
  split
  · unfold Hub.attach
    split
    · exact supplier_take _ _ _
    · rfl
  · rfl
  · rfl
  · rfl

theorem supplier_applyEffects (h : Hub) (i : Nat) (port : Int) (effects : List (Effect Item)) :
    (effects.foldl (fun h effect => h.applyEffect i port effect) h).supplier = h.supplier := by
  induction effects generalizing h with
  | nil => rfl
  | cons effect effects ih =>
      rw [List.foldl_cons, ih]
      cases effect <;> rfl

theorem supplier_call {caller : Caller} {key : Bytes} (hcall : h.call caller key = some h') :
    PortAllocation.step h.supplier (.get key) = some h'.supplier := by
  obtain ⟨t, hget, rfl⟩ := Option.map_eq_some_iff.mp hcall
  split
  · exact hget
  · rw [supplier_complete]
    exact hget

theorem supplier_proceed {i : Nat} {handler : HandlerState Item} {effects : List (Effect Item)}
    (hproceed : h.proceed i handler effects = some h') : h'.supplier = h.supplier ∨
      ∃ e, PortAllocation.step h.supplier e = some h'.supplier := by
  unfold Hub.proceed at hproceed
  split at hproceed
  · have hsupplier := supplier_call hproceed
    exact .inr ⟨_, hsupplier⟩
  · refine .inl ?_
    split at hproceed
    · cases hproceed
      rfl
    · cases hproceed
      split
      · rw [supplier_take, supplier_applyEffects]
        rfl
      · rw [supplier_applyEffects]
        rfl

/-- A step of the hub is a step of the supplier, or leaves it as it is. -/
theorem supplier_step {recursionLimit : Nat} {e : Event}
    (hstep : step recursionLimit h e = some h') : h'.supplier = h.supplier ∨
      ∃ e', PortAllocation.step h.supplier e' = some h'.supplier := by
  cases e with
  | connect =>
      cases hstep
      exact .inl rfl
  | outcome i o =>
      simp only [step] at hstep
      split at hstep
      · cases hstep
      · split at hstep
        · obtain ⟨⟨st', effects⟩, -, hproceed⟩ := Option.bind_eq_some_iff.mp hstep
          exact supplier_proceed hproceed
        · cases hstep
  | certificate call resumption =>
      simp only [step] at hstep
      split at hstep
      · rename_i key offset caller hwaiting hcaller
        cases resumption with
        | notReady =>
            cases hstep
            exact .inl rfl
        | fails =>
            cases hstep
            rw [supplier_complete]
            refine .inr ⟨.resume call .fails, ?_⟩
            rw [PortAllocation.step, hwaiting]
            rfl
        | ready =>
            cases hstep
            rw [supplier_complete]
            refine .inr ⟨.resume call .ready, ?_⟩
            rw [PortAllocation.step, hwaiting]
            rfl
      · cases hstep
  | post key => exact .inr ⟨_, supplier_call hstep⟩
  | request serverPort text =>
      obtain ⟨port, -, rfl⟩ := Option.map_eq_some_iff.mp hstep
      exact .inl rfl
  | update stream text =>
      obtain ⟨chosenPort, -, rfl⟩ := Option.map_eq_some_iff.mp hstep
      exact .inl rfl
  | runWoken port =>
      simp only [step] at hstep
      split at hstep
      · cases hstep
      · cases hstep
        exact .inl (supplier_take _ _ _)
  | takesReply serverPort sent =>
      obtain ⟨port, -, htakes⟩ := Option.bind_eq_some_iff.mp hstep
      split at htakes <;> cases htakes
      exact .inl rfl
  | monitorConnects port =>
      simp only [step, Hub.connectMonitor] at hstep
      split at hstep <;> cases hstep
      exact .inl rfl
  | monitorCopies port text =>
      simp only [step, Hub.copyToSocks] at hstep
      split at hstep <;> cases hstep
      exact .inl rfl
  | monitorForwards port raises =>
      simp only [step, Hub.copyFromSocks] at hstep
      split at hstep <;> cases hstep
      exact .inl rfl
  | monitorKilled port =>
      simp only [step, Hub.killMonitor] at hstep
      split at hstep <;> cases hstep
      exact .inl rfl

/-- Whatever ports were saved, and in whatever order the connections, the nodes, the
monitors, the endpoint and the supplier go on, the keys stay isolated; and where no
saved offset is negative, their chains have no port in common. -/
theorem run_isolated (recursionLimit : Nat) {keyToPort : Map String Int} {es : List Event}
    (hrun : run (step recursionLimit) (Hub.start keyToPort) es = some h) :
    Isolated h ∧ ((∀ hexKey port, keyToPort.lookup hexKey = some port → 0 ≤ port) →
      ∀ key key' c c', (key, c) ∈ h.supplier.chains → (key', c') ∈ h.supplier.chains →
        key ≠ key' → ∀ port ∈ ports c, port ∉ ports c') := by
  have hreachable := reachable_of_runWithin hrun
  have hconsistent : Consistent h :=
    hreachable.invariant (consistent_start keyToPort)
      fun s e t hs _ hstep => step_consistent hs hstep
  refine ⟨isolated_of_consistent hconsistent, fun hsaved => ?_⟩
  have hnatural : Natural h.supplier := by
    refine hreachable.invariant (I := fun h => Natural h.supplier) (natural_start hsaved) ?_
    intro s e t hs _ hstep
    rcases supplier_step hstep with hsame | ⟨e', hsupplier⟩
    · rw [hsame]
      exact hs
    · exact step_natural hs hsupplier
  intro key key' c c' hmem hmem' hne port hport
  exact hconsistent.owned.notMem_ports hnatural hmem hmem' hne hport

/-- Two wallets connect; the node of the second one asks, and gets the answer. Then
its monitor starts again, and the first one's copies a text. -/
def twoWallets : List Event :=
  [.connect, .outcome 0 (.bytes magic false), .outcome 0 (.bytes [0x0a] false), .connect,
    .outcome 1 (.bytes magic false), .outcome 1 (.bytes [0x0b] false), .certificate 1 .ready,
    .certificate 0 .ready, .request 9091 [0x7b, 0x22, 0x69, 0x64, 0x22, 0x3a, 0x31, 0x7d],
    .update 1 [0x7b, 0x7d, 0x0a], .runWoken 8432, .runWoken 8437, .outcome 0 (.drained false),
    .outcome 1 (.drained false), .outcome 1 (.bytes [0x7b, 0x7d] false), .monitorConnects 8437,
    .takesReply 9091 true, .monitorKilled 8437, .monitorConnects 8432,
    .monitorCopies 8432 [0x7b, 0x7d], .runWoken 8432]

theorem isolated_twoWallets :
    ∃ h, run (step 10) (Hub.start ∅) twoWallets = some h ∧
      h.written = [(some [0x0a], ⟨.node 10009, [0x7b, 0x7d, 0x0a]⟩),
        (some [0x0b], ⟨.server 9091, [0x7b, 0x22, 0x69, 0x64, 0x22, 0x3a, 0x31, 0x7d]⟩),
        (some [0x0a], ⟨.process 8432, [0x7b, 0x7d]⟩)] ∧
      h.delivered = [(9091, ⟨some [0x0b], [0x7b, 0x7d]⟩)] ∧ Isolated h ∧
      ∀ key key' c c', (key, c) ∈ h.supplier.chains → (key', c') ∈ h.supplier.chains →
        key ≠ key' → ∀ port ∈ ports c, port ∉ ports c' := by
  have hrun : ∃ h, run (step 10) (Hub.start ∅) twoWallets = some h :=
    Option.isSome_iff_exists.mp (by decide +kernel)
  have hrecords : (run (step 10) (Hub.start ∅) twoWallets).map
      (fun h => (h.written, h.delivered)) =
        some ([(some [0x0a], ⟨.node 10009, [0x7b, 0x7d, 0x0a]⟩),
          (some [0x0b], ⟨.server 9091, [0x7b, 0x22, 0x69, 0x64, 0x22, 0x3a, 0x31, 0x7d]⟩),
          (some [0x0a], ⟨.process 8432, [0x7b, 0x7d]⟩)],
          [(9091, ⟨some [0x0b], [0x7b, 0x7d]⟩)]) := by decide +kernel
  have hsaved : ∀ hexKey port, (∅ : Map String Int).lookup hexKey = some port → 0 ≤ port := by
    intro hexKey port hlookup
    cases hlookup
  obtain ⟨h, hrun⟩ := hrun
  rw [hrun, Option.map_some, Option.some_inj, Prod.mk.injEq] at hrecords
  obtain ⟨hisolated, hports⟩ := run_isolated 10 hrun
  exact ⟨h, hrun, hrecords.1, hrecords.2, hisolated, hports hsaved⟩

end Runs

end ElectrumLightning.HubIsolation
