import ElectrumLightning.HubRequests
import ElectrumLightning.LabelledRuns
import ElectrumLightning.WaiterQueues

/-!
One wallet port from the completed HTTP/2 stream to its response: the tasks
and callbacks that the protocol schedules on the event loop, the two queues,
the handler of the wallet connection and a wallet that answers every request.
The ready callbacks of the loop run first in, first out; the network events
may come at any time between them.
-/

namespace ElectrumLightning.ReplyCorrelation

open ElectrumLightning.ByteStrings
open ElectrumLightning.HubRequests
open ElectrumLightning.JsonText
open ElectrumLightning.LabelledRuns
open ElectrumLightning.SocksHandler
open ElectrumLightning.WaiterQueues

/-- The callbacks that one stream passes through. `getWake` resumes a task
whose waiting `readQueue.get()` was woken. -/
inductive Callback where
  | put (stream : Nat) (req : Request)
  | done (stream : Nat)
  | getStart (stream : Nat)
  | getWake (stream : Nat)
  | done2 (stream : Nat) (payload : Bytes)
deriving DecidableEq

/-- The state of the port. `assigned` and `responses` record which id each
stream was given and which payload it was answered with. -/
structure HubPort where
  serialNumber : Nat
  assigned : List (Nat × Nat)
  ready : List Callback
  writeQueue : List Request
  handler : HandlerState Request
  toWallet : List Request
  fromWallet : Bytes
  readQueue : WaiterQueue Bytes Nat
  responses : List (Nat × Bytes)
deriving DecidableEq

def HubPort.start : HubPort :=
  { serialNumber := 1
    assigned := []
    ready := []
    writeQueue := []
    handler := .getting
    toWallet := []
    fromWallet := []
    readQueue := ⟨[], []⟩
    responses := [] }

inductive Event where
  | streamCompletes (stream : Nat) (method params : String)
  | runReady
  | handlerTakes
  | drainReturns
  | walletReplies (position : Nat) (text spaces : Bytes)
  | chunkArrives (length : Nat)
  | readTimesOut

def HubPort.completeStream (p : HubPort) (stream : Nat) (method params : String) : HubPort :=
  { p with
    serialNumber := p.serialNumber + 1
    assigned := p.assigned ++ [(stream, p.serialNumber)]
    ready := p.ready ++ [.put stream ⟨p.serialNumber, method, params⟩] }

/-- `readQueue.get()` of one stream, when it starts and whenever it is woken. -/
def HubPort.get (p : HubPort) (stream : Nat) : HubPort :=
  match p.readQueue.get stream with
  | (q, some payload) => { p with readQueue := q, ready := p.ready ++ [.done2 stream payload] }
  | (q, none) => { p with readQueue := q }

def HubPort.runCallback (p : HubPort) : Callback → HubPort
  | .put stream req =>
      { p with writeQueue := p.writeQueue ++ [req], ready := p.ready ++ [.done stream] }
  | .done stream => { p with ready := p.ready ++ [.getStart stream] }
  | .getStart stream => p.get stream
  | .getWake stream => p.get stream
  | .done2 stream payload => { p with responses := p.responses ++ [(stream, payload)] }

def HubPort.applyEffect (p : HubPort) : Effect Request → HubPort
  | .write req => { p with toWallet := p.toWallet ++ [req] }
  | .putBack req => { p with writeQueue := p.writeQueue ++ [req] }
  | .putReply _ data =>
      let (q, woken) := p.readQueue.put data
      { p with readQueue := q, ready := p.ready ++ woken.toList.map .getWake }
  | .closeWriter | .requestPort _ => p

def HubPort.resumeHandler (recursionLimit : Nat) (p : HubPort) (o : Outcome Request) :
    Option HubPort :=
  (resume recursionLimit (fun _ => true) p.handler o).map fun (handler, effects) =>
    effects.foldl HubPort.applyEffect { p with handler := handler }

def spacesOnly (text : Bytes) : Bool := text.all isSpace

def isReplyText (recursionLimit : Nat) (text : Bytes) (id : Nat) : Bool :=
  text.head? == some 0x7b && text.getLast? == some 0x7d && carriesId recursionLimit text id

def step (recursionLimit : Nat) (p : HubPort) : Event → Option HubPort
  | .streamCompletes stream method params =>
      if stream ∈ p.assigned.map Prod.fst then none
      else some (p.completeStream stream method params)
  | .runReady =>
      match p.ready with
      | [] => none
      | callback :: rest => some ({ p with ready := rest }.runCallback callback)
  | .handlerTakes =>
      match p.writeQueue with
      | [] => none
      | req :: rest =>
          { p with writeQueue := rest }.resumeHandler recursionLimit (.item req)
  | .drainReturns => p.resumeHandler recursionLimit (.drained false)
  | .walletReplies position text spaces =>
      match p.toWallet[position]? with
      | none => none
      | some req =>
          if isReplyText recursionLimit text req.id && spacesOnly spaces then
            some { p with
              toWallet := p.toWallet.eraseIdx position
              fromWallet := p.fromWallet ++ text ++ spaces }
          else none
  | .chunkArrives length =>
      if 0 < length && length ≤ 2048 && length ≤ p.fromWallet.length then
        { p with fromWallet := p.fromWallet.drop length }.resumeHandler recursionLimit
          (.bytes (p.fromWallet.take length) false)
      else none
  | .readTimesOut =>
      match p.handler with
      | .reading _ _ => p.resumeHandler recursionLimit (.raises .timeoutError)
      | _ => none

/-- Every response is an answer to the request of its own stream, and to no
other stream's request. -/
def Correlated (recursionLimit : Nat) (p : HubPort) : Prop :=
  ∀ stream payload, (stream, payload) ∈ p.responses →
    ∃ id, (stream, id) ∈ p.assigned ∧ carriesId recursionLimit payload id = true ∧
      ∀ stream' id', (stream', id') ∈ p.assigned → stream' ≠ stream →
        carriesId recursionLimit payload id' = false

def Callback.isGetWake : Callback → Bool
  | .getWake _ => true
  | _ => false

/-- A read of the handler does not time out, and a `readQueue.get()` does not
start while a reply is queued for a stream that has waited longer. -/
def Undisturbed (p : HubPort) : Event → Prop
  | .readTimesOut => False
  | .runReady =>
      match p.ready with
      | .getStart _ :: rest =>
          p.readQueue.items = [] ∨
            p.readQueue.getters = [] ∧ ∀ callback ∈ rest, callback.isGetWake = false
      | _ => True
  | _ => True

instance : DecidableRel Undisturbed := by
  intro p e
  unfold Undisturbed
  split
  · infer_instance
  · split <;> infer_instance
  · infer_instance

end ElectrumLightning.ReplyCorrelation
