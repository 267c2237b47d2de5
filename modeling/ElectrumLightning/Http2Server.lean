import ElectrumLightning.ByteStrings
import Mathlib.Data.List.Infix

/-!
The HTTP/2 server that one port keeps for all its connections. The object of
the HTTP/2 package is represented by the calls made on it, together with the
events or the protocol error that each call of `receive_data` gave. On which
other calls the package raises is left open.
-/

namespace ElectrumLightning.Http2Server

open ElectrumLightning.ByteStrings

/-- The events of the package. `other` are those that say nothing of a stream's
life; the server passes over them, and over a `streamReset`. -/
inductive H2Event where
  | requestReceived (headers : List (String × String)) (stream : Nat)
  | dataReceived (data : Bytes) (stream : Nat)
  | streamEnded (stream : Nat)
  | streamReset (stream : Nat)
  | connectionTerminated
  | other
deriving DecidableEq

/-- A call on an `H2Connection`. The result of `receiveData` is `none` for a
`ProtocolError`. -/
inductive H2Call where
  | initiateConnection
  | receiveData (data : Bytes) (result : Option (List H2Event))
  | dataToSend
  | sendHeaders (stream : Nat) (headers : List (String × String)) (endStream : Bool)
  | sendData (stream : Nat) (data : Bytes)
  | resetStream (stream : Nat)
  | acknowledgeReceivedData (length stream : Nat)
  | incrementFlowControlWindow (increment : Nat)
deriving DecidableEq

structure RequestData where
  headers : List (String × String)
  data : Bytes
deriving DecidableEq

/-- The generated protocol classes: the methods of the service, the JSON text
of a parsed request, and whether that text is an object without keys. -/
structure Rpc where
  methods : List String
  messageToJson : String → Bytes → Option String
  keyless : String → Bool

/-- The generated classes and the HTTP/2 package, which `refuses` a call by
raising an exception, after the calls that were made before. -/
structure Libraries extends Rpc where
  refuses : List H2Call → H2Call → Bool

structure Call where
  stream : Nat
  serialNumber : Nat
  method : String
  params : String
deriving DecidableEq

structure H2Protocol where
  conn : List H2Call
  transport : Option Nat
  streamData : List (Nat × RequestData)
  serialNumber : Nat
deriving DecidableEq

def H2Protocol.new : H2Protocol :=
  { conn := []
    transport := none
    streamData := []
    serialNumber := 1 }

/-- What the handling of one event does. An exception ends the loop over the
events. -/
structure Handled where
  protocol : H2Protocol
  calls : List Call
  closes : Bool
  raised : Bool
deriving DecidableEq

def Handled.next (p : H2Protocol) : Handled := ⟨p, [], false, false⟩

def Handled.raise (p : H2Protocol) : Handled := ⟨p, [], false, true⟩

/-- The protocol, the requests it put on `writeQueue`, and whether it closed
its transport. -/
structure Received where
  protocol : H2Protocol
  calls : List Call
  closes : Bool
deriving DecidableEq

namespace H2Protocol

def call (p : H2Protocol) (c : H2Call) : H2Protocol := { p with conn := p.conn ++ [c] }

def connectionMade (p : H2Protocol) (transport : Nat) : H2Protocol :=
  ({ p with transport := some transport }.call .initiateConnection).call .dataToSend

def streamData? (p : H2Protocol) (stream : Nat) : Option RequestData :=
  p.streamData.lookup stream

def setStreamData (p : H2Protocol) (stream : Nat) (request : RequestData) : H2Protocol :=
  { p with streamData := (stream, request) :: p.streamData.filter fun s => s.1 != stream }

def header? (headers : List (String × String)) (name : String) : Option String :=
  headers.reverse.lookup name

/-- A call that raises if the package refuses it. -/
def attempt (lib : Libraries) (p : H2Protocol) (c : H2Call) : Handled :=
  if lib.refuses p.conn c then .raise p else .next (p.call c)

def responseHeaders : List (String × String) :=
  [(":status", "405"), ("content-length", "0"), ("server", "asyncio-h2")]

def return405 (lib : Libraries) (p : H2Protocol) (stream : Nat) : Handled :=
  p.attempt lib (.sendHeaders stream responseHeaders true)

def requestReceived (lib : Libraries) (p : H2Protocol) (headers : List (String × String))
    (stream : Nat) : Handled :=
  match header? headers ":method" with
  | none => .raise p
  | some method =>
      if method = "GET" ∨ method = "POST" then .next (p.setStreamData stream ⟨headers, []⟩)
      else p.return405 lib stream

def receiveData (lib : Libraries) (p : H2Protocol) (data : Bytes) (stream : Nat) : Handled :=
  match p.streamData? stream with
  | none => p.attempt lib (.resetStream stream)
  | some request =>
      .next (p.setStreamData stream { request with data := request.data ++ data })

/-- `methodname in path`. -/
def isIn (path method : String) : Bool := decide (method.toList <:+: path.toList)

def streamComplete (rpc : Rpc) (p : H2Protocol) (stream : Nat) : Handled :=
  match p.streamData? stream with
  | none => .next p
  | some request =>
      match header? request.headers ":path" with
      | none => .raise p
      | some path =>
          match rpc.methods.find? (isIn path) with
          | none => .raise p
          | some method =>
              -- body[0] of an empty body raises as well
              if request.data = [] then .raise p
              else match rpc.messageToJson method (request.data.drop 5) with
                | none => .raise p
                | some params =>
                    if rpc.keyless params ∧ method = "FetchInputInfo" then .raise p
                    else
                      { protocol := { p with serialNumber := p.serialNumber + 1 }
                        calls := [⟨stream, p.serialNumber, method, params⟩]
                        closes := false
                        raised := false }

def handleEvent (lib : Libraries) (p : H2Protocol) : H2Event → Handled
  | .requestReceived headers stream => p.requestReceived lib headers stream
  | .dataReceived data stream => p.receiveData lib data stream
  | .streamEnded stream => p.streamComplete lib.toRpc stream
  | .streamReset _ | .other => .next p
  | .connectionTerminated => { Handled.next p with closes := true }

/-- The loop over the events, each followed by a write of what there is to
send. -/
def handleEvents (lib : Libraries) (p : H2Protocol) : List H2Event → Received
  | [] => ⟨p, [], false⟩
  | e :: es =>
      let handled := p.handleEvent lib e
      if handled.raised then ⟨handled.protocol, handled.calls, handled.closes⟩
      else
        let rest := (handled.protocol.call .dataToSend).handleEvents lib es
        ⟨rest.protocol, handled.calls ++ rest.calls, handled.closes || rest.closes⟩

/-- `data_received`, with the result of `conn.receive_data`. -/
def dataReceived (lib : Libraries) (p : H2Protocol) (data : Bytes)
    (result : Option (List H2Event)) : Received :=
  let p := (p.call (.receiveData data result)).call .dataToSend
  match result with
  | none => ⟨p, [], true⟩
  | some events => p.handleEvents lib events

def replyHeaders (body : Bytes) : List (String × String) :=
  [(":status", "200"), ("content-type", "application/grpc+proto"),
    ("content-length", toString body.length), ("server", "asyncio-h2")]

/-- The calls of `done2`. -/
def replyCalls (stream : Nat) (body : Bytes) : List H2Call :=
  [.sendHeaders stream (replyHeaders body) false, .sendData stream body,
    .sendHeaders stream [("grpc-status", "0")] true, .dataToSend]

def sendReply (p : H2Protocol) (stream : Nat) (body : Bytes) : H2Protocol :=
  (replyCalls stream body).foldl call p

/-- The package accepts so many calls of `done2`, which an exception then leaves. -/
def replyUpTo (p : H2Protocol) (stream : Nat) (body : Bytes) (accepted : Nat) : H2Protocol :=
  ((replyCalls stream body).take accepted).foldl call p

end H2Protocol

/-! ### The life of a stream -/

/-- What the package has reported. -/
def reported (conn : List H2Call) : List H2Event :=
  conn.flatMap fun
    | .receiveData _ (some events) => events
    | _ => []

def isRequest (stream : Nat) : H2Event → Bool
  | .requestReceived _ other => other = stream
  | _ => false

/-- The calls that say something of a stream. -/
def touches (stream : Nat) : H2Call → Bool
  | .sendHeaders other _ _ | .sendData other _ | .resetStream other
  | .acknowledgeReceivedData _ other => other = stream
  | _ => false

def endsStream (stream : Nat) : H2Call → Bool
  | .sendHeaders other _ true => other = stream
  | _ => false

theorem touches_of_endsStream {stream : Nat} (c : H2Call) (h : endsStream stream c = true) :
    touches stream c = true := by
  unfold endsStream at h
  split at h
  · exact h
  · cases h

def isProtocolError : H2Call → Bool
  | .receiveData _ none => true
  | _ => false

/-- The peer has sent a GOAWAY, or something that made the package send one. -/
def terminated (conn : List H2Call) : Bool :=
  (reported conn).contains .connectionTerminated || conn.any isProtocolError

/-- A stream is closed once it is reset, or ended by both sides. -/
def closed (conn : List H2Call) (stream : Nat) : Bool :=
  conn.contains (.resetStream stream) || (reported conn).contains (.streamReset stream) ||
    ((reported conn).contains (.streamEnded stream) && conn.any (endsStream stream))

/-- What the package is relied on for: an open stream can be reset, and the response
of `return_405` can be sent on one of which nothing was said; but neither can be done
on a closed stream, nor after the connection has been terminated. -/
structure StreamStates (refuses : List H2Call → H2Call → Bool) : Prop where
  sendHeaders : ∀ conn stream, (reported conn).any (isRequest stream) = true →
    terminated conn = false → closed conn stream = false → conn.any (touches stream) = false →
      refuses conn (.sendHeaders stream H2Protocol.responseHeaders true) = false
  resetStream : ∀ conn stream, (reported conn).any (isRequest stream) = true →
    terminated conn = false → closed conn stream = false →
      refuses conn (.resetStream stream) = false
  sendHeaders_refused : ∀ conn stream headers endStream,
    (terminated conn || closed conn stream) = true →
      refuses conn (.sendHeaders stream headers endStream) = true
  resetStream_refused : ∀ conn stream, (terminated conn || closed conn stream) = true →
    refuses conn (.resetStream stream) = true

/-- A package that refuses nothing else. -/
def refusesClosed (conn : List H2Call) : H2Call → Bool
  | .sendHeaders stream _ _ =>
      terminated conn || closed conn stream || conn.any (endsStream stream)
  | .resetStream stream => terminated conn || closed conn stream
  | _ => false

theorem streamStates_refusesClosed : StreamStates refusesClosed where
  sendHeaders := by
    intro conn stream _ hterminated hclosed huntouched
    have hends : conn.any (endsStream stream) = false := by
      apply List.any_eq_false.mpr
      intro c hc hends
      exact List.any_eq_false.mp huntouched c hc (touches_of_endsStream c hends)
    rw [refusesClosed, hterminated, hclosed, hends]
    rfl
  resetStream := by
    intro conn stream _ hterminated hclosed
    rw [refusesClosed, hterminated, hclosed]
    rfl
  sendHeaders_refused := by
    intro conn stream headers endStream h
    rw [refusesClosed, h, Bool.true_or]
  resetStream_refused := fun _ _ h => h

/-- A service with one method, for requests that parse and have no fields. -/
def bridge : Libraries :=
  { methods := ["IsSynced"]
    messageToJson := fun _ _ => some "{}"
    keyless := fun _ => true
    refuses := refusesClosed }

def isSyncedHeaders : List (String × String) :=
  [(":method", "POST"), (":path", "/ElectrumBridge/IsSynced")]

/-! ### What the protocol calls -/

/-- The calls that neither receive data nor open the receive window. -/
def isOutbound : H2Call → Bool
  | .receiveData _ _ | .acknowledgeReceivedData _ _ | .incrementFlowControlWindow _ => false
  | _ => true

def Continues (p q : H2Protocol) : Prop :=
  ∃ calls, calls.all isOutbound = true ∧ q.conn = p.conn ++ calls

theorem Continues.refl (p : H2Protocol) : Continues p p := ⟨[], rfl, by simp⟩

theorem Continues.trans {p q r : H2Protocol} (hpq : Continues p q) (hqr : Continues q r) :
    Continues p r := by
  obtain ⟨calls, hcalls, hq⟩ := hpq
  obtain ⟨more, hmore, hr⟩ := hqr
  exact ⟨calls ++ more, by simp [hcalls, hmore], by rw [hr, hq, List.append_assoc]⟩

theorem Continues.call {p q : H2Protocol} (h : Continues p q) {c : H2Call}
    (hc : isOutbound c = true) : Continues p (q.call c) :=
  h.trans ⟨[c], by simp [hc], rfl⟩

theorem continues_connectionMade (p : H2Protocol) (transport : Nat) :
    Continues p (p.connectionMade transport) :=
  ⟨[.initiateConnection, .dataToSend], rfl, by simp [H2Protocol.connectionMade, H2Protocol.call]⟩

theorem continues_sendReply (p : H2Protocol) (stream : Nat) (body : Bytes) :
    Continues p (p.sendReply stream body) :=
  ((((Continues.refl p).call rfl).call rfl).call rfl).call rfl

theorem foldl_call (p : H2Protocol) (calls : List H2Call) :
    calls.foldl H2Protocol.call p = { p with conn := p.conn ++ calls } := by
  induction calls generalizing p with
  | nil => simp
  | cons c calls ih =>
      rw [List.foldl_cons, ih, H2Protocol.call]
      simp

theorem continues_replyUpTo (p : H2Protocol) (stream : Nat) (body : Bytes) (accepted : Nat) :
    Continues p (p.replyUpTo stream body accepted) := by
  refine ⟨_, ?_, congrArg H2Protocol.conn (foldl_call p _)⟩
  apply List.all_eq_true.mpr
  intro c hc
  have houtbound : (H2Protocol.replyCalls stream body).all isOutbound = true := rfl
  exact List.all_eq_true.mp houtbound c (List.mem_of_mem_take hc)

theorem continues_attempt (lib : Libraries) (p : H2Protocol) {c : H2Call}
    (hc : isOutbound c = true) : Continues p (p.attempt lib c).protocol := by
  unfold H2Protocol.attempt
  split
  · exact Continues.refl p
  · exact (Continues.refl p).call hc

theorem continues_requestReceived (lib : Libraries) (p : H2Protocol)
    (headers : List (String × String)) (stream : Nat) :
    Continues p (p.requestReceived lib headers stream).protocol := by
  unfold H2Protocol.requestReceived
  split
  · exact Continues.refl p
  · split
    · exact Continues.refl p
    · exact continues_attempt lib p rfl

theorem continues_receiveData (lib : Libraries) (p : H2Protocol) (data : Bytes) (stream : Nat) :
    Continues p (p.receiveData lib data stream).protocol := by
  unfold H2Protocol.receiveData
  split
  · exact continues_attempt lib p rfl
  · exact Continues.refl p

theorem streamComplete_conn (rpc : Rpc) (p : H2Protocol) (stream : Nat) :
    (p.streamComplete rpc stream).protocol.conn = p.conn ∧
      (p.streamComplete rpc stream).protocol.transport = p.transport := by
  unfold H2Protocol.streamComplete
  repeat' split
  all_goals exact ⟨rfl, rfl⟩

theorem continues_handleEvent (lib : Libraries) (p : H2Protocol) (e : H2Event) :
    Continues p (p.handleEvent lib e).protocol := by
  cases e with
  | requestReceived headers stream => exact continues_requestReceived lib p headers stream
  | dataReceived data stream => exact continues_receiveData lib p data stream
  | streamEnded stream =>
      exact ⟨[], rfl, by rw [List.append_nil]; exact (streamComplete_conn lib.toRpc p stream).1⟩
  | streamReset stream => exact Continues.refl p
  | connectionTerminated => exact Continues.refl p
  | other => exact Continues.refl p

theorem continues_handleEvents (lib : Libraries) (p : H2Protocol) (events : List H2Event) :
    Continues p (p.handleEvents lib events).protocol := by
  induction events generalizing p with
  | nil => exact Continues.refl p
  | cons e events ih =>
      have hfirst := continues_handleEvent lib p e
      unfold H2Protocol.handleEvents
      dsimp only
      split
      · exact hfirst
      · exact (hfirst.call rfl).trans (ih _)

/-- A `data_received` makes one inbound call, the first. -/
theorem continues_dataReceived (lib : Libraries) (p : H2Protocol) (data : Bytes)
    (result : Option (List H2Event)) :
    Continues (p.call (.receiveData data result)) (p.dataReceived lib data result).protocol := by
  have hfirst : Continues (p.call (.receiveData data result))
      ((p.call (.receiveData data result)).call .dataToSend) := (Continues.refl _).call rfl
  unfold H2Protocol.dataReceived
  dsimp only
  split
  · exact hfirst
  · exact hfirst.trans (continues_handleEvents lib _ _)

/-! ### The transport stays the same between connections -/

theorem transport_attempt (lib : Libraries) (p : H2Protocol) (c : H2Call) :
    (p.attempt lib c).protocol.transport = p.transport := by
  unfold H2Protocol.attempt
  split <;> rfl

theorem transport_handleEvent (lib : Libraries) (p : H2Protocol) (e : H2Event) :
    (p.handleEvent lib e).protocol.transport = p.transport := by
  cases e with
  | requestReceived headers stream =>
      simp only [H2Protocol.handleEvent, H2Protocol.requestReceived]
      split
      · rfl
      · split
        · rfl
        · exact transport_attempt lib p _
  | dataReceived data stream =>
      simp only [H2Protocol.handleEvent, H2Protocol.receiveData]
      split
      · exact transport_attempt lib p _
      · rfl
  | streamEnded stream => exact (streamComplete_conn lib.toRpc p stream).2
  | streamReset stream => rfl
  | connectionTerminated => rfl
  | other => rfl

theorem transport_handleEvents (lib : Libraries) (p : H2Protocol) (events : List H2Event) :
    (p.handleEvents lib events).protocol.transport = p.transport := by
  induction events generalizing p with
  | nil => rfl
  | cons e events ih =>
      unfold H2Protocol.handleEvents
      dsimp only
      split
      · exact transport_handleEvent lib p e
      · rw [ih]
        exact transport_handleEvent lib p e

theorem transport_dataReceived (lib : Libraries) (p : H2Protocol) (data : Bytes)
    (result : Option (List H2Event)) :
    (p.dataReceived lib data result).protocol.transport = p.transport := by
  unfold H2Protocol.dataReceived
  dsimp only
  split
  · rfl
  · exact transport_handleEvents lib _ _

end ElectrumLightning.Http2Server
