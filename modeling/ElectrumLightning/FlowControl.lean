import Mathlib.Algebra.BigOperators.Group.List.Basic
import Mathlib.Algebra.Order.Ring.Int
import ElectrumLightning.Http2Server
import ElectrumLightning.LabelledRuns

/-!
The receive window of one connection, and a client that sends one request
after another and starts a request only when the window has room for its
body.
-/

namespace ElectrumLightning.FlowControl

open ElectrumLightning.ByteStrings
open ElectrumLightning.Http2Server
open ElectrumLightning.LabelledRuns

def dataLength : H2Event → Nat
  | .dataReceived data _ => data.length
  | _ => 0

/-- What a call does to the receive window. -/
def windowChange : H2Call → Int
  | .receiveData _ (some events) => -((events.map dataLength).sum : Nat)
  | .acknowledgeReceivedData length _ => length
  | .incrementFlowControlWindow increment => increment
  | _ => 0

/-- The receive window after the calls made on a connection object. -/
def window (conn : List H2Call) : Int := 65535 + (conn.map windowChange).sum

/-- A request, its DATA frames, the calls of `data_received` over which its
events are spread, and the reply it gets. -/
structure Request where
  stream : Nat
  headers : List (String × String)
  chunks : List Bytes
  batches : List (Bytes × List H2Event)
  reply : Bytes
  spread : (batches.map Prod.snd).flatten =
    .requestReceived headers stream :: chunks.map (.dataReceived · stream) ++
      [.streamEnded stream]

def Request.body (r : Request) : Bytes := r.chunks.flatten

/-- The calls of `data_received` for one request, with the requests that they
put on `writeQueue`. -/
def receiveBatches (lib : Libraries) (p : H2Protocol) :
    List (Bytes × List H2Event) → H2Protocol × List Call
  | [] => (p, [])
  | (data, events) :: batches =>
      let received := p.dataReceived lib data (some events)
      let rest := receiveBatches lib received.protocol batches
      (rest.1, received.calls ++ rest.2)

/-- Receive a request and send its reply. -/
def serve (lib : Libraries) (p : H2Protocol) (r : Request) : H2Protocol :=
  let received := receiveBatches lib p r.batches
  received.2.foldl (fun p call => p.sendReply call.stream r.reply) received.1

/-- The client sends a request, which is served before it sends the next one,
or has to wait for a window that nobody opens. -/
def sendRequest (lib : Libraries) (p : H2Protocol) (r : Request) : Option H2Protocol :=
  if r.body.length ≤ window p.conn then some (serve lib p r) else none

theorem window_append (conn more : List H2Call) :
    window (conn ++ more) = window conn + (more.map windowChange).sum := by
  simp [window, add_assoc]

theorem windowChange_outbound {c : H2Call} (h : isOutbound c = true) : windowChange c = 0 := by
  cases c <;> simp_all [windowChange, isOutbound]

theorem window_of_continues {p q : H2Protocol} (h : Continues p q) :
    window q.conn = window p.conn := by
  obtain ⟨calls, hcalls, hq⟩ := h
  have hzero : (calls.map windowChange).sum = 0 := by
    apply List.sum_eq_zero
    intro change hchange
    obtain ⟨c, hc, rfl⟩ := List.mem_map.mp hchange
    exact windowChange_outbound (List.all_eq_true.mp hcalls c hc)
  rw [hq, window_append, hzero, add_zero]

theorem window_dataReceived (lib : Libraries) (p : H2Protocol) (data : Bytes)
    (events : List H2Event) :
    window (p.dataReceived lib data (some events)).protocol.conn =
      window p.conn - (events.map dataLength).sum := by
  rw [window_of_continues (continues_dataReceived lib p data (some events))]
  simp only [H2Protocol.call, window_append, List.map_cons, List.map_nil, List.sum_cons,
    List.sum_nil, windowChange]
  omega

theorem window_receiveBatches (lib : Libraries) (p : H2Protocol)
    (batches : List (Bytes × List H2Event)) :
    window (receiveBatches lib p batches).1.conn =
      window p.conn - (((batches.map Prod.snd).flatten).map dataLength).sum := by
  induction batches generalizing p with
  | nil => simp [receiveBatches]
  | cons batch batches ih =>
      obtain ⟨data, events⟩ := batch
      simp only [receiveBatches, ih, window_dataReceived, List.map_cons, List.flatten_cons,
        List.map_append, List.sum_append]
      omega

theorem continues_replies (p : H2Protocol) (calls : List Call) (reply : Bytes) :
    Continues p (calls.foldl (fun p call => p.sendReply call.stream reply) p) := by
  induction calls generalizing p with
  | nil => exact Continues.refl p
  | cons call calls ih => exact (continues_sendReply p call.stream reply).trans (ih _)

theorem sum_dataLength (r : Request) :
    (((r.batches.map Prod.snd).flatten).map dataLength).sum = r.body.length := by
  have hchunks : ((r.chunks.map (H2Event.dataReceived · r.stream)).map dataLength).sum =
      r.chunks.flatten.length := by
    rw [List.map_map, List.length_flatten]
    rfl
  rw [r.spread]
  simp only [List.map_cons, List.map_append, List.map_nil, List.sum_append, List.sum_cons,
    List.sum_nil, dataLength, hchunks, Request.body]
  omega

/-- Serving a request uses the window up by the length of its body. -/
theorem window_serve (lib : Libraries) (p : H2Protocol) (r : Request) :
    window (serve lib p r).conn = window p.conn - r.body.length := by
  rw [serve, window_of_continues (continues_replies _ _ _), window_receiveBatches, sum_dataLength]

/-- From a given window, all requests get through exactly when their bodies
together fit into it. -/
theorem run_isSome_iff {lib : Libraries} {p : H2Protocol} (hwindow : 0 ≤ window p.conn)
    (requests : List Request) :
    (run (sendRequest lib) p requests).isSome = true ↔
      ((requests.map fun r => r.body.length).sum : Nat) ≤ window p.conn := by
  induction requests generalizing p with
  | nil => simpa [run, runWithin] using hwindow
  | cons r requests ih =>
      have hserve := window_serve lib p r
      rw [run_cons, sendRequest, List.map_cons, List.sum_cons]
      by_cases hfits : (r.body.length : Int) ≤ window p.conn
      · rw [if_pos hfits, Option.bind_some, ih (by omega)]
        omega
      · rw [if_neg hfits]
        apply iff_of_false (by simp)
        omega

/-- On a new connection every request finds a window for its body if and only
if the bodies of all requests together fit into the initial window. -/
theorem all_sent_iff (lib : Libraries) (transport : Nat) (requests : List Request) :
    (run (sendRequest lib) (H2Protocol.new.connectionMade transport) requests).isSome = true ↔
      (requests.map fun r => r.body.length).sum ≤ 65535 := by
  have hwindow : window (H2Protocol.new.connectionMade transport).conn = 65535 := by
    rw [window_of_continues (continues_connectionMade _ _)]
    rfl
  rw [run_isSome_iff (by omega), hwindow]
  omega

/-- A request of 40000 bytes with one unknown field of 39991 bytes, as a frame
of the remote procedure call. -/
def longBody : Bytes :=
  [0, 0, 0, 0x9c, 0x3b] ++ [0x0a, 0xb7, 0xb8, 0x02] ++ List.replicate 39991 0

/-- The request in three DATA frames of at most 16384 bytes. -/
def longRequest (stream : Nat) : Request where
  stream := stream
  headers := isSyncedHeaders
  chunks := [longBody.take 16384, (longBody.drop 16384).take 16384, longBody.drop 32768]
  batches := [([], [.requestReceived isSyncedHeaders stream,
      .dataReceived (longBody.take 16384) stream]),
    ([], [.dataReceived ((longBody.drop 16384).take 16384) stream]),
    ([], [.dataReceived (longBody.drop 32768) stream, .streamEnded stream])]
  reply := []
  spread := rfl

theorem length_longBody : longBody.length = 40000 := by
  rw [longBody, List.length_append, List.length_replicate]
  rfl

theorem length_body_longRequest (stream : Nat) : (longRequest stream).body.length = 40000 := by
  simp [Request.body, longRequest, length_longBody]

theorem calls_longRequest (stream : Nat) :
    (receiveBatches bridge (H2Protocol.new.connectionMade 0) (longRequest stream).batches).2 =
      [⟨stream, 1, "IsSynced", "{}"⟩] := by
  have hmethod : H2Protocol.header? isSyncedHeaders ":method" = some "POST" := by
    decide +kernel
  have hpath : H2Protocol.header? isSyncedHeaders ":path" = some "/ElectrumBridge/IsSynced" := by
    decide +kernel
  have hfind : H2Protocol.isIn "/ElectrumBridge/IsSynced" "IsSynced" = true := by
    decide +kernel
  have hbody : longBody ≠ [] := by
    intro hnil
    have hlength := length_longBody
    rw [hnil] at hlength
    cases hlength
  simp [receiveBatches, longRequest, H2Protocol.dataReceived, H2Protocol.handleEvents,
    H2Protocol.handleEvent, H2Protocol.requestReceived, hmethod, Handled.next,
    H2Protocol.receiveData, H2Protocol.setStreamData, H2Protocol.streamData?, H2Protocol.call,
    H2Protocol.streamComplete, hpath, hfind, hbody, bridge, H2Protocol.connectionMade,
    H2Protocol.new]

/-- Two requests of 40000 bytes each: the first one is answered, and the
second one never gets through. -/
theorem second_request_waits :
    (∀ r ∈ [longRequest 1, longRequest 3], r.body.length ≤ 65535) ∧
      (receiveBatches bridge (H2Protocol.new.connectionMade 0) (longRequest 1).batches).2 =
        [⟨1, 1, "IsSynced", "{}"⟩] ∧
      (run (sendRequest bridge) (H2Protocol.new.connectionMade 0)
        [longRequest 1]).isSome = true ∧
      run (sendRequest bridge) (H2Protocol.new.connectionMade 0)
        [longRequest 1, longRequest 3] = none := by
  have hwindow : window (H2Protocol.new.connectionMade 0).conn = 65535 := by
    decide +kernel
  refine ⟨?_, calls_longRequest 1, ?_, ?_⟩
  · simp [length_body_longRequest]
  · rw [run_isSome_iff (by omega), hwindow]
    simp [length_body_longRequest]
  · rw [← Option.not_isSome_iff_eq_none, run_isSome_iff (by omega), hwindow]
    simp [length_body_longRequest]

end ElectrumLightning.FlowControl
