import Mathlib.Algebra.BigOperators.Group.List.Basic
import Mathlib.Algebra.Order.Ring.Int
import ElectrumLightning.Http2Server
import ElectrumLightning.LabelledRuns

/-!
How a response of the bridge is sent. The frames are queued one by one, and a
body that is too large for a frame or for a send window raises an exception
between them.
-/

namespace ElectrumLightning.ResponseSending

open ElectrumLightning.ByteStrings
open ElectrumLightning.Http2Server
open ElectrumLightning.Http2Server.H2Protocol (replyCalls)
open ElectrumLightning.LabelledRuns

inductive Frame where
  | headers (stream : Nat) (headers : List (String × String)) (endStream : Bool)
  | data (stream : Nat) (data : Bytes)
deriving DecidableEq

/-- The sending side of a connection: what the peer allows, the frames that are
queued, and those that are written to the transport. -/
structure Outbound where
  maxFrameSize : Nat
  connectionWindow : Int
  streamWindow : Nat → Int
  queued : List Frame
  written : List Frame

def Outbound.queue (o : Outbound) (frame : Frame) : Outbound :=
  { o with queued := o.queued ++ [frame] }

/-- `send_data`, or the exception that it raises. -/
def Outbound.sendData (o : Outbound) (stream : Nat) (data : Bytes) : Option Outbound :=
  if o.connectionWindow < data.length ∨ o.streamWindow stream < data.length then none
  else if o.maxFrameSize < data.length then none
  else some { o.queue (.data stream data) with
    connectionWindow := o.connectionWindow - data.length
    streamWindow := Function.update o.streamWindow stream (o.streamWindow stream - data.length) }

/-- `data_to_send`, and the write of what it gives to the transport. -/
def Outbound.flush (o : Outbound) : Outbound :=
  { o with queued := [], written := o.written ++ o.queued }

def Outbound.perform (o : Outbound) : H2Call → Option Outbound
  | .sendHeaders stream headers endStream => some (o.queue (.headers stream headers endStream))
  | .sendData stream data => o.sendData stream data
  | .dataToSend => some o.flush
  | _ => some o

/-- Calls one after another, up to the first that raises, and whether one
raised. -/
def Outbound.performAll (o : Outbound) : List H2Call → Outbound × Bool
  | [] => (o, false)
  | call :: calls =>
      match o.perform call with
      | none => (o, true)
      | some p => p.performAll calls

/-- A message of the remote procedure call: a flag, the length and the bytes. -/
def grpcMessage (message : Bytes) : Bytes := 0 :: bigEndian 4 message.length ++ message

/-- `done2`, once the response is serialized. -/
def done2 (o : Outbound) (stream : Nat) (message : Bytes) : Outbound × Bool :=
  -- to_bytes raises for a length that four bytes do not hold
  if 2 ^ 32 ≤ message.length then (o, true)
  else o.performAll (replyCalls stream (grpcMessage message))

def responseHeaders (stream : Nat) (message : Bytes) : Frame :=
  .headers stream (H2Protocol.replyHeaders (grpcMessage message)) false

def trailer (stream : Nat) : Frame := .headers stream [("grpc-status", "0")] true

/-- The headers, the message in DATA frames and the trailer are written, after
all that was queued before. -/
structure SentWhole (o p : Outbound) (stream : Nat) (message : Bytes) : Prop where
  exists_chunks : ∃ chunks : List Bytes, chunks.flatten = grpcMessage message ∧
    p.written = o.written ++ o.queued ++
      (responseHeaders stream message :: chunks.map (.data stream) ++ [trailer stream])
  nothing_queued : p.queued = []

/-- The headers are queued and nothing else is to follow. -/
def HalfQueued (o p : Outbound) (stream : Nat) (message : Bytes) : Prop :=
  p.queued = o.queued ++ [responseHeaders stream message] ∧ p.written = o.written

/-- The message with its prefix fits into one frame and into both windows. -/
structure Fits (o : Outbound) (stream : Nat) (message : Bytes) : Prop where
  prefixable : message.length < 2 ^ 32
  frame : message.length + 5 ≤ o.maxFrameSize
  connection : (message.length + 5 : Int) ≤ o.connectionWindow
  stream : (message.length + 5 : Int) ≤ o.streamWindow stream

/-! ### One response -/

theorem length_grpcMessage (message : Bytes) :
    (grpcMessage message).length = message.length + 5 := by
  simp [grpcMessage]
  omega

/-- The calls are those of the model of the protocol object. -/
theorem conn_sendReply (p : H2Protocol) (stream : Nat) (body : Bytes) :
    (p.sendReply stream body).conn = p.conn ++ replyCalls stream body := by
  simp [H2Protocol.sendReply, H2Protocol.call, replyCalls]

theorem done2_of_fits {o : Outbound} {stream : Nat} {message : Bytes} (h : Fits o stream message) :
    done2 o stream message =
      ({ o with
        connectionWindow := o.connectionWindow - (message.length + 5 : Nat)
        streamWindow := Function.update o.streamWindow stream
          (o.streamWindow stream - (message.length + 5 : Nat))
        queued := []
        written := o.written ++ o.queued ++ [responseHeaders stream message,
          .data stream (grpcMessage message), trailer stream] }, false) := by
  have hprefixable : ¬ 2 ^ 32 ≤ message.length := Nat.not_le.mpr h.prefixable
  have hwindows : ¬ (o.connectionWindow < (message.length + 5 : Nat) ∨
      o.streamWindow stream < (message.length + 5 : Nat)) := by
    have hconnection := h.connection
    have hstream := h.stream
    omega
  have hframe : ¬ o.maxFrameSize < message.length + 5 := Nat.not_lt.mpr h.frame
  have hsend : (o.queue (responseHeaders stream message)).sendData stream (grpcMessage message) =
      some { (o.queue (responseHeaders stream message)).queue
          (.data stream (grpcMessage message)) with
        connectionWindow := o.connectionWindow - (message.length + 5 : Nat)
        streamWindow := Function.update o.streamWindow stream
          (o.streamWindow stream - (message.length + 5 : Nat)) } := by
    rw [Outbound.sendData, length_grpcMessage]
    exact (if_neg hwindows).trans (if_neg hframe)
  rw [responseHeaders] at hsend
  rw [done2, if_neg hprefixable]
  simp only [replyCalls, Outbound.performAll, Outbound.perform, hsend]
  simp [Outbound.queue, Outbound.flush, responseHeaders, trailer]

/-- The exception leaves the headers in the queue. -/
theorem done2_of_not_fits {o : Outbound} {stream : Nat} {message : Bytes}
    (hprefixable : message.length < 2 ^ 32) (h : ¬ Fits o stream message) :
    done2 o stream message = (o.queue (responseHeaders stream message), true) := by
  have hsend : (o.queue (responseHeaders stream message)).sendData stream (grpcMessage message) =
      none := by
    rw [Outbound.sendData, length_grpcMessage]
    by_cases hframe : o.maxFrameSize < message.length + 5
    · split
      · rfl
      · exact if_pos hframe
    · apply if_pos
      by_contra hwindows
      apply h
      simp only [Outbound.queue, not_or, not_lt] at hwindows
      constructor <;> omega
  rw [responseHeaders] at hsend
  rw [done2, if_neg (Nat.not_le.mpr hprefixable)]
  simp only [replyCalls, Outbound.performAll, Outbound.perform, hsend, responseHeaders]

theorem done2_of_unprefixable {o : Outbound} {stream : Nat} {message : Bytes}
    (h : 2 ^ 32 ≤ message.length) : done2 o stream message = (o, true) :=
  if_pos h

theorem sentWhole_of_fits {o : Outbound} {stream : Nat} {message : Bytes}
    (h : Fits o stream message) : SentWhole o (done2 o stream message).1 stream message := by
  rw [done2_of_fits h]
  exact ⟨⟨[grpcMessage message], by simp, rfl⟩, rfl⟩

theorem fits_of_sentWhole {o : Outbound} {stream : Nat} {message : Bytes}
    (h : SentWhole o (done2 o stream message).1 stream message) : Fits o stream message := by
  by_contra hfits
  obtain ⟨chunks, -, hwritten⟩ := h.exists_chunks
  have hnothing : (done2 o stream message).1.written = o.written := by
    by_cases hprefixable : message.length < 2 ^ 32
    · rw [done2_of_not_fits hprefixable hfits]
      rfl
    · rw [done2_of_unprefixable (Nat.not_lt.mp hprefixable)]
  rw [hnothing, List.append_assoc] at hwritten
  simp at hwritten

theorem halfQueued_iff {o : Outbound} {stream : Nat} {message : Bytes} :
    HalfQueued o (done2 o stream message).1 stream message ↔
      message.length < 2 ^ 32 ∧ ¬ Fits o stream message := by
  constructor
  · intro h
    have hfits : ¬ Fits o stream message := by
      intro hfits
      have hqueued := h.1
      rw [done2_of_fits hfits] at hqueued
      simp at hqueued
    refine ⟨?_, hfits⟩
    by_contra hprefixable
    have hqueued := h.1
    rw [done2_of_unprefixable (Nat.not_lt.mp hprefixable)] at hqueued
    simp at hqueued
  · rintro ⟨hprefixable, hfits⟩
    rw [done2_of_not_fits hprefixable hfits]
    exact ⟨rfl, rfl⟩

/-- A response is sent whole exactly when its message fits into one frame and
into what is left of both windows. Otherwise, unless its length has no prefix,
its headers stay in the queue without a body or a trailer. -/
theorem sentWhole_iff (o : Outbound) (stream : Nat) (message : Bytes) :
    (SentWhole o (done2 o stream message).1 stream message ↔ Fits o stream message) ∧
      (HalfQueued o (done2 o stream message).1 stream message ↔
        message.length < 2 ^ 32 ∧ ¬ Fits o stream message) :=
  ⟨⟨fits_of_sentWhole, sentWhole_of_fits⟩, halfQueued_iff⟩

/-- A connection with the settings that hold until the peer sends others. -/
def Outbound.initial : Outbound where
  maxFrameSize := 16384
  connectionWindow := 65535
  streamWindow := fun _ => 65535
  queued := []
  written := []

/-- A message of 16380 bytes does not fit into a frame. The next flush writes
its headers, and nothing after them. -/
theorem long_message_half_sent :
    ¬ SentWhole .initial (done2 .initial 1 (List.replicate 16380 0)).1 1
        (List.replicate 16380 0) ∧
      (done2 .initial 1 (List.replicate 16380 0)).1.flush.written =
        [responseHeaders 1 (List.replicate 16380 0)] := by
  have hlength : (List.replicate 16380 (0 : UInt8)).length = 16380 := List.length_replicate
  have hfits : ¬ Fits .initial 1 (List.replicate 16380 0) := by
    intro h
    have hframe := h.frame
    rw [hlength] at hframe
    exact absurd hframe (by decide)
  refine ⟨fun h => hfits (fits_of_sentWhole h), ?_⟩
  rw [done2_of_not_fits (by rw [hlength]; decide) hfits]
  rfl

/-! ### One response after another -/

theorem fits_iff {o : Outbound} {stream : Nat} {message : Bytes} :
    Fits o stream message ↔ message.length < 2 ^ 32 ∧ message.length + 5 ≤ o.maxFrameSize ∧
      (message.length + 5 : Int) ≤ o.connectionWindow ∧
        (message.length + 5 : Int) ≤ o.streamWindow stream :=
  ⟨fun h => ⟨h.prefixable, h.frame, h.connection, h.stream⟩,
    fun ⟨hprefixable, hframe, hconnection, hstream⟩ => ⟨hprefixable, hframe, hconnection, hstream⟩⟩

instance (o : Outbound) (stream : Nat) (message : Bytes) : Decidable (Fits o stream message) :=
  decidable_of_iff _ fits_iff.symm

/-- The next response, as long as it is sent whole. -/
def respond (o : Outbound) (r : Nat × Bytes) : Option Outbound :=
  if Fits o r.1 r.2 then some (done2 o r.1 r.2).1 else none

theorem respond_of_fits {o : Outbound} {r : Nat × Bytes} (h : Fits o r.1 r.2) :
    respond o r = some (done2 o r.1 r.2).1 :=
  if_pos h

/-- While the peer opens no window, responses on streams of their own are all
sent whole exactly when each fits into a frame and into its stream, and all
together fit into the window of the connection. -/
theorem run_respond_iff {o : Outbound} (hwindow : 0 ≤ o.connectionWindow)
    {responses : List (Nat × Bytes)} (hstreams : (responses.map Prod.fst).Nodup) :
    (run respond o responses).isSome = true ↔
      (∀ r ∈ responses, r.2.length < 2 ^ 32 ∧ r.2.length + 5 ≤ o.maxFrameSize ∧
        (r.2.length + 5 : Int) ≤ o.streamWindow r.1) ∧
      ((responses.map fun r => r.2.length + 5).sum : Nat) ≤ o.connectionWindow := by
  induction responses generalizing o with
  | nil => simpa [run, runWithin] using hwindow
  | cons r responses ih =>
      obtain ⟨hother, hrest⟩ := List.nodup_cons.mp hstreams
      rw [run_cons, List.map_cons, List.sum_cons, List.forall_mem_cons]
      by_cases hfits : Fits o r.1 r.2
      · rw [respond_of_fits hfits, Option.bind_some, done2_of_fits hfits]
        obtain ⟨hprefixable, hframe, hconnection, hstream⟩ := fits_iff.mp hfits
        have hkept : ∀ s ∈ responses, Function.update o.streamWindow r.1
            (o.streamWindow r.1 - (r.2.length + 5 : Nat)) s.1 = o.streamWindow s.1 := by
          intro s hs
          apply Function.update_of_ne
          rintro heq
          exact hother (heq ▸ List.mem_map_of_mem hs)
        rw [ih (by dsimp only; omega) hrest]
        have hall : (∀ s ∈ responses, s.2.length < 2 ^ 32 ∧ s.2.length + 5 ≤ o.maxFrameSize ∧
            (s.2.length + 5 : Int) ≤ Function.update o.streamWindow r.1
              (o.streamWindow r.1 - (r.2.length + 5 : Nat)) s.1) ↔
            ∀ s ∈ responses, s.2.length < 2 ^ 32 ∧ s.2.length + 5 ≤ o.maxFrameSize ∧
              (s.2.length + 5 : Int) ≤ o.streamWindow s.1 := by
          apply forall₂_congr
          intro s hs
          rw [hkept s hs]
        dsimp only
        rw [hall]
        constructor
        · rintro ⟨hevery, hsum⟩
          exact ⟨⟨⟨hprefixable, hframe, hstream⟩, hevery⟩, by omega⟩
        · rintro ⟨⟨-, hevery⟩, hsum⟩
          exact ⟨hevery, by omega⟩
      · rw [respond, if_neg hfits]
        apply iff_of_false (by simp)
        rintro ⟨⟨⟨hprefixable, hframe, hstream⟩, -⟩, hsum⟩
        exact hfits ⟨hprefixable, hframe, by omega, hstream⟩

end ElectrumLightning.ResponseSending
