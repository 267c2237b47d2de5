import ElectrumLightning.Http2Server
import ElectrumLightning.LabelledRuns

/-!
The batches of events that a connection reports, with any number of streams
in each. The loop over a batch ends with the first event whose handling raises.
-/

namespace ElectrumLightning.StreamBatches

open ElectrumLightning.ByteStrings
open ElectrumLightning.Http2Server
open ElectrumLightning.LabelledRuns

/-! ### What the events say of a stream -/

def stream? : H2Event → Option Nat
  | .requestReceived _ stream | .dataReceived _ stream | .streamEnded stream
  | .streamReset stream => some stream
  | .connectionTerminated | .other => none

def extend (stream : Nat) (request : Option RequestData) : H2Event → Option RequestData
  | .requestReceived headers other => if other = stream then some ⟨headers, []⟩ else request
  | .dataReceived data other =>
      if other = stream then request.map fun r => { r with data := r.data ++ data } else request
  | .streamEnded _ | .streamReset _ | .connectionTerminated | .other => request

/-- The request of a stream, as far as it has been reported. -/
def requestOf (events : List H2Event) (stream : Nat) : Option RequestData :=
  events.foldl (extend stream) none

def isData (stream : Nat) : H2Event → Bool
  | .dataReceived _ other => other = stream
  | _ => false

/-- What the HTTP/2 package reports next: the request of a new stream with its
method, something of a stream with a request that has not ended, or its reset. -/
def Admissible (past : List H2Event) : H2Event → Prop
  | .requestReceived headers stream =>
      (∀ e ∈ past, stream? e ≠ some stream) ∧
        (H2Protocol.header? headers ":method").isSome = true
  | .dataReceived _ stream | .streamEnded stream =>
      (requestOf past stream).isSome = true ∧ .streamEnded stream ∉ past ∧
        .streamReset stream ∉ past
  | .streamReset stream => (requestOf past stream).isSome = true ∧ .streamReset stream ∉ past
  | .connectionTerminated | .other => True

def Conforms (past : List H2Event) : List H2Event → Prop
  | [] => True
  | e :: es => Admissible past e ∧ Conforms (past ++ [e]) es

/-- The method is one that is not answered with 405. -/
def supported (request : RequestData) : Bool :=
  H2Protocol.header? request.headers ":method" = some "GET" ∨
    H2Protocol.header? request.headers ":method" = some "POST"

/-- The method of the bridge and the parameters that a request asks for. -/
def accepted (rpc : Rpc) (request : RequestData) : Option (String × String) := do
  let path ← H2Protocol.header? request.headers ":path"
  let method ← rpc.methods.find? (H2Protocol.isIn path)
  if request.data = [] then none
  else
    let params ← rpc.messageToJson method (request.data.drop 5)
    if rpc.keyless params ∧ method = "FetchInputInfo" then none else some (method, params)

/-- A request with POST, the path of a method of the bridge, a prefix of five
bytes and a message that parses. -/
structure WellFormed (rpc : Rpc) (request : RequestData) (method params : String) : Prop where
  post : H2Protocol.header? request.headers ":method" = some "POST"
  path : ∃ path, H2Protocol.header? request.headers ":path" = some path ∧
    rpc.methods.find? (H2Protocol.isIn path) = some method
  framed : 5 ≤ request.data.length
  parsed : rpc.messageToJson method (request.data.drop 5) = some params
  fields : ¬ (rpc.keyless params = true ∧ method = "FetchInputInfo")

/-! ### Harmful events -/

/-- The end of a request that the bridge does not accept; and, where the method is
not supported, a request on a stream that the peer resets or on a connection that
it terminates before the response is sent, and data on a stream that is closed by
then. `reported` are all events reported when the event is handled. -/
def Harmful (rpc : Rpc) (reported past : List H2Event) : H2Event → Prop
  | .requestReceived headers stream => supported ⟨headers, []⟩ = false ∧
      (.connectionTerminated ∈ reported ∨ .streamReset stream ∈ reported)
  | .dataReceived _ stream => ∃ request ∈ requestOf past stream, supported request = false ∧
      (.connectionTerminated ∈ reported ∨ .streamReset stream ∈ reported ∨
        .streamEnded stream ∈ reported ∨ past.any (isData stream) = true)
  | .streamEnded stream => ∃ request ∈ requestOf past stream, supported request = true ∧
      accepted rpc request = none
  | .streamReset _ | .connectionTerminated | .other => False

/-- No event of a batch is harmful. -/
def Clean (rpc : Rpc) (reported past : List H2Event) : List H2Event → Prop
  | [] => True
  | e :: es => ¬ Harmful rpc reported past e ∧ Clean rpc reported (past ++ [e]) es

/-- What is left of a batch matters to nobody: where a stream ends in it, its method
was not supported, and it adds nothing to a well-formed request. -/
structure Idle (rpc : Rpc) (reported past rest : List H2Event) : Prop where
  ended : ∀ stream, .streamEnded stream ∈ rest →
    ∃ request ∈ requestOf past stream, supported request = false
  complete : ∀ stream request method params, requestOf reported stream = some request →
    WellFormed rpc request method params → requestOf past stream = some request

/-- The first harmful event of a batch, if there is one, and what follows it matter
to nobody. -/
def Spared (rpc : Rpc) (reported past : List H2Event) : List H2Event → Prop
  | [] => True
  | e :: es => (¬ Harmful rpc reported past e → Spared rpc reported (past ++ [e]) es) ∧
      (Harmful rpc reported past e → Idle rpc reported past (e :: es))

instance (past : List H2Event) : DecidablePred (Admissible past)
  | .requestReceived _ _ => inferInstanceAs (Decidable (_ ∧ _))
  | .dataReceived _ _ => inferInstanceAs (Decidable (_ ∧ _ ∧ _))
  | .streamEnded _ => inferInstanceAs (Decidable (_ ∧ _ ∧ _))
  | .streamReset _ => inferInstanceAs (Decidable (_ ∧ _))
  | .connectionTerminated => inferInstanceAs (Decidable True)
  | .other => inferInstanceAs (Decidable True)

instance conformsDecidable : (past es : List H2Event) → Decidable (Conforms past es)
  | _, [] => inferInstanceAs (Decidable True)
  | past, e :: es =>
      have := conformsDecidable (past ++ [e]) es
      inferInstanceAs (Decidable (Admissible past e ∧ Conforms (past ++ [e]) es))

instance (rpc : Rpc) (reported past : List H2Event) : DecidablePred (Harmful rpc reported past)
  | .requestReceived _ _ => inferInstanceAs (Decidable (_ ∧ _))
  | .dataReceived _ stream =>
      inferInstanceAs (Decidable (∃ request ∈ requestOf past stream, supported request = false ∧
        (.connectionTerminated ∈ reported ∨ .streamReset stream ∈ reported ∨
          .streamEnded stream ∈ reported ∨ past.any (isData stream) = true)))
  | .streamEnded stream =>
      inferInstanceAs (Decidable (∃ request ∈ requestOf past stream, supported request = true ∧
        accepted rpc request = none))
  | .streamReset _ => inferInstanceAs (Decidable False)
  | .connectionTerminated => inferInstanceAs (Decidable False)
  | .other => inferInstanceAs (Decidable False)

instance cleanDecidable (rpc : Rpc) (reported : List H2Event) : (past es : List H2Event) →
    Decidable (Clean rpc reported past es)
  | _, [] => inferInstanceAs (Decidable True)
  | past, e :: es =>
      have := cleanDecidable rpc reported (past ++ [e]) es
      inferInstanceAs (Decidable (¬ Harmful rpc reported past e ∧
        Clean rpc reported (past ++ [e]) es))

/-! ### A connection -/

/-- A connection, with the requests that it put on `writeQueue` and the events
that were reported. -/
structure Connection where
  protocol : H2Protocol
  calls : List Call
  reported : List H2Event

def Connection.start (transport : Nat) : Connection :=
  ⟨H2Protocol.new.connectionMade transport, [], []⟩

/-- A call of `data_received`, or one of `done2` for a request that was put on
`writeQueue`, in which the package accepts so many calls. -/
inductive Event where
  | receives (data : Bytes) (events : List H2Event)
  | replies (stream : Nat) (body : Bytes) (accepted : Nat)

def step (lib : Libraries) (c : Connection) : Event → Option Connection
  | .receives data events =>
      if Conforms c.reported events then
        let received := c.protocol.dataReceived lib data (some events)
        some ⟨received.protocol, c.calls ++ received.calls, c.reported ++ events⟩
      else none
  | .replies stream body accepted =>
      if stream ∈ c.calls.map Call.stream then
        some { c with protocol := c.protocol.replyUpTo stream body accepted }
      else none

/-- An error response on a stream, or its reset. -/
def isAnswer (stream : Nat) : H2Call → Bool
  | .sendHeaders other headers _ =>
      other = stream ∧ (headers.lookup ":status" = some "405" ∨ headers.lookup ":status" = some "500")
  | .resetStream other => other = stream
  | _ => false

def Answered (p : H2Protocol) (stream : Nat) : Prop := ∃ c ∈ p.conn, isAnswer stream c = true

def Connection.callsOf (c : Connection) (stream : Nat) : List Call :=
  c.calls.filter fun call => call.stream == stream

/-- The streams do not harm each other: a well-formed request that has ended is
put on `writeQueue` once, with all its data, and where an ended stream has no
request there it has an error response or a reset. -/
structure Fair (rpc : Rpc) (c : Connection) : Prop where
  once : ∀ stream request method params, .streamEnded stream ∈ c.reported →
    requestOf c.reported stream = some request → WellFormed rpc request method params →
      (c.callsOf stream).map (fun call => (call.method, call.params)) = [(method, params)]
  complete : ∀ stream request method params, requestOf c.reported stream = some request →
    WellFormed rpc request method params → c.protocol.streamData? stream = some request
  rejected : ∀ stream, .streamEnded stream ∈ c.reported → c.callsOf stream = [] →
    Answered c.protocol stream

/-- No event of the batch is harmful. -/
def AllClean (lib : Libraries) (c : Connection) : Event → Prop
  | .receives _ events => Clean lib.toRpc (c.reported ++ events) c.reported events
  | .replies _ _ _ => True

def AllSpared (lib : Libraries) (c : Connection) : Event → Prop
  | .receives _ events => Spared lib.toRpc (c.reported ++ events) c.reported events
  | .replies _ _ _ => True

instance (lib : Libraries) : DecidableRel (AllClean lib)
  | c, .receives _ events =>
      inferInstanceAs (Decidable (Clean lib.toRpc (c.reported ++ events) c.reported events))
  | _, .replies _ _ _ => inferInstanceAs (Decidable True)

/-! ### Streams that an event is not about -/

/-- Calls that are not about a stream. -/
def Untouched (stream : Nat) (p q : H2Protocol) : Prop :=
  ∃ calls, calls.any (touches stream) = false ∧ q.conn = p.conn ++ calls

section Other

variable {lib : Libraries} {p q : H2Protocol} {e : H2Event} {stream : Nat}

theorem Untouched.refl (stream : Nat) (p : H2Protocol) : Untouched stream p p :=
  ⟨[], rfl, (List.append_nil _).symm⟩

theorem untouched_call {c : H2Call} (h : touches stream c = false) :
    Untouched stream p (p.call c) :=
  ⟨[c], by rw [List.any_cons, h]; rfl, rfl⟩

theorem Untouched.trans {r : H2Protocol} (hpq : Untouched stream p q)
    (hqr : Untouched stream q r) : Untouched stream p r := by
  obtain ⟨calls, hcalls, hq⟩ := hpq
  obtain ⟨more, hmore, hr⟩ := hqr
  refine ⟨calls ++ more, ?_, by rw [hr, hq, List.append_assoc]⟩
  rw [List.any_append, hcalls, hmore]
  rfl

/-- What holds only of calls about the stream is true of the same calls. -/
theorem Untouched.any {f : H2Call → Bool} (h : Untouched stream p q)
    (hf : ∀ c, f c = true → touches stream c = true) : q.conn.any f = p.conn.any f := by
  obtain ⟨calls, hcalls, hq⟩ := h
  have hnone : calls.any f = false := by
    apply List.any_eq_false.mpr
    intro c hc hfc
    exact List.any_eq_false.mp hcalls c hc (hf c hfc)
  rw [hq, List.any_append, hnone, Bool.or_false]

theorem touches_of_isAnswer (c : H2Call) (h : isAnswer stream c = true) :
    touches stream c = true := by
  cases c <;> simp_all [isAnswer, touches]

theorem answered_iff_any : Answered p stream ↔ p.conn.any (isAnswer stream) = true :=
  List.any_eq_true.symm

theorem Untouched.answered (h : Untouched stream p q) : Answered q stream ↔ Answered p stream := by
  rw [answered_iff_any, answered_iff_any, h.any touches_of_isAnswer]

theorem Untouched.endsStream (h : Untouched stream p q) :
    q.conn.any (endsStream stream) = p.conn.any (endsStream stream) :=
  h.any touches_of_endsStream

theorem Untouched.reset (h : Untouched stream p q) :
    .resetStream stream ∈ q.conn ↔ .resetStream stream ∈ p.conn := by
  obtain ⟨calls, hcalls, hq⟩ := h
  rw [hq, List.mem_append]
  refine or_iff_left fun hmem => ?_
  have htouches := List.any_eq_false.mp hcalls _ hmem
  simp [touches] at htouches

theorem requestOf_snoc (past : List H2Event) (e : H2Event) (stream : Nat) :
    requestOf (past ++ [e]) stream = extend stream (requestOf past stream) e := by
  simp [requestOf]

theorem extend_other (h : stream? e ≠ some stream) (request : Option RequestData) :
    extend stream request e = request := by
  cases e with
  | requestReceived headers other =>
      exact if_neg fun hsame => h (congrArg some hsame)
  | dataReceived data other =>
      exact if_neg fun hsame => h (congrArg some hsame)
  | streamEnded other => rfl
  | streamReset other => rfl
  | connectionTerminated => rfl
  | other => rfl

theorem ended_snoc_other (h : stream? e ≠ some stream) (past : List H2Event) :
    .streamEnded stream ∈ past ++ [e] ↔ .streamEnded stream ∈ past := by
  rw [List.mem_append, List.mem_singleton]
  refine or_iff_left fun hend => h ?_
  rw [← hend]
  rfl

theorem any_isData_snoc_other (h : stream? e ≠ some stream) (past : List H2Event) :
    (past ++ [e]).any (isData stream) = past.any (isData stream) := by
  have hnone : isData stream e = false := by
    unfold isData
    split
    · exact decide_eq_false fun hsame => h (congrArg some hsame)
    · rfl
  rw [List.any_append, List.any_cons, hnone]
  simp

theorem streamData_call (p : H2Protocol) (c : H2Call) (stream : Nat) :
    (p.call c).streamData? stream = p.streamData? stream := rfl

theorem streamData_setStreamData (p : H2Protocol) (other : Nat) (request : RequestData)
    (stream : Nat) :
    (p.setStreamData other request).streamData? stream =
      if stream = other then some request else p.streamData? stream := by
  unfold H2Protocol.streamData? H2Protocol.setStreamData
  by_cases hsame : stream = other
  · simp [hsame]
  · have hfilter : ∀ entries : List (Nat × RequestData),
        (entries.filter fun s => s.1 != other).lookup stream = entries.lookup stream := by
      intro entries
      induction entries with
      | nil => rfl
      | cons entry entries ih =>
          obtain ⟨key, value⟩ := entry
          by_cases hkey : key = other
          · subst hkey
            simp [List.lookup_cons, ih, beq_eq_false_iff_ne.mpr hsame]
          · simp [List.lookup_cons, hkey, ih]
    simp [List.lookup_cons, beq_eq_false_iff_ne.mpr hsame, hsame, hfilter]

theorem attempt_accepted {c : H2Call} (h : lib.refuses p.conn c = false) :
    p.attempt lib c = .next (p.call c) := by
  rw [H2Protocol.attempt, h]
  rfl

theorem attempt_refused {c : H2Call} (h : lib.refuses p.conn c = true) :
    p.attempt lib c = .raise p := by
  rw [H2Protocol.attempt, h]
  rfl

/-- An attempted call changes nothing but the calls made. -/
theorem attempt_cases (lib : Libraries) (p : H2Protocol) (c : H2Call) :
    p.attempt lib c = .next (p.call c) ∨ p.attempt lib c = .raise p := by
  cases h : lib.refuses p.conn c with
  | false => exact .inl (attempt_accepted h)
  | true => exact .inr (attempt_refused h)

theorem streamComplete_unknown {rpc : Rpc} (h : p.streamData? stream = none) :
    p.streamComplete rpc stream = .next p := by
  simp only [H2Protocol.streamComplete, h]

theorem streamComplete_accepted {rpc : Rpc} {request : RequestData} {method params : String}
    (h : p.streamData? stream = some request)
    (haccepted : accepted rpc request = some (method, params)) :
    p.streamComplete rpc stream =
      { protocol := { p with serialNumber := p.serialNumber + 1 }
        calls := [⟨stream, p.serialNumber, method, params⟩]
        closes := false
        raised := false } := by
  obtain ⟨path, hpath, hrest⟩ := Option.bind_eq_some_iff.mp haccepted
  obtain ⟨found, hfound, hrest⟩ := Option.bind_eq_some_iff.mp hrest
  split_ifs at hrest with hempty
  obtain ⟨text, htext, hrest⟩ := Option.bind_eq_some_iff.mp hrest
  split_ifs at hrest with hkeyless
  cases hrest
  simp only [H2Protocol.streamComplete, h, hpath, hfound, hempty, htext, hkeyless, if_false]

theorem streamComplete_refused {rpc : Rpc} {request : RequestData}
    (h : p.streamData? stream = some request) (hrefused : accepted rpc request = none) :
    p.streamComplete rpc stream = .raise p := by
  simp only [H2Protocol.streamComplete, h]
  split
  · rfl
  · rename_i path hpath
    split
    · rfl
    · rename_i method hmethod
      split_ifs with hempty
      · rfl
      · split
        · rfl
        · rename_i params hparams
          split_ifs with hkeyless
          · rfl
          · simp [accepted, hpath, hmethod, hempty, hparams, hkeyless] at hrefused

/-- The handling of an event leaves the other streams alone. -/
theorem handleEvent_other (lib : Libraries) (p : H2Protocol) (h : stream? e ≠ some stream) :
    (p.handleEvent lib e).protocol.streamData? stream = p.streamData? stream ∧
      Untouched stream p (p.handleEvent lib e).protocol ∧
        ∀ call ∈ (p.handleEvent lib e).calls, call.stream ≠ stream := by
  have hattempt {c : H2Call} (hc : touches stream c = false) :
      (p.attempt lib c).protocol.streamData? stream = p.streamData? stream ∧
        Untouched stream p (p.attempt lib c).protocol ∧
          ∀ call ∈ (p.attempt lib c).calls, call.stream ≠ stream := by
    rcases attempt_cases lib p c with heq | heq <;> rw [heq]
    · exact ⟨rfl, untouched_call hc, List.forall_mem_nil _⟩
    · exact ⟨rfl, .refl stream p, List.forall_mem_nil _⟩
  cases e with
  | requestReceived headers other =>
      have hne : other ≠ stream := fun hsame => h (congrArg some hsame)
      simp only [H2Protocol.handleEvent, H2Protocol.requestReceived]
      split
      · exact ⟨rfl, .refl stream p, List.forall_mem_nil _⟩
      · split
        · refine ⟨?_, .refl stream p, List.forall_mem_nil _⟩
          exact (streamData_setStreamData p other _ stream).trans (if_neg (Ne.symm hne))
        · exact hattempt (decide_eq_false hne)
  | dataReceived data other =>
      have hne : other ≠ stream := fun hsame => h (congrArg some hsame)
      simp only [H2Protocol.handleEvent, H2Protocol.receiveData]
      split
      · exact hattempt (decide_eq_false hne)
      · refine ⟨?_, .refl stream p, List.forall_mem_nil _⟩
        exact (streamData_setStreamData p other _ stream).trans (if_neg (Ne.symm hne))
  | streamEnded other =>
      have hne : other ≠ stream := fun hsame => h (congrArg some hsame)
      simp only [H2Protocol.handleEvent]
      rcases hdata : p.streamData? other with _ | request
      · rw [streamComplete_unknown hdata]
        exact ⟨rfl, .refl stream p, List.forall_mem_nil _⟩
      · rcases haccepted : accepted lib.toRpc request with _ | ⟨method, params⟩
        · rw [streamComplete_refused hdata haccepted]
          exact ⟨rfl, .refl stream p, List.forall_mem_nil _⟩
        · rw [streamComplete_accepted hdata haccepted]
          refine ⟨rfl, .refl stream p, fun call hcall => ?_⟩
          rw [List.mem_singleton.mp hcall]
          exact hne
  | streamReset other => exact ⟨rfl, .refl stream p, List.forall_mem_nil _⟩
  | connectionTerminated => exact ⟨rfl, .refl stream p, List.forall_mem_nil _⟩
  | other => exact ⟨rfl, .refl stream p, List.forall_mem_nil _⟩

end Other

/-! ### A stream whose events were all handled -/

structure Handled (rpc : Rpc) (past : List H2Event) (p : H2Protocol) (calls : List Call)
    (stream : Nat) : Prop where
  streamData : p.streamData? stream = (requestOf past stream).filter supported
  answered : Answered p stream ↔ ∃ request ∈ requestOf past stream, supported request = false
  fresh : requestOf past stream = none → p.conn.any (touches stream) = false
  refused : ∀ request ∈ requestOf past stream, supported request = false →
    p.conn.any (endsStream stream) = true ∧
      (.resetStream stream ∈ p.conn ↔ past.any (isData stream) = true)
  called : ∀ call ∈ calls, call.stream = stream →
    ∃ request ∈ requestOf past stream, supported request = true
  waiting : .streamEnded stream ∉ past → ∀ call ∈ calls, call.stream ≠ stream
  served : .streamEnded stream ∈ past → ∃ request ∈ requestOf past stream,
    supported request = true → ∃ method params, accepted rpc request = some (method, params) ∧
      (calls.filter fun call => call.stream == stream).map
        (fun call => (call.method, call.params)) = [(method, params)]

section Streams

variable {lib : Libraries} {rpc : Rpc} {full past : List H2Event} {p q : H2Protocol}
  {calls : List Call} {e : H2Event} {stream : Nat}

/-- Calls that are not about the stream, and what changes nothing else. -/
theorem Handled.of_untouched (h : Handled rpc past p calls stream) (hconn : Untouched stream p q)
    (hdata : q.streamData? stream = p.streamData? stream) : Handled rpc past q calls stream where
  streamData := hdata.trans h.streamData
  answered := hconn.answered.trans h.answered
  fresh := by
    rw [hconn.any fun _ hc => hc]
    exact h.fresh
  refused := by
    rw [hconn.endsStream, hconn.reset]
    exact h.refused
  called := h.called
  waiting := h.waiting
  served := h.served

/-- An event that is about no stream, or about another one. -/
theorem Handled.snoc (h : Handled rpc past p calls stream)
    (hrequest : requestOf (past ++ [e]) stream = requestOf past stream)
    (hended : .streamEnded stream ∈ past ++ [e] ↔ .streamEnded stream ∈ past)
    (hdata : (past ++ [e]).any (isData stream) = past.any (isData stream)) {more : List Call}
    (hmore : ∀ call ∈ more, call.stream ≠ stream) :
    Handled rpc (past ++ [e]) p (calls ++ more) stream where
  streamData := hrequest ▸ h.streamData
  answered := hrequest ▸ h.answered
  fresh := hrequest ▸ h.fresh
  refused := by
    rw [hrequest, hdata]
    exact h.refused
  called := by
    intro call hcall hstream
    rw [hrequest]
    rcases List.mem_append.mp hcall with hold | hnew
    · exact h.called call hold hstream
    · exact absurd hstream (hmore call hnew)
  waiting := by
    intro hwaiting call hcall
    rcases List.mem_append.mp hcall with hold | hnew
    · exact h.waiting (fun hmem => hwaiting (hended.mpr hmem)) call hold
    · exact hmore call hnew
  served := by
    have hnone : (more.filter fun call => call.stream == stream) = [] := by
      apply List.filter_eq_nil_iff.mpr
      intro call hcall
      simpa using hmore call hcall
    rw [hended, hrequest, List.filter_append, hnone, List.append_nil]
    exact h.served

theorem Handled.other (h : Handled rpc past p calls stream) (hother : stream? e ≠ some stream) :
    Handled rpc (past ++ [e]) (p.handleEvent lib e).protocol
      (calls ++ (p.handleEvent lib e).calls) stream := by
  obtain ⟨hdata, hconn, hcalls⟩ := handleEvent_other lib p hother
  have hrequest : requestOf (past ++ [e]) stream = requestOf past stream :=
    (requestOf_snoc past e stream).trans (extend_other hother _)
  exact (h.of_untouched hconn hdata).snoc hrequest (ended_snoc_other hother past)
    (any_isData_snoc_other hother past) hcalls

theorem requestOf_fresh (h : ∀ e ∈ past, stream? e ≠ some stream) :
    requestOf past stream = none := by
  induction past using List.reverseRecOn with
  | nil => rfl
  | append_singleton past e ih =>
      have hlast := h e (List.mem_append_right _ (List.mem_singleton_self e))
      rw [requestOf_snoc, extend_other hlast]
      exact ih fun e' he' => h e' (List.mem_append_left _ he')

theorem any_isData_fresh (h : ∀ e ∈ past, stream? e ≠ some stream) :
    past.any (isData stream) = false := by
  apply List.any_eq_false.mpr
  intro e he hdata
  refine h e he ?_
  unfold isData at hdata
  split at hdata
  · exact congrArg some (of_decide_eq_true hdata)
  · cases hdata

/-- What was reported, while the package has met no protocol error. -/
structure Reports (p : H2Protocol) (full : List H2Event) : Prop where
  reported : reported p.conn = full
  noError : p.conn.any isProtocolError = false

/-- The package accepts a call on a stream that neither side has closed. -/
theorem Reports.accepts (h : Reports p full) (hstates : StreamStates lib.refuses)
    {headers : List (String × String)} (hrequest : .requestReceived headers stream ∈ full)
    (hterminated : .connectionTerminated ∉ full) (hreset : .streamReset stream ∉ full)
    (hclosed : .resetStream stream ∉ p.conn)
    (hended : .streamEnded stream ∉ full ∨ p.conn.any (endsStream stream) = false) :
    lib.refuses p.conn (.resetStream stream) = false ∧
      (p.conn.any (touches stream) = false →
        lib.refuses p.conn (.sendHeaders stream H2Protocol.responseHeaders true) = false) := by
  have hopened : (Http2Server.reported p.conn).any (isRequest stream) = true := by
    rw [h.reported]
    exact List.any_eq_true.mpr ⟨_, hrequest, decide_eq_true rfl⟩
  have hstill : terminated p.conn = false := by
    rw [terminated, h.reported, h.noError, Bool.or_false]
    simpa using hterminated
  have hopen : closed p.conn stream = false := by
    rw [closed, h.reported]
    have hboth : (full.contains (.streamEnded stream) &&
        p.conn.any (endsStream stream)) = false := by
      rcases hended with hremote | hlocal
      · simp [hremote]
      · rw [hlocal, Bool.and_false]
    rw [hboth]
    simp [hclosed, hreset]
  exact ⟨hstates.resetStream p.conn stream hopened hstill hopen,
    hstates.sendHeaders p.conn stream hopened hstill hopen⟩

/-- The package refuses every call on a stream that is closed. -/
theorem Reports.refuses (h : Reports p full) (hstates : StreamStates lib.refuses)
    (hclosed : .connectionTerminated ∈ full ∨ .streamReset stream ∈ full ∨
      .resetStream stream ∈ p.conn ∨
        .streamEnded stream ∈ full ∧ p.conn.any (endsStream stream) = true) :
    lib.refuses p.conn (.resetStream stream) = true ∧ ∀ headers endStream,
      lib.refuses p.conn (.sendHeaders stream headers endStream) = true := by
  have hrefused : (terminated p.conn || closed p.conn stream) = true := by
    rw [terminated, closed, h.reported]
    rcases hclosed with hgone | hreset | hreset | ⟨hremote, hlocal⟩
    · simp [hgone]
    · simp [hreset]
    · simp [hreset]
    · simp [hremote, hlocal]
  exact ⟨hstates.resetStream_refused p.conn stream hrefused,
    fun headers endStream => hstates.sendHeaders_refused p.conn stream headers endStream hrefused⟩

theorem Reports.continues (h : Reports p full) (hcontinues : Continues p q) :
    Reports q full := by
  obtain ⟨calls, hcalls, hq⟩ := hcontinues
  have hnone : Http2Server.reported calls = [] := by
    apply List.flatMap_eq_nil_iff.mpr
    intro c hc
    have houtbound := List.all_eq_true.mp hcalls c hc
    cases c <;> first | rfl | cases houtbound
  have hfine : calls.any isProtocolError = false := by
    apply List.any_eq_false.mpr
    intro c hc herror
    have houtbound := List.all_eq_true.mp hcalls c hc
    unfold isProtocolError at herror
    split at herror
    · cases houtbound
    · cases herror
  refine ⟨?_, by rw [hq, List.any_append, h.noError, hfine]; rfl⟩
  rw [← h.reported, hq, Http2Server.reported, List.flatMap_append]
  exact (congrArg _ hnone).trans (List.append_nil _)

theorem mem_of_requestOf {request : RequestData} (h : requestOf past stream = some request) :
    ∃ headers, .requestReceived headers stream ∈ past := by
  induction past using List.reverseRecOn generalizing request with
  | nil => cases h
  | append_singleton past e ih =>
      rw [requestOf_snoc] at h
      cases hrequest : requestOf past stream with
      | some old =>
          obtain ⟨headers, hheaders⟩ := ih hrequest
          exact ⟨headers, List.mem_append_left _ hheaders⟩
      | none =>
          rw [hrequest] at h
          unfold extend at h
          split at h
          · split_ifs at h with hsame
            subst hsame
            exact ⟨_, List.mem_append_right _ (List.mem_singleton_self _)⟩
          · split_ifs at h
            cases h
          · cases h
          · cases h
          · cases h
          · cases h

theorem requestReceived_supported {headers : List (String × String)}
    (hmethod : (H2Protocol.header? headers ":method").isSome = true)
    (hsupported : supported ⟨headers, []⟩ = true) :
    p.requestReceived lib headers stream = .next (p.setStreamData stream ⟨headers, []⟩) := by
  obtain ⟨method, hmethod⟩ := Option.isSome_iff_exists.mp hmethod
  have hin : method = "GET" ∨ method = "POST" := by simpa [supported, hmethod] using hsupported
  simp only [H2Protocol.requestReceived, hmethod, if_pos hin]

theorem requestReceived_unsupported {headers : List (String × String)}
    (hmethod : (H2Protocol.header? headers ":method").isSome = true)
    (hsupported : supported ⟨headers, []⟩ = false) :
    p.requestReceived lib headers stream = p.return405 lib stream := by
  obtain ⟨method, hmethod⟩ := Option.isSome_iff_exists.mp hmethod
  have hnot : ¬(method = "GET" ∨ method = "POST") := by
    simpa [supported, hmethod] using hsupported
  simp only [H2Protocol.requestReceived, hmethod, if_neg hnot]

/-- A stream that is new to the past. -/
theorem Handled.fresh_of_admissible (h : Handled rpc past p calls stream)
    {headers : List (String × String)} (hnext : Admissible past (.requestReceived headers stream)) :
    requestOf past stream = none ∧ past.any (isData stream) = false ∧
      (∀ call ∈ calls, call.stream ≠ stream) ∧ ¬ Answered p stream := by
  have hnone := requestOf_fresh hnext.1
  refine ⟨hnone, any_isData_fresh hnext.1, h.waiting fun hmem => hnext.1 _ hmem rfl, ?_⟩
  rw [h.answered, hnone]
  rintro ⟨request, hrequest, -⟩
  cases hrequest

theorem requestOf_requestReceived (past : List H2Event) (headers : List (String × String))
    (stream : Nat) :
    requestOf (past ++ [.requestReceived headers stream]) stream = some ⟨headers, []⟩ := by
  rw [requestOf_snoc]
  exact if_pos rfl

theorem Handled.requestReceived_supported (h : Handled rpc past p calls stream)
    {headers : List (String × String)} (hnext : Admissible past (.requestReceived headers stream))
    (hsupported : supported ⟨headers, []⟩ = true) :
    Handled rpc (past ++ [.requestReceived headers stream])
      (p.setStreamData stream ⟨headers, []⟩) calls stream := by
  obtain ⟨-, -, hcalls, hunanswered⟩ := h.fresh_of_admissible hnext
  have hnew := requestOf_requestReceived past headers stream
  refine ⟨?_, ?_, ?_, ?_, ?_, fun _ => hcalls, ?_⟩
  · rw [hnew, streamData_setStreamData, if_pos rfl, Option.filter_some_pos hsupported]
  · refine iff_of_false hunanswered ?_
    rintro ⟨request, hrequest, hfalse⟩
    cases hnew.symm.trans hrequest
    cases hsupported.symm.trans hfalse
  · intro hnone
    cases hnew.symm.trans hnone
  · intro request hrequest hfalse
    cases hnew.symm.trans hrequest
    cases hsupported.symm.trans hfalse
  · exact fun call hcall hstream => absurd hstream (hcalls call hcall)
  · intro hended
    refine absurd hended fun hmem => ?_
    rcases List.mem_append.mp hmem with hold | hlast
    · exact hnext.1 _ hold rfl
    · cases List.mem_singleton.mp hlast

theorem Handled.requestReceived_unsupported (h : Handled rpc past p calls stream)
    {headers : List (String × String)} (hnext : Admissible past (.requestReceived headers stream))
    (hsupported : supported ⟨headers, []⟩ = false) :
    Handled rpc (past ++ [.requestReceived headers stream])
      (p.call (.sendHeaders stream H2Protocol.responseHeaders true)) calls stream := by
  obtain ⟨hnone, hnoData, hcalls, -⟩ := h.fresh_of_admissible hnext
  have hnew := requestOf_requestReceived past headers stream
  have hdata := h.streamData
  rw [hnone] at hdata
  refine ⟨?_, ?_, ?_, ?_, ?_, fun _ => hcalls, ?_⟩
  · rw [hnew, streamData_call, hdata, Option.filter_some_neg (by simp [hsupported])]
    rfl
  · refine iff_of_true ?_ ⟨_, hnew, hsupported⟩
    exact ⟨_, List.mem_append_right _ (List.mem_singleton_self _), by
      simp [isAnswer, H2Protocol.responseHeaders]⟩
  · intro hnone'
    cases hnew.symm.trans hnone'
  · intro request _ _
    refine ⟨by simp [H2Protocol.call, endsStream], ?_⟩
    have hreset : .resetStream stream ∉ p.conn := by
      intro hmem
      exact List.any_eq_false.mp (h.fresh hnone) _ hmem (decide_eq_true rfl)
    simp [H2Protocol.call, hreset, hnoData, isData]
  · exact fun call hcall hstream => absurd hstream (hcalls call hcall)
  · intro hended
    refine absurd hended fun hmem => ?_
    rcases List.mem_append.mp hmem with hold | hlast
    · exact hnext.1 _ hold rfl
    · cases List.mem_singleton.mp hlast

theorem requestOf_dataReceived {request : RequestData} (h : requestOf past stream = some request)
    (data : Bytes) : requestOf (past ++ [.dataReceived data stream]) stream =
      some { request with data := request.data ++ data } := by
  simp [requestOf_snoc, extend, h]

theorem not_ended_dataReceived (h : .streamEnded stream ∉ past) (data : Bytes) :
    .streamEnded stream ∉ past ++ [.dataReceived data stream] := by
  simpa using h

theorem Handled.dataReceived_supported (h : Handled rpc past p calls stream) {data : Bytes}
    {request : RequestData} (hnext : Admissible past (.dataReceived data stream))
    (hrequest : requestOf past stream = some request) (hsupported : supported request = true) :
    Handled rpc (past ++ [.dataReceived data stream])
      (p.setStreamData stream { request with data := request.data ++ data }) calls stream := by
  have hnew := requestOf_dataReceived hrequest data
  have hsame : supported { request with data := request.data ++ data } = true := hsupported
  have hended := not_ended_dataReceived hnext.2.1 data
  refine ⟨?_, ?_, ?_, ?_, ?_, fun _ => h.waiting hnext.2.1, fun hmem => absurd hmem hended⟩
  · rw [hnew, streamData_setStreamData, if_pos rfl, Option.filter_some_pos hsame]
  · refine iff_of_false ?_ ?_
    · intro hanswered
      obtain ⟨request', hrequest', hfalse⟩ := h.answered.mp hanswered
      cases hrequest.symm.trans hrequest'
      cases hsupported.symm.trans hfalse
    · rintro ⟨request', hrequest', hfalse⟩
      cases hnew.symm.trans hrequest'
      cases hsame.symm.trans hfalse
  · intro hnone
    cases hnew.symm.trans hnone
  · intro request' hrequest' hfalse
    cases hnew.symm.trans hrequest'
    cases hsame.symm.trans hfalse
  · exact fun call hcall hstream => absurd hstream (h.waiting hnext.2.1 call hcall)

theorem Handled.dataReceived_unsupported (h : Handled rpc past p calls stream) {data : Bytes}
    {request : RequestData} (hnext : Admissible past (.dataReceived data stream))
    (hrequest : requestOf past stream = some request) (hsupported : supported request = false) :
    Handled rpc (past ++ [.dataReceived data stream]) (p.call (.resetStream stream)) calls
      stream := by
  have hnew := requestOf_dataReceived hrequest data
  have hsame : supported { request with data := request.data ++ data } = false := hsupported
  have hended := not_ended_dataReceived hnext.2.1 data
  refine ⟨?_, ?_, ?_, ?_, ?_, fun _ => h.waiting hnext.2.1, fun hmem => absurd hmem hended⟩
  · rw [streamData_call, h.streamData, hrequest, hnew,
      Option.filter_some_neg (by simp [hsupported]), Option.filter_some_neg (by simp [hsame])]
  · refine iff_of_true ?_ ⟨_, hnew, hsame⟩
    exact ⟨_, List.mem_append_right _ (List.mem_singleton_self _), decide_eq_true rfl⟩
  · intro hnone
    cases hnew.symm.trans hnone
  · intro _ _ _
    have hlocal := (h.refused request hrequest hsupported).1
    refine ⟨?_, ?_⟩
    · rw [H2Protocol.call, List.any_append, hlocal, Bool.true_or]
    · simp [H2Protocol.call, isData]
  · exact fun call hcall hstream => absurd hstream (h.waiting hnext.2.1 call hcall)

theorem requestOf_streamEnded :
    requestOf (past ++ [.streamEnded stream]) stream = requestOf past stream :=
  requestOf_snoc past _ stream

theorem Handled.streamEnded_unsupported (h : Handled rpc past p calls stream)
    {request : RequestData} (hnext : Admissible past (.streamEnded stream))
    (hrequest : requestOf past stream = some request) (hsupported : supported request = false) :
    Handled rpc (past ++ [.streamEnded stream]) p calls stream where
  streamData := h.streamData.trans (by rw [requestOf_streamEnded])
  answered := by
    rw [requestOf_streamEnded]
    exact h.answered
  fresh := by
    rw [requestOf_streamEnded]
    exact h.fresh
  refused := by
    rw [requestOf_streamEnded]
    simpa [isData] using h.refused
  called := by
    rw [requestOf_streamEnded]
    exact h.called
  waiting := fun _ => h.waiting hnext.2.1
  served := by
    intro _
    refine ⟨request, requestOf_streamEnded.trans hrequest, fun htrue => ?_⟩
    cases hsupported.symm.trans htrue

theorem Handled.streamEnded_accepted (h : Handled rpc past p calls stream)
    {request : RequestData} {method params : String}
    (hnext : Admissible past (.streamEnded stream))
    (hrequest : requestOf past stream = some request) (hsupported : supported request = true)
    (haccepted : accepted rpc request = some (method, params)) :
    Handled rpc (past ++ [.streamEnded stream])
      { p with serialNumber := p.serialNumber + 1 }
      (calls ++ [⟨stream, p.serialNumber, method, params⟩]) stream where
  streamData := h.streamData.trans (by rw [requestOf_streamEnded])
  answered := by
    rw [requestOf_streamEnded]
    exact h.answered
  fresh := by
    rw [requestOf_streamEnded]
    exact h.fresh
  refused := by
    rw [requestOf_streamEnded]
    simpa [isData] using h.refused
  called := fun _ _ _ => ⟨request, requestOf_streamEnded.trans hrequest, hsupported⟩
  waiting := fun hopen => absurd (List.mem_append_right _ (List.mem_singleton_self _)) hopen
  served := by
    intro _
    have hnone : (calls.filter fun call => call.stream == stream) = [] := by
      apply List.filter_eq_nil_iff.mpr
      intro call hcall
      simpa using h.waiting hnext.2.1 call hcall
    refine ⟨request, requestOf_streamEnded.trans hrequest, fun _ => ⟨method, params, haccepted, ?_⟩⟩
    simp [List.filter_append, hnone]

/-! ### One event -/

/-- The event is handled without an exception, as far as the stream is concerned. -/
def Survives (lib : Libraries) (past : List H2Event) (p : H2Protocol) (calls : List Call)
    (stream : Nat) (e : H2Event) : Prop :=
  (p.handleEvent lib e).raised = false ∧
    Handled lib.toRpc (past ++ [e]) (p.handleEvent lib e).protocol
      (calls ++ (p.handleEvent lib e).calls) stream

theorem survives_requestReceived (hstates : StreamStates lib.refuses) (hreports : Reports p full)
    (h : Handled lib.toRpc past p calls stream) {headers : List (String × String)}
    (hmem : .requestReceived headers stream ∈ full)
    (hnext : Admissible past (.requestReceived headers stream))
    (hclean : ¬ Harmful lib.toRpc full past (.requestReceived headers stream)) :
    Survives lib past p calls stream (.requestReceived headers stream) := by
  cases hsupported : supported ⟨headers, []⟩ with
  | true =>
      have heq : p.requestReceived lib headers stream =
          .next (p.setStreamData stream ⟨headers, []⟩) :=
        requestReceived_supported hnext.2 hsupported
      rw [Survives, H2Protocol.handleEvent, heq]
      refine ⟨rfl, ?_⟩
      rw [Handled.next, List.append_nil]
      exact h.requestReceived_supported hnext hsupported
  | false =>
      obtain ⟨hterminated, hreset⟩ := not_or.mp fun hor => hclean ⟨hsupported, hor⟩
      have hfresh := h.fresh (requestOf_fresh hnext.1)
      have hclosed : .resetStream stream ∉ p.conn := fun hc =>
        List.any_eq_false.mp hfresh _ hc (decide_eq_true rfl)
      have hends : p.conn.any (endsStream stream) = false := by
        apply List.any_eq_false.mpr
        intro c hc hends
        exact List.any_eq_false.mp hfresh c hc (touches_of_endsStream c hends)
      have haccepts := (hreports.accepts hstates hmem hterminated hreset hclosed (.inr hends)).2
        hfresh
      have heq : p.requestReceived lib headers stream = p.return405 lib stream :=
        requestReceived_unsupported hnext.2 hsupported
      rw [Survives, H2Protocol.handleEvent, heq, H2Protocol.return405, attempt_accepted haccepts]
      refine ⟨rfl, ?_⟩
      rw [Handled.next, List.append_nil]
      exact h.requestReceived_unsupported hnext hsupported

theorem Handled.streamData_supported (h : Handled rpc past p calls stream) {request : RequestData}
    (hrequest : requestOf past stream = some request) (hsupported : supported request = true) :
    p.streamData? stream = some request := by
  rw [h.streamData, hrequest, Option.filter_some_pos hsupported]

theorem Handled.streamData_unsupported (h : Handled rpc past p calls stream)
    {request : RequestData} (hrequest : requestOf past stream = some request)
    (hsupported : supported request = false) : p.streamData? stream = none := by
  rw [h.streamData, hrequest, Option.filter_some_neg (by simp [hsupported])]

theorem survives_dataReceived (hstates : StreamStates lib.refuses) (hreports : Reports p full)
    (hpast : past ⊆ full) (h : Handled lib.toRpc past p calls stream) {data : Bytes}
    (hnext : Admissible past (.dataReceived data stream))
    (hclean : ¬ Harmful lib.toRpc full past (.dataReceived data stream)) :
    Survives lib past p calls stream (.dataReceived data stream) := by
  obtain ⟨request, hrequest⟩ := Option.isSome_iff_exists.mp hnext.1
  cases hsupported : supported request with
  | true =>
      have hdata := h.streamData_supported hrequest hsupported
      simp only [Survives, H2Protocol.handleEvent, H2Protocol.receiveData, hdata]
      refine ⟨rfl, ?_⟩
      rw [Handled.next, List.append_nil]
      exact h.dataReceived_supported hnext hrequest hsupported
  | false =>
      have hdata := h.streamData_unsupported hrequest hsupported
      have hopen := fun hor => hclean ⟨request, hrequest, hsupported, hor⟩
      obtain ⟨hterminated, hopen⟩ := not_or.mp hopen
      obtain ⟨hreset, hopen⟩ := not_or.mp hopen
      obtain ⟨hended, hfirst⟩ := not_or.mp hopen
      obtain ⟨headers, hheaders⟩ := mem_of_requestOf hrequest
      have hclosed : .resetStream stream ∉ p.conn := fun hc =>
        hfirst ((h.refused request hrequest hsupported).2.mp hc)
      have haccepts := (hreports.accepts hstates (hpast hheaders) hterminated hreset hclosed
        (.inl hended)).1
      simp only [Survives, H2Protocol.handleEvent, H2Protocol.receiveData, hdata,
        attempt_accepted haccepts]
      refine ⟨rfl, ?_⟩
      rw [Handled.next, List.append_nil]
      exact h.dataReceived_unsupported hnext hrequest hsupported

theorem survives_streamEnded (h : Handled lib.toRpc past p calls stream)
    (hnext : Admissible past (.streamEnded stream))
    (hclean : ¬ Harmful lib.toRpc full past (.streamEnded stream)) :
    Survives lib past p calls stream (.streamEnded stream) := by
  obtain ⟨request, hrequest⟩ := Option.isSome_iff_exists.mp hnext.1
  rw [Survives, H2Protocol.handleEvent]
  cases hsupported : supported request with
  | true =>
      have hdata := h.streamData_supported hrequest hsupported
      cases haccepted : accepted lib.toRpc request with
      | none => exact absurd ⟨request, hrequest, hsupported, haccepted⟩ hclean
      | some call =>
          rw [streamComplete_accepted hdata haccepted]
          exact ⟨rfl, h.streamEnded_accepted hnext hrequest hsupported haccepted⟩
  | false =>
      rw [streamComplete_unknown (h.streamData_unsupported hrequest hsupported)]
      refine ⟨rfl, ?_⟩
      rw [Handled.next, List.append_nil]
      exact h.streamEnded_unsupported hnext hrequest hsupported

theorem survives_streamReset (h : Handled lib.toRpc past p calls stream) :
    Survives lib past p calls stream (.streamReset stream) := by
  refine ⟨rfl, h.snoc (requestOf_snoc past _ stream) ?_ ?_ (List.forall_mem_nil _)⟩
  · simp
  · simp [isData]

theorem survives_own (hstates : StreamStates lib.refuses) (hreports : Reports p full)
    (hpast : past ⊆ full) (he : e ∈ full) (h : Handled lib.toRpc past p calls stream)
    (hnext : Admissible past e) (hclean : ¬ Harmful lib.toRpc full past e)
    (hown : stream? e = some stream) : Survives lib past p calls stream e := by
  cases e with
  | requestReceived headers own =>
      cases hown
      exact survives_requestReceived hstates hreports h he hnext hclean
  | dataReceived data own =>
      cases hown
      exact survives_dataReceived hstates hreports hpast h hnext hclean
  | streamEnded own =>
      cases hown
      exact survives_streamEnded h hnext hclean
  | streamReset own =>
      cases hown
      exact survives_streamReset h
  | connectionTerminated => cases hown
  | other => cases hown

/-- An event that is not harmful raises nothing, whatever stream it is about. -/
theorem survives_of_clean (hstates : StreamStates lib.refuses) (hreports : Reports p full)
    (hpast : past ⊆ full) (he : e ∈ full) (h : ∀ stream, Handled lib.toRpc past p calls stream)
    (hnext : Admissible past e) (hclean : ¬ Harmful lib.toRpc full past e) (stream : Nat) :
    Survives lib past p calls stream e := by
  cases hown : stream? e with
  | some own =>
      have hraised := survives_own hstates hreports hpast he (h own) hnext hclean hown
      by_cases hsame : own = stream
      · exact hsame ▸ hraised
      · refine ⟨hraised.1, (h stream).other fun hstream => hsame ?_⟩
        exact Option.some_inj.mp (hown.symm.trans hstream)
  | none =>
      have hother : stream? e ≠ some stream := fun hstream => by cases hown.symm.trans hstream
      refine ⟨?_, (h stream).other hother⟩
      cases e with
      | connectionTerminated => rfl
      | other => rfl
      | requestReceived headers own => cases hown
      | dataReceived data own => cases hown
      | streamEnded own => cases hown
      | streamReset own => cases hown

/-- The handling of a harmful event raises, and changes nothing before it does. -/
theorem raise_of_harmful (hstates : StreamStates lib.refuses) (hreports : Reports p full)
    (h : ∀ stream, Handled lib.toRpc past p calls stream) (hnext : Admissible past e)
    (hharmful : Harmful lib.toRpc full past e) : p.handleEvent lib e = .raise p := by
  cases e with
  | requestReceived headers own =>
      obtain ⟨hsupported, hor⟩ := hharmful
      have hclosed : .connectionTerminated ∈ full ∨ .streamReset own ∈ full ∨
          .resetStream own ∈ p.conn ∨
            .streamEnded own ∈ full ∧ p.conn.any (endsStream own) = true := hor.imp_right .inl
      have hrefused := (hreports.refuses hstates hclosed).2
      rw [H2Protocol.handleEvent, requestReceived_unsupported hnext.2 hsupported,
        H2Protocol.return405, attempt_refused (hrefused _ _)]
  | dataReceived data own =>
      obtain ⟨request, hrequest, hsupported, hor⟩ := hharmful
      obtain ⟨hends, hreset⟩ := (h own).refused request hrequest hsupported
      have hclosed : .connectionTerminated ∈ full ∨ .streamReset own ∈ full ∨
          .resetStream own ∈ p.conn ∨
            .streamEnded own ∈ full ∧ p.conn.any (endsStream own) = true := by
        rcases hor with hgone | hreset' | hended | hsecond
        · exact .inl hgone
        · exact .inr (.inl hreset')
        · exact .inr (.inr (.inr ⟨hended, hends⟩))
        · exact .inr (.inr (.inl (hreset.mpr hsecond)))
      have hrefused := (hreports.refuses hstates hclosed).1
      have hdata := (h own).streamData_unsupported hrequest hsupported
      simp only [H2Protocol.handleEvent, H2Protocol.receiveData, hdata, attempt_refused hrefused]
  | streamEnded own =>
      obtain ⟨request, hrequest, hsupported, hnone⟩ := hharmful
      rw [H2Protocol.handleEvent,
        streamComplete_refused ((h own).streamData_supported hrequest hsupported) hnone]
  | streamReset own => cases hharmful
  | connectionTerminated => cases hharmful
  | other => cases hharmful

/-! ### A batch -/

theorem conforms_append {front back : List H2Event} :
    Conforms past (front ++ back) ↔ Conforms past front ∧ Conforms (past ++ front) back := by
  induction front generalizing past with
  | nil => simp [Conforms]
  | cons e front ih => simp [Conforms, ih, and_assoc]

theorem handleEvents_of_raise {events : List H2Event} (h : p.handleEvent lib e = .raise p) :
    p.handleEvents lib (e :: events) = ⟨p, [], false⟩ := by
  rw [H2Protocol.handleEvents, h]
  exact if_pos rfl

theorem handleEvents_of_handled {events : List H2Event} (h : (p.handleEvent lib e).raised = false) :
    (p.handleEvents lib (e :: events)).protocol =
        (((p.handleEvent lib e).protocol.call .dataToSend).handleEvents lib events).protocol ∧
      (p.handleEvents lib (e :: events)).calls = (p.handleEvent lib e).calls ++
        (((p.handleEvent lib e).protocol.call .dataToSend).handleEvents lib events).calls := by
  rw [H2Protocol.handleEvents]
  simp [h]

theorem Handled.call (h : Handled rpc past p calls stream) {c : H2Call}
    (hc : touches stream c = false) : Handled rpc past (p.call c) calls stream :=
  h.of_untouched (untouched_call hc) rfl

/-- The part of a batch in front of the first harmful event is handled. -/
theorem handleEvents_split (hstates : StreamStates lib.refuses) {events : List H2Event}
    (hreports : Reports p full) (hfull : full = past ++ events)
    (h : ∀ stream, Handled lib.toRpc past p calls stream) (hconforms : Conforms past events) :
    ∃ front back, events = front ++ back ∧
      (∀ stream, Handled lib.toRpc (past ++ front) (p.handleEvents lib events).protocol
        (calls ++ (p.handleEvents lib events).calls) stream) ∧
      (Spared lib.toRpc full past events ↔ Idle lib.toRpc full (past ++ front) back) ∧
      (Clean lib.toRpc full past events → back = []) := by
  induction events generalizing past p calls with
  | nil =>
      refine ⟨[], [], rfl, fun stream => ?_, iff_of_true trivial ?_, fun _ => rfl⟩
      · simpa [H2Protocol.handleEvents] using h stream
      · refine ⟨fun _ hmem => absurd hmem List.not_mem_nil, ?_⟩
        intro _ _ _ _ hrequest _
        rwa [hfull] at hrequest
  | cons e events ih =>
      by_cases hharmful : Harmful lib.toRpc full past e
      · refine ⟨[], e :: events, rfl, fun stream => ?_, ?_, fun hclean => absurd hharmful hclean.1⟩
        · rw [handleEvents_of_raise (raise_of_harmful hstates hreports h hconforms.1 hharmful)]
          simpa using h stream
        · rw [List.append_nil, Spared]
          simp [hharmful]
      · have hpast : past ⊆ full := hfull ▸ List.subset_append_left past _
        have he : e ∈ full := by simp [hfull]
        have hfirst := survives_of_clean hstates hreports hpast he h hconforms.1 hharmful
        obtain ⟨hprotocol, hcalls⟩ := @handleEvents_of_handled lib p e events (hfirst 0).1
        have hnext : Reports ((p.handleEvent lib e).protocol.call .dataToSend) full :=
          hreports.continues ((continues_handleEvent lib p e).call rfl)
        obtain ⟨front, back, rfl, hhandled, hspared, hclean⟩ := ih hnext (by simp [hfull])
          (fun stream => (hfirst stream).2.call rfl) hconforms.2
        refine ⟨e :: front, back, rfl, fun stream => ?_, ?_, fun hall => hclean hall.2⟩
        · rw [hprotocol, hcalls]
          simpa only [List.append_assoc, List.singleton_append] using hhandled stream
        · rw [List.append_assoc, List.singleton_append] at hspared
          rw [Spared, ← hspared]
          simp [hharmful]

end Streams

/-! ### Every run -/

/-- Everything that was reported is handled. -/
structure Known (rpc : Rpc) (c : Connection) : Prop where
  reports : Reports c.protocol c.reported
  handled : ∀ stream, Handled rpc c.reported c.protocol c.calls stream

section Runs

variable {lib : Libraries} {rpc : Rpc} {c d : Connection}

theorem known_start (rpc : Rpc) (transport : Nat) : Known rpc (.start transport) where
  reports := ⟨rfl, rfl⟩
  handled := by
    intro stream
    refine ⟨rfl, iff_of_false ?_ ?_, fun _ => rfl, ?_, ?_, ?_, ?_⟩
    · rw [answered_iff_any]
      exact Bool.false_ne_true
    · rintro ⟨request, hrequest, -⟩
      cases hrequest
    · rintro request ⟨⟩
    · exact fun call hcall => absurd hcall List.not_mem_nil
    · exact fun _ call hcall => absurd hcall List.not_mem_nil
    · exact fun hended => absurd hended List.not_mem_nil

theorem accepted_of_wellFormed {request : RequestData} {method params : String}
    (h : WellFormed rpc request method params) :
    supported request = true ∧ accepted rpc request = some (method, params) := by
  obtain ⟨path, hpath, hmethod⟩ := h.path
  have hdata : request.data ≠ [] := fun hnil => by simpa [hnil] using h.framed
  refine ⟨by simp [supported, h.post], ?_⟩
  have hfields := h.fields
  simp only [accepted, hpath, hmethod, hdata, h.parsed, hfields, Option.bind_eq_bind,
    Option.bind_some, if_false]

/-- A stream that ends in the events to come has not ended before. -/
theorem not_ended_of_conforms {past rest : List H2Event} {stream : Nat}
    (h : Conforms past rest) (hmem : .streamEnded stream ∈ rest) : .streamEnded stream ∉ past := by
  induction rest generalizing past with
  | nil => exact absurd hmem List.not_mem_nil
  | cons e rest ih =>
      rcases List.mem_cons.mp hmem with rfl | hrest
      · exact h.1.2.1
      · exact fun hpast => ih h.2 hrest (List.mem_append_left _ hpast)

/-- Where `back` was not handled, the property holds if and only if it is idle. -/
theorem fair_iff_idle {past back : List H2Event} (hreported : c.reported = past ++ back)
    (h : ∀ stream, Handled rpc past c.protocol c.calls stream) (hconforms : Conforms past back) :
    Fair rpc c ↔ Idle rpc c.reported past back := by
  have hnone (stream : Nat) (hended : .streamEnded stream ∈ back) : c.callsOf stream = [] := by
    apply List.filter_eq_nil_iff.mpr
    intro call hcall
    simpa using (h stream).waiting (not_ended_of_conforms hconforms hended) call hcall
  constructor
  · intro hfair
    constructor
    · intro stream hended
      apply (h stream).answered.mp
      apply hfair.rejected stream _ (hnone stream hended)
      rw [hreported]
      exact List.mem_append_right _ hended
    · intro stream request method params hrequest hwell
      have hdata := hfair.complete stream request method params hrequest hwell
      rw [(h stream).streamData] at hdata
      exact (Option.filter_eq_some_iff.mp hdata).1
  · intro hidle
    constructor
    · intro stream request method params hended hrequest hwell
      obtain ⟨hsupported, haccepted⟩ := accepted_of_wellFormed hwell
      have hknown := hidle.complete stream request method params hrequest hwell
      rw [hreported] at hended
      rcases List.mem_append.mp hended with hpast | hback
      · obtain ⟨request', hrequest', hserved⟩ := (h stream).served hpast
        obtain rfl := Option.some_inj.mp (hknown.symm.trans hrequest')
        obtain ⟨method', params', haccepted', hcalls⟩ := hserved hsupported
        cases haccepted.symm.trans haccepted'
        exact hcalls
      · obtain ⟨request', hrequest', hfalse⟩ := hidle.ended stream hback
        obtain rfl := Option.some_inj.mp (hknown.symm.trans hrequest')
        cases hsupported.symm.trans hfalse
    · intro stream request method params hrequest hwell
      rw [(h stream).streamData, hidle.complete stream request method params hrequest hwell,
        Option.filter_some_pos (accepted_of_wellFormed hwell).1]
    · intro stream hended hcalls
      rw [hreported] at hended
      apply (h stream).answered.mpr
      rcases List.mem_append.mp hended with hpast | hback
      · obtain ⟨request, hrequest, hserved⟩ := (h stream).served hpast
        refine ⟨request, hrequest, ?_⟩
        by_contra hsupported
        obtain ⟨method, params, -, hsome⟩ := hserved (Bool.eq_true_of_not_eq_false hsupported)
        rw [Connection.callsOf] at hcalls
        simp [hcalls] at hsome
      · exact hidle.ended stream hback

/-- The calls of a reply are about its stream only, and no error response. -/
theorem replyCalls_touch {stream other : Nat} {body : Bytes} {c : H2Call}
    (hc : c ∈ H2Protocol.replyCalls stream body) :
    (other ≠ stream → touches other c = false) ∧ isAnswer stream c = false ∧
      c ≠ .resetStream stream := by
  simp only [H2Protocol.replyCalls, List.mem_cons, List.not_mem_nil, or_false] at hc
  rcases hc with rfl | rfl | rfl | rfl
  all_goals simp [touches, isAnswer, H2Protocol.replyHeaders, List.lookup_cons, eq_comm]

/-- The steps of a connection. -/
theorem step_cases {e : Event} (h : step lib c e = some d) :
    (∃ stream body accepted, e = .replies stream body accepted ∧
      stream ∈ c.calls.map Call.stream ∧
        d = { c with protocol := c.protocol.replyUpTo stream body accepted }) ∨
    ∃ data events, e = .receives data events ∧ Conforms c.reported events ∧
      d = ⟨(((c.protocol.call (.receiveData data (some events))).call .dataToSend).handleEvents
          lib events).protocol,
        c.calls ++ (((c.protocol.call (.receiveData data (some events))).call
          .dataToSend).handleEvents lib events).calls, c.reported ++ events⟩ := by
  cases e with
  | replies stream body accepted =>
      simp only [step] at h
      split_ifs at h with hcalled
      exact .inl ⟨stream, body, accepted, rfl, hcalled, (Option.some_inj.mp h).symm⟩
  | receives data events =>
      simp only [step] at h
      split_ifs at h with hconforms
      exact .inr ⟨data, events, rfl, hconforms, (Option.some_inj.mp h).symm⟩

/-- A reply goes to a stream whose request was put on `writeQueue`. -/
theorem Known.replies (hc : Known rpc c) {stream : Nat} {body : Bytes} (accepted : Nat)
    (hcalled : stream ∈ c.calls.map Call.stream) :
    Known rpc { c with protocol := c.protocol.replyUpTo stream body accepted } := by
  have hmade {c : H2Call} (hmem : c ∈ (H2Protocol.replyCalls stream body).take accepted) :
      c ∈ H2Protocol.replyCalls stream body := List.mem_of_mem_take hmem
  have hsupported : ∃ request ∈ requestOf c.reported stream, supported request = true := by
    obtain ⟨call, hcall, hstream⟩ := List.mem_map.mp hcalled
    exact (hc.handled stream).called call hcall hstream
  obtain ⟨request, hrequest, hsupported⟩ := hsupported
  constructor
  · exact hc.reports.continues (continues_replyUpTo c.protocol stream body accepted)
  · intro other
    rw [H2Protocol.replyUpTo, foldl_call]
    by_cases hother : other = stream
    · subst hother
      have h := hc.handled other
      refine ⟨h.streamData, ?_, ?_, ?_, h.called, h.waiting, h.served⟩
      · rw [← h.answered, answered_iff_any, answered_iff_any, List.any_append]
        have hnone : ((H2Protocol.replyCalls other body).take accepted).any (isAnswer other) =
            false := by
          apply List.any_eq_false.mpr
          intro c hmem
          simp [(@replyCalls_touch other other body c (hmade hmem)).2.1]
        rw [hnone, Bool.or_false]
      · intro hnone
        cases hrequest.symm.trans hnone
      · intro request' hrequest' hfalse
        cases hrequest.symm.trans hrequest'
        cases hsupported.symm.trans hfalse
    · refine (hc.handled other).of_untouched ⟨_, ?_, rfl⟩ rfl
      apply List.any_eq_false.mpr
      intro c hmem
      simp [(replyCalls_touch (hmade hmem)).1 hother]

/-- What is reported, and handled, when a batch is received. -/
theorem Known.receives (hc : Known rpc c) (data : Bytes) (events : List H2Event) :
    Reports ((c.protocol.call (.receiveData data (some events))).call .dataToSend)
        (c.reported ++ events) ∧
      ∀ stream, Handled rpc c.reported
        ((c.protocol.call (.receiveData data (some events))).call .dataToSend) c.calls stream := by
  refine ⟨⟨?_, ?_⟩, fun stream => ((hc.handled stream).call rfl).call rfl⟩
  · have hold := hc.reports.reported
    rw [Http2Server.reported] at hold
    simp [H2Protocol.call, Http2Server.reported, hold]
  · simp [H2Protocol.call, hc.reports.noError, isProtocolError]

theorem step_known (hstates : StreamStates lib.refuses) (hc : Known lib.toRpc c) {e : Event}
    (hclean : AllClean lib c e) (h : step lib c e = some d) : Known lib.toRpc d := by
  rcases step_cases h with ⟨stream, body, accepted, rfl, hcalled, rfl⟩ |
    ⟨data, events, rfl, hconforms, rfl⟩
  · exact hc.replies accepted hcalled
  · obtain ⟨hreports, hhandled⟩ := hc.receives data events
    obtain ⟨front, back, rfl, hfront, -, hall⟩ := handleEvents_split hstates hreports rfl hhandled
      hconforms
    obtain rfl := hall hclean
    rw [List.append_nil] at *
    exact ⟨hreports.continues (continues_handleEvents lib _ _), hfront⟩

theorem fair_of_known (hc : Known rpc c) : Fair rpc c := by
  apply (fair_iff_idle (List.append_nil _).symm hc.handled trivial).mpr
  exact ⟨fun _ hmem => absurd hmem List.not_mem_nil, fun _ _ _ _ hrequest _ => hrequest⟩

theorem fair_iff_of_step (hstates : StreamStates lib.refuses) (hc : Known lib.toRpc c) {e : Event}
    (h : step lib c e = some d) : AllSpared lib c e ↔ Fair lib.toRpc d := by
  rcases step_cases h with ⟨stream, body, accepted, rfl, hcalled, rfl⟩ |
    ⟨data, events, rfl, hconforms, rfl⟩
  · exact iff_of_true trivial (fair_of_known (hc.replies accepted hcalled))
  · obtain ⟨hreports, hhandled⟩ := hc.receives data events
    obtain ⟨front, back, rfl, hfront, hspared, -⟩ := handleEvents_split hstates hreports rfl
      hhandled hconforms
    rw [AllSpared, hspared]
    apply Iff.symm
    exact fair_iff_idle (List.append_assoc _ _ _).symm hfront (conforms_append.mp hconforms).2

end Runs

/-- While no event of a batch was harmful the streams have not harmed each other;
and they do not in the next batch if and only if its first harmful event and what
follows matter to nobody. -/
theorem fair_iff_spared (lib : Libraries) (hstates : StreamStates lib.refuses) (transport : Nat)
    {es : List Event} {c : Connection}
    (hrun : runWithin (step lib) (AllClean lib) (.start transport) es = some c) :
    Fair lib.toRpc c ∧
      ∀ e d, step lib c e = some d → (AllSpared lib c e ↔ Fair lib.toRpc d) := by
  have hc : Known lib.toRpc c := by
    refine (reachable_of_runWithin hrun).invariant (known_start lib.toRpc transport) ?_
    exact fun s e t hs hclean h => step_known hstates hs hclean h
  exact ⟨fair_of_known hc, fun e d h => fair_iff_of_step hstates hc h⟩

/-! ### Two streams in one batch -/

def interleaved : List H2Event :=
  [.requestReceived isSyncedHeaders 1, .dataReceived [0, 0] 1, .requestReceived isSyncedHeaders 3,
    .dataReceived [0, 0, 0] 1, .streamEnded 1, .dataReceived [0, 0, 0, 0, 0] 3, .streamEnded 3]

/-- The first stream ends without a body. -/
def emptyFirst : List H2Event :=
  [.requestReceived isSyncedHeaders 1, .requestReceived isSyncedHeaders 3,
    .dataReceived [0, 0, 0, 0, 0] 3, .streamEnded 1, .streamEnded 3]

theorem wellFormed_isSynced :
    WellFormed bridge.toRpc ⟨isSyncedHeaders, [0, 0, 0, 0, 0]⟩ "IsSynced" "{}" where
  post := by decide
  path := ⟨"/ElectrumBridge/IsSynced", by decide, by decide⟩
  framed := by decide
  parsed := rfl
  fields := by decide

/-- The data on the first stream, which the response has closed, cannot be refused
by a reset. -/
def putFirst : List H2Event :=
  [.requestReceived [(":method", "PUT"), (":path", "/")] 1, .dataReceived [0] 1, .streamEnded 1,
    .requestReceived isSyncedHeaders 3, .dataReceived [0, 0, 0, 0, 0] 3, .streamEnded 3]

example : (step bridge (.start 0) (.receives [] putFirst)).map (fun c => c.calls) = some [] := by
  decide

theorem fair_interleaved : ∃ c,
    runWithin (step bridge) (AllClean bridge) (.start 0)
      [.receives [] interleaved, .replies 3 [] 4] = some c ∧
    c.calls = [⟨1, 1, "IsSynced", "{}"⟩, ⟨3, 2, "IsSynced", "{}"⟩] ∧ Fair bridge.toRpc c ∧
      ∀ e d, step bridge c e = some d → (AllSpared bridge c e ↔ Fair bridge.toRpc d) := by
  have hcalls : (runWithin (step bridge) (AllClean bridge) (.start 0)
      [.receives [] interleaved, .replies 3 [] 4]).map (fun c => c.calls) =
        some [⟨1, 1, "IsSynced", "{}"⟩, ⟨3, 2, "IsSynced", "{}"⟩] := by
    decide
  obtain ⟨c, hrun, hc⟩ := Option.map_eq_some_iff.mp hcalls
  exact ⟨c, hrun, hc, fair_iff_spared bridge streamStates_refusesClosed 0 hrun⟩

/-- The well-formed request of the other stream is not put on `writeQueue`. -/
theorem not_fair_emptyFirst :
    ∃ c, run (step bridge) (.start 0) [.receives [] emptyFirst] = some c ∧
      ¬ Fair bridge.toRpc c := by
  have hcalls : (run (step bridge) (.start 0) [.receives [] emptyFirst]).map
      (fun c => (c.calls, c.reported)) = some ([], emptyFirst) := by
    decide
  obtain ⟨c, hrun, hc⟩ := Option.map_eq_some_iff.mp hcalls
  obtain ⟨hnone, hreported⟩ := Prod.mk.inj hc
  have hended : .streamEnded 3 ∈ c.reported := by
    rw [hreported]
    decide
  have hrequest : requestOf c.reported 3 = some ⟨isSyncedHeaders, [0, 0, 0, 0, 0]⟩ := by
    rw [hreported]
    rfl
  refine ⟨c, hrun, fun hfair => ?_⟩
  have honce := hfair.once 3 _ _ _ hended hrequest wellFormed_isSynced
  rw [Connection.callsOf, hnone] at honce
  cases honce

end ElectrumLightning.StreamBatches
