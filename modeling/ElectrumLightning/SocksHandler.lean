import ElectrumLightning.JsonText

/-!
The coroutine that serves one wallet connection, as a function of where it
is suspended and of what the awaited call does. The connection is read and
written by the coroutine itself; its effects on the queues of the port are
returned in the order in which it performs them.
-/

namespace ElectrumLightning.SocksHandler

open ElectrumLightning.ByteStrings
open ElectrumLightning.JsonText

universe u

variable {Req : Type u}

/-- Where the handler is suspended, with the local variables it still uses. -/
inductive HandlerState (Req : Type u) where
  | readingMagic
  | readingKey
  | awaitingPort (key : Bytes)
  | getting
  | draining (req : Req)
  | reading (req : Req) (data : Bytes)
  | returned
  | raised (held : Option Req)
deriving DecidableEq

inductive Exception where
  | timeoutError
  | connectionResetError
  | assertionError
deriving DecidableEq

/-- What the awaited call does. A read and a drain also tell whether the
reader is at the end of the file afterwards. -/
inductive Outcome (Req : Type u) where
  | bytes (chunk : Bytes) (atEof : Bool)
  | portPair
  | item (req : Req)
  | drained (atEof : Bool)
  | raises (e : Exception)
deriving DecidableEq

inductive Effect (Req : Type u) where
  | closeWriter
  | requestPort (key : Bytes)
  | write (req : Req)
  | putBack (req : Req)
  | putReply (req : Req) (data : Bytes)
deriving DecidableEq

def magic : Bytes := [0x4d, 0x41, 0x47, 0x49, 0x43]

def idKey : List Nat := [0x69, 0x64]

def hasId (recursionLimit : Nat) (req : Bytes) : Bool :=
  match loads recursionLimit req with
  | .ok v => (v.member? idKey).isSome
  | .error _ => false

/-- The head of the loop `while not reader.at_eof()`. -/
def awaitReply (req : Req) (data : Bytes) (atEof : Bool) :
    HandlerState Req × List (Effect Req) :=
  if atEof then (.getting, [.putBack req]) else (.reading req data, [])

/-- Run the handler from one await to the next. -/
def resume (recursionLimit : Nat) (withId : Req → Bool) :
    HandlerState Req → Outcome Req → Option (HandlerState Req × List (Effect Req))
  | .readingMagic, .bytes chunk _ =>
      if chunk = magic then some (.readingKey, []) else some (.returned, [.closeWriter])
  | .readingMagic, .raises _ => some (.raised none, [])
  | .readingKey, .bytes chunk _ => some (.awaitingPort chunk, [.requestPort chunk])
  | .readingKey, .raises _ => some (.raised none, [])
  | .awaitingPort _, .portPair => some (.getting, [])
  | .awaitingPort _, .raises _ => some (.raised none, [])
  | .getting, .item req => some (.draining req, [.write req])
  | .draining req, .drained atEof =>
      if withId req then some (awaitReply req [] atEof) else some (.getting, [])
  | .draining req, .raises _ => some (.returned, [.putBack req])
  | .reading req data, .bytes chunk atEof =>
      match loads recursionLimit (data ++ chunk) with
      | .ok _ => some (.getting, [.putReply req (data ++ chunk)])
      | .error .valueError => some (awaitReply req (data ++ chunk) atEof)
      -- not a ValueError, so nothing around the call catches it
      | .error .recursionError => some (.raised (some req), [])
  | .reading req _, .raises .timeoutError => some (.getting, [.putBack req])
  | .reading req _, .raises _ => some (.raised (some req), [])
  | _, _ => none

def HandlerState.held : HandlerState Req → List Req
  | .draining req => [req]
  | .reading req _ => [req]
  | _ => []

/-- The request that an exception took down with the handler. -/
def HandlerState.lost : HandlerState Req → List Req
  | .raised held => held.toList
  | _ => []

/-- The handler has found its queues and takes requests from `writeQueue`. -/
def HandlerState.serving : HandlerState Req → Bool
  | .getting | .draining _ | .reading _ _ => true
  | _ => false

def Outcome.taken : Outcome Req → List Req
  | .item req => [req]
  | _ => []

def Effect.returnedRequest : Effect Req → List Req
  | .putBack req => [req]
  | _ => []

def Effect.answeredRequest : Effect Req → List Req
  | .putReply req _ => [req]
  | _ => []

/-- What the handler can do from one await to the next. -/
inductive Resumes (recursionLimit : Nat) (withId : Req → Bool) :
    HandlerState Req → Outcome Req → HandlerState Req → List (Effect Req) → Prop where
  | greeted (atEof) : Resumes _ _ .readingMagic (.bytes magic atEof) .readingKey []
  | refused (chunk atEof) (hmagic : chunk ≠ magic) :
      Resumes _ _ .readingMagic (.bytes chunk atEof) .returned [.closeWriter]
  | magicFails (e) : Resumes _ _ .readingMagic (.raises e) (.raised none) []
  | identified (key atEof) :
      Resumes _ _ .readingKey (.bytes key atEof) (.awaitingPort key) [.requestPort key]
  | keyFails (e) : Resumes _ _ .readingKey (.raises e) (.raised none) []
  | connected (key) : Resumes _ _ (.awaitingPort key) .portPair .getting []
  | portFails (key e) : Resumes _ _ (.awaitingPort key) (.raises e) (.raised none) []
  | takes (req) : Resumes _ _ .getting (.item req) (.draining req) [.write req]
  | awaits (req) (hid : withId req = true) :
      Resumes _ _ (.draining req) (.drained false) (.reading req []) []
  | drainedAtEof (req) (hid : withId req = true) :
      Resumes _ _ (.draining req) (.drained true) .getting [.putBack req]
  | notifies (req atEof) (hid : withId req = false) :
      Resumes _ _ (.draining req) (.drained atEof) .getting []
  | drainFails (req e) : Resumes _ _ (.draining req) (.raises e) .returned [.putBack req]
  | answers (req data chunk atEof v) (hloads : loads recursionLimit (data ++ chunk) = .ok v) :
      Resumes _ _ (.reading req data) (.bytes chunk atEof) .getting
        [.putReply req (data ++ chunk)]
  | readsOn (req data chunk)
      (hloads : loads recursionLimit (data ++ chunk) = .error .valueError) :
      Resumes _ _ (.reading req data) (.bytes chunk false) (.reading req (data ++ chunk)) []
  | readAtEof (req data chunk)
      (hloads : loads recursionLimit (data ++ chunk) = .error .valueError) :
      Resumes _ _ (.reading req data) (.bytes chunk true) .getting [.putBack req]
  | nestsTooDeeply (req data chunk atEof)
      (hloads : loads recursionLimit (data ++ chunk) = .error .recursionError) :
      Resumes _ _ (.reading req data) (.bytes chunk atEof) (.raised (some req)) []
  | timesOut (req data) :
      Resumes _ _ (.reading req data) (.raises .timeoutError) .getting [.putBack req]
  | readFails (req data e) (htimeout : e ≠ .timeoutError) :
      Resumes _ _ (.reading req data) (.raises e) (.raised (some req)) []

theorem resumes_of_resume {recursionLimit : Nat} {withId : Req → Bool}
    {st st' : HandlerState Req} {o : Outcome Req} {effects : List (Effect Req)}
    (h : resume recursionLimit withId st o = some (st', effects)) :
    Resumes recursionLimit withId st o st' effects := by
  cases st <;> cases o <;> simp only [resume, reduceCtorEq] at h
  case readingMagic.bytes chunk atEof =>
      split at h
      · rename_i hmagic
        cases h
        subst hmagic
        exact .greeted atEof
      · rename_i hmagic
        cases h
        exact .refused chunk atEof hmagic
  case readingMagic.raises e =>
      cases h
      exact .magicFails e
  case readingKey.bytes key atEof =>
      cases h
      exact .identified key atEof
  case readingKey.raises e =>
      cases h
      exact .keyFails e
  case awaitingPort.portPair key =>
      cases h
      exact .connected key
  case awaitingPort.raises key e =>
      cases h
      exact .portFails key e
  case getting.item req =>
      cases h
      exact .takes req
  case draining.drained req atEof =>
      split at h
      · rename_i hid
        cases atEof <;> cases h
        · exact .awaits req hid
        · exact .drainedAtEof req hid
      · rename_i hid
        cases h
        exact .notifies req atEof (Bool.eq_false_iff.mpr hid)
  case draining.raises req e =>
      cases h
      exact .drainFails req e
  case reading.bytes req data chunk atEof =>
      split at h <;> rename_i hloads
      · cases h
        exact .answers req data chunk atEof _ hloads
      · cases atEof <;> cases h
        · exact .readsOn req data chunk hloads
        · exact .readAtEof req data chunk hloads
      · cases h
        exact .nestsTooDeeply req data chunk atEof hloads
  case reading.raises req data e =>
      cases e <;> cases h
      · exact .timesOut req data
      · exact .readFails req data _ (by decide)
      · exact .readFails req data _ (by decide)

/-- One segment of the handler accounts for every request with an id: what it
held or took is still held, put back, answered, or lost with an exception. -/
theorem resume_conserves {recursionLimit : Nat} {withId : Req → Bool}
    {st st' : HandlerState Req} {o : Outcome Req} {effects : List (Effect Req)}
    (h : resume recursionLimit withId st o = some (st', effects)) :
    (o.taken ++ st.held).filter withId =
      (st'.held ++ effects.flatMap Effect.returnedRequest ++
        effects.flatMap Effect.answeredRequest ++ st'.lost).filter withId := by
  cases resumes_of_resume h with
  | notifies req atEof hid => simp [Outcome.taken, HandlerState.held, HandlerState.lost, hid]
  | _ => rfl

end ElectrumLightning.SocksHandler
