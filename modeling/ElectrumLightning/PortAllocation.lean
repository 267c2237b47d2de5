import ElectrumLightning.HexText
import ElectrumLightning.LabelledRuns
import ElectrumLightning.OneToOneMaps

/-!
How the hub allocates the ports of a wallet. A call of `get` runs to its end or
to the first time that it waits for the certificate of the wallet's node; after
that any number of calls may be in progress.
-/

namespace ElectrumLightning.PortAllocation

open ElectrumLightning.ByteStrings
open ElectrumLightning.HexText
open ElectrumLightning.LabelledRuns
open ElectrumLightning.OneToOneMaps

/-- The services of a wallet: the port in `assoc`, the ports on which the
HTTP/2 server and the node listen, and the directory of the node. -/
structure Chain where
  assocPort : Int
  serverPort : Int
  peerport : Int
  rpcport : Int
  restport : Int
  lnddir : String
deriving DecidableEq

structure PortPair where
  electrumReverseHTTPPort : Int
  lndRPCPort : Int
  lnddir : String
deriving DecidableEq

def lnddir (socksKey : Bytes) : String := "/tmp/lnd_" ++ hexlify socksKey

/-- The new keys of `assoc`, and the services; or none, where an assertion
fails. The second assertion comes after `assoc` has been changed. -/
def makeChain (offset : Int) (lnddir : String) (assoc : List Int) : List Int × Option Chain :=
  if 8432 + offset ∈ assoc then (assoc, none)
  else
    (assoc ++ [8432 + offset],
      if offset / 5 < 9 then
        some {
          assocPort := 8432 + offset
          serverPort := 9090 + offset / 5
          peerport := 9735 + offset / 5
          rpcport := 10009 + offset / 5
          restport := 8081 + offset / 5
          lnddir := lnddir }
      else none)

/-- The supplier, with `KEY_TO_PORT` and the keys of `assoc`. `waiting` are the
calls that wait for a certificate, with the port that they have chosen.
`chains`, `subscribed`, `returned` and `raised` record what the calls did. -/
structure State where
  keyToPort : Map String Int
  keysToOffset : Map Bytes Int
  currentOffset : Int
  assoc : List Int
  waiting : List (Bytes × Int)
  chains : List (Bytes × Chain)
  subscribed : List Bytes
  returned : List (Bytes × PortPair)
  raised : List Bytes

def State.start (keyToPort : Map String Int) : State where
  keyToPort := keyToPort
  keysToOffset := ∅
  currentOffset := 0
  assoc := []
  waiting := []
  chains := []
  subscribed := []
  returned := []
  raised := []

/-- How a call goes on that waited for the certificate. -/
inductive Resumption where
  | notReady
  | fails
  | ready
deriving DecidableEq

inductive Event where
  | get (socksKey : Bytes)
  | resume (call : Nat) (resumption : Resumption)
deriving DecidableEq

def State.returnPortPair (s : State) (socksKey : Bytes) : State :=
  match s.keysToOffset.lookup socksKey with
  | none => { s with raised := s.raised ++ [socksKey] }
  | some offset =>
      { s with returned := s.returned ++
          [(socksKey, ⟨8432 + offset * 5, 10009 + offset, lnddir socksKey⟩)] }

/-- The cursor and the port that is chosen for a key: the saved one, or the
first one from the cursor on that is not taken. -/
def State.choosePort (s : State) (hexKey : String) : Option (Int × Int) :=
  match s.keyToPort.lookup hexKey with
  | some port => some (s.currentOffset, port)
  | none =>
      (skipTaken (values s.keyToPort) ((values s.keyToPort).length + 1) s.currentOffset).map
        fun offset => (offset, offset)

/-- What happens in `get` once a port is chosen, up to the wait. -/
def State.setUp (s : State) (socksKey : Bytes) (chosenPort : Int) : State :=
  let s := { s with keyToPort := s.keyToPort.insert (hexlify socksKey) chosenPort }
  match makeChain (chosenPort * 5) (lnddir socksKey) s.assoc with
  | (assoc, none) => { s with assoc := assoc, raised := s.raised ++ [socksKey] }
  | (assoc, some chain) =>
      { s with
        assoc := assoc
        keysToOffset := s.keysToOffset.insert socksKey chosenPort
        chains := s.chains ++ [(socksKey, chain)]
        waiting := s.waiting ++ [(socksKey, chosenPort)] }

/-- `get`, until it returns, raises or waits. -/
def State.get (s : State) (socksKey : Bytes) : Option State :=
  match s.keysToOffset.lookup socksKey with
  | some _ => some (s.returnPortPair socksKey)
  | none => do
      let (currentOffset, chosenPort) ← s.choosePort (hexlify socksKey)
      some ({ s with currentOffset := currentOffset }.setUp socksKey chosenPort)

/-- `get`, after a wait: the certificate is still missing, or it is read and
then the macaroon, which may fail. -/
def State.resume (s : State) (call : Nat) (socksKey : Bytes) : Resumption → State
  | .notReady => s
  | .fails => { s with waiting := s.waiting.eraseIdx call, raised := s.raised ++ [socksKey] }
  | .ready =>
      State.returnPortPair
        { s with
          waiting := s.waiting.eraseIdx call
          subscribed := s.subscribed ++ [socksKey] } socksKey

def step (s : State) : Event → Option State
  | .get socksKey => s.get socksKey
  | .resume call resumption =>
      (s.waiting[call]?).map fun (socksKey, _) => s.resume call socksKey resumption

end ElectrumLightning.PortAllocation
