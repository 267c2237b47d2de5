import ElectrumLightning.ByteStrings
import ElectrumLightning.LabelledRuns
import Mathlib.Logic.Function.Basic

/-!
The commands of the lncli endpoint. A child writes to its pipes and exits, and
the handler reads them only after the child has exited.
-/

namespace ElectrumLightning.PipedChild

open ElectrumLightning.ByteStrings
open ElectrumLightning.LabelledRuns

inductive Fd where
  | stdout
  | stderr
deriving DecidableEq

/-- What a child writes, byte by byte, and the code with which it exits. -/
structure Command where
  output : List (Fd × UInt8)
  returncode : Int

def written (fd : Fd) (output : List (Fd × UInt8)) : Bytes :=
  (output.filter fun write => write.1 = fd).map Prod.snd

inductive Response where
  | body (tar : Bytes)
  | serverError
  | result (stdout stderr : String) (returncode : Int)
  | timeout
  | raised
deriving DecidableEq

/-- How far a handler is. -/
inductive Parent where
  | waits
  | readsStdout
  | readsStderr (stdout : String)
  | responds (response : Response)
deriving DecidableEq

/-- `decode("ascii")`. -/
def decodeAscii (bytes : Bytes) : Option String :=
  if bytes.all (· < 128) then some (String.ofList (bytes.map fun b => Char.ofNat b.toNat)) else none

/-- `handleGet`, with what it read from the standard output. -/
def handleGet (tar : Bytes) : Parent := .responds (.body tar)

/-- `handlePost`, with what it read from the standard output. -/
def handlePost (stdout : Bytes) : Parent :=
  match decodeAscii stdout with
  | some stdout => .readsStderr stdout
  | none => .responds .raised

/-- `handlePost`, with what it read from the standard error as well. -/
def handlePostStderr (returncode : Int) (stdout : String) (stderr : Bytes) : Parent :=
  match decodeAscii stderr with
  | some stderr => .responds (.result stdout stderr returncode)
  | none => .responds .raised

inductive Route where
  | get
  | post
deriving DecidableEq

def Route.handle : Route → Bytes → Parent
  | .get => handleGet
  | .post => handlePost

def Route.onTimeout : Route → Response
  | .get => .serverError
  | .post => .timeout

/-- The child, with the writes that are left, and the handler. `unread` are the
bytes that a pipe and the reader at its end hold. -/
structure State where
  left : List (Fd × UInt8)
  unread : Fd → Bytes
  exited : Bool
  parent : Parent

def State.start (command : Command) : State := ⟨command.output, fun _ => [], false, .waits⟩

def State.read (s : State) (fd : Fd) (parent : Parent) : State :=
  { s with unread := Function.update s.unread fd [], parent := parent }

inductive Event where
  | writes
  | exits
  | proceeds
  | timesOut
deriving DecidableEq

def step (route : Route) (capacity : Fd → Nat) (returncode : Int) (s : State) :
    Event → Option State
  | .writes =>
      match s.left with
      | [] => none
      | (fd, byte) :: left =>
          if (s.unread fd).length < capacity fd then
            some { s with
              left := left
              unread := Function.update s.unread fd (s.unread fd ++ [byte]) }
          else none
  | .exits => if s.left = [] ∧ s.exited = false then some { s with exited := true } else none
  | .proceeds =>
      match s.parent with
      | .waits => if s.exited = true then some { s with parent := .readsStdout } else none
      | .readsStdout => some (s.read .stdout (route.handle (s.unread .stdout)))
      | .readsStderr stdout =>
          some (s.read .stderr (handlePostStderr returncode stdout (s.unread .stderr)))
      | .responds _ => none
  | .timesOut =>
      match s.parent with
      | .waits => some { s with parent := .responds route.onTimeout }
      | _ => none

def InTime (_ : State) (e : Event) : Prop := e ≠ .timesOut

instance : DecidableRel InTime := fun _ e => inferInstanceAs (Decidable (e ≠ .timesOut))

/-- A text is made of the given bytes, one for each character. -/
def IsText (text : String) (bytes : Bytes) : Prop :=
  text.toList.map Char.toNat = bytes.map UInt8.toNat

/-- The response has exactly what the child has written. -/
def Complete (route : Route) (command : Command) : Response → Prop
  | .body tar => route = .get ∧ tar = written .stdout command.output
  | .result stdout stderr returncode =>
      route = .post ∧ IsText stdout (written .stdout command.output) ∧
        IsText stderr (written .stderr command.output) ∧ returncode = command.returncode
  | .serverError | .timeout | .raised => False

/-- Each pipe holds all that is written to it, and `handlePost` gets text. -/
def Fits (route : Route) (capacity : Fd → Nat) (command : Command) : Prop :=
  (∀ fd, (written fd command.output).length ≤ capacity fd) ∧
    (route = .post → ∀ write ∈ command.output, write.2 < 128)

theorem written_append (fd : Fd) (output more : List (Fd × UInt8)) :
    written fd (output ++ more) = written fd output ++ written fd more := by
  simp [written]

theorem written_singleton (fd other : Fd) (byte : UInt8) :
    written fd [(other, byte)] = if fd = other then [byte] else [] := by
  by_cases h : fd = other <;> simp [written, eq_comm, h]

section Steps

variable {route : Route} {capacity : Fd → Nat} {returncode : Int} {s t : State}

/-- The steps of the child and of the handler. -/
theorem step_cases {e : Event} (h : step route capacity returncode s e = some t) :
    (∃ fd byte left, e = .writes ∧ s.left = (fd, byte) :: left ∧
      (s.unread fd).length < capacity fd ∧
      t = { s with left := left, unread := Function.update s.unread fd (s.unread fd ++ [byte]) }) ∨
    (e = .exits ∧ s.left = [] ∧ s.exited = false ∧ t = { s with exited := true }) ∨
    (e = .proceeds ∧ s.parent = .waits ∧ s.exited = true ∧ t = { s with parent := .readsStdout }) ∨
    (e = .proceeds ∧ s.parent = .readsStdout ∧
      t = s.read .stdout (route.handle (s.unread .stdout))) ∨
    (∃ stdout, e = .proceeds ∧ s.parent = .readsStderr stdout ∧
      t = s.read .stderr (handlePostStderr returncode stdout (s.unread .stderr))) ∨
    (e = .timesOut ∧ s.parent = .waits ∧ t = { s with parent := .responds route.onTimeout }) := by
  cases e with
  | writes =>
      simp only [step] at h
      split at h
      · cases h
      · rename_i fd byte left hleft
        split_ifs at h with hroom
        exact .inl ⟨fd, byte, left, rfl, hleft, hroom, (Option.some_inj.mp h).symm⟩
  | exits =>
      simp only [step] at h
      split_ifs at h with hdone
      exact .inr (.inl ⟨rfl, hdone.1, hdone.2, (Option.some_inj.mp h).symm⟩)
  | proceeds =>
      simp only [step] at h
      split at h
      · rename_i hwaits
        split_ifs at h with hexited
        exact .inr (.inr (.inl ⟨rfl, hwaits, hexited, (Option.some_inj.mp h).symm⟩))
      · rename_i hreads
        exact .inr (.inr (.inr (.inl ⟨rfl, hreads, (Option.some_inj.mp h).symm⟩)))
      · rename_i stdout hreads
        exact .inr (.inr (.inr (.inr (.inl ⟨stdout, rfl, hreads, (Option.some_inj.mp h).symm⟩))))
      · cases h
  | timesOut =>
      simp only [step] at h
      split at h
      · rename_i hwaits
        exact .inr (.inr (.inr (.inr (.inr ⟨rfl, hwaits, (Option.some_inj.mp h).symm⟩))))
      · cases h

end Steps

/-! ### What has been written, and where it is -/

/-- The response to a command. -/
def answer : Route → Command → Response
  | .get, command => .body (written .stdout command.output)
  | .post, command =>
      match decodeAscii (written .stdout command.output),
        decodeAscii (written .stderr command.output) with
      | some stdout, some stderr => .result stdout stderr command.returncode
      | _, _ => .raised

/-- The pipes hold what was written and not read yet. -/
def Piped (route : Route) (command : Command) (s : State) : Prop :=
  match s.parent with
  | .waits => ∃ past, command.output = past ++ s.left ∧ ∀ fd, s.unread fd = written fd past
  | .readsStdout => s.exited = true ∧ ∀ fd, s.unread fd = written fd command.output
  | .readsStderr stdout => s.exited = true ∧ route = .post ∧
      decodeAscii (written .stdout command.output) = some stdout ∧
        s.unread .stderr = written .stderr command.output
  | .responds response => s.exited = true ∧ response = answer route command

/-- What holds on the way. A child that has exited has had room for all of its
output. -/
structure Consistent (route : Route) (capacity : Fd → Nat) (command : Command) (s : State) :
    Prop where
  finished : s.exited = true → s.left = [] ∧ ∀ fd, (written fd command.output).length ≤ capacity fd
  bounded : ∀ fd, (s.unread fd).length ≤ capacity fd
  piped : Piped route command s

section Runs

variable {route : Route} {capacity : Fd → Nat} {command : Command} {s t : State}

theorem consistent_start : Consistent route capacity command (.start command) :=
  ⟨nofun, fun _ => Nat.zero_le _, [], rfl, fun _ => rfl⟩

/-- As long as the child has not exited the handler waits. -/
theorem parent_of_unfinished (hs : Consistent route capacity command s) (hexited : s.exited ≠ true) :
    s.parent = .waits := by
  have hpiped := hs.piped
  unfold Piped at hpiped
  split at hpiped
  · rename_i hparent
    exact hparent
  · exact absurd hpiped.1 hexited
  · exact absurd hpiped.1 hexited
  · exact absurd hpiped.1 hexited

theorem piped_read_stdout (hexited : s.exited = true)
    (hunread : ∀ fd, s.unread fd = written fd command.output) :
    Piped route command (s.read .stdout (route.handle (s.unread .stdout))) := by
  have hstderr : Function.update s.unread .stdout [] .stderr = written .stderr command.output := by
    rw [Function.update_of_ne (by decide), hunread]
  rw [hunread]
  cases route with
  | get => exact ⟨hexited, rfl⟩
  | post =>
      simp only [Piped, State.read, Route.handle, handlePost]
      rcases hstdout : decodeAscii (written .stdout command.output) with _ | stdout
      · exact ⟨hexited, by simp [answer, hstdout]⟩
      · exact ⟨hexited, trivial, rfl, hstderr⟩

theorem piped_read_stderr {stdout : String} (hexited : s.exited = true)
    (hstdout : decodeAscii (written .stdout command.output) = some stdout)
    (hunread : s.unread .stderr = written .stderr command.output) :
    Piped .post command
      (s.read .stderr (handlePostStderr command.returncode stdout (s.unread .stderr))) := by
  rw [hunread]
  simp only [Piped, State.read, handlePostStderr]
  rcases hstderr : decodeAscii (written .stderr command.output) with _ | stderr
  · exact ⟨hexited, by simp [answer, hstdout, hstderr]⟩
  · exact ⟨hexited, by simp [answer, hstdout, hstderr]⟩

theorem step_bounded (hs : ∀ fd, (s.unread fd).length ≤ capacity fd) {e : Event} {returncode : Int}
    (h : step route capacity returncode s e = some t) (fd : Fd) :
    (t.unread fd).length ≤ capacity fd := by
  have hread : ∀ other, (Function.update s.unread other [] fd).length ≤ capacity fd := by
    intro other
    by_cases hother : fd = other
    · simp [hother]
    · simpa [Function.update_of_ne hother] using hs fd
  rcases step_cases h with ⟨other, byte, left, -, hleft, hroom, rfl⟩ | ⟨-, -, -, rfl⟩ |
    ⟨-, -, -, rfl⟩ | ⟨-, -, rfl⟩ | ⟨stdout, -, -, rfl⟩ | ⟨-, -, rfl⟩
  · by_cases hother : fd = other
    · subst hother
      simpa [Nat.succ_le_iff] using hroom
    · simpa [Function.update_of_ne hother] using hs fd
  · exact hs fd
  · exact hs fd
  · exact hread .stdout
  · exact hread .stderr
  · exact hs fd

theorem step_consistent (hs : Consistent route capacity command s) {e : Event} (he : InTime s e)
    (h : step route capacity command.returncode s e = some t) :
    Consistent route capacity command t := by
  have hbounded := step_bounded hs.bounded h
  rcases step_cases h with ⟨fd, byte, left, rfl, hleft, -, rfl⟩ | ⟨rfl, hleft, hexited, rfl⟩ |
    ⟨rfl, hparent, hexited, rfl⟩ | ⟨rfl, hparent, rfl⟩ | ⟨stdout, rfl, hparent, rfl⟩ | ⟨rfl, -⟩
  · have hrunning : s.exited ≠ true := fun hexited => by
      cases hleft.symm.trans (hs.finished hexited).1
    refine ⟨fun hexited => absurd hexited hrunning, hbounded, ?_⟩
    have hparent := parent_of_unfinished hs hrunning
    have hpiped := hs.piped
    simp only [Piped, hparent] at hpiped ⊢
    obtain ⟨past, hpast, hunread⟩ := hpiped
    refine ⟨past ++ [(fd, byte)], by simp [hpast, hleft], fun other => ?_⟩
    rw [written_append, written_singleton]
    by_cases hother : other = fd
    · subst hother
      simp [hunread]
    · simp [hother, hunread]
  · have hrunning : s.exited ≠ true := by simp [hexited]
    have hparent := parent_of_unfinished hs hrunning
    have hpiped := hs.piped
    simp only [Piped, hparent] at hpiped
    obtain ⟨past, hpast, hunread⟩ := hpiped
    refine ⟨fun _ => ⟨hleft, fun fd => ?_⟩, hbounded, ?_⟩
    · rw [hpast, hleft, List.append_nil, ← hunread]
      exact hs.bounded fd
    · simp only [Piped, hparent]
      exact ⟨past, hpast, hunread⟩
  · have hpiped := hs.piped
    refine ⟨hs.finished, hbounded, ?_⟩
    simp only [Piped, hparent] at hpiped ⊢
    obtain ⟨past, hpast, hunread⟩ := hpiped
    rw [(hs.finished hexited).1, List.append_nil] at hpast
    exact ⟨hexited, fun fd => hpast ▸ hunread fd⟩
  · have hpiped := hs.piped
    simp only [Piped, hparent] at hpiped
    exact ⟨hs.finished, hbounded, piped_read_stdout hpiped.1 hpiped.2⟩
  · have hpiped := hs.piped
    simp only [Piped, hparent] at hpiped
    obtain ⟨hexited, rfl, hstdout, hunread⟩ := hpiped
    exact ⟨hs.finished, hbounded, piped_read_stderr hexited hstdout hunread⟩
  · exact absurd rfl he

end Runs

end ElectrumLightning.PipedChild
