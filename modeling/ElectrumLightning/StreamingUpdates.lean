import ElectrumLightning.JsonStreams
import ElectrumLightning.LabelledRuns
import Mathlib.Data.List.Forall2

/-!
The updates of a subscription and the requests of a node go to the wallet over
one queue. An update is put there as a line, a request as it is, and nothing but
the texts themselves tells where one ends and the next one starts.
-/

namespace ElectrumLightning.StreamingUpdates

open ElectrumLightning.ByteStrings
open ElectrumLightning.JsonText
open ElectrumLightning.LabelledRuns

/-- `str.encode("ascii")`, which raises outside of ASCII. -/
def encodeAscii (text : List Char) : Option Bytes :=
  if text.all fun c => c.toNat < 0x80 then some (text.map fun c => UInt8.ofNat c.toNat) else none

/-- `MessageToJson(invoice).replace("\n","").encode("ascii") + b"\n"` -/
def line (json : List Char) : Option Bytes :=
  (encodeAscii (json.filter fun c => c ≠ '\n')).map fun text => text ++ [0x0a]

/-- Where `receiveStreamingUpdates` is. An exception that is no `RpcError` ends
the task. -/
inductive Phase where
  | subscribing
  | receiving
  | sleeping
  | raised
deriving DecidableEq

inductive Event where
  | subscribes
  | receives (json : List Char)
  | ends
  | fails
  | wakes
  | request (text : Bytes)

/-- `items` is everything that has been put on the queue of the wallet. -/
structure Port where
  phase : Phase
  items : List Bytes

def Port.start : Port := ⟨.subscribing, []⟩

def step (p : Port) : Event → Option Port
  | .subscribes =>
      if p.phase = .subscribing then some { p with phase := .receiving } else none
  | .receives json =>
      if p.phase = .receiving then
        match line json with
        | some item => some { p with items := p.items ++ [item] }
        | none => some { p with phase := .raised }
      else none
  -- The loop subscribes again at once when the source is exhausted.
  | .ends => if p.phase = .receiving then some { p with phase := .subscribing } else none
  | .fails =>
      if p.phase = .subscribing ∨ p.phase = .receiving then some { p with phase := .sleeping }
      else none
  | .wakes => if p.phase = .sleeping then some { p with phase := .subscribing } else none
  | .request text => some { p with items := p.items ++ [text] }

/-! ### Lines -/

theorem ofNat_eq_newline_iff {c : Char} (h : c.toNat < 0x80) :
    UInt8.ofNat c.toNat = 0x0a ↔ c = '\n' := by
  constructor
  · intro heq
    have hvalue := congrArg UInt8.toNat heq
    rw [UInt8.toNat_ofNat_of_lt' (Nat.lt_trans h (by decide))] at hvalue
    exact Char.toNat_inj.mp hvalue
  · rintro rfl
    rfl

theorem encodeAscii_filter (json : List Char) :
    encodeAscii (json.filter fun c => c ≠ '\n') =
      (encodeAscii json).map fun text => text.filter fun b => !(b == 0x0a) := by
  unfold encodeAscii
  cases hall : json.all fun c => decide (c.toNat < 0x80) with
  | true =>
      have hascii : ∀ c ∈ json, c.toNat < 0x80 := fun c hc =>
        of_decide_eq_true (List.all_eq_true.mp hall c hc)
      have hkept : ((json.filter fun c => c ≠ '\n').all fun c => decide (c.toNat < 0x80)) = true :=
        List.all_eq_true.mpr fun c hc => decide_eq_true (hascii c (List.mem_filter.mp hc).1)
      rw [if_pos hkept, if_pos rfl, Option.map_some, List.filter_map]
      congr 2
      refine List.filter_congr fun c hc => ?_
      simp only [Function.comp_apply, ne_eq, decide_not, Bool.not_eq_eq_eq_not, Bool.not_not]
      rw [Bool.eq_iff_iff, decide_eq_true_iff, beq_iff_eq, ofNat_eq_newline_iff (hascii c hc)]
  | false =>
      obtain ⟨c, hc, hlarge⟩ := List.all_eq_false.mp hall
      have hne : c ≠ '\n' := by
        rintro rfl
        exact hlarge rfl
      have hdropped : ((json.filter fun c => c ≠ '\n').all fun c => decide (c.toNat < 0x80)) =
          false :=
        List.all_eq_false.mpr ⟨c, List.mem_filter.mpr ⟨hc, decide_eq_true hne⟩, hlarge⟩
      rw [hdropped]
      rfl

theorem line_eq (json : List Char) :
    line json =
      (encodeAscii json).map fun text => (text.filter fun b => !(b == 0x0a)) ++ [0x0a] := by
  rw [line, encodeAscii_filter, Option.map_map]
  rfl

theorem isBreak_newline (b : UInt8) (h : (b == 0x0a) = true) : isBreak b = true := by
  rw [beq_iff_eq.mp h]
  rfl

theorem framed_line {limit : Nat} {json : List Char} {text : Bytes} {v : Json}
    (hencode : encodeAscii json = some text) (h : ObjectText limit text v) :
    ∃ item, line json = some item ∧ Framed limit item v := by
  refine ⟨_, by rw [line_eq, hencode]; rfl, _, [0x0a], rfl, h.without_breaks isBreak_newline, ?_⟩
  rintro b hb
  rw [List.mem_singleton.mp hb]
  rfl

/-! ### Runs -/

/-- The JSON text that comes with an event. -/
def Event.texts : Event → List Bytes
  | .receives json => (encodeAscii json).toList
  | .request text => [text]
  | _ => []

def Event.items : Event → List Bytes
  | .receives json => (line json).toList
  | .request text => [text]
  | _ => []

theorem items_step {p q : Port} {e : Event} (h : step p e = some q) :
    q.items = p.items ++ e.items := by
  cases e with
  | subscribes | ends | fails | wakes =>
      dsimp only [step] at h
      split at h
      · cases h
        exact (List.append_nil _).symm
      · cases h
  | request text =>
      cases h
      rfl
  | receives json =>
      dsimp only [step] at h
      split at h
      · cases hline : line json with
        | some item =>
            rw [hline] at h
            cases h
            rw [Event.items, hline]
            rfl
        | none =>
            rw [hline] at h
            cases h
            rw [Event.items, hline]
            exact (List.append_nil _).symm
      · cases h

theorem items_run {p q : Port} {es : List Event} (h : run step p es = some q) :
    q.items = p.items ++ es.flatMap Event.items := by
  induction es generalizing p with
  | nil =>
      cases h
      rw [List.flatMap_nil, List.append_nil]
  | cons e es ih =>
      obtain ⟨r, hr, hrest⟩ := run_cons_iff.mp h
      rw [ih hrest, items_step hr, List.flatMap_cons, List.append_assoc]

theorem framed_items {limit : Nat} {e : Event}
    (h : ∀ text ∈ e.texts, ∃ v, ObjectText limit text v) :
    ∃ vs, List.Forall₂ (Framed limit) e.items vs ∧
      List.Forall₂ (fun text v => loads limit text = .ok v) e.texts vs := by
  cases e with
  | subscribes | ends | fails | wakes => exact ⟨[], .nil, .nil⟩
  | request text =>
      obtain ⟨v, hv⟩ := h text (List.mem_singleton_self text)
      refine ⟨[v], .cons ⟨text, [], ?_, hv, List.forall_mem_nil _⟩ .nil, .cons hv.value .nil⟩
      exact (List.append_nil text).symm
  | receives json =>
      simp only [Event.items, Event.texts] at h ⊢
      cases hencode : encodeAscii json with
      | none =>
          rw [line_eq, hencode]
          exact ⟨[], .nil, .nil⟩
      | some text =>
          obtain ⟨v, hv⟩ := h text (by rw [hencode]; exact List.mem_singleton_self text)
          obtain ⟨item, hline, hitem⟩ := framed_line hencode hv
          rw [hline]
          exact ⟨[v], .cons hitem .nil, .cons hv.value .nil⟩

theorem framed_flatMap {limit : Nat} {es : List Event}
    (h : ∀ text ∈ es.flatMap Event.texts, ∃ v, ObjectText limit text v) :
    ∃ vs, List.Forall₂ (Framed limit) (es.flatMap Event.items) vs ∧
      List.Forall₂ (fun text v => loads limit text = .ok v) (es.flatMap Event.texts) vs := by
  induction es with
  | nil => exact ⟨[], .nil, .nil⟩
  | cons e es ih =>
      rw [List.flatMap_cons, List.forall_mem_append] at h
      obtain ⟨first, hitems, htexts⟩ := framed_items h.1
      obtain ⟨rest, hitems', htexts'⟩ := ih h.2
      rw [List.flatMap_cons, List.flatMap_cons]
      exact ⟨first ++ rest, List.rel_append hitems hitems', List.rel_append htexts htexts'⟩

/-- However updates, failures of the subscription and requests follow each other,
one who reads what the wallet is sent byte by byte reads the values of the
messages and of the requests, each once and in order. -/
theorem run_read {limit : Nat} {p : Port} {es : List Event}
    (hrun : run step Port.start es = some p)
    (hobjects : ∀ text ∈ es.flatMap Event.texts, ∃ v, ObjectText limit text v) :
    ∃ vs, List.Forall₂ (fun text v => loads limit text = .ok v) (es.flatMap Event.texts) vs ∧
      ∀ n, (Splitter.read limit ⟨[], []⟩ (p.items.take n).flatten).values = vs.take n := by
  obtain ⟨vs, hitems, htexts⟩ := framed_flatMap hobjects
  refine ⟨vs, htexts, fun n => ?_⟩
  have hp : p.items = es.flatMap Event.items := items_run hrun
  rw [hp]
  obtain ⟨spaces, hread, -⟩ :=
    Splitter.read_flatten (List.forall_mem_nil _) (List.forall₂_take n hitems)
  rw [hread]
  rfl

/-- Two updates, with a failure and a request between them. -/
def interrupted : List Event :=
  [.subscribes, .receives ['{', '\n', ' ', '"', 'a', '"', ':', ' ', '1', '\n', '}'], .fails,
    .request [0x7b, 0x22, 0x69, 0x64, 0x22, 0x3a, 0x22, 0x30, 0x22, 0x7d], .wakes, .subscribes,
    .receives ['{', '\n', '}']]

theorem run_read_interrupted :
    ∃ p, run step Port.start interrupted = some p ∧ p.items.length = 3 ∧
      ∃ vs, List.Forall₂ (fun text v => loads 3 text = .ok v) (interrupted.flatMap Event.texts) vs ∧
        ∀ n, (Splitter.read 3 ⟨[], []⟩ (p.items.take n).flatten).values = vs.take n := by
  have hobjects : ∀ text ∈ interrupted.flatMap Event.texts, ∃ v, ObjectText 3 text v := by
    intro text htext
    have hcases : text = [0x7b, 0x0a, 0x20, 0x22, 0x61, 0x22, 0x3a, 0x20, 0x31, 0x0a, 0x7d] ∨
        text = [0x7b, 0x22, 0x69, 0x64, 0x22, 0x3a, 0x22, 0x30, 0x22, 0x7d] ∨
        text = [0x7b, 0x0a, 0x7d] := by
      simpa [interrupted, Event.texts, encodeAscii] using htext
    rcases hcases with rfl | rfl | rfl
    all_goals exact ⟨_, rfl, rfl, rfl⟩
  have hrun : run step Port.start interrupted = some _ := rfl
  exact ⟨_, hrun, rfl, run_read hrun hobjects⟩

end ElectrumLightning.StreamingUpdates
