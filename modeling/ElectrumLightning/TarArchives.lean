import ElectrumLightning.TarHeaders

/-!
The archiver: an archive is one header after the other, each followed by the
blocks of its file. The reader finds the next header only by the length that the
last one announces, whatever was written behind it.
-/

namespace ElectrumLightning.TarArchives

open ElectrumLightning.ByteStrings
open ElectrumLightning.FixedFields
open ElectrumLightning.TarHeaders

/-! ### Writing -/

/-- The blocks that are filled from the file, the last one with zeros at its end. -/
def fileBlocks (content : Bytes) : Bytes :=
  if content.isEmpty then []
  else
    content.take 512 ++ List.replicate (512 - content.length) 0 ++ fileBlocks (content.drop 512)
termination_by content.length
decreasing_by
  rename_i hne
  rw [List.isEmpty_iff, ← List.length_eq_zero_iff] at hne
  rw [List.length_drop]
  omega

/-- What the archiver finds out about users, groups and the arguments it is
given: the entries that a path stands for, where there is anything at it. -/
structure Host where
  getpwuid : UInt32 → Option Bytes
  getgrgid : UInt32 → Option Bytes
  lookup : Bytes → Option (List Entry)
  signedChar : Bool

section Writing

variable (host : Host)

/-- The blocks behind a header, if the file is one that is opened. -/
def dataOf (e : Entry) : Bytes :=
  if e.stat.format = sIFREG then fileBlocks (e.content.getD []) else []

/-- What is written for an entry. There is no result without a name for the user
and the group, where the program fails. -/
def cFile (e : Entry) : Option Bytes := do
  let pwName ← host.getpwuid e.stat.uid
  let grName ← host.getgrgid e.stat.gid
  return (header pwName grName e host.signedChar).val ++ dataOf e

/-- What is written for an argument, and if it was found. -/
def c (path : Bytes) : Option (Bytes × Bool) :=
  match host.lookup path with
  | none => some ([], false)
  | some es => (es.mapM (cFile host)).map fun bs => (bs.flatten, true)

def create : List Bytes → Option (Bytes × Bool)
  | [] => some ([], true)
  | path :: paths => do
    let (out, found) ← c host path
    if found then
      let (rest, found) ← create paths
      return (out ++ rest, found)
    else return (out, false)

/-- `main` for `c`: from the last argument to the first. -/
def mainCreate (paths : List Bytes) : Option (Bytes × Bool) := create host paths.reverse

end Writing

/-! ### Reading -/

/-- What the archiver asks of the system, and what it prints. -/
inductive Call where
  | puts (name : Bytes)
  | unlink (path : Bytes)
  | fopen (path : Bytes)
  | chmod (path : Bytes) (mode : UInt32)
  | link (target path : Bytes)
  | symlink (target path : Bytes)
  | mkdir (path : Bytes) (mode : UInt32)
  | mknod (path : Bytes) (mode : UInt32) (dev : UInt64)
  | chown (path : Bytes) (uid gid : UInt32)
  | fwrite (path : Bytes) (bytes : Bytes)
  | perror (path : Bytes)
  | chksumFailed (path : Bytes)
deriving DecidableEq

/-- The system: which of the calls succeed, after those before it. -/
structure System where
  succeeds : List Call → Call → Bool
  root : Bool
  signedChar : Bool

/-- `fread(b, END, 1, stdin)`: what is left of a block that ends too early stays. -/
def fread (b : Header) (input : Bytes) : Header × Bytes :=
  (b.write 0 (input.take 512), input.drop 512)

section Reading

variable (sys : System)

def mode (b : Header) : UInt32 := UInt32.ofNat (numberAt b Offset.mode)

/-- The call that makes what the header describes, if it is no file. -/
def makeCall (fname : Bytes) (b : Header) : Option Call :=
  if typeOf b = hardlink then some (.link (linkOf b) fname)
  else if typeOf b = symlink then some (.symlink (linkOf b) fname)
  else if typeOf b = directory then some (.mkdir fname (mode b))
  else if typeOf b = chardev ∨ typeOf b = blockdev then
    some (.mknod fname ((if typeOf b = chardev then sIFCHR else sIFBLK) ||| mode b)
      (gnuDevMakedev (UInt32.ofNat (numberAt b Offset.maj)) (UInt32.ofNat (numberAt b Offset.min))))
  else if typeOf b = fifo then some (.mknod fname (sIFIFO ||| mode b) 0)
  else none

/-- If it failed, if a file is open, and the calls so far. -/
def make (fname : Bytes) (b : Header) (calls : List Call) : Bool × Bool × List Call :=
  match makeCall fname b with
  | some call => (!sys.succeeds calls call, false, calls ++ [call])
  | none =>
    let opened := calls ++ [.fopen fname]
    if sys.succeeds calls (.fopen fname) then
      (!sys.succeeds opened (.chmod fname (mode b)), true, opened ++ [.chmod fname (mode b)])
    else (true, false, opened)

/-- The owner is changed by the superuser only, and after a success. -/
def own (fname : Bytes) (b : Header) (failed : Bool) (calls : List Call) : List Call :=
  let chown : Call :=
    .chown fname (UInt32.ofNat (numberAt b Offset.uid)) (UInt32.ofNat (numberAt b Offset.gid))
  if failed then calls ++ [.perror fname]
  else if sys.root then
    if sys.succeeds calls chown then calls ++ [chown] else calls ++ [chown, .perror fname]
  else calls

/-- The loop over the blocks of a file, which is written if it is open. -/
def copy (opened : Bool) (fname : Bytes) (l : Int) (b : Header) (calls : List Call)
    (input : Bytes) : List Call × Bytes :=
  if 0 < l then
    let (b, input) := fread b input
    let calls :=
      if opened then calls ++ [.fwrite fname (b.val.take (min l 512).toNat)] else calls
    copy opened fname (l - 512) b calls input
  else (calls, input)
termination_by l.toNat

def x (fname : Bytes) (l : Int) (b : Header) (calls : List Call) (input : Bytes) :
    List Call × Bytes :=
  let calls := calls ++ [.unlink fname]
  let (failed, opened, calls) := make sys fname b calls
  let calls := own sys fname b failed calls
  let calls := if Intact sys.signedChar b then calls else calls ++ [.chksumFailed fname]
  copy opened fname l b calls input

def drain (l : Int) (input : Bytes) : Bytes :=
  if 0 < l then drain (l - 512) (input.drop 512) else input
termination_by l.toNat

def t (fname : Bytes) (l : Int) (_b : Header) (calls : List Call) (input : Bytes) :
    List Call × Bytes :=
  (calls ++ [.puts fname], drain l input)

end Reading

def block (input : Bytes) (h : 512 ≤ input.length) : Header :=
  ⟨input.take 512, List.length_take_of_le h⟩

/-- `tar`: the loop over the headers, for any function that reads on. -/
def tarLoop (fn : Bytes → Int → Header → List Call → Bytes → List Call × Bytes) :
    Nat → List Call → Bytes → List Call
  | 0, calls, _ => calls
  | fuel + 1, calls, input =>
    if h : 512 ≤ input.length then
      if input.head? = some 0 then calls
      else
        let b := block input h
        let (calls, input) := fn (nameOf b) (lengthOf b) b calls (input.drop 512)
        tarLoop fn fuel calls input
    else calls

/-- Every turn of the loop takes a block, so it ends before the fuel does. -/
def tar (fn : Bytes → Int → Header → List Call → Bytes → List Call × Bytes) (input : Bytes) :
    List Call :=
  tarLoop fn input.length [] input

/-! ### Where the reader finds the headers -/

/-- The blocks that a length stands for. -/
def blockCount (l : Int) : Nat := ((l + 511) / 512).toNat

theorem blockCount_of_nonpos {l : Int} (h : l ≤ 0) : blockCount l = 0 := by
  unfold blockCount
  omega

theorem blockCount_of_pos {l : Int} (h : 0 < l) : blockCount l = blockCount (l - 512) + 1 := by
  unfold blockCount
  omega

theorem drain_eq_drop (l : Int) (input : Bytes) :
    drain l input = input.drop (512 * blockCount l) := by
  induction l, input using drain.induct with
  | case1 l input hpos ih =>
    rw [drain, if_pos hpos, ih, List.drop_drop, blockCount_of_pos hpos]
    congr 1
    omega
  | case2 l input hpos =>
    rw [drain, if_neg hpos, blockCount_of_nonpos (by omega), Nat.mul_zero, List.drop_zero]

theorem length_drain_le (l : Int) (input : Bytes) : (drain l input).length ≤ input.length := by
  rw [drain_eq_drop, List.length_drop]
  omega

/-- What the loop hands to its function: the headers, and what follows each. -/
def handed (input : Bytes) : List (Header × Bytes) :=
  if h : 512 ≤ input.length then
    if input.head? = some 0 then []
    else (block input h, input.drop 512) ::
      handed (drain (lengthOf (block input h)) (input.drop 512))
  else []
termination_by input.length
decreasing_by
  refine Nat.lt_of_le_of_lt (length_drain_le _ _) ?_
  rw [List.length_drop]
  omega

/-- The function reads as much as the header announces, and no more. -/
def Drains (fn : Bytes → Int → Header → List Call → Bytes → List Call × Bytes) : Prop :=
  ∀ fname l b calls input, (fn fname l b calls input).2 = drain l input

/-- A function that drains its input is called for the headers handed out, and
for nothing else. -/
theorem tarLoop_eq_foldl {fn : Bytes → Int → Header → List Call → Bytes → List Call × Bytes}
    (hfn : Drains fn) (fuel : Nat) (calls : List Call) (input : Bytes)
    (hfuel : input.length ≤ fuel) :
    tarLoop fn fuel calls input = (handed input).foldl (fun calls p =>
      (fn (nameOf p.1) (lengthOf p.1) p.1 calls p.2).1) calls := by
  induction fuel generalizing calls input with
  | zero =>
    rw [handed, dif_neg (by omega)]
    rfl
  | succ fuel ih =>
    rw [tarLoop, handed]
    rcases Nat.lt_or_ge input.length 512 with hshort | hblock
    · rw [dif_neg (by omega), dif_neg (by omega)]
      rfl
    · rw [dif_pos hblock, dif_pos hblock]
      by_cases hend : input.head? = some 0
      · rw [if_pos hend, if_pos hend]
        rfl
      · rw [if_neg hend, if_neg hend, List.foldl_cons]
        dsimp only
        rw [hfn]
        refine ih _ _ (Nat.le_trans (length_drain_le _ _) ?_)
        rw [List.length_drop]
        omega

theorem tar_eq_foldl {fn : Bytes → Int → Header → List Call → Bytes → List Call × Bytes}
    (hfn : Drains fn) (input : Bytes) :
    tar fn input = (handed input).foldl (fun calls p =>
      (fn (nameOf p.1) (lengthOf p.1) p.1 calls p.2).1) [] :=
  tarLoop_eq_foldl hfn _ _ _ (Nat.le_refl _)

theorem drains_t : Drains t := fun _ _ _ _ _ => rfl

theorem copy_of_pos (opened : Bool) (fname : Bytes) {l : Int} (b : Header) (calls : List Call)
    (input : Bytes) (h : 0 < l) :
    copy opened fname l b calls input =
      copy opened fname (l - 512) (b.write 0 (input.take 512))
        (if opened then
          calls ++ [.fwrite fname ((b.write 0 (input.take 512)).val.take (min l 512).toNat)]
        else calls)
        (input.drop 512) := by
  rw [copy, if_pos h]
  rfl

theorem copy_of_nonpos (opened : Bool) (fname : Bytes) {l : Int} (b : Header)
    (calls : List Call) (input : Bytes) (h : l ≤ 0) :
    copy opened fname l b calls input = (calls, input) := by
  rw [copy, if_neg (by omega)]

theorem copy_snd (opened : Bool) (fname : Bytes) (l : Int) (b : Header) (calls : List Call)
    (input : Bytes) : (copy opened fname l b calls input).2 = drain l input := by
  induction l, input using drain.induct generalizing b calls with
  | case1 l input hpos ih => rw [copy_of_pos _ _ _ _ _ hpos, drain, if_pos hpos, ih]
  | case2 l input hpos => rw [copy_of_nonpos _ _ _ _ _ (by omega), drain, if_neg hpos]

theorem drains_x (sys : System) : Drains (x sys) := by
  intro fname l b calls input
  exact copy_snd _ _ _ _ _ _

theorem block_append (b : Header) (rest : Bytes) (h : 512 ≤ (b.val ++ rest).length) :
    block (b.val ++ rest) h = b :=
  Subtype.ext (List.take_left' b.property)

/-- A header that does not begin with a NUL is handed out with all that follows,
and the next is looked for where its length says. -/
theorem handed_header {b : Header} (hfirst : b.val.head? ≠ some 0) (rest : Bytes) :
    handed (b.val ++ rest) =
      (b, rest) :: handed (rest.drop (512 * blockCount (lengthOf b))) := by
  have hb := b.property
  have hlength : 512 ≤ (b.val ++ rest).length := by
    rw [List.length_append]
    omega
  have hne : b.val ≠ [] := List.ne_nil_of_length_pos (by omega)
  have hhead : (b.val ++ rest).head? ≠ some 0 := by
    rw [List.head?_append_of_ne_nil _ hne]
    exact hfirst
  have hdrop : (b.val ++ rest).drop 512 = rest := List.drop_left' hb
  rw [handed, dif_pos hlength, if_neg hhead, block_append, hdrop, drain_eq_drop]

theorem handed_of_short {input : Bytes} (h : input.length < 512) : handed input = [] := by
  rw [handed, dif_neg (by omega)]

/-- What follows a header is shorter than what the header was found in. -/
theorem length_lt_of_mem_head {input : Bytes} {b : Header} {rest : Bytes}
    {more : List (Header × Bytes)} (h : handed input = (b, rest) :: more) :
    rest.length + 512 = input.length := by
  rw [handed] at h
  split_ifs at h with hlength hend
  have hrest := congrArg (List.length ∘ Prod.snd) (List.head_eq_of_cons_eq h)
  simp only [Function.comp_apply, List.length_drop] at hrest
  omega

/-! ### An archive of the entries that were found -/

section Archives

variable (host : Host)

def Host.Knows (e : Entry) : Prop :=
  (host.getpwuid e.stat.uid).isSome ∧ (host.getgrgid e.stat.gid).isSome

def entryHeader (e : Entry) : Header :=
  header ((host.getpwuid e.stat.uid).getD []) ((host.getgrgid e.stat.gid).getD []) e
    host.signedChar

def archive (es : List Entry) : Bytes :=
  es.flatMap fun e => (entryHeader host e).val ++ dataOf e

/-- The headers as they were written, each with all that was written after it. -/
def heads : List Entry → List (Header × Bytes)
  | [] => []
  | e :: es => (entryHeader host e, dataOf e ++ archive host es) :: heads es

/-- The entries that the arguments stand for, in the order they are written in. -/
def entries (paths : List Bytes) : Option (List Entry) :=
  (paths.reverse.mapM host.lookup).map List.flatten

variable {host}

theorem cFile_of_knows {e : Entry} (h : host.Knows e) :
    cFile host e = some ((entryHeader host e).val ++ dataOf e) := by
  obtain ⟨hpw, hgr⟩ := h
  obtain ⟨pwName, hpw⟩ := Option.isSome_iff_exists.mp hpw
  obtain ⟨grName, hgr⟩ := Option.isSome_iff_exists.mp hgr
  simp only [cFile, entryHeader, hpw, hgr, Option.bind_eq_bind, Option.bind_some,
    Option.getD_some, Option.pure_def]

theorem mapM_cFile {es : List Entry} (h : ∀ e ∈ es, host.Knows e) :
    es.mapM (cFile host) = some (es.map fun e => (entryHeader host e).val ++ dataOf e) := by
  induction es with
  | nil => rfl
  | cons e es ih =>
    rw [List.mapM_cons, cFile_of_knows (h e List.mem_cons_self),
      ih fun e he => h e (List.mem_cons_of_mem _ he)]
    rfl

theorem archive_append (es es' : List Entry) :
    archive host (es ++ es') = archive host es ++ archive host es' :=
  List.flatMap_append

theorem create_eq {paths : List Bytes} {found : List (List Entry)}
    (hfound : paths.mapM host.lookup = some found)
    (hknows : ∀ e ∈ found.flatten, host.Knows e) :
    create host paths = some (archive host found.flatten, true) := by
  induction paths generalizing found with
  | nil =>
    cases hfound
    rfl
  | cons path paths ih =>
    rw [List.mapM_cons] at hfound
    obtain ⟨es, hes, hfound⟩ := Option.bind_eq_some_iff.mp hfound
    obtain ⟨found', hfound', hcons⟩ := Option.bind_eq_some_iff.mp hfound
    cases hcons
    rw [List.flatten_cons] at hknows
    have hc : c host path = some (archive host es, true) := by
      rw [c, hes]
      dsimp only
      rw [mapM_cFile fun e he => hknows e (List.mem_append_left _ he), Option.map_some,
        archive, List.flatMap_def]
    rw [create, hc, List.flatten_cons, archive_append]
    simp only [Option.bind_eq_bind, Option.bind_some, if_true,
      ih hfound' fun e he => hknows e (List.mem_append_right _ he), Option.pure_def]

theorem mainCreate_eq {paths : List Bytes} {es : List Entry} (hes : entries host paths = some es)
    (hknows : ∀ e ∈ es, host.Knows e) : mainCreate host paths = some (archive host es, true) := by
  obtain ⟨found, hfound, rfl⟩ := Option.map_eq_some_iff.mp hes
  exact create_eq hfound hknows

/-! ### When the reader finds the headers that were written -/

/-- A path as the system gives it. -/
def Named (e : Entry) : Prop := e.path ≠ [] ∧ 0 ∉ e.path

/-- A file that is as long as the system says, and not too long for its field. -/
def Whole (e : Entry) : Prop :=
  ∃ content, e.content = some content ∧ content.length = e.stat.size ∧ e.stat.size < 2 ^ 31

/-- The length that is read again from the header. -/
def announced (e : Entry) : Int :=
  if e.stat.format = sIFREG then ((e.stat.size % 2 ^ 32 : Nat) : Int).bmod (2 ^ 32)
  else (e.stat.mtime % 2 ^ 32).bmod (2 ^ 32)

theorem lengthOf_entryHeader (e : Entry) : lengthOf (entryHeader host e) = announced e := by
  unfold announced entryHeader
  split_ifs with hreg
  · exact lengthOf_regular hreg
  · exact lengthOf_other hreg

theorem head?_entryHeader {e : Entry} (h : Named e) :
    (entryHeader host e).val.head? ≠ some 0 := by
  obtain ⟨hne, hnul⟩ := h
  have hfirst : ((entryHeader host e).field Offset.name 1).head? = e.path.head? := by
    rw [entryHeader, field_header_of_common (by decide), field_first hne, List.head?_take,
      if_neg (by decide)]
  intro hzero
  rw [Block.field, List.head?_take, if_neg (by decide), Offset.name, List.drop_zero, hzero]
    at hfirst
  exact hnul (List.mem_of_mem_head? hfirst.symm)

theorem length_fileBlocks (content : Bytes) :
    (fileBlocks content).length = 512 * blockCount content.length := by
  induction content using fileBlocks.induct with
  | case1 content hempty =>
    rw [fileBlocks, if_pos hempty, List.isEmpty_iff.mp hempty]
    rfl
  | case2 content hne ih =>
    have hpos : content.length ≠ 0 := by
      rw [List.length_eq_zero_iff.ne]
      exact fun h => hne (List.isEmpty_iff.mpr h)
    rw [fileBlocks, if_neg hne, List.length_append, ih, List.length_append, List.length_take,
      List.length_replicate, List.length_drop]
    unfold blockCount
    omega

theorem announced_of_whole {e : Entry} (hreg : e.stat.format = sIFREG) (h : Whole e) :
    announced e = e.stat.size := by
  obtain ⟨_, _, _, hsize⟩ := h
  rw [announced, if_pos hreg, Int.bmod_def]
  split_ifs <;> omega

theorem length_dataOf_of_whole {e : Entry} (hreg : e.stat.format = sIFREG) (h : Whole e) :
    (dataOf e).length = 512 * blockCount (announced e) := by
  have hannounced := announced_of_whole hreg h
  obtain ⟨content, hcontent, hlength, _⟩ := h
  rw [hannounced, dataOf, if_pos hreg, hcontent, Option.getD_some, length_fileBlocks, hlength]

theorem dataOf_other {e : Entry} (hne : e.stat.format ≠ sIFREG) : dataOf e = [] :=
  if_neg hne

theorem length_dataOf_le {e : Entry} (h : e.stat.format = sIFREG → Whole e) :
    (dataOf e).length ≤ 512 * blockCount (announced e) := by
  rcases eq_or_ne e.stat.format sIFREG with hreg | hne
  · exact Nat.le_of_eq (length_dataOf_of_whole hreg (h hreg))
  · rw [dataOf_other hne]
    exact Nat.zero_le _

/-- What is no file is skipped without a loss only if it is as old as the epoch. -/
theorem length_dataOf_eq_iff {e : Entry} (h : e.stat.format = sIFREG → Whole e) :
    (dataOf e).length = 512 * blockCount (announced e) ↔
      e.stat.format = sIFREG ∨ (e.stat.mtime % 2 ^ 32).bmod (2 ^ 32) ≤ 0 := by
  rcases eq_or_ne e.stat.format sIFREG with hreg | hne
  · exact iff_of_true (length_dataOf_of_whole hreg (h hreg)) (.inl hreg)
  · rw [dataOf_other hne, announced, if_neg hne, List.length_nil, or_iff_right hne]
    unfold blockCount
    omega

theorem archive_cons (e : Entry) (es : List Entry) :
    archive host (e :: es) = (entryHeader host e).val ++ (dataOf e ++ archive host es) := by
  rw [archive, List.flatMap_cons, List.append_assoc, archive]

theorem handed_archive_cons {e : Entry} (he : Named e) (es : List Entry)
    (h : e.stat.format = sIFREG → Whole e) :
    handed (archive host (e :: es)) = (entryHeader host e, dataOf e ++ archive host es) ::
      handed ((archive host es).drop
        (512 * blockCount (announced e) - (dataOf e).length)) := by
  have hdata := length_dataOf_le h
  rw [archive_cons, handed_header (head?_entryHeader he), lengthOf_entryHeader,
    List.drop_append, List.drop_of_length_le hdata, List.nil_append]

/-- Where a header is searched too far behind, not all that were written are found. -/
theorem handed_drop_ne_heads {e : Entry} {es : List Entry} {n : Nat} (hn : 0 < n) :
    handed ((archive host (e :: es)).drop n) ≠ heads host (e :: es) := by
  intro h
  have hshort := length_lt_of_mem_head h
  have hheader := (entryHeader host e).property
  simp only [List.length_drop, archive_cons, List.length_append] at hshort
  omega

theorem handed_archive_iff (host : Host) {es : List Entry} (hnamed : ∀ e ∈ es, Named e)
    (hwhole : ∀ e ∈ es, e.stat.format = sIFREG → Whole e) :
    handed (archive host es) = heads host es ↔
      ∀ e ∈ es.dropLast, e.stat.format = sIFREG ∨ (e.stat.mtime % 2 ^ 32).bmod (2 ^ 32) ≤ 0 := by
  induction es with
  | nil => exact iff_of_true (handed_of_short (Nat.zero_lt_succ _)) (by rintro e ⟨⟩)
  | cons e es ih =>
    have hwhole_e := hwhole e List.mem_cons_self
    have hwhole_es := fun e' he' => hwhole e' (List.mem_cons_of_mem _ he')
    have hnamed_es := fun e' he' => hnamed e' (List.mem_cons_of_mem _ he')
    rw [handed_archive_cons (hnamed e List.mem_cons_self) es hwhole_e, heads,
      List.cons_eq_cons, and_iff_right rfl]
    cases es with
    | nil =>
      refine iff_of_true ?_ (by rintro e ⟨⟩)
      rw [archive, List.flatMap_nil, List.drop_nil]
      exact handed_of_short (Nat.zero_lt_succ _)
    | cons e' es =>
      rw [List.dropLast_cons_cons, List.forall_mem_cons, ← ih hnamed_es hwhole_es,
        ← length_dataOf_eq_iff hwhole_e]
      have hdata := length_dataOf_le hwhole_e
      rcases Nat.eq_or_lt_of_le hdata with heq | hlt
      · rw [heq, Nat.sub_self, List.drop_zero, and_iff_right rfl]
      · exact iff_of_false (handed_drop_ne_heads (by omega)) (fun h => (Nat.ne_of_lt hlt) h.1)

end Archives

/-! ### What is extracted -/

inductive Kind where
  | regular (content : Bytes)
  | symlink (target : Bytes)
  | directory
  | special (mode : UInt32) (dev : UInt64)
deriving DecidableEq

structure File where
  kind : Kind
  mode : Option UInt32
  owner : Option (UInt32 × UInt32)
deriving DecidableEq

abbrev Files := Bytes → Option File

namespace File

def truncate (file : File) : File := { file with kind := .regular [] }

def chmod (mode : UInt32) (file : File) : File := { file with mode := some mode }

def chown (uid gid : UInt32) (file : File) : File := { file with owner := some (uid, gid) }

def append (bytes : Bytes) (file : File) : File :=
  match file.kind with
  | .regular content => { file with kind := .regular (content ++ bytes) }
  | _ => file

end File

/-- What a call does to the files when it succeeds. -/
def perform (files : Files) : Call → Files
  | .unlink path => Function.update files path none
  | .fopen path =>
    Function.update files path
      (some (((files path).getD ⟨.regular [], none, none⟩).truncate))
  | .chmod path mode => Function.update files path ((files path).map (File.chmod mode))
  | .link target path => Function.update files path (files target)
  | .symlink target path => Function.update files path (some ⟨.symlink target, none, none⟩)
  | .mkdir path mode => Function.update files path (some ⟨.directory, some mode, none⟩)
  | .mknod path mode dev => Function.update files path (some ⟨.special mode dev, none, none⟩)
  | .chown path uid gid => Function.update files path ((files path).map (File.chown uid gid))
  | .fwrite path bytes => Function.update files path ((files path).map (File.append bytes))
  | .puts _ => files
  | .perror _ => files
  | .chksumFailed _ => files

section Calls

variable (sys : System)

/-- The files after a call, which has no effect where it fails. -/
def outcome (before : List Call) (files : Files) (call : Call) : Files :=
  if sys.succeeds before call then perform files call else files

def performed : List Call → Files → List Call → Files
  | _, files, [] => files
  | before, files, call :: calls =>
    performed (before ++ [call]) (outcome sys before files call) calls

/-- The call succeeds, but there may be nothing to unlink. A message has no result. -/
def Succeeds (before : List Call) (files : Files) : Call → Prop
  | .unlink path => sys.succeeds before (.unlink path) = true ∨ files path = none
  | .puts _ | .perror _ | .chksumFailed _ => True
  | call => sys.succeeds before call = true

/-- Each of the calls succeeds after those before it. -/
inductive Obliging : List Call → Files → List Call → Prop
  | nil {before : List Call} {files : Files} : Obliging before files []
  | cons {before calls : List Call} {files : Files} {call : Call}
      (hcall : Succeeds sys before files call)
      (hcalls : Obliging (before ++ [call]) (outcome sys before files call) calls) :
      Obliging before files (call :: calls)

variable {sys}

theorem outcome_eq {before : List Call} {files : Files} {call : Call}
    (h : Succeeds sys before files call) : outcome sys before files call = perform files call := by
  unfold outcome
  split_ifs with hdone
  · rfl
  · cases call with
    | unlink path =>
      rw [perform, ← h.resolve_left hdone, Function.update_eq_self]
    | puts _ => rfl
    | perror _ => rfl
    | chksumFailed _ => rfl
    | _ => exact absurd h hdone

theorem performed_eq {before calls : List Call} {files : Files}
    (h : Obliging sys before files calls) :
    performed sys before files calls = calls.foldl perform files := by
  induction h with
  | nil => rfl
  | cons hcall _ ih => rw [performed, ih, outcome_eq hcall, List.foldl_cons]

theorem obliging_cons_iff {before calls : List Call} {files : Files} {call : Call} :
    Obliging sys before files (call :: calls) ↔
      Succeeds sys before files call ∧
        Obliging sys (before ++ [call]) (outcome sys before files call) calls := by
  constructor
  · intro h
    cases h with
    | cons hcall hcalls => exact ⟨hcall, hcalls⟩
  · rintro ⟨hcall, hcalls⟩
    exact .cons hcall hcalls

theorem obliging_append {before xs ys : List Call} {files : Files} :
    Obliging sys before files (xs ++ ys) ↔
      Obliging sys before files xs ∧
        Obliging sys (before ++ xs) (performed sys before files xs) ys := by
  induction xs generalizing before files with
  | nil =>
    rw [List.nil_append, List.append_nil, performed]
    exact ⟨fun h => ⟨.nil, h⟩, fun h => h.2⟩
  | cons call xs ih =>
    rw [List.cons_append, obliging_cons_iff, obliging_cons_iff, ih, and_assoc, performed,
      List.append_assoc, List.singleton_append]

/-- What succeeded in the end had succeeded when it was called. -/
theorem succeeds_of_prefix {before calls : List Call} {call : Call} {files : Files}
    (h : Obliging sys [] files calls) (hstart : before ++ [call] <+: calls) :
    Succeeds sys before (performed sys [] files before) call := by
  obtain ⟨rest, rfl⟩ := hstart
  rw [List.append_assoc, obliging_append, List.singleton_append, obliging_cons_iff] at h
  exact h.2.1

end Calls

/-- A file that keeps everything on its way through an archive. -/
structure Portable (root : Bool) (e : Entry) : Prop where
  regular : e.stat.format = sIFREG
  whole : Whole e
  named : Named e
  short : e.path.length ≤ 99
  owned : root = true → e.stat.uid.toNat < 8 ^ 7 ∧ e.stat.gid.toNat < 8 ^ 7

/-- The file as it was when it was put into the archive, at its path. -/
def restore (root : Bool) (files : Files) (e : Entry) : Files :=
  let owner := if root then some (e.stat.uid, e.stat.gid) else none
  Function.update files e.path
    (some ⟨.regular (e.content.getD []), some (e.stat.mode &&& 0x1ff), owner⟩)

theorem foldl_fwrite {files : Files} {path content : Bytes} {mode : Option UInt32}
    {owner : Option (UInt32 × UInt32)} (chunks : List Bytes)
    (hfile : files path = some ⟨.regular content, mode, owner⟩) :
    (chunks.map (Call.fwrite path)).foldl perform files =
      Function.update files path
        (some ⟨.regular (content ++ chunks.flatten), mode, owner⟩) := by
  induction chunks generalizing files content with
  | nil =>
    rw [List.flatten_nil, List.append_nil, ← hfile, Function.update_eq_self]
    rfl
  | cons chunk chunks ih =>
    have hstep : perform files (.fwrite path chunk) =
        Function.update files path (some ⟨.regular (content ++ chunk), mode, owner⟩) := by
      rw [perform, hfile]
      rfl
    rw [List.map_cons, List.foldl_cons, hstep, ih (Function.update_self path _ files),
      Function.update_idem, List.flatten_cons, List.append_assoc]

/-- The blocks of a file are written back without the zeros at their end. -/
theorem copy_fileBlocks (fname : Bytes) (content : Bytes) (b : Header) (calls : List Call)
    (rest : Bytes) :
    ∃ chunks : List Bytes, chunks.flatten = content ∧
      (copy true fname content.length b calls (fileBlocks content ++ rest)).1 =
        calls ++ chunks.map (Call.fwrite fname) := by
  induction content using fileBlocks.induct generalizing b calls with
  | case1 content hempty =>
    refine ⟨[], (List.isEmpty_iff.mp hempty).symm, ?_⟩
    rw [List.isEmpty_iff.mp hempty, copy_of_nonpos _ _ _ _ _ (by simp), List.map_nil,
      List.append_nil]
  | case2 content hne ih =>
    have hpos : 0 < content.length := List.length_pos_iff.mpr fun h =>
      hne (List.isEmpty_iff.mpr h)
    have hfirst : (content.take 512 ++ List.replicate (512 - content.length) (0 : UInt8)).length =
        512 := by
      rw [List.length_append, List.length_take, List.length_replicate]
      omega
    have hblocks : fileBlocks content ++ rest =
        (content.take 512 ++ List.replicate (512 - content.length) 0) ++
          (fileBlocks (content.drop 512) ++ rest) := by
      rw [fileBlocks, if_neg hne, List.append_assoc]
    have hchunk :
        ((b.write 0 (content.take 512 ++ List.replicate (512 - content.length) 0)).val.take
          (min (content.length : Int) 512).toNat) = content.take 512 := by
      have hmin : (min (content.length : Int) 512).toNat = (content.take 512).length := by
        rw [List.length_take]
        omega
      rw [Block.write_all _ hfirst, hmin]
      exact List.take_left
    rw [hblocks, copy_of_pos _ _ _ _ _ (by omega), List.take_left' hfirst,
      List.drop_left' hfirst, if_pos rfl, hchunk]
    rcases Nat.lt_or_ge 512 content.length with hmore | hlast
    · have hrest : ((content.length : Int) - 512) = ((content.drop 512).length : Nat) := by
        rw [List.length_drop]
        omega
      obtain ⟨chunks, hflatten, hcalls⟩ := ih
        (b.write 0 (content.take 512 ++ List.replicate (512 - content.length) 0))
        (calls ++ [Call.fwrite fname (content.take 512)])
      refine ⟨content.take 512 :: chunks, ?_, ?_⟩
      · rw [List.flatten_cons, hflatten, List.take_append_drop]
      · rw [hrest, hcalls, List.map_cons, List.append_assoc, List.singleton_append]
    · refine ⟨[content.take 512], ?_, ?_⟩
      · rw [List.flatten_singleton, List.take_of_length_le hlast]
      · rw [copy_of_nonpos _ _ _ _ _ (by omega)]
        rfl

section Extraction

variable {host : Host} {sys : System} {e : Entry}

/-- The calls in front of the first block of a file. -/
def opening (sys : System) (fname : Bytes) (b : Header) : List Call :=
  [.unlink fname, .fopen fname, .chmod fname (mode b)] ++
    (if sys.root then [.chown fname (UInt32.ofNat (numberAt b Offset.uid))
      (UInt32.ofNat (numberAt b Offset.gid))] else []) ++
    (if Intact sys.signedChar b then [] else [.chksumFailed fname])

/-- The file is opened and gets its permissions and its owner. -/
structure Opens (sys : System) (fname : Bytes) (b : Header) (calls : List Call) : Prop where
  fopen : sys.succeeds (calls ++ [.unlink fname]) (.fopen fname) = true
  chmod : sys.succeeds (calls ++ [.unlink fname] ++ [.fopen fname]) (.chmod fname (mode b)) = true
  chown : sys.root = true →
    sys.succeeds (calls ++ [.unlink fname] ++ [.fopen fname] ++ [.chmod fname (mode b)])
      (.chown fname (UInt32.ofNat (numberAt b Offset.uid))
        (UInt32.ofNat (numberAt b Offset.gid))) = true

theorem make_regular {b : Header} (hreg : typeOf b = reg) (fname : Bytes) (calls : List Call) :
    make sys fname b calls =
      if sys.succeeds calls (.fopen fname) then
        (!sys.succeeds (calls ++ [.fopen fname]) (.chmod fname (mode b)), true,
          calls ++ [.fopen fname] ++ [.chmod fname (mode b)])
      else (true, false, calls ++ [.fopen fname]) := by
  have hmake : makeCall fname b = none := by
    unfold makeCall
    rw [hreg, if_neg (by decide), if_neg (by decide), if_neg (by decide), if_neg (by decide),
      if_neg (by decide)]
  simp only [make, hmake]

theorem x_regular {b : Header} (hreg : typeOf b = reg) {fname : Bytes} {calls : List Call}
    (h : Opens sys fname b calls) (l : Int) (input : Bytes) :
    x sys fname l b calls input = copy true fname l b (calls ++ opening sys fname b) input := by
  unfold x own opening
  simp only [make_regular hreg, h.fopen, h.chmod, if_true, Bool.not_true, Bool.false_eq_true,
    if_false]
  cases hroot : sys.root with
  | true =>
    simp only [h.chown hroot, if_true]
    split_ifs <;> simp only [List.append_assoc, List.cons_append, List.nil_append, List.append_nil]
  | false =>
    simp only [Bool.false_eq_true, if_false]
    split_ifs <;> simp only [List.append_assoc, List.cons_append, List.nil_append, List.append_nil]

theorem prefix_copy (opened : Bool) (fname : Bytes) (l : Int) (b : Header) (calls : List Call)
    (input : Bytes) : calls <+: (copy opened fname l b calls input).1 := by
  induction l, input using drain.induct generalizing b calls with
  | case1 l input hpos ih =>
    rw [copy_of_pos _ _ _ _ _ hpos]
    refine List.IsPrefix.trans ?_ (ih _ _)
    split_ifs
    · exact List.prefix_append _ _
    · exact List.prefix_rfl
  | case2 l input hpos =>
    rw [copy_of_nonpos _ _ _ _ _ (by omega)]

theorem prefix_own (fname : Bytes) (b : Header) (failed : Bool) (calls : List Call) :
    calls <+: own sys fname b failed calls := by
  unfold own
  dsimp only
  split_ifs
  · exact List.prefix_append _ _
  · exact List.prefix_append _ _
  · exact List.prefix_append _ _
  · exact List.prefix_rfl

theorem own_prefix_x (fname : Bytes) (l : Int) (b : Header) (calls : List Call) (input : Bytes) :
    own sys fname b (make sys fname b (calls ++ [.unlink fname])).1
        (make sys fname b (calls ++ [.unlink fname])).2.2 <+:
      (x sys fname l b calls input).1 := by
  have hsum (calls : List Call) :
      calls <+: if Intact sys.signedChar b then calls else calls ++ [.chksumFailed fname] := by
    split_ifs
    · exact List.prefix_rfl
    · exact List.prefix_append _ _
  exact (hsum _).trans (prefix_copy _ _ _ _ _ _)

theorem make_prefix_x (fname : Bytes) (l : Int) (b : Header) (calls : List Call)
    (input : Bytes) :
    (make sys fname b (calls ++ [.unlink fname])).2.2 <+: (x sys fname l b calls input).1 :=
  (prefix_own fname b _ _).trans (own_prefix_x fname l b calls input)

theorem prefix_x (fname : Bytes) (l : Int) (b : Header) (calls : List Call) (input : Bytes) :
    calls <+: (x sys fname l b calls input).1 := by
  refine List.IsPrefix.trans ?_ (make_prefix_x fname l b calls input)
  unfold make
  split
  · simp only [List.append_assoc, List.prefix_append]
  · split_ifs <;> simp only [List.append_assoc, List.prefix_append]

/-- Where the calls of a run succeed, every file of it is opened. -/
theorem opens_of_obliging {b : Header} (hreg : typeOf b = reg) {files : Files} {fname : Bytes}
    {l : Int} {calls all : List Call} {input : Bytes} (h : Obliging sys [] files all)
    (hall : (x sys fname l b calls input).1 <+: all) : Opens sys fname b calls := by
  have hmake := (make_prefix_x fname l b calls input).trans hall
  have hown := (own_prefix_x fname l b calls input).trans hall
  rw [make_regular hreg] at hmake hown
  have hfirst : calls ++ [.unlink fname] ++ [.fopen fname] <+: all := by
    refine List.IsPrefix.trans ?_ hmake
    split_ifs
    · exact List.prefix_append _ _
    · exact List.prefix_rfl
  have hopen : sys.succeeds (calls ++ [.unlink fname]) (.fopen fname) = true :=
    succeeds_of_prefix h hfirst
  rw [if_pos hopen] at hmake hown
  have hchmod : sys.succeeds (calls ++ [.unlink fname] ++ [.fopen fname])
      (.chmod fname (mode b)) = true :=
    succeeds_of_prefix h hmake
  refine ⟨hopen, hchmod, fun hroot => ?_⟩
  have hlast : calls ++ [.unlink fname] ++ [.fopen fname] ++ [.chmod fname (mode b)] ++
      [.chown fname (UInt32.ofNat (numberAt b Offset.uid))
        (UInt32.ofNat (numberAt b Offset.gid))] <+: all := by
    refine List.IsPrefix.trans ?_ hown
    simp only [own, hchmod, hroot, Bool.not_true, Bool.false_eq_true, if_false, if_true]
    split_ifs
    · exact List.prefix_rfl
    · simp only [List.append_assoc, List.cons_append, List.nil_append]
      exact (List.prefix_append_right_inj _).mpr (by simp)
  exact succeeds_of_prefix h hlast

theorem nameOf_entryHeader (hnamed : Named e) (hshort : e.path.length ≤ 99) :
    nameOf (entryHeader host e) = e.path :=
  nameOf_header hshort hnamed.2

theorem mode_entryHeader : mode (entryHeader host e) = e.stat.mode &&& 0x1ff := by
  rw [mode, entryHeader, numberAt_mode, UInt32.ofNat_toNat]

theorem typeOf_entryHeader (hreg : e.stat.format = sIFREG) :
    typeOf (entryHeader host e) = reg := by
  rw [entryHeader, typeOf_header, fileType, if_pos hreg]

theorem owner_entryHeader (hids : e.stat.uid.toNat < 8 ^ 7 ∧ e.stat.gid.toNat < 8 ^ 7) :
    UInt32.ofNat (numberAt (entryHeader host e) Offset.uid) = e.stat.uid ∧
      UInt32.ofNat (numberAt (entryHeader host e) Offset.gid) = e.stat.gid := by
  rw [entryHeader, numberAt_uid hids.1, numberAt_gid hids.2, UInt32.ofNat_toNat,
    UInt32.ofNat_toNat]
  exact ⟨rfl, rfl⟩

theorem foldl_opening (files : Files) (fname : Bytes) (b : Header) :
    (opening sys fname b).foldl perform files = Function.update files fname
      (some ⟨.regular [], some (mode b), if sys.root then
        some (UInt32.ofNat (numberAt b Offset.uid), UInt32.ofNat (numberAt b Offset.gid))
      else none⟩) := by
  unfold opening
  split_ifs <;>
    simp only [List.append_nil, List.cons_append, List.nil_append, List.foldl_cons,
      List.foldl_nil, perform, Function.update_self, Function.update_idem, Option.getD_none,
      Option.map_some, File.truncate, File.chmod, File.chown]

/-- The calls for one file: it is made anew, and its content is written. -/
theorem x_portable (host : Host) (he : Portable sys.root e) {calls : List Call}
    (hopens : Opens sys e.path (entryHeader host e) calls) (rest : Bytes) :
    ∃ chunks : List Bytes, chunks.flatten = e.content.getD [] ∧
      (x sys (nameOf (entryHeader host e)) (lengthOf (entryHeader host e)) (entryHeader host e)
        calls (dataOf e ++ rest)).1 =
          calls ++ opening sys e.path (entryHeader host e) ++
            chunks.map (Call.fwrite e.path) := by
  obtain ⟨content, hcontent, hlength, _⟩ := he.whole
  have hlen : lengthOf (entryHeader host e) = content.length := by
    rw [lengthOf_entryHeader, announced_of_whole he.regular he.whole, hlength]
  have hdata : dataOf e = fileBlocks content := by
    rw [dataOf, if_pos he.regular, hcontent, Option.getD_some]
  obtain ⟨chunks, hflatten, hcalls⟩ := copy_fileBlocks e.path content (entryHeader host e)
    (calls ++ opening sys e.path (entryHeader host e)) rest
  refine ⟨chunks, ?_, ?_⟩
  · rw [hflatten, hcontent, Option.getD_some]
  · rw [nameOf_entryHeader he.named he.short, x_regular (typeOf_entryHeader he.regular) hopens,
      hlen, hdata, hcalls]

theorem foldl_portable (he : Portable sys.root e) {chunks : List Bytes}
    (hchunks : chunks.flatten = e.content.getD []) (files : Files) :
    (opening sys e.path (entryHeader host e) ++ chunks.map (Call.fwrite e.path)).foldl perform
      files = restore sys.root files e := by
  have howner : (if sys.root then
      some (UInt32.ofNat (numberAt (entryHeader host e) Offset.uid),
        UInt32.ofNat (numberAt (entryHeader host e) Offset.gid)) else none) =
      (if sys.root then some (e.stat.uid, e.stat.gid) else none) := by
    split_ifs with hroot
    · have hids : e.stat.uid.toNat < 8 ^ 7 ∧ e.stat.gid.toNat < 8 ^ 7 := he.owned hroot
      rw [(owner_entryHeader hids).1, (owner_entryHeader hids).2]
    · rfl
  rw [List.foldl_append, foldl_opening, foldl_fwrite chunks (Function.update_self _ _ _),
    Function.update_idem, List.nil_append, hchunks, mode_entryHeader, howner, restore]

/-- A call that is no message. -/
def Quiet (call : Call) : Prop :=
  ∀ path, call ≠ .perror path ∧ call ≠ .chksumFailed path

/-- The sum is that of the writer where a `char` is the same for both. -/
theorem quiet_opening (hsame : sys.signedChar = host.signedChar) :
    ∀ call ∈ opening sys e.path (entryHeader host e), Quiet call := by
  have hintact : Intact sys.signedChar (entryHeader host e) := hsame ▸ intact_header
  intro call hcall
  rw [opening, if_pos hintact, List.append_nil] at hcall
  rcases List.mem_append.mp hcall with hfirst | howner
  · simp only [List.mem_cons, List.not_mem_nil, or_false] at hfirst
    rcases hfirst with rfl | rfl | rfl <;> exact fun _ => ⟨nofun, nofun⟩
  · split_ifs at howner
    · rw [List.mem_singleton.mp howner]
      exact fun _ => ⟨nofun, nofun⟩
    · cases howner

/-- The calls of an extraction behind those that were made before it. -/
def extracted (sys : System) (ps : List (Header × Bytes)) (calls : List Call) : List Call :=
  ps.foldl (fun calls p => (x sys (nameOf p.1) (lengthOf p.1) p.1 calls p.2).1) calls

theorem prefix_extracted (ps : List (Header × Bytes)) (calls : List Call) :
    calls <+: extracted sys ps calls := by
  induction ps generalizing calls with
  | nil => exact List.prefix_rfl
  | cons p ps ih => exact (prefix_x _ _ _ _ _).trans (ih _)

theorem extracted_cons (he : Portable sys.root e) {es : List Entry} {calls : List Call}
    (hopens : Opens sys e.path (entryHeader host e) calls) :
    ∃ chunks : List Bytes, chunks.flatten = e.content.getD [] ∧
      extracted sys (heads host (e :: es)) calls = extracted sys (heads host es)
        (calls ++ (opening sys e.path (entryHeader host e) ++
          chunks.map (Call.fwrite e.path))) := by
  obtain ⟨chunks, hchunks, hx⟩ := x_portable host he hopens (archive host es)
  refine ⟨chunks, hchunks, ?_⟩
  rw [heads, extracted, List.foldl_cons, hx, ← List.append_assoc]
  rfl

theorem opens_of_extracted (he : Portable sys.root e) {es : List Entry} {calls : List Call}
    {files : Files} (hok : Obliging sys [] files (extracted sys (heads host (e :: es)) calls)) :
    Opens sys e.path (entryHeader host e) calls := by
  have hopens := opens_of_obliging (typeOf_entryHeader he.regular) hok
    (prefix_extracted (heads host es) (x sys (nameOf (entryHeader host e))
      (lengthOf (entryHeader host e)) (entryHeader host e) calls (dataOf e ++ archive host es)).1)
  rwa [nameOf_entryHeader he.named he.short] at hopens

theorem foldl_extracted {es : List Entry} (hes : ∀ e ∈ es, Portable sys.root e)
    {calls : List Call} {disk : Files}
    (hok : Obliging sys [] disk (extracted sys (heads host es) calls)) (files : Files) :
    (extracted sys (heads host es) calls).foldl perform files =
      es.foldl (restore sys.root) (calls.foldl perform files) := by
  induction es generalizing calls with
  | nil => rfl
  | cons e es ih =>
    have he := hes e List.mem_cons_self
    obtain ⟨chunks, hchunks, hcons⟩ := extracted_cons he (opens_of_extracted he hok)
    rw [hcons] at hok ⊢
    rw [ih (fun e' he' => hes e' (List.mem_cons_of_mem _ he')) hok, List.foldl_append,
      foldl_portable he hchunks, List.foldl_cons]

theorem quiet_extracted (hsame : sys.signedChar = host.signedChar) {es : List Entry}
    (hes : ∀ e ∈ es, Portable sys.root e) {calls : List Call}
    (hquiet : ∀ call ∈ calls, Quiet call) {files : Files}
    (hok : Obliging sys [] files (extracted sys (heads host es) calls)) :
    ∀ call ∈ extracted sys (heads host es) calls, Quiet call := by
  induction es generalizing calls with
  | nil => exact hquiet
  | cons e es ih =>
    have he := hes e List.mem_cons_self
    obtain ⟨chunks, -, hcons⟩ := extracted_cons he (opens_of_extracted he hok)
    rw [hcons] at hok ⊢
    refine ih (fun e' he' => hes e' (List.mem_cons_of_mem _ he')) ?_ hok
    refine List.forall_mem_append.mpr ⟨hquiet, List.forall_mem_append.mpr
      ⟨quiet_opening hsame, fun call hwrite => ?_⟩⟩
    obtain ⟨_, _, rfl⟩ := List.mem_map.mp hwrite
    exact fun _ => ⟨nofun, nofun⟩

theorem foldl_t {es : List Entry} (hes : ∀ e ∈ es, Portable sys.root e) (calls : List Call) :
    ((heads host es).foldl (fun calls p =>
      (t (nameOf p.1) (lengthOf p.1) p.1 calls p.2).1) calls) =
        calls ++ es.map fun e => Call.puts e.path := by
  induction es generalizing calls with
  | nil => exact (List.append_nil calls).symm
  | cons e es ih =>
    have he := hes e List.mem_cons_self
    rw [heads, List.foldl_cons, ih fun e' he' => hes e' (List.mem_cons_of_mem _ he'), t,
      nameOf_entryHeader he.named he.short, List.map_cons, List.append_assoc,
      List.singleton_append]

theorem heads_of_regular {root : Bool} {es : List Entry} (he : ∀ e ∈ es, Portable root e) :
    handed (archive host es) = heads host es := by
  refine (handed_archive_iff host (fun e h => (he e h).named) fun e h _ => (he e h).whole).mpr ?_
  intro e h
  exact .inl (he e (List.mem_of_mem_dropLast h)).regular

theorem tar_x_archive {root : Bool} {es : List Entry} (hes : ∀ e ∈ es, Portable root e) :
    tar (x sys) (archive host es) = extracted sys (heads host es) [] := by
  rw [tar_eq_foldl (drains_x sys), heads_of_regular hes]
  rfl

/-- Files that are put into an archive are listed in the order in which they were
written. Where the calls of the extraction succeed they are extracted as they were, and
without a message if a `char` is the same on both sides. -/
theorem extract_create {paths : List Bytes} {es : List Entry}
    (hes : entries host paths = some es) (hknows : ∀ e ∈ es, host.Knows e)
    (hportable : ∀ e ∈ es, Portable sys.root e) (files : Files) :
    ∃ out, mainCreate host paths = some (out, true) ∧
      tar t out = (es.map fun e => .puts e.path) ∧
      (Obliging sys [] files (tar (x sys) out) →
        performed sys [] files (tar (x sys) out) = es.foldl (restore sys.root) files ∧
          (sys.signedChar = host.signedChar → ∀ call ∈ tar (x sys) out, Quiet call)) := by
  refine ⟨archive host es, mainCreate_eq hes hknows, ?_, ?_⟩
  · rw [tar_eq_foldl drains_t, heads_of_regular hportable, foldl_t hportable, List.nil_append]
  · rw [tar_x_archive hportable]
    intro hok
    refine ⟨?_, fun hsame => quiet_extracted hsame hportable (List.forall_mem_nil _) hok⟩
    rw [performed_eq hok]
    exact foldl_extracted hportable hok files

/-- What the superuser may do, as the files are. -/
def permitted (files : Files) : Call → Bool
  | .unlink path => (files path).any fun file => file.kind ≠ .directory
  | .fopen path => (files path).all fun file => file.kind ≠ .directory
  | .chmod path _ | .chown path _ _ | .fwrite path _ => (files path).isSome
  | .link target path => (files target).isSome && (files path).isNone
  | .symlink _ path | .mkdir path _ | .mknod path _ _ => (files path).isNone
  | .puts _ | .perror _ | .chksumFailed _ => true

/-- A system that refuses the superuser nothing that is possible, on a disk with these
files. -/
def superuser (files : Files) (signedChar : Bool) : System where
  succeeds := fun calls call => permitted (calls.foldl perform files) call
  root := true
  signedChar := signedChar

section Superuser

variable {files : Files} {signedChar : Bool} {before calls : List Call}

theorem obliging_cons {call : Call}
    (hcall : Succeeds (superuser files signedChar) before (before.foldl perform files) call)
    (hcalls : Obliging (superuser files signedChar) (before ++ [call])
      ((before ++ [call]).foldl perform files) calls) :
    Obliging (superuser files signedChar) before (before.foldl perform files)
      (call :: calls) := by
  refine .cons hcall ?_
  rw [outcome_eq hcall]
  rwa [List.foldl_append, List.foldl_cons, List.foldl_nil] at hcalls

theorem obliging_fwrite {path : Bytes} (chunks : List Bytes)
    (hfile : ((before.foldl perform files) path).isSome = true) :
    Obliging (superuser files signedChar) before (before.foldl perform files)
      (chunks.map (Call.fwrite path)) := by
  induction chunks generalizing before with
  | nil => exact .nil
  | cons chunk chunks ih =>
    refine obliging_cons hfile (ih ?_)
    rw [List.foldl_append, List.foldl_cons, List.foldl_nil, perform, Function.update_self,
      Option.isSome_map]
    exact hfile

/-- Unless there is a directory in its place, a file is made anew. -/
theorem opens_superuser (fname : Bytes) (b : Header) :
    Opens (superuser files signedChar) fname b before where
  fopen := by
    simp [superuser, permitted, perform]
  chmod := by
    simp [superuser, permitted, perform]
  chown := by
    simp [superuser, permitted, perform]

theorem obliging_opening {fname : Bytes} {b : Header} (chunks : List Bytes)
    (hfile : ∀ file ∈ (before.foldl perform files) fname, file.kind ≠ .directory) :
    Obliging (superuser files signedChar) before (before.foldl perform files)
      (opening (superuser files signedChar) fname b ++ chunks.map (Call.fwrite fname)) := by
  have hopens : Opens (superuser files signedChar) fname b before := opens_superuser fname b
  have hunlink : Succeeds (superuser files signedChar) before (before.foldl perform files)
      (.unlink fname) := by
    cases hat : (before.foldl perform files) fname with
    | none => exact .inr hat
    | some file => exact .inl (by simp [superuser, permitted, hat, hfile file hat])
  refine obliging_cons hunlink (obliging_cons hopens.fopen (obliging_cons hopens.chmod
    (obliging_cons (hopens.chown rfl) ?_)))
  have hsome : ((before ++ [Call.unlink fname] ++ [Call.fopen fname] ++
      [Call.chmod fname (mode b)] ++ [Call.chown fname (UInt32.ofNat (numberAt b Offset.uid))
        (UInt32.ofNat (numberAt b Offset.gid))]).foldl perform files fname).isSome = true := by
    simp [perform]
  by_cases hintact : Intact signedChar b
  · rw [superuser, if_pos hintact]
    exact obliging_fwrite chunks hsome
  · rw [superuser, if_neg hintact]
    refine obliging_cons trivial (obliging_fwrite chunks ?_)
    rw [List.foldl_append, List.foldl_cons, List.foldl_nil, perform]
    exact hsome

/-- All calls of an extraction succeed where no directory is in the way. -/
theorem obliging_superuser {es : List Entry} (hes : ∀ e ∈ es, Portable true e)
    (hfiles : ∀ e ∈ es, ∀ file ∈ (calls.foldl perform files) e.path, file.kind ≠ .directory)
    (hcalls : Obliging (superuser files signedChar) [] files calls) :
    Obliging (superuser files signedChar) [] files
      (extracted (superuser files signedChar) (heads host es) calls) := by
  induction es generalizing calls with
  | nil => exact hcalls
  | cons e es ih =>
    have he : Portable (superuser files signedChar).root e := hes e List.mem_cons_self
    obtain ⟨chunks, hchunks, hcons⟩ :=
      extracted_cons he (opens_superuser e.path (entryHeader host e))
    rw [hcons]
    refine ih (fun e' he' => hes e' (List.mem_cons_of_mem _ he')) ?_ ?_
    · rw [List.foldl_append, foldl_portable he hchunks]
      intro e' he' file hfile
      by_cases hpath : e'.path = e.path
      · rw [hpath, restore, Function.update_self, Option.mem_some_iff] at hfile
        rw [← hfile]
        exact nofun
      · rw [restore, Function.update_of_ne hpath] at hfile
        exact hfiles e' (List.mem_cons_of_mem _ he') file hfile
    · refine obliging_append.mpr ⟨hcalls, ?_⟩
      rw [performed_eq hcalls, List.nil_append]
      exact obliging_opening chunks (hfiles e List.mem_cons_self)

end Superuser

/-- A file of three bytes that only its owner may read and write. -/
def secret : Entry where
  path := [0x61]
  stat := ⟨0x8180, 0, 0, 3, 1500000000, 0⟩
  content := some [1, 2, 3]
  link := none

/-- The directory that it is in. -/
def home : Entry where
  path := [0x2f]
  stat := ⟨0x41c0, 0, 0, 4096, 1500000000, 0⟩
  content := none
  link := none

/-- A host with one user, on which every path is the directory and the file. -/
def oneUser : Host where
  getpwuid := fun _ => some [0x72]
  getgrgid := fun _ => some [0x72]
  lookup := fun path => if path = [0x61] then some [secret] else some [home, secret]
  signedChar := true

theorem secret_portable : Portable true secret where
  regular := by decide
  whole := ⟨[1, 2, 3], rfl, rfl, by decide⟩
  named := ⟨by decide, by decide⟩
  short := by decide
  owned := fun _ => ⟨by decide, by decide⟩

theorem portable_secrets : ∀ e ∈ [secret, secret], Portable true e := by
  intro e he
  have hsecret : e = secret := by
    simpa only [List.mem_cons, List.not_mem_nil, or_false, or_self] using he
  rw [hsecret]
  exact secret_portable

theorem obliging_secrets :
    Obliging (superuser (fun _ => none) true) [] (fun _ => none)
      (tar (x (superuser (fun _ => none) true)) (archive oneUser [secret, secret])) := by
  rw [tar_x_archive portable_secrets]
  refine obliging_superuser ?_ ?_ ?_
  · exact portable_secrets
  · intro e _ file hfile
    cases hfile
  · exact .nil

theorem extract_create_secret :
    ∃ out, mainCreate oneUser [[0x61], [0x61]] = some (out, true) ∧
      tar t out = ([secret, secret].map fun e => .puts e.path) ∧
      performed (superuser (fun _ => none) true) [] (fun _ => none)
          (tar (x (superuser (fun _ => none) true)) out) =
        [secret, secret].foldl (restore true) (fun _ => none) ∧
      ∀ call ∈ tar (x (superuser (fun _ => none) true)) out, Quiet call := by
  have hes : entries oneUser [[0x61], [0x61]] = some [secret, secret] := rfl
  have hknows : ∀ e ∈ [secret, secret], oneUser.Knows e := fun e _ => ⟨rfl, rfl⟩
  obtain ⟨out, hcreate, hlist, hextract⟩ :=
    @extract_create oneUser (superuser (fun _ => none) true) _ _ hes hknows portable_secrets
      fun _ => none
  have hout : out = archive oneUser [secret, secret] := by
    rw [mainCreate_eq hes hknows, Option.some_inj, Prod.mk.injEq] at hcreate
    exact hcreate.1.symm
  subst hout
  obtain ⟨hfiles, hquiet⟩ := hextract obliging_secrets
  exact ⟨_, hcreate, hlist, hfiles, hquiet rfl⟩

end Extraction

section Swallowed

variable {host : Host}

end Swallowed

end ElectrumLightning.TarArchives
