import ElectrumLightning.FixedFields
import ElectrumLightning.OctalText

/-!
The header block of an entry of an archive, as the archiver writes it and as it
reads it again. A number is read up to the first byte that is no digit, whether
its field ends there or not.
-/

namespace ElectrumLightning.TarHeaders

open ElectrumLightning.ByteStrings
open ElectrumLightning.FixedFields
open ElectrumLightning.OctalText

/-- `char b[END]` -/
abbrev Header := Block UInt8 512

namespace Offset

def name : Nat := 0
def mode : Nat := 100
def uid : Nat := 108
def gid : Nat := 116
def size : Nat := 124
def mtime : Nat := 136
def chk : Nat := 148
def type : Nat := 156
def link : Nat := 157
def magic : Nat := 257
def vers : Nat := 263
def uname : Nat := 265
def gname : Nat := 297
def maj : Nat := 329
def min : Nat := 337

end Offset

def reg : UInt8 := 0x30
def hardlink : UInt8 := 0x31
def symlink : UInt8 := 0x32
def chardev : UInt8 := 0x33
def blockdev : UInt8 := 0x34
def directory : UInt8 := 0x35
def fifo : UInt8 := 0x36

def sIFMT : UInt32 := 0xf000
def sIFREG : UInt32 := 0x8000
def sIFDIR : UInt32 := 0x4000
def sIFLNK : UInt32 := 0xa000
def sIFCHR : UInt32 := 0x2000
def sIFBLK : UInt32 := 0x6000
def sIFIFO : UInt32 := 0x1000

structure Stat where
  mode : UInt32
  uid : UInt32
  gid : UInt32
  size : Nat
  mtime : Int
  dev : UInt64
deriving DecidableEq

def Stat.format (st : Stat) : UInt32 := st.mode &&& sIFMT

/-- A file as `c_file` finds it: what `fopen` and `fread` give, and what
`readlink` gives. -/
structure Entry where
  path : Bytes
  stat : Stat
  content : Option Bytes
  link : Option Bytes
deriving DecidableEq

def gnuDevMajor (dev : UInt64) : UInt32 :=
  let high : UInt64 := dev >>> (31 : UInt64) >>> (1 : UInt64)
  let low : UInt64 := dev >>> (8 : UInt64)
  ((high &&& (0xfffff000 : UInt64)) ||| (low &&& (0x00000fff : UInt64))).toUInt32

def gnuDevMinor (dev : UInt64) : UInt32 :=
  let high : UInt64 := dev >>> (12 : UInt64)
  ((high &&& (0xffffff00 : UInt64)) ||| (dev &&& (0x000000ff : UInt64))).toUInt32

def gnuDevMakedev (major minor : UInt32) : UInt64 :=
  let major : UInt64 := major.toUInt64
  let minor : UInt64 := minor.toUInt64
  ((major &&& (0xfffff000 : UInt64)) <<< (32 : UInt64)) |||
    ((major &&& (0x00000fff : UInt64)) <<< (8 : UInt64)) |||
    ((minor &&& (0xffffff00 : UInt64)) <<< (12 : UInt64)) ||| (minor &&& (0x000000ff : UInt64))

/-- What `snprintf` writes to a field of `n` bytes. -/
def snprintf (n : Nat) (text : Bytes) : Bytes := text.take (n - 1) ++ [0]

/-- The conversion of a `char` to `unsigned`, for either kind of `char`. -/
def charValue (signedChar : Bool) (b : UInt8) : Nat :=
  if signedChar && 0x80 ≤ b then 2 ^ 32 - 256 + b.toNat else b.toNat

def charSum (signedChar : Bool) (b : Header) : Nat :=
  (b.val.mapIdx fun i c =>
    if Offset.chk ≤ i ∧ i < Offset.chk + 8 then 0x20 else charValue signedChar c).sum % 2 ^ 32

/-- The text that `chksum` writes to its second argument. -/
def chksum (signedChar : Bool) (b : Header) : Bytes :=
  snprintf 8 (format 7 (charSum signedChar b))

section Writing

variable (pwName grName : Bytes) (e : Entry)

/-- The fields that every entry has. -/
def commonFields : Header :=
  let b : Header := Block.blank 0
  let b := b.write Offset.size (List.replicate 12 0x30)
  let b := b.write Offset.magic [0x75, 0x73, 0x74, 0x61, 0x72, 0]
  let b := b.write Offset.vers [0x30, 0x30, 0]
  let b := b.write Offset.name (snprintf 100 e.path)
  let b := b.write Offset.mode (snprintf 8 (format 7 (e.stat.mode &&& 0x1ff).toNat))
  let b := b.write Offset.uid (snprintf 8 (format 7 e.stat.uid.toNat))
  let b := b.write Offset.gid (snprintf 8 (format 7 e.stat.gid.toNat))
  let b := b.write Offset.mtime (snprintf 12 (format 11 (e.stat.mtime % 2 ^ 32).toNat))
  let b := b.write Offset.uname (snprintf 32 pwName)
  b.write Offset.gname (snprintf 32 grName)

def deviceFields (b : Header) : Header :=
  let b := b.write Offset.maj (snprintf 8 (format 7 (gnuDevMajor e.stat.dev).toNat))
  b.write Offset.min (snprintf 8 (format 7 (gnuDevMinor e.stat.dev).toNat))

/-- The fields that depend on the kind of the file. -/
def typeFields (b : Header) : Header :=
  if e.stat.format = sIFREG then
    (b.write Offset.type [reg]).write Offset.size (snprintf 12 (format 11 (e.stat.size % 2 ^ 32)))
  else if e.stat.format = sIFDIR then b.write Offset.type [directory]
  else if e.stat.format = sIFLNK then
    (b.write Offset.type [symlink]).write Offset.link ((e.link.getD []).take 99)
  else if e.stat.format = sIFCHR then deviceFields e (b.write Offset.type [chardev])
  else if e.stat.format = sIFBLK then deviceFields e (b.write Offset.type [blockdev])
  else if e.stat.format = sIFIFO then b.write Offset.type [fifo]
  else b

def header (signedChar : Bool) : Header :=
  let b := typeFields e (commonFields pwName grName e)
  b.write Offset.chk (chksum signedChar b)

end Writing

/-! ### Reading a header -/

def cstring (bs : Bytes) : Bytes := bs.takeWhile fun b => b ≠ 0

/-- `strtoul(b + off, 0, 8)` -/
def numberAt (b : Header) (off : Nat) : Nat := strtoul (b.suffix off)

/-- The `int` that `strtol(b + SIZE, 0, 8)` is assigned to. -/
def lengthOf (b : Header) : Int := (strtol (b.suffix Offset.size)).bmod (2 ^ 32)

def nameOf (b : Header) : Bytes := cstring (b.field Offset.name 100)

def linkOf (b : Header) : Bytes := cstring (b.field Offset.link 100)

def typeOf (b : Header) : UInt8 := b.val.getD Offset.type 0

/-- `strncmp(b + CHK, chk, 8)` finds no difference. -/
def Intact (signedChar : Bool) (b : Header) : Prop :=
  cstring (b.field Offset.chk 8) = cstring (chksum signedChar b)

instance (signedChar : Bool) (b : Header) : Decidable (Intact signedChar b) :=
  inferInstanceAs (Decidable (cstring _ = cstring _))

/-! ### What is read of a header that was written -/

section Fields

variable {b : Header} {off len woff : Nat} {text : Bytes}

theorem length_snprintf_le {n : Nat} (h : 0 < n) (text : Bytes) : (snprintf n text).length ≤ n := by
  rw [snprintf, List.length_append, List.length_take, List.length_singleton]
  omega

theorem field_snprintf_of_disjoint {n : Nat} (hn : 0 < n)
    (h : woff + n ≤ off ∨ off + len ≤ woff) :
    (b.write woff (snprintf n text)).field off len = b.field off len := by
  have hlength := length_snprintf_le hn text
  exact Block.field_write_of_disjoint (by omega)

/-- A text that fits is followed by its NUL. -/
theorem field_snprintf {n : Nat} (htext : text.length + 1 = n) (h : off + n ≤ 512) :
    (b.write off (snprintf n text)).field off n = text ++ [0] := by
  have hsnprintf : snprintf n text = text ++ [0] := by
    rw [snprintf, List.take_of_length_le (by omega)]
  rw [hsnprintf]
  exact Block.field_write_self (by rw [List.length_append]; exact htext) h

/-- A number that fits into its field. -/
theorem numberAt_of_field {width n : Nat} (hpos : 0 < width) (hlarge : n < 2 ^ 64)
    (hfield : b.field off (width + 1) = format width n ++ [0]) :
    numberAt b off = n := by
  have hstops : Stops ([0] ++ b.suffix (off + (width + 1))) := by
    rintro c hc
    cases hc
    rfl
  have hvalue := value_format width n
  rw [numberAt, b.suffix_eq off (width + 1), hfield, List.append_assoc,
    strtoul_digits isOctal_format (format_ne_nil hpos) hstops (by omega), hvalue]

end Fields

/-! ### The header of an entry -/

section Entries

variable {pwName grName : Bytes} {e : Entry} {signedChar : Bool}

theorem field_deviceFields {b : Header} {off len : Nat} (h : off + len ≤ 329) :
    (deviceFields e b).field off len = b.field off len := by
  unfold deviceFields Offset.maj Offset.min
  dsimp only
  rw [field_snprintf_of_disjoint (by decide) (by omega),
    field_snprintf_of_disjoint (by decide) (by omega)]

theorem field_write_type {b : Header} {off len : Nat} (h : off + len ≤ 156) (t : UInt8) :
    (b.write Offset.type [t]).field off len = b.field off len :=
  Block.field_write_of_disjoint (.inr h)

theorem field_typeFields_of_ne {b : Header} {off len : Nat} (hne : e.stat.format ≠ sIFREG)
    (h : off + len ≤ 156) : (typeFields e b).field off len = b.field off len := by
  unfold typeFields
  rw [if_neg hne]
  split_ifs
  · exact field_write_type h directory
  · rw [Block.field_write_of_disjoint (.inr (by unfold Offset.link; omega)), field_write_type h]
  · rw [field_deviceFields (by omega), field_write_type h]
  · rw [field_deviceFields (by omega), field_write_type h]
  · exact field_write_type h fifo
  · rfl

theorem typeFields_of_reg {b : Header} (hreg : e.stat.format = sIFREG) :
    typeFields e b = (b.write Offset.type [reg]).write Offset.size
      (snprintf 12 (format 11 (e.stat.size % 2 ^ 32))) :=
  if_pos hreg

theorem field_typeFields {b : Header} {off len : Nat}
    (h : off + len ≤ 124 ∨ 136 ≤ off ∧ off + len ≤ 156) :
    (typeFields e b).field off len = b.field off len := by
  rcases eq_or_ne e.stat.format sIFREG with hreg | hne
  · rw [typeFields_of_reg hreg]
    unfold Offset.size
    rw [field_snprintf_of_disjoint (by decide) (by omega), field_write_type (by omega)]
  · exact field_typeFields_of_ne hne (by omega)

/-- In front of the size, and between the size and the checksum, there are only
the common fields. -/
theorem field_header_of_common {off len : Nat}
    (h : off + len ≤ 124 ∨ 136 ≤ off ∧ off + len ≤ 148) :
    (header pwName grName e signedChar).field off len =
      (commonFields pwName grName e).field off len := by
  unfold header chksum Offset.chk
  dsimp only
  rw [field_snprintf_of_disjoint (by decide) (by omega), field_typeFields (by omega)]

theorem field_name (h : e.path.length ≤ 99) :
    (commonFields pwName grName e).field Offset.name 100 =
      e.path ++ [0] ++ List.replicate (99 - e.path.length) 0 := by
  have hsnprintf : snprintf 100 e.path = e.path ++ [0] := by
    rw [snprintf, List.take_of_length_le (by omega)]
  have hlength : (e.path ++ [(0 : UInt8)]).length = e.path.length + 1 := List.length_append
  simp (disch := decide) only [commonFields, field_snprintf_of_disjoint]
  rw [hsnprintf, Block.field_write (by omega) (by decide), hlength,
    Block.field_write_of_disjoint (.inr (by simp only [Offset.name, Offset.vers]; omega)),
    Block.field_write_of_disjoint (.inr (by simp only [Offset.name, Offset.magic]; omega)),
    Block.field_write_of_disjoint (.inr (by simp only [Offset.name, Offset.size]; omega)),
    Block.field_blank 0 (by simp only [Offset.name]; omega)]
  congr 2
  omega

/-- Of a name of any length the first byte stands first. -/
theorem field_first (h : e.path ≠ []) :
    (commonFields pwName grName e).field Offset.name 1 = e.path.take 1 := by
  obtain ⟨first, rest, hpath⟩ := List.exists_cons_of_ne_nil h
  simp (disch := decide) only [commonFields, field_snprintf_of_disjoint]
  rw [hpath, snprintf, List.take_succ_cons, List.cons_append, Block.field, Block.write,
    Offset.name, List.drop_zero]
  rfl

theorem field_mode :
    (commonFields pwName grName e).field Offset.mode 8 =
      format 7 (e.stat.mode &&& 0x1ff).toNat ++ [0] := by
  have hmode : (e.stat.mode &&& 0x1ff).toNat < 8 ^ 7 := by
    rw [UInt32.toNat_and]
    exact Nat.lt_of_le_of_lt Nat.and_le_right (by decide)
  simp (disch := decide) only [commonFields, field_snprintf_of_disjoint]
  exact field_snprintf (by rw [length_format hmode]) (by decide)

theorem field_uid (h : e.stat.uid.toNat < 8 ^ 7) :
    (commonFields pwName grName e).field Offset.uid 8 = format 7 e.stat.uid.toNat ++ [0] := by
  simp (disch := decide) only [commonFields, field_snprintf_of_disjoint]
  exact field_snprintf (by rw [length_format h]) (by decide)

theorem field_gid (h : e.stat.gid.toNat < 8 ^ 7) :
    (commonFields pwName grName e).field Offset.gid 8 = format 7 e.stat.gid.toNat ++ [0] := by
  simp (disch := decide) only [commonFields, field_snprintf_of_disjoint]
  exact field_snprintf (by rw [length_format h]) (by decide)

theorem mtime_lt (mtime : Int) : (mtime % 2 ^ 32).toNat < 8 ^ 11 := by
  omega

theorem field_mtime :
    (commonFields pwName grName e).field Offset.mtime 12 =
      format 11 (e.stat.mtime % 2 ^ 32).toNat ++ [0] := by
  simp (disch := decide) only [commonFields, field_snprintf_of_disjoint]
  exact field_snprintf (by rw [length_format (mtime_lt _)]) (by decide)

/-- The size of what is no regular file: digits without an end. -/
theorem field_size_common :
    (commonFields pwName grName e).field Offset.size 12 = List.replicate 12 0x30 := by
  simp (disch := decide) only [commonFields, field_snprintf_of_disjoint]
  rw [Block.field_write_of_disjoint (by decide), Block.field_write_of_disjoint (by decide)]
  exact Block.field_write_self rfl (by decide)

theorem field_header {off len : Nat} (h : off + len ≤ 148 ∨ 156 ≤ off) :
    (header pwName grName e signedChar).field off len =
      (typeFields e (commonFields pwName grName e)).field off len := by
  unfold header chksum Offset.chk
  dsimp only
  rw [field_snprintf_of_disjoint (by decide) (by omega)]

theorem numberAt_mode :
    numberAt (header pwName grName e signedChar) Offset.mode = (e.stat.mode &&& 0x1ff).toNat := by
  refine numberAt_of_field (by decide : 0 < 7) ?_ ?_
  · exact Nat.lt_trans (UInt32.toNat_lt _) (by decide)
  · rw [field_header_of_common (by decide), field_mode]

theorem numberAt_uid (h : e.stat.uid.toNat < 8 ^ 7) :
    numberAt (header pwName grName e signedChar) Offset.uid = e.stat.uid.toNat := by
  refine numberAt_of_field (by decide : 0 < 7) (Nat.lt_trans h (by decide)) ?_
  rw [field_header_of_common (by decide), field_uid h]

theorem numberAt_gid (h : e.stat.gid.toNat < 8 ^ 7) :
    numberAt (header pwName grName e signedChar) Offset.gid = e.stat.gid.toNat := by
  refine numberAt_of_field (by decide : 0 < 7) (Nat.lt_trans h (by decide)) ?_
  rw [field_header_of_common (by decide), field_gid h]

theorem cstring_append {text rest : Bytes} (h : 0 ∉ text) :
    cstring (text ++ [0] ++ rest) = text := by
  have htext : ∀ b ∈ text, decide (b ≠ 0) = true := by
    rintro b hb
    exact decide_eq_true (fun hzero => h (hzero ▸ hb))
  rw [cstring, List.append_assoc, List.takeWhile_append_of_pos htext]
  exact List.append_nil text

theorem nameOf_header (h : e.path.length ≤ 99) (hnul : 0 ∉ e.path) :
    nameOf (header pwName grName e signedChar) = e.path := by
  rw [nameOf, field_header_of_common (by decide), field_name h, cstring_append hnul]

theorem lengthOf_regular (hreg : e.stat.format = sIFREG) :
    lengthOf (header pwName grName e signedChar) =
      ((e.stat.size % 2 ^ 32 : Nat) : Int).bmod (2 ^ 32) := by
  have hsize : e.stat.size % 2 ^ 32 < 8 ^ 11 := by omega
  have hfield : (header pwName grName e signedChar).field Offset.size 12 =
      format 11 (e.stat.size % 2 ^ 32) ++ [0] := by
    rw [field_header (by decide), typeFields_of_reg hreg]
    exact field_snprintf (by rw [length_format hsize]) (by decide)
  have hvalue := value_format 11 (e.stat.size % 2 ^ 32)
  rw [lengthOf, Block.suffix_eq _ Offset.size 12, hfield, List.append_assoc,
    strtol_digits isOctal_format (format_ne_nil (by decide)) ?_ (by omega), hvalue]
  rintro c hc
  cases hc
  rfl

/-- Without an end of its own the size runs on into the time of modification. -/
theorem lengthOf_other (hne : e.stat.format ≠ sIFREG) :
    lengthOf (header pwName grName e signedChar) = (e.stat.mtime % 2 ^ 32).bmod (2 ^ 32) := by
  have hsize : (header pwName grName e signedChar).field Offset.size 12 =
      List.replicate 12 0x30 := by
    rw [field_header (by decide), field_typeFields_of_ne hne (by decide), field_size_common]
  have hmtime : (header pwName grName e signedChar).field Offset.mtime 12 =
      format 11 (e.stat.mtime % 2 ^ 32).toNat ++ [0] := by
    rw [field_header_of_common (by decide), field_mtime]
  have hdigits : ∀ b ∈ List.replicate 12 0x30 ++ format 11 (e.stat.mtime % 2 ^ 32).toNat,
      isOctal b = true := by
    intro b hb
    rcases List.mem_append.mp hb with hb | hb
    · rw [List.eq_of_mem_replicate hb]
      rfl
    · exact isOctal_format b hb
  have hvalue : value (List.replicate 12 0x30 ++ format 11 (e.stat.mtime % 2 ^ 32).toNat) =
      (e.stat.mtime % 2 ^ 32).toNat := by
    rw [value_append, value_zeros]
    exact value_format 11 _
  have hnext : Offset.size + 12 = Offset.mtime := rfl
  rw [lengthOf, Block.suffix_eq _ Offset.size 12, hsize, hnext,
    Block.suffix_eq _ Offset.mtime 12, hmtime, List.append_assoc, ← List.append_assoc,
    strtol_digits hdigits (by simp) ?_ (by omega), hvalue]
  · congr 1
    omega
  · rintro c hc
    cases hc
    rfl

theorem typeOf_eq_of_field {b : Header} {t : UInt8} (h : b.field Offset.type 1 = [t]) :
    typeOf b = t := by
  have hget := congrArg (fun bs : Bytes => bs[0]?) h
  rw [Block.getElem?_field, if_pos (by decide)] at hget
  rw [typeOf, List.getD_eq_getElem?_getD]
  exact congrArg (Option.getD · 0) hget

/-- The type that the archiver gives to a file. -/
def fileType (e : Entry) : UInt8 :=
  if e.stat.format = sIFREG then reg
  else if e.stat.format = sIFDIR then directory
  else if e.stat.format = sIFLNK then symlink
  else if e.stat.format = sIFCHR then chardev
  else if e.stat.format = sIFBLK then blockdev
  else if e.stat.format = sIFIFO then fifo
  else 0

theorem field_type_write (b : Header) (t : UInt8) :
    (b.write Offset.type [t]).field Offset.type 1 = [t] :=
  Block.field_write_self rfl (by decide)

theorem field_type_deviceFields (b : Header) :
    (deviceFields e b).field Offset.type 1 = b.field Offset.type 1 :=
  field_deviceFields (by decide)

theorem typeOf_header : typeOf (header pwName grName e signedChar) = fileType e := by
  refine typeOf_eq_of_field ?_
  rw [field_header (by decide)]
  unfold typeFields fileType
  split_ifs
  · rw [field_snprintf_of_disjoint (by decide) (by decide), field_type_write]
  · exact field_type_write _ _
  · rw [Block.field_write_of_disjoint (.inr (by decide)), field_type_write]
  · rw [field_type_deviceFields, field_type_write]
  · rw [field_type_deviceFields, field_type_write]
  · exact field_type_write _ _
  · simp (disch := decide) only [commonFields, field_snprintf_of_disjoint]
    rw [Block.field_write_of_disjoint (by decide), Block.field_write_of_disjoint (by decide),
      Block.field_write_of_disjoint (by decide), Block.field_blank 0 (by decide)]
    rfl

theorem field_link_common :
    (commonFields pwName grName e).field Offset.link 100 = List.replicate 100 0 := by
  simp (disch := decide) only [commonFields, field_snprintf_of_disjoint]
  rw [Block.field_write_of_disjoint (by decide), Block.field_write_of_disjoint (by decide),
    Block.field_write_of_disjoint (by decide), Block.field_blank 0 (by decide)]

theorem linkOf_header {target : Bytes} (hlink : e.stat.format = sIFLNK)
    (htarget : e.link = some target) (hlength : target.length ≤ 99) (hnul : 0 ∉ target) :
    linkOf (header pwName grName e signedChar) = target := by
  have htake : target.take 99 = target := List.take_of_length_le hlength
  have hfield : (header pwName grName e signedChar).field Offset.link 100 =
      target ++ List.replicate (100 - target.length) 0 := by
    rw [field_header (by decide)]
    unfold typeFields
    rw [if_neg (by rw [hlink]; decide), if_neg (by rw [hlink]; decide), if_pos hlink, htarget,
      Option.getD_some, htake, Block.field_write (by omega) (by decide), ← Block.drop_field,
      Block.field_write_of_disjoint (.inl (by decide)), field_link_common, List.drop_replicate]
  have hzeros : List.replicate (100 - target.length) (0 : UInt8) =
      [0] ++ List.replicate (99 - target.length) 0 := by
    rw [List.singleton_append, ← List.replicate_succ]
    congr 1
    omega
  rw [linkOf, hfield, hzeros, ← List.append_assoc, cstring_append hnul]

/-- The numbers of a device that fit into their fields. -/
theorem numberAt_device (hformat : e.stat.format = sIFCHR ∨ e.stat.format = sIFBLK)
    (hmajor : (gnuDevMajor e.stat.dev).toNat < 8 ^ 7)
    (hminor : (gnuDevMinor e.stat.dev).toNat < 8 ^ 7) :
    numberAt (header pwName grName e signedChar) Offset.maj = (gnuDevMajor e.stat.dev).toNat ∧
      numberAt (header pwName grName e signedChar) Offset.min =
        (gnuDevMinor e.stat.dev).toNat := by
  have htype : ∃ t, typeFields e (commonFields pwName grName e) =
      deviceFields e ((commonFields pwName grName e).write Offset.type [t]) := by
    unfold typeFields
    rcases hformat with hchr | hblk
    · refine ⟨chardev, ?_⟩
      rw [if_neg (by rw [hchr]; decide), if_neg (by rw [hchr]; decide),
        if_neg (by rw [hchr]; decide), if_pos hchr]
    · refine ⟨blockdev, ?_⟩
      rw [if_neg (by rw [hblk]; decide), if_neg (by rw [hblk]; decide),
        if_neg (by rw [hblk]; decide), if_neg (by rw [hblk]; decide), if_pos hblk]
  obtain ⟨t, htype⟩ := htype
  constructor
  · refine numberAt_of_field (by decide : 0 < 7) (Nat.lt_trans hmajor (by decide)) ?_
    rw [field_header (by decide), htype, deviceFields]
    rw [field_snprintf_of_disjoint (by decide) (by decide)]
    exact field_snprintf (by rw [length_format hmajor]) (by decide)
  · refine numberAt_of_field (by decide : 0 < 7) (Nat.lt_trans hminor (by decide)) ?_
    rw [field_header (by decide), htype, deviceFields]
    exact field_snprintf (by rw [length_format hminor]) (by decide)

/-! ### The checksum -/

theorem length_chksum (signedChar : Bool) (b : Header) : (chksum signedChar b).length = 8 := by
  have hformat := le_length_format 7 (charSum signedChar b)
  rw [chksum, snprintf, List.length_append, List.length_take, List.length_singleton]
  omega

/-- The checksum does not depend on what stands in its place. -/
theorem charSum_write_chk (b : Header) {text : Bytes} (h : text.length ≤ 8) :
    charSum signedChar (b.write Offset.chk text) = charSum signedChar b := by
  unfold charSum
  congr 2
  refine List.ext_getElem? fun i => ?_
  rw [List.getElem?_mapIdx, List.getElem?_mapIdx, Block.getElem?_write]
  by_cases hwritten : Offset.chk ≤ i ∧ i < Offset.chk + text.length ∧ i < 512
  · have hplace : Offset.chk ≤ i ∧ i < Offset.chk + 8 := by omega
    have hlt : i < b.val.length := by
      rw [b.property]
      exact hwritten.2.2
    have hlt' : i - Offset.chk < text.length := by omega
    simp only [if_pos hplace, if_pos hwritten, List.getElem?_eq_getElem hlt,
      List.getElem?_eq_getElem hlt', Option.map_some]
  · rw [if_neg hwritten]

theorem chksum_header (r w : Bool) :
    chksum r (header pwName grName e w) =
      chksum r (typeFields e (commonFields pwName grName e)) := by
  have hlength := length_chksum w (typeFields e (commonFields pwName grName e))
  unfold chksum header
  dsimp only
  rw [charSum_write_chk _ (Nat.le_of_eq hlength)]

theorem field_chk :
    (header pwName grName e signedChar).field Offset.chk 8 =
      chksum signedChar (header pwName grName e signedChar) := by
  rw [chksum_header, header]
  exact Block.field_write_self (length_chksum _ _) (by decide)

/-- A header passes its own check. -/
theorem intact_header : Intact signedChar (header pwName grName e signedChar) := by
  rw [Intact, field_chk]

end Entries

/-! ### The checksum where a `char` is signed, and where it is not -/

section CharKinds

variable {b : Header}

def InChk (i : Nat) : Prop := Offset.chk ≤ i ∧ i < Offset.chk + 8

instance (i : Nat) : Decidable (InChk i) := inferInstanceAs (Decidable (_ ∧ _))

/-- One for a byte that is negative as a signed `char`. -/
def highBit (i : Nat) (c : UInt8) : Nat := if InChk i then 0 else if 0x80 ≤ c then 1 else 0

def addend (signedChar : Bool) (i : Nat) (c : UInt8) : Nat :=
  if InChk i then 0x20 else charValue signedChar c

def highBits (b : Header) : Nat := (b.val.mapIdx highBit).sum

theorem charSum_eq (signedChar : Bool) :
    charSum signedChar b = (b.val.mapIdx (addend signedChar)).sum % 2 ^ 32 := rfl

theorem addend_true_add (i : Nat) (c : UInt8) :
    addend true i c + 256 * highBit i c = addend false i c + 2 ^ 32 * highBit i c := by
  unfold addend highBit charValue
  rw [Bool.true_and, Bool.false_and, if_neg Bool.false_ne_true]
  by_cases hchk : InChk i
  · rw [if_pos hchk, if_pos hchk, if_pos hchk, Nat.mul_zero, Nat.mul_zero]
  · rw [if_neg hchk, if_neg hchk, if_neg hchk]
    by_cases hhigh : 0x80 ≤ c
    · rw [if_pos (decide_eq_true hhigh), if_pos hhigh]
      omega
    · rw [if_neg (by rw [decide_eq_false hhigh]; exact Bool.false_ne_true), if_neg hhigh,
        Nat.mul_zero, Nat.mul_zero]

theorem sums_of_chars :
    (b.val.mapIdx (addend true)).sum + 256 * highBits b =
      (b.val.mapIdx (addend false)).sum + 2 ^ 32 * highBits b :=
  sum_mapIdx_add b.val _ _ _ _ 256 (2 ^ 32) addend_true_add

theorem highBits_le : highBits b ≤ 512 := by
  have hle := sum_mapIdx_le b.val highBit 1 fun i c => by
    unfold highBit
    split_ifs <;> omega
  rwa [b.property] at hle

theorem sum_unsigned_le : (b.val.mapIdx (addend false)).sum ≤ 512 * 255 := by
  have hle := sum_mapIdx_le b.val (addend false) 255 fun i c => by
    have hc := UInt8.toNat_lt c
    unfold addend charValue
    rw [Bool.false_and, if_neg Bool.false_ne_true]
    split_ifs <;> omega
  rwa [b.property] at hle

theorem highBits_eq_zero_iff :
    highBits b = 0 ↔ ∀ i c, b.val[i]? = some c → ¬InChk i → c < 0x80 := by
  rw [highBits, List.sum_eq_zero_iff_forall_eq_nat]
  constructor
  · intro h i c hc hi
    have hmem : highBit i c ∈ b.val.mapIdx highBit := by
      rw [List.mem_iff_getElem?]
      exact ⟨i, by rw [List.getElem?_mapIdx, hc]; rfl⟩
    have hzero := h _ hmem
    rw [highBit, if_neg hi] at hzero
    split_ifs at hzero with hhigh
    exact UInt8.not_le.mp hhigh
  · intro h n hn
    obtain ⟨i, hi⟩ := List.mem_iff_getElem?.mp hn
    rw [List.getElem?_mapIdx] at hi
    obtain ⟨c, hc, rfl⟩ := Option.map_eq_some_iff.mp hi
    unfold highBit
    split_ifs with hchk hhigh
    · rfl
    · exact absurd (h i c hc hchk) (UInt8.not_lt.mpr hhigh)
    · rfl

/-- The sum of signed bytes wraps around where they are negative on the whole. -/
theorem charSum_true_of_highBits (h : highBits b ≠ 0) :
    charSum true b ≠ charSum false b ∧ charSum false b < 8 ^ 6 ∧
      (charSum true b < 8 ^ 6 ∨ 8 ^ 10 ≤ charSum true b ∧ charSum true b < 8 ^ 11 ∧
        charSum false b < charSum true b / 8 ^ 4) := by
  have hsums := sums_of_chars (b := b)
  have hbits := highBits_le (b := b)
  have hsum := sum_unsigned_le (b := b)
  rw [charSum_eq, charSum_eq]
  generalize (b.val.mapIdx (addend true)).sum = signed at hsums
  generalize (b.val.mapIdx (addend false)).sum = unsigned at hsums hsum
  rcases Nat.lt_or_ge unsigned (256 * highBits b) with hneg | hpos
  · have hsigned : signed = 2 ^ 32 + unsigned - 256 * highBits b + 2 ^ 32 * (highBits b - 1) := by
      omega
    rw [hsigned, Nat.add_mul_mod_self_left, Nat.mod_eq_of_lt (by omega : unsigned < 2 ^ 32),
      Nat.mod_eq_of_lt (by omega)]
    omega
  · have hsigned : signed = unsigned - 256 * highBits b + 2 ^ 32 * highBits b := by omega
    rw [hsigned, Nat.add_mul_mod_self_left, Nat.mod_eq_of_lt (by omega : unsigned < 2 ^ 32),
      Nat.mod_eq_of_lt (by omega)]
    omega

/-- The first seven digits of a number of eleven. -/
theorem value_take_format {n : Nat} (hlow : 8 ^ 10 ≤ n) (hhigh : n < 8 ^ 11) :
    value ((format 7 n).take 7) = n / 8 ^ 4 := by
  have hdigits : (format 7 n).length = 11 := length_format_long (by decide) hlow hhigh
  rw [value_take isOctal_format, value_format, hdigits]

theorem value_take_format_of_lt {n : Nat} (h : n < 8 ^ 6) : value ((format 7 n).take 7) = n := by
  have hdigits : (format 7 n).length = 7 := length_format (Nat.lt_trans h (by decide))
  rw [List.take_of_length_le (Nat.le_of_eq hdigits), value_format]

/-- The texts of the sums differ wherever a byte is negative. -/
theorem chksum_eq_iff : chksum true b = chksum false b ↔ highBits b = 0 := by
  constructor
  · intro h
    by_contra hbits
    obtain ⟨hne, hunsigned, hsigned⟩ := charSum_true_of_highBits hbits
    have htexts : (format 7 (charSum true b)).take 7 = (format 7 (charSum false b)).take 7 :=
      List.append_cancel_right h
    have hvalues := congrArg value htexts
    rw [value_take_format_of_lt hunsigned] at hvalues
    rcases hsigned with hsmall | ⟨hlow, hhigh, hlt⟩
    · rw [value_take_format_of_lt hsmall] at hvalues
      exact hne hvalues
    · rw [value_take_format hlow hhigh] at hvalues
      omega
  · intro hbits
    have hsums := sums_of_chars (b := b)
    rw [hbits, Nat.mul_zero, Nat.mul_zero, Nat.add_zero, Nat.add_zero] at hsums
    rw [chksum, chksum, charSum_eq, charSum_eq, hsums]

theorem chksum_eq_chksum_iff (r w : Bool) :
    chksum r b = chksum w b ↔ r = w ∨ highBits b = 0 := by
  cases r <;> cases w
  · exact iff_of_true rfl (.inl rfl)
  · rw [eq_comm, chksum_eq_iff, or_iff_right Bool.false_ne_true]
  · rw [chksum_eq_iff, or_iff_right Bool.false_ne_true.symm]
  · exact iff_of_true rfl (.inl rfl)

theorem cstring_chksum (signedChar : Bool) :
    chksum signedChar b = cstring (chksum signedChar b) ++ [0] := by
  have hdigits : 0 ∉ (format 7 (charSum signedChar b)).take 7 := by
    intro hzero
    exact absurd (isOctal_format 0 (List.mem_of_mem_take hzero)) (by decide)
  have hcstring : cstring ((format 7 (charSum signedChar b)).take 7 ++ [0] ++ []) = _ :=
    cstring_append hdigits
  rw [List.append_nil] at hcstring
  rw [chksum, snprintf, hcstring]

/-- A header passes the check of another machine just if it has no byte that is
negative there and not here, outside of the checksum. -/
theorem intact_header_iff {pwName grName : Bytes} {e : Entry} (r w : Bool) :
    Intact r (header pwName grName e w) ↔
      r = w ∨ ∀ i c, (header pwName grName e w).val[i]? = some c → ¬InChk i → c < 0x80 := by
  rw [← highBits_eq_zero_iff, ← chksum_eq_chksum_iff, Intact, field_chk, eq_comm]
  constructor
  · intro h
    rw [cstring_chksum r, cstring_chksum w, h]
  · intro h
    rw [h]

end CharKinds

end ElectrumLightning.TarHeaders
