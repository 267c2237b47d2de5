import ElectrumLightning.Base64Text
import ElectrumLightning.ChainOwners
import ElectrumLightning.HubCommands

/-!
The two routes of the lncli endpoint, from the request to the command. Both ask
the supplier for the ports of the wallet that the request names, one by a
parameter of a JSON object and the other by the query of the URL.
-/

namespace ElectrumLightning.LncliEndpoint

open ElectrumLightning.Base64Text
open ElectrumLightning.ByteStrings
open ElectrumLightning.ChainOwners
open ElectrumLightning.DistinctPorts
open ElectrumLightning.HubCommands
open ElectrumLightning.JsonText (Json loads)
open ElectrumLightning.LabelledRuns
open ElectrumLightning.LncliCommand
open ElectrumLightning.OneToOneMaps
open ElectrumLightning.PortAllocation (PortPair State step)
open ElectrumLightning.ShellWords

/-! ### The key of a request -/

/-- The characters of a decoded string, with pairs of surrogates joined. -/
def characters : List Nat → Text
  | high :: low :: rest =>
      if 0xd800 ≤ high ∧ high < 0xdc00 ∧ 0xdc00 ≤ low ∧ low < 0xe000 then
        (0x10000 + (high - 0xd800) * 0x400 + (low - 0xdc00)) :: characters rest
      else high :: characters (low :: rest)
  | rest => rest

/-- `base64.b64decode` of a string: only ASCII is accepted. -/
def b64decode (t : Text) : Option Bytes :=
  if t.all (· < 0x80) then decode (t.map UInt8.ofNat) else none

/-- What can be indexed by a number: a list, or the characters of a string. -/
def elements : Json → Option (List Json)
  | .array items => some items
  | .string units => some ((characters units).map fun c => .string [c])
  | _ => none

/-- The `parsed_request` of `handlePost`. -/
def parsedRequest (recursionLimit : Nat) (content : Bytes) : Option Json :=
  (loads recursionLimit content).toOption

def params (v : Json) : Option (List Json) := (v.member? (text "params")).bind elements

/-- The key that `handlePost` gives to the supplier. -/
def postKey (v : Json) : Option Bytes := do
  let items ← params v
  match items.head? with
  | some (.string units) => b64decode (characters units)
  | _ => none

/-- The key that `handleGet` gives to the supplier. `unquote` is how a value in
the query of a URL is decoded. -/
def getKey (unquote : Bytes → Bytes) (privKeyHash : Bytes) : Option Bytes :=
  b64decode ((unquote privKeyHash).map UInt8.toNat)

/-! ### The command of a request -/

/-- The texts that `shlex.quote` takes for empty, and strings; it raises for
everything else. `isZero` says which numbers are zero. -/
def argument (isZero : Bytes → Bool) : Json → Option Text
  | .string units => some (characters units)
  | .array [] => some []
  | .object [] => some []
  | .constant t =>
      if t = [0x6e, 0x75, 0x6c, 0x6c] ∨ t = [0x66, 0x61, 0x6c, 0x73, 0x65] then some [] else none
  | .number t => if isZero t then some [] else none
  | _ => none

/-- The method and the parameters behind the key. -/
def postArgs (isZero : Bytes → Bool) (v : Json) : Option (Text × List Text) := do
  let method ← (v.member? (text "method")).bind (argument isZero)
  let items ← params v
  let args ← items.tail.mapM (argument isZero)
  return (method, args)

/-- The `cmd` of `handlePost`, with anything in the place of the key. -/
def postCmd (isZero : Bytes → Bool) (pair : PortPair) (v : Json) : Option Text :=
  (postArgs isZero v).map fun (method, args) => cmd pair method ([] :: args)

/-! ### Keys in the parameters -/

theorem b64decode_map (t : Bytes) :
    b64decode (t.map UInt8.toNat) = if t.all (· < 0x80) then decode t else none := by
  have hall : (t.map UInt8.toNat).all (· < 0x80) = t.all (· < 0x80) := by
    rw [List.all_map]
    congr 1
  have hid : (t.map UInt8.toNat).map UInt8.ofNat = t := by
    rw [List.map_map]
    exact (List.map_congr_left fun b _ => UInt8.ofNat_toNat).trans (List.map_id t)
  rw [b64decode, hall, hid]

theorem characters_of_small {units : List Nat} (h : ∀ u ∈ units, u < 0xd800) :
    characters units = units := by
  induction units using characters.induct with
  | case1 high low rest hpair ih =>
      have hhigh := h high List.mem_cons_self
      omega
  | case2 high low rest hpair ih =>
      rw [characters, if_neg hpair, ih fun u hu => h u (List.mem_cons_of_mem _ hu)]
  | case3 rest hshort =>
      rw [characters]
      exact hshort

/-- What is no digit may stand in the text of a key, so that it can be broken
into lines. -/
theorem postKey_of_filter {v : Json} {items : List Json} {t key : Bytes}
    (hparams : params v = some (.string (t.map UInt8.toNat) :: items))
    (hascii : ∀ b ∈ t, b < 0x80) (hkey : t.filter counts = encode key) :
    postKey v = some key := by
  have hsmall : ∀ u ∈ t.map UInt8.toNat, u < 0xd800 := by
    intro u hu
    obtain ⟨b, -, rfl⟩ := List.mem_map.mp hu
    have hb := b.toNat_lt
    omega
  have hall : t.all (· < 0x80) = true :=
    List.all_eq_true.mpr fun b hb => decide_eq_true (hascii b hb)
  rw [postKey, hparams]
  change b64decode (characters (t.map UInt8.toNat)) = some key
  rw [characters_of_small hsmall, b64decode_map, if_pos hall, decode_of_filter hkey]

/-! ### Keys in the query of a URL -/

/-- A plus sign stands for a space, and a percent sign is followed by two
digits. -/
def unquotePlus : Bytes → Bytes
  | [] => []
  | 0x2b :: t => 0x20 :: unquotePlus t
  | 0x25 :: high :: low :: t =>
      match JsonText.hexValue high, JsonText.hexValue low with
      | some h, some l => UInt8.ofNat (16 * h + l) :: unquotePlus t
      | _, _ => 0x25 :: unquotePlus (high :: low :: t)
  | b :: t => b :: unquotePlus t

def hexUpper (n : Nat) : UInt8 := if n < 10 then UInt8.ofNat (0x30 + n) else UInt8.ofNat (0x37 + n)

/-- Every byte that is no letter and no digit is escaped. -/
def quotePlus (t : Bytes) : Bytes :=
  t.flatMap fun b =>
    if (0x30 ≤ b ∧ b ≤ 0x39) ∨ (0x41 ≤ b ∧ b ≤ 0x5a) ∨ (0x61 ≤ b ∧ b ≤ 0x7a) then [b]
    else [0x25, hexUpper (b.toNat / 16), hexUpper (b.toNat % 16)]

theorem hexValue_hexUpper {n : Nat} (h : n < 16) : JsonText.hexValue (hexUpper n) = some n := by
  have hall : ∀ n : Fin 16, JsonText.hexValue (hexUpper n) = some n.val := by decide
  exact hall ⟨n, h⟩

theorem unquotePlus_escaped (b : UInt8) (t : Bytes) :
    unquotePlus (0x25 :: hexUpper (b.toNat / 16) :: hexUpper (b.toNat % 16) :: t) =
      b :: unquotePlus t := by
  have hb := b.toNat_lt
  rw [unquotePlus, hexValue_hexUpper (by omega), hexValue_hexUpper (by omega)]
  dsimp only
  rw [Nat.div_add_mod, UInt8.ofNat_toNat]

theorem unquotePlus_plain {b : UInt8} (hplus : b ≠ 0x2b) (hpercent : b ≠ 0x25) (t : Bytes) :
    unquotePlus (b :: t) = b :: unquotePlus t := by
  rw [unquotePlus]
  · exact hplus
  · intro high low t' h
    cases h
    exact absurd rfl hpercent

theorem unquotePlus_quotePlus (t : Bytes) : unquotePlus (quotePlus t) = t := by
  induction t with
  | nil => rfl
  | cons b t ih =>
      have hcons : quotePlus (b :: t) = (if (0x30 ≤ b ∧ b ≤ 0x39) ∨ (0x41 ≤ b ∧ b ≤ 0x5a) ∨
          (0x61 ≤ b ∧ b ≤ 0x7a) then [b] else
          [0x25, hexUpper (b.toNat / 16), hexUpper (b.toNat % 16)]) ++ quotePlus t := rfl
      rw [hcons]
      split_ifs with hplain
      · rw [List.singleton_append, unquotePlus_plain, ih]
        · rintro rfl
          revert hplain
          decide
        · rintro rfl
          revert hplain
          decide
      · rw [List.cons_append, List.cons_append, List.singleton_append, unquotePlus_escaped, ih]

/-- No character of the text is a percent sign, and all are ASCII. -/
theorem ascii_of_mem_encode {b : UInt8} {bs : Bytes} (h : b ∈ encode bs) :
    b < 0x80 ∧ b ≠ 0x25 := by
  have hall : ∀ n : Fin 64, digit n < 0x80 ∧ digit n ≠ 0x25 := by decide
  rcases mem_encode h with rfl | ⟨n, hn, rfl⟩
  · decide
  · exact hall ⟨n, hn⟩

theorem getKey_of_unquote {unquote : Bytes → Bytes} {t key : Bytes} (h : unquote t = encode key) :
    getKey unquote t = some key := by
  have hascii : (encode key).all (· < 0x80) = true :=
    List.all_eq_true.mpr fun b hb => decide_eq_true (ascii_of_mem_encode hb).1
  rw [getKey, h, b64decode_map, if_pos hascii, decode_encode]

/-- A key reaches the supplier if the client escapes it. -/
theorem getKey_quotePlus (key : Bytes) : getKey unquotePlus (quotePlus (encode key)) = some key :=
  getKey_of_unquote (unquotePlus_quotePlus _)

def plusToSpace (b : UInt8) : UInt8 := if b = 0x2b then 0x20 else b

theorem unquotePlus_of_noPercent {t : Bytes} (h : ∀ b ∈ t, b ≠ 0x25) :
    unquotePlus t = t.map plusToSpace := by
  induction t with
  | nil => rfl
  | cons b t ih =>
      rw [List.forall_mem_cons] at h
      rw [List.map_cons, ← ih h.2, plusToSpace]
      split_ifs with hplus
      · rw [hplus, unquotePlus]
      · exact unquotePlus_plain hplus h.1 t

theorem digits_plusToSpace {t : Bytes} (h : 0x2b ∈ t) :
    digits (t.map plusToSpace) < digits t := by
  have hle (t : Bytes) : digits (t.map plusToSpace) ≤ digits t := by
    rw [digits, List.countP_map]
    refine List.countP_mono_left fun b _ hb => ?_
    rw [Function.comp_apply, plusToSpace] at hb
    split_ifs at hb with hplus
    · cases hb
    · exact hb
  obtain ⟨front, back, rfl⟩ := List.append_of_mem h
  have hfront := hle front
  have hback := hle back
  have hplus : isDigit 0x2b = true := rfl
  have hspace : isDigit (plusToSpace 0x2b) = false := rfl
  simp only [digits, List.map_append, List.map_cons, List.countP_append, List.countP_cons, hplus,
    hspace, Bool.false_eq_true, if_true, if_false] at hfront hback ⊢
  omega

/-- A key that the client does not escape reaches the supplier just if its text
has no plus sign, which the query gives back as a space. -/
theorem getKey_encode_iff {unquote : Bytes → Bytes}
    (hunquote : ∀ t : Bytes, (∀ b ∈ t, b ≠ 0x25) → unquote t = t.map plusToSpace) (key : Bytes) :
    getKey unquote (encode key) = some key ↔ 0x2b ∉ encode key := by
  have hplain : unquote (encode key) = (encode key).map plusToSpace :=
    hunquote _ fun b hb => (ascii_of_mem_encode hb).2
  constructor
  · intro h hplus
    rw [getKey, hplain, b64decode_map] at h
    split_ifs at h
    exact decode_ne_of_digits_lt (digits_plusToSpace hplus) h
  · intro hplus
    have hsame : (encode key).map plusToSpace = encode key := by
      refine (List.map_congr_left fun b hb => ?_).trans (List.map_id _)
      exact if_neg fun heq : b = 0x2b => hplus (heq ▸ hb)
    exact getKey_of_unquote (hplain.trans hsame)

/-- The text `+w==` is taken for the text ` w==`. -/
theorem getKey_encode_plus : getKey unquotePlus (encode [0xfb]) ≠ some [0xfb] := by
  intro h
  exact (getKey_encode_iff (fun _ => unquotePlus_of_noPercent) [0xfb]).mp h (by decide)

/-! ### Which node a request reaches -/

/-- The body of a request to `handlePost`, or the value of `privKeyHash` in the
query of a request to `handleGet`. -/
inductive Request where
  | post (content : Bytes)
  | get (privKeyHash : Bytes)

namespace Request

variable (recursionLimit : Nat) (isZero : Bytes → Bool)

def key (unquote : Bytes → Bytes) : Request → Option Bytes
  | .post content => (parsedRequest recursionLimit content).bind postKey
  | .get privKeyHash => getKey unquote privKeyHash

/-- The command that is run with the ports that the supplier returned. -/
def cmd (pair : PortPair) : Request → Option Text
  | .post content => (parsedRequest recursionLimit content).bind (postCmd isZero pair)
  | .get _ => some (tarCmd pair)

end Request

section Runs

variable {keyToPort : Map String Int} {s : State} {key key' : Bytes} {pair pair' : PortPair}

end Runs

def content : Bytes :=
  (text "\x7b\"params\": [\"Cw==\", \"a b\"], \"method\": \"x\"\x7d").map UInt8.ofNat

def privKeyHash : Bytes := (text "Cg%3D%3D").map UInt8.ofNat

end ElectrumLightning.LncliEndpoint
