import ElectrumLightning.DistinctPorts
import ElectrumLightning.ShellWords

/-!
The command line that the lncli endpoint builds from a request. It is handed to
a shell, which is to see one command with the words of the request.
-/

namespace ElectrumLightning.LncliCommand

open ElectrumLightning.ByteStrings
open ElectrumLightning.DistinctPorts
open ElectrumLightning.HexText
open ElectrumLightning.PortAllocation
open ElectrumLightning.ShellWords

/-- The decimal text of an integer. -/
def str : Int → Text
  | .ofNat n => (Nat.toDigits 10 n).map Char.toNat
  | .negSucc n => text "-" ++ (Nat.toDigits 10 (n + 1)).map Char.toNat

/-- The `cmd` of `handlePost`. The first of the parameters is the key. -/
def cmd (portPair : PortPair) (method : Text) (params : List Text) : Text :=
  text "~/go/bin/lncli --lnddir=" ++ text portPair.lnddir ++ text " --rpcserver=localhost:" ++
    str portPair.lndRPCPort ++ [space] ++ quote method ++ [space] ++
      joined ((params.drop 1).map quote)

/-! ### The parts without quotes -/

theorem text_append (s t : String) : text (s ++ t) = text s ++ text t := by
  simp [text]

theorem safe_hexDigit {n : Nat} (h : n < 16) : isSafe (hexDigit n).toNat = true := by
  revert n
  decide

theorem safe_hexlify (key : Bytes) : ∀ c ∈ text (hexlify key), isSafe c = true := by
  rw [text, hexlify, String.toList_ofList]
  induction key with
  | nil => simp [hexDigits]
  | cons b key ih =>
      have hbyte : b.toNat < 256 := b.toNat_lt
      simp only [hexDigits, List.map_cons, List.forall_mem_cons]
      exact ⟨safe_hexDigit (by omega), safe_hexDigit (by omega), ih⟩

/-- The directory of a node is `/tmp/lnd_` and hexadecimal digits. -/
theorem safe_lnddir (key : Bytes) : ∀ c ∈ text (lnddir key), isSafe c = true := by
  have hstart : ∀ c ∈ text "/tmp/lnd_", isSafe c = true := by decide
  rw [lnddir, text_append]
  exact List.forall_mem_append.mpr ⟨hstart, safe_hexlify key⟩

theorem safe_digits (n : Nat) : ∀ c ∈ (Nat.toDigits 10 n).map Char.toNat, isSafe c = true := by
  intro c hc
  obtain ⟨d, hd, rfl⟩ := List.mem_map.mp hc
  have hdigit : d.isDigit = true :=
    Nat.isDigit_of_mem_toDigits (Nat.succ_pos 9) (le_refl 10) hd
  simp only [Char.isDigit, ge_iff_le, Bool.and_eq_true, decide_eq_true_eq, UInt32.le_iff_toNat_le]
    at hdigit
  have hname : isNameChar d.toNat = true := by
    simp only [isNameChar, Bool.or_eq_true, Bool.and_eq_true, decide_eq_true_eq]
    exact .inr hdigit
  simp [isSafe, hname]

theorem safe_str (i : Int) : ∀ c ∈ str i, isSafe c = true := by
  cases i with
  | ofNat n => exact safe_digits n
  | negSucc n =>
      have hminus : ∀ c ∈ text "-", isSafe c = true := by decide
      exact List.forall_mem_append.mpr ⟨hminus, safe_digits (n + 1)⟩

/-! ### The command line -/

theorem leading_lncli (t : Text) :
    leading (text "~/go/bin/lncli" ++ space :: t) = text "~/go/bin/lncli" := by
  rfl

theorem wordsFrom_lncli (home t : Text) :
    wordsFrom home .between (text "~/go/bin/lncli" ++ t) =
      wordsFrom home (.word (home ++ text "/go/bin/lncli")) t := by
  have hsafe : ∀ c ∈ text "go/bin/lncli", isSafe c = true := by decide
  have htilde : text "~/go/bin/lncli" = tilde :: slash :: text "go/bin/lncli" := by decide
  have hslash : text "/go/bin/lncli" = [slash] ++ text "go/bin/lncli" := by decide
  have hopen : next home .between tilde = some (.tilde, []) := rfl
  have hhome : next home .tilde slash = some (.word (home ++ [slash]), []) := rfl
  rw [htilde, hslash, List.cons_append, List.cons_append, wordsFrom_silent hopen,
    wordsFrom_silent hhome, wordsFrom_safe hsafe, List.append_assoc]

theorem cmd_eq (portPair : PortPair) (method : Text) (params : List Text) :
    cmd portPair method params =
      text "~/go/bin/lncli" ++ (space :: (text "--lnddir=" ++ text portPair.lnddir ++
        (space :: (text "--rpcserver=localhost:" ++ str portPair.lndRPCPort ++
          (space :: (quote method ++ (space :: joined ((params.drop 1).map quote)))))))) := by
  have hlncli : text "~/go/bin/lncli --lnddir=" =
      text "~/go/bin/lncli" ++ (space :: text "--lnddir=") := by decide
  have hserver : text " --rpcserver=localhost:" = space :: text "--rpcserver=localhost:" := by
    decide
  simp only [cmd, hlncli, hserver, List.append_assoc, List.cons_append, List.nil_append]

theorem safe_option (name : String) {value : Text} (hname : ∀ c ∈ text name, isSafe c = true)
    (hvalue : ∀ c ∈ value, isSafe c = true) : ∀ c ∈ text name ++ value, isSafe c = true :=
  List.forall_mem_append.mpr ⟨hname, hvalue⟩

/-- Two words of safe characters and then quoted ones. -/
theorem wordsFrom_arguments {lnddir server : Text} (hlnddir : ∀ c ∈ lnddir, isSafe c = true)
    (hserver : ∀ c ∈ server, isSafe c = true) (hne : lnddir ≠ []) (hne' : server ≠ [])
    (home method : Text) (params : List Text) :
    wordsFrom home .between (lnddir ++ (space :: (server ++
        (space :: (quote method ++ (space :: joined (params.map quote))))))) =
      some (lnddir :: server :: method :: params) := by
  rw [wordsFrom_plain hlnddir hne, wordsFrom_space, wordsFrom_plain hserver hne', wordsFrom_space,
    wordsFrom_quote, wordsFrom_space, wordsFrom_joined]
  rfl

theorem text_append_ne_nil {name : String} {value : Text} (h : text name ≠ []) :
    text name ++ value ≠ [] :=
  fun hnil => h (List.append_eq_nil_iff.mp hnil).1

/-- For every key, offset, method and parameters the shell sees one command,
whose words are the path of `lncli`, the two options, the method, and the
parameters after the key. -/
theorem command_cmd (home : Text) (key : Bytes) (offset : Int) (method : Text)
    (params : List Text) (hmethod : 0 ∉ method) (hparams : ∀ p ∈ params.drop 1, 0 ∉ p) :
    command home (cmd (portPair (services key offset)) method params) =
      some ([home ++ text "/go/bin/lncli", text "--lnddir=/tmp/lnd_" ++ text (hexlify key),
        text "--rpcserver=localhost:" ++ str (10009 + offset), method] ++ params.drop 1) := by
  have hlnddir : ∀ c ∈ text "--lnddir=" ++ text (lnddir key), isSafe c = true :=
    safe_option _ (by decide +kernel) (safe_lnddir key)
  have hserver : ∀ c ∈ text "--rpcserver=localhost:" ++ str (10009 + offset), isSafe c = true :=
    safe_option _ (by decide +kernel) (safe_str _)
  have hdirectory : text "--lnddir=" ++ text (lnddir key) =
      text "--lnddir=/tmp/lnd_" ++ text (hexlify key) := by
    rw [lnddir, text_append, ← List.append_assoc]
    rfl
  have hwords : ∀ p ∈ (params.drop 1).map quote, 0 ∉ p := by
    intro p hp
    obtain ⟨q, hq, rfl⟩ := List.mem_map.mp hp
    exact notMem_quote (hparams q hq)
  have hnul := notMem_spaced (s := text "~/go/bin/lncli") (by decide +kernel)
    (notMem_spaced (notMem_of_safe hlnddir) (notMem_spaced (notMem_of_safe hserver)
      (notMem_spaced (notMem_quote hmethod) (notMem_joined hwords))))
  have harguments := wordsFrom_arguments hlnddir hserver (text_append_ne_nil (by decide +kernel))
    (text_append_ne_nil (by decide +kernel)) home method (params.drop 1)
  have hcmd := cmd_eq (portPair (services key offset)) method params
  have hsimple : ¬ (leading (cmd (portPair (services key offset)) method params) ∈ reserved ∨
      isAssignment (leading (cmd (portPair (services key offset)) method params)) = true) := by
    rw [hcmd, leading_lncli]
    decide +kernel
  rw [command, if_neg (not_or.mpr ⟨hcmd ▸ hnul, hsimple⟩), hcmd, wordsFrom_lncli,
    wordsFrom_space]
  exact (congrArg _ harguments).trans (by rw [hdirectory]; rfl)

/-! ### A request that tries to be more than one command -/

/-- The words of the injected method and parameters are passed on as they are. -/
theorem command_injection :
    (0 ∉ text "getinfo; reboot" ∧ ∀ p ∈ [text "it's", text "", text "$(id)\n"], 0 ∉ p) ∧
      command (text "/root") (cmd (portPair (services [0x0a] 0)) (text "getinfo; reboot")
        [text "Cg==", text "it's", text "", text "$(id)\n"]) =
      some ([text "/root" ++ text "/go/bin/lncli",
        text "--lnddir=/tmp/lnd_" ++ text (hexlify [0x0a]),
        text "--rpcserver=localhost:" ++ str (10009 + 0), text "getinfo; reboot"] ++
          [text "Cg==", text "it's", text "", text "$(id)\n"].drop 1) := by
  have hmethod : 0 ∉ text "getinfo; reboot" := by decide +kernel
  have hparams : ∀ p ∈ [text "it's", text "", text "$(id)\n"], 0 ∉ p := by decide +kernel
  exact ⟨⟨hmethod, hparams⟩, command_cmd (text "/root") [0x0a] 0 (text "getinfo; reboot")
    [text "Cg==", text "it's", text "", text "$(id)\n"] hmethod hparams⟩

end ElectrumLightning.LncliCommand
