import ElectrumLightning.HubRequests
import ElectrumLightning.LncliCommand
import ElectrumLightning.PeerMesh

/-!
The command lines that the hub hands to a shell: for the node of a wallet, for
the question whether it is up, for its connections to other nodes, and for the
archive of its directory.
-/

namespace ElectrumLightning.HubCommands

open ElectrumLightning.ByteStrings
open ElectrumLightning.DistinctPorts
open ElectrumLightning.LabelledRuns
open ElectrumLightning.LncliCommand
open ElectrumLightning.OneToOneMaps
open ElectrumLightning.PeerMesh
open ElectrumLightning.PortAllocation (Chain PortPair lnddir)
open ElectrumLightning.ShellWords

/-! ### The command lines of the hub -/

/-- The options for the network that the hub was started for. -/
def network (simnet : Bool) : Text :=
  if simnet then
    text "--bitcoin.simnet --bitcoin.node=bitcoind --bitcoind.rpcuser=doggman" ++
      text " --bitcoind.rpcpass=donkey --bitcoind.zmqpath=tcp://127.0.0.1:28332"
  else
    text "--bitcoin.node=btcd --btcd.rpcuser=youruser --btcd.rpcpass=SomeDecentp4ssw0rd" ++
      text " --btcd.rpchost=localhost:18334 --bitcoin.testnet"

/-- The first `cmd` of `get_lnd_server`. -/
def lndCmd (simnet : Bool) (c : Chain) : Text :=
  text "~/go/bin/lnd --debuglevel warn --configfile=/dev/null --rpclisten=localhost:" ++
    str c.rpcport ++ text " --restlisten=localhost:" ++ str c.restport ++ text " --lnddir=" ++
    text c.lnddir ++ text " --listen=localhost:" ++ str c.peerport ++
    text " --bitcoin.active " ++ network simnet ++ text " --noencryptwallet --electrumport " ++
    str c.serverPort

/-- The second `cmd` of `get_lnd_server`. -/
def getinfoCmd (c : Chain) : Text :=
  text "~/go/bin/lncli --lnddir=" ++ text c.lnddir ++ text " --rpcserver=localhost:" ++
    str c.rpcport ++ text " getinfo"

/-- The `cmd` of `connectOtherNodes`. -/
def connectCmd (c : Chain) (otherPubkey : Text) (otherPort : Int) : Text :=
  text "~/go/bin/lncli --lnddir=" ++ text c.lnddir ++ text " --rpcserver=localhost:" ++
    str c.rpcport ++ text " connect " ++ quote (otherPubkey ++ text "@localhost:" ++ str otherPort)

/-- The `cmd` of `handleGet`. -/
def tarCmd (pair : PortPair) : Text := text "tar c " ++ quote (text pair.lnddir)

/-! ### A program and its arguments -/

def line (program : Text) (args : List Text) : Text :=
  program ++ args.flatMap fun a => space :: quote a

/-- The shell takes a text as the beginning of a simple command. -/
structure Invokes (home program word : Text) : Prop where
  opens : ∀ t, wordsFrom home .between (program ++ t) = wordsFrom home (.word word) t
  noNul : 0 ∉ program
  simple : ¬(program ∈ reserved ∨ isAssignment program = true)
  literal : ∀ c ∈ program, isLiteral c = true

theorem wordsFrom_line (home w : Text) (args : List Text) :
    wordsFrom home (.word w) (args.flatMap fun a => space :: quote a) = some (w :: args) := by
  induction args generalizing w with
  | nil => rfl
  | cons a args ih =>
      rw [List.flatMap_cons, List.cons_append, wordsFrom_space, wordsFrom_quote, ih]
      rfl

theorem leading_program {program : Text} (h : ∀ c ∈ program, isLiteral c = true)
    (hne : program ≠ []) (t : Text) : leading (program ++ space :: t) = program := by
  obtain ⟨c, rest, rfl⟩ := List.exists_cons_of_ne_nil hne
  have hblank : isBlank c = false := blank_of_literal (h c List.mem_cons_self)
  have hdrop : (c :: rest ++ space :: t).dropWhile isBlank = c :: rest ++ space :: t := by
    rw [List.cons_append, List.dropWhile_cons_of_neg]
    rw [hblank]
    exact Bool.false_ne_true
  have hspace : ¬isLiteral space = true := by decide
  rw [leading, hdrop, List.takeWhile_append_of_pos h, List.takeWhile_cons_of_neg hspace,
    List.append_nil]

theorem command_program {home program word : Text} (h : Invokes home program word)
    (hne : program ≠ []) {t : Text} (hnul : 0 ∉ t) :
    command home (program ++ space :: t) = wordsFrom home (.word word) (space :: t) := by
  rw [command, leading_program h.literal hne,
    if_neg (not_or.mpr ⟨notMem_spaced h.noNul hnul, h.simple⟩), h.opens]

/-- Quoted arguments reach the program as they are, and as nothing else. -/
theorem command_line {home program word : Text} (h : Invokes home program word)
    (hne : program ≠ []) {arg : Text} {args : List Text} (hargs : ∀ a ∈ arg :: args, 0 ∉ a) :
    command home (line program (arg :: args)) = some (word :: arg :: args) := by
  have hnul : 0 ∉ quote arg ++ args.flatMap fun a => space :: quote a := by
    rw [List.forall_mem_cons] at hargs
    intro hzero
    rcases List.mem_append.mp hzero with hfirst | hzero
    · exact notMem_quote hargs.1 hfirst
    · obtain ⟨a, ha, hzero⟩ := List.mem_flatMap.mp hzero
      rcases List.mem_cons.mp hzero with hspace | hquote
      · cases hspace
      · exact notMem_quote (hargs.2 a ha) hquote
  rw [line, List.flatMap_cons, List.cons_append, command_program h hne hnul]
  exact wordsFrom_line home word (arg :: args)

theorem invokes_lnd (home : Text) :
    Invokes home (text "~/go/bin/lnd") (home ++ text "/go/bin/lnd") where
  opens := by
    intro t
    have hopen : next home .between tilde = some (.tilde, []) := rfl
    have hhome : next home .tilde slash = some (.word (home ++ [slash]), []) := rfl
    have hsafe : ∀ c ∈ text "go/bin/lnd", isSafe c = true := by decide
    change wordsFrom home .between (tilde :: slash :: (text "go/bin/lnd" ++ t)) = _
    rw [wordsFrom_silent hopen, wordsFrom_silent hhome, wordsFrom_safe hsafe, List.append_assoc]
    rfl
  noNul := by decide
  simple := by decide
  literal := by decide

theorem invokes_lncli (home : Text) :
    Invokes home (text "~/go/bin/lncli") (home ++ text "/go/bin/lncli") where
  opens := wordsFrom_lncli home
  noNul := by decide
  simple := by decide
  literal := by decide

theorem invokes_tar (home : Text) : Invokes home (text "tar") (text "tar") where
  opens := wordsFrom_plain (by decide) (by decide) home
  noNul := by decide
  simple := by decide
  literal := by decide

/-! ### The arguments of the commands -/

def constantArgs : List Text :=
  ["--debuglevel", "warn", "--configfile=/dev/null", "--bitcoin.active", "--noencryptwallet",
    "--electrumport"].map text

def networkArgs (simnet : Bool) : List Text :=
  if simnet then
    ["--bitcoin.simnet", "--bitcoin.node=bitcoind", "--bitcoind.rpcuser=doggman",
      "--bitcoind.rpcpass=donkey", "--bitcoind.zmqpath=tcp://127.0.0.1:28332"].map text
  else
    ["--bitcoin.node=btcd", "--btcd.rpcuser=youruser", "--btcd.rpcpass=SomeDecentp4ssw0rd",
      "--btcd.rpchost=localhost:18334", "--bitcoin.testnet"].map text

/-- The arguments that every node gets. -/
def sharedArgs (simnet : Bool) : List Text := constantArgs ++ networkArgs simnet

def rpclisten (c : Chain) : Text := text "--rpclisten=localhost:" ++ str c.rpcport

def restlisten (c : Chain) : Text := text "--restlisten=localhost:" ++ str c.restport

def lnddirOption (c : Chain) : Text := text "--lnddir=" ++ text c.lnddir

def listen (port : Int) : Text := text "--listen=localhost:" ++ str port

def rpcserver (c : Chain) : Text := text "--rpcserver=localhost:" ++ str c.rpcport

/-- The arguments that are for one node. -/
def ownArgs (c : Chain) : List Text :=
  [rpclisten c, restlisten c, lnddirOption c, listen c.peerport, str c.serverPort]

def lndArgs (simnet : Bool) (c : Chain) : List Text :=
  ["--debuglevel", "warn", "--configfile=/dev/null"].map text ++
    [rpclisten c, restlisten c, lnddirOption c, listen c.peerport, text "--bitcoin.active"] ++
    networkArgs simnet ++
    [text "--noencryptwallet", text "--electrumport", str c.serverPort]

/-- A word that needs no quotes. -/
def Plain (s : Text) : Prop := s ≠ [] ∧ ∀ c ∈ s, isSafe c = true

instance (s : Text) : Decidable (Plain s) := inferInstanceAs (Decidable (_ ∧ _))

theorem Plain.quote_eq {s : Text} (h : Plain s) : quote s = s :=
  if_pos ⟨h.1, List.all_eq_true.mpr h.2⟩

theorem Plain.noNul {s : Text} (h : Plain s) : 0 ∉ s := notMem_of_safe h.2

theorem plain_option {name value : Text} (hname : Plain name)
    (hvalue : ∀ c ∈ value, isSafe c = true) : Plain (name ++ value) :=
  ⟨fun hnil => hname.1 (List.append_eq_nil_iff.mp hnil).1,
    List.forall_mem_append.mpr ⟨hname.2, hvalue⟩⟩

theorem str_ne_nil (i : Int) : str i ≠ [] := by
  cases i with
  | ofNat n => exact fun h => Nat.toDigits_ne_nil (List.map_eq_nil_iff.mp h)
  | negSucc n => exact List.cons_ne_nil _ _

theorem plain_networkArgs (simnet : Bool) : ∀ a ∈ networkArgs simnet, Plain a := by
  cases simnet <;> decide

theorem plain_constantArgs : ∀ a ∈ constantArgs, Plain a := by
  decide

theorem plain_sharedArgs (simnet : Bool) : ∀ a ∈ sharedArgs simnet, Plain a :=
  List.forall_mem_append.mpr ⟨plain_constantArgs, plain_networkArgs simnet⟩

section Chains

variable (simnet : Bool) {c : Chain}

theorem plain_ownArgs (hc : ∀ d ∈ text c.lnddir, isSafe d = true) : ∀ a ∈ ownArgs c, Plain a := by
  intro a ha
  simp only [ownArgs, List.mem_cons, List.not_mem_nil, or_false] at ha
  rcases ha with rfl | rfl | rfl | rfl | rfl
  · exact plain_option (by decide) (safe_str _)
  · exact plain_option (by decide) (safe_str _)
  · exact plain_option (by decide) hc
  · exact plain_option (by decide) (safe_str _)
  · exact ⟨str_ne_nil _, safe_str _⟩

/-- Every argument of a node is shared by all nodes or its own. -/
theorem mem_lndArgs {a : Text} (h : a ∈ lndArgs simnet c) :
    a ∈ sharedArgs simnet ∨ a ∈ ownArgs c := by
  have hconstant {n m : Nat} (h : a ∈ (constantArgs.drop n).take m) : a ∈ sharedArgs simnet :=
    List.mem_append_left _ (List.mem_of_mem_drop (List.mem_of_mem_take h))
  have hparts : lndArgs simnet c = (constantArgs.drop 0).take 3 ++ (ownArgs c).take 4 ++
      (constantArgs.drop 3).take 1 ++ networkArgs simnet ++ (constantArgs.drop 4).take 2 ++
        (ownArgs c).drop 4 := by
    simp only [lndArgs, List.append_assoc]
    rfl
  rw [hparts] at h
  simp only [List.mem_append] at h
  rcases h with ((((hfirst | hown) | hactive) | hnetwork) | hlast) | hport
  · exact .inl (hconstant hfirst)
  · exact .inr (List.mem_of_mem_take hown)
  · exact .inl (hconstant hactive)
  · exact .inl (List.mem_append_right _ hnetwork)
  · exact .inl (hconstant hlast)
  · exact .inr (List.mem_of_mem_drop hport)

theorem plain_lndArgs (hc : ∀ d ∈ text c.lnddir, isSafe d = true) :
    ∀ a ∈ lndArgs simnet c, Plain a := by
  intro a ha
  rcases mem_lndArgs simnet ha with hshared | hown
  · exact plain_sharedArgs simnet a hshared
  · exact plain_ownArgs hc a hown

theorem line_of_plain (program : Text) {args : List Text} (h : ∀ a ∈ args, Plain a) :
    line program args = program ++ args.flatMap fun a => space :: a := by
  rw [line]
  congr 1
  refine List.flatMap_congr fun a ha => ?_
  rw [(h a ha).quote_eq]

theorem lndCmd_eq (hc : ∀ d ∈ text c.lnddir, isSafe d = true) :
    lndCmd simnet c = line (text "~/go/bin/lnd") (lndArgs simnet c) := by
  have hstart :
      text "~/go/bin/lnd --debuglevel warn --configfile=/dev/null --rpclisten=localhost:" =
      text "~/go/bin/lnd" ++ space :: (text "--debuglevel" ++ space :: (text "warn" ++
        space :: (text "--configfile=/dev/null" ++ space :: text "--rpclisten=localhost:"))) := by
    simp [text, space]
  have hrest : text " --restlisten=localhost:" = space :: text "--restlisten=localhost:" := by
    simp [text, space]
  have hlnddir : text " --lnddir=" = space :: text "--lnddir=" := by simp [text, space]
  have hlisten : text " --listen=localhost:" = space :: text "--listen=localhost:" := by
    simp [text, space]
  have hactive : text " --bitcoin.active " ++ network simnet =
      space :: (text "--bitcoin.active" ++ (space :: network simnet)) := by
    have hword : text " --bitcoin.active " = space :: (text "--bitcoin.active" ++ [space]) := by
      simp [text, space]
    rw [hword, List.cons_append, List.append_assoc, List.singleton_append]
  have hnetwork : space :: network simnet = (networkArgs simnet).flatMap fun a => space :: a := by
    cases simnet <;> simp [network, networkArgs, text, space]
  have hlast : text " --noencryptwallet --electrumport " =
      space :: (text "--noencryptwallet" ++ space :: (text "--electrumport" ++ [space])) := by
    simp [text, space]
  rw [line_of_plain _ (plain_lndArgs simnet hc), lndCmd, hstart, hrest, hlnddir, hlisten,
    List.append_assoc _ (text " --bitcoin.active "), hactive, hnetwork, hlast]
  simp only [lndArgs, rpclisten, restlisten, lnddirOption, listen, List.flatMap_append,
    List.flatMap_cons, List.flatMap_nil, List.map_cons, List.map_nil, List.append_assoc,
    List.cons_append, List.nil_append, List.append_nil]

end Chains

/-! ### Nodes that share no address and no directory -/

theorem text_injective : Function.Injective text := by
  intro s t h
  have hchars : Function.Injective Char.toNat := fun _ _ => Char.toNat_inj.mp
  exact String.toList_inj.mp (List.map_injective_iff.mpr hchars h)

theorem digit_of_mem {n c : Nat} (h : c ∈ (Nat.toDigits 10 n).map Char.toNat) : 48 ≤ c := by
  obtain ⟨d, hd, rfl⟩ := List.mem_map.mp h
  have hdigit : d.isDigit = true :=
    Nat.isDigit_of_mem_toDigits (Nat.succ_pos 9) (le_refl 10) hd
  simp only [Char.isDigit, ge_iff_le, Bool.and_eq_true, decide_eq_true_eq, UInt32.le_iff_toNat_le]
    at hdigit
  exact hdigit.1

theorem minus_eq : text "-" = [45] := by simp [text]

theorem str_injective : Function.Injective str := by
  have hsign (m n : Nat) : str (.ofNat m) ≠ str (.negSucc n) := by
    intro h
    have hmem : 45 ∈ str (.ofNat m) := by
      rw [h, str, minus_eq]
      exact List.mem_cons_self
    have hdigit := digit_of_mem hmem
    omega
  intro i j h
  cases i with
  | ofNat m =>
      cases j with
      | ofNat n =>
          rw [HubRequests.str_injective h]
      | negSucc n => exact absurd h (hsign m n)
  | negSucc m =>
      cases j with
      | ofNat n => exact absurd h.symm (hsign n m)
      | negSucc n =>
          rw [Nat.succ.inj (HubRequests.str_injective (List.append_cancel_left h))]

/-- What an argument is for, by the beginning of its name. A number has no name. -/
def tag (a : Text) : Text := if a.take 2 = [45, 45] then a.take 4 else []

theorem tag_rpclisten (c : Chain) : tag (rpclisten c) = [45, 45, 114, 112] := by
  simp [tag, rpclisten, text]

theorem tag_restlisten (c : Chain) : tag (restlisten c) = [45, 45, 114, 101] := by
  simp [tag, restlisten, text]

theorem tag_lnddirOption (c : Chain) : tag (lnddirOption c) = [45, 45, 108, 110] := by
  simp [tag, lnddirOption, text]

theorem tag_listen (port : Int) : tag (listen port) = [45, 45, 108, 105] := by
  simp [tag, listen, text]

/-- At most the first character of a number is a minus sign. -/
theorem tag_str (i : Int) : tag (str i) = [] := by
  refine if_neg fun h => ?_
  have hstr : str i = 45 :: 45 :: (str i).drop 2 := by
    conv_lhs => rw [← List.take_append_drop 2 (str i), h]
    rfl
  cases i with
  | ofNat n =>
      have hmem : 45 ∈ str (.ofNat n) := by
        rw [hstr]
        exact List.mem_cons_self
      have hdigit := digit_of_mem hmem
      omega
  | negSucc n =>
      have hdigits :
          (Nat.toDigits 10 (n + 1)).map Char.toNat = 45 :: (str (.negSucc n)).drop 2 := by
        rw [str, minus_eq, List.singleton_append] at hstr
        exact (List.cons.inj hstr).2
      have hmem : 45 ∈ (Nat.toDigits 10 (n + 1)).map Char.toNat := by
        rw [hdigits]
        exact List.mem_cons_self
      have hdigit := digit_of_mem hmem
      omega

theorem ownArgs_disjoint {c d : Chain} (h : Disjoint c d) {a : Text} (ha : a ∈ ownArgs c) :
    a ∉ ownArgs d := by
  intro hb
  simp only [ownArgs, List.mem_cons, List.not_mem_nil, or_false] at ha hb
  rcases ha with rfl | rfl | rfl | rfl | rfl <;> rcases hb with hb | hb | hb | hb | hb
  -- arguments for different things
  all_goals try
    refine absurd (congrArg tag hb) ?_
    simp only [tag_rpclisten, tag_restlisten, tag_lnddirOption, tag_listen, tag_str]
    decide
  · exact h.rpcport (str_injective (List.append_cancel_left hb))
  · exact h.restport (str_injective (List.append_cancel_left hb))
  · exact h.lnddir (text_injective (List.append_cancel_left hb))
  · exact h.peerport (str_injective (List.append_cancel_left hb))
  · exact h.serverPort (str_injective hb)

theorem shared_of_mem_lndArgs {simnet : Bool} {c d : Chain} (h : Disjoint c d) {a : Text}
    (hc : a ∈ lndArgs simnet c) (hd : a ∈ lndArgs simnet d) : a ∈ sharedArgs simnet := by
  rcases mem_lndArgs simnet hc with hshared | hown
  · exact hshared
  · exact (mem_lndArgs simnet hd).resolve_right (ownArgs_disjoint h hown)

/-! ### The addresses on which a node listens -/

def address (port : Int) : Text := text "localhost:" ++ str port

/-- The node is told to listen on the address. -/
def Listens (simnet : Bool) (c : Chain) (a : Text) : Prop :=
  text "--rpclisten=" ++ a ∈ lndArgs simnet c ∨ text "--restlisten=" ++ a ∈ lndArgs simnet c ∨
    text "--listen=" ++ a ∈ lndArgs simnet c

theorem address_injective : Function.Injective address :=
  fun _ _ h => str_injective (List.append_cancel_left h)

/-- No argument that all nodes get is for listening. -/
theorem tag_shared (simnet : Bool) : ∀ a ∈ sharedArgs simnet,
    tag a ≠ [45, 45, 114, 112] ∧ tag a ≠ [45, 45, 114, 101] ∧ tag a ≠ [45, 45, 108, 105] := by
  cases simnet <;> decide

theorem rpclisten_eq (c : Chain) : rpclisten c = text "--rpclisten=" ++ address c.rpcport := by
  simp [rpclisten, address, text]

theorem restlisten_eq (c : Chain) : restlisten c = text "--restlisten=" ++ address c.restport := by
  simp [restlisten, address, text]

theorem listen_eq (port : Int) : listen port = text "--listen=" ++ address port := by
  simp [listen, address, text]

/-- An option to listen is one of the node's own. -/
theorem listening_of_tag {simnet : Bool} {c : Chain} {option : Text}
    (hmem : option ∈ lndArgs simnet c)
    (htag : tag option = [45, 45, 114, 112] ∨ tag option = [45, 45, 114, 101] ∨
      tag option = [45, 45, 108, 105]) :
    option = rpclisten c ∨ option = restlisten c ∨ option = listen c.peerport := by
  rcases mem_lndArgs simnet hmem with hshared | hown
  · obtain ⟨hrpc, hrest, hpeer⟩ := tag_shared simnet option hshared
    exact absurd htag (not_or.mpr ⟨hrpc, not_or.mpr ⟨hrest, hpeer⟩⟩)
  · simp only [ownArgs, List.mem_cons, List.not_mem_nil, or_false] at hown
    rcases hown with rfl | rfl | rfl | rfl | rfl
    · exact .inl rfl
    · exact .inr (.inl rfl)
    · rw [tag_lnddirOption] at htag
      exact absurd htag (by decide)
    · exact .inr (.inr rfl)
    · rw [tag_str] at htag
      exact absurd htag (by decide)

/-- The port in it is the one of its kind. -/
theorem mem_of_listens {simnet : Bool} {c : Chain} {a : Text} (h : Listens simnet c a) :
    a = address c.rpcport ∨ a = address c.restport ∨ a = address c.peerport := by
  have htags : tag (text "--rpclisten=" ++ a) = [45, 45, 114, 112] ∧
      tag (text "--restlisten=" ++ a) = [45, 45, 114, 101] ∧
        tag (text "--listen=" ++ a) = [45, 45, 108, 105] := by
    simp [tag, text]
  obtain ⟨hrpc, hrest, hpeer⟩ := htags
  rcases h with h | h | h
  · rcases listening_of_tag h (.inl hrpc) with heq | heq | heq
    · exact .inl (List.append_cancel_left (heq.trans (rpclisten_eq c)))
    · rw [heq, tag_restlisten] at hrpc
      cases hrpc
    · rw [heq, tag_listen] at hrpc
      cases hrpc
  · rcases listening_of_tag h (.inr (.inl hrest)) with heq | heq | heq
    · rw [heq, tag_rpclisten] at hrest
      cases hrest
    · exact .inr (.inl (List.append_cancel_left (heq.trans (restlisten_eq c))))
    · rw [heq, tag_listen] at hrest
      cases hrest
  · rcases listening_of_tag h (.inr (.inr hpeer)) with heq | heq | heq
    · rw [heq, tag_rpclisten] at hpeer
      cases hpeer
    · rw [heq, tag_restlisten] at hpeer
      cases hpeer
    · exact .inr (.inr (List.append_cancel_left (heq.trans (listen_eq _))))

/-- A node listens on addresses with its own ports only. -/
theorem port_of_listens {simnet : Bool} {c : Chain} {port : Int}
    (h : Listens simnet c (address port)) : port ∈ ports c := by
  rcases mem_of_listens h with heq | heq | heq
  · rw [address_injective heq]
    simp [ports]
  · rw [address_injective heq]
    simp [ports]
  · rw [address_injective heq]
    simp [ports]

theorem listens_peerport (simnet : Bool) (c : Chain) : Listens simnet c (address c.peerport) := by
  refine .inr (.inr ?_)
  rw [← listen_eq]
  simp only [lndArgs, List.mem_append, List.mem_cons, true_or, or_true]

/-! ### What the shell makes of the commands -/

section Shell

variable (home : Text) (simnet : Bool) {c : Chain}

theorem command_lndCmd (hc : ∀ d ∈ text c.lnddir, isSafe d = true) :
    command home (lndCmd simnet c) = some ((home ++ text "/go/bin/lnd") :: lndArgs simnet c) := by
  rw [lndCmd_eq simnet hc]
  exact command_line (invokes_lnd home) (by decide)
    fun a ha => (plain_lndArgs simnet hc a ha).noNul

theorem plain_rpcserver : Plain (rpcserver c) := plain_option (by decide) (safe_str _)

theorem plain_lnddirOption (hc : ∀ d ∈ text c.lnddir, isSafe d = true) : Plain (lnddirOption c) :=
  plain_option (by decide) hc

/-- The commands of `lncli` begin with the directory and the server. -/
theorem lncli_eq (hc : ∀ d ∈ text c.lnddir, isSafe d = true) (args : List Text) :
    text "~/go/bin/lncli --lnddir=" ++ text c.lnddir ++ text " --rpcserver=localhost:" ++
        str c.rpcport ++ (args.flatMap fun a => space :: quote a) =
      line (text "~/go/bin/lncli") (lnddirOption c :: rpcserver c :: args) := by
  have hstart : text "~/go/bin/lncli --lnddir=" =
      text "~/go/bin/lncli" ++ space :: text "--lnddir=" := by simp [text, space]
  have hserver : text " --rpcserver=localhost:" = space :: text "--rpcserver=localhost:" := by
    simp [text, space]
  rw [line, List.flatMap_cons, List.flatMap_cons, (plain_lnddirOption hc).quote_eq,
    plain_rpcserver.quote_eq, hstart, hserver]
  simp only [lnddirOption, rpcserver, List.append_assoc, List.cons_append]

theorem command_lncli (hc : ∀ d ∈ text c.lnddir, isSafe d = true) {args : List Text}
    (hargs : ∀ a ∈ args, 0 ∉ a) :
    command home (line (text "~/go/bin/lncli") (lnddirOption c :: rpcserver c :: args)) =
      some ((home ++ text "/go/bin/lncli") :: lnddirOption c :: rpcserver c :: args) := by
  refine command_line (invokes_lncli home) (by decide) ?_
  exact List.forall_mem_cons.mpr ⟨(plain_lnddirOption hc).noNul,
    List.forall_mem_cons.mpr ⟨plain_rpcserver.noNul, hargs⟩⟩

theorem command_getinfoCmd (hc : ∀ d ∈ text c.lnddir, isSafe d = true) :
    command home (getinfoCmd c) =
      some [home ++ text "/go/bin/lncli", lnddirOption c, rpcserver c, text "getinfo"] := by
  have hplain : Plain (text "getinfo") := by decide
  have hgetinfo : text " getinfo" = [text "getinfo"].flatMap fun a => space :: quote a := by
    rw [List.flatMap_singleton, hplain.quote_eq]
    simp [text, space]
  rw [getinfoCmd, hgetinfo, lncli_eq hc]
  exact command_lncli home hc (by decide)

theorem command_connectCmd (hc : ∀ d ∈ text c.lnddir, isSafe d = true) {otherPubkey : Text}
    (hnul : 0 ∉ otherPubkey) (otherPort : Int) :
    command home (connectCmd c otherPubkey otherPort) =
      some [home ++ text "/go/bin/lncli", lnddirOption c, rpcserver c, text "connect",
        otherPubkey ++ text "@localhost:" ++ str otherPort] := by
  have hpeer : 0 ∉ otherPubkey ++ text "@localhost:" ++ str otherPort := by
    simp only [List.mem_append, not_or]
    exact ⟨⟨hnul, by decide⟩, notMem_of_safe (safe_str _)⟩
  have hargs : ∀ a ∈ [text "connect", otherPubkey ++ text "@localhost:" ++ str otherPort], 0 ∉ a :=
    List.forall_mem_cons.mpr ⟨by decide, List.forall_mem_singleton.mpr hpeer⟩
  have hplain : Plain (text "connect") := by decide
  have hconnect : text " connect " = space :: (quote (text "connect") ++ [space]) := by
    rw [hplain.quote_eq]
    simp [text, space]
  rw [← command_lncli home hc hargs, ← lncli_eq hc, connectCmd, hconnect]
  simp only [List.flatMap_cons, List.flatMap_nil, List.append_assoc, List.cons_append,
    List.nil_append, List.append_nil]

theorem command_tarCmd {pair : PortPair} (hpair : ∀ d ∈ text pair.lnddir, isSafe d = true) :
    command home (tarCmd pair) = some [text "tar", text "c", text pair.lnddir] := by
  have htar : tarCmd pair = line (text "tar") [text "c", text pair.lnddir] := by
    have hplain : Plain (text "c") := by decide
    have hstart : text "tar c " = text "tar" ++ space :: (quote (text "c") ++ [space]) := by
      rw [hplain.quote_eq]
      simp [text, space]
    rw [tarCmd, hstart, line]
    simp only [List.flatMap_cons, List.flatMap_nil, List.append_assoc, List.cons_append,
      List.nil_append, List.append_nil]
  rw [htar]
  refine command_line (invokes_tar home) (by decide) ?_
  exact List.forall_mem_cons.mpr
    ⟨by decide, List.forall_mem_singleton.mpr (notMem_of_safe hpair)⟩

end Shell

/-! ### The commands of a run -/

section Runs

variable {m n : Mesh}

theorem sound_of_reachable {keyToPort : Map String Int}
    (h : Reachable step Unrestricted (.start keyToPort) m) : Sound m :=
  h.invariant (sound_start keyToPort) fun _ _ _ hs _ hstep => sound_step hs hstep

/-- Where no saved offset is negative, the ports of all services are from their ranges. -/
theorem natural_of_reachable {keyToPort : Map String Int}
    (hsaved : ∀ hexKey port, keyToPort.lookup hexKey = some port → 0 ≤ port)
    (h : Reachable step Unrestricted (.start keyToPort) m) : Natural m.supplier := by
  refine h.invariant (I := fun m => Natural m.supplier) (natural_start hsaved) ?_
  intro m e n hm _ hstep
  cases e with
  | supplier event =>
      obtain ⟨s, hs, ⟨-, rfl⟩ | ⟨key, offset, -, -, rfl⟩⟩ := supplier_cases hstep
      · exact step_natural hm hs
      · exact step_natural hm hs
  | registers startup pubkey =>
      obtain ⟨peerport, -, rfl⟩ := Option.map_eq_some_iff.mp hstep
      exact hm
  | connects task =>
      simp only [step] at hstep
      split at hstep
      · obtain ⟨otherPubkey, -, rfl⟩ := Option.map_eq_some_iff.mp hstep
        exact hm
      · cases hstep

theorem safe_chain (h : Sound m) {key : Bytes} {c : Chain} (hc : (key, c) ∈ m.supplier.chains) :
    ∀ d ∈ text c.lnddir, isSafe d = true := by
  obtain ⟨offset, -, rfl⟩ := h.registered.owned.chains hc
  exact safe_lnddir key

/-- A command to connect names the address on which another node listens for peers, and
on which the wallet's own node does not. -/
theorem other_of_issued (h : Sound m) (simnet : Bool) {cmd : PeerMesh.Command}
    (hcmd : cmd ∈ m.issued) :
    ∃ c key' d, (cmd.key, c) ∈ m.supplier.chains ∧ (key', d) ∈ m.supplier.chains ∧
      key' ≠ cmd.key ∧ listen cmd.otherPort ∈ lndArgs simnet d ∧
        listen cmd.otherPort ∉ lndArgs simnet c := by
  obtain ⟨w, hw, hkey, hport⟩ := h.connecting.issued cmd hcmd
  have hregistered := h.registered.snapshots w hw _ hport
  obtain ⟨v, hv, hother⟩ := List.mem_map.mp ((h.registered.registered _).mpr (.inl hregistered))
  have hne : v.key ≠ cmd.key := by
    intro hsame
    have hwv := List.inj_on_of_nodup_map h.registered.keys hv hw (hsame.trans hkey.symm)
    rw [hwv] at hother
    rw [← hother] at hport
    exact h.registered.asymmetric w hw w hw hport hport
  have hc : (cmd.key, w.chain) ∈ m.supplier.chains :=
    (mem_chains_iff h.registered).mpr ⟨w, hw, hkey, rfl⟩
  have hd : (v.key, v.chain) ∈ m.supplier.chains :=
    (mem_chains_iff h.registered).mpr ⟨v, hv, rfl, rfl⟩
  have hlisten : listen cmd.otherPort ∈ lndArgs simnet v.chain := by
    rw [← hother]
    simp only [lndArgs, List.mem_append, List.mem_cons, true_or, or_true]
  refine ⟨w.chain, v.key, v.chain, hc, hd, hne, hlisten, fun hown => ?_⟩
  have hshared :=
    shared_of_mem_lndArgs (h.registered.owned.disjoint hc hd (Ne.symm hne)) hown hlisten
  exact (tag_shared simnet _ hshared).2.2 (tag_listen _)

/-- In every run the shell sees each command as one program with the arguments
that are meant for it; no two nodes are given the same argument for one purpose;
a wallet connects only to the address on which another wallet's node listens for
peers; and where no saved offset is negative, no two wallets share a port, no two
nodes an address to listen on, and no wallet connects to an address of its node. -/
theorem commands_of_run {keyToPort : Map String Int} (home : Text) (simnet : Bool)
    (h : Reachable step Unrestricted (.start keyToPort) m) :
    (∀ key c, (key, c) ∈ m.supplier.chains →
      command home (lndCmd simnet c) = some ((home ++ text "/go/bin/lnd") :: lndArgs simnet c) ∧
      command home (getinfoCmd c) =
        some [home ++ text "/go/bin/lncli", lnddirOption c, rpcserver c, text "getinfo"] ∧
      command home (tarCmd (portPair c)) = some [text "tar", text "c", text c.lnddir]) ∧
    (∀ key c key' d, (key, c) ∈ m.supplier.chains → (key', d) ∈ m.supplier.chains → key ≠ key' →
      ∀ a ∈ lndArgs simnet c, a ∈ lndArgs simnet d → a ∈ sharedArgs simnet) ∧
    (∀ cmd ∈ m.issued, 0 ∉ text cmd.otherPubkey →
      ∃ c key' d, (cmd.key, c) ∈ m.supplier.chains ∧ (key', d) ∈ m.supplier.chains ∧
        key' ≠ cmd.key ∧ listen cmd.otherPort ∈ lndArgs simnet d ∧
        listen cmd.otherPort ∉ lndArgs simnet c ∧
        command home (connectCmd c (text cmd.otherPubkey) cmd.otherPort) =
          some [home ++ text "/go/bin/lncli", lnddirOption c, rpcserver c, text "connect",
            text cmd.otherPubkey ++ text "@localhost:" ++ str cmd.otherPort]) ∧
    ((∀ hexKey port, keyToPort.lookup hexKey = some port → 0 ≤ port) →
      (∀ key c key' d, (key, c) ∈ m.supplier.chains → (key', d) ∈ m.supplier.chains → key ≠ key' →
        (∀ port ∈ ports c, port ∉ ports d) ∧ ∀ a, Listens simnet c a → ¬ Listens simnet d a) ∧
      ∀ cmd ∈ m.issued, ∀ c, (cmd.key, c) ∈ m.supplier.chains →
        ¬ Listens simnet c (address cmd.otherPort)) := by
  have hsound := sound_of_reachable h
  refine ⟨?_, ?_, ?_, fun hsaved => ?_⟩
  · intro key c hc
    have hsafe := safe_chain hsound hc
    exact ⟨command_lndCmd home simnet hsafe, command_getinfoCmd home hsafe,
      command_tarCmd home hsafe⟩
  · intro key c key' d hc hd hne a
    exact shared_of_mem_lndArgs (hsound.registered.owned.disjoint hc hd hne)
  · intro cmd hcmd hnul
    obtain ⟨c, key', d, hc, hd, hne, hlisten, hown⟩ := other_of_issued hsound simnet hcmd
    exact ⟨c, key', d, hc, hd, hne, hlisten, hown,
      command_connectCmd home (safe_chain hsound hc) hnul cmd.otherPort⟩
  · have hnatural := natural_of_reachable hsaved h
    have hports {key key' : Bytes} {c d : Chain} (hc : (key, c) ∈ m.supplier.chains)
        (hd : (key', d) ∈ m.supplier.chains) (hne : key ≠ key') {port : Int}
        (hport : port ∈ ports c) : port ∉ ports d :=
      hsound.registered.owned.notMem_ports hnatural hc hd hne hport
    refine ⟨fun key c key' d hc hd hne => ⟨fun port => hports hc hd hne, fun a ha hb => ?_⟩, ?_⟩
    · have hport : ∃ port, a = address port := by
        rcases mem_of_listens ha with heq | heq | heq
        · exact ⟨_, heq⟩
        · exact ⟨_, heq⟩
        · exact ⟨_, heq⟩
      obtain ⟨port, rfl⟩ := hport
      exact hports hc hd hne (port_of_listens ha) (port_of_listens hb)
    · intro cmd hcmd c hc hown
      obtain ⟨-, key', d, -, hd, hne, hlisten, -⟩ := other_of_issued hsound simnet hcmd
      have hother : Listens simnet d (address cmd.otherPort) := .inr (.inr (listen_eq _ ▸ hlisten))
      exact hports hc hd (Ne.symm hne) (port_of_listens hown) (port_of_listens hother)

def twoNodes : List PeerMesh.Event :=
  [.supplier (.get [0x0a]), .registers 0 "02aa", .supplier (.resume 0 .ready),
    .supplier (.get [0x0b]), .connects 1]

/-- The second wallet is told to connect to the node of the first. -/
theorem commands_of_twoNodes :
    ∃ m, run step (.start ∅) twoNodes = some m ∧ m.issued = [⟨[0x0b], 9735, "02aa"⟩] ∧
      (∃ c key' d, ([0x0b], c) ∈ m.supplier.chains ∧ (key', d) ∈ m.supplier.chains ∧
        key' ≠ [0x0b] ∧ listen 9735 ∈ lndArgs true d ∧ listen 9735 ∉ lndArgs true c ∧
        command (text "/root") (connectCmd c (text "02aa") 9735) =
          some [text "/root" ++ text "/go/bin/lncli", lnddirOption c, rpcserver c, text "connect",
            text "02aa" ++ text "@localhost:" ++ str 9735]) ∧
      ∀ c, ([0x0b], c) ∈ m.supplier.chains → ¬ Listens true c (address 9735) := by
  have hissued : (run step (.start ∅) twoNodes).map Mesh.issued =
      some [⟨[0x0b], 9735, "02aa"⟩] := by
    decide
  obtain ⟨m, hrun, hm⟩ := Option.map_eq_some_iff.mp hissued
  have hcmd : (⟨[0x0b], 9735, "02aa"⟩ : PeerMesh.Command) ∈ m.issued := by
    rw [hm]
    exact List.mem_cons_self
  have hsaved : ∀ hexKey port, (∅ : Map String Int).lookup hexKey = some port → 0 ≤ port := by
    intro hexKey port hlookup
    cases hlookup
  obtain ⟨-, -, hconnect, hapart⟩ :=
    commands_of_run (text "/root") true (reachable_of_runWithin hrun)
  exact ⟨m, hrun, hm, hconnect _ hcmd (by decide), (hapart hsaved).2 _ hcmd⟩

end Runs

end ElectrumLightning.HubCommands
