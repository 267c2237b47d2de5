import Mathlib.Data.List.Basic

/-!
How a shell splits a text into the words of a simple command, by its blanks,
quotes, backslashes, operators and comments, and how a string is quoted so that
it becomes one word.
-/

namespace ElectrumLightning.ShellWords

/-- A text, as the numbers of its characters. -/
abbrev Text := List Nat

def text (s : String) : Text := s.toList.map Char.toNat

def newline : Nat := 10

def space : Nat := 32

def doubleQuote : Nat := 34

def hash : Nat := 35

def singleQuote : Nat := 39

def slash : Nat := 47

def backslash : Nat := 92

def tilde : Nat := 126

def isBlank (c : Nat) : Bool := c = 9 ∨ c = space

/-- The characters of the operators, of the expansions and of the patterns. -/
def isActive (c : Nat) : Bool := c = newline ∨ c ∈ text "|&;<>()$`*?["

def isLiteral (c : Nat) : Bool :=
  !isBlank c && !isActive c && c != backslash && c != singleQuote && c != doubleQuote

/-! ### Words -/

/-- Where the shell is in a text, with the word that it has begun. -/
inductive Mode where
  | between
  | word (w : Text)
  | escaped (w : Option Text)
  | single (w : Text)
  | double (w : Text)
  | doubleEscaped (w : Text)
  | tilde
  | comment
deriving DecidableEq

def unquoted (w : Option Text) (c : Nat) : Option Mode :=
  if isActive c then none
  else if c = backslash then some (.escaped w)
  else if c = singleQuote then some (.single (w.getD []))
  else if c = doubleQuote then some (.double (w.getD []))
  else some (.word (w.getD [] ++ [c]))

/-- One character, with the word that it completes. There is no result for an
operator, an expansion or a login name after a tilde. -/
def next (home : Text) : Mode → Nat → Option (Mode × List Text)
  | .between, c =>
      if isBlank c then some (.between, [])
      else if c = hash then some (.comment, [])
      else if c = tilde then some (.tilde, [])
      else (unquoted none c).map fun m => (m, [])
  | .word w, c =>
      if isBlank c then some (.between, [w])
      else (unquoted (some w) c).map fun m => (m, [])
  | .escaped w, c =>
      -- a backslash and a newline are removed
      if c = newline then some (w.elim .between .word, [])
      else some (.word (w.getD [] ++ [c]), [])
  | .single w, c =>
      if c = singleQuote then some (.word w, []) else some (.single (w ++ [c]), [])
  | .double w, c =>
      if c = doubleQuote then some (.word w, [])
      else if c ∈ text "$`" then none
      else if c = backslash then some (.doubleEscaped w, [])
      else some (.double (w ++ [c]), [])
  | .doubleEscaped w, c =>
      if c = newline then some (.double w, [])
      else if c = doubleQuote ∨ c = backslash ∨ c ∈ text "$`" then some (.double (w ++ [c]), [])
      else some (.double (w ++ [backslash, c]), [])
  | .tilde, c =>
      if c = slash then some (.word (home ++ [slash]), [])
      else if isBlank c then some (.between, [home])
      else none
  | .comment, c => if c = newline then none else some (.comment, [])

/-- The end of the text. -/
def finish (home : Text) : Mode → Option (List Text)
  | .between | .comment => some []
  | .word w => some [w]
  | .tilde => some [home]
  | .escaped _ | .single _ | .double _ | .doubleEscaped _ => none

def wordsFrom (home : Text) : Mode → Text → Option (List Text)
  | m, [] => finish home m
  | m, c :: cs => do
      let (m, ws) ← next home m c
      let more ← wordsFrom home m cs
      some (ws ++ more)

/-! ### Simple commands -/

def reserved : List Text :=
  ["!", "\x7b", "\x7d", "case", "do", "done", "elif", "else", "esac", "fi", "for", "if", "in",
    "then", "until", "while"].map text

def isNameStart (c : Nat) : Bool := 65 ≤ c ∧ c ≤ 90 ∨ 97 ≤ c ∧ c ≤ 122 ∨ c = 95

def isNameChar (c : Nat) : Bool := isNameStart c || (48 ≤ c && c ≤ 57)

def equalsSign : Nat := 61

/-- A name and an equals sign. -/
def isAssignment (w : Text) : Bool :=
  let name := w.takeWhile (· != equalsSign)
  decide (equalsSign ∈ w) && name.head?.any isNameStart && name.all isNameChar

/-- How the first word begins. -/
def leading (t : Text) : Text := (t.dropWhile isBlank).takeWhile isLiteral

/-- The words of a text that is one simple command, and none where an operator,
an expansion other than of a tilde, an assignment, a reserved word, an open
quote or a NUL may give the text another meaning. -/
def command (home t : Text) : Option (List Text) :=
  if 0 ∈ t ∨ leading t ∈ reserved ∨ isAssignment (leading t) then none
  else wordsFrom home .between t

/-! ### Quoting -/

/-- The characters that need no quotes. -/
def isSafe (c : Nat) : Bool := isNameChar c || decide (c ∈ text "@%+=:,.-/")

/-- Every single quote is closed before, put in double quotes, and opened
again. -/
def escape (s : Text) : Text :=
  s.flatMap fun c =>
    if c = singleQuote then [singleQuote, doubleQuote, singleQuote, doubleQuote, singleQuote]
    else [c]

/-- `shlex.quote`. -/
def quote (s : Text) : Text :=
  if s ≠ [] ∧ s.all isSafe then s else singleQuote :: escape s ++ [singleQuote]

/-- `" ".join(parts)`. -/
def joined (parts : List Text) : Text := List.intercalate [space] parts

/-! ### Parts of a word -/

section Parts

variable {home : Text} {m n : Mode} {c : Nat} {w : Text}

theorem wordsFrom_silent (h : next home m c = some (n, [])) (t : Text) :
    wordsFrom home m (c :: t) = wordsFrom home n t := by
  simp only [wordsFrom, h, Option.bind_eq_bind, Option.bind_some, List.nil_append]
  exact Option.bind_fun_some _

theorem wordsFrom_emit (h : next home m c = some (n, [w])) (t : Text) :
    wordsFrom home m (c :: t) = (wordsFrom home n t).map (w :: ·) := by
  simp only [wordsFrom, h, Option.bind_eq_bind, Option.bind_some]
  rcases wordsFrom home n t with _ | ws
  · rfl
  · rfl

theorem unquoted_literal (h : isLiteral c = true) (w : Option Text) :
    unquoted w c = some (.word (w.getD [] ++ [c])) := by
  simp only [isLiteral, Bool.and_eq_true, Bool.not_eq_true', bne_iff_ne, ne_eq] at h
  obtain ⟨⟨⟨⟨-, hactive⟩, hbackslash⟩, hsingle⟩, hdouble⟩ := h
  simp [unquoted, hactive, hbackslash, hsingle, hdouble]

theorem blank_of_literal (h : isLiteral c = true) : isBlank c = false := by
  simp only [isLiteral, Bool.and_eq_true, Bool.not_eq_true'] at h
  exact h.1.1.1.1

theorem wordsFrom_literal {s : Text} (h : ∀ c ∈ s, isLiteral c = true) (w t : Text) :
    wordsFrom home (.word w) (s ++ t) = wordsFrom home (.word (w ++ s)) t := by
  induction s generalizing w with
  | nil => simp
  | cons c s ih =>
      have hc := h c List.mem_cons_self
      have hnext : next home (.word w) c = some (.word (w ++ [c]), []) := by
        simp [next, blank_of_literal hc, unquoted_literal hc]
      rw [List.cons_append, wordsFrom_silent hnext,
        ih fun d hd => h d (List.mem_cons_of_mem _ hd), List.append_assoc]
      rfl

theorem wordsFrom_start {s : Text} (hc : isLiteral c = true) (hhash : c ≠ hash)
    (htilde : c ≠ tilde) (h : ∀ c ∈ s, isLiteral c = true) (t : Text) :
    wordsFrom home .between (c :: s ++ t) = wordsFrom home (.word (c :: s)) t := by
  have hnext : next home .between c = some (.word [c], []) := by
    simp [next, blank_of_literal hc, unquoted_literal hc, hhash, htilde]
  rw [List.cons_append, wordsFrom_silent hnext, wordsFrom_literal h]
  rfl

/-- A blank ends a word. -/
theorem wordsFrom_space (w t : Text) :
    wordsFrom home (.word w) (space :: t) = (wordsFrom home .between t).map (w :: ·) :=
  wordsFrom_emit rfl t

/-! ### Quoted strings -/

theorem wordsFrom_escape (s w t : Text) :
    wordsFrom home (.single w) (escape s ++ singleQuote :: t) = wordsFrom home (.word (w ++ s)) t := by
  induction s generalizing w with
  | nil =>
      rw [List.append_nil]
      exact wordsFrom_silent rfl t
  | cons c s ih =>
      rw [escape, List.flatMap_cons, ← escape, List.append_assoc]
      by_cases hc : c = singleQuote
      · subst hc
        have hclose : next home (.single w) singleQuote = some (.word w, []) := rfl
        have hopen : next home (.word w) doubleQuote = some (.double w, []) := rfl
        have hinside : next home (.double w) singleQuote =
            some (.double (w ++ [singleQuote]), []) := rfl
        have hleave : next home (.double (w ++ [singleQuote])) doubleQuote =
            some (.word (w ++ [singleQuote]), []) := rfl
        have hreopen : next home (.word (w ++ [singleQuote])) singleQuote =
            some (.single (w ++ [singleQuote]), []) := rfl
        rw [if_pos rfl]
        simp only [List.cons_append, List.nil_append]
        rw [wordsFrom_silent hclose, wordsFrom_silent hopen, wordsFrom_silent hinside,
          wordsFrom_silent hleave, wordsFrom_silent hreopen, ih, List.append_assoc]
        rfl
      · have hnext : next home (.single w) c = some (.single (w ++ [c]), []) := by simp [next, hc]
        rw [if_neg hc, List.singleton_append, wordsFrom_silent hnext, ih, List.append_assoc]
        rfl

end Parts

theorem lt_of_safe {c : Nat} (h : isSafe c = true) : c < 123 := by
  have hspecial : ∀ d ∈ text "@%+=:,.-/", d < 123 := by decide
  simp only [isSafe, isNameChar, isNameStart, Bool.or_eq_true, Bool.and_eq_true,
    decide_eq_true_eq] at h
  rcases h with h | h
  · omega
  · exact hspecial c h

theorem literal_of_safe {c : Nat} (h : isSafe c = true) :
    isLiteral c = true ∧ c ≠ hash ∧ c ≠ tilde := by
  have hall : ∀ c < 123, isSafe c = true → isLiteral c = true ∧ c ≠ hash ∧ c ≠ tilde := by
    decide
  exact hall c (lt_of_safe h) h

/-- A quoted string is one word, whatever its characters are. -/
theorem wordsFrom_quote (home s t : Text) :
    wordsFrom home .between (quote s ++ t) = wordsFrom home (.word s) t := by
  unfold quote
  split
  · rename_i hsafe
    obtain ⟨hne, hall⟩ := hsafe
    have hliteral : ∀ c ∈ s, isLiteral c = true ∧ c ≠ hash ∧ c ≠ tilde :=
      fun c hc => literal_of_safe (List.all_eq_true.mp hall c hc)
    cases s with
    | nil => exact absurd rfl hne
    | cons c s =>
        obtain ⟨hc, hhash, htilde⟩ := hliteral c List.mem_cons_self
        exact wordsFrom_start hc hhash htilde
          (fun d hd => (hliteral d (List.mem_cons_of_mem _ hd)).1) t
  · have hopen : next home .between singleQuote = some (.single [], []) := rfl
    rw [List.append_assoc, List.cons_append, wordsFrom_silent hopen, List.singleton_append,
      wordsFrom_escape]
    rfl

theorem wordsFrom_safe {s : Text} (h : ∀ c ∈ s, isSafe c = true) (home w t : Text) :
    wordsFrom home (.word w) (s ++ t) = wordsFrom home (.word (w ++ s)) t :=
  wordsFrom_literal (fun c hc => (literal_of_safe (h c hc)).1) w t

/-- A word of safe characters. -/
theorem wordsFrom_plain {s : Text} (h : ∀ c ∈ s, isSafe c = true) (hne : s ≠ []) (home t : Text) :
    wordsFrom home .between (s ++ t) = wordsFrom home (.word s) t := by
  have hquote : quote s = s := if_pos ⟨hne, List.all_eq_true.mpr h⟩
  have hword := wordsFrom_quote home s t
  rwa [hquote] at hword

/-- Quoted strings with blanks between them are as many words. -/
theorem wordsFrom_joined (home : Text) (params : List Text) :
    wordsFrom home .between (joined (params.map quote)) = some params := by
  induction params with
  | nil => rfl
  | cons p params ih =>
      cases params with
      | nil =>
          have hsingle : joined ([p].map quote) = quote p ++ [] := by
            simp [joined, List.intercalate_singleton]
          rw [hsingle, wordsFrom_quote]
          rfl
      | cons q params =>
          have hcons : joined ((p :: q :: params).map quote) =
              quote p ++ (space :: joined ((q :: params).map quote)) := by
            simp [joined, List.intercalate_cons_cons]
          rw [hcons, wordsFrom_quote, wordsFrom_space, ih]
          rfl

theorem notMem_of_safe {s : Text} (h : ∀ c ∈ s, isSafe c = true) : 0 ∉ s := by
  intro hmem
  have hzero := h 0 hmem
  revert hzero
  decide

theorem notMem_quote {s : Text} (h : 0 ∉ s) : 0 ∉ quote s := by
  have hescape : 0 ∉ escape s := by
    intro hmem
    obtain ⟨c, hc, hin⟩ := List.mem_flatMap.mp hmem
    split_ifs at hin
    · revert hin
      decide
    · exact h (List.mem_singleton.mp hin ▸ hc)
  unfold quote
  split_ifs
  · exact h
  · simpa [singleQuote] using hescape

theorem notMem_spaced {s t : Text} (hs : 0 ∉ s) (ht : 0 ∉ t) : 0 ∉ s ++ (space :: t) := by
  simp [hs, ht, space]

theorem notMem_joined {parts : List Text} (h : ∀ p ∈ parts, 0 ∉ p) : 0 ∉ joined parts := by
  induction parts with
  | nil => exact List.not_mem_nil
  | cons p parts ih =>
      have hp := h p List.mem_cons_self
      cases parts with
      | nil => simpa [joined, List.intercalate_singleton] using hp
      | cons q parts =>
          have hcons : joined (p :: q :: parts) = p ++ (space :: joined (q :: parts)) := by
            simp [joined, List.intercalate_cons_cons]
          rw [hcons]
          exact notMem_spaced hp (ih fun p' hp' => h p' (List.mem_cons_of_mem _ hp'))

end ElectrumLightning.ShellWords
