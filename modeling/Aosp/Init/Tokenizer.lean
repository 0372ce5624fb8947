import Aosp.Lib.Bytes

/-! # The tokenizer of `.rc` files

Model of `next_token` of `init/parser.cpp`.  `ptr` is what is left of the text,
without the NUL that `ParseData` appends; a NUL inside the text ends it as well.
The source writes the unescaped token over the text it has already read; here
the token is collected on the side.

`tokenLines` are the argument lists that the loop of `ParseData` handles, with their
line numbers.  Each token shortens the text (`nextToken_progress`), so the loop ends.
-/

namespace Aosp.Init

open Aosp.Lib List

/-! ## Model -/

def tab : UInt8 := 9
def carriageReturn : UInt8 := 13
def space : UInt8 := 32
def doubleQuote : UInt8 := 34
def backslash : UInt8 := 92
def letterN : UInt8 := 110
def letterR : UInt8 := 114
def letterT : UInt8 := 116

/-- `T_EOF`, `T_NEWLINE`, and `T_TEXT` with `state->text`. -/
inductive Token where
  | eof
  | newline
  | text (bytes : Bytes)
deriving DecidableEq

/-- `parse_state`; `nexttoken` is either 0 or `T_NEWLINE`. -/
structure ParseState where
  line : Nat := 0
  ptr : Bytes
  nexttoken : Bool := false
deriving DecidableEq

/-- Where the text loop of `next_token` stands: at `textresume`, eating white space
    after a folded line, or between double quotes. -/
inductive TextMode where
  | text
  | folded
  | quoted
deriving DecidableEq

/-- What one round of the text loop does: it goes to `textdone`, or returns `T_EOF`
    inside quotes, or writes some bytes and goes on. -/
inductive TextRound where
  | done (ptr : Bytes) (nexttoken : Bool)
  | eof (ptr : Bytes)
  | next (mode : TextMode) (written : Bytes) (folded : Nat) (ptr : Bytes)

/-- The `case '\\'` of the text loop, behind the backslash. -/
def escapeRound : Bytes → TextRound
  | [] => .done [] false
  | c :: tl =>
    if c = 0 then .done (c :: tl) false
    -- these four do not advance `x`: the escaped character is scanned once more
    else if c = letterN then .next .text [newline] 0 (c :: tl)
    else if c = letterR then .next .text [carriageReturn] 0 (c :: tl)
    else if c = letterT then .next .text [tab] 0 (c :: tl)
    else if c = backslash then .next .text [backslash] 0 (c :: tl)
    else if c = carriageReturn ∧ tl.head? ≠ some newline then .next .text [] 0 tl
    -- line continuation; behind \ <cr> the <lf> is still ahead
    else if c = carriageReturn ∨ c = newline then .next .folded [] 1 tl
    -- unknown escape -- just copy
    else .next .text [c] 0 tl

/-- The `switch` of the text loop. -/
def plainRound : Bytes → TextRound
  | [] => .done [] false
  | c :: tl =>
    if c = 0 then .done (c :: tl) false
    else if c = space ∨ c = tab ∨ c = carriageReturn then .done tl false
    else if c = newline then .done tl true
    else if c = doubleQuote then .next .quoted [] 0 tl
    else if c = backslash then escapeRound tl
    else .next .text [c] 0 tl

def quotedRound : Bytes → TextRound
  -- unterminated quoted thing
  | [] => .eof []
  | c :: tl =>
    if c = 0 then .eof (c :: tl)
    else if c = doubleQuote then .next .text [] 0 tl
    else .next .quoted [c] 0 tl

def textRound : TextMode → Bytes → TextRound
  | .text, ptr => plainRound ptr
  | .folded, [] => plainRound []
  -- eat any extra whitespace
  | .folded, c :: tl => if c = space ∨ c = tab then .next .folded [] 0 tl else plainRound (c :: tl)
  | .quoted, ptr => quotedRound ptr

/-- `next_token` from `text:` on, with the part of the token written so far.  Every
    round shortens the text (`textRound_shrinks`), so fuel never runs out. -/
def scanText : Nat → TextMode → Bytes → Nat → Bytes → Token × ParseState
  | 0, _, _, line, ptr => (.eof, ⟨line, ptr, false⟩)
  | fuel + 1, mode, text, line, ptr =>
    match textRound mode ptr with
    | .done ptr nexttoken => (.text text, ⟨line, ptr, nexttoken⟩)
    | .eof ptr => (.eof, ⟨line, ptr, false⟩)
    | .next mode written folded ptr => scanText fuel mode (text ++ written) (line + folded) ptr

/-- `while (*x && (*x != '\n')) x++`. -/
def skipComment : Bytes → Bytes
  | [] => []
  | c :: rest => if c = 0 ∨ c = newline then c :: rest else skipComment rest

def nextTokenFrom (line : Nat) : Bytes → Token × ParseState
  | [] => (.eof, ⟨line, [], false⟩)
  | c :: tl =>
    if c = 0 then (.eof, ⟨line, c :: tl, false⟩)
    else if c = newline then (.newline, ⟨line, tl, false⟩)
    else if c = space ∨ c = tab ∨ c = carriageReturn then nextTokenFrom line tl
    else if c = numberSign then
      match skipComment (c :: tl) with
      | [] => (.eof, ⟨line, [], false⟩)
      | d :: post =>
        if d = newline then (.newline, ⟨line, post, false⟩) else (.eof, ⟨line, d :: post, false⟩)
    else scanText (tl.length + 2) .text [] line (c :: tl)

def nextToken (s : ParseState) : Token × ParseState :=
  if s.nexttoken then (.newline, { s with nexttoken := false })
  else nextTokenFrom s.line s.ptr

/-- The loop of `ParseData`, without what it does with a line: the argument list and
    the number of each line that has tokens.  A line that is not ended is dropped. -/
def tokenLines : Nat → ParseState → List Bytes → Option (List (List Bytes × Nat))
  | 0, _, _ => none
  | fuel + 1, state, args =>
    match nextToken state with
    | (.eof, _) => some []
    | (.text text, state) => tokenLines fuel state (args ++ [text])
    | (.newline, state) =>
      if args = [] then tokenLines fuel { state with line := state.line + 1 } []
      else
        (tokenLines fuel { state with line := state.line + 1 } []).map ((args, state.line + 1) :: ·)

/-! ## Progress -/

def TextRound.ptr : TextRound → Bytes
  | .done ptr _ => ptr
  | .eof ptr => ptr
  | .next _ _ _ ptr => ptr

open TextRound

theorem escapeRound_suffix (ptr : Bytes) : (escapeRound ptr).ptr <:+ ptr := by
  fun_cases escapeRound ptr <;> simp [ptr]

variable {c : UInt8} {ptr : Bytes} {mode : TextMode} {fl o line : Nat} {tok : Token} {s : ParseState} {t : Bytes}

theorem plainRound_consumes (tl : Bytes) (goesOn : c ≠ 0) : (plainRound (c :: tl)).ptr <:+ tl := by
  rw [plainRound, if_neg goesOn]
  split
  · exact suffix_rfl
  split
  · exact suffix_rfl
  split
  · exact suffix_rfl
  split
  · exact escapeRound_suffix tl
  · exact suffix_rfl

/-- A round consumes the character it looks at, the terminating NUL excepted. -/
theorem textRound_consumes (mode : TextMode) (tl : Bytes) (goesOn : c ≠ 0) : (textRound mode (c :: tl)).ptr <:+ tl := by
  cases mode with
  | text => exact plainRound_consumes tl goesOn
  | folded =>
    rw [textRound]
    split
    · exact suffix_rfl
    · exact plainRound_consumes tl goesOn
  | quoted =>
    simp only [textRound, quotedRound, goesOn, if_false]
    split <;> exact suffix_rfl

theorem textRound_end (mode : TextMode) (past : ptr.head?.getD 0 = 0) :
    textRound mode ptr = if mode = .quoted then .eof ptr else .done ptr false := by
  cases ptr with
  | nil => cases mode <;> rfl
  | cons c _ =>
    obtain rfl : c = 0 := by simpa using past
    cases mode <;> rfl

theorem textRound_suffix (mode : TextMode) (ptr : Bytes) : (textRound mode ptr).ptr <:+ ptr := by
  by_cases past : ptr.head?.getD 0 = 0
  · rw [textRound_end mode past]
    split <;> exact suffix_rfl
  · cases ptr with
    | nil => exact absurd rfl past
    | cons c tl =>
      have goesOn : c ≠ 0 := by simpa using past
      exact (textRound_consumes mode tl goesOn).trans (suffix_cons c tl)

theorem textRound_shrinks {next : TextMode} {w post : Bytes} {folded : Nat}
    (round : textRound mode ptr = .next next w folded post) : post.length < ptr.length := by
  by_cases past : ptr.head?.getD 0 = 0
  · rw [textRound_end mode past] at round
    split at round <;> cases round
  · cases ptr with
    | nil => exact absurd rfl past
    | cons c tl =>
      have goesOn : c ≠ 0 := by simpa using past
      have used := (textRound_consumes mode tl goesOn).length_le
      rw [round] at used
      exact Nat.lt_succ_of_le used

theorem scanText_suffix (fl : Nat) (mode : TextMode) (t : Bytes) (line : Nat) (ptr : Bytes) :
    (scanText fl mode t line ptr).2.ptr <:+ ptr := by
  induction fl generalizing mode t line ptr with
  | zero => exact suffix_rfl
  | succ fl ih =>
    have fits := textRound_suffix mode ptr
    unfold scanText
    cases round : textRound mode ptr with
    | done | eof =>
      rw [round] at fits
      exact fits
    | next mode _ _ _ =>
      rw [round] at fits
      exact (ih _ _ _ _).trans fits

theorem scanText_consumes (fl : Nat) (mode : TextMode) (t : Bytes) (line : Nat) (tl : Bytes) (goesOn : c ≠ 0) :
    (scanText (fl + 1) mode t line (c :: tl)).2.ptr <:+ tl := by
  have used := textRound_consumes mode tl goesOn
  unfold scanText
  cases round : textRound mode _ with
  | done | eof =>
    rw [round] at used
    exact used
  | next mode _ _ _ =>
    rw [round] at used
    exact (scanText_suffix _ _ _ _ _).trans used

theorem skipComment_suffix (ptr : Bytes) : skipComment ptr <:+ ptr := by
  induction ptr with
  | nil => exact suffix_rfl
  | cons c _ ih =>
    unfold skipComment
    split
    · exact suffix_rfl
    · exact ih.trans (suffix_cons _ _)

theorem nextTokenFrom_progress (lexed : nextTokenFrom line ptr = (tok, s)) (notEof : tok ≠ .eof) :
    s.ptr.length < ptr.length := by
  induction ptr with
  | nil =>
    cases lexed
    exact absurd rfl notEof
  | cons c tl ih =>
    rw [nextTokenFrom] at lexed
    split at lexed
    · cases lexed
      exact absurd rfl notEof
    rename_i goesOn
    split at lexed
    · cases lexed
      exact Nat.lt_succ_self _
    split at lexed
    · exact Nat.lt_succ_of_lt (ih lexed)
    split at lexed
    · have fits := (skipComment_suffix (c :: tl)).length_le
      split at lexed
      · cases lexed
        exact absurd rfl notEof
      · rename_i atNewline
        rw [atNewline] at fits
        split at lexed <;> cases lexed
        · exact fits
        · exact absurd rfl notEof
    · have used := (scanText_consumes (tl.length + 1) .text [] line tl goesOn).length_le
      rw [lexed] at used
      exact Nat.lt_succ_of_le used

/-- What bounds the number of tokens that are still to come. -/
def ParseState.weight (s : ParseState) : Nat := 2 * s.ptr.length + s.nexttoken.toNat

variable {post : ParseState}

theorem nextToken_progress (lexed : nextToken s = (tok, post)) (notEof : tok ≠ .eof) : post.weight < s.weight := by
  unfold nextToken at lexed
  split at lexed
  · rename_i due
    cases lexed
    simp [ParseState.weight, due]
  · have less := nextTokenFrom_progress lexed notEof
    have atMost := Bool.toNat_le post.nexttoken
    unfold ParseState.weight
    omega

theorem tokenLines_ends (fl : Nat) (s : ParseState) (args : List Bytes) (fuel : s.weight < fl) :
    ∃ lns, tokenLines fl s args = some lns := by
  induction fl generalizing s args with
  | zero => omega
  | succ fl ih =>
    rw [tokenLines]
    rcases lexed : nextToken s with ⟨tok, post⟩
    cases tok with
    | eof => exact ⟨[], rfl⟩
    | text t =>
      have less := nextToken_progress lexed (by simp)
      exact ih post _ (by omega)
    | newline =>
      have less := nextToken_progress lexed (by simp)
      have sameWeight : { post with line := post.line + 1 }.weight = post.weight := rfl
      obtain ⟨lns, ends⟩ := ih { post with line := post.line + 1 } [] (by omega)
      by_cases blank : args = []
      · exact ⟨lns, by simp [blank, ends]⟩
      · exact ⟨(args, post.line + 1) :: lns, by simp [blank, ends]⟩

/-! ## Texts one after the other -/

/-- The state with more text behind it. -/
def ParseState.append (s : ParseState) (more : Bytes) : ParseState :=
  { s with ptr := s.ptr ++ more }

/-- The scan ended at a character, not at the end of the text. -/
def ParseState.Stopped (s : ParseState) : Prop := s.ptr ≠ [] ∨ s.nexttoken = true

/-- The tokenizer reports the last character of the text as `T_NEWLINE`: it is a
    newline, not inside quotes and not folded. -/
inductive EndsLine : ParseState → Prop where
  | last {s post : ParseState} (lexed : nextToken s = (.newline, post)) (whole : post.ptr = [])
      (nothingPending : post.nexttoken = false) : EndsLine s
  | more {s post : ParseState} {tok : Token} (lexed : nextToken s = (tok, post))
      (notEof : tok ≠ .eof) (tl : EndsLine post) : EndsLine s

theorem EndsLine.stopped (ends : EndsLine s) : s.Stopped := by
  by_contra atEnd
  simp only [ParseState.Stopped, not_or, not_not, Bool.not_eq_true] at atEnd
  have lexes : nextToken s = (.eof, ⟨s.line, [], false⟩) := by
    rw [nextToken, atEnd.1, atEnd.2]
    rfl
  cases ends with
  | last lexed => rw [lexes] at lexed; cases lexed
  | more lexed notEof => rw [lexes] at lexed; cases lexed; exact notEof rfl

theorem tokenLines_of_le {args : List Bytes} {lns : List (List Bytes × Nat)}
    (ends : tokenLines fl s args = some lns) (le : fl ≤ o) : tokenLines o s args = some lns := by
  induction fl generalizing o s args lns with
  | zero => cases ends
  | succ fl ih =>
    obtain ⟨less, rfl⟩ : ∃ less, o = less + 1 := ⟨o - 1, by omega⟩
    rw [tokenLines] at ends ⊢
    generalize nextToken s = lexed at ends
    obtain ⟨tok, _⟩ := lexed
    cases tok with
    | eof => exact ends
    | text t => exact ih ends (by omega)
    | newline =>
      dsimp only at ends ⊢
      split_ifs at ends ⊢
      · exact ih ends (by omega)
      · obtain ⟨_, restEnds, eq⟩ := Option.map_eq_some_iff.mp ends
        rw [ih restEnds (by omega), ← eq]
        rfl

def lines (data : Bytes) : List (List Bytes × Nat) :=
  (tokenLines (2 * data.length + 1) { ptr := data } []).getD []

theorem tokenLines_eq {data : Bytes} (fuel : 2 * data.length < fl) :
    tokenLines fl { ptr := data } [] = some (lines data) := by
  have light : ({ ptr := data } : ParseState).weight < 2 * data.length + 1 := by simp [ParseState.weight]
  obtain ⟨_, ends⟩ := tokenLines_ends _ { ptr := data } [] light
  rw [lines, ends]
  exact tokenLines_of_le ends fuel

end Aosp.Init
