import Aosp.Init.Tokenizer

/-! # The line numbers of `.rc` files

`next_token` counts the lines that it folds and `ParseData` those that are reported to it.
Two newlines go wrong: one between double quotes is counted by neither, and the one of
`\ <cr> <lf>` by both.
-/

namespace Aosp.Init

open Aosp.Lib List

def roundCounts (mode : TextMode) (ptr : Bytes) : Bool :=
  if mode = .quoted then ptr.head? ≠ some newline
  else ¬ [backslash, carriageReturn, newline] <+: ptr

def scanCounts : Nat → TextMode → Bytes → Bool
  | 0, _, _ => true
  | fuel + 1, mode, ptr =>
    roundCounts mode ptr &&
      match textRound mode ptr with
      | .next mode _ _ ptr => scanCounts fuel mode ptr
      | _ => true

/-- The token that starts in the text, behind blanks, is scanned without such a newline. -/
def tokenCounts : Bytes → Bool
  | [] => true
  | c :: tl =>
    if c = space ∨ c = tab ∨ c = carriageReturn then tokenCounts tl
    else c = numberSign || scanCounts (tl.length + 2) .text (c :: tl)

/-- What the loop of `ParseData` does to the state with a token. -/
def handleToken : Token × ParseState → ParseState
  | (.newline, s) => { s with line := s.line + 1 }
  | (_, s) => s

def parseTurn (s : ParseState) : ParseState := handleToken (nextToken s)

/-- The newlines that a round counts, leaves to `nexttoken` or leaves in the text. -/
def TextRound.newlines : TextRound → Nat
  | .done ptr nexttoken => nexttoken.toNat + ptr.count newline
  | .eof ptr => ptr.count newline
  | .next _ _ folded ptr => folded + ptr.count newline

def ParseState.newlines (s : ParseState) : Nat := s.line + s.nexttoken.toNat + s.ptr.count newline

variable {mode : TextMode} {ptr : Bytes} {s : ParseState}

theorem escapeRound_newlines (hc : ¬ [carriageReturn, newline] <+: ptr) :
    (escapeRound ptr).newlines = ptr.count newline := by
  have fold : ∀ tl, ptr = carriageReturn :: tl → tl.head? ≠ some newline := by
    rintro (_ | ⟨d, tl⟩) rfl hd
    · cases hd
    · cases hd
      exact hc ⟨tl, rfl⟩
  fun_cases escapeRound ptr with
  | case8 c tl _ _ _ _ _ isReturn isNewline =>
    obtain rfl | rfl := isNewline
    · exact absurd ⟨rfl, fold tl rfl⟩ isReturn
    · simp [TextRound.newlines, Nat.add_comm]
  | case9 c tl _ _ _ _ _ _ isNewline => simp [TextRound.newlines, (not_or.mp isNewline).2]
  | _ => simp_all [TextRound.newlines, carriageReturn, newline]

theorem plainRound_newlines (hc : ¬ [backslash, carriageReturn, newline] <+: ptr) :
    (plainRound ptr).newlines = ptr.count newline := by
  fun_cases plainRound ptr with
  | case6 c tl =>
    rw [escapeRound_newlines fun ⟨post, eq⟩ => hc ⟨post, by rw [← eq]; rfl⟩]
    rfl
  | case3 c tl _ blank =>
    obtain rfl | rfl | rfl := blank <;> simp [TextRound.newlines, space, tab, carriageReturn, newline]
  | _ => simp_all [TextRound.newlines, Nat.add_comm]

theorem textRound_newlines (hc : roundCounts mode ptr = true) : (textRound mode ptr).newlines = ptr.count newline := by
  cases mode with
  | text => exact plainRound_newlines (by simpa [roundCounts] using hc)
  | folded =>
    have plain := plainRound_newlines (by simpa [roundCounts] using hc)
    cases ptr with
    | nil => exact plain
    | cons c _ =>
      rw [textRound]
      split
      next blank => obtain rfl | rfl := blank <;> simp [TextRound.newlines, space, tab, newline]
      next => exact plain
  | quoted =>
    simp only [roundCounts] at hc
    fun_cases quotedRound ptr <;> simp_all [textRound, quotedRound, TextRound.newlines]

theorem scanText_newlines {fl : Nat} (t : Bytes) (line : Nat) (hc : scanCounts fl mode ptr = true) :
    (handleToken (scanText fl mode t line ptr)).ptr <:+ ptr ∧
      (handleToken (scanText fl mode t line ptr)).newlines = line + ptr.count newline ∧
      (scanText fl mode t line ptr).1 ≠ .newline := by
  induction fl generalizing mode ptr t line with
  | zero => exact ⟨suffix_rfl, rfl, by rintro ⟨⟩⟩
  | succ fl ih =>
    rw [scanCounts, Bool.and_eq_true] at hc
    have round := textRound_newlines hc.1
    have left := textRound_suffix mode ptr
    rw [scanText]
    cases eq : textRound mode ptr with
    | done post _ =>
      rw [eq] at round left
      exact ⟨left, by rw [← round]; exact Nat.add_assoc .., by rintro ⟨⟩⟩
    | eof post =>
      rw [eq] at round left
      exact ⟨left, by rw [← round]; rfl, by rintro ⟨⟩⟩
    | next mode w _ post =>
      rw [eq] at round left hc
      obtain ⟨within, sum, text⟩ := ih _ _ hc.2
      exact ⟨within.trans left, by rw [sum, ← round, TextRound.newlines, Nat.add_assoc], text⟩

theorem skipComment_newlines (ptr : Bytes) : (skipComment ptr).count newline = ptr.count newline := by
  induction ptr with
  | nil => rfl
  | cons c _ ih =>
    rw [skipComment]
    split
    next => rfl
    next inside => rw [ih, count_cons_of_ne fun eq => inside (.inr eq)]

theorem nextTokenFrom_newlines (line : Nat) (hc : tokenCounts ptr = true) :
    (handleToken (nextTokenFrom line ptr)).ptr <:+ ptr ∧
      (handleToken (nextTokenFrom line ptr)).newlines = line + ptr.count newline ∧
      ((nextTokenFrom line ptr).1 = .newline → (nextTokenFrom line ptr).2.nexttoken = false) := by
  fun_induction nextTokenFrom line ptr with
  | case1 => exact ⟨suffix_rfl, rfl, nofun⟩
  | case2 => exact ⟨suffix_rfl, rfl, nofun⟩
  | case3 => exact ⟨suffix_cons .., by simp [handleToken, ParseState.newlines]; omega, fun _ => rfl⟩
  | case4 c tl _ isNewline blank ih =>
    rw [tokenCounts, if_pos blank] at hc
    rw [count_cons_of_ne isNewline]
    exact ⟨(ih hc).1.trans (suffix_cons ..), (ih hc).2⟩
  | case5 tl _ _ _ hend =>
    rw [← skipComment_newlines, hend]
    exact ⟨nil_suffix, rfl, nofun⟩
  | case6 tl _ _ _ post hend =>
    have within := skipComment_suffix (numberSign :: tl)
    rw [← skipComment_newlines, hend] at *
    exact ⟨(suffix_cons ..).trans within, by simp [handleToken, ParseState.newlines]; omega, fun _ => rfl⟩
  | case7 tl _ _ _ d post _ hend =>
    rw [← skipComment_newlines, hend]
    exact ⟨hend ▸ skipComment_suffix _, rfl, nofun⟩
  | case8 c tl _ _ blank sign =>
    rw [tokenCounts, if_neg blank, decide_eq_false sign] at hc
    obtain ⟨within, sum, text⟩ := scanText_newlines [] line hc
    exact ⟨within, sum, fun eq => absurd eq text⟩

theorem parseTurn_newlines (hc : (s.nexttoken || tokenCounts s.ptr) = true) :
    (parseTurn s).ptr <:+ s.ptr ∧ (parseTurn s).newlines = s.newlines ∧
      ((nextToken s).1 = .newline → (nextToken s).2.nexttoken = false) := by
  obtain ⟨line, _, pending⟩ := s
  cases pending with
  | true => exact ⟨suffix_rfl, rfl, fun _ => rfl⟩
  | false => exact nextTokenFrom_newlines line hc

theorem line_numbers_true (data : Bytes) (n : Nat)
    (hc : ∀ k ≤ n,
      ((parseTurn^[k] { ptr := data }).nexttoken || tokenCounts (parseTurn^[k] { ptr := data }).ptr) = true)
    (handled : nextToken (parseTurn^[n] { ptr := data }) = (.newline, s)) :
    ∃ consumed, data = consumed ++ s.ptr ∧ s.line + 1 = consumed.count newline := by
  have run : ∀ k ≤ n + 1, (parseTurn^[k] { ptr := data }).ptr <:+ data ∧
      (parseTurn^[k] { ptr := data }).newlines = data.count newline := by
    intro k _
    induction k with
    | zero => exact ⟨suffix_rfl, Nat.zero_add _⟩
    | succ k ih =>
      obtain ⟨within, sum⟩ := ih (by omega)
      obtain ⟨left, same, _⟩ := parseTurn_newlines (hc k (by omega))
      rw [Function.iterate_succ_apply']
      exact ⟨left.trans within, same.trans sum⟩
  have last := run _ le_rfl
  rw [Function.iterate_succ_apply', parseTurn, handled] at last
  obtain ⟨⟨consumed, rfl⟩, sum⟩ := last
  refine ⟨consumed, rfl, ?_⟩
  obtain ⟨_, _, reported⟩ := parseTurn_newlines (hc n le_rfl)
  rw [handled] at reported
  have pending : s.nexttoken = false := reported rfl
  simp only [handleToken, ParseState.newlines, pending, Bool.toNat_false, count_append] at sum
  omega

theorem line_numbers_true_comment : ∃ consumed,
    ascii "# \"\non \\\n \"x\"\n" = consumed ++ [] ∧ 2 + 1 = consumed.count newline :=
  @line_numbers_true ⟨2, [], false⟩ _ 3 (by decide +kernel) (by decide +kernel)

/-- A newline between quotes is missing in the number, one behind `\ <cr>` is in it twice. -/
theorem quoted_newline_not_counted :
    nextToken (parseTurn^[1] { ptr := ascii "\"\n\"\n" }) = (.newline, ⟨0, [], false⟩) ∧
      (ascii "\"\n\"\n").count newline = 2 ∧
      nextToken (parseTurn^[1] { ptr := ascii "a\\\r\n" }) = (.newline, ⟨1, [], false⟩) ∧
      (ascii "a\\\r\n").count newline = 1 := by
  decide +kernel

end Aosp.Init
