import Aosp.Init.Tokenizer

/-! # A text byte by byte

What `next_token` and the loop of `ParseData` make of a text, as a reading that goes
through it one byte after the other (`lines_eq_scan`): where the next byte stands, the
tokens of the line, and the bytes of the token that has begun.  Numbers of lines are
left out.
-/

namespace Aosp.Init

open Aosp.Lib List

/-! ## The reading -/

/-- Where a byte of the text stands; `escaped` is behind a backslash, `folded` behind
    a folded line. -/
inductive Place where
  | between
  | comment
  | text
  | escaped
  | folded
  | quoted
deriving DecidableEq

def isSeparator (c : UInt8) : Prop := c = space ∨ c = tab ∨ c = carriageReturn

instance : DecidablePred isSeparator := fun _ => inferInstanceAs (Decidable (_ ∨ _))

namespace Place

/-- Behind a byte of a token. -/
def behind (c : UInt8) : Place :=
  if isSeparator c then between else if c = doubleQuote then quoted else if c = backslash then escaped else text

/-- Behind a byte that is neither a newline nor a NUL. -/
def move (c : UInt8) : Place → Place
  | between => if c = numberSign then comment else behind c
  | comment => comment
  | text => behind c
  | escaped => if c = backslash then escaped else text
  | folded => if c = space ∨ c = tab then folded else behind c
  | quoted => if c = doubleQuote then text else quoted

/-- What the byte adds to the token. -/
def written (c : UInt8) : Place → Bytes
  | comment => []
  | quoted => if c = doubleQuote then [] else [c]
  | escaped =>
    if c = letterN then [newline, c]
    else if c = letterR then [carriageReturn, c]
    else if c = letterT then [tab, c]
    else if c = carriageReturn then []
    else [c]
  | between => if c = numberSign ∨ behind c ≠ text then [] else [c]
  | text | folded => if behind c = text then [c] else []

end Place

/-- Where the reading stands, the tokens of the line and the bytes of the last one. -/
structure Reading where
  place : Place := .between
  args : List Bytes := []
  cur : Bytes := []

namespace Reading

/-- The tokens of a line that ends here. -/
def finished (r : Reading) : List (List Bytes) :=
  if r.place = .between ∨ r.place = .comment then if r.args = [] then [] else [r.args] else [r.args ++ [r.cur]]

def advance (r : Reading) (c : UInt8) : Reading :=
  let place := r.place.move c
  if place = .between ∧ r.place ≠ .between then { args := r.args ++ [r.cur] }
  else { r with place, cur := r.cur ++ r.place.written c }

/-- The lines that have tokens and are ended. -/
def scan : Reading → Bytes → List (List Bytes)
  | _, [] => []
  | r, c :: tl =>
    if c = 0 then []
    else if c = newline then
      match r.place with
      | .escaped => { r with place := .folded }.scan tl
      | .quoted => { r with cur := r.cur ++ [c] }.scan tl
      | _ => r.finished ++ scan {} tl
    else (r.advance c).scan tl

end Reading

def TextMode.place : TextMode → Place
  | .text => .text
  | .folded => .folded
  | .quoted => .quoted

/-- What is read behind a token, where the newline may still have to be reported. -/
def ParseState.scan (s : ParseState) (args : List Bytes) : List (List Bytes) :=
  if s.nexttoken then { args : Reading }.finished ++ Reading.scan {} s.ptr else { args : Reading }.scan s.ptr

section Read

variable {mode : TextMode} {args : List Bytes} {t ptr more tl : Bytes} {l fl : Nat} {s : ParseState} {r : Reading}
  {c : UInt8}

open Reading Place

theorem Place.behind_ne_between (token : ¬ isSeparator c) : Place.behind c ≠ .between := by
  unfold behind
  split_ifs <;> simp

theorem Place.move_comment {place : Place} (inComment : place.move c = .comment) :
    place = .between ∨ place = .comment := by
  cases place <;> simp [move, behind] at inComment ⊢ <;> split_ifs at inComment

theorem Reading.scan_byte (nul : c ≠ 0) (nl : c ≠ newline) : r.scan (c :: tl) = (r.advance c).scan tl := by
  rw [scan, if_neg nul, if_neg nl]

theorem Reading.scan_between (nul : c ≠ 0) (nl : c ≠ newline) (token : ¬ isSeparator c) (sign : c ≠ numberSign) :
    { args : Reading }.scan (c :: tl) = scan ⟨.text, args, []⟩ (c :: tl) := by
  rw [scan_byte nul nl, scan_byte nul nl]
  simp [advance, move, Place.written, Place.behind_ne_between token, sign]

def TextRound.Reads (mode : TextMode) (args : List Bytes) (t ptr more : Bytes) : TextRound → Prop
  | .done post nexttoken => more = [] ∨ post ≠ [] ∨ nexttoken = true →
      Reading.scan ⟨mode.place, args, t⟩ (ptr ++ more) = (⟨0, post ++ more, nexttoken⟩ : ParseState).scan (args ++ [t])
  | .eof post => more = [] ∨ post ≠ [] → Reading.scan ⟨mode.place, args, t⟩ (ptr ++ more) = []
  | .next mode' w _ post =>
      Reading.scan ⟨mode.place, args, t⟩ (ptr ++ more) = Reading.scan ⟨mode'.place, args, t ++ w⟩ (post ++ more)

theorem escapeRound_reads : (escapeRound ptr).Reads .text args t (backslash :: ptr) more := by
  have first : scan ⟨.text, args, t⟩ (backslash :: ptr ++ more) = scan ⟨.escaped, args, t⟩ (ptr ++ more) := by
    rw [cons_append, scan_byte (by decide) (by decide)]
    simp [advance, move, written, show behind backslash = .escaped from rfl]
  fun_cases escapeRound ptr <;> simp only [TextRound.Reads, TextMode.place, first]
  case case1 =>
    intro ends
    obtain rfl : more = [] := by simpa using ends
    rfl
  case case2 => exact fun _ => rfl
  case case7 nul _ _ _ _ ret =>
    rw [cons_append, scan_byte nul (by simp [ret.1, carriageReturn, newline])]
    simp [advance, move, written, ret.1, carriageReturn, letterN, letterR, letterT, backslash]
  case case8 c tl nul _ _ _ _ ret nl =>
    by_cases isNl : c = newline
    · subst isNl
      simp [scan, newline]
    · have isRet : c = carriageReturn := nl.resolve_right isNl
      obtain ⟨tl, rfl⟩ : ∃ tl', tl = newline :: tl' := by cases tl <;> simp_all
      simp [advance, move, written, isRet, carriageReturn, letterN, letterR, letterT, backslash, scan, finished,
        newline]
  case case9 nul _ _ _ _ _ nl =>
    rw [cons_append, scan_byte nul (fun eq => nl (.inr eq))]
    simp_all [advance, move, written]
  all_goals
    rw [cons_append, scan_byte (by decide) (by decide), scan_byte (by decide) (by decide)]
    simp [advance, move, written, behind, isSeparator, letterN, letterR, letterT, backslash, space, tab,
      carriageReturn, doubleQuote]

theorem plainRound_reads : (plainRound ptr).Reads .text args t ptr more := by
  fun_cases plainRound ptr
  case case1 =>
    intro ends
    obtain rfl : more = [] := by simpa using ends
    rfl
  case case2 => exact fun _ => rfl
  case case3 c tl nul sep =>
    have nl : c ≠ newline := by
      rintro rfl
      simp [newline, space, tab, carriageReturn] at sep
    have isSep : isSeparator c := sep
    simp [TextRound.Reads, TextMode.place, scan_byte nul nl, advance, move, behind, isSep, ParseState.scan]
  case case4 => simp [TextRound.Reads, TextMode.place, scan, finished, ParseState.scan, newline]
  case case5 => exact scan_byte (by decide) (by decide)
  case case6 => exact escapeRound_reads
  case case7 c tl nul sep nl quote escape =>
    have isSep : ¬ isSeparator c := sep
    simp [TextRound.Reads, TextMode.place, scan_byte nul nl, advance, move, behind, isSep, quote, escape, written]

theorem textRound_reads (mode : TextMode) : (textRound mode ptr).Reads mode args t ptr more := by
  fun_cases textRound mode ptr
  case case1 => exact plainRound_reads
  case case2 =>
    intro ends
    obtain rfl : more = [] := by simpa using ends
    rfl
  case case3 c tl blank =>
    have bytes : c ≠ 0 ∧ c ≠ newline ∧ isSeparator c := by rcases blank with rfl | rfl <;> decide
    simp [TextRound.Reads, TextMode.place, scan_byte bytes.1 bytes.2.1, advance, move, blank, written, behind,
      bytes.2.2]
  case case4 c tl blank =>
    -- behind a fold, a byte that is not blank is scan as in a token
    have same : scan ⟨.folded, args, t⟩ (c :: tl ++ more) = scan ⟨.text, args, t⟩ (c :: tl ++ more) := by
      simp [scan, advance, move, blank, written, finished]
    have reads := @plainRound_reads args t (c :: tl) more
    cases round : plainRound (c :: tl) <;> rw [round] at reads <;> simp only [TextRound.Reads] at reads ⊢
    · exact fun ends => same.trans (reads ends)
    · exact fun ends => same.trans (reads ends)
    · exact same.trans reads
  case case5 =>
    fun_cases quotedRound ptr
    case case1 =>
      intro ends
      obtain rfl : more = [] := by simpa using ends
      rfl
    case case2 => exact fun _ => rfl
    case case3 => exact scan_byte (by decide) (by decide)
    case case4 c tl nul quote =>
      by_cases nl : c = newline
      · simp [TextRound.Reads, TextMode.place, scan, nl, newline]
      · simp [TextRound.Reads, TextMode.place, scan_byte nul nl, advance, move, quote, written]

theorem scanText_reads (enough : ptr.length < fl) :
    match scanText fl mode t l ptr with
    | (.text t', s) => more = [] ∨ s.Stopped →
        scan ⟨mode.place, args, t⟩ (ptr ++ more) = (s.append more).scan (args ++ [t'])
    | (.eof, s) => more = [] ∨ s.Stopped → scan ⟨mode.place, args, t⟩ (ptr ++ more) = []
    | (.newline, _) => False := by
  induction fl generalizing mode t l ptr with
  | zero => omega
  | succ fl ih =>
    have reads := @textRound_reads args t ptr more mode
    rw [scanText]
    cases round : textRound mode ptr with
    | done post nexttoken =>
      rw [round] at reads
      exact reads
    | eof post =>
      rw [round] at reads
      exact fun inside => reads (inside.imp_right fun stopped => stopped.resolve_right (by simp))
    | next mode' w folded post =>
      rw [round] at reads
      have shorter := textRound_shrinks round
      rw [reads]
      exact ih (by omega)

theorem skipComment_reads (inside : more = [] ∨ skipComment ptr ≠ []) :
    scan ⟨.comment, args, []⟩ (ptr ++ more) = match skipComment ptr with
      | [] => []
      | c :: post => if c = newline then { args : Reading }.finished ++ scan {} (post ++ more) else [] := by
  induction ptr with
  | nil => simp_all [skipComment, scan]
  | cons c tl ih =>
    rw [skipComment] at inside ⊢
    by_cases nul : c = 0
    · simp [nul, scan, newline]
    · by_cases nl : c = newline
      · simp [nl, scan, finished, newline]
      · simp only [nul, nl, or_self, if_false] at inside ⊢
        simpa [scan_byte nul nl, advance, move, written] using ih inside

theorem nextTokenFrom_reads
    (inside : more = [] ∨ (nextTokenFrom l ptr).1 = .newline ∨ (nextTokenFrom l ptr).2.Stopped) :
    { args : Reading }.scan (ptr ++ more) = match nextTokenFrom l ptr with
      | (.eof, _) => []
      | (.newline, s) => { args : Reading }.finished ++ (s.append more).scan []
      | (.text t, s) => (s.append more).scan (args ++ [t]) := by
  induction ptr with
  | nil =>
    obtain rfl : more = [] := by simpa [nextTokenFrom, ParseState.Stopped] using inside
    rfl
  | cons c tl ih =>
    rw [nextTokenFrom] at inside ⊢
    split_ifs at inside ⊢ with nul nl sep sign
    · simp [nul, scan]
    · simp [nl, scan, newline, ParseState.scan, ParseState.append]
    · have isSep : isSeparator c := sep
      have unsigned : c ≠ numberSign := by rintro rfl; revert sep; decide
      rw [← ih inside]
      simp [scan_byte nul nl, advance, move, behind, isSep, written, unsigned]
    · subst sign
      have first : { args : Reading }.scan (numberSign :: tl ++ more) =
          scan ⟨.comment, args, []⟩ (numberSign :: tl ++ more) := by
        simp [scan, advance, move, written, numberSign, newline]
      rw [first, skipComment_reads]
      · cases skipComment (numberSign :: tl) with
        | nil => rfl
        | cons d post =>
          dsimp only
          split_ifs <;> rfl
      · refine inside.imp_right fun stopped none => ?_
        simp [none, ParseState.Stopped] at stopped
    · have reads := @scanText_reads .text args [] (c :: tl) more l (tl.length + 2) (by simp)
      rw [cons_append, scan_between nul nl sep sign, ← cons_append]
      cases scan : scanText (tl.length + 2) .text [] l (c :: tl) with
      | mk tok s => cases tok <;> simp_all [TextMode.place]

theorem nextToken_reads (inside : more = [] ∨ (nextToken s).1 = .newline ∨ (nextToken s).2.Stopped) :
    (s.append more).scan args = match nextToken s with
      | (.eof, _) => []
      | (.newline, s) => { args : Reading }.finished ++ (s.append more).scan []
      | (.text t, s) => (s.append more).scan (args ++ [t]) := by
  rw [nextToken] at inside ⊢
  cases pending : s.nexttoken with
  | true => simp [ParseState.scan, ParseState.append, pending, finished]
  | false =>
    simp only [pending, Bool.false_eq_true, if_false] at inside
    simpa [ParseState.scan, ParseState.append, pending] using @nextTokenFrom_reads args s.ptr more s.line inside

theorem tokenLines_reads (enough : s.weight < fl) :
    (tokenLines fl s args).map (·.map Prod.fst) = some (s.scan args) := by
  induction fl generalizing s args with
  | zero => omega
  | succ fl ih =>
    have reads := @nextToken_reads args [] s (.inl rfl)
    have whole : ∀ s : ParseState, s.append [] = s := fun s => by simp [ParseState.append]
    simp only [whole] at reads
    rw [tokenLines, reads]
    rcases lexed : nextToken s with ⟨tok, post⟩
    cases tok with
    | eof => rfl
    | text t =>
      have less := nextToken_progress lexed (by simp)
      exact ih (by omega)
    | newline =>
      have less := nextToken_progress lexed (by simp)
      have rest := @ih [] { post with line := post.line + 1 } (lt_of_lt_of_le less (Nat.le_of_lt_succ enough))
      have same : ({ post with line := post.line + 1 } : ParseState).scan [] = post.scan [] := rfl
      by_cases blank : args = []
      · simpa [blank, finished, same] using rest
      · simpa [blank, finished, same, Function.comp_def] using congrArg (Option.map (args :: ·)) rest

theorem lines_eq_scan (data : Bytes) : (lines data).map Prod.fst = scan {} data := by
  have whole := @tokenLines_reads [] (2 * data.length + 1) { ptr := data } (by simp [ParseState.weight])
  rw [tokenLines_eq (Nat.lt_succ_self _)] at whole
  simpa [ParseState.scan] using whole

/-- The lines of a text that ends in a reported newline come first, whatever follows it. -/
theorem EndsLine.scan_append (ends : EndsLine s) (args : List Bytes) (more : Bytes) :
    (s.append more).scan args = s.scan args ++ scan {} more := by
  have whole : ∀ s : ParseState, s.append [] = s := fun s => by simp [ParseState.append]
  induction ends generalizing args with
  | @last s post lexed empty pending =>
    have one := @nextToken_reads args [] s (.inl rfl)
    have two := @nextToken_reads args more s (.inr (.inl (by rw [lexed])))
    rw [lexed] at one two
    rw [whole] at one
    rw [one, two]
    simp [ParseState.append, ParseState.scan, empty, pending, scan]
  | @more s post tok lexed notEof ends ih =>
    have one := @nextToken_reads args [] s (.inl rfl)
    have two := @nextToken_reads args more s (.inr (.inr (by rw [lexed]; exact ends.stopped)))
    rw [lexed] at one two
    rw [whole] at one
    cases tok with
    | eof => exact absurd rfl notEof
    | text t => simp [one, two, whole, ih]
    | newline => simp [one, two, whole, ih]

/-- Tokenizing texts one after the other is tokenizing them together. -/
theorem lines_append {first : Bytes} (ends : EndsLine { ptr := first }) (snd : Bytes) :
    (lines (first ++ snd)).map Prod.fst = (lines first).map Prod.fst ++ (lines snd).map Prod.fst := by
  rw [lines_eq_scan, lines_eq_scan, lines_eq_scan]
  simpa [ParseState.scan, ParseState.append] using ends.scan_append [] snd

end Read

theorem Reading.scan_head {r : Reading} {data : Bytes} {line : List Bytes} (first : line ∈ (r.scan data).head?) :
    if r.place = .between ∨ r.place = .comment then r.args ≠ [] → r.args <+: line
    else ∃ more, r.args ++ [r.cur ++ more] <+: line := by
  induction data generalizing r with
  | nil => cases first
  | cons c tl ih =>
    rw [scan] at first
    split_ifs at first with nul nl
    · cases first
    · split at first
      next place => simpa [place] using ih first
      next place =>
        obtain ⟨more, pre⟩ : ∃ more, r.args ++ [r.cur ++ [c] ++ more] <+: line := by simpa [place] using ih first
        simp only [place, reduceCtorEq, or_self, if_false]
        exact ⟨c :: more, by simpa using pre⟩
      next escaped quoted =>
        rw [finished] at first
        split_ifs at first ⊢ with out none
        · exact absurd none
        · cases first
          exact fun _ => prefix_rfl
        · cases first
          exact ⟨[], by simp⟩
    · have later := ih first
      rw [advance] at later
      by_cases ended : r.place.move c = .between ∧ r.place ≠ .between
      · -- the byte ends a token
        have token : ¬ (r.place = .between ∨ r.place = .comment) := by
          rintro (place | place)
          · exact ended.2 place
          · simp [place, Place.move] at ended
        rw [if_neg token]
        exact ⟨[], by simpa [ended] using later⟩
      · simp only [ended, if_false] at later
        by_cases token : r.place = .between ∨ r.place = .comment
        · -- a token or a comment may begin here
          rw [if_pos token]
          intro some_
          split_ifs at later
          · exact later some_
          · obtain ⟨_, pre⟩ := later
            exact (prefix_append _ _).trans pre
        · have stays : ¬ (r.place.move c = .between ∨ r.place.move c = .comment) := by
            rintro (place | place)
            · exact ended ⟨place, fun start => token (.inl start)⟩
            · exact token (Place.move_comment place)
          rw [if_neg stays] at later
          rw [if_neg token]
          obtain ⟨more, pre⟩ := later
          exact ⟨_, by simpa using pre⟩

section Next

variable {r : Reading} {data tl : Bytes} {c : UInt8}

theorem Reading.advance_place : (r.advance c).place = r.place.move c := by
  rw [advance]
  split_ifs with ended
  · exact ended.1.symm
  · rfl

theorem Reading.scan_newline (unquoted : r.place ≠ .quoted) (folds : r.place ≠ .escaped) :
    r.scan (newline :: tl) = r.finished ++ scan {} tl := by
  rw [scan, if_neg (by decide), if_pos rfl]
  split <;> simp_all

theorem Reading.scan_ne_of_longer {args toks : List Bytes} {lns : List (List Bytes)} {cur : Bytes}
    (token : r.place ≠ .between ∧ r.place ≠ .comment) (same : r.args = args) (longer : cur.length < r.cur.length) :
    r.scan data ≠ (args ++ cur :: toks) :: lns := by
  intro eq
  have first := @scan_head r data (args ++ cur :: toks) (by simp [eq])
  rw [if_neg (not_or.mpr token)] at first
  obtain ⟨more, pre⟩ := first
  rw [same, prefix_append_right_inj, cons_prefix_cons] at pre
  have len := congrArg length pre.1
  rw [length_append] at len
  omega

theorem Reading.scan_fold (folds : r.place = .escaped) :
    r.scan (newline :: tl) = { r with place := .folded }.scan tl := by
  rw [scan, if_neg (by decide), if_pos rfl, folds]

theorem Reading.length_finished_le (r : Reading) : r.finished.length ≤ 1 := by
  unfold finished
  split_ifs <;> simp

theorem Reading.length_scan_le_count (r : Reading) (data : Bytes) : (r.scan data).length ≤ data.count newline := by
  induction data generalizing r with
  | nil => simp [scan]
  | cons c tl ih =>
    rw [scan]
    split_ifs with nul nl
    · simp
    · subst nl
      rw [count_cons_self]
      split
      · exact (ih _).trans (Nat.le_succ _)
      · exact (ih _).trans (Nat.le_succ _)
      · rw [length_append]
        have one := r.length_finished_le
        have rest := ih {}
        omega
    · rw [count_cons_of_ne nl]
      exact ih _

end Next

end Aosp.Init
