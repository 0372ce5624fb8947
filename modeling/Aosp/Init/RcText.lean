import Aosp.Init.TokenReading

/-! # Writing `.rc` texts

What the tokenizer makes of tokens that are written out (`writeLines`), and of a text
whose lines end in carriage return and newline (`crlf`).

The README promises C-style escapes and that a backslash folds a line.  Behind the
escapes for newline, carriage return, tab and backslash the letter is read a second
time, and behind a backslash the newline of a carriage return and newline still ends
the line; `lines_writeLines` and `lines_crlf` say exactly which texts notice.
-/

namespace Aosp.Init

open Aosp.Lib List Reading Place

/-! ## Tokens written out -/

def quoteByte (c : UInt8) : Bytes :=
  if c = newline then [backslash, letterN]
  else if c = carriageReturn then [backslash, letterR]
  else if c = tab then [backslash, letterT]
  else if c = backslash then [backslash, backslash]
  else if c = space ∨ c = doubleQuote then [backslash, c]
  else [c]

def quote : Bytes → Bytes
  | [] => [doubleQuote, doubleQuote]
  | c :: rest => (if c = numberSign then [backslash, c] else quoteByte c) ++ rest.flatMap quoteByte

def writeLine : List Bytes → Bytes
  | [] => [newline]
  | [token] => quote token ++ [newline]
  | token :: tokens => quote token ++ space :: writeLine tokens

def writeLines (tokenLists : List (List Bytes)) : Bytes := tokenLists.flatMap writeLine

def byteReadsBack (esc : Bool) (c : UInt8) : Bool :=
  c ∉ [newline, carriageReturn, tab] &&
    !(esc && c ∈ [letterN, letterR, letterT, backslash, space, doubleQuote])

def readsBack : Bool → Bytes → Bool
  | esc, [] => !esc
  | esc, c :: tl => byteReadsBack esc c && readsBack (c = backslash) tl

def tokenPlace (behindBackslash : Bool) : Place := if behindBackslash then .escaped else .text

section Quote

variable {c : UInt8} {tok tl cur : Bytes} {args : List Bytes} {esc : Bool}

theorem scan_token_byte (nul : c ≠ 0) (nl : c ≠ newline) (token : esc ∨ ¬ isSeparator c ∧ c ≠ doubleQuote) :
    scan ⟨tokenPlace esc, args, cur⟩ (c :: tl) =
      scan ⟨tokenPlace (c = backslash), args, cur ++ (tokenPlace esc).written c⟩ tl := by
  rw [scan_byte nul nl, advance]
  cases esc with
  | true => by_cases escape : c = backslash <;> simp [tokenPlace, move, escape]
  | false =>
    have plain := token.resolve_left (by simp)
    by_cases escape : c = backslash
    · subst escape
      rfl
    · simp [tokenPlace, move, behind, plain, escape]

theorem scan_quoteByte (nul : c ≠ 0) (esc : Bool) : ∃ esc' w, (∀ args cur tl,
      scan ⟨tokenPlace esc, args, cur⟩ (quoteByte c ++ tl) = scan ⟨tokenPlace esc', args, cur ++ w⟩ tl) ∧
    if byteReadsBack esc c then esc' = decide (c = backslash) ∧ w = [c] else 1 < w.length := by
  have two : ∀ b, b ≠ 0 → b ≠ newline → ∀ args cur tl,
      scan ⟨tokenPlace esc, args, cur⟩ (backslash :: b :: tl) = scan ⟨tokenPlace (b = backslash), args,
        cur ++ ((tokenPlace esc).written backslash ++ written b .escaped)⟩ tl := by
    intro b nul nl args cur tl
    rw [scan_token_byte (by decide) (by decide) (.inr (by decide)), ← append_assoc]
    exact scan_token_byte nul nl (.inl rfl)
  by_cases special : c = newline ∨ c = carriageReturn ∨ c = tab ∨ c = backslash ∨ c = space ∨ c = doubleQuote
  · rcases special with rfl | rfl | rfl | rfl | rfl | rfl
    · exact ⟨_, _, two letterN (by decide) (by decide), by cases esc <;> decide⟩
    · exact ⟨_, _, two letterR (by decide) (by decide), by cases esc <;> decide⟩
    · exact ⟨_, _, two letterT (by decide) (by decide), by cases esc <;> decide⟩
    · exact ⟨_, _, two backslash (by decide) (by decide), by cases esc <;> decide⟩
    · exact ⟨_, _, two space (by decide) (by decide), by cases esc <;> decide⟩
    · exact ⟨_, _, two doubleQuote (by decide) (by decide), by cases esc <;> decide⟩
  · simp only [not_or] at special
    obtain ⟨nl, ret, isTab, escape, isSpace, isQuote⟩ := special
    have alone : quoteByte c = [c] := by simp [quoteByte, nl, ret, isTab, escape, isSpace, isQuote]
    have token : ¬ isSeparator c := by simp [isSeparator, isSpace, isTab, ret]
    rw [alone]
    refine ⟨_, _, fun args cur tl => scan_token_byte nul nl (.inr ⟨token, isQuote⟩), ?_⟩
    cases esc with
    | false => simp [byteReadsBack, nl, ret, isTab, tokenPlace, written, behind, token, isQuote, escape]
    | true =>
      by_cases letter : c = letterN ∨ c = letterR ∨ c = letterT
      · rcases letter with rfl | rfl | rfl <;> decide
      · obtain ⟨n, r, t⟩ := by simpa only [not_or] using letter
        simp [byteReadsBack, nl, ret, isTab, tokenPlace, written, escape, isSpace, isQuote, n, r, t]

variable (nulFree : NulFree tok)
include nulFree

/-- A token that is not read back gets longer, or ends behind a backslash. -/
theorem scan_quoteBytes (esc : Bool) : ∃ esc' back, (∀ args cur tl,
      scan ⟨tokenPlace esc, args, cur⟩ (tok.flatMap quoteByte ++ tl) =
        scan ⟨tokenPlace esc', args, cur ++ back⟩ tl) ∧
    tok.length ≤ back.length ∧
    if readsBack esc tok then esc' = false ∧ back = tok else esc' = true ∨ tok.length < back.length := by
  induction tok generalizing esc with
  | nil => exact ⟨esc, [], fun args cur tl => by simp, le_rfl, by cases esc <;> simp [readsBack]⟩
  | cons c tok ih =>
    simp only [NulFree, mem_cons, not_or] at nulFree
    obtain ⟨esc1, w, first, byte⟩ := scan_quoteByte (Ne.symm nulFree.1) esc
    obtain ⟨esc2, back, rest, le, token⟩ := ih nulFree.2 esc1
    refine ⟨esc2, w ++ back, fun args cur tl => ?_, ?_, ?_⟩
    · rw [flatMap_cons, append_assoc, first, rest, append_assoc]
    · rw [length_cons, length_append]
      split_ifs at byte with ok
      · simp [byte.2]
        omega
      · omega
    · rw [readsBack]
      split_ifs at byte with ok
      · obtain ⟨rfl, rfl⟩ := byte
        simpa [ok] using token
      · simp only [ok, Bool.false_and, Bool.false_eq_true, if_false, length_cons, length_append]
        omega

theorem scan_quote : { args : Reading }.scan (quote tok ++ tl) =
    scan ⟨.text, args, []⟩ (tok.flatMap quoteByte ++ tl) := by
  cases tok with
  | nil => rfl
  | cons c tok =>
    by_cases sign : c = numberSign
    · subst sign
      rfl
    · obtain ⟨b, rest, eq, nul, nl, token, unsigned⟩ : ∃ b rest, quoteByte c = b :: rest ∧ b ≠ 0 ∧ b ≠ newline ∧
          ¬ isSeparator b ∧ b ≠ numberSign := by
        unfold quoteByte
        split_ifs with nl ret isTab escape blank
        iterate 5 exact ⟨backslash, _, rfl, by decide⟩
        have nul : c ≠ 0 := fun zero => nulFree (zero ▸ mem_cons_self)
        exact ⟨c, [], rfl, nul, nl, by simp [isSeparator, ret, isTab, not_or.mp blank], sign⟩
      rw [quote, if_neg sign, flatMap_cons, eq, append_assoc, cons_append]
      exact scan_between nul nl token unsigned

end Quote

theorem newline_not_mem_quote (tok : Bytes) : newline ∉ quote tok := by
  have byte : ∀ c, newline ∉ quoteByte c := by
    intro c
    unfold quoteByte
    split_ifs with nl
    iterate 4 decide
    · rename_i blank
      rcases blank with rfl | rfl <;> decide
    · simpa [eq_comm] using nl
  cases tok with
  | nil => decide
  | cons c tok =>
    rw [quote, mem_append, mem_flatMap, not_or, not_exists]
    refine ⟨?_, fun c mem => byte c mem.2⟩
    split_ifs with sign
    · subst sign
      decide
    · exact byte c

theorem count_writeLine (toks : List Bytes) : (writeLine toks).count newline = 1 := by
  induction toks with
  | nil => rfl
  | cons tok toks ih =>
    have none := count_eq_zero.mpr (newline_not_mem_quote tok)
    cases toks with
    | nil => simp [writeLine, none]
    | cons _ _ => simp [writeLine, none, ih, show space ≠ newline by decide]

theorem count_writeLines (tls : List (List Bytes)) : (writeLines tls).count newline = tls.length := by
  induction tls with
  | nil => rfl
  | cons toks tls ih =>
    rw [writeLines, flatMap_cons, ← writeLines, count_append, count_writeLine, ih, length_cons, Nat.add_comm]

theorem scan_writeLine {toks args : List Bytes} {tl : Bytes} (nonempty : toks ≠ [])
    (nulFree : ∀ tok ∈ toks, NulFree tok) :
    if ∀ tok ∈ toks, readsBack false tok then
      { args : Reading }.scan (writeLine toks ++ tl) = (args ++ toks) :: scan {} tl
    else ∀ lns, lns.length = tl.count newline →
      { args : Reading }.scan (writeLine toks ++ tl) ≠ (args ++ toks) :: lns := by
  induction toks generalizing args with
  | nil => exact absurd rfl nonempty
  | cons tok toks ih =>
    obtain ⟨first, later⟩ := forall_mem_cons.mp nulFree
    obtain ⟨esc, back, reads, len, token⟩ := scan_quoteBytes first false
    have start : ∀ rest, { args : Reading }.scan (quote tok ++ rest) = scan ⟨tokenPlace esc, args, back⟩ rest :=
      fun rest => (scan_quote first).trans (by simpa [tokenPlace] using reads args [] rest)
    have inToken : tokenPlace esc ≠ .between ∧ tokenPlace esc ≠ .comment := by cases esc <;> decide
    simp only [forall_mem_cons]
    by_cases ok : readsBack false tok
    · rw [if_pos ok] at token
      obtain ⟨rfl, rfl⟩ := token
      cases toks with
      | nil =>
        rw [writeLine, append_assoc, singleton_append, start,
          scan_newline (by simp [tokenPlace]) (by simp [tokenPlace])]
        simp [ok, finished, tokenPlace]
      | cons tok' toks =>
        have rest := @ih (args ++ [back]) (by simp) later
        have next : scan ⟨tokenPlace false, args, back⟩ (space :: (writeLine (tok' :: toks) ++ tl)) =
          { args := args ++ [back] : Reading }.scan (writeLine (tok' :: toks) ++ tl) := rfl
        rw [writeLine, append_assoc, cons_append, start, next]
        · simpa [ok] using rest
        · simp
    · rw [if_neg ok] at token
      rw [if_neg (fun all => ok all.1)]
      intro lns lines
      rcases token with rfl | longer
      · -- the last backslash takes the space or the newline behind the token
        cases toks with
        | nil =>
          intro eq
          rw [writeLine, append_assoc, singleton_append, start, scan_fold rfl] at eq
          have fewer := length_scan_le_count ⟨.folded, args, back⟩ tl
          rw [eq, length_cons] at fewer
          omega
        | cons tok' toks =>
          have next : scan ⟨tokenPlace true, args, back⟩ (space :: (writeLine (tok' :: toks) ++ tl)) =
            scan ⟨.text, args, back ++ [space]⟩ (writeLine (tok' :: toks) ++ tl) := rfl
          rw [writeLine, append_assoc, cons_append, start, next]
          · exact scan_ne_of_longer (by simp) rfl (by simpa using Nat.lt_succ_of_le len)
          · simp
      · obtain ⟨rest, written⟩ : ∃ rest, writeLine (tok :: toks) ++ tl = quote tok ++ rest := by
          cases toks <;> exact ⟨_, append_assoc ..⟩
        rw [written, start]
        exact scan_ne_of_longer inToken rfl longer

/-- Written lines are read back exactly if each of their tokens is. -/
theorem lines_writeLines {tokenLists : List (List Bytes)}
    (nulFree : ∀ toks ∈ tokenLists, toks ≠ [] ∧ ∀ tok ∈ toks, NulFree tok) :
    (lines (writeLines tokenLists)).map Prod.fst = tokenLists ↔
      ∀ toks ∈ tokenLists, ∀ tok ∈ toks, readsBack false tok := by
  rw [lines_eq_scan]
  induction tokenLists with
  | nil => simp [writeLines, scan]
  | cons toks tls ih =>
    obtain ⟨⟨nonempty, first⟩, later⟩ := forall_mem_cons.mp nulFree
    have line := @scan_writeLine toks [] (writeLines tls) nonempty first
    rw [writeLines, flatMap_cons, ← writeLines, forall_mem_cons]
    split_ifs at line with back
    · rw [line, ← ih later, nil_append, cons.injEq]
      simpa using fun _ => back
    · simp only [back, false_and, iff_false]
      exact line tls (count_writeLines tls).symm

theorem lines_writeLines_two_lines :
    (lines (writeLines [[ascii "on", [], ascii "#a b"], [ascii "\"x", ascii "\\a"]])).map Prod.fst =
      [[ascii "on", [], ascii "#a b"], [ascii "\"x", ascii "\\a"]] :=
  (lines_writeLines (by decide +kernel)).mpr (by decide +kernel)

/-- A newline in a token comes back with the letter of its escape. -/
theorem escaped_newline_read_twice : (lines (writeLines [[[newline]]])).map Prod.fst = [[[newline, letterN]]] := by
  decide

/-! ## Carriage return and newline -/

def crlf (data : Bytes) : Bytes := data.flatMap fun c => if c = newline then [carriageReturn, newline] else [c]

/-- Behind a folded line there is nothing on the next one: where a newline is escaped,
    only blanks stand in front of the next newline. -/
def foldsEnd : Place → Bytes → Bool
  | place, [] => place ≠ .folded
  | place, c :: tl =>
    if c = newline then foldsEnd (if place = .escaped then .folded else .between) tl
    else if place = .folded then (c = space ∨ c = tab) && foldsEnd .folded tl
    else c = 0 || foldsEnd (place.move c) tl

section Crlf

variable {c : UInt8} {data tl : Bytes} {r r' : Reading}

theorem crlf_cons (o : c ≠ newline) : crlf (c :: tl) = c :: crlf tl := by
  simp [crlf, o]

theorem crlf_newline : crlf (newline :: tl) = carriageReturn :: newline :: crlf tl := rfl

theorem Place.move_folded {place : Place} (unfolded : place ≠ .folded) : place.move c ≠ .folded := by
  cases place <;> simp_all [move, behind] <;> split_ifs <;> simp

theorem Reading.advance_unquoted (unquoted : r.place ≠ .quoted) (noQuote : c ≠ doubleQuote) :
    (r.advance c).place ≠ .quoted := by
  rw [advance_place]
  cases isPlace : r.place <;> simp_all [move, behind] <;> split_ifs <;> simp

theorem Reading.scan_crlf (unquoted : r.place ≠ .quoted) :
    r.scan (carriageReturn :: newline :: tl) = r.finished ++ scan {} tl := by
  obtain ⟨place, args, cur⟩ := r
  cases place <;> first
    | exact absurd rfl unquoted
    | simp [scan, advance, move, behind, written, isSeparator, finished, carriageReturn, newline,
        numberSign, space, tab, backslash, letterN, letterR, letterT]

/-- The second reading reports a line at least where the first does. -/
structure Ahead (r r' : Reading) : Prop where
  place : r.place = r'.place
  finished : r.finished.length ≤ r'.finished.length

theorem Ahead.advance (ahead : Ahead r r') (c : UInt8) : Ahead (r.advance c) (r'.advance c) := by
  obtain ⟨place, args, cur⟩ := r
  obtain ⟨place', args', cur'⟩ := r'
  obtain ⟨rfl, fewer⟩ := ahead
  by_cases ended : place.move c = .between ∧ place ≠ .between
  · simp only [Reading.advance, ended, ne_eq, not_false_eq_true, and_self, if_true]
    exact ⟨rfl, by simp [Reading.finished]⟩
  · simp only [Reading.advance, ended, if_false]
    refine ⟨rfl, ?_⟩
    simp only [Reading.finished] at fewer ⊢
    by_cases out : place.move c = .between ∨ place.move c = .comment
    · have was : place = .between ∨ place = .comment := by
        rcases out with out | out
        · exact .inl (by simpa [out] using ended)
        · exact move_comment out
      simpa only [out, was, if_true] using fewer
    · simp [out]

/-- Carriage returns do not take lines away. -/
theorem length_scan_le (noQuote : doubleQuote ∉ data) :
    (∀ r r' : Reading, r.place ≠ .quoted → r'.place ≠ .quoted →
      (r.scan data).length ≤ (r'.scan (crlf data)).length + 1) ∧
    ∀ r r' : Reading, r.place ≠ .quoted → Ahead r r' → (r.scan data).length ≤ (r'.scan (crlf data)).length := by
  induction data with
  | nil => simp [scan]
  | cons c tl ih =>
    simp only [mem_cons, not_or] at noQuote
    obtain ⟨any, ahead⟩ := ih noQuote.2
    have start : Ahead {} {} := ⟨rfl, le_rfl⟩
    by_cases nul : c = 0
    · subst nul
      exact ⟨fun _ _ _ _ => Nat.zero_le _, fun _ _ _ _ => Nat.zero_le _⟩
    by_cases nl : c = newline
    · subst nl
      rw [crlf_newline]
      have fresh := ahead {} {} (by simp) start
      constructor
      · intro r r' unquoted unquoted'
        rw [scan_crlf unquoted', length_append]
        by_cases folds : r.place = .escaped
        · rw [scan_fold folds]
          have rest := any { r with place := .folded } {} (by simp) (by simp)
          omega
        · rw [scan_newline unquoted folds, length_append]
          have one := r.length_finished_le
          omega
      · intro r r' unquoted more
        rw [scan_crlf (more.place ▸ unquoted), length_append]
        by_cases folds : r.place = .escaped
        · rw [scan_fold folds]
          have rest := any { r with place := .folded } {} (by simp) (by simp)
          have one : r'.finished.length = 1 := by simp [finished, ← more.place, folds]
          omega
        · rw [scan_newline unquoted folds, length_append]
          have finished := more.finished
          omega
    · rw [crlf_cons nl]
      constructor
      · intro r r' unquoted unquoted'
        rw [scan_byte nul nl, scan_byte nul nl]
        exact any _ _ (advance_unquoted unquoted (Ne.symm noQuote.1))
          (advance_unquoted unquoted' (Ne.symm noQuote.1))
      · intro r r' unquoted more
        rw [scan_byte nul nl, scan_byte nul nl]
        exact ahead _ _ (advance_unquoted unquoted (Ne.symm noQuote.1)) (more.advance c)

/-- Behind a fold comes a byte that the text with carriage returns has on a line of its own. -/
theorem scan_folded_ne {c : UInt8} {args : List Bytes} {cur : Bytes} (noQuote : doubleQuote ∉ c :: data)
    (notReturn : c ≠ carriageReturn) (blank : ¬ (c = space ∨ c = tab)) :
    (args ++ [cur]) :: scan (advance {} c) (crlf data) ≠ scan (advance ⟨.folded, args, cur⟩ c) data := by
  simp only [mem_cons, not_or] at noQuote
  by_cases escape : c = backslash
  · -- both go on behind a backslash, so no line is missing
    subst escape
    have one : advance {} backslash = ⟨.escaped, [], []⟩ := rfl
    have two : advance ⟨.folded, args, cur⟩ backslash = ⟨.escaped, args, cur ++ []⟩ := rfl
    rw [one, two, append_nil]
    have ahead : Ahead ⟨.escaped, args, cur⟩ ⟨.escaped, [], []⟩ := ⟨rfl, le_rfl⟩
    have fewer := (length_scan_le noQuote.2).2 _ _ (by simp) ahead
    intro eq
    have len := congrArg length eq
    rw [length_cons] at len
    omega
  · have isSep : ¬ isSeparator c := fun sep => by
      rcases sep with sep | sep | sep
      · exact blank (.inl sep)
      · exact blank (.inr sep)
      · exact notReturn sep
    have token : advance ⟨.folded, args, cur⟩ c = ⟨.text, args, cur ++ [c]⟩ := by
      simp [advance, move, blank, behind, isSep, Ne.symm noQuote.1, escape, written]
    rw [token]
    exact Ne.symm (scan_ne_of_longer (by simp) rfl (by simp))

theorem scan_crlf_iff (noQuote : doubleQuote ∉ data) (noReturn : carriageReturn ∉ data) :
    (∀ r : Reading, r.place ≠ .quoted → r.place ≠ .folded →
      (r.scan (crlf data) = r.scan data ↔ foldsEnd r.place data)) ∧
    ∀ args cur, (args ++ [cur]) :: scan {} (crlf data) = scan ⟨.folded, args, cur⟩ data ↔
      foldsEnd .folded data := by
  induction data with
  | nil => simp [scan, crlf, foldsEnd]
  | cons c tl ih =>
    have quotes := noQuote
    simp only [mem_cons, not_or] at noQuote noReturn
    obtain ⟨agree, later⟩ := ih noQuote.2 noReturn.2
    by_cases nl : c = newline
    · subst nl
      have start := agree {} (by simp) (by simp)
      constructor
      · intro r unquoted unfolded
        rw [crlf_newline, scan_crlf unquoted, foldsEnd, if_pos rfl]
        by_cases folds : r.place = .escaped
        · rw [scan_fold folds, if_pos folds]
          simpa [finished, folds] using later r.args r.cur
        · rw [scan_newline unquoted folds, if_neg folds, append_cancel_left_eq]
          exact start
      · intro args cur
        rw [crlf_newline, scan_crlf (by simp), foldsEnd, if_pos rfl, scan_newline (by simp) (by simp)]
        simpa [finished] using start
    · rw [crlf_cons nl]
      by_cases nul : c = 0
      · subst nul
        simp [scan, foldsEnd, newline, space, tab]
      constructor
      · intro r unquoted unfolded
        rw [scan_byte nul nl, scan_byte nul nl, foldsEnd, if_neg nl, if_neg unfolded]
        have rest := agree (r.advance c) (advance_unquoted unquoted (Ne.symm noQuote.1))
          (advance_place ▸ move_folded unfolded)
        simpa [nul, advance_place] using rest
      · intro args cur
        rw [scan_byte nul nl, scan_byte nul nl, foldsEnd, if_neg nl, if_pos rfl]
        by_cases blank : c = space ∨ c = tab
        · have isSep : isSeparator c := by rcases blank with rfl | rfl <;> decide
          have unsigned : c ≠ numberSign := by rcases blank with rfl | rfl <;> decide
          simpa [advance, move, blank, behind, isSep, unsigned, written] using later args cur
        · simp only [blank, decide_false, Bool.false_and, Bool.false_eq_true, iff_false]
          exact scan_folded_ne quotes (Ne.symm noReturn.1) blank

/-- Carriage returns do not matter exactly if behind each folded line there is nothing. -/
theorem lines_crlf (noQuote : doubleQuote ∉ data) (noReturn : carriageReturn ∉ data) :
    (lines (crlf data)).map Prod.fst = (lines data).map Prod.fst ↔ foldsEnd .between data := by
  rw [lines_eq_scan, lines_eq_scan]
  exact (scan_crlf_iff noQuote noReturn).1 {} (by simp) (by simp)

end Crlf

/-- A comment with a backslash at its end, and a folded line in front of an empty one. -/
theorem lines_crlf_comment : (lines (crlf (ascii "a b # c\\\n d \\\n \n e\n"))).map Prod.fst =
    (lines (ascii "a b # c\\\n d \\\n \n e\n")).map Prod.fst :=
  (lines_crlf (by decide) (by decide)).mpr (by decide)

/-- A line that is folded before a newline is not folded before carriage return and newline. -/
theorem crlf_not_folded :
    lines (ascii "a \\\n b\n") = [([ascii "a", ascii "b"], 2)] ∧
      lines (crlf (ascii "a \\\n b\n")) = [([ascii "a", []], 2), ([ascii "b"], 3)] := by
  decide

end Aosp.Init
