/-
# Metta.Proofs.Layout -- only the tokens of a text matter

Source text is tokens with separators around them.  A layout (`Token.Layout`) says which
tokens and which separators; of two tokens in a row that are both variables, numbers or
symbols the second one needs a separator in front of it, and nothing else does.

What a token may look like is told without the text around it (`Token.Spelling`): a
parenthesis, a string with its closing quote, or a word, which is free of delimiters and
read up to the first one.  A token that is found in a text is spelled like that
(`Token.exists_spelling`), and what is spelled like that is found again, whatever
separators stand around it (`Token.Laid.lexemes_scan`).

So texts laid out from the same tokens have the same lexemes in the same order, and only
positions differ; these show nowhere but in errors (`Stack.run_alike`).
-/
import Metta.Proofs.Composition

namespace Metta

open Metta.Text

set_option autoImplicit false

/-! ## Separators -/

/-- Blanks and comments; every comment ends with a line feed. -/
inductive Separator : List Char → Prop
  | none : Separator []
  | blank {c : Char} {cs : List Char} (blank : isBlank c = true) (more : Separator cs) :
      Separator (c :: cs)
  | comment {line cs : List Char} (oneLine : '\n' ∉ line) (more : Separator cs) :
      Separator (';' :: (line ++ '\n' :: cs))

/-- A separator at the end of a text, where a comment may end with the text. -/
def Trailing (cs : List Char) : Prop :=
  Separator cs ∨ ∃ s line, Separator s ∧ '\n' ∉ line ∧ cs = s ++ ';' :: line

theorem Separator.ends {s : List Char} (separator : Separator s) (nonempty : s ≠ [])
    (rest : List Char) : Token.Ends (s ++ rest) := by
  cases separator with
  | none => exact absurd rfl nonempty
  | blank blank more => exact Token.ends_cons (by simp [Token.isDelimiter, blank])
  | comment => exact Token.ends_cons (by decide)

theorem Separator.append {s s' : List Char} (separator : Separator s) (more : Separator s') :
    Separator (s ++ s') := by
  induction separator with
  | none => exact more
  | blank blank _ ih => exact .blank blank ih
  | @comment line cs oneLine _ ih =>
      rw [List.cons_append, List.append_assoc, List.cons_append]
      exact .comment oneLine ih

theorem Trailing.behind {s cs : List Char} (trailing : Trailing cs) (separator : Separator s) :
    Trailing (s ++ cs) := by
  obtain more | ⟨s', line, more, oneLine, rfl⟩ := trailing
  · exact .inl (separator.append more)
  · exact .inr ⟨s ++ s', line, separator.append more, oneLine, by rw [List.append_assoc]⟩

theorem Trailing.ends {cs : List Char} (trailing : Trailing cs) : Token.Ends cs := by
  obtain separator | ⟨s, line, separator, -, rfl⟩ := trailing
  · by_cases empty : cs = []
    · subst empty
      exact Token.ends_nil
    · simpa using separator.ends empty []
  · by_cases empty : s = []
    · subst empty
      exact Token.ends_cons (by decide)
    · exact separator.ends empty _

namespace Token

variable {c : Char} {cs rest line : List Char} {pos : Nat}

theorem lexemeAt_blank (blank : isBlank c = true) : lexemeAt c cs = (none, 0) := by
  simp [lexemeAt, blank]

theorem lexemeAt_comment (cs : List Char) : lexemeAt ';' cs = (none, (comment cs).length) := by
  have marked : isBlank ';' = false := by decide
  simp [lexemeAt, marked]

theorem comment_eq_self (oneLine : '\n' ∉ line) : comment line = line := by
  rw [comment, List.takeWhile_eq_self_iff]
  intro c member
  rw [bne_iff_ne]
  rintro rfl
  exact oneLine member

theorem scan_blank (blank : isBlank c = true) : scan 0 pos (c :: cs) = scan 0 (pos + 1) cs := by
  rw [scan, lexemeAt_blank blank]

/-- No token begins in a separator. -/
theorem scan_separator {s : List Char} (separator : Separator s) (pos : Nat) :
    scan 0 pos (s ++ rest) = scan 0 (pos + s.length) rest := by
  induction separator generalizing pos with
  | none => rfl
  | blank blank more ih =>
      rw [List.cons_append, scan_blank blank, ih, List.length_cons]
      congr 1
      omega
  | @comment line cs oneLine more ih =>
      have feed : isBlank '\n' = true := by decide
      have ends : comment (line ++ '\n' :: (cs ++ rest)) = line := by
        rw [comment_append, comment_eq_self oneLine]
      rw [List.cons_append, List.append_assoc, List.cons_append, scan, lexemeAt_comment, ends]
      simp only
      rw [scan_skip, List.drop_left, scan_blank feed, ih]
      simp only [List.length_cons, List.length_append]
      congr 1
      omega

theorem scan_trailing (trailing : Trailing cs) (pos : Nat) : scan 0 pos cs = [] := by
  obtain separator | ⟨s, line, separator, oneLine, rfl⟩ := trailing
  · have scanned : scan 0 pos (cs ++ []) = scan 0 (pos + cs.length) [] :=
      scan_separator separator pos
    rwa [List.append_nil, scan] at scanned
  · rw [scan_separator separator, scan, lexemeAt_comment, comment_eq_self oneLine]
    simp only
    rw [scan_skip, List.drop_length, scan]

end Token

/-! ## How tokens are spelled -/

def Lexeme.isFault : Lexeme → Bool
  | .fault _ _ => true
  | _ => false

namespace Token

variable {c : Char} {cs rest piece : List Char} {l : Lexeme} {n pos : Nat}

/-- What a token that is no fault looks like.  A word is a variable, a number or a symbol. -/
inductive Spelling : List Char → Lexeme → Prop
  | opening : Spelling ['('] .opening
  | closing : Spelling [')'] .closing
  | string {cs body : List Char} (closed : stringBody cs = (some body, cs.length)) :
      Spelling ('"' :: cs) (.leaf (.ofScalar (.text (String.ofList body))))
  | word {piece : List Char} {a : Atom} (named : isName piece = true) (leaf : IsLeaf piece a) :
      Spelling piece (.leaf a)

/-- What is no word begins with a delimiter. -/
theorem Spelling.ends (spelling : Spelling piece l) (noWord : isName piece = false)
    (rest : List Char) : Ends (piece ++ rest) := by
  cases spelling with
  | word named => simp [named] at noWord
  | _ => exact ends_cons (by decide)

/-- A spelling is read back as it is; only behind a word a delimiter must come. -/
theorem Spelling.exists_lexemeAt (spelling : Spelling piece l)
    (ends : isName piece = true → Ends rest) :
    ∃ c cs, piece = c :: cs ∧ lexemeAt c (cs ++ rest) = (some l, cs.length) := by
  cases spelling with
  | opening => exact ⟨'(', [], rfl, rfl⟩
  | closing => exact ⟨')', [], rfl, rfl⟩
  | @string cs body closed =>
      refine ⟨'"', cs, rfl, ?_⟩
      rw [lexemeAt_quote, stringLexeme, stringBody_append closed rest]
  | word named leaf =>
      obtain ⟨c, cs, rfl, read⟩ := leaf
      exact ⟨c, cs, rfl, read rest (ends named)⟩

/-! ### What is found in a text -/

/-- A string ends with its closing quote. -/
theorem exists_stringBody {body : List Char} (read : stringBody cs = (some body, n)) :
    ∃ inner rest, cs = inner ++ rest ∧ inner.length = n ∧ stringBody inner = (some body, n) := by
  fun_induction stringBody cs generalizing body n with
  | case1 => cases read
  | case2 cs =>
      cases read
      exact ⟨['"'], cs, rfl, rfl, by simp [stringBody]⟩
  | case3 => cases read
  | case4 c cs inner k inside ih =>
      cases inner with
      | none => cases read
      | some inner =>
          cases read
          obtain ⟨tail, rest, rfl, rfl, whole⟩ := ih inside
          exact ⟨'\\' :: c :: tail, rest, rfl, rfl, by simp [stringBody, whole]⟩
  | case5 c cs noQuote noEnd noEscape inner k inside ih =>
      cases inner with
      | none => cases read
      | some inner =>
          cases read
          obtain ⟨tail, rest, rfl, rfl, whole⟩ := ih inside
          have noSlash := ne_backslash noEnd noEscape
          refine ⟨c :: tail, rest, rfl, rfl, ?_⟩
          simp [stringBody, noSlash, whole]

theorem exists_name (cs : List Char) : ∃ rest, cs = name cs ++ rest ∧ Ends rest := by
  refine ⟨cs.dropWhile fun c => !isDelimiter c, List.takeWhile_append_dropWhile.symm, ?_⟩
  intro c first
  have stopped := List.head?_dropWhile_not (fun c => !isDelimiter c) cs
  rw [Option.mem_def.mp first] at stopped
  simpa using stopped

theorem all_name (cs : List Char) : (name cs).all (fun c => !isDelimiter c) = true :=
  List.all_takeWhile

theorem isName_cons (free : isDelimiter c = false)
    (named : cs.all (fun c => !isDelimiter c) = true) : isName (c :: cs) = true := by
  simp [isName, free, named]

end Token

namespace Numeral

open Token (Ends)

variable {c : Char} {cs rest : List Char}

/-- The rest of a numeral has no delimiter in it. -/
theorem all_run (pointAllowed : Bool) (cs : List Char) :
    (run pointAllowed cs).all (fun c => !Token.isDelimiter c) = true := by
  induction cs generalizing pointAllowed with
  | nil => rfl
  | cons c cs ih =>
      unfold run
      split
      · rename_i digit
        simp [Token.isDelimiter_of_isDigit digit, ih]
      · split
        · rename_i point
          have free : Token.isDelimiter '.' = false := by decide
          obtain ⟨rfl, -⟩ : c = '.' ∧ _ := by simpa using point
          simp [free, ih]
        · rfl

theorem run_isPrefix (pointAllowed : Bool) (cs : List Char) :
    run pointAllowed cs <+: cs := by
  induction cs generalizing pointAllowed with
  | nil => exact List.prefix_rfl
  | cons c cs ih =>
      unfold run
      split
      · exact List.cons_prefix_cons.mpr ⟨rfl, ih pointAllowed⟩
      · split
        · exact List.cons_prefix_cons.mpr ⟨rfl, ih false⟩
        · exact List.nil_prefix

/-- The rest of a numeral is a rest by itself. -/
theorem run_run (pointAllowed : Bool) (cs : List Char) :
    run pointAllowed (run pointAllowed cs) = run pointAllowed cs := by
  induction cs generalizing pointAllowed with
  | nil => rfl
  | cons c cs ih =>
      conv_rhs => unfold run
      conv_lhs => arg 2; unfold run
      split
      · rename_i digit
        simp [run, digit, ih]
      · rename_i noDigit
        split
        · rename_i point
          simp [run, noDigit, point, ih]
        · rfl

/-- Whether a numeral begins shows in what belongs to it. -/
theorem starts_run (begins : starts c cs = true) (rest : List Char) :
    starts c (run true cs ++ rest) = true := by
  cases cs with
  | nil =>
      have digit : isDigit c = true := by simpa [starts] using begins
      simp [starts, digit]
  | cons d ds =>
      simp only [starts, List.head?_cons, Option.any_some, Bool.or_eq_true, Bool.and_eq_true]
        at begins
      obtain digit | ⟨minus, digit⟩ := begins
      · simp [starts, digit]
      · simp [starts, run, minus, digit]

end Numeral

namespace Token

variable {c : Char} {cs rest piece : List Char} {l : Lexeme} {n pos : Nat}

/-- A number that is read is a word and comes to itself, and a delimiter follows. -/
theorem exists_number (free : isDelimiter c = false) (plain : c ≠ '$')
    (begins : Numeral.starts c cs = true) (read : numberLexeme c cs = (l, n))
    (sound : l.isFault = false) :
    ∃ tail rest, cs = tail ++ rest ∧ tail.length = n ∧ Spelling (c :: tail) l ∧ Ends rest := by
  have whole := List.prefix_iff_eq_append.mp (Numeral.run_isPrefix true cs)
  simp only [numberLexeme] at read
  split at read
  · cases read
    cases sound
  rename_i noStray
  have ends : Ends (cs.drop (Numeral.run true cs).length) := by
    intro d first
    rw [Option.filter_eq_none_iff] at noStray
    simpa using noStray d first
  split at read
  · rename_i value
    cases read
    refine ⟨_, _, whole.symm, rfl, .word (isName_cons free (Numeral.all_run true cs)) ?_, ends⟩
    refine Numeral.isLeaf_of_starts free plain (Numeral.starts_run begins) ?_ value
    intro rest ends
    rw [Numeral.run_append ends, Numeral.run_run]
  · cases read
    cases sound

/-- A variable is its name behind the sign. -/
theorem exists_variable (read : lexemeAt '$' cs = (some l, n)) (sound : l.isFault = false) :
    ∃ tail rest, cs = tail ++ rest ∧ tail.length = n ∧ Spelling ('$' :: tail) l ∧ Ends rest := by
  have free : isDelimiter '$' = false := by decide
  have marked : lexemeAt '$' cs = (some (variableLexeme cs).1, (variableLexeme cs).2) := by
    have noBlank : isBlank '$' = false := by decide
    simp [lexemeAt, noBlank]
  obtain ⟨rest, whole, ends⟩ := exists_name cs
  cases named : name cs with
  | nil =>
      rw [marked, variableLexeme, named] at read
      cases read
      cases sound
  | cons d ds =>
      have leaf : lexemeAt '$' cs =
          (some (.leaf (.var (String.ofList (name cs)) none)), (name cs).length) := by
        rw [marked, variableLexeme, named]
      have written := isLeaf_var (isReadableLeaf_of_lexemeAt leaf)
      rw [String.toList_ofList] at written
      rw [leaf] at read
      cases read
      exact ⟨_, rest, whole, rfl, .word (isName_cons free (all_name cs)) written, ends⟩

/-- A symbol is its name. -/
theorem exists_symbol (free : isDelimiter c = false) (plain : c ≠ '$')
    (noNumber : Numeral.starts c cs = false) (read : lexemeAt c cs = (some l, n)) :
    ∃ tail rest, cs = tail ++ rest ∧ tail.length = n ∧ Spelling (c :: tail) l ∧ Ends rest := by
  obtain ⟨rest, whole, ends⟩ := exists_name cs
  have leaf : lexemeAt c cs =
      (some (.leaf (.symbol (String.ofList (c :: name cs)))), (name cs).length) := by
    simp [lexemeAt_of_plain free plain, noNumber, symbolLexeme]
  have written := isLeaf_symbol (isReadableLeaf_of_lexemeAt leaf)
  rw [String.toList_ofList] at written
  rw [leaf] at read
  cases read
  exact ⟨_, rest, whole, rfl, .word (isName_cons free (all_name cs)) written, ends⟩

/-- **What is found in a text is spelled as a token is**, and behind a word a delimiter follows. -/
theorem exists_spelling (read : lexemeAt c cs = (some l, n)) (sound : l.isFault = false) :
    ∃ tail rest, cs = tail ++ rest ∧ tail.length = n ∧ Spelling (c :: tail) l ∧
      (isName (c :: tail) = true → Ends rest) := by
  by_cases delimiter : isDelimiter c
  · have noWord (tail : List Char) : isName (c :: tail) = false := by simp [isName, delimiter]
    simp only [isDelimiter, Bool.or_eq_true, beq_iff_eq] at delimiter
    obtain (((blank | rfl) | rfl) | rfl) | rfl := delimiter
    · rw [lexemeAt_blank blank] at read
      cases read
    · cases read
      exact ⟨[], cs, rfl, rfl, .opening, by simp [noWord]⟩
    · cases read
      exact ⟨[], cs, rfl, rfl, .closing, by simp [noWord]⟩
    · rw [lexemeAt_quote, stringLexeme] at read
      cases body : stringBody cs with
      | mk body? k =>
          rw [body] at read
          cases body? with
          | none =>
              cases read
              cases sound
          | some inner =>
              cases read
              obtain ⟨tail, rest, whole, length, closed⟩ := exists_stringBody body
              exact ⟨tail, rest, whole, length, .string (length.symm ▸ closed), by simp [noWord]⟩
    · rw [lexemeAt_comment] at read
      cases read
  · have free : isDelimiter c = false := by simpa using delimiter
    suffices ∃ tail rest, cs = tail ++ rest ∧ tail.length = n ∧ Spelling (c :: tail) l ∧
        Ends rest by
      obtain ⟨tail, rest, whole, length, spelling, ends⟩ := this
      exact ⟨tail, rest, whole, length, spelling, fun _ => ends⟩
    by_cases plain : c = '$'
    · subst plain
      exact exists_variable read sound
    · cases begins : Numeral.starts c cs with
      | false => exact exists_symbol free plain begins read
      | true =>
          rw [lexemeAt_of_plain free plain] at read
          simp only [begins, if_true, Prod.mk.injEq, Option.some.injEq] at read
          exact exists_number free plain begins (Prod.ext read.1 read.2) sound

/-! ### One token after the other -/

variable {whole : List Char} {t : Token} {ts : List Token}

/-- A text begins with a separator, with a comment that is all there is, or with a token. -/
theorem lexemeAt_cases (c : Char) (cs : List Char) :
    (∃ s rest, Separator (c :: s) ∧ cs = s ++ rest) ∨ (c = ';' ∧ '\n' ∉ cs) ∨
      ∃ l n, lexemeAt c cs = (some l, n) := by
  by_cases blank : isBlank c
  · exact .inl ⟨[], cs, .blank blank .none, rfl⟩
  by_cases marked : c = ';'
  · subst marked
    by_cases feed : '\n' ∈ cs
    · obtain ⟨line, rest, rfl, oneLine⟩ := List.eq_append_cons_of_mem feed
      exact .inl ⟨_, rest, .comment oneLine .none, by simp⟩
    · exact .inr (.inl ⟨rfl, feed⟩)
  by_cases opening : c = '('
  · subst opening
    exact .inr (.inr ⟨_, _, rfl⟩)
  by_cases closing : c = ')'
  · subst closing
    exact .inr (.inr ⟨_, _, rfl⟩)
  exact .inr (.inr ⟨_, _, by simp only [lexemeAt, blank, marked, opening, closing, if_false]; rfl⟩)

theorem scan_of_lexemeAt (read : lexemeAt c cs = (some l, n)) :
    scan 0 pos (c :: cs) = ⟨l, pos, pos + 1 + n⟩ :: scan 0 (pos + 1 + n) (cs.drop n) := by
  rw [scan, read]
  simp only
  rw [scan_skip]

/-- The piece of a text that a token takes up. -/
def spelling (whole : List Char) (t : Token) : List Char := whole.extract t.start t.stop

/-- The token is the first one from position `pos` on, and `others` are behind it. -/
structure Found (whole : List Char) (pos : Nat) (t : Token) (others : List Token) : Prop where
  separator : ∃ s, Separator s ∧ t.start = pos + s.length ∧
    whole.drop pos = s ++ whole.drop t.start
  nonempty : t.start < t.stop
  split : whole.drop t.start = t.spelling whole ++ whole.drop t.stop
  again : scan 0 t.start (whole.drop t.start) = t :: others
  others : others = scan 0 t.stop (whole.drop t.stop)
  sound : t.lexeme.isFault = false → Spelling (t.spelling whole) t.lexeme ∧
    (isName (t.spelling whole) = true → Ends (whole.drop t.stop))

/-- A separator in front makes no difference. -/
theorem Found.behind {s : List Char} (found : Found whole (pos + s.length) t ts)
    (text : whole.drop pos = s ++ whole.drop (pos + s.length)) (separator : Separator s) :
    Found whole pos t ts := by
  obtain ⟨s', separator', start, more⟩ := found.separator
  refine { found with separator := ⟨s ++ s', separator.append separator', ?_, ?_⟩ }
  · rw [start, List.length_append, Nat.add_assoc]
  · rw [text, more, List.append_assoc]

theorem found_of_lexemeAt (text : whole.drop pos = c :: cs) (read : lexemeAt c cs = (some l, n)) :
    Found whole pos ⟨l, pos, pos + 1 + n⟩ (scan 0 (pos + 1 + n) (cs.drop n)) := by
  have behind : whole.drop (pos + 1 + n) = cs.drop n := by
    rw [Nat.add_assoc, ← List.drop_drop, text, Nat.add_comm 1 n, List.drop_succ_cons]
  have piece : spelling whole ⟨l, pos, pos + 1 + n⟩ = c :: cs.take n := by
    have length : pos + 1 + n - pos = n + 1 := by omega
    rw [spelling, List.extract, text, length, List.take_succ_cons]
  refine ⟨⟨[], .none, rfl, rfl⟩, by simp only; omega, ?_, ?_, by rw [behind], ?_⟩
  · rw [piece, behind, text, List.cons_append, List.take_append_drop]
  · rw [text, scan_of_lexemeAt read]
  · intro sound
    obtain ⟨tail, rest, rfl, rfl, spelled, ends⟩ := exists_spelling read sound
    rw [List.drop_left] at behind
    rw [List.take_left] at piece
    rw [piece, behind]
    exact ⟨spelled, ends⟩

theorem found_of_scan (scanned : scan 0 pos (whole.drop pos) = t :: ts) :
    Found whole pos t ts := by
  generalize text : whole.drop pos = cs at scanned
  induction cs using Stack.leftInduction generalizing pos with
  | nil => cases scanned
  | cons c cs ih =>
      rcases lexemeAt_cases c cs with ⟨s, rest, separator, rfl⟩ | ⟨rfl, oneLine⟩ | ⟨l, n, read⟩
      · have behind : whole.drop (pos + (c :: s).length) = rest := by
          rw [← List.drop_drop, text, ← List.cons_append, List.drop_left]
        rw [← List.cons_append, scan_separator separator] at scanned
        have found := ih s.length (by rw [List.drop_left, behind]) (by rwa [List.drop_left])
        exact found.behind (by rw [text, behind, List.cons_append]) separator
      · have none := scan_trailing (.inr ⟨[], cs, .none, oneLine, rfl⟩) pos
        rw [List.nil_append, scanned] at none
        cases none
      · rw [scan_of_lexemeAt read] at scanned
        cases scanned
        exact found_of_lexemeAt text read

theorem trailing_of_scan (scanned : scan 0 pos cs = []) : Trailing cs := by
  induction cs using Stack.leftInduction generalizing pos with
  | nil => exact .inl .none
  | cons c cs ih =>
      rcases lexemeAt_cases c cs with ⟨s, rest, separator, rfl⟩ | ⟨rfl, oneLine⟩ | ⟨l, n, read⟩
      · rw [← List.cons_append, scan_separator separator] at scanned
        have trailing := ih s.length (by rwa [List.drop_left])
        rw [List.drop_left] at trailing
        exact trailing.behind separator
      · exact .inr ⟨[], cs, .none, oneLine, rfl⟩
      · rw [scan_of_lexemeAt read] at scanned
        cases scanned

/-! ### All tokens of a text -/

/-- The text consists of the tokens, each behind a separator, and of `rest`; where a word ends there
is a delimiter. -/
inductive Laid (rest : List Char) : List (List Char) → List Char → Prop
  | done : Laid rest [] rest
  | token {s piece cs : List Char} {pieces : List (List Char)} (separator : Separator s)
      (ends : isName piece = true → Ends cs) (more : Laid rest pieces cs) :
      Laid rest (piece :: pieces) (s ++ (piece ++ cs))

variable {pieces : List (List Char)} {ls : List Lexeme}

/-- **Tokens are found where they are laid out.** -/
theorem Laid.lexemes_scan (laid : Laid rest pieces cs) (spelled : List.Forall₂ Spelling pieces ls)
    (trailing : Trailing rest) (pos : Nat) : (scan 0 pos cs).map (·.lexeme) = ls := by
  induction laid generalizing ls pos with
  | done =>
      cases spelled
      rw [scan_trailing trailing, List.map_nil]
  | token separator ends more ih =>
      cases spelled with
      | cons first others =>
          obtain ⟨c, tail, rfl, read⟩ := first.exists_lexemeAt ends
          rw [scan_separator separator, List.cons_append, scan_of_lexemeAt read, List.drop_left,
            List.map_cons, ih others]

/-- What is laid out in front of the rest is laid out without it. -/
theorem Laid.front (laid : Laid rest pieces cs) :
    ∃ front, cs = front ++ rest ∧ Laid [] pieces front := by
  induction laid with
  | done => exact ⟨[], rfl, .done⟩
  | @token s piece cs pieces separator ends more ih =>
      obtain ⟨front, rfl, laid⟩ := ih
      refine ⟨s ++ (piece ++ front), by simp only [List.append_assoc], .token separator ?_ laid⟩
      intro word
      cases front with
      | nil => exact ends_nil
      | cons c front => exact ends_cons (ends word c rfl)

/-- As many tokens as are taken from a text lay out the text that they take up. -/
theorem laid_of_scan {taken : List Token} (stop : Nat)
    (scanned : scan 0 pos (whole.drop pos) = taken ++ ts)
    (sound : ∀ t ∈ taken, t.lexeme.isFault = false)
    (last : stop = (taken.getLast?.map (·.stop)).getD pos) :
    Laid (whole.drop stop) (taken.map (·.spelling whole)) (whole.drop pos) ∧
      List.Forall₂ Spelling (taken.map (·.spelling whole)) (taken.map (·.lexeme)) ∧
      ts = scan 0 stop (whole.drop stop) ∧ pos + taken.length ≤ stop := by
  induction taken generalizing pos with
  | nil =>
      subst last
      exact ⟨.done, .nil, scanned.symm, Nat.le_refl _⟩
  | cons t taken ih =>
      obtain ⟨first, others⟩ := List.forall_mem_cons.mp sound
      have found := found_of_scan scanned
      obtain ⟨s, separator, start, front⟩ := found.separator
      obtain ⟨spelled, ends⟩ := found.sound first
      have nonempty := found.nonempty
      have behind : stop = (taken.getLast?.map (·.stop)).getD t.stop := by
        rw [last, List.getLast?_cons]
        cases taken.getLast? <;> rfl
      obtain ⟨laid, spelled', left, further⟩ := ih found.others.symm others behind
      rw [front, found.split, List.length_cons]
      exact ⟨.token separator ends laid, .cons spelled spelled', left, by omega⟩

/-! ### Layouts -/

/-- Tokens and the separators around them. -/
structure Layout where
  /-- Every token, with the separator in front of it. -/
  pieces : List (List Char × List Char)
  /-- The separator behind the last token. -/
  last : List Char
  separators : ∀ p ∈ pieces, Separator p.1
  trailing : Trailing last
  /-- Two words in a row do not touch. -/
  apart : pieces.IsChain fun p q => isName p.2 = true → isName q.2 = true → q.1 ≠ []

namespace Layout

def weave (pieces : List (List Char × List Char)) (last : List Char) : List Char :=
  pieces.foldr (fun p cs => p.1 ++ (p.2 ++ cs)) last

/-- The text that is laid out. -/
def text (l : Layout) : String := String.ofList (weave l.pieces l.last)

def tokens (l : Layout) : List (List Char) := l.pieces.map Prod.snd

/-- Words that do not touch end at delimiters. -/
theorem laid (l : Layout) {ls : List Lexeme} (spelled : List.Forall₂ Spelling l.tokens ls) :
    Laid l.last l.tokens (weave l.pieces l.last) := by
  obtain ⟨pieces, last, separators, trailing, apart⟩ := l
  simp only [tokens] at spelled ⊢
  induction pieces generalizing ls with
  | nil => exact .done
  | cons p pieces ih =>
      obtain ⟨separator, separators⟩ := List.forall_mem_cons.mp separators
      cases spelled with
      | cons _ spelled =>
          refine .token separator ?_ (ih separators apart.tail spelled)
          intro word
          cases pieces with
          | nil => exact trailing.ends
          | cons q pieces =>
              by_cases touching : q.1 = []
              · have noWord : isName q.2 = false := by
                  by_contra named
                  exact apart.rel word (by simpa using named) touching
                cases spelled with
                | cons spelling _ =>
                    simp only [List.foldr_cons, touching, List.nil_append]
                    exact spelling.ends noWord _
              · exact (separators q (.head _)).ends touching _

end Layout

theorem not_ends_of_isName (named : isName piece = true) (rest : List Char) :
    ¬ Ends (piece ++ rest) := by
  intro ends
  cases piece with
  | nil => simp [isName] at named
  | cons c cs =>
      have delimiter := ends c rfl
      simp [isName, delimiter] at named

/-- Words that end at delimiters do not touch. -/
theorem Laid.exists_layout (laid : Laid rest pieces cs) (trailing : Trailing rest) :
    ∃ l : Layout, Layout.weave l.pieces l.last = cs ∧ l.tokens = pieces := by
  induction laid with
  | done => exact ⟨⟨[], rest, List.forall_mem_nil _, trailing, .nil⟩, rfl, rfl⟩
  | @token s piece cs pieces separator ends more ih =>
      obtain ⟨l, rfl, rfl⟩ := ih
      have apart : ((s, piece) :: l.pieces).IsChain
          fun p q => isName p.2 = true → isName q.2 = true → q.1 ≠ [] := by
        cases others : l.pieces with
        | nil => exact .singleton _
        | cons q qs =>
            refine .cons_cons (fun word next touching => ?_) (others ▸ l.apart)
            have delimiter := ends word
            rw [others, Layout.weave, List.foldr_cons, touching, List.nil_append] at delimiter
            exact not_ends_of_isName next _ delimiter
      exact ⟨⟨(s, piece) :: l.pieces, l.last, List.forall_mem_cons.mpr ⟨separator, l.separators⟩,
        l.trailing, apart⟩, rfl, rfl⟩

end Token

/-! ## Reading what is laid out -/

namespace Stack

variable {limit : Int} {σ σ' τ : Stack} {l : Lexeme} {ts ts' : List Token} {as : List Atom}

/-- Equal but for where the parentheses stand that are open. -/
def Alike (σ σ' : Stack) : Prop :=
  σ.top = σ'.top ∧ σ.outer.map (·.before) = σ'.outer.map (·.before)

theorem take_alike (alike : Alike σ σ') {start : Nat} (taken : σ.take limit start l = .ok τ)
    (start' : Nat) : ∃ τ', σ'.take limit start' l = .ok τ' ∧ Alike τ τ' := by
  obtain ⟨top, outer⟩ := σ
  obtain ⟨top', outer'⟩ := σ'
  obtain ⟨rfl, same⟩ : top = top' ∧ outer.map (·.before) = outer'.map (·.before) := alike
  cases l with
  | leaf a =>
      cases taken
      exact ⟨_, rfl, rfl, same⟩
  | fault flaw offset => cases taken
  | opening =>
      have depth : outer.length = outer'.length := by simpa using congrArg List.length same
      simp only [take] at taken ⊢
      split at taken <;> cases taken
      rename_i room
      rw [depth] at room
      exact ⟨_, if_neg room, rfl, by simp [opened, same]⟩
  | closing =>
      cases outer with
      | nil => cases taken
      | cons f fs =>
          cases taken
          cases outer' with
          | nil => cases same
          | cons f' fs' =>
              obtain ⟨before, below⟩ := List.cons.inj same
              exact ⟨_, rfl, by simp [before], below⟩

/-- **What is read depends on the lexemes**, and not on where they stand. -/
theorem run_alike (alike : Alike σ σ') (same : ts.map (·.lexeme) = ts'.map (·.lexeme))
    (ok : run limit ts σ = .ok as) : run limit ts' σ' = .ok as := by
  induction ts generalizing ts' σ σ' with
  | nil =>
      obtain rfl : ts' = [] := by simpa using same.symm
      obtain ⟨top, outer⟩ := alike
      rw [run, finish] at ok ⊢
      cases here : σ.outer with
      | nil =>
          rw [here] at ok outer
          have there : σ'.outer = [] := by simpa using outer.symm
          rw [there, ← top]
          exact ok
      | cons f fs =>
          rw [here] at ok
          cases ok
  | cons t ts ih =>
      cases ts' with
      | nil => cases same
      | cons t' ts' =>
          obtain ⟨first, others⟩ : t.lexeme = t'.lexeme ∧ _ := List.cons.inj same
          rw [run] at ok ⊢
          obtain ⟨τ, taken, ok⟩ := bind_eq_ok.mp ok
          obtain ⟨τ', taken', alike⟩ := take_alike alike taken t'.start
          rw [← first, taken', ok_bind]
          exact ih alike others ok

/-- Where reading succeeds no token is a fault. -/
theorem sound_of_run (ok : run limit ts σ = .ok as) : ∀ t ∈ ts, t.lexeme.isFault = false := by
  induction ts generalizing σ with
  | nil => exact List.forall_mem_nil _
  | cons t ts ih =>
      obtain ⟨τ, taken, ok⟩ := bind_eq_ok.mp ok
      refine List.forall_mem_cons.mpr ⟨?_, ih ok⟩
      cases lexeme : t.lexeme with
      | fault flaw offset =>
          rw [lexeme] at taken
          cases taken
      | _ => rfl

end Stack

/-- The tokens of a text, as they stand in it. -/
def Token.spellings (text : String) : List (List Char) :=
  (ofText text).map (·.spelling text.toList)

namespace Atom

open Token (Layout)

theorem parseWithin_eq_run (limit : Int) (text : String) :
    parseWithin limit text = Stack.run limit (Token.ofText text) .empty := by
  rw [parseWithin_eq_read, Stack.read, Stack.scan_eq_run]
  rfl

/-- **Layout does not matter.**  Every text that can be read is its tokens with separators around
them, and whatever is laid out from these tokens is read as the identical atoms. -/
theorem parseWithin_layout {limit : Int} {text : String} {as : List Atom}
    (read : parseWithin limit text = .ok as) :
    (∃ l : Layout, l.text = text ∧ l.tokens = Token.spellings text) ∧
      ∀ l : Layout, l.tokens = Token.spellings text → parseWithin limit l.text = .ok as := by
  rw [parseWithin_eq_run] at read
  have sound := Stack.sound_of_run read
  let tokens := Token.ofText text
  have scanned : Token.scan 0 0 (text.toList.drop 0) = tokens ++ [] :=
    (List.append_nil tokens).symm
  obtain ⟨laid, spelled, none, -⟩ := Token.laid_of_scan _ scanned sound rfl
  refine ⟨?_, fun l same => ?_⟩
  · obtain ⟨l, whole, same⟩ := laid.exists_layout (Token.trailing_of_scan none.symm)
    refine ⟨l, ?_, same⟩
    rw [Layout.text, whole, List.drop_zero, String.ofList_toList]
  · have spelled : List.Forall₂ Token.Spelling l.tokens (tokens.map (·.lexeme)) := by
      rw [same]
      exact spelled
    have found := (l.laid spelled).lexemes_scan spelled l.trailing 0
    rw [parseWithin_eq_run, Token.ofText, Layout.text, String.toList_ofList]
    exact Stack.run_alike ⟨rfl, rfl⟩ found.symm read

/-- Between `a` and `$y` and between `-1` and `-` something must stay, and elsewhere nothing need
be.  A parenthesis in a comment closes nothing. -/
theorem parseWithin_layout_comment :
    let as := [.expr [.symbol "a", .var "y" none, .ofScalar (.text "x;")], .ofScalar (.int (-1)),
      .symbol "-"]
    parseWithin 1 "(a $y \"x;\") -1 - ; end" = .ok as ∧
      parseWithin 1 "\n(;)\na\t$y\"x;\" )-1;\n-;" = .ok as := by
  intro as
  have read : parseWithin 1 "(a $y \"x;\") -1 - ; end" = .ok as := by cbv
  let pieces : List (String × String) := [("\n", "("), (";)\n", "a"), ("\t", "$y"),
    ("", "\"x;\""), (" ", ")"), ("", "-1"), (";\n", "-")]
  have blank {c : Char} (blank : isBlank c = true) : Separator [c] := .blank blank .none
  have comment {line : List Char} (oneLine : '\n' ∉ line) :
      Separator (';' :: (line ++ ['\n'])) := .comment oneLine .none
  have separators : ∀ p ∈ pieces, Separator p.1.toList := by
    simp only [pieces, List.forall_mem_cons]
    exact ⟨blank (by decide), comment (by decide : '\n' ∉ [')']), blank (by decide), .none,
      blank (by decide), .none, comment List.not_mem_nil, List.forall_mem_nil _⟩
  let l : Layout := {
    pieces := pieces.map fun p => (p.1.toList, p.2.toList)
    last := [';']
    separators := List.forall_mem_map.mpr separators
    trailing := .inr ⟨[], [], .none, List.not_mem_nil, rfl⟩
    apart := by decide }
  have text : l.text = "\n(;)\na\t$y\"x;\" )-1;\n-;" := by rfl
  rw [← text]
  exact ⟨read, (parseWithin_layout read).2 l (by cbv)⟩

end Atom

end Metta
