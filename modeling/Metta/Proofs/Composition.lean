/-
# Metta.Proofs.Composition -- texts that are put one after the other

Source text composes: two texts with a line feed between them are read as the first and
then the second, and errors in the second show as much further on as it stands
(`Atom.parseWithin_lineFeed`).  So evaluating them as one text is evaluating one after the
other (`Session.run_lineFeed`).

What begins at a character is told from that character and those behind it, and every
reader of a token looks ahead.  A line feed is a delimiter and ends a comment, so nothing
that is complete in the first text is read in another way because of what comes behind it
(`Token.lexemeAt_append`); only a string that is left open would go on.

The second text is read with what the first one gave at the bottom of the stack, and at
other positions.  Neither makes a difference to what a lexeme does (`Stack.take_behind`).
-/
import Metta.Proofs.History
import Metta.Proofs.Stack

namespace Metta

set_option autoImplicit false

/-! ## Looking ahead -/

namespace Numeral

open Token (Ends)

variable {rest : List Char}

theorem length_run_le (pointAllowed : Bool) (cs : List Char) :
    (run pointAllowed cs).length ≤ cs.length := by
  induction cs generalizing pointAllowed with
  | nil => simp [run]
  | cons c cs ih =>
      have shorter := ih pointAllowed
      have shorter' := ih false
      unfold run
      split
      · simp only [List.length_cons]
        omega
      · split <;> simp only [List.length_cons, List.length_nil] <;> omega

/-- A numeral goes no further than the delimiter that follows it. -/
theorem run_append (ends : Ends rest) (pointAllowed : Bool) (cs : List Char) :
    run pointAllowed (cs ++ rest) = run pointAllowed cs := by
  induction cs generalizing pointAllowed with
  | nil => exact run_ends ends pointAllowed
  | cons c cs ih => simp only [List.cons_append, run, ih]

theorem starts_append (ends : Ends rest) (c : Char) (cs : List Char) :
    starts c (cs ++ rest) = starts c cs := by
  cases cs with
  | cons d ds => rfl
  | nil =>
      cases rest with
      | nil => rfl
      | cons d ds => simp [starts, Token.isDigit_of_isDelimiter (ends d rfl)]

end Numeral

namespace Token

variable {c : Char} {cs rest : List Char}

theorem length_name_le (cs : List Char) : (name cs).length ≤ cs.length :=
  (List.takeWhile_prefix _).length_le

theorem length_comment_le (cs : List Char) : (comment cs).length ≤ cs.length :=
  (List.takeWhile_prefix _).length_le

theorem length_stringBody_le (cs : List Char) : (stringBody cs).2 ≤ cs.length := by
  fun_induction stringBody cs with
  | case1 | case2 | case3 => simp
  | case4 c cs body n read ih =>
      simp only [read, List.length_cons] at ih ⊢
      omega
  | case5 c cs noQuote noEnd noEscape body n read ih =>
      simp only [read, List.length_cons] at ih ⊢
      omega

/-- No more belongs to a lexeme than there is. -/
theorem length_lexemeAt_le (c : Char) (cs : List Char) : (lexemeAt c cs).2 ≤ cs.length := by
  unfold lexemeAt
  split
  · exact Nat.zero_le _
  split
  · exact length_comment_le cs
  split
  · exact Nat.zero_le _
  split
  · exact Nat.zero_le _
  dsimp only
  split
  · have body := length_stringBody_le cs
    unfold stringLexeme
    split <;> rename_i read <;> rw [read] at body <;> exact body
  split
  · have named := length_name_le cs
    unfold variableLexeme
    split
    · exact Nat.zero_le _
    · exact named
  split
  · have digits := Numeral.length_run_le true cs
    simp only [numberLexeme]
    split
    · exact digits
    · split <;> exact digits
  · exact length_name_le cs

/-- A character of a string is no backslash if it neither ends the text nor has one behind it that it
escapes. -/
theorem ne_backslash {c : Char} (noEnd : c = '\\' → cs = [] → False)
    (noEscape : ∀ d ds, c = '\\' → cs = d :: ds → False) : c ≠ '\\' := by
  rintro rfl
  cases cs with
  | nil => exact noEnd rfl rfl
  | cons d ds => exact noEscape d ds rfl rfl

/-- A string is complete with its closing quote. -/
theorem stringBody_append {body : List Char} {n : Nat} (read : stringBody cs = (some body, n))
    (rest : List Char) : stringBody (cs ++ rest) = (some body, n) := by
  fun_induction stringBody cs generalizing body n with
  | case1 => cases read
  | case2 cs => exact read
  | case3 => cases read
  | case4 c cs inner k inside ih =>
      cases inner with
      | none => cases read
      | some inner =>
          simp only [List.cons_append, stringBody, ih inside]
          exact read
  | case5 c cs noQuote noEnd noEscape inner k inside ih =>
      cases inner with
      | none => cases read
      | some inner =>
          have noSlash := ne_backslash noEnd noEscape
          simp only [List.cons_append, stringBody, noSlash, false_implies, implies_true, ih inside]
          exact read

theorem name_eq_nil_of_ends (ends : Ends rest) : name rest = [] := by
  cases rest with
  | nil => rfl
  | cons c rest => simp [name, ends c rfl]

/-- A name goes no further than the delimiter that follows it. -/
theorem name_append_of_ends (ends : Ends rest) (cs : List Char) : name (cs ++ rest) = name cs := by
  have none : rest.takeWhile (fun c => !isDelimiter c) = [] := name_eq_nil_of_ends ends
  rw [name, List.takeWhile_append, none, List.append_nil]
  split
  · rename_i whole
    exact ((List.takeWhile_prefix _).eq_of_length whole).symm
  · rfl

/-- A comment goes no further than the line feed that follows it. -/
theorem comment_append (cs rest : List Char) : comment (cs ++ '\n' :: rest) = comment cs := by
  rw [comment, List.takeWhile_append, List.takeWhile_cons_of_neg (by simp), List.append_nil]
  split
  · rename_i whole
    exact ((List.takeWhile_prefix _).eq_of_length whole).symm
  · rfl

theorem numberLexeme_append (ends : Ends rest) (c : Char) (cs : List Char) :
    numberLexeme c (cs ++ rest) = numberLexeme c cs := by
  have digits := Numeral.run_append ends true cs
  have fits := Numeral.length_run_le true cs
  have stray : (((cs ++ rest).drop (Numeral.run true cs).length).head?.filter
        fun d => !isDelimiter d) =
      ((cs.drop (Numeral.run true cs).length).head?.filter fun d => !isDelimiter d) := by
    rw [List.drop_append_of_le_length fits]
    cases cs.drop (Numeral.run true cs).length with
    | cons d ds => rfl
    | nil =>
        cases rest with
        | nil => rfl
        | cons d ds => simp [ends d rfl]
  simp only [numberLexeme, digits, stray]

/-- What begins with something else than a quote is read as it was, whatever comes behind it. -/
theorem lexemeAt_append_of_ne (ends : Ends rest) (line : c = ';' → ∃ more, rest = '\n' :: more)
    (string : c ≠ '"') : lexemeAt c (cs ++ rest) = lexemeAt c cs := by
  by_cases comment : c = ';'
  · obtain ⟨more, rfl⟩ := line comment
    have marked : Text.isBlank ';' = false := by decide
    simp [lexemeAt, comment, marked, comment_append]
  · simp only [lexemeAt, comment, string, if_false, variableLexeme, symbolLexeme,
      name_append_of_ends ends, numberLexeme_append ends, Numeral.starts_append ends]

theorem lexemeAt_quote (cs : List Char) :
    lexemeAt '"' cs = (some (stringLexeme cs).1, (stringLexeme cs).2) := by
  have marked : Text.isBlank '"' = false := by decide
  simp [lexemeAt, marked]

/-- **Nothing that is complete is read in another way because of what comes behind it**, if that
begins with a delimiter, and with a line feed behind a comment. -/
theorem lexemeAt_append (ends : Ends rest) (line : c = ';' → ∃ more, rest = '\n' :: more)
    (closed : ∀ n, lexemeAt c cs ≠ (some (.fault .unterminatedString 0), n)) :
    lexemeAt c (cs ++ rest) = lexemeAt c cs := by
  by_cases string : c = '"'
  · subst string
    rw [lexemeAt_quote] at closed
    rw [lexemeAt_quote, lexemeAt_quote]
    cases read : stringBody cs with
    | mk body n =>
        cases body with
        | none =>
            exact absurd (by simp [stringLexeme, read]) (closed n)
        | some body =>
            simp [stringLexeme, read, stringBody_append read rest]
  · exact lexemeAt_append_of_ne ends line string

/-- A string is left open if no quote closes it. -/
theorem exists_lexemeAt_quote_iff :
    (∃ n, lexemeAt '"' cs = (some (.fault .unterminatedString 0), n)) ↔
      (stringBody cs).1 = none := by
  rw [lexemeAt_quote, stringLexeme]
  rcases stringBody cs with ⟨_ | body, n⟩ <;> simp

/-- A line feed does not end a string. -/
theorem stringBody_lineFeed (unclosed : (stringBody cs).1 = none) :
    (stringBody (cs ++ ['\n'])).1 = none := by
  fun_induction stringBody cs with
  | case1 | case3 => simp [stringBody]
  | case2 cs => cases unclosed
  | case4 c cs body n read ih =>
      have still := ih (by simpa [read] using unclosed)
      simp [stringBody, still]
  | case5 c cs noQuote noEnd noEscape body n read ih =>
      have still := ih (by simpa [read] using unclosed)
      have noSlash := ne_backslash noEnd noEscape
      simp [stringBody, noSlash, still]

end Token

/-! ## Behind another text -/

/-- The same error, so many characters further on. -/
def ParseError.later (distance : Nat) (e : ParseError) : ParseError :=
  { e with position := e.position + distance }

/-- What comes of reading behind another text that gave the atoms `before`. -/
def Atom.readBehind (before : List Atom) (distance : Nat)
    (outcome : Except ParseError (List Atom)) : Except ParseError (List Atom) :=
  (outcome.map (before ++ ·)).mapError (·.later distance)

namespace Stack

open Atom (readBehind)

variable {limit : Int} {pos : Nat} {cs rest : List Char} {σ : Stack} {as : List Atom}

/-- Reading a text in which every token leaves a text that is not longer: induction over what may be
left behind the first character. -/
@[elab_as_elim]
theorem leftInduction {P : List Char → Prop} (cs : List Char) (nil : P [])
    (cons : ∀ c cs, (∀ n, P (cs.drop n)) → P (c :: cs)) : P cs := by
  generalize length : cs.length = left
  induction left using Nat.strongRecOn generalizing cs with
  | ind left ih =>
      cases cs with
      | nil => exact nil
      | cons c cs =>
          refine cons c cs fun n => ih _ ?_ _ rfl
          simp only [List.length_drop, List.length_cons] at length ⊢
          omega

/-- **Reading goes on behind the line feed** with what was read before it, if no parenthesis is open
there. -/
theorem scan_append (ok : scan limit pos cs σ = .ok as) :
    scan limit pos (cs ++ '\n' :: rest) σ = scan limit (pos + cs.length + 1) rest ⟨as, []⟩ := by
  induction cs using leftInduction generalizing pos σ with
  | nil =>
      obtain ⟨top, outer⟩ := σ
      rw [scan] at ok
      cases outer with
      | cons f fs => cases ok
      | nil =>
          cases ok
          rw [List.nil_append, scan_cons]
          rfl
  | cons c cs ih =>
      have ends : Token.Ends ('\n' :: rest) := Token.ends_cons (by decide)
      have short := Token.length_lexemeAt_le c cs
      rw [scan_cons] at ok
      -- an open string would have been an error
      have closed : ∀ n, Token.lexemeAt c cs ≠ (some (.fault .unterminatedString 0), n) := by
        intro n faulty
        rw [faulty] at ok
        cases ok
      have alike := Token.lexemeAt_append ends (fun _ => ⟨rest, rfl⟩) closed
      rw [List.cons_append, scan_cons, alike]
      generalize Token.lexemeAt c cs = lexeme at ok short ⊢
      obtain ⟨l?, n⟩ := lexeme
      -- whatever the lexeme does to the stack, reading goes on behind it
      have onward : ∀ σ', scan limit (pos + 1 + n) (cs.drop n) σ' = .ok as →
          scan limit (pos + 1 + n) ((cs ++ '\n' :: rest).drop n) σ' =
            scan limit (pos + (c :: cs).length + 1) rest ⟨as, []⟩ := by
        intro σ' ok
        rw [List.drop_append_of_le_length short, ih n ok, List.length_drop, List.length_cons]
        simp only at short
        congr 1
        omega
      cases l? with
      | none => exact onward σ ok
      | some l =>
          obtain ⟨σ', taken, ok⟩ := bind_eq_ok.mp ok
          simp only
          rw [taken, ok_bind]
          exact onward σ' ok

/-- A line feed at the end of a text changes nothing, not even what is wrong with it. -/
theorem scan_lineFeed (limit : Int) (pos : Nat) (cs : List Char) (σ : Stack) :
    scan limit pos (cs ++ ['\n']) σ = scan limit pos cs σ := by
  induction cs using leftInduction generalizing pos σ with
  | nil =>
      rw [List.nil_append, scan_cons]
      show scan limit (pos + 1) [] σ = _
      rw [scan, scan]
  | cons c cs ih =>
      rw [List.cons_append, scan_cons, scan_cons]
      by_cases left : c = '"' ∧ (Token.stringBody cs).1 = none
      · obtain ⟨rfl, noEnd⟩ := left
        obtain ⟨n, faulty⟩ := Token.exists_lexemeAt_quote_iff.mpr noEnd
        obtain ⟨m, faulty'⟩ :=
          Token.exists_lexemeAt_quote_iff.mpr (Token.stringBody_lineFeed noEnd)
        rw [faulty, faulty']
        rfl
      · have ends : Token.Ends ['\n'] := Token.ends_cons (by decide)
        have alike : Token.lexemeAt c (cs ++ ['\n']) = Token.lexemeAt c cs := by
          by_cases string : c = '"'
          · subst string
            refine Token.lexemeAt_append ends (fun _ => ⟨[], rfl⟩) ?_
            intro n faulty
            exact left ⟨rfl, Token.exists_lexemeAt_quote_iff.mp ⟨n, faulty⟩⟩
          · exact Token.lexemeAt_append_of_ne ends (fun _ => ⟨[], rfl⟩) string
        have short := Token.length_lexemeAt_le c cs
        rw [alike]
        generalize Token.lexemeAt c cs = lexeme at short
        obtain ⟨l?, n⟩ := lexeme
        have onward : ∀ σ', scan limit (pos + 1 + n) ((cs ++ ['\n']).drop n) σ' =
            scan limit (pos + 1 + n) (cs.drop n) σ' := by
          intro σ'
          rw [List.drop_append_of_le_length short]
          exact ih n (pos + 1 + n) σ'
        cases l? with
        | none => exact onward σ
        | some l => exact congrArg (σ.take limit pos l >>= ·) (funext onward)

/-- The stack where the same is read behind another text: at the bottom stand the atoms which that
one gave, and all parentheses stand further on. -/
def behind (before : List Atom) (distance : Nat) : List Atom → List Frame → Stack
  | top, [] => ⟨before ++ top, []⟩
  | top, f :: fs =>
    let below := behind before distance f.before fs
    ⟨top, ⟨f.start + distance, below.top⟩ :: below.outer⟩

variable {before : List Atom} {distance : Nat}

theorem length_outer_behind (top : List Atom) (outer : List Frame) :
    (behind before distance top outer).outer.length = outer.length := by
  induction outer generalizing top with
  | nil => rfl
  | cons f fs ih => simp [behind, ih]

theorem push_behind (top : List Atom) (outer : List Frame) (a : Atom) :
    (behind before distance top outer).push a = behind before distance (top ++ [a]) outer := by
  cases outer with
  | nil => simp [behind, push]
  | cons f fs => rfl

/-- What a lexeme does, it does behind another text. -/
theorem take_behind (start : Nat) (l : Lexeme) :
    (behind before distance σ.top σ.outer).take limit (start + distance) l =
      ((σ.take limit start l).map fun σ' => behind before distance σ'.top σ'.outer).mapError
        (·.later distance) := by
  obtain ⟨top, outer⟩ := σ
  cases l with
  | leaf a => exact congrArg Except.ok (push_behind top outer a)
  | fault flaw offset =>
      simp only [take, Except.map, Except.mapError, ParseError.later]
      rw [Nat.add_right_comm]
  | opening =>
      simp only [take, length_outer_behind]
      split
      · rfl
      · rfl
  | closing =>
      cases outer with
      | nil => rfl
      | cons f fs => exact congrArg Except.ok (push_behind f.before fs (.expr top))

/-- **A text is read behind another one as it is by itself.** -/
theorem scan_behind (before : List Atom) (distance pos : Nat) (cs : List Char) (σ : Stack) :
    scan limit (pos + distance) cs (behind before distance σ.top σ.outer) =
      readBehind before distance (scan limit pos cs σ) := by
  induction cs using leftInduction generalizing pos σ with
  | nil =>
      obtain ⟨top, outer⟩ := σ
      rw [scan, scan]
      cases outer <;> rfl
  | cons c cs ih =>
      rw [scan_cons, scan_cons]
      obtain ⟨l?, n⟩ := Token.lexemeAt c cs
      have onward : ∀ σ', scan limit (pos + distance + 1 + n) (cs.drop n)
            (behind before distance σ'.top σ'.outer) =
          readBehind before distance (scan limit (pos + 1 + n) (cs.drop n) σ') := by
        intro σ'
        rw [← ih n (pos + 1 + n) σ']
        congr 1
        omega
      cases l? with
      | none => exact onward σ
      | some l =>
          simp only
          rw [take_behind]
          cases σ.take limit pos l with
          | error e => rfl
          | ok σ' => exact onward σ'

end Stack

namespace Atom

/-- **Texts with a line feed between them are read one after the other**, if the first one can be
read. -/
theorem parseWithin_lineFeed {limit : Int} {first : String} {as : List Atom}
    (read : parseWithin limit first = .ok as) (second : String) :
    parseWithin limit (first ++ "\n" ++ second) =
      readBehind as (first.length + 1) (parseWithin limit second) := by
  rw [parseWithin_eq_read] at read ⊢
  rw [parseWithin_eq_read]
  have text : (first ++ "\n" ++ second).toList = first.toList ++ '\n' :: second.toList := by simp
  have bottom : Stack.behind as (first.length + 1) [] [] = ⟨as, []⟩ := by simp [Stack.behind]
  have further : Stack.scan limit (0 + (first.length + 1)) second.toList _ = _ :=
    Stack.scan_behind as (first.length + 1) 0 second.toList .empty
  rw [Stack.read, text, Stack.scan_append read]
  simp only [Stack.empty, bottom] at further
  rw [Stack.read, ← String.length_toList] at *
  exact further

/-- A text is read as it is without the line feed at its end. -/
theorem parse_append_lineFeed (text : String) : parse (text ++ "\n") = parse text := by
  rw [parse, parse, parseWithin_eq_read, parseWithin_eq_read, Stack.read, String.toList_append]
  exact Stack.scan_lineFeed _ 0 text.toList .empty

/-- Lines that can be read are read one after the other. -/
theorem parse_intercalate {lines : List String} {ass : List (List Atom)}
    (read : List.Forall₂ (fun line as => parse line = .ok as) lines ass) :
    parse ("\n".intercalate lines) = .ok ass.flatten := by
  induction read with
  | nil => rfl
  | @cons line as lines ass first others ih =>
      cases others with
      | nil => simpa using first
      | @cons next _ lines _ second others =>
          have whole := parseWithin_lineFeed first ("\n".intercalate (next :: lines))
          rw [String.intercalate_cons_cons]
          exact whole.trans (congrArg (readBehind as (line.length + 1)) ih)

/-- Lines of one atom each are read as those atoms. -/
theorem parse_lines {lines : List String} {as : List Atom}
    (read : List.Forall₂ (fun line a => parse line = .ok [a]) lines as) :
    parse ("\n".intercalate lines) = .ok as := by
  have each : List.Forall₂ (fun line as => parse line = .ok as) lines (as.map ([·])) :=
    List.forall₂_map_right_iff.mpr read
  have single : (as.map ([·])).flatten = as := by
    rw [← List.flatMap_def, List.flatMap_singleton']
  rw [parse_intercalate each, single]

end Atom

/-! ## Evaluation -/

/-- The results of two lists, evaluated one after the other. -/
theorem Eval.collect_append {α : Type} (f : α → Eval (List Atom)) (xs ys : List α) :
    collect f (xs ++ ys) = do
      let results ← collect f xs
      return results ++ (← collect f ys) := by
  induction xs with
  | nil => simp [collect]
  | cons x xs ih =>
      simp only [List.cons_append, collect, ih, bind_assoc, pure_bind, List.append_assoc]

namespace Session

variable {α β : Type}

theorem evaluating_bind (m : Eval α) (f : α → Eval β) :
    evaluating (m >>= f) = evaluating m >>= fun x => evaluating (f x) := by
  funext s
  cases ended : m s.world with
  | ok x w =>
      rw [bind_of_ok (evaluating_of_ok ended)]
      simp only [evaluating, bind_of_ok ended]
  | error e w =>
      have here : evaluating m s = .error (.evaluation e) { s with world := w } := by
        simp [evaluating, ended]
      rw [bind_of_error here]
      simp only [evaluating, bind_of_error ended]

/-- Evaluation changes neither the settings nor which space is the current one. -/
theorem interpretEach_append (as bs : List Atom) :
    interpretEach (as ++ bs) = do
      let results ← interpretEach as
      return results ++ (← interpretEach bs) := by
  funext s
  let eval := Eval.interpret s.settings s.current
  have evaluated : interpretEach (as ++ bs) s =
      (evaluating (Eval.collect eval as) >>= fun results =>
        evaluating (Eval.collect eval bs >>= fun others => pure (results ++ others))) s := by
    rw [← evaluating_bind, ← Eval.collect_append]
    rfl
  have same : evaluating (Eval.collect eval as) s = interpretEach as s := rfl
  rw [evaluated]
  cases first : interpretEach as s with
  | error e s' => rw [bind_of_error first, bind_of_error (same.trans first)]
  | ok results s' =>
      rw [bind_of_ok first, bind_of_ok (same.trans first), evaluating_bind]
      obtain ⟨w, rfl⟩ : ∃ w, s' = { s with world := w } := by
        rw [← same] at first
        unfold evaluating at first
        split at first <;> cases first
        exact ⟨_, rfl⟩
      rfl

/-- Lines of one atom each, run one after the other, answer what the atoms do and leave the session
that they leave, if none of them fails. -/
theorem performAll_lines {lines : List String} {as results : List Atom} {s last : Session}
    (read : List.Forall₂ (fun line a => Atom.parse line = .ok [a]) lines as)
    (evaluated : interpretEach as s = .ok results last) :
    performAll (lines.map .run) s = (results, last) := by
  induction read generalizing s results with
  | nil =>
      cases evaluated
      rfl
  | @cons line a lines as first others ih =>
      have split := interpretEach_append [a] as
      rw [List.singleton_append] at split
      rw [split] at evaluated
      obtain ⟨answers, s', here, evaluated⟩ := exists_of_bind_ok evaluated
      obtain ⟨more, s'', behind, evaluated⟩ := exists_of_bind_ok evaluated
      cases evaluated
      have performed : (Request.run line).perform s = .ok answers s' :=
        (run_of_parse first s).trans here
      rw [List.map_cons, performAll, performed]
      simp only [ih behind]

/-- **Source text composes.**  A text that can be read and another one, with a line feed between
them, are read as the atoms of the first and then those of the second; or with the error of the
second, at its position in the whole.  If both can be read, then from whatever session running them
as one text is running one after the other: the results of the first come before those of the
second, which is evaluated in the session that the first one leaves, and the session after that is
the same, as is any fault that ends one of them. -/
theorem run_lineFeed (first second : String) (as : List Atom) (read : Atom.parse first = .ok as) :
    Atom.parse (first ++ "\n" ++ second) =
      (match Atom.parse second with
      | .ok bs => .ok (as ++ bs)
      | .error e => .error ⟨e.flaw, e.position + (first.length + 1)⟩) ∧
    ∀ bs, Atom.parse second = .ok bs → ∀ s : Session,
      run (first ++ "\n" ++ second) s =
        (do
          let results ← run first
          return results ++ (← run second)) s := by
  have whole : Atom.parse (first ++ "\n" ++ second) =
      Atom.readBehind as (first.length + 1) (Atom.parse second) :=
    Atom.parseWithin_lineFeed read second
  refine ⟨?_, fun bs read' s => ?_⟩
  · rw [whole]
    cases Atom.parse second <;> rfl
  · rw [read'] at whole
    rw [run_of_parse whole s, interpretEach_append]
    cases ended : interpretEach as s with
    | error e s' => rw [bind_of_error ended, bind_of_error ((run_of_parse read s).trans ended)]
    | ok results s' =>
        rw [bind_of_ok ended, bind_of_ok ((run_of_parse read s).trans ended)]
        show EStateM.bind _ _ s' = EStateM.bind _ _ s'
        rw [EStateM.bind, EStateM.bind, run_of_parse read' s']

/-- A rule with a comment behind it that only the line feed ends, and a form that it contracts; the
parenthesis that is left open shows where it stands in the whole. -/
theorem run_lineFeed_comment :
    let first := "(= (f $x) $x) ; )"
    Atom.parse (first ++ "\n" ++ "a (f") = .error ⟨.unclosed, 20⟩ ∧
      ∃ last, run (first ++ "\n" ++ "(f a)") (start {}) = .ok [.empty, .symbol "a"] last := by
  intro first
  have read : Atom.parse first = .ok [.expr [.symbol "=", .expr [.symbol "f", .var "x" none],
      .var "x" none]] := by cbv
  have form : Atom.parse "(f a)" = .ok [.expr [.symbol "f", .symbol "a"]] := by cbv
  have unclosed : Atom.parse "a (f" = .error ⟨.unclosed, 2⟩ := by cbv
  obtain ⟨failed, -⟩ := run_lineFeed first "a (f" _ read
  obtain ⟨-, runs⟩ := run_lineFeed first "(f a)" _ read
  rw [unclosed] at failed
  refine ⟨failed.trans (by cbv), ?_⟩
  rw [runs _ form, funext (run_of_parse read), funext (run_of_parse form)]
  exact ⟨_, rfl⟩

end Session

end Metta
