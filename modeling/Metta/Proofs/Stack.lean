/-
# Metta.Proofs.Stack -- reading with an explicit stack

A second way to read source text, that walks over it once and keeps a stack: for every
open parenthesis where it stands and what was read before it, and on top the atoms read
since the innermost one (`Stack.scan`).  Nothing in it is recursive but the walk.

Recursive descent comes to the same, in what it returns and in what it finds fault with
(`parseWithin_stack`).  The way there goes over tokens: the walk takes one token after
the other (`Stack.scan_eq_run`), and whenever the descent has read an atom the stack
machine has come past the same tokens and pushed that atom (`Reader.Follows`).

What is true of all stacks that a text leads to is shown for one token at a time
(`Stack.run_reaches`), among others where faults are found.
-/
import Metta.Reader
import Metta.Proofs.Contraction

namespace Metta

open Metta.Text

set_option autoImplicit false

/-- A parenthesis that is open: where it stands and the atoms read before it. -/
structure Frame where
  start : Nat
  before : List Atom

/-- The atoms read behind the innermost open parenthesis, and the open parentheses from that one
outwards. -/
structure Stack where
  top : List Atom
  outer : List Frame

namespace Stack

open Token

def empty : Stack := ⟨[], []⟩

def push (σ : Stack) (a : Atom) : Stack := { σ with top := σ.top ++ [a] }

/-- Opens a parenthesis behind what was read. -/
def opened (σ : Stack) (start : Nat) : Stack := ⟨[], ⟨start, σ.top⟩ :: σ.outer⟩

/-- What a lexeme at position `start` does to the stack. -/
def take (limit : Int) (start : Nat) (σ : Stack) : Lexeme → Except ParseError Stack
  | .leaf a => .ok (σ.push a)
  | .fault flaw offset => .error ⟨flaw, start + offset⟩
  | .opening =>
    if limit ≤ σ.outer.length then .error ⟨.nestedDeeper limit, start⟩ else .ok (σ.opened start)
  | .closing =>
    match σ.outer with
    | [] => .error ⟨.unexpectedClose, start⟩
    | f :: fs => .ok ⟨f.before ++ [.expr σ.top], fs⟩

/-- What was read, if the text may end here. -/
def finish (σ : Stack) : Except ParseError (List Atom) :=
  match σ.outer with
  | [] => .ok σ.top
  | f :: _ => .error ⟨.unclosed, f.start⟩

/-- Reads on from position `pos`, where `cs` is what is left of the text. -/
def scan (limit : Int) (pos : Nat) : List Char → Stack → Except ParseError (List Atom)
  | [], σ => σ.finish
  | c :: cs, σ =>
    if isBlank c then scan limit (pos + 1) cs σ
    else if c = ';' then
      let line := cs.takeWhile (· != '\n')
      scan limit (pos + 1 + line.length) (cs.drop line.length) σ
    else
      let (l, n) :=
        if c = '(' then (.opening, 0)
        else if c = ')' then (.closing, 0)
        else if c = '"' then stringLexeme cs
        else if c = '$' then variableLexeme cs
        else if Numeral.starts c cs then numberLexeme c cs
        else symbolLexeme c cs
      σ.take limit pos l >>= fun σ' => scan limit (pos + 1 + n) (cs.drop n) σ'
termination_by cs => cs.length
decreasing_by all_goals simp only [List.length_cons, List.length_drop]; omega

/-- Reads a whole text. -/
def read (limit : Int) (text : String) : Except ParseError (List Atom) :=
  scan limit 0 text.toList empty

variable {limit : Int} {pos : Nat} {c : Char} {cs : List Char} {σ : Stack}

/-- The walk goes by what begins at a character, whatever that is. -/
theorem scan_cons : scan limit pos (c :: cs) σ =
    match lexemeAt c cs with
    | (none, n) => scan limit (pos + 1 + n) (cs.drop n) σ
    | (some l, n) => σ.take limit pos l >>= scan limit (pos + 1 + n) (cs.drop n) := by
  rw [scan, lexemeAt]
  by_cases blank : isBlank c
  · simp [blank]
  by_cases comment : c = ';'
  · subst comment
    simp [blank, Token.comment]
  by_cases opening : c = '('
  · subst opening
    simp [blank]
  by_cases closing : c = ')'
  · subst closing
    simp [blank]
  simp [blank, comment, opening, closing]

/-! ## Over tokens -/

/-- Takes one token after the other. -/
def run (limit : Int) : List Token → Stack → Except ParseError (List Atom)
  | [], σ => σ.finish
  | t :: ts, σ => σ.take limit t.start t.lexeme >>= run limit ts

/-- The walk takes the tokens of the text. -/
theorem scan_eq_run (limit : Int) (pos : Nat) (cs : List Char) (σ : Stack) :
    scan limit pos cs σ = run limit (Token.scan 0 pos cs) σ := by
  generalize length : cs.length = left
  induction left using Nat.strongRecOn generalizing pos cs σ with
  | ind left ih =>
      cases cs with
      | nil => rw [scan, Token.scan, run]
      | cons c cs =>
          rw [scan_cons, Token.scan]
          have shorter (n : Nat) : (cs.drop n).length < left := by
            simp only [List.length_drop, List.length_cons] at length ⊢
            omega
          rcases lexemeAt c cs with ⟨_ | l, n⟩
          · simp only [scan_skip n]
            exact ih _ (shorter n) _ _ _ rfl
          · simp only [scan_skip n, run]
            congr 1
            funext σ'
            exact ih _ (shorter n) _ _ _ rfl

/-- Along a run the stack keeps what every single token keeps, up to the end of the text or to the
token at which reading fails. -/
theorem run_reaches {P : Stack → Prop} {ts : List Token}
    (step : ∀ t ∈ ts, ∀ σ σ' : Stack, σ.take limit t.start t.lexeme = .ok σ' → P σ → P σ')
    (start : P σ) :
    ∃ σ', P σ' ∧ (run limit ts σ = σ'.finish ∨
      ∃ t ∈ ts, ∃ e, σ'.take limit t.start t.lexeme = .error e ∧ run limit ts σ = .error e) := by
  induction ts generalizing σ with
  | nil => exact ⟨σ, start, .inl rfl⟩
  | cons t ts ih =>
      obtain ⟨first, others⟩ := List.forall_mem_cons.mp step
      cases taken : σ.take limit t.start t.lexeme with
      | error e =>
          refine ⟨σ, start, .inr ⟨t, .head _, e, taken, ?_⟩⟩
          rw [run, taken, error_bind]
      | ok σ₁ =>
          obtain ⟨σ', there, ends⟩ := ih others (first σ σ₁ taken start)
          refine ⟨σ', there, ?_⟩
          rw [run, taken, ok_bind]
          rcases ends with finished | ⟨t', member, e, failed, same⟩
          · exact .inl finished
          · exact .inr ⟨t', .tail _ member, e, failed, same⟩

/-- Where reading succeeds, the atoms read are what is on the stack at the end. -/
theorem run_ok {P : Stack → Prop} {ts : List Token}
    (step : ∀ t ∈ ts, ∀ σ σ' : Stack, σ.take limit t.start t.lexeme = .ok σ' → P σ → P σ')
    (start : P σ) {as : List Atom} (ran : run limit ts σ = .ok as) : P ⟨as, []⟩ := by
  obtain ⟨⟨top, outer⟩, there, ended | ⟨t, -, e, -, failed⟩⟩ := run_reaches step start
  · rw [ended] at ran
    cases outer with
    | nil =>
        cases ran
        exact there
    | cons f fs => cases ran
  · rw [ran] at failed
    cases failed

end Stack

/-! ## Recursive descent -/

namespace Reader

open Stack (run)

/-- Where reading succeeds the machine comes past the same tokens, from a stack to the one that
belongs to what was read, and at least one token is taken; where reading fails so does the machine,
with the same error. -/
def Follows {α : Type} (r : Reader) (nesting : Nat) (σ : Stack) (σ' : α → Stack) :
    EStateM.Result ParseError Reader α → Prop
  | .ok x r' => run r.limit r.tokens σ = run r.limit r'.tokens (σ' x) ∧
      r'.tokens.length < r.tokens.length ∧ r'.nesting = nesting ∧ r'.limit = r.limit
  | .error e _ => run r.limit r.tokens σ = .error e

/-- As many more parentheses may be opened as the limit leaves beside those on the stack. -/
def Room (r : Reader) (levels opened : Nat) : Prop := levels = (r.limit - opened).toNat

variable {levels : Nat} {r : Reader} {t : Token} {rest : List Token} {outer : List Frame}

/-- Children up to the closing parenthesis, where single atoms are followed. -/
theorem children_follows
    (each : ∀ (r : Reader) (t : Token) (rest : List Token) (σ : Stack), r.tokens = t :: rest →
      t.lexeme ≠ .closing → r.Room levels σ.outer.length →
      r.Follows r.nesting σ σ.push (atom levels r))
    (start : Nat) (before : List Atom) {atMost : Nat} (enough : r.tokens.length ≤ atMost)
    (room : r.Room levels (outer.length + 1)) (top : List Atom) :
    r.Follows (r.nesting - 1) ⟨top, ⟨start, before⟩ :: outer⟩
      (fun cs => ⟨before ++ [.expr (top ++ cs)], outer⟩)
      (children (atom levels) start atMost r) := by
  induction atMost generalizing r top with
  | zero =>
      have none : r.tokens = [] := List.length_eq_zero_iff.mp (Nat.le_zero.mp enough)
      rw [children, Follows, none, run]
      rfl
  | succ atMost ih =>
      simp only [children]
      split
      · rename_i none
        rw [Follows, none, run]
        rfl
      rename_i t rest tokens
      split
      · -- the expression ends here
        rename_i closing
        simp [Follows, tokens, run, Stack.take, closing, closed, after]
      rename_i notClosing
      have here := each r t rest ⟨top, ⟨start, before⟩ :: outer⟩ tokens notClosing room
      generalize atom levels r = outcome at here ⊢
      cases outcome with
      | error e r' => exact here
      | ok c r' =>
          obtain ⟨same, shorter, nesting, limit⟩ := here
          have room' : r'.Room levels (outer.length + 1) := by rw [Room, limit]; exact room
          have others := ih (r := r') (by omega) room' (top ++ [c])
          simp only
          generalize children (atom levels) start atMost r' = outcome at others ⊢
          cases outcome with
          | error e r'' =>
              rw [Follows, limit] at others
              exact same.trans others
          | ok cs r'' =>
              obtain ⟨same', shorter', nesting', limit'⟩ := others
              rw [limit] at same'
              refine ⟨same.trans (same'.trans ?_), by omega, by omega, limit'.trans limit⟩
              simp

/-- A leaf, a fault or a closing parenthesis is taken by itself. -/
theorem atom_follows_of_ne_opening (tokens : r.tokens = t :: rest)
    (notOpening : t.lexeme ≠ .opening) {σ : Stack}
    (ready : t.lexeme = .closing → σ.outer = []) (levels : Nat) :
    r.Follows r.nesting σ σ.push (atom levels r) := by
  unfold atom
  simp only [tokens]
  cases lexeme : t.lexeme with
  | leaf a => simp [Follows, tokens, run, Stack.take, lexeme, after]
  | fault flaw offset => simp [Follows, tokens, run, Stack.take, lexeme]
  | closing => simp [Follows, tokens, run, Stack.take, lexeme, ready lexeme]
  | opening => exact absurd lexeme notOpening

/-- One atom, unless the parenthesis that closes an open one comes next. -/
theorem atom_follows (tokens : r.tokens = t :: rest) {σ : Stack}
    (ready : t.lexeme = .closing → σ.outer = []) (room : r.Room levels σ.outer.length) :
    r.Follows r.nesting σ σ.push (atom levels r) := by
  induction levels generalizing r t rest σ with
  | zero =>
      by_cases opening : t.lexeme = .opening
      · have full : r.limit ≤ σ.outer.length := by
          unfold Room at room
          omega
        simp [atom, Follows, tokens, run, Stack.take, opening, full]
      · exact atom_follows_of_ne_opening tokens opening ready 0
  | succ levels ih =>
      by_cases opening : t.lexeme = .opening
      · have free : ¬ r.limit ≤ σ.outer.length := by
          unfold Room at room
          omega
        have taken : run r.limit r.tokens σ = run r.limit rest (σ.opened t.start) := by
          simp [tokens, run, Stack.take, opening, free]
        let inner := (r.after t rest).opened
        have room' : inner.Room levels (σ.outer.length + 1) := by
          simp only [inner, Room, opened, after] at room ⊢
          omega
        have below : inner.Follows (inner.nesting - 1) (σ.opened t.start)
            (fun cs => ⟨σ.top ++ [.expr cs], σ.outer⟩)
            (children (atom levels) t.start rest.length inner) :=
          children_follows (fun _ _ _ _ tokens notClosing room =>
            ih tokens (fun closing => absurd closing notClosing) room) _ _ (Nat.le_refl _) room' []
        simp only [atom, tokens, opening]
        generalize children (atom levels) t.start rest.length inner = outcome at below
        cases outcome with
        | error e r' => exact taken.trans below
        | ok cs r' =>
            obtain ⟨same, shorter, nesting, limit⟩ := below
            refine ⟨taken.trans same, ?_, nesting, limit⟩
            rw [tokens]
            exact Nat.lt_succ_of_lt shorter
      · exact atom_follows_of_ne_opening tokens opening ready (levels + 1)

/-- All atoms of the text, where no parenthesis is open. -/
theorem all_eq_run {atMost : Nat} (enough : r.tokens.length ≤ atMost) (level : r.nesting = 0)
    (top : List Atom) :
    run r.limit r.tokens ⟨top, []⟩ =
      match all atMost r with
      | .ok as _ => .ok (top ++ as)
      | .error e _ => .error e := by
  induction atMost generalizing r top with
  | zero =>
      have none : r.tokens = [] := List.length_eq_zero_iff.mp (Nat.le_zero.mp enough)
      simp [all, none, run, Stack.finish]
  | succ atMost ih =>
      cases tokens : r.tokens with
      | nil => simp [all, tokens, run, Stack.finish]
      | cons t rest =>
          have room : r.Room r.levels 0 := by simp [Room, Reader.levels, level]
          have here : r.Follows r.nesting ⟨top, []⟩ (Stack.push ⟨top, []⟩) (next r) :=
            atom_follows tokens (fun _ => rfl) room
          simp only [all, tokens]
          rw [← tokens]
          generalize next r = outcome at here ⊢
          cases outcome with
          | error e r' => exact here
          | ok a r' =>
              obtain ⟨same, shorter, nesting, limit⟩ := here
              have others := ih (r := r') (by omega) (by omega) (top ++ [a])
              rw [limit] at others
              refine same.trans (others.trans ?_)
              simp only
              generalize all atMost r' = outcome
              cases outcome with
              | error e r'' => rfl
              | ok as r'' => simp

end Reader

/-- Recursive descent and the machine read a text alike. -/
theorem parseWithin_eq_read (limit : Int) (text : String) :
    Atom.parseWithin limit text = Stack.read limit text := by
  have same := Reader.all_eq_run (r := .ofText text limit) (Nat.le_refl _) rfl []
  rw [Stack.read, Stack.scan_eq_run]
  refine Eq.trans ?_ same.symm
  simp only [Atom.parseWithin]
  cases Reader.all _ _ <;> rfl

/-! ## Where errors are -/

namespace Numeral

variable {negative : Bool} {literal digits whole fraction : List Char} {flaw : Flaw}

theorem ne_unexpectedEnd_of_readInteger
    (failed : readInteger negative literal digits = .error flaw) : flaw ≠ .unexpectedEnd := by
  unfold readInteger at failed
  extract_lets count at failed
  split at failed
  · cases failed
    simp
  · split at failed <;> cases failed
    simp

theorem ne_unexpectedEnd_of_readFloat
    (failed : readFloat negative literal whole fraction = .error flaw) : flaw ≠ .unexpectedEnd := by
  unfold readFloat at failed
  split at failed
  · cases failed
    simp
  · split at failed <;> cases failed
    simp

/-- A numeral is read where there is one, so it is never the end that is unexpected. -/
theorem ne_unexpectedEnd_of_read (failed : read literal = .error flaw) : flaw ≠ .unexpectedEnd := by
  unfold read at failed
  extract_lets negative body at failed
  split at failed
  · exact ne_unexpectedEnd_of_readFloat failed
  · exact ne_unexpectedEnd_of_readInteger failed

end Numeral

namespace Token

variable {c : Char} {cs : List Char} {flaw : Flaw} {offset n : Nat}

theorem numberLexeme_fault (faulty : numberLexeme c cs = (.fault flaw offset, n)) :
    flaw ≠ .unexpectedEnd ∧ offset ≤ cs.length := by
  simp only [numberLexeme] at faulty
  split at faulty
  · rename_i d stray
    cases faulty
    refine ⟨by simp, ?_⟩
    -- the stray character stands behind the numeral
    obtain ⟨found, -⟩ := Option.filter_eq_some_iff.mp stray
    have left : cs.drop (Numeral.run true cs).length ≠ [] := by
      intro none
      simp [none] at found
    exact Nat.lt_of_not_le fun short => left (List.drop_eq_nil_iff.mpr short)
  · split at faulty <;> cases faulty
    rename_i failed
    exact ⟨Numeral.ne_unexpectedEnd_of_read failed, Nat.zero_le _⟩

/-- A faulty lexeme says that something other than the end was unexpected, and shows inside the
text. -/
theorem lexemeAt_fault (faulty : lexemeAt c cs = (some (.fault flaw offset), n)) :
    flaw ≠ .unexpectedEnd ∧ offset ≤ cs.length := by
  unfold lexemeAt at faulty
  split at faulty
  · cases faulty
  split at faulty
  · cases faulty
  split at faulty
  · cases faulty
  split at faulty
  · cases faulty
  simp only [Prod.mk.injEq, Option.some.injEq] at faulty
  obtain ⟨faulty, -⟩ := faulty
  split at faulty
  · unfold stringLexeme at faulty
    split at faulty <;> cases faulty
    exact ⟨by simp, Nat.zero_le _⟩
  split at faulty
  · unfold variableLexeme at faulty
    split at faulty <;> cases faulty
    exact ⟨by simp, Nat.zero_le _⟩
  split at faulty
  · exact numberLexeme_fault (Prod.ext faulty rfl)
  · cases faulty

/-- A token is what begins at its start. -/
theorem exists_of_mem_scan {t : Token} (skip pos : Nat) (cs : List Char)
    (member : t ∈ scan skip pos cs) :
    ∃ before c after n, cs = before ++ c :: after ∧ t.start = pos + before.length ∧
      lexemeAt c after = (some t.lexeme, n) := by
  induction cs generalizing skip pos with
  | nil => simp [scan] at member
  | cons c cs ih =>
      have later (skip : Nat) (member : t ∈ scan skip (pos + 1) cs) :
          ∃ before d after n, c :: cs = before ++ d :: after ∧ t.start = pos + before.length ∧
            lexemeAt d after = (some t.lexeme, n) := by
        obtain ⟨before, d, after, n, rfl, start, here⟩ := ih skip (pos + 1) member
        refine ⟨c :: before, d, after, n, rfl, ?_, here⟩
        rw [start, List.length_cons]
        omega
      cases skip with
      | succ skip => exact later skip member
      | zero =>
          rw [scan] at member
          split at member
          · exact later _ member
          · rename_i l n here
            rcases List.mem_cons.mp member with rfl | member
            · exact ⟨[], c, cs, n, rfl, rfl, here⟩
            · exact later _ member

end Token

namespace Stack

variable {limit : Int} {σ σ' : Stack} {l : Lexeme} {start : Nat}

/-- A lexeme opens no parenthesis but the one that it is. -/
theorem mem_outer_of_take (taken : σ.take limit start l = .ok σ') {f : Frame}
    (member : f ∈ σ'.outer) : f ∈ σ.outer ∨ f.start = start := by
  unfold take at taken
  split at taken
  · cases taken
    exact .inl member
  · cases taken
  · split at taken <;> cases taken
    rcases List.mem_cons.mp member with rfl | member
    · exact .inr rfl
    · exact .inl member
  · split at taken <;> cases taken
    rename_i outer
    exact .inl (outer ▸ List.mem_cons_of_mem _ member)

/-- Faults show inside the text, and so do the parentheses that are open at its end. -/
theorem scan_error {cs : List Char} {e : ParseError}
    (failed : scan limit 0 cs empty = .error e) :
    e.position < cs.length ∧ e.flaw ≠ .unexpectedEnd := by
  have tokens := fun t => Token.exists_of_mem_scan (t := t) 0 0 cs
  have keeps : ∀ t ∈ Token.scan 0 0 cs, ∀ σ σ' : Stack, σ.take limit t.start t.lexeme = .ok σ' →
      (∀ f ∈ σ.outer, f.start < cs.length) → ∀ f ∈ σ'.outer, f.start < cs.length := by
    intro t member σ σ' taken inside f opened
    obtain ⟨before, c, after, n, rfl, start, -⟩ := tokens t member
    rcases mem_outer_of_take taken opened with old | new
    · exact inside f old
    · simp only [List.length_append, List.length_cons]
      omega
  have none : ∀ f ∈ empty.outer, f.start < cs.length := List.forall_mem_nil _
  rw [scan_eq_run] at failed
  obtain ⟨σ, inside, ended | ⟨t, member, e', stopped, same⟩⟩ := run_reaches keeps none
  · rw [ended, finish] at failed
    split at failed <;> cases failed
    rename_i f fs outer
    exact ⟨inside f (by simp [outer]), by simp⟩
  · rw [failed] at same
    cases same
    obtain ⟨before, c, after, n, rfl, start, lexeme⟩ := tokens t member
    simp only [List.length_append, List.length_cons]
    unfold take at stopped
    split at stopped
    · cases stopped
    · rename_i flaw offset faulty
      cases stopped
      rw [faulty] at lexeme
      obtain ⟨flaw, offset⟩ := Token.lexemeAt_fault lexeme
      exact ⟨by simp only; omega, flaw⟩
    · split at stopped <;> cases stopped
      exact ⟨by simp only; omega, by simp⟩
    · split at stopped <;> cases stopped
      exact ⟨by simp only; omega, by simp⟩

end Stack

/-- **Recursive descent reads as the stack machine does**, whatever the text and however many
parentheses may be open at a time: the same atoms, or the same error at the same position.  The
position lies inside the text, and that an atom was expected where the text ends is never the
error. -/
theorem parseWithin_stack (limit : Int) (text : String) :
    Atom.parseWithin limit text = Stack.read limit text ∧
      (∀ e, Atom.parseWithin limit text = .error e →
        e.position < text.length ∧ e.flaw ≠ .unexpectedEnd) ∧
      Flaw.text (.nestedDeeper limit) = "Expression nesting deeper than " ++ toString limit ∧
      Flaw.text .unexpectedClose = "Unexpected ')'" ∧ Flaw.text .unclosed = "Unmatched '('" ∧
      Flaw.text .unexpectedEnd = "Unexpected end of input" := by
  refine ⟨parseWithin_eq_read limit text, fun e failed => ?_, rfl, rfl, rfl, rfl⟩
  rw [parseWithin_eq_read] at failed
  rw [← String.length_toList]
  exact Stack.scan_error failed

/-- A parenthesis in a comment closes nothing. -/
example : Atom.parseWithin 1 "(;)\n(" = .error ⟨.nestedDeeper 1, 4⟩ := by rfl

end Metta
