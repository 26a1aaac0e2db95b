/-
# Metta.Proofs.Stepwise -- reading one atom at a time

A reader can be asked for one atom after the other.  Asked on a whole text it answers with
the atoms of that text and then that the text has ended; or with the atoms that were
complete when reading the text failed, and then with that failure.  Which atoms these are
is told from the stack that reading leaves (`Stack.complete`).

An answer is known by the tokens that it takes: the machine with the stack comes past them
and pushes the atom, whatever lies below (`Reader.atom_takes`).  So the piece of the text
that was read says the same by itself.  That holds of every answer, also after failures,
which leave parentheses open that count on.
-/
import Metta.Proofs.Layout

namespace Metta

set_option autoImplicit false

/-! ## The machine, as far as it comes -/

namespace Stack

variable {limit : Int} {σ τ : Stack} {ts : List Token} {as : List Atom}

/-- Takes tokens one after the other. -/
def steps (limit : Int) (ts : List Token) (σ : Stack) : Except ParseError Stack :=
  ts.foldlM (fun σ t => σ.take limit t.start t.lexeme) σ

theorem steps_cons (t : Token) (ts : List Token) :
    steps limit (t :: ts) σ = σ.take limit t.start t.lexeme >>= steps limit ts := rfl

theorem steps_append (ts ts' : List Token) :
    steps limit (ts ++ ts') σ = steps limit ts σ >>= steps limit ts' :=
  List.foldlM_append

theorem run_of_steps (stepped : steps limit ts σ = .ok τ) (more : List Token) :
    run limit (ts ++ more) σ = run limit more τ := by
  induction ts generalizing σ with
  | nil =>
      cases stepped
      rfl
  | cons t ts ih =>
      rw [steps_cons] at stepped
      obtain ⟨σ', taken, stepped⟩ := bind_eq_ok.mp stepped
      rw [List.cons_append, run, taken, ok_bind]
      exact ih stepped

/-- The atoms that stand outside of all parentheses. -/
def bottom : List Atom → List Frame → List Atom
  | top, [] => top
  | _, f :: fs => bottom f.before fs

/-- The atoms that are complete outside of all parentheses when reading ends, at the end of the text
or with an error. -/
def complete (limit : Int) : List Token → Stack → List Atom
  | [], σ => bottom σ.top σ.outer
  | t :: ts, σ =>
    match σ.take limit t.start t.lexeme with
    | .ok σ' => complete limit ts σ'
    | .error _ => bottom σ.top σ.outer

theorem complete_of_steps (stepped : steps limit ts σ = .ok τ) (more : List Token) :
    complete limit (ts ++ more) σ = complete limit more τ := by
  induction ts generalizing σ with
  | nil =>
      cases stepped
      rfl
  | cons t ts ih =>
      rw [steps_cons] at stepped
      obtain ⟨σ', taken, stepped⟩ := bind_eq_ok.mp stepped
      rw [List.cons_append, complete, taken]
      exact ih stepped

/-- Where reading does not fail all atoms are complete. -/
theorem complete_of_run (ok : run limit ts σ = .ok as) : complete limit ts σ = as := by
  induction ts generalizing σ with
  | nil =>
      rw [run, finish] at ok
      split at ok <;> cases ok
      rename_i closed
      simp [complete, bottom, closed]
  | cons t ts ih =>
      obtain ⟨σ', taken, ok⟩ := bind_eq_ok.mp ok
      rw [complete, taken]
      exact ih ok

end Stack

/-! ## What an answer takes -/

namespace Reader

open Stack (steps run complete)

variable {levels atMost start : Nat} {r r' r'' : Reader} {a : Atom} {cs : List Atom}
  {t : Token} {rest taken others : List Token}

/-- A reader comes past some tokens and stands where the last of them ends. -/
structure Takes (r : Reader) (taken : List Token) (r' : Reader) : Prop where
  tokens : r.tokens = taken ++ r'.tokens
  last : taken.getLast?.map (·.stop) = some r'.position
  limit : r'.limit = r.limit

theorem Takes.trans (first : r.Takes taken r') (second : r'.Takes others r'') :
    r.Takes (taken ++ others) r'' where
  tokens := by rw [first.tokens, second.tokens, List.append_assoc]
  last := by
    obtain ⟨t, last, stop⟩ := Option.map_eq_some_iff.mp second.last
    rw [List.getLast?_append, last, ← stop]
    rfl
  limit := second.limit.trans first.limit

theorem Takes.length_lt (takes : r.Takes taken r') : r'.tokens.length < r.tokens.length := by
  have nonempty : taken ≠ [] := by
    rintro rfl
    cases takes.last
  have := List.length_pos_of_ne_nil nonempty
  rw [takes.tokens, List.length_append]
  omega

/-- Past the tokens of the atom the machine has pushed it, if it may open so many parentheses. -/
def Pushes (r : Reader) (levels : Nat) (a : Atom) (r' : Reader) : Prop :=
  ∃ taken, r.Takes taken r' ∧ r'.nesting = r.nesting ∧
    ∀ σ : Stack, levels ≤ (r.limit - σ.outer.length).toNat →
      steps r.limit taken σ = .ok (σ.push a)

/-- Children that are read, where single atoms are pushed. -/
theorem children_takes (each : ∀ r a r', atom levels r = .ok a r' → r.Pushes levels a r')
    (read : children (atom levels) start atMost r = .ok cs r') :
    ∃ taken, r.Takes taken r' ∧ r'.nesting = r.nesting - 1 ∧
      ∀ (top : List Atom) (f : Frame) (outer : List Frame),
        levels ≤ (r.limit - (outer.length + 1 : Nat)).toNat →
        steps r.limit taken ⟨top, f :: outer⟩ =
          .ok ⟨f.before ++ [.expr (top ++ cs)], outer⟩ := by
  induction atMost generalizing r cs with
  | zero => cases read
  | succ atMost ih =>
      simp only [children] at read
      split at read
      · cases read
      rename_i t rest tokens
      split at read
      · -- the expression ends here
        rename_i closing
        cases read
        refine ⟨[t], ⟨tokens, rfl, rfl⟩, rfl, fun top f outer room => ?_⟩
        rw [Stack.steps_cons, closing, List.append_nil]
        rfl
      split at read
      · cases read
      rename_i c r₁ first
      split at read <;> cases read
      rename_i cs others
      obtain ⟨taken, takes, nesting, pushes⟩ := each r c r₁ first
      obtain ⟨taken', takes', nesting', closes⟩ := ih others
      refine ⟨taken ++ taken', takes.trans takes', by omega, fun top f outer room => ?_⟩
      rw [Stack.steps_append, pushes ⟨top, f :: outer⟩ room, ok_bind, ← takes.limit, Stack.push,
        closes (top ++ [c]) f outer (by rwa [takes.limit])]
      simp

theorem atom_pushes_of_leaf (tokens : r.tokens = t :: rest) (leaf : t.lexeme = .leaf a)
    (levels : Nat) : r.Pushes levels a (r.after t rest) := by
  refine ⟨[t], ⟨tokens, rfl, rfl⟩, rfl, fun σ _ => ?_⟩
  rw [Stack.steps_cons, leaf]
  rfl

/-- **Past the tokens of an atom the machine has pushed it.** -/
theorem atom_pushes (read : atom levels r = .ok a r') : r.Pushes levels a r' := by
  induction levels generalizing r a r' with
  | zero =>
      simp only [atom] at read
      split at read
      · cases read
      rename_i t rest tokens
      split at read <;> cases read
      rename_i a leaf
      exact atom_pushes_of_leaf tokens leaf 0
  | succ levels ih =>
      simp only [atom] at read
      split at read
      · cases read
      rename_i t rest tokens
      split at read
      · rename_i a leaf
        cases read
        exact atom_pushes_of_leaf tokens leaf _
      · cases read
      · cases read
      rename_i opening
      split at read <;> cases read
      rename_i cs inside
      obtain ⟨taken, takes, nesting, closes⟩ := children_takes (fun _ _ _ => ih) inside
      have last : ((t :: taken).getLast?).map (·.stop) = some r'.position := by
        obtain ⟨t', last, stop⟩ := Option.map_eq_some_iff.mp takes.last
        rw [List.getLast?_cons, last, ← stop]
        rfl
      have within : r.Takes (t :: taken) r' :=
        ⟨by rw [tokens, List.cons_append, ← takes.tokens]; rfl, last, takes.limit⟩
      refine ⟨t :: taken, within, nesting, fun σ room => ?_⟩
      have free : ¬ r.limit ≤ σ.outer.length := by omega
      have taking : σ.take r.limit t.start t.lexeme = .ok (σ.opened t.start) := by
        rw [opening, Stack.take, if_neg free]
      have further := closes [] ⟨t.start, σ.top⟩ σ.outer (by simp only [opened, after]; omega)
      rw [Stack.steps_cons, taking, ok_bind]
      exact further

/-! ## What is complete when reading fails -/

variable {e : ParseError} {outer : List Frame}

/-- Children that cannot be read add nothing at the bottom. -/
theorem complete_of_children
    (each : ∀ (r : Reader) (t : Token) (rest : List Token) (σ : Stack) (e : ParseError)
      (r' : Reader), r.tokens = t :: rest → t.lexeme ≠ .closing → r.Room levels σ.outer.length →
      atom levels r = .error e r' → complete r.limit r.tokens σ = Stack.bottom σ.top σ.outer)
    (enough : r.tokens.length ≤ atMost) (room : r.Room levels (outer.length + 1))
    (failed : children (atom levels) start atMost r = .error e r') (before top : List Atom) :
    complete r.limit r.tokens ⟨top, ⟨start, before⟩ :: outer⟩ = Stack.bottom before outer := by
  induction atMost generalizing r top with
  | zero =>
      have none : r.tokens = [] := List.length_eq_zero_iff.mp (Nat.le_zero.mp enough)
      rw [none]
      rfl
  | succ atMost ih =>
      simp only [children] at failed
      split at failed
      · rename_i none
        rw [none]
        rfl
      rename_i t rest tokens
      split at failed
      · cases failed
      rename_i notClosing
      split at failed
      · rename_i e' r₁ first
        exact each r t rest ⟨top, ⟨start, before⟩ :: outer⟩ e' r₁ tokens notClosing room first
      rename_i c r₁ first
      split at failed <;> cases failed
      rename_i others
      obtain ⟨taken, takes, -, pushes⟩ := atom_pushes first
      have pushed := pushes ⟨top, ⟨start, before⟩ :: outer⟩ (Nat.le_of_eq room)
      have room' : r₁.Room levels (outer.length + 1) := by rw [Room, takes.limit]; exact room
      have shorter := takes.length_lt
      have left := ih (by omega) room' others (top ++ [c])
      rw [takes.limit] at left
      rw [takes.tokens, Stack.complete_of_steps pushed]
      exact left

/-- Where the machine goes on although the atom cannot be read, it is a child that cannot. -/
theorem exists_children_of_take {σ σ' : Stack} (tokens : r.tokens = t :: rest)
    (ready : t.lexeme = .closing → σ.outer = []) (room : r.Room levels σ.outer.length)
    (failed : atom levels r = .error e r') (taken : σ.take r.limit t.start t.lexeme = .ok σ') :
    ∃ inner, levels = inner + 1 ∧ σ' = σ.opened t.start ∧
      children (atom inner) t.start rest.length (r.after t rest).opened = .error e r' := by
  unfold atom at failed
  simp only [tokens] at failed
  cases lexeme : t.lexeme with
  | leaf a => simp [lexeme] at failed
  | fault flaw offset => simp [lexeme, Stack.take] at taken
  | closing => simp [lexeme, Stack.take, ready lexeme] at taken
  | opening =>
      simp only [lexeme, Stack.take] at failed taken
      split at taken <;> cases taken
      rename_i free
      cases levels with
      | zero =>
          unfold Room at room
          omega
      | succ inner =>
          simp only at failed
          split at failed <;> cases failed
          rename_i inside
          exact ⟨inner, rfl, rfl, inside⟩

/-- **An atom that cannot be read adds nothing at the bottom.** -/
theorem complete_of_atom {σ : Stack} (tokens : r.tokens = t :: rest)
    (ready : t.lexeme = .closing → σ.outer = []) (room : r.Room levels σ.outer.length)
    (failed : atom levels r = .error e r') :
    complete r.limit r.tokens σ = Stack.bottom σ.top σ.outer := by
  induction levels generalizing r t rest σ e r' with
  | zero =>
      rw [tokens, complete]
      split
      · rename_i σ' taken
        obtain ⟨inner, none, -⟩ := exists_children_of_take tokens ready room failed taken
        cases none
      · rfl
  | succ levels ih =>
      rw [tokens, complete]
      split
      · rename_i σ' taken
        obtain ⟨inner, same, rfl, inside⟩ := exists_children_of_take tokens ready room failed taken
        obtain rfl := Nat.succ.inj same
        have room' : (r.after t rest).opened.Room levels (σ.outer.length + 1) := by
          simp only [Room, opened, after] at room ⊢
          omega
        exact complete_of_children (fun r t rest σ e r' tokens notClosing room failed =>
          ih tokens (fun closing => absurd closing notClosing) room failed) (Nat.le_refl _) room'
          inside _ []
      · rfl

/-! ## Where a reader stands -/

/-- The reader that is left, whatever the outcome. -/
def behind {α : Type} : EStateM.Result ParseError Reader α → Reader
  | .ok _ r => r
  | .error _ r => r

/-- The tokens still to be read are those of the text from the position on. -/
structure Stands (r : Reader) (whole : List Char) (limit : Int) : Prop where
  tokens : r.tokens = Token.scan 0 r.position (whole.drop r.position)
  limit : r.limit = limit
  length : r.length = whole.length

variable {whole : List Char} {limit : Int}

theorem Stands.after (stands : r.Stands whole limit) (tokens : r.tokens = t :: rest) :
    (r.after t rest).Stands whole limit where
  tokens := (Token.found_of_scan (stands.tokens.symm.trans tokens)).others
  limit := stands.limit
  length := stands.length

theorem Stands.before (stands : r.Stands whole limit) (tokens : r.tokens = t :: rest) :
    (r.before t).Stands whole limit where
  tokens := by
    have found := Token.found_of_scan (stands.tokens.symm.trans tokens)
    exact tokens.trans found.again.symm
  limit := stands.limit
  length := stands.length

theorem Stands.atEnd (stands : r.Stands whole limit) (none : r.tokens = []) :
    r.atEnd.Stands whole limit where
  tokens := by
    have nothing : whole.drop r.length = [] := by rw [stands.length, List.drop_length]
    show r.tokens = Token.scan 0 r.length (whole.drop r.length)
    rw [none, nothing, Token.scan]
  limit := stands.limit
  length := stands.length

theorem Stands.opened (stands : r.Stands whole limit) : r.opened.Stands whole limit :=
  ⟨stands.tokens, stands.limit, stands.length⟩

theorem Stands.closed (stands : r.Stands whole limit) : r.closed.Stands whole limit :=
  ⟨stands.tokens, stands.limit, stands.length⟩

theorem children_stands
    (each : ∀ r, r.Stands whole limit → (behind (atom levels r)).Stands whole limit)
    (enough : r.tokens.length ≤ atMost) (stands : r.Stands whole limit) :
    (behind (children (atom levels) start atMost r)).Stands whole limit := by
  induction atMost generalizing r with
  | zero => exact stands.atEnd (List.length_eq_zero_iff.mp (Nat.le_zero.mp enough))
  | succ atMost ih =>
      simp only [children]
      split
      · rename_i none
        exact stands.atEnd none
      rename_i t rest tokens
      split
      · exact (stands.after tokens).closed
      have here := each r stands
      cases first : atom levels r with
      | error e r₁ =>
          rw [first] at here
          exact here
      | ok c r₁ =>
          rw [first] at here
          obtain ⟨taken, takes, -⟩ := atom_pushes first
          have shorter := takes.length_lt
          have left := ih (r := r₁) (by omega) here
          simp only
          cases others : children (atom levels) start atMost r₁ with
          | error e r₂ =>
              rw [others] at left
              exact left
          | ok cs r₂ =>
              rw [others] at left
              exact left

/-- A reader stands in its text before and after it was asked. -/
theorem atom_stands (stands : r.Stands whole limit) :
    (behind (atom levels r)).Stands whole limit := by
  induction levels generalizing r with
  | zero =>
      simp only [atom]
      split
      · rename_i none
        exact stands.atEnd none
      rename_i t rest tokens
      split
      · exact stands.after tokens
      · exact stands.after tokens
      · exact stands.before tokens
      · exact stands.before tokens
  | succ levels ih =>
      simp only [atom]
      split
      · rename_i none
        exact stands.atEnd none
      rename_i t rest tokens
      split
      · exact stands.after tokens
      · exact stands.after tokens
      · exact stands.before tokens
      let inner := (r.after t rest).opened
      have inside : (behind (children (atom levels) t.start rest.length inner)).Stands whole limit :=
        children_stands (fun _ => ih) (Nat.le_refl _) (stands.after tokens).opened
      split
      · rename_i failed
        rwa [failed] at inside
      · rename_i read
        rwa [read] at inside

/-- The reader after it was asked for an atom, whatever came of that. -/
def asked (r : Reader) : Reader := behind (next r)

theorem stands_ofText (text : String) (limit : Int) :
    (ofText text limit).Stands text.toList limit :=
  ⟨rfl, rfl, String.length_toList.symm⟩

theorem iterate_asked_stands (text : String) (limit : Int) (i : Nat) :
    (asked^[i] (ofText text limit)).Stands text.toList limit := by
  induction i with
  | zero => exact stands_ofText text limit
  | succ i ih =>
      rw [Function.iterate_succ_apply']
      exact atom_stands ih

/-! ## Asking again and again -/

/-- Asked on and on, a reader outside of all parentheses answers with the atoms that come to stand at
the bottom, and then fails as the machine does, or because nothing is left. -/
theorem exists_answers (stands : r.Stands whole limit) (level : r.nesting = 0) (top : List Atom) :
    ∃ as, complete limit r.tokens ⟨top, []⟩ = top ++ as ∧
      (∀ i a, as[i]? = some a → ∃ r', next (asked^[i] r) = .ok a r') ∧
      (∀ i ≤ as.length, (asked^[i] r).nesting = 0) ∧
      ∃ r', next (asked^[as.length] r) = .error
        (match run limit r.tokens ⟨top, []⟩ with
        | .ok _ => ⟨.unexpectedEnd, whole.length⟩
        | .error e => e) r' := by
  generalize length : r.tokens.length = left
  induction left using Nat.strongRecOn generalizing r top with
  | ind left ih =>
      have room : r.Room r.levels 0 := by simp [Room, Reader.levels, level]
      cases asking : next r with
      | error e r' =>
          refine ⟨[], ?_, by simp, by simpa using level, r', ?_⟩
          · rw [List.append_nil]
            cases tokens : r.tokens with
            | nil => rfl
            | cons t rest =>
                rw [← tokens, ← stands.limit]
                exact complete_of_atom tokens (fun _ => rfl) room asking
          · rw [List.length_nil, Function.iterate_zero, id, asking]
            cases tokens : r.tokens with
            | nil =>
                simp only [next, atom, tokens] at asking
                cases asking
                rw [stands.length]
                rfl
            | cons t rest =>
                have follows : r.Follows r.nesting ⟨top, []⟩ (Stack.push ⟨top, []⟩) (next r) :=
                  atom_follows tokens (fun _ => rfl) room
                rw [asking] at follows
                have failed : run r.limit r.tokens ⟨top, []⟩ = .error e := follows
                rw [← tokens, ← stands.limit, failed]
      | ok a r' =>
          have stands' : r'.Stands whole limit := by
            have stands' : (behind (next r)).Stands whole limit := atom_stands stands
            rwa [asking] at stands'
          obtain ⟨taken, takes, nesting, pushes⟩ := atom_pushes asking
          have pushed := pushes ⟨top, []⟩ (Nat.le_of_eq room)
          rw [stands.limit] at pushed
          have same : asked r = r' := by rw [asked, asking, behind]
          obtain ⟨as, complete, answers, levels, r'', failure⟩ :=
            ih _ (length ▸ takes.length_lt) stands' (nesting.trans level) (top ++ [a]) rfl
          rw [takes.tokens, Stack.complete_of_steps pushed, Stack.run_of_steps pushed]
          refine ⟨a :: as, by simpa [Stack.push] using complete, ?_, ?_, r'', ?_⟩
          · intro i b answer
            cases i with
            | zero =>
                cases answer
                exact ⟨r', asking⟩
            | succ i =>
                rw [Function.iterate_succ_apply, same]
                exact answers i b answer
          · intro i short
            cases i with
            | zero => exact level
            | succ i =>
                rw [Function.iterate_succ_apply, same]
                exact levels i (Nat.le_of_succ_le_succ short)
          · rw [List.length_cons, Function.iterate_succ_apply, same]
            exact failure

/-! ## The piece of text that an answer takes up -/

theorem extract_of_drop {front : List Char} {first last : Nat} (ahead : first ≤ last)
    (split : whole.drop first = front ++ whole.drop last) : whole.extract first last = front := by
  have lengths := congrArg List.length split
  simp only [List.length_drop, List.length_append] at lengths
  rw [List.extract, split]
  by_cases inside : last ≤ whole.length
  · exact List.take_left' (by omega)
  · rw [List.drop_eq_nil_of_le (by omega), List.append_nil]
    exact List.take_of_length_le (by omega)

/-- **An answer moves the reader on, and the piece that was read says the same by itself.** -/
theorem next_piece (stands : r.Stands whole limit) (read : next r = .ok a r') :
    r.position < r'.position ∧ r'.nesting = r.nesting ∧
      Atom.parseWithin limit (String.ofList (whole.extract r.position r'.position)) = .ok [a] := by
  obtain ⟨taken, takes, nesting, pushes⟩ := atom_pushes read
  have pushed := pushes .empty (by
    simp only [Stack.empty, List.length_nil, Reader.levels]
    omega)
  rw [stands.limit] at pushed
  have ran : run limit taken .empty = .ok [a] := by
    rw [← List.append_nil taken, Stack.run_of_steps pushed]
    rfl
  have last : r'.position = (taken.getLast?.map (·.stop)).getD r.position := by
    rw [takes.last, Option.getD_some]
  have scanned := stands.tokens.symm.trans takes.tokens
  obtain ⟨laid, spelled, -, further⟩ :=
    Token.laid_of_scan r'.position scanned (Stack.sound_of_run ran) last
  have nonempty : 0 < taken.length := by
    have := takes.length_lt
    rw [takes.tokens, List.length_append] at this
    omega
  refine ⟨by omega, nesting, ?_⟩
  obtain ⟨front, split, laid⟩ := laid.front
  have found := laid.lexemes_scan spelled (.inl .none) 0
  rw [extract_of_drop (by omega) split, Atom.parseWithin_eq_run, Token.ofText,
    String.toList_ofList]
  exact Stack.run_alike ⟨rfl, rfl⟩ found.symm ran

/-- **Reading atom by atom agrees with reading the whole text.**  A reader that is asked again and
again answers with the atoms that are complete when reading the whole text ends, one after the
other.  If the whole text can be read these are its atoms, and the next call fails because the text
has ended; otherwise the next call fails as reading the whole text does.  Up to there no parenthesis
is left open between the calls.  Every call that answers, also after failures, moves the reader on
and leaves as many parentheses open as it found, and the piece of text between the old and the new
position is read, by itself, as just the answer. -/
theorem next_repeatedly (limit : Int) (text : String) :
    let reader (i : Nat) := asked^[i] (ofText text limit)
    let done := complete limit (Token.ofText text) .empty
    (∀ i a, done[i]? = some a → ∃ r, next (reader i) = .ok a r) ∧
      (∀ as, Atom.parseWithin limit text = .ok as → as = done ∧
        ∃ r, next (reader done.length) = .error ⟨.unexpectedEnd, text.length⟩ r) ∧
      (∀ e, Atom.parseWithin limit text = .error e →
        ∃ r, next (reader done.length) = .error e r) ∧
      (∀ i ≤ done.length, (reader i).nesting = 0) ∧
      (∀ i a r, next (reader i) = .ok a r →
        (reader i).position < r.position ∧ r.nesting = (reader i).nesting ∧
          Atom.parseWithin limit
            (String.ofList (text.toList.extract (reader i).position r.position)) = .ok [a]) ∧
      Flaw.text .unexpectedEnd = "Unexpected end of input" := by
  intro reader done
  obtain ⟨as, complete, answers, levels, r, failure⟩ :=
    exists_answers (stands_ofText text limit) rfl []
  have same : as = done := complete.symm
  rw [same] at answers levels failure
  rw [Atom.parseWithin_eq_run]
  refine ⟨answers, fun as read => ?_, fun e failed => ?_, levels, ?_, rfl⟩
  · have ran : run limit (ofText text limit).tokens ⟨[], []⟩ = .ok as := read
    rw [ran, String.length_toList] at failure
    exact ⟨(Stack.complete_of_run read).symm, r, failure⟩
  · have ran : run limit (ofText text limit).tokens ⟨[], []⟩ = .error e := failed
    rw [ran] at failure
    exact ⟨r, failure⟩
  · intro i a r read
    exact next_piece (iterate_asked_stands text limit i) read

/-- The first expression is read although the second one is not closed. -/
theorem next_repeatedly_unclosed :
    let reader (i : Nat) := asked^[i] (ofText "(a) (b" 200)
    let a : Atom := .expr [.symbol "a"]
    (∃ r, next (reader 0) = .ok a r ∧ 0 < r.position ∧ r.nesting = 0 ∧
        Atom.parseWithin 200 "(a)" = .ok [a]) ∧
      (reader 1).nesting = 0 ∧ ∃ r, next (reader 1) = .error ⟨.unclosed, 4⟩ r := by
  intro reader a
  obtain ⟨-, -, failure, levels, pieces, -⟩ := next_repeatedly 200 "(a) (b"
  have complete : complete 200 (Token.ofText "(a) (b") .empty = [a] := by cbv
  have failed : Atom.parseWithin 200 "(a) (b" = .error ⟨.unclosed, 4⟩ := by cbv
  have tokens : Token.ofText "(a) (b" = [⟨.opening, 0, 1⟩, ⟨.leaf (.symbol "a"), 1, 2⟩,
    ⟨.closing, 2, 3⟩, ⟨.opening, 4, 5⟩, ⟨.leaf (.symbol "b"), 5, 6⟩] := by cbv
  have read : next (reader 0) =
      .ok a ⟨[⟨.opening, 4, 5⟩, ⟨.leaf (.symbol "b"), 5, 6⟩], 3, 0, 200, 6⟩ := by
    simp only [reader, ofText, tokens]
    rfl
  rw [complete] at failure levels
  obtain ⟨further, level, piece⟩ := pieces 0 _ _ read
  exact ⟨⟨_, read, further, level, piece⟩, levels 1 (Nat.le_refl 1), failure _ failed⟩

end Reader

end Metta
