/-
# Metta.Proofs.Dialogue -- a dialogue is a sequence of runs

A dialogue reads the lines in front of the first that says `exit` (`Repl.said`).  An
exchange (`Repl.Exchange`) says what becomes of them in a session: a blank line gets no
reply, one that cannot be read an objection, and both leave the session as it was; any
other line is run, and the reply is its results.

In a session that was driven by text nothing else can happen, since there no run fails and
every result can be written.  So a dialogue writes the replies of an exchange, each behind
a prompt, and leaves the session of the exchange (`Repl.exists_exchange`).  The session is
the one that running the lines leaves, those that cannot be read left out
(`Repl.Exchange.performAll_eq`).  If all lines can be read they can as well be run as one
text (`Repl.dialogue_runs`), because a text composes of its lines; whether a line is read
with the line feed at its end or without makes no difference.
-/
import Metta.Proofs.Composition
import Metta.Proofs.Faults
import Metta.Repl

namespace Metta

set_option autoImplicit false

open Text (trim isBlank)

/-! ## Lines -/

/-- Nothing is left exactly if all characters are of the class. -/
theorem Text.trimOf_eq_nil_iff (p : Char → Bool) (cs : List Char) :
    trimOf p cs = [] ↔ ∀ c ∈ cs, p c = true := by
  rw [trimOf, List.reverse_eq_nil_iff, List.dropWhile_eq_nil_iff]
  constructor
  · intro rest c member
    rw [← List.takeWhile_append_dropWhile (p := p) (l := cs), List.mem_append] at member
    rcases member with taken | left
    · exact List.mem_takeWhile_imp taken
    · exact rest c (List.mem_reverse.mpr left)
  · intro all c member
    exact all c ((List.dropWhile_sublist p).subset (List.mem_reverse.mp member))

theorem Stack.scan_of_blank {limit : Int} {pos : Nat} {cs : List Char} {σ : Stack}
    (blank : ∀ c ∈ cs, isBlank c = true) : scan limit pos cs σ = σ.finish := by
  induction cs generalizing pos with
  | nil => rw [scan]
  | cons c cs ih =>
      obtain ⟨first, others⟩ := List.forall_mem_cons.mp blank
      rw [scan, if_pos first, ih others]

/-- A blank text holds no atom. -/
theorem Atom.parse_of_blank {text : String} (blank : trim text.toList = []) :
    parse text = .ok [] := by
  rw [parse, parseWithin_eq_read, Stack.read,
    Stack.scan_of_blank ((Text.trimOf_eq_nil_iff isBlank _).mp blank)]
  rfl

namespace Repl

variable {Good : Atom → Prop} {s s' last : Session} {line : String}

/-- The lines of a text in front of the first that says `exit`, each with the line feed that ends
it. -/
def said (input : String) : List String :=
  ((lines input.toList).takeWhile fun line => trim line ≠ "exit".toList).map String.ofList

/-- A line without the line feed that ends it. -/
def content (line : String) : String := String.ofList (line.toList.takeWhile (· ≠ '\n'))

/-- Can the line be read? -/
def reads (line : String) : Bool := (Atom.parse line).isOk

theorem reads_iff : reads line = true ↔ ∃ as, Atom.parse line = .ok as := by
  unfold reads
  cases Atom.parse line <;> simp [Except.isOk, Except.toBool]

/-- No line feed stands in a line but at its end. -/
theorem exists_body {cs l : List Char} (member : l ∈ lines cs) :
    ∃ body, '\n' ∉ body ∧ (l = body ∨ l = body ++ ['\n']) := by
  induction cs generalizing l with
  | nil => cases member
  | cons c cs ih =>
      by_cases feed : c = '\n'
      · rw [lines, if_pos feed] at member
        rcases List.mem_cons.mp member with rfl | later
        · exact ⟨[], by simp, .inr (by rw [feed]; rfl)⟩
        · exact ih later
      · rw [lines, if_neg feed] at member
        have apart : '\n' ≠ c := fun same => feed same.symm
        cases rest : lines cs with
        | nil =>
            rw [rest] at member
            rw [List.mem_singleton.mp member]
            exact ⟨[c], by simpa using apart, .inl rfl⟩
        | cons first others =>
            rw [rest] at member ih
            rcases List.mem_cons.mp member with rfl | later
            · obtain ⟨body, free, whole⟩ := ih (.head _)
              refine ⟨c :: body, by simp [apart, free], ?_⟩
              exact whole.imp (congrArg (c :: ·)) (congrArg (c :: ·))
            · exact ih (.tail _ later)

/-- **A line is read as it is without the line feed that ends it.** -/
theorem parse_content {input : String} (member : line ∈ said input) :
    Atom.parse (content line) = Atom.parse line := by
  obtain ⟨l, taken, rfl⟩ := List.mem_map.mp member
  obtain ⟨body, free, whole⟩ := exists_body ((List.takeWhile_sublist _).subset taken)
  have kept : ∀ c ∈ body, decide (c ≠ '\n') = true := by
    intro c inside
    exact decide_eq_true fun same => free (same ▸ inside)
  have short : content (String.ofList l) = String.ofList body := by
    rw [content, String.toList_ofList]
    rcases whole with rfl | rfl
    · rw [List.takeWhile_eq_self_iff.mpr kept]
    · rw [List.takeWhile_append_of_pos kept]
      simp
  rw [short]
  rcases whole with rfl | rfl
  · rfl
  · rw [String.ofList_append]
    exact (Atom.parse_append_lineFeed _).symm

/-! ## Exchanges -/

/-- What a line is answered with. -/
inductive Reply where
  | silence
  | objection (e : ParseError)
  | results (as : List Atom)

/-- The written form of a reply: a line for every result, or one for what is wrong. -/
def Reply.text : Reply → String
  | silence => ""
  | objection e => "Error: " ++ e.message ++ "\n"
  | results as => String.join (as.map fun a => "=> " ++ a.render ++ "\n")

/-- The results in a reply. -/
def Reply.atoms : Reply → List Atom
  | silence | objection _ => []
  | results as => as

/-- The reply to a line in a session, and the session after it. -/
inductive Replies : String → Session → Reply → Session → Prop
  | silence {line : String} {s : Session} (blank : trim line.toList = []) :
      Replies line s .silence s
  | objection {line : String} {s : Session} {e : ParseError}
      (unread : Atom.parse line = .error e) : Replies line s (.objection e) s
  | results {line : String} {s s' : Session} {as : List Atom} (spoken : trim line.toList ≠ [])
      (ran : Session.run line s = .ok as s') : Replies line s (.results as) s'

/-- The replies to lines one after the other, each in the session after those before it, and the
session after the last. -/
inductive Exchange : List String → Session → List Reply → Session → Prop
  | nil {s : Session} : Exchange [] s [] s
  | cons {line : String} {lines : List String} {s s' last : Session} {r : Reply} {rs : List Reply}
      (first : Replies line s r s') (others : Exchange lines s' rs last) :
      Exchange (line :: lines) s (r :: rs) last

/-- Every reply behind a prompt, and a last prompt. -/
def transcript (replies : List Reply) : String :=
  String.join (replies.map fun r => prompt ++ r.text) ++ prompt

/-! ## A dialogue is an exchange -/

theorem answer_eq {as : List Atom} (writable : ∀ a ∈ as, a.isWritable = true) :
    answer as = ((Reply.results as).text, none) := by
  induction as with
  | nil => rfl
  | cons a as ih =>
      obtain ⟨first, others⟩ := List.forall_mem_cons.mp writable
      have written : a.written = .ok a.render := (Atom.written_eq_ok_iff a _).mpr ⟨first, rfl⟩
      have rest := ih others
      simp only [answer, written, rest, Reply.text, List.map_cons, String.join_cons]

/-- In a session driven by text every line is answered, and the session holds and answers with
nothing but atoms that came from text. -/
theorem exists_reply (textual : Atom.Textual Good) (holds : s.Holds Good)
    (spoken : trim line.toList ≠ []) :
    ∃ r s', Replies line s r s' ∧ respond line s = (r.text, s') ∧ s'.Holds Good ∧
      ∀ a ∈ r.atoms, Good a := by
  have read := Session.failsAsRead_run textual holds line
  unfold Session.FailsAsRead at read
  cases parsed : Atom.parse line with
  | error e =>
      rw [parsed] at read
      refine ⟨.objection e, s, .objection parsed, ?_, holds, List.forall_mem_nil _⟩
      rw [respond, read]
      rfl
  | ok parsedAtoms =>
      rw [parsed] at read
      obtain ⟨as, s', ran⟩ := read
      have kept := Session.keeps_run textual line s holds
      rw [ran] at kept
      obtain ⟨goods, holds'⟩ := kept
      refine ⟨.results as, s', .results spoken ran, ?_, holds', goods⟩
      rw [respond, ran]
      simp only [answer_eq fun a member => textual.writable a (goods a member)]

/-- **A dialogue writes the replies of an exchange**, and leaves the session that the exchange
leaves. -/
theorem exists_exchange (textual : Atom.Textual Good) (holds : s.Holds Good)
    (ls : List (List Char)) :
    ∃ replies last,
      Exchange ((ls.takeWhile fun l => trim l ≠ "exit".toList).map String.ofList) s replies last ∧
      converse ls s = (transcript replies, last) ∧
      ∀ r ∈ replies, ∀ a ∈ r.atoms, Good a := by
  induction ls generalizing s with
  | nil => exact ⟨[], s, .nil, rfl, List.forall_mem_nil _⟩
  | cons l ls ih =>
      by_cases exit : trim l = "exit".toList
      · refine ⟨[], s, ?_, ?_, List.forall_mem_nil _⟩
        · rw [List.takeWhile_cons_of_neg (by simpa using exit)]
          exact .nil
        · rw [converse, if_pos exit]
          rfl
      · rw [List.takeWhile_cons_of_pos (by simpa using exit), List.map_cons]
        by_cases blank : trim l = []
        · obtain ⟨replies, last, exchange, output, goods⟩ := ih holds
          have silent : Replies (String.ofList l) s .silence s :=
            .silence (by rw [String.toList_ofList, blank])
          refine ⟨.silence :: replies, last, .cons silent exchange, ?_,
            List.forall_mem_cons.mpr ⟨List.forall_mem_nil _, goods⟩⟩
          rw [converse, if_neg exit]
          simp [blank, output, transcript, Reply.text, String.append_assoc]
        · have spoken : trim (String.ofList l).toList ≠ [] := by rwa [String.toList_ofList]
          obtain ⟨r, s', reply, response, holds', here⟩ := exists_reply textual holds spoken
          obtain ⟨replies, last, exchange, output, goods⟩ := ih holds'
          refine ⟨r :: replies, last, .cons reply exchange, ?_,
            List.forall_mem_cons.mpr ⟨here, goods⟩⟩
          rw [converse, if_neg exit]
          simp [blank, response, output, transcript, String.append_assoc]

/-! ## An exchange is a sequence of runs -/

/-- The reply to a line that can be read holds what running the line answers. -/
theorem Replies.run_eq {r : Reply} {as : List Atom} (reply : Replies line s r s')
    (parsed : Atom.parse line = .ok as) : Session.run line s = .ok r.atoms s' := by
  cases reply with
  | silence blank => exact Session.run_of_parse (Atom.parse_of_blank blank) s
  | objection unread => cases unread.symm.trans parsed
  | results spoken ran => exact ran

/-- A line that cannot be read is objected to, and the session stays as it was. -/
theorem Replies.eq_of_unread {r : Reply} {e : ParseError} (reply : Replies line s r s')
    (unread : Atom.parse line = .error e) : r = .objection e ∧ s' = s := by
  cases reply with
  | silence blank => cases (Atom.parse_of_blank blank).symm.trans unread
  | objection unread' =>
      cases unread'.symm.trans unread
      exact ⟨rfl, rfl⟩
  | results spoken ran =>
      have failed : Session.run line s = .error (.malformed e) s :=
        bind_of_error (Session.parsing_of_unread unread s)
      cases failed.symm.trans ran

/-- There is one reply to a line. -/
theorem Replies.deterministic {r r' : Reply} {s'' : Session} (reply : Replies line s r s')
    (other : Replies line s r' s'') : r' = r ∧ s'' = s' := by
  cases reply with
  | silence blank =>
      cases other with
      | silence => exact ⟨rfl, rfl⟩
      | objection unread => cases (Atom.parse_of_blank blank).symm.trans unread
      | results spoken => exact absurd blank spoken
  | objection unread => exact other.eq_of_unread unread
  | results spoken ran =>
      cases other with
      | silence blank => exact absurd blank spoken
      | objection unread =>
          obtain ⟨⟨⟩, -⟩ := (Replies.results spoken ran).eq_of_unread unread
      | results _ ran' =>
          cases ran.symm.trans ran'
          exact ⟨rfl, rfl⟩

/-- There is one exchange for given lines. -/
theorem Exchange.deterministic {ls : List String} {replies replies' : List Reply} {last' : Session}
    (exchange : Exchange ls s replies last) (other : Exchange ls s replies' last') :
    replies' = replies ∧ last' = last := by
  induction exchange generalizing replies' with
  | nil =>
      cases other
      exact ⟨rfl, rfl⟩
  | cons first others ih =>
      cases other with
      | cons first' others' =>
          obtain ⟨rfl, rfl⟩ := first.deterministic first'
          obtain ⟨rfl, rfl⟩ := ih others'
          exact ⟨rfl, rfl⟩

/-- An exchange leaves the session that the lines which can be read leave when they are run. -/
theorem Exchange.performAll_eq {ls : List String} {replies : List Reply}
    (exchange : Exchange ls s replies last) :
    Session.performAll ((ls.filter reads).map .run) s = (replies.flatMap Reply.atoms, last) := by
  induction exchange with
  | nil => rfl
  | @cons line ls s s' last r rs first others ih =>
      rw [List.flatMap_cons]
      cases parsed : Atom.parse line with
      | ok as =>
          have performed : (Session.Request.run line).perform s = .ok r.atoms s' :=
            first.run_eq parsed
          rw [List.filter_cons_of_pos (reads_iff.mpr ⟨as, parsed⟩), List.map_cons,
            Session.performAll, performed]
          simp only [ih]
      | error e =>
          have skipped : ¬ reads line = true := by simp [reads_iff, parsed]
          obtain ⟨rfl, rfl⟩ := first.eq_of_unread parsed
          rw [List.filter_cons_of_neg skipped, ih]
          rfl

/-- Where all lines can be read, the exchange evaluates their atoms one after the other. -/
theorem Exchange.interpretEach_eq {ls : List String} {replies : List Reply}
    (exchange : Exchange ls s replies last) {ass : List (List Atom)}
    (read : List.Forall₂ (fun line as => Atom.parse line = .ok as) ls ass) :
    Session.interpretEach ass.flatten s = .ok (replies.flatMap Reply.atoms) last := by
  induction exchange generalizing ass with
  | nil =>
      cases read
      rfl
  | @cons line ls s s' last r rs first others ih =>
      cases read with
      | @cons _ as _ ass parsed rest =>
          have here : Session.interpretEach as s = .ok r.atoms s' :=
            (Session.run_of_parse parsed s).symm.trans (first.run_eq parsed)
          rw [List.flatten_cons, Session.interpretEach_append, bind_of_ok here,
            bind_of_ok (ih rest)]
          rfl

/-- **A dialogue is a sequence of runs.**  Whatever has been asked of a session in text before, a
dialogue answers the lines in front of the first that says `exit`, and no others.  It writes the
banner and, for every line, a prompt and its reply: nothing for a blank line, the objection to one
that cannot be read, and otherwise every result in its written form; then a last prompt.  The results
and the session are those of running, one after the other, the lines that can be read.  If all of
them can be read, running them as one text answers the same and leaves the same session. -/
theorem dialogue_runs (settings : Settings) (rs : List Session.Request) (input : String) :
    let s := (Session.performAll rs (Session.start settings)).2
    ∃ replies last, Exchange (said input) s replies last ∧
      dialogue input s = (banner ++ transcript replies, last) ∧
      (∀ a ∈ replies.flatMap Reply.atoms, a.written = .ok a.render) ∧
      Session.performAll (((said input).filter reads).map .run) s =
        (replies.flatMap Reply.atoms, last) ∧
      ((∀ line ∈ said input, reads line = true) →
        Session.run ("\n".intercalate ((said input).map content)) s =
          .ok (replies.flatMap Reply.atoms) last) := by
  intro s
  have textual := Atom.textual_spelled
  obtain ⟨-, holds⟩ := Session.performAll_holds textual rs (Session.holds_start settings)
  obtain ⟨replies, last, exchange, output, goods⟩ :=
    exists_exchange textual holds (lines input.toList)
  refine ⟨replies, last, exchange, ?_, ?_, exchange.performAll_eq, ?_⟩
  · rw [dialogue, output]
  · intro a member
    obtain ⟨r, given, inside⟩ := List.mem_flatMap.mp member
    exact (Atom.written_eq_ok_iff a _).mpr ⟨textual.writable a (goods r given a inside), rfl⟩
  · intro all
    have each : ∀ line, ∃ as, line ∈ said input → Atom.parse line = .ok as := by
      intro line
      by_cases member : line ∈ said input
      · obtain ⟨as, parsed⟩ := reads_iff.mp (all line member)
        exact ⟨as, fun _ => parsed⟩
      · exact ⟨[], fun inside => absurd inside member⟩
    choose atoms parsed using each
    have read : List.Forall₂ (fun line as => Atom.parse line = .ok as)
        (said input) ((said input).map atoms) :=
      List.forall₂_map_right_iff.mpr (List.forall₂_same.mpr parsed)
    have contents : List.Forall₂ (fun line as => Atom.parse line = .ok as)
        ((said input).map content) ((said input).map atoms) := by
      refine List.forall₂_map_left_iff.mpr (List.forall₂_map_right_iff.mpr ?_)
      exact List.forall₂_same.mpr fun line member => (parse_content member).trans (parsed line member)
    rw [Session.run_of_parse (Atom.parse_intercalate contents)]
    exact exchange.interpretEach_eq read

/-- A rule, a blank line and a form that the rule contracts, with a comment behind it; what stands
behind `exit` could not be read. -/
theorem dialogue_runs_exit :
    let input := "(= (f $x) $x)\n\n(f a) ; b\n  exit \n(f"
    let s := Session.start {}
    (∀ line ∈ said input, reads line = true) ∧
      ∃ last, dialogue input s =
          ("MeTTa REPL\nType 'exit' to quit\n" ++
            "metta> => ()\n" ++ "metta> " ++ "metta> => a\n" ++ "metta> ", last) ∧
        Session.run "(= (f $x) $x)\n\n(f a) ; b" s = .ok [.empty, .symbol "a"] last := by
  intro input s
  have before : said input = ["(= (f $x) $x)\n", "\n", "(f a) ; b\n"] := by cbv
  have rule : Atom.parse "(= (f $x) $x)\n" = .ok [.expr [.symbol "=",
      .expr [.symbol "f", .var "x" none], .var "x" none]] := by cbv
  have blank : Atom.parse "\n" = .ok [] := by cbv
  have form : Atom.parse "(f a) ; b\n" = .ok [.expr [.symbol "f", .symbol "a"]] := by cbv
  have all : ∀ line ∈ said input, reads line = true := by
    simp only [before, List.forall_mem_cons, reads_iff]
    exact ⟨⟨_, rule⟩, ⟨_, blank⟩, ⟨_, form⟩, List.forall_mem_nil _⟩
  obtain ⟨replies, last, exchange, output, -, -, whole⟩ := dialogue_runs {} [] input
  obtain ⟨last', known⟩ : ∃ last', Exchange (said input) s
      [.results [.empty], .silence, .results [.symbol "a"]] last' := by
    rw [before]
    exact ⟨_, .cons (.results (by decide) ((Session.run_of_parse rule s).trans rfl)) <|
      .cons (.silence (by decide)) <|
      .cons (.results (by decide) ((Session.run_of_parse form _).trans rfl)) .nil⟩
  obtain ⟨rfl, rfl⟩ := known.deterministic exchange
  have joined := whole all
  rw [before] at joined
  exact ⟨all, last, output, joined⟩

end Repl

end Metta
