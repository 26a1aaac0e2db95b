/-
# Metta.Proofs.RoundTrip -- what is written is read back

Reading and writing are inverse on readable atoms and on no others
(`Atom.parse_written`).  Both halves are followed through the walk with a stack.

The walk takes the written form of a readable atom for that atom, whatever delimiter
comes next (`Stack.scan_render`).  An atom that is not readable because of a type
constraint is written with an expression where it has a variable.  What was read cannot
be taken back from the stack (`Stack.Leads`), so the first such variable shows in the
result (`Stack.leads_of_render`).
-/
import Metta.Proofs.Readable

namespace Metta

set_option autoImplicit false

namespace Atom

theorem toList_renderAll_cons (c d : Atom) (cs : List Atom) :
    (renderAll (c :: d :: cs)).toList = c.render.toList ++ ' ' :: (renderAll (d :: cs)).toList := by
  simp [renderAll]

theorem toList_render_expr (cs : List Atom) :
    (Atom.expr cs).render.toList = '(' :: ((renderAll cs).toList ++ [')']) := by
  simp [render]

end Atom

namespace Stack

open Atom (Same)
open Token (Ends IsLeaf)

variable {limit : Nat} {pos : Nat} {cs rest : List Char} {σ σ' : Stack} {top as : List Atom}
  {outer : List Frame}

/-! ## Readable atoms are read back -/

theorem scan_blank : scan limit pos (' ' :: cs) σ = scan limit (pos + 1) cs σ := by
  rw [scan_cons]
  rfl

theorem scan_opening (free : outer.length < limit) :
    scan limit pos ('(' :: cs) ⟨top, outer⟩ =
      scan limit (pos + 1) cs ⟨[], ⟨pos, top⟩ :: outer⟩ := by
  have room : ¬ (limit : Int) ≤ outer.length := by omega
  have opens : Token.lexemeAt '(' cs = (some .opening, 0) := rfl
  rw [scan_cons, opens]
  simp only [take, room, if_false, ok_bind]
  rfl

theorem scan_closing {f : Frame} :
    scan limit pos (')' :: cs) ⟨top, f :: outer⟩ =
      scan limit (pos + 1) cs ⟨f.before ++ [.expr top], outer⟩ := by
  rw [scan_cons]
  rfl

theorem scan_leaf {text : List Char} {a : Atom} (leaf : IsLeaf text a) (ends : Ends rest) :
    scan limit pos (text ++ rest) σ = scan limit (pos + text.length) rest (σ.push a) := by
  obtain ⟨c, cs, rfl, read⟩ := leaf
  rw [List.cons_append, scan_cons, read rest ends]
  simp only [take, ok_bind, List.drop_left, List.length_cons]
  congr 1
  omega

/-- Children are read one after the other, if each of them is. -/
theorem scan_renderAll (pos : Nat) (top : List Atom) (outer : List Frame) {children : List Atom}
    (each : ∀ c ∈ children, ∀ (pos : Nat) (top : List Atom) (rest : List Char), Ends rest →
      scan limit pos (c.render.toList ++ rest) ⟨top, outer⟩ =
        scan limit (pos + c.render.toList.length) rest ⟨top ++ [c], outer⟩)
    (ends : Ends rest) :
    scan limit pos ((Atom.renderAll children).toList ++ rest) ⟨top, outer⟩ =
      scan limit (pos + (Atom.renderAll children).toList.length) rest ⟨top ++ children, outer⟩ := by
  induction children generalizing pos top with
  | nil => simp [Atom.renderAll]
  | cons c others ih =>
      obtain ⟨first, each⟩ := List.forall_mem_cons.mp each
      cases others with
      | nil => exact first pos top rest ends
      | cons d others =>
          have blank : Ends (' ' :: ((Atom.renderAll (d :: others)).toList ++ rest)) :=
            Token.ends_cons (by decide)
          rw [Atom.toList_renderAll_cons, List.append_assoc, List.cons_append,
            first pos top _ blank, scan_blank, ih _ _ each, List.append_assoc]
          simp only [List.length_append, List.length_cons, List.singleton_append]
          congr 1
          omega

/-- **The walk takes the written form of a readable atom for that atom.** -/
theorem scan_render {a : Atom} (fits : a.Fits limit outer.length) (ends : Ends rest) :
    scan limit pos (a.render.toList ++ rest) ⟨top, outer⟩ =
      scan limit (pos + a.render.toList.length) rest ⟨top ++ [a], outer⟩ := by
  induction a generalizing pos top outer rest with
  | expr children ih =>
      obtain ⟨free, fits⟩ := Atom.fits_expr.mp fits
      have closes : Ends (')' :: rest) := Token.ends_cons (by decide)
      have inside := scan_renderAll (pos + 1) [] (⟨pos, top⟩ :: outer)
        (fun c member pos top rest => ih c member (fits c member)) closes
      rw [Atom.toList_render_expr, List.cons_append, List.append_assoc, scan_opening free,
        List.singleton_append, inside, scan_closing]
      simp only [List.length_append, List.length_cons, List.length_nil, List.nil_append]
      congr 1
      omega
  | _ =>
      have readable := (Atom.fits_leaf (by simp [Atom.kind])).mp fits
      exact scan_leaf (Token.isLeaf_render readable.1) ends

/-! ## Nothing else is read back -/

/-- The atoms that may come of a stack: what stands on it stays, and parentheses are closed. -/
def Leads : List Atom → List Frame → List Atom → Prop
  | top, [], as => ∃ more, as = top ++ more
  | top, f :: fs, as => ∃ more, Leads (f.before ++ [.expr (top ++ more)]) fs as

theorem leads_of_append {more : List Atom} (leads : Leads (top ++ more) outer as) :
    Leads top outer as := by
  cases outer with
  | nil =>
      obtain ⟨rest, rfl⟩ := leads
      exact ⟨more ++ rest, List.append_assoc _ _ _⟩
  | cons f fs =>
      obtain ⟨rest, leads⟩ := leads
      rw [List.append_assoc] at leads
      exact ⟨more ++ rest, leads⟩

theorem leads_of_take {limit : Int} {start : Nat} {l : Lexeme}
    (taken : σ.take limit start l = .ok σ') (leads : Leads σ'.top σ'.outer as) :
    Leads σ.top σ.outer as := by
  unfold take at taken
  split at taken
  · cases taken
    exact leads_of_append leads
  · cases taken
  · split at taken <;> cases taken
    obtain ⟨more, leads⟩ := leads
    exact leads_of_append leads
  · split at taken <;> cases taken
    rename_i f fs opened
    rw [opened]
    exact ⟨[], by simpa using leads⟩

theorem leads_of_scan {limit : Int} (ok : scan limit pos cs σ = .ok as) :
    Leads σ.top σ.outer as := by
  have keeps : ∀ t ∈ Token.scan 0 pos cs, ∀ σ₁ σ₂ : Stack,
      σ₁.take limit t.start t.lexeme = .ok σ₂ →
      (Leads σ₁.top σ₁.outer as → Leads σ.top σ.outer as) →
      Leads σ₂.top σ₂.outer as → Leads σ.top σ.outer as :=
    fun t _ σ₁ σ₂ taken below leads => below (leads_of_take taken leads)
  rw [scan_eq_run] at ok
  exact run_ok keeps id ok ⟨[], (List.append_nil as).symm⟩

/-- Whatever an opening parenthesis leads to, an expression is read there. -/
theorem leads_of_opening (ok : scan limit pos ('(' :: cs) ⟨top, outer⟩ = .ok as) :
    ∃ children, Leads (top ++ [.expr children]) outer as := by
  have opens : Token.lexemeAt '(' cs = (some .opening, 0) := rfl
  rw [scan_cons, opens] at ok
  simp only at ok
  obtain ⟨σ', taken, ok⟩ := bind_eq_ok.mp ok
  simp only [take] at taken
  split at taken <;> cases taken
  exact leads_of_scan ok

/-- The first child that is not legible shows in what is read. -/
theorem leads_of_renderAll (outer : List Frame) {children : List Atom}
    (each : ∀ c ∈ children, ∀ (pos : Nat) (top : List Atom) (rest : List Char), ¬ c.Legible →
      scan limit pos (c.render.toList ++ rest) ⟨top, outer⟩ = .ok as →
      ∃ b, ¬ Same b c ∧ Leads (top ++ [b]) outer as)
    (room : ∀ c ∈ children, outer.length + c.nesting ≤ limit)
    (illegible : ¬ ∀ c ∈ children, c.Legible)
    (ok : scan limit pos ((Atom.renderAll children).toList ++ rest) ⟨top, outer⟩ = .ok as) :
    ∃ read, (∀ more, ¬ List.Forall₂ Same (read ++ more) children) ∧
      Leads (top ++ read) outer as := by
  induction children generalizing pos top with
  | nil => exact absurd (List.forall_mem_nil _) illegible
  | cons c others ih =>
      obtain ⟨first, each⟩ := List.forall_mem_cons.mp each
      obtain ⟨here, room⟩ := List.forall_mem_cons.mp room
      by_cases legible : c.Legible
      · have illegible : ¬ ∀ d ∈ others, d.Legible :=
          fun all => illegible (List.forall_mem_cons.mpr ⟨legible, all⟩)
        cases others with
        | nil => exact absurd (List.forall_mem_nil _) illegible
        | cons d others =>
            have blank : Ends (' ' :: ((Atom.renderAll (d :: others)).toList ++ rest)) :=
              Token.ends_cons (by decide)
            rw [Atom.toList_renderAll_cons, List.append_assoc, List.cons_append,
              scan_render ⟨legible, here⟩ blank, scan_blank] at ok
            obtain ⟨read, differ, leads⟩ := ih each room illegible ok
            refine ⟨c :: read, fun more same => ?_, by simpa using leads⟩
            cases same with
            | cons _ tail => exact differ more tail
      · have ⟨rest', text⟩ : ∃ rest', (Atom.renderAll (c :: others)).toList ++ rest =
            c.render.toList ++ rest' := by
          cases others with
          | nil => exact ⟨rest, rfl⟩
          | cons d others =>
              rw [Atom.toList_renderAll_cons, List.append_assoc]
              exact ⟨_, rfl⟩
        rw [text] at ok
        obtain ⟨b, differs, leads⟩ := first pos top rest' legible ok
        refine ⟨[b], fun more same => ?_, leads⟩
        cases same with
        | cons head _ => exact differs head

/-- Where an atom is illegible because of its type constraints, another one is read. -/
theorem leads_of_render {a : Atom} (lax : a.Lax) (room : outer.length + a.nesting ≤ limit)
    (illegible : ¬ a.Legible)
    (ok : scan limit pos (a.render.toList ++ rest) ⟨top, outer⟩ = .ok as) :
    ∃ b, ¬ Same b a ∧ Leads (top ++ [b]) outer as := by
  induction a generalizing pos top outer rest with
  | expr children ih =>
      rw [Atom.leafwise_lax] at lax
      rw [Atom.leafwise_legible] at illegible
      obtain ⟨free, room⟩ := Atom.room_expr.mp room
      rw [Atom.toList_render_expr, List.cons_append, List.append_assoc, scan_opening free] at ok
      obtain ⟨read, differ, more, leads⟩ := leads_of_renderAll (⟨pos, top⟩ :: outer)
        (fun c member _ _ _ => ih c member (lax c member) (room c member)) room illegible ok
      refine ⟨_, fun same => ?_, leads⟩
      exact differ more (Atom.same_expr.mp same)
  | var name constraint =>
      have leaf : (Atom.var name constraint).kind ≠ .expression := by simp [Atom.kind]
      cases constraint with
      | none =>
          rw [Atom.legible_leaf leaf] at illegible
          rw [Atom.lax_leaf leaf] at lax
          simp [Atom.isConstrained, illegible] at lax
      | some type =>
          have opens : (Atom.var name (some type)).render.toList =
              '(' :: (": $" ++ name ++ " " ++ type.render ++ ")").toList := by
            simp [Atom.render]
          rw [opens] at ok
          obtain ⟨children, leads⟩ := leads_of_opening ok
          exact ⟨.expr children, by simp [Same, Atom.same], leads⟩
  | _ =>
      rw [Atom.legible_leaf (by simp [Atom.kind])] at illegible
      rw [Atom.lax_leaf (by simp [Atom.kind])] at lax
      simp [Atom.isConstrained, illegible] at lax

end Stack

namespace Atom

/-- Only readable atoms are read. -/
theorem readable_of_parse {text : String} {as : List Atom} (ok : parse text = .ok as) :
    ∀ a ∈ as, a.Readable := by
  rw [parse, parseWithin_eq_read] at ok
  exact fun a member => readable_iff_fits.mpr (Stack.fits_of_scan ok a member)

theorem parse_render (a : Atom) :
    parse a.render = Stack.scan (200 : Nat) 0 (a.render.toList ++ []) ⟨[], []⟩ := by
  rw [parse, parseWithin_eq_read, List.append_nil]
  rfl

theorem Legible.written_eq {a : Atom} (legible : a.Legible) : a.written = .ok a.render :=
  (written_eq_ok_iff a _).mpr ⟨isWritable_of_legible legible, rfl⟩

/-- From the written form of a readable atom that atom is read. -/
theorem Readable.parse_render_eq {a : Atom} (readable : a.Readable) :
    parse a.render = .ok [a] := by
  have fits := readable_iff_fits.mp readable
  rw [parse_render, Stack.scan_render fits Token.ends_nil, Stack.scan]
  rfl

/-- **Reading and writing are inverse on readable atoms, and on no others.**  Every atom that is
read from some text is readable; every readable atom has a written form, and from it exactly that
atom is read; and an atom from whose written form an equal one is read is readable, unless its
literals are oddly tagged or too long. -/
theorem parse_written :
    (∀ text as, parse text = .ok as → ∀ a ∈ as, a.Readable) ∧
    (∀ a : Atom, a.Readable → ∃ text, a.written = .ok text ∧ parse text = .ok [a]) ∧
    (∀ a : Atom, (a.Each fun s => s.isPlainLeaf = true) → ∀ text as, a.written = .ok text →
      parse text = .ok as → sameAll as [a] = true → a.Readable) := by
  refine ⟨fun _ _ => readable_of_parse, fun a readable => ?_,
    fun a plain text as written ok equal => ?_⟩
  · exact ⟨a.render, readable.1.written_eq, readable.parse_render_eq⟩
  · obtain ⟨-, rfl⟩ := (written_eq_ok_iff a text).mp written
    rw [sameAll_iff] at equal
    cases equal with
    | @cons b _ _ _ equal none =>
        cases none
        have readable := readable_of_parse ok b (.head _)
        refine ⟨?_, equal.nesting_eq ▸ readable.2⟩
        by_contra illegible
        have room : ([] : List Frame).length + a.nesting ≤ 200 :=
          equal.nesting_eq ▸ (readable_iff_fits.mp readable).2
        rw [parse_render] at ok
        obtain ⟨c, differs, more, same⟩ := Stack.leads_of_render
          (lax_of_same equal readable.1 plain) room illegible ok
        obtain ⟨rfl, -⟩ := List.cons.inj same
        exact differs equal

/-- One leaf of every kind comes back, minus zero with its sign. -/
theorem parse_written_leaves :
    let a : Atom := .expr [.symbol "-", .var "x" none, .ofScalar (.int (-1)),
      .ofScalar (.float (-0.0)), .ofScalar (.text "\"\n"), .expr []]
    a.Readable ∧ ∃ text, a.written = .ok text ∧ parse text = .ok [a] := by
  intro a
  have readable : a.Readable := by decide
  exact ⟨readable, parse_written.2.1 a readable⟩

/-- A minus sign is a symbol unless a digit follows it, and a parenthesis is none. -/
example :
    (Atom.symbol "-").Readable ∧ ¬ (Atom.symbol "-1").Readable ∧
      ¬ (Atom.symbol "()").Readable := by decide

end Atom

end Metta
