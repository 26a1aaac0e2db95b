/-
# Metta.Bindings -- what variables stand for

Bindings map variable names to atoms and remember the order in which the names were
bound.  A name is bound at most once: `bind` a second time succeeds only for an equal
atom, and then the first one stays.

The view of bindings is `get?`; what `bind` and `set` do to it is said by
`bind_of_get?_none`, `bind_of_get?_some` and `get?_set`.  Application (`apply`) replaces
the bound variables of an atom all at once; the atoms put in are not searched for
variables again.
-/
import Metta.Render

namespace Metta

set_option autoImplicit false

namespace Atom

mutual

/-- Puts `σ x` in the place of every variable `x` for which it is given, at once. -/
def substitute (σ : String → Option Atom) : Atom → Atom
  | .var name constraint => (σ name).getD (.var name constraint)
  | .expr cs => .expr (substituteAll σ cs)
  | .symbol name => .symbol name
  | .literal l => .literal l
  | .empty => .empty
  | .error message source => .error message source

def substituteAll (σ : String → Option Atom) : List Atom → List Atom
  | [] => []
  | c :: cs => substitute σ c :: substituteAll σ cs

end

theorem substituteAll_eq_map (σ : String → Option Atom) (cs : List Atom) :
    substituteAll σ cs = cs.map (substitute σ) := by
  induction cs with
  | nil => rfl
  | cons c cs ih => simp [substituteAll, ih]

end Atom

structure Bindings where
  entries : List (String × Atom)
  nodup : (entries.map Prod.fst).Nodup

namespace Bindings

def empty : Bindings := ⟨[], List.nodup_nil⟩

instance : Inhabited Bindings := ⟨empty⟩

/-- The atom a name is bound to. -/
def get? (b : Bindings) (name : String) : Option Atom := b.entries.lookup name

def has (b : Bindings) (name : String) : Bool := (b.get? name).isSome

def names (b : Bindings) : List String := b.entries.map Prod.fst

def size (b : Bindings) : Nat := b.entries.length

theorem notMem_names_of_get?_eq_none {b : Bindings} {name : String} (h : b.get? name = none) :
    name ∉ b.names := by
  simp only [get?, List.lookup_eq_none_iff] at h
  simp only [names, List.mem_map, not_exists, not_and]
  rintro e he rfl
  simpa using h e he

theorem nodup_extend (b : Bindings) {name : String} (value : Atom) (free : name ∉ b.names) :
    ((b.entries ++ [(name, value)]).map Prod.fst).Nodup := by
  rw [List.map_append]
  refine List.nodup_append.mpr ⟨b.nodup, by simp, ?_⟩
  intro n hn m hm
  simp only [List.map_cons, List.map_nil, List.mem_singleton] at hm
  subst hm
  rintro rfl
  exact free hn

/-- Binds a name that is free; a bound one must be bound to an equal atom already. -/
def bind (b : Bindings) (name : String) (value : Atom) : Option Bindings :=
  match h : b.get? name with
  | some old => if old.same value then some b else none
  | none => some {
      entries := b.entries ++ [(name, value)]
      nodup := nodup_extend b value (notMem_names_of_get?_eq_none h) }

/-- Binds a name, whatever it was bound to; a bound name keeps its place. -/
def set (b : Bindings) (name : String) (value : Atom) : Bindings :=
  match h : b.get? name with
  | some _ => {
      entries := b.entries.map fun e => (e.1, if e.1 = name then value else e.2)
      nodup := by simpa [Function.comp_def] using b.nodup }
  | none => {
      entries := b.entries ++ [(name, value)]
      nodup := nodup_extend b value (notMem_names_of_get?_eq_none h) }

/-! ## The view -/

/-- A free name is bound behind all others. -/
theorem bind_of_get?_none {b : Bindings} {name : String} (h : b.get? name = none) (value : Atom) :
    ∃ b', b.bind name value = some b' ∧ b'.entries = b.entries ++ [(name, value)] := by
  unfold bind
  split
  · rename_i old found
    simp [h] at found
  · exact ⟨_, rfl, rfl⟩

/-- A bound name stays as it is. -/
theorem bind_of_get?_some {b : Bindings} {name : String} {old : Atom} (h : b.get? name = some old)
    (value : Atom) : b.bind name value = if old.same value then some b else none := by
  unfold bind
  split
  · rename_i old' found
    rw [h, Option.some.injEq] at found
    rw [found]
  · rename_i found
    simp [h] at found

theorem lookup_map_replace (entries : List (String × Atom)) (name x : String) (value : Atom) :
    (entries.map fun e => (e.1, if e.1 = name then value else e.2)).lookup x =
      (entries.lookup x).map fun old => if x = name then value else old := by
  induction entries with
  | nil => rfl
  | cons e es ih =>
    obtain ⟨n, old⟩ := e
    simp only [List.map_cons, List.lookup_cons]
    by_cases h : x = n
    · subst h
      simp
    · have : (x == n) = false := by simpa using h
      simp [this, ih]

/-- After `set` the name is bound to the atom, and every other name to what it was. -/
theorem get?_set (b : Bindings) (name x : String) (value : Atom) :
    (b.set name value).get? x = if x = name then some value else b.get? x := by
  unfold set
  split
  · rename_i old found
    simp only [get?, lookup_map_replace]
    by_cases h : x = name
    · subst h
      simp only [get?] at found
      simp [found]
    · simp [h]
  · rename_i found
    simp only [get?, List.lookup_append]
    by_cases h : x = name
    · subst h
      simp only [get?] at found
      simp [found]
    · have : (x == name) = false := by simpa using h
      simp [h, List.lookup_cons, this]

/-! ## Several names -/

/-- Of a name that comes twice the first place and the last atom count. -/
def ofList (entries : List (String × Atom)) : Bindings :=
  entries.foldl (fun b e => b.set e.1 e.2) empty

/-- Both sets of names together, if the two agree on the names they share. -/
def merge (b other : Bindings) : Option Bindings :=
  other.entries.foldlM (fun merged e => merged.bind e.1 e.2) b

/-- Puts the bound atoms in the place of their variables. -/
def apply (b : Bindings) (a : Atom) : Atom := a.substitute b.get?

/-- The same names bound to equal atoms, in whatever order. -/
def same (b other : Bindings) : Bool :=
  b.size == other.size && b.entries.all fun e =>
    match other.get? e.1 with
    | some value => e.2.same value
    | none => false

/-- The atoms in the order of binding. -/
def atoms (b : Bindings) : List Atom := b.entries.map Prod.snd

/-- The names with their atoms in the order of binding. -/
def render (b : Bindings) : String :=
  ", ".intercalate (b.entries.map fun e => "$" ++ e.1 ++ " = " ++ e.2.render)

/-- The names with their atoms, where these have a written form. -/
def written (b : Bindings) : Except Unwritable String := Atom.writing b.atoms b.render

def display (b : Bindings) : Except Unwritable String :=
  Atom.writing b.atoms ("Bindings(\x7b" ++ b.render ++ "\x7d)")

end Bindings

end Metta
