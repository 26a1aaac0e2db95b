/-
# Metta.Proofs.Lexemes -- leaves that can be read

Which leaves source text has is told by looking at them (`Atom.isReadableLeaf`): names
must be free of delimiters and begin as they should, numbers must be finite and not too
long, and tags must be those that scalars have by themselves.  Nothing else is ever read
(`Token.isReadableLeaf_of_lexemeAt`).

Conversely the written form of such a leaf is read as one token, and as that very leaf,
if it is followed by a delimiter or by nothing (`Token.isLeaf_render`).
-/
import Metta.Proofs.Digits
import Metta.Render
import Metta.Token

namespace Metta

open Metta.Text Metta.Number

set_option autoImplicit false

/-! ## Readable leaves -/

namespace Token

/-- At least one character, and none at which a name ends. -/
def isName (cs : List Char) : Bool := !cs.isEmpty && cs.all fun c => !isDelimiter c

/-- Names that begin like a variable or like a number are no symbols. -/
def beginsSymbol : List Char → Bool
  | '-' :: c :: _ => !isDigit c
  | c :: _ => c != '$' && !isDigit c
  | [] => false

end Token

/-- A scalar that source text has a form for, under the tag that is its own. -/
def Literal.isReadable (l : Literal) : Bool :=
  l.tag == l.value.tag &&
    match l.value with
    | .int n => Decimal.digitCount n.natAbs ≤ Flaw.maxIntegerDigits
    | .float x => x.isFinite
    | .text _ => true
    | .truth _ => false

/-- A leaf that source text has a form for. -/
def Atom.isReadableLeaf : Atom → Bool
  | .symbol name => Token.isName name.toList && Token.beginsSymbol name.toList
  | .var name none => Token.isName name.toList
  | .literal l => l.isReadable
  | .var _ (some _) | .expr _ | .empty | .error _ _ => false

/-! ## Characters -/

theorem mem_of_inRanges {ranges : List (Nat × Nat)} {n : Nat} (inside : inRanges ranges n = true) :
    n ∈ ranges.flatMap fun r => List.range' r.1 (r.2 + 1 - r.1) := by
  simp only [inRanges, List.any_eq_true, Bool.and_eq_true, decide_eq_true_eq] at inside
  obtain ⟨r, member, least, greatest⟩ := inside
  refine List.mem_flatMap.mpr ⟨r, member, List.mem_range'_1.mpr ?_⟩
  omega

theorem isDigit_of_isBlank {c : Char} (blank : isBlank c = true) : Text.isDigit c = false := by
  have all : ∀ n ∈ blankRanges.flatMap fun r => List.range' r.1 (r.2 + 1 - r.1),
      Text.isDigit (Char.ofNat n) = false := by decide
  have := all _ (mem_of_inRanges blank)
  rwa [Char.ofNat_toNat] at this

theorem lt_ten_of_decimalValue? {c : Char} {d : Nat} (value : decimalValue? c = some d) :
    d < 10 := by
  obtain ⟨z, -, here⟩ := List.exists_of_findSome?_eq_some value
  simp only [Option.ite_none_right_eq_some, Bool.and_eq_true, decide_eq_true_eq,
    Option.some.injEq] at here
  omega

/-! ## What is read -/

namespace Numeral

/-- As many decimals give a number of at most as many digits. -/
theorem lt_pow_of_value? {ds : List Char} {n : Nat} (value : value? ds = some n) :
    leadingDecimals ds = ds ∧ n < 10 ^ ds.length := by
  suffices ∀ init, ds.foldlM (fun n c => (decimalValue? c).map (10 * n + ·)) init = some n →
      leadingDecimals ds = ds ∧ n < 10 ^ ds.length * (init + 1) by
    simpa using this 0 value
  clear value
  induction ds with
  | nil =>
      rintro init ⟨⟩
      simp [leadingDecimals]
  | cons c ds ih =>
      intro init value
      rw [List.foldlM_cons] at value
      cases digit : decimalValue? c with
      | none => simp [digit] at value
      | some d =>
          obtain ⟨decimals, small⟩ := ih (10 * init + d) (by simpa [digit] using value)
          have below := lt_ten_of_decimalValue? digit
          refine ⟨?_, ?_⟩
          · simpa [leadingDecimals, digit] using decimals
          · calc n < 10 ^ ds.length * (10 * init + d + 1) := small
              _ ≤ 10 ^ ds.length * (10 * (init + 1)) := Nat.mul_le_mul_left _ (by omega)
              _ = 10 ^ (c :: ds).length * (init + 1) := by
                rw [List.length_cons, Nat.pow_succ, Nat.mul_assoc]

theorem isReadable_of_readInteger {negative : Bool} {literal digits : List Char} {l : Literal}
    (read : readInteger negative literal digits = .ok l) : l.isReadable = true := by
  unfold readInteger at read
  extract_lets count at read
  split at read
  · cases read
  · rename_i short
    split at read <;> cases read
    rename_i n value
    obtain ⟨decimals, small⟩ := lt_pow_of_value? value
    have fits : n < 10 ^ Flaw.maxIntegerDigits := by
      refine small.trans_le (Nat.pow_le_pow_right (by decide) ?_)
      simpa [count, decimals] using short
    have digits := (Nat.length_toDigits_le_iff (b := 10) (by decide) (by decide)).mpr fits
    have magnitude : (if negative = true then -(n : Int) else n).natAbs = n := by
      split <;> simp
    simpa [Literal.isReadable, Literal.ofScalar, Decimal.digitCount, magnitude] using digits

theorem isReadable_of_readFloat {negative : Bool} {literal whole fraction : List Char} {l : Literal}
    (read : readFloat negative literal whole fraction = .ok l) : l.isReadable = true := by
  unfold readFloat at read
  split at read
  · cases read
  · split at read <;> cases read
    rename_i rounded
    simpa [Literal.isReadable, Literal.ofScalar] using isFinite_of_nearestSigned? rounded

theorem isReadable_of_read {literal : List Char} {l : Literal} (ok : read literal = .ok l) :
    l.isReadable = true := by
  unfold read at ok
  extract_lets negative body at ok
  split at ok
  · exact isReadable_of_readFloat ok
  · exact isReadable_of_readInteger ok

end Numeral

namespace Token

variable {c : Char} {cs rest : List Char} {a : Atom} {n : Nat}

theorem isDelimiter_of_mem_name (member : c ∈ name cs) : isDelimiter c = false := by
  simpa using List.mem_takeWhile_imp member

theorem isName_name (nonempty : name cs ≠ []) : isName (name cs) = true := by
  simp only [isName, Bool.and_eq_true, Bool.not_eq_true', List.all_eq_true]
  exact ⟨List.isEmpty_eq_false_iff.mpr nonempty, fun c member => isDelimiter_of_mem_name member⟩

theorem isReadableLeaf_of_symbolLexeme (symbol : isDelimiter c = false) (plain : c ≠ '$')
    (noNumber : Numeral.starts c cs = false) (leaf : (symbolLexeme c cs).1 = .leaf a) :
    a.isReadableLeaf = true := by
  cases leaf
  have noDigit : isDigit c = false := by
    simp only [Numeral.starts, Bool.or_eq_false_iff] at noNumber
    exact noNumber.1
  have begins : beginsSymbol (c :: name cs) = true := by
    unfold beginsSymbol
    split
    · rename_i d ds same
      obtain ⟨rfl, tail⟩ := List.cons.inj same
      -- what is second in the name is second in the text
      have second : cs.head? = some d := by
        have := List.head?_takeWhile (p := fun c => !isDelimiter c) (l := cs)
        rw [show cs.takeWhile _ = d :: ds from tail] at this
        exact (Option.filter_eq_some_iff.mp this.symm).1
      simpa [Numeral.starts, noDigit, second] using noNumber
    · rename_i same
      obtain ⟨rfl, -⟩ := List.cons.inj same
      simp [plain, noDigit]
    · rename_i none
      cases none
  have named : isName (c :: name cs) = true := by
    simp only [isName, List.isEmpty_cons, Bool.not_false, Bool.true_and, List.all_cons, symbol]
    exact List.all_takeWhile
  simp [Atom.isReadableLeaf, named, begins]

/-- Only readable leaves are read. -/
theorem isReadableLeaf_of_lexemeAt (leaf : lexemeAt c cs = (some (.leaf a), n)) :
    a.isReadableLeaf = true := by
  unfold lexemeAt at leaf
  split at leaf
  · cases leaf
  rename_i notBlank
  split at leaf
  · cases leaf
  rename_i noComment
  split at leaf
  · cases leaf
  rename_i notOpening
  split at leaf
  · cases leaf
  rename_i notClosing
  simp only [Prod.mk.injEq, Option.some.injEq] at leaf
  obtain ⟨leaf, -⟩ := leaf
  split at leaf
  · unfold stringLexeme at leaf
    split at leaf <;> cases leaf
    rfl
  rename_i noString
  split at leaf
  · unfold variableLexeme at leaf
    split at leaf <;> cases leaf
    rename_i nonempty
    simpa [Atom.isReadableLeaf] using isName_name nonempty
  rename_i noVariable
  split at leaf
  · simp only [numberLexeme] at leaf
    split at leaf
    · cases leaf
    · split at leaf <;> cases leaf
      rename_i read
      exact Numeral.isReadable_of_read read
  · rename_i noNumber
    have free : isDelimiter c = false := by
      simp [isDelimiter, notBlank, noComment, notOpening, notClosing, noString]
    exact isReadableLeaf_of_symbolLexeme free noVariable (by simpa using noNumber) leaf

/-! ## What is written -/

/-- Nothing follows, or a character at which names and numbers end. -/
def Ends (rest : List Char) : Prop := ∀ c ∈ rest.head?, isDelimiter c = true

theorem ends_nil : Ends [] := by simp [Ends]

theorem ends_cons (delimiter : isDelimiter c = true) : Ends (c :: rest) := by simpa [Ends]

/-- The text is read as the leaf, whatever delimiter ends it. -/
def IsLeaf (text : List Char) (a : Atom) : Prop :=
  ∃ c cs, text = c :: cs ∧
    ∀ rest, Ends rest → lexemeAt c (cs ++ rest) = (some (.leaf a), cs.length)

/-- No number goes on with a delimiter. -/
theorem isDigit_of_isDelimiter (delimiter : isDelimiter c = true) : isDigit c = false := by
  simp only [isDelimiter, Bool.or_eq_true, beq_iff_eq] at delimiter
  obtain (((blank | rfl) | rfl) | rfl) | rfl := delimiter
  · exact isDigit_of_isBlank blank
  all_goals decide

theorem isDelimiter_of_isDigit (digit : isDigit c = true) : isDelimiter c = false := by
  by_contra delimiter
  have := isDigit_of_isDelimiter (by simpa using delimiter)
  simp [digit] at this

theorem name_append (named : cs.all (fun c => !isDelimiter c) = true) (ends : Ends rest) :
    name (cs ++ rest) = cs := by
  have none : rest.takeWhile (fun c => !isDelimiter c) = [] := by
    cases rest with
    | nil => rfl
    | cons c rest =>
        have := ends c rfl
        simp [this]
  rw [name, List.takeWhile_append_of_pos (List.all_eq_true.mp named), none, List.append_nil]

/-- What is neither blank nor one of the marks begins a symbol or a number. -/
theorem lexemeAt_of_plain (free : isDelimiter c = false) (plain : c ≠ '$') :
    lexemeAt c cs =
      let (l, n) := if Numeral.starts c cs then numberLexeme c cs else symbolLexeme c cs
      (some l, n) := by
  simp only [isDelimiter, Bool.or_eq_false_iff, beq_eq_false_iff_ne] at free
  obtain ⟨⟨⟨⟨notBlank, notOpening⟩, notClosing⟩, noQuote⟩, noComment⟩ := free
  simp [lexemeAt, notBlank, notOpening, notClosing, noQuote, noComment, plain]

/-- A symbol is not taken for a number because of what comes after it. -/
theorem starts_of_beginsSymbol (begins : beginsSymbol (c :: cs) = true) (ends : Ends rest) :
    c ≠ '$' ∧ Numeral.starts c (cs ++ rest) = false := by
  by_cases minus : c = '-'
  · subst minus
    refine ⟨by decide, ?_⟩
    have noDigit : isDigit '-' = false := by decide
    cases cs with
    | cons d ds =>
        have second : isDigit d = false := by simpa [beginsSymbol] using begins
        simp [Numeral.starts, noDigit, second]
    | nil =>
        cases rest with
        | nil => simp [Numeral.starts, noDigit]
        | cons d ds => simp [Numeral.starts, noDigit, isDigit_of_isDelimiter (ends d rfl)]
  · have first : c ≠ '$' ∧ isDigit c = false := by simpa [beginsSymbol, minus] using begins
    exact ⟨first.1, by simp [Numeral.starts, first.2, minus]⟩

theorem isLeaf_symbol {text : String} (readable : Atom.isReadableLeaf (.symbol text) = true) :
    IsLeaf text.toList (.symbol text) := by
  simp only [Atom.isReadableLeaf, Bool.and_eq_true] at readable
  obtain ⟨named, begins⟩ := readable
  cases chars : text.toList with
  | nil => simp [chars, isName] at named
  | cons c cs =>
      simp only [chars, isName, List.isEmpty_cons, Bool.not_false, Bool.true_and, List.all_cons,
        Bool.and_eq_true, Bool.not_eq_true'] at named
      obtain ⟨free, named⟩ := named
      refine ⟨c, cs, rfl, fun rest ends => ?_⟩
      rw [chars] at begins
      obtain ⟨plain, noNumber⟩ := starts_of_beginsSymbol begins ends
      rw [lexemeAt_of_plain free plain]
      simp [noNumber, symbolLexeme, name_append named ends, ← chars]

theorem isLeaf_var {text : String} (readable : Atom.isReadableLeaf (.var text none) = true) :
    IsLeaf ('$' :: text.toList) (.var text none) := by
  simp only [Atom.isReadableLeaf, isName, Bool.and_eq_true, Bool.not_eq_true',
    List.isEmpty_eq_false_iff] at readable
  obtain ⟨nonempty, named⟩ := readable
  refine ⟨'$', text.toList, rfl, fun rest ends => ?_⟩
  have marked : isBlank '$' = false := by decide
  simp [lexemeAt, marked, variableLexeme, name_append named ends]

theorem isLeaf_text (text : String) :
    IsLeaf (literalForm text).toList (.ofScalar (.text text)) := by
  refine ⟨'"', escape text.toList ++ ['"'], by simp [literalForm], fun rest ends => ?_⟩
  have marked : isBlank '"' = false := by decide
  simp [lexemeAt, marked, stringLexeme, stringBody_escape]

/-! ## Numbers -/

end Token

namespace Numeral

open Token (Ends IsLeaf)

variable {ds rest : List Char} {l : Literal}

theorem run_figures (figures : Figures ds) (pointAllowed : Bool) (cs : List Char) :
    run pointAllowed (ds ++ cs) = ds ++ run pointAllowed cs := by
  induction ds with
  | nil => rfl
  | cons d ds ih =>
      obtain ⟨first, others⟩ := List.forall_mem_cons.mp figures
      simp [run, isDigit_of_figure first, ih others]

theorem run_ends (ends : Ends rest) (pointAllowed : Bool) : run pointAllowed rest = [] := by
  cases rest with
  | nil => rfl
  | cons c rest =>
      have delimiter := ends c rfl
      have noPoint : c ≠ '.' := by
        rintro rfl
        cases delimiter
      simp [run, Token.isDigit_of_isDelimiter delimiter, noPoint]

/-- A numeral is read as what it is the text of. -/
theorem isLeaf_of_starts {c : Char} {cs : List Char} (free : Token.isDelimiter c = false)
    (plain : c ≠ '$') (begins : ∀ rest, starts c (cs ++ rest) = true)
    (runs : ∀ rest, Ends rest → run true (cs ++ rest) = cs) (value : read (c :: cs) = .ok l) :
    IsLeaf (c :: cs) (.literal l) := by
  refine ⟨c, cs, rfl, fun rest ends => ?_⟩
  have noStray : (rest.head?.filter fun d => !Token.isDelimiter d) = none := by
    rw [Option.filter_eq_none_iff]
    intro d first
    simp [ends d first]
  rw [Token.lexemeAt_of_plain free plain]
  simp [begins rest, Token.numberLexeme, runs rest ends, noStray, value]

/-- A sign or none. -/
def sign (negative : Bool) : List Char := if negative then ['-'] else []

/-- A figure comes first. -/
def Begins (body : List Char) : Prop := ∃ d ds, body = d :: ds ∧ d.isDigit = true

theorem begins_append {whole : List Char} (nonempty : whole ≠ []) (figures : Figures whole)
    (more : List Char) : Begins (whole ++ more) := by
  cases whole with
  | nil => exact absurd rfl nonempty
  | cons d ds => exact ⟨d, ds ++ more, rfl, figures d (.head _)⟩

/-- What begins with a figure is a number, with a sign before it or without. -/
theorem isLeaf_signed (negative : Bool) {body : List Char} (begins : Begins body)
    (runs : ∀ rest, Ends rest → run true (body ++ rest) = body)
    (value : read (sign negative ++ body) = .ok l) :
    IsLeaf (sign negative ++ body) (.literal l) := by
  obtain ⟨d, ds, rfl, figure⟩ := begins
  have digit := isDigit_of_figure figure
  cases negative with
  | false =>
      have plain : d ≠ '$' := by
        rintro rfl
        cases figure
      refine isLeaf_of_starts (Token.isDelimiter_of_isDigit digit) plain ?_ ?_ value
      · simp [starts, digit]
      · intro rest ends
        simpa [run, digit] using runs rest ends
  | true =>
      refine isLeaf_of_starts (by decide) (by decide) ?_ runs value
      simp [starts, digit]

theorem read_signed (negative : Bool) {body : List Char} (begins : Begins body) :
    read (sign negative ++ body) =
      if body.contains '.' then
        readFloat negative (sign negative ++ body) (body.takeWhile (· != '.'))
          (body.dropWhile (· != '.')).tail
      else readInteger negative (sign negative ++ body) body := by
  obtain ⟨d, ds, rfl, figure⟩ := begins
  have noSign : (d == '-') = false := by
    rw [beq_eq_false_iff_ne]
    rintro rfl
    cases figure
  cases negative with
  | false => simp [read, sign, noSign]
  | true => simp [read, sign]

/-- Figures that are not too many are read as the whole number they stand for. -/
theorem read_integer (negative : Bool) (nonempty : ds ≠ []) (figures : Figures ds)
    (short : ds.length ≤ Flaw.maxIntegerDigits) :
    read (sign negative ++ ds) = .ok (.ofScalar (.int
      (if negative then -(Nat.ofDigitChars 10 ds 0 : Int) else Nat.ofDigitChars 10 ds 0))) := by
  have begins := begins_append nonempty figures []
  rw [List.append_nil] at begins
  have noPoint : ds.contains '.' = false := by
    rw [List.contains_eq_mem, decide_eq_false_iff_not]
    intro member
    cases figures _ member
  have value := value?_of_figures figures
  have decimals := (lt_pow_of_value? value).1
  have fits := Nat.not_lt.mpr short
  rw [read_signed negative begins, noPoint]
  simp [readInteger, decimals, value, fits]

/-- Figures with a point among them are read as the float nearest to what they spell. -/
theorem read_float (negative : Bool) {whole fraction : List Char} {q : ℚ} {x : Float}
    (spells : Spells whole fraction q) (nearest : nearestSigned? negative q = some x) :
    read (sign negative ++ (whole ++ '.' :: fraction)) = .ok (.ofScalar (.float x)) := by
  have figures := (figures_append.mp spells.figures).1
  have noPoint : ∀ c ∈ whole, (c != '.') = true := by
    intro c member
    rw [bne_iff_ne]
    rintro rfl
    cases figures _ member
  have value : mkRat (Nat.ofDigitChars 10 (whole ++ fraction) 0) (Nat.pow 10 fraction.length) =
      q := by
    rw [Rat.mkRat_eq_div, div_eq_iff (by simp)]
    exact_mod_cast spells.value
  have point : (whole ++ '.' :: fraction).contains '.' = true := by simp
  rw [read_signed negative (begins_append spells.nonempty figures _), point, if_pos rfl,
    List.takeWhile_append_of_pos noPoint, List.dropWhile_append_of_pos noPoint,
    List.takeWhile_cons_of_neg (by simp), List.dropWhile_cons_of_neg (by simp), List.append_nil,
    List.tail_cons, readFloat, value?_of_figures spells.figures]
  simp only [value, nearest]

end Numeral

namespace Token

theorem toList_toString_int (n : Int) :
    (toString n).toList = Numeral.sign (n < 0) ++ Nat.toDigits 10 n.natAbs := by
  cases n with
  | ofNat n => simp [toString, Int.repr, Numeral.sign]
  | negSucc n => simp [toString, Int.repr, Numeral.sign]

theorem isLeaf_int {n : Int} (readable : (Literal.ofScalar (.int n)).isReadable = true) :
    IsLeaf (toString n).toList (.ofScalar (.int n)) := by
  have short : (Nat.toDigits 10 n.natAbs).length ≤ Flaw.maxIntegerDigits := by
    simp only [Literal.isReadable, Bool.and_eq_true] at readable
    exact of_decide_eq_true readable.2
  have figures := figures_toDigits n.natAbs
  have begins := Numeral.begins_append Nat.toDigits_ne_nil figures []
  rw [List.append_nil] at begins
  have value : (if decide (n < 0) = true then -(n.natAbs : Int) else n.natAbs) = n := by
    simp only [decide_eq_true_eq]
    split <;> omega
  have read := Numeral.read_integer (n < 0) Nat.toDigits_ne_nil figures short
  rw [Nat.ofDigitChars_ten_toDigits, value] at read
  rw [toList_toString_int]
  refine Numeral.isLeaf_signed _ begins (fun rest ends => ?_) read
  rw [Numeral.run_figures figures, Numeral.run_ends ends, List.append_nil]

theorem isLeaf_float {x : Float} (readable : (Literal.ofScalar (.float x)).isReadable = true) :
    IsLeaf (Layout.positional x) (.ofScalar (.float x)) := by
  have finite : x.isFinite = true := by simpa [Literal.isReadable, Literal.ofScalar] using readable
  obtain ⟨negative, m, e, parts⟩ := isFinite_iff.mp finite
  obtain ⟨whole, fraction, q, layout, spells, rounds⟩ := positional_spells parts
  obtain ⟨before, behind⟩ := figures_append.mp spells.figures
  have begins := Numeral.begins_append spells.nonempty before ('.' :: fraction)
  have read := Numeral.read_float negative spells (nearestSigned?_eq_some parts rounds)
  rw [layout]
  refine Numeral.isLeaf_signed negative begins (fun rest ends => ?_) read
  have noDigit : isDigit '.' = false := by decide
  rw [List.append_assoc, Numeral.run_figures before, List.cons_append]
  simp [Numeral.run, noDigit, Numeral.run_figures behind, Numeral.run_ends ends]

/-- **A readable leaf is read back from its written form.** -/
theorem isLeaf_render {a : Atom} (readable : a.isReadableLeaf = true) :
    IsLeaf a.render.toList a := by
  cases a with
  | symbol text => exact isLeaf_symbol readable
  | var text constraint =>
      cases constraint with
      | none => simpa [Atom.render] using isLeaf_var readable
      | some type => cases readable
  | literal l =>
      obtain ⟨value, tag⟩ := l
      have own : tag = value.tag := by
        simp only [Atom.isReadableLeaf, Literal.isReadable, Bool.and_eq_true,
          beq_iff_eq] at readable
        exact readable.1
      subst own
      cases value with
      | int n => exact isLeaf_int readable
      | float x =>
          have written := isLeaf_float readable
          rw [← String.toList_ofList (l := Layout.positional x)] at written
          exact written
      | text s => exact isLeaf_text s
      | truth b => cases readable
  | expr cs => cases readable
  | empty => cases readable
  | error message source => cases readable

end Token

end Metta
