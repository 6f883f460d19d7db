/-
  Integer literals are read with their value.

  `IntegerLiteral` is the grammar: the digits of one of four bases, told apart by
  how the literal begins, with quotes between them, and a suffix of letters that
  say nothing about the value.  Letters may be small or capital.

  Reading undoes the spelling from outside in.  What remains of a literal without
  quotes, suffix and capitals is the mark of its base and the digits in their plain
  form (`DigitString.plain`, `bareLiteral_append`); how it begins decides the base
  as the grammar does (`bareLiteralValue?_of_spells`); and digits in a base are read
  with their value (`readInt?_digits`).
-/
import DivisorCheck.Program.Literal
import DivisorCheck.Proofs.Text.Numerals

namespace DivisorCheck

open DivisorCheck.Text

/-! ### The grammar -/

/-- The bases in which integers are written. -/
inductive Radix where
  | binary
  | octal
  | decimal
  | hexadecimal
deriving DecidableEq, Repr

/-- How many digits there are. -/
def Radix.base : Radix → Nat
  | binary => 2
  | octal => 8
  | decimal => 10
  | hexadecimal => 16

/-- A small letter in either case; any other character as it is. -/
def InEitherCase (small c : Char) : Prop := c = small ∨ c = small.toUpper

/-- Digits with quotes between them.  The grammar allows one quote between two digits; any number
of them does no harm. -/
inductive DigitString (base : Nat) : List Nat → List Char → Prop where
  | last {d : Nat} {c : Char} (hd : d < base) (hc : InEitherCase d.digitChar c) :
    DigitString base [d] [c]
  | cons {d : Nat} {c : Char} {ds : List Nat} {cs : List Char} (hd : d < base)
    (hc : InEitherCase d.digitChar c) (quotes : Nat) (rest : DigitString base ds cs) :
    DigitString base (d :: ds) (c :: (List.replicate quotes '\'' ++ cs))

/-- The digits of a literal in each base, with what marks the base.  An octal literal begins with the
digit zero, and a decimal one with any other. -/
inductive Radix.Spells : Radix → List Nat → List Char → Prop where
  | binary {mark : Char} {ds : List Nat} {cs : List Char} (hmark : InEitherCase 'b' mark)
    (h : DigitString 2 ds cs) : Spells .binary ds ('0' :: mark :: cs)
  | octal {ds : List Nat} {cs : List Char} (h : DigitString 8 (0 :: ds) cs) :
    Spells .octal (0 :: ds) cs
  | decimal {d : Nat} {ds : List Nat} {cs : List Char} (hd : d ≠ 0)
    (h : DigitString 10 (d :: ds) cs) : Spells .decimal (d :: ds) cs
  | hexadecimal {mark : Char} {ds : List Nat} {cs : List Char} (hmark : InEitherCase 'x' mark)
    (h : DigitString 16 ds cs) : Spells .hexadecimal ds ('0' :: mark :: cs)

/-- The suffixes that a literal may have. -/
def literalSuffixes : List String :=
  ["", "u", "l", "ul", "lu", "ll", "ull", "llu", "z", "uz", "zu"]

/-- The text is an integer literal, and `n` is the number that it denotes. -/
def IntegerLiteral (text : String) (n : Nat) : Prop :=
  ∃ (radix : Radix) (digits : List Nat) (body suffix : List Char),
    radix.Spells digits body ∧
    (∃ w ∈ literalSuffixes, List.Forall₂ InEitherCase w.toList suffix) ∧
    text.toList = body ++ suffix ∧ n = Nat.ofDigits radix.base digits.reverse

/-! ### Characters -/

/-- A digit in either case becomes its plain form, and is neither a quote nor a letter of a suffix. -/
theorem plain_of_inEitherCase {d : Nat} {c : Char} (hd : d < 16) (hc : InEitherCase d.digitChar c) :
    lowerChar c = d.digitChar ∧ c ≠ '\'' ∧ Program.isSuffixLetter c = false := by
  rcases hc with rfl | rfl
  · revert d
    decide
  · revert d
    decide

/-- The mark of a base in either case. -/
theorem mark_of_inEitherCase {small mark : Char} (hsmall : small ∈ ['b', 'x'])
    (hmark : InEitherCase small mark) :
    lowerChar mark = small ∧ mark ≠ '\'' ∧ Program.isSuffixLetter mark = false := by
  have hcases : small = 'b' ∨ small = 'x' := by simpa using hsmall
  rcases hcases with rfl | rfl <;> rcases hmark with rfl | rfl <;> decide

/-- A letter of a suffix in either case. -/
theorem isSuffixLetter_of_inEitherCase {a c : Char} (ha : a ∈ ['u', 'l', 'z'])
    (hc : InEitherCase a c) : Program.isSuffixLetter c = true := by
  have hcases : a = 'u' ∨ a = 'l' ∨ a = 'z' := by simpa using ha
  rcases hcases with rfl | rfl | rfl <;> rcases hc with rfl | rfl <;> decide

theorem digitValue?_digitChar {d : Nat} (hd : d < 16) : digitValue? d.digitChar = some d := by
  revert d
  decide

theorem isPlain_digitChar {d : Nat} (hd : d < 16) : IsPlain d.digitChar := by
  unfold IsPlain
  revert d
  decide

/-- A digit below ten is no letter and no point. -/
theorem digitChar_ne_letter {d : Nat} (hd : d < 10) :
    d.digitChar ≠ 'x' ∧ d.digitChar ≠ 'b' ∧ d.digitChar ≠ 'e' ∧ d.digitChar ≠ '.' := by
  revert d
  decide

theorem isSuffixLetter_of_mem {w cs : List Char} (hw : w ⊆ ['u', 'l', 'z'])
    (h : List.Forall₂ InEitherCase w cs) : ∀ c ∈ cs, Program.isSuffixLetter c = true := by
  induction h with
  | nil => exact fun c hc => absurd hc List.not_mem_nil
  | @cons a c w cs hac _ ih =>
    obtain ⟨ha, hrest⟩ := List.cons_subset.1 hw
    exact List.forall_mem_cons.2 ⟨isSuffixLetter_of_inEitherCase ha hac, ih hrest⟩

/-! ### Quotes, suffix and capitals -/

/-- The characters of a text that are not quotes. -/
def unquoted (cs : List Char) : List Char := cs.filter (· ≠ '\'')

/-- The plain form of digits. -/
def plainDigits (ds : List Nat) : List Char := ds.map Nat.digitChar

theorem DigitString.lt {base : Nat} {ds : List Nat} {cs : List Char} (h : DigitString base ds cs) :
    ∀ d ∈ ds, d < base := by
  induction h with
  | last hd _ => simpa using hd
  | cons hd _ _ _ ih => exact List.forall_mem_cons.2 ⟨hd, ih⟩

theorem DigitString.ne_nil {base : Nat} {ds : List Nat} {cs : List Char}
    (h : DigitString base ds cs) : ds ≠ [] := by
  cases h <;> exact List.cons_ne_nil _ _

/-- Without quotes and capitals, digits have their plain form, and none of them belongs to a
suffix. -/
theorem DigitString.plain {base : Nat} (hbase : base ≤ 16) {ds : List Nat} {cs : List Char}
    (h : DigitString base ds cs) :
    (unquoted cs).map lowerChar = plainDigits ds ∧
      ∀ c ∈ unquoted cs, Program.isSuffixLetter c = false := by
  induction h with
  | @last d c hd hc =>
    obtain ⟨hlower, hquote, hletter⟩ := plain_of_inEitherCase (by omega) hc
    simp [unquoted, plainDigits, hquote, hlower, hletter]
  | @cons d c ds cs hd hc quotes _ ih =>
    obtain ⟨hlower, hquote, hletter⟩ := plain_of_inEitherCase (by omega) hc
    have hskip : unquoted (c :: (List.replicate quotes '\'' ++ cs)) = c :: unquoted cs := by
      unfold unquoted
      rw [List.filter_cons_of_pos (by simpa using hquote), List.filter_append,
        List.filter_replicate_of_neg (by simp), List.nil_append]
    rw [hskip]
    exact ⟨congrArg₂ List.cons hlower ih.1, List.forall_mem_cons.2 ⟨hletter, ih.2⟩⟩

/-- The suffix goes, and from the rest the quotes and capitals. -/
theorem bareLiteral_append {text : String} {body suffix : List Char}
    (htext : text.toList = body ++ suffix)
    (hbody : ∀ c ∈ unquoted body, Program.isSuffixLetter c = false)
    (hsuffix : ∀ c ∈ suffix, Program.isSuffixLetter c = true) :
    Program.bareLiteral text = (unquoted body).map lowerChar := by
  have hkept : unquoted suffix = suffix := by
    refine List.filter_eq_self.2 fun c hc => ?_
    have hletter := hsuffix c hc
    have hquote : c ≠ '\'' := by
      rintro rfl
      exact absurd hletter (by decide)
    simpa using hquote
  have hcut : ((unquoted body ++ suffix).reverse.dropWhile Program.isSuffixLetter).reverse =
      unquoted body := by
    rw [List.reverse_append,
      List.dropWhile_append_of_pos (fun c hc => hsuffix c (List.mem_reverse.1 hc))]
    rw [dropWhile_eq_self (fun c hc => hbody c (List.mem_reverse.1 hc)), List.reverse_reverse]
  have hfilter : text.toList.filter (· ≠ '\'') = unquoted body ++ suffix := by
    rw [htext, List.filter_append]
    exact congrArg (unquoted body ++ ·) hkept
  unfold Program.bareLiteral
  rw [hfilter, hcut]

/-! ### Digits in a base -/

theorem digitsIn?_plainDigits {base : Nat} (hbase : base ≤ 16) {ds : List Nat}
    (hds : ∀ d ∈ ds, d < base) : digitsIn? base (plainDigits ds) = some ds := by
  induction ds with
  | nil => rfl
  | cons d ds ih =>
    obtain ⟨hd, hrest⟩ := List.forall_mem_cons.1 hds
    have hread : digitIn? base d.digitChar = some d := by
      unfold digitIn?
      rw [digitValue?_digitChar (by omega), Option.bind_some, if_pos hd]
    show digitsIn? base (d.digitChar :: plainDigits ds) = some (d :: ds)
    simp [digitsIn?, List.mapM_cons, hread, ih hrest]

/-- No two digits look like the mark of their base. -/
theorem dropBaseMark_digits {radix : Radix} {ds : List Nat} (hds : ∀ d ∈ ds, d < radix.base) :
    dropBaseMark radix.base (plainDigits ds) = plainDigits ds := by
  match ds with
  | [] => rfl
  | [_] => rfl
  | d :: e :: ds =>
    have hmark : ∀ e < radix.base, some e.digitChar.toLower ≠ baseMark? radix.base := by
      cases radix <;> decide
    have he : e < radix.base := hds e (by simp)
    exact if_neg fun h => hmark e he h.2

/-- **Digits of a base are read with their value.** -/
theorem readInt?_digits (radix : Radix) {ds : List Nat} (hne : ds ≠ [])
    (hds : ∀ d ∈ ds, d < radix.base) :
    readInt? radix.base (String.ofList (plainDigits ds)) =
      some (Nat.ofDigits radix.base ds.reverse : Nat) := by
  have hbase : radix.base ≤ 16 := by cases radix <;> decide
  have hplain : ∀ c ∈ plainDigits ds, IsPlain c := by
    intro c hc
    obtain ⟨d, hd, rfl⟩ := List.mem_map.1 hc
    have := hds d hd
    exact isPlain_digitChar (by omega)
  rw [readInt?_of_isPlain (by simpa [plainDigits] using hne) hplain (dropBaseMark_digits hds),
    digitsIn?_plainDigits hbase hds]
  rfl

/-! ### How a literal begins -/

namespace Program

theorem not_mem_plainDigits {ds : List Nat} (hds : ∀ d ∈ ds, d < 10) :
    ¬ ('.' ∈ plainDigits ds ∨ 'e' ∈ plainDigits ds) := by
  have hchar : ∀ c ∈ plainDigits ds, c ≠ 'e' ∧ c ≠ '.' := by
    intro c hc
    obtain ⟨d, hd, rfl⟩ := List.mem_map.1 hc
    exact (digitChar_ne_letter (hds d hd)).2.2
  rintro (h | h)
  · exact (hchar _ h).2 rfl
  · exact (hchar _ h).1 rfl

/-- After a zero, what begins with neither mark of a base is octal. -/
theorem bareLiteralValue?_zero_cons {c : Char} {cs : List Char} (hx : c ≠ 'x') (hb : c ≠ 'b')
    (hnone : ¬ ('.' ∈ '0' :: c :: cs ∨ 'e' ∈ '0' :: c :: cs)) :
    bareLiteralValue? ('0' :: c :: cs) = readInt? 8 (String.ofList (c :: cs)) := by
  unfold bareLiteralValue?
  split
  · rename_i heq
    cases heq
  · rename_i heq
    exact absurd (List.cons.inj (List.cons.inj heq).2).1 hx
  · rename_i heq
    exact absurd (List.cons.inj (List.cons.inj heq).2).1 hb
  · rw [if_neg hnone]
    rfl

/-- What begins with no zero is decimal. -/
theorem bareLiteralValue?_cons {c : Char} {cs : List Char} (hc : c ≠ '0')
    (hnone : ¬ ('.' ∈ c :: cs ∨ 'e' ∈ c :: cs)) :
    bareLiteralValue? (c :: cs) = readInt? 10 (String.ofList (c :: cs)) := by
  unfold bareLiteralValue?
  split
  · rename_i heq
    cases heq
  · rename_i heq
    exact absurd (List.cons.inj heq).1 hc
  · rename_i heq
    exact absurd (List.cons.inj heq).1 hc
  · rw [if_neg hnone]
    split
    · rename_i heq
      exact absurd (List.cons.inj heq).1 hc
    · rfl

/-- Digits after a zero are octal. -/
theorem bareLiteralValue?_octal {ds : List Nat} (hds : ∀ d ∈ ds, d < 8) :
    bareLiteralValue? (plainDigits (0 :: ds)) =
      some (Nat.ofDigits 8 (0 :: ds).reverse : Nat) := by
  have hten : ∀ d ∈ 0 :: ds, d < 10 :=
    List.forall_mem_cons.2 ⟨by decide, fun d hd => by have := hds d hd; omega⟩
  have hnone := not_mem_plainDigits hten
  cases ds with
  | nil => decide
  | cons d ds =>
    obtain ⟨hx, hb, -, -⟩ := digitChar_ne_letter (hten d (by simp))
    have hread : bareLiteralValue? (plainDigits (0 :: d :: ds)) =
        readInt? 8 (String.ofList (plainDigits (d :: ds))) :=
      bareLiteralValue?_zero_cons hx hb hnone
    -- The zero in front adds nothing.
    have hzero : Nat.ofDigits 8 (0 :: d :: ds).reverse = Nat.ofDigits 8 (d :: ds).reverse := by
      rw [List.reverse_cons, Nat.ofDigits_append]
      simp
    rw [hread, hzero]
    exact readInt?_digits .octal (List.cons_ne_nil _ _) hds

/-- Digits that begin with no zero are decimal. -/
theorem bareLiteralValue?_decimal {d : Nat} {ds : List Nat} (hd : d ≠ 0)
    (hds : ∀ e ∈ d :: ds, e < 10) :
    bareLiteralValue? (plainDigits (d :: ds)) =
      some (Nat.ofDigits 10 (d :: ds).reverse : Nat) := by
  have hnone := not_mem_plainDigits hds
  have hfirst : d.digitChar ≠ '0' := by
    have hall : ∀ d < 10, d ≠ 0 → d.digitChar ≠ '0' := by decide
    exact hall d (hds d (List.mem_cons_self ..)) hd
  have hread : bareLiteralValue? (plainDigits (d :: ds)) =
      readInt? 10 (String.ofList (plainDigits (d :: ds))) := bareLiteralValue?_cons hfirst hnone
  rw [hread]
  exact readInt?_digits .decimal (List.cons_ne_nil _ _) hds

/-- The zero and the mark of a base stay in front when quotes and capitals go, and neither belongs to a
suffix. -/
theorem unquoted_mark {small mark : Char} {cs : List Char} (hsmall : small ∈ ['b', 'x'])
    (hmark : InEitherCase small mark) (hcs : ∀ c ∈ unquoted cs, isSuffixLetter c = false) :
    (unquoted ('0' :: mark :: cs)).map lowerChar = '0' :: small :: (unquoted cs).map lowerChar ∧
      ∀ c ∈ unquoted ('0' :: mark :: cs), isSuffixLetter c = false := by
  obtain ⟨hlower, hquote, hletter⟩ := mark_of_inEitherCase hsmall hmark
  have hkept : unquoted ('0' :: mark :: cs) = '0' :: mark :: unquoted cs := by
    simp [unquoted, hquote]
  rw [hkept]
  refine ⟨by rw [List.map_cons, List.map_cons, hlower]; rfl, ?_⟩
  exact List.forall_mem_cons.2 ⟨by decide, List.forall_mem_cons.2 ⟨hletter, hcs⟩⟩

/-- What is left of a literal in any base is read with its value. -/
theorem bareLiteralValue?_of_spells {radix : Radix} {digits : List Nat} {body : List Char}
    (h : radix.Spells digits body) :
    bareLiteralValue? ((unquoted body).map lowerChar) =
        some (Nat.ofDigits radix.base digits.reverse : Nat) ∧
      ∀ c ∈ unquoted body, isSuffixLetter c = false := by
  cases h with
  | binary hmark h =>
    obtain ⟨hplain, hletters⟩ := h.plain (by decide)
    obtain ⟨hbody, hall⟩ := unquoted_mark (by decide) hmark hletters
    refine ⟨?_, hall⟩
    rw [hbody, hplain]
    exact readInt?_digits .binary h.ne_nil h.lt
  | octal h =>
    obtain ⟨hplain, hletters⟩ := h.plain (by decide)
    refine ⟨?_, hletters⟩
    rw [hplain]
    exact bareLiteralValue?_octal (List.forall_mem_cons.1 h.lt).2
  | decimal hd h =>
    obtain ⟨hplain, hletters⟩ := h.plain (by decide)
    refine ⟨?_, hletters⟩
    rw [hplain]
    exact bareLiteralValue?_decimal hd h.lt
  | hexadecimal hmark h =>
    obtain ⟨hplain, hletters⟩ := h.plain (by decide)
    obtain ⟨hbody, hall⟩ := unquoted_mark (by decide) hmark hletters
    refine ⟨?_, hall⟩
    rw [hbody, hplain]
    exact readInt?_digits .hexadecimal h.ne_nil h.lt

/-- **Integer literals are read with the number that they denote**, in every base and with digits of
any length, quotes and suffix.  So a literal has the tag zero exactly if it spells zero, and exactly
then it is taken for a zero. -/
theorem integerLiteral_value (p : Program) (t : TokenId) (n : Nat)
    (hnumber : (p.token t).isNumber = true) (hfloat : (p.token t).isFloat = false)
    (h : IntegerLiteral (p.text t) n) :
    p.integerLiteral? t = some (n : Int) ∧
      (p.literalTag? t = some .zero ↔ n = 0) ∧
      (p.literalTag? t = some .nonZero ↔ n ≠ 0) ∧
      (p.isZeroLiteral t = true ↔ n = 0) := by
  obtain ⟨radix, digits, body, suffix, hspells, ⟨w, hw, hcased⟩, htext, rfl⟩ := h
  obtain ⟨hvalue, hbody⟩ := bareLiteralValue?_of_spells hspells
  have hletters : ∀ w ∈ literalSuffixes, w.toList ⊆ ['u', 'l', 'z'] := by decide
  have hbare : bareLiteral (p.text t) = (unquoted body).map lowerChar :=
    bareLiteral_append htext hbody (isSuffixLetter_of_mem (hletters w hw) hcased)
  have hread : p.integerLiteral? t = some (Nat.ofDigits radix.base digits.reverse : Nat) := by
    have hliteral : ((p.token t).isNumber && !(p.token t).isFloat) = true := by
      simp [hnumber, hfloat]
    unfold integerLiteral?
    rw [if_pos hliteral, ← hvalue, ← hbare]
    rfl
  generalize Nat.ofDigits radix.base digits.reverse = n at hread
  refine ⟨hread, ?_, ?_, ?_⟩
  · unfold literalTag?
    by_cases hn : n = 0 <;> simp [hread, Tag.ofInt, hn]
  · unfold literalTag?
    by_cases hn : n = 0 <;> simp [hread, Tag.ofInt, hn]
  · unfold isZeroLiteral
    rw [hread]
    simp

end Program

/-! ### Spellings with everything in them -/

/-- `0X1'fFuLL` and `0b0'0Z` -/
def spelledNumbers : Program where
  tokens := #[{ text := "0X1'fFuLL", isNumber := true }, { text := "0b0'0Z", isNumber := true }]

theorem integerLiteral_value_spelledNumbers :
    ((spelledNumbers.token 0).isNumber = true ∧ (spelledNumbers.token 0).isFloat = false ∧
      IntegerLiteral (spelledNumbers.text 0) 511) ∧
    spelledNumbers.integerLiteral? 0 = some 511 ∧
    (spelledNumbers.literalTag? 0 = some .zero ↔ 511 = 0) ∧
    (spelledNumbers.literalTag? 0 = some .nonZero ↔ 511 ≠ 0) ∧
    (spelledNumbers.isZeroLiteral 0 = true ↔ 511 = 0) := by
  have hdigits : DigitString 16 [1, 15, 15] ['1', '\'', 'f', 'F'] :=
    .cons (by decide) (.inl rfl) 1 (.cons (by decide) (.inl rfl) 0 (.last (by decide) (.inr rfl)))
  have hspells : Radix.hexadecimal.Spells [1, 15, 15] ['0', 'X', '1', '\'', 'f', 'F'] :=
    .hexadecimal (.inr rfl) hdigits
  have hsuffix : List.Forall₂ InEitherCase "ull".toList ['u', 'L', 'L'] :=
    .cons (.inl rfl) (.cons (.inr rfl) (.cons (.inr rfl) .nil))
  have hliteral : IntegerLiteral (spelledNumbers.text 0) 511 :=
    ⟨.hexadecimal, _, _, _, hspells, ⟨"ull", by decide, hsuffix⟩, rfl, rfl⟩
  exact ⟨⟨rfl, rfl, hliteral⟩, spelledNumbers.integerLiteral_value 0 511 rfl rfl hliteral⟩

example : spelledNumbers.isZeroLiteral 1 = true := by decide +kernel

end DivisorCheck
