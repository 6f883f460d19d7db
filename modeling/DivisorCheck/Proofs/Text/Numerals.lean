/-
  Plain digits are read with their value.

  A text without blanks, signs and underscores is read character by character:
  reading succeeds exactly if every character is a digit of the base, and then
  Horner's rule adds the digits up (`readInt?_of_isPlain`).  So two things can go
  wrong with a decimal numeral that consists of nothing but digit forms: one of
  them is no decimal digit, or there are too many (`readDecimal_of_forms`).
-/
import DivisorCheck.Text.Numeral
import Mathlib.Data.List.TakeWhile
import Mathlib.Data.Nat.Digits.Defs

namespace DivisorCheck.Text

/-! ### Characters of plain texts -/

/-- The character is neither a blank nor a sign nor an underscore. -/
def IsPlain (c : Char) : Prop := isSpace c = false ∧ c ≠ '-' ∧ c ≠ '+' ∧ c ≠ '_'

/-- The code points of white space. -/
def spaceCodes : List Nat :=
  [9, 10, 11, 12, 13, 32, 0x85, 0xA0, 0x1680] ++ List.range' 0x2000 11 ++
    [0x2028, 0x2029, 0x202F, 0x205F, 0x3000]

theorem mem_spaceCodes {c : Char} (h : isSpace c = true) : c.toNat ∈ spaceCodes := by
  simp only [isSpace, Bool.or_eq_true, Bool.and_eq_true, decide_eq_true_eq, beq_iff_eq] at h
  simp only [spaceCodes, List.mem_append, List.mem_cons, List.not_mem_nil, or_false,
    List.mem_range'_1]
  omega

/-- Is the code point that of a decimal digit or of another form of one? -/
def isDigitCode (n : Nat) : Bool :=
  digitZeros.any (fun z => z ≤ n && n < z + 10) || digitForms.any (fun r => r.1 ≤ n && n ≤ r.2)

theorem isDigitForm_eq (c : Char) : isDigitForm c = isDigitCode c.toNat := by
  rw [isDigitForm, isDigitCode, decimalDigit?, Option.isSome_map, List.isSome_find?]

/-- Digits of all forms are plain, and none of them is a colon or a letter of ASCII. -/
theorem isPlain_of_isDigitForm {c : Char} (h : isDigitForm c = true) :
    IsPlain c ∧ c ≠ ':' ∧ ¬ ('a' ≤ c ∧ c ≤ 'z') ∧ ¬ ('A' ≤ c ∧ c ≤ 'Z') := by
  rw [isDigitForm_eq] at h
  -- The other characters are few, so the table of digits can be asked about each of them.
  have hother : ∀ n ∈ spaceCodes ++ ['-'.toNat, '+'.toNat, '_'.toNat, ':'.toNat] ++
      List.range' 'a'.toNat 26 ++ List.range' 'A'.toNat 26, isDigitCode n = false := by decide
  have hcode : c.toNat ∉ spaceCodes ++ ['-'.toNat, '+'.toNat, '_'.toNat, ':'.toNat] ++
      List.range' 'a'.toNat 26 ++ List.range' 'A'.toNat 26 := by
    intro hmem
    rw [hother _ hmem] at h
    cases h
  simp only [List.mem_append, List.mem_cons, List.not_mem_nil, or_false, List.mem_range'_1,
    not_or, Char.toNat_inj] at hcode
  obtain ⟨⟨⟨hspace, hminus, hplus, hbar, hcolon⟩, hsmall⟩, hcapital⟩ := hcode
  have hblank : isSpace c = false := by
    cases hs : isSpace c with
    | false => rfl
    | true => exact absurd (mem_spaceCodes hs) hspace
  refine ⟨⟨hblank, hminus, hplus, hbar⟩, hcolon, ?_, ?_⟩
  · rintro ⟨hlo, hhi⟩
    exact hsmall ⟨hlo, Nat.lt_succ_of_le hhi⟩
  · rintro ⟨hlo, hhi⟩
    exact hcapital ⟨hlo, Nat.lt_succ_of_le hhi⟩

theorem decimalDigit?_lt {c : Char} {d : Nat} (h : decimalDigit? c = some d) : d < 10 := by
  obtain ⟨z, hz, rfl⟩ := Option.map_eq_some_iff.1 h
  have hrange := List.find?_some hz
  simp only [Bool.and_eq_true, decide_eq_true_eq] at hrange
  omega

/-- A digit form is a digit of base ten if it is a decimal digit. -/
theorem digitIn?_of_isDigitForm {c : Char} (h : isDigitForm c = true) :
    digitIn? 10 c = decimalDigit? c := by
  obtain ⟨-, -, hsmall, hcapital⟩ := isPlain_of_isDigitForm h
  cases hd : decimalDigit? c with
  | some d => simp [digitIn?, digitValue?, hd, decimalDigit?_lt hd]
  | none =>
    rw [digitIn?, digitValue?, hd]
    simp only [if_neg hsmall, if_neg hcapital]
    rfl

theorem dropWhile_eq_self {test : Char → Bool} {cs : List Char} (h : ∀ c ∈ cs, test c = false) :
    cs.dropWhile test = cs := by
  refine List.dropWhile_eq_self_iff.2 fun hpos => ?_
  simpa using h _ (List.getElem_mem hpos)

theorem trimBy_eq_self {test : Char → Bool} {cs : List Char} (h : ∀ c ∈ cs, test c = false) :
    trimBy test cs = cs := by
  unfold trimBy
  rw [dropWhile_eq_self h, dropWhile_eq_self (fun c hc => h c (List.mem_reverse.1 hc)),
    List.reverse_reverse]

theorem splitSign_eq_self {cs : List Char} (h : ∀ c ∈ cs, IsPlain c) :
    splitSign cs = (false, cs) := by
  unfold splitSign
  split
  · exact absurd rfl (h _ (List.mem_cons_self ..)).2.1
  · exact absurd rfl (h _ (List.mem_cons_self ..)).2.2.1
  · rfl

/-! ### Adding up -/

/-- The digits of a text, if all its characters are digits of the base. -/
abbrev digitsIn? (base : Nat) (cs : List Char) : Option (List Nat) := cs.mapM (digitIn? base)

/-- Horner's rule from the left gives the value of the reversed list, units first. -/
theorem foldl_eq_ofDigits (base : Nat) (ds : List Nat) :
    ds.foldl (fun value d => value * base + d) 0 = Nat.ofDigits base ds.reverse := by
  rw [Nat.ofDigits_eq_foldr, List.foldr_reverse]
  congr 1
  funext value d
  rw [Nat.cast_id, Nat.mul_comm, Nat.add_comm]

/-- Without underscores, digits are added up from the left. -/
theorem digitsValue?_eq_foldl {base value : Nat} {cs : List Char} (hne : cs ≠ [])
    (hbar : '_' ∉ cs) :
    digitsValue? base value cs =
      (digitsIn? base cs).map fun ds => ds.foldl (fun value d => value * base + d) value := by
  induction cs generalizing value with
  | nil => exact absurd rfl hne
  | cons c rest ih =>
    cases hd : digitIn? base c with
    | none => simp [digitsValue?, hd]
    | some d =>
      cases rest with
      | nil => simp [digitsValue?, hd]
      | cons next rest =>
        have hnext : '_' ∉ next :: rest := fun hmem => hbar (List.mem_cons_of_mem _ hmem)
        have hstep : digitsValue? base value (c :: next :: rest) =
            digitsValue? base (value * base + d) (next :: rest) := by
          rw [digitsValue?, hd]
          dsimp only
          split
          · rename_i heq
            cases heq
          · rename_i heq
            exact absurd ((List.cons.inj heq).1 ▸ List.mem_cons_self ..) hnext
          · rename_i heq
            rw [heq]
        have hdigits : digitsIn? base (c :: next :: rest) =
            (digitsIn? base (next :: rest)).map (d :: ·) := by
          simp [digitsIn?, List.mapM_cons, hd, Option.map_eq_bind]
        rw [hstep, ih (List.cons_ne_nil _ _) hnext, hdigits, Option.map_map]
        rfl

/-- **Digits are read with their value:** a plain text, in which nothing looks like the mark of the
base, is a numeral exactly if all its characters are digits of the base. -/
theorem readInt?_of_isPlain {base : Nat} {cs : List Char} (hne : cs ≠ [])
    (hplain : ∀ c ∈ cs, IsPlain c) (hmark : dropBaseMark base cs = cs) :
    readInt? base (String.ofList cs) =
      (digitsIn? base cs).map fun ds => ((Nat.ofDigits base ds.reverse : Nat) : Int) := by
  have hbar : '_' ∉ cs := fun hmem => (hplain _ hmem).2.2.2 rfl
  unfold readInt?
  rw [String.toList_ofList, trimBy_eq_self (fun c hc => (hplain c hc).1), splitSign_eq_self hplain]
  dsimp only
  rw [hmark, digitsValue?_eq_foldl hne hbar]
  cases digitsIn? base cs with
  | none => rfl
  | some ds => exact congrArg (fun n : Nat => some (n : Int)) (foldl_eq_ofDigits base ds)

/-! ### Decimal numerals -/

/-- The decimal digits of a text, if it consists of nothing else. -/
abbrev decimalDigits? (cs : List Char) : Option (List Nat) := cs.mapM decimalDigit?

theorem dropBaseMark_ten (cs : List Char) : dropBaseMark 10 cs = cs := by
  unfold dropBaseMark
  split
  · exact if_neg fun h => by cases h.2
  · rfl

theorem digitsIn?_of_forms {cs : List Char} (h : ∀ c ∈ cs, isDigitForm c = true) :
    digitsIn? 10 cs = decimalDigits? cs := by
  induction cs with
  | nil => rfl
  | cons c cs ih =>
    obtain ⟨hc, hrest⟩ := List.forall_mem_cons.1 h
    simp only [List.mapM_cons, digitIn?_of_isDigitForm hc, ih hrest]

theorem isSome_of_decimalDigits? {cs : List Char} {ds : List Nat} (h : decimalDigits? cs = some ds) :
    ∀ c ∈ cs, (decimalDigit? c).isSome = true := by
  induction cs generalizing ds with
  | nil => exact fun c hc => absurd hc List.not_mem_nil
  | cons c cs ih =>
    simp only [List.mapM_cons, Option.bind_eq_bind, Option.bind_eq_some_iff] at h
    obtain ⟨d, hd, ds', hrest, -⟩ := h
    exact List.forall_mem_cons.2 ⟨by rw [hd]; rfl, ih hrest⟩

/-- **A numeral of digit forms** is read with its value if all of them are decimal digits and there
are not too many; nothing else can be wrong with it. -/
theorem readDecimal_of_forms {cs : List Char} (hne : cs ≠ [])
    (hforms : ∀ c ∈ cs, isDigitForm c = true) :
    readDecimal (String.ofList cs) =
      match decimalDigits? cs with
      | none => .error (.notInteger (String.ofList cs))
      | some ds =>
        if cs.length ≤ digitLimit then .ok (Nat.ofDigits 10 ds.reverse : Nat)
        else .error (.tooManyDigits cs.length) := by
  have hread := readInt?_of_isPlain hne (fun c hc => (isPlain_of_isDigitForm (hforms c hc)).1)
    (dropBaseMark_ten cs)
  rw [digitsIn?_of_forms hforms] at hread
  unfold readDecimal
  rw [hread]
  cases hds : decimalDigits? cs with
  | none => rfl
  | some ds =>
    have hcount : cs.filter (fun c => (decimalDigit? c).isSome) = cs :=
      List.filter_eq_self.2 (isSome_of_decimalDigits? hds)
    simp only [Option.map_some, String.toList_ofList, hcount]

end DivisorCheck.Text
