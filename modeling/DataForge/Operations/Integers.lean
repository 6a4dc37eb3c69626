import Mathlib.Data.List.Forall2
import DataForge.Operations.Numbers

/-!
# Integers of a filter

`FilterValueType.NUMBER.coerce` reads the text of an integer as a float first. It returns the
integer when that is a number of binary64 (`number_coerce_exact`).
-/

namespace DataForge.Operations

open Rounding

/-- A text of an integer: decimal digits, with a sign or without. -/
inductive IntegerText : ℤ → String → Prop where
  | plain (digits : List Char) (hne : digits ≠ []) (h : ∀ c ∈ digits, c.isDigit = true) :
      IntegerText (Nat.ofDigitChars 10 digits 0 : ℕ) (.ofList digits)
  | plus (digits : List Char) (hne : digits ≠ []) (h : ∀ c ∈ digits, c.isDigit = true) :
      IntegerText (Nat.ofDigitChars 10 digits 0 : ℕ) (.ofList ('+' :: digits))
  | minus (digits : List Char) (hne : digits ≠ []) (h : ∀ c ∈ digits, c.isDigit = true) :
      IntegerText (-(Nat.ofDigitChars 10 digits 0 : ℕ)) (.ofList ('-' :: digits))

/-- A finite integer with a significand of 53 bits. -/
def Exact (n : ℤ) : Prop := Representable 53 n.natAbs ∧ n.natAbs < 2 ^ limitBits

section Texts

variable {c : Char} {cs digits : List Char}

/-- The characters of the text of an integer. -/
def IsNumeral (c : Char) : Prop := c.isDigit = true ∨ c = '+' ∨ c = '-'

theorem IsNumeral.toNat_le (h : IsNumeral c) : 43 ≤ c.toNat ∧ c.toNat ≤ 57 := by
  rcases h with h | rfl | rfl
  · rw [Char.isDigit_iff_toNat] at h
    change 48 ≤ c.toNat ∧ c.toNat ≤ 57 at h
    omega
  · decide
  · decide

theorem IsNumeral.toAscii_eq (h : IsNumeral c) : toAscii c = c :=
  if_pos (by have := h.toNat_le; omega)

theorem IsNumeral.isAsciiSpace_eq (h : IsNumeral c) : isAsciiSpace c = false := by
  have hle := h.toNat_le
  have hne : c ≠ ' ' := by
    rintro rfl
    exact absurd hle (by decide)
  simp only [isAsciiSpace, hne, false_or, decide_eq_false_iff_not]
  omega

theorem IsNumeral.ne_underscore (h : IsNumeral c) : c ≠ '_' := by
  rintro rfl
  exact absurd h.toNat_le (by decide)

theorem withoutUnderscores_eq (h : ∀ c ∈ cs, IsNumeral c) (afterDigit : Bool) :
    withoutUnderscores afterDigit cs = some cs := by
  induction cs generalizing afterDigit with
  | nil => rfl
  | cons c cs ih =>
    rw [withoutUnderscores, if_neg (h c List.mem_cons_self).ne_underscore,
      ih fun d hd => h d (List.mem_cons_of_mem c hd)]
    rfl

theorem float_eq (h : ∀ c ∈ cs, IsNumeral c) : float (String.ofList cs) = parseFloat cs := by
  have hascii : cs.map toAscii = cs := by
    rw [List.map_congr_left fun c hc => (h c hc).toAscii_eq, List.map_id']
  have hfront : cs.dropWhile isAsciiSpace = cs := by
    cases cs with
    | nil => rfl
    | cons c cs =>
      exact List.dropWhile_cons_of_neg (by rw [(h c List.mem_cons_self).isAsciiSpace_eq]; decide)
  have hback : cs.rdropWhile isAsciiSpace = cs := by
    rw [List.rdropWhile_eq_self_iff]
    intro hne
    rw [(h _ (List.getLast_mem hne)).isAsciiSpace_eq]
    decide
  rw [float, String.toList_ofList, hascii, hfront, hback, withoutUnderscores_eq h]
  rfl

theorem splitSign_of_digit (hc : c.isDigit = true) : splitSign (c :: cs) = (false, c :: cs) := by
  unfold splitSign
  split
  case h_1 heq => cases heq; cases hc
  case h_2 heq => cases heq; cases hc
  case h_3 => rfl

theorem name_ne {name : String} (hc : c.isDigit = true)
    (hname : name.toList.head?.any Char.isDigit = false) :
    String.ofList ((c :: cs).map Char.toLower) ≠ name := by
  intro heq
  have hlower : c.toLower = c := by
    rw [Char.isDigit_iff_toNat] at hc
    change 48 ≤ c.toNat ∧ c.toNat ≤ 57 at hc
    refine dif_neg fun hupper => ?_
    have hge : 65 ≤ c.toNat := UInt32.le_iff_toNat_le.mp hupper.1
    omega
  rw [← heq, String.toList_ofList, List.map_cons, hlower] at hname
  simp [hc] at hname

theorem parseFloat_digits {negative : Bool} (hsign : splitSign cs = (negative, digits))
    (hne : digits ≠ []) (h : ∀ c ∈ digits, c.isDigit = true) :
    parseFloat cs = some (.ofQuotient negative (Nat.ofDigitChars 10 digits 0) 1 Nat.one_pos) := by
  have hwhole : digits.takeWhile Char.isDigit = digits := List.takeWhile_eq_self_iff.mpr h
  have hrest : digits.dropWhile Char.isDigit = [] := List.dropWhile_eq_nil_iff.mpr h
  obtain ⟨c, tail, rfl⟩ := List.exists_cons_of_ne_nil hne
  have hc := h c List.mem_cons_self
  unfold parseFloat
  rw [hsign]
  dsimp only
  rw [if_neg (not_or.mpr ⟨name_ne hc (by decide), name_ne hc (by decide)⟩),
    if_neg (name_ne hc (by decide))]
  simp only [splitDigits, hwhole, hrest, splitFraction, List.append_nil, exponent]
  rw [if_neg hne]
  simp [ofDecimal]

theorem isPlain_of_numeral (h : ∀ c ∈ cs, IsNumeral c) : isPlain (String.ofList cs) = true := by
  have hnot : ∀ c, ¬ IsNumeral c → c ∉ cs := fun c hc hmem => hc (h c hmem)
  rw [isPlain, decide_eq_true_eq, String.toList_ofList]
  exact ⟨hnot '.' (by unfold IsNumeral; decide), hnot 'e' (by unfold IsNumeral; decide),
    hnot 'E' (by unfold IsNumeral; decide)⟩

/-- `float` of the text of an integer. -/
theorem IntegerText.float_eq {n : ℤ} {text : String} (h : IntegerText n text) :
    isPlain text = true ∧ ∃ negative m,
      float text = some (.ofQuotient negative m 1 Nat.one_pos) ∧
        n = if negative then -(m : ℤ) else m := by
  cases h with
  | plain digits hne h =>
    have hnumeral : ∀ c ∈ digits, IsNumeral c := fun c hc => .inl (h c hc)
    obtain ⟨c, tail, rfl⟩ := List.exists_cons_of_ne_nil hne
    refine ⟨isPlain_of_numeral hnumeral, false, _, ?_, rfl⟩
    rw [Operations.float_eq hnumeral]
    exact parseFloat_digits (splitSign_of_digit (h c List.mem_cons_self)) hne h
  | plus digits hne h =>
    have hnumeral : ∀ c ∈ '+' :: digits, IsNumeral c :=
      List.forall_mem_cons.mpr ⟨.inr (.inl rfl), fun c hc => .inl (h c hc)⟩
    refine ⟨isPlain_of_numeral hnumeral, false, _, ?_, rfl⟩
    rw [Operations.float_eq hnumeral]
    exact parseFloat_digits rfl hne h
  | minus digits hne h =>
    have hnumeral : ∀ c ∈ '-' :: digits, IsNumeral c :=
      List.forall_mem_cons.mpr ⟨.inr (.inr rfl), fun c hc => .inl (h c hc)⟩
    refine ⟨isPlain_of_numeral hnumeral, true, _, ?_, rfl⟩
    rw [Operations.float_eq hnumeral]
    exact parseFloat_digits rfl hne h

end Texts

section Rounding

variable {negative : Bool} {m : ℕ} {n : ℤ}

theorem rounded_eq_iff {a b u : ℕ} (hu : roundTo 53 (m * 2 ^ a) 1 = u) :
    (u < 2 ^ (b + a) ∧ u % 2 ^ a = 0 ∧ u / 2 ^ a = m) ↔ Representable 53 m ∧ m < 2 ^ b := by
  have hpos : 0 < 2 ^ a := Nat.two_pow_pos a
  have hkept : u = m * 2 ^ a ↔ Representable 53 m := by
    rw [← hu, roundTo_eq_self (by decide), representable_mul_two_pow]
  rw [← hkept, Nat.pow_add]
  constructor
  · rintro ⟨hlt, hmod, hdiv⟩
    have hparts := Nat.div_add_mod u (2 ^ a)
    rw [hmod, hdiv, Nat.add_zero, Nat.mul_comm] at hparts
    exact ⟨hparts.symm, (Nat.mul_lt_mul_right hpos).mp (hparts ▸ hlt)⟩
  · rintro ⟨rfl, hlt⟩
    exact ⟨(Nat.mul_lt_mul_right hpos).mpr hlt, Nat.mul_mod_left .., Nat.mul_div_cancel m hpos⟩

theorem toInt_eq_iff (hn : n = if negative then -(m : ℤ) else m) :
    ((Binary64.ofQuotient negative m 1 Nat.one_pos).isInteger = true ∧
      (Binary64.ofQuotient negative m 1 Nat.one_pos).toInt = n) ↔ Exact n := by
  have habs : n.natAbs = m := by
    rw [hn]
    cases negative <;> simp
  unfold Exact
  rw [habs, ← rounded_eq_iff (a := unitBits) rfl]
  unfold Binary64.ofQuotient
  split
  case isTrue hlt =>
    simp only [Binary64.isInteger, Binary64.toInt, decide_eq_true_eq, hlt, true_and, hn]
    refine and_congr_right fun _ => ?_
    generalize roundTo 53 (m * 2 ^ unitBits) 1 / 2 ^ unitBits = q
    cases negative <;> simp
  case isFalse hge => simp [Binary64.isInteger, hge]

end Rounding

theorem coerceNumbers_iff {items items' : List FilterValue} :
    coerceNumbers items = some items' ↔
      List.Forall₂ (fun item item' => coerceNumber item = some item') items items' := by
  induction items generalizing items' with
  | nil =>
    rw [coerceNumbers, List.forall₂_nil_left_iff, Option.some.injEq, eq_comm]
  | cons item items ih =>
    rw [coerceNumbers, List.forall₂_cons_left_iff]
    constructor
    · intro h
      obtain ⟨first, hfirst, h⟩ := Option.bind_eq_some_iff.mp h
      obtain ⟨rest, hrest, rfl⟩ := Option.map_eq_some_iff.mp h
      exact ⟨first, rest, hfirst, ih.mp hrest, rfl⟩
    · rintro ⟨first, rest, hfirst, hrest, rfl⟩
      rw [hfirst, ih.mpr hrest]
      rfl

/-- The text of an integer is coerced to it exactly when it is a number of binary64, and a list is
coerced item by item. -/
theorem number_coerce_exact (n : ℤ) (text : String) (items items' : List FilterValue) :
    (IntegerText n text → (coerceNumber (.str text) = some (.int n) ↔ Exact n)) ∧
      (coerceNumber (.list items) = some (.list items') ↔
        List.Forall₂ (fun item item' => coerceNumber item = some item') items items') := by
  refine ⟨fun h => ?_, ?_⟩
  · obtain ⟨hplain, negative, m, hfloat, hn⟩ := h.float_eq
    rw [← toInt_eq_iff hn, coerceNumber, coerceText, hfloat, Option.map_some, hplain]
    by_cases hint : (Binary64.ofQuotient negative m 1 Nat.one_pos).isInteger = true
    · simp [hint]
    · simp [hint]
  · rw [coerceNumber, ← coerceNumbers_iff, Option.map_eq_some_iff]
    constructor
    · rintro ⟨rest, hrest, heq⟩
      cases heq
      exact hrest
    · exact fun h => ⟨items', h, rfl⟩

theorem number_coerce_exact_limit :
    coerceNumber (.str "-9007199254740992") = some (.int (-9007199254740992)) :=
  ((number_coerce_exact _ _ [] []).1 (.minus "9007199254740992".toList (by decide)
    (List.all_eq_true.mp (by decide)))).mpr ⟨⟨1, 53, by decide, by decide⟩, by decide +kernel⟩

/-- `2 ^ 53 + 1` is coerced to `2 ^ 53`. -/
theorem odd_integer_altered :
    (coerceNumber (.str "9007199254740993")).bind FilterValue.int? = some 9007199254740992 ∧
      coerceNumber (.str "9007199254740993") ≠ some (.int 9007199254740993) := by
  have hvalue : (coerceNumber (.str "9007199254740993")).bind FilterValue.int? =
      some 9007199254740992 := by decide +kernel
  refine ⟨hvalue, fun h => ?_⟩
  rw [h] at hvalue
  cases hvalue

end DataForge.Operations
