import Mathlib.Data.List.Basic

/-!
# Text literals of exported code

The Polars export writes column names and text values as Python literals with
`json.dumps(value, ensure_ascii=True)` (`modules/export/generators.py:81-95, 243-255`). Python
reads such a literal code point by code point.
-/

namespace DataForge.CodeExport

/-- The escapes of one letter. -/
def shortEscapes : List (Char × Char) :=
  [('\\', '\\'), ('"', '"'), ('\x08', 'b'), ('\x0c', 'f'), ('\n', 'n'), ('\r', 'r'), ('\t', 't')]

/-- `'\\u{0:04x}'.format(n)`. -/
def escapeUnit (n : ℕ) : List Char :=
  '\\' :: 'u' :: [n / 4096 % 16, n / 256 % 16, n / 16 % 16, n % 16].map Nat.digitChar

/-- The UTF-16 code units of a character. -/
def units (c : Char) : List ℕ :=
  if c.toNat < 0x10000 then [c.toNat]
  else [0xd800 + (c.toNat - 0x10000) / 1024 % 1024, 0xdc00 + (c.toNat - 0x10000) % 1024]

/-- What `json.dumps` writes for a character. -/
def escapeChar (c : Char) : List Char :=
  match shortEscapes.find? (·.1 = c) with
  | some (_, letter) => ['\\', letter]
  | none => if ' ' ≤ c ∧ c ≤ '~' then [c] else (units c).flatMap escapeUnit

/-- `_safe_py` of a text. -/
def safePyText (value : String) : List Char :=
  '"' :: value.toList.flatMap escapeChar ++ ['"']

/-- The value of a hexadecimal digit. -/
def hexValue (c : Char) : Option ℕ :=
  (List.range 16).find? fun d => d.digitChar = c ∨ d.digitChar.toUpper = c

/-- The code points of a Python literal behind its opening quote, with the escapes `\u` and those
of one letter that JSON has too; `none` for another text. -/
def readBody : List Char → Option (List ℕ)
  | '\\' :: 'u' :: a :: b :: c :: d :: rest => do
    let n ← [a, b, c, d].foldlM (fun n digit => (hexValue digit).map (16 * n + ·)) 0
    (readBody rest).map (n :: ·)
  | '\\' :: letter :: rest => do
    let escape ← shortEscapes.find? (·.2 = letter)
    (readBody rest).map (escape.1.toNat :: ·)
  | ['"'] => some []
  | c :: rest =>
    if c ∈ ['\\', '"', '\n', '\r'] then none else (readBody rest).map (c.toNat :: ·)
  | [] => none

/-- A Python literal in double quotes. -/
def readLiteral : List Char → Option (List ℕ)
  | '"' :: body => readBody body
  | _ => none

theorem hexValue_digitChar : ∀ d < 16, hexValue d.digitChar = some d := by decide

theorem readBody_escapeUnit {n : ℕ} (h : n < 0x10000) (rest : List Char) :
    readBody (escapeUnit n ++ rest) = (readBody rest).map (n :: ·) := by
  have hdigit (m : ℕ) : hexValue (m % 16).digitChar = some (m % 16) :=
    hexValue_digitChar _ (Nat.mod_lt _ (by decide))
  have hvalue : 16 * (16 * (16 * (n / 4096 % 16) + n / 256 % 16) + n / 16 % 16) + n % 16 = n := by
    omega
  simp only [escapeUnit, List.map_cons, List.map_nil, List.cons_append, List.nil_append, readBody,
    List.foldlM_cons, List.foldlM_nil, hdigit, Option.map_some, Option.bind_eq_bind,
    Option.bind_some, Option.pure_def, Nat.mul_zero, Nat.zero_add, hvalue]

theorem readBody_short : ∀ e ∈ shortEscapes, ∀ rest,
    readBody ('\\' :: e.2 :: rest) = (readBody rest).map (e.1.toNat :: ·) := by
  simp only [shortEscapes, List.forall_mem_cons]
  exact ⟨fun _ => rfl, fun _ => rfl, fun _ => rfl, fun _ => rfl, fun _ => rfl, fun _ => rfl,
    fun _ => rfl, fun _ he => by cases he⟩

theorem readBody_units {l : List ℕ} (h : ∀ n ∈ l, n < 0x10000) (rest : List Char) :
    readBody (l.flatMap escapeUnit ++ rest) = (readBody rest).map (l ++ ·) := by
  induction l with
  | nil => simp
  | cons n l ih =>
    rw [List.forall_mem_cons] at h
    rw [List.flatMap_cons, List.append_assoc, readBody_escapeUnit h.1, ih h.2, Option.map_map]
    rfl

theorem units_lt (c : Char) : ∀ n ∈ units c, n < 0x10000 := by
  intro n hn
  rw [units] at hn
  split at hn
  · next h => exact List.mem_singleton.mp hn ▸ h
  · simp only [List.mem_cons, List.not_mem_nil, or_false] at hn
    omega

theorem readBody_plain {c : Char} (h : c ∉ ['\\', '"', '\n', '\r']) (rest : List Char) :
    readBody (c :: rest) = (readBody rest).map (c.toNat :: ·) := by
  have hc := h
  simp only [List.mem_cons, List.not_mem_nil, or_false, not_or] at hc
  rw [readBody, if_neg h]
  all_goals intros; simp_all

theorem readBody_escapeChar (c : Char) (rest : List Char) :
    readBody (escapeChar c ++ rest) = (readBody rest).map (units c ++ ·) := by
  have hshort : ∀ e ∈ shortEscapes, units e.1 = [e.1.toNat] := by decide
  rw [escapeChar]
  split
  · next a letter hfind =>
    obtain rfl : a = c := by simpa using List.find?_some hfind
    have hmem := List.mem_of_find?_eq_some hfind
    rw [hshort _ hmem]
    exact readBody_short _ hmem rest
  · next hnone =>
    have hplain : c ∉ ['\\', '"', '\n', '\r'] := by
      have hne := List.find?_eq_none.mp hnone
      intro hc
      simp only [List.mem_cons, List.not_mem_nil, or_false] at hc
      rcases hc with rfl | rfl | rfl | rfl <;> simp [shortEscapes] at hne
    split
    · next hascii =>
      have hlt : c.toNat < 0x10000 :=
        Nat.lt_of_le_of_lt (UInt32.le_iff_toNat_le.mp hascii.2) (by decide)
      rw [units, if_pos hlt]
      exact readBody_plain hplain rest
    · exact readBody_units (units_lt c) rest

theorem readLiteral_safePyText (value : String) :
    readLiteral (safePyText value) = some (value.toList.flatMap units) := by
  have hbody : ∀ l : List Char,
      readBody (l.flatMap escapeChar ++ ['"']) = some (l.flatMap units) := by
    intro l
    induction l with
    | nil => rfl
    | cons c l ih =>
      rw [List.flatMap_cons, List.append_assoc, readBody_escapeChar, ih]
      rfl
  exact hbody value.toList

/-- A text written into exported Polars code is read back by Python as its UTF-16 code units, which
is the text itself exactly if it has no character beyond the basic multilingual plane. -/
theorem exported_text_iff (value : String) :
    readLiteral (safePyText value) = some (value.toList.flatMap units) ∧
      (readLiteral (safePyText value) = some (value.toList.map Char.toNat) ↔
        ∀ c ∈ value.toList, c.toNat < 0x10000) := by
  refine ⟨readLiteral_safePyText value, ?_⟩
  rw [readLiteral_safePyText, Option.some_inj]
  induction value.toList with
  | nil => simp
  | cons c l ih =>
    rw [List.flatMap_cons, List.map_cons, List.forall_mem_cons, ← ih]
    by_cases hc : c.toNat < 0x10000
    · simp [units, hc]
    · have hunit : c.toNat ≠ 0xd800 + (c.toNat - 0x10000) / 1024 % 1024 := by omega
      simp [units, hc, hunit.symm]

example : safePyText "a\"é" = "\"a\\\"\\u00e9\"".toList := by decide

end DataForge.CodeExport
