import DataForge.Operations.Filter

/-!
# Negated filters

When the conditions with `notEqual`, `notContains` and `notIn` keep the cells that
`equal`, `contains` and `in` drop, and when a one-element list keeps what its element does.
-/

namespace DataForge.Operations

namespace Polars

variable {ν : Type} (P : Polars ν)

/-- Whether an operator holds of a non-null cell and a bare value. -/
def holds (op : FilterOperator) (c v : Scalar ν) : Except FilterError Bool :=
  (· == some true) <$> P.apply op (.scalar v) (some c)

/-- Folding the verdicts of the elements of a list. -/
def fold (op : FilterOperator) (verdicts : List Bool) : Bool :=
  if op.foldsListWithAll then verdicts.all id else verdicts.any id

private theorem comparison_some (keep : Ordering → Bool) (c v : Scalar ν) :
    P.comparison keep v (some c) = some <$> (keep <$> P.order c v) := by
  rw [comparison]
  cases P.order c v with
  | error e => rfl
  | ok o => rfl

private theorem textMethod_some (method : String → Except FilterError (String → Bool))
    (c v : Scalar ν) : ∃ r, textMethod method v (some c) = some <$> r := by
  cases v with
  | other v => exact ⟨.error .polars, rfl⟩
  | text v =>
    cases c with
    | other c => exact ⟨.error .polars, rfl⟩
    | text c =>
      refine ⟨(fun find => find c) <$> method v, ?_⟩
      rw [textMethod]
      cases method v with
      | error e => rfl
      | ok find => rfl

private theorem isIn_some (c v : Scalar ν) :
    ∃ r, P.isIn (.scalar v) (some c) = some <$> r := by
  rw [isIn]
  cases P.isInScalar c v with
  | none => exact ⟨.error .polars, rfl⟩
  | some b => exact ⟨.ok b, rfl⟩

private theorem negate_some {e : Expr ν} {c : Scalar ν}
    (h : ∃ r, e (some c) = some <$> r) : ∃ r, negate e (some c) = some <$> r := by
  obtain ⟨r, hr⟩ := h
  refine ⟨(!·) <$> r, ?_⟩
  rw [negate, hr]
  cases r with
  | error e => rfl
  | ok b => rfl

theorem apply_known (op : FilterOperator) (c v : Scalar ν) :
    ∃ r, P.apply op (.scalar v) (some c) = some <$> r := by
  cases op with
  | equal | doubleEqual | notEqual | greaterThan | lessThan | greaterEqual | lessEqual =>
    exact ⟨_, P.comparison_some _ c v⟩
  | contains | startsWith | endsWith | regex => exact textMethod_some _ c v
  | notContains => exact negate_some (textMethod_some _ c v)
  | isNull => exact ⟨.ok false, rfl⟩
  | isNotNull => exact ⟨.ok true, rfl⟩
  | «in» => exact P.isIn_some c v
  | notIn => exact negate_some (P.isIn_some c v)

theorem apply_eq_holds (op : FilterOperator) (c v : Scalar ν) :
    P.apply op (.scalar v) (some c) = some <$> P.holds op c v := by
  obtain ⟨r, hr⟩ := P.apply_known op c v
  rw [holds, hr]
  cases r with
  | error e => rfl
  | ok b => cases b <;> rfl

theorem holds_notEqual (c v : Scalar ν) :
    P.holds .notEqual c v = (!·) <$> P.holds .equal c v := by
  change _ <$> P.comparison _ v (some c) = _ <$> (_ <$> P.comparison _ v (some c))
  rw [comparison_some, comparison_some]
  cases P.order c v with
  | error e => rfl
  | ok o => cases o <;> rfl

private theorem holds_negate {e : Expr ν} {c : Scalar ν}
    (h : ∃ r, e (some c) = some <$> r) :
    (· == some true) <$> negate e (some c) = (!·) <$> ((· == some true) <$> e (some c)) := by
  obtain ⟨r, hr⟩ := h
  rw [negate, hr]
  cases r with
  | error e => rfl
  | ok b => cases b <;> rfl

theorem holds_notContains (c v : Scalar ν) :
    P.holds .notContains c v = (!·) <$> P.holds .contains c v :=
  holds_negate (P.apply_known .contains c v)

theorem holds_notIn (c v : Scalar ν) :
    P.holds .notIn c v = (!·) <$> P.holds .«in» c v :=
  holds_negate (P.apply_known .«in» c v)

theorem keeps_scalar {op : FilterOperator} (h : op ≠ .regex) (c v : Scalar ν) :
    P.keeps op (.scalar v) (some c) = P.holds op c v := by
  have hvalue : P.applyValue op (.scalar v) = .ok (P.apply op (.scalar v)) := by
    cases v with
    | other v => rfl
    | text s =>
      simp only [applyValue, FilterOperator.emptyStringResult,
        FilterOperator.requiresRegexValidation, h, if_false, decide_false, Bool.false_and]
      rfl
  rw [keeps, hvalue, holds]
  change (do
    let r ← P.apply op (.scalar v) (some c)
    return r == some true) = _
  cases P.apply op (.scalar v) (some c) with
  | error e => rfl
  | ok b => rfl

/-- A list is applied element by element and folded. -/
theorem keeps_list {op : FilterOperator} (h : op.isMembership = false) {vs : List (Scalar ν)}
    (hvs : vs ≠ []) (c : Scalar ν) :
    P.keeps op (.list vs) (some c) = fold op <$> vs.mapM (P.holds op c) := by
  have hempty : vs.isEmpty = false := by
    rw [List.isEmpty_eq_false_iff]
    exact hvs
  have hmap : (vs.map fun item => P.apply op (.scalar item)).mapM (fun e => e (some c)) =
      List.map some <$> vs.mapM (P.holds op c) := by
    rw [List.mapM_map, ← Effects.mapM_map_results]
    exact congrArg (vs.mapM ·) (funext fun v => P.apply_eq_holds op c v)
  change (do
    let r ← P.applyList op vs (some c)
    return r == some true) = _
  rw [applyList, hempty, h]
  cases hfold : op.foldsListWithAll with
  | true =>
    simp only [Bool.false_eq_true, if_false, if_true, allHorizontal, hmap]
    cases vs.mapM (P.holds op c) with
    | error e => rfl
    | ok bs =>
      change Except.ok (Kleene.all (bs.map some) == some true) = Except.ok (fold op bs)
      rw [Kleene.all_map_some, fold, hfold, if_pos rfl]
      cases bs.all id <;> rfl
  | false =>
    simp only [Bool.false_eq_true, if_false, anyHorizontal, hmap]
    cases vs.mapM (P.holds op c) with
    | error e => rfl
    | ok bs =>
      change Except.ok (Kleene.any (bs.map some) == some true) = Except.ok (fold op bs)
      rw [Kleene.any_map_some, fold, hfold, if_neg Bool.false_ne_true]
      cases bs.any id <;> rfl

/-- What negated filters and one-element lists promise of a condition value and a
non-null cell. -/
structure FilterLaws (value : Value ν) (c : Scalar ν) : Prop where
  notEqual : P.keeps .notEqual value (some c) = (!·) <$> P.keeps .equal value (some c)
  notContains :
    P.keeps .notContains value (some c) = (!·) <$> P.keeps .contains value (some c)
  notIn : P.keeps .notIn value (some c) = (!·) <$> P.keeps .«in» value (some c)
  singleton : ∀ v, value = .scalar v → ∀ op : FilterOperator, op.isMembership = false →
    (P.keeps op (.list [v]) (some c)).toOption = (P.keeps op (.scalar v) (some c)).toOption

/-- The values the operators treat alike: a list with an element of a type the cell does
not compare with, or a non-empty one whose elements all equal the cell or all differ from
it; a bare value that is no string, or a non-empty string that Python and Polars accept
alike as a pattern. -/
def Uniform : Value ν → Scalar ν → Prop
  | .list vs, c =>
    (∃ v ∈ vs, P.order c v = .error .polars) ∨
      vs ≠ [] ∧ ((∀ v ∈ vs, P.order c v = .ok .eq) ∨ ∀ v ∈ vs, P.order c v ≠ .ok .eq)
  | .scalar (.text p), c =>
    p ≠ "" ∧ (P.reCompile p = true ∨ P.search p = none ∨ ∃ v, c = .other v)
  | .scalar (.other _), _ => True

private theorem order_error {c v : Scalar ν} {e : FilterError} (h : P.order c v = .error e) :
    P.order c v = .error .polars := by
  cases e with
  | polars => exact h
  | invalidRegex =>
    cases c with
    | text a =>
      cases v with
      | text b => cases h
      | other b => cases h
    | other a =>
      cases v with
      | text b => cases h
      | other b =>
        rw [order] at h
        cases hcmp : P.compare a b with
        | none =>
          rw [hcmp] at h
          cases h
        | some o =>
          rw [hcmp] at h
          cases h

theorem holds_equal (c v : Scalar ν) : P.holds .equal c v = (· == .eq) <$> P.order c v := by
  change _ <$> P.comparison _ v (some c) = _
  rw [comparison_some]
  cases P.order c v with
  | error e => rfl
  | ok o => cases o <;> rfl

private theorem any_not_iff {bs : List Bool} (h : bs ≠ []) :
    (bs.map (!·)).any id = !bs.any id ↔ (∀ b ∈ bs, b = true) ∨ ∀ b ∈ bs, b = false := by
  cases bs with
  | nil => exact absurd rfl h
  | cons b bs =>
    have htrue : (∀ b ∈ bs, b = true) ↔ (bs.map (!·)).any id = false := by
      simp
    have hfalse : (∀ b ∈ bs, b = false) ↔ bs.any id = false := by
      simp
    rw [List.map_cons, List.any_cons, List.any_cons, List.forall_mem_cons,
      List.forall_mem_cons, htrue, hfalse]
    cases b with
    | true => simp
    | false => simp

/-- The negated comparisons of a list are complementary exactly for uniform lists. -/
theorem notEqual_list_iff (vs : List (Scalar ν)) (c : Scalar ν) :
    P.keeps .notEqual (.list vs) (some c) = (!·) <$> P.keeps .equal (.list vs) (some c) ↔
      P.Uniform (.list vs) c := by
  by_cases hvs : vs = []
  · subst hvs
    constructor
    · intro h
      cases h
    · rintro (⟨v, hv, -⟩ | ⟨h, -⟩)
      · cases hv
      · exact absurd rfl h
  rw [P.keeps_list rfl hvs, P.keeps_list rfl hvs,
    show P.holds .notEqual c = fun v => (!·) <$> P.holds .equal c v from
      funext (P.holds_notEqual c), Effects.mapM_map_results,
    show P.holds .equal c = fun v => (· == .eq) <$> P.order c v from
      funext (P.holds_equal c), Effects.mapM_map_results]
  cases hos : vs.mapM (P.order c) with
  | error e =>
    obtain ⟨v, hv, he⟩ := Effects.mapM_error hos
    exact ⟨fun _ => .inl ⟨v, hv, P.order_error he⟩, fun _ => rfl⟩
  | ok os =>
    have hall := Effects.mapM_ok.mp hos
    have hne : os.map (· == Ordering.eq) ≠ [] := by
      rw [ne_eq, List.map_eq_nil_iff]
      rintro rfl
      exact hvs (List.forall₂_nil_right_iff.mp hall)
    have hlaw : (Except.ok (fold .notEqual ((os.map (· == .eq)).map (!·))) :
        Except FilterError Bool) = .ok (!fold .equal (os.map (· == .eq))) ↔
          (∀ o ∈ os, o = .eq) ∨ ∀ o ∈ os, o ≠ .eq := by
      rw [Except.ok.injEq]
      refine (any_not_iff hne).trans ?_
      rw [List.forall_mem_map, List.forall_mem_map]
      simp only [beq_iff_eq, beq_eq_false_iff_ne]
    have herr : ¬ ∃ v ∈ vs, P.order c v = .error .polars := by
      rintro ⟨v, hv, he⟩
      obtain ⟨o, -, ho⟩ := Effects.forall₂_left hall hv
      rw [he] at ho
      cases ho
    refine hlaw.trans ?_
    rw [Uniform, or_iff_right herr, and_iff_right hvs]
    refine or_congr (Effects.forall₂_forall_iff hall ?_).symm
      (Effects.forall₂_forall_iff hall ?_).symm
    · intro v o h
      rw [h, Except.ok.injEq]
    · intro v o h
      rw [h, ne_eq, Except.ok.injEq]

theorem notContains_list (vs : List (Scalar ν)) (c : Scalar ν) :
    P.keeps .notContains (.list vs) (some c) =
      (!·) <$> P.keeps .contains (.list vs) (some c) := by
  by_cases hvs : vs = []
  · subst hvs
    rfl
  rw [P.keeps_list rfl hvs, P.keeps_list rfl hvs,
    show P.holds .notContains c = fun v => (!·) <$> P.holds .contains c v from
      funext (P.holds_notContains c), Effects.mapM_map_results]
  cases vs.mapM (P.holds .contains c) with
  | error e => rfl
  | ok bs =>
    change Except.ok ((bs.map (!·)).all id) = Except.ok (!bs.any id)
    rw [List.all_map, List.not_any_eq_all_not]
    rfl

theorem notIn_list (vs : List (Scalar ν)) (c : Scalar ν) :
    P.keeps .notIn (.list vs) (some c) = (!·) <$> P.keeps .«in» (.list vs) (some c) := by
  cases vs with
  | nil => rfl
  | cons v vs =>
    change (do
      let r ← Kleene.not <$> P.isIn (.list (v :: vs)) (some c)
      return r == some true) = (!·) <$> (do
        let r ← P.isIn (.list (v :: vs)) (some c)
        return r == some true)
    rw [isIn]
    cases (v :: vs).mapM (P.order c) with
    | error e => rfl
    | ok os =>
      change Except.ok (some (!os.any (· == .eq)) == some true) =
        Except.ok (!(some (os.any (· == .eq)) == some true))
      cases os.any (· == .eq) <;> rfl

theorem singleton_of_ne_regex {op : FilterOperator} (h : op ≠ .regex)
    (hmem : op.isMembership = false) (c v : Scalar ν) :
    P.keeps op (.list [v]) (some c) = P.keeps op (.scalar v) (some c) := by
  rw [P.keeps_list hmem (List.cons_ne_nil v []), P.keeps_scalar h, List.mapM_cons]
  cases P.holds op c v with
  | error e => rfl
  | ok b =>
    change Except.ok (fold op [b]) = Except.ok b
    rw [fold, List.all_cons, List.any_cons]
    cases op.foldsListWithAll <;> cases b <;> rfl

/-- A one-element list of regular expressions keeps what its element does for the strings
that both sides of the code read alike. -/
theorem singleton_regex_iff (c : Scalar ν) (p : String) :
    (P.keeps .regex (.list [.text p]) (some c)).toOption =
        (P.keeps .regex (.scalar (.text p)) (some c)).toOption ↔
      P.Uniform (.scalar (.text p)) c := by
  rw [P.keeps_list rfl (List.cons_ne_nil _ []), List.mapM_cons]
  by_cases hp : p = ""
  · subst hp
    obtain ⟨find, hfind, htrue⟩ := P.search_empty
    refine iff_of_false ?_ fun h => h.1 rfl
    cases c with
    | other v =>
      intro h
      cases h
    | text s =>
      have hholds : P.holds .regex (.text s) (.text "") = .ok true := by
        change (_ <$> (do
          let method ← P.strMatches ""
          return some (method s))) = _
        rw [strMatches, hfind]
        change Except.ok (some (find s) == some true) = _
        rw [htrue]
        rfl
      rw [hholds]
      intro h
      cases h
  have hlist : (fold .regex <$> do
      let b ← P.holds .regex c (.text p)
      let bs ← [].mapM (P.holds .regex c)
      return b :: bs) = P.holds .regex c (.text p) := by
    cases P.holds .regex c (.text p) with
    | error e => rfl
    | ok b => cases b <;> rfl
  rw [hlist]
  cases hre : P.reCompile p with
  | true =>
    have hscalar : P.keeps .regex (.scalar (.text p)) (some c) = P.holds .regex c (.text p) := by
      rw [keeps, applyValue, decide_eq_false hp, hre]
      change (do
        let r ← P.apply .regex (.scalar (.text p)) (some c)
        return r == some true) = _
      rw [holds]
      cases P.apply .regex (.scalar (.text p)) (some c) with
      | error e => rfl
      | ok b => rfl
    rw [hscalar]
    exact iff_of_true rfl ⟨hp, .inl hre⟩
  | false =>
    have hscalar : P.keeps .regex (.scalar (.text p)) (some c) = .error .invalidRegex := by
      rw [keeps, applyValue, decide_eq_false hp, hre]
      rfl
    rw [hscalar, Uniform, hre, and_iff_right hp, or_iff_right Bool.false_ne_true]
    cases c with
    | other v => exact iff_of_true rfl (.inr ⟨v, rfl⟩)
    | text s =>
      have hholds : P.holds .regex (.text s) (.text p) =
          (· s) <$> (P.search p).elim (.error .polars) .ok := by
        change (_ <$> (do
          let method ← P.strMatches p
          return some (method s))) = _
        rw [strMatches]
        cases P.search p with
        | none => rfl
        | some find =>
          change Except.ok (some (find s) == some true) = Except.ok (find s)
          cases find s <;> rfl
      rw [hholds]
      cases P.search p with
      | none => exact iff_of_true rfl (.inl rfl)
      | some find =>
        refine iff_of_false ?_ ?_
        · intro h
          cases h
        · rintro (h | ⟨v, h⟩)
          · cases h
          · cases h

/-- Negated filters are complements, and a one-element list keeps what its element does,
exactly for the uniform values. -/
theorem filterLaws_iff_uniform (value : Value ν) (c : Scalar ν) :
    P.FilterLaws value c ↔ P.Uniform value c := by
  cases value with
  | list vs =>
    constructor
    · exact fun h => (P.notEqual_list_iff vs c).mp h.notEqual
    · intro h
      exact ⟨(P.notEqual_list_iff vs c).mpr h, P.notContains_list vs c, P.notIn_list vs c,
        fun v hv => by cases hv⟩
  | scalar v =>
    have hne : ∀ {op : FilterOperator} (_ : op ≠ .regex) {pos} (_ : pos ≠ .regex),
        P.holds op c v = (!·) <$> P.holds pos c v →
          P.keeps op (.scalar v) (some c) = (!·) <$> P.keeps pos (.scalar v) (some c) := by
      intro op hop pos hpos h
      rw [P.keeps_scalar hop, P.keeps_scalar hpos, h]
    have hlaws : P.FilterLaws (.scalar v) c ↔
        (P.keeps .regex (.list [v]) (some c)).toOption =
          (P.keeps .regex (.scalar v) (some c)).toOption := by
      constructor
      · exact fun h => h.singleton v rfl .regex rfl
      · intro h
        refine ⟨hne (by decide) (by decide) (P.holds_notEqual c v),
          hne (by decide) (by decide) (P.holds_notContains c v),
          hne (by decide) (by decide) (P.holds_notIn c v), ?_⟩
        intro v' hv op hmem
        cases hv
        by_cases hop : op = .regex
        · rw [hop]
          exact h
        · rw [P.singleton_of_ne_regex hop hmem]
    rw [hlaws]
    cases v with
    | text p => exact P.singleton_regex_iff c p
    | other v =>
      refine iff_of_true ?_ trivial
      cases c <;> rfl

end Polars

/-- Integer columns, with the regular expressions that are plain words. -/
def plainWords : Polars Int where
  compare a b := some (Ord.compare a b)
  search p :=
    if p.toList.all Char.isAlpha then some fun s => decide (p.toList <:+: s.toList) else none
  reCompile p := p.toList.all Char.isAlpha
  isInScalar c v := some (decide (c = v))
  search_empty := ⟨_, rfl, fun _ => decide_eq_true List.nil_infix⟩

/-- Of a list of two numbers both `equal` and `notEqual` keep the first. -/
theorem not_filterLaws_notEqual :
    ¬ plainWords.FilterLaws (.list [.other 1, .other 2]) (.other 1) := by
  intro h
  have hlaw := h.notEqual
  cases hlaw

end DataForge.Operations
