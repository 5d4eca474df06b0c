import LinearSystem.Proofs.Exact
import LinearSystem.Proofs.Residual

namespace LinearSystem

open Scalar

/-- A configured tolerance that no magnitude can be measured against. -/
def Settings.Unusable (s : Settings) (t : Float) : Prop :=
  s.tolerance = some t ∧ (t.isFinite = false ∨ t < 0)

variable {α : Type} {n m : ℕ}

theorem augmentList?_toList (A : DenseMatrix α n m) (b : Vector α n) :
    A.augmentList? b.toList = some (A.augment b) := by
  have hlen : n ≤ b.toList.length := Vector.length_toList.ge
  rw [DenseMatrix.augmentList?, dif_pos hlen]
  congr 2
  ext i hi
  simp

variable [Scalar α]

/-- The bound up to which magnitudes count as zero. -/
def Settings.bound (α : Type) [Scalar α] (s : Settings) : α :=
  (s.tolerance.map ofFloat).getD defaultTolerance

/-- What has to hold of a matrix and a right-hand side before elimination may touch them. -/
structure WellFormed (A : DenseMatrix α n m) (l : List α) : Prop where
  rows : 0 < n
  columns : 0 < m
  length : l.length = n
  entries : ∀ i j, finite (A i j) = true
  rhs : ∀ x ∈ l, finite x = true

/-- What is wrong with a matrix and a right-hand side; of several defects the first one counts. -/
inductive Malformed (A : DenseMatrix α n m) (l : List α) : SolveError → Prop
  | empty (h : n = 0 ∨ m = 0) : Malformed A l (.emptySystem n m)
  | length (hn : 0 < n) (hm : 0 < m) (h : l.length ≠ n) : Malformed A l (.lengthMismatch n l.length)
  /-- Entries come row by row. -/
  | entry (hl : l.length = n) {i : Fin n} {j : Fin m} (h : finite (A i j) = false)
      (hfirst : ∀ p q, p < i ∨ p = i ∧ q < j → finite (A p q) = true) :
      Malformed A l (.nonFinite i j)
  | rhs (hn : 0 < n) (hm : 0 < m) (hl : l.length = n) (hA : ∀ i j, finite (A i j) = true) {i : ℕ}
      (hi : i < l.length) (h : finite l[i] = false)
      (hfirst : ∀ k (hk : k < i), finite l[k] = true) : Malformed A l (.nonFinite i m)

/-- Why a well-formed system is not solved. -/
inductive Unsolvable (rule : ZeroRowRule) (tol : α) (A : DenseMatrix α n m) (b : Vector α n) :
    SolveError → Prop
  | zeroRow {i : Fin n} (h : BadZeroRow rule tol A b i)
      (hfirst : ∀ k < i, ¬BadZeroRow rule tol A b k) :
      Unsolvable rule tol A b (.zeroRow i (widen (b.get i)))
  | inconsistent (hrow : ∀ i, ¬BadZeroRow rule tol A b i)
      (hrank : rank tol A < rank tol (A.augment b)) :
      Unsolvable rule tol A b (.inconsistent (rank tol A) (rank tol (A.augment b))
        { matrix := (List.finRange n).map fun i => (List.finRange m).map fun j => widen (A i j)
          rhs := (List.finRange n).map fun i => widen (b.get i)
          augmented := (List.finRange n).map fun i =>
            ((List.finRange m).map fun j => widen (A i j)) ++ [widen (b.get i)] })

section Tolerance

variable {settings : Settings}

theorem toleranceFor_of_unusable {t : Float} (h : settings.Unusable t) :
    settings.toleranceFor α = .error (.invalidTolerance t) := by
  obtain ⟨hset, hbad⟩ := h
  have hcond : (!t.isFinite || decide (t < 0)) = true := by simpa using hbad
  simp only [Settings.toleranceFor, hset, hcond, if_true]

theorem toleranceFor_of_usable (h : ∀ t, ¬settings.Unusable t) :
    settings.toleranceFor α = .ok (settings.bound α) := by
  unfold Settings.toleranceFor Settings.bound
  cases hset : settings.tolerance with
  | none => rfl
  | some t =>
    have hcond : (!t.isFinite || decide (t < 0)) = false := by
      simpa [Settings.Unusable, hset] using h t
    simp only [hcond, Bool.false_eq_true, if_false, Option.map_some, Option.getD_some]

end Tolerance

section Validate

variable {A : DenseMatrix α n m} {l : List α}

theorem firstNonFinite?_eq_some_iff {i : Fin n} {j : Fin m} :
    A.firstNonFinite? = some (i, j) ↔ finite (A i j) = false ∧
      ∀ p q, p < i ∨ p = i ∧ q < j → finite (A p q) = true := by
  rw [DenseMatrix.firstNonFinite?, ← Fin.findSome?_eq_findSome?_finRange, Fin.findSome?_eq_some_iff]
  simp only [← Fin.find?_eq_find?_finRange, Option.map_eq_some_iff, Option.map_eq_none_iff,
    Fin.find?_eq_some_iff, Fin.find?_eq_none_iff, Prod.mk.injEq, Bool.not_eq_true',
    Bool.not_eq_false']
  constructor
  · rintro ⟨p, ⟨q, ⟨hbad, hrow⟩, rfl, rfl⟩, habove⟩
    refine ⟨hbad, fun p' q' hbefore => ?_⟩
    rcases hbefore with hlt | ⟨rfl, hlt⟩
    · exact habove p' hlt q'
    · exact hrow q' hlt
  · rintro ⟨hbad, hfirst⟩
    exact ⟨i, ⟨j, ⟨hbad, fun q hq => hfirst i q (.inr ⟨rfl, hq⟩)⟩, rfl, rfl⟩,
      fun p hp q => hfirst p q (.inl hp)⟩

theorem firstNonFinite?_eq_none_iff :
    A.firstNonFinite? = none ↔ ∀ i j, finite (A i j) = true := by
  simp [DenseMatrix.firstNonFinite?]

theorem findIdx?_of_first_nonFinite {i : ℕ} (hi : i < l.length) (h : finite l[i] = false)
    (hfirst : ∀ k (hk : k < i), finite l[k] = true) : l.findIdx? (!finite ·) = some i := by
  rw [List.findIdx?_eq_some_iff_getElem]
  refine ⟨hi, by rw [h]; rfl, fun k hk => ?_⟩
  rw [hfirst k hk]
  decide

theorem Malformed.validate {e : SolveError} (h : Malformed A l e) : validate A l = .error e := by
  unfold LinearSystem.validate
  cases h with
  | empty h => rw [if_pos h]
  | length hn hm h => rw [if_neg (by omega), dif_neg h]
  | @entry hl i j h hfirst =>
    have hn := i.isLt
    have hm := j.isLt
    rw [if_neg (by omega), dif_pos hl]
    simp only [firstNonFinite?_eq_some_iff.mpr ⟨h, hfirst⟩]
  | rhs hn hm hl hA hi h hfirst =>
    rw [if_neg (by omega), dif_pos hl]
    simp only [firstNonFinite?_eq_none_iff.mpr hA, findIdx?_of_first_nonFinite hi h hfirst]

/-- An input is in order, or one of its defects is the first one. -/
theorem wellFormed_or_malformed (A : DenseMatrix α n m) (l : List α) :
    WellFormed A l ∨ ∃ e, Malformed A l e := by
  by_cases hempty : n = 0 ∨ m = 0
  · exact .inr ⟨_, .empty hempty⟩
  have hn : 0 < n := by omega
  have hm : 0 < m := by omega
  by_cases hl : l.length = n
  · cases hA : A.firstNonFinite? with
    | some p =>
      obtain ⟨h, hfirst⟩ := firstNonFinite?_eq_some_iff.mp hA
      exact .inr ⟨_, .entry hl h hfirst⟩
    | none =>
      rw [firstNonFinite?_eq_none_iff] at hA
      cases hb : l.findIdx? (!finite ·) with
      | some i =>
        obtain ⟨hi, h, hfirst⟩ := List.findIdx?_eq_some_iff_getElem.mp hb
        exact .inr ⟨_, .rhs hn hm hl hA hi (by simpa using h) (by simpa using hfirst)⟩
      | none =>
        have hrhs : ∀ x ∈ l, finite x = true := by simpa [List.findIdx?_eq_none_iff] using hb
        exact .inl ⟨hn, hm, hl, hA, hrhs⟩
  · exact .inr ⟨_, .length hn hm hl⟩

end Validate

section Solve

variable {pivoting : PivotRule} {rule : ZeroRowRule} {tol : α} {A : DenseMatrix α n m}
  {b : Vector α n}

theorem diagnose_eq (A : DenseMatrix α n m) (b : Vector α n) :
    diagnose A b =
      { matrix := (List.finRange n).map fun i => (List.finRange m).map fun j => widen (A i j)
        rhs := (List.finRange n).map fun i => widen (b.get i)
        augmented := (List.finRange n).map fun i =>
          ((List.finRange m).map fun j => widen (A i j)) ++ [widen (b.get i)] } := by
  have hrow : ∀ {k : ℕ} (B : DenseMatrix α n k) i,
      ((B.map widen).row i).toList = (List.finRange k).map fun j => widen (B i j) := by
    intro k B i
    rw [toList_eq_map_get]
    exact List.map_congr_left fun j _ => DenseMatrix.map_apply widen B i j
  have hlast : ∀ i, ((List.finRange (m + 1)).map fun j => widen (A.augment b i j)) =
      ((List.finRange m).map fun j => widen (A i j)) ++ [widen (b.get i)] := by
    intro i
    rw [List.finRange_succ_last, List.map_append, List.map_map, List.map_singleton,
      DenseMatrix.augment_last]
    simp only [Function.comp_def, DenseMatrix.augment_castSucc]
  simp only [diagnose, toLists_eq_map_row, hrow, hlast, toList_eq_map_get, List.map_map,
    Function.comp_def]

theorem solveAt_eq_error_iff {e : SolveError} :
    solveAt pivoting rule tol A b = .error e ↔ Unsolvable rule tol A b e := by
  constructor
  · intro he
    cases hrow : badZeroRow? rule tol A b with
    | some i =>
      obtain ⟨h, hfirst⟩ := badZeroRow?_eq_some_iff.mp hrow
      obtain rfl := Except.error.inj ((solveAt_of_zeroRow hrow).symm.trans he)
      exact .zeroRow h hfirst
    | none =>
      by_cases hrank : rank tol A < rank tol (A.augment b)
      · obtain rfl := Except.error.inj ((solveAt_of_rank_lt hrow hrank).symm.trans he)
        rw [diagnose_eq]
        exact .inconsistent (badZeroRow?_eq_none_iff.mp hrow) hrank
      · rw [solveAt_of_rank_not_lt hrow hrank] at he
        cases he
  · intro h
    cases h with
    | zeroRow h hfirst => exact solveAt_of_zeroRow (badZeroRow?_eq_some_iff.mpr ⟨h, hfirst⟩)
    | inconsistent hrow hrank =>
      rw [← diagnose_eq]
      exact solveAt_of_rank_lt (badZeroRow?_eq_none_iff.mpr hrow) hrank

theorem exists_solveAt_eq_ok_iff :
    (∃ s, solveAt pivoting rule tol A b = .ok s) ↔
      (∀ i, ¬BadZeroRow rule tol A b i) ∧ ¬rank tol A < rank tol (A.augment b) := by
  simp only [solveAt_eq_ok_iff, badZeroRow?_eq_none_iff, exists_and_left, exists_eq, and_true]

theorem Malformed.isInvalidInput {l : List α} {e : SolveError} (h : Malformed A l e) :
    e.isInvalidInput = true := by
  cases h <;> rfl

theorem Unsolvable.not_isInvalidInput {e : SolveError} (h : Unsolvable rule tol A b e) :
    e.isInvalidInput = false := by
  cases h <;> rfl

end Solve

/-- The reasons for which an input is refused, in their order: each one is reached when none of
those before it applies. -/
inductive Refused (settings : Settings) (A : DenseMatrix α n m) (l : List α) : SolveError → Prop
  | tolerance {t : Float} (h : settings.Unusable t) : Refused settings A l (.invalidTolerance t)
  | malformed (husable : ∀ t, ¬settings.Unusable t) {e : SolveError} (h : Malformed A l e) :
      Refused settings A l e
  | unsolvable (husable : ∀ t, ¬settings.Unusable t) (hform : WellFormed A l) {b : Vector α n}
      (hb : b.toList = l) {e : SolveError}
      (h : Unsolvable settings.zeroRows (settings.bound α) A b e) : Refused settings A l e

section Stages

variable {settings : Settings} {A : DenseMatrix α n m} {l : List α}

theorem answers_of_unusable {t : Float} (h : settings.Unusable t) :
    solve settings A l = .error (.invalidTolerance t) ∧
      classify settings A l = .error (.invalidTolerance t) := by
  rw [solve, classify, toleranceFor_of_unusable h]
  exact ⟨rfl, rfl⟩

theorem answers_of_malformed (husable : ∀ t, ¬settings.Unusable t) {e : SolveError}
    (h : Malformed A l e) :
    solve settings A l = .error e ∧ classify settings A l = .error e := by
  rw [solve, classify, toleranceFor_of_usable husable, h.validate]
  exact ⟨rfl, rfl⟩

theorem answers_of_wellFormed (husable : ∀ t, ¬settings.Unusable t) {b : Vector α n}
    (h : WellFormed A b.toList) :
    solve settings A b.toList =
        solveAt settings.pivoting settings.zeroRows (settings.bound α) A b ∧
      classify settings A b.toList = .ok (ranksAt (settings.bound α) A b) := by
  have hvalid := validate_of_finite h.rows h.columns h.entries h.rhs
  rw [solve, classify, toleranceFor_of_usable husable, hvalid]
  exact ⟨rfl, rfl⟩

/-- A first look at an input: its tolerance is unusable, its shape or entries are, or neither. -/
theorem input_cases (settings : Settings) (A : DenseMatrix α n m) (l : List α) :
    (∃ t, settings.Unusable t) ∨ (∀ t, ¬settings.Unusable t) ∧
      ((∃ e, Malformed A l e) ∨ ∃ b : Vector α n, b.toList = l ∧ WellFormed A b.toList) := by
  by_cases husable : ∀ t, ¬settings.Unusable t
  · refine .inr ⟨husable, ?_⟩
    rcases wellFormed_or_malformed A l with hform | hbad
    · exact .inr ⟨⟨l.toArray, hform.length⟩, rfl, hform⟩
    · exact .inl hbad
  · exact .inl (not_forall_not.mp husable)

theorem solve_eq_error_iff_refused {e : SolveError} :
    solve settings A l = .error e ↔ Refused settings A l e := by
  constructor
  · intro he
    rcases input_cases settings A l with ⟨t, h⟩ | ⟨husable, ⟨e', h⟩ | ⟨b, rfl, hform⟩⟩
    · obtain rfl := Except.error.inj ((answers_of_unusable h).1.symm.trans he)
      exact .tolerance h
    · obtain rfl := Except.error.inj ((answers_of_malformed husable h).1.symm.trans he)
      exact .malformed husable h
    · rw [(answers_of_wellFormed husable hform).1] at he
      exact .unsolvable husable hform rfl (solveAt_eq_error_iff.mp he)
  · intro h
    cases h with
    | tolerance h => exact (answers_of_unusable h).1
    | malformed husable h => exact (answers_of_malformed husable h).1
    | unsolvable husable hform hb h =>
      subst hb
      exact (answers_of_wellFormed husable hform).1.trans (solveAt_eq_error_iff.mpr h)

theorem exists_solve_eq_ok_iff :
    (∃ s, solve settings A l = .ok s) ↔
      (∀ t, ¬settings.Unusable t) ∧ WellFormed A l ∧ ∃ b : Vector α n, b.toList = l ∧
        (∀ i, ¬BadZeroRow settings.zeroRows (settings.bound α) A b i) ∧
        ¬rank (settings.bound α) A < rank (settings.bound α) (A.augment b) := by
  constructor
  · intro hok
    rcases input_cases settings A l with ⟨t, h⟩ | ⟨husable, ⟨e, h⟩ | ⟨b, rfl, hform⟩⟩
    · simp [(answers_of_unusable h).1] at hok
    · simp [(answers_of_malformed husable h).1] at hok
    · rw [(answers_of_wellFormed husable hform).1] at hok
      exact ⟨husable, hform, b, rfl, exists_solveAt_eq_ok_iff.mp hok⟩
  · intro h
    obtain ⟨husable, hform, b, rfl, hsolvable⟩ := h
    rw [(answers_of_wellFormed husable hform).1]
    exact exists_solveAt_eq_ok_iff.mpr hsolvable

/-- Classifying refuses what solving refuses as invalid, and nothing else. -/
theorem classify_eq_error_iff {e : SolveError} :
    classify settings A l = .error e ↔
      solve settings A l = .error e ∧ e.isInvalidInput = true := by
  rcases input_cases settings A l with ⟨t, h⟩ | ⟨husable, ⟨e', h⟩ | ⟨b, rfl, hform⟩⟩
  · simp only [answers_of_unusable h, Except.error.injEq]
    exact ⟨fun he => ⟨he, he ▸ rfl⟩, And.left⟩
  · simp only [answers_of_malformed husable h, Except.error.injEq]
    exact ⟨fun he => ⟨he, he ▸ h.isInvalidInput⟩, And.left⟩
  · rw [(answers_of_wellFormed husable hform).1, (answers_of_wellFormed husable hform).2,
      solveAt_eq_error_iff]
    simp only [reduceCtorEq, false_iff, not_and, Bool.not_eq_true]
    exact Unsolvable.not_isInvalidInput

end Stages

/-- The answer to every input: it is refused for the first reason that applies, and solved if there
is none; past the first checks no value of the right-hand side is missing when the two are put side
by side. Classifying stops at the first checks. -/
theorem solve_refuses_for_first_reason (settings : Settings) (A : DenseMatrix α n m) (l : List α) :
    (∀ e, solve settings A l = .error e ↔ Refused settings A l e) ∧
    ((∃ s, solve settings A l = .ok s) ↔
      (∀ t, ¬settings.Unusable t) ∧ WellFormed A l ∧ ∃ b : Vector α n, b.toList = l ∧
        (∀ i, ¬BadZeroRow settings.zeroRows (settings.bound α) A b i) ∧
        ¬rank (settings.bound α) A < rank (settings.bound α) (A.augment b)) ∧
    (WellFormed A l →
      ∃ b : Vector α n, b.toList = l ∧ A.augmentList? l = some (A.augment b)) ∧
    ∀ e, classify settings A l = .error e ↔
      solve settings A l = .error e ∧ e.isInvalidInput = true := by
  refine ⟨fun _ => solve_eq_error_iff_refused, exists_solve_eq_ok_iff, fun hform => ?_,
    fun _ => classify_eq_error_iff⟩
  exact ⟨⟨l.toArray, hform.length⟩, rfl, augmentList?_toList A ⟨l.toArray, hform.length⟩⟩

end LinearSystem
