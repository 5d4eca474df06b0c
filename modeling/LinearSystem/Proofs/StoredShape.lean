import LinearSystem.Proofs.Refusal
import LinearSystem.Stored.Error
import LinearSystem.Stored.System

namespace LinearSystem

section Rows

variable {α : Type} {rows : List (List α)} {expected : ℕ}

theorem firstRagged?_eq_findIdx? (start : ℕ) :
    firstRagged? expected start rows =
      (rows.findIdx? fun r => r.length != expected).map fun i =>
        (start + i, (rows.getD i []).length) := by
  induction rows generalizing start with
  | nil => rfl
  | cons r rows ih =>
    rw [firstRagged?, List.findIdx?_cons]
    by_cases hr : r.length = expected
    · have hnot : (r.length != expected) = false := by simp [hr]
      rw [if_pos hr, hnot, ih (start + 1), if_neg Bool.false_ne_true, Option.map_map]
      simp [Function.comp_def, Nat.add_assoc, Nat.add_comm 1]
    · have hbad : (r.length != expected) = true := by simp [hr]
      rw [if_neg hr, hbad]
      rfl

theorem firstRagged?_eq_none_iff :
    firstRagged? expected 0 rows = none ↔ ∀ r ∈ rows, r.length = expected := by
  rw [firstRagged?_eq_findIdx?, Option.map_eq_none_iff, List.findIdx?_eq_none_iff]
  simp

theorem firstRagged?_eq_some_iff {i got : ℕ} :
    firstRagged? expected 0 rows = some (i, got) ↔
      ∃ hi : i < rows.length, rows[i].length = got ∧ rows[i].length ≠ expected ∧
        ∀ k (hk : k < i), rows[k].length = expected := by
  rw [firstRagged?_eq_findIdx?, Option.map_eq_some_iff]
  simp only [List.findIdx?_eq_some_iff_getElem, Prod.mk.injEq, Nat.zero_add]
  constructor
  · rintro ⟨k, ⟨hk, hbad, hfirst⟩, rfl, rfl⟩
    exact ⟨hk, by simp [hk], by simpa using hbad, by simpa using hfirst⟩
  · rintro ⟨hi, rfl, hbad, hfirst⟩
    exact ⟨i, ⟨hi, by simpa using hbad, by simpa using hfirst⟩, rfl, by simp [hi]⟩

/-- A matrix with the entries of given rows has these rows. -/
theorem DenseMatrix.toLists_eq_of_entries {A : DenseMatrix α rows.length expected}
    (hlength : ∀ r ∈ rows, r.length = expected)
    (h : ∀ (i : Fin rows.length) (j : Fin expected), rows[i][j]? = some (A i j)) :
    A.toLists = rows := by
  have hcount : A.toLists.length = rows.length := by simp [toLists]
  refine List.ext_getElem hcount fun i hi hi' => ?_
  have hrow : A.toLists[i] = (A.row ⟨i, hi'⟩).toList := by
    simp [toLists, row, Vector.get]
  rw [hrow]
  have hwidth : rows[i].length = expected := hlength _ (List.getElem_mem hi')
  refine List.ext_getElem (by simp [hwidth]) fun j hj hj' => ?_
  have hentry := h ⟨i, hi'⟩ ⟨j, hwidth ▸ hj'⟩
  rw [Vector.getElem_toList]
  exact (List.getElem_eq_iff hj').mpr hentry |>.symm

/-- Rows of one length that is not zero make a matrix with their entries. -/
theorem DenseMatrix.exists_ofRows (hrows : rows ≠ []) (hwidth : 0 < width rows)
    (hlength : ∀ r ∈ rows, r.length = width rows) :
    ∃ A, DenseMatrix.ofRows rows = .ok A ∧
      ∀ (i : Fin rows.length) (j : Fin (width rows)), rows[i][j]? = some (A i j) := by
  have hnonempty : ¬(rows.length = 0 ∨ width rows = 0) := by
    rw [List.length_eq_zero_iff]
    exact not_or.mpr ⟨hrows, hwidth.ne'⟩
  unfold ofRows
  rw [if_neg hnonempty]
  split
  next i got h =>
    rw [firstRagged?_eq_none_iff.mpr hlength] at h
    cases h
  next h =>
    refine ⟨_, rfl, fun i j => ?_⟩
    rw [ofFn_apply]
    exact List.getElem?_eq_getElem _

theorem DenseMatrix.ofRows_of_firstRagged? (hrows : rows ≠ []) (hwidth : 0 < width rows)
    {i got : ℕ} (hragged : firstRagged? (width rows) 0 rows = some (i, got)) :
    DenseMatrix.ofRows rows = .error (.raggedRow i (width rows) got) := by
  have hnonempty : ¬(rows.length = 0 ∨ width rows = 0) := by
    rw [List.length_eq_zero_iff]
    exact not_or.mpr ⟨hrows, hwidth.ne'⟩
  unfold ofRows
  rw [if_neg hnonempty]
  split
  next i' got' h =>
    obtain ⟨rfl, rfl⟩ := Prod.mk.inj (Option.some.inj (h.symm.trans hragged))
    rfl
  next h =>
    rw [hragged] at h
    cases h

end Rows

/-- An error about the sizes of a matrix and a right-hand side, not about their entries. -/
inductive SolveError.AboutSize : SolveError → Prop
  | empty (n m : ℕ) : AboutSize (.emptySystem n m)
  | ragged (row expected got : ℕ) : AboutSize (.raggedRow row expected got)
  | length (expected got : ℕ) : AboutSize (.lengthMismatch expected got)

section Sizes

variable {α : Type} [Scalar α] {n m : ℕ} {settings : Settings} {A : DenseMatrix α n m}
  {b : Vector α n} {e : SolveError}

/-- A matrix that is not empty and a vector with an entry for each of its rows have the right sizes
for the solver, whatever else it may refuse them for. -/
theorem not_aboutSize_of_solve_error (hn : 0 < n) (hm : 0 < m)
    (h : solve settings A b.toList = .error e) : ¬e.AboutSize := by
  intro hsize
  rw [solve_eq_error_iff_refused] at h
  cases h with
  | tolerance h => cases hsize
  | malformed husable h =>
    cases h with
    | empty h => omega
    | length hn hm h => exact h Vector.length_toList
    | entry => cases hsize
    | rhs => cases hsize
  | unsolvable husable hform hb h =>
    cases h with
    | zeroRow => cases hsize
    | inconsistent => cases hsize

theorem not_aboutSize_of_classify_error (hn : 0 < n) (hm : 0 < m)
    (h : classify settings A b.toList = .error e) : ¬e.AboutSize :=
  not_aboutSize_of_solve_error hn hm (classify_eq_error_iff.mp h).1

end Sizes

namespace StoredSystem

/-- The rows and the right-hand side of a system of equations. -/
structure Rectangular (s : StoredSystem) : Prop where
  rows : s.matrix ≠ []
  columns : 0 < width s.matrix
  uniform : ∀ r ∈ s.matrix, r.length = width s.matrix
  rhs : s.rhs.length = s.matrix.length

/-- What is wrong with the sizes of a stored system; of several defects the first one counts. -/
inductive Misshapen (s : StoredSystem) : SolveError → Prop
  | empty (h : s.matrix = [] ∨ width s.matrix = 0) :
      Misshapen s (.emptySystem s.matrix.length (width s.matrix))
  | ragged (hrows : s.matrix ≠ []) (hcolumns : 0 < width s.matrix) {i : ℕ}
      (hi : i < s.matrix.length) (h : s.matrix[i].length ≠ width s.matrix)
      (hfirst : ∀ k (hk : k < i), s.matrix[k].length = width s.matrix) :
      Misshapen s (.raggedRow i (width s.matrix) s.matrix[i].length)
  | rhs (hrows : s.matrix ≠ []) (hcolumns : 0 < width s.matrix)
      (huniform : ∀ r ∈ s.matrix, r.length = width s.matrix)
      (h : s.rhs.length ≠ s.matrix.length) :
      Misshapen s (.lengthMismatch s.matrix.length s.rhs.length)

variable {s : StoredSystem}

theorem Rectangular.toDense (h : s.Rectangular) :
    ∃ A b, s.toDense = .ok (A, b) ∧
      (∀ (i : Fin s.matrix.length) (j : Fin (width s.matrix)), s.matrix[i][j]? = some (A i j)) ∧
      b.toList = s.rhs := by
  obtain ⟨A, hA, hentries⟩ := DenseMatrix.exists_ofRows h.rows h.columns h.uniform
  refine ⟨A, ⟨s.rhs.toArray, h.rhs⟩, ?_, hentries, rfl⟩
  rw [StoredSystem.toDense, hA]
  exact dif_pos h.rhs

theorem Misshapen.toDense {e : SolveError} (h : s.Misshapen e) : s.toDense = .error e := by
  cases h with
  | empty h =>
    have hempty : s.matrix.length = 0 ∨ width s.matrix = 0 := by
      rwa [List.length_eq_zero_iff]
    rw [StoredSystem.toDense, DenseMatrix.ofRows, if_pos hempty]
    rfl
  | @ragged hrows hcolumns i hi h hfirst =>
    have hragged := firstRagged?_eq_some_iff.mpr ⟨hi, rfl, h, hfirst⟩
    rw [StoredSystem.toDense, DenseMatrix.ofRows_of_firstRagged? hrows hcolumns hragged]
    rfl
  | rhs hrows hcolumns huniform h =>
    obtain ⟨A, hA, -⟩ := DenseMatrix.exists_ofRows hrows hcolumns huniform
    rw [StoredSystem.toDense, hA]
    exact dif_neg h

theorem rectangular_or_misshapen (s : StoredSystem) :
    s.Rectangular ∨ ∃ e, s.Misshapen e := by
  by_cases hempty : s.matrix = [] ∨ width s.matrix = 0
  · exact .inr ⟨_, .empty hempty⟩
  rw [not_or] at hempty
  have hcolumns : 0 < width s.matrix := Nat.pos_of_ne_zero hempty.2
  cases hragged : firstRagged? (width s.matrix) 0 s.matrix with
  | some p =>
    obtain ⟨hi, -, hbad, hfirst⟩ := firstRagged?_eq_some_iff.mp hragged
    exact .inr ⟨_, .ragged hempty.1 hcolumns hi hbad hfirst⟩
  | none =>
    have huniform := firstRagged?_eq_none_iff.mp hragged
    by_cases hrhs : s.rhs.length = s.matrix.length
    · exact .inl ⟨hempty.1, hcolumns, huniform, hrhs⟩
    · exact .inr ⟨_, .rhs hempty.1 hcolumns huniform hrhs⟩

theorem rectangular_of_toDense {A : DenseMatrix Float s.matrix.length (width s.matrix)}
    {b : Vector Float s.matrix.length} (h : s.toDense = .ok (A, b)) : s.Rectangular := by
  rcases rectangular_or_misshapen s with hshape | ⟨e, hshape⟩
  · exact hshape
  · rw [hshape.toDense] at h
    cases h

theorem toDense_eq_error_iff {e : SolveError} : s.toDense = .error e ↔ s.Misshapen e := by
  refine ⟨fun h => ?_, Misshapen.toDense⟩
  rcases rectangular_or_misshapen s with hshape | ⟨e', hshape⟩
  · obtain ⟨A, b, hok, -⟩ := hshape.toDense
    rw [hok] at h
    cases h
  · rw [hshape.toDense] at h
    exact Except.error.inj h ▸ hshape

theorem mapError_eq_error_iff {ε δ β : Type} {f : ε → δ} {x : Except ε β} {e : δ} :
    x.mapError f = .error e ↔ ∃ cause, x = .error cause ∧ e = f cause := by
  cases x with
  | ok a => simp [Except.mapError]
  | error cause => simp [Except.mapError, eq_comm]

/-- A stored system becomes a matrix and a right-hand side with all its numbers, or is refused for
the first thing wrong with its sizes; the solver has nothing left to say about them. -/
theorem toDense_keeps_system (s : StoredSystem) :
    ((∃ A b, s.toDense = .ok (A, b)) ↔ s.Rectangular) ∧
    (∀ A b, s.toDense = .ok (A, b) → A.toLists = s.matrix ∧ b.toList = s.rhs ∧
      ∀ (i : Fin s.matrix.length) (j : Fin (width s.matrix)),
        s.matrix[i][j]? = some (A i j)) ∧
    (∀ e, s.toDense.mapError LoadError.invalidSystem = .error e ↔
      ∃ cause, e = .invalidSystem cause ∧ s.Misshapen cause) ∧
    ∀ A b, s.toDense = .ok (A, b) → ∀ (settings : Settings) (e : SolveError),
      solve settings A b.toList = .error e ∨ classify settings A b.toList = .error e →
        ¬e.AboutSize := by
  refine ⟨⟨?_, ?_⟩, ?_, ?_, ?_⟩
  · rintro ⟨A, b, h⟩
    exact rectangular_of_toDense h
  · intro hshape
    obtain ⟨A, b, h, -⟩ := hshape.toDense
    exact ⟨A, b, h⟩
  · intro A b h
    have hshape := rectangular_of_toDense h
    obtain ⟨A', b', hok, hentries, hrhs⟩ := hshape.toDense
    obtain ⟨rfl, rfl⟩ := Prod.mk.inj (Except.ok.inj (h.symm.trans hok))
    exact ⟨DenseMatrix.toLists_eq_of_entries hshape.uniform hentries, hrhs, hentries⟩
  · intro e
    rw [mapError_eq_error_iff]
    simp only [toDense_eq_error_iff, and_comm]
  · intro A b h settings e he
    have hshape := rectangular_of_toDense h
    have hn : 0 < s.matrix.length := List.length_pos_iff.mpr hshape.rows
    cases he with
    | inl he => exact not_aboutSize_of_solve_error hn hshape.columns he
    | inr he => exact not_aboutSize_of_classify_error hn hshape.columns he

/-- An infinite coefficient is stored and handed over like any other; the solver refuses it. -/
theorem toDense_keeps_system_infinite :
    let s : StoredSystem := ⟨"", [[1, 2], [3, 1 / 0]], [5, 6], .default⟩
    let A : DenseMatrix Float 2 2 := ⟨#v[#v[1, 2], #v[3, 1 / 0]]⟩
    let b : Vector Float 2 := #v[5, 6]
    s.toDense = .ok (A, b) ∧ s.Rectangular ∧ A.toLists = s.matrix ∧
      ∃ e, solve .default A b.toList = .error e ∧ ¬e.AboutSize := by
  intro s A b
  have hok : s.toDense = .ok (A, b) := rfl
  have husable : ∀ t, ¬Settings.default.Unusable t := by
    rintro t ⟨hset, -⟩
    cases hset
  have hinfinite : Scalar.finite (A 1 1) = false := by decide +kernel
  have hfirst : ∀ p q, p < 1 ∨ p = 1 ∧ q < 1 → Scalar.finite (A p q) = true := by
    decide +kernel
  have hentry : Malformed A b.toList (.nonFinite 1 1) :=
    .entry b.length_toList hinfinite hfirst
  have hsolve : solve .default A b.toList = .error (.nonFinite 1 1) :=
    (answers_of_malformed husable hentry).1
  obtain ⟨hiff, hkeep, -, hsize⟩ := toDense_keeps_system s
  exact ⟨hok, hiff.mp ⟨A, b, hok⟩, (hkeep A b hok).1, _, hsolve,
    hsize A b hok .default _ (.inl hsolve)⟩

end StoredSystem

end LinearSystem
