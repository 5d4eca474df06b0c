import LinearSystem.Proofs.RankRun

namespace LinearSystem

open Scalar

section Loops

variable {β : Type}

/-- Run `f` for each index from `start` up to `stop`, as long as nothing fails. -/
def forRange? (start stop : ℕ) (b : β) (f : β → ℕ → Option β) : Option β :=
  (List.range' start (stop - start)).foldlM f b

/-- What the loop has achieved by index `stop`, if each of its steps goes through. -/
theorem exists_forRange? {P : ℕ → β → Prop} {f : β → ℕ → Option β} {start stop : ℕ} {b : β}
    (hle : start ≤ stop) (hb : P start b)
    (hstep : ∀ i b, start ≤ i → i < stop → P i b → ∃ b', f b i = some b' ∧ P (i + 1) b') :
    ∃ b', forRange? start stop b f = some b' ∧ P stop b' := by
  obtain ⟨k, rfl⟩ := Nat.exists_eq_add_of_le hle
  rw [forRange?, Nat.add_sub_cancel_left]
  induction k generalizing start b with
  | zero => exact ⟨b, rfl, hb⟩
  | succ k ih =>
    obtain ⟨b', hf, hb'⟩ := hstep start b le_rfl (by omega) hb
    have hrest : ∀ i c, start + 1 ≤ i → i < start + 1 + k → P i c →
        ∃ c', f c i = some c' ∧ P (i + 1) c' := fun i c hi hik => hstep i c (by omega) (by omega)
    obtain ⟨c, hc, hP⟩ := ih hb' (Nat.le_add_right _ _) hrest
    refine ⟨c, ?_, ?_⟩
    · rw [List.range'_succ, List.foldlM_cons, hf]
      exact hc
    · rwa [Nat.add_right_comm] at hP

theorem findM?_eq_some {l : List ℕ} {f : ℕ → Option Bool} {p : ℕ → Bool}
    (hf : ∀ i ∈ l, f i = some (p i)) : l.findM? f = some (l.find? p) := by
  induction l with
  | nil => rfl
  | cons i l ih =>
    have hrest := ih fun k hk => hf k (List.mem_cons_of_mem i hk)
    rw [List.findM?, hf i List.mem_cons_self, List.find?_cons]
    cases hp : p i with
    | true => simp
    | false => simpa using hrest

end Loops

variable {α : Type} {n m : ℕ}

namespace DenseMatrix

open Rank.State (clearBelow clearBelow_entry overwriteColumn)

/-- The matrix with one entry replaced. -/
def set (A : DenseMatrix α n m) (i : Fin n) (j : Fin m) (x : α) : DenseMatrix α n m :=
  ofFn fun k l => if k = i ∧ l = j then x else A k l

@[simp] theorem set_apply (A : DenseMatrix α n m) (i k : Fin n) (j l : Fin m) (x : α) :
    A.set i j x k l = if k = i ∧ l = j then x else A k l := by
  simp [set]

/-- The entry at a position that may lie outside the matrix. -/
def read? (A : DenseMatrix α n m) (i j : ℕ) : Option α :=
  if h : i < n ∧ j < m then some (A ⟨i, h.1⟩ ⟨j, h.2⟩) else none

/-- Store a value at a position that may lie outside the matrix. -/
def write? (A : DenseMatrix α n m) (i j : ℕ) (x : α) : Option (DenseMatrix α n m) :=
  if h : i < n ∧ j < m then some (A.set ⟨i, h.1⟩ ⟨j, h.2⟩ x) else none

@[simp] theorem read?_val (A : DenseMatrix α n m) (i : Fin n) (j : Fin m) :
    A.read? i j = some (A i j) := dif_pos ⟨i.isLt, j.isLt⟩

@[simp] theorem write?_val (A : DenseMatrix α n m) (i : Fin n) (j : Fin m) (x : α) :
    A.write? i j x = some (A.set i j x) := dif_pos ⟨i.isLt, j.isLt⟩

theorem read?_of_val_eq (A : DenseMatrix α n m) (i : Fin n) {j : Fin m} {k : ℕ} (h : j.val = k) :
    A.read? i k = some (A i j) := by
  rw [← h, read?_val]

/-- A loop whose step `k` turns the entries at place `k` from those of `A` into those of `B`. -/
theorem forRange?_eq {A B : DenseMatrix α n m}
    {f : DenseMatrix α n m → ℕ → Option (DenseMatrix α n m)} {start stop : ℕ}
    (place : Fin n → Fin m → ℕ) (hle : start ≤ stop)
    (houtside : ∀ i j, place i j < start ∨ stop ≤ place i j → B i j = A i j)
    (hstep : ∀ k W, start ≤ k → k < stop →
      (∀ i j, W i j = if place i j < k then B i j else A i j) →
      ∃ W', f W k = some W' ∧ ∀ i j, W' i j = if place i j = k then B i j else W i j) :
    forRange? start stop A f = some B := by
  let P (k : ℕ) (W : DenseMatrix α n m) : Prop :=
    ∀ i j, W i j = if place i j < k then B i j else A i j
  have hstart : P start A := by
    intro i j
    split_ifs with h
    · exact (houtside i j (.inl h)).symm
    · rfl
  have hnext : ∀ k W, start ≤ k → k < stop → P k W → ∃ W', f W k = some W' ∧ P (k + 1) W' := by
    intro k W hk hks hW
    obtain ⟨W', hf, hW'⟩ := hstep k W hk hks hW
    refine ⟨W', hf, fun i j => ?_⟩
    rw [hW', hW]
    split_ifs <;> first | rfl | omega
  obtain ⟨W, hf, hW⟩ := exists_forRange? hle hstart hnext
  rw [hf]
  refine congrArg some (DenseMatrix.ext fun i j => (hW i j).trans ?_)
  split_ifs with h
  · rfl
  · exact (houtside i j (.inr (not_lt.mp h))).symm

/-- Exchange two entries of a column. -/
def swapEntries? (A : DenseMatrix α n m) (p q j : ℕ) : Option (DenseMatrix α n m) := do
  let x ← A.read? p j
  let y ← A.read? q j
  (← A.write? p j y).write? q j x

/-- Exchange two rows, column by column. -/
def swapRows? (A : DenseMatrix α n m) (p q : ℕ) : Option (DenseMatrix α n m) :=
  forRange? 0 m A fun W j => W.swapEntries? p q j

theorem swapRows?_eq (A : DenseMatrix α n m) (p q : Fin n) :
    A.swapRows? p q = some (A.swapRows p q) := by
  refine forRange?_eq (fun _ j => j.val) (Nat.zero_le m) (fun i j hj => by omega) ?_
  intro c W _ hc hW
  lift c to Fin m using hc
  refine ⟨(W.set p c (W q c)).set q c (W p c), by simp [swapEntries?], fun i j => ?_⟩
  by_cases hj : j = c
  · subst hj
    simp only [set_apply, swapRows_apply, hW, lt_irrefl, if_false, if_true, and_true]
    split_ifs with hq hp
    · rw [← hp, hq]
    · rfl
    · rfl
    · rfl
  · simp [hj, Fin.val_inj]

/-- Copy column `last` over column `c`, row by row. -/
def overwriteColumn? (A : DenseMatrix α n m) (c last : ℕ) : Option (DenseMatrix α n m) :=
  forRange? 0 n A fun W i => do W.write? i c (← W.read? i last)

theorem overwriteColumn?_eq (A : DenseMatrix α n m) (c last : Fin m) :
    A.overwriteColumn? c last = some (overwriteColumn A c last) := by
  refine forRange?_eq (fun i _ => i.val) (Nat.zero_le n) (fun i j hi => by omega) ?_
  intro i W _ hi hW
  lift i to Fin n using hi
  refine ⟨W.set i c (W i last), by simp, fun k l => ?_⟩
  by_cases hk : k = i
  · subst hk
    simp [overwriteColumn, hW]
  · simp [hk, Fin.val_inj]

/-- Let the last live column take the place of column `c`, unless it is that column. -/
def dropColumn? (A : DenseMatrix α n m) (c last : ℕ) : Option (DenseMatrix α n m) :=
  if c < last then A.overwriteColumn? c last else some A

theorem dropColumn?_eq (A : DenseMatrix α n m) {c last : Fin m} (h : c ≤ last) :
    A.dropColumn? c last = some (overwriteColumn A c last) := by
  rcases h.lt_or_eq with hlt | rfl
  · exact (if_pos hlt).trans (A.overwriteColumn?_eq c last)
  · rw [dropColumn?, if_neg (lt_irrefl c.val)]
    refine congrArg some (DenseMatrix.ext fun i j => ?_)
    rw [overwriteColumn, ofFn_apply]
    split_ifs with hj
    · rw [hj]
    · rfl

variable [Scalar α]

/-- Take a multiple of one row off another row, in one column. -/
def takeOff? (A : DenseMatrix α n m) (p i : ℕ) (factor : α) (j : ℕ) :
    Option (DenseMatrix α n m) := do
  let update := factor * (← A.read? p j)
  A.write? i j ((← A.read? i j) - update)

/-- Clear one entry of column `p` with row `p`, in the columns up to `live`. -/
def clearRow? (A : DenseMatrix α n m) (p live : ℕ) (pivot : α) (i : ℕ) :
    Option (DenseMatrix α n m) := do
  let factor := (← A.read? i p) / pivot
  if isZero factor then some A
  else forRange? p live A fun W j => W.takeOff? p i factor j

/-- Clear column `p` below row `p`, row by row. -/
def clearBelow? (A : DenseMatrix α n m) (p live : ℕ) : Option (DenseMatrix α n m) := do
  let pivot ← A.read? p p
  forRange? (p + 1) n A fun W i => W.clearRow? p live pivot i

/-- A multiple of row `p` is taken off row `i` in the columns from `first` up to `live`. -/
theorem forRange?_takeOff? (A : DenseMatrix α n m) (p i : Fin n) (factor : α) {first live : ℕ}
    (hfirst : first ≤ live) (hlive : live ≤ m) :
    forRange? first live A (fun W j => W.takeOff? p i factor j) =
      some (ofFn fun k l =>
        if k = i ∧ first ≤ l.val ∧ l.val < live then A i l - factor * A p l else A k l) := by
  refine forRange?_eq (fun _ l => l.val) hfirst (fun k l hl => ?_) ?_
  · rw [ofFn_apply, if_neg]
    exact fun h => hl.elim (not_lt.mpr h.2.1) (not_le.mpr h.2.2)
  · intro j W hfj hj hW
    lift j to Fin m using hj.trans_le hlive
    have hkeep : ∀ k, W k j = A k j := fun k => by rw [hW, if_neg (lt_irrefl j.val)]
    refine ⟨W.set i j (A i j - factor * A p j), by simp [takeOff?, hkeep], fun k l => ?_⟩
    by_cases hl : l = j
    · subst hl
      simp [hkeep, hfj, hj]
    · simp [hl, Fin.val_inj]

/-- A row cleared in place, entry by entry, gets what clearing all rows at once gives it. -/
theorem clearRow?_eq (A : DenseMatrix α n m) {p i : Fin n} {c : Fin m} {live : ℕ}
    (hc : c.val = p.val) (hi : p < i) (hlive : c.val < live) (hle : live ≤ m) :
    A.clearRow? p live (A p c) i =
      some (ofFn fun k l => if k = i then clearBelow A p c live k l else A k l) := by
  rw [clearRow?, A.read?_of_val_eq i hc, Option.bind_eq_bind, Option.bind_some]
  by_cases hz : isZero (A i c / A p c) = true
  · rw [if_pos hz]
    refine congrArg some (DenseMatrix.ext fun k l => ?_)
    rw [ofFn_apply]
    split_ifs with hk
    · rw [hk, clearBelow_entry, if_neg (by simp [hz])]
    · rfl
  · have hcleared : p < i ∧ (!isZero (A i c / A p c)) = true := ⟨hi, by simp [hz]⟩
    rw [if_neg hz, forRange?_takeOff? A p i _ (hc.symm.trans_le hlive.le) hle]
    refine congrArg some (DenseMatrix.ext fun k l => ?_)
    rw [ofFn_apply, ofFn_apply]
    by_cases hk : k = i
    · simp only [hk, if_true, true_and, clearBelow_entry, if_pos hcleared, Fin.le_def, hc]
    · rw [if_neg hk, if_neg fun h => hk h.1]

theorem clearBelow?_eq (A : DenseMatrix α n m) {p : Fin n} {c : Fin m} {live : ℕ}
    (hc : c.val = p.val) (hlive : c.val < live) (hle : live ≤ m) :
    A.clearBelow? p live = some (clearBelow A p c live) := by
  rw [clearBelow?, A.read?_of_val_eq p hc, Option.bind_eq_bind, Option.bind_some]
  refine forRange?_eq (fun k _ => k.val) p.isLt (fun k l hk => ?_) ?_
  · have hpk : ¬p < k := by omega
    rw [clearBelow_entry, if_neg fun h => hpk h.1]
  · intro i W hpi hi hW
    lift i to Fin n using hi
    have hlt : p.val < i.val := hpi
    have hp : ∀ l, W p l = A p l := fun l => by
      rw [hW, if_pos hlt, clearBelow_entry, if_neg fun h => lt_irrefl p h.1]
    have hrow : ∀ l, W i l = A i l := fun l => by
      rw [hW, if_neg (lt_irrefl i.val)]
    have hclear := W.clearRow?_eq hc hlt hlive hle
    rw [hp] at hclear
    refine ⟨_, hclear, fun k l => ?_⟩
    rw [ofFn_apply]
    by_cases hk : k = i
    · rw [if_pos hk, if_pos (congrArg Fin.val hk), hk, clearBelow_entry,
        clearBelow_entry]
      simp only [hp, hrow]
    · rw [if_neg hk, if_neg (Fin.val_ne_of_ne hk)]

end DenseMatrix

end LinearSystem
