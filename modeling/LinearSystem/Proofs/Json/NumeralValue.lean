import LinearSystem.Json.Number
import LinearSystem.Proofs.Json.Numeral
import LinearSystem.Proofs.ShortestDecimal

namespace LinearSystem.Json

open Text

section Digits

variable {ds ds' : List ℕ} {cs cs' : List Char} {v : ℕ}

theorem ofDigits_digitValues (cs : List Char) :
    ofDigits 10 (digitValues cs) = Nat.ofDigitChars 10 cs 0 := by
  have hzero : '0'.toNat = 48 := rfl
  rw [ofDigits, digitValues, List.foldl_map, Nat.ofDigitChars_eq_foldl, hzero]
  congr
  funext v c
  rw [Nat.mul_comm]

theorem ofDigitChars_toString (n : ℕ) : Nat.ofDigitChars 10 (toString n).toList 0 = n := by
  rw [Nat.toString_eq_repr, Nat.toList_repr, Nat.ofDigitChars_ten_toDigits]

theorem ofDigitChars_zeros (cs : List Char) (k : ℕ) :
    Nat.ofDigitChars 10 (cs ++ List.replicate k '0') 0 = Nat.ofDigitChars 10 cs 0 * 10 ^ k := by
  rw [Nat.ofDigitChars_append, Nat.ofDigitChars_replicate_zero, Nat.mul_comm]

theorem ofDigitChars_padded (width n : ℕ) :
    Nat.ofDigitChars 10 (Decimal.padded width n).toList 0 = n := by
  rw [toList_padded, Nat.ofDigitChars_append, Nat.ofDigitChars_replicate_zero, Nat.mul_zero,
    ofDigitChars_toString]

theorem le_foldl_digits (ds : List ℕ) (v : ℕ) : v ≤ ds.foldl (fun v d => v * 10 + d) v := by
  induction ds generalizing v with
  | nil => exact le_rfl
  | cons d ds ih =>
    have hstep : v ≤ v * 10 + d := by omega
    exact hstep.trans (ih (v * 10 + d))

/-- Digits that fit in sixty-four bits are all kept. -/
theorem appendDigits_of_lt (h : ds.foldl (fun v d => v * 10 + d) v < 2 ^ 64) :
    appendDigits v ds = (ds.foldl (fun v d => v * 10 + d) v, []) := by
  induction ds generalizing v with
  | nil => rfl
  | cons d ds ih =>
    rw [List.foldl_cons] at h
    have hlt : v * 10 + d < 1 <<< 64 := (le_foldl_digits ds (v * 10 + d)).trans_lt h
    rw [appendDigits, if_pos hlt, ih h, List.foldl_cons]

end Digits

section Value

variable {n : Numeral}

/-- The digits of a number before and after its point, as one integer. -/
def Numeral.digits (n : Numeral) : ℕ := ofDigits 10 (n.whole ++ n.fraction)

/-- The power of ten that this integer is a multiple of. -/
def Numeral.place (n : Numeral) : ℤ :=
  (if n.exponentNegative then -(n.exponent : ℤ) else n.exponent) - n.fraction.length

/-- A number of few digits is the integer scaled by the power of ten. -/
theorem value?_of_lt (hfit : n.digits < 2 ^ 64) (hexponent : n.exponent ≤ exponentLimit) :
    n.value? = (scaleByTen? (Float.ofNat n.digits) n.place).map
      fun x => if n.negative then -x else x := by
  have hdigits : n.fraction.foldl (fun v d => v * 10 + d)
      (n.whole.foldl (fun v d => v * 10 + d) 0) = n.digits := by
    rw [Numeral.digits, ofDigits, List.foldl_append]
  have hwhole : n.whole.foldl (fun v d => v * 10 + d) 0 < 2 ^ 64 := by
    refine lt_of_le_of_lt ?_ hfit
    rw [← hdigits]
    exact le_foldl_digits n.fraction _
  have hplace : ((0 : ℕ) : ℤ) - (n.fraction.length - 0 : ℕ) +
      (if n.exponentNegative then -(n.exponent : ℤ) else n.exponent) = n.place := by
    unfold Numeral.place
    omega
  unfold Numeral.value?
  rw [appendDigits_of_lt hwhole]
  dsimp only
  rw [appendDigits_of_lt (by rw [hdigits]; exact hfit), hdigits]
  dsimp only
  rw [if_neg (not_lt.mpr hexponent), List.length_nil, hplace]

end Value

section Layout

variable {negative : Bool} {whole fraction exponent : List Char} {n : ℕ} {d : Decimal}

/-- A text that is read as one number: its sign, its digits as an integer, and the power of ten that
is left over. -/
def Spells (text : List Char) (negative : Bool) (s : ℕ) (e : ℤ) : Prop :=
  ∀ rest, Follows rest → ∃ n, numeral? (text ++ rest) = some (n, rest) ∧
    n.negative = negative ∧ n.digits = s ∧ n.place = e ∧ n.exponent ≤ exponentLimit

def signChars (negative : Bool) : List Char := if negative then ['-'] else []

theorem toList_signed (negative : Bool) (s : String) :
    (Decimal.signed negative s).toList = signChars negative ++ s.toList := by
  cases negative <;> simp [Decimal.signed, signChars]

theorem spells_parts (negative : Bool) (hwhole : WholePart whole)
    (hfraction : FractionPart fraction) (hexponent : ExponentPart exponent)
    (hlimit : Nat.ofDigitChars 10 (exponent.drop 2) 0 ≤ exponentLimit) :
    Spells (signChars negative ++ (whole ++ (fraction ++ exponent))) negative
      (Nat.ofDigitChars 10 (whole ++ fraction.tail) 0)
      ((if exponent.tail.head? = some '-' then -(Nat.ofDigitChars 10 (exponent.drop 2) 0 : ℤ)
        else Nat.ofDigitChars 10 (exponent.drop 2) 0) - fraction.tail.length) := by
  intro rest hrest
  have hsign : signChars negative = [] ∨ signChars negative = ['-'] := by
    cases negative
    · exact .inl rfl
    · exact .inr rfl
  refine ⟨_, numeral?_parts hsign hwhole hfraction hexponent hrest, ?_, ?_, ?_, ?_⟩
  · cases negative <;> rfl
  · rw [Numeral.digits, numeralOf, digitValues, digitValues, ← List.map_append, ← digitValues,
      ofDigits_digitValues]
  · have hlength : (digitValues fraction.tail).length = fraction.tail.length := List.length_map _
    simp only [Numeral.place, numeralOf, ofDigits_digitValues, hlength, decide_eq_true_eq]
  · rw [numeralOf, ofDigits_digitValues]
    exact hlimit

/-- Without an exponent the digits behind the point give the power of ten. -/
theorem spells_point (negative : Bool) (hwhole : WholePart whole)
    (hfraction : FractionPart fraction) :
    Spells (signChars negative ++ (whole ++ fraction)) negative
      (Nat.ofDigitChars 10 (whole ++ fraction.tail) 0) (-fraction.tail.length) := by
  have h := spells_parts negative hwhole hfraction .absent (Nat.zero_le _)
  rw [List.append_nil] at h
  simpa [Nat.ofDigitChars_nil] using h

theorem spells_whole (negative : Bool) (hd : 0 < d.digits) (hexponent : 0 ≤ d.exponent) :
    Spells (signChars negative ++ (Decimal.positionalText true d).toList) negative
      (d.digits * 10 ^ (d.exponent.toNat + 1)) (-1) := by
  have h := spells_point negative (wholePart_scaled hd d.exponent.toNat) fractionPart_zero
  have hdigits : Nat.ofDigitChars 10 ((toString d.digits).toList ++
      (Decimal.zeros d.exponent.toNat).toList ++ ['0']) 0 =
      d.digits * 10 ^ (d.exponent.toNat + 1) := by
    have hzeros : (Decimal.zeros d.exponent.toNat).toList ++ ['0'] =
        List.replicate (d.exponent.toNat + 1) '0' := by
      rw [Decimal.zeros, String.toList_ofList, List.replicate_succ']
    rw [List.append_assoc, hzeros, ofDigitChars_zeros, ofDigitChars_toString]
  rw [List.tail_cons, hdigits] at h
  unfold Decimal.positionalText
  rw [if_pos hexponent]
  simpa using h

theorem spells_withPoint (negative : Bool) (hn : 0 < n) {places : ℕ} (hplaces : 0 < places) :
    Spells (signChars negative ++ (Decimal.withPoint places n).toList) negative n (-places) := by
  have h := spells_point negative (wholePart_padded hn places) (fractionPart_padded n hplaces)
  rw [List.tail_cons, List.take_append_drop, ofDigitChars_padded, length_drop_padded] at h
  simpa [Decimal.withPoint] using h

theorem tail_pointChars (more : List Char) : (pointChars more).tail = more := by
  cases more <;> rfl

theorem spells_exponent (negative : Bool) (d : Decimal)
    (hlimit : (d.exponent + ((toString d.digits).length - 1 : ℕ)).natAbs ≤ exponentLimit) :
    Spells (signChars negative ++ (Decimal.exponentText d).toList) negative d.digits
      d.exponent := by
  obtain ⟨c, more, hdigits⟩ := List.exists_cons_of_ne_nil (toString_ne_nil d.digits)
  have hlength : (toString d.digits).length = more.length + 1 := by
    rw [← String.length_toList, hdigits, List.length_cons]
  obtain ⟨hwhole, hmore⟩ := wholePart_head hdigits
  rw [hlength, Nat.add_sub_cancel] at hlimit
  rw [toList_exponentText hdigits]
  generalize he : d.exponent + more.length = e at hlimit ⊢
  have h := spells_parts negative hwhole (fractionPart_pointChars hmore) (exponentPart_signed e)
    (by simpa [ofDigitChars_toString] using hlimit)
  have hvalue : Nat.ofDigitChars 10 ([c] ++ more) 0 = d.digits := by
    rw [List.singleton_append, ← hdigits, ofDigitChars_toString]
  have hplace : (if some (if e < 0 then '-' else '+') = some '-' then -(e.natAbs : ℤ)
      else e.natAbs) - more.length = d.exponent := by
    split_ifs with hneg hminus hminus
    · omega
    · exact absurd rfl hminus
    · exact absurd hminus (by decide)
    · omega
  rw [tail_pointChars, hvalue, List.tail_cons, List.head?_cons, List.drop_succ_cons,
    List.drop_succ_cons, List.drop_zero, ofDigitChars_toString, hplace] at h
  exact h

end Layout

section Report

open Decimal

variable {d : Decimal} {n : ℕ} {negative : Bool}

/-- The exponent of the leading digit. -/
def leading (d : Decimal) : ℤ := d.exponent + ((toString d.digits).length - 1 : ℕ)

/-- A decimal as it stands in a report. -/
def decimalText (d : Decimal) : String :=
  if reportStyle.positional (leading d) then positionalText true d else exponentText d

/-- The integer and the power of ten that are read from it: a whole number that is written out ends
in a zero behind its point. -/
def asRead (d : Decimal) : Decimal :=
  if reportStyle.positional (leading d) = true ∧ 0 ≤ d.exponent then
    ⟨d.digits * 10 ^ (d.exponent.toNat + 1), -1⟩
  else d

theorem report_of_view {x : Float} {m : ℕ} {q : ℤ} (hview : Binary.view x = .finite negative m q)
    (hm : m ≠ 0) : report x = signed negative (decimalText (shortest .even m q)) := by
  unfold report Style.render
  rw [hview]
  dsimp only
  rw [if_neg hm]
  rfl

theorem spells_decimalText (negative : Bool) (hd : 0 < d.digits)
    (hlimit : (leading d).natAbs ≤ exponentLimit) :
    Spells (signChars negative ++ (decimalText d).toList) negative (asRead d).digits
      (asRead d).exponent := by
  unfold decimalText asRead
  by_cases hpositional : reportStyle.positional (leading d) = true
  · rw [if_pos hpositional]
    by_cases hwhole : 0 ≤ d.exponent
    · rw [if_pos ⟨hpositional, hwhole⟩]
      exact spells_whole negative hd hwhole
    · have hplaces : -((-d.exponent).toNat : ℤ) = d.exponent := by omega
      rw [if_neg fun h => hwhole h.2, positionalText, if_neg hwhole]
      have h := spells_withPoint negative hd (by omega : 0 < (-d.exponent).toNat)
      rw [hplaces] at h
      exact h
  · rw [if_neg hpositional, if_neg fun h => hpositional h.1]
    exact spells_exponent negative d hlimit

theorem toRat_asRead (d : Decimal) : (asRead d).toRat = d.toRat := by
  unfold asRead
  split_ifs with hwhole
  · obtain ⟨k, hk⟩ := Int.eq_ofNat_of_zero_le hwhole.2
    rw [toRat, toRat, hk, Int.toNat_natCast, zpow_neg_one, zpow_natCast, pow_succ]
    push_cast
    field_simp
  · rfl

theorem digits_lt (d : Decimal) : d.digits < 10 ^ (toString d.digits).length := by
  have hpos : 0 < (toString d.digits).length := by
    rw [← String.length_toList]
    exact List.length_pos_of_ne_nil (toString_ne_nil d.digits)
  exact (Nat.length_repr_le_iff hpos).mp le_rfl

/-- A whole number is written out up to sixteen digits. -/
theorem digits_asRead_le (h : d.digits ≤ 10 ^ 17) : (asRead d).digits ≤ 10 ^ 17 := by
  unfold asRead
  split_ifs with hwhole
  · have hpositional := hwhole.1
    simp only [reportStyle, Bool.and_eq_true, decide_eq_true_eq, leading] at hpositional
    have hcount : (toString d.digits).length + (d.exponent.toNat + 1) ≤ 17 := by omega
    calc d.digits * 10 ^ (d.exponent.toNat + 1)
        ≤ 10 ^ (toString d.digits).length * 10 ^ (d.exponent.toNat + 1) :=
          Nat.mul_le_mul_right _ (digits_lt d).le
      _ = 10 ^ ((toString d.digits).length + (d.exponent.toNat + 1)) := (pow_add ..).symm
      _ ≤ 10 ^ 17 := Nat.pow_le_pow_right (by norm_num) hcount
  · exact h

theorem stands_asRead (h : d.Stands n) : (asRead d).Stands n := by
  refine ⟨?_, digits_asRead_le h.digits_le, ?_, ?_⟩
  · have hpos := h.digits_pos
    unfold asRead
    split_ifs
    · positivity
    · exact hpos
  · have hle := h.le_exponent
    unfold asRead
    split_ifs
    · norm_num
    · exact hle
  · rw [toRat_asRead]
    exact h.nearest

theorem natAbs_leading_le (h : d.Stands n) (hfinite : n < Floating.infinityBits) :
    (leading d).natAbs ≤ exponentLimit := by
  have hlength : (toString d.digits).length ≤ 18 := by
    refine (Nat.length_repr_le_iff (by norm_num)).mpr ?_
    have := h.digits_le
    omega
  have := h.le_exponent
  have := h.exponent_le hfinite
  unfold leading exponentLimit
  omega

end Report

end LinearSystem.Json
