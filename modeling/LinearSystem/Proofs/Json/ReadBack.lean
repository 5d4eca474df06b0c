import LinearSystem.Proofs.Json.Members
import LinearSystem.Proofs.Json.NumeralValue
import LinearSystem.Proofs.Json.Scaling

namespace LinearSystem.Json

open Floating Decimal

section Bits

variable {d : Decimal} {n n' : ℕ} {r : ℚ} {few : Prop}

/-- What the bits `n` of a float may be after it was written and read: at most two floats away, and
the same where `few` holds. -/
structure Returned (few : Prop) (n n' : ℕ) : Prop where
  finite : n' < infinityBits
  le : n' ≤ n + 2
  ge : n ≤ n' + 2
  eq : few → n' = n

/-- An integer and a power of ten that are floats, or whose reciprocal is one. -/
def Exact (d : Decimal) : Prop := d.digits ≤ 2 ^ 53 ∧ -22 ≤ d.exponent ∧ d.exponent ≤ 22

instance : DecidablePred Exact := fun _ => inferInstanceAs (Decidable (_ ∧ _))

theorem abs_sub_le_of_scaled (h : d.Stands n) (hs : Scaled d.digits d.exponent r n') :
    n' ≤ n + 2 ∧ n ≤ n' + 2 := by
  have hwritten := abs_le.mp h.nearest.near
  have hread := abs_le.mp hs.nearest.near
  have hclose := abs_lt.mp hs.close
  rw [toRat] at hwritten
  have hle : (n' : ℚ) < (n + 3 : ℕ) := by
    push_cast
    linarith
  have hge : (n : ℚ) < (n' + 3 : ℕ) := by
    push_cast
    linarith
  have hle' : n' < n + 3 := by exact_mod_cast hle
  have hge' : n < n' + 3 := by exact_mod_cast hge
  omega

theorem eq_of_scaled (h : d.Stands n) (hs : Scaled d.digits d.exponent r n') (hexact : Exact d) :
    n' = n := by
  have hr : r = d.toRat := hs.eq hexact.1 hexact.2.1 hexact.2.2
  exact (hr ▸ hs.nearest).unique h.nearest

/-- The integer and the power of ten that a positive float is read from. -/
def written (n : ℕ) : Decimal := asRead (shortest .even (significand n) (Floating.exponent n))

/-- The two largest floats are not read as infinity. -/
theorem read_largest : ∀ k < 2, ∃ y,
    scaleByTen? (Float.ofNat (written (infinityBits - 2 + k)).digits)
      (written (infinityBits - 2 + k)).exponent = some y ∧ y.toBits.toNat = infinityBits - 1 := by
  have hcheck : ∀ k < 2, (scaleByTen? (Float.ofNat (written (infinityBits - 2 + k)).digits)
      (written (infinityBits - 2 + k)).exponent).map (·.toBits.toNat) =
        some (infinityBits - 1) := by
    decide +kernel
  intro k hk
  exact Option.map_eq_some_iff.mp (hcheck k hk)

theorem exists_read (hn : 0 < n) (hfinite : n < infinityBits) :
    ∃ y, scaleByTen? (Float.ofNat (written n).digits) (written n).exponent = some y ∧
      Returned (Exact (written n)) n y.toBits.toNat := by
  have hstands : (written n).Stands n := stands_asRead (shortest_stands hn hfinite .even)
  have hdigits := hstands.digits_le
  obtain ⟨r, n', hs⟩ := exists_scaled hstands.digits_pos (hdigits.trans_lt (by norm_num))
    hstands.le_exponent (hstands.exponent_le hfinite)
  obtain ⟨hle, hge⟩ := abs_sub_le_of_scaled hstands hs
  rcases Nat.lt_or_ge n' infinityBits with hlt | hlarge
  · obtain ⟨y, hread, hy⟩ := hs.read hlt
    rw [← hy] at hlt hle hge
    exact ⟨y, hread, hlt, hle, hge, fun hexact => hy.trans (eq_of_scaled hstands hs hexact)⟩
  · have hinexact : ¬Exact (written n) := by
      intro hexact
      have := eq_of_scaled hstands hs hexact
      omega
    obtain ⟨k, hk, rfl⟩ : ∃ k < 2, n = infinityBits - 2 + k := ⟨n + 2 - infinityBits, by omega⟩
    obtain ⟨y, hread, hy⟩ := read_largest k hk
    refine ⟨y, hread, ?_, ?_, ?_, fun hexact => absurd hexact hinexact⟩ <;> rw [hy] <;> omega

end Bits

section Numbers

variable {text s rest : List Char} {negative : Bool} {m : ℕ} {e : ℤ} {y : Float}

theorem numeral?_head {n : Numeral} (h : numeral? s = some (n, rest)) :
    ∃ c ∈ s.head?, (decide (c = '-') || Text.isDigit c) = true := by
  cases s with
  | nil => cases h
  | cons c s =>
    refine ⟨c, rfl, ?_⟩
    by_contra hc
    rw [Bool.or_eq_true, not_or, decide_eq_true_eq, Bool.not_eq_true, Text.isDigit,
      Option.isSome_eq_false_iff, Option.isNone_iff_eq_none] at hc
    have hspan : Text.spanDigits (c :: s) = ([], c :: s) := by
      rw [Text.spanDigits, hc.2]
    unfold numeral? at h
    split at h
    next negative start hstart =>
    obtain rfl : start = c :: s := by simpa [hc.1] using (congrArg Prod.snd hstart).symm
    rw [hspan] at h
    cases h

theorem Spells.peek (h : Spells text negative m e) (hrest : Follows rest) :
    ∃ c, Reader.peek.run (text ++ rest) = .ok (c, text ++ rest) ∧
      (decide (c = '-') || Text.isDigit c) = true := by
  obtain ⟨n, hn, -⟩ := h rest hrest
  obtain ⟨c, hc, hfirst⟩ := numeral?_head hn
  obtain ⟨tail, htail⟩ : ∃ tail, text ++ rest = c :: tail := List.head?_eq_some_iff.mp hc
  refine ⟨c, ?_, hfirst⟩
  rw [htail]
  exact peek_cons (not_blank_of_number hfirst)

/-- A number is read from a text that spells it. -/
theorem number_of_spells (h : Spells text negative m e) (hm : m < 2 ^ 64)
    (hy : scaleByTen? (Float.ofNat m) e = some y) (hrest : Follows rest) :
    Reader.number.run (text ++ rest) = .ok (if negative then -y else y, rest) := by
  obtain ⟨c, hpeek, hfirst⟩ := h.peek hrest
  obtain ⟨n, hn, rfl, rfl, rfl, hlimit⟩ := h rest hrest
  rw [Reader.number, run_bind_of_ok hpeek, if_pos hfirst, run_bind_of_ok (lexeme_of_some hn),
    value?_of_lt hm hlimit, hy]
  rfl

/-- The number is not taken for null. -/
theorem optional_of_spells (h : Spells text negative m e) (hm : m < 2 ^ 64)
    (hy : scaleByTen? (Float.ofNat m) e = some y) (hrest : Follows rest) :
    (Reader.optional Reader.number).run (text ++ rest) =
      .ok (some (if negative then -y else y), rest) := by
  obtain ⟨c, hpeek, hfirst⟩ := h.peek hrest
  have hnull : c ≠ 'n' := by
    rintro rfl
    exact absurd hfirst (by decide)
  rw [Reader.optional, run_bind_of_ok hpeek, if_neg hnull]
  exact map_run_of_ok (number_of_spells h hm hy hrest)

end Numbers

section Floats

variable {x y : Float} {rest : List Char}

/-- Few enough digits are written for the reader to make no error. -/
def FewDigits : Binary.View → Prop
  | .finite _ m q => m = 0 ∨ Exact (asRead (shortest .even m q))
  | .nan | .infinite _ => False

instance : DecidablePred FewDigits
  | .finite _ _ _ => inferInstanceAs (Decidable (_ ∨ _))
  | .nan | .infinite _ => inferInstanceAs (Decidable False)

/-- What a float may be after it was written and read. -/
structure ReadBack (x y : Float) : Prop where
  finite : y.isFinite = true
  sign : y.toBits.toNat / 2 ^ 63 = x.toBits.toNat / 2 ^ 63
  le : y.toBits.toNat ≤ x.toBits.toNat + 2
  ge : x.toBits.toNat ≤ y.toBits.toNat + 2
  eq : FewDigits (Binary.view x) → y.toBits = x.toBits

/-- A finite float is written as the integer and the power of ten of a number, and its size is read
back from them. -/
theorem exists_spelled (hx : x.isFinite = true) :
    ∃ m e y, Spells (report x).toList (x.toBits.toNat.testBit 63) m e ∧ m < 2 ^ 64 ∧
      scaleByTen? (Float.ofNat m) e = some y ∧
      Returned (FewDigits (Binary.view x)) (x.toBits.toNat % 2 ^ 63) y.toBits.toNat := by
  have hview := view_of_isFinite hx
  have hfew : FewDigits (Binary.view x) = (significand (x.toBits.toNat % 2 ^ 63) = 0 ∨
      Exact (written (x.toBits.toNat % 2 ^ 63))) := by
    rw [hview]
    rfl
  rw [isFinite_iff] at hx
  rw [hfew]
  generalize x.toBits.toNat % 2 ^ 63 = n at hview hx ⊢
  generalize x.toBits.toNat.testBit 63 = negative at hview ⊢
  rcases Nat.eq_zero_or_pos n with rfl | hn
  · have hzero : significand 0 = 0 := rfl
    have hreport : report x = signed negative "0.0" := by
      unfold report Style.render
      rw [hview]
      rfl
    obtain ⟨y, hy, hbits⟩ : ∃ y, scaleByTen? (Float.ofNat 0) (-1) = some y ∧
        y.toBits.toNat = 0 := by
      have hcheck : (scaleByTen? (Float.ofNat 0) (-1)).map (·.toBits.toNat) = some 0 := by
        decide +kernel
      exact Option.map_eq_some_iff.mp hcheck
    have hspells := spells_point negative (wholePart_toString 0) fractionPart_zero
    refine ⟨0, -1, y, ?_, by norm_num, hy, ?_⟩
    · rw [hreport, toList_signed]
      exact hspells
    · rw [hbits]
      exact ⟨by norm_num [infinityBits], by omega, by omega, fun _ => rfl⟩
  · have hsignificand : significand n ≠ 0 := (significand_pos hn).ne'
    have hstands := shortest_stands hn hx .even
    have hdigits := (stands_asRead hstands).digits_le
    obtain ⟨y, hy, hreturned⟩ := exists_read hn hx
    refine ⟨_, _, y, ?_, hdigits.trans_lt (by norm_num), hy, ?_⟩
    · rw [report_of_view hview hsignificand, toList_signed]
      exact spells_decimalText negative hstands.digits_pos (natAbs_leading_le hstands hx)
    · rw [or_iff_right hsignificand]
      exact hreturned

theorem testBit_eq (x : Float) : x.toBits.toNat =
    (if x.toBits.toNat.testBit 63 then 2 ^ 63 else 0) + x.toBits.toNat % 2 ^ 63 := by
  have hbits : x.toBits.toNat < 2 ^ 64 := x.toBits.toBitVec.isLt
  rw [Nat.testBit_eq_decide_div_mod_eq]
  simp only [decide_eq_true_eq]
  split_ifs <;> omega

/-- A finite float is read back from its text, at most two floats away. -/
theorem exists_readBack (hx : x.isFinite = true) :
    ∃ y, ReadBack x y ∧ ∀ rest, Follows rest →
      (Reader.optional Reader.number).run ((report x).toList ++ rest) = .ok (some y, rest) := by
  obtain ⟨m, e, y, hspells, hm, hy, hreturned⟩ := exists_spelled hx
  refine ⟨if x.toBits.toNat.testBit 63 then -y else y, ?_, fun rest hrest =>
    optional_of_spells hspells hm hy hrest⟩
  have hbits : (if x.toBits.toNat.testBit 63 then -y else y).toBits.toNat =
      (if x.toBits.toNat.testBit 63 then 2 ^ 63 else 0) + y.toBits.toNat := by
    split_ifs
    · exact toBits_neg rfl hreturned.finite
    · rw [Nat.zero_add]
  have hx' := testBit_eq x
  obtain ⟨hfinite, hle, hge, heq⟩ := hreturned
  have hlow : infinityBits < 2 ^ 63 := by norm_num [infinityBits]
  refine ⟨?_, ?_, ?_, ?_, ?_⟩
  · rw [isFinite_iff, hbits]
    split_ifs <;> omega
  · rw [hbits]
    split_ifs at hx' ⊢ <;> omega
  · rw [hbits]
    omega
  · rw [hbits]
    omega
  · intro hfew
    rw [← UInt64.toNat_inj, hbits, heq hfew]
    exact hx'.symm

end Floats

end LinearSystem.Json
