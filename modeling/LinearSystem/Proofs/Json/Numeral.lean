import LinearSystem.Json.Lexeme
import LinearSystem.Proofs.ShortestDecimal

namespace LinearSystem.Json

open Text

/-- What comes right after a value: nothing, or what separates it from the next one or ends its
container. -/
def Follows (rest : List Char) : Prop :=
  ∀ c ∈ rest.head?, c = ',' ∨ c = ']' ∨ c = '}' ∨ c = '\n'

def AllDigits (s : List Char) : Prop := ∀ c ∈ s, c.isDigit = true

/-- Digits as they may stand before the point: a zero only alone. -/
structure WholePart (s : List Char) : Prop where
  ne_nil : s ≠ []
  digits : AllDigits s
  zero_alone : s.head? = some '0' → s.length = 1

inductive FractionPart : List Char → Prop
  | absent : FractionPart []
  | point {ds : List Char} (hne : ds ≠ []) (hds : AllDigits ds) : FractionPart ('.' :: ds)

inductive ExponentPart : List Char → Prop
  | absent : ExponentPart []
  | signed {sign : Char} (hsign : sign = '+' ∨ sign = '-') {ds : List Char} (hne : ds ≠ [])
      (hds : AllDigits ds) : ExponentPart ('e' :: sign :: ds)

/-- A number as the grammar has it. -/
inductive NumeralText : List Char → Prop
  | parts {sign whole fraction exponent : List Char} (hsign : sign = [] ∨ sign = ['-'])
      (hwhole : WholePart whole) (hfraction : FractionPart fraction)
      (hexponent : ExponentPart exponent) :
      NumeralText (sign ++ (whole ++ (fraction ++ exponent)))

/-- The values of digits. -/
def digitValues (ds : List Char) : List ℕ := ds.map (·.toNat - 48)

/-- The number that a text of these parts is read as. -/
def numeralOf (sign whole fraction exponent : List Char) : Numeral where
  negative := decide (sign = ['-'])
  whole := digitValues whole
  fraction := digitValues fraction.tail
  exponentNegative := decide (exponent.tail.head? = some '-')
  exponent := ofDigits 10 (digitValues (exponent.drop 2))

section Read

variable {sign ds whole fraction exponent s rest : List Char} {c : Char}

theorem digit?_of_isDigit (h : c.isDigit = true) : digit? 10 c = some (c.toNat - 48) := by
  rw [Char.isDigit_iff_toNat] at h
  have hrange : '0' ≤ c ∧ c ≤ '9' := h
  have hvalue : c.toNat - 48 < 10 := by
    have : '9'.toNat = 57 := rfl
    omega
  simp only [digit?, if_pos hrange, if_pos hvalue]

theorem digit_ne_zero (h : c.isDigit = true) (hc : c ≠ '0') : c.toNat - 48 ≠ 0 := by
  rw [Char.isDigit_iff_toNat] at h
  intro hzero
  apply hc
  rw [← Char.toNat_inj]
  have : '0'.toNat = 48 := rfl
  omega

theorem spanDigits_append (hds : AllDigits ds) (hrest : ∀ c ∈ rest.head?, digit? 10 c = none) :
    spanDigits (ds ++ rest) = (digitValues ds, rest) := by
  induction ds with
  | nil =>
    cases rest with
    | nil => rfl
    | cons c rest => simp [spanDigits, hrest c rfl, digitValues]
  | cons d ds ih =>
    have hd := digit?_of_isDigit (hds d List.mem_cons_self)
    have htail := ih fun c hc => hds c (List.mem_cons_of_mem d hc)
    simp [spanDigits, hd, htail, digitValues]

theorem Follows.digit?_eq_none (h : Follows rest) : ∀ c ∈ rest.head?, digit? 10 c = none := by
  intro c hc
  rcases h c hc with rfl | rfl | rfl | rfl <;> decide

theorem exponentPart?_append (he : ExponentPart exponent) (hrest : Follows rest) :
    exponentPart? (exponent ++ rest) = some (decide (exponent.tail.head? = some '-'),
      ofDigits 10 (digitValues (exponent.drop 2)), rest) := by
  cases he with
  | absent =>
    cases rest with
    | nil => rfl
    | cons c rest =>
      have hc : ¬(c = 'e' ∨ c = 'E') := by
        rcases hrest c rfl with rfl | rfl | rfl | rfl <;> decide
      simp only [List.nil_append, exponentPart?, if_neg hc]
      rfl
  | @signed sign hsign ds hne hds =>
    have hspan := spanDigits_append hds hrest.digit?_eq_none
    have hvalues : digitValues ds ≠ [] := by simpa [digitValues] using hne
    rcases hsign with rfl | rfl <;>
      simp [exponentPart?, hspan, hvalues]

theorem ExponentPart.head_append (he : ExponentPart exponent) (hrest : Follows rest) :
    ∀ c ∈ (exponent ++ rest).head?, digit? 10 c = none ∧ c ≠ '.' := by
  intro c hc
  cases he with
  | absent => rcases hrest c hc with rfl | rfl | rfl | rfl <;> decide
  | signed =>
    obtain rfl : 'e' = c := Option.some.inj hc
    decide

theorem fractionPart?_append (hf : FractionPart fraction) {tail : List Char}
    (htail : ∀ c ∈ tail.head?, digit? 10 c = none ∧ c ≠ '.') :
    fractionPart? (fraction ++ tail) = some (digitValues fraction.tail, tail) := by
  cases hf with
  | absent =>
    rw [List.nil_append, fractionPart?.eq_2]
    · rfl
    · rintro s rfl
      exact (htail '.' rfl).2 rfl
  | @point ds hne hds =>
    have hspan := spanDigits_append hds fun c hc => (htail c hc).1
    have hvalues : digitValues ds ≠ [] := by simpa [digitValues] using hne
    simp [fractionPart?, hspan, hvalues]

theorem FractionPart.head_append (hf : FractionPart fraction) {tail : List Char}
    (htail : ∀ c ∈ tail.head?, digit? 10 c = none ∧ c ≠ '.') :
    ∀ c ∈ (fraction ++ tail).head?, digit? 10 c = none := by
  intro c hc
  cases hf with
  | absent => exact (htail c hc).1
  | point =>
    obtain rfl : '.' = c := Option.some.inj hc
    decide

theorem NumeralText.head (h : NumeralText s) :
    ∃ c ∈ s.head?, (decide (c = '-') || isDigit c) = true := by
  cases h with
  | @parts sign whole _ _ hsign hwhole _ _ =>
    obtain ⟨c, tail, rfl⟩ := List.exists_cons_of_ne_nil hwhole.ne_nil
    have hdigit := digit?_of_isDigit (hwhole.digits c List.mem_cons_self)
    rcases hsign with rfl | rfl
    · exact ⟨c, rfl, by simp [isDigit, hdigit]⟩
    · exact ⟨'-', rfl, rfl⟩

theorem numeral?_parts (hsign : sign = [] ∨ sign = ['-']) (hwhole : WholePart whole)
    (hfraction : FractionPart fraction) (hexponent : ExponentPart exponent) (hrest : Follows rest) :
    numeral? (sign ++ (whole ++ (fraction ++ exponent)) ++ rest) =
      some (numeralOf sign whole fraction exponent, rest) := by
  have htail := hexponent.head_append hrest
  have he := exponentPart?_append hexponent hrest
  have hf := fractionPart?_append hfraction htail
  have hw := spanDigits_append hwhole.digits (hfraction.head_append htail)
  obtain ⟨c, more, rfl⟩ := List.exists_cons_of_ne_nil hwhole.ne_nil
  have hc : c ≠ '-' := by
    rintro rfl
    exact absurd (hwhole.digits '-' List.mem_cons_self) (by decide)
  unfold numeral?
  split
  next negative start hstart =>
  obtain ⟨rfl, rfl⟩ : negative = decide (sign = ['-']) ∧
      start = c :: more ++ (fraction ++ (exponent ++ rest)) := by
    rcases hsign with rfl | rfl
    · simpa [hc, eq_comm] using hstart
    · simpa [eq_comm] using hstart
  rw [hw]
  cases more with
  | nil => simp [hf, he, numeralOf, digitValues]
  | cons c' more =>
    have hlead : c ≠ '0' := by
      rintro rfl
      simpa using hwhole.zero_alone rfl
    obtain ⟨k, hk⟩ := Nat.exists_eq_succ_of_ne_zero
      (digit_ne_zero (hwhole.digits c List.mem_cons_self) hlead)
    simp [hf, he, hk, numeralOf, digitValues]

theorem numeral?_append (h : NumeralText s) (hrest : Follows rest) :
    ∃ n, numeral? (s ++ rest) = some (n, rest) := by
  cases h with
  | parts hsign hwhole hfraction hexponent =>
    exact ⟨_, numeral?_parts hsign hwhole hfraction hexponent hrest⟩

end Read

section Write

variable {n : ℕ} {d : Decimal} {x : Float} {sign : List Char}

theorem allDigits_toString (n : ℕ) : AllDigits (toString n).toList := by
  intro c hc
  rw [Nat.toString_eq_repr, Nat.toList_repr] at hc
  exact Nat.isDigit_of_mem_toDigits (by norm_num) (by norm_num) hc

theorem toString_ne_nil (n : ℕ) : (toString n).toList ≠ [] := by
  rw [Nat.toString_eq_repr, Nat.toList_repr]
  exact Nat.toDigits_ne_nil

/-- No positive number is written with a zero in front. -/
theorem head?_toString (hn : 0 < n) : (toString n).toList.head? ≠ some '0' := by
  rw [Nat.toString_eq_repr, Nat.toList_repr]
  induction n using Nat.strongRecOn with
  | ind n ih =>
    rcases Nat.lt_or_ge n 10 with hlt | hge
    · rw [Nat.toDigits_of_lt_base hlt]
      simp [Nat.digitChar_eq_zero, hn.ne']
    · rw [Nat.toDigits_of_base_le (by norm_num) hge,
        List.head?_append_of_ne_nil _ Nat.toDigits_ne_nil]
      exact ih (n / 10) (by omega) (by omega)

theorem allDigits_zeros (k : ℕ) : AllDigits (Decimal.zeros k).toList := by
  intro c hc
  rw [Decimal.zeros, String.toList_ofList] at hc
  rw [List.eq_of_mem_replicate hc]
  rfl

theorem wholePart_toString (n : ℕ) : WholePart (toString n).toList where
  ne_nil := toString_ne_nil n
  digits := allDigits_toString n
  zero_alone := by
    intro h
    rcases Nat.eq_zero_or_pos n with rfl | hn
    · rfl
    · exact absurd h (head?_toString hn)

theorem numeralText_count (n : ℕ) : NumeralText (toString n).toList := by
  simpa using NumeralText.parts (.inl rfl) (wholePart_toString n) .absent .absent

theorem wholePart_scaled (hn : 0 < n) (k : ℕ) :
    WholePart ((toString n).toList ++ (Decimal.zeros k).toList) where
  ne_nil := List.append_ne_nil_of_left_ne_nil (toString_ne_nil n) _
  digits := List.forall_mem_append.mpr ⟨allDigits_toString n, allDigits_zeros k⟩
  zero_alone := by
    intro h
    rw [List.head?_append_of_ne_nil _ (toString_ne_nil n)] at h
    exact absurd h (head?_toString hn)

theorem toList_padded (width n : ℕ) : (Decimal.padded width n).toList =
    List.replicate (width - (toString n).length) '0' ++ (toString n).toList := by
  simp [Decimal.padded, Decimal.zeros]

theorem length_padded (width n : ℕ) :
    (Decimal.padded width n).toList.length = max width (toString n).length := by
  rw [toList_padded, List.length_append, List.length_replicate, String.length_toList]
  omega

theorem allDigits_padded (width n : ℕ) : AllDigits (Decimal.padded width n).toList := by
  have hzeros := allDigits_zeros (width - (toString n).length)
  rw [Decimal.zeros, String.toList_ofList] at hzeros
  rw [toList_padded]
  exact List.forall_mem_append.mpr ⟨hzeros, allDigits_toString n⟩

/-- Zeros in front fill up to one digit before the point. -/
theorem wholePart_padded (hn : 0 < n) (places : ℕ) :
    WholePart ((Decimal.padded (places + 1) n).toList.take
      ((Decimal.padded (places + 1) n).toList.length - places)) where
  ne_nil := by
    rw [← List.length_pos_iff, List.length_take, length_padded]
    omega
  digits c hc := allDigits_padded (places + 1) n c (List.mem_of_mem_take hc)
  zero_alone := by
    intro h
    rw [length_padded] at h ⊢
    rcases Nat.lt_or_ge places (toString n).length with hlong | hshort
    · have hnone : places + 1 - (toString n).length = 0 := by omega
      rw [toList_padded, hnone, List.replicate_zero, List.nil_append, List.head?_take,
        if_neg (by omega)] at h
      exact absurd h (head?_toString hn)
    · rw [List.length_take, length_padded]
      omega

theorem length_drop_padded (places n : ℕ) : ((Decimal.padded (places + 1) n).toList.drop
    ((Decimal.padded (places + 1) n).toList.length - places)).length = places := by
  rw [List.length_drop, length_padded]
  omega

theorem fractionPart_padded (n : ℕ) {places : ℕ} (hplaces : 0 < places) :
    FractionPart ('.' :: (Decimal.padded (places + 1) n).toList.drop
      ((Decimal.padded (places + 1) n).toList.length - places)) := by
  refine .point ?_ fun c hc => allDigits_padded (places + 1) n c (List.mem_of_mem_drop hc)
  rw [← List.length_pos_iff, length_drop_padded]
  exact hplaces

theorem fractionPart_zero : FractionPart ['.', '0'] := .point (by simp) (by simp [AllDigits])

theorem numeralText_withPoint (hsign : sign = [] ∨ sign = ['-']) (hn : 0 < n) {places : ℕ}
    (hplaces : 0 < places) : NumeralText (sign ++ (Decimal.withPoint places n).toList) := by
  simpa [Decimal.withPoint] using
    NumeralText.parts hsign (wholePart_padded hn places) (fractionPart_padded n hplaces) .absent

theorem numeralText_positional (hsign : sign = [] ∨ sign = ['-']) (hd : 0 < d.digits) :
    NumeralText (sign ++ (Decimal.positionalText true d).toList) := by
  unfold Decimal.positionalText
  split
  next =>
    simpa using
      NumeralText.parts hsign (wholePart_scaled hd d.exponent.toNat) fractionPart_zero .absent
  next hneg => exact numeralText_withPoint hsign hd (by omega)

theorem numeralText_zero (hsign : sign = [] ∨ sign = ['-']) :
    NumeralText (sign ++ "0.0".toList) :=
  .parts hsign (wholePart_toString 0) fractionPart_zero .absent

/-- Digits behind a point, or nothing at all. -/
def pointChars (more : List Char) : List Char := if more = [] then [] else '.' :: more

theorem fractionPart_pointChars {more : List Char} (hmore : AllDigits more) :
    FractionPart (pointChars more) := by
  unfold pointChars
  split_ifs with hnil
  · exact .absent
  · exact .point hnil hmore

theorem exponentPart_signed (e : ℤ) :
    ExponentPart ('e' :: (if e < 0 then '-' else '+') :: (toString e.natAbs).toList) := by
  refine .signed ?_ (toString_ne_nil e.natAbs) (allDigits_toString e.natAbs)
  split
  · exact .inr rfl
  · exact .inl rfl

theorem toList_exponentText {c : Char} {more : List Char}
    (hdigits : (toString d.digits).toList = c :: more) :
    (Decimal.exponentText d).toList = [c] ++ (pointChars more ++
      'e' :: (if d.exponent + more.length < 0 then '-' else '+') ::
        (toString (d.exponent + more.length).natAbs).toList) := by
  have hsign (e : ℤ) : (if e < 0 then "-" else "+").toList = [if e < 0 then '-' else '+'] := by
    split <;> rfl
  unfold Decimal.exponentText pointChars
  dsimp only
  rw [hdigits]
  cases more <;> simp [hsign]

/-- The first digit of a number is a whole part, and the others are digits. -/
theorem wholePart_head {c : Char} {more : List Char} (hdigits : (toString n).toList = c :: more) :
    WholePart [c] ∧ AllDigits more := by
  have hall := allDigits_toString n
  rw [hdigits] at hall
  refine ⟨⟨by simp, ?_, fun _ => rfl⟩, fun c' hc' => hall c' (List.mem_cons_of_mem c hc')⟩
  intro c' hc'
  rw [List.mem_singleton.mp hc']
  exact hall c List.mem_cons_self

theorem numeralText_exponent (hsign : sign = [] ∨ sign = ['-']) (d : Decimal) :
    NumeralText (sign ++ (Decimal.exponentText d).toList) := by
  obtain ⟨c, more, hdigits⟩ := List.exists_cons_of_ne_nil (toString_ne_nil d.digits)
  obtain ⟨hwhole, hmore⟩ := wholePart_head hdigits
  rw [toList_exponentText hdigits]
  exact .parts hsign hwhole (fractionPart_pointChars hmore) (exponentPart_signed _)

/-- A float in a report is a number, or null when it has no value. -/
theorem report_eq_null_or_numeralText (x : Float) :
    Decimal.report x = "null" ∨ NumeralText (Decimal.report x).toList := by
  unfold Decimal.report Decimal.Style.render
  cases hview : Binary.view x with
  | nan => exact .inl rfl
  | infinite negative => exact .inl (by cases negative <;> rfl)
  | finite negative m q =>
    right
    obtain ⟨sign, hsign, hsigned⟩ : ∃ sign, (sign = [] ∨ sign = ['-']) ∧
        ∀ s, (Decimal.signed negative s).toList = sign ++ s.toList := by
      cases negative with
      | false => exact ⟨[], .inl rfl, fun s => rfl⟩
      | true => exact ⟨['-'], .inr rfl, fun s => by simp [Decimal.signed]⟩
    simp only [hsigned]
    split_ifs with hm hpoint hpositional
    · exact numeralText_zero hsign
    · exact absurd rfl hpoint
    · exact numeralText_positional hsign (Decimal.shortest_digits_pos_of_view _ hview hm)
    · exact numeralText_exponent hsign _

end Write

end LinearSystem.Json
