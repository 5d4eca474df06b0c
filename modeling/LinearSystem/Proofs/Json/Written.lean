import LinearSystem.Json.Reader
import LinearSystem.Json.Writer
import LinearSystem.Proofs.Json.Numeral

namespace LinearSystem.Json

open Reader

def Blanks (s : List Char) : Prop := ∀ c ∈ s, isBlank c = true

namespace Reader.Frame

def opening : Frame → Char
  | array => '['
  | object => '{'

def closing : Frame → Char
  | array => ']'
  | object => '}'

/-- Skip one part of a container: an element, or a key and its value. -/
def skipPart : Frame → Nat → List Frame → Reader Unit
  | array, fuel, frames => skipFrom fuel false (array :: frames)
  | object, fuel, frames => do
    skipFrom.skipKey
    skipFrom fuel false (object :: frames)

end Reader.Frame

section Steps

variable {α β : Type} {c : Char} {blanks s t rest : List Char} {fuel : ℕ} {frames : List Frame}
  {f : Frame}

theorem run_bind_of_ok {r : Reader α} {g : α → Reader β} {a : α} (h : r.run s = .ok (a, t)) :
    (r >>= g).run s = (g a).run t := by
  rw [StateT.run_bind, h]
  rfl

theorem lexeme_of_some {g : List Char → Option (α × List Char)} {a : α} (h : g s = some (a, t)) :
    (lexeme g).run s = .ok (a, t) := by
  have hget : (get : Reader (List Char)).run s = .ok (s, s) := rfl
  rw [lexeme, run_bind_of_ok hget, h]
  rfl

theorem peek_cons (h : isBlank c = false) : peek.run (c :: s) = .ok (c, c :: s) := by
  simp [peek, h]
  rfl

theorem peek_blanks (h : Blanks blanks) : peek.run (blanks ++ s) = peek.run s := by
  have hdrop : (blanks ++ s).dropWhile isBlank = s.dropWhile isBlank :=
    List.dropWhile_append_of_pos h
  simp [peek, hdrop]

theorem skipFrom_blanks (h : Blanks blanks) :
    (skipFrom (fuel + 1) false frames).run (blanks ++ s) =
      (skipFrom (fuel + 1) false frames).run s := by
  simp only [skipFrom, StateT.run_bind, peek_blanks h]

theorem skipPart_blanks (h : Blanks blanks) :
    (f.skipPart (fuel + 1) frames).run (blanks ++ s) = (f.skipPart (fuel + 1) frames).run s := by
  cases f with
  | array => exact skipFrom_blanks h
  | object => simp only [Frame.skipPart, skipFrom.skipKey, expect, StateT.run_bind, peek_blanks h]

theorem skipFrom_opening :
    (skipFrom (fuel + 1) false frames).run (f.opening :: s) =
      (do
        if (← peek) = f.closing then
          modify List.tail
          skipFrom fuel true frames
        else f.skipPart fuel frames : Reader Unit).run s := by
  cases f <;> rfl

theorem skipFrom_empty :
    (skipFrom (fuel + 1) false frames).run (f.opening :: f.closing :: rest) =
      (skipFrom fuel true frames).run rest := by
  cases f <;> rfl

theorem skipFrom_open (hblanks : Blanks blanks) (hc : isBlank c = false) (hne : c ≠ f.closing) :
    (skipFrom (fuel + 1) false frames).run (f.opening :: (blanks ++ c :: s)) =
      (f.skipPart fuel frames).run (c :: s) := by
  rw [skipFrom_opening, run_bind_of_ok ((peek_blanks hblanks).trans (peek_cons hc)), if_neg hne]

theorem skipFrom_comma :
    (skipFrom (fuel + 1) true (f :: frames)).run (',' :: rest) =
      (f.skipPart fuel frames).run rest := by
  cases f <;> rfl

theorem skipFrom_close (hblanks : Blanks blanks) :
    (skipFrom (fuel + 1) true (f :: frames)).run (blanks ++ f.closing :: rest) =
      (skipFrom fuel true frames).run rest := by
  cases f <;> simp only [skipFrom, StateT.run_bind, peek_blanks hblanks] <;> rfl

theorem skipFrom_null :
    (skipFrom (fuel + 1) false frames).run ("null".toList ++ rest) =
      (skipFrom fuel true frames).run rest := rfl

theorem not_blank_of_number (h : (decide (c = '-') || Text.isDigit c) = true) :
    isBlank c = false := by
  by_contra hblank
  simp only [isBlank, Bool.not_eq_false, Bool.or_eq_true, decide_eq_true_eq] at hblank
  rcases hblank with ((rfl | rfl) | rfl) | rfl <;> exact absurd h (by decide)

theorem skipFrom_numeral (h : NumeralText s) (hrest : Follows rest) :
    (skipFrom (fuel + 1) false frames).run (s ++ rest) = (skipFrom fuel true frames).run rest := by
  obtain ⟨n, hn⟩ := numeral?_append h hrest
  obtain ⟨c, hc, hfirst⟩ := h.head
  obtain ⟨tail, rfl⟩ : ∃ tail, s = c :: tail := List.head?_eq_some_iff.mp hc
  rw [skipFrom, List.cons_append, run_bind_of_ok (peek_cons (not_blank_of_number hfirst))]
  split
  case h_7 => rw [if_pos hfirst, ← List.cons_append, run_bind_of_ok (lexeme_of_some hn)]
  all_goals exact absurd hfirst (by decide)

section Strings

theorem skipString?_plain (hquote : c ≠ '"') (hslash : c ≠ '\\') (hcontrol : 0x20 ≤ c.toNat) :
    skipString? (c :: s) = skipString? s := by
  rw [skipString?.eq_def]
  simp [hquote, hslash, hcontrol]

theorem digit?_hexDigit : ∀ k < 16, Text.digit? 16 (hexDigit k) = some k := by decide

/-- Each character is one step over its escape, or over itself. -/
theorem skipString?_escapeChar (c : Char) : skipString? (escapeChar c ++ s) = skipString? s := by
  unfold escapeChar
  split
  case h_8 hquote hslash _ _ _ _ _ =>
    split
    next hcontrol =>
      have hzero : Text.digit? 16 '0' = some 0 := by decide
      have hhigh := digit?_hexDigit (c.toNat / 16) (by omega)
      have hlow := digit?_hexDigit (c.toNat % 16) (by omega)
      simp [skipString?, Text.hexadecimal?, hzero, hhigh, hlow]
    next hcontrol => exact skipString?_plain hquote hslash (by omega)
  all_goals simp [skipString?, escape?]

theorem skipString?_quoted (cs : List Char) :
    skipString? (cs.flatMap escapeChar ++ '"' :: rest) = some rest := by
  induction cs with
  | nil =>
    rw [List.flatMap_nil, List.nil_append, skipString?.eq_def]
    rfl
  | cons c cs ih => rw [List.flatMap_cons, List.append_assoc, skipString?_escapeChar, ih]

theorem toList_quoted (text : String) :
    (quoted text).toList = '"' :: (text.toList.flatMap escapeChar ++ ['"']) := by
  simp [quoted]

theorem lexeme_skipString (cs : List Char) :
    (lexeme fun s => (skipString? s).map fun rest => ((), rest)).run
      (cs.flatMap escapeChar ++ '"' :: rest) = .ok ((), rest) :=
  lexeme_of_some (by rw [skipString?_quoted, Option.map_some])

theorem skipFrom_quoted (text : String) :
    (skipFrom (fuel + 1) false frames).run ((quoted text).toList ++ rest) =
      (skipFrom fuel true frames).run rest := by
  have hopen (s : List Char) : (skipFrom (fuel + 1) false frames).run ('"' :: s) =
      (do
        lexeme fun s => (skipString? s).map fun rest => ((), rest)
        skipFrom fuel true frames : Reader Unit).run s := rfl
  rw [toList_quoted, List.cons_append, List.append_assoc, List.singleton_append, hopen,
    run_bind_of_ok (lexeme_skipString text.toList)]

theorem skipKey_quoted (text : String) :
    skipFrom.skipKey.run ((quoted text).toList ++ ':' :: rest) = .ok ((), rest) := by
  have hopen (s : List Char) : skipFrom.skipKey.run ('"' :: s) =
      (do
        lexeme fun s => (skipString? s).map fun rest => ((), rest)
        expect ':' : Reader Unit).run s := rfl
  rw [toList_quoted, List.cons_append, List.append_assoc, List.singleton_append, hopen,
    run_bind_of_ok (lexeme_skipString text.toList)]
  rfl

end Strings

end Steps

/-- A text that is skipped as one value: what follows it is left, for no more steps than it has
characters. -/
structure Skipped (s : List Char) : Prop where
  head : ∃ c ∈ s.head?, isBlank c = false ∧ c ≠ ']'
  run : ∃ k, 0 < k ∧ k ≤ s.length ∧ ∀ fuel frames rest, Follows rest →
    (skipFrom (fuel + k) false frames).run (s ++ rest) = (skipFrom fuel true frames).run rest

/-- The same of a part of a container. -/
structure SkippedPart (f : Frame) (s : List Char) : Prop where
  head : ∃ c ∈ s.head?, isBlank c = false ∧ c ≠ f.closing
  run : ∃ k, 0 < k ∧ k ≤ s.length ∧ ∀ fuel frames rest, Follows rest →
    (f.skipPart (fuel + k) frames).run (s ++ rest) = (skipFrom fuel true (f :: frames)).run rest

section Values

variable {s t nl indent : List Char} {f : Frame}

theorem Skipped.element (h : Skipped s) : SkippedPart .array s := by
  obtain ⟨k, hpos, hk, hrun⟩ := h.run
  exact ⟨h.head, k, hpos, hk, fun fuel frames => hrun fuel (.array :: frames)⟩

theorem Skipped.member (key : String) (h : Skipped s) :
    SkippedPart .object ((quoted key).toList ++ ':' :: ' ' :: s) := by
  obtain ⟨k, hpos, hk, hrun⟩ := h.run
  refine ⟨⟨'"', by rw [toList_quoted]; rfl, by decide⟩, k, hpos, by simp; omega, ?_⟩
  intro fuel frames rest hrest
  have hblank : Blanks [' '] := by simp [Blanks, isBlank]
  obtain ⟨k, rfl⟩ := Nat.exists_eq_succ_of_ne_zero hpos.ne'
  rw [Frame.skipPart, List.append_assoc, List.cons_append, run_bind_of_ok (skipKey_quoted key)]
  exact (skipFrom_blanks hblank).trans (hrun fuel (.object :: frames) rest hrest)

theorem SkippedPart.join (hblanks : Blanks nl) (hs : SkippedPart f s) (ht : SkippedPart f t) :
    SkippedPart f (s ++ (',' :: nl) ++ t) := by
  obtain ⟨k, hk, hlen, hrun⟩ := hs.run
  obtain ⟨l, hl, hlen', hrun'⟩ := ht.run
  obtain ⟨c, hc, hhead⟩ := hs.head
  refine ⟨⟨c, by simp [Option.mem_def.mp hc], hhead⟩, l + 1 + k, by omega, by simp; omega, ?_⟩
  intro fuel frames rest hrest
  have hcomma : Follows (',' :: (nl ++ (t ++ rest))) := by simp [Follows]
  have htext : s ++ (',' :: nl) ++ t ++ rest = s ++ ',' :: (nl ++ (t ++ rest)) := by simp
  obtain ⟨l, rfl⟩ := Nat.exists_eq_succ_of_ne_zero hl.ne'
  rw [htext, ← Nat.add_assoc, hrun _ _ _ hcomma, ← Nat.add_assoc, skipFrom_comma]
  exact (skipPart_blanks hblanks).trans (hrun' fuel frames rest hrest)

theorem SkippedPart.intercalate (hblanks : Blanks nl) {items : List (List Char)}
    (hne : items ≠ []) (h : ∀ s ∈ items, SkippedPart f s) :
    SkippedPart f (List.intercalate (',' :: nl) items) := by
  induction items with
  | nil => exact absurd rfl hne
  | cons s items ih =>
    cases items with
    | nil => simpa using h s List.mem_cons_self
    | cons t items =>
      rw [List.intercalate_cons_cons]
      exact (h s List.mem_cons_self).join hblanks
        (ih (by simp) fun u hu => h u (List.mem_cons_of_mem s hu))

theorem SkippedPart.enclose (hblanks : Blanks nl) (hblanks' : Blanks ('\n' :: indent))
    (h : SkippedPart f s) :
    Skipped (f.opening :: (nl ++ (s ++ ('\n' :: indent ++ [f.closing])))) := by
  obtain ⟨k, hk, hlen, hrun⟩ := h.run
  obtain ⟨c, hc, hblank, hclosing⟩ := h.head
  obtain ⟨tail, rfl⟩ : ∃ tail, s = c :: tail := List.head?_eq_some_iff.mp hc
  refine ⟨⟨f.opening, rfl, by cases f <;> decide⟩, 1 + k + 1, by omega,
    by simp at hlen ⊢; omega, ?_⟩
  intro fuel frames rest hrest
  have hend : Follows ('\n' :: indent ++ f.closing :: rest) := by simp [Follows]
  have htext : f.opening :: (nl ++ (c :: tail ++ ('\n' :: indent ++ [f.closing]))) ++ rest =
      f.opening :: (nl ++ c :: (tail ++ ('\n' :: indent ++ f.closing :: rest))) := by simp
  have hfuel : fuel + (1 + k + 1) = fuel + 1 + k + 1 := by omega
  rw [htext, hfuel, skipFrom_open hblanks hblank hclosing, ← List.cons_append,
    hrun (fuel + 1) frames _ hend, skipFrom_close hblanks']

theorem skipped_empty (f : Frame) : Skipped [f.opening, f.closing] where
  head := ⟨f.opening, rfl, by cases f <;> decide⟩
  run := ⟨1, by omega, by simp, fun _ _ _ _ => skipFrom_empty⟩

end Values

section Pretty

theorem skipped_quoted (text : String) : Skipped (quoted text).toList where
  head := ⟨'"', by rw [toList_quoted]; rfl, by decide⟩
  run := ⟨1, by omega, by rw [toList_quoted]; simp, fun _ _ _ _ => skipFrom_quoted text⟩

theorem skipped_null : Skipped "null".toList where
  head := ⟨'n', rfl, by decide⟩
  run := ⟨1, by omega, by decide, fun _ _ _ _ => skipFrom_null⟩

theorem NumeralText.skipped {s : List Char} (h : NumeralText s) : Skipped s := by
  obtain ⟨c, hc, hfirst⟩ := h.head
  refine ⟨⟨c, hc, not_blank_of_number hfirst, ?_⟩, 1, by omega, ?_, fun _ _ _ hrest =>
    skipFrom_numeral h hrest⟩
  · rintro rfl
    exact absurd hfirst (by decide)
  · obtain ⟨tail, rfl⟩ : ∃ tail, s = c :: tail := List.head?_eq_some_iff.mp hc
    simp

theorem toList_newLine (depth : ℕ) :
    (Value.newLine depth).toList = '\n' :: List.replicate (2 * depth) ' ' := by
  simp [Value.newLine]

theorem blanks_newLine (depth : ℕ) : Blanks ('\n' :: List.replicate (2 * depth) ' ') := by
  intro c hc
  rcases List.mem_cons.mp hc with rfl | hc
  · rfl
  · rw [List.eq_of_mem_replicate hc]
    rfl

theorem skipped_block (f : Frame) {opening closing : String} (ho : opening.toList = [f.opening])
    (hc : closing.toList = [f.closing]) (depth : ℕ) {items : List String}
    (h : ∀ text ∈ items, SkippedPart f text.toList) :
    Skipped (Value.block depth opening closing items).toList := by
  unfold Value.block
  split
  next =>
    rw [String.toList_append, ho, hc]
    exact skipped_empty f
  next hne =>
    have hparts : SkippedPart f (List.intercalate
        (',' :: '\n' :: List.replicate (2 * (depth + 1)) ' ') (items.map String.toList)) :=
      .intercalate (blanks_newLine (depth + 1)) (by simpa using hne) (by simpa using h)
    have hblock := hparts.enclose (blanks_newLine (depth + 1)) (blanks_newLine depth)
    simpa [ho, hc, toList_newLine, String.toList_intercalate] using hblock

mutual

/-- A value on several lines is one value to the reader. -/
theorem skipped_pretty (depth : ℕ) : ∀ v : Value, Skipped (v.pretty depth).toList
  | .null => skipped_null
  | .number x => by
    rw [Value.pretty]
    rcases report_eq_null_or_numeralText x with h | h
    · rw [h]
      exact skipped_null
    · exact h.skipped
  | .count n => (numeralText_count n).skipped
  | .text s => skipped_quoted s
  | .array items => skipped_block .array rfl rfl depth (skipped_prettyItems (depth + 1) items)
  | .object members =>
    skipped_block .object rfl rfl depth (skipped_prettyMembers (depth + 1) members)

theorem skipped_prettyItems (depth : ℕ) :
    ∀ vs : List Value, ∀ text ∈ Value.prettyItems depth vs, SkippedPart .array text.toList
  | [] => by simp [Value.prettyItems]
  | v :: vs => by
    rw [Value.prettyItems, List.forall_mem_cons]
    exact ⟨(skipped_pretty depth v).element, skipped_prettyItems depth vs⟩

theorem skipped_prettyMembers (depth : ℕ) :
    ∀ ms : List (String × Value), ∀ text ∈ Value.prettyMembers depth ms,
      SkippedPart .object text.toList
  | [] => by simp [Value.prettyMembers]
  | (key, v) :: ms => by
    rw [Value.prettyMembers, List.forall_mem_cons]
    refine ⟨?_, skipped_prettyMembers depth ms⟩
    simpa using (skipped_pretty depth v).member key

end

end Pretty

theorem runText_skip {text : String} (h : Skipped text.toList) : runText skip text = .ok () := by
  obtain ⟨k, -, hlen, hrun⟩ := h.run
  obtain ⟨fuel, hfuel⟩ : ∃ fuel, 2 * text.toList.length + 2 = fuel + 1 + k :=
    ⟨2 * text.toList.length + 1 - k, by omega⟩
  have hget : (get : Reader (List Char)).run text.toList = .ok (text.toList, text.toList) := rfl
  have hskip : skip.run text.toList = .ok ((), []) := by
    have hend := hrun (fuel + 1) [] [] (by simp [Follows])
    rw [List.append_nil] at hend
    rw [skip, run_bind_of_ok hget, hfuel, hend]
    rfl
  rw [runText, hskip]
  rfl

/-- What is written on several lines reads as one value. -/
theorem runText_skip_pretty (v : Value) (depth : ℕ) : runText skip (v.pretty depth) = .ok () :=
  runText_skip (skipped_pretty depth v)

end LinearSystem.Json
