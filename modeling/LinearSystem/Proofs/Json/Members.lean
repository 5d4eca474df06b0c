import LinearSystem.Proofs.Json.Written

namespace LinearSystem.Json

open Reader

section Strings

variable {s rest done : List Char} {c : Char}

theorem stringBody?_plain (hquote : c ≠ '"') (hslash : c ≠ '\\') (hcontrol : 0x20 ≤ c.toNat) :
    stringBody?.go done (c :: s) = stringBody?.go (c :: done) s := by
  rw [stringBody?.go.eq_def]
  simp [hquote, hslash, hcontrol]

/-- Each character is read back from its escape, or from itself. -/
theorem stringBody?_escapeChar (done : List Char) (c : Char) :
    stringBody?.go done (escapeChar c ++ s) = stringBody?.go (c :: done) s := by
  unfold escapeChar
  split
  case h_8 hquote hslash _ _ _ _ _ =>
    split
    next hcontrol =>
      have hzero : Text.digit? 16 '0' = some 0 := by decide
      have hhigh := digit?_hexDigit (c.toNat / 16) (by omega)
      have hlow := digit?_hexDigit (c.toNat % 16) (by omega)
      have hcode : Text.ofDigits 16 [0, 0, c.toNat / 16, c.toNat % 16] = c.toNat := by
        simp only [Text.ofDigits, List.foldl_cons, List.foldl_nil]
        omega
      have hsurrogate : isHighSurrogate c.toNat = false := by
        simp only [isHighSurrogate, Bool.and_eq_false_iff, decide_eq_false_iff_not]
        omega
      have hcharacter : Text.character? c.toNat = some c := by
        rw [Text.character?, if_pos (.inl (by omega)), Char.ofNat_toNat]
      simp [stringBody?.go, Text.hexadecimal?, hzero, hhigh, hlow, hcode, hsurrogate, hcharacter]
    next hcontrol => exact stringBody?_plain hquote hslash (by omega)
  all_goals simp [stringBody?.go, escape?]

theorem stringBody?_quoted (done cs : List Char) :
    stringBody?.go done (cs.flatMap escapeChar ++ '"' :: rest) =
      some (String.ofList (done.reverse ++ cs), rest) := by
  induction cs generalizing done with
  | nil =>
    rw [List.flatMap_nil, List.nil_append, List.append_nil, stringBody?.go.eq_def]
    rfl
  | cons c cs ih =>
    rw [List.flatMap_cons, List.append_assoc, stringBody?_escapeChar, ih, List.reverse_cons,
      List.append_assoc, List.singleton_append]

end Strings

section Tokens

variable {α σ : Type} {c : Char} {s t rest : List Char} {a : α}

theorem expect_cons (hc : isBlank c = false) : (expect c).run (c :: s) = .ok ((), s) := by
  rw [expect, run_bind_of_ok (peek_cons hc), if_pos rfl]
  rfl

theorem peek_quoted (text : String) :
    peek.run ((quoted text).toList ++ rest) = .ok ('"', (quoted text).toList ++ rest) := by
  rw [toList_quoted]
  exact peek_cons (by decide)

/-- A string that was written is read back. -/
theorem string_quoted (text : String) :
    string.run ((quoted text).toList ++ rest) = .ok (text, rest) := by
  have hbody : stringBody? (text.toList.flatMap escapeChar ++ '"' :: rest) = some (text, rest) := by
    rw [stringBody?, stringBody?_quoted, List.reverse_nil, List.nil_append, String.ofList_toList]
  rw [toList_quoted, List.cons_append, List.append_assoc, List.singleton_append, string,
    run_bind_of_ok (expect_cons (by decide)), lexeme_of_some hbody]

theorem map_run_of_ok {r : Reader α} {g : α → σ} (h : r.run s = .ok (a, t)) :
    (g <$> r).run s = .ok (g a, t) := by
  rw [StateT.run_map, h]
  rfl

theorem memberValue_run {r : Reader α} (h : r.run s = .ok (a, t)) :
    (memberValue r).run (':' :: s) = .ok (a, t) := by
  rw [memberValue, run_bind_of_ok (expect_cons (by decide)), h]

theorem once_run {r : Reader α} (name : String) (h : r.run s = .ok (a, t)) :
    (once name none r).run (':' :: s) = .ok (some a, t) :=
  map_run_of_ok (memberValue_run h)

/-- One of the names, as a string. -/
theorem choice_quoted {names : List (String × α)} {name : String}
    (h : names.lookup name = some a) :
    (choice names).run ((quoted name).toList ++ rest) = .ok (a, rest) := by
  rw [choice, run_bind_of_ok (peek_quoted name)]
  change (choice.pick names).run _ = _
  rw [choice.pick, run_bind_of_ok (string_quoted name), h]
  rfl

end Tokens

section Objects

variable {α σ : Type} {field : σ → String → Reader σ} {s s' init : σ} {fuel : ℕ}
  {rest : List Char} {ms : List (String × Value)}

theorem nextKey?_first (key : String) :
    (nextKey? true).run ((quoted key).toList ++ rest) = .ok (some key, rest) := by
  rw [nextKey?, run_bind_of_ok (peek_quoted key)]
  exact map_run_of_ok (string_quoted key)

theorem nextKey?_next (key : String) :
    (nextKey? false).run (',' :: ((quoted key).toList ++ rest)) = .ok (some key, rest) := by
  rw [nextKey?, run_bind_of_ok (peek_cons (by decide)), if_neg (by decide), if_neg (by decide),
    run_bind_of_ok (expect_cons (by decide))]
  exact map_run_of_ok (string_quoted key)

theorem nextKey?_end (first : Bool) :
    (nextKey? first).run ('\x7d' :: rest) = .ok (none, '\x7d' :: rest) := by
  rw [nextKey?, run_bind_of_ok (peek_cons (by decide))]
  rfl

theorem members_end (first : Bool) :
    (members field (fuel + 1) first s).run ('\x7d' :: rest) = .ok (s, '\x7d' :: rest) := by
  rw [members, run_bind_of_ok (nextKey?_end first)]
  rfl

/-- What the members of an object, each read after its key, make of a state. -/
inductive Takes (field : σ → String → Reader σ) : σ → List (String × Value) → σ → Prop
  | nil (s : σ) : Takes field s [] s
  | cons {s s' s'' : σ} {key : String} {v : Value} {ms : List (String × Value)}
      (hvalue : ∀ rest, Follows rest →
        (field s key).run (':' :: (v.compact.toList ++ rest)) = .ok (s', rest))
      (hrest : Takes field s' ms s'') : Takes field s ((key, v) :: ms) s''

/-- The text of members that are not the first. -/
def laterMembers (ms : List (String × Value)) : List Char :=
  ms.flatMap fun m => ',' :: ((quoted m.1).toList ++ ':' :: m.2.compact.toList)

theorem follows_laterMembers (ms : List (String × Value)) :
    Follows (laterMembers ms ++ '\x7d' :: rest) := by
  cases ms <;> simp [Follows, laterMembers]

theorem members_later (h : Takes field s ms s') (hfuel : ms.length < fuel) :
    (members field fuel false s).run (laterMembers ms ++ '\x7d' :: rest) =
      .ok (s', '\x7d' :: rest) := by
  induction h generalizing fuel with
  | nil s =>
    obtain ⟨fuel, rfl⟩ := Nat.exists_eq_succ_of_ne_zero hfuel.ne'
    exact members_end false
  | @cons s s' s'' key v ms hvalue _ ih =>
    obtain ⟨fuel, rfl⟩ := Nat.exists_eq_succ_of_ne_zero (Nat.zero_lt_of_lt hfuel).ne'
    have htext : laterMembers ((key, v) :: ms) ++ '\x7d' :: rest = ',' :: ((quoted key).toList ++
        ':' :: (v.compact.toList ++ (laterMembers ms ++ '\x7d' :: rest))) := by
      simp [laterMembers]
    rw [htext, members, run_bind_of_ok (nextKey?_next key)]
    dsimp only
    rw [run_bind_of_ok (hvalue _ (follows_laterMembers ms))]
    exact ih (by simpa using hfuel)

theorem toList_compactMembers (key : String) (v : Value) (ms : List (String × Value)) :
    (",".intercalate (Value.compactMembers ((key, v) :: ms))).toList =
      (quoted key).toList ++ ':' :: (v.compact.toList ++ laterMembers ms) := by
  induction ms generalizing key v with
  | nil => simp [Value.compactMembers, laterMembers]
  | cons m ms ih =>
    obtain ⟨key', v'⟩ := m
    have hnext := ih key' v'
    rw [String.toList_intercalate] at hnext ⊢
    simp only [Value.compactMembers, List.map_cons] at hnext ⊢
    rw [List.intercalate_cons_cons, hnext]
    simp [laterMembers]

theorem members_first (rest : List Char) (h : Takes field s ms s') (hfuel : ms.length < fuel) :
    (members field fuel true s).run
        ((",".intercalate (Value.compactMembers ms)).toList ++ '\x7d' :: rest) =
      .ok (s', '\x7d' :: rest) := by
  obtain ⟨fuel, rfl⟩ := Nat.exists_eq_succ_of_ne_zero (Nat.zero_lt_of_lt hfuel).ne'
  cases h with
  | nil => exact members_end true
  | @cons _ s' _ key v ms hvalue hlater =>
    rw [toList_compactMembers, List.append_assoc, List.cons_append, List.append_assoc, members,
      run_bind_of_ok (nextKey?_first key)]
    dsimp only
    rw [run_bind_of_ok (hvalue _ (follows_laterMembers ms))]
    exact members_later hlater (by simpa using hfuel)

theorem length_le_compactMembers (ms : List (String × Value)) :
    ms.length ≤ (",".intercalate (Value.compactMembers ms)).toList.length := by
  cases ms with
  | nil => exact Nat.zero_le _
  | cons m ms =>
    obtain ⟨key, v⟩ := m
    have hlater : ms.length ≤ (laterMembers ms).length := by
      induction ms with
      | nil => exact Nat.zero_le _
      | cons m ms ih =>
        simp only [laterMembers, List.flatMap_cons, List.length_append, List.length_cons] at ih ⊢
        omega
    rw [toList_compactMembers]
    simp only [List.length_append, List.length_cons]
    omega

/-- An object that was written is read member by member. -/
theorem object_compact {finish : σ → Except FormatError α} {a : α} (h : Takes field init ms s)
    (hfinish : finish s = .ok a) :
    (object field init finish).run ((Value.object ms).compact.toList ++ rest) = .ok (a, rest) := by
  obtain ⟨body, hbody⟩ : ∃ body, (",".intercalate (Value.compactMembers ms)).toList = body :=
    ⟨_, rfl⟩
  have htext : (Value.object ms).compact.toList ++ rest =
      '\x7b' :: (body ++ '\x7d' :: rest) := by
    simp [Value.compact, hbody]
  have hget (t : List Char) : (get : Reader (List Char)).run t = .ok (t, t) := rfl
  have hfuel : ms.length < (body ++ '\x7d' :: rest).length := by
    have hlength := length_le_compactMembers ms
    rw [hbody] at hlength
    rw [List.length_append, List.length_cons]
    omega
  have hmembers := members_first rest h hfuel
  rw [hbody] at hmembers
  have hlift : (liftM (finish s) : Reader α).run ('\x7d' :: rest) = .ok (a, '\x7d' :: rest) := by
    rw [hfinish]
    rfl
  rw [htext, object, run_bind_of_ok (expect_cons (by decide)), run_bind_of_ok (hget _),
    run_bind_of_ok hmembers, run_bind_of_ok hlift, run_bind_of_ok (expect_cons (by decide))]
  rfl

end Objects

end LinearSystem.Json
