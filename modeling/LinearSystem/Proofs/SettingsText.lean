import LinearSystem.Proofs.Json.ReadBack
import LinearSystem.Stored.Json
import LinearSystem.Stored.Written

namespace LinearSystem

open Json Json.Reader

theorem PivotRule.lookup_name (p : PivotRule) : PivotRule.names.lookup p.name = some p := by
  cases p <;> decide

theorem ZeroRowRule.lookup_name (z : ZeroRowRule) : ZeroRowRule.names.lookup z.name = some z := by
  cases z <;> decide

namespace Settings

variable {d : Draft} {ms : List (String × Value)}

/-- Written settings are the members read one after another. -/
theorem ofJson_compact (h : Takes jsonMember Draft.empty ms d) :
    ofJson (Value.object ms).compact = .ok d.finish := by
  have hobject : (object jsonMember Draft.empty fun d => pure d.finish).run
      ((Value.object ms).compact.toList ++ []) = .ok (d.finish, []) := object_compact h rfl
  obtain ⟨s, hs⟩ : ∃ s, (Value.object ms).compact.toList = '\x7b' :: s := by
    rw [Value.compact, String.toList_append, String.toList_append]
    exact ⟨_, rfl⟩
  have hpeek : peek.run (Value.object ms).compact.toList =
      .ok ('\x7b', (Value.object ms).compact.toList) := by
    rw [hs]
    exact peek_cons (by decide)
  have hrun : json.run (Value.object ms).compact.toList = .ok (d.finish, []) := by
    rw [json, run_bind_of_ok hpeek, if_neg (by decide)]
    rw [List.append_nil] at hobject
    exact hobject
  rw [ofJson, runText, hrun]
  rfl

/-- The rules are read back by their names. -/
theorem takes_rules (t : Option (Option Float)) (p : PivotRule) (z : ZeroRowRule) :
    Takes jsonMember ⟨t, none, none⟩ [("pivoting", .text p.name), ("zero_row_check", .text z.name)]
      ⟨t, some p, some z⟩ := by
  have hpivoting : ∀ rest, Follows rest → (jsonMember ⟨t, none, none⟩ "pivoting").run
      (':' :: ((Value.text p.name).compact.toList ++ rest)) = .ok (⟨t, some p, none⟩, rest) := by
    intro rest _
    rw [jsonMember, Value.compact]
    exact run_bind_of_ok (once_run "pivoting" (choice_quoted p.lookup_name))
  have hzeroRows : ∀ rest, Follows rest → (jsonMember ⟨t, some p, none⟩ "zero_row_check").run
      (':' :: ((Value.text z.name).compact.toList ++ rest)) = .ok (⟨t, some p, some z⟩, rest) := by
    intro rest _
    rw [jsonMember, Value.compact]
    exact run_bind_of_ok (once_run "zero_row_check" (choice_quoted z.lookup_name))
  exact .cons hpivoting (.cons hzeroRows (.nil _))

/-- Settings that were written are read back with the same rules; a tolerance that is unset stays
unset, and a finite one comes back at most two floats away. -/
theorem exists_ofJson_toJson (s : Settings) (hfinite : ∀ x ∈ s.tolerance, x.isFinite = true) :
    ∃ t, ofJson s.toJson = .ok ⟨t, s.pivoting, s.zeroRows⟩ ∧ Option.Rel ReadBack s.tolerance t := by
  obtain ⟨tolerance, pivoting, zeroRows⟩ := s
  cases tolerance with
  | none => exact ⟨none, ofJson_compact (takes_rules none pivoting zeroRows), .none⟩
  | some x =>
    obtain ⟨y, hback, hread⟩ := exists_readBack (hfinite x rfl)
    have htolerance : ∀ rest, Follows rest → (jsonMember Draft.empty "tolerance").run
        (':' :: ((Value.number x).compact.toList ++ rest)) =
          .ok (⟨some (some y), none, none⟩, rest) := by
      intro rest hrest
      rw [jsonMember, Value.compact]
      exact run_bind_of_ok (once_run "tolerance" (hread rest hrest))
    exact ⟨some y, ofJson_compact (.cons htolerance (takes_rules _ pivoting zeroRows)),
      .some hback⟩

/-- A billionth is written with one digit and comes back bit for bit. -/
theorem exists_ofJson_toJson_nanos :
    let s : Settings := ⟨some (Float.ofBits 0x3e112e0be826d695), .largestMagnitude, .symmetric⟩
    s.toJson = "\x7b\"tolerance\":1e-9,\"pivoting\":\"largest_magnitude\"," ++
        "\"zero_row_check\":\"symmetric\"\x7d" ∧
      (∀ x ∈ s.tolerance, x.isFinite = true) ∧
      ∃ t, ofJson s.toJson = .ok ⟨t, .largestMagnitude, .symmetric⟩ ∧
        Option.Rel ReadBack s.tolerance t ∧ t.map Float.toBits = some 0x3e112e0be826d695 := by
  intro s
  have hfinite : ∀ x ∈ s.tolerance, x.isFinite = true := by
    intro x hx
    obtain rfl := Option.some.inj hx
    decide +kernel
  have hfew : FewDigits (Binary.view (Float.ofBits 0x3e112e0be826d695)) := by decide +kernel
  have hbits : (Float.ofBits 0x3e112e0be826d695).toBits = 0x3e112e0be826d695 := by decide +kernel
  obtain ⟨t, hread, hback⟩ := exists_ofJson_toJson s hfinite
  refine ⟨by decide +kernel, hfinite, t, hread, hback, ?_⟩
  cases hback with
  | some hxy => exact congrArg some ((hxy.eq hfew).trans hbits)

/-- Not every tolerance is read back as it was: seventeen digits may be two floats off. -/
theorem not_forall_ofJson_toJson : ¬∀ s : Settings, (∀ x ∈ s.tolerance, x.isFinite = true) →
    ofJson s.toJson = .ok s := by
  intro hall
  have hfinite : ∀ x ∈ some (Float.ofBits 0x3e7ffffd969052ae), x.isFinite = true := by
    intro x hx
    obtain rfl := Option.some.inj hx
    decide +kernel
  have hsame := hall ⟨some (Float.ofBits 0x3e7ffffd969052ae), .firstNonZero, .positiveRhs⟩ hfinite
  have hread : (ofJson (toJson ⟨some (Float.ofBits 0x3e7ffffd969052ae), .firstNonZero,
      .positiveRhs⟩)).toOption =
        some ⟨some (Float.ofBits 0x3e7ffffd969052b0), .firstNonZero, .positiveRhs⟩ := by
    decide +kernel
  rw [hsame] at hread
  have hbits : (Float.ofBits 0x3e7ffffd969052ae).toBits =
      (Float.ofBits 0x3e7ffffd969052b0).toBits := by
    have htolerance := congrArg (fun o : Option Settings => o.bind (·.tolerance)) hread
    exact congrArg Float.toBits (Option.some.inj htolerance)
  exact absurd hbits (by decide +kernel)

end Settings

end LinearSystem
