import Testbed.Proofs.Dependency.Grammar

/-! Package names in normal form. Normalizing once is enough, and a requirement that is read carries
its name in that form already. -/
namespace Testbed.Dependency

/-! ### Letters -/

/-- A capital letter becomes a small one, and neither separates. -/
theorem lower_of_capital {c : Char} (h : 'A' ≤ c ∧ c ≤ 'Z') :
    ¬ ('A' ≤ lower c ∧ lower c ≤ 'Z') ∧ isSeparator (lower c) = false ∧ isSeparator c = false := by
  have hletters : ∀ n < 91, 'A' ≤ Char.ofNat n ∧ Char.ofNat n ≤ 'Z' →
      ¬ ('A' ≤ lower (Char.ofNat n) ∧ lower (Char.ofNat n) ≤ 'Z') ∧
        isSeparator (lower (Char.ofNat n)) = false ∧ isSeparator (Char.ofNat n) = false := by
    decide
  have hlt : c.toNat < 91 := Nat.lt_succ_of_le h.2
  simpa using hletters c.toNat hlt (by simpa using h)

theorem lower_of_not_capital {c : Char} (h : ¬ ('A' ≤ c ∧ c ≤ 'Z')) : lower c = c := if_neg h

theorem lower_lower (c : Char) : lower (lower c) = lower c := by
  by_cases h : 'A' ≤ c ∧ c ≤ 'Z'
  · exact lower_of_not_capital (lower_of_capital h).1
  · rw [lower_of_not_capital h, lower_of_not_capital h]

theorem isSeparator_lower (c : Char) : isSeparator (lower c) = isSeparator c := by
  by_cases h : 'A' ≤ c ∧ c ≤ 'Z'
  · rw [(lower_of_capital h).2.1, (lower_of_capital h).2.2]
  · rw [lower_of_not_capital h]

/-! ### Names -/

theorem normalizeFrom_normalizeFrom (joined : Bool) (s : List Char) :
    normalizeFrom joined (normalizeFrom joined s) = normalizeFrom joined s := by
  induction s generalizing joined with
  | nil => simp [normalizeFrom]
  | cons c s ih =>
    by_cases hc : isSeparator c = true
    · cases joined with
      | true => simp [normalizeFrom, hc, ih]
      | false =>
        have hdash : isSeparator '-' = true := rfl
        simp [normalizeFrom, hc, hdash, ih]
    · simp [normalizeFrom, hc, isSeparator_lower, lower_lower, ih]

theorem normalize_normalize (s : List Char) : normalize (normalize s) = normalize s :=
  normalizeFrom_normalizeFrom false s

theorem normalizeName_normalizeName (name : String) :
    normalizeName (normalizeName name) = normalizeName name := by
  simp [normalizeName, normalize_normalize]

/-- The name of a package that was read is in normal form. -/
theorem normalizeName_of_parse? {raw name requirement : String}
    (h : parse? raw = some (.package name requirement)) : normalizeName name = name := by
  obtain ⟨q, hname, -⟩ := (parse?_eq_some_iff.1 h).requirement
  rw [hname, normalizeName_normalizeName]

end Testbed.Dependency
