import Testbed.Proofs.Host.Paths
import Testbed.Proofs.Text.Inert

/-! What stands in the text of a path that is joined with a name. The name and a separator are all
that comes to the text of the base. -/
namespace Testbed.Host

open Text (IsMark Inert occurrences)

variable {name : String} {w : List Char}

/-- No character comes into a path by a name that does not have it, but for the separator. -/
theorem mem_join_iff (base : Path) (hn : IsPiece name) {c : Char} (hc : c ∉ name.toList)
    (hslash : c ≠ '/') : c ∈ (base.join name).text.toList ↔ c ∈ base.text.toList := by
  rw [toList_join base hn, List.mem_append, or_iff_left hc, lead]
  split
  · rfl
  · simp [hslash]

/-- A directory in another holds a separator, and one that is in no other is a name. -/
theorem slash_or_shut_of_join (base : Path) (hn : IsPiece name) (hshut : '\x7b' ∉ name.toList) :
    '/' ∈ (base.join name).text.toList ∨ '\x7b' ∉ (base.join name).text.toList := by
  rw [toList_join base hn]
  rcases lead_cases base with hl | ⟨cs, hl⟩
  · exact .inr (by simpa [hl] using hshut)
  · exact .inl (by simp [hl])

theorem occurrences_lead (hw : IsMark w) (base : Path) :
    occurrences w (lead base) = occurrences w base.text.toList := by
  unfold lead
  split
  · rfl
  · rw [Text.occurrences_append_slash hw, Text.occurrences_nil hw.ne_nil, Nat.add_zero]

theorem occurrences_join (hw : IsMark w) (base : Path) (hn : IsPiece name)
    (hshut : '\x7b' ∉ name.toList) :
    occurrences w (base.join name).text.toList = occurrences w base.text.toList := by
  have hname (s : List Char) : occurrences w (name.toList ++ s) = occurrences w s :=
    Text.occurrences_append_of_shut hw fun c hc heq => hshut (heq ▸ hc)
  have hnone := hname []
  rw [List.append_nil, Text.occurrences_nil hw.ne_nil] at hnone
  rw [toList_join base hn, ← occurrences_lead hw base]
  rcases lead_cases base with hl | ⟨cs, hl⟩
  · rw [hl, List.nil_append, hnone, Text.occurrences_nil hw.ne_nil]
  · rw [hl, List.append_assoc, List.singleton_append, Text.occurrences_append_slash hw,
      Text.occurrences_append_slash hw, hnone, Text.occurrences_nil hw.ne_nil]

/-- No mark comes into a path by a name. -/
theorem infix_join_iff (hw : IsMark w) (base : Path) (hn : IsPiece name)
    (hshut : '\x7b' ∉ name.toList) :
    w <:+: (base.join name).text.toList ↔ w <:+: base.text.toList := by
  rw [← not_iff_not, ← Text.occurrences_eq_zero_iff hw.ne_nil, ← Text.occurrences_eq_zero_iff hw.ne_nil,
    occurrences_join hw base hn hshut]

/-- An absolute path that does not hold a mark is inert for it when no brace opens in its last
component. -/
theorem inert_join (hw : IsMark w) {base : Path} (habs : (base.join name).isAbsolute = true)
    (hn : IsPiece name) (hshut : '\x7b' ∉ name.toList)
    (hfree : ¬ w <:+: (base.join name).text.toList) : Inert w (base.join name).text.toList := by
  rw [Path.isAbsolute, decide_eq_true_iff] at habs
  rw [toList_join base hn] at hfree habs ⊢
  rcases lead_cases base with hl | ⟨cs, hl⟩
  · rw [hl, List.nil_append] at habs
    exact absurd habs hn.head_ne
  · rw [hl, List.append_assoc, List.singleton_append] at hfree habs ⊢
    refine Text.inert_of_slash hw hshut hfree ?_
    cases cs with
    | nil => exact .inl rfl
    | cons c cs => exact .inr habs

end Testbed.Host
