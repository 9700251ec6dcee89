import Testbed.Uuid

/-! A UUID is read back from the text it is written as. -/
namespace Testbed.Uuid

theorem digit?_digitChar (d : Fin 16) : digit? (digitChar d) = some d := by
  revert d
  decide

theorem mapM_digit? (ds : List (Fin 16)) : (ds.map digitChar).mapM digit? = some ds := by
  induction ds with
  | nil => rfl
  | cons d ds ih => simp [digit?_digitChar, ih]

theorem ofDigits?_render (u : Uuid) : ofDigits? (u.digits.map digitChar) = some u := by
  rw [ofDigits?, mapM_digit?]
  exact dif_pos u.size

theorem length_hyphenated {cs : List Char} (h : cs.length = 32) : (hyphenated cs).length = 36 := by
  simp [hyphenated, h]

theorem withoutHyphens_groups {a b c d : List Char} (e : List Char) (ha : a.length = 8)
    (hb : b.length = 4) (hc : c.length = 4) (hd : d.length = 4) :
    withoutHyphens (a ++ '-' :: b ++ '-' :: c ++ '-' :: d ++ '-' :: e) = a ++ b ++ c ++ d ++ e := by
  simp (disch := omega) [withoutHyphens, List.drop_append, List.drop_eq_nil_of_le, ha, hb,
    hc, hd]

theorem groups_append (cs : List Char) :
    cs.take 8 ++ (cs.drop 8).take 4 ++ (cs.drop 12).take 4 ++ (cs.drop 16).take 4 ++ cs.drop 20 =
      cs := by
  have hrest (n : Nat) : (cs.drop n).take 4 ++ cs.drop (n + 4) = cs.drop n := by
    rw [← List.drop_drop, List.take_append_drop]
  simp only [List.append_assoc]
  rw [hrest 16, hrest 12, hrest 8, List.take_append_drop]

/-- The hyphens are taken out where they were put. -/
theorem withoutHyphens_hyphenated {cs : List Char} (h : cs.length = 32) :
    withoutHyphens (hyphenated cs) = cs := by
  rw [hyphenated, withoutHyphens_groups, groups_append] <;> simp [h]

/-- A UUID is read back from its text. -/
theorem parse?_render (u : Uuid) : parse? u.render = some u := by
  have hsize : (u.digits.map digitChar).length = 32 := by rw [List.length_map, u.size]
  rw [parse?, render, String.toList_ofList]
  simp only [length_hyphenated hsize]
  rw [if_neg (by decide), if_pos trivial, ofHyphenated?, withoutHyphens_hyphenated hsize]
  rw [if_pos rfl, ofDigits?_render]

end Testbed.Uuid
