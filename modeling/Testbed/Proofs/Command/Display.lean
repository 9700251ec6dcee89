import Mathlib.Data.List.Basic
import Testbed.Proofs.Command.Words
import Testbed.Proofs.Text.Runs

/-! Displayed command lines told apart. How a word is shown says by its first character whether it
stands in single quotes, and in either case where it ends: a bare word before the first blank, a
quoted one with the first quote that is not there to write one of its own. So no two argument
vectors have one display. That is no matter of how a shell would split the line: a bare backslash
is lost to a shell, and yet it tells two displays apart. -/
namespace Testbed.Command

/-- A character as it stands in single quotes. -/
def quoteChar (c : Char) : List Char := if c = '\'' then ['\'', '\\', '\'', '\''] else [c]

/-- What may stand behind a word that is shown: nothing, or a blank. -/
def Trails (r : List Char) : Prop := ∀ c, r.head? = some c → c = ' '

variable {u v r r' s s' : List Char} {c d : Char}

theorem trails_nil : Trails [] := nofun

theorem trails_blank (s : List Char) : Trails (' ' :: s) := by
  rintro c ⟨⟩
  rfl

/-! ### Quoted words -/

theorem quote_append (word r : List Char) :
    quote word ++ r = '\'' :: (word.flatMap quoteChar ++ '\'' :: r) := by
  have hquote : quote word = '\'' :: word.flatMap quoteChar ++ ['\''] := rfl
  rw [hquote, List.append_assoc, List.cons_append, List.singleton_append]

/-- What stands in quotes for one character is not the beginning of what stands for another. -/
theorem quoteChar_inj (h : quoteChar c ++ s = quoteChar d ++ s') : c = d ∧ s = s' := by
  unfold quoteChar at h
  split at h
  next hc =>
    split at h
    next hd => exact ⟨hc.trans hd.symm, List.append_cancel_left h⟩
    next hd => exact absurd (List.cons.inj h).1.symm hd
  next hc =>
    split at h
    next => exact absurd (List.cons.inj h).1 hc
    next => exact List.cons.inj h

/-- A quote that ends a word is followed by a blank or by nothing, and one inside it by a
backslash. -/
theorem quoteChar_ne_end (hr : Trails r) : quoteChar c ++ s ≠ '\'' :: r := by
  intro h
  unfold quoteChar at h
  split at h
  next =>
    have hrest : r = '\\' :: '\'' :: '\'' :: s := (List.cons.inj h).2.symm
    have hblank := hr '\\' (by rw [hrest]; rfl)
    cases hblank
  next hc => exact hc (List.cons.inj h).1

theorem quoted_inj (hr : Trails r) (hr' : Trails r')
    (h : u.flatMap quoteChar ++ '\'' :: r = v.flatMap quoteChar ++ '\'' :: r') :
    u = v ∧ r = r' := by
  induction u generalizing v with
  | nil =>
    cases v with
    | nil => exact ⟨rfl, List.tail_eq_of_cons_eq h⟩
    | cons d v =>
      rw [List.flatMap_cons, List.append_assoc] at h
      exact absurd h.symm (quoteChar_ne_end hr)
  | cons c u ih =>
    rw [List.flatMap_cons, List.append_assoc] at h
    cases v with
    | nil => exact absurd h (quoteChar_ne_end hr')
    | cons d v =>
      rw [List.flatMap_cons, List.append_assoc] at h
      obtain ⟨rfl, hrest⟩ := quoteChar_inj h
      obtain ⟨rfl, hr⟩ := ih hrest
      exact ⟨rfl, hr⟩

/-! ### Words -/

theorem bare_inj (hu : needsQuotes u = false) (hv : needsQuotes v = false) (hr : Trails r)
    (hr' : Trails r') (h : u ++ r = v ++ r') : u = v ∧ r = r' := by
  have hblank {r : List Char} (hr : Trails r) (c : Char) (hc : r.head? = some c) :
      (!Reading.isSeparator c) = false := by
    rw [hr c hc]
    rfl
  have hbare {u : List Char} (hu : needsQuotes u = false) (c : Char) (hc : c ∈ u) :
      (!Reading.isSeparator c) = true := by
    rw [(isBare_of_mem hu hc).separator]
    rfl
  exact Text.run_inj (hbare hu) (hbare hv) (hblank hr) (hblank hr') h

/-- A bare word does not begin with a quote. -/
theorem quote_append_ne (hv : needsQuotes v = false) : quote u ++ r ≠ v ++ r' := by
  obtain ⟨c, v, rfl⟩ := List.exists_cons_of_ne_nil (ne_nil_of_needsQuotes_eq_false hv)
  rw [quote_append]
  intro h
  exact (isBare_of_mem hv List.mem_cons_self).single (List.cons.inj h).1.symm

/-- A word that is shown can be taken off the front of a line in one way only. -/
theorem displayWord_append_inj (hr : Trails r) (hr' : Trails r')
    (h : displayWord u ++ r = displayWord v ++ r') : u = v ∧ r = r' := by
  unfold displayWord at h
  split at h
  next =>
    split at h
    next =>
      rw [quote_append, quote_append] at h
      exact quoted_inj hr hr' (List.cons.inj h).2
    next hv => exact absurd h (quote_append_ne (by simpa using hv))
  next hu =>
    split at h
    next => exact absurd h.symm (quote_append_ne (by simpa using hu))
    next hv => exact bare_inj (by simpa using hu) (by simpa using hv) hr hr' h

theorem displayWord_ne_nil (word : List Char) : displayWord word ≠ [] := by
  unfold displayWord
  split
  next => simp [quote]
  next h => exact ne_nil_of_needsQuotes_eq_false (by simpa using h)

/-! ### Lines -/

/-- The words behind the first, each after its blank. -/
def displayMore (words : List (List Char)) : List Char :=
  words.flatMap fun word => ' ' :: displayWord word

theorem displayWords_eq (word : List Char) (words : List (List Char)) :
    displayWords (word :: words) = displayWord word ++ displayMore words := by
  induction words generalizing word with
  | nil => simp [displayWords_singleton, displayMore]
  | cons next words ih =>
    rw [displayWords_cons word (List.cons_ne_nil next words), ih]
    rfl

theorem trails_displayMore (words : List (List Char)) : Trails (displayMore words) := by
  cases words with
  | nil => exact trails_nil
  | cons word words => exact trails_blank _

theorem displayMore_inj {us vs : List (List Char)} (h : displayMore us = displayMore vs) :
    us = vs := by
  induction us generalizing vs with
  | nil =>
    cases vs with
    | nil => rfl
    | cons v vs => cases h
  | cons u us ih =>
    cases vs with
    | nil => cases h
    | cons v vs =>
      obtain ⟨rfl, hrest⟩ := displayWord_append_inj (trails_displayMore us) (trails_displayMore vs)
        (List.cons.inj h).2
      rw [ih hrest]

theorem displayWords_inj {us vs : List (List Char)} (h : displayWords us = displayWords vs) :
    us = vs := by
  have hnil (word : List Char) (words : List (List Char)) :
      displayWords (word :: words) ≠ displayWords [] := by
    rw [displayWords_eq]
    exact List.append_ne_nil_of_left_ne_nil (displayWord_ne_nil word) _
  cases us with
  | nil =>
    cases vs with
    | nil => rfl
    | cons v vs => exact absurd h.symm (hnil v vs)
  | cons u us =>
    cases vs with
    | nil => exact absurd h (hnil u us)
    | cons v vs =>
      rw [displayWords_eq, displayWords_eq] at h
      obtain ⟨rfl, hrest⟩ :=
        displayWord_append_inj (trails_displayMore us) (trails_displayMore vs) h
      rw [displayMore_inj hrest]

/-- A display is that of one argument vector. -/
theorem displayArgv_inj {a b : List String} : displayArgv a = displayArgv b ↔ a = b := by
  refine ⟨fun h => ?_, fun h => h ▸ rfl⟩
  have hwords := displayWords_inj (String.ofList_injective h)
  exact List.map_injective_iff.2 (fun _ _ => String.toList_injective) hwords

example : splitLine (displayArgv ["a\\b"]) = splitLine (displayArgv ["ab"]) ∧
    displayArgv ["a\\b"] ≠ displayArgv ["ab"] := ⟨rfl, by decide⟩

/-- A line is how that argument vector is displayed and how no other is. -/
def Identifies (line : String) (argv : List String) : Prop :=
  ∀ other, (ofArgv other).display = line ↔ other = argv

theorem identifies_displayArgv (argv : List String) : Identifies (displayArgv argv) argv :=
  fun _ => displayArgv_inj

end Testbed.Command
