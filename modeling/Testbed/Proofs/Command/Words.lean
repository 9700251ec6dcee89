import Testbed.Command.Basic

/-! What a displayed command line says to whoever splits it again. A word in single quotes is read
back as it is. A word without them is, too, unless it holds a backslash or begins with a `#`: the
display leaves both bare, where the one protects the next character and is lost and the other opens
a comment. So a line is split into the argument vector it shows just when no argument is of that
kind. -/
namespace Testbed.Command

/-- A word that is shown bare and does not mean itself there. -/
def Misread (word : List Char) : Prop :=
  needsQuotes word = false ∧ ('\\' ∈ word ∨ word.head? = some '#')

/-! ### Words that stand bare -/

theorem isBlank_of_isSeparator {c : Char} (h : Reading.isSeparator c = true) :
    Text.isBlank c = true := by
  simp only [Reading.isSeparator, Bool.or_eq_true, decide_eq_true_eq] at h
  rcases h with (rfl | rfl) | rfl <;> rfl

/-- What a character of a word is that needs no quotes. -/
structure IsBare (c : Char) : Prop where
  separator : Reading.isSeparator c = false
  single : c ≠ '\''
  double : c ≠ '"'

theorem isBare_of_mem {word : List Char} {c : Char} (hw : needsQuotes word = false)
    (hc : c ∈ word) : IsBare c := by
  simp only [needsQuotes, Bool.or_eq_false_iff, List.any_eq_false] at hw
  have h := hw.2 c hc
  simp only [Bool.or_eq_true, decide_eq_true_eq, not_or] at h
  exact ⟨Bool.eq_false_iff.2 fun hs => h.1.1 (isBlank_of_isSeparator hs), h.1.2, h.2⟩

theorem ne_nil_of_needsQuotes_eq_false {word : List Char} (hw : needsQuotes word = false) :
    word ≠ [] := by
  rintro rfl
  cases hw

theorem IsBare.ne_newline {c : Char} (h : IsBare c) : c ≠ '\n' := by
  rintro rfl
  cases h.separator

namespace Reading

/-! ### Reading a displayed word -/

theorem bareStep_push {c : Char} (h : IsBare c) (hb : c ≠ '\\') (r : Reading) :
    r.bareStep c = r.push .bare c := by
  simp [bareStep, h.separator, h.single, h.double, hb]

theorem foldl_bare {s : List Char} (hs : ∀ c ∈ s, IsBare c) (hb : '\\' ∉ s)
    (letters : List Char) (done : List (List Char)) :
    s.foldl step ⟨.bare, letters, done⟩ = ⟨.bare, s.reverse ++ letters, done⟩ := by
  induction s generalizing letters with
  | nil => rfl
  | cons c s ih =>
    simp only [List.mem_cons, not_or] at hb
    have hstep : step ⟨.bare, letters, done⟩ c = ⟨.bare, c :: letters, done⟩ :=
      bareStep_push (hs c (by simp)) (Ne.symm hb.1) _
    rw [List.foldl_cons, hstep, ih (fun d hd => hs d (by simp [hd])) hb.2]
    simp

/-- Inside single quotes a letter is kept; one that ends them is written so that it does, stands
escaped, and opens them again. -/
theorem foldl_quoted (s letters : List Char) (done : List (List Char)) :
    (s.flatMap (fun c => if c = '\'' then ['\'', '\\', '\'', '\''] else [c])).foldl step
      ⟨.single, letters, done⟩ = ⟨.single, s.reverse ++ letters, done⟩ := by
  induction s generalizing letters with
  | nil => rfl
  | cons c s ih =>
    have hletter : (if c = '\'' then ['\'', '\\', '\'', '\''] else [c]).foldl step
        ⟨.single, letters, done⟩ = ⟨.single, c :: letters, done⟩ := by
      split
      next h =>
        subst h
        rfl
      next h => simp [step, h, push]
    rw [List.flatMap_cons, List.foldl_append, hletter, ih]
    simp

theorem foldl_quote (word : List Char) (done : List (List Char)) :
    (quote word).foldl step ⟨.between, [], done⟩ = ⟨.bare, word.reverse, done⟩ := by
  have hopen : step ⟨.between, [], done⟩ '\'' = ⟨.single, [], done⟩ := rfl
  rw [quote, List.cons_append, List.foldl_cons, hopen, List.foldl_append, foldl_quoted]
  simp [step]

theorem foldl_displayWord {word : List Char} (h : ¬ Misread word) (done : List (List Char)) :
    (displayWord word).foldl step ⟨.between, [], done⟩ = ⟨.bare, word.reverse, done⟩ := by
  unfold displayWord
  split
  next => exact foldl_quote word done
  next hq =>
    have hq' : needsQuotes word = false := by simpa using hq
    have hbare : '\\' ∉ word ∧ word.head? ≠ some '#' := by
      simpa [Misread, hq', not_or] using h
    cases word with
    | nil => exact absurd rfl (ne_nil_of_needsQuotes_eq_false hq')
    | cons c s =>
      have hc : IsBare c := isBare_of_mem hq' (by simp)
      have hhash : c ≠ '#' := by simpa using hbare.2
      have hslash : c ≠ '\\' ∧ '\\' ∉ s := by
        simpa [not_or, eq_comm] using hbare.1
      have hstep : step ⟨.between, [], done⟩ c = ⟨.bare, [c], done⟩ := by
        simp [step, hc.separator, hhash, bareStep_push hc hslash.1, push]
      rw [List.foldl_cons, hstep, foldl_bare (fun d hd => isBare_of_mem hq' (by simp [hd])) hslash.2]
      simp

/-! ### Reading a displayed line -/

/-- A word and the blank after it. -/
theorem foldl_displayWord_blank {word : List Char} (h : ¬ Misread word) (s : List Char)
    (done : List (List Char)) :
    (displayWord word ++ ' ' :: s).foldl step ⟨.between, [], done⟩ =
      s.foldl step ⟨.between, [], word :: done⟩ := by
  rw [List.foldl_append, foldl_displayWord h, List.foldl_cons]
  congr 1
  simp [step, bareStep, isSeparator, finishWord]

end Reading

theorem displayWords_cons (word : List Char) {rest : List (List Char)} (h : rest ≠ []) :
    displayWords (word :: rest) = displayWord word ++ ' ' :: displayWords rest := by
  cases rest with
  | nil => exact absurd rfl h
  | cons next rest => simp [displayWords, Text.joinWith]

theorem displayWords_singleton (word : List Char) : displayWords [word] = displayWord word := rfl

theorem displayWord_of_bare {word : List Char} (h : needsQuotes word = false) :
    displayWord word = word := by
  simp [displayWord, h]

/-! ### Line ends

Every line end of the words stands in the line, so a line end that closes a comment cannot be made
up for. -/

theorem count_quote (word : List Char) : (quote word).count '\n' = word.count '\n' := by
  have hflat : (word.flatMap (fun c => if c = '\'' then ['\'', '\\', '\'', '\''] else [c])).count
      '\n' = word.count '\n' := by
    induction word with
    | nil => rfl
    | cons c s ih =>
      rw [List.flatMap_cons, List.count_append, ih, List.count_cons]
      split
      next h => simp [h]
      next h => simp [List.count_cons, Nat.add_comm]
  simp [quote, hflat]

theorem count_displayWord (word : List Char) :
    (displayWord word).count '\n' = word.count '\n' := by
  unfold displayWord
  split
  · exact count_quote word
  · rfl

theorem count_displayWords (words : List (List Char)) :
    (displayWords words).count '\n' = words.flatten.count '\n' := by
  induction words with
  | nil => rfl
  | cons word rest ih =>
    by_cases h : rest = []
    · simp [h, displayWords_singleton, count_displayWord]
    · simp [displayWords_cons word h, count_displayWord, ih]

namespace Reading

/-! ### What a step can do -/

/-- Whether no word is open. -/
def isClosed (r : Reading) : Bool := r.mode = .between || r.mode = .comment

/-- A reading after a character: no word is open, the open word grows, or it is finished. -/
inductive Next (c : Char) (r : Reading) : Reading → Prop
  | idle (mode : Mode) (hr : r.isClosed = true) (hm : mode = .between ∨ mode = .comment) :
      Next c r { r with mode := mode }
  | grow (mode : Mode) (added : List Char) (hm : mode ≠ .between ∧ mode ≠ .comment)
      (ha : added.count '\n' ≤ [c].count '\n') : Next c r ⟨mode, added ++ r.letters, r.done⟩
  | finish (hr : r.isClosed = false) : Next c r r.finishWord

theorem Next.push {c : Char} (r : Reading) (mode : Mode) (hm : mode ≠ .between ∧ mode ≠ .comment) :
    Next c r (r.push mode c) :=
  .grow mode [c] hm (Nat.le_refl _)

theorem Next.open {c : Char} (r : Reading) (mode : Mode) (hm : mode ≠ .between ∧ mode ≠ .comment) :
    Next c r { r with mode := mode } :=
  .grow mode [] hm (Nat.zero_le _)

theorem bareStep_next {c : Char} {r : Reading}
    (h : isSeparator c = true → r.isClosed = false) : Next c r (r.bareStep c) := by
  unfold bareStep
  split
  · exact .open r .double (by decide)
  · split
    · exact .open r .single (by decide)
    · split
      · exact .open r .bareEscape (by decide)
      · split
        next hs => exact .finish (h hs)
        next => exact .push r .bare (by decide)

theorem step_next (r : Reading) (c : Char) : Next c r (r.step c) := by
  unfold step
  split
  next hm =>
    have hr : r.isClosed = true := by simp [isClosed, hm]
    split
    · exact .idle r.mode hr (.inl hm)
    next hs =>
      split
      · exact .idle .comment hr (.inr rfl)
      · exact bareStep_next fun h => absurd h hs
  next hm =>
    have hr : r.isClosed = true := by simp [isClosed, hm]
    split
    · exact .idle .between hr (.inl rfl)
    · exact .idle r.mode hr (.inr hm)
  next hm => exact bareStep_next fun _ => by simp [isClosed, hm]
  next =>
    split
    · exact .open r .bare (by decide)
    · exact .push r .bare (by decide)
  next =>
    split
    · exact .open r .bare (by decide)
    · exact .push r .single (by decide)
  next =>
    split
    · exact .open r .bare (by decide)
    · split
      · exact .open r .doubleEscape (by decide)
      · exact .push r .double (by decide)
  next =>
    split
    · exact .open r .double (by decide)
    · split
      · exact .push r .double (by decide)
      · exact .grow .double [c, '\\'] (by decide) (by simp [List.count_cons])

/-! ### What stays -/

/-- Words with which a reading may end: the finished ones stay as they are, and an open one only
grows. -/
def Settles (r : Reading) (words : List (List Char)) : Prop :=
  if r.isClosed then r.done.reverse <+: words
  else ∃ tail rest, words = r.done.reverse ++ (r.letters.reverse ++ tail) :: rest

theorem settles_closed {r : Reading} (h : r.isClosed = true) (words : List (List Char)) :
    r.Settles words ↔ r.done.reverse <+: words := by
  rw [Settles, if_pos h]

theorem settles_open {r : Reading} (h : r.isClosed = false) (words : List (List Char)) :
    r.Settles words ↔ ∃ tail rest, words = r.done.reverse ++ (r.letters.reverse ++ tail) :: rest := by
  rw [Settles, if_neg (by simp [h])]

theorem Next.settles {c : Char} {r r' : Reading} {words : List (List Char)} (h : Next c r r')
    (hs : r'.Settles words) : r.Settles words := by
  cases h with
  | idle mode hr hm =>
    rw [settles_closed (by simpa [isClosed] using hm)] at hs
    exact (settles_closed hr words).2 hs
  | grow mode added hm =>
    rw [settles_open (by simpa [isClosed] using hm)] at hs
    obtain ⟨tail, rest, rfl⟩ := hs
    cases hr : r.isClosed with
    | true => exact (settles_closed hr _).2 (List.prefix_append ..)
    | false => exact (settles_open hr _).2 ⟨added.reverse ++ tail, rest, by simp⟩
  | finish hr =>
    rw [settles_closed rfl] at hs
    obtain ⟨rest, rfl⟩ := hs
    exact (settles_open hr _).2 ⟨[], rest, by simp [finishWord]⟩

/-- What a reading that is brought to its end has settled on the way. -/
theorem settles_of_result {r : Reading} {s : List Char} {words : List (List Char)}
    (h : (s.foldl step r).result? = some words) : r.Settles words := by
  induction s generalizing r with
  | nil =>
    rw [List.foldl_nil, result?] at h
    split at h
    next hm =>
      cases h
      exact (settles_closed (by simp [isClosed, hm]) _).2 (List.prefix_refl _)
    next hm =>
      cases h
      exact (settles_closed (by simp [isClosed, hm]) _).2 (List.prefix_refl _)
    next hm =>
      cases h
      exact (settles_open (by simp [isClosed, hm]) _).2 ⟨[], [], by simp⟩
    next => cases h
  | cons c s ih => exact (step_next r c).settles (ih h)

/-- The line ends in the words of a reading. -/
def lineEnds (r : Reading) : Nat := r.letters.count '\n' + r.done.flatten.count '\n'

theorem step_lineEnds (r : Reading) (c : Char) :
    (r.step c).lineEnds ≤ r.lineEnds + [c].count '\n' := by
  have h := step_next r c
  generalize r.step c = r' at h
  cases h with
  | idle => exact Nat.le_add_right ..
  | grow mode added hm ha =>
    simp only [lineEnds, List.count_append]
    omega
  | finish hr =>
    simp only [lineEnds, finishWord, List.flatten_cons, List.count_append, List.count_reverse,
      List.count_nil]
    omega

theorem foldl_lineEnds (r : Reading) (s : List Char) :
    (s.foldl step r).lineEnds ≤ r.lineEnds + s.count '\n' := by
  induction s generalizing r with
  | nil => exact Nat.le_add_right ..
  | cons c s ih =>
    have hstep := step_lineEnds r c
    have hrest := ih (r.step c)
    have hcount : ([c] ++ s).count '\n' = [c].count '\n' + s.count '\n' := List.count_append
    rw [List.singleton_append] at hcount
    rw [List.foldl_cons]
    omega

theorem result?_lineEnds {r : Reading} {words : List (List Char)} (h : r.result? = some words) :
    words.flatten.count '\n' ≤ r.lineEnds := by
  rw [result?] at h
  split at h
  · cases h
    simp [lineEnds, List.count_flatten, List.map_reverse, List.sum_reverse]
  · cases h
    simp [lineEnds, List.count_flatten, List.map_reverse, List.sum_reverse]
  · cases h
    simp [lineEnds, List.count_flatten, List.map_reverse, List.sum_reverse, Nat.add_comm]
  · cases h

/-! ### Words that are misread -/

/-- A comment swallows what is left of its line, the end of that line included. -/
theorem foldl_comment (s letters : List Char) (done : List (List Char)) :
    s.foldl step ⟨.comment, letters, done⟩ = ⟨.comment, letters, done⟩ ∨
      (s.foldl step ⟨.comment, letters, done⟩).lineEnds <
        lineEnds ⟨.comment, letters, done⟩ + s.count '\n' := by
  induction s with
  | nil => exact .inl rfl
  | cons c s ih =>
    by_cases hc : c = '\n'
    · subst hc
      have hstep : step ⟨.comment, letters, done⟩ '\n' = ⟨.between, letters, done⟩ := rfl
      have hle := foldl_lineEnds ⟨.between, letters, done⟩ s
      refine .inr ?_
      rw [List.foldl_cons, hstep, List.count_cons_self]
      simp only [lineEnds] at hle ⊢
      omega
    · have hstep : step ⟨.comment, letters, done⟩ c = ⟨.comment, letters, done⟩ := by
        simp [step, hc]
      rw [List.foldl_cons, hstep, List.count_cons_of_ne hc]
      exact ih

theorem result?_hash_ne (s : List Char) (words : List (List Char)) (done : List (List Char))
    (hw : words ≠ []) (hc : words.flatten.count '\n' = s.count '\n') :
    (s.foldl step ⟨.comment, [], done⟩).result? ≠ some (done.reverse ++ words) := by
  intro h
  rcases foldl_comment s [] done with heq | hlt
  · rw [heq] at h
    simp only [result?, Option.some.injEq, List.self_eq_append_right] at h
    exact hw h
  · have hle := result?_lineEnds h
    simp only [lineEnds, List.count_nil, List.flatten_append, List.count_append,
      List.count_flatten, List.map_reverse, List.sum_reverse] at hle hlt hc
    omega

/-- Bare letters with a backslash among them give fewer letters, and the last backslash may still
be open. -/
theorem foldl_slashed {s : List Char} (hs : ∀ c ∈ s, IsBare c) {mode : Mode}
    (hm : mode = .bare ∨ mode = .bareEscape) (letters : List Char) (done : List (List Char)) :
    ∃ mode' letters', s.foldl step ⟨mode, letters, done⟩ = ⟨mode', letters', done⟩ ∧
      (mode' = .bare ∨ mode' = .bareEscape) ∧ letters'.length ≤ letters.length + s.length ∧
      (mode = .bare → '\\' ∈ s → letters'.length < letters.length + s.length) := by
  induction s generalizing mode letters with
  | nil => exact ⟨mode, letters, rfl, hm, Nat.le_refl _, nofun⟩
  | cons c s ih =>
    have hc : IsBare c := hs c (by simp)
    have hs' : ∀ d ∈ s, IsBare d := fun d hd => hs d (by simp [hd])
    have hpush (hstep : step ⟨mode, letters, done⟩ c = ⟨.bare, c :: letters, done⟩)
        (hb : mode = .bare → c ≠ '\\') :
        ∃ mode' letters', (c :: s).foldl step ⟨mode, letters, done⟩ = ⟨mode', letters', done⟩ ∧
          (mode' = .bare ∨ mode' = .bareEscape) ∧
          letters'.length ≤ letters.length + (c :: s).length ∧
          (mode = .bare → '\\' ∈ c :: s →
            letters'.length < letters.length + (c :: s).length) := by
      obtain ⟨mode', letters', heq, hm', hle, hlt⟩ := ih hs' (.inl rfl) (c :: letters)
      simp only [List.length_cons] at hle hlt ⊢
      refine ⟨mode', letters', by rw [List.foldl_cons, hstep, heq], hm', by omega, fun h hmem => ?_⟩
      have hmem' : '\\' ∈ s := (List.mem_cons.1 hmem).resolve_left (Ne.symm (hb h))
      have := hlt trivial hmem'
      omega
    rcases hm with rfl | rfl
    · by_cases hb : c = '\\'
      · subst hb
        have hstep : step ⟨.bare, letters, done⟩ '\\' = ⟨.bareEscape, letters, done⟩ := rfl
        obtain ⟨mode', letters', heq, hm', hle, -⟩ := ih hs' (.inr rfl) letters
        simp only [List.length_cons]
        exact ⟨mode', letters', by rw [List.foldl_cons, hstep, heq], hm', by omega, fun _ _ => by omega⟩
      · exact hpush (bareStep_push hc hb _) fun _ => hb
    · exact hpush (by simp [step, hc.ne_newline, push]) nofun

/-- However the line goes on, a word whose letters were misread is not read back. -/
theorem result?_slashed_ne {word rest : List Char} {words : List (List Char)}
    (hw : ∀ c ∈ word, IsBare c) (hb : '\\' ∈ word) (hr : rest = [] ∨ rest.head? = some ' ')
    (done : List (List Char)) :
    ((word ++ rest).foldl step ⟨.bare, [], done⟩).result? ≠ some (done.reverse ++ word :: words) := by
  intro h
  obtain ⟨mode, letters, heq, hm, -, hlt⟩ := foldl_slashed hw (.inl rfl) [] done
  have hlen : letters.length < word.length := by simpa using hlt rfl hb
  have hne : word ≠ letters.reverse := fun he => by simp [he] at hlen
  rw [List.foldl_append, heq] at h
  rcases hr with rfl | hr
  · rcases hm with rfl | rfl
    · simp [result?, hne.symm] at h
    · cases h
  · obtain ⟨s, rfl⟩ : ∃ s, rest = ' ' :: s := by
      cases rest with
      | nil => cases hr
      | cons c s => exact ⟨s, by simpa using hr⟩
    rcases hm with rfl | rfl
    · -- the blank finishes the shorter word
      have hstep : step ⟨.bare, letters, done⟩ ' ' = ⟨.between, [], letters.reverse :: done⟩ := rfl
      rw [List.foldl_cons, hstep] at h
      obtain ⟨more, hmore⟩ := (settles_closed rfl _).1 (settles_of_result h)
      simp [hne.symm] at hmore
    · -- the blank becomes a letter
      have hstep : step ⟨.bareEscape, letters, done⟩ ' ' = ⟨.bare, ' ' :: letters, done⟩ := rfl
      rw [List.foldl_cons, hstep] at h
      obtain ⟨tail, more, hmore⟩ := (settles_open rfl _).1 (settles_of_result h)
      obtain ⟨hword, -⟩ : word = letters.reverse ++ ' ' :: tail ∧ words = more := by
        simpa using hmore
      have hblank : IsBare ' ' := hw ' ' (by simp [hword])
      cases hblank.separator

end Reading

/-- A line that goes on after a misread word is not split into the words it shows. -/
theorem Misread.result?_ne {word rest : List Char} {words : List (List Char)} (h : Misread word)
    (hr : rest = [] ∨ rest.head? = some ' ')
    (hc : words.flatten.count '\n' = rest.count '\n') (done : List (List Char)) :
    ((displayWord word ++ rest).foldl Reading.step ⟨.between, [], done⟩).result? ≠
      some (done.reverse ++ word :: words) := by
  obtain ⟨hq, hbad⟩ := h
  have hbare : ∀ c ∈ word, IsBare c := fun c => isBare_of_mem hq
  rw [displayWord_of_bare hq]
  obtain ⟨c, s, rfl⟩ := List.exists_cons_of_ne_nil (ne_nil_of_needsQuotes_eq_false hq)
  by_cases hhash : c = '#'
  · subst hhash
    have hstep : Reading.step ⟨.between, [], done⟩ '#' = ⟨.comment, [], done⟩ := rfl
    rw [List.cons_append, List.foldl_cons, hstep]
    exact Reading.result?_hash_ne _ _ done (by simp) (by simp [hc])
  · have hstep : Reading.step ⟨.between, [], done⟩ c = Reading.step ⟨.bare, [], done⟩ c := by
      simp [Reading.step, (hbare c (by simp)).separator, hhash, Reading.bareStep, Reading.push]
    have hb : '\\' ∈ c :: s := hbad.resolve_right (by simpa using hhash)
    rw [List.cons_append, List.foldl_cons, hstep, ← List.foldl_cons, ← List.cons_append]
    exact Reading.result?_slashed_ne hbare hb hr done

/-! ### The whole line -/

theorem result?_displayWords {words : List (List Char)} (hne : words ≠ [])
    (done : List (List Char)) :
    ((displayWords words).foldl Reading.step ⟨.between, [], done⟩).result? =
      some (done.reverse ++ words) ↔ ∀ word ∈ words, ¬ Misread word := by
  induction words generalizing done with
  | nil => exact absurd rfl hne
  | cons word rest ih =>
    rw [List.forall_mem_cons]
    by_cases hrest : rest = []
    · subst hrest
      rw [displayWords_singleton]
      by_cases hm : Misread word
      · have hlost := @Misread.result?_ne word [] [] hm (.inl rfl) rfl done
        rw [List.append_nil] at hlost
        exact iff_of_false hlost fun h => h.1 hm
      · rw [Reading.foldl_displayWord hm]
        simp [Reading.result?, hm]
    · rw [displayWords_cons word hrest]
      by_cases hm : Misread word
      · have hcount := count_displayWords rest
        exact iff_of_false (hm.result?_ne (.inr rfl) (by simp [hcount]) done) fun h => h.1 hm
      · have hdone : done.reverse ++ word :: rest = (word :: done).reverse ++ rest := by simp
        rw [Reading.foldl_displayWord_blank hm, hdone, ih hrest]
        exact (and_iff_right hm).symm

theorem splitWords?_displayWords {words : List (List Char)} (hne : words ≠ []) :
    splitWords? (displayWords words) = some words ↔ ∀ word ∈ words, ¬ Misread word :=
  result?_displayWords hne []

theorem splitLine_eq_ok_iff {line : String} {argv : List String} :
    splitLine line = .ok argv ↔
      argv ≠ [] ∧ splitWords? line.toList = some (argv.map String.toList) := by
  unfold splitLine
  split
  next h => simp [h]
  next h =>
    constructor
    · nofun
    · rintro ⟨hne, hw⟩
      rw [h, Option.some.injEq, eq_comm, List.map_eq_nil_iff] at hw
      exact absurd hw hne
  next word words h =>
    rw [h, Except.ok.injEq, Option.some.injEq]
    constructor
    · rintro rfl
      exact ⟨by simp, by simp⟩
    · rintro ⟨-, hw⟩
      simp [hw]

/-- A displayed command line is split into the argument vector that it shows just when there is one
and none of its arguments is misread. -/
theorem splitLine_display_iff (argv : List String) :
    splitLine (ofArgv argv).display = .ok argv ↔
      argv ≠ [] ∧ ∀ word ∈ argv, ¬ Misread word.toList := by
  have hdisplay : (ofArgv argv).display.toList = displayWords (argv.map String.toList) := by
    simp [display, displayArgv, ofArgv]
  rw [splitLine_eq_ok_iff, hdisplay]
  refine and_congr_right fun hne => ?_
  rw [splitWords?_displayWords (by simpa using hne), List.forall_mem_map]

/-- A backslash that is shown bare is lost. -/
example : splitLine (ofArgv ["grep", "a\\b"]).display = .ok ["grep", "ab"] := by cbv

end Testbed.Command
