import Testbed.Program.Placeholders
import Testbed.Proofs.Config.Names
import Testbed.Proofs.Context.Ground
import Testbed.Proofs.Host.Spelling
import Testbed.Proofs.Text.Blank

/-! What the arguments of a command stand for. Positional arguments, and the words that stand in for
them, are put in as they are. Every other argument stands for itself with the values of its
placeholders put in, all at once; since they are put in one after the other, that is what comes of it
just when no placeholder comes up in between that the argument did not declare: inside the path of a
directory, or out of a name and the braces around it. A context in which none ever does has a path
without placeholders, and a name that is no part of one. -/
namespace Testbed.Placeholders

open Text (Substituted Undisturbed Spliced Words)

/-! ### What arguments stand for -/

/-- The argument with which `words` stand in for the positional arguments. -/
def standIn (words : List Char) : String :=
  String.ofList (defaultOpening ++ (words ++ ['\x7d']))

/-- An argument that positional arguments have no part in. -/
def IsPlain (arg : String) : Prop := arg ≠ "\x7bposargs\x7d" ∧ ∀ words, arg ≠ standIn words

/-- The arguments that one argument stands for. -/
inductive Expands (c : Context) (posargs : List String) : String → List String → Prop
  | posargs : Expands c posargs "\x7bposargs\x7d" posargs
  | given {words : List Char} (h : posargs ≠ []) : Expands c posargs (standIn words) posargs
  | default {words : List Char} {ws : List (List Char)} (h : posargs = []) (hws : Words words ws) :
    Expands c posargs (standIn words) (ws.map String.ofList)
  | plain {arg : String} {text : List Char} (h : IsPlain arg)
    (htext : Substituted (table c) arg.toList text) : Expands c posargs arg [String.ofList text]

/-- A placeholder comes up in an argument only where the argument declares it. -/
def Untouched (c : Context) (arg : String) : Prop := Undisturbed (table c) arg.toList arg.toList

variable {c : Context} {posargs : List String} {arg : String}

/-! ### The table -/

theorem isTable_table (c : Context) : Text.IsTable (table c) where
  marks := by
    intro e he
    simp only [table, List.mem_cons, List.not_mem_nil, or_false] at he
    rcases he with rfl | rfl | rfl | rfl
    · exact Text.isMark_of_isAlpha "envdir" rfl
    · exact Text.isMark_of_isAlpha "envtmpdir" rfl
    · exact Text.isMark_of_isAlpha "envname" rfl
    · exact Text.isMark_of_isAlpha "root" rfl
  distinct := by
    have : ((table c).map Prod.fst) = ["\x7benvdir\x7d".toList, "\x7benvtmpdir\x7d".toList,
      "\x7benvname\x7d".toList, "\x7broot\x7d".toList] := rfl
    rw [this]
    decide

/-! ### One argument -/

theorem stripStart?_eq_some_iff {p s r : List Char} : Text.stripStart? p s = some r ↔ s = p ++ r := by
  fun_induction Text.stripStart? p s with
  | case1 s => simp [eq_comm]
  | case2 d p => simp
  | case3 d p s ih => simp [ih]
  | case4 d p e s hne => simp [Ne.symm hne]

theorem stripEnd?_eq_some_iff {p s r : List Char} : Text.stripEnd? p s = some r ↔ s = r ++ p := by
  rw [Text.stripEnd?, Option.map_eq_some_iff]
  constructor
  · rintro ⟨q, hq, rfl⟩
    have := congrArg List.reverse (stripStart?_eq_some_iff.1 hq)
    simpa using this
  · rintro rfl
    exact ⟨r.reverse, stripStart?_eq_some_iff.2 (by simp), List.reverse_reverse r⟩

theorem toList_standIn (words : List Char) :
    (standIn words).toList = defaultOpening ++ (words ++ ['\x7d']) :=
  String.toList_ofList

theorem default?_eq_some_iff {words : List Char} :
    default? arg.toList = some words ↔ arg = standIn words := by
  rw [default?, Option.bind_eq_some_iff, ← String.toList_inj, toList_standIn]
  simp only [stripStart?_eq_some_iff, stripEnd?_eq_some_iff]
  constructor
  · rintro ⟨rest, hrest, hwords⟩
    rw [hrest, hwords]
  · exact fun h => ⟨words ++ ['\x7d'], h, rfl⟩

theorem isPlain_iff :
    IsPlain arg ↔ arg ≠ "\x7bposargs\x7d" ∧ (default? arg.toList).isNone = true := by
  rw [IsPlain, Option.isNone_iff_eq_none, Option.eq_none_iff_forall_ne_some]
  simp only [ne_eq, default?_eq_some_iff]

instance : Decidable (IsPlain arg) := decidable_of_iff _ isPlain_iff.symm

instance : Decidable (Untouched c arg) :=
  inferInstanceAs (Decidable (Undisturbed (table c) arg.toList arg.toList))

theorem standIn_ne_mark (words : List Char) : standIn words ≠ "\x7bposargs\x7d" := by
  intro h
  have hchar := congrArg (fun s : String => s.toList[8]?) h
  rw [toList_standIn, List.getElem?_append_left (by decide)] at hchar
  exact absurd hchar (by decide)

theorem expandArgument_standIn (words : List Char) :
    expandArgument c posargs (standIn words) =
      if posargs.isEmpty then (Text.words words).map String.ofList else posargs := by
  rw [expandArgument, posargsMark, if_neg (standIn_ne_mark words), default?_eq_some_iff.2 rfl]

theorem expandArgument_of_isPlain (h : IsPlain arg) : expandArgument c posargs arg =
    [String.ofList (Text.replaceEach (table c) arg.toList)] := by
  have hnone : default? arg.toList = none := Option.isNone_iff_eq_none.1 (isPlain_iff.1 h).2
  rw [expandArgument, posargsMark, if_neg h.1, hnone]

theorem IsPlain.of_not (h : ¬ IsPlain arg) :
    arg = "\x7bposargs\x7d" ∨ ∃ words, arg = standIn words := by
  by_contra hnot
  rw [not_or, not_exists] at hnot
  exact h hnot

theorem Expands.length_eq {part : List String} (h : Expands c posargs arg part) :
    part.length = (expandArgument c posargs arg).length := by
  cases h with
  | posargs => rfl
  | given h => rw [expandArgument_standIn, if_neg (by simpa using h)]
  | default h hws =>
    rw [expandArgument_standIn, h, if_pos List.isEmpty_nil, Text.words_eq_iff.2 hws]
  | plain h => rw [expandArgument_of_isPlain h, List.length_singleton, List.length_singleton]

/-- Only an argument with placeholders can stand for something else than is made of it. -/
theorem expands_expandArgument_iff : Expands c posargs arg (expandArgument c posargs arg) ↔
    (IsPlain arg → Substituted (table c) arg.toList (Text.replaceEach (table c) arg.toList)) := by
  constructor
  · intro h harg
    rw [expandArgument_of_isPlain harg] at h
    generalize hpart : [String.ofList (Text.replaceEach (table c) arg.toList)] = part at h
    cases h with
    | posargs => exact absurd rfl harg.1
    | given | default => exact absurd rfl (harg.2 _)
    | plain _ htext =>
      rw [List.singleton_inj, String.ofList_inj] at hpart
      rwa [hpart]
  · intro h
    by_cases harg : IsPlain arg
    · rw [expandArgument_of_isPlain harg]
      exact .plain harg (h harg)
    · rcases IsPlain.of_not harg with rfl | ⟨words, rfl⟩
      · exact .posargs
      · rw [expandArgument_standIn]
        split
        next hnone => exact .default (by simpa using hnone) (Text.words_words words)
        next hsome => exact .given (by simpa using hsome)

/-! ### What is put in -/

/-- In every value of a context that was provisioned there is a separator, or no brace opens. -/
theorem slash_or_shut_of_table {p : Provisioner} (hname : Config.isIdentifier c.name = true)
    (hdir : c.dir = p.envDir c.name)
    (hroot : '/' ∈ c.root.text.toList ∨ '\x7b' ∉ c.root.text.toList) :
    ∀ e ∈ table c, '/' ∈ e.2 ∨ '\x7b' ∉ e.2 := by
  have hshut : '\x7b' ∉ c.name.toList := Config.not_mem_of_isIdentifier hname (by decide)
  intro e he
  simp only [table, List.mem_cons, List.not_mem_nil, or_false] at he
  rcases he with rfl | rfl | rfl | rfl
  · rw [hdir]
    exact Host.slash_or_shut_of_join p.workDir (isPiece_of_isIdentifier hname).1 hshut
  · exact Host.slash_or_shut_of_join c.dir ⟨by decide, by decide, by decide⟩ (by decide)
  · exact .inr hshut
  · exact hroot

/-! ### Quiet contexts -/

/-- The path of a context holds no placeholder but that of itself, and its name is no part of that of
the root. -/
structure Quiet (c : Context) : Prop where
  dir : ∀ mark ∈ ["\x7benvtmpdir\x7d", "\x7benvname\x7d", "\x7broot\x7d"],
    ¬ mark.toList <:+: c.dir.text.toList
  name : ¬ c.name.toList <:+: "\x7broot\x7d".toList

theorem isPlain_of_not_mem (h : 'p' ∉ arg.toList) : IsPlain arg := by
  constructor
  · rintro rfl
    exact h (by decide)
  · rintro words rfl
    rw [toList_standIn] at h
    exact h (List.mem_append_left _ (by decide))

section Provisioned

variable {p : Provisioner} (hname : Config.isIdentifier c.name = true)
include hname

/-- What is put in in a quiet context is inert for the placeholders that come after it. -/
theorem Quiet.inert (hdir : c.dir = p.envDir c.name) (habs : c.dir.isAbsolute = true)
    (hq : Quiet c) : (table c).Pairwise fun e e' => Text.Inert e'.1 e.2 := by
  have hpiece := (isPiece_of_isIdentifier hname).1
  have hopen : '\x7b' ∉ c.name.toList := Config.not_mem_of_isIdentifier hname (by decide)
  have hclose : '\x7d' ∉ c.name.toList := Config.not_mem_of_isIdentifier hname (by decide)
  have htmpdir := Text.isMark_of_isAlpha "envtmpdir" rfl
  have henvname := Text.isMark_of_isAlpha "envname" rfl
  have hroot := Text.isMark_of_isAlpha "root" rfl
  have hinDir {w : List Char} (hw : Text.IsMark w) (hfree : ¬ w <:+: c.dir.text.toList) :
      Text.Inert w c.dir.text.toList := by
    rw [hdir] at habs hfree ⊢
    exact Host.inert_join hw habs hpiece hopen hfree
  have hinTmp {w : List Char} (hw : Text.IsMark w) (hfree : ¬ w <:+: c.dir.text.toList) :
      Text.Inert w c.tmpDir.text.toList := by
    refine Host.inert_join hw ?_ isName_tmp.piece (by decide) ?_
    · rwa [Host.isAbsolute_join_iff _ isName_tmp.piece]
    · rwa [Host.infix_join_iff hw _ isName_tmp.piece (by decide)]
  have hfree := hq.dir
  simp only [List.forall_mem_cons] at hfree
  obtain ⟨hfree, hfree', hfree'', -⟩ := hfree
  simp only [table, List.pairwise_cons, List.forall_mem_cons]
  exact ⟨⟨hinDir htmpdir hfree, hinDir henvname hfree', hinDir hroot hfree'', by simp⟩,
    ⟨hinTmp henvname hfree', hinTmp hroot hfree'', by simp⟩,
    ⟨Text.inert_of_not_infix hroot hopen hclose hq.name, by simp⟩, by simp, .nil⟩

theorem quiet_of_untouched (h : ∀ arg, IsPlain arg → Untouched c arg) : Quiet c where
  dir mark hmark hholds := by
    have hrest : ∃ e ∈ (table c).tail, e.1 = mark.toList := by
      simp only [List.mem_cons, List.not_mem_nil, or_false] at hmark
      rcases hmark with rfl | rfl | rfl <;> simp [table]
    obtain ⟨e, he, heq⟩ := hrest
    exact Text.not_undisturbed_of_holds [] _ (isTable_table c) he (heq ▸ hholds)
      (h "\x7benvdir\x7d" (isPlain_of_not_mem (by decide)))
  name hpart := by
    obtain ⟨s, hs, hnot⟩ := Text.exists_not_undisturbed ((table c).take 2) _ (isTable_table c)
      (List.mem_singleton_self ("\x7broot\x7d".toList, c.root.text.toList))
      (isPiece_of_isIdentifier hname).1.toList_ne_nil
      (Config.not_mem_of_isIdentifier hname (by decide))
      (Config.not_mem_of_isIdentifier hname (by decide)) hpart
    have hplain : IsPlain (String.ofList s) := isPlain_of_not_mem fun hp => by
      have hno : 'p' ∉ "\x7benvname\x7d".toList ∧ 'p' ∉ "\x7broot\x7d".toList := by decide
      rw [String.toList_ofList] at hp
      exact (hs 'p' hp).elim hno.1 hno.2
    have huntouched := h _ hplain
    rw [Untouched, String.toList_ofList] at huntouched
    exact hnot huntouched

/-- Every argument of a quiet context is left alone, and of no other. -/
theorem untouched_iff_quiet (hdir : c.dir = p.envDir c.name) (habs : c.dir.isAbsolute = true) :
    (∀ arg, IsPlain arg → Untouched c arg) ↔ Quiet c :=
  ⟨quiet_of_untouched hname, fun hq _ _ =>
    Text.undisturbed_of_inert (isTable_table c) (hq.inert hname hdir habs) fun _ _ => rfl⟩

end Provisioned

/-! ### Arguments -/

/-- What is made of the arguments of a command is what they stand for when no placeholder comes up
in one of them that it does not declare. In a context that was provisioned, whatever the path of the
work directory, it is so only then, but for a root whose path opens a brace and has no separator; and
where the path of the context is absolute it is so of all arguments just when the context is
quiet. -/
theorem simultaneous_iff_untouched (c : Context) :
    (∀ posargs argv, (∀ arg ∈ argv, IsPlain arg → Untouched c arg) →
      Spliced (Expands c posargs) argv (expand c posargs argv)) ∧
    ∀ p : Provisioner, Config.isIdentifier c.name = true → c.dir = p.envDir c.name →
      ('/' ∈ c.root.text.toList ∨ '\x7b' ∉ c.root.text.toList) →
      (∀ posargs argv, Spliced (Expands c posargs) argv (expand c posargs argv) →
        ∀ arg ∈ argv, IsPlain arg → Untouched c arg) ∧
      (c.dir.isAbsolute = true →
        ((∀ posargs argv, Spliced (Expands c posargs) argv (expand c posargs argv)) ↔ Quiet c)) := by
  have hif (posargs argv) (h : ∀ arg ∈ argv, IsPlain arg → Untouched c arg) :
      Spliced (Expands c posargs) argv (expand c posargs argv) := by
    rw [expand, Text.spliced_flatMap_iff fun arg _ part hpart => hpart.length_eq]
    simp only [expands_expandArgument_iff]
    exact fun arg harg hplain =>
      Text.substituted_replaceEach (isTable_table c) (h arg harg hplain)
  refine ⟨hif, fun p hname hdir hroot => ?_⟩
  have honly (posargs argv) (h : Spliced (Expands c posargs) argv (expand c posargs argv)) :
      ∀ arg ∈ argv, IsPlain arg → Untouched c arg := by
    rw [expand, Text.spliced_flatMap_iff fun arg _ part hpart => hpart.length_eq] at h
    simp only [expands_expandArgument_iff] at h
    exact fun arg harg hplain => Text.undisturbed_of_substituted (isTable_table c)
      (slash_or_shut_of_table hname hdir hroot) (h arg harg hplain)
  refine ⟨honly, fun habs => ?_⟩
  rw [← untouched_iff_quiet hname hdir habs]
  constructor
  · exact fun h arg hplain => honly [] [arg] (h [] [arg]) arg (List.mem_singleton_self arg) hplain
  · exact fun h posargs argv => hif posargs argv fun arg _ => h arg

/-- An environment of the name `root`: in two braces its name makes a placeholder. -/
theorem simultaneous_iff_untouched_braced :
    let c : Context :=
      ⟨"root", ⟨"/p/.envrun/root"⟩, ⟨"/p"⟩, false, .ofDeclared "root" [] .epoch, ⟨"root", 0, true⟩⟩
    let argv := ["--dir=\x7benvdir\x7d", "\x7bposargs:a  b\x7d"]
    let braced := ["\x7b\x7benvname\x7d\x7d"]
    Spliced (Expands c []) argv (expand c [] argv) ∧
      expand c [] argv = ["--dir=/p/.envrun/root", "a", "b"] ∧
      ¬ Spliced (Expands c []) braced (expand c [] braced) ∧ expand c [] braced = ["/p"] ∧
      ¬ Quiet c := by
  intro c argv braced
  obtain ⟨hif, honly⟩ := simultaneous_iff_untouched c
  obtain ⟨honly, hquiet⟩ :=
    honly ⟨⟨"/p/.envrun"⟩, ⟨"/p"⟩, false, [0]⟩ (by decide) (by decide) (by decide)
  have hbraced : ¬ Spliced (Expands c []) braced (expand c [] braced) := fun h =>
    absurd (honly [] braced h) (by decide)
  exact ⟨hif [] argv (by decide), by decide, hbraced, by decide,
    fun hq => hbraced ((hquiet (by decide)).2 hq [] braced)⟩

end Testbed.Placeholders
