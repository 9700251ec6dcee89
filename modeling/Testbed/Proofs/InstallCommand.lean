import Testbed.InstallCommand
import Testbed.Proofs.Context.Ground
import Testbed.Proofs.Host.Spelling

/-! What the arguments of an install command stand for. An argument for the source is all the
arguments of that source, as they are. Every other argument stands for itself with the values of its
placeholders put in, all at once; since they are put in one after the other, that is what comes of it
just when no placeholder comes up in between that the template did not hold. One never does where
the path of the context is without placeholders and its name is no part of one. -/
namespace Testbed.InstallCommand

open Text (Substituted Undisturbed Spliced)

/-- The arguments that one argument of a template stands for. -/
inductive Expands (source : Dependency) (target : InstallTarget) : String → List String → Prop
  | package {name requirement : String} (h : source = .package name requirement) :
    Expands source target "\x7bsource\x7d" [requirement]
  | manifest {path : Path} (h : source = .manifest path) :
    Expands source target "\x7bsource\x7d" ["-r", (target.root.join path.text).text]
  | other {arg : String} {text : List Char} (h : arg ≠ "\x7bsource\x7d")
    (htext : Substituted (table target) arg.toList text) :
    Expands source target arg [String.ofList text]

/-- A placeholder comes up in an argument only where the template holds it. -/
def Untouched (target : InstallTarget) (arg : String) : Prop :=
  Undisturbed (table target) arg.toList arg.toList

instance {target : InstallTarget} {arg : String} : Decidable (Untouched target arg) :=
  inferInstanceAs (Decidable (Undisturbed (table target) arg.toList arg.toList))

variable {source : Dependency} {target : InstallTarget} {arg : String}

theorem isTable_table (target : InstallTarget) : Text.IsTable (table target) where
  marks := by
    intro e he
    simp only [table, List.mem_cons, List.not_mem_nil, or_false] at he
    rcases he with rfl | rfl | rfl
    · exact Text.isMark_of_isAlpha "envdir" rfl
    · exact Text.isMark_of_isAlpha "envname" rfl
    · exact Text.isMark_of_isAlpha "root" rfl
  distinct := by
    have : ((table target).map Prod.fst) =
      ["\x7benvdir\x7d".toList, "\x7benvname\x7d".toList, "\x7broot\x7d".toList] := rfl
    rw [this]
    decide

/-! ### One argument -/

theorem expandArgument_source :
    Expands source target "\x7bsource\x7d" (source.installArgs target.root) := by
  cases source with
  | package name requirement => exact .package rfl
  | manifest path => exact .manifest rfl

theorem expandArgument_of_ne (h : arg ≠ "\x7bsource\x7d") : expandArgument source target arg =
    [String.ofList (Text.replaceEach (table target) arg.toList)] := by
  rw [expandArgument, sourceMark, if_neg h]

theorem Expands.length_eq {part : List String} (h : Expands source target arg part) :
    part.length = (expandArgument source target arg).length := by
  cases h with
  | package h | manifest h =>
    subst h
    rfl
  | other h => rw [expandArgument_of_ne h, List.length_singleton, List.length_singleton]

/-- Only an argument with placeholders can stand for something else than is made of it. -/
theorem expands_expandArgument_iff :
    Expands source target arg (expandArgument source target arg) ↔ (arg ≠ "\x7bsource\x7d" →
      Substituted (table target) arg.toList (Text.replaceEach (table target) arg.toList)) := by
  constructor
  · intro h harg
    rw [expandArgument_of_ne harg] at h
    generalize hpart : [String.ofList (Text.replaceEach (table target) arg.toList)] = part at h
    cases h with
    | package | manifest => exact absurd rfl harg
    | other _ htext =>
      rw [List.singleton_inj, String.ofList_inj] at hpart
      rwa [hpart]
  · intro h
    by_cases harg : arg = "\x7bsource\x7d"
    · subst harg
      exact expandArgument_source
    · rw [expandArgument_of_ne harg]
      exact .other harg (h harg)

/-! ### Quiet targets -/

/-- The path of the context holds no placeholder but that of itself, and the name is no part of that
of the root. -/
structure Quiet (target : InstallTarget) : Prop where
  dir : ∀ mark ∈ ["\x7benvname\x7d", "\x7broot\x7d"],
    ¬ mark.toList <:+: target.envDir.text.toList
  name : ¬ target.envName.toList <:+: "\x7broot\x7d".toList

section Provisioned

variable {p : Provisioner} (hname : Config.isIdentifier target.envName = true)
include hname

/-- What is put in for a quiet target is inert for the placeholders that come after it. -/
theorem Quiet.inert (hdir : target.envDir = p.envDir target.envName)
    (habs : target.envDir.isAbsolute = true) (hq : Quiet target) :
    (table target).Pairwise fun e e' => Text.Inert e'.1 e.2 := by
  have hopen : '\x7b' ∉ target.envName.toList := Config.not_mem_of_isIdentifier hname (by decide)
  have hclose : '\x7d' ∉ target.envName.toList := Config.not_mem_of_isIdentifier hname (by decide)
  have hroot := Text.isMark_of_isAlpha "root" rfl
  have hinDir {w : List Char} (hw : Text.IsMark w) (hfree : ¬ w <:+: target.envDir.text.toList) :
      Text.Inert w target.envDir.text.toList := by
    rw [hdir] at habs hfree ⊢
    exact Host.inert_join hw habs (isPiece_of_isIdentifier hname).1 hopen hfree
  have hfree := hq.dir
  simp only [List.forall_mem_cons] at hfree
  obtain ⟨hfree, hfree', -⟩ := hfree
  simp only [table, List.pairwise_cons, List.forall_mem_cons]
  exact ⟨⟨hinDir (Text.isMark_of_isAlpha "envname" rfl) hfree, hinDir hroot hfree', by simp⟩,
    ⟨Text.inert_of_not_infix hroot hopen hclose hq.name, by simp⟩, by simp, .nil⟩

theorem quiet_of_untouched (h : ∀ arg, arg ≠ "\x7bsource\x7d" → Untouched target arg) :
    Quiet target where
  dir mark hmark hholds := by
    have hrest : ∃ e ∈ (table target).tail, e.1 = mark.toList := by
      simp only [List.mem_cons, List.not_mem_nil, or_false] at hmark
      rcases hmark with rfl | rfl <;> simp [table]
    obtain ⟨e, he, heq⟩ := hrest
    exact Text.not_undisturbed_of_holds [] _ (isTable_table target) he (heq ▸ hholds)
      (h "\x7benvdir\x7d" (by decide))
  name hpart := by
    obtain ⟨s, hs, hnot⟩ := Text.exists_not_undisturbed ((table target).take 1) _
      (isTable_table target) (List.mem_singleton_self ("\x7broot\x7d".toList, target.root.text.toList))
      (isPiece_of_isIdentifier hname).1.toList_ne_nil
      (Config.not_mem_of_isIdentifier hname (by decide))
      (Config.not_mem_of_isIdentifier hname (by decide)) hpart
    have hother : String.ofList s ≠ "\x7bsource\x7d" := fun heq => by
      have hno : 's' ∉ "\x7benvname\x7d".toList ∧ 's' ∉ "\x7broot\x7d".toList := by decide
      have hmem : 's' ∈ s := by
        rw [← String.toList_ofList (l := s), heq]
        decide
      exact (hs 's' hmem).elim hno.1 hno.2
    have huntouched := h _ hother
    rw [Untouched, String.toList_ofList] at huntouched
    exact hnot huntouched

/-- Every argument for a quiet target is left alone, and for no other. -/
theorem untouched_iff_quiet (hdir : target.envDir = p.envDir target.envName)
    (habs : target.envDir.isAbsolute = true) :
    (∀ arg, arg ≠ "\x7bsource\x7d" → Untouched target arg) ↔ Quiet target :=
  ⟨quiet_of_untouched hname, fun hq _ _ =>
    Text.undisturbed_of_inert (isTable_table target) (hq.inert hname hdir habs) fun _ _ => rfl⟩

end Provisioned

/-! ### Templates -/

/-- What is made of a template is what its arguments stand for when no placeholder comes up in one of
them that the template does not hold. For an environment with a good name it is so only then, where
the paths of the context and the root have a separator or open no brace; and where a context was
provisioned at an absolute path it is so of all templates and sources just when the target is
quiet. -/
theorem spliced_iff_untouched (target : InstallTarget) :
    (∀ template source, (∀ arg ∈ template, arg ≠ "\x7bsource\x7d" → Untouched target arg) →
      Spliced (Expands source target) template (expand template source target)) ∧
    (Config.isIdentifier target.envName = true →
      (∀ p ∈ [target.envDir, target.root], '/' ∈ p.text.toList ∨ '\x7b' ∉ p.text.toList) →
      (∀ template source,
        Spliced (Expands source target) template (expand template source target) →
        ∀ arg ∈ template, arg ≠ "\x7bsource\x7d" → Untouched target arg) ∧
      ∀ p : Provisioner, target.envDir = p.envDir target.envName →
        target.envDir.isAbsolute = true →
        ((∀ template source,
          Spliced (Expands source target) template (expand template source target)) ↔
          Quiet target)) := by
  have hif (template source)
      (h : ∀ arg ∈ template, arg ≠ "\x7bsource\x7d" → Untouched target arg) :
      Spliced (Expands source target) template (expand template source target) := by
    rw [expand, Text.spliced_flatMap_iff fun arg _ part hpart => hpart.length_eq]
    simp only [expands_expandArgument_iff]
    exact fun arg harg hother =>
      Text.substituted_replaceEach (isTable_table target) (h arg harg hother)
  refine ⟨hif, fun hname hpaths => ?_⟩
  have hvalues : ∀ e ∈ table target, '/' ∈ e.2 ∨ '\x7b' ∉ e.2 := by
    intro e he
    simp only [table, List.mem_cons, List.not_mem_nil, or_false] at he
    rcases he with rfl | rfl | rfl
    · exact hpaths _ (by simp)
    · exact .inr (Config.not_mem_of_isIdentifier hname (by decide))
    · exact hpaths _ (by simp)
  have honly (template source)
      (h : Spliced (Expands source target) template (expand template source target)) :
      ∀ arg ∈ template, arg ≠ "\x7bsource\x7d" → Untouched target arg := by
    rw [expand, Text.spliced_flatMap_iff fun arg _ part hpart => hpart.length_eq] at h
    simp only [expands_expandArgument_iff] at h
    exact fun arg harg hother =>
      Text.undisturbed_of_substituted (isTable_table target) hvalues (h arg harg hother)
  refine ⟨honly, fun p hdir habs => ?_⟩
  rw [← untouched_iff_quiet hname hdir habs]
  constructor
  · intro h arg hother
    exact honly [arg] (.manifest ⟨""⟩) (h _ _) arg (List.mem_singleton_self arg) hother
  · exact fun h template source => hif template source fun arg _ => h arg

/-- A context below a directory that is called like the placeholder of the root. -/
theorem spliced_iff_untouched_rooted :
    let target : InstallTarget := ⟨"py36", ⟨"/w/\x7broot\x7d/py36"⟩, ⟨"/p"⟩⟩
    let source : Dependency := .manifest ⟨"r.txt"⟩
    let template := ["pip", "--name=\x7benvname\x7d", "\x7bsource\x7d"]
    let misled := ["pip", "--prefix", "\x7benvdir\x7d", "\x7bsource\x7d"]
    Spliced (Expands source target) template (expand template source target) ∧
      expand template source target = ["pip", "--name=py36", "-r", "/p/r.txt"] ∧
      ¬ Spliced (Expands source target) misled (expand misled source target) ∧
      expand misled source target = ["pip", "--prefix", "/w//p/py36", "-r", "/p/r.txt"] ∧
      ¬ Quiet target := by
  intro target source template misled
  obtain ⟨hif, honly⟩ := spliced_iff_untouched target
  obtain ⟨honly, hquiet⟩ := honly (by decide) (by decide)
  have hmisled : ¬ Spliced (Expands source target) misled (expand misled source target) := fun h =>
    absurd (honly misled source h) (by decide)
  exact ⟨hif template source (by decide), by decide, hmisled, by decide, fun hq => hmisled
    ((hquiet ⟨⟨"/w/\x7broot\x7d"⟩, ⟨"/p"⟩, false, [0]⟩ (by decide) (by decide)).2 hq misled source)⟩

end Testbed.InstallCommand
