import Mathlib.Data.List.FinRange
import Mathlib.Data.List.Nodup
import Testbed.Dependency.Resolution

/-! What resolving leaves of a list of declared sources. Of several declarations of one package, or of
one manifest, the last one stays, and those that stay keep their order. So nothing that is asked for
is lost, and a list may be resolved in parts and then as a whole. -/
namespace Testbed.Dependency

/-! ### Identities -/

/-- What a source may be superseded by: another of the same package, or of the same manifest however
its path is spelt. -/
inductive Identity where
  | package (name : String)
  | manifest (components : List Path.Component)
deriving DecidableEq

def identity : Dependency → Identity
  | .package name _ => .package name
  | .manifest path => .manifest path.components

theorem sameIdentity_iff {d e : Dependency} : d.sameIdentity e = true ↔ d.identity = e.identity := by
  cases d <;> cases e <;> simp [sameIdentity, identity, Path.alike]

/-- The sources of which nothing is declared among the others. -/
def besides (others sources : List Dependency) : List Dependency :=
  sources.filter fun d => d.identity ∉ others.map identity

theorem besides_besides (others others' sources : List Dependency) :
    besides others (besides others' sources) = besides (others' ++ others) sources := by
  rw [besides, besides, besides, List.filter_filter]
  refine List.filter_congr fun d _ => ?_
  rw [Bool.and_comm]
  simp only [List.map_append, List.mem_append, not_or, Bool.decide_and]

theorem supersede_eq (resolved : List Dependency) (source : Dependency) :
    supersede resolved source = besides [source] resolved ++ [source] := by
  rw [supersede, besides]
  congr 1
  refine List.filter_congr fun d _ => ?_
  rw [Bool.eq_iff_iff, Bool.not_eq_true', Bool.eq_false_iff, ne_eq, sameIdentity_iff]
  simp

/-! ### The last of each identity -/

/-- What stood there before stays as far as nothing of its identity is declared now. -/
theorem foldl_supersede (declared resolved : List Dependency) :
    declared.foldl supersede resolved = besides declared resolved ++ resolve declared := by
  induction declared generalizing resolved with
  | nil => simp [resolve, besides]
  | cons source declared ih =>
    have hsource : resolve (source :: declared) = besides declared [source] ++ resolve declared :=
      ih [source]
    have hbesides : besides declared (besides [source] resolved) =
        besides (source :: declared) resolved := besides_besides declared [source] resolved
    rw [List.foldl_cons, ih, supersede_eq, hsource, ← List.append_assoc, ← hbesides, besides,
      List.filter_append]
    rfl

theorem resolve_append (declared others : List Dependency) :
    resolve (declared ++ others) = besides others (resolve declared) ++ resolve others := by
  rw [resolve, List.foldl_append]
  exact foldl_supersede others (resolve declared)

theorem resolve_cons (source : Dependency) (declared : List Dependency) :
    resolve (source :: declared) =
      if source.identity ∈ declared.map identity then resolve declared
      else source :: resolve declared := by
  have happend : resolve (source :: declared) = besides declared [source] ++ resolve declared :=
    resolve_append [source] declared
  rw [happend, besides, List.filter_singleton]
  by_cases h : source.identity ∈ declared.map identity <;> simp [h]

theorem resolve_sublist (declared : List Dependency) : (resolve declared).Sublist declared := by
  induction declared with
  | nil => exact List.Sublist.refl _
  | cons source declared ih =>
    rw [resolve_cons]
    split
    · exact ih.cons source
    · exact ih.cons_cons source

/-- Resolving never makes a list longer. -/
theorem length_resolve_le (declared : List Dependency) :
    (resolve declared).length ≤ declared.length :=
  (resolve_sublist declared).length_le

/-- Resolving adds nothing that was not declared. -/
theorem mem_of_mem_resolve {declared : List Dependency} {d : Dependency}
    (h : d ∈ resolve declared) : d ∈ declared :=
  (resolve_sublist declared).subset h

/-- Resolving loses no identity. -/
theorem mem_identities_resolve {declared : List Dependency} {x : Identity} :
    x ∈ (resolve declared).map identity ↔ x ∈ declared.map identity := by
  induction declared with
  | nil => rfl
  | cons source declared ih =>
    rw [resolve_cons, List.map_cons, List.mem_cons]
    split
    next h =>
      rw [ih]
      constructor
      · exact .inr
      · rintro (rfl | hx)
        · exact h
        · exact hx
    next => rw [List.map_cons, List.mem_cons, ih]

/-- Resolving keeps one source of each identity. -/
theorem nodup_identities_resolve (declared : List Dependency) :
    ((resolve declared).map identity).Nodup := by
  induction declared with
  | nil => exact List.nodup_nil
  | cons source declared ih =>
    rw [resolve_cons]
    split
    next => exact ih
    next h =>
      rw [List.map_cons, List.nodup_cons, mem_identities_resolve]
      exact ⟨h, ih⟩

theorem resolve_of_nodup {declared : List Dependency} (h : (declared.map identity).Nodup) :
    resolve declared = declared := by
  induction declared with
  | nil => rfl
  | cons source declared ih =>
    obtain ⟨hsource, hrest⟩ := List.nodup_cons.1 h
    rw [resolve_cons, if_neg hsource, ih hrest]

theorem resolve_resolve (declared : List Dependency) :
    resolve (resolve declared) = resolve declared :=
  resolve_of_nodup (nodup_identities_resolve declared)

theorem besides_resolve (others sources : List Dependency) :
    besides (resolve others) sources = besides others sources := by
  simp only [besides, mem_identities_resolve]

/-- Lists that were resolved apart may be resolved together. -/
theorem resolve_resolve_append (declared others : List Dependency) :
    resolve (resolve declared ++ resolve others) = resolve (declared ++ others) := by
  rw [resolve_append, resolve_append, resolve_resolve, resolve_resolve, besides_resolve]

/-! ### Positions -/

/-- Nothing of its identity is declared behind the entry at this position. -/
def IsLast (declared : List Dependency) (i : Fin declared.length) : Prop :=
  ∀ j, i < j → declared[j].identity ≠ declared[i].identity

instance (declared : List Dependency) : DecidablePred (IsLast declared) :=
  fun i => inferInstanceAs (Decidable (∀ j, i < j → declared[j].identity ≠ declared[i].identity))

/-- The positions of the last entries, in ascending order. -/
def lastPositions (declared : List Dependency) : List (Fin declared.length) :=
  (List.finRange declared.length).filter (IsLast declared)

theorem isLast_zero {source : Dependency} {declared : List Dependency} :
    IsLast (source :: declared) (0 : Fin (declared.length + 1)) ↔
      source.identity ∉ declared.map identity := by
  constructor
  · intro h hmem
    obtain ⟨d, hd, heq⟩ := List.mem_map.1 hmem
    obtain ⟨j, rfl⟩ := List.mem_iff_get.1 hd
    exact h j.succ (Fin.succ_pos j) heq
  · intro h j hj
    obtain ⟨k, rfl⟩ := Fin.exists_succ_eq.2 hj.ne'
    exact fun heq => h (List.mem_map.2 ⟨_, List.get_mem declared k, heq⟩)

theorem isLast_succ {source : Dependency} {declared : List Dependency} {i : Fin declared.length} :
    IsLast (source :: declared) i.succ ↔ IsLast declared i := by
  constructor
  · intro h j hj
    exact h j.succ (Fin.succ_lt_succ_iff.2 hj)
  · intro h j hj
    obtain ⟨k, rfl⟩ := Fin.exists_succ_eq.2 (Fin.pos_of_ne_zero (Fin.ne_zero_of_lt hj)).ne'
    exact h k (Fin.succ_lt_succ_iff.1 hj)

theorem lastPositions_cons (source : Dependency) (declared : List Dependency) :
    lastPositions (source :: declared) =
      if source.identity ∈ declared.map identity then (lastPositions declared).map Fin.succ
      else (0 : Fin (declared.length + 1)) :: (lastPositions declared).map Fin.succ := by
  have hrest : ((List.finRange declared.length).map Fin.succ).filter
      (IsLast (source :: declared)) = (lastPositions declared).map Fin.succ := by
    rw [lastPositions, List.filter_map]
    simp only [Function.comp_def, isLast_succ]
  have hfirst : lastPositions (source :: declared) =
      ((0 : Fin (declared.length + 1)) :: (List.finRange declared.length).map Fin.succ).filter
        (IsLast (source :: declared)) := by
    rw [← List.finRange_succ]
    rfl
  rw [hfirst, List.filter_cons, hrest]
  simp only [isLast_zero, decide_not]
  split <;> simp_all

theorem resolve_eq_lastPositions (declared : List Dependency) :
    resolve declared = (lastPositions declared).map declared.get := by
  induction declared with
  | nil => rfl
  | cons source declared ih =>
    have hrest : ((lastPositions declared).map Fin.succ).map (source :: declared).get =
        resolve declared := by
      rw [ih, List.map_map]
      rfl
    rw [resolve_cons, lastPositions_cons]
    split
    · exact hrest.symm
    · rw [List.map_cons, hrest]
      rfl

/-- Resolving keeps the entries of a list that have no other of their identity behind them, in their
order. So each identity that is declared is kept, and kept once, and resolving two lists apart before
they are resolved together makes no difference. -/
theorem resolve_keeps_last (declared : List Dependency) :
    resolve declared = (lastPositions declared).map declared.get ∧
      ((resolve declared).map identity).Nodup ∧
      (∀ x, x ∈ (resolve declared).map identity ↔ x ∈ declared.map identity) ∧
      ∀ others, resolve (resolve declared ++ resolve others) = resolve (declared ++ others) :=
  ⟨resolve_eq_lastPositions declared, nodup_identities_resolve declared,
    fun _ => mem_identities_resolve, resolve_resolve_append declared⟩

/-! ### Package names -/

/-- The names of the packages, manifests left out. -/
def packageNames (sources : List Dependency) : List String := sources.filterMap packageName?

def Identity.packageName? : Identity → Option String
  | .package name => some name
  | .manifest _ => none

theorem packageNames_eq (sources : List Dependency) :
    packageNames sources = (sources.map identity).filterMap Identity.packageName? := by
  rw [packageNames, List.filterMap_map]
  congr 1
  funext d
  cases d <;> rfl

/-- Resolving loses no package and keeps one of each name. -/
theorem packageNames_resolve (declared : List Dependency) :
    (packageNames (resolve declared)).Nodup ∧
      ∀ name, name ∈ packageNames (resolve declared) ↔ name ∈ packageNames declared := by
  simp only [packageNames_eq]
  constructor
  · apply (nodup_identities_resolve declared).filterMap
    intro x y name hx hy
    cases x <;> cases y <;> simp_all [Identity.packageName?]
  · intro name
    simp only [List.mem_filterMap, mem_identities_resolve]

/-- Whether the source is a package of that name, in whatever spelling. -/
def provides (source : Dependency) (reference : String) : Bool :=
  source.packageName?.any (fun name => normalizeName name == reference)

/-- A package that is declared stays, and stays once, when all names are in normal form. -/
theorem countP_provides_resolve {declared : List Dependency} {reference : String}
    (hn : ∀ name ∈ packageNames declared, normalizeName name = name)
    (h : reference ∈ packageNames declared) :
    (resolve declared).countP (·.provides reference) = 1 := by
  obtain ⟨hnodup, hmem⟩ := packageNames_resolve declared
  have hcount : (packageNames (resolve declared)).countP (normalizeName · == reference) = 1 := by
    rw [List.countP_congr fun name hname => by rw [hn name ((hmem name).1 hname)]]
    exact List.count_eq_one_of_mem hnodup ((hmem reference).2 h)
  rw [← hcount, packageNames, List.countP_filterMap]
  refine List.countP_congr fun source _ => ?_
  cases source <;> rfl

end Testbed.Dependency
