import Testbed.Program.Executable

/-! What is found in a context. It can be executed, and it is in the context: a bare program is
found by its name among the programs installed there, any other only where it leads inside, links
followed. The variables of the host have no part in it. -/
namespace Testbed

/-! ### Paths -/

theorem Path.isAbsolute_join {base : Path} (h : base.isAbsolute = true) (name : String) :
    (base.join name).isAbsolute = true := by
  have hhead : base.text.toList.head? = some '/' := by simpa [isAbsolute] using h
  unfold join
  split
  next hname => simpa [isAbsolute] using hname
  next =>
    split
    all_goals simp [isAbsolute, List.head?_append, hhead]

namespace Host

/-- A regular file, no device, that someone may execute. -/
def HoldsProgram (h : Host) (p : Path) : Prop :=
  ∃ loc body mode, h.stat p = .ok (loc, .file body mode) ∧ body ≠ .zeros ∧ body ≠ .sink ∧
    mode &&& 0o111 ≠ 0

theorem isExecutable_iff {h : Host} {p : Path} : h.isExecutable p = true ↔ h.HoldsProgram p := by
  have hstat : h.tree.stat h.cwd p.text = h.stat p := rfl
  unfold isExecutable Tree.isExecutable HoldsProgram
  rw [hstat]
  cases h.stat p with
  | error cause => simp
  | ok found =>
    obtain ⟨loc, entry⟩ := found
    cases entry with
    | file body mode => cases body <;> simp [and_assoc]
    | directory | link => simp

theorem stat_of_isAbsolute (t : Tree) (cwd cwd' : Location) {p : Path} (hp : p.isAbsolute = true) :
    t.stat cwd p.text = t.stat cwd' p.text := by
  have hhead : p.text.toList.head? = some '/' := by simpa [Path.isAbsolute] using hp
  simp only [Tree.stat, Tree.follow, hhead, if_true]

end Host

namespace Lookup

/-- A program of a context that was found at a path. Where the path of the context is absolute, the
path leads to the same file for whoever starts it, in whatever directory. -/
structure Confined (h : Host) (c : Context) (program : String) (p : Path) : Prop where
  found : h.HoldsProgram p
  place : ('/' ∉ program.toList ∧ p = (c.dir.join "bin").join program) ∨
    ∃ loc dir, h.canonical? p = some loc ∧ h.canonical? c.dir = some dir ∧ dir <+: loc
  anywhere : c.dir.isAbsolute = true → ∀ cwd, h.tree.stat cwd p.text = h.stat p

theorem usable_eq_some {h : Host} {p q : Path} :
    usable h p = some q ↔ h.HoldsProgram p ∧ p = q := by
  unfold usable
  split
  next he => simp [Host.isExecutable_iff.1 he]
  next he => simp [mt Host.isExecutable_iff.2 he]

theorem isInside_iff {h : Host} {c : Context} {p : Path} : isInside h c p = true ↔
    ∃ loc dir, h.canonical? p = some loc ∧ h.canonical? c.dir = some dir ∧ dir <+: loc := by
  unfold isInside
  split
  next loc dir hloc hdir => simp [hloc, hdir]
  next hnone =>
    refine iff_of_false nofun ?_
    rintro ⟨loc, dir, hloc, hdir, -⟩
    exact hnone loc dir hloc hdir

theorem isolated_eq_ok {h : Host} {c : Context} {program : String} {p : Path} :
    isolated h c program = .ok p ↔ isolated? h c program = some p := by
  unfold isolated
  split
  next q hq => rw [hq, Except.ok.injEq, Option.some.injEq]
  next hnone => simp [hnone]

theorem confined_of_isolated {h : Host} {c : Context} {program : String} {p : Path}
    (hp : isolated h c program = .ok p) : Confined h c program p := by
  have hsome := isolated_eq_ok.1 hp
  have hany {q : Path} (hq : c.dir.isAbsolute = true → q.isAbsolute = true)
      (ha : c.dir.isAbsolute = true) (cwd : Host.Location) : h.tree.stat cwd q.text = h.stat q :=
    Host.stat_of_isAbsolute h.tree cwd h.cwd (hq ha)
  unfold isolated? at hsome
  dsimp only at hsome
  split at hsome
  · split at hsome
    next hinside =>
      obtain ⟨hprogram, rfl⟩ := usable_eq_some.1 hsome
      exact ⟨hprogram, .inr (isInside_iff.1 hinside),
        hany fun ha => Path.isAbsolute_join ha program⟩
    next => cases hsome
  next hbare =>
    obtain ⟨hprogram, rfl⟩ := usable_eq_some.1 hsome
    refine ⟨hprogram, .inl ⟨by simpa [isPathLike] using hbare, rfl⟩, hany fun ha => ?_⟩
    exact Path.isAbsolute_join (Path.isAbsolute_join ha "bin") program

/-- Only the files matter, and where relative paths begin. -/
theorem isolated_congr {h h' : Host} (ht : h'.tree = h.tree) (hc : h'.cwd = h.cwd) (c : Context)
    (program : String) : isolated h' c program = isolated h c program := by
  have hcanonical (p : Path) : h'.canonical? p = h.canonical? p := by
    simp only [Host.canonical?, ht, hc]
  have hinside (p : Path) : isInside h' c p = isInside h c p := by
    simp only [isInside, hcanonical]
  have hexecutable (p : Path) : h'.isExecutable p = h.isExecutable p := by
    simp only [Host.isExecutable, ht, hc]
  have husable (p : Path) : usable h' p = usable h p := by
    simp only [usable, hexecutable]
  simp only [isolated, isolated?, hinside, husable]

/-! ### Programs of the system -/

/-- A program of the ambient system that was found at a path. One with a separator in it is below the
root, any other in the first directory of the search path that has a program of its name. -/
structure Provides (h : Host) (c : Context) (program : String) (p : Path) : Prop where
  found : h.HoldsProgram p
  place : ('/' ∈ program.toList ∧ p = c.root.join program) ∨
    '/' ∉ program.toList ∧ ∃ list front dir back, h.vars.get? "PATH" = some list ∧
      Host.searchDirs list = front ++ dir :: back ∧ p = dir.join program ∧
      ∀ earlier ∈ front, ¬ h.HoldsProgram (earlier.join program)

theorem findInPath?_eq_some {h : Host} {program : String} {p : Path} :
    h.findInPath? program = some p ↔ h.HoldsProgram p ∧ ∃ list front dir back,
      h.vars.get? "PATH" = some list ∧ Host.searchDirs list = front ++ dir :: back ∧
      p = dir.join program ∧ ∀ earlier ∈ front, ¬ h.HoldsProgram (earlier.join program) := by
  unfold Host.findInPath?
  split
  next hnone => simp [hnone]
  next list hlist =>
    rw [List.find?_eq_some_iff_append, Host.isExecutable_iff]
    refine and_congr_right fun _ => ?_
    constructor
    · rintro ⟨front, back, hsplit, hfront⟩
      obtain ⟨front, _, hdirs, rfl, hrest⟩ := List.map_eq_append_iff.1 hsplit
      obtain ⟨dir, back, rfl, rfl, -⟩ := List.map_eq_cons_iff.1 hrest
      refine ⟨list, front, dir, back, hlist, hdirs, rfl, fun earlier hmem => ?_⟩
      have := hfront _ (List.mem_map_of_mem hmem)
      rwa [Bool.not_eq_true', ← Bool.not_eq_true, Host.isExecutable_iff] at this
    · rintro ⟨_, front, dir, back, hlist', hdirs, rfl, hfront⟩
      obtain rfl : list = _ := Option.some.inj (hlist.symm.trans hlist')
      refine ⟨front.map (·.join program), back.map (·.join program), by rw [hdirs]; simp, ?_⟩
      intro q hq
      obtain ⟨earlier, hmem, rfl⟩ := List.mem_map.1 hq
      rw [Bool.not_eq_true', ← Bool.not_eq_true, Host.isExecutable_iff]
      exact hfront earlier hmem

theorem ambient_eq_ok {h : Host} {c : Context} {program : String} {p : Path} :
    ambient h c program = .ok p ↔ ambient? h c program = some p := by
  unfold ambient
  split
  next q hq => rw [hq, Except.ok.injEq, Option.some.injEq]
  next hnone => simp [hnone]

theorem ambient_ok_iff {h : Host} {c : Context} {program : String} {p : Path} :
    ambient h c program = .ok p ↔ Provides h c program p := by
  have hlike : isPathLike program = true ↔ '/' ∈ program.toList := by simp [isPathLike]
  rw [ambient_eq_ok, ambient?]
  split
  next hpath =>
    rw [usable_eq_some]
    constructor
    · rintro ⟨hprogram, rfl⟩
      exact ⟨hprogram, .inl ⟨hlike.1 hpath, rfl⟩⟩
    · rintro ⟨hprogram, ⟨-, rfl⟩ | ⟨hbare, -⟩⟩
      · exact ⟨hprogram, rfl⟩
      · exact absurd (hlike.1 hpath) hbare
  next hbare =>
    rw [findInPath?_eq_some]
    constructor
    · rintro ⟨hprogram, hplace⟩
      exact ⟨hprogram, .inr ⟨fun hmem => hbare (hlike.2 hmem), hplace⟩⟩
    · rintro ⟨hprogram, ⟨hpath, -⟩ | ⟨-, hplace⟩⟩
      · exact absurd (hlike.2 hpath) hbare
      · exact ⟨hprogram, hplace⟩

theorem ambient_error_iff {h : Host} {c : Context} {program : String} {e : CommandError} :
    ambient h c program = .error e ↔
      e = .notFound program (ambientHint program) ∧ ∀ p, ¬ Provides h c program p := by
  simp only [← ambient_ok_iff]
  unfold ambient
  split <;> simp [eq_comm]

/-- Without a search path the system has no program by its bare name. -/
theorem not_provides_of_unset {h : Host} {c : Context} {program : String}
    (hbare : '/' ∉ program.toList) (hunset : h.vars.get? "PATH" = none) (p : Path) :
    ¬ Provides h c program p := by
  rintro ⟨-, ⟨hpath, -⟩ | ⟨-, list, -, -, -, hlist, -⟩⟩
  · exact hbare hpath
  · rw [hunset] at hlist
    cases hlist

/-- A program of the context that is given by an absolute path is one of the system too. -/
theorem provides_of_isolated {h : Host} {c : Context} {program : String} {p : Path}
    (hp : isolated h c program = .ok p) (habs : Path.isAbsolute ⟨program⟩ = true) :
    Provides h c program p := by
  have hprogram := (confined_of_isolated hp).found
  have hhead : program.toList.head? = some '/' := by simpa [Path.isAbsolute] using habs
  have hpath : '/' ∈ program.toList := List.mem_of_head? hhead
  have hjoin (base : Path) : base.join program = ⟨program⟩ := by rw [Path.join, if_pos hhead]
  have hsome := isolated_eq_ok.1 hp
  rw [isolated?, if_pos (by simpa [isPathLike] using hpath), hjoin] at hsome
  refine ⟨hprogram, .inl ⟨hpath, ?_⟩⟩
  dsimp only at hsome
  split at hsome
  · rw [hjoin, (usable_eq_some.1 hsome).2]
  · cases hsome

end Lookup

end Testbed
