import Testbed.Host.Basic
import Testbed.Proofs.Host.Walk
import Testbed.Proofs.Text.Utf8

/-! What is written to a file is read back by the same path: the walk that found the file, or the free
place for it, comes to the file again. -/
namespace Testbed.Host

namespace Tree

variable {t : Tree} {followLast : Bool} {links : Nat} {loc place : Location} {names : List String}

/-- What a walk says of where it came to is so. -/
def Walked.Holds (t : Tree) : Walked → Prop
  | .found loc entry => t.get? loc = some entry
  | .free parent name _ => t.get? (parent ++ [name]) = none
  | .failed _ => True

theorem walk_holds (t : Tree) (followLast : Bool) (links : Nat) (loc : Location)
    (names : List String) : (t.walk followLast links loc names).Holds t := by
  -- each end of a walk is reached by looking up just the place that it tells of
  fun_induction walk t followLast links loc names <;> trivial

/-- The end of a walk where a file can be written: one that is there, or a free place. -/
def Walked.Admits (place : Location) : Walked → Prop
  | .found loc (.file ..) => loc = place
  | .free parent name closed => parent ++ [name] = place ∧ closed = false
  | _ => False

theorem Walked.Admits.not_other {w : Walked} (h : w.Admits place) (ht : w.Holds t) {entry : Entry}
    (hentry : t.get? place = some entry) : ∃ body mode, entry = .file body mode := by
  unfold Admits at h
  split at h
  next =>
    subst h
    exact ⟨_, _, Option.some.inj (hentry.symm.trans ht)⟩
  next =>
    obtain ⟨rfl, -⟩ := h
    cases hentry.symm.trans ht
  next => exact h.elim

/-- A walk that ends where a file can be written comes to the file once it is written. -/
theorem walk_set {body : Body} {mode : Nat} (h : (t.walk true links loc names).Admits place) :
    (t.set place (.file body mode)).walk true links loc names = .found place (.file body mode) := by
  have hplace {entry : Entry} (he : t.get? place = some entry) : ∃ b m, entry = .file b m :=
    h.not_other (walk_holds t true links loc names) he
  have hroot : place ≠ [] := by
    rintro rfl
    obtain ⟨b, m, hb⟩ := hplace (get?_root t)
    cases hb
  have hget (loc : Location) : (t.set place (.file body mode)).get? loc =
      if loc = place then some (.file body mode) else t.get? loc := get?_set t hroot _ loc
  -- directories and links on the way are as they were
  have hstill {loc : Location} {entry : Entry} (he : t.get? loc = some entry)
      (hn : ∀ b m, entry ≠ .file b m) : (t.set place (.file body mode)).get? loc = some entry := by
    have hne : loc ≠ place := by
      rintro rfl
      obtain ⟨b, m, hb⟩ := hplace he
      exact hn b m hb
    rw [hget, if_neg hne, he]
  have hdir {loc : Location} {here : Entry} (he : t.get? loc = some here)
      (hd : ¬ here ≠ .directory) : (t.set place (.file body mode)).get? loc = some .directory :=
    hstill (Decidable.not_not.1 hd ▸ he) nofun
  have hplain {name : String} (hs : ¬ (name = "" ∨ name = ".")) (hup : ¬ name = "..") :
      IsPlain name := ⟨fun he => hs (.inl he), fun he => hs (.inr he), hup⟩
  clear hplace hroot
  fun_induction walk t true links loc names with
  | case2 links loc here hhere =>
    cases here with
    | file b m =>
      cases h
      exact walk_nil (by rw [hget, if_pos rfl])
    | directory => exact h.elim
    | link target => exact h.elim
  | case4 links loc here hhere name rest hd hs ih =>
    rw [walk_stay (hdir hhere hd) hs]
    exact ih h
  | case5 links loc here hhere rest hd hs ih =>
    rw [walk_up (hdir hhere hd)]
    exact ih h
  | case7 links loc here hhere name rest hd hs hup hl hfree hrest =>
    obtain ⟨rfl, hopen⟩ := h
    have hnil : rest = [] := by simpa using hopen
    subst hnil
    rw [walk_plain (hdir hhere hd) (hplain hs hup) (by omega), hget, if_pos rfl]
    exact walk_nil (by rw [hget, if_pos rfl])
  | case9 links loc here hhere name rest hd hs hup hl target hlink hlast => simp at hlast
  | case11 loc here hhere name rest hd hs hup hl target hlink hlast links origin ih =>
    rw [walk_plain (hdir hhere hd) (hplain hs hup) (by omega), hstill hlink nofun]
    simp only [Bool.not_true, Bool.and_false, Bool.false_eq_true, if_false]
    exact ih h
  | case12 links loc here hhere name rest hd hs hup hl there hnot hthere ih =>
    rw [walk_plain (hdir hhere hd) (hplain hs hup) (by omega), hget]
    by_cases hlast : loc ++ [name] = place
    · rw [if_pos hlast]
      exact ih h
    · rw [if_neg hlast, hthere]
      cases there with
      | link target => exact (hnot target rfl).elim
      | directory => exact ih h
      | file b m => exact ih h
  | _ => exact h.elim

theorem follow_set {cwd : Location} {path : String} {body : Body} {mode : Nat}
    (h : (t.follow true cwd path).Admits place) :
    (t.set place (.file body mode)).follow true cwd path = .found place (.file body mode) := by
  unfold follow at h ⊢
  split
  next hnul =>
    rw [if_pos hnul] at h
    exact h.elim
  next hnul =>
    rw [if_neg hnul] at h
    split
    next hempty =>
      rw [if_pos hempty] at h
      exact h.elim
    next hempty =>
      rw [if_neg hempty] at h
      exact walk_set h

/-- The path does not lead to a device, which keeps nothing of what is written to it. -/
def Keeps (t : Tree) (cwd : Location) (path : String) : Prop :=
  ∀ body, t.bodyOf cwd path = .ok body → body ≠ .zeros ∧ body ≠ .sink

/-- A file that was written is there with what was written. -/
theorem exists_of_write {t' : Tree} {cwd : Location} {path : String} {data : List UInt8}
    (hk : t.Keeps cwd path) (h : t.write cwd path data = .ok t') :
    ∃ place mode, (t.follow true cwd path).Admits place ∧
      t' = t.set place (.file (.bytes data) mode) := by
  unfold write update at h
  split at h
  next loc old mode hfollow =>
    cases h
    exact ⟨loc, mode, by rw [hfollow, Walked.Admits], rfl⟩
  next loc tool mode hfollow =>
    cases h
    exact ⟨loc, mode, by rw [hfollow, Walked.Admits], rfl⟩
  next loc body mode hbytes htool hfollow =>
    obtain ⟨hzeros, hsink⟩ := hk body (by rw [bodyOf, stat, hfollow])
    cases body with
    | bytes old => exact (hbytes old rfl).elim
    | tool name => exact (htool name rfl).elim
    | zeros => exact absurd rfl hzeros
    | sink => exact absurd rfl hsink
  next => cases h
  next => cases h
  next => cases h
  next parent name hfollow =>
    cases h
    exact ⟨parent ++ [name], newFileMode, by rw [hfollow]; exact ⟨rfl, rfl⟩, rfl⟩
  next => cases h

theorem keeps_set {cwd : Location} {path : String} {data : List UInt8} {mode : Nat}
    (h : (t.follow true cwd path).Admits place) :
    (t.set place (.file (.bytes data) mode)).Keeps cwd path := by
  intro body hbody
  rw [bodyOf, stat, follow_set h] at hbody
  cases hbody
  exact ⟨nofun, nofun⟩

/-- What is written to a device is gone. -/
theorem write_device {cwd : Location} {path : String} {body : Body}
    (h : t.bodyOf cwd path = .ok body) (hd : body = .zeros ∨ body = .sink) (data : List UInt8) :
    t.write cwd path data = .ok t := by
  unfold bodyOf stat at h
  unfold write update
  split at h
  next loc old mode heq =>
    cases h
    split at heq
    next hfollow =>
      cases heq
      rw [hfollow]
      rcases hd with rfl | rfl <;> rfl
    all_goals cases heq
  all_goals cases h

/-- Whether a path leads to a device is the same after writing to it. -/
theorem keeps_of_write {t' : Tree} {cwd : Location} {path : String} {data : List UInt8}
    (h : t.write cwd path data = .ok t') (hk : t'.Keeps cwd path) : t.Keeps cwd path := by
  intro body hbody
  by_contra hdevice
  have hd : body = .zeros ∨ body = .sink := by
    by_contra hnot
    exact hdevice (not_or.1 hnot)
  rw [write_device hbody hd] at h
  cases h
  exact hdevice (hk body hbody)

theorem read_write {t' : Tree} {cwd : Location} {path : String} {data : List UInt8}
    (hk : t.Keeps cwd path) (h : t.write cwd path data = .ok t') : t'.read cwd path = .ok data := by
  obtain ⟨place, mode, hplace, rfl⟩ := exists_of_write hk h
  rw [read, bodyOf, stat, follow_set hplace]
  rfl

theorem readText_write {t' : Tree} {cwd : Location} {path : String} {text : String}
    (hk : t.Keeps cwd path) (h : t.write cwd path (Text.encode text) = .ok t') :
    t'.readText cwd path = .ok text := by
  rw [readText, read_write hk h]
  simp only [Text.decode?_encode]

end Tree

/-! ### Hosts -/

variable {h h' : Host} {path : Path}

theorem withTree_ok {t : Tree} : h.withTree (.ok t) = .ok { h with tree := t } := rfl

theorem withTree_error {fault : Fault Tree} :
    h.withTree (.error fault) = .error ⟨fault.cause, { h with tree := fault.left }⟩ := rfl

theorem write_ok {data : List UInt8} {t : Tree} (hw : h.tree.write h.cwd path.text data = .ok t) :
    h.write path data = .ok { h with tree := t } := by
  rw [write, hw]
  rfl

theorem of_write_ok {data : List UInt8} (hw : h.write path data = .ok h') :
    ∃ t, h.tree.write h.cwd path.text data = .ok t ∧ h' = { h with tree := t } := by
  unfold write at hw
  cases htree : h.tree.write h.cwd path.text data with
  | error cause =>
    rw [htree] at hw
    cases hw
  | ok t =>
    rw [htree] at hw
    exact ⟨t, rfl, (Except.ok.inj hw).symm⟩

/-- What cannot be written leaves no trace. -/
theorem left_of_write {data : List UInt8} {fault : Fault Host}
    (hw : h.write path data = .error fault) : fault.left = h := by
  unfold write at hw
  cases htree : h.tree.write h.cwd path.text data with
  | error cause =>
    rw [htree] at hw
    rw [← Except.error.inj hw]
  | ok t =>
    rw [htree] at hw
    cases hw

/-- A text that was written to a file is read back from it. -/
theorem readText_write {text : String} (hk : h.tree.Keeps h.cwd path.text)
    (hw : h.write path (Text.encode text) = .ok h') : h'.readText path = .ok text := by
  obtain ⟨t, htree, rfl⟩ := of_write_ok hw
  exact Tree.readText_write hk htree

end Testbed.Host
