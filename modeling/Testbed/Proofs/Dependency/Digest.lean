import Testbed.Proofs.Dependency.Display
import Testbed.Proofs.Dependency.Resolution
import Testbed.Proofs.Text.Pieces
import Testbed.Proofs.Text.Utf8

/-! What the digest of a list of sources tells. The displays are written one behind the other, each
closed by a zero byte, so a zero character inside a display cuts it in two. Two lists are given the
same bytes just when they are cut into the same texts, and lists without zero characters just when
they show the same. Lists with the same digest have the same bytes, or their bytes collide. -/
namespace Testbed

/-! ### Digits of a digest -/

namespace Sha256

/-- Two messages that the digest does not tell apart. -/
def Collide (message message' : List UInt8) : Prop :=
  message ≠ message' ∧ digest message = digest message'

theorem digit_inj {m n : Nat} (hm : m < 16) (hn : n < 16) (h : Text.digit m = Text.digit n) :
    m = n := by
  have hall : ∀ m < 16, ∀ n < 16, Text.digit m = Text.digit n → m = n := by decide
  exact hall m hm n hn h

theorem eq_of_digits {width m n : Nat} (hm : m < 16 ^ width) (hn : n < 16 ^ width)
    (h : ∀ k < width, m / 16 ^ k % 16 = n / 16 ^ k % 16) : m = n := by
  induction width generalizing m n with
  | zero => omega
  | succ width ih =>
    rw [Nat.pow_succ'] at hm hn
    have hhigh : m / 16 = n / 16 := by
      apply ih (Nat.div_lt_of_lt_mul hm) (Nat.div_lt_of_lt_mul hn)
      intro k hk
      rw [Nat.div_div_eq_div_mul, Nat.div_div_eq_div_mul, ← Nat.pow_succ']
      exact h (k + 1) (Nat.succ_lt_succ hk)
    have hlow : m % 16 = n % 16 := by simpa using h 0 (Nat.succ_pos width)
    omega

theorem hexWord_inj {x y : UInt32} (h : hexWord x = hexWord y) : x = y := by
  have hbound (z : UInt32) : z.toNat < 16 ^ 8 := z.toNat_lt
  apply UInt32.toNat_inj.1
  apply eq_of_digits (hbound x) (hbound y)
  intro k hk
  have hshift : ∀ k < 8, 4 * k ∈ [28, 24, 20, 16, 12, 8, 4, 0] := by decide
  have hd := List.map_inj_left.1 h (4 * k) (hshift k hk)
  have hdigit := digit_inj (Nat.mod_lt _ (by decide)) (Nat.mod_lt _ (by decide)) hd
  rwa [Nat.shiftRight_eq_div_pow, Nat.shiftRight_eq_div_pow, Nat.pow_mul] at hdigit

theorem State.hex_inj {s t : State} : s.hex = t.hex ↔ s = t := by
  refine ⟨fun h => ?_, fun h => h ▸ rfl⟩
  obtain ⟨a, b, c, d, e, f, g, k⟩ := s
  obtain ⟨a', b', c', d', e', f', g', k'⟩ := t
  simp only [hex, String.ofList_inj, List.flatMap_cons, List.flatMap_nil] at h
  -- words of one length are the same one after the other
  have hnext {x y : UInt32} {r r' : List Char} (h : hexWord x ++ r = hexWord y ++ r') :
      x = y ∧ r = r' := by
    obtain ⟨hw, hr⟩ := List.append_inj h rfl
    exact ⟨hexWord_inj hw, hr⟩
  obtain ⟨rfl, h₁⟩ := hnext h
  obtain ⟨rfl, h₂⟩ := hnext h₁
  obtain ⟨rfl, h₃⟩ := hnext h₂
  obtain ⟨rfl, h₄⟩ := hnext h₃
  obtain ⟨rfl, h₅⟩ := hnext h₄
  obtain ⟨rfl, h₆⟩ := hnext h₅
  obtain ⟨rfl, h₇⟩ := hnext h₆
  obtain ⟨rfl, -⟩ := hnext h₇
  rfl

end Sha256

/-! ### Sources as they are written -/

namespace Dependency

/-- The character that closes each display. -/
def closing : Char := Char.ofNat 0

/-- The text that a list of sources is written as. -/
def written (sources : List Dependency) : List Char :=
  sources.flatMap fun source => source.display.toList ++ [closing]

/-- The texts that stand between the closing characters. -/
def segments (sources : List Dependency) : List (List Char) :=
  sources.flatMap fun source => Text.pieces (· == closing) source.display.toList

theorem digestInput_eq (sources : List Dependency) :
    digestInput sources = (written sources).flatMap String.utf8EncodeChar := by
  have hclose : String.utf8EncodeChar closing = [0] := by decide
  rw [digestInput, written, List.flatMap_assoc]
  refine congrArg (List.flatMap · sources) (funext fun source => ?_)
  rw [List.flatMap_append, List.flatMap_singleton, hclose, ← Text.encode_eq]
  rfl

theorem pieces_written (sources : List Dependency) :
    Text.pieces (· == closing) (written sources) = segments sources ++ [[]] := by
  induction sources with
  | nil => rfl
  | cons source sources ih =>
    have hcons : written (source :: sources) = source.display.toList ++ closing :: written sources := by
      simp [written]
    rw [hcons, @Text.pieces_append_cut (· == closing) _ (beq_self_eq_true closing), ih]
    simp [segments]

/-- Two lists are given the same bytes just when they are cut into the same texts. -/
theorem digestInput_inj {sources sources' : List Dependency} :
    digestInput sources = digestInput sources' ↔ segments sources = segments sources' := by
  rw [digestInput_eq, digestInput_eq, Text.encodeChars_inj, ← Text.pieces_inj, pieces_written,
    pieces_written, List.append_left_inj]

theorem segments_of_uncut {sources : List Dependency}
    (h : ∀ source ∈ sources, closing ∉ source.display.toList) :
    segments sources = sources.map fun source => source.display.toList := by
  induction sources with
  | nil => rfl
  | cons source sources ih =>
    have hsource : closing ∉ source.display.toList := h source List.mem_cons_self
    rw [segments, List.flatMap_cons, ← segments, ih fun s hs => h s (List.mem_cons_of_mem _ hs),
      Text.pieces_of_not_mem hsource]
    rfl

/-! ### Sources that were read -/

/-- Every character of a source that is shown was declared, or marks a manifest. -/
theorem mem_display_of_parse? {raw : String} {source : Dependency} (h : parse? raw = some source)
    {c : Char} (hc : c ∈ source.display.toList) : c ∈ raw.toList ∨ c ∈ "-r ".toList := by
  have htrims := Text.trims_trim raw.toList
  have hdeclares := parse?_eq_some_iff.1 h
  generalize Text.trim raw.toList = t at htrims hdeclares
  have hmanifest {path : List Char} (hpath : path ⊆ t)
      (hc : c ∈ (manifest ⟨String.ofList path⟩).display.toList) :
      c ∈ raw.toList ∨ c ∈ "-r ".toList := by
    rw [toList_display_manifest, List.mem_append] at hc
    exact hc.symm.imp_left fun hc => htrims.subset (hpath hc)
  cases hdeclares with
  | long _ _ hpath _ =>
    exact hmanifest (fun d hd => by simp [hpath.subset hd]) hc
  | short hpath _ =>
    exact hmanifest (fun d hd => by simp [hpath.subset hd]) hc
  | package q =>
    rw [display, String.toList_ofList] at hc
    exact .inl (htrims.subset hc)

/-- Sources that were declared without closing characters are their own segments. -/
theorem segments_resolve {raws : List String} {declared : List Dependency}
    (h : raws.map parse? = declared.map some) (hraws : ∀ raw ∈ raws, closing ∉ raw.toList) :
    segments (resolve declared) = (resolve declared).map fun source => source.display.toList := by
  refine segments_of_uncut fun source hs hclosing => ?_
  have hsome : some source ∈ raws.map parse? :=
    h ▸ List.mem_map_of_mem (mem_of_mem_resolve hs)
  obtain ⟨raw, hraw, hparse⟩ := List.mem_map.1 hsome
  obtain hmem | hmem := mem_display_of_parse? hparse hclosing
  · exact hraws raw hraw hmem
  · exact absurd hmem (by decide)

/-- What a digest tells of the lists of sources it was taken of. The same bytes are fed to the hash
just when both lists are cut into the same texts at zero characters, which for declarations without
such a character says that they show the same sources in the same order. The digests are the same
just when the bytes are or when two messages collide. -/
theorem digest_eq_iff {raws raws' : List String} {declared declared' : List Dependency}
    (h : raws.map parse? = declared.map some) (h' : raws'.map parse? = declared'.map some) :
    (digestInput (resolve declared) = digestInput (resolve declared') ↔
        segments (resolve declared) = segments (resolve declared')) ∧
      ((∀ raw ∈ raws ++ raws', closing ∉ raw.toList) →
        (digestInput (resolve declared) = digestInput (resolve declared') ↔
          (resolve declared).map display = (resolve declared').map display)) ∧
      (digest (resolve declared) = digest (resolve declared') ↔
        digestInput (resolve declared) = digestInput (resolve declared') ∨
          Sha256.Collide (digestInput (resolve declared)) (digestInput (resolve declared'))) := by
  refine ⟨digestInput_inj, fun hraws => ?_, ?_⟩
  · have hsegments := segments_resolve h fun raw hraw => hraws raw (List.mem_append_left _ hraw)
    have hsegments' := segments_resolve h' fun raw hraw => hraws raw (List.mem_append_right _ hraw)
    rw [digestInput_inj, hsegments, hsegments',
      ← List.map_inj_right (f := String.toList) fun _ _ => String.toList_inj.1,
      List.map_map, List.map_map]
    rfl
  · rw [digest, digest, Sha256.State.hex_inj, Sha256.Collide]
    refine ⟨fun heq => ?_, ?_⟩
    · exact (Classical.em _).imp_right fun hne => ⟨hne, heq⟩
    · rintro (heq | ⟨-, heq⟩)
      · rw [heq]
      · exact heq

/-- A zero character in one requirement makes it look like two. -/
theorem digest_eq_iff_cut :
    (["a;\x00b"].map parse? = [.package "a" "a;\x00b"].map some ∧
      ["a;", "b"].map parse? = [.package "a" "a;", .package "b" "b"].map some) ∧
    digest (resolve [.package "a" "a;\x00b"]) =
      digest (resolve [.package "a" "a;", .package "b" "b"]) ∧
    (resolve [.package "a" "a;\x00b"]).map display ≠
      (resolve [.package "a" "a;", .package "b" "b"]).map display := by
  have h : ["a;\x00b"].map parse? = [Dependency.package "a" "a;\x00b"].map some := by decide
  have h' : ["a;", "b"].map parse? =
      [Dependency.package "a" "a;", Dependency.package "b" "b"].map some := by decide
  have hinput := (digest_eq_iff h h').1.2 (by decide)
  exact ⟨⟨h, h'⟩, (digest_eq_iff h h').2.2.2 (.inl hinput), by decide⟩

end Dependency

end Testbed
