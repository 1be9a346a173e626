import Waloy.Spec.Retention

/-!
# The directories of a bucket

The keys of a generation begin with its id and a slash, and no id contains a slash,
so every object of a backup lies in the directory of its generation. A retention run
takes the id of a generation from the key of its manifest.
-/
namespace Waloy.Source

theorem S3Client.fullKey_prefix (s3 : S3Client) {key key' : Str} :
    s3.fullKey key <+: s3.fullKey key' ↔ key <+: key' := by
  unfold S3Client.fullKey
  split
  · rfl
  · rw [List.prefix_append_right_inj, List.cons_prefix_cons]
    simp

theorem S3Client.exists_fullKey (s3 : S3Client) {key full : Str} (h : s3.fullKey key <+: full) :
    ∃ rest, full = s3.fullKey (key ++ rest) := by
  obtain ⟨rest, rfl⟩ := h
  refine ⟨rest, ?_⟩
  unfold S3Client.fullKey
  split
  · rfl
  · simp

theorem trimEndMatchesFrom_append (pattern front : Str) (fuel : Nat) :
    trimEndMatchesFrom pattern (fuel + 1) (front ++ pattern) =
      trimEndMatchesFrom pattern fuel front := by
  rw [trimEndMatchesFrom, if_pos (List.isSuffixOf_iff_suffix.mpr (List.suffix_append _ _))]
  simp

theorem trimEndMatchesFrom_prefix (pattern : Str) (fuel : Nat) (s : Str) :
    trimEndMatchesFrom pattern fuel s = s ∨
      trimEndMatchesFrom pattern fuel s ++ pattern <+: s := by
  induction fuel generalizing s with
  | zero => exact .inl rfl
  | succ fuel ih =>
    by_cases suffixed : pattern.isSuffixOf s = true
    · right
      obtain ⟨front, rfl⟩ := List.isSuffixOf_iff_suffix.mp suffixed
      rw [trimEndMatchesFrom_append]
      obtain same | inside := ih front
      · simp only [same, List.prefix_rfl]
      · exact inside.trans (List.prefix_append _ _)
    · left
      rw [trimEndMatchesFrom, if_neg suffixed]

/-- What is left of a key, with the pattern after it, begins the key. -/
theorem trimEndMatches_prefix {pattern s : Str} (nonempty : pattern ≠ [])
    (h : pattern.isSuffixOf s = true) : trimEndMatches pattern s ++ pattern <+: s := by
  obtain ⟨front, rfl⟩ := List.isSuffixOf_iff_suffix.mp h
  have long : 0 < (front ++ pattern).length := by
    have := List.length_pos_iff.mpr nonempty
    rw [List.length_append]
    omega
  unfold trimEndMatches
  obtain ⟨fuel, hfuel⟩ := Nat.exists_eq_succ_of_ne_zero (Nat.ne_of_gt long)
  rw [hfuel, Nat.succ_eq_add_one, trimEndMatchesFrom_append]
  obtain same | inside := trimEndMatchesFrom_prefix pattern fuel front
  · simp only [same, List.prefix_rfl]
  · exact inside.trans (List.prefix_append _ _)

/-- The id in the key of a manifest. -/
theorem trimEndMatches_manifest {generation : Str} (h : '/' ∉ generation) :
    trimEndMatches manifestSuffix (generation ++ manifestSuffix) = generation := by
  have whole : ¬ manifestSuffix.isSuffixOf generation = true := fun suffixed =>
    h ((List.isSuffixOf_iff_suffix.mp suffixed).subset (by decide))
  have long : (generation ++ manifestSuffix).length = generation.length + 13 + 1 := by
    rw [List.length_append]
    rfl
  unfold trimEndMatches
  rw [long, trimEndMatchesFrom_append, trimEndMatchesFrom, if_neg whole]

/-- Of two directories above one key, one without a slash is the outer one. -/
theorem directory_outer {outer inner key : Str} (h : '/' ∉ outer) (houter : outer ++ ['/'] <+: key)
    (hinner : inner ++ ['/'] <+: key) : outer ++ ['/'] <+: inner ++ ['/'] := by
  obtain inside | above := List.prefix_or_prefix_of_prefix houter hinner
  · exact inside
  · obtain same | shorter := List.prefix_concat_iff.mp above
    · simp only [same, List.prefix_rfl]
    · exact absurd (shorter.subset (List.mem_append_right _ List.mem_cons_self)) h

end Waloy.Source

namespace Waloy.Spec
open Waloy.Effect Waloy.Source

variable {pf : Platform} (config : BackupConfig pf.build)

/-- The generation an object belongs to. -/
def ownerOf : Object → Option Str
  | .latest => none
  | .snapshot generation => some generation
  | .manifest generation => some generation
  | .segment generation _ => some generation

/-- Under the directory of a generation lie only objects of its backup. -/
def Tidy (b : Bucket) (generation : Str) : Prop :=
  '/' ∉ generation ∧ ∀ key ∈ b.keys,
    (S3Client.new config.s3).fullKey (generation ++ ['/']) <+: key →
    ∃ o, key = objectKey config o ∧ ownerOf o = some generation

section
variable {config} {b b' : Bucket} {generation : Str}

/-- The directory of an object. -/
theorem ownerOf_key {o : Object} (plain : ∀ own, ownerOf o = some own → '/' ∉ own)
    (hg : '/' ∉ generation) (inside : generation ++ ['/'] <+: o.key) :
    ownerOf o = some generation := by
  obtain ⟨rest, hrest⟩ := inside
  rw [List.append_assoc, List.singleton_append] at hrest
  have owned : ∀ own tail, '/' ∉ own → o.key = own ++ '/' :: tail → own = generation :=
    fun own tail hown hkey => (first_slash_inj hown hg (hkey.symm.trans hrest.symm)).1
  cases o with
  | latest =>
    have slash : '/' ∈ Object.latest.key := hrest ▸ List.mem_append_right _ List.mem_cons_self
    exact absurd slash (by decide)
  | snapshot own => exact congrArg some (owned own _ (plain own rfl) rfl)
  | manifest own => exact congrArg some (owned own _ (plain own rfl) rfl)
  | segment own index =>
    have under : (Object.segment own index).key = own ++ '/' :: 'w' :: 'a' :: 'l' :: '/' :: fmt08 index := by
      simp [Object.key]
    exact congrArg some (owned own _ (plain own rfl) under)

/-- The only key that ends like a manifest is the manifest. -/
theorem key_manifestSuffix {o : Object} (owner : ownerOf o = some generation)
    (suffixed : manifestSuffix <:+ o.key) : o = .manifest generation := by
  obtain ⟨front, hfront⟩ := suffixed
  cases o with
  | latest => cases owner
  | snapshot own =>
    have last := (last_slash_inj (by decide) (by decide) hfront).2
    exact absurd last (by decide)
  | manifest own => rw [Option.some.inj owner]
  | segment own index =>
    have last := (last_slash_inj (by decide) (slash_notMem_fmt08 _) hfront).2
    have digit : Char.isDigit 'm' := isDigit_of_mem_fmt08 (last ▸ List.mem_cons_self)
    exact absurd digit (by decide)

theorem tidy_of_fresh (fresh : Fresh b generation) : Tidy config b generation := by
  refine ⟨fresh.1, fun key hkey inside => absurd ?_ (fresh.2 key hkey)⟩
  obtain ⟨rest, rfl⟩ := S3Client.exists_fullKey _ inside
  unfold S3Client.fullKey
  split
  · exact (List.prefix_append _ _).isInfix
  · refine ⟨(S3Client.new config.s3).keyPrefix ++ ['/'], rest, ?_⟩
    simp

theorem Tidy.store {o : Object} {data : Bytes} (tidy : Tidy config b generation)
    (plain : ∀ own, ownerOf o = some own → '/' ∉ own) :
    Tidy config (store config b o data) generation := by
  refine ⟨tidy.1, fun key hkey inside => ?_⟩
  obtain rfl | old := (AList.mem_insert b).mp (AList.mem_keys.mpr hkey)
  · exact ⟨o, rfl, ownerOf_key plain tidy.1 ((S3Client.fullKey_prefix _).mp inside)⟩
  · exact tidy.2 key (AList.mem_keys.mp old) inside

theorem Tidy.erase (tidy : Tidy config b generation) (key : Str) :
    Tidy config (b.erase key) generation := by
  refine ⟨tidy.1, fun key' hkey inside => tidy.2 key' ?_ inside⟩
  exact AList.mem_keys.mp (AList.mem_erase.mp (AList.mem_keys.mpr hkey)).2

/-- The manifest that dooms an object of a tidy generation is the one of that generation. -/
theorem Doomed.of_tidy {own key : Str} {cutoffMs : Nat} (tidy : Tidy config b generation)
    (doomed : Doomed config b own cutoffMs key)
    (inside : (S3Client.new config.s3).fullKey (generation ++ ['/']) <+: key) :
    generation ≠ own ∧ ∃ manifest, manifestAt config b generation = some manifest ∧
      manifest.createdAtMs < cutoffMs := by
  obtain ⟨listed, p, lists, other, expired, under⟩ := doomed
  obtain ⟨data, present, decoded⟩ := lists.readable
  obtain ⟨rest, rfl⟩ := S3Client.exists_fullKey _ under
  have outer : generation ++ ['/'] <+: p.1 ++ ['/'] :=
    directory_outer tidy.1 ((S3Client.fullKey_prefix _).mp inside) (List.prefix_append _ _)
  have above : generation ++ ['/'] <+: listed := by
    have trimmed := trimEndMatches_prefix (by decide) lists.isManifest
    rw [← lists.id] at trimmed
    have slash : p.1 ++ ['/'] <+: p.1 ++ manifestSuffix :=
      (List.prefix_append_right_inj _).mpr (by decide)
    exact (outer.trans slash).trans trimmed
  have exists_key : (S3Client.new config.s3).fullKey listed ∈ b.keys :=
    AList.mem_keys.mp (AList.lookup_isSome.mp (by rw [present]; rfl))
  obtain ⟨o, hkey, owner⟩ := tidy.2 _ exists_key ((S3Client.fullKey_prefix _).mpr above)
  obtain rfl : listed = o.key := S3Client.fullKey_injective _ hkey
  obtain rfl := key_manifestSuffix owner (List.isSuffixOf_iff_suffix.mp lists.isManifest)
  have id : p.1 = generation := lists.id.trans (trimEndMatches_manifest tidy.1)
  refine ⟨id ▸ other, p.2, ?_, expired⟩
  have found : object config b (.manifest generation) = some data := present
  rw [manifestAt, found, Option.bind_some, decoded]
  rfl

/-- An object of a tidy generation that does not expire is never doomed. -/
theorem Doomed.outside {own key : Str} {cutoffMs : Nat} (tidy : Tidy config b generation)
    (safe : generation ≠ own → ∀ manifest, manifestAt config b generation = some manifest →
      cutoffMs ≤ manifest.createdAtMs)
    (doomed : Doomed config b own cutoffMs key) :
    ¬ (S3Client.new config.s3).fullKey (generation ++ ['/']) <+: key := by
  intro inside
  obtain ⟨other, manifest, found, expired⟩ := doomed.of_tidy tidy inside
  have := safe other manifest found
  omega

theorem objectKey_inside {o : Object} (owner : ownerOf o = some generation) :
    (S3Client.new config.s3).fullKey (generation ++ ['/']) <+: objectKey config o := by
  refine (S3Client.fullKey_prefix _).mpr ?_
  cases o with
  | latest => cases owner
  | snapshot => cases owner; exact ⟨_, List.append_assoc _ _ _⟩
  | manifest => cases owner; exact ⟨_, List.append_assoc _ _ _⟩
  | segment own index =>
    cases owner
    exact ⟨'w' :: 'a' :: 'l' :: '/' :: fmt08 index, by simp [Object.key]⟩

theorem not_doomed_latest {own : Str} {cutoffMs : Nat} :
    ¬ Doomed config b own cutoffMs (objectKey config .latest) := by
  rintro ⟨_, p, -, -, -, under⟩
  have inside : p.1 ++ ['/'] <+: Object.latest.key := (S3Client.fullKey_prefix _).mp under
  exact absurd (inside.subset (List.mem_append_right _ List.mem_cons_self)) (by decide)

theorem Expunged.latest {own : Str} {cutoffMs : Nat} (h : Expunged config b own cutoffMs b') :
    object config b' .latest = object config b .latest := by
  obtain same | ⟨-, doomed⟩ := h (objectKey config .latest)
  · exact same
  · exact absurd doomed not_doomed_latest

theorem Expunged.tidy {own : Str} {cutoffMs : Nat} (h : Expunged config b own cutoffMs b')
    (tidy : Tidy config b generation) : Tidy config b' generation := by
  refine ⟨tidy.1, fun key hkey inside => tidy.2 key ?_ inside⟩
  have present : (b'.lookup key).isSome := AList.lookup_isSome.mpr (AList.mem_keys.mpr hkey)
  obtain same | ⟨gone, -⟩ := h key
  · rw [same] at present
    exact AList.mem_keys.mp (AList.lookup_isSome.mp present)
  · rw [gone] at present
    cases present

/-- The objects of a tidy generation that does not expire are all left. -/
theorem Expunged.left {own key : Str} {cutoffMs : Nat} (h : Expunged config b own cutoffMs b')
    (tidy : Tidy config b generation)
    (safe : generation ≠ own → ∀ manifest, manifestAt config b generation = some manifest →
      cutoffMs ≤ manifest.createdAtMs)
    (inside : (S3Client.new config.s3).fullKey (generation ++ ['/']) <+: key) :
    b'.lookup key = b.lookup key := by
  obtain same | ⟨-, doomed⟩ := h key
  · exact same
  · exact absurd inside (doomed.outside tidy safe)

end

end Waloy.Spec
