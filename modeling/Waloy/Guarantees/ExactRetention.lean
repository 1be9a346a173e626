import Mathlib.Data.Set.Card
import Waloy.Spec.Machine
import Waloy.Spec.Stock
import Waloy.Spec.Sweep

/-!
# Retention deletes exactly the expired generations

Over a bucket in which only manifests end like one, a retention run in which no call fails
deletes what lies under the expired generations and nothing else. It counts them in a `u32`,
so the number it returns is right for fewer than 2^32 of them.
-/
namespace Waloy.Spec
open Waloy.Effect Waloy.Source Waloy.Source.BackupManager

variable {pf : Platform} (config : BackupConfig pf.build)

/-- A generation other than the current one whose manifest was created before the cutoff. -/
def Expires (b : Bucket) (current : Str) (cutoffMs : Nat) (generation : Str) : Prop :=
  '/' ∉ generation ∧ generation ≠ current ∧ ∃ manifest,
    manifestAt config b generation = some manifest ∧ manifest.createdAtMs < cutoffMs

/-- Only the manifests of generations end like one, and no id has a slash. -/
def OnlyManifests (b : Bucket) : Prop :=
  ∀ key, (S3Client.new config.s3).fullKey key ∈ b.keys → manifestSuffix <:+ key →
    ∃ generation, '/' ∉ generation ∧ key = (Object.manifest generation).key

/-- What lies under an expired generation. -/
def UnderExpired (b : Bucket) (current : Str) (cutoffMs : Nat) (key : Str) : Prop :=
  ∃ generation, Expires config b current cutoffMs generation ∧ directoryOf config generation <+: key

/-- The run deletes the generations that are older than the retention, leaves all other objects
and counts what it deleted. -/
structure DeletesExactly (paging : Paging) (time : Except String Nat) (m : BackupManager pf.build)
    (b : Bucket) (duration : Nat) : Prop where
  returns : ∃ deleted after, Op.interp (answerAt paging time) (enforceRetention pf) m ⟨b, []⟩ =
    some ((.ok deleted, m), after) ∧
    (∀ key, UnderExpired config b m.generation (reading time - duration) key →
      after.bucket.lookup key = none) ∧
    (∀ key, ¬ UnderExpired config b m.generation (reading time - duration) key →
      after.bucket.lookup key = b.lookup key) ∧
    deleted =
      {generation | Expires config b m.generation (reading time - duration) generation}.ncard

section
variable {config} {b : Bucket} {current : Str} {cutoffMs : Nat}

theorem mem_foundManifests {p : Str × GenerationManifest} : p ∈ foundManifests config b ↔
    ∃ key ∈ manifestKeys config b, readAt config b key = some p.2 ∧
      trimEndMatches manifestSuffix key = p.1 := by
  rw [foundManifests, List.mem_filterMap]
  refine exists_congr fun key => and_congr_right fun _ => ?_
  rw [Option.map_eq_some_iff]
  constructor
  · rintro ⟨manifest, read, rfl⟩
    exact ⟨read, rfl⟩
  · rintro ⟨read, id⟩
    exact ⟨p.2, read, Prod.ext id rfl⟩

theorem mem_expiredIds (only : OnlyManifests config b) {generation : Str} :
    generation ∈ expiredIds config b current cutoffMs ↔
      Expires config b current cutoffMs generation := by
  rw [expiredIds, List.mem_map]
  constructor
  · rintro ⟨p, found, rfl⟩
    obtain ⟨found, expired⟩ := List.mem_filter.mp found
    obtain ⟨other, before⟩ := of_decide_eq_true expired
    obtain ⟨key, listed, read, id⟩ := mem_foundManifests.mp found
    obtain ⟨present, suffixed⟩ := mem_manifestKeys.mp listed
    obtain ⟨own, plain, rfl⟩ := only key present suffixed
    have same : own = p.1 := (trimEndMatches_manifest plain).symm.trans id
    exact ⟨same ▸ plain, other, p.2, same ▸ read, before⟩
  · rintro ⟨plain, other, manifest, read, before⟩
    have id : trimEndMatches manifestSuffix (Object.manifest generation).key = generation :=
      trimEndMatches_manifest plain
    have listed : (Object.manifest generation).key ∈ manifestKeys config b := by
      refine mem_manifestKeys.mpr ⟨?_, List.suffix_append _ _⟩
      obtain ⟨raw, present, -⟩ := Option.bind_eq_some_iff.mp read
      exact AList.mem_keys.mp (AList.lookup_isSome.mp (Option.isSome_of_eq_some present))
    have found : (generation, manifest) ∈ foundManifests config b :=
      mem_foundManifests.mpr ⟨_, listed, read, id⟩
    exact ⟨_, List.mem_filter.mpr ⟨found, by simp [other, before]⟩, rfl⟩

/-- What is kept of each key stays in the order of the keys. -/
theorem map_fst_sublist {α β γ : Type} (f : α → Option γ) (id : α → β) (keys : List α) :
    ((keys.filterMap fun key => (f key).map fun value => (id key, value)).map Prod.fst).Sublist
      (keys.map id) := by
  induction keys with
  | nil => exact List.Sublist.refl _
  | cons key keys ih =>
    rw [List.filterMap_cons, List.map_cons]
    cases f key with
    | none => exact ih.cons _
    | some value => exact ih.cons_cons _

theorem nodup_expiredIds (only : OnlyManifests config b) :
    (expiredIds config b current cutoffMs).Nodup := by
  have ids : ((manifestKeys config b).map (trimEndMatches manifestSuffix)).Nodup := by
    refine List.Nodup.map_on ?_ (nodup_listing.filter _)
    intro key hkey key' hkey' same
    obtain ⟨present, suffixed⟩ := mem_manifestKeys.mp hkey
    obtain ⟨present', suffixed'⟩ := mem_manifestKeys.mp hkey'
    obtain ⟨own, plain, rfl⟩ := only key present suffixed
    obtain ⟨own', plain', rfl⟩ := only key' present' suffixed'
    rw [Object.key, Object.key, trimEndMatches_manifest plain, trimEndMatches_manifest plain'] at same
    rw [same]
  have kept : (expiredIds config b current cutoffMs).Sublist
      ((foundManifests config b).map Prod.fst) := List.filter_sublist.map Prod.fst
  exact (ids.sublist (map_fst_sublist _ _ _)).sublist kept

theorem length_expiredIds (only : OnlyManifests config b) :
    (expiredIds config b current cutoffMs).length =
      {generation | Expires config b current cutoffMs generation}.ncard := by
  have same : {generation | Expires config b current cutoffMs generation} =
      ((expiredIds config b current cutoffMs).toFinset : Set Str) := by
    ext generation
    rw [Set.mem_ofPred_eq, List.coe_toFinset, Set.mem_ofPred_eq, mem_expiredIds only]
  rw [same, Set.ncard_coe_finset, List.toFinset_card_of_nodup (nodup_expiredIds only)]

variable {paging : Paging} {time : Except String Nat} {m : BackupManager pf.build} {duration : Nat}

theorem underExpired_iff (only : OnlyManifests config b) {key : Str} :
    UnderExpired config b current cutoffMs key ↔
      ∃ generation ∈ expiredIds config b current cutoffMs, directoryOf config generation <+: key := by
  simp only [UnderExpired, mem_expiredIds only]

theorem few_of_deletesExactly (hm : Uses config m) (short : duration < 2 ^ 64)
    (retention : config.retentionDuration = some duration) (only : OnlyManifests config b)
    (exact_ : DeletesExactly config paging time m b duration) :
    {generation | Expires config b m.generation (reading time - duration) generation}.ncard <
      2 ^ 32 := by
  obtain ⟨deleted, after, run, -, -, counted⟩ := exact_.returns
  rw [interp_enforceRetention paging time hm retention, Nat.mod_eq_of_lt short] at run
  dsimp only at run
  rw [length_expiredIds only, countFrom_eq _ (by decide), Nat.zero_add] at run
  by_contra many
  rw [if_neg many] at run
  split at run
  · cases run
  · have same : {generation | Expires config b m.generation (reading time - duration)
        generation}.ncard % 2 ^ 32 = deleted := by
      simp only [Option.map_some, Option.some.injEq, Prod.mk.injEq, Except.ok.injEq] at run
      exact run.1.1
    have small := Nat.mod_lt {generation | Expires config b m.generation (reading time - duration)
      generation}.ncard (by decide : 0 < 2 ^ 32)
    omega

/-- The run is exact while fewer than 2^32 generations expire. -/
theorem deletesExactly_iff (hm : Uses config m) (short : duration < 2 ^ 64)
    (retention : config.retentionDuration = some duration) (only : OnlyManifests config b) :
    DeletesExactly config paging time m b duration ↔
      {generation | Expires config b m.generation (reading time - duration) generation}.ncard <
        2 ^ 32 := by
  constructor
  · exact few_of_deletesExactly hm short retention only
  · intro few
    have run : Op.interp (answerAt paging time) (enforceRetention pf) m ⟨b, []⟩ = _ :=
      interp_enforceRetention paging time hm retention
    rw [Nat.mod_eq_of_lt short] at run
    dsimp only at run
    rw [length_expiredIds only, countFrom_eq _ (by decide), Nat.zero_add, if_pos few,
      Option.map_some] at run
    refine ⟨_, _, run, fun key under => ?_, fun key outside => ?_, rfl⟩
    · dsimp only
      rw [lookup_purged, if_pos ((underExpired_iff only).mp under)]
    · dsimp only
      rw [lookup_purged, if_neg fun under => outside ((underExpired_iff only).mpr under)]

end

/-- A retention of one second. -/
def hastyConfig : BackupConfig plain.build := { plainConfig with retentionDuration := some 1000 }

def hastyManager : BackupManager plain.build := { plainManager [] 0 0 with config := hastyConfig }

theorem uses_hasty : Uses hastyConfig hastyManager := ⟨rfl, rfl⟩

/-- The manifests of `n` generations that were started at the epoch. -/
def crowd (n : Nat) : Bucket :=
  stocked hastyConfig (fun index => .manifest (fmt08 index))
    (fun index => asBytes (manifestText (GenerationManifest.new (fmt08 index) 0))) n

theorem manifestAt_crowd {n index : Nat} (bounded : index < n) :
    manifestAt hastyConfig (crowd n) (fmt08 index) =
      some (GenerationManifest.new (fmt08 index) 0) := by
  have distinct : Function.Injective fun index => Object.manifest (fmt08 index) :=
    fun _ _ same => fmt08_injective (Object.manifest.inj same)
  rw [manifestAt, crowd, object_stocked distinct bounded, Option.bind_some]
  have parses : Parses plain.libs := fun _ _ => jsonFromSlice_jsonToVec
  have parsed := parses (GenerationManifest.new (fmt08 index) 0) _ rfl
  have decoded : decodeManifest plain
      (asBytes (manifestText (GenerationManifest.new (fmt08 index) 0))) hastyConfig =
        .ok (GenerationManifest.new (fmt08 index) 0) := decodeManifest_of_decode rfl parsed
  rw [decoded]
  rfl

theorem onlyManifests_crowd (n : Nat) : OnlyManifests hastyConfig (crowd n) := by
  intro key present _
  obtain ⟨index, -, same⟩ := mem_stocked.mp (AList.mem_keys.mpr present)
  exact ⟨fmt08 index, slash_notMem_fmt08 index, S3Client.fullKey_injective _ same⟩

/-- All of them expire. -/
theorem ncard_crowd (n : Nat) :
    {generation | Expires hastyConfig (crowd n) (uuid 0) 1000 generation}.ncard = n := by
  have same : {generation | Expires hastyConfig (crowd n) (uuid 0) 1000 generation} =
      fmt08 '' (Finset.range n : Set Nat) := by
    ext generation
    rw [Set.mem_ofPred_eq, Set.mem_image]
    constructor
    · rintro ⟨-, -, manifest, read, -⟩
      obtain ⟨raw, present, -⟩ := Option.bind_eq_some_iff.mp read
      have member : objectKey hastyConfig (.manifest generation) ∈ crowd n :=
        AList.lookup_isSome.mp (Option.isSome_of_eq_some present)
      obtain ⟨index, bounded, equal⟩ := mem_stocked.mp member
      have named := Object.manifest.inj ((objectKey_inj hastyConfig).mp equal)
      exact ⟨index, by simpa using bounded, named.symm⟩
    · rintro ⟨index, bounded, rfl⟩
      have other : fmt08 index ≠ uuid 0 := by
        intro own
        have dash : '-' ∈ fmt08 index := own ▸ by decide
        exact absurd (isDigit_of_mem_fmt08 dash) (by decide)
      have read := manifestAt_crowd (List.mem_range.mp (by simpa using bounded))
      have before : (GenerationManifest.new (fmt08 index) 0).createdAtMs < 1000 :=
        (by decide : 0 < 1000)
      exact ⟨slash_notMem_fmt08 index, other, _, read, before⟩
  rw [same, Set.ncard_image_of_injective _ fun _ _ => fmt08_injective, Set.ncard_coe_finset,
    Finset.card_range]

theorem deletesExactly_iff_two :
    DeletesExactly hastyConfig onePage (.ok 2000) hastyManager (crowd 2) 1000 := by
  have count : {generation | Expires hastyConfig (crowd 2) hastyManager.generation
      (reading (.ok 2000) - 1000) generation}.ncard = 2 := ncard_crowd 2
  have few : {generation | Expires hastyConfig (crowd 2) hastyManager.generation
      (reading (.ok 2000) - 1000) generation}.ncard < 2 ^ 32 := by
    rw [count]
    decide
  have only := onlyManifests_crowd 2
  exact (deletesExactly_iff uses_hasty (by decide : 1000 < 2 ^ 64) rfl only).mpr few

/-- One generation more than a `u32` can count. -/
theorem not_deletesExactly : ¬ ∀ b, OnlyManifests hastyConfig b →
    DeletesExactly hastyConfig onePage (.ok 2000) hastyManager b 1000 := by
  intro exact_
  have count : {generation | Expires hastyConfig (crowd (2 ^ 32)) hastyManager.generation
      (reading (.ok 2000) - 1000) generation}.ncard = 2 ^ 32 := ncard_crowd (2 ^ 32)
  have few := few_of_deletesExactly uses_hasty (by decide : 1000 < 2 ^ 64) rfl (onlyManifests_crowd (2 ^ 32))
    (exact_ _ (onlyManifests_crowd (2 ^ 32)))
  rw [count] at few
  exact absurd few (Nat.lt_irrefl _)

end Waloy.Spec
