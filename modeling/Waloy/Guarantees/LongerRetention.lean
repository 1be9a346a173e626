import Waloy.Spec.Machine
import Waloy.Spec.Sweep

/-!
# A longer retention deletes no more

The milliseconds of a retention are cut to 64 bits before they are subtracted from the clock.
Of two retentions the longer one deletes nothing that the shorter one keeps, unless it is so
long that it wraps around and a generation was created between the two cutoffs.
-/
namespace Waloy.Spec
open Waloy.Effect Waloy.Source Waloy.Source.BackupManager

variable {pf : Platform} (config : BackupConfig pf.build)

/-- The manager under a retention. -/
def withRetention (m : BackupManager pf.build) (duration : Nat) : BackupManager pf.build :=
  { m with config := { m.config with retentionDuration := some duration } }

/-- The time before which generations expire. -/
def cutoffAt (time : Except String Nat) (duration : Nat) : Nat := reading time - duration % 2 ^ 64

/-- What the run of `enforce_retention` under a retention returns and leaves. -/
def retentionRun (paging : Paging) (time : Except String Nat) (m : BackupManager pf.build)
    (b : Bucket) (duration : Nat) :
    Option ((Except Error Nat × BackupManager pf.build) × Shelf) :=
  Op.interp (answerAt paging time) (enforceRetention pf) (withRetention m duration) ⟨b, []⟩

/-- The generations that a run deleted, by the listings that it asked for. -/
def deletedIn (after : Shelf) : Set Str := {id | directoryOf config id ∈ after.listed}

/-- A manifest was created before the second cutoff, and none under its id before the first. -/
def CreatedBetween (b : Bucket) (current : Str) (cutoffMs cutoffMs' : Nat) : Prop :=
  ∃ p ∈ foundManifests config b, p.1 ≠ current ∧ p.2.createdAtMs < cutoffMs' ∧
    ∀ q ∈ foundManifests config b, q.1 = p.1 → cutoffMs ≤ q.2.createdAtMs

section
variable {config} {paging paging' : Paging} {time : Except String Nat} {m : BackupManager pf.build}
  {b : Bucket} {duration duration' : Nat}

theorem directoryOf_injective : Function.Injective (directoryOf config) :=
  fun _ _ same => List.append_cancel_right (S3Client.fullKey_injective _ same)

theorem mem_expiredIds_iff {current id : Str} {cutoffMs : Nat} :
    id ∈ expiredIds config b current cutoffMs ↔ id ≠ current ∧
      ∃ p ∈ foundManifests config b, p.1 = id ∧ p.2.createdAtMs < cutoffMs := by
  rw [expiredIds, List.mem_map]
  constructor
  · rintro ⟨p, found, rfl⟩
    obtain ⟨found, expired⟩ := List.mem_filter.mp found
    obtain ⟨other, before⟩ := of_decide_eq_true expired
    exact ⟨other, p, found, rfl, before⟩
  · rintro ⟨other, p, found, rfl, before⟩
    exact ⟨p, List.mem_filter.mpr ⟨found, by simp [other, before]⟩, rfl⟩

theorem retentionRun_eq (hm : Uses config m) :
    retentionRun paging time m b duration =
      let ids := expiredIds config b m.generation (cutoffAt time duration)
      (countFrom pf.build ids.length 0).map fun n => ((.ok n, withRetention m duration),
        ⟨purged config b ids,
          (S3Client.new config.s3).fullKey [] :: ids.map (directoryOf config)⟩) := by
  have uses : Uses { config with retentionDuration := some duration } (withRetention m duration) :=
    ⟨by rw [withRetention, hm.1], hm.2⟩
  rw [retentionRun, interp_enforceRetention paging time uses rfl]
  rfl

theorem exists_retentionRun (hm : Uses config m)
    (few : (expiredIds config b m.generation (cutoffAt time duration)).length < 2 ^ 32) :
    ∃ out after, retentionRun paging time m b duration = some (out, after) := by
  rw [retentionRun_eq hm]
  dsimp only
  rw [countFrom_eq _ (by decide), Nat.zero_add, if_pos few]
  exact ⟨_, _, rfl⟩

/-- A run that returns deleted the expired ids. -/
theorem deletedIn_retentionRun (hm : Uses config m)
    {out : (Except Error Nat × BackupManager pf.build)} {after : Shelf}
    (run : retentionRun paging time m b duration = some (out, after)) :
    deletedIn config after =
      {id | id ∈ expiredIds config b m.generation (cutoffAt time duration)} := by
  rw [retentionRun_eq hm] at run
  obtain ⟨n, -, same⟩ := Option.map_eq_some_iff.mp run
  obtain rfl := (Prod.mk.inj same).2.symm
  ext id
  have root : directoryOf config id ≠ (S3Client.new config.s3).fullKey [] := by
    intro same
    have empty := S3Client.fullKey_injective _ same
    simp at empty
  rw [deletedIn, Set.mem_ofPred_eq, List.mem_cons, or_iff_right root,
    List.mem_map_of_injective directoryOf_injective, Set.mem_ofPred_eq]

/-- Of two runs that return, the second deletes no more exactly when its cutoff is no later,
or nothing was created between the cutoffs. -/
theorem deletesNoMore_iff (hm : Uses config m)
    {out out' : (Except Error Nat × BackupManager pf.build)} {after after' : Shelf}
    (run : retentionRun paging time m b duration = some (out, after))
    (run' : retentionRun paging' time m b duration' = some (out', after')) :
    deletedIn config after' ⊆ deletedIn config after ↔
      cutoffAt time duration' ≤ cutoffAt time duration ∨
        ¬ CreatedBetween config b m.generation (cutoffAt time duration) (cutoffAt time duration') := by
  rw [deletedIn_retentionRun hm run, deletedIn_retentionRun hm run', Set.subset_def]
  simp only [Set.mem_ofPred_eq, mem_expiredIds_iff]
  constructor
  · intro subset
    refine .inr ?_
    rintro ⟨p, found, other, before, since⟩
    obtain ⟨-, q, found', same, before'⟩ := subset p.1 ⟨other, p, found, rfl, before⟩
    have := since q found' same
    omega
  · rintro (sooner | nothing) id ⟨other, p, found, rfl, before⟩
    · exact ⟨other, p, found, rfl, Nat.lt_of_lt_of_le before sooner⟩
    · refine ⟨other, ?_⟩
      by_contra none
      refine nothing ⟨p, found, other, before, fun q found' same => ?_⟩
      exact Nat.le_of_not_lt fun before' => none ⟨q, found', same, before'⟩

/-- Without a wrap the longer retention has the sooner cutoff. -/
theorem cutoffAt_anti (longer : duration ≤ duration') (short : duration' < 2 ^ 64) :
    cutoffAt time duration' ≤ cutoffAt time duration := by
  rw [cutoffAt, cutoffAt, Nat.mod_eq_of_lt short, Nat.mod_eq_of_lt (Nat.lt_of_le_of_lt longer short)]
  exact Nat.sub_le_sub_left longer _

end

/-- A generation that is one second old. -/
def recent : Bucket :=
  store plainConfig ∅ (.manifest (uuid 1)) (asBytes (manifestText (GenerationManifest.new (uuid 1) 4000)))

theorem found_recent : foundManifests plainConfig recent =
    [(uuid 1, GenerationManifest.new (uuid 1) 4000)] := by decide +kernel

theorem expired_recent (cutoffMs : Nat) : expiredIds plainConfig recent (uuid 0) cutoffMs =
    if 4000 < cutoffMs then [uuid 1] else [] := by
  have other : uuid 1 ≠ uuid 0 := by decide
  have created : (GenerationManifest.new (uuid 1) 4000).createdAtMs = 4000 := rfl
  rw [expiredIds, found_recent]
  by_cases before : 4000 < cutoffMs
  · rw [if_pos before, List.filter_cons_of_pos (by simp [other, created, before])]
    rfl
  · rw [if_neg before, List.filter_cons_of_neg (by simp [created, before])]
    rfl

theorem exists_run_recent (duration : Nat) : ∃ out after,
    retentionRun onePage (.ok 5000) (plainManager [] 0 0) recent duration = some (out, after) := by
  have few : (expiredIds plainConfig recent (plainManager [] 0 0).generation
      (cutoffAt (.ok 5000) duration)).length < 2 ^ 32 := by
    change (expiredIds plainConfig recent (uuid 0) (cutoffAt (.ok 5000) duration)).length < _
    rw [expired_recent]
    split <;> decide
  exact exists_retentionRun ⟨rfl, rfl⟩ few

theorem deletesNoMore_iff_seconds : ∃ after after', deletedIn plainConfig after' ⊆
    deletedIn plainConfig after ∧ ∃ out out',
      retentionRun onePage (.ok 5000) (plainManager [] 0 0) recent 1000 = some (out, after) ∧
      retentionRun onePage (.ok 5000) (plainManager [] 0 0) recent 2000 = some (out', after') := by
  obtain ⟨out, after, run⟩ := exists_run_recent 1000
  obtain ⟨out', after', run'⟩ := exists_run_recent 2000
  have subset := (deletesNoMore_iff ⟨rfl, rfl⟩ run run').mpr (.inl (by decide))
  exact ⟨after, after', subset, out, out', run, run'⟩

/-- The longest retention is taken for one of no time at all. -/
theorem not_deletesNoMore : ¬ ∀ duration duration' out out' after after', duration ≤ duration' →
    retentionRun onePage (.ok 5000) (plainManager [] 0 0) recent duration = some (out, after) →
    retentionRun onePage (.ok 5000) (plainManager [] 0 0) recent duration' = some (out', after') →
    deletedIn plainConfig after' ⊆ deletedIn plainConfig after := by
  intro subset
  obtain ⟨out, after, run⟩ := exists_run_recent 2000
  obtain ⟨out', after', run'⟩ := exists_run_recent (2 ^ 64)
  have uses : Uses plainConfig (plainManager [] 0 0) := ⟨rfl, rfl⟩
  have within := subset _ _ _ _ _ _ (by decide) run run'
  rw [deletedIn_retentionRun uses run, deletedIn_retentionRun uses run', Set.subset_def] at within
  simp only [Set.mem_ofPred_eq] at within
  have none : expiredIds plainConfig recent (plainManager [] 0 0).generation
      (cutoffAt (.ok 5000) 2000) = [] := expired_recent _
  have one : expiredIds plainConfig recent (plainManager [] 0 0).generation
      (cutoffAt (.ok 5000) (2 ^ 64)) = [uuid 1] := expired_recent _
  rw [none, one] at within
  exact absurd (within _ List.mem_cons_self) List.not_mem_nil

end Waloy.Spec
