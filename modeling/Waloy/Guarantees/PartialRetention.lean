import Waloy.Guarantees.Representation
import Waloy.Spec.Selection

/-!
# A retention run that stops halfway

The objects of a generation are deleted in the order of their keys. Its manifest comes
first, so a generation that has lost an object is no longer found by its manifest.
-/
namespace Waloy.Spec
open Waloy.Effect Waloy.Source Waloy.Source.BackupManager

variable {pf : Platform} (config : BackupConfig pf.build) {A : Type}

/-- A generation that has a manifest has its snapshot and every segment of its manifest. -/
def Whole (b : Bucket) (generation : Str) : Prop :=
  (object config b (.manifest generation)).isSome →
    (object config b (.snapshot generation)).isSome ∧
    ∀ manifest, manifestAt config b generation = some manifest →
      ∀ s ∈ manifest.segments, (object config b (.segment generation s.index)).isSome

/-- A bucket of backups: what lies under the prefix of the client is the marker or an object
of a generation, manifests name their own generation, and every generation is whole. -/
structure Backups (b : Bucket) : Prop where
  keyed : ∀ key ∈ b.keys, (S3Client.new config.s3).fullKey [] <+: key →
    ∃ o, key = objectKey config o ∧ ∀ own, ownerOf o = some own → '/' ∉ own
  named : ∀ generation manifest, manifestAt config b generation = some manifest →
    manifest.generation = generation
  whole : ∀ generation, Whole config b generation

/-- The deletes of one key. -/
def isDeleteOf (key : Str) : Call → Bool
  | .deleteObject key' => key' = key
  | _ => false

section
variable {config} {b : Bucket} {generation : Str} {o : Object} {keys : List Str}

/-- A generation without slashes has its directory for itself. -/
theorem Backups.tidy (backups : Backups config b) (plain : '/' ∉ generation) :
    Tidy config b generation := by
  refine ⟨plain, fun key present inside => ?_⟩
  have under : (S3Client.new config.s3).fullKey [] <+: key :=
    ((S3Client.fullKey_prefix _).mpr List.nil_prefix).trans inside
  obtain ⟨o, rfl, owners⟩ := backups.keyed key present under
  exact ⟨o, rfl, ownerOf_key owners plain ((S3Client.fullKey_prefix _).mp inside)⟩

/-- A listed manifest is the one of a generation without slashes. -/
theorem Backups.plain_listed (backups : Backups config b) {key : Str}
    {p : Str × GenerationManifest} (lists : Lists config b key p) : '/' ∉ p.1 := by
  obtain ⟨raw, present, -⟩ := lists.readable
  have among : (S3Client.new config.s3).fullKey key ∈ b.keys :=
    AList.mem_keys.mp (AList.lookup_isSome.mp (Option.isSome_iff_exists.mpr ⟨raw, present⟩))
  obtain ⟨o, full, owners⟩ := backups.keyed _ among ((S3Client.fullKey_prefix _).mpr List.nil_prefix)
  obtain rfl : key = o.key := S3Client.fullKey_injective _ full
  obtain ⟨own, rfl⟩ := eq_manifest_of_suffix (List.isSuffixOf_iff_suffix.mp lists.isManifest)
  have id : p.1 = own := lists.id.trans (trimEndMatches_manifest (owners own rfl))
  rw [id]
  exact owners own rfl

/-- What is selected for a point in time is whole. -/
theorem Backups.selected (backups : Backups config b) {timestampMs : Nat}
    {manifest : GenerationManifest}
    (selected : selectManifest (readable config b) timestampMs = some manifest) :
    (object config b (.snapshot manifest.generation)).isSome ∧
      ∀ s ∈ manifest.segments, (object config b (.segment manifest.generation s.index)).isSome := by
  obtain ⟨key, suffixed, raw, present, decodes⟩ := mem_readable.mp (selectManifest_mem selected).1
  have among : (S3Client.new config.s3).fullKey key ∈ b.keys :=
    AList.mem_keys.mp (AList.lookup_isSome.mp (Option.isSome_iff_exists.mpr ⟨raw, present⟩))
  obtain ⟨o, full, -⟩ := backups.keyed _ among ((S3Client.fullKey_prefix _).mpr List.nil_prefix)
  obtain rfl : key = o.key := S3Client.fullKey_injective _ full
  obtain ⟨own, rfl⟩ := eq_manifest_of_suffix suffixed
  have found : manifestAt config b own = some manifest :=
    manifestAt_eq_some.mpr ⟨suffixed, raw, present, decodes⟩
  obtain rfl := backups.named own manifest found
  obtain ⟨snapshot, segments⟩ := backups.whole _ (Option.isSome_iff_exists.mpr ⟨raw, present⟩)
  exact ⟨snapshot, segments manifest found⟩

/-- An object may go once the manifest of its generation is gone. -/
theorem Backups.erase (backups : Backups config b) (owner : ownerOf o = some generation)
    (unlisted : o = .manifest generation ∨ object config b (.manifest generation) = none) :
    Backups config (b.erase (objectKey config o)) := by
  have kept : ∀ own, (object config (b.erase (objectKey config o)) (.manifest own)).isSome →
      own ≠ generation ∧ object config (b.erase (objectKey config o)) (.manifest own) =
        object config b (.manifest own) := by
    intro own present
    rw [object_erase] at present ⊢
    split at present
    case isTrue => cases present
    case isFalse other =>
      refine ⟨?_, if_neg other⟩
      rintro rfl
      rcases unlisted with rfl | gone
      · exact other rfl
      · rw [gone] at present
        cases present
  constructor
  case keyed =>
    intro key present under
    exact backups.keyed key (AList.mem_keys.mp (AList.mem_erase.mp (AList.mem_keys.mpr present)).2) under
  case named =>
    intro own manifest found
    obtain ⟨raw, present, -⟩ := Option.bind_eq_some_iff.mp found
    have same := (kept own (Option.isSome_iff_exists.mpr ⟨raw, present⟩)).2
    rw [manifestAt_congr config same] at found
    exact backups.named own manifest found
  case whole =>
    intro own present
    obtain ⟨apart, same⟩ := kept own present
    have left : ∀ o', ownerOf o' = some own →
        object config (b.erase (objectKey config o)) o' = object config b o' := by
      intro o' owner'
      rw [object_erase, if_neg]
      rintro rfl
      exact apart (Option.some.inj (owner'.symm.trans owner))
    rw [same] at present
    obtain ⟨snapshot, segments⟩ := backups.whole own present
    constructor
    · rw [left (.snapshot own) rfl]
      exact snapshot
    · intro manifest found s listed
      rw [manifestAt_congr config same] at found
      rw [left (.segment own s.index) rfl]
      exact segments manifest found s listed

/-- The key of the manifest comes before the other keys of its generation. -/
theorem manifest_key_lt (owner : ownerOf o = some generation) (other : o ≠ .manifest generation) :
    (Object.manifest generation).key < o.key := by
  cases o with
  | latest => cases owner
  | snapshot own =>
    cases owner
    exact List.append_left_lt (by decide)
  | manifest own =>
    cases owner
    exact absurd rfl other
  | segment own index =>
    cases owner
    have under : (Object.segment generation index).key =
        generation ++ '/' :: 'w' :: 'a' :: 'l' :: '/' :: fmt08 index := by simp [Object.key]
    rw [under]
    exact List.append_left_lt (.cons (.rel (by decide)))

theorem sorted_manifest_first (sorted : keys.Pairwise (· ≤ ·))
    (owned : ∀ key ∈ keys, ∃ o, ownerOf o = some generation ∧ key = o.key)
    (listed : (Object.manifest generation).key ∈ keys) :
    ∃ rest, keys = (Object.manifest generation).key :: rest := by
  cases keys with
  | nil => cases listed
  | cons key rest =>
    refine ⟨rest, ?_⟩
    obtain ⟨o, owner, rfl⟩ := owned key List.mem_cons_self
    by_cases same : o = .manifest generation
    · rw [same]
    · have before := manifest_key_lt owner same
      rcases List.mem_cons.mp listed with here | later
      · rw [here]
      · have after := (List.pairwise_cons.mp sorted).1 _ later
        exact absurd before (not_lt_of_ge after)

end

/-- The calls leave a bucket of backups. -/
abbrev leavesBackups : Server Calls (World A) := watch fun _ => Backups config

/-- What is left to delete of a generation: its manifest comes first, unless it is gone. -/
structure Deleting (generation : Str) (keys : List Str) (b : Bucket) : Prop where
  backups : Backups config b
  owned : ∀ key ∈ keys, ∃ o, ownerOf o = some generation ∧ key = o.key
  first : object config b (.manifest generation) = none ∨
    ∃ rest, keys = (Object.manifest generation).key :: rest

section
variable {config} {env : Env A} {m : BackupManager pf.build} {w : World A} {generation key : Str}
  {keys : List Str}

theorem Deleting.erase (deleting : Deleting config generation (key :: keys) w.bucket) :
    Deleting config generation keys (w.bucket.erase ((S3Client.new config.s3).fullKey key)) := by
  obtain ⟨o, owner, rfl⟩ := deleting.owned key List.mem_cons_self
  have unlisted : o = .manifest generation ∨ object config w.bucket (.manifest generation) = none := by
    rcases deleting.first with gone | ⟨rest, same⟩
    · exact .inr gone
    · exact .inl (Object.key_injective (List.cons.inj same).1)
  refine ⟨deleting.backups.erase owner unlisted, ?_, .inl ?_⟩
  · exact fun key' among => deleting.owned key' (List.mem_cons_of_mem _ among)
  · have erased := object_erase config w.bucket o (.manifest generation)
    rw [objectKey] at erased
    rw [erased]
    split
    case isTrue => rfl
    case isFalse other => exact unlisted.resolve_left fun same => other same.symm

theorem wp_deleteObjects_backups (deleting : Deleting config generation keys w.bucket) :
    Op.wp env.serve (leavesBackups config) ((S3Client.new config.s3).deleteObjects keys)
      (fun _ m' w' => m' = m ∧ Backups config w'.bucket) (fun _ _ _ => True) m w := by
  induction keys generalizing w with
  | nil => exact ⟨rfl, deleting.backups⟩
  | cons key keys ih =>
    have later := deleting.erase
    simp only [S3Client.deleteObjects, Op.wp_bind]
    refine wp_deleteObject _ key deleting.backups later.backups
      later.backups (fun a _ => ?_) fun _ _ _ _ _ _ => trivial
    exact ih (w := { w with app := a, bucket := w.bucket.erase _ }) later

theorem wp_deleteGeneration_backups (hm : Uses config m) (backups : Backups config w.bucket)
    (plain : '/' ∉ generation) :
    Op.wp env.serve (leavesBackups config) (deleteGeneration pf generation)
      (fun _ m' w' => m' = m ∧ Backups config w'.bucket) (fun _ _ _ => True) m w := by
  simp only [deleteGeneration, Op.wp_bind, Op.wp_get, hm.2]
  refine wp_listKeys _ _ backups ?_ fun _ _ _ _ => trivial
  intro a keys moved listed sorted
  have inside : ∀ key, key ∈ keys ↔ (S3Client.new config.s3).fullKey key ∈ w.bucket.keys ∧
      generation ++ ['/'] <+: key := fun _ => mem_listed listed
  have owned : ∀ key ∈ keys, ∃ o, ownerOf o = some generation ∧ key = o.key := by
    intro key among
    obtain ⟨present, under⟩ := (inside key).mp among
    obtain ⟨o, full, owner⟩ := (backups.tidy plain).2 _ present ((S3Client.fullKey_prefix _).mpr under)
    exact ⟨o, owner, S3Client.fullKey_injective _ full⟩
  refine wp_deleteObjects_backups (w := { w with app := a }) ⟨backups, owned, ?_⟩
  cases found : object config w.bucket (.manifest generation) with
  | none => exact .inl rfl
  | some data =>
    refine .inr (sorted_manifest_first sorted owned ((inside _).mpr ⟨?_, ?_⟩))
    · exact AList.mem_keys.mp (AList.lookup_isSome.mp (Option.isSome_iff_exists.mpr ⟨data, found⟩))
    · exact (List.prefix_append_right_inj _).mpr (by decide)

theorem wp_deleteExpired_backups (hm : Uses config m) (backups : Backups config w.bucket)
    {cutoffMs : Nat} {manifests : List (Str × GenerationManifest)} {deleted : Nat}
    (plain : ∀ p ∈ manifests, '/' ∉ p.1) :
    Op.wp env.serve (leavesBackups config) (deleteExpired pf cutoffMs manifests deleted)
      (fun _ _ _ => True) (fun _ _ _ => True) m w := by
  induction manifests generalizing w deleted with
  | nil => trivial
  | cons p rest ih =>
    have skip : ∀ deleted, Op.wp env.serve (leavesBackups config) (deleteExpired pf cutoffMs rest deleted)
        (fun _ _ _ => True) (fun _ _ _ => True) m w := fun deleted =>
      ih backups fun p' among => plain p' (List.mem_cons_of_mem _ among)
    simp only [deleteExpired, Op.wp_bind, Op.wp_get]
    refine Op.wp_ite (fun _ => skip _) fun _ => Op.wp_ite (fun _ => ?_) fun _ => skip _
    simp only [Op.wp_bind, Op.wp_ofOption]
    refine Op.wp_mono (wp_deleteGeneration_backups hm backups (plain p List.mem_cons_self)) ?_
      fun _ _ _ _ => trivial
    rintro ⟨⟩ m' w' ⟨rfl, backups'⟩ deleted' _
    exact ih backups' fun p' among => plain p' (List.mem_cons_of_mem _ among)

theorem wp_enforceRetention_backups (hm : Uses config m) (backups : Backups config w.bucket) :
    Op.wp env.serve (leavesBackups config) (enforceRetention pf) (fun _ _ _ => True)
      (fun _ _ _ => True) m w := by
  simp only [enforceRetention, Op.wp_bind, Op.wp_get, hm.1]
  cases config.retentionDuration with
  | none => trivial
  | some duration =>
    simp only [Op.wp_bind]
    refine wp_nowMs backups fun a now moved _ => ?_
    simp only [listGenerationManifests, Op.wp_bind, Op.wp_get, hm.2]
    refine wp_listKeys _ _ backups ?_ fun _ _ _ _ => trivial
    intro a' keys moved' listed _
    refine Op.wp_mono (wp_readManifests hm keys backups) ?_
      fun _ _ _ _ => trivial
    rintro manifests m' w' ⟨rfl, lists, a₁, moved₁, rfl⟩
    let w₁ : World A := { w with app := a₁, clock := now }
    refine wp_deleteExpired_backups (w := w₁) hm backups fun p among => ?_
    obtain ⟨key, -, lists⟩ := lists p among
    exact backups.plain_listed lists

end

/-- At every point of a retention run, whatever has failed in it, the bucket is one of
backups, and what a restore to any time selects of it is whole. -/
theorem retention_stops_whole {env : Env A} {m : BackupManager pf.build} {w w' : World A}
    {p : Prog Calls (Except Error Nat × BackupManager pf.build)} (hm : Uses config m)
    (backups : Backups config w.bucket)
    (steps : Steps env.serve (enforceRetention pf m, w) (p, w')) :
    Backups config w'.bucket ∧ ∀ timestampMs manifest,
      selectManifest (readable config w'.bucket) timestampMs = some manifest →
      (object config w'.bucket (.snapshot manifest.generation)).isSome ∧
        ∀ s ∈ manifest.segments,
          (object config w'.bucket (.segment manifest.generation s.index)).isSome := by
  have left : Backups config w'.bucket :=
    Steps.always steps (wp_enforceRetention_backups hm backups) backups
  exact ⟨left, fun _ _ selected => left.selected selected⟩

/-- A bucket with an expired generation. -/
def expiredBucket : Bucket :=
  store briefConfig (store briefConfig ∅ (.snapshot (uuid 0)) [1]) (.manifest (uuid 0))
    (asBytes (manifestText ⟨uuid 0, 1000, 1000, []⟩))

theorem expiredBucket_backups : Backups briefConfig expiredBucket := by
  have slashless : '/' ∉ uuid 0 := by decide
  have found : ∀ own, (object briefConfig expiredBucket (.manifest own)).isSome → own = uuid 0 := by
    intro own present
    simp only [expiredBucket, object_store] at present
    split at present
    case isTrue same => exact Object.manifest.inj same
    case isFalse => cases present
  have listed : manifestAt briefConfig expiredBucket (uuid 0) = some ⟨uuid 0, 1000, 1000, []⟩ := by
    let manifest : GenerationManifest := ⟨uuid 0, 1000, 1000, []⟩
    have decoded : pipelineDecode plain (asBytes (manifestText manifest)) briefConfig =
        .ok (asBytes (manifestText manifest)) := eq_ok_of_toOption (by decide +kernel)
    have parsed : plain.libs.jsonFromSlice (asBytes (manifestText manifest)) = .ok manifest :=
      plain_codec.parses _ _ rfl
    exact manifestAt_store (decodeManifest_of_decode decoded parsed)
  constructor
  case keyed =>
    intro key present _
    rcases (AList.mem_insert _).mp (AList.mem_keys.mpr present) with rfl | older
    · exact ⟨.manifest (uuid 0), rfl, fun own owner => Option.some.inj owner ▸ slashless⟩
    rcases (AList.mem_insert _).mp older with rfl | none
    · exact ⟨.snapshot (uuid 0), rfl, fun own owner => Option.some.inj owner ▸ slashless⟩
    · cases none
  case named =>
    intro own manifest read
    obtain ⟨raw, present, -⟩ := Option.bind_eq_some_iff.mp read
    obtain rfl := found own (Option.isSome_iff_exists.mpr ⟨raw, present⟩)
    rw [listed] at read
    cases read
    rfl
  case whole =>
    intro own present
    obtain rfl := found own present
    have snapshot : (object briefConfig expiredBucket (.snapshot (uuid 0))).isSome := by
      simp [expiredBucket]
    refine ⟨snapshot, fun manifest read s among => ?_⟩
    rw [listed] at read
    cases read
    cases among

/-- The delete of the snapshot fails: the manifest is gone, and the snapshot is left. -/
theorem retention_stops_brief : ∃ m w p w',
    Steps (Env.serve ⟨fileHost fun _ _ => True, fun _ _ _ => True⟩)
      (enforceRetention plain m, w) (p, w') ∧
    object briefConfig w.bucket (.manifest (uuid 0)) ≠ object briefConfig w'.bucket (.manifest (uuid 0)) ∧
    Backups briefConfig w'.bucket ∧ ∀ timestampMs manifest,
      selectManifest (readable briefConfig w'.bucket) timestampMs = some manifest →
      (object briefConfig w'.bucket (.snapshot manifest.generation)).isSome ∧
        ∀ s ∈ manifest.segments,
          (object briefConfig w'.bucket (.segment manifest.generation s.index)).isSome := by
  let m : BackupManager plain.build :=
    { plainManager [] 0 0 with config := briefConfig, generation := uuid 1 }
  let w : World Files := ⟨expiredBucket, ⟨none, none⟩, 2000, []⟩
  let deny : Call → Bool := isDeleteOf (objectKey briefConfig (.snapshot (uuid 0)))
  let answer := hostAnswer (fileHost fun _ _ => True) id (fun files _ _ => files) deny
  have computed : ((enforceRetention plain m).interp answer w).any (fun out =>
      object briefConfig out.2.bucket (.manifest (uuid 0)) = none) = true := by decide +kernel
  obtain ⟨⟨value, w'⟩, run, gone⟩ := (Option.any_eq_true _ _).mp computed
  have steps : Steps (Env.serve ⟨fileHost fun _ _ => True, fun _ _ _ => True⟩)
      (enforceRetention plain m, w) (.pure value, w') := by
    refine Steps.of_interp (fun v c reply v' answered => ⟨v.app, trivial, trivial, ?_⟩) _ _ run
    exact hostAnswer_acts (fun _ => trivial) (fun _ _ _ => trivial) (fun _ _ => trivial) answered
  have uses : Uses briefConfig m := ⟨rfl, rfl⟩
  have stopped := retention_stops_whole briefConfig uses (w := w) expiredBucket_backups steps
  have lost : object briefConfig w.bucket (.manifest (uuid 0)) ≠
      object briefConfig w'.bucket (.manifest (uuid 0)) := by
    rw [of_decide_eq_true gone]
    simp [w, expiredBucket]
  exact ⟨m, w, _, w', steps, lost, stopped⟩

end Waloy.Spec
