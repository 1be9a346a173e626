import Waloy.Spec.Directory
import Waloy.Spec.Faultless
import Waloy.Spec.Frames

/-!
# A retention run in which no call fails

Where no call fails, every manifest of the bucket is found and everything under the id of
an expired generation is deleted.
-/
namespace Waloy.Spec
open Waloy.Effect Waloy.Source Waloy.Source.BackupManager

variable {pf : Platform} (config : BackupConfig pf.build) {A : Type}

/-- Nothing is left of what expires before the cutoff. -/
def Purged (b : Bucket) (generation : Str) (cutoffMs : Nat) (b' : Bucket) : Prop :=
  ∀ key, Doomed config b generation cutoffMs key → b'.lookup key = none

/-- What is gone stays gone. -/
def Fewer (b b' : Bucket) : Prop := ∀ key, b.lookup key = none → b'.lookup key = none

theorem Fewer.refl (b : Bucket) : Fewer b b := fun _ gone => gone

theorem Fewer.trans {b b' b'' : Bucket} (h : Fewer b b') (h' : Fewer b' b'') : Fewer b b'' :=
  fun key gone => h' key (h key gone)

theorem Fewer.erase (b : Bucket) (key : Str) : Fewer b (b.erase key) := by
  intro key' gone
  by_cases same : key' = key
  · rw [same, AList.lookup_erase]
  · rw [AList.lookup_erase_ne same, gone]

section
variable {config} {env : Env A} {m self : BackupManager pf.build} {w : World A}
  (sound : ∀ w c reply, env.allows w c reply → faultless env.host.dbPath w c reply)
include sound

theorem wp_readManifests_complete (hself : Uses config self) (keys : List Str) :
    Op.wp env.serve (watch anyChange) (readManifests pf self keys)
      (fun found m' w' => m' = m ∧
        (∀ key ∈ keys, ∀ p, Lists config w.bucket key p → p ∈ found) ∧
        ∃ a, w' = { w with app := a }) (fun _ _ _ => False) m w := by
  induction keys generalizing w with
  | nil => exact ⟨rfl, nofun, w.app, rfl⟩
  | cons key keys ih =>
    have skip : ∀ a, (∀ p, ¬ Lists config w.bucket key p) →
        Op.wp env.serve (watch anyChange) (readManifests pf self keys)
          (fun found m' w' => m' = m ∧
            (∀ k ∈ key :: keys, ∀ p, Lists config w.bucket k p → p ∈ found) ∧
            ∃ a, w' = { w with app := a }) (fun _ _ _ => False) m { w with app := a } := by
      intro a unlisted
      refine Op.wp_mono (ih (w := { w with app := a })) ?_ (fun _ _ _ h => h)
      rintro found m' w' ⟨rfl, complete, a', rfl⟩
      refine ⟨rfl, fun k hk p lists => ?_, a', rfl⟩
      obtain rfl | hk := List.mem_cons.mp hk
      · exact absurd lists (unlisted p)
      · exact complete k hk p lists
    unfold readManifests
    refine Op.wp_ite (fun isManifest => ?_) fun other => ?_
    swap
    · exact skip w.app fun p lists => other lists.isManifest
    simp only [Op.wp_bind, Op.wp_attempt, hself.1, hself.2]
    refine wp_getObject _ _ trivial (fun a data _ present => ?_) fun missed e a _ => ?_
    swap
    · obtain ⟨v, e', same, allowed⟩ := missed
      have absent : v.bucket.lookup ((S3Client.new config.s3).fullKey key) = none :=
        sound v _ _ allowed
      rw [same] at absent
      refine skip a fun p lists => ?_
      obtain ⟨data, present, -⟩ := lists.readable
      cases absent.symm.trans present
    cases decoded : decodeManifest pf data config with
    | error e =>
      refine skip a fun p lists => ?_
      obtain ⟨data', present', decoded'⟩ := lists.readable
      cases present.symm.trans present'
      cases decoded.symm.trans decoded'
    | ok manifest =>
      simp only [Op.wp_bind, Op.wp_pure]
      refine Op.wp_mono (ih (w := { w with app := a })) ?_ (fun _ _ _ h => h)
      rintro found m' w' ⟨rfl, complete, a', rfl⟩
      refine ⟨rfl, fun k hk p lists => ?_, a', rfl⟩
      obtain rfl | hk := List.mem_cons.mp hk
      · obtain ⟨data', present', decoded'⟩ := lists.readable
        cases present.symm.trans present'
        cases decoded.symm.trans decoded'
        have same : p = (trimEndMatches manifestSuffix k, p.2) := Prod.ext lists.id rfl
        rw [same]
        exact List.mem_cons_self
      · exact List.mem_cons_of_mem _ (complete k hk p lists)

theorem wp_deleteObjects_all (s3 : S3Client) (keys : List Str) :
    Op.wp env.serve (watch anyChange) (s3.deleteObjects keys)
      (fun _ m' w' => m' = m ∧ w'.clock = w.clock ∧ Fewer w.bucket w'.bucket ∧
        ∀ key ∈ keys, w'.bucket.lookup (s3.fullKey key) = none) (fun _ _ _ => False) m w := by
  induction keys generalizing w with
  | nil => exact ⟨rfl, rfl, .refl _, nofun⟩
  | cons key keys ih =>
    simp only [S3Client.deleteObjects, Op.wp_bind]
    refine wp_deleteObject s3 key trivial trivial trivial (fun a _ => ?_) fun denied _ _ _ _ _ => ?_
    · refine Op.wp_mono (ih (w := { w with app := a, bucket := w.bucket.erase (s3.fullKey key) })) ?_
        (fun _ _ _ h => h)
      rintro ⟨⟩ m' w' ⟨rfl, clock, fewer, gone⟩
      refine ⟨rfl, clock, (Fewer.erase _ _).trans fewer, fun k hk => ?_⟩
      obtain rfl | hk := List.mem_cons.mp hk
      · exact fewer _ (AList.lookup_erase _ _)
      · exact gone k hk
    · obtain ⟨v, reply, bad, allowed⟩ := denied
      cases reply with
      | ok => exact bad
      | error e => exact sound v _ _ allowed

theorem wp_deleteGeneration_all (hm : Uses config m) (genId : Str) :
    Op.wp env.serve (watch anyChange) (deleteGeneration pf genId)
      (fun _ m' w' => m' = m ∧ w'.clock = w.clock ∧ Fewer w.bucket w'.bucket ∧
        ∀ key, (S3Client.new config.s3).fullKey (genId ++ ['/']) <+: key →
          w'.bucket.lookup key = none) (fun _ _ _ => False) m w := by
  simp only [deleteGeneration, Op.wp_bind, Op.wp_get, hm.2]
  refine wp_listKeys _ _ trivial (fun a keys _ listed _ => ?_) fun denied _ _ _ => ?_
  · refine Op.wp_mono (wp_deleteObjects_all sound (w := { w with app := a }) _ keys) ?_
      (fun _ _ _ h => h)
    rintro ⟨⟩ m' w' ⟨rfl, clock, fewer, gone⟩
    refine ⟨rfl, clock, fewer, fun key inside => ?_⟩
    cases found : w.bucket.lookup key with
    | none => exact fewer key found
    | some data =>
      have member : key ∈ w.bucket.keys :=
        AList.mem_keys.mp (AList.lookup_isSome.mp (Option.isSome_of_eq_some found))
      obtain ⟨rest, rfl⟩ := S3Client.exists_fullKey _ inside
      exact gone _ ((mem_listed listed).mpr ⟨member, List.prefix_append _ _⟩)
  · obtain ⟨v, reply, bad, allowed⟩ := denied
    cases reply with
    | ok => exact bad
    | error e => exact sound v _ _ allowed

theorem wp_deleteExpired_all (hm : Uses config m) (cutoffMs : Nat)
    (manifests : List (Str × GenerationManifest)) (deleted : Nat) :
    Op.wp env.serve (watch anyChange) (deleteExpired pf cutoffMs manifests deleted)
      (fun _ m' w' => m' = m ∧ w'.clock = w.clock ∧ Fewer w.bucket w'.bucket ∧
        ∀ p ∈ manifests, p.1 ≠ m.generation → p.2.createdAtMs < cutoffMs → ∀ key,
          (S3Client.new config.s3).fullKey (p.1 ++ ['/']) <+: key → w'.bucket.lookup key = none)
      (fun _ _ _ => False) m w := by
  induction manifests generalizing w deleted with
  | nil => exact ⟨rfl, rfl, .refl _, nofun⟩
  | cons p rest ih =>
    obtain ⟨genId, manifest⟩ := p
    have skip : ∀ deleted, (genId ≠ m.generation → ¬ manifest.createdAtMs < cutoffMs) →
        Op.wp env.serve (watch anyChange) (deleteExpired pf cutoffMs rest deleted)
          (fun _ m' w' => m' = m ∧ w'.clock = w.clock ∧ Fewer w.bucket w'.bucket ∧
            ∀ p ∈ (genId, manifest) :: rest, p.1 ≠ m.generation → p.2.createdAtMs < cutoffMs →
              ∀ key, (S3Client.new config.s3).fullKey (p.1 ++ ['/']) <+: key →
                w'.bucket.lookup key = none) (fun _ _ _ => False) m w := by
      intro deleted spared
      refine Op.wp_mono (ih deleted) ?_ (fun _ _ _ h => h)
      rintro n m' w' ⟨rfl, clock, fewer, gone⟩
      refine ⟨rfl, clock, fewer, fun p hp other expired => ?_⟩
      obtain rfl | hp := List.mem_cons.mp hp
      · exact absurd expired (spared other)
      · exact gone p hp other expired
    simp only [deleteExpired, Op.wp_bind, Op.wp_get]
    refine Op.wp_ite (fun own => skip _ fun other => absurd own other) fun other => ?_
    refine Op.wp_ite (fun expired => ?_) fun young => skip _ fun _ => young
    simp only [Op.wp_bind, Op.wp_ofOption]
    refine Op.wp_mono (wp_deleteGeneration_all sound hm genId) ?_ (fun _ _ _ h => h)
    rintro ⟨⟩ m' w₁ ⟨rfl, clock, fewer, gone⟩ deleted' _
    refine Op.wp_mono (ih (w := w₁) deleted') ?_ (fun _ _ _ h => h)
    rintro n m' w' ⟨rfl, clock', fewer', gone'⟩
    refine ⟨rfl, clock'.trans clock, fewer.trans fewer', fun p hp other expired key inside => ?_⟩
    obtain rfl | hp := List.mem_cons.mp hp
    · exact fewer' key (gone key inside)
    · exact gone' p hp other expired key inside

/-- Whatever expires before the cutoff of the run is gone afterwards. -/
theorem wp_enforceRetention_all (hm : Uses config m) :
    Op.wp env.serve (watch anyChange) (enforceRetention pf)
      (fun _ _ w' => ∀ duration, config.retentionDuration = some duration →
        Purged config w.bucket m.generation (w'.clock - duration % 2 ^ 64) w'.bucket)
      (fun _ _ _ => False) m w := by
  simp only [enforceRetention, Op.wp_bind, Op.wp_get, hm.1]
  cases retention : config.retentionDuration with
  | none =>
    intro duration same
    cases same
  | some duration =>
    simp only [Op.wp_bind]
    refine wp_nowMs trivial fun a now _ _ => ?_
    simp only [listGenerationManifests, Op.wp_bind, Op.wp_get, hm.2]
    refine wp_listKeys _ _ trivial (fun a' keys _ listed _ => ?_) fun denied _ _ _ => ?_
    swap
    · obtain ⟨v, reply, bad, allowed⟩ := denied
      cases reply with
      | ok => exact bad
      | error e => exact sound v _ _ allowed
    refine Op.wp_mono (wp_readManifests_complete sound hm keys) ?_ (fun _ _ _ h => h)
    rintro manifests m' w' ⟨rfl, complete, a₁, rfl⟩
    refine Op.wp_mono (wp_deleteExpired_all sound hm _ manifests 0) ?_ (fun _ _ _ h => h)
    rintro n m' w' ⟨rfl, clock, -, gone⟩ duration' ⟨⟩ key ⟨listing, p, lists, other, expired, inside⟩
    rw [clock] at expired
    refine gone p (complete listing ?_ p lists) other expired key inside
    obtain ⟨data, present, -⟩ := lists.readable
    have member : (S3Client.new config.s3).fullKey listing ∈ w.bucket.keys :=
      AList.mem_keys.mp (AList.lookup_isSome.mp (Option.isSome_of_eq_some present))
    exact (mem_listed listed).mpr ⟨member, List.nil_prefix⟩

end

end Waloy.Spec
