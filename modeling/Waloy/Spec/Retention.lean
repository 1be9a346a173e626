import Waloy.Spec.Snapshot

/-!
# What a retention run may do

`enforce_retention` deletes what lies under the ids of expired generations. Whether
it returns or stops at an error, every object it deleted is one of those.
-/
namespace Waloy.Source

/-- A listed key is found again under the full key of its relative form. -/
theorem S3Client.fullKey_relativeKey (s3 : S3Client) {keyPrefix key : Str}
    (h : s3.fullKey keyPrefix <+: key) : s3.fullKey (s3.relativeKey key) = key := by
  unfold S3Client.fullKey S3Client.relativeKey at *
  split
  case isTrue => rfl
  case isFalse nonempty =>
    rw [if_neg nonempty] at h
    obtain ⟨rest, rfl⟩ := h
    have inside : (s3.keyPrefix ++ ['/']) <+: s3.keyPrefix ++ '/' :: keyPrefix ++ rest := by
      simp
    rw [stripPrefix, if_pos (List.isPrefixOf_iff_prefix.mpr inside), Option.getD_some]
    simp [List.drop_append]

end Waloy.Source

namespace Waloy.Spec
open Waloy.Effect Waloy.Source Waloy.Source.BackupManager

variable {pf : Platform} (config : BackupConfig pf.build) {A : Type} (env : Env A)

/-- A key of the bucket that `list_generation_manifests` reads as the manifest of an id. -/
structure Lists (b : Bucket) (key : Str) (p : Str × GenerationManifest) : Prop where
  isManifest : manifestSuffix.isSuffixOf key = true
  id : p.1 = trimEndMatches manifestSuffix key
  readable : ∃ data, b.lookup ((S3Client.new config.s3).fullKey key) = some data ∧
    decodeManifest pf data config = .ok p.2

/-- A full key under the id of a generation that expires before the cutoff. -/
def Doomed (b : Bucket) (generation : Str) (cutoffMs : Nat) (fullKey : Str) : Prop :=
  ∃ key p, Lists config b key p ∧ p.1 ≠ generation ∧ p.2.createdAtMs < cutoffMs ∧
    (S3Client.new config.s3).fullKey (p.1 ++ ['/']) <+: fullKey

/-- Some of the doomed objects of a bucket are gone. -/
def Expunged (b : Bucket) (generation : Str) (cutoffMs : Nat) (b' : Bucket) : Prop :=
  ∀ key, b'.lookup key = b.lookup key ∨ b'.lookup key = none ∧ Doomed config b generation cutoffMs key

theorem Expunged.refl (b : Bucket) (generation : Str) (cutoffMs : Nat) :
    Expunged config b generation cutoffMs b := fun _ => .inl rfl

theorem Expunged.erase {config : BackupConfig pf.build} {b b' : Bucket} {generation key : Str}
    {cutoffMs : Nat} (h : Expunged config b generation cutoffMs b')
    (doomed : Doomed config b generation cutoffMs key) :
    Expunged config b generation cutoffMs (b'.erase key) := by
  intro key'
  by_cases same : key' = key
  · subst same
    exact .inr ⟨AList.lookup_erase _ _, doomed⟩
  · rw [AList.lookup_erase_ne same]
    exact h key'

/-- The ways out of `enforce_retention`. -/
inductive RetentionExit (w : World A) (h : Head) : World A → Prop where
  | off (off : config.retentionDuration = none) : RetentionExit w h w
  | ran {duration : Nat} {reply : Except String Nat} {a₁ a : A} {b : Bucket}
      (duration_eq : config.retentionDuration = some duration) (read : env.host.during w.app a₁)
      (allowed : env.allows { w with app := a₁ } .systemTime reply)
      (ticks : env.host.tick w.clock (reading reply)) (moved : env.host.during a₁ a)
      (expunged : Expunged config w.bucket h.generation (reading reply - duration % 2 ^ 64) b) :
      RetentionExit w h { w with app := a, bucket := b, clock := reading reply }

/-- What a guarantee on the bucket has to allow while `enforce_retention` runs. -/
structure RetentionWatched (change : Bucket → Bucket → Prop) (w : World A) (h : Head) : Prop where
  start : change w.bucket w.bucket
  deletes : ∀ a₁ reply duration b, config.retentionDuration = some duration →
    env.host.during w.app a₁ → env.allows { w with app := a₁ } .systemTime reply →
    env.host.tick w.clock (reading reply) →
    Expunged config w.bucket h.generation (reading reply - duration % 2 ^ 64) b →
    change b b ∧ ∀ key,
      Doomed config w.bucket h.generation (reading reply - duration % 2 ^ 64) key →
      Along change b [b.erase key]

section
variable {config env} {change : Bucket → Bucket → Prop} {m self : BackupManager pf.build}
  {w : World A}

theorem wp_readManifests (hself : Uses config self) (keys : List Str)
    (hstay : change w.bucket w.bucket) :
    Op.wp env.serve (watch change) (readManifests pf self keys)
      (fun found m' w' => m' = m ∧ (∀ p ∈ found, ∃ key ∈ keys, Lists config w.bucket key p) ∧
        ∃ a, env.host.during w.app a ∧ w' = { w with app := a }) (fun _ _ _ => False) m w := by
  induction keys generalizing w with
  | nil => exact ⟨rfl, by simp, w.app, env.host.during_refl _, rfl⟩
  | cons key keys ih =>
    have skip : ∀ a, env.host.during w.app a →
        Op.wp env.serve (watch change) (readManifests pf self keys)
          (fun found m' w' => m' = m ∧
            (∀ p ∈ found, ∃ k ∈ key :: keys, Lists config w.bucket k p) ∧
            ∃ a, env.host.during w.app a ∧ w' = { w with app := a }) (fun _ _ _ => False) m
          { w with app := a } := by
      intro a moved
      refine Op.wp_mono (ih (w := { w with app := a }) hstay) ?_ (fun _ _ _ h => h)
      rintro found m' w' ⟨rfl, lists, a', moved', rfl⟩
      refine ⟨rfl, fun p hp => ?_, a', env.host.during_trans moved moved', rfl⟩
      obtain ⟨k, hk, listed⟩ := lists p hp
      exact ⟨k, List.mem_cons_of_mem _ hk, listed⟩
    unfold readManifests
    refine Op.wp_ite (fun isManifest => ?_) fun _ => skip w.app (env.host.during_refl _)
    simp only [Op.wp_bind, Op.wp_attempt, hself.1, hself.2]
    refine wp_getObject _ _ hstay (fun a data moved present => ?_) fun _ e a moved => skip a moved
    cases decoded : decodeManifest pf data config with
    | error e => exact skip a moved
    | ok manifest =>
      have listed : Lists config w.bucket key (trimEndMatches manifestSuffix key, manifest) :=
        ⟨isManifest, rfl, data, present, decoded⟩
      simp only [Op.wp_bind, Op.wp_pure]
      refine Op.wp_mono (ih (w := { w with app := a }) hstay) ?_ (fun _ _ _ h => h)
      rintro found m' w' ⟨rfl, lists, a', moved', rfl⟩
      refine ⟨rfl, fun p hp => ?_, a', env.host.during_trans moved moved', rfl⟩
      rcases List.mem_cons.mp hp with rfl | hp
      · exact ⟨key, List.mem_cons_self, listed⟩
      · obtain ⟨k, hk, listed⟩ := lists p hp
        exact ⟨k, List.mem_cons_of_mem _ hk, listed⟩

/-- Deletes that keep an invariant of the bucket, one by one. -/
theorem wp_deleteObjects (s3 : S3Client) (keys : List Str) {P : Bucket → Prop}
    (hstep : ∀ b key, P b → key ∈ keys →
      P (b.erase (s3.fullKey key)) ∧ Along change b [b.erase (s3.fullKey key)])
    (hw : P w.bucket) :
    Op.wp env.serve (watch change) (s3.deleteObjects keys)
      (fun _ m' w' => m' = m ∧ ∃ a b, P b ∧ env.host.during w.app a ∧
        w' = { w with app := a, bucket := b })
      (fun _ m' w' => m' = m ∧ ∃ a b, P b ∧ env.host.during w.app a ∧
        w' = { w with app := a, bucket := b }) m w := by
  induction keys generalizing w with
  | nil => exact ⟨rfl, w.app, w.bucket, hw, env.host.during_refl _, rfl⟩
  | cons key keys ih =>
    obtain ⟨kept, stays, erases, again⟩ := hstep w.bucket key hw List.mem_cons_self
    simp only [S3Client.deleteObjects, Op.wp_bind]
    refine wp_deleteObject s3 key stays erases again ?_ ?_
    · intro a moved
      refine Op.wp_mono (ih (w := { w with app := a, bucket := w.bucket.erase (s3.fullKey key) })
        (fun b k hb hk => hstep b k hb (List.mem_cons_of_mem _ hk)) kept) ?_ ?_
      · rintro ⟨⟩ m' w' ⟨rfl, a', b, hb, moved', rfl⟩
        exact ⟨rfl, a', b, hb, env.host.during_trans moved moved', rfl⟩
      · rintro e m' w' ⟨rfl, a', b, hb, moved', rfl⟩
        exact ⟨rfl, a', b, hb, env.host.during_trans moved moved', rfl⟩
    · rintro _ e a b moved (rfl | rfl)
      · exact ⟨rfl, a, _, hw, moved, rfl⟩
      · exact ⟨rfl, a, _, kept, moved, rfl⟩

theorem wp_deleteGeneration (hm : Uses config m) (genId : Str) {P : Bucket → Prop}
    (hstep : ∀ b key, P b → (S3Client.new config.s3).fullKey (genId ++ ['/']) <+: key →
      P (b.erase key) ∧ Along change b [b.erase key])
    (hstay : ∀ b, P b → change b b) (hw : P w.bucket) :
    Op.wp env.serve (watch change) (deleteGeneration pf genId)
      (fun _ m' w' => m' = m ∧ ∃ a b, P b ∧ env.host.during w.app a ∧
        w' = { w with app := a, bucket := b })
      (fun _ m' w' => m' = m ∧ ∃ a b, P b ∧ env.host.during w.app a ∧
        w' = { w with app := a, bucket := b }) m w := by
  simp only [deleteGeneration, Op.wp_bind, Op.wp_get, hm.2]
  refine wp_listKeys _ _ (hstay _ hw) ?_ fun _ e a moved => ⟨rfl, a, _, hw, moved, rfl⟩
  intro a keys moved listed _
  have under : ∀ key ∈ keys, (S3Client.new config.s3).fullKey (genId ++ ['/']) <+:
      (S3Client.new config.s3).fullKey key := by
    intro key hkey
    obtain ⟨full, hfull, rfl⟩ := List.mem_map.mp (listed.mem_iff.mp hkey)
    have inside := List.isPrefixOf_iff_prefix.mp (List.mem_filter.mp hfull).2
    rwa [S3Client.fullKey_relativeKey _ inside]
  refine Op.wp_mono (wp_deleteObjects (w := { w with app := a }) _ keys
    (fun b key hb hkey => hstep b _ hb (under key hkey)) hw) ?_ ?_
  · rintro ⟨⟩ m' w' ⟨rfl, a', b, hb, moved', rfl⟩
    exact ⟨rfl, a', b, hb, env.host.during_trans moved moved', rfl⟩
  · rintro e m' w' ⟨rfl, a', b, hb, moved', rfl⟩
    exact ⟨rfl, a', b, hb, env.host.during_trans moved moved', rfl⟩

theorem wp_deleteExpired (hm : Uses config m) (b₀ : Bucket) (cutoffMs : Nat)
    (manifests : List (Str × GenerationManifest)) (deleted : Nat)
    (listed : ∀ p ∈ manifests, ∃ key, Lists config b₀ key p)
    (hdelete : ∀ b key, Expunged config b₀ m.generation cutoffMs b →
      Doomed config b₀ m.generation cutoffMs key → Along change b [b.erase key])
    (hstay : ∀ b, Expunged config b₀ m.generation cutoffMs b → change b b)
    (hw : Expunged config b₀ m.generation cutoffMs w.bucket) :
    Op.wp env.serve (watch change) (deleteExpired pf cutoffMs manifests deleted)
      (fun _ m' w' => m' = m ∧ ∃ a b, Expunged config b₀ m.generation cutoffMs b ∧
        env.host.during w.app a ∧ w' = { w with app := a, bucket := b })
      (fun _ m' w' => m' = m ∧ ∃ a b, Expunged config b₀ m.generation cutoffMs b ∧
        env.host.during w.app a ∧ w' = { w with app := a, bucket := b }) m w := by
  induction manifests generalizing w deleted with
  | nil => exact ⟨rfl, w.app, w.bucket, hw, env.host.during_refl _, rfl⟩
  | cons p rest ih =>
    obtain ⟨genId, manifest⟩ := p
    have later := fun p hp => listed p (List.mem_cons_of_mem _ hp)
    simp only [deleteExpired, Op.wp_bind, Op.wp_get]
    refine Op.wp_ite (fun _ => ih deleted later hw) fun other => ?_
    refine Op.wp_ite (fun expired => ?_) fun _ => ih deleted later hw
    obtain ⟨key, lists⟩ := listed _ List.mem_cons_self
    have doomed : ∀ full, (S3Client.new config.s3).fullKey (genId ++ ['/']) <+: full →
        Doomed config b₀ m.generation cutoffMs full := fun full inside =>
      ⟨key, _, lists, other, expired, inside⟩
    simp only [Op.wp_bind, Op.wp_ofOption]
    refine Op.wp_mono (wp_deleteGeneration hm genId
      (fun b key hb inside => ⟨hb.erase (doomed key inside), hdelete b key hb (doomed key inside)⟩)
      hstay hw) ?_ (fun _ _ _ h => h)
    rintro ⟨⟩ m' w' ⟨rfl, a, b, hb, moved, rfl⟩ deleted' _
    refine Op.wp_mono (ih (w := { w with app := a, bucket := b }) deleted' later hb) ?_ ?_
    · rintro n m' w' ⟨rfl, a', b', hb', moved', rfl⟩
      exact ⟨rfl, a', b', hb', env.host.during_trans moved moved', rfl⟩
    · rintro e m' w' ⟨rfl, a', b', hb', moved', rfl⟩
      exact ⟨rfl, a', b', hb', env.host.during_trans moved moved', rfl⟩

theorem wp_enforceRetention (hm : Uses config m)
    (watched : RetentionWatched config env change w (head m)) :
    Op.wp env.serve (watch change) (enforceRetention pf)
      (fun _ m' w' => m' = m ∧ RetentionExit config env w (head m) w')
      (fun _ m' w' => m' = m ∧ RetentionExit config env w (head m) w') m w := by
  simp only [enforceRetention, Op.wp_bind, Op.wp_get, hm.1]
  cases retention : config.retentionDuration with
  | none => exact ⟨rfl, .off retention⟩
  | some duration =>
    simp only [Op.wp_bind]
    refine wp_nowMs_reading watched.start fun a₁ reply moved₁ ticks allowed => ?_
    have deletes := fun b => watched.deletes a₁ reply duration b retention moved₁ allowed ticks
    have exit : ∀ a b, env.host.during a₁ a →
        Expunged config w.bucket m.generation (reading reply - duration % 2 ^ 64) b →
        RetentionExit config env w (head m) { w with app := a, bucket := b, clock := reading reply } :=
      fun a b moved expunged => .ran retention moved₁ allowed ticks moved expunged
    have start := Expunged.refl config w.bucket m.generation (reading reply - duration % 2 ^ 64)
    simp only [listGenerationManifests, Op.wp_bind, Op.wp_get, hm.2]
    refine wp_listKeys _ _ watched.start ?_ fun _ e a moved => ⟨rfl, exit a _ moved start⟩
    intro a₂ keys moved₂ _ _
    refine Op.wp_mono (wp_readManifests hm keys watched.start) ?_ (fun _ _ _ h => h.elim)
    rintro manifests m' w' ⟨rfl, lists, a₃, moved₃, rfl⟩
    have moved := env.host.during_trans moved₂ moved₃
    let w₃ : World A := { w with app := a₃, clock := reading reply }
    refine Op.wp_mono (wp_deleteExpired (w := w₃) hm w.bucket
      (reading reply - duration % 2 ^ 64) manifests 0 (fun p hp => (lists p hp).imp fun _ h => h.2)
      (fun b key hb => (deletes b hb).2 key) (fun b hb => (deletes b hb).1) start) ?_ ?_
    · rintro n m'' w'' ⟨rfl, a, b, hb, moved', rfl⟩
      exact ⟨rfl, exit a b (env.host.during_trans moved moved') hb⟩
    · rintro e m'' w'' ⟨rfl, a, b, hb, moved', rfl⟩
      exact ⟨rfl, exit a b (env.host.during_trans moved moved') hb⟩

end

end Waloy.Spec
