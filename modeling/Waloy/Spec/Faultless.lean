import Waloy.Spec.Lifecycle
import Waloy.Spec.Segments

/-!
# Runs without a failure

Where no call fails and the codec does its work, an operation has one way out for each
decision it takes, and its exits lose the cases in between.
-/
namespace Waloy.Spec
open Waloy.Effect Waloy.Source

variable {pf : Platform} (config : BackupConfig pf.build) {A : Type}

/-- The answers without a failure of the bucket or of the database. A key that is not
there is no failure. -/
def faultless (dbPath : Str) (w : World A) : (c : Call) → c.Reply → Prop
  | .putObject _ _, .error _ => False
  | .getObject key, .error _ => w.bucket.lookup key = none
  | .deleteObject _, .error _ => False
  | .list _, .error _ => False
  | .readFile path, .error _ => path ≠ dbPath
  | .openConn _, .error _ => False
  | .executeBatch _ _, .error _ => False
  | .queryMaster _, .error _ => False
  | _, _ => True

/-- Decoding inverts the encoding of what is uploaded, and no generation has `2 ^ 32`
segments. -/
def uploadsWell : Call → Prop
  | .putObject key data =>
    (key ≠ objectKey config .latest → ∀ raw, Encodes pf config raw data →
      pipelineDecode pf data config = .ok raw) ∧
    ∀ generation index, key = objectKey config (.segment generation index) → index + 1 < 2 ^ 32
  | _ => True

/-- Decoding inverts the encoding of what is uploaded. -/
def decodesWell : Call → Prop
  | .putObject key data => key ≠ objectKey config .latest → ∀ raw, Encodes pf config raw data →
    pipelineDecode pf data config = .ok raw
  | _ => True

/-- What the code relies on of the crates it calls: manifests can be written and read
back, and an encoding step does not fail. -/
structure Codec : Prop where
  serializes : ∀ manifest, ∃ json, pf.libs.jsonToVec manifest = .ok json
  parses : Parses pf.libs
  encodes : ∀ data r, EncodesTo pf config data r → ∃ encoded, r = .ok encoded

/-- No call of an environment fails. -/
structure Env.Faultless (env : Env A) : Prop where
  puts : ∀ key data, ¬ env.Denies (.putObject key data)
  misses : ∀ b key, env.Misses b key → b.lookup key = none
  deletes : ∀ key, ¬ env.Denies (.deleteObject key)
  reads : ¬ env.Denies (.readFile env.host.dbPath)
  batches : ∀ conn batch, ¬ env.Denies (.executeBatch conn batch)
  pins : ¬ PinFails env

section
variable {config} {env : Env A}

theorem Env.Faultless.of_allows
    (h : ∀ w c reply, env.allows w c reply → faultless env.host.dbPath w c reply) :
    env.Faultless := by
  have put : ∀ key data, ¬ env.Denies (.putObject key data) := by
    rintro key data ⟨w, _ | _, bad, allowed⟩
    · exact h w _ _ allowed
    · exact bad
  have delete : ∀ key, ¬ env.Denies (.deleteObject key) := by
    rintro key ⟨w, _ | _, bad, allowed⟩
    · exact h w _ _ allowed
    · exact bad
  have read : ¬ env.Denies (.readFile env.host.dbPath) := by
    rintro ⟨w, _ | _, bad, allowed⟩
    · exact h w _ _ allowed rfl
    · exact bad
  have batch : ∀ conn batch, ¬ env.Denies (.executeBatch conn batch) := by
    rintro conn batch ⟨w, _ | _, bad, allowed⟩
    · exact h w _ _ allowed
    · exact bad
  refine ⟨put, ?_, delete, read, batch, ?_⟩
  · rintro b key ⟨w, e, rfl, allowed⟩
    exact h w _ _ allowed
  · rintro ⟨conn, denied | ⟨w, _ | _, bad, allowed⟩⟩
    · exact batch conn _ denied
    · exact h w _ _ allowed
    · exact bad

theorem Env.inverts_of_allows (h : ∀ w c reply, env.allows w c reply → uploadsWell config c) :
    env.Inverts config := by
  rintro key data encoded ⟨w, reply, allowed⟩ notLatest encodes
  exact (h w _ reply allowed).1 notLatest data encodes

theorem Env.counts_of_allows (h : ∀ w c reply, env.allows w c reply → uploadsWell config c) :
    env.Counts config := by
  rintro generation index encoded ⟨w, reply, allowed⟩
  exact (h w _ reply allowed).2 generation index rfl

variable {w w' : World A} {h h' : Head}

theorem Env.Faultless.stores (sound : env.Faultless) (codec : Codec config) (o : Object)
    (data : Bytes) : ¬ StoreFails config env o data := by
  rintro (⟨e, failed⟩ | ⟨encoded, -, denied⟩)
  · obtain ⟨encoded, same⟩ := codec.encodes _ _ failed
    cases same
  · exact sound.puts _ _ denied

theorem Env.Faultless.lists (sound : env.Faultless) (codec : Codec config) (generation : Str)
    (manifest : GenerationManifest) : ¬ ListingFails config env generation manifest := by
  rintro (⟨e, failed⟩ | ⟨json, -, failed⟩)
  · obtain ⟨json, written⟩ := codec.serializes manifest
    cases written.symm.trans failed
  · exact sound.stores codec _ _ failed

theorem SnapshotExit.faultless {r : Except Error Unit} (sound : env.Faultless) (codec : Codec config)
    (exit : SnapshotExit config env w h r h' w') : r = .ok () := by
  cases exit with
  | unread moved failed => exact absurd failed sound.reads
  | unpublished read moved failed =>
    obtain failed | failed := failed
    · exact absurd failed (sound.stores codec _ _)
    · exact absurd failed (sound.puts _ _)
  | unlisted read moved sent ticks failed => exact absurd failed (sound.lists codec _ _)
  | done => rfl

theorem Regenerated.faultless {r : Except Error Unit} (sound : env.Faultless) (codec : Codec config)
    (exit : Regenerated config env w h r h' w') :
    ∃ generation now a a' w₁, env.host.during w.app a ∧ Fresh w.bucket generation ∧
      env.host.tick w.clock now ∧
      SnapshotExit config env { w with app := a, clock := now, log := .drew generation :: w.log }
        (h.begun generation now) (.ok ()) h' w₁ ∧
      env.host.during w₁.app a' ∧ w' = { w₁ with app := a' } ∧ r = .ok () := by
  obtain ⟨moved, fresh, ticks, exit, pinned, moved'⟩ := exit
  obtain rfl := exit.faultless sound codec
  have ok : r = .ok () := pinned.resolve_right fun failed => sound.pins failed.1
  exact ⟨_, _, _, _, _, moved, fresh, ticks, exit, moved', rfl, ok⟩

theorem UploadExit.faultless {walData : Bytes} {r : Except Error Unit} (sound : env.Faultless)
    (codec : Codec config) (exit : UploadExit config env w h walData r h' w') : r = .ok () := by
  cases exit with
  | unsaved moved failed => exact absurd failed (sound.stores codec _ _)
  | unlisted moved sent ticks failed => exact absurd failed (sound.lists codec _ _)
  | done => rfl

theorem segmentsData_present {b : Bucket} {generation : Str} {segments : List SegmentMeta}
    {data : Bytes} (held : segmentsData config b generation segments = some data) :
    ∀ s ∈ segments, (object config b (.segment generation s.index)).isSome := by
  induction segments generalizing data with
  | nil => simp
  | cons s rest ih =>
    obtain ⟨x, hx, later⟩ := Option.bind_eq_some_iff.mp held
    obtain ⟨y, hy, -⟩ := Option.map_eq_some_iff.mp later
    obtain ⟨raw, hraw, -⟩ := Option.bind_eq_some_iff.mp hx
    intro s' hs'
    obtain rfl | hs' := List.mem_cons.mp hs'
    · rw [hraw]
      rfl
    · exact ih hy s' hs'

theorem CompactExit.faultless {maxSize : Nat} {r : Except Error Unit} {data : Bytes}
    (sound : env.Faultless) (codec : Codec config)
    (held : segmentsData config w.bucket h.generation h.manifest.segments = some data)
    (exit : CompactExit config env w h maxSize r h' w') : r = .ok () := by
  cases exit with
  | few => rfl
  | undownloaded several moved failed =>
    obtain ⟨s, hs, missed⟩ | gone := failed
    · have present := segmentsData_present held s hs
      rw [object, sound.misses _ _ missed] at present
      cases present
    · cases gone.symm.trans held
  | unchunked several downloaded chunked failed => exact absurd failed (sound.stores codec _ _)
  | unlisted recut failed => exact absurd failed (sound.lists codec _ _)
  | undeleted recut listed failed =>
    obtain ⟨s, -, denied⟩ := failed
    exact absurd denied (sound.deletes _)
  | done => rfl

end

/-- The runs of some operations in which no call fails. -/
def flawless (ops : Request → Prop) (host : Host A) : Regime pf A where
  host := host
  enabled q _ := ops q
  allows _ _ w c reply := faultless config.dbPath w c reply ∧ uploadsWell config c
  drift := idleMove host

section
variable {config} {host : Host A} {ops ops' : Request → Prop}
  {c c' : Conf (process config) (World A)}

/-- A run of these operations is one of more. -/
theorem flawless_mono (more : ∀ q, ops q → ops' q)
    (run : (flawless config ops host).Reach config c c') :
    (flawless config ops' host).Reach config c c' := by
  refine Relation.ReflTransGen.mono (fun _ _ move => ?_) _ _ run
  cases move with
  | issue allowed => exact .issue (more _ allowed)
  | call served => exact .call served
  | finish => exact .finish
  | drift moved => exact .drift moved

end

end Waloy.Spec
