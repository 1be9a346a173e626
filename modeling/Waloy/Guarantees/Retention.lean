import Waloy.Guarantees.Publication
import Waloy.Spec.Directory

/-!
# What a retention run deletes

A retention run spares the generation of the manager. That is the generation in
`latest`, unless a checkpoint or a recovery failed after it drew its generation; then
the marker still names an older one, which may be old enough to be deleted.
-/
namespace Waloy.Spec
open Waloy.Effect Waloy.Source

variable {pf : Platform} (config : BackupConfig pf.build) {A : Type}

/-- No object of the generation in `latest` is lost. -/
def Spares (b b' : Bucket) : Prop :=
  ∀ generation, object config b .latest = some (asBytes generation) →
    ∀ key, (S3Client.new config.s3).fullKey (generation ++ ['/']) <+: key →
      (b.lookup key).isSome → (b'.lookup key).isSome

/-- `latest` names a generation with a snapshot, and only its own objects lie under it. -/
def Restorable (b : Bucket) : Prop :=
  ∃ generation, Published config b generation ∧ Tidy config b generation

/-- What the operations other than a retention run do to a bucket. -/
inductive Orderly : Bucket → Bucket → Prop where
  | still (b : Bucket) : Orderly b b
  | stored {b : Bucket} {o : Object} {generation : Str} {data : Bytes}
      (owner : ownerOf o = some generation) (plain : '/' ∉ generation) :
      Orderly b (store config b o data)
  | published {b : Bucket} {generation : Str} (tidy : Tidy config b generation)
      (snapshot : (object config b (.snapshot generation)).isSome) :
      Orderly b (store config b .latest (asBytes generation))
  | dropped {b : Bucket} {generation : Str} {index : Nat} :
      Orderly b (b.erase (objectKey config (.segment generation index)))

/-- What a retention run does to a bucket. -/
def Thinned (b b' : Bucket) : Prop :=
  Spares config b b' ∧ (Restorable config b → Restorable config b') ∧
    ∀ generation, Tidy config b generation → Tidy config b' generation

section
variable {config} {env : Env A} {b b' : Bucket} {w w' : World A} {h h' : Head} {generation : Str}

theorem Orderly.tidy (step : Orderly config b b') (tidy : Tidy config b generation) :
    Tidy config b' generation := by
  cases step with
  | still => exact tidy
  | @stored o own data owner plain =>
    refine tidy.store fun own' owner' => ?_
    obtain rfl : own = own' := Option.some.inj (owner.symm.trans owner')
    exact plain
  | published => exact tidy.store fun own owner => nomatch owner
  | dropped => exact tidy.erase _

theorem Orderly.restorable (step : Orderly config b b') (h : Restorable config b) :
    Restorable config b' := by
  obtain ⟨generation, published, tidy⟩ := h
  cases step with
  | still => exact ⟨generation, published, tidy⟩
  | @stored o own data owner plain =>
    refine ⟨generation, ⟨?_, ?_⟩, Orderly.tidy (.stored owner plain) tidy⟩
    · rw [object_store, if_neg (by rintro rfl; cases owner)]
      exact published.latest
    · rw [object_store]
      split
      · rfl
      · exact published.snapshot
  | @published own tidy' snapshot =>
    have kept : Published config (store config b .latest (asBytes own)) own :=
      ⟨by simp, by simpa using snapshot⟩
    exact ⟨own, kept, Orderly.tidy (.published tidy' snapshot) tidy'⟩
  | dropped =>
    refine ⟨generation, ?_, tidy.erase _⟩
    exact published.of_objects (by simp) (by simp)

theorem along_orderly {b₁ : Bucket} {rest : List Bucket} (step : Orderly config b b₁)
    (later : Along (Orderly config) b₁ rest) : Along (Orderly config) b (b₁ :: rest) :=
  ⟨.still _, step, later⟩

theorem orderly_snapshot (tidy : Tidy config w.bucket h.generation) :
    SnapshotWatched config env (Orderly config) w h where
  start := .still _
  published a raw encoded read sent := by
    have saved : Orderly config w.bucket (withSnapshot config w.bucket h.generation encoded) :=
      .stored rfl tidy.1
    refine along_orderly saved (along_orderly (.published (saved.tidy tidy) ?_) (.still _))
    simp [withSnapshot]
  listed a raw encoded now manifest read sent listed := along_orderly (.stored rfl tidy.1) (.still _)

theorem orderly_regeneration : RegenerationWatched config env (Orderly config) w h :=
  ⟨.still _, fun _ _ _ _ fresh _ => orderly_snapshot (tidy_of_fresh fresh)⟩

theorem orderly_sync (plain : '/' ∉ h.generation) :
    SyncWatched config env (Orderly config) w h where
  start := .still _
  recovers _ _ _ _ := orderly_regeneration
  uploads a walData read continuous frames new :=
    { start := .still _
      saved := fun _ _ => along_orderly (.stored rfl (by simpa using plain)) (.still _)
      listed := fun _ _ _ _ _ => along_orderly (.stored rfl (by simpa using plain)) (.still _) }

theorem orderly_checkpoint (plain : '/' ∉ h.generation) :
    CheckpointWatched config env (Orderly config) w h :=
  ⟨orderly_sync plain, fun _ _ _ _ _ _ _ _ => orderly_regeneration, fun _ _ _ _ => .still _⟩

theorem orderly_erase (segments : List SegmentMeta) (b : Bucket) :
    Along (Orderly config) b (eraseTrail config generation segments b) := by
  induction segments generalizing b with
  | nil => exact .still b
  | cons s rest ih => exact along_orderly .dropped (ih _)

theorem orderly_compact (plain : '/' ∉ h.generation) (maxSize : Nat) :
    CompactWatched config env (Orderly config) w h maxSize where
  start := .still _
  chunks _ _ _ :=
    ⟨fun _ => .still _, fun _ _ _ => along_orderly (.stored rfl plain) (.still _)⟩
  listed _ _ _ _ _ _ _ := along_orderly (.stored rfl plain) (.still _)
  deleted _ _ _ _ _ _ _ := orderly_erase _ _

theorem orderly_request {q : Request} {s : Manager pf} (hq : q ≠ .enforceRetention)
    (tidy : ∀ m, s = some m → Tidy config w.bucket m.generation) :
    RequestWatched config env (Orderly config) w q s := by
  have opens : OpeningWatched config env (Orderly config) w :=
    ⟨.still _, fun _ _ _ _ fresh _ => orderly_snapshot (tidy_of_fresh fresh)⟩
  cases s with
  | none =>
    cases q with
    | new => exact opens
    | _ => trivial
  | some m =>
    have own := tidy m rfl
    cases q with
    | new => exact opens
    | syncWal => exact orderly_sync own.1
    | snapshot => exact orderly_snapshot own
    | checkpoint => exact orderly_checkpoint own.1
    | maybeSnapshot => exact fun _ _ => orderly_checkpoint own.1
    | compact => exact orderly_compact own.1 _
    | enforceRetention => exact absurd rfl hq
    | shutdown => exact ⟨orderly_sync own.1, fun _ _ _ _ => .still _⟩

theorem Thinned.refl (b : Bucket) : Thinned config b b :=
  ⟨fun _ _ _ _ present => present, id, fun _ => id⟩

/-- A delete outside of the generation in `latest`. -/
theorem thinned_erase {key : Str} (latest : object config b .latest = some (asBytes generation))
    (outside : ¬ (S3Client.new config.s3).fullKey (generation ++ ['/']) <+: key)
    (unmarked : key ≠ objectKey config .latest) : Thinned config b (b.erase key) := by
  have same : ∀ other, object config b .latest = some (asBytes other) → other = generation := by
    intro other marked
    have bytes : asBytes other = asBytes generation := Option.some.inj (marked.symm.trans latest)
    simpa using congrArg fromUtf8 bytes
  refine ⟨?_, ?_, fun _ tidy => tidy.erase key⟩
  · intro other marked key' inside present
    obtain rfl := same other marked
    rw [AList.lookup_erase_ne (by rintro rfl; exact outside inside)]
    exact present
  · rintro ⟨other, published, tidy⟩
    obtain rfl := same other published.latest
    refine ⟨other, ⟨?_, ?_⟩, tidy.erase key⟩
    · rw [object, AList.lookup_erase_ne unmarked.symm]
      exact latest
    · rw [object, AList.lookup_erase_ne (by rintro rfl; exact outside (objectKey_inside rfl))]
      exact published.snapshot

/-- A retention run that finds the generation in `latest` its own or young enough. -/
theorem thinned_retention (restorable : Restorable config w.bucket)
    (safe : ∀ a reply duration generation manifest, config.retentionDuration = some duration →
      env.allows { w with app := a } .systemTime reply →
      object config w.bucket .latest = some (asBytes generation) → generation ≠ h.generation →
      manifestAt config w.bucket generation = some manifest →
      reading reply - duration % 2 ^ 64 ≤ manifest.createdAtMs) :
    RetentionWatched config env (Thinned config) w h where
  start := .refl _
  deletes a reply duration b retention moved allowed ticks expunged := by
    obtain ⟨generation, published, tidy⟩ := restorable
    refine ⟨.refl _, fun key doomed => ⟨.refl _, ?_, .refl _⟩⟩
    have latest : object config b .latest = some (asBytes generation) :=
      expunged.latest.trans published.latest
    refine thinned_erase latest ?_ ?_
    · exact doomed.outside tidy fun other manifest found =>
        safe a reply duration generation manifest retention allowed published.latest other found
    · rintro rfl
      exact not_doomed_latest doomed

theorem Expunged.published {own : Str} {cutoffMs : Nat} (h : Expunged config b own cutoffMs b')
    (tidy : Tidy config b own) (published : Published config b own) : Published config b' own := by
  have left : object config b' (.snapshot own) = object config b (.snapshot own) :=
    h.left tidy (fun other => absurd rfl other) (objectKey_inside rfl)
  exact published.of_objects h.latest left

theorem Heeded.retained (heeded : Heeded config h w) (tidy : Tidy config w.bucket h.generation)
    (exit : RetentionExit config env w h w') : Heeded config h w' := by
  cases exit with
  | off => exact heeded
  | ran retention read allowed ticks moved expunged =>
    exact fun settled => expunged.published tidy (heeded settled)

@[simp] theorem pending_logSegments (pairs : List (SegmentMeta × Bytes)) (log : List Event) :
    Pending config (logSegments config generation pairs log) ↔ Pending config log := by
  induction pairs generalizing log with
  | nil => rfl
  | cons p rest ih => simp [logSegments, ih]

theorem Heeded.compacted {maxSize : Nat} {r : Except Error Unit} (heeded : Heeded config h w)
    (exit : CompactExit config env w h maxSize r h' w') : Heeded config h' w' := by
  intro settled
  cases exit with
  | few => exact heeded settled
  | undownloaded => exact heeded settled
  | unchunked several downloaded chunked failed partly moved =>
    have published := heeded (by simpa using settled)
    obtain rfl | ⟨encoded, -, rfl⟩ := partly
    · exact published.of_objects (by simp [withChunks]) (by simp [withChunks])
    · exact published.of_objects (by simp [withChunks]) (by simp [withChunks])
  | unlisted recut failed partly moved =>
    have published := heeded (by simpa using settled)
    obtain rfl | ⟨manifest, -, rfl⟩ := partly
    · exact published.of_objects (by simp [withChunks]) (by simp [withChunks])
    · exact published.of_objects (by simp [withChunkList, withChunks])
        (by simp [withChunkList, withChunks])
  | undeleted recut listed failed split moved =>
    have published := heeded (by simpa using settled)
    exact published.of_objects (by simp [withChunkList, withChunks])
      (by simp [withChunkList, withChunks])
  | done recut listed moved =>
    have published := heeded (by simpa using settled)
    exact published.of_objects (by simp [withChunkList, withChunks])
      (by simp [withChunkList, withChunks])

theorem SnapshotExit.published (exit : SnapshotExit config env w h (.ok ()) h' w') :
    Published config w'.bucket h'.generation := by
  cases exit with
  | done => exact published_withManifest _ _ _ _

theorem SnapshotExit.logged {r : Except Error Unit} (exit : SnapshotExit config env w h r h' w')
    (drawn : .drew h.generation ∈ w.log) : .drew h'.generation ∈ w'.log := by
  cases exit with
  | unread => exact drawn
  | unpublished read moved failed partly logged => obtain rfl | rfl := logged <;> simpa using drawn
  | unlisted => simpa [Head.restarted] using drawn
  | done => simpa [Head.restarted] using drawn

theorem Regenerated.logged {r : Except Error Unit} (exit : Regenerated config env w h r h' w') :
    .drew h'.generation ∈ w'.log := by
  obtain ⟨moved, fresh, ticks, exit, -, moved'⟩ := exit
  exact exit.logged (by simp [Head.begun])

theorem UploadExit.logged {walData : Bytes} {r : Except Error Unit}
    (exit : UploadExit config env w h walData r h' w') (drawn : .drew h.generation ∈ w.log) :
    .drew h'.generation ∈ w'.log := by
  cases exit with
  | unsaved => exact drawn
  | unlisted => simpa [Head.listed] using drawn
  | done => simpa [Head.advanced, Head.listed] using drawn

theorem SyncExit.logged {r : Except Error Bool} (exit : SyncExit config env w h r h' w')
    (drawn : .drew h.generation ∈ w.log) : .drew h'.generation ∈ w'.log := by
  cases exit with
  | absent => exact drawn
  | unread => exact drawn
  | short => exact drawn
  | recovered read long broken exit => exact exit.logged
  | unrecovered read long broken exit => exact exit.logged
  | covered => simpa using drawn
  | uploaded read long continuous frames new exit => exact exit.logged (by simpa using drawn)
  | unsent read long continuous frames new exit => exact exit.logged (by simpa using drawn)

theorem CheckpointExit.logged {r : Except Error Unit} (exit : CheckpointExit config env w h r h' w')
    (drawn : .drew h.generation ∈ w.log) : .drew h'.generation ∈ w'.log := by
  cases exit with
  | unsynced sync => exact sync.logged drawn
  | unmoved sync moved cut failed => exact sync.logged drawn
  | regenerated sync moved cut exit => exact exit.logged

theorem IntervalExit.logged {r : Except Error Bool} (exit : IntervalExit config env w h r h' w')
    (drawn : .drew h.generation ∈ w.log) : .drew h'.generation ∈ w'.log := by
  cases exit with
  | skipped => exact drawn
  | taken moved exit => exact exit.logged drawn
  | failed moved exit => exact exit.logged drawn

theorem CompactExit.logged {maxSize : Nat} {r : Except Error Unit}
    (exit : CompactExit config env w h maxSize r h' w') (drawn : .drew h.generation ∈ w.log) :
    .drew h'.generation ∈ w'.log := by
  cases exit with
  | few => exact drawn
  | undownloaded => exact drawn
  | unchunked => simpa using drawn
  | unlisted => simpa [Head.relisted] using drawn
  | undeleted => simpa [Head.compacted, Head.relisted] using drawn
  | done => simpa [Head.compacted, Head.relisted] using drawn

end

/-- The runs of one manager in which every call may fail. -/
def retention (host : Host A) : Regime pf A where
  host := host
  enabled q s := q ≠ .shutdown ∧ (q = .new → s = none)
  allows _ _ _ _ _ := True
  drift := idleMove host

/-- No retention run reads the clock while the marker of the manager's generation is
pending and `latest` names another generation that has expired. -/
def settledRetention (q : Request) (s : Manager pf) (w : World A) : (c : Call) → c.Reply → Prop
  | .systemTime, reply =>
    q = .enforceRetention → Pending config w.log → ∀ m, s = some m →
      ∀ generation, object config w.bucket .latest = some (asBytes generation) →
      generation ≠ m.generation →
      ∀ manifest duration, manifestAt config w.bucket generation = some manifest →
      config.retentionDuration = some duration →
      reading reply - duration % 2 ^ 64 ≤ manifest.createdAtMs
  | _, _ => True

/-- Retention never deletes the backup that a restore needs. -/
structure LatestRetained (R : Regime pf A) : Prop where
  /-- No call of a retention run loses an object of the generation in `latest`. -/
  spared : ∀ {b a t s start c next w reply w'},
    R.Reach config (.idle none ⟨b, a, t, []⟩)
      (.running .enforceRetention s start (.call c next) w) →
    (R.env config .enforceRetention s).serve w c reply w' → Spares config w.bucket w'.bucket
  /-- Once `new` has succeeded, `latest` names a generation with a snapshot. -/
  named : ∀ {b a t m w}, R.Reach config (.idle none ⟨b, a, t, []⟩) (.idle (some m) w) →
    ∃ generation, Published config w.bucket generation
  /-- So it does at every point of a later operation. -/
  named_inside : ∀ {b a t q m start p w},
    R.Reach config (.idle none ⟨b, a, t, []⟩) (.running q (some m) start p w) →
    ∃ generation, Published config w.bucket generation

/-- A configuration that keeps expired generations for a millisecond. -/
def briefConfig : BackupConfig plain.build := { plainConfig with retentionDuration := some 1 }

/-- The checkpoint fails at its snapshot object, after it drew its generation. The
next retention run deletes the first generation, which `latest` still names. -/
theorem not_latestRetained :
    ¬ LatestRetained briefConfig (retention (fileHost fun t t' => t ≤ t')) := by
  let R : Regime plain Files := retention (fileHost fun t t' => t ≤ t')
  let M : Machine R :=
    { enable := fun q s => q ≠ .shutdown ∧ (q = .new → s.isNone)
      truncate := id
      install := fun files _ _ => files
      check := fun _ _ _ _ _ => true
      enabled := fun _ _ enabled => by simpa [R, retention, imp_iff_not_or] using enabled
      truncated := fun _ => trivial
      installed := fun _ _ _ => trivial
      ticks := fun t _ => Nat.le_succ t
      checked := fun _ _ _ _ _ _ => trivial }
  let w₀ : World Files := ⟨∅, ⟨some dbFile, none⟩, 1000, []⟩
  let cues : List (Machine.Cue R) :=
    [.perform .new (fun _ => false), .perform .checkpoint isPut]
  have played : (M.call briefConfig cues .enforceRetention (fun _ => false) (none, w₀)).any
      (fun out => out.2.1.2.isSome ∧
        object briefConfig out.2.2.bucket .latest = some (asBytes (uuid 0)) ∧
          (object briefConfig out.2.2.bucket (.snapshot (uuid 0))).isNone) = true := by
    decide +kernel
  obtain ⟨s, start, ⟨result, s'⟩, w, run, checked⟩ := Machine.exists_call played
  intro claim
  obtain ⟨opened, latest, gone⟩ := of_decide_eq_true checked
  obtain ⟨m, rfl⟩ := Option.isSome_iff_exists.mp opened
  obtain ⟨generation, published⟩ := claim.named run.finish
  have bytes : asBytes generation = asBytes (uuid 0) :=
    Option.some.inj (published.latest.symm.trans latest)
  obtain rfl : generation = uuid 0 := by simpa using congrArg fromUtf8 bytes
  have there := published.snapshot
  rw [Option.isNone_iff_eq_none.mp gone] at there
  cases there

/-- What an open manager of these runs keeps. -/
structure Upheld (h : Head) (w : World A) : Prop where
  heeded : Heeded config h w
  logged : .drew h.generation ∈ w.log

/-- Every generation that was drawn has its directory for itself. -/
def TidyLog (w : World A) : Prop :=
  ∀ generation, .drew generation ∈ w.log → Tidy config w.bucket generation

/-- What the calls of an operation do to the bucket. -/
def changeOf : Request → Bucket → Bucket → Prop
  | .enforceRetention => Thinned config
  | _ => Orderly config

def retaining : Setting.Invariant (C := process config) (W := World A) where
  idle s w := TidyLog config w ∧ (s.isSome → Restorable config w.bucket) ∧
    Holding config (Upheld config) s w
  always _ s _ w := TidyLog config w ∧ (s.isSome → Restorable config w.bucket)
  guard q _ _ := watch (changeOf config q)

section
variable {config} {env : Env A} {b b' : Bucket} {w w' : World A} {q : Request}
  {s s' : Manager pf} {r : Except Error Answer} {generation : Str}

theorem changeOf_tidy (changed : changeOf config q b b') (tidy : Tidy config b generation) :
    Tidy config b' generation := by
  cases q with
  | enforceRetention => exact changed.2.2 _ tidy
  | _ => exact Orderly.tidy changed tidy

theorem changeOf_restorable (changed : changeOf config q b b') (h : Restorable config b) :
    Restorable config b' := by
  cases q with
  | enforceRetention => exact changed.2.1 h
  | _ => exact Orderly.restorable changed h

theorem TidyLog.call {c : Call} {reply : c.Reply} (tidy : TidyLog config w)
    (served : env.serve w c reply w') (changed : changeOf config q w.bucket w'.bucket) :
    TidyLog config w' := by
  obtain ⟨a, moved, allowed, acts⟩ := served
  intro generation drawn
  obtain older | ⟨fresh, same⟩ := acts.drew drawn
  · exact changeOf_tidy changed (tidy generation older)
  · rw [same]
    exact tidy_of_fresh fresh

/-- One case for each operation of these runs. -/
theorem Upheld.performed (enabled : q ≠ .shutdown) (tidy : TidyLog config w)
    (idle : Holding config (Upheld config) s w) (performed : Performed config env w q s r s' w') :
    Holding config (Upheld config) s' w' := by
  cases performed with
  | opened uses exit =>
    refine .some uses ⟨.opening exit, ?_⟩
    obtain ⟨generation, now, a, a', w₁, opened, fresh, ticks, taken, moved, rfl⟩ := exit.of_ok
    exact taken.logged (by simp [Head.initial])
  | unopened => exact .none _
  | synced uses exit =>
    have upheld := (idle _ rfl).2
    exact .some uses ⟨upheld.heeded.sync exit, exit.logged upheld.logged⟩
  | snapped uses exit =>
    have upheld := (idle _ rfl).2
    exact .some uses ⟨upheld.heeded.snapshot exit, exit.logged upheld.logged⟩
  | checkpointed uses exit =>
    have upheld := (idle _ rfl).2
    exact .some uses ⟨upheld.heeded.checkpoint exit, exit.logged upheld.logged⟩
  | considered uses exit =>
    have upheld := (idle _ rfl).2
    exact .some uses ⟨upheld.heeded.interval exit, exit.logged upheld.logged⟩
  | compacted uses exit =>
    have upheld := (idle _ rfl).2
    exact .some uses ⟨upheld.heeded.compacted exit, exit.logged upheld.logged⟩
  | retained uses exit =>
    have upheld := (idle _ rfl).2
    refine .some uses ⟨upheld.heeded.retained (tidy _ upheld.logged) exit, ?_⟩
    cases exit with
    | off => exact upheld.logged
    | ran => exact upheld.logged
  | closed => exact absurd rfl enabled

/-- A manager that has just been opened has a restorable bucket. -/
theorem Restorable.opened (tidy : TidyLog config w') (upheld : Holding config (Upheld config) s' w')
    (performed : Performed config env w .new s r s' w') (open' : s'.isSome) :
    Restorable config w'.bucket := by
  cases performed with
  | @opened _ m' _ uses exit =>
    have drawn := (upheld m' rfl).2.logged
    refine ⟨m'.generation, ?_, tidy _ drawn⟩
    obtain ⟨generation, now, a, a', w₁, opened, fresh, ticks, taken, moved, rfl⟩ := exit.of_ok
    exact taken.published
  | unopened => cases open'

end

theorem retaining_kept (host : Host A) :
    (retaining config).Kept
      (Regime.setting config { retention host with allows := settledRetention config }) where
  entered _ idle := ⟨idle.1, idle.2.1⟩
  stays always served changed :=
    ⟨always.1.call served changed, fun opened => changeOf_restorable changed (always.2 opened)⟩
  drift := by
    rintro s w w' ⟨tidy, restorable, holds⟩ ⟨a, t, -, -, rfl⟩
    exact ⟨tidy, restorable, fun m hs => ⟨(holds m hs).1, (holds m hs).2.heeded, (holds m hs).2.logged⟩⟩
  body := by
    intro q s w enabled idle
    obtain ⟨tidy, restorable, holds⟩ := idle
    let env := Regime.env config { retention host with allows := settledRetention config } q s
    have watched : RequestWatched config env (changeOf config q) w q s := by
      by_cases hq : q = .enforceRetention
      · subst hq
        cases s with
        | none => trivial
        | some m =>
          refine thinned_retention (restorable rfl) ?_
          intro a reply duration generation manifest retained allowed latest other found
          refine allowed rfl ?_ m rfl generation latest other manifest duration found retained
          by_contra settled
          have published := (holds m rfl).2.heeded settled
          have bytes : asBytes generation = asBytes m.generation :=
            Option.some.inj (latest.symm.trans published.latest)
          have same : generation = m.generation := by simpa using congrArg fromUtf8 bytes
          exact other same
      · have orderly : changeOf config q = Orderly config := by
          cases q <;> first | rfl | exact absurd rfl hq
        rw [orderly]
        exact orderly_request hq fun m hs => tidy _ (holds m hs).2.logged
    refine Prog.wp_mono (fun _ _ _ _ h => h) (fun _ _ _ _ h => h) ?_ _ _
      (wp_process rfl (fun m hs => (holds m hs).1) watched)
    rintro ⟨result, s'⟩ w' performed ⟨tidy', restorable'⟩
    have upheld := Upheld.performed enabled.1 tidy holds performed
    refine ⟨trivial, tidy', fun opened => ?_, upheld⟩
    cases s with
    | some m => exact restorable' rfl
    | none =>
      have hq : q = .new := by cases performed <;> rfl
      subst hq
      exact Restorable.opened tidy' upheld performed opened

/-- Retention never deletes the backup that a restore needs, as long as no retention
run finds the marker pending and the generation in `latest` expired. -/
theorem latest_retained (host : Host A) :
    LatestRetained config { retention host with allows := settledRetention config } := by
  have kept := retaining_kept config host
  have start : ∀ b a t, (retaining config).idle none (⟨b, a, t, []⟩ : World A) := by
    intro b a t
    refine ⟨?_, ?_, .none _⟩
    · intro generation drawn
      cases drawn
    · intro opened
      cases opened
  constructor
  case spared =>
    intro b a t s start' c next w reply w' run served
    exact (kept.guarded run (start b a t) served).1
  case named =>
    intro b a t m w run
    obtain ⟨-, restorable, -⟩ := kept.reach run (start b a t)
    obtain ⟨generation, published, -⟩ := restorable rfl
    exact ⟨generation, published⟩
  case named_inside =>
    intro b a t q m start' p w run
    obtain ⟨generation, published, -⟩ := (kept.always run (start b a t)).2 rfl
    exact ⟨generation, published⟩

end Waloy.Spec
