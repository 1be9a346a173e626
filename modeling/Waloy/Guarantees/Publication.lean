import Waloy.Spec.Machine

/-!
# Which generation a restore uses

`latest` names the generation that `restore_latest` replays. The manager draws a new
generation before it stores that marker, so a failure in between leaves a manager
whose uploads go to a generation that no restore looks at.
-/
namespace Waloy.Spec
open Waloy.Effect Waloy.Source

variable {pf : Platform} (config : BackupConfig pf.build) {A : Type}

/-- `latest` names the generation and its snapshot exists. -/
structure Published (b : Bucket) (generation : Str) : Prop where
  latest : object config b .latest = some (asBytes generation)
  snapshot : (object config b (.snapshot generation)).isSome

/-- A generation was drawn since the marker was last acknowledged. -/
def Pending : List Event → Prop
  | [] => False
  | .drew _ :: _ => True
  | .stored key :: rest => key ≠ objectKey config .latest ∧ Pending rest

/-- The generation of the manager is published, unless its marker is still pending. -/
def Heeded (h : Head) (w : World A) : Prop :=
  ¬ Pending config w.log → Published config w.bucket h.generation

section
variable {config} {env : Env A} {w w' : World A} {h h' : Head}

@[simp] theorem pending_stored (o : Object) (log : List Event) :
    Pending config (.stored (objectKey config o) :: log) ↔ o ≠ .latest ∧ Pending config log := by
  rw [Pending, Ne, objectKey_inj]

@[simp] theorem pending_drew (generation : Str) (log : List Event) :
    Pending config (.drew generation :: log) := trivial

theorem Published.of_objects {b b' : Bucket} {generation : Str}
    (published : Published config b generation)
    (latest : object config b' .latest = object config b .latest)
    (snapshot : object config b' (.snapshot generation) = object config b (.snapshot generation)) :
    Published config b' generation :=
  ⟨latest.trans published.latest, by rw [snapshot]; exact published.snapshot⟩

theorem published_withLatest (b : Bucket) (generation : Str) (encoded : Bytes) :
    Published config (withLatest config b generation encoded) generation :=
  ⟨by simp [withLatest], by simp [withLatest, withSnapshot]⟩

theorem published_withManifest (b : Bucket) (generation : Str) (encoded manifest : Bytes) :
    Published config (withManifest config b generation encoded manifest) generation :=
  ⟨by simp [withManifest, withLatest], by simp [withManifest, withLatest, withSnapshot]⟩

theorem Heeded.snapshot {r : Except Error Unit} (heeded : Heeded config h w)
    (exit : SnapshotExit config env w h r h' w') : Heeded config h' w' := by
  cases exit with
  | unread => exact heeded
  | unpublished read moved failed partly logged =>
    intro settled
    have published : Published config w.bucket h.generation := by
      refine heeded fun drawn => settled ?_
      obtain rfl | rfl := logged
      · exact drawn
      · simpa using drawn
    obtain rfl | ⟨encoded, -, rfl | rfl⟩ := partly
    · exact published
    · exact ⟨by simpa [withSnapshot] using published.latest, by simp [withSnapshot]⟩
    · exact published_withLatest _ _ _
  | unlisted read moved sent ticks failed partly =>
    intro _
    obtain rfl | ⟨manifest, -, rfl⟩ := partly
    · exact published_withLatest _ _ _
    · exact published_withManifest _ _ _ _
  | done => exact fun _ => published_withManifest _ _ _ _

theorem Heeded.moved (heeded : Heeded config h w) (a : A) :
    Heeded config h { w with app := a } := heeded

theorem heeded_of_drawn {log : List Event} {drawn : Str} (hlog : w.log = .drew drawn :: log) :
    Heeded config h w := fun settled => (settled (hlog ▸ trivial)).elim

theorem Heeded.regenerated {r : Except Error Unit} (exit : Regenerated config env w h r h' w') :
    Heeded config h' w' := by
  obtain ⟨moved, fresh, ticks, exit, -, moved'⟩ := exit
  exact (Heeded.snapshot (heeded_of_drawn rfl) exit).moved _

theorem Published.upload {walData : Bytes} {r : Except Error Unit}
    (published : Published config w.bucket h.generation)
    (exit : UploadExit config env w h walData r h' w') :
    Published config w'.bucket h'.generation := by
  cases exit with
  | unsaved moved failed partly =>
    obtain rfl | ⟨encoded, -, rfl⟩ := partly
    · exact published
    · exact published.of_objects (by simp [withSegment]) (by simp [withSegment])
  | unlisted moved sent ticks failed partly =>
    obtain rfl | ⟨manifest, -, rfl⟩ := partly
    · exact published.of_objects (by simp [withSegment]) (by simp [withSegment])
    · exact published.of_objects (by simp [withListing, withSegment])
        (by simp [withListing, withSegment])
  | done =>
    exact published.of_objects (by simp [withListing, withSegment])
      (by simp [withListing, withSegment])

theorem pending_upload {walData : Bytes} {r : Except Error Unit}
    (exit : UploadExit config env w h walData r h' w') :
    Pending config w'.log ↔ Pending config w.log := by
  cases exit <;> simp

theorem Heeded.upload {walData : Bytes} {r : Except Error Unit}
    (heeded : Heeded config h w) (exit : UploadExit config env w h walData r h' w') :
    Heeded config h' w' := fun settled =>
  (heeded fun drawn => settled ((pending_upload exit).mpr drawn)).upload exit

theorem Heeded.sync {r : Except Error Bool} (heeded : Heeded config h w)
    (exit : SyncExit config env w h r h' w') : Heeded config h' w' := by
  cases exit with
  | absent => exact heeded
  | unread => exact heeded
  | short => exact heeded
  | recovered read long broken exit => exact .regenerated exit
  | unrecovered read long broken exit => exact .regenerated exit
  | covered => simpa [Heeded] using heeded
  | uploaded read long continuous frames new exit =>
    exact Heeded.upload (by simpa [Heeded] using heeded) exit
  | unsent read long continuous frames new exit =>
    exact Heeded.upload (by simpa [Heeded] using heeded) exit

theorem Heeded.checkpoint {r : Except Error Unit} (heeded : Heeded config h w)
    (exit : CheckpointExit config env w h r h' w') : Heeded config h' w' := by
  cases exit with
  | unsynced sync => exact heeded.sync sync
  | unmoved sync moved cut failed =>
    exact (heeded.sync sync).moved _
  | regenerated sync moved cut exit => exact .regenerated exit

theorem Heeded.interval {r : Except Error Bool} (heeded : Heeded config h w)
    (exit : IntervalExit config env w h r h' w') : Heeded config h' w' := by
  cases exit with
  | skipped => exact heeded
  | taken moved exit => exact (heeded.moved _).checkpoint exit
  | failed moved exit => exact (heeded.moved _).checkpoint exit

theorem Heeded.opening (exit : OpeningExit config env w (.ok h') w') : Heeded config h' w' := by
  obtain ⟨generation, now, a, a', w₁, opened, fresh, ticks, taken, moved, rfl⟩ := exit.of_ok
  exact (Heeded.snapshot (heeded_of_drawn rfl) taken).moved _

end

/-- A sync that finds WAL bytes to upload. -/
structure Uploads (h : Head) (walData : Bytes) : Prop where
  continuous : h.discontinuous walData = false
  frames : walHeaderSize < walAlignedLen walData
  new : h.walOffset < walAlignedLen walData

/-- The runs of `new`, `sync_wal`, `snapshot`, `checkpoint` and `maybe_snapshot` in
which every call may fail. -/
def publication (host : Host A) : Regime pf A where
  host := host
  enabled q _ := q ∈ [.new, .syncWal, .snapshot, .checkpoint, .maybeSnapshot]
  allows _ _ _ _ _ := True
  drift := idleMove host

/-- No sync finds bytes to upload while the marker of its generation is pending. -/
def settledUploads (q : Request) (s : Manager pf) (w : World A) : (c : Call) → c.Reply → Prop
  | .readFile path, .ok walData =>
    q = .syncWal → path = config.dbPath ++ ['-', 'w', 'a', 'l'] → Pending config w.log →
      ∀ m, s = some m → ¬ Uploads (head m) walData
  | _, _ => True

/-- Whenever `sync_wal` returns `Ok(true)`, its generation is published. -/
def SyncsPublished (R : Regime pf A) : Prop :=
  ∀ w₀ s start m w, R.Reach config (.idle none w₀)
    (.running .syncWal s start (.pure (.ok (.flag true), some m)) w) →
    Published config w.bucket m.generation

/-- The checkpoint fails at its snapshot object, after it drew its generation. The
next sync uploads there and is acknowledged, while `latest` names the first. -/
theorem not_syncsPublished :
    ¬ SyncsPublished plainConfig (publication (fileHost fun _ _ => True)) := by
  let R : Regime plain Files := publication (fileHost fun _ _ => True)
  let M : Machine R :=
    { enable := fun q _ => q ∈ [.new, .syncWal, .snapshot, .checkpoint, .maybeSnapshot]
      truncate := id
      install := fun files _ _ => files
      check := fun _ _ _ _ _ => true
      enabled := fun _ _ enabled => by simpa [R, publication] using enabled
      truncated := fun _ => trivial
      installed := fun _ _ _ => trivial
      ticks := fun _ _ => trivial
      checked := fun _ _ _ _ _ _ => trivial }
  let w₀ : World Files := ⟨∅, ⟨some dbFile, none⟩, 1000, []⟩
  let cues : List (Machine.Cue R) :=
    [.perform .new (fun _ => false),
      .perform .checkpoint isPut,
      .move (fun files => { files with wal := some (walHeader 7 ++ walFrame 1) })
        (fun _ => ⟨_, _, trivial, .inl rfl, rfl⟩)]
  have played : (M.call plainConfig cues .syncWal (fun _ => false) (none, w₀)).any
      (fun out => out.2.1.1.toOption = some (.flag true) ∧ out.2.1.2.any fun m =>
        object plainConfig out.2.2.bucket .latest ≠ some (asBytes m.generation)) = true := by
    decide +kernel
  obtain ⟨s, start, ⟨result, s'⟩, w, run, checked⟩ :=
    Machine.exists_call played
  intro claim
  obtain ⟨returned, unmarked⟩ := of_decide_eq_true checked
  obtain ⟨m, rfl, differs⟩ := (Option.any_eq_true _ _).mp unmarked
  obtain rfl := eq_ok_of_toOption returned
  exact of_decide_eq_true differs (claim w₀ s start m w run).latest

/-- What these runs keep while no operation runs, and what a sync returns with. -/
def heeding : Setting.Invariant (C := process config) (W := World A) where
  idle := Holding config (Heeded config)
  result q _ _ result s' w' := q = .syncWal → result = .ok (.flag true) →
    ∀ m, s' = some m → Published config w'.bucket m.generation

section
variable {config} {env : Env A} {w w' : World A} {q : Request} {s s' : Manager pf}
  {r : Except Error Answer}

theorem Heeded.performed (enabled : q ∈ [.new, .syncWal, .snapshot, .checkpoint, .maybeSnapshot])
    (idle : Holding config (Heeded config) s w) (performed : Performed config env w q s r s' w') :
    Holding config (Heeded config) s' w' := by
  cases performed with
  | opened uses exit => exact .some uses (.opening exit)
  | unopened => exact .none _
  | synced uses exit => exact .some uses ((idle _ rfl).2.sync exit)
  | snapped uses exit => exact .some uses ((idle _ rfl).2.snapshot exit)
  | checkpointed uses exit => exact .some uses ((idle _ rfl).2.checkpoint exit)
  | considered uses exit => exact .some uses ((idle _ rfl).2.interval exit)
  | compacted => simp at enabled
  | retained => simp at enabled
  | closed => simp at enabled

/-- A sync that uploads finds the marker settled. -/
theorem Published.acknowledged {h h' : Head} {r : Except Error Bool}
    (heeded : Heeded config h w) (exit : SyncExit config env w h r h' w')
    (settled : ∀ a walData, ReadsWal env w a walData → Pending config w.log → ¬ Uploads h walData)
    (acknowledged : r = .ok true) : Published config w'.bucket h'.generation := by
  cases exit with
  | uploaded read long continuous frames new exit =>
    have published := heeded fun drawn => settled _ _ read drawn ⟨continuous, frames, new⟩
    exact Published.upload (by simpa using published) exit
  | _ => cases acknowledged

end

/-- An acknowledged sync lands in the generation that restore uses, as long as no
sync uploads while the marker of the manager's generation is pending. -/
theorem acknowledged_sync_published (host : Host A) :
    SyncsPublished config { publication host with allows := settledUploads config } := by
  have kept : (heeding config).Kept
      (Regime.setting config { publication host with allows := settledUploads config }) :=
    { entered := fun _ _ => trivial
      stays := fun _ _ _ => trivial
      drift := by
        rintro s w w' idle ⟨a, t, -, -, rfl⟩
        exact idle
      body := by
        intro q s w enabled idle
        refine Prog.wp_mono (fun _ _ _ _ h => h) (fun _ _ _ _ _ => trivial) ?_ _ _
          (wp_process rfl (fun m hs => (idle m hs).1) (request_any q s))
        rintro ⟨result, s'⟩ w' performed -
        refine ⟨?_, Heeded.performed enabled idle performed⟩
        rintro rfl rfl m rfl
        generalize hr : (Except.ok (Answer.flag true) : Except Error Answer) = r at performed
        cases performed with
        | @synced m₀ _ r _ uses exit =>
          refine Published.acknowledged (idle m₀ rfl).2 exit ?_ ?_
          · exact fun a walData read drawn => read.allowed rfl rfl drawn m₀ rfl
          · cases r <;> simp_all }
  intro w₀ s start m w run
  exact (kept.returned run (Holding.none config)).1 rfl rfl m rfl

end Waloy.Spec
