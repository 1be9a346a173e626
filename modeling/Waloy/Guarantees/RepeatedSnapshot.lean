import Waloy.Guarantees.CompactionInTime

/-!
# A snapshot of a generation that has one

A second snapshot replaces the first one of its generation and moves the time from which
the generation can be restored. The moments before the generation began are restored as
before, whatever the manager does in it.
-/
namespace Waloy.Spec
open Waloy.Effect Waloy.Source Waloy.Source.BackupManager

variable {pf : Platform} (config : BackupConfig pf.build) {A : Type}

/-- The generations up to a moment are as a bucket held them, and the one of the manager is
younger. -/
structure Early (T : Nat) (b₀ : Bucket) (a : Archive) : Prop where
  reached : T ≤ a.clock
  younger : ∀ manifest index, a.current = some (manifest, index) → T < manifest.snapshotTimestampMs
  listed : ∀ manifest index, a.current = some (manifest, index) →
    manifestAt config a.bucket manifest.generation = some manifest
  read : ∀ key, manifestSuffix <:+ key →
    ((readAt config a.bucket key).filter fun m => m.snapshotTimestampMs ≤ T) =
      (readAt config b₀ key).filter fun m => m.snapshotTimestampMs ≤ T
  kept : ∀ key m, ReadableAt config b₀ key m → m.snapshotTimestampMs ≤ T →
    ∀ o, ownerOf o = some m.generation → object config a.bucket o = object config b₀ o

/-- A failure-free run, a snapshot of the generation it is in, and syncs after that keep
what a restore to a moment before the snapshot writes, if it meets a condition. -/
def HistoryKept (host : Host A) (condition : BackupManager pf.build → Nat → Prop) : Prop :=
  ∀ {w₀ m start answer m' w' s w T},
    (∀ key manifest, ReadableAt config w₀.bucket key manifest →
      key = (Object.manifest manifest.generation).key) →
    (flawless config (fun q => q = .new ∨ q = .syncWal) host).Reach config (.idle none w₀)
      (.idle (some m) start) →
    (flawless config (fun q => q = .snapshot) host).Reach config (.idle (some m) start)
      (.running .snapshot (some m) start (.pure (.ok answer, some m')) w') →
    (flawless config (fun q => q = .syncWal) host).Reach config (.idle (some m') w') (.idle s w) →
    T < m'.manifest.snapshotTimestampMs → condition m T →
    ∀ targetPath restored, restoredToTime config T start.bucket targetPath = some restored →
      restoredToTime config T w.bucket targetPath = some restored

section
variable {config} {tick : Nat → Nat → Prop} {T index : Nat} {a a' : Archive} {b b' b₀ : Bucket}
  {manifest M : GenerationManifest}

/-- The writes of a generation spare the objects of the others. -/
theorem object_withManifest_of_ne {o : Object} {own generation : Str} {encoded listing : Bytes}
    (owner : ownerOf o = some own) (other : own ≠ generation) :
    object config (withManifest config b generation encoded listing) o = object config b o := by
  have apart : ∀ o', ownerOf o' = some generation → o ≠ o' := by
    rintro o' owner' rfl
    exact other (Option.some.inj (owner.symm.trans owner'))
  have unmarked : o ≠ .latest := by
    rintro rfl
    cases owner
  rw [withManifest, withLatest, withSnapshot, object_store, if_neg (apart _ rfl), object_store,
    if_neg unmarked, object_store, if_neg (apart _ rfl)]

theorem object_withAdded_of_ne {o : Object} {own : Str} {encoded listing : Bytes}
    (owner : ownerOf o = some own) (other : own ≠ manifest.generation) :
    object config (withAdded config b manifest index encoded listing) o = object config b o := by
  have apart : ∀ o', ownerOf o' = some manifest.generation → o ≠ o' := by
    rintro o' owner' rfl
    exact other (Option.some.inj (owner.symm.trans owner'))
  rw [withAdded, object_store, if_neg (apart _ rfl), object_store, if_neg (apart _ rfl)]

/-- A key that ends like one of a manifest is one. -/
theorem exists_manifest_key {key : Str} (suffixed : manifestSuffix <:+ key) :
    ∃ own, key = (Object.manifest own).key := by
  obtain ⟨own, rfl⟩ := suffixed
  exact ⟨own, rfl⟩

theorem Early.start (manifest_listed : manifestAt config b manifest.generation = some manifest)
    (younger : T < manifest.snapshotTimestampMs) {t : Nat} (reached : T ≤ t) :
    Early config T b ⟨b, t, some (manifest, index)⟩ where
  reached := reached
  younger := by
    rintro _ _ ⟨⟩
    exact younger
  listed := by
    rintro _ _ ⟨⟩
    exact manifest_listed
  read _ _ := rfl
  kept _ _ _ _ _ _ := rfl

/-- A step that writes one younger generation only. -/
theorem Early.written (early : Early config T b₀ a)
    (filed : ∀ key m, ReadableAt config b₀ key m → key = (Object.manifest m.generation).key)
    (younger : T < M.snapshotTimestampMs)
    (listed : manifestAt config b' M.generation = some M)
    (before : ∀ m, manifestAt config a.bucket M.generation = some m → T < m.snapshotTimestampMs)
    (spared : ∀ o own, ownerOf o = some own → own ≠ M.generation →
      object config b' o = object config a.bucket o) {t : Nat} (later : T ≤ t) :
    Early config T b₀ ⟨b', t, some (M, index)⟩ where
  reached := later
  younger := by
    rintro _ _ ⟨⟩
    exact younger
  listed := by
    rintro _ _ ⟨⟩
    exact listed
  read := by
    intro key suffixed
    rw [← early.read key suffixed]
    obtain ⟨own, rfl⟩ := exists_manifest_key suffixed
    change (manifestAt config b' own).filter _ = (manifestAt config a.bucket own).filter _
    by_cases same : own = M.generation
    · subst same
      have skipped : (manifestAt config a.bucket M.generation).filter
          (fun m => m.snapshotTimestampMs ≤ T) = none := by
        cases found : manifestAt config a.bucket M.generation with
        | none => rfl
        | some m => exact Option.filter_some_neg (decide_eq_false (Nat.not_le.mpr (before m found)))
      rw [skipped, listed]
      exact Option.filter_some_neg (decide_eq_false (Nat.not_le.mpr younger))
    · rw [manifestAt_congr config (spared (.manifest own) own rfl same)]
  kept := by
    intro key m read old o owner
    have other : m.generation ≠ M.generation := by
      intro same
      obtain rfl := filed key m read
      have found := early.read _ read.1
      have recent : (some m).filter (fun m => decide (m.snapshotTimestampMs ≤ T)) = some m :=
        Option.filter_some_pos (decide_eq_true old)
      rw [(readAt_eq_some read.1).mpr read, recent] at found
      have here : manifestAt config a.bucket M.generation = some m := by
        rw [← same]
        exact Option.eq_some_of_filter_eq_some found
      exact absurd old (Nat.not_le.mpr (before m here))
    exact (spared o _ owner other).trans (early.kept key m read old o owner)

theorem Early.grow (advances : ∀ t t', tick t t' → t < t')
    (filed : ∀ key m, ReadableAt config b₀ key m → key = (Object.manifest m.generation).key)
    (early : Early config T b₀ a) (step : Archive.Grow config tick a a') :
    Early config T b₀ a' := by
  cases step with
  | waited ticks => exact { early with reached := early.reached.trans (advances _ _ ticks).le }
  | closed => exact ⟨early.reached, nofun, nofun, early.read, early.kept⟩
  | @began b t created now c generation raw encoded listing fresh ticks ticks' decodes lists =>
    have future : T < now :=
      Nat.lt_of_le_of_lt early.reached ((advances _ _ ticks).trans (advances _ _ ticks'))
    refine early.written (M := firstManifest generation created now) filed future
      (manifestAt_withManifest lists) (fun m found => ?_) (fun o own owner other => ?_) future.le
    · have same : (firstManifest generation created now).generation = generation := rfl
      exact absurd same (fresh.ne found)
    · exact object_withManifest_of_ne owner other
  | @added b t now index offset manifest data encoded listing ticks some_data decodes lists =>
    have younger := early.younger manifest index rfl
    have listed := early.listed manifest index rfl
    refine early.written (M := manifest.addSegment index now offset data.length) filed younger
      (manifestAt_store lists) (fun m found => ?_) (fun o own owner other => ?_)
      (early.reached.trans (advances _ _ ticks).le)
    · obtain rfl := Option.some.inj (listed.symm.trans found)
      exact younger
    · exact object_withAdded_of_ne owner other

theorem Early.restarted (advances : ∀ t t', tick t t' → t < t')
    (filed : ∀ key m, ReadableAt config b₀ key m → key = (Object.manifest m.generation).key)
    {t now : Nat} {encoded listing : Bytes} (early : Early config T b₀ ⟨b, t, some (manifest, index)⟩)
    (ticks : tick t now) (lists : decodeManifest pf listing config = .ok (restamped manifest now)) :
    Early config T b₀ ⟨withManifest config b manifest.generation encoded listing, now,
      some (restamped manifest now, 0)⟩ := by
  have future : T < now := Nat.lt_of_le_of_lt early.reached (advances _ _ ticks)
  refine early.written (M := restamped manifest now) filed future (manifestAt_withManifest lists)
    (fun m found => ?_) (fun o own owner other => ?_) future.le
  · obtain rfl := Option.some.inj ((early.listed manifest index rfl).symm.trans found)
    exact early.younger _ index rfl
  · exact object_withManifest_of_ne owner other

theorem Early.extends (advances : ∀ t t', tick t t' → t < t')
    (filed : ∀ key m, ReadableAt config b₀ key m → key = (Object.manifest m.generation).key)
    (early : Early config T b₀ a) (steps : Archive.Extends config tick a a') :
    Early config T b₀ a' := by
  induction steps with
  | refl => exact early
  | tail _ step ih => exact ih.grow advances filed step

/-- The moment is restored as from the bucket then. -/
theorem Early.restored (early : Early config T b₀ a) (targetPath : Str) :
    restoredToTime config T a.bucket targetPath = restoredToTime config T b₀ targetPath := by
  rw [restoredToTime_eq, restoredToTime_eq, rebuiltToTime, rebuiltToTime,
    selectManifest_congr early.read]
  cases selected : selectManifest (readable config b₀) T with
  | none => rfl
  | some m =>
    obtain ⟨member, old⟩ := selectManifest_mem selected
    obtain ⟨key, read⟩ := mem_readable.mp member
    have kept := early.kept key m read old
    rw [Option.bind_some, Option.bind_some, content_congr config (kept _ rfl),
      segmentsData_congr config fun s _ => kept _ rfl]

/-- No manifest of a manager is from the future. -/
theorem Archive.Extends.stamped (advances : ∀ t t', tick t t' → t < t')
    (steps : Archive.Extends config tick a a')
    (stamped : ∀ manifest index, a.current = some (manifest, index) →
      manifest.snapshotTimestampMs ≤ a.clock) :
    ∀ manifest index, a'.current = some (manifest, index) →
      manifest.snapshotTimestampMs ≤ a'.clock := by
  induction steps with
  | refl => exact stamped
  | tail _ step ih =>
    cases step with
    | waited ticks => exact fun manifest index same => (ih manifest index same).trans (advances _ _ ticks).le
    | closed => exact nofun
    | began =>
      rintro _ _ ⟨⟩
      exact Nat.le_refl _
    | @added _ _ _ index _ manifest _ _ _ ticks =>
      rintro _ _ ⟨⟩
      exact (ih manifest index rfl).trans (advances _ _ ticks).le

end

/-- A snapshot keeps what is early. -/
def resnapping : Setting.Invariant (C := process config) (W := World A) where
  idle s w := Holding config Named s w
  result q s start result s' w' := q = .snapshot → result.isOk → ∀ T b₀,
    (∀ key m, ReadableAt config b₀ key m → key = (Object.manifest m.generation).key) →
    Early config T b₀ (archiveOf s start) → Early config T b₀ (archiveOf s' w')

section
variable {config} {host : Host A}

theorem resnapping_kept (codec : Codec config) (advances : ∀ t t', host.tick t t' → t < t') :
    (resnapping config).Kept
      (Regime.setting config (flawless config (fun q => q = .snapshot) host)) where
  entered _ _ := trivial
  stays _ _ _ := trivial
  drift := by
    rintro s w w' named ⟨a, t, moved, ticks, rfl⟩
    exact fun m held => named m held
  body := by
    rintro q s w rfl named
    refine Prog.wp_mono (fun _ _ _ _ h => h) (fun _ _ _ _ _ => trivial) ?_ _ _
      (wp_process rfl (fun m hs => (named m hs).1) (request_any .snapshot s))
    rintro ⟨result, s'⟩ w' performed -
    cases performed with
    | snapped uses exit =>
      obtain ⟨now, raw, encoded, listing, ticks, -, lists, after, kept⟩ :=
        exit.restarts (reliable_flawless _ .snapshot _) codec (named _ rfl).2
      refine ⟨fun _ _ T b₀ filed early => ?_, .some uses kept⟩
      change Early config T b₀ ((head _).archive w')
      rw [after]
      exact early.restarted advances filed ticks lists

/-- The moments before the first snapshot of the generation are restored as before. -/
theorem history_kept (codec : Codec config) (advances : ∀ t t', host.tick t t' → t < t') :
    HistoryKept config host fun m T => T < m.manifest.snapshotTimestampMs := by
  intro w₀ m start answer m' w' s w T filed before call after _ younger targetPath restored same
  have before : (timely config host).Reach config (.idle none w₀) (.idle (some m) start) :=
    flawless_mono (fun _ listed => listed.imp_right .inl) before
  have after : (timely config host).Reach config (.idle (some m') w') (.idle s w) :=
    flawless_mono (fun _ same => .inr (.inl same)) after
  have opened : (archived config host.tick (archiveOf none w₀)).idle (none : Manager pf) w₀ :=
    ⟨.refl, .none _⟩
  obtain ⟨steps, named⟩ := (archived_kept codec (archiveOf none w₀)).reach before opened
  have first : (archiveOf (none : Manager pf) w₀).Filed config := by
    refine ⟨filed, ?_⟩
    rintro _ _ ⟨⟩
  have here := first.extends (fun t t' ticks => (advances t t' ticks).le) steps
  have stamped := steps.stamped advances (by rintro _ _ ⟨⟩) m.manifest m.walIndex rfl
  have early : Early config T start.bucket (archiveOf (some m) start) :=
    .start (here.complete _ _ rfl).listed younger (younger.le.trans stamped)
  obtain ⟨kept, named'⟩ := (resnapping_kept codec advances).returned call named
  have middle := kept rfl rfl T start.bucket here.filed early
  have resumed : (archived config host.tick (archiveOf (some m') w')).idle (some m') w' :=
    ⟨.refl, named'⟩
  obtain ⟨later, -⟩ := (archived_kept codec (archiveOf (some m') w')).reach after resumed
  rw [← same]
  exact (middle.extends advances here.filed later).restored targetPath

theorem history_kept_plain :
    HistoryKept plainConfig (fileHost fun t t' => t < t') fun m T =>
      T < m.manifest.snapshotTimestampMs :=
  history_kept plain_codec fun _ _ later => later

end

/-- A snapshot after a sync, and the moment of the sync can no longer be restored. -/
theorem not_historyKept :
    ¬ HistoryKept plainConfig (fileHost fun t t' => t < t') fun _ _ => True := by
  let host : Host Files := fileHost fun t t' => t < t'
  let objects : List Object :=
    [.latest, .manifest (uuid 0), .snapshot (uuid 0), .segment (uuid 0) 0]
  let R : Regime plain Files := flawless plainConfig (fun q => q = .new ∨ q = .syncWal) host
  let M : Machine R := flawlessMachine none _ Nat.lt_succ_self objects rfl
  let M' : Machine (flawless plainConfig (fun q => q = .snapshot) host) :=
    flawlessMachine none _ Nat.lt_succ_self objects rfl
  let w₀ : World Files := ⟨∅, ⟨some dbFile, some (walHeader 7)⟩, 0, []⟩
  let frame (fill : UInt8) : Machine.Cue R :=
    .move (fun files => { files with wal := some (files.wal.getD [] ++ walFrame fill) })
      (fun w => ⟨_, _, trivial, .inl rfl, rfl⟩)
  have played : ((M.play plainConfig [.well .new, frame 1, .well .syncWal] (none, w₀)).bind fun conf =>
      (M'.perform plainConfig .snapshot (fun _ => false) conf.1 conf.2).map
        fun out => (conf, out)).any (fun run =>
      run.1.1.isSome ∧ run.2.1.1.toOption.isSome ∧
        run.2.1.2.any (fun m' => 3 < m'.manifest.snapshotTimestampMs) ∧
        (rebuiltToTime plainConfig run.1.2.bucket 3).isSome ∧
        rebuiltToTime plainConfig run.2.2.bucket 3 = none) = true := by decide +kernel
  obtain ⟨⟨⟨s, start⟩, ⟨result, s'⟩, w'⟩, found, checked⟩ := (Option.any_eq_true _ _).mp played
  obtain ⟨⟨s, start⟩, first, rest⟩ := Option.bind_eq_some_iff.mp found
  obtain ⟨out, second, same⟩ := Option.map_eq_some_iff.mp rest
  cases same
  obtain ⟨opened, returned, later, before, after⟩ := of_decide_eq_true checked
  obtain ⟨m, rfl⟩ := Option.isSome_iff_exists.mp opened
  obtain ⟨answer, returns⟩ := Option.isSome_iff_exists.mp returned
  obtain rfl := eq_ok_of_toOption returns
  obtain ⟨m', rfl, later⟩ := (Option.any_eq_true _ _).mp later
  obtain ⟨restored, before⟩ := Option.isSome_iff_exists.mp before
  intro claim
  have empty : ∀ key manifest, ReadableAt plainConfig w₀.bucket key manifest →
      key = (Object.manifest manifest.generation).key := by
    rintro key manifest ⟨-, raw, present, -⟩
    cases present
  have kept := claim empty (Machine.play_reach first) (Machine.perform_reach second) .refl
    (of_decide_eq_true later) trivial [] restored ((restoredToTime_eq _ _).trans before)
  rw [restoredToTime_eq, after] at kept
  cases kept

end Waloy.Spec
