import Waloy.Guarantees.PointInTime

/-!
# Retention and points in time

A retention run goes by the time at which a generation was created, and a restore by the
time of its snapshot. What a moment selects survives a retention run if its generation is
young enough or the one of the manager; a generation that was still the newest one at the
moment can be older than that.
-/
namespace Waloy.Spec
open Waloy.Effect Waloy.Source Waloy.Source.BackupManager

variable {pf : Platform} (config : BackupConfig pf.build) {A : Type}

/-- Every manifest lies in the directory of its generation, which holds nothing else. -/
def Housed (b : Bucket) : Prop :=
  ∀ key manifest, ReadableAt config b key manifest →
    key = (Object.manifest manifest.generation).key ∧ Tidy config b manifest.generation

/-- The manager of the archive has a directory of its own, too. -/
structure Archive.Housed (a : Archive) : Prop where
  bucket : Spec.Housed config a.bucket
  current : ∀ manifest index, a.current = some (manifest, index) →
    Tidy config a.bucket manifest.generation

section
variable {config} {b b' : Bucket} {own generation other : Str} {cutoffMs T : Nat}
  {manifest : GenerationManifest} {encoded listing : Bytes}

/-- The manifests that can still be read are those whose object is left. -/
theorem Expunged.readable (expunged : Expunged config b own cutoffMs b') (housed : Housed config b) :
    readable config b' =
      (readable config b).filter fun m => (object config b' (.manifest m.generation)).isSome := by
  let present (m : GenerationManifest) : Bool :=
    (object config b' (.manifest m.generation)).isSome
  refine readable_filter fun key suffixed => ?_
  change _ = Option.filter present _
  obtain same | ⟨gone, -⟩ := expunged ((S3Client.new config.s3).fullKey key)
  · have kept : readAt config b' key = readAt config b key := by
      unfold readAt
      rw [same]
    rw [kept]
    cases found : readAt config b key with
    | none => rfl
    | some m =>
      have read := (readAt_eq_some suffixed).mp found
      obtain ⟨rfl, -⟩ := housed key m read
      obtain ⟨-, raw, stored, -⟩ := read
      have left : present m = true := by
        change (b'.lookup ((S3Client.new config.s3).fullKey (Object.manifest m.generation).key)).isSome
        rw [same, stored]
        rfl
      exact (Option.filter_some_pos left).symm
  · have absent : readAt config b' key = none := by
      unfold readAt
      rw [gone]
      rfl
    rw [absent]
    cases found : readAt config b key with
    | none => rfl
    | some m =>
      obtain ⟨rfl, -⟩ := housed key m ((readAt_eq_some suffixed).mp found)
      have lost : present m = false := by
        change (b'.lookup ((S3Client.new config.s3).fullKey (Object.manifest m.generation).key)).isSome =
          false
        rw [gone]
        rfl
      exact (Option.filter_some_neg lost).symm

/-- A moment that selects a generation which is spared is restored as before. -/
theorem Expunged.restored (expunged : Expunged config b own cutoffMs b') (housed : Housed config b)
    (selected : selectManifest (Spec.readable config b) T = some manifest)
    (spared : manifest.generation = own ∨ cutoffMs ≤ manifest.createdAtMs) (targetPath : Str) :
    restoredToTime config T b' targetPath = restoredToTime config T b targetPath := by
  obtain ⟨key, read⟩ := mem_readable.mp (selectManifest_mem selected).1
  obtain ⟨rfl, tidy⟩ := housed key manifest read
  have listed := manifestAt_eq_some.mpr read
  have left : ∀ o, ownerOf o = some manifest.generation → object config b' o = object config b o := by
    intro o owner
    refine expunged.left tidy (fun apart m found => ?_) (objectKey_inside owner)
    obtain rfl := Option.some.inj (listed.symm.trans found)
    exact spared.resolve_left apart
  have selected' : selectManifest (Spec.readable config b') T = some manifest := by
    rw [expunged.readable housed]
    refine selectManifest_filter ?_ selected
    obtain ⟨-, raw, present, -⟩ := read
    have here : object config b (.manifest manifest.generation) = some raw := present
    rw [left _ rfl, here]
    rfl
  rw [restoredToTime_eq, restoredToTime_eq, rebuiltToTime, rebuiltToTime, selected, selected',
    Option.bind_some, Option.bind_some, content_congr config (left _ rfl),
    segmentsData_congr config fun s _ => left _ rfl]

theorem Tidy.withManifest (tidy : Tidy config b other) (plain : '/' ∉ generation) :
    Tidy config (withManifest config b generation encoded listing) other := by
  have saved : Tidy config (withSnapshot config b generation encoded) other :=
    tidy.store fun own owner => Option.some.inj owner ▸ plain
  have marked : Tidy config (withLatest config b generation encoded) other :=
    saved.store fun own owner => nomatch owner
  exact marked.store fun own owner => Option.some.inj owner ▸ plain

theorem Tidy.withAdded {index : Nat} (tidy : Tidy config b other) (plain : '/' ∉ manifest.generation) :
    Tidy config (withAdded config b manifest index encoded listing) other := by
  have saved : Tidy config (Spec.store config b (.segment manifest.generation index) encoded) other :=
    tidy.store fun own owner => Option.some.inj owner ▸ plain
  exact saved.store fun own owner => Option.some.inj owner ▸ plain

variable {tick : Nat → Nat → Prop} {a a' : Archive}

/-- Operations that extend an archive keep its directories apart. -/
theorem Archive.Housed.grow (housed : a.Housed config) (step : Archive.Grow config tick a a') :
    a'.Housed config := by
  cases step with
  | waited => exact ⟨housed.bucket, housed.current⟩
  | closed => exact ⟨housed.bucket, nofun⟩
  | @began b t created now c generation raw encoded listing fresh ticks ticks' decodes lists =>
    have own : Tidy config (Spec.withManifest config b generation encoded listing) generation :=
      (tidy_of_fresh fresh).withManifest fresh.1
    refine ⟨fun key m read => ?_, ?_⟩
    · by_cases same : key = (Object.manifest generation).key
      · obtain rfl := eq_of_listed (manifestAt_withManifest lists) read same
        exact ⟨same, own⟩
      · obtain ⟨filed, tidy⟩ := housed.bucket key m (readableAt_withManifest read same)
        exact ⟨filed, tidy.withManifest fresh.1⟩
    · rintro _ _ ⟨⟩
      exact own
  | @added b t now index offset manifest data encoded listing ticks some_data decodes lists =>
    have before := housed.current manifest index rfl
    have own : Tidy config (Spec.withAdded config b manifest index encoded listing)
        manifest.generation := before.withAdded before.1
    refine ⟨fun key m read => ?_, ?_⟩
    · by_cases same : key = (Object.manifest manifest.generation).key
      · obtain rfl := eq_of_listed (manifestAt_store lists) read same
        exact ⟨same, own⟩
      · obtain ⟨filed, tidy⟩ := housed.bucket key m (readableAt_withAdded read same)
        exact ⟨filed, tidy.withAdded before.1⟩
    · rintro _ _ ⟨⟩
      exact own

theorem Archive.Housed.extends (housed : a.Housed config) (steps : Archive.Extends config tick a a') :
    a'.Housed config := by
  induction steps with
  | refl => exact housed
  | tail _ step ih => exact ih.grow step

end

/-- A retention run in which no call fails. -/
def pruning (host : Host A) : Regime pf A := flawless config (fun q => q = .enforceRetention) host

/-- After a run without a failure, a retention run keeps what a restore to a moment of its
window writes, if the moment meets a condition. -/
def WindowKept (host : Host A)
    (condition : BackupManager pf.build → Bucket → Nat → Nat → Prop) : Prop :=
  ∀ {w₀ m start answer s' w' duration T}, Housed config w₀.bucket →
    (timely config host).Reach config (.idle none w₀) (.idle (some m) start) →
    (pruning config host).Reach config (.idle (some m) start)
      (.running .enforceRetention (some m) start (.pure (.ok answer, s')) w') →
    config.retentionDuration = some duration → duration < 2 ^ 64 →
    w'.clock - duration ≤ T → T ≤ w'.clock → condition m start.bucket (w'.clock - duration) T →
    ∀ targetPath restored, restoredToTime config T start.bucket targetPath = some restored →
      restoredToTime config T w'.bucket targetPath = some restored

/-- The moment selects the generation of the manager or one that was created at the
cutoff or later. -/
def Unexpired (m : BackupManager pf.build) (b : Bucket) (cutoffMs T : Nat) : Prop :=
  ∀ manifest, selectManifest (readable config b) T = some manifest →
    manifest.generation = m.generation ∨ cutoffMs ≤ manifest.createdAtMs

/-- The directories stay apart, and a retention run spares what it may not delete. -/
def sparing : Setting.Invariant (C := process config) (W := World A) where
  idle s w := Housed config w.bucket ∧ Holding config (fun _ _ => True) s w
  result q s start _ _ w' := ∀ m duration T manifest, q = .enforceRetention → s = some m →
    config.retentionDuration = some duration →
    selectManifest (readable config start.bucket) T = some manifest →
    (manifest.generation = m.generation ∨ w'.clock - duration % 2 ^ 64 ≤ manifest.createdAtMs) →
    ∀ targetPath, restoredToTime config T w'.bucket targetPath =
      restoredToTime config T start.bucket targetPath

section
variable {config} {host : Host A}

theorem Expunged.housed {b b' : Bucket} {own : Str} {cutoffMs : Nat}
    (expunged : Expunged config b own cutoffMs b') (housed : Housed config b) : Housed config b' := by
  intro key manifest read
  have before : ReadableAt config b key manifest := by
    refine read.of_lookup ?_
    obtain same | ⟨gone, -⟩ := expunged ((S3Client.new config.s3).fullKey key)
    · exact .inl same
    · exact .inr gone
  obtain ⟨filed, tidy⟩ := housed key manifest before
  exact ⟨filed, expunged.tidy tidy⟩

theorem sparing_kept : (sparing config).Kept (Regime.setting config (pruning config host)) where
  entered _ _ := trivial
  stays _ _ _ := trivial
  drift := by
    rintro s w w' ⟨housed, held⟩ ⟨a, t, moved, ticks, rfl⟩
    exact ⟨housed, fun m open_m => held m open_m⟩
  body := by
    rintro q s w rfl ⟨housed, held⟩
    refine Prog.wp_mono (fun _ _ _ _ h => h) (fun _ _ _ _ _ => trivial) ?_ _ _
      (wp_process rfl (fun m hs => (held m hs).1) (request_any .enforceRetention s))
    rintro ⟨result, s'⟩ w' performed -
    cases performed with
    | @retained m _ _ uses exit =>
      cases exit with
      | off off =>
        refine ⟨fun m duration T manifest _ _ retention => ?_, housed, .some uses trivial⟩
        rw [off] at retention
        cases retention
      | @ran duration reply a₁ a b retention read allowed ticks moved expunged =>
        refine ⟨?_, expunged.housed housed, .some uses trivial⟩
        rintro _ duration' T manifest - ⟨⟩ retention' selected spared targetPath
        obtain rfl : duration' = duration := Option.some.inj (retention'.symm.trans retention)
        exact expunged.restored housed selected spared targetPath

/-- A retention run keeps every moment that selects an unexpired generation. -/
theorem window_kept (codec : Codec config) : WindowKept config host (Unexpired config) := by
  intro w₀ m start answer s' w' duration T housed run call retention short _ _ unexpired targetPath
    restored before
  have opened : (archived config host.tick (archiveOf none w₀)).idle (none : Manager pf) w₀ :=
    ⟨.refl, .none _⟩
  obtain ⟨steps, named⟩ := (archived_kept codec (archiveOf none w₀)).reach run opened
  have first : (archiveOf (none : Manager pf) w₀).Housed config := by
    refine ⟨housed, ?_⟩
    rintro _ _ ⟨⟩
  have here := first.extends steps
  have idle : (sparing config).idle (some m) start :=
    ⟨here.bucket, .some (named m rfl).1 trivial⟩
  have kept := (sparing_kept.returned call idle).1
  cases selected : selectManifest (readable config start.bucket) T with
  | none =>
    rw [restoredToTime_eq, rebuiltToTime, selected] at before
    cases before
  | some manifest =>
    rw [kept m duration T manifest rfl rfl retention selected, before]
    rw [Nat.mod_eq_of_lt short]
    exact unexpired manifest selected

end

/-- A retention of two milliseconds. -/
def windowConfig : BackupConfig plain.build := { plainConfig with retentionDuration := some 2 }

theorem windowConfig_codec : Codec windowConfig where
  serializes := plain_codec.serializes
  parses := plain_codec.parses
  encodes := by
    rintro data r ⟨salt, nonce, -, -, rfl⟩
    exact ⟨data, rfl⟩

theorem window_kept_brief :
    WindowKept windowConfig (fileHost fun t t' => t < t') (Unexpired windowConfig) :=
  window_kept windowConfig_codec

/-- The generation that was the newest one two milliseconds ago is deleted. -/
theorem not_windowKept :
    ¬ WindowKept windowConfig (fileHost fun t t' => t < t') fun _ _ _ _ => True := by
  let host : Host Files := fileHost fun t t' => t < t'
  let objects : List Object :=
    [.latest, .manifest (uuid 0), .snapshot (uuid 0), .manifest (uuid 1), .snapshot (uuid 1)]
  let M : Machine (flawless windowConfig (fun q => q = .new ∨ q = .checkpoint) host) :=
    flawlessMachine (some 2) _ Nat.lt_succ_self objects rfl
  let M' : Machine (pruning windowConfig host) :=
    flawlessMachine (some 2) _ Nat.lt_succ_self objects rfl
  let w₀ : World Files := ⟨∅, ⟨some dbFile, none⟩, 0, []⟩
  have played : ((M.play windowConfig [.well .new, .well .checkpoint] (none, w₀)).bind fun conf =>
      (M'.perform windowConfig .enforceRetention (fun _ => false) conf.1 conf.2).map
        fun out => (conf, out)).any (fun run =>
      run.1.1.isSome ∧ run.2.1.1.toOption.isSome ∧ run.2.2.clock = 5 ∧
        (rebuiltToTime windowConfig run.1.2.bucket 3).isSome ∧
        rebuiltToTime windowConfig run.2.2.bucket 3 = none) = true := by decide +kernel
  obtain ⟨⟨⟨s, start⟩, ⟨result, s'⟩, w'⟩, found, checked⟩ := (Option.any_eq_true _ _).mp played
  obtain ⟨⟨s, start⟩, first, rest⟩ := Option.bind_eq_some_iff.mp found
  obtain ⟨out, second, same⟩ := Option.map_eq_some_iff.mp rest
  cases same
  obtain ⟨opened, returned, clock, before, after⟩ := of_decide_eq_true checked
  obtain ⟨m, rfl⟩ := Option.isSome_iff_exists.mp opened
  obtain ⟨answer, returns⟩ := Option.isSome_iff_exists.mp returned
  obtain rfl := eq_ok_of_toOption returns
  obtain ⟨restored, before⟩ := Option.isSome_iff_exists.mp before
  intro claim
  have empty : Housed windowConfig w₀.bucket := by
    rintro key manifest ⟨-, raw, present, -⟩
    cases present
  have lower : w'.clock - 2 ≤ 3 := Nat.le_of_eq (by rw [clock])
  have upper : 3 ≤ w'.clock := by
    rw [clock]
    decide
  have run : (timely windowConfig host).Reach windowConfig (.idle none w₀) (.idle (some m) start) :=
    flawless_mono (fun _ listed => listed.imp_right fun h => .inr (.inl h)) (Machine.play_reach first)
  have kept := claim empty run (Machine.perform_reach second) rfl (by decide)
    lower upper trivial [] restored ((restoredToTime_eq _ _).trans before)
  rw [restoredToTime_eq, after] at kept
  cases kept

end Waloy.Spec
