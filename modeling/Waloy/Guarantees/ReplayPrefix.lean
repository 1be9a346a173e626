import Waloy.Guarantees.PointInTime
import Waloy.Spec.Filing

/-!
# What a point-in-time restore replays of a generation

A restore chooses each segment by its own stamp. As long as the clock does not step back
across the moment, the segments up to it come first in their manifest, and what they hold
is the beginning of the WAL file that was backed up.
-/
namespace Waloy.Spec
open Waloy.Effect Waloy.Source Waloy.Source.BackupManager

variable {pf : Platform} (config : BackupConfig pf.build) {A : Type}

/-- What is chosen from a list comes first in it if nothing chosen follows what is not. -/
theorem filter_prefix_iff {α : Type} {p : α → Bool} {xs : List α} :
    xs.filter p <+: xs ↔ xs.Pairwise fun x y => p y = true → p x = true := by
  induction xs with
  | nil => simp
  | cons x xs ih =>
    rw [List.pairwise_cons]
    by_cases here : p x = true
    · rw [List.filter_cons_of_pos here, List.prefix_cons_inj, ih]
      exact ⟨fun later => ⟨fun _ _ _ => here, later⟩, fun both => both.2⟩
    · rw [List.filter_cons_of_neg here]
      constructor
      · intro first
        obtain empty | ⟨rest, same, -⟩ := List.prefix_cons_iff.mp first
        · have skipped := List.filter_eq_nil_iff.mp empty
          exact ⟨fun y hy chosen => absurd chosen (skipped y hy),
            ih.mp (empty ▸ List.nil_prefix)⟩
        · have chosen : x ∈ xs.filter p := same ▸ List.mem_cons_self
          exact absurd (List.mem_filter.mp chosen).2 here
      · rintro ⟨later, -⟩
        have empty : xs.filter p = [] :=
          List.filter_eq_nil_iff.mpr fun y hy chosen => here (later y hy chosen)
        rw [empty]
        exact List.nil_prefix

/-- No segment up to a moment comes after one that is later. -/
def Ascends (T : Nat) (segments : List SegmentMeta) : Prop :=
  segments.Pairwise fun s s' => s'.timestampMs ≤ T → s.timestampMs ≤ T

/-- A restore to a moment replays the first segments of a manifest, and the WAL file that it
writes is the beginning of the one that was backed up. -/
structure ReplaysPrefix (b : Bucket) (T : Nat) (manifest : GenerationManifest) : Prop where
  replayed : manifest.segments.filter (fun s => s.timestampMs ≤ T) <+: manifest.segments
  written : ∃ backed,
    segmentsData config b manifest.generation manifest.segments = some backed ∧
    ∀ targetPath restored, selectManifest (readable config b) T = some manifest →
      restoredToTime config T b targetPath = some restored → restored.wal <+: backed

/-- So it is with every manifest that a run has written. -/
def PrefixesReplayed (R : Regime pf A) (T : Nat) : Prop :=
  ∀ {w₀ s w}, R.Reach config (.idle none w₀) (.idle s w) →
    ∀ key manifest, ReadableAt config w.bucket key manifest →
      ReadableAt config w₀.bucket key manifest ∨ ReplaysPrefix config w.bucket T manifest

/-- The runs of `new`, `sync_wal` and `compact` in which no call fails. -/
def replaying (host : Host A) : Regime pf A :=
  flawless config (fun q => q = .new ∨ q = .syncWal ∨
    ∃ maxSegmentSize fuel, q = .compact maxSegmentSize fuel) host

/-- A manifest of a run: filed under its generation, in order, and with all its segments. -/
structure Chronicle (T : Nat) (b : Bucket) (key : Str) (manifest : GenerationManifest) : Prop where
  filed : key = (Object.manifest manifest.generation).key
  ascends : Ascends T manifest.segments
  held : (segmentsData config b manifest.generation manifest.segments).isSome

/-- The manifests of an archive that are not from before, and the one of its manager. -/
structure Archive.Chronicles (T : Nat) (b₀ : Bucket) (a : Archive) : Prop where
  added : ∀ key manifest, ReadableAt config a.bucket key manifest →
    ReadableAt config b₀ key manifest ∨ Chronicle config T a.bucket key manifest
  listed : ∀ manifest index, a.current = some (manifest, index) →
    manifestAt config a.bucket manifest.generation = some manifest
  current : ∀ manifest index, a.current = some (manifest, index) →
    Chronicle config T a.bucket (Object.manifest manifest.generation).key manifest
  below : ∀ manifest index, a.current = some (manifest, index) →
    ∀ s ∈ manifest.segments, s.index < index
  passed : ∀ manifest index, a.current = some (manifest, index) → a.clock ≤ T →
    ∀ s ∈ manifest.segments, s.timestampMs ≤ T

section
variable {config} {tick : Nat → Nat → Prop} {T index : Nat} {a a' : Archive} {b b' b₀ : Bucket}
  {key generation : Str} {manifest M : GenerationManifest}

theorem Ascends.replayed {segments : List SegmentMeta} (ascends : Ascends T segments) :
    segments.filter (fun s => s.timestampMs ≤ T) <+: segments := by
  refine filter_prefix_iff.mpr (List.Pairwise.imp ?_ ascends)
  intro s s' earlier chosen
  exact decide_eq_true (earlier (of_decide_eq_true chosen))

theorem Ascends.append {segments : List SegmentMeta} {s : SegmentMeta}
    (ascends : Ascends T segments)
    (last : s.timestampMs ≤ T → ∀ s' ∈ segments, s'.timestampMs ≤ T) :
    Ascends T (segments ++ [s]) := by
  refine List.pairwise_append.mpr ⟨ascends, List.pairwise_singleton _ _, ?_⟩
  intro s' hs' s'' hs'' soon
  rw [List.mem_singleton.mp hs''] at soon
  exact last soon s' hs'

/-- What a restore to a moment writes of a manifest of the run. -/
theorem Chronicle.replays (chronicle : Chronicle config T b key manifest) :
    ReplaysPrefix config b T manifest := by
  have replayed := chronicle.ascends.replayed
  obtain ⟨backed, held⟩ := Option.isSome_iff_exists.mp chronicle.held
  refine ⟨replayed, backed, held, fun targetPath restored selected written => ?_⟩
  obtain ⟨later, split⟩ := replayed
  rw [← split, segmentsData_append] at held
  obtain ⟨part, some_part, rest⟩ := Option.bind_eq_some_iff.mp held
  obtain ⟨others, -, rfl⟩ := Option.map_eq_some_iff.mp rest
  rw [restoredToTime_eq, rebuiltToTime, selected, Option.bind_some, some_part] at written
  obtain ⟨snapshot, -, same⟩ := Option.bind_eq_some_iff.mp written
  cases same
  exact List.prefix_append part others

/-- A step that writes one manifest only and spares the segments of the other generations. -/
theorem Archive.Chronicles.written (chronicles : a.Chronicles config T b₀)
    (own : Chronicle config T b' (Object.manifest M.generation).key M)
    (listed : manifestAt config b' M.generation = some M)
    (read : ∀ key m, ReadableAt config b' key m → key ≠ (Object.manifest M.generation).key →
      ReadableAt config a.bucket key m)
    (spared : ∀ other index, other ≠ M.generation →
      object config b' (.segment other index) = object config a.bucket (.segment other index))
    (below : ∀ s ∈ M.segments, s.index < index) {t : Nat}
    (passed : t ≤ T → ∀ s ∈ M.segments, s.timestampMs ≤ T) :
    Archive.Chronicles config T b₀ ⟨b', t, some (M, index)⟩ where
  added := by
    intro key m here
    by_cases same : key = (Object.manifest M.generation).key
    · obtain rfl := eq_of_listed listed here same
      exact .inr (same ▸ own)
    · obtain before | chronicle := chronicles.added key m (read key m here same)
      · exact .inl before
      · have other : m.generation ≠ M.generation := by
          intro equal
          exact same (chronicle.filed.trans (by rw [equal]))
        have kept : segmentsData config b' m.generation m.segments =
            segmentsData config a.bucket m.generation m.segments :=
          segmentsData_congr config fun s _ => spared _ s.index other
        exact .inr ⟨chronicle.filed, chronicle.ascends, kept ▸ chronicle.held⟩
  listed := by
    rintro _ _ ⟨⟩
    exact listed
  current := by
    rintro _ _ ⟨⟩
    exact own
  below := by
    rintro _ _ ⟨⟩
    exact below
  passed := by
    rintro _ _ ⟨⟩
    exact passed

/-- A step of a clock that does not step back across the moment keeps the order. -/
theorem Archive.Chronicles.grow (steady : ∀ t t', tick t t' → t' ≤ T → t ≤ T)
    (chronicles : a.Chronicles config T b₀) (step : Archive.Grow config tick a a') :
    a'.Chronicles config T b₀ := by
  cases step with
  | waited ticks =>
    exact
      { chronicles with
        passed := fun manifest index same soon =>
          chronicles.passed manifest index same (steady _ _ ticks soon) }
  | closed => exact ⟨chronicles.added, nofun, nofun, nofun, nofun⟩
  | @began b t created now c generation raw encoded listing fresh ticks ticks' decodes lists =>
    have listed : manifestAt config (withManifest config b generation encoded listing)
        (firstManifest generation created now).generation =
        some (firstManifest generation created now) := manifestAt_withManifest lists
    refine chronicles.written (M := firstManifest generation created now)
      ⟨rfl, List.Pairwise.nil, rfl⟩ listed
      (fun key m => readableAt_withManifest) (fun other index _ => ?_) nofun fun _ => nofun
    simp [withManifest, withLatest, withSnapshot]
  | @added b t now index offset manifest data encoded listing ticks some_data decodes lists =>
    have listed : manifestAt config (withAdded config b manifest index encoded listing)
        (manifest.addSegment index now offset data.length).generation =
        some (manifest.addSegment index now offset data.length) := manifestAt_store lists
    have before := chronicles.current manifest index rfl
    have below := chronicles.below manifest index rfl
    have passed : now ≤ T → ∀ s ∈ manifest.segments, s.timestampMs ≤ T :=
      fun soon => chronicles.passed manifest index rfl (steady _ _ ticks soon)
    have own : Chronicle config T (withAdded config b manifest index encoded listing)
        (Object.manifest manifest.generation).key
        (manifest.addSegment index now offset data.length) := by
      refine ⟨rfl, before.ascends.append passed, ?_⟩
      have kept : ∀ s ∈ manifest.segments,
          object config (withAdded config b manifest index encoded listing)
            (.segment manifest.generation s.index) =
          object config b (.segment manifest.generation s.index) := by
        intro s hs
        have other := Nat.ne_of_lt (below s hs)
        simp [withAdded, other]
      obtain ⟨backed, held⟩ := Option.isSome_iff_exists.mp before.held
      rw [GenerationManifest.addSegment_segments, GenerationManifest.addSegment_generation,
        segmentsData_append, segmentsData_congr config kept, held]
      simp [segmentsData, content_withAdded decodes]
    refine chronicles.written own listed (fun key m => readableAt_withAdded) ?_ ?_ ?_
    · intro other i apart
      have apart : other ≠ manifest.generation := apart
      simp [withAdded, apart]
    · intro s hs
      obtain old | new := List.mem_append.mp hs
      · exact Nat.lt_succ_of_lt (below s old)
      · rw [List.mem_singleton.mp new]
        exact Nat.lt_succ_self _
    · intro soon s hs
      obtain old | new := List.mem_append.mp hs
      · exact passed soon s old
      · rwa [List.mem_singleton.mp new]

theorem Archive.Chronicles.extends (steady : ∀ t t', tick t t' → t' ≤ T → t ≤ T)
    (chronicles : a.Chronicles config T b₀) (steps : Archive.Extends config tick a a') :
    a'.Chronicles config T b₀ := by
  induction steps with
  | refl => exact chronicles
  | tail _ step ih => exact ih.grow steady step

end

section
variable {config} {env : Env A} {w w' : World A} {h h' : Head} {T maxSize : Nat} {b₀ : Bucket}

/-- The chunks of a compaction are stamped in order. -/
theorem Chunked.ascends {generation : Str} {allData : Bytes}
    {offset index clock offset' index' clock' : Nat} {pairs : List (SegmentMeta × Bytes)}
    (steady : ∀ t t', env.host.tick t t' → t' ≤ T → t ≤ T)
    (chunked : Chunked config env generation allData maxSize offset index clock pairs offset' index'
      clock') :
    Ascends T (pairs.map Prod.fst) ∧ (clock' ≤ T → clock ≤ T) ∧
      (∀ s ∈ pairs.map Prod.fst, s.timestampMs ≤ T → clock ≤ T) ∧
      (clock' ≤ T → ∀ s ∈ pairs.map Prod.fst, s.timestampMs ≤ T) := by
  induction chunked with
  | nil => exact ⟨List.Pairwise.nil, id, nofun, fun _ => nofun⟩
  | @cons offset index clock now next _ _ clock' encoded rest more sent ticks counted later ih =>
    obtain ⟨ascends, back, onward, passed⟩ := ih
    have earlier := steady _ _ ticks
    refine ⟨List.pairwise_cons.mpr ⟨onward, ascends⟩, fun soon => earlier (back soon), ?_, ?_⟩
    · exact List.forall_mem_cons.mpr ⟨earlier, fun s hs soon => earlier (onward s hs soon)⟩
    · exact fun soon => List.forall_mem_cons.mpr ⟨back soon, passed soon⟩

variable (reliable : Reliable config env) (codec : Codec config)
  (steady : ∀ t t', env.host.tick t t' → t' ≤ T → t ≤ T)
include reliable codec steady

theorem CompactExit.chronicles {r : Except Error Unit} (named : Named h w)
    (chronicles : (h.archive w).Chronicles config T b₀)
    (exit : CompactExit config env w h maxSize r h' w') :
    (h'.archive w').Chronicles config T b₀ ∧ Named h' w' := by
  have before := chronicles.current h.manifest h.walIndex rfl
  obtain ⟨backed, all⟩ := Option.isSome_iff_exists.mp before.held
  have held : segmentsData config w.bucket h.generation h.manifest.segments = some backed := by
    rw [← named]
    exact all
  obtain rfl := exit.faultless reliable.sound codec held
  cases exit with
  | few => exact ⟨chronicles, named⟩
  | @done allData listing pairs lastIndex clock' a recut listed moved =>
    have bound := recut.bound reliable.counts
    obtain ⟨-, -, offset', finished, chunked⟩ := id recut
    obtain ⟨ascends, -, -, passed⟩ := chunked.ascends steady
    have lists := listed.decodes codec.parses reliable.inverts
    have data : segmentsData config
        (eraseSegments config h.generation h.manifest.segments
          (withChunkList config w.bucket h pairs listing)) h.generation (pairs.map Prod.fst) =
        some allData :=
      recut.swapped reliable.inverts bound (chronicles.below h.manifest h.walIndex rfl)
    have beside : Beside config h.generation w.bucket
        (eraseSegments config h.generation h.manifest.segments
          (withChunkList config w.bucket h pairs listing)) :=
      (((Beside.refl _).storeSegments pairs).store rfl listing).eraseSegments _
    refine ⟨chronicles.written (M := { h.manifest with segments := pairs.map Prod.fst })
      ⟨rfl, ascends, ?_⟩ ?_ ?_ ?_ (fun s hs => (recut.between bound s hs).2) passed, named⟩
    · change (segmentsData config _ h.manifest.generation (pairs.map Prod.fst)).isSome
      rw [named, data]
      rfl
    · change manifestAt config _ h.manifest.generation = _
      rw [named]
      exact (manifestAt_eraseSegments _ _).trans (manifestAt_store lists)
    · intro key m read apart
      refine beside.readable read ?_
      rwa [← named]
    · intro other index apart
      refine beside.object fun same => apart ?_
      exact (Option.some.inj same).trans named.symm

theorem Performed.chronicles {q : Request} {s s' : Manager pf} {r : Except Error Answer}
    (enabled : (replaying config env.host : Regime pf A).enabled q s)
    (named : Holding config Named s w) (chronicles : (archiveOf s w).Chronicles config T b₀)
    (performed : Performed config env w q s r s' w') :
    (archiveOf s' w').Chronicles config T b₀ ∧ Holding config Named s' w' := by
  obtain rfl | rfl | ⟨maxSegmentSize, fuel, rfl⟩ := enabled
  · obtain ⟨steps, kept⟩ := performed.extends reliable codec (.inl rfl) named
    exact ⟨chronicles.extends steady steps, kept⟩
  · obtain ⟨steps, kept⟩ := performed.extends reliable codec (.inr (.inl rfl)) named
    exact ⟨chronicles.extends steady steps, kept⟩
  · cases performed with
    | compacted uses exit =>
      obtain ⟨after, kept⟩ := exit.chronicles reliable codec steady (named _ rfl).2 chronicles
      exact ⟨after, .some uses kept⟩

end

/-- The archive behind a process keeps its order. -/
def chronicled (T : Nat) (b₀ : Bucket) : Setting.Invariant (C := process config) (W := World A) where
  idle s w := (archiveOf s w).Chronicles config T b₀ ∧ Holding config Named s w

section
variable {config} {host : Host A} {T : Nat} {b₀ : Bucket}

theorem chronicled_kept (codec : Codec config) (steady : ∀ t t', host.tick t t' → t' ≤ T → t ≤ T) :
    (chronicled config T b₀).Kept (Regime.setting config (replaying config host)) where
  entered _ _ := trivial
  stays _ _ _ := trivial
  drift := by
    rintro s w w' ⟨chronicles, named⟩ ⟨a, t, moved, same | ticks, rfl⟩
    · subst same
      exact ⟨chronicles, named⟩
    · exact ⟨chronicles.grow steady (.waited ticks), named⟩
  body := by
    intro q s w enabled ⟨chronicles, named⟩
    refine Prog.wp_mono (fun _ _ _ _ h => h) (fun _ _ _ _ _ => trivial) ?_ _ _
      (wp_process rfl (fun m hs => (named m hs).1) (request_any q s))
    rintro ⟨result, s'⟩ w' performed -
    exact ⟨trivial, performed.chronicles (reliable_flawless _ q s) codec steady
      enabled named chronicles⟩

/-- Under a clock that does not step back across the moment, a prefix is replayed. -/
theorem prefixes_replayed (codec : Codec config)
    (steady : ∀ t t', host.tick t t' → t' ≤ T → t ≤ T) :
    PrefixesReplayed config (replaying config host) T := by
  intro w₀ s w run key manifest read
  have opened : (chronicled config T w₀.bucket).idle (none : Manager pf) w₀ :=
    ⟨⟨fun _ _ before => .inl before, nofun, nofun, nofun, nofun⟩, .none _⟩
  obtain ⟨chronicles, -⟩ := (chronicled_kept codec steady).reach run opened
  exact (chronicles.added key manifest read).imp_right Chronicle.replays

theorem prefixes_replayed_plain :
    PrefixesReplayed plainConfig
      (replaying plainConfig (fileHost fun t t' => t' ≤ 1000 → t ≤ 1000)) 1000 :=
  prefixes_replayed plain_codec fun _ _ steady => steady

end

/-- Two syncs, and the clock steps back between them: the restore skips the first segment. -/
theorem not_prefixesReplayed :
    ¬ ∀ T, PrefixesReplayed plainConfig (replaying plainConfig (fileHost fun _ _ => True)) T := by
  let R : Regime plain Files :=
    flawless plainConfig (fun q => q = .new ∨ q = .syncWal) (fileHost fun _ _ => True)
  let objects : List Object :=
    [.latest, .manifest (uuid 0), .snapshot (uuid 0), .segment (uuid 0) 0, .segment (uuid 0) 1]
  let M : Machine R := flawlessMachine none _ (fun _ => trivial) objects rfl
  let w₀ : World Files := ⟨∅, ⟨some dbFile, some (walHeader 7)⟩, 0, []⟩
  let frame (fill : UInt8) : Machine.Cue R :=
    .move (fun files => { files with wal := some (files.wal.getD [] ++ walFrame fill) })
      (fun w => ⟨_, _, trivial, .inl rfl, rfl⟩)
  have played : ((M.play plainConfig [.well .new, frame 1, .well .syncWal] (none, w₀)).bind
      fun conf => M.play plainConfig [frame 2, .well .syncWal] (conf.1, { conf.2 with clock := 1 })).any
      (fun last => last.1.any fun m =>
        manifestAt plainConfig last.2.bucket m.manifest.generation = some m.manifest ∧
          ¬ m.manifest.segments.filter (fun s => s.timestampMs ≤ 2) <+: m.manifest.segments) =
      true := by decide +kernel
  obtain ⟨⟨s, w⟩, found, checked⟩ := (Option.any_eq_true _ _).mp played
  obtain ⟨⟨s', w'⟩, first, second⟩ := Option.bind_eq_some_iff.mp found
  obtain ⟨m, -, wrong⟩ := (Option.any_eq_true _ _).mp checked
  obtain ⟨listed, skipped⟩ := of_decide_eq_true wrong
  have stepped : R.drift w' { w' with clock := 1 } := ⟨w'.app, 1, trivial, .inr trivial, rfl⟩
  have run : R.Reach plainConfig (.idle none w₀) (.idle s w) :=
    ((Machine.play_reach first).tail (.drift stepped)).trans (Machine.play_reach second)
  have replaying : (replaying plainConfig (fileHost fun _ _ => True)).Reach plainConfig
      (.idle none w₀) (.idle s w) :=
    flawless_mono (fun _ listed => listed.imp_right .inl) run
  intro claim
  obtain ⟨-, raw, present, -⟩ | replays := claim 2 replaying _ _ (manifestAt_eq_some.mp listed)
  · cases present
  · exact skipped replays.replayed

end Waloy.Spec
