import Waloy.Guarantees.PointInTime
import Waloy.Spec.Filing

/-!
# Compactions and points in time

A compaction stamps its chunks with its own time, so a point-in-time restore of an earlier
moment no longer replays what it replayed before. Only where it replayed nothing of the
generation, or the clock has not moved since, does it write the same files.
-/
namespace Waloy.Spec
open Waloy.Effect Waloy.Source Waloy.Source.BackupManager

variable {pf : Platform} (config : BackupConfig pf.build) {A : Type}

section
variable {config} {b : Bucket} {generation : Str} {segments : List SegmentMeta}

/-- Every segment of a list holds some bytes. -/
abbrev Full (config : BackupConfig pf.build) (b : Bucket) (generation : Str)
    (segments : List SegmentMeta) : Prop :=
  ∀ s ∈ segments, ∃ data, data ≠ [] ∧ content config b (.segment generation s.index) = some data

/-- What a selection of full segments holds, next to what all of them hold. -/
theorem segmentsData_filter (full : Full config b generation segments) (p : SegmentMeta → Bool) :
    ∃ whole part, segmentsData config b generation segments = some whole ∧
      segmentsData config b generation (segments.filter p) = some part ∧
      part.length ≤ whole.length ∧
      ((∃ s ∈ segments, p s = false) → part.length < whole.length) ∧
      ((∃ s ∈ segments, p s = true) → part ≠ []) := by
  induction segments with
  | nil => exact ⟨[], [], rfl, rfl, Nat.le_refl _, nofun, nofun⟩
  | cons s rest ih =>
    obtain ⟨⟨data, nonempty, held⟩, later⟩ := List.forall_mem_cons.mp full
    obtain ⟨whole, part, all, some_part, shorter, omitted, taken⟩ := ih later
    have long : 0 < data.length := List.length_pos_iff.mpr nonempty
    have whole_eq : segmentsData config b generation (s :: rest) = some (data ++ whole) := by
      rw [segmentsData, held, Option.bind_some, all, Option.map_some]
    by_cases here : p s = true
    · refine ⟨data ++ whole, data ++ part, whole_eq, ?_, ?_, ?_, ?_⟩
      · rw [List.filter_cons_of_pos here, segmentsData, held, Option.bind_some, some_part,
          Option.map_some]
      · simpa using shorter
      · rintro ⟨s', hs', skipped⟩
        obtain rfl | hs' := List.mem_cons.mp hs'
        · rw [here] at skipped
          cases skipped
        · simpa using omitted ⟨s', hs', skipped⟩
      · intro _ empty
        exact nonempty (List.append_eq_nil_iff.mp empty).1
    · refine ⟨data ++ whole, part, whole_eq, ?_, ?_, ?_, ?_⟩
      · rwa [List.filter_cons_of_neg here]
      · rw [List.length_append]
        omega
      · intro _
        rw [List.length_append]
        omega
      · rintro ⟨s', hs', chosen⟩
        obtain rfl | hs' := List.mem_cons.mp hs'
        · exact absurd chosen here
        · exact taken ⟨s', hs', chosen⟩

/-- Of segments that were cut again, a moment replays the same bytes only where it replays
none of them or all. -/
theorem recut_in_time {b' : Bucket} {cut : List SegmentMeta} {whole : Bytes} {clock T t' : Nat}
    (full : Full config b generation segments) (full' : Full config b' generation cut)
    (held : segmentsData config b generation segments = some whole)
    (held' : segmentsData config b' generation cut = some whole) (several : segments ≠ [])
    (recorded : ∀ s ∈ segments, s.timestampMs ≤ clock)
    (stamped : ∀ s ∈ cut, clock ≤ s.timestampMs ∧ s.timestampMs ≤ t')
    (last : ∃ s ∈ cut, s.timestampMs = t') (before : T ≤ clock) :
    segmentsData config b' generation (cut.filter fun s => s.timestampMs ≤ T) =
        segmentsData config b generation (segments.filter fun s => s.timestampMs ≤ T) ↔
      (∀ s ∈ segments, T < s.timestampMs) ∨ t' ≤ T := by
  obtain ⟨s₀, hs₀⟩ := List.exists_mem_of_ne_nil _ several
  have onward := recorded s₀ hs₀
  constructor
  · intro same
    by_contra moved
    simp only [not_or, not_forall, Nat.not_lt, Nat.not_le] at moved
    obtain ⟨⟨s, hs, replayed⟩, passed⟩ := moved
    obtain ⟨all, part, all_held, part_held, -, -, taken⟩ :=
      segmentsData_filter full fun s => s.timestampMs ≤ T
    obtain ⟨all', part', all_held', part_held', -, omitted, -⟩ :=
      segmentsData_filter full' fun s => s.timestampMs ≤ T
    obtain rfl := Option.some.inj (all_held.symm.trans held)
    obtain rfl := Option.some.inj (all_held'.symm.trans held')
    rw [part_held, part_held'] at same
    cases same
    by_cases earlier : T < clock
    · have none_left : cut.filter (fun s => s.timestampMs ≤ T) = [] := by
        apply List.filter_eq_nil_iff.mpr
        intro s hs
        have := (stamped s hs).1
        simp only [decide_eq_true_eq]
        omega
      rw [none_left] at part_held'
      cases part_held'
      exact taken ⟨s, hs, by simpa using replayed⟩ rfl
    · have all_left : segments.filter (fun s => s.timestampMs ≤ T) = segments := by
        apply List.filter_eq_self.mpr
        intro s hs
        have := recorded s hs
        simp only [decide_eq_true_eq]
        omega
      rw [all_left, held] at part_held
      cases part_held
      obtain ⟨s', hs', now⟩ := last
      have := omitted ⟨s', hs', by simp [now, passed]⟩
      omega
  · rintro (untouched | still)
    · have none_left : segments.filter (fun s => s.timestampMs ≤ T) = [] := by
        apply List.filter_eq_nil_iff.mpr
        intro s hs
        have := untouched s hs
        simp only [decide_eq_true_eq]
        omega
      have none_left' : cut.filter (fun s => s.timestampMs ≤ T) = [] := by
        apply List.filter_eq_nil_iff.mpr
        intro s hs
        have := (stamped s hs).1
        have := untouched s₀ hs₀
        simp only [decide_eq_true_eq]
        omega
      rw [none_left, none_left']
      rfl
    · have all_left : segments.filter (fun s => s.timestampMs ≤ T) = segments := by
        apply List.filter_eq_self.mpr
        intro s hs
        have := recorded s hs
        obtain ⟨s', hs', now⟩ := last
        have := (stamped s' hs').1
        simp only [decide_eq_true_eq]
        omega
      have all_left' : cut.filter (fun s => s.timestampMs ≤ T) = cut := by
        apply List.filter_eq_self.mpr
        intro s hs
        have := (stamped s hs).2
        simp only [decide_eq_true_eq]
        omega
      rw [all_left, all_left', held, held']

end

section
variable {config} {env : Env A} {generation : Str} {allData : Bytes}
  {maxSize offset index clock offset' index' clock' : Nat} {pairs : List (SegmentMeta × Bytes)}

/-- The chunks hold some bytes each. -/
theorem Chunked.decodes (chunked : Chunked config env generation allData maxSize offset index clock
    pairs offset' index' clock') (inverts : env.Inverts config) (positive : 1 ≤ maxSize) :
    ∀ p ∈ pairs, ∃ data, data ≠ [] ∧ pipelineDecode pf p.2 config = .ok data := by
  induction chunked with
  | nil => simp
  | @cons offset index clock now next _ _ _ encoded rest more sent ticks counted later ih =>
    refine List.forall_mem_cons.mpr ⟨⟨_, ?_, sent.decodes inverts (by simp)⟩, ih⟩
    intro empty
    have length := chunkAt_length allData maxSize offset
    rw [empty, List.length_nil, chunkEnd] at length
    omega

/-- The stamps of the chunks lie between the readings before the first and at the last. -/
theorem Chunked.stamps (advances : ∀ t t', env.host.tick t t' → t ≤ t')
    (chunked : Chunked config env generation allData maxSize offset index clock pairs offset' index'
      clock') :
    clock ≤ clock' ∧ (∀ p ∈ pairs, clock ≤ p.1.timestampMs ∧ p.1.timestampMs ≤ clock') ∧
      (pairs ≠ [] → ∃ p ∈ pairs, p.1.timestampMs = clock') := by
  induction chunked with
  | nil => exact ⟨Nat.le_refl _, nofun, fun h => absurd rfl h⟩
  | @cons offset index clock now next _ _ clock' encoded rest more sent ticks counted later ih =>
    obtain ⟨onward, between, last⟩ := ih
    have first := advances _ _ ticks
    refine ⟨first.trans onward, List.forall_mem_cons.mpr ⟨⟨first, onward⟩, fun p hp => ?_⟩, fun _ => ?_⟩
    · exact ⟨first.trans (between p hp).1, (between p hp).2⟩
    · by_cases empty : rest = []
      · subst empty
        cases later
        exact ⟨_, List.mem_cons_self, rfl⟩
      · obtain ⟨p, hp, same⟩ := last empty
        exact ⟨p, List.mem_cons_of_mem _ hp, same⟩

end

section
variable {config} {a : Archive} {manifest : GenerationManifest} {index T t' : Nat}
  {pairs : List (SegmentMeta × Bytes)} {listing allData : Bytes}

/-- The manifests that can be read after a compaction. -/
theorem readable_recompacted (filed : a.Filed config) (complete : Complete config a manifest index)
    (lists : decodeManifest pf listing config =
      .ok { manifest with segments := pairs.map Prod.fst }) :
    readable config (recompacted config a.bucket manifest pairs listing) =
      (readable config a.bucket).map fun m =>
        if m.generation = manifest.generation
        then { manifest with segments := pairs.map Prod.fst } else m := by
  let own := (Object.manifest manifest.generation).key
  let b' := recompacted config a.bucket manifest pairs listing
  have listed : ReadableAt config a.bucket own manifest := manifestAt_eq_some.mp complete.listed
  have listed' : ReadableAt config b' own { manifest with segments := pairs.map Prod.fst } :=
    manifestAt_eq_some.mp (manifestAt_recompacted lists)
  have beside : Beside config manifest.generation a.bucket b' := beside_recompacted
  apply readable_map
  · apply manifestKeys_congr
    intro key suffixed
    by_cases same : key = own
    · subst same
      obtain ⟨-, raw, present, -⟩ := listed
      obtain ⟨-, raw', present', -⟩ := listed'
      exact .inr ⟨by rw [present']; rfl, by rw [present]; rfl⟩
    · exact .inl (beside.manifestKey suffixed same)
  · intro key suffixed
    by_cases same : key = own
    · subst same
      rw [(readAt_eq_some suffixed).mpr listed, (readAt_eq_some suffixed).mpr listed']
      simp
    · have kept : readAt config b' key = readAt config a.bucket key := by
        unfold readAt
        rw [beside.manifestKey suffixed same]
      rw [kept]
      cases found : readAt config a.bucket key with
      | none => rfl
      | some m =>
        have read := (readAt_eq_some suffixed).mp found
        have other : m.generation ≠ manifest.generation := by
          intro equal
          exact same ((filed.filed key m read).trans (by rw [equal]))
        rw [Option.map_some, if_neg other]

/-- A compaction keeps a point in time exactly where it replays nothing of the generation
or the clock stands still. -/
theorem rebuiltToTime_recompacted (filed : a.Filed config)
    (complete : Complete config a manifest index)
    (recompacts : Recompacts config manifest index pairs listing a.clock t')
    (downloaded : segmentsData config a.bucket manifest.generation manifest.segments = some allData)
    (held : segmentsData config (recompacted config a.bucket manifest pairs listing)
      manifest.generation (pairs.map Prod.fst) = some allData)
    (several : manifest.segments ≠ []) (stamped : ∀ p ∈ pairs, a.clock ≤ p.1.timestampMs)
    (last : ∃ p ∈ pairs, p.1.timestampMs = t') (before : T ≤ a.clock) :
    rebuiltToTime config (recompacted config a.bucket manifest pairs listing) T =
        rebuiltToTime config a.bucket T ↔
      selectManifest (readable config a.bucket) T ≠ some manifest ∨
        (∀ s ∈ manifest.segments, T < s.timestampMs) ∨ t' ≤ T := by
  have only : ∀ m ∈ readable config a.bucket, m.generation = manifest.generation → m = manifest := by
    intro m hm same
    obtain ⟨key, read⟩ := mem_readable.mp hm
    refine eq_of_listed complete.listed read ((filed.filed key m read).trans ?_)
    rw [same]
  have beside : Beside config manifest.generation a.bucket
      (recompacted config a.bucket manifest pairs listing) := beside_recompacted
  unfold rebuiltToTime
  rw [readable_recompacted filed complete recompacts.lists, selectManifest_map]
  swap
  · intro m hm
    split
    case isTrue same => rw [only m hm same]
    case isFalse => rfl
  cases selected : selectManifest (readable config a.bucket) T with
  | none => simp
  | some m =>
    have member := (selectManifest_mem selected).1
    by_cases same : m.generation = manifest.generation
    case neg =>
      have unselected : m ≠ manifest := fun equal => same (by rw [equal])
      have kept : ∀ o, ownerOf o = some m.generation →
          object config (recompacted config a.bucket manifest pairs listing) o =
            object config a.bucket o := by
        intro o owner
        apply beside.object
        rw [owner]
        exact fun equal => same (Option.some.inj equal)
      refine iff_of_true ?_ (.inl fun equal => unselected (Option.some.inj equal))
      rw [Option.map_some, if_neg same, Option.bind_some, Option.bind_some,
        content_congr config (kept _ rfl), segmentsData_congr config fun s _ => kept _ rfl]
    case pos =>
      obtain rfl := only m member same
      obtain ⟨snapshot, taken⟩ := Option.isSome_iff_exists.mp complete.snapshot
      have taken' : content config (recompacted config a.bucket m pairs listing)
          (.snapshot m.generation) = some snapshot :=
        (content_congr config (object_recompacted rfl (by simp))).trans taken
      have full' := (complete.compacted recompacts).full
      have full : Full config (recompacted config a.bucket m pairs listing) m.generation
          (pairs.map Prod.fst) := (complete.compacted recompacts).full
      have stamped' : ∀ s ∈ pairs.map Prod.fst, a.clock ≤ s.timestampMs ∧ s.timestampMs ≤ t' := by
        intro s hs
        obtain ⟨p, hp, rfl⟩ := List.mem_map.mp hs
        exact ⟨stamped p hp, recompacts.stamps p hp⟩
      obtain ⟨p, hp, now⟩ := last
      have replays := recut_in_time complete.full full downloaded held several complete.recorded
        stamped' ⟨p.1, List.mem_map_of_mem hp, now⟩ before
      rw [Option.map_some, if_pos rfl, Option.bind_some, Option.bind_some, taken, taken',
        Option.bind_some, Option.bind_some]
      simp only [ne_eq, not_true_eq_false, false_or]
      refine Iff.trans ?_ replays
      exact (Option.map_injective fun x y same => congrArg Restored.wal same).eq_iff

end

/-- A compaction that went through. -/
structure Recompaction (config : BackupConfig pf.build) (w w' : World A) (h h' : Head)
    (pairs : List (SegmentMeta × Bytes)) (listing allData : Bytes) : Prop where
  bucket : w'.bucket = recompacted config w.bucket h.manifest pairs listing
  generation : h'.generation = h.generation
  manifest : h'.manifest = { h.manifest with segments := pairs.map Prod.fst }
  walIndex : h'.walIndex = h.walIndex + pairs.length
  recompacts : Recompacts config h.manifest h.walIndex pairs listing w.clock w'.clock
  downloaded : segmentsData config w.bucket h.manifest.generation h.manifest.segments = some allData
  held : segmentsData config w'.bucket h.manifest.generation (pairs.map Prod.fst) = some allData
  stamped : ∀ p ∈ pairs, w.clock ≤ p.1.timestampMs
  last : ∃ p ∈ pairs, p.1.timestampMs = w'.clock

section
variable {config} {env : Env A} {w w' : World A} {h h' : Head}

theorem Archive.Filed.extends {tick : Nat → Nat → Prop} {a a' : Archive}
    (advances : ∀ t t', tick t t' → t ≤ t') (filed : a.Filed config)
    (steps : Archive.Extends config tick a a') : a'.Filed config := by
  induction steps with
  | refl => exact filed
  | tail _ step ih => exact ih.step advances (.grew step)

variable (reliable : Reliable config env) (codec : Codec config)
  (advances : ∀ t t', env.host.tick t t' → t ≤ t')
include reliable codec advances

theorem CompactExit.recompaction {maxSize : Nat} (named : Named h w)
    (complete : Complete config (h.archive w) h.manifest h.walIndex)
    (several : 1 < h.manifest.segments.length)
    (exit : CompactExit config env w h maxSize (.ok ()) h' w') :
    ∃ pairs listing allData, Recompaction config w w' h h' pairs listing allData := by
  cases exit with
  | few few => omega
  | @done allData listing pairs lastIndex clock' a recut listed moved =>
    have bound := recut.bound reliable.counts
    obtain ⟨-, downloaded, offset', finished, chunked⟩ := id recut
    obtain ⟨offset_eq, -⟩ := chunked.offsets (Nat.zero_le _)
    have downloaded' : segmentsData config w.bucket h.manifest.generation h.manifest.segments =
        some allData := by
      rw [named]
      exact downloaded
    have some_data : 0 < allData.length := by
      obtain ⟨s, hs⟩ := List.exists_mem_of_length_pos (Nat.lt_of_succ_lt several)
      obtain ⟨whole, part, all, -, shorter, -, taken⟩ := segmentsData_filter complete.full fun _ => true
      obtain rfl := Option.some.inj (all.symm.trans downloaded')
      have := List.length_pos_iff.mpr (taken ⟨s, hs, rfl⟩)
      omega
    have chunks : 0 < pairs.length * maxSize := by omega
    have positive : 1 ≤ maxSize := Nat.pos_of_mul_pos_left chunks
    have nonempty : pairs ≠ [] := List.length_pos_iff.mp (Nat.pos_of_mul_pos_right chunks)
    obtain ⟨numbered, last_eq⟩ := chunked.numbered bound
    obtain ⟨later, between, last⟩ := chunked.stamps advances
    have recompacts : Recompacts config h.manifest h.walIndex pairs listing w.clock clock' :=
      { numbered := numbered
        decodes := chunked.decodes reliable.inverts positive
        stamps := fun p hp => (between p hp).2
        later := later
        lists := listed.decodes codec.parses reliable.inverts }
    have bucket : eraseSegments config h.generation h.manifest.segments
        (withChunkList config w.bucket h pairs listing) =
        recompacted config w.bucket h.manifest pairs listing := by
      unfold recompacted withChunkList withChunks
      rw [named]
    have held : segmentsData config (recompacted config w.bucket h.manifest pairs listing)
        h.manifest.generation (pairs.map Prod.fst) = some allData := by
      rw [← bucket, named]
      exact recut.swapped reliable.inverts bound complete.below
    exact ⟨pairs, listing, allData,
      { bucket := bucket
        generation := rfl
        manifest := rfl
        walIndex := last_eq
        recompacts := recompacts
        downloaded := downloaded'
        held := bucket.symm ▸ held
        stamped := fun p hp => (between p hp).1
        last := last nonempty }⟩

omit advances in
/-- A snapshot writes the generation of the manager again. -/
theorem SnapshotExit.restarts {r : Except Error Unit} (named : Named h w)
    (exit : SnapshotExit config env w h r h' w') :
    ∃ now raw encoded listing, env.host.tick w.clock now ∧
      pipelineDecode pf encoded config = .ok raw ∧
      decodeManifest pf listing config = .ok (restamped h.manifest now) ∧
      h'.archive w' = ⟨withManifest config w.bucket h.manifest.generation encoded listing, now,
        some (restamped h.manifest now, 0)⟩ ∧ Named h' w' := by
  obtain rfl := exit.faultless reliable.sound codec
  cases exit with
  | @done raw encoded listing now a₁ a read moved sent ticks listed =>
    refine ⟨now, raw, encoded, listing, ticks, sent.decodes reliable.inverts (by simp),
      listed.decodes codec.parses reliable.inverts, ?_, named⟩
    rw [named]
    rfl

theorem SnapshotExit.files {r : Except Error Unit} (named : Named h w)
    (filed : (h.archive w).Filed config) (exit : SnapshotExit config env w h r h' w') :
    (h'.archive w').Filed config ∧ Named h' w' := by
  obtain ⟨now, raw, encoded, listing, ticks, decodes, lists, after, kept⟩ :=
    exit.restarts reliable codec named
  rw [after]
  exact ⟨filed.step advances (.restarted ticks decodes lists), kept⟩

theorem CompactExit.files {maxSize : Nat} {r : Except Error Unit} (named : Named h w)
    (filed : (h.archive w).Filed config) (exit : CompactExit config env w h maxSize r h' w') :
    (h'.archive w').Filed config ∧ Named h' w' := by
  have complete := filed.complete h.manifest h.walIndex rfl
  obtain ⟨whole, -, all, -⟩ := segmentsData_filter complete.full fun _ => true
  have held : segmentsData config w.bucket h.generation h.manifest.segments = some whole := by
    rw [← named]
    exact all
  obtain rfl := exit.faultless reliable.sound codec held
  by_cases several : 1 < h.manifest.segments.length
  · obtain ⟨pairs, listing, allData, re⟩ := exit.recompaction reliable codec advances named complete
      several
    have after := filed.step advances (.compacted re.recompacts)
    unfold Head.archive
    rw [re.bucket, re.manifest, re.walIndex]
    exact ⟨after, by rw [Named, re.manifest, re.generation]; exact named⟩
  · cases exit with
    | few => exact ⟨filed, named⟩
    | done recut => exact absurd recut.several several

omit reliable codec in
theorem RetentionExit.files (named : Named h w) (filed : (h.archive w).Filed config)
    (exit : RetentionExit config env w h w') : (h.archive w').Filed config ∧ Named h w' := by
  cases exit with
  | off => exact ⟨filed, named⟩
  | ran retention read allowed ticks moved expunged =>
    rw [← named] at expunged
    exact ⟨filed.step advances (.expired ticks expunged), named⟩

theorem ShutdownExit.files (named : Named h w) (filed : (h.archive w).Filed config)
    (exit : ShutdownExit config env w h h' w') : (h'.archive w').Filed config ∧ Named h' w' := by
  cases exit with
  | already => exact ⟨filed, named⟩
  | closed sync moved =>
    obtain ⟨steps, kept⟩ := sync.extends reliable codec named
    exact ⟨filed.extends advances steps, kept⟩

theorem Performed.files {q : Request} {s s' : Manager pf} {r : Except Error Answer}
    (filed : (archiveOf s w).Filed config) (named : Holding config Named s w)
    (performed : Performed config env w q s r s' w') :
    (archiveOf s' w').Filed config ∧ Holding config Named s' w' := by
  by_cases extends_archive : extending q
  · obtain ⟨steps, kept⟩ := performed.extends reliable codec extends_archive named
    exact ⟨filed.extends advances steps, kept⟩
  · cases performed with
    | snapped uses exit =>
      obtain ⟨after, kept⟩ := exit.files reliable codec advances (named _ rfl).2 filed
      exact ⟨after, .some uses kept⟩
    | compacted uses exit =>
      obtain ⟨after, kept⟩ := exit.files reliable codec advances (named _ rfl).2 filed
      exact ⟨after, .some uses kept⟩
    | retained uses exit =>
      obtain ⟨after, kept⟩ := exit.files advances (named _ rfl).2 filed
      exact ⟨after, .some uses kept⟩
    | closed uses exit =>
      obtain ⟨after, kept⟩ := exit.files reliable codec advances (named _ rfl).2 filed
      exact ⟨after, .some uses kept⟩
    | opened => exact absurd (.inl rfl) extends_archive
    | unopened => exact absurd (.inl rfl) extends_archive
    | synced => exact absurd (.inr (.inl rfl)) extends_archive
    | checkpointed => exact absurd (.inr (.inr (.inl rfl))) extends_archive
    | considered => exact absurd (.inr (.inr (.inr rfl))) extends_archive

end

/-- The runs of every operation in which no call fails. -/
def unfailing (host : Host A) : Regime pf A where
  host := host
  enabled _ _ := True
  allows _ _ w c reply := faultless config.dbPath w c reply ∧ uploadsWell config c
  drift := idleMove host

/-- Compactions keep the moments up to their start that meet a condition, and no others. -/
def CompactionsKeep (R : Regime pf A)
    (condition : BackupManager pf.build → World A → World A → Nat → Prop) : Prop :=
  ∀ {w₀ maxSegmentSize fuel m start answer s' w' T},
    (∀ key manifest, ReadableAt config w₀.bucket key manifest →
      key = (Object.manifest manifest.generation).key) →
    R.Reach config (.idle none w₀)
      (.running (.compact maxSegmentSize fuel) (some m) start (.pure (.ok answer, s')) w') →
    T ≤ start.clock →
    ((∀ targetPath, restoredToTime config T w'.bucket targetPath =
        restoredToTime config T start.bucket targetPath) ↔ condition m start w' T)

/-- At most one segment is listed, or the restore selects another generation, or it
replays no segment, or the clock has not passed the moment when the compaction ends. -/
def TimeKept (m : BackupManager pf.build) (start w' : World A) (T : Nat) : Prop :=
  m.manifest.segments.length ≤ 1 ∨
    selectManifest (readable config start.bucket) T ≠ some m.manifest ∨
    (∀ s ∈ m.manifest.segments, T < s.timestampMs) ∨ w'.clock ≤ T

/-- The manifests are filed, and a compaction keeps the moments it may keep. -/
def filing : Setting.Invariant (C := process config) (W := World A) where
  idle s w := (archiveOf s w).Filed config ∧ Holding config Named s w
  result q s start result _ w' := ∀ maxSegmentSize fuel m, q = .compact maxSegmentSize fuel →
    s = some m → result.isOk → ∀ T ≤ start.clock,
    (rebuiltToTime config w'.bucket T = rebuiltToTime config start.bucket T ↔
      TimeKept config m start w' T)

section
variable {config} {host : Host A}

theorem CompactExit.keepsTime {env : Env A} {w w' : World A} {m m' : BackupManager pf.build}
    {maxSize T : Nat} (reliable : Reliable config env) (codec : Codec config)
    (advances : ∀ t t', env.host.tick t t' → t ≤ t') (named : Named (head m) w)
    (filed : ((head m).archive w).Filed config)
    (exit : CompactExit config env w (head m) maxSize (.ok ()) (head m') w') (before : T ≤ w.clock) :
    rebuiltToTime config w'.bucket T = rebuiltToTime config w.bucket T ↔
      TimeKept config m w w' T := by
  have complete := filed.complete m.manifest m.walIndex rfl
  by_cases several : 1 < m.manifest.segments.length
  · obtain ⟨pairs, listing, allData, re⟩ := exit.recompaction reliable codec advances named complete
      several
    have nonempty : m.manifest.segments ≠ [] :=
      List.length_pos_iff.mp (Nat.lt_of_succ_lt several)
    have held := re.held
    rw [re.bucket] at held ⊢
    refine (rebuiltToTime_recompacted filed complete re.recompacts re.downloaded held nonempty
      re.stamped re.last before).trans ?_
    unfold TimeKept
    rw [or_iff_right (Nat.not_le.mpr several)]
    rfl
  · have few : TimeKept config m w w' T := .inl (Nat.not_lt.mp several)
    generalize head m' = h' at exit
    cases exit with
    | few => exact iff_of_true rfl few
    | done recut => exact absurd recut.several several

theorem filing_kept (codec : Codec config) (advances : ∀ t t', host.tick t t' → t ≤ t') :
    (filing config).Kept (Regime.setting config (unfailing config host)) where
  entered _ _ := trivial
  stays _ _ _ := trivial
  drift := by
    rintro s w w' ⟨filed, named⟩ ⟨a, t, moved, same | ticks, rfl⟩
    · subst same
      exact ⟨filed, named⟩
    · exact ⟨filed.step advances (.grew (.waited ticks)), named⟩
  body := by
    intro q s w enabled ⟨filed, named⟩
    let env := Regime.env config (unfailing config host) q s
    have reliable : Reliable config env := reliable_flawless (fun _ => True) q s
    refine Prog.wp_mono (fun _ _ _ _ h => h) (fun _ _ _ _ _ => trivial) ?_ _ _
      (wp_process rfl (fun m hs => (named m hs).1) (request_any q s))
    rintro ⟨result, s'⟩ w' performed -
    refine ⟨?_, performed.files reliable codec advances filed named⟩
    rintro maxSegmentSize fuel m rfl rfl ok T before
    cases performed with
    | compacted uses exit =>
      cases result with
      | error e => cases ok
      | ok answer =>
        exact exit.keepsTime reliable codec advances (named m rfl).2 filed before

/-- Under a clock that does not go back, a compaction keeps exactly these moments. -/
theorem compactions_keep_time (codec : Codec config) (advances : ∀ t t', host.tick t t' → t ≤ t') :
    CompactionsKeep config (unfailing config host) (TimeKept config) := by
  intro w₀ maxSegmentSize fuel m start answer s' w' T filed run before
  have opened : (filing config).idle (none : Manager pf) w₀ := by
    refine ⟨⟨filed, ?_⟩, .none _⟩
    rintro _ _ ⟨⟩
  have kept := ((filing_kept codec advances).returned run opened).1 _ _ m rfl rfl rfl T before
  rw [← kept]
  simp only [restoredToTime_eq]
  exact ⟨fun same => same [], fun same _ => same⟩

theorem compactions_keep_time_plain :
    CompactionsKeep plainConfig (unfailing plainConfig (fileHost fun t t' => t ≤ t'))
      (TimeKept plainConfig) :=
  compactions_keep_time plain_codec fun _ _ later => later

end

/-- Two syncs and a compaction, and then the moment of the first sync replays nothing. -/
theorem not_compactionsKeep :
    ¬ CompactionsKeep plainConfig (unfailing plainConfig (fileHost fun t t' => t ≤ t'))
      fun _ _ _ _ => True := by
  let R : Regime plain Files := unfailing plainConfig (fileHost fun t t' => t ≤ t')
  let objects : List Object :=
    [.latest, .manifest (uuid 0), .snapshot (uuid 0), .segment (uuid 0) 0, .segment (uuid 0) 1,
      .segment (uuid 0) 2]
  let M : Machine R :=
    { enable := fun _ _ => true
      truncate := id
      install := fun files _ _ => files
      check := fun _ _ w c reply => faultlessly objects w c reply
      enabled := fun _ _ _ => trivial
      truncated := fun _ => trivial
      installed := fun _ _ _ => trivial
      ticks := fun _ _ => Nat.le_succ _
      checked := by
        refine fun _ _ w c reply => faultlessly_sound ?_
        rintro o ho generation index rfl
        simp only [objects, List.mem_cons, List.not_mem_nil, reduceCtorEq, Object.segment.injEq,
          false_or, or_false] at ho
        omega }
  let w₀ : World Files := ⟨∅, ⟨some dbFile, some (walHeader 7)⟩, 0, []⟩
  let frame (fill : UInt8) : Machine.Cue R :=
    .move (fun files => { files with wal := some (files.wal.getD [] ++ walFrame fill) })
      (fun w => ⟨_, _, trivial, .inl rfl, rfl⟩)
  let well (q : Request) : Machine.Cue R := .perform q fun _ => false
  let cues : List (Machine.Cue R) :=
    [well .new, frame 1, well .syncWal, frame 2, well .syncWal]
  have played : (M.call plainConfig cues (.compact (some 4096) 8) (fun _ => false) (none, w₀)).any
      (fun out => out.1.1.isSome ∧ out.2.1.1.toOption.isSome ∧ 3 ≤ out.1.2.clock ∧
        rebuiltToTime plainConfig out.2.2.bucket 3 ≠ rebuiltToTime plainConfig out.1.2.bucket 3) =
      true := by decide +kernel
  obtain ⟨s, start, ⟨result, s'⟩, w, run, checked⟩ := Machine.exists_call played
  intro claim
  obtain ⟨opened, returned, before, changed⟩ := of_decide_eq_true checked
  obtain ⟨m, rfl⟩ := Option.isSome_iff_exists.mp opened
  obtain ⟨answer, returns⟩ := Option.isSome_iff_exists.mp returned
  obtain rfl := eq_ok_of_toOption returns
  have kept := (claim ?_ run before).mpr trivial
  · have same := kept []
    simp only [restoredToTime_eq] at same
    exact changed same
  · rintro key manifest ⟨-, raw, present, -⟩
    cases present

end Waloy.Spec
