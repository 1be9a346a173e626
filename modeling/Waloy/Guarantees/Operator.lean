import Waloy.Guarantees.CommandLine
import Waloy.Guarantees.RoundTrip

/-!
# What the command line tool makes of a run

The tool reads the bucket that a manager writes, with a client and a configuration of its own.
After every operation of the runs of the round trip `restore` rebuilds what the manager has saved,
`generations` marks its generation and no other, and `inspect` shows its manifest. The last two
parse the manifest as it is stored, so they show it of an uncompressed backup and of no other.
-/
namespace Waloy.Spec
open Waloy.Effect Waloy.Source Waloy.Source.BackupManager

variable {pf : Platform} (config : BackupConfig pf.build) {A : Type}

/-- The lines of `generations` that are marked as the latest. -/
def markedLines (lines : List Cli.GenerationLine) : List Cli.GenerationLine :=
  lines.filter fun line => line.isLatest

/-- What the commands give of the backup of an open manager. -/
structure ToolServes (host : Host A) (m : BackupManager pf.build) (w : World A) : Prop where
  restore : ∀ path, ∃ db files, host.db w.app = some db ∧
    Returns w.bucket [] (Cli.main pf config.s3 (.restore path none)) (.restored path) files ∧
    files.lookup path = some db ∧ walOf path files = (host.walBytes w.app).take m.walOffset
  /-- To a time it is the restore with the configuration of the manager. -/
  restoreToTime : ∀ path timestampMs, Cli.main pf config.s3 (.restore path (some timestampMs)) = do
    restoreToTimeWithConfig pf config path timestampMs
    pure (.restored path)
  generations : ∃ lines,
    Returns w.bucket [] (Cli.main pf config.s3 .generations) (.generations lines) [] ∧
    ∃ found, markedLines lines = [⟨m.generation, true, found⟩] ∧
      (found = some m.manifest ↔ config.compression = .none)
  inspect : Returns w.bucket [] (Cli.main pf config.s3 (.inspect none))
    (.inspection (.manifest m.generation m.manifest)) [] ↔ config.compression = .none

/-- The commands give the backup of the manager after every operation of a run. -/
def ToolFollows (host : Host A) : Prop :=
  ∀ {b a t m w streak}, (sharedRuns config host).Reach (.idle none (⟨b, a, t, []⟩, 0))
    (.idle (some m) (w, streak)) → ToolServes config host m w

/-- The manifest of the manager, as the upload has stored it. -/
def Posted (h : Head) (w : World A) : Prop :=
  ∃ encoded, object config w.bucket (.manifest h.generation) = some encoded ∧
    UploadedManifest config h.manifest encoded

section
variable {config} {b : Bucket}

/-- What a restore does depends on the configuration through the decoding only. -/
theorem restoreInner_congr {config' : BackupConfig pf.build} (bucket : config'.s3 = config.s3)
    (decodes : ∀ data, pipelineDecode pf data config' = pipelineDecode pf data config)
    (path : Str) (time : Option Nat) :
    restoreInner pf config' path time = restoreInner pf config path time := by
  have manifests : ∀ data, decodeManifest pf data config' = decodeManifest pf data config := by
    intro data
    unfold decodeManifest
    rw [decodes]
  have segments : ∀ s3 keys, readSegments pf s3 config' keys = readSegments pf s3 config keys := by
    intro s3 keys
    induction keys with
    | nil => rfl
    | cons key keys ih => simp only [readSegments, decodes, ih]
  have found : ∀ s3 keys, pitrManifests pf s3 config' keys = pitrManifests pf s3 config keys := by
    intro s3 keys
    induction keys with
    | nil => rfl
    | cons key keys ih => simp only [pitrManifests, manifests, ih]
  unfold restoreInner restorePitr restoreLatest writeSnapshot replaySegments segmentKeysFromManifest
  simp only [bucket, decodes, manifests, segments, found]

/-- A reader without a key decodes what was not encrypted. -/
theorem restore_default (plainly : isEncrypted config = false) (path : Str) (time : Option Nat) :
    restoreInner pf (defaultConfig pf config.s3) path time = restoreInner pf config path time := by
  have decodes : ∀ data, pipelineDecode pf data (defaultConfig pf config.s3) =
      pipelineDecode pf data config := by
    intro data
    have keyless : isEncrypted (defaultConfig pf config.s3) = false := Bool.and_false _
    rw [pipelineDecode_eq, pipelineDecode_eq, plainly, keyless]
    rfl
  have bucket : (defaultConfig pf config.s3).s3 = config.s3 := rfl
  exact restoreInner_congr bucket decodes path time

/-- `restore` without a time, over a bucket from which the manager could restore. -/
theorem returns_restore (plainly : isEncrypted config = false) {generation : Str} {keys : List Str}
    {db wal : Bytes} (path : Str) (selected : selection config b none = some (generation, keys))
    (snap : content config b (.snapshot generation) = some db)
    (held : keysData config b keys = some wal) :
    ∃ files, Returns b [] (Cli.main pf config.s3 (.restore path none)) (.restored path) files ∧
      files.lookup path = some db ∧ walOf path files = wal := by
  have returned : Returns b [] (BackupManager.restore pf config.s3 path) ()
      (overwritten path keys db wal []) := by
    unfold BackupManager.restore
    rw [restore_default plainly]
    exact returns_restoreInner selected snap held
  refine ⟨_, returned.bind (returns_pure _), lookup_overwritten, ?_⟩
  rw [walOf_overwritten]
  split
  · next empty =>
    subst empty
    exact Option.some.inj held
  · rfl

/-- The lines of `generations`, over a bucket at rest. -/
theorem returns_lines : Returns b [] (Cli.main pf config.s3 .generations)
    (.generations ((listedIds config b).map
      (lineOf config b ((object config b .latest).bind fromUtf8)))) [] := by
  obtain ⟨r, attempted, same⟩ := returns_cliAttempt config b [] .latest
  rw [← same]
  refine Returns.bind ?_ (returns_pure _)
  refine (returns_cliKeys config b [] []).bind (attempted.bind ?_)
  exact returns_generationLines _ _

/-- The key of its manifest is the only one from which `generations` takes an id. -/
theorem count_listedIds {generation : Str} (tidy : Tidy config b generation) {data : Bytes}
    (present : object config b (.manifest generation) = some data) :
    (listedIds config b).count generation = 1 := by
  let keys := (listing config b []).filter manifestSuffix.isSuffixOf
  have distinct : keys.Nodup := nodup_listing.filter _
  have only : ∀ key ∈ keys, trimEndMatches manifestSuffix key = generation ↔
      key = (Object.manifest generation).key := by
    intro key member
    obtain ⟨listed, suffixed⟩ := List.mem_filter.mp member
    constructor
    · intro trimmed
      have inside := trimEndMatches_prefix (by decide) suffixed
      rw [trimmed] at inside
      have under : generation ++ ['/'] <+: key :=
        ((List.prefix_append_right_inj _).mpr (by decide)).trans inside
      obtain ⟨o, same, owner⟩ := tidy.2 _ (mem_listing.mp listed).1
        ((S3Client.fullKey_prefix _).mpr under)
      obtain rfl : key = o.key := S3Client.fullKey_injective _ same
      rw [key_manifestSuffix owner (List.isSuffixOf_iff_suffix.mp suffixed)]
    · rintro rfl
      exact trimEndMatches_manifest tidy.1
  have member : (Object.manifest generation).key ∈ keys := by
    refine List.mem_filter.mpr ⟨mem_listing.mpr ⟨?_, List.nil_prefix⟩, ?_⟩
    · refine AList.mem_keys.mp (AList.lookup_isSome.mp ?_)
      exact Option.isSome_iff_exists.mpr ⟨data, present⟩
    · exact List.isSuffixOf_iff_suffix.mpr (List.suffix_append _ _)
  calc (listedIds config b).count generation
      = (keys.map (trimEndMatches manifestSuffix)).count generation :=
        (List.perm_insertionSort _ _).count_eq _
    _ = keys.countP (fun key => trimEndMatches manifestSuffix key == generation) := by
        rw [List.count_eq_countP, List.countP_map]
        rfl
    _ = keys.countP (fun key => key == (Object.manifest generation).key) := by
        refine List.countP_congr fun key member => ?_
        simpa using only key member
    _ = 1 := List.count_eq_one_of_mem distinct member

/-- One line is marked. -/
theorem markedLines_listed {generation : Str} (tidy : Tidy config b generation) {data : Bytes}
    (present : object config b (.manifest generation) = some data) :
    markedLines ((listedIds config b).map (lineOf config b (some generation))) =
      [lineOf config b (some generation) generation] := by
  have marks : ∀ id, (lineOf config b (some generation) id).isLatest = (id == generation) := by
    intro id
    rw [Bool.eq_iff_iff]
    simp only [lineOf, decide_eq_true_eq, beq_iff_eq, Option.some.injEq]
    exact eq_comm
  unfold markedLines
  rw [List.filter_map]
  have same : (fun line : Cli.GenerationLine => line.isLatest) ∘
      lineOf config b (some generation) = (· == generation) := funext marks
  rw [same, List.filter_beq, count_listedIds tidy present]
  rfl

/-- `inspect` of the latest generation has what its manifest parses to. -/
theorem returns_inspect_iff {generation : Str} {data : Bytes} {m : GenerationManifest}
    (latest : object config b .latest = some (asBytes generation))
    (present : object config b (.manifest generation) = some data) :
    Returns b [] (Cli.main pf config.s3 (.inspect none)) (.inspection (.manifest generation m)) [] ↔
      pf.libs.jsonFromSlice data = .ok m := by
  have asked : Returns b [] (Cli.inspectedId (cliOf config) none) generation [] := by
    refine (returns_cliObject [] latest).bind ?_
    rw [fromUtf8_asBytes]
    exact returns_pure _
  have inspects := (returns_cliObject [] present).attempt
  cases parsed : pf.libs.jsonFromSlice data with
  | ok m' =>
    have read : Returns b [] (Cli.main pf config.s3 (.inspect none))
        (.inspection (.manifest generation m')) [] := by
      refine Returns.bind (asked.bind (inspects.bind ?_)) (returns_pure _)
      refine Returns.bind (returns_ofExcept ?_) (returns_pure _)
      rw [parsed]
      rfl
    constructor
    · intro inspected
      have same := read.symm.trans inspected
      cases same
      rfl
    · rintro ⟨⟩
      exact read
  | error e =>
    have stopped : Stops b [] (Cli.main pf config.s3 (.inspect none)) := by
      refine Stops.bind (asked.stops (inspects.stops (stops_ofExcept ?_).bind))
      rw [parsed]
      rfl
    obtain ⟨_, _, stopped⟩ := stopped
    constructor
    · intro inspected
      cases stopped.symm.trans inspected
    · intro read
      cases read

/-- An uploaded manifest can be parsed where it was not compressed. -/
theorem UploadedManifest.parses_iff (plainly : isEncrypted config = false)
    (json : StrictJson pf.libs) {manifest : GenerationManifest} {encoded : Bytes}
    (uploaded : UploadedManifest config manifest encoded) :
    pf.libs.jsonFromSlice encoded = .ok manifest ↔ config.compression = .none := by
  obtain ⟨text, serialized, encodes⟩ := uploaded
  obtain ⟨compressed, compresses, layer⟩ := encodes_layers encodes
  rw [plainly] at layer
  obtain rfl : encoded = compressed := layer
  constructor
  · intro parsed
    by_contra packed
    exact json.strict _ _ parsed (compress_marked packed compresses)
  · intro stored
    rw [stored] at compresses
    cases compresses
    exact json.parses _ _ serialized

section
variable {env : Env A} {w w' : World A} {h h' : Head} {generation : Str} {encoded : Bytes}
  {manifest : GenerationManifest}

theorem SendsManifest.uploaded (sent : SendsManifest config env generation manifest encoded) :
    UploadedManifest config manifest encoded := by
  obtain ⟨json, serialized, sent⟩ := sent
  exact ⟨json, serialized, sent.encodes⟩

theorem Posted.snapshot (exit : SnapshotExit config env w h (.ok ()) h' w') :
    Posted config h' w' := by
  cases exit with
  | done read moved sent ticks listed =>
    exact ⟨_, by simp [Head.restarted, withManifest], listed.uploaded⟩

/-- Each operation uploads the manifest that it leaves the manager with. -/
theorem posted_lasts (config : BackupConfig pf.build) (env : Env A) :
    Lasting config env (fun _ => True) (Posted config) where
  adrift _ := trivial
  moved posted _ := posted
  begun _ _ _ exit := ⟨trivial, Posted.snapshot exit⟩
  captured walData posted := by
    unfold Posted Head.captured at *
    split <;> exact posted
  uploaded _ _ _ _ exit := by
    refine ⟨trivial, ?_⟩
    cases exit with
    | done moved sent ticks listed next =>
      exact ⟨_, by simp [Head.advanced, Head.listed, withListing], listed.uploaded⟩
  compacted _ posted exit := by
    refine ⟨trivial, ?_⟩
    cases exit with
    | few => exact posted
    | done recut listed moved =>
      exact ⟨_, by simp [Head.compacted, Head.relisted, withChunkList], listed.uploaded⟩
  retained _ posted tidy exit _ := by
    refine ⟨trivial, ?_⟩
    cases exit with
    | off => exact posted
    | ran retention read allowed ticks moved expunged =>
      obtain ⟨encoded, present, uploaded⟩ := posted
      refine ⟨encoded, ?_, uploaded⟩
      rw [← present]
      exact expunged.left tidy (fun other => absurd rfl other) (objectKey_inside rfl)

end

/-- What `restore_latest` selects of a bucket that mirrors the manager, and what it replays. -/
theorem Mirrored.selects {host : Host A} {h : Head} {w : World A}
    (mirrored : Mirrored config host h w) :
    selection config w.bucket none =
      some (h.generation, replayed config w.bucket h.generation) := by
  simp [selection, mirrored.published.latest]

theorem Mirrored.replays {host : Host A} {h : Head} {w : World A}
    (mirrored : Mirrored config host h w) :
    keysData config w.bucket (replayed config w.bucket h.generation) =
      some ((host.walBytes w.app).take h.walOffset) := by
  simp [replayed, mirrored.listed, keysData_segments, mirrored.backed.held]

/-- Whoever has only the tool, and no key because there is none, has what the manager has: the
files that it saved, which generation is its own, and the manifest of an uncompressed backup. -/
theorem tool_follows (codec : Codec config) (json : StrictJson pf.libs)
    (plainly : isEncrypted config = false) (host : Host A) : ToolFollows config host := by
  intro b a t m w streak run
  obtain ⟨-, steady⟩ :=
    (unsteadyRuns_absorbed config (fun _ => True) host.undisturbed.appending).idle rfl run
  have posts : Lasts config (fun _ => True) host (fun _ => True) (Posted config) :=
    ⟨fun _ => posted_lasts config _, fun _ _ _ _ _ exit => ⟨trivial, Posted.snapshot exit⟩⟩
  obtain ⟨⟨tidies, mirrored⟩, -, posted⟩ := (posts.kept codec).reach steady
    (beside_start config host.undisturbed.appending trivial)
  obtain ⟨-, -, saved⟩ := (saving_kept codec host).reach steady
    (beside_start config host.undisturbed.appending trivial)
  obtain ⟨-, mirrored⟩ := mirrored m rfl
  obtain ⟨-, encoded, present, uploaded⟩ := posted m rfl
  obtain ⟨-, db, held, stored⟩ := saved m rfl
  have latest := mirrored.published.latest
  have read := uploaded.parses_iff plainly json
  constructor
  case restore =>
    intro path
    obtain ⟨files, served⟩ :=
      returns_restore plainly path mirrored.selects stored mirrored.replays
    exact ⟨db, files, held, served⟩
  case restoreToTime =>
    intro path timestampMs
    exact congrArg (fun restore => restore >>= fun _ => pure (Cli.Printed.restored path))
      (restore_default plainly path (some timestampMs))
  case generations =>
    have shows : (pf.libs.jsonFromSlice encoded).toOption = some m.manifest ↔
        config.compression = .none := by
      refine Iff.trans ?_ read
      cases pf.libs.jsonFromSlice encoded <;> simp [Except.toOption, head]
    refine ⟨_, returns_lines, _, ?_, shows⟩
    rw [latest, Option.bind_some, fromUtf8_asBytes]
    refine (markedLines_listed (tidies _ mirrored.logged) present).trans ?_
    simp [lineOf, present]
    rfl
  case inspect => exact (returns_inspect_iff latest present).trans read

theorem tool_follows_plain : ToolFollows plainConfig (fileHost fun t t' => t ≤ t') :=
  tool_follows plain_codec plain_strict rfl _

end

end Waloy.Spec
