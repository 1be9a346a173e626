import Waloy.Guarantees.Mismatch
import Waloy.Source.Cli
import Waloy.Spec.Directory
import Waloy.Spec.Frames

/-!
# What the command line tool reads of a backup

A manifest is uploaded through the codec, and the tool parses the object that it finds. The
two agree on a manifest that was stored as it is.
-/
namespace Waloy.Spec
open Waloy.Effect Waloy.Source

variable {pf : Platform} (config : BackupConfig pf.build)

/-- The client of the tool for the bucket of a configuration. -/
def cliOf : CliS3 := ⟨config.s3.keyPrefix⟩

/-- Parsing inverts the serialization of manifests, and no JSON text begins with a `W`. -/
structure StrictJson (libs : Libs) : Prop where
  parses : Parses libs
  strict : ∀ data m, libs.jsonFromSlice data = .ok m → data.head? ≠ some 0x57

/-- The object that `upload_manifest` stores. -/
def UploadedManifest (manifest : GenerationManifest) (encoded : Bytes) : Prop :=
  ∃ json, pf.libs.jsonToVec manifest = .ok json ∧ Encodes pf config json encoded

/-- Both commands have the manifest of a generation. -/
structure CliObtains (b : Bucket) (generation : Str) (m : GenerationManifest) : Prop where
  generations : ∃ lines files, Returns b [] (Cli.generations pf.libs (cliOf config)) lines files ∧
    ∃ line ∈ lines, line.generation = generation ∧ line.manifest = some m
  inspect : ∃ files, Returns b [] (Cli.inspect pf.libs (cliOf config) (some generation))
    (.manifest generation m) files

/-- What the manager decodes of an uploaded manifest, the tool has too. -/
def CliAgrees (b : Bucket) (generation : Str) (encoded : Bytes) : Prop :=
  ∀ m, decodeManifest pf encoded config = .ok m → CliObtains config b generation m

/-- The tool reads every manifest that a manager without a key has stored. -/
def CliReads : Prop :=
  isEncrypted config = false → StrictJson pf.libs → Crates pf.libs →
    ∀ b generation manifest encoded, '/' ∉ generation → UploadedManifest config manifest encoded →
      object config b (.manifest generation) = some encoded → CliAgrees config b generation encoded

/-- A build with LZ4, and a configuration that uses it. -/
def packing : Platform := ⟨⟨true, false, false, true⟩, plain.libs⟩

def packedConfig : BackupConfig packing.build where
  dbPath := ['d', 'b']
  s3 := ⟨[]⟩
  retentionDuration := none
  compression := .lz4 rfl
  encryptionKey := none
  autoRestore := false
  snapshotInterval := none

theorem plain_strict : StrictJson plain.libs where
  parses _ _ := jsonFromSlice_jsonToVec
  strict data m parsed marked := by
    rw [jsonFromSlice_brace parsed] at marked
    cases marked

section
variable {config} {b : Bucket} {files : List (Str × Bytes)} {generation : Str}

variable (files) in
theorem returns_cliObject {o : Object} {data : Bytes} (present : object config b o = some data) :
    Returns b files ((cliOf config).getObject o.key) data files := by
  refine returns_orFail .s3 (returns_call ?_)
  have found : b.lookup ((cliOf config).fullKey o.key) = some data := present
  simp only [atRest, found]

variable (files) in
theorem stops_cliObject {o : Object} (missing : object config b o = none) :
    ∃ e, Op.interp (atRest b) ((cliOf config).getObject o.key) () files =
      some ((.error e, ()), files) := by
  have found : b.lookup ((cliOf config).fullKey o.key) = none := missing
  have answered : atRest b files (.getObject ((cliOf config).fullKey o.key)) =
      some (.error "no such key", files) := by simp only [atRest, found]
  exact ⟨.s3 "no such key", (Op.interp_bind_ok (returns_call answered) _).trans rfl⟩

variable (config b files) in
theorem returns_cliKeys (keyPrefix : Str) :
    Returns b files ((cliOf config).listKeys keyPrefix) (listing config b keyPrefix) files := by
  have answered : atRest b files (.list ((S3Client.new config.s3).fullKey keyPrefix)) = some (.ok
      [b.keys.filter (((S3Client.new config.s3).fullKey keyPrefix).isPrefixOf ·)], files) := rfl
  refine (returns_orFail .s3 (returns_call answered)).bind ?_
  simp [Returns, listing]
  rfl

variable (config b files) in
/-- The result of a read that may fail, over a bucket at rest. -/
theorem returns_cliAttempt (o : Object) :
    ∃ r, Returns b files (Op.attempt ((cliOf config).getObject o.key)) r files ∧
      r.toOption = object config b o := by
  cases held : object config b o with
  | some data => exact ⟨.ok data, (returns_cliObject files held).attempt, rfl⟩
  | none =>
    obtain ⟨e, stopped⟩ := stops_cliObject files held
    exact ⟨.error e, Op.interp_attempt stopped, rfl⟩

/-- The line of a generation. -/
def lineOf (config : BackupConfig pf.build) (b : Bucket) (latest : Option Str) (generation : Str) :
    Cli.GenerationLine where
  generation := generation
  isLatest := latest = some generation
  manifest := (object config b (.manifest generation)).bind
    fun data => (pf.libs.jsonFromSlice data).toOption

theorem returns_generationLines (latest : Option Str) (generations : List Str) :
    Returns b files (Cli.generationLines pf.libs (cliOf config) latest generations)
      (generations.map (lineOf config b latest)) files := by
  induction generations with
  | nil => exact returns_pure _
  | cons generation rest ih =>
    obtain ⟨r, attempted, same⟩ :=
      returns_cliAttempt config b files (.manifest generation)
    refine attempted.bind (ih.bind ?_)
    rw [List.map_cons, lineOf, ← same]
    exact returns_pure _

/-- The ids that `generations` lists. -/
def listedIds (config : BackupConfig pf.build) (b : Bucket) : List Str :=
  S3Client.sortKeys (((listing config b []).filter manifestSuffix.isSuffixOf).map
    (trimEndMatches manifestSuffix))

variable (config b) in
theorem returns_generations : ∃ latest,
    Returns b [] (Cli.generations pf.libs (cliOf config))
      ((listedIds config b).map (lineOf config b latest)) [] := by
  obtain ⟨r, attempted, -⟩ := returns_cliAttempt config b [] .latest
  refine ⟨r.toOption.bind fromUtf8, ?_⟩
  refine (returns_cliKeys config b [] []).bind (attempted.bind ?_)
  exact returns_generationLines _ _

theorem mem_listedIds (plain : '/' ∉ generation) {data : Bytes}
    (present : object config b (.manifest generation) = some data) :
    generation ∈ listedIds config b := by
  refine (List.mem_insertionSort _).mpr (List.mem_map.mpr ⟨generation ++ manifestSuffix, ?_, ?_⟩)
  · refine List.mem_filter.mpr ⟨mem_listing.mpr ⟨?_, List.nil_prefix⟩, ?_⟩
    · exact AList.mem_keys.mp (AList.lookup_isSome.mp (Option.isSome_iff_exists.mpr ⟨data, present⟩))
    · exact List.isSuffixOf_iff_suffix.mpr (List.suffix_append _ _)
  · exact trimEndMatches_manifest plain

/-- Both commands have what the object parses to. -/
theorem cliObtains_iff (plain : '/' ∉ generation) {data : Bytes} {m : GenerationManifest}
    (present : object config b (.manifest generation) = some data) :
    CliObtains config b generation m ↔ pf.libs.jsonFromSlice data = .ok m := by
  have inspects := (returns_cliObject [] present).attempt
  constructor
  · rintro ⟨-, files, inspected⟩
    cases parsed : pf.libs.jsonFromSlice data with
    | ok m' =>
      have here : Returns b [] (Cli.inspect pf.libs (cliOf config) (some generation))
          (.manifest generation m') [] := by
        refine (returns_pure generation).bind (inspects.bind ?_)
        refine Returns.bind (returns_ofExcept ?_) (returns_pure _)
        rw [parsed]
        rfl
      have same := here.symm.trans inspected
      cases same
      rfl
    | error e =>
      have stopped : Stops b [] (Cli.inspect pf.libs (cliOf config) (some generation)) := by
        refine (returns_pure generation).stops (inspects.stops (stops_ofExcept ?_).bind)
        rw [parsed]
        rfl
      obtain ⟨_, _, stopped⟩ := stopped
      cases stopped.symm.trans inspected
  · intro parsed
    constructor
    · obtain ⟨latest, listed⟩ := returns_generations config b
      refine ⟨_, _, listed, lineOf config b latest generation,
        List.mem_map_of_mem (mem_listedIds plain present), rfl, ?_⟩
      rw [lineOf, present, Option.bind_some, parsed]
      rfl
    · refine ⟨[], (returns_pure generation).bind (inspects.bind ?_)⟩
      refine Returns.bind (returns_ofExcept ?_) (returns_pure _)
      rw [parsed]
      rfl

/-- A manifest that was stored as it is, is decoded by parsing it. -/
theorem decodeManifest_plain (plainly : isEncrypted config = false) (json : StrictJson pf.libs)
    {data : Bytes} {manifest : GenerationManifest} (parsed : pf.libs.jsonFromSlice data = .ok manifest) :
    decodeManifest pf data config = .ok manifest := by
  have unmarked : ∀ magic : Bytes, magic.head? = some 0x57 → ¬ magic <+: data := by
    intro magic marked begins
    obtain ⟨rest, rfl⟩ := begins
    refine json.strict _ _ parsed ?_
    rw [List.head?_append, marked]
    rfl
  have unmistakable : Unmistakable pf data :=
    ⟨fun lz4 => absurd lz4 (unmarked _ rfl), fun zstd => absurd zstd (unmarked _ rfl)⟩
  have decoded : pipelineDecode pf data config = .ok data := by
    rw [pipelineDecode_eq, plainly]
    exact decompress_eq_self.mpr unmistakable
  exact decodeManifest_of_decode decoded parsed

/-- What was compressed begins with a `W`. -/
theorem compress_marked {data compressed : Bytes} (packed : config.compression ≠ .none)
    (compresses : compress pf data config.compression = .ok compressed) :
    compressed.head? = some 0x57 := by
  cases algorithm : config.compression with
  | none => exact absurd algorithm packed
  | lz4 feature =>
    rw [algorithm] at compresses
    cases compresses
    rfl
  | zstd feature =>
    rw [algorithm] at compresses
    unfold compress at compresses
    dsimp only at compresses
    cases encodes : pf.libs.zstdEncodeAll data 3 with
    | error e => rw [encodes] at compresses; cases compresses
    | ok frame =>
      rw [encodes] at compresses
      cases compresses
      rfl

end

theorem not_cliReads : ¬ CliReads packedConfig := by
  intro claim
  let manifest : GenerationManifest := ⟨uuid 0, 1000, 1000, []⟩
  let json : Bytes := asBytes (manifestText manifest)
  let b : Bucket := AList.insert (objectKey packedConfig (.manifest (uuid 0))) (magicLz4 ++ json) ∅
  have present : object packedConfig b (.manifest (uuid 0)) = some (magicLz4 ++ json) :=
    AList.lookup_insert _
  have apart : '/' ∉ uuid 0 := by decide
  have uploaded : UploadedManifest packedConfig manifest (magicLz4 ++ json) :=
    ⟨json, rfl, List.replicate saltLen 0, List.replicate nonceLen 0, rfl, rfl, rfl⟩
  have decoded : pipelineDecode packing (magicLz4 ++ json) packedConfig = .ok json := rfl
  have parsed : plain.libs.jsonFromSlice json = .ok manifest := plain_strict.parses _ _ rfl
  have reads := claim rfl plain_strict plain_crates b (uuid 0) manifest _ apart uploaded present
    manifest (decodeManifest_of_decode decoded parsed)
  have misread : plain.libs.jsonFromSlice (magicLz4 ++ json) = .ok manifest :=
    (cliObtains_iff apart present).mp reads
  exact plain_strict.strict _ _ misread rfl

/-- The tool reads a stored manifest exactly where it was stored as it is. -/
theorem cli_reads_iff {b : Bucket} {generation : Str} {manifest : GenerationManifest}
    {encoded : Bytes} (plainly : isEncrypted config = false) (json : StrictJson pf.libs)
    (crates : Crates pf.libs) (apart : '/' ∉ generation)
    (uploaded : UploadedManifest config manifest encoded)
    (present : object config b (.manifest generation) = some encoded) :
    CliAgrees config b generation encoded ↔ config.compression = .none := by
  obtain ⟨text, serialized, encodes⟩ := uploaded
  have parsed := json.parses _ _ serialized
  obtain ⟨compressed, compresses, layer⟩ := encodes_layers encodes
  rw [plainly] at layer
  obtain rfl : encoded = compressed := layer
  constructor
  · intro agrees
    by_contra packed
    have decoded := (pipelineDecode_encodes crates encodes).mpr (.inl packed)
    have read := (cliObtains_iff apart present).mp
      (agrees manifest (decodeManifest_of_decode decoded parsed))
    exact json.strict _ _ read (compress_marked packed compresses)
  · intro stored m decoded
    rw [stored] at compresses
    cases compresses
    rw [decodeManifest_plain plainly json parsed] at decoded
    cases decoded
    exact (cliObtains_iff apart present).mpr parsed

theorem cli_reads_plain :
    CliAgrees plainConfig
      (AList.insert (objectKey plainConfig (.manifest (uuid 0)))
        (asBytes (manifestText ⟨uuid 0, 1000, 1000, []⟩)) ∅) (uuid 0)
      (asBytes (manifestText ⟨uuid 0, 1000, 1000, []⟩)) ↔ plainConfig.compression = .none := by
  have uploaded : UploadedManifest plainConfig ⟨uuid 0, 1000, 1000, []⟩
      (asBytes (manifestText ⟨uuid 0, 1000, 1000, []⟩)) :=
    ⟨_, rfl, List.replicate saltLen 0, List.replicate nonceLen 0, rfl, rfl, rfl⟩
  have present : object plainConfig (AList.insert (objectKey plainConfig (.manifest (uuid 0)))
      (asBytes (manifestText ⟨uuid 0, 1000, 1000, []⟩)) ∅) (.manifest (uuid 0)) =
      some (asBytes (manifestText ⟨uuid 0, 1000, 1000, []⟩)) := AList.lookup_insert _
  have apart : '/' ∉ uuid 0 := by decide
  exact cli_reads_iff plainConfig rfl plain_strict plain_crates apart uploaded present

end Waloy.Spec
