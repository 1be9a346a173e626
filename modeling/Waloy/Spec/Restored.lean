import Waloy.Spec.Rules

/-!
# What a restore writes

A restore reads the bucket and writes the database file and its WAL file. Run over a
bucket that does not change, each of the two restores is a function of the bucket; here
it is in closed form.
-/
namespace Waloy.Spec
open Waloy.Effect Waloy.Source Waloy.Source.BackupManager

variable {pf : Platform} (config : BackupConfig pf.build)

/-- The answers of a bucket at rest to a restore, and the files written so far. -/
def atRest (b : Bucket) (files : List (Str × Bytes)) :
    (c : Call) → Option (c.Reply × List (Str × Bytes))
  | .getObject key =>
    match b.lookup key with
    | some data => some (.ok data, files)
    | none => some (.error "no such key", files)
  | .list keyPrefix => some (.ok [b.keys.filter (keyPrefix.isPrefixOf ·)], files)
  | .sleep _ => some ((), files)
  | .writeFile path data => some (.ok (), (path, data) :: files)
  | .syncFile _ => some (.ok (), files)
  | .openConn _ => some (.ok 0, files)
  | .executeBatch _ _ => some (.ok (), files)
  | .closeConn _ => some ((), files)
  | _ => none

/-- The database file and the WAL file that SQLite finds after a restore; a WAL file
that is not written is empty. -/
@[ext] structure Restored where
  snapshot : Bytes
  wal : Bytes
  deriving DecidableEq

/-- The outcome of a restore to a path; `none` where it fails. -/
def restored (b : Bucket) (targetPath : Str) (restore : Str → M Unit Unit) : Option Restored :=
  match Op.interp (atRest b) (restore targetPath) () [] with
  | some ((.ok (), ()), files) =>
    (files.lookup targetPath).map fun snapshot =>
      ⟨snapshot, (files.lookup (targetPath ++ ['-', 'w', 'a', 'l'])).getD []⟩
  | _ => none

/-- `restore_with_config` and `restore_to_time_with_config`. -/
def restoredLatest (b : Bucket) (targetPath : Str) : Option Restored :=
  restored b targetPath (restoreWithConfig pf config)

def restoredToTime (timestampMs : Nat) (b : Bucket) (targetPath : Str) : Option Restored :=
  restored b targetPath fun path => restoreToTimeWithConfig pf config path timestampMs

/-- The keys of a listing as the client returns them. -/
def listing (b : Bucket) (keyPrefix : Str) : List Str :=
  S3Client.sortKeys ((b.keys.filter
    (((S3Client.new config.s3).fullKey keyPrefix).isPrefixOf ·)).map
      (S3Client.new config.s3).relativeKey)

/-- The decoded objects under some keys, concatenated. -/
def keysData (b : Bucket) : List Str → Option Bytes
  | [] => some []
  | key :: keys => do
    let raw ← b.lookup ((S3Client.new config.s3).fullKey key)
    let data ← (pipelineDecode pf raw config).toOption
    let rest ← keysData b keys
    pure (data ++ rest)

/-- The keys that `restore_latest` replays. -/
def replayed (b : Bucket) (generation : Str) : List Str :=
  match manifestAt config b generation with
  | some manifest => manifest.segments.map fun s => (Object.segment generation s.index).key
  | none => listing config b (generation ++ ['/', 'w', 'a', 'l', '/'])

/-- What `restore_latest` rebuilds of a generation. -/
def rebuilt (b : Bucket) (generation : Str) : Option Restored :=
  (content config b (.snapshot generation)).bind fun snapshot =>
    (keysData config b (replayed config b generation)).map fun wal => ⟨snapshot, wal⟩

/-- The manifests a point-in-time restore can read. -/
def readable (b : Bucket) : List GenerationManifest :=
  ((listing config b []).filter manifestSuffix.isSuffixOf).filterMap fun key =>
    (b.lookup ((S3Client.new config.s3).fullKey key)).bind fun raw =>
      (decodeManifest pf raw config).toOption

/-- What a point-in-time restore rebuilds. -/
def rebuiltToTime (b : Bucket) (timestampMs : Nat) : Option Restored :=
  (selectManifest (readable config b) timestampMs).bind fun manifest =>
    (content config b (.snapshot manifest.generation)).bind fun snapshot =>
      (segmentsData config b manifest.generation
        (manifest.segments.filter fun s => s.timestampMs ≤ timestampMs)).map fun wal =>
          ⟨snapshot, wal⟩

/-- The generation that a restore rebuilds, and the keys of the segments it replays. -/
def selection (b : Bucket) : Option Nat → Option (Str × List Str)
  | none => ((object config b .latest).bind fromUtf8).map fun generation =>
    (generation, replayed config b generation)
  | some timestampMs => (selectManifest (readable config b) timestampMs).map fun manifest =>
    (manifest.generation, (manifest.segments.filter fun s => s.timestampMs ≤ timestampMs).map
      fun s => (Object.segment manifest.generation s.index).key)

/-- The files of a restore that wrote a snapshot and replayed some segments. -/
def overwritten (targetPath : Str) (keys : List Str) (snapshot wal : Bytes)
    (files : List (Str × Bytes)) : List (Str × Bytes) :=
  if keys = [] then (targetPath, snapshot) :: files
  else (targetPath ++ ['-', 'w', 'a', 'l'], wal) :: (targetPath, snapshot) :: files

/-- The WAL file next to a database file; a missing file is an empty one. -/
def walOf (targetPath : Str) (files : List (Str × Bytes)) : Bytes :=
  (files.lookup (targetPath ++ ['-', 'w', 'a', 'l'])).getD []

/-- The operation returns a value and leaves these files. -/
def Returns {α : Type} (b : Bucket) (files : List (Str × Bytes)) (x : M Unit α) (value : α)
    (files' : List (Str × Bytes)) : Prop :=
  Op.interp (atRest b) x () files = some ((.ok value, ()), files')

/-- The operation stops at an error. -/
def Stops {α : Type} (b : Bucket) (files : List (Str × Bytes)) (x : M Unit α) : Prop :=
  ∃ e files', Op.interp (atRest b) x () files = some ((.error e, ()), files')

section
variable {config} {b : Bucket} {files files' files'' : List (Str × Bytes)} {α β : Type}
  {x : M Unit α} {f : α → M Unit β} {value : α} {result : β}

theorem returns_pure (value : α) : Returns b files (pure value) value files := rfl

theorem Returns.bind (h : Returns b files x value files')
    (hf : Returns b files' (f value) result files'') : Returns b files (x >>= f) result files'' :=
  (Op.interp_bind_ok h f).trans hf

theorem Returns.stops (h : Returns b files x value files') (hf : Stops b files' (f value)) :
    Stops b files (x >>= f) := by
  obtain ⟨e, last, hf⟩ := hf
  exact ⟨e, last, (Op.interp_bind_ok h f).trans hf⟩

theorem Stops.bind (h : Stops b files x) : Stops b files (x >>= f) := by
  obtain ⟨e, files', h⟩ := h
  exact ⟨e, files', Op.interp_bind_error h f⟩

theorem Returns.attempt (h : Returns b files x value files') :
    Returns b files (Op.attempt x) (.ok value) files' := Op.interp_attempt h

theorem Stops.attempt (h : Stops b files x) :
    ∃ e files', Returns b files (Op.attempt x) (.error e) files' := by
  obtain ⟨e, files', h⟩ := h
  exact ⟨e, files', Op.interp_attempt h⟩

theorem returns_call {c : Call} {reply : c.Reply} (h : atRest b files c = some (reply, files')) :
    Returns b files (call c) reply files' := by
  rw [Returns, call, Op.interp_call, h]
  rfl

theorem returns_orFail (wrap : String → Error) {x : M Unit (Except String α)}
    (h : Returns b files x (.ok value) files') : Returns b files (orFail wrap x) value files' :=
  h.bind (returns_pure value)

theorem stops_orFail (wrap : String → Error) {x : M Unit (Except String α)} {e : String}
    (h : Returns b files x (.error e) files') : Stops b files (orFail wrap x) :=
  h.stops ⟨wrap e, files', rfl⟩

variable (files) in
theorem returns_getObject {s3 : S3Client} {key : Str} {data : Bytes}
    (present : b.lookup (s3.fullKey key) = some data) :
    Returns b files (s3.getObject key) data files := by
  refine interp_retry_same (fun _ => rfl) (returns_orFail .s3 (returns_call ?_))
  simp only [atRest, present]

variable (files) in
theorem stops_getObject {s3 : S3Client} {key : Str} (missing : b.lookup (s3.fullKey key) = none) :
    ∃ e, Op.interp (atRest b) (s3.getObject key : M Unit Bytes) () files =
      some ((.error e, ()), files) := by
  have answered : atRest b files (.getObject (s3.fullKey key)) =
      some (.error "no such key", files) := by simp only [atRest, missing]
  exact ⟨.s3 "no such key",
    interp_retry_same (fun _ => rfl) ((Op.interp_bind_ok (returns_call answered) _).trans rfl)⟩

variable (config b files) in
theorem returns_listKeys (keyPrefix : Str) :
    Returns b files ((S3Client.new config.s3).listKeys keyPrefix) (listing config b keyPrefix)
      files := by
  refine interp_retry_same (fun _ => rfl) ?_
  have answered : atRest b files (.list ((S3Client.new config.s3).fullKey keyPrefix)) = some (.ok
      [b.keys.filter (((S3Client.new config.s3).fullKey keyPrefix).isPrefixOf ·)], files) := rfl
  refine (returns_orFail .s3 (returns_call answered)).bind ?_
  simp [Returns, listing]

theorem returns_ofExcept {r : Except Error α} (h : r.toOption = some value) :
    Returns b files (Op.ofExcept r) value files := by
  cases r with
  | ok => cases h; rfl
  | error => cases h

theorem stops_ofExcept {r : Except Error α} (h : r.toOption = none) :
    Stops b files (Op.ofExcept r : M Unit α) := by
  cases r with
  | ok => cases h
  | error e => exact ⟨e, files, rfl⟩

theorem returns_readSegments {keys : List Str} {data : Bytes}
    (h : keysData config b keys = some data) :
    Returns b files (readSegments pf (S3Client.new config.s3) config keys) data files := by
  induction keys generalizing data with
  | nil =>
    cases h
    rfl
  | cons key keys ih =>
    obtain ⟨raw, present, h⟩ := Option.bind_eq_some_iff.mp h
    obtain ⟨decoded, decodes, h⟩ := Option.bind_eq_some_iff.mp h
    obtain ⟨rest, later, h⟩ := Option.bind_eq_some_iff.mp h
    cases h
    refine (returns_getObject _ present).bind ((returns_ofExcept decodes).bind ?_)
    exact (ih later).bind (returns_pure _)

theorem stops_readSegments {keys : List Str} (h : keysData config b keys = none) :
    Stops b files (readSegments pf (S3Client.new config.s3) config keys) := by
  induction keys with
  | nil => cases h
  | cons key keys ih =>
    cases present : b.lookup ((S3Client.new config.s3).fullKey key) with
    | none =>
      obtain ⟨e, stopped⟩ := stops_getObject files present
      exact Stops.bind ⟨e, files, stopped⟩
    | some raw =>
      refine (returns_getObject _ present).stops ?_
      cases decodes : (pipelineDecode pf raw config).toOption with
      | none => exact (stops_ofExcept decodes).bind
      | some decoded =>
        refine (returns_ofExcept decodes).stops (ih ?_).bind
        cases later : keysData config b keys with
        | none => rfl
        | some rest => simp [keysData, present, decodes, later] at h

variable (config b files) in
theorem returns_segmentKeys (generation : Str) :
    Returns b files (segmentKeysFromManifest pf (S3Client.new config.s3) config generation)
      (replayed config b generation) files := by
  have listed :=
    (returns_listKeys config b files (generation ++ ['/', 'w', 'a', 'l', '/'])).attempt
  unfold segmentKeysFromManifest replayed manifestAt
  cases present : object config b (.manifest generation) with
  | none =>
    obtain ⟨e, stopped⟩ := stops_getObject files present
    exact Returns.bind (Op.interp_attempt stopped) (listed.bind (returns_pure _))
  | some data =>
    refine (returns_getObject _ present).attempt.bind ?_
    rw [Option.bind_some]
    cases decoded : decodeManifest pf data config with
    | ok manifest =>
      simp only [decoded]
      exact returns_pure _
    | error e =>
      simp only [decoded]
      exact listed.bind (returns_pure _)

theorem returns_writeSnapshot {generation targetPath : Str} {data : Bytes}
    (h : content config b (.snapshot generation) = some data) :
    Returns b files (writeSnapshot pf (S3Client.new config.s3) config targetPath generation) ()
      ((targetPath, data) :: files) := by
  obtain ⟨raw, present, decodes⟩ := Option.bind_eq_some_iff.mp h
  refine (returns_getObject _ present).bind ((returns_ofExcept decodes).bind ?_)
  exact returns_orFail .io (returns_call rfl)

theorem stops_writeSnapshot {generation targetPath : Str}
    (h : content config b (.snapshot generation) = none) :
    Stops b files (writeSnapshot pf (S3Client.new config.s3) config targetPath generation) := by
  cases present : object config b (.snapshot generation) with
  | none =>
    obtain ⟨e, stopped⟩ := stops_getObject files present
    exact Stops.bind ⟨e, files, stopped⟩
  | some raw =>
    refine (returns_getObject _ present).stops (stops_ofExcept ?_).bind
    rwa [content, present, Option.bind_some] at h

theorem returns_replay (targetPath : Str) :
    Returns b files (do
      orFail .io (call (.syncFile targetPath))
      let conn ← orFail .sqlite (call (.openConn targetPath))
      orFail .sqlite (call (.executeBatch conn .journalModeWal))
      orFail .sqlite (call (.executeBatch conn .walCheckpointTruncate))
      call (.closeConn conn)) () files := by
  refine (returns_orFail .io (returns_call rfl)).bind ?_
  refine (returns_orFail .sqlite (returns_call rfl)).bind ?_
  refine (returns_orFail .sqlite (returns_call rfl)).bind ?_
  refine (returns_orFail .sqlite (returns_call rfl)).bind ?_
  exact returns_call rfl

theorem returns_replaySegments {targetPath : Str} {keys : List Str} {data : Bytes}
    (h : keysData config b keys = some data) :
    Returns b files (replaySegments pf (S3Client.new config.s3) config targetPath keys) ()
      (if keys = [] then files else (targetPath ++ ['-', 'w', 'a', 'l'], data) :: files) := by
  unfold replaySegments
  by_cases empty : keys = []
  · simp only [empty, ne_eq, not_true_eq_false, if_false, if_true]
    exact returns_replay targetPath
  · simp only [empty, ne_eq, not_false_eq_true, if_true, if_false]
    refine (returns_readSegments h).bind ?_
    refine (returns_orFail .io (returns_call rfl)).bind ?_
    exact (returns_orFail .io (returns_call rfl)).bind (returns_replay targetPath)

theorem stops_replaySegments {targetPath : Str} {keys : List Str}
    (h : keysData config b keys = none) :
    Stops b files (replaySegments pf (S3Client.new config.s3) config targetPath keys) := by
  have nonempty : keys ≠ [] := by
    rintro rfl
    cases h
  unfold replaySegments
  rw [if_pos nonempty]
  exact (stops_readSegments h).bind

theorem restored_of_stops {targetPath : Str} {restore : Str → M Unit Unit}
    (h : Stops b [] (restore targetPath)) : restored b targetPath restore = none := by
  obtain ⟨e, files', h⟩ := h
  rw [restored, h]

theorem keysData_segments (generation : Str) (segments : List SegmentMeta) :
    keysData config b (segments.map fun s => (Object.segment generation s.index).key) =
      segmentsData config b generation segments := by
  induction segments with
  | nil => rfl
  | cons s rest ih =>
    rw [List.map_cons, keysData, segmentsData, ih, content, object, objectKey]
    cases b.lookup ((S3Client.new config.s3).fullKey (Object.segment generation s.index).key) with
    | none => rfl
    | some raw =>
      cases decodes : (pipelineDecode pf raw config).toOption with
      | none => simp [decodes]
      | some data => cases segmentsData config b generation rest <;> simp [decodes]

theorem returns_pitrManifests (keys : List Str) :
    Returns b files (pitrManifests pf (S3Client.new config.s3) config keys)
      ((keys.filter manifestSuffix.isSuffixOf).filterMap fun key =>
        (b.lookup ((S3Client.new config.s3).fullKey key)).bind fun raw =>
          (decodeManifest pf raw config).toOption) files := by
  induction keys with
  | nil => exact returns_pure []
  | cons key keys ih =>
    unfold pitrManifests
    by_cases isManifest : manifestSuffix.isSuffixOf key = true
    · rw [if_pos isManifest, List.filter_cons_of_pos isManifest, List.filterMap_cons]
      cases present : b.lookup ((S3Client.new config.s3).fullKey key) with
      | none =>
        obtain ⟨e, stopped⟩ := stops_getObject files present
        exact Returns.bind (Op.interp_attempt stopped) ih
      | some raw =>
        refine (returns_getObject _ present).attempt.bind ?_
        cases decoded : decodeManifest pf raw config with
        | error e =>
          simp only [decoded, Option.bind_some, Except.toOption]
          exact ih
        | ok manifest =>
          simp only [decoded, Option.bind_some, Except.toOption]
          exact ih.bind (returns_pure _)
    · rw [if_neg isManifest, List.filter_cons_of_neg isManifest]
      exact ih

section
variable {targetPath : Str} {keys : List Str} {snapshot wal : Bytes}

@[simp] theorem lookup_overwritten :
    (overwritten targetPath keys snapshot wal files).lookup targetPath = some snapshot := by
  have other : (targetPath == targetPath ++ ['-', 'w', 'a', 'l']) = false := by simp
  unfold overwritten
  split
  · simp
  · simp [List.lookup_cons, other]

theorem walOf_overwritten :
    walOf targetPath (overwritten targetPath keys snapshot wal files) =
      if keys = [] then walOf targetPath files else wal := by
  have other : (targetPath ++ ['-', 'w', 'a', 'l'] == targetPath) = false := by simp
  unfold walOf overwritten
  split
  · simp [List.lookup_cons, other]
  · simp

end

/-- What a restore needs is there. -/
theorem returns_restoreInner {time : Option Nat} {targetPath generation : Str} {keys : List Str}
    {snapshot wal : Bytes} (selected : selection config b time = some (generation, keys))
    (snap : content config b (.snapshot generation) = some snapshot)
    (held : keysData config b keys = some wal) :
    Returns b files (restoreInner pf config targetPath time) ()
      (overwritten targetPath keys snapshot wal files) := by
  have replays : Returns b ((targetPath, snapshot) :: files)
      (replaySegments pf (S3Client.new config.s3) config targetPath keys) ()
      (overwritten targetPath keys snapshot wal files) := returns_replaySegments held
  cases time with
  | none =>
    obtain ⟨generation', found, same⟩ := Option.map_eq_some_iff.mp selected
    obtain ⟨genBytes, marked, named⟩ := Option.bind_eq_some_iff.mp found
    cases same
    refine (returns_getObject files marked).attempt.bind ?_
    simp only [named]
    refine (returns_writeSnapshot snap).bind ?_
    exact (returns_segmentKeys config b _ generation).bind replays
  | some timestampMs =>
    obtain ⟨manifest, picked, same⟩ := Option.map_eq_some_iff.mp selected
    cases same
    have readable_ne : readable config b ≠ [] := by
      intro empty
      rw [empty] at picked
      cases picked
    have found : Returns b files (pitrManifests pf (S3Client.new config.s3) config
        (listing config b [])) (readable config b) files := returns_pitrManifests _
    refine (returns_listKeys config b files []).bind (found.bind ?_)
    rw [if_neg readable_ne]
    simp only [picked]
    exact (returns_writeSnapshot snap).bind replays

/-- Something a restore needs is missing. -/
theorem stops_restoreInner {time : Option Nat} {targetPath : Str}
    (missing : ∀ generation keys, selection config b time = some (generation, keys) →
      content config b (.snapshot generation) = none ∨ keysData config b keys = none) :
    Stops b files (restoreInner pf config targetPath time) := by
  cases time with
  | none =>
    cases marked : object config b .latest with
    | none =>
      obtain ⟨e, stopped⟩ := stops_getObject files marked
      exact Returns.stops (Op.interp_attempt stopped) ⟨_, _, rfl⟩
    | some genBytes =>
      refine (returns_getObject files marked).attempt.stops ?_
      cases named : fromUtf8 genBytes with
      | none =>
        simp only [named]
        exact ⟨_, _, rfl⟩
      | some generation =>
        simp only [named]
        have lacks := missing generation (replayed config b generation) (by
          rw [selection, marked, Option.bind_some, named, Option.map_some])
        cases snap : content config b (.snapshot generation) with
        | none => exact (stops_writeSnapshot snap).bind
        | some snapshot =>
          have unheld := lacks.resolve_left (by simp [snap])
          refine (returns_writeSnapshot snap).stops ?_
          exact (returns_segmentKeys config b _ generation).stops (stops_replaySegments unheld)
  | some timestampMs =>
    have found : Returns b files (pitrManifests pf (S3Client.new config.s3) config
        (listing config b [])) (readable config b) files := returns_pitrManifests _
    refine (returns_listKeys config b files []).stops (found.stops ?_)
    by_cases empty : readable config b = []
    · rw [if_pos empty]
      exact ⟨_, _, rfl⟩
    rw [if_neg empty]
    cases picked : selectManifest (readable config b) timestampMs with
    | none => exact ⟨_, _, rfl⟩
    | some manifest =>
      dsimp only
      have lacks := missing manifest.generation _ (by rw [selection, picked, Option.map_some])
      cases snap : content config b (.snapshot manifest.generation) with
      | none => exact (stops_writeSnapshot snap).bind
      | some snapshot =>
        have unheld := lacks.resolve_left (by simp [snap])
        exact (returns_writeSnapshot snap).stops (stops_replaySegments unheld)

/-- A restore that returns found everything. -/
theorem Returns.overwrites {time : Option Nat} {targetPath : Str}
    (h : Returns b files (restoreInner pf config targetPath time) () files') :
    ∃ generation keys snapshot wal, selection config b time = some (generation, keys) ∧
      content config b (.snapshot generation) = some snapshot ∧
      keysData config b keys = some wal ∧
      files' = overwritten targetPath keys snapshot wal files := by
  by_contra missing
  have stopped : Stops b files (restoreInner pf config targetPath time) := by
    apply stops_restoreInner
    intro generation keys selected
    by_contra present
    simp only [not_or, ← Ne.eq_def, Option.ne_none_iff_exists'] at present
    obtain ⟨⟨snapshot, snap⟩, wal, held⟩ := present
    refine missing ⟨generation, keys, snapshot, wal, selected, snap, held, ?_⟩
    have returned : Returns b files (restoreInner pf config targetPath time) ()
        (overwritten targetPath keys snapshot wal files) := returns_restoreInner selected snap held
    exact (Prod.mk.inj (Option.some.inj (h.symm.trans returned))).2
  obtain ⟨e, last, stopped⟩ := stopped
  cases h.symm.trans stopped

theorem restored_of_overwritten {targetPath : Str} {restore : Str → M Unit Unit} {keys : List Str}
    {snapshot wal : Bytes} (held : keysData config b keys = some wal)
    (h : Returns b [] (restore targetPath) () (overwritten targetPath keys snapshot wal [])) :
    restored b targetPath restore = some ⟨snapshot, wal⟩ := by
  have other : (targetPath == targetPath ++ ['-', 'w', 'a', 'l']) = false := by simp
  have other' : (targetPath ++ ['-', 'w', 'a', 'l'] == targetPath) = false := by simp
  rw [restored, h, overwritten]
  by_cases empty : keys = []
  · subst empty
    cases held
    simp [List.lookup_cons, other']
  · simp [empty, List.lookup_cons, other]

/-- Both restores rebuild what they select. -/
theorem restored_restoreInner (time : Option Nat) (targetPath : Str) :
    restored b targetPath (fun path => restoreInner pf config path time) =
      (selection config b time).bind fun picked =>
        (content config b (.snapshot picked.1)).bind fun snapshot =>
          (keysData config b picked.2).map fun wal => ⟨snapshot, wal⟩ := by
  cases selected : selection config b time with
  | none =>
    exact restored_of_stops (stops_restoreInner fun _ _ same => by rw [selected] at same; cases same)
  | some picked =>
    obtain ⟨generation, keys⟩ := picked
    have only : ∀ {P : Str → List Str → Prop}, P generation keys →
        ∀ generation' keys', selection config b time = some (generation', keys') →
          P generation' keys' := by
      intro P holds generation' keys' same
      rw [selected] at same
      cases same
      exact holds
    rw [Option.bind_some]
    cases snap : content config b (.snapshot generation) with
    | none => exact restored_of_stops (stops_restoreInner (only (.inl snap)))
    | some snapshot =>
      rw [Option.bind_some]
      cases held : keysData config b keys with
      | none => exact restored_of_stops (stops_restoreInner (only (.inr held)))
      | some wal => exact restored_of_overwritten held (returns_restoreInner selected snap held)

/-- `restore_latest` rebuilds the generation that `latest` names. -/
theorem restoredLatest_eq (targetPath : Str) :
    restoredLatest config b targetPath =
      ((object config b .latest).bind fromUtf8).bind (rebuilt config b) := by
  refine (restored_restoreInner none targetPath).trans ?_
  rw [selection, Option.bind_map]
  rfl

/-- `restore_to_time` rebuilds the newest readable snapshot that is not too new, with
the segments of its manifest that are not too new. -/
theorem restoredToTime_eq (targetPath : Str) (timestampMs : Nat) :
    restoredToTime config timestampMs b targetPath = rebuiltToTime config b timestampMs := by
  refine (restored_restoreInner (some timestampMs) targetPath).trans ?_
  rw [selection, Option.bind_map, rebuiltToTime]
  simp only [← keysData_segments]
  rfl

end

end Waloy.Spec
