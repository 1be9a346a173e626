import Waloy.Guarantees.FailedReads
import Waloy.Guarantees.RetentionWindow
import Waloy.Spec.Depositing

/-!
# A restore beside a running manager

The reads of a restore take place while a manager goes on, a single read at a time. A
manifest that is there leads to segments that never change. One that is missing sends the
restore to a listing, which may show a generation that is half deleted or half cut again.
-/
namespace Waloy.Spec
open Waloy.Effect Waloy.Source Waloy.Source.BackupManager

variable {pf : Platform} (config : BackupConfig pf.build) {A : Type}

/-- The operations of a manager that backs up, compacts and deletes. -/
def tendingOps : Request → Bool
  | .new | .syncWal | .checkpoint | .compact _ _ | .enforceRetention => true
  | .snapshot | .maybeSnapshot | .shutdown => false

/-- The runs of such a manager in which no call fails, beside the deposits. -/
def tendingRuns (host : Host A) : Setting (process config) (World A × Deposits) :=
  ((flawless config (fun q => tendingOps q = true) host).setting config).observed Deposits.keep

/-- A point of such a run. -/
abbrev Point (A : Type) : Type := Conf (process config) (World A × Deposits)

def vaultOf (v : World A × Deposits) : Vault := ⟨v.1.bucket, v.2⟩

variable {config} in
def vaultAt (c : Point config A) : Vault := vaultOf c.world

/-- The generation that an operation cuts again. -/
def cutOf (q : Request) (s : Manager pf) : Option Str :=
  if compacts q then s.map BackupManager.generation else none

variable {config} in
/-- The generation that is being cut again at a point of a run. -/
def cuttingAt : Point config A → Option Str
  | .idle _ _ => none
  | .running q s _ _ _ => cutOf q s

/-- The files of a restore, and the answers of a bucket in which an object that is there can
be read and one that is missing gives an error. -/
def readsOf (b : Bucket) : Server Calls (List (Str × Bytes)) := fun files c reply files' =>
  match c, reply with
  | .getObject key, .ok data => b.lookup key = some data ∧ files' = files
  | .getObject key, .error _ => b.lookup key = none ∧ files' = files
  | .list keyPrefix, .ok pages =>
    pages.flatten.Perm (b.keys.filter (keyPrefix.isPrefixOf ·)) ∧ files' = files
  | .list _, .error _ => False
  | .writeFile path data, .ok _ => files' = (path, data) :: files
  | _, _ => files' = files

/-- Before each of its calls the manager may have moved on. A listing is answered where it is
permitted. -/
def besideManager (host : Host A) (permits : Point config A → Str → Prop) :
    Server Calls (Point config A × List (Str × Bytes)) := fun r c reply r' =>
  (tendingRuns config host).Reach r.1 r'.1 ∧ readsOf (vaultAt r'.1).bucket r.2 c reply r'.2 ∧
    ∀ generation, c = listCall config (walDirectory generation) → permits r'.1 generation

/-- A restore that returns beside a manager, whatever its listings show where they are
permitted, wrote a snapshot of one generation and a beginning of what it backed up, no shorter
than its manifest listed when the restore began. -/
def SafeBesideManager (host : Host A) (permits : Point config A → Point config A → Str → Prop) :
    Prop :=
  ∀ {w₀ : World A} {start now targetPath files}, w₀.bucket = ∅ →
    (tendingRuns config host).Reach (.idle none (w₀, .none)) start →
    Op.Runs (besideManager config host (permits start))
      (restoreLatest pf (S3Client.new config.s3) config targetPath) () (start, []) (.ok ()) ()
      (now, files) →
    ∃ generation restored, written targetPath files = some restored ∧
      content config (vaultAt now).deposits.uploads (.snapshot generation) = some restored.snapshot ∧
      restored.wal <+: (vaultAt now).backup config generation ∧
      ∀ manifest, manifestAt config (vaultAt start).bucket generation = some manifest →
        listedLength manifest.segments ≤ restored.wal.length

/-- The listing of a generation shows the segments that its last manifest lists, or also the
next one while it is not being cut, or none where the manifest listed none at the start. -/
def ListsInOrder (start now : Point config A) (generation : Str) : Prop :=
  let keyOf (index : Nat) := (Object.segment generation index).key
  let listed := (vaultAt now).listed config generation
  let keys := listing config (vaultAt now).bucket (walDirectory generation)
  keys = listed.map (fun s => keyOf s.index) ∨
    (cuttingAt now ≠ some generation ∧ ∃ index, (∀ s ∈ listed, s.index ≠ index) ∧
      keys = listed.map (fun s => keyOf s.index) ++ [keyOf index]) ∨
    (keys = [] ∧ ∀ manifest, manifestAt config (vaultAt start).bucket generation = some manifest →
      listedLength manifest.segments = 0)

/-- The vault is intact between two operations, and the manager tends its backup. -/
def Stored (s : Manager pf) (v : Vault) : Prop :=
  Intact config none v ∧ ∀ m, s = some m → Tends config m v

/-- What is promised at every point of a run. -/
def keptInOrder : Setting.Invariant (C := process config) (W := World A × Deposits) where
  idle s v := Stored config s (vaultOf v)
  always q s _ v := Intact config (cutOf q s) (vaultOf v)
  guard q s _ v c reply v' := tended config (cutOf q s) (vaultOf v) c reply (vaultOf v')

section
variable {config} {host : Host A} {q : Request} {s : Manager pf} {v : Vault}

theorem Intact.cut (intact : Intact config none v) (cut : Option Str) : Intact config cut v :=
  ⟨intact.toSound, fun own _ => intact.shows own (by simp)⟩

theorem Tending.stored {m : BackupManager pf.build} (h : Tending config none m v) :
    Stored config (some m) v := by
  refine ⟨h.2, ?_⟩
  rintro _ ⟨⟩
  exact h.1

/-- Whether an answer reports a failure, the bucket tells alone. -/
theorem faultless_bucket {w : World A} {c : Call} {reply : c.Reply}
    (sound : faultless config.dbPath w c reply) :
    faultless config.dbPath (⟨w.bucket, (), 0, []⟩ : World Unit) c reply := by
  cases c with
  | putObject | deleteObject | list | openConn | executeBatch | queryMaster | getObject | readFile =>
    cases reply <;> exact sound
  | _ => trivial

/-- An empty bucket is intact. -/
theorem stored_empty {w₀ : World A} (empty : w₀.bucket = ∅) :
    Stored config (none : Manager pf) (vaultOf (w₀, .none)) := by
  have absent : ∀ o, object config (∅ : Bucket) o = none := fun o => AList.lookup_empty _
  have gone : ∀ o, object config (vaultOf (w₀, .none)).bucket o = none := by
    intro o
    rw [vaultOf, empty]
    exact absent o
  have unlisted : ∀ generation, (vaultOf (w₀, .none)).listed config generation = [] := by
    intro generation
    rw [Vault.listed, manifestAt]
    change (((object config (∅ : Bucket) _).bind _).map _).getD _ = _
    rw [absent]
    rfl
  refine ⟨⟨⟨?_, ?_, ?_, fun _ _ => rfl⟩, ?_⟩, Manager.unopened⟩
  · intro o x here
    cases (gone o).symm.trans here
  · intro generation
    refine ⟨[], ?_, List.nil_prefix, ?_⟩
    · rw [unlisted]
      rfl
    · rw [unlisted]
      rfl
  · intro o generation _ present
    exact absurd (absent o) present
  · intro generation _ index present
    exact absurd (gone _) present

/-- Every operation keeps its promise and ends with the backup tended. -/
theorem wp_body_tended (codec : Codec config) (among : tendingOps q = true)
    (stored : Stored config s v) :
    ((process config).body q s).wp (vaultServer config q) (tended config (cutOf q s))
      (fun out v' => Stored config out.2 v') v := by
  have opens : q = .new → (opening config).wp (vaultServer config q) (tended config (cutOf q s))
      (fun out v' => Stored config out.2 v') v := by
    rintro rfl
    refine (wp_opening config).mpr (Op.wp_mono (wp_new_tended codec stored.1) ?_ ?_)
    · exact fun m _ v' tending => tending.stored
    · exact fun e _ v' intact => ⟨intact, Manager.unopened⟩
  have calls : ∀ {α : Type} (answer : α → Answer) (x : Method pf α) (m : BackupManager pf.build),
      s = some m → compacts q = false →
      Op.Secures (vaultServer config q) (tended config none) (Tending config none) x →
      (method answer x m).wp (vaultServer config q) (tended config (cutOf q s))
        (fun out v' => Stored config out.2 v') v := by
    intro α answer x m same outside secured
    have uncut : cutOf q s = none := by
      rw [cutOf, outside]
      rfl
    rw [uncut]
    exact (wp_method answer x m).mpr (Op.wp_mono (secured m v ⟨stored.2 m same, stored.1⟩)
      (fun _ _ _ h => h.stored) fun _ _ _ h => h.stored)
  cases s with
  | none =>
    cases q with
    | new => exact opens rfl
    | _ => trivial
  | some m =>
    cases q with
    | new => exact opens rfl
    | syncWal => exact calls _ _ m rfl rfl (secures_syncWal_tending codec rfl)
    | checkpoint => exact calls _ _ m rfl rfl (secures_checkpoint_tending codec rfl)
    | enforceRetention => exact calls _ _ m rfl rfl secures_enforceRetention_tending
    | compact maxSegmentSize fuel =>
      refine (wp_method _ _ m).mpr (Op.wp_mono (wp_compact_tended codec rfl maxSegmentSize fuel
        ⟨stored.2 m rfl, stored.1⟩) (fun _ _ _ h => h.stored) fun _ _ _ h => h.stored)
    | snapshot | maybeSnapshot | shutdown => cases among

theorem keptInOrder_kept (codec : Codec config) :
    (keptInOrder config).Kept (tendingRuns config host) where
  entered _ stored := stored.1.cut _
  stays _ _ guarded := guarded.2
  drift := by
    rintro s ⟨w, d⟩ ⟨_, d'⟩ stored ⟨⟨a, t, -, -, rfl⟩, same⟩
    obtain rfl : d' = d := same
    exact stored
  body := by
    intro q s v among stored
    have served : ∀ v c reply v',
        (((flawless config (fun q => tendingOps q = true) host).env config q s).serve.beside
          (Deposits.keep q)) v c reply v' → vaultServer config q (vaultOf v) c reply (vaultOf v') := by
      rintro v c reply v' ⟨⟨a, -, allowed, acts⟩, kept⟩
      exact ⟨acts.bucketed, faultless_bucket allowed.1, allowed.2, kept⟩
    refine Prog.wp_mono (fun _ _ _ _ h => h) (fun _ _ _ _ h => h) ?_ _ _
      (Prog.wp_view served _ v (wp_body_tended codec among stored))
    exact fun _ _ kept _ => ⟨trivial, kept⟩

end

section
variable {config} {host : Host A} {start c c' : Point config A} {generation : Str} {keys : List Str}
  {wal : Bytes}

theorem intact_of_holds (h : (keptInOrder config).Holds (tendingRuns config host) c) :
    Intact config (cuttingAt c) (vaultAt c) := by
  cases c with
  | idle s v => exact h.1
  | running q s start p v => exact h.1

/-- A move of the session is one call of its operation, or leaves the vault alone. -/
theorem advances_of_move (h : (keptInOrder config).Holds (tendingRuns config host) c)
    (move : (tendingRuns config host).Move c c') : Advances config (vaultAt c) (vaultAt c') := by
  cases move with
  | issue => exact .refl _
  | call served => exact (h.2 _ _ served).1.1
  | finish => exact .refl _
  | @drift s v v' moved =>
    obtain ⟨w, d⟩ := v
    obtain ⟨w', d'⟩ := v'
    obtain ⟨⟨a, t, -, -, rfl⟩, same⟩ := moved
    obtain rfl : d' = d := same
    exact .refl _

/-- Whatever the manager does, what was put stays and backups get longer. -/
theorem advances_of_reach (codec : Codec config) (run : (tendingRuns config host).Reach c c')
    (h : (keptInOrder config).Holds (tendingRuns config host) c) :
    Advances config (vaultAt c) (vaultAt c') := by
  induction run with
  | refl => exact .refl _
  | tail before move ih =>
    exact ih.trans (advances_of_move ((keptInOrder_kept codec).reach before h) move)

/-- The keys of segments that hold a beginning of the backup, no shorter than what was listed
at the start. -/
structure Plan (config : BackupConfig pf.build) {A : Type} (start c : Point config A)
    (generation : Str) (keys : List Str) (wal : Bytes) : Prop where
  segments : ∀ key ∈ keys, ∃ index, key = (Object.segment generation index).key
  held : keysData config (vaultAt c).deposits.uploads keys = some wal
  begins : wal <+: (vaultAt c).backup config generation
  long : ∀ manifest, manifestAt config (vaultAt start).bucket generation = some manifest →
    listedLength manifest.segments ≤ wal.length

theorem keysData_cons_eq_some {b : Bucket} {key : Str} :
    keysData config b (key :: keys) = some wal ↔ ∃ raw data rest,
      b.lookup ((S3Client.new config.s3).fullKey key) = some raw ∧
      (pipelineDecode pf raw config).toOption = some data ∧
      keysData config b keys = some rest ∧ data ++ rest = wal := by
  simp [keysData, Option.bind_eq_some_iff]

/-- Segments that were put stay what they are. -/
theorem keysData_advances (advances : Advances config (vaultAt c) (vaultAt c'))
    (segments : ∀ key ∈ keys, ∃ index, key = (Object.segment generation index).key)
    (held : keysData config (vaultAt c).deposits.uploads keys = some wal) :
    keysData config (vaultAt c').deposits.uploads keys = some wal := by
  induction keys generalizing wal with
  | nil => exact held
  | cons key keys ih =>
    obtain ⟨index, rfl⟩ := segments key List.mem_cons_self
    obtain ⟨raw, data, rest, present, decodes, later, same⟩ := keysData_cons_eq_some.mp held
    have here := advances.written (.segment generation index) raw rfl present
    have rest_here := ih (fun key among => segments key (List.mem_cons_of_mem _ among)) later
    exact keysData_cons_eq_some.mpr ⟨raw, data, rest, here, decodes, rest_here, same⟩

theorem Plan.later (plan : Plan config start c generation keys wal)
    (advances : Advances config (vaultAt c) (vaultAt c')) : Plan config start c' generation keys wal where
  segments := plan.segments
  held := keysData_advances advances plan.segments plan.held
  begins := plan.begins.trans (advances.grown generation)
  long := plan.long

/-- The manifest of the bucket is the last that was put. -/
theorem Sound.listed {v : Vault} (sound : Sound config v) {manifest : GenerationManifest}
    (found : manifestAt config v.bucket generation = some manifest) :
    v.listed config generation = manifest.segments := by
  obtain ⟨raw, present, decodes⟩ := Option.bind_eq_some_iff.mp found
  have put := sound.held (.manifest generation) raw present
  rw [Vault.listed, manifestAt, put, Option.bind_some, decodes]
  rfl

/-- The keys that the last manifest lists. -/
theorem plan_listed (before : Sound config (vaultAt start)) (sound : Sound config (vaultAt c))
    (advances : Advances config (vaultAt start) (vaultAt c)) :
    ∃ wal, Plan config start c generation (((vaultAt c).listed config generation).map fun s =>
      (Object.segment generation s.index).key) wal := by
  obtain ⟨wal, held, begins, length⟩ := sound.lists generation
  refine ⟨wal, ?_, ?_, begins, ?_⟩
  · intro key among
    obtain ⟨s, -, rfl⟩ := List.mem_map.mp among
    exact ⟨s.index, rfl⟩
  · rw [keysData_segments, held]
  · intro manifest found
    rw [← length, ← before.listed found]
    exact advances.longer generation

/-- What is listed in order. -/
theorem plan_listing (before : Sound config (vaultAt start))
    (intact : Intact config (cuttingAt c) (vaultAt c))
    (advances : Advances config (vaultAt start) (vaultAt c))
    (inOrder : ListsInOrder config start c generation) :
    ∃ wal, Plan config start c generation
      (listing config (vaultAt c).bucket (walDirectory generation)) wal := by
  obtain same | ⟨uncut, index, unlisted, same⟩ | ⟨same, empty⟩ := inOrder
  · rw [same]
    exact plan_listed before intact.toSound advances
  · have among : (Object.segment generation index).key ∈
        listing config (vaultAt c).bucket (walDirectory generation) := by
      rw [same]
      exact List.mem_append_right _ (List.mem_singleton_self _)
    have present : object config (vaultAt c).bucket (.segment generation index) ≠ none :=
      mt AList.lookup_eq_none.mp (not_not_intro (AList.mem_keys.mpr (mem_listing.mp among).1))
    obtain ⟨s, hs, found⟩ | ⟨data, next, held, here, begins⟩ :=
      intact.shows generation uncut index present
    · exact absurd found (unlisted s hs)
    obtain ⟨data', held', -, length⟩ := intact.lists generation
    obtain rfl : data' = data := Option.some.inj (held'.symm.trans held)
    have keys_eq : listing config (vaultAt c).bucket (walDirectory generation) =
        ((vaultAt c).listed config generation ++ [(⟨index, 0, 0, 0⟩ : SegmentMeta)]).map fun s =>
          (Object.segment generation s.index).key := by
      rw [same, List.map_append]
      rfl
    rw [keys_eq]
    refine ⟨data' ++ next, ?_, ?_, begins, ?_⟩
    · intro key among
      obtain ⟨s, -, rfl⟩ := List.mem_map.mp among
      exact ⟨s.index, rfl⟩
    · rw [keysData_segments, segmentsData_append, held]
      simp [segmentsData, here]
    · intro manifest found
      have grown := advances.longer generation
      rw [before.listed found, length] at grown
      rw [List.length_append]
      omega
  · rw [same]
    exact ⟨[], List.forall_mem_nil _, rfl, List.nil_prefix, fun manifest found =>
      Nat.le_of_eq (empty manifest found)⟩

end

section
variable {config} {host : Host A} {permits : Point config A → Str → Prop} {c : Point config A}
  {files : List (Str × Bytes)} {σ : Type} {s : σ}

/-- An object is read, or it is missing. -/
theorem wp_getBeside {o : Object} {ok : Bytes → σ → Point config A × List (Str × Bytes) → Prop}
    {err : Error → σ → Point config A × List (Str × Bytes) → Prop}
    (hok : ∀ raw c', (tendingRuns config host).Reach c c' →
      object config (vaultAt c').bucket o = some raw → ok raw s (c', files))
    (herr : ∀ e c', (tendingRuns config host).Reach c c' → err e s (c', files)) :
    Op.wp (besideManager config host permits) anyCall ((S3Client.new config.s3).getObject o.key)
      ok err s (c, files) := by
  let I (r : Point config A × List (Str × Bytes)) : Prop :=
    (tendingRuns config host).Reach c r.1 ∧ r.2 = files
  refine wp_attempts (I := fun _ => I) (J := fun _ => I) ?_ ?_ ?_ ⟨.refl, rfl⟩
  · rintro _ ⟨c₁, _⟩ ⟨run, rfl⟩
    rw [wp_orFail]
    rintro reply ⟨c₂, files₂⟩ ⟨moved, read, -⟩
    refine ⟨trivial, ?_⟩
    cases reply with
    | ok raw =>
      obtain ⟨found, rfl⟩ := read
      exact hok raw c₂ (run.trans moved) found
    | error e =>
      obtain ⟨-, rfl⟩ := read
      exact ⟨rfl, run.trans moved, rfl⟩
  · rintro _ ⟨c₁, _⟩ ms reply ⟨c₂, files₂⟩ ⟨run, rfl⟩ ⟨moved, read, -⟩
    obtain rfl := (read : files₂ = _)
    exact ⟨trivial, run.trans moved, rfl⟩
  · rintro e ⟨c₁, _⟩ ⟨run, rfl⟩
    exact herr e c₁ run

theorem wp_listBeside {generation : Str}
    {ok : List Str → σ → Point config A × List (Str × Bytes) → Prop}
    {err : Error → σ → Point config A × List (Str × Bytes) → Prop}
    (hok : ∀ c', (tendingRuns config host).Reach c c' → permits c' generation →
      ok (listing config (vaultAt c').bucket (walDirectory generation)) s (c', files)) :
    Op.wp (besideManager config host permits) anyCall
      ((S3Client.new config.s3).listKeys (walDirectory generation)) ok err s (c, files) := by
  refine wp_attempts (I := fun _ r => r = (c, files)) (J := fun _ _ => False) ?_ ?_ ?_ rfl
  · rintro _ _ rfl
    rw [Op.wp_bind, wp_orFail]
    rintro reply ⟨c', files'⟩ ⟨moved, read, permitted⟩
    refine ⟨trivial, ?_⟩
    cases reply with
    | ok pages =>
      obtain ⟨perm, rfl⟩ := read
      have shown := hok c' moved (permitted generation rfl)
      rw [listing, ← sortKeys_flatten perm] at shown
      exact shown
    | error e => exact absurd read id
  · intro _ _ _ _ _ impossible
    exact impossible.elim
  · intro _ _ impossible
    exact impossible.elim

theorem wp_writeBeside {path : Str} {data : Bytes}
    {ok : Unit → σ → Point config A × List (Str × Bytes) → Prop}
    {err : Error → σ → Point config A × List (Str × Bytes) → Prop}
    (hok : ∀ c', (tendingRuns config host).Reach c c' → ok () s (c', (path, data) :: files))
    (herr : ∀ e r, err e s r) :
    Op.wp (besideManager config host permits) anyCall (orFail .io (call (.writeFile path data)))
      ok err s (c, files) := by
  rw [wp_orFail]
  rintro reply ⟨c', files'⟩ ⟨moved, read, -⟩
  refine ⟨trivial, ?_⟩
  cases reply with
  | ok =>
    obtain rfl := (read : files' = _)
    exact hok c' moved
  | error e => exact herr _ _

theorem wp_syncBeside {path : Str} {ok : Unit → σ → Point config A × List (Str × Bytes) → Prop}
    {err : Error → σ → Point config A × List (Str × Bytes) → Prop}
    (hok : ∀ c', (tendingRuns config host).Reach c c' → ok () s (c', files))
    (herr : ∀ e r, err e s r) :
    Op.wp (besideManager config host permits) anyCall (orFail .io (call (.syncFile path)))
      ok err s (c, files) := by
  rw [wp_orFail]
  rintro reply ⟨c', files'⟩ ⟨moved, read, -⟩
  obtain rfl := (read : files' = _)
  refine ⟨trivial, ?_⟩
  cases reply with
  | ok => exact hok c' moved
  | error e => exact herr _ _

/-- The replay changes no file that the restore wrote. -/
theorem wp_replayBeside {targetPath : Str} :
    Op.wp (besideManager config host permits) anyCall (do
      orFail .io (call (.syncFile targetPath))
      let conn ← orFail .sqlite (call (.openConn targetPath))
      orFail .sqlite (call (.executeBatch conn .journalModeWal))
      orFail .sqlite (call (.executeBatch conn .walCheckpointTruncate))
      call (.closeConn conn))
      (fun _ _ r => (tendingRuns config host).Reach c r.1 ∧ r.2 = files) (fun _ _ _ => True) s
      (c, files) := by
  let I (r : Point config A × List (Str × Bytes)) : Prop :=
    (tendingRuns config host).Reach c r.1 ∧ r.2 = files
  have one : ∀ r k reply r', I r → isReplayCall k = true →
      besideManager config host permits r k reply r' → anyCall r k reply r' ∧ I r' := by
    rintro ⟨c₁, _⟩ k reply ⟨c₂, files₂⟩ ⟨run, rfl⟩ replay ⟨moved, read, -⟩
    refine ⟨trivial, run.trans moved, ?_⟩
    cases k with
    | syncFile | openConn | executeBatch | closeConn => exact read
    | _ => cases replay
  have kept := Op.Uses.wp one (uses_replay (fun _ h => h) targetPath) s (c, files) ⟨.refl, rfl⟩
  exact Op.wp_mono kept (fun _ _ _ h => h) fun _ _ _ _ => trivial

end

section
variable {config} {host : Host A} {start c : Point config A} {permits : Point config A → Str → Prop}
  {files : List (Str × Bytes)} {generation targetPath : Str} {keys : List Str} {snapshot wal : Bytes}
  (codec : Codec config)
include codec

/-- The segments that are read are those of the plan. -/
theorem wp_readSegmentsBeside (h : (keptInOrder config).Holds (tendingRuns config host) c)
    (segments : ∀ key ∈ keys, ∃ index, key = (Object.segment generation index).key)
    (held : keysData config (vaultAt c).deposits.uploads keys = some wal) :
    Op.wp (besideManager config host permits) anyCall
      (readSegments pf (S3Client.new config.s3) config keys)
      (fun data _ r => data = wal ∧ (tendingRuns config host).Reach c r.1 ∧ r.2 = files)
      (fun _ _ _ => True) () (c, files) := by
  induction keys generalizing c wal with
  | nil =>
    cases held
    exact ⟨rfl, .refl, rfl⟩
  | cons key keys ih =>
    obtain ⟨index, rfl⟩ := segments key List.mem_cons_self
    obtain ⟨raw, data, rest, put, decodes, later, rfl⟩ := keysData_cons_eq_some.mp held
    simp only [readSegments, Op.wp_bind, Op.wp_ofExcept]
    refine wp_getBeside (o := .segment generation index) (fun raw' c₁ run found => ?_)
      fun _ _ _ => trivial
    have h₁ := (keptInOrder_kept codec).reach run h
    have advances := advances_of_reach codec run h
    have same : raw' = raw := by
      have here := (intact_of_holds h₁).held _ raw' found
      exact Option.some.inj (here.symm.trans (advances.written _ raw rfl put))
    rw [same, eq_ok_of_toOption decodes]
    have others := fun key among => segments key (List.mem_cons_of_mem _ among)
    refine Op.wp_mono (ih h₁ others (keysData_advances advances others later)) ?_ fun _ _ _ _ => trivial
    rintro data' _ ⟨c₂, files₂⟩ ⟨rfl, run', rfl⟩
    exact ⟨rfl, run.trans run', rfl⟩

/-- A plan that is followed. -/
theorem wp_replaySegmentsBeside (h : (keptInOrder config).Holds (tendingRuns config host) c)
    (plan : Plan config start c generation keys wal) :
    Op.wp (besideManager config host permits) anyCall
      (replaySegments pf (S3Client.new config.s3) config targetPath keys)
      (fun _ _ r => (tendingRuns config host).Reach c r.1 ∧
        r.2 = overwritten targetPath keys snapshot wal [])
      (fun _ _ _ => True) () (c, [(targetPath, snapshot)]) := by
  unfold replaySegments overwritten
  by_cases empty : keys = []
  · simp only [empty, ne_eq, not_true_eq_false, if_false, if_true]
    exact wp_replayBeside
  simp only [empty, ne_eq, not_false_eq_true, if_true, if_false]
  rw [Op.wp_bind]
  refine Op.wp_mono (wp_readSegmentsBeside codec h plan.segments plan.held) ?_ fun _ _ _ _ => trivial
  rintro data _ ⟨c₁, files₁⟩ ⟨rfl, run₁, rfl⟩
  rw [Op.wp_bind]
  refine wp_writeBeside (fun c₂ run₂ => ?_) fun _ _ => trivial
  rw [Op.wp_bind]
  refine wp_syncBeside (fun c₃ run₃ => ?_) fun _ _ => trivial
  refine Op.wp_mono wp_replayBeside ?_ fun _ _ _ _ => trivial
  rintro _ _ ⟨c₄, files₄⟩ ⟨run₄, rfl⟩
  exact ⟨((run₁.trans run₂).trans run₃).trans run₄, rfl⟩

/-- The keys that a restore reads are planned. -/
theorem wp_segmentKeysBeside (before : (keptInOrder config).Holds (tendingRuns config host) start)
    (run : (tendingRuns config host).Reach start c) :
    Op.wp (besideManager config host (ListsInOrder config start)) anyCall
      (segmentKeysFromManifest pf (S3Client.new config.s3) config generation)
      (fun keys _ r => (tendingRuns config host).Reach c r.1 ∧ r.2 = files ∧
        ∃ wal, Plan config start r.1 generation keys wal)
      (fun _ _ _ => True) () (c, files) := by
  have sound := (intact_of_holds before).toSound
  have shown : ∀ {c₁}, (tendingRuns config host).Reach c c₁ →
      Op.wp (besideManager config host (ListsInOrder config start)) anyCall
        (Op.attempt ((S3Client.new config.s3).listKeys (walDirectory generation)))
        (fun result _ r => ∃ keys, result = .ok keys ∧ (tendingRuns config host).Reach c r.1 ∧
          r.2 = files ∧ ∃ wal, Plan config start r.1 generation keys wal)
        (fun _ _ _ => True) () (c₁, files) := by
    intro c₁ run₁
    rw [Op.wp_attempt]
    refine wp_listBeside fun c₂ run₂ inOrder => ?_
    have whole := run.trans (run₁.trans run₂)
    have h₂ := (keptInOrder_kept codec).reach whole before
    exact ⟨_, rfl, run₁.trans run₂, rfl, plan_listing sound (intact_of_holds h₂)
      (advances_of_reach codec whole before) inOrder⟩
  unfold segmentKeysFromManifest
  rw [Op.wp_bind, Op.wp_attempt]
  refine wp_getBeside (o := .manifest generation) (fun raw c₁ run₁ found => ?_) fun e c₁ run₁ => ?_
  swap
  · refine (Op.wp_bind _ _).mpr (Op.wp_mono (shown run₁) ?_ fun _ _ _ h => h)
    rintro _ _ r ⟨keys, rfl, planned⟩
    exact planned
  dsimp only
  cases decodes : decodeManifest pf raw config with
  | error e =>
    refine (Op.wp_bind _ _).mpr (Op.wp_mono (shown run₁) ?_ fun _ _ _ h => h)
    rintro _ _ r ⟨keys, rfl, planned⟩
    exact planned
  | ok manifest =>
    have h₁ := (keptInOrder_kept codec).reach (run.trans run₁) before
    have here : manifestAt config (vaultAt c₁).bucket generation = some manifest := by
      rw [manifestAt, found, Option.bind_some, decodes]
      rfl
    have plan : ∃ wal, Plan config start c₁ generation _ wal := plan_listed sound
      (intact_of_holds h₁).toSound (advances_of_reach codec (run.trans run₁) before)
    rw [(intact_of_holds h₁).toSound.listed here] at plan
    exact ⟨run₁, rfl, plan⟩

/-- What a restore beside the manager has written when it returns. -/
theorem wp_restoreLatestBeside (before : (keptInOrder config).Holds (tendingRuns config host) start) :
    Op.wp (besideManager config host (ListsInOrder config start)) anyCall
      (restoreLatest pf (S3Client.new config.s3) config targetPath)
      (fun _ _ r => ∃ generation restored, written targetPath r.2 = some restored ∧
        content config (vaultAt r.1).deposits.uploads (.snapshot generation) = some restored.snapshot ∧
        restored.wal <+: (vaultAt r.1).backup config generation ∧
        ∀ manifest, manifestAt config (vaultAt start).bucket generation = some manifest →
          listedLength manifest.segments ≤ restored.wal.length)
      (fun _ _ _ => True) () (start, []) := by
  unfold restoreLatest
  rw [Op.wp_bind, Op.wp_attempt]
  refine wp_getBeside (o := .latest) (fun genBytes c₁ run₁ _ => ?_) fun _ _ _ => trivial
  dsimp only
  cases fromUtf8 genBytes with
  | none => trivial
  | some generation =>
    simp only [Op.wp_bind, writeSnapshot, Op.wp_ofExcept]
    refine wp_getBeside (o := .snapshot generation) (fun raw c₂ run₂ found => ?_) fun _ _ _ => trivial
    cases decodes : pipelineDecode pf raw config with
    | error e => trivial
    | ok snapshot =>
      refine wp_writeBeside (fun c₃ run₃ => ?_) fun _ _ => trivial
      have run := (run₁.trans run₂).trans run₃
      refine Op.wp_mono (wp_segmentKeysBeside codec before run) ?_ fun _ _ _ _ => trivial
      rintro keys _ ⟨c₄, files₄⟩ ⟨run₄, rfl, wal, plan⟩
      have h₂ := (keptInOrder_kept codec).reach (run₁.trans run₂) before
      have h₄ := (keptInOrder_kept codec).reach (run.trans run₄) before
      refine Op.wp_mono (wp_replaySegmentsBeside codec h₄ plan) ?_ fun _ _ _ _ => trivial
      rintro _ _ ⟨c₅, files₅⟩ ⟨run₅, rfl⟩
      have plan₅ := plan.later (advances_of_reach codec run₅ h₄)
      have put := (intact_of_holds h₂).held _ raw found
      have kept := (advances_of_reach codec ((run₃.trans run₄).trans run₅) h₂).written _ raw rfl put
      refine ⟨generation, ⟨snapshot, wal⟩, written_overwritten plan₅.held, ?_, plan₅.begins, plan₅.long⟩
      rw [content, kept, Option.bind_some, decodes]
      rfl

/-- Beside a manager whose generations are listed in order when their manifest is missing, a
restore that returns is one of a generation at a moment since it began. -/
theorem restore_safe_beside (host : Host A) : SafeBesideManager config host (ListsInOrder config) := by
  intro w₀ start now targetPath files empty begun run
  have before := (keptInOrder_kept codec).reach begun (stored_empty empty)
  exact (run.of_wp (wp_restoreLatestBeside codec before)).1 () rfl

end

theorem restore_safe_beside_plain :
    SafeBesideManager windowConfig (fileHost fun t t' => t < t') (ListsInOrder windowConfig) :=
  restore_safe_beside windowConfig_codec _

/-- An observer of the deposits that can be computed. -/
def depositNotes (q : Request) : Notes (Deposits.keep q) where
  note d c reply := d.note q c reply
  check d c reply := match c, reply with
    | .newUuid, generation => d.drawn.all fun own => own ≠ generation
    | _, _ => true
  noted d c reply checked := by
    refine ⟨?_, rfl⟩
    cases c with
    | newUuid =>
      intro drawn
      exact of_decide_eq_true (List.all_eq_true.mp checked reply drawn) rfl
    | _ => trivial

/-- A bucket at rest answers as a bucket does. -/
theorem atRest_reads {b : Bucket} {files files' : List (Str × Bytes)} {c : Call} {reply : c.Reply}
    (answered : atRest b files c = some (reply, files')) : readsOf b files c reply files' := by
  cases c with
  | getObject key =>
    simp only [atRest] at answered
    split at answered <;> cases answered
    · exact ⟨by assumption, rfl⟩
    · exact ⟨by assumption, rfl⟩
  | list keyPrefix =>
    cases answered
    exact ⟨by simp, rfl⟩
  | sleep | writeFile | syncFile | openConn | executeBatch | closeConn =>
    cases answered
    rfl
  | _ => cases answered

/-- The answers to a restore that finds one bucket until it asks for a key, and another one from
then on. -/
def twoBuckets (b b' : Bucket) (key : Str) (state : Bool × List (Str × Bytes)) (c : Call) :
    Option (c.Reply × (Bool × List (Str × Bytes))) :=
  let later := state.1 || c = .getObject key
  (atRest (if later then b' else b) state.2 c).map fun out => (out.1, later, out.2)

/-- Such a restore is one beside a manager that goes on in between. -/
theorem runs_twoBuckets {config : BackupConfig pf.build} {host : Host A} {start now : Point config A}
    {targetPath key : Str} {later : Bool} {files : List (Str × Bytes)}
    (run : (tendingRuns config host).Reach start now)
    (computed : Op.interp (twoBuckets (vaultAt start).bucket (vaultAt now).bucket key)
      (restoreLatest pf (S3Client.new config.s3) config targetPath) () (false, []) =
        some ((.ok (), ()), later, files)) :
    Op.Runs (besideManager config host fun _ _ => True)
      (restoreLatest pf (S3Client.new config.s3) config targetPath) () (start, []) (.ok ()) ()
      (if later then now else start, files) := by
  let answers : Server Calls (Bool × List (Str × Bytes)) := fun state c reply state' =>
    twoBuckets (vaultAt start).bucket (vaultAt now).bucket key state c = some (reply, state')
  have alone : Op.Runs answers (restoreLatest pf (S3Client.new config.s3) config targetPath) ()
      (false, []) (.ok ()) () (later, files) :=
    Steps.of_interp (fun _ _ _ _ answered => answered) _ _ computed
  have asks : Op.Uses (fun _ => True) (restoreLatest pf (S3Client.new config.s3) config targetPath) :=
    uses_restoreLatest config (fun _ _ => trivial) (fun _ _ => trivial) _ _
  let pointAt (later : Bool) : Point config A := if later then now else start
  have step : ∀ (state : Bool × List (Str × Bytes)) r c reply state', r = (pointAt state.1, state.2) →
      True → answers state c reply state' →
      ∃ r', besideManager config host (fun _ _ => True) r c reply r' ∧ r' = (pointAt state'.1, state'.2) := by
    rintro ⟨before, files₁⟩ _ c reply state' rfl - answered
    obtain ⟨⟨reply', files₂⟩, found, same⟩ := Option.map_eq_some_iff.mp answered
    cases same
    have reads := atRest_reads found
    refine ⟨_, ⟨?_, ?_, fun _ _ => trivial⟩, rfl⟩
    · cases before with
      | true => exact .refl
      | false =>
        by_cases asked : (false || decide (c = .getObject key)) = true
        · simpa only [pointAt, asked, Bool.false_eq_true, if_true, if_false] using run
        · simp only [pointAt, asked, Bool.false_eq_true, if_false]
          exact .refl
    · by_cases asked : (before || decide (c = .getObject key)) = true
      · simpa only [pointAt, asked, if_true] using reads
      · simpa only [pointAt, asked, Bool.false_eq_true, if_false] using reads
  obtain ⟨_, beside, rfl⟩ := alone.simulate (asks ()) step rfl
  exact beside

/-- The generation whose snapshot a restore has is deleted before its manifest is asked for. -/
theorem not_safe_beside :
    ¬ SafeBesideManager windowConfig (fileHost fun t t' => t < t') fun _ _ _ => True := by
  let host : Host Files := fileHost fun t t' => t < t'
  let objects : List Object :=
    [.latest, .snapshot (uuid 0), .manifest (uuid 0), .segment (uuid 0) 0, .snapshot (uuid 1),
      .manifest (uuid 1)]
  let M : Machine (flawless windowConfig (fun q => tendingOps q = true) host) :=
    flawlessMachine (some 2) _ Nat.lt_succ_self objects rfl
  let w₀ : World Files := ⟨∅, ⟨some dbFile, none⟩, 0, []⟩
  let move (files : Files) : Machine.Cue (flawless windowConfig (fun q => tendingOps q = true) host) :=
    .move (fun _ => files) (fun _ => ⟨_, _, trivial, .inl rfl, rfl⟩)
  let wal : Bytes := walHeader 7 ++ walFrame 1
  have played : ((M.playBeside windowConfig depositNotes
      [.well .new, move ⟨some dbFile, some wal⟩, .well .syncWal] (none, w₀, .none)).bind fun start =>
      (M.playBeside windowConfig depositNotes
        [move ⟨some (dbFile ++ [9]), some wal⟩, .well .checkpoint, .well .enforceRetention]
        start).bind fun now =>
      (Op.interp (twoBuckets start.2.1.bucket now.2.1.bucket
          (objectKey windowConfig (.manifest (uuid 0))))
        (restoreLatest plain (S3Client.new windowConfig.s3) windowConfig ['t']) () (false, [])).map
          fun done => (start, now, done)).any (fun run =>
        run.2.2.1.1.toOption = some () ∧ run.2.2.2.1 = true ∧
        written ['t'] run.2.2.2.2 = some ⟨dbFile, []⟩ ∧
        ((manifestAt windowConfig run.1.2.1.bucket (uuid 0)).any fun manifest =>
          listedLength manifest.segments = 568) ∧
        run.2.1.2.2.uploads.entries.all fun e =>
          e.1 = objectKey windowConfig (.snapshot (uuid 0)) ∨
            (pipelineDecode plain e.2 windowConfig).toOption ≠ some dbFile) = true := by
    decide +kernel
  obtain ⟨⟨⟨s, v⟩, ⟨s', w', d'⟩, ⟨r, ⟨⟩⟩, later, files⟩, found, checked⟩ :=
    (Option.any_eq_true _ _).mp played
  obtain ⟨start, first, rest⟩ := Option.bind_eq_some_iff.mp found
  obtain ⟨now, second, third⟩ := Option.bind_eq_some_iff.mp rest
  obtain ⟨done, restores, same⟩ := Option.map_eq_some_iff.mp third
  cases same
  obtain ⟨returned, moved, wrote, listed, only⟩ := of_decide_eq_true checked
  obtain rfl := eq_ok_of_toOption returned
  obtain rfl : later = true := moved
  obtain ⟨manifest, lists, length⟩ := (Option.any_eq_true _ _).mp listed
  intro claim
  have beside := runs_twoBuckets (Machine.playBeside_reach second) restores
  obtain ⟨generation, restored, wrote', snapshot, -, long⟩ :=
    claim rfl (Machine.playBeside_reach first) beside
  obtain rfl : restored = ⟨dbFile, []⟩ := Option.some.inj (wrote'.symm.trans wrote)
  obtain ⟨raw, put, decodes⟩ := Option.bind_eq_some_iff.mp snapshot
  have own := of_decide_eq_true (List.all_eq_true.mp only _ (AList.mem_lookup_iff.mp put))
  have key_eq : objectKey windowConfig (.snapshot generation) =
      objectKey windowConfig (.snapshot (uuid 0)) := own.resolve_right fun other => other decodes
  have same := (objectKey_inj windowConfig).mp key_eq
  injection same with generation_eq
  subst generation_eq
  have short := long manifest lists
  rw [of_decide_eq_true length] at short
  cases short

end Waloy.Spec
