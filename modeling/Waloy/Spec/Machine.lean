import Mathlib.Data.List.Infix
import Waloy.Effect.Observed
import Waloy.Spec.Faultless
import Waloy.Spec.Json

/-!
# Runs that can be computed

A machine answers every call by a function, within the answers of a regime, so a
script of operations and of moves of the application determines a run.
-/
namespace Waloy.Spec
open Waloy.Effect Waloy.Source

variable {pf : Platform} (config : BackupConfig pf.build) {A : Type}

/-- The text of a UUID that tells its number. -/
def uuid (n : Nat) : Str :=
  List.replicate 8 '0' ++ ['-', '0', '0', '0', '0', '-', '4', '0', '0', '0', '-', '8', '0', '0', '0',
    '-'] ++ List.replicate (12 - (Nat.toDigits 10 n).length) '0' ++ Nat.toDigits 10 n

/-- The number of ids drawn so far. -/
def drawn : List Event → Nat
  | [] => 0
  | .drew _ :: rest => drawn rest + 1
  | .stored _ :: rest => drawn rest

/-- The choices of a machine, each of which its regime admits. -/
structure Machine (R : Regime pf A) where
  enable : Request → Manager pf → Bool
  truncate : A → A
  install : A → Str → Bytes → A
  check : Request → Manager pf → World A → (c : Call) → c.Reply → Bool
  enabled : ∀ q s, enable q s = true → R.enabled q s
  truncated : ∀ a, R.host.truncated a (truncate a)
  installed : ∀ a path data, R.host.installed a path data (install a path data)
  ticks : ∀ t, t + 1 < 2 ^ 64 → R.host.tick t (t + 1)
  checked : ∀ q s w c reply, check q s w c reply = true → R.allows q s w c reply

/-- The answer of a host to one call, denied where the script says so. -/
def hostAnswer (host : Host A) (truncate : A → A) (install : A → Str → Bytes → A)
    (deny : Call → Bool) (w : World A) : (c : Call) → Option (c.Reply × World A)
  | .putObject key data =>
    if deny (.putObject key data) then some (.error "denied", w)
    else some (.ok (), { w with bucket := w.bucket.insert key data, log := .stored key :: w.log })
  | .getObject key =>
    if deny (.getObject key) then some (.error "denied", w)
    else
      match w.bucket.lookup key with
      | some data => some (.ok data, w)
      | none => some (.error "missing", w)
  | .deleteObject key =>
    if deny (.deleteObject key) then some (.error "denied", w)
    else some (.ok (), { w with bucket := w.bucket.erase key })
  | .list keyPrefix => some (.ok [w.bucket.keys.filter (keyPrefix.isPrefixOf ·)], w)
  | .sleep _ => some ((), w)
  | .systemTime =>
    if w.clock + 1 < 2 ^ 64 then some (.ok (w.clock + 1), { w with clock := w.clock + 1 }) else none
  | .instantNow => some (0, w)
  | .newUuid =>
    let generation := uuid (drawn w.log)
    if '/' ∉ generation ∧ ∀ key ∈ w.bucket.keys, ¬ (generation ++ ['/']) <:+: key then
      some (generation, { w with log := .drew generation :: w.log })
    else none
  | .fillBytes n => some (List.replicate n 0, w)
  | .tryExists path =>
    if path = host.dbPath then some (.ok (host.db w.app).isSome, w)
    else some (.ok (host.wal w.app).isSome, w)
  | .readFile path =>
    if path = host.dbPath then
      match host.db w.app with
      | some data => some (.ok data, w)
      | none => some (.error "missing", w)
    else
      match host.wal w.app with
      | some data => some (.ok data, w)
      | none => some (.error "missing", w)
  | .writeFile path data => some (.ok (), { w with app := install w.app path data })
  | .syncFile _ => some (.ok (), w)
  | .openConn _ => some (.ok 0, w)
  | .executeBatch conn .walCheckpointTruncate =>
    if deny (.executeBatch conn .walCheckpointTruncate) then
      some (.error "denied", { w with app := truncate w.app })
    else some (.ok (), { w with app := truncate w.app })
  | .executeBatch _ _ => some (.ok (), w)
  | .queryMaster _ => some (.ok (), w)
  | .closeConn _ => some ((), w)

theorem hostAnswer_acts {host : Host A} {truncate : A → A} {install : A → Str → Bytes → A}
    (truncated : ∀ a, host.truncated a (truncate a))
    (installed : ∀ a path data, host.installed a path data (install a path data))
    (ticks : ∀ t, t + 1 < 2 ^ 64 → host.tick t (t + 1)) {deny : Call → Bool} {w w' : World A}
    {c : Call} {reply : c.Reply} (h : hostAnswer host truncate install deny w c = some (reply, w')) :
    Acts host w c reply w' := by
  cases c with
  | putObject key data =>
    simp only [hostAnswer] at h
    split at h <;> cases h
    · exact .inl rfl
    · rfl
  | getObject key =>
    simp only [hostAnswer] at h
    split at h
    · cases h
      rfl
    · split at h <;> cases h
      · exact ⟨by assumption, rfl⟩
      · rfl
  | deleteObject key =>
    simp only [hostAnswer] at h
    split at h <;> cases h
    · exact .inl rfl
    · rfl
  | list keyPrefix =>
    cases h
    exact ⟨by simp, rfl⟩
  | systemTime =>
    simp only [hostAnswer] at h
    split at h <;> cases h
    rename_i small
    have same : reading (.ok (w.clock + 1)) = w.clock + 1 := Nat.mod_eq_of_lt small
    refine ⟨?_, by rw [same]⟩
    rw [same]
    exact ticks _ small
  | newUuid =>
    simp only [hostAnswer] at h
    split at h <;> cases h
    rename_i fresh
    exact ⟨fresh, rfl⟩
  | fillBytes n =>
    cases h
    exact ⟨List.length_replicate, rfl⟩
  | tryExists path =>
    simp only [hostAnswer] at h
    split at h <;> cases h
    · rename_i isDb
      exact ⟨fun _ => rfl, fun isWal => by simp [isDb] at isWal, rfl⟩
    · rename_i notDb
      exact ⟨fun isDb => absurd isDb notDb, fun _ => rfl, rfl⟩
  | readFile path =>
    simp only [hostAnswer] at h
    split at h
    · rename_i isDb
      split at h <;> cases h
      · exact ⟨fun _ => by assumption, fun isWal => by simp [isDb] at isWal, rfl⟩
      · rfl
    · rename_i notDb
      split at h <;> cases h
      · exact ⟨fun isDb => absurd isDb notDb, fun _ => by assumption, rfl⟩
      · rfl
  | writeFile path data =>
    cases h
    exact ⟨_, installed _ _ _, rfl⟩
  | executeBatch conn batch =>
    cases batch with
    | walCheckpointTruncate =>
      simp only [hostAnswer] at h
      split at h <;> cases h
      · exact ⟨_, truncated _, rfl⟩
      · exact ⟨_, truncated _, rfl⟩
    | _ => cases h; rfl
  | sleep => cases h; rfl
  | instantNow => cases h; rfl
  | syncFile => cases h; rfl
  | openConn => cases h; rfl
  | queryMaster => cases h; rfl
  | closeConn => cases h; rfl

/-- The uploads, as a script denies them. -/
def isPut : Call → Bool
  | .putObject _ _ => true
  | _ => false

/-- The uploads to one key. -/
def isPutTo (key : Str) : Call → Bool
  | .putObject key' _ => key' = key
  | _ => false

theorem eq_ok_of_toOption {ε α : Type} {r : Except ε α} {value : α}
    (h : r.toOption = some value) : r = .ok value := by
  cases r with
  | error e => cases h
  | ok value' => rw [Option.some.inj h]

namespace Machine

variable {R : Regime pf A} (M : Machine R)

def answer (q : Request) (s : Manager pf) (deny : Call → Bool) (w : World A) (c : Call) :
    Option (c.Reply × World A) :=
  (hostAnswer (R.hostOf config) M.truncate M.install deny w c).filter
    fun out => M.check q s w c out.1

theorem answer_served {q : Request} {s : Manager pf} {deny : Call → Bool} {w w' : World A}
    {c : Call} {reply : c.Reply} (h : M.answer config q s deny w c = some (reply, w')) :
    (R.env config q s).serve w c reply w' := by
  obtain ⟨answered, checked⟩ := Option.filter_eq_some_iff.mp h
  exact ⟨w.app, R.host.during_refl _, M.checked _ _ _ _ _ checked,
    @hostAnswer_acts _ (R.hostOf config) _ _ M.truncated M.installed M.ticks _ _ _ _ _ answered⟩

/-- One line of a script. -/
inductive Cue (R : Regime pf A) where
  | perform (q : Request) (deny : Call → Bool)
  | move (f : A → A) (admitted : ∀ w, R.drift w { w with app := f w.app })

/-- The return of an operation that the machine may perform. -/
def perform (q : Request) (deny : Call → Bool) (s : Manager pf) (w : World A) :
    Option ((Except Error Answer × Manager pf) × World A) :=
  if M.enable q s then ((process config).body q s).interp (M.answer config q s deny) w else none

/-- The process and the world after a script. -/
def play : List (Cue R) → Manager pf × World A → Option (Manager pf × World A)
  | [], conf => some conf
  | .perform q deny :: rest, (s, w) =>
    (M.perform config q deny s w).bind fun out => play rest (out.1.2, out.2)
  | .move f _ :: rest, (s, w) => play rest (s, { w with app := f w.app })

variable {M config}

theorem perform_reach {q : Request} {deny : Call → Bool} {s : Manager pf} {w w' : World A}
    {result : Except Error Answer × Manager pf}
    (h : M.perform config q deny s w = some (result, w')) :
    R.Reach config (.idle s w) (.running q s w (.pure result) w') := by
  unfold perform at h
  split at h
  case isTrue enabled =>
    exact Setting.Reach.of_interp (M.enabled q s enabled)
      (fun _ _ _ _ answered => answer_served config M answered) h
  case isFalse => cases h

theorem play_reach {cues : List (Cue R)} {s s' : Manager pf} {w w' : World A}
    (h : M.play config cues (s, w) = some (s', w')) :
    R.Reach config (.idle s w) (.idle s' w') := by
  induction cues generalizing s w with
  | nil =>
    cases h
    exact .refl
  | cons cue rest ih =>
    cases cue with
    | perform q deny =>
      obtain ⟨out, performed, later⟩ := Option.bind_eq_some_iff.mp h
      exact (perform_reach performed).finish.trans (ih later)
    | move f admitted => exact .head (.drift (admitted w)) (ih h)

/-- The state and the world in which the script leaves an operation, and its return. -/
def call (M : Machine R) (config : BackupConfig pf.build) (cues : List (Cue R)) (q : Request)
    (deny : Call → Bool) (conf : Manager pf × World A) :
    Option ((Manager pf × World A) × (Except Error Answer × Manager pf) × World A) :=
  (M.play config cues conf).bind fun before =>
    (M.perform config q deny before.1 before.2).map fun out => (before, out)

theorem call_reach {cues : List (Cue R)} {q : Request} {deny : Call → Bool} {s : Manager pf}
    {w : World A} {out : (Manager pf × World A) × (Except Error Answer × Manager pf) × World A}
    (h : M.call config cues q deny (s, w) = some out) :
    R.Reach config (.idle s w) (.running q out.1.1 out.1.2 (.pure out.2.1) out.2.2) := by
  obtain ⟨before, played, rest⟩ := Option.bind_eq_some_iff.mp h
  obtain ⟨result, performed, rfl⟩ := Option.map_eq_some_iff.mp rest
  exact (play_reach played).trans (perform_reach performed)

/-- A check that holds of the computed run holds of a run. -/
theorem exists_call {cues : List (Cue R)} {q : Request} {deny : Call → Bool} {s : Manager pf}
    {w : World A}
    {check : (Manager pf × World A) × (Except Error Answer × Manager pf) × World A → Bool}
    (h : (M.call config cues q deny (s, w)).any check = true) :
    ∃ s' start result w', R.Reach config (.idle s w) (.running q s' start (.pure result) w') ∧
      check ((s', start), result, w') = true := by
  obtain ⟨⟨⟨s', start⟩, result, w'⟩, called, checked⟩ := (Option.any_eq_true _ _).mp h
  exact ⟨s', start, result, w', call_reach called, checked⟩

section
variable (M) (config) {O : Type} {observe : Request → Server Calls O}
  (notes : ∀ q, Notes (observe q))

/-- The return of an operation beside an observer. -/
def performBeside (q : Request) (deny : Call → Bool) (s : Manager pf) (v : World A × O) :
    Option ((Except Error Answer × Manager pf) × World A × O) :=
  if M.enable q s then
    ((process config).body q s).interp ((notes q).beside (M.answer config q s deny)) v
  else none

/-- The process, the world and the observer after a script. -/
def playBeside : List (Cue R) → Manager pf × World A × O → Option (Manager pf × World A × O)
  | [], conf => some conf
  | .perform q deny :: rest, (s, v) =>
    (M.performBeside config notes q deny s v).bind fun out => playBeside rest (out.1.2, out.2)
  | .move f _ :: rest, (s, w, o) => playBeside rest (s, { w with app := f w.app }, o)

variable {M config notes}

theorem playBeside_reach {cues : List (Cue R)} {s s' : Manager pf} {v v' : World A × O}
    (h : M.playBeside config notes cues (s, v) = some (s', v')) :
    ((R.setting config).observed observe).Reach (.idle s v) (.idle s' v') := by
  induction cues generalizing s v with
  | nil =>
    cases h
    exact .refl
  | cons cue rest ih =>
    cases cue with
    | perform q deny =>
      obtain ⟨⟨⟨result, s₁⟩, v₁⟩, performed, later⟩ := Option.bind_eq_some_iff.mp h
      unfold performBeside at performed
      split at performed
      case isTrue enabled =>
        have returns : ((R.setting config).observed observe).Reach (.idle s v)
            (.running q s v (.pure (result, s₁)) v₁) :=
          Setting.Reach.of_interp (M.enabled q s enabled) (fun _ _ _ _ answered =>
            (notes q).beside_served (fun _ _ _ _ => answer_served config M) answered) performed
        exact returns.finish.trans (ih later)
      case isFalse => cases performed
    | move f admitted =>
      obtain ⟨w, o⟩ := v
      have moved : ((R.setting config).observed observe).drift s (w, o)
          ({ w with app := f w.app }, o) := ⟨admitted w, rfl⟩
      exact .head (.drift moved) (ih h)

end

/-- A check that holds of one computed run and of another one after it. -/
theorem exists_relay {R' : Regime pf A} {M' : Machine R'} {config' : BackupConfig pf.build}
    {cues : List (Cue R)} {cues' : List (Cue R')} {s : Manager pf} {w : World A}
    {check : (Manager pf × World A) × (Manager pf × World A) → Bool}
    (h : ((M.play config cues (s, w)).bind fun middle =>
      (M'.play config' cues' (none, middle.2)).map fun last => (middle, last)).any check = true) :
    ∃ middle last, R.Reach config (.idle s w) (.idle middle.1 middle.2) ∧
      R'.Reach config' (.idle none middle.2) (.idle last.1 last.2) ∧
      check (middle, last) = true := by
  obtain ⟨⟨middle, last⟩, found, checked⟩ := (Option.any_eq_true _ _).mp h
  obtain ⟨first, played, rest⟩ := Option.bind_eq_some_iff.mp found
  obtain ⟨second, played', same⟩ := Option.map_eq_some_iff.mp rest
  cases same
  exact ⟨middle, last, play_reach played, play_reach played', checked⟩

end Machine

/-- The local files of a backup. -/
structure Files where
  db : Option Bytes
  wal : Option Bytes
  deriving DecidableEq

/-- A host whose files may change at any time, with a clock that follows `tick`. -/
def fileHost (tick : Nat → Nat → Prop) : Host Files where
  dbPath := []
  during _ _ := True
  during_refl _ := trivial
  during_trans _ _ := trivial
  db := Files.db
  wal := Files.wal
  truncated _ _ := True
  installed _ _ _ _ := True
  tick := tick

/-- A build without any feature, and JSON as the only code of another crate that runs. -/
def plain : Platform where
  build := ⟨false, false, false, true⟩
  libs :=
    { jsonToVec := jsonToVec
      jsonFromSlice := jsonFromSlice
      lz4CompressPrependSize := id
      lz4DecompressSizePrepended := .ok
      zstdEncodeAll := fun data _ => .ok data
      zstdDecodeAll := .ok
      argon2HashPassword := fun _ _ => .error "feature disabled"
      aes256GcmEncrypt := fun _ _ _ => .error "feature disabled"
      aes256GcmDecrypt := fun _ _ _ => .error "feature disabled" }

def plainConfig : BackupConfig plain.build where
  dbPath := ['d', 'b']
  s3 := ⟨[]⟩
  retentionDuration := none
  compression := .none
  encryptionKey := none
  autoRestore := false
  snapshotInterval := none

/-- The answers without a failure, where the uploads are to some objects only. -/
def faultlessly (objects : List Object) (w : World A) : (c : Call) → c.Reply → Bool
  | .putObject key data, .ok _ =>
    key ∈ objects.map (objectKey plainConfig) ∧
      (pipelineDecode plain data plainConfig).toOption = some data
  | .putObject _ _, .error _ => false
  | .getObject key, .error _ => (w.bucket.lookup key).isNone
  | .deleteObject _, .error _ => false
  | .list _, .error _ => false
  | .readFile path, .error _ => path ≠ plainConfig.dbPath
  | .openConn _, .error _ => false
  | .executeBatch _ _, .error _ => false
  | .queryMaster _, .error _ => false
  | _, _ => true

theorem faultlessly_sound {objects : List Object} {w : World A} {c : Call} {reply : c.Reply}
    (counted : ∀ o ∈ objects, ∀ generation index, o = .segment generation index → index + 1 < 2 ^ 32)
    (h : faultlessly objects w c reply = true) :
    faultless plainConfig.dbPath w c reply ∧ uploadsWell plainConfig c := by
  cases c with
  | putObject key data =>
    cases reply with
    | error => cases h
    | ok =>
      obtain ⟨among, decodes⟩ := of_decide_eq_true h
      obtain ⟨o, ho, same⟩ := List.mem_map.mp among
      refine ⟨trivial, ?_, ?_⟩
      · rintro - raw ⟨salt, nonce, -, -, encoded⟩
        cases encoded
        exact eq_ok_of_toOption decodes
      · intro generation index key_eq
        exact counted o ho generation index ((objectKey_inj _).mp (same.trans key_eq))
  | getObject => cases reply with
    | error => exact ⟨Option.isNone_iff_eq_none.mp h, trivial⟩
    | ok => exact ⟨trivial, trivial⟩
  | readFile path => cases reply with
    | error =>
      have other : path ≠ plainConfig.dbPath := of_decide_eq_true h
      exact ⟨other, trivial⟩
    | ok => exact ⟨trivial, trivial⟩
  | deleteObject => cases reply with
    | error => cases h
    | ok => exact ⟨trivial, trivial⟩
  | list => cases reply with
    | error => cases h
    | ok => exact ⟨trivial, trivial⟩
  | openConn => cases reply with
    | error => cases h
    | ok => exact ⟨trivial, trivial⟩
  | executeBatch => cases reply with
    | error => cases h
    | ok => exact ⟨trivial, trivial⟩
  | queryMaster => cases reply with
    | error => cases h
    | ok => exact ⟨trivial, trivial⟩
  | _ => exact ⟨trivial, trivial⟩

/-- The index of a segment stays within its type when it is incremented. -/
def isCounted : Object → Bool
  | .segment _ index => index + 1 < 2 ^ 32
  | _ => true

/-- The machine of runs without a failure, where the uploads are to some objects only. -/
def flawlessMachine (retentionDuration : Option Nat) (ops : Request → Prop) [DecidablePred ops]
    {tick : Nat → Nat → Prop} (ticks : ∀ t, tick t (t + 1)) (objects : List Object)
    (counted : objects.all isCounted = true) :
    Machine (flawless { plainConfig with retentionDuration } ops (fileHost tick)) where
  enable q _ := decide (ops q)
  truncate := id
  install files _ _ := files
  check _ _ := faultlessly objects
  enabled _ _ := of_decide_eq_true
  truncated _ := trivial
  installed _ _ _ := trivial
  ticks t _ := ticks t
  checked _ _ w c reply := by
    refine faultlessly_sound fun o among generation index same => ?_
    have small := List.all_eq_true.mp counted o among
    rw [same] at small
    exact of_decide_eq_true small

/-- An operation of a script in which nothing is denied. -/
def Machine.Cue.well {R : Regime plain Files} (q : Request) : Machine.Cue R :=
  .perform q fun _ => false

/-- A manager of this configuration with the given segments. -/
def plainManager (segments : List SegmentMeta) (walOffset walIndex : Nat) :
    BackupManager plain.build where
  config := plainConfig
  s3 := S3Client.new plainConfig.s3
  generation := uuid 0
  readConn := 0
  walOffset := walOffset
  walIndex := walIndex
  walHeaderSalt := none
  manifest := ⟨uuid 0, 1000, 1000, segments⟩
  stats := StatsTracker.new
  lastSnapshotTime := 0
  shutdownComplete := false
  hasReadTransaction := true

/-- The first bytes of a database file, `SQLite format 3` and a zero. They stand for the file. -/
def dbFile : Bytes :=
  [0x53, 0x51, 0x4c, 0x69, 0x74, 0x65, 0x20, 0x66, 0x6f, 0x72, 0x6d, 0x61, 0x74, 0x20, 0x33, 0x00]

/-- The header of a WAL file with pages of 512 bytes, and a frame filled with a byte. -/
def walHeader (salt : UInt8) : Bytes :=
  [0x37, 0x7f, 0x06, 0x82, 0x00, 0x2d, 0xe2, 0x18, 0, 0, 2, 0, 0, 0, 0, 0] ++
    List.replicate 8 salt ++ List.replicate 8 0

def walFrame (fill : UInt8) : Bytes := List.replicate 536 fill

end Waloy.Spec
