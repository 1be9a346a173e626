import Waloy.Spec.Machine
import Waloy.Spec.Transactions

/-!
# The flag of the read transaction

The flag of a manager is right as long as no `COMMIT` and no `SELECT` of an operation has
failed. After such a failure the connection stays in a transaction that the manager takes for
ended, and every further `BEGIN` fails as nested.
-/
namespace Waloy.Spec
open Waloy.Effect Waloy.Source Waloy.Source.BackupManager

variable {pf : Platform} (config : BackupConfig pf.build) {A : Type}

/-- The runs of all operations in which every call may fail. -/
def anyhow (host : Host A) : Regime pf A where
  host := host
  enabled _ _ := True
  allows _ _ _ _ _ := True
  drift := idleMove host

/-- The flag is set exactly when the connection is in a transaction. -/
def Truthful (m : BackupManager pf.build) (db : Sqlite) : Prop :=
  m.hasReadTransaction = true ↔ db.inTransaction m.readConn = true

/-- SQLite works again: nothing fails but a `BEGIN` inside a transaction. -/
def working : Server Calls Sqlite := fun db c reply db' =>
  sqlite db c reply db' ∧
    match c, reply with
    | .executeBatch conn .begin, .error _ => db.inTransaction conn = true
    | .executeBatch _ .commit, .error _ => False
    | .queryMaster _, .error _ => False
    | _, _ => True

/-- Once SQLite works again, `begin_read_transaction` succeeds. -/
def Resumes (m : BackupManager pf.build) (db : Sqlite) : Prop :=
  Op.wp working anyCall (beginReadTransaction pf)
    (fun _ m' db' => m'.hasReadTransaction = true ∧ db'.inTransaction m'.readConn = true)
    (fun _ _ _ => False) m db

/-- After every operation of a run the flag is right and the transaction can be resumed. -/
def StaysTruthful (R : Regime pf A) : Prop :=
  ∀ w₀ db₀ m w db, ((R.setting config).observed fun _ => sqlite).Reach
    (.idle none (w₀, db₀)) (.idle (some m) (w, db)) → Truthful m db ∧ Resumes m db

section
variable {m : BackupManager pf.build} {db : Sqlite}

theorem Truthful.resumes (truthful : Truthful m db) : Resumes m db := by
  refine (Op.wp_bind _ _).mpr (Op.wp_get.mpr (Op.wp_ite (fun flag => ?_) fun flag => ?_))
  · exact ⟨flag, truthful.mp flag⟩
  simp only [Op.wp_bind, wp_orFail]
  refine Op.wp_call.mpr fun reply db' served => ⟨trivial, ?_⟩
  cases reply with
  | error e => exact flag (truthful.mpr served.2)
  | ok =>
    obtain ⟨⟨-, rfl⟩, -⟩ := served
    refine Op.wp_call.mpr fun reply db' served => ⟨trivial, ?_⟩
    cases reply with
    | error e => exact served.2
    | ok =>
      cases served.1
      exact ⟨rfl, Function.update_self ..⟩

/-- The flag and the connection agree as long as nothing slipped. -/
theorem Agrees.truthful_iff (agrees : Agrees m db) : Truthful m db ↔ db.slipped = false := by
  constructor
  · intro truthful
    refine Bool.eq_false_of_not_eq_true fun slipped => ?_
    obtain ⟨flag, inside⟩ := agrees.forgotten slipped
    rw [truthful.mpr inside] at flag
    cases flag
  · intro sound
    rw [Truthful, agrees.told sound]

/-- What a process keeps of its manager and of SQLite. -/
def Agreeing (s : Manager pf) (db : Sqlite) : Prop := ∀ m, s = some m → Agrees m db

theorem wp_body_agrees (q : Request) (s : Manager pf) (agreeing : Agreeing s db) :
    ((process config).body q s).wp sqlite anyCall (fun out db' => Agreeing out.2 db') db := by
  have opens : (opening config).wp sqlite anyCall (fun out db' => Agreeing out.2 db') db := by
    refine (wp_opening config).mpr (Op.wp_mono (wp_new_agrees config) ?_ ?_)
    · exact fun m _ db' agrees _ same => Option.some.inj same ▸ agrees
    · exact fun e _ db' _ => Manager.unopened
  have calls : ∀ {α : Type} (answer : α → Answer) (x : Method pf α) (m : BackupManager pf.build),
      s = some m → Op.Keeps sqlite Agrees x →
      (method answer x m).wp sqlite anyCall (fun out db' => Agreeing out.2 db') db := by
    intro α answer x m same keeps
    refine (wp_method answer x m).mpr (Op.wp_mono (keeps m db (agreeing m same)) ?_ ?_)
    · exact fun _ m' db' agrees _ same => Option.some.inj same ▸ agrees
    · exact fun _ m' db' agrees _ same => Option.some.inj same ▸ agrees
  cases s with
  | none =>
    cases q with
    | new => exact opens
    | _ => trivial
  | some m =>
    cases q with
    | new => exact opens
    | syncWal => exact calls _ _ m rfl keeps_syncWal_agrees
    | snapshot => exact calls _ _ m rfl (keeps_snapshot_calm undisturbed_agrees)
    | checkpoint => exact calls _ _ m rfl keeps_checkpoint_agrees
    | maybeSnapshot => exact calls _ _ m rfl keeps_maybeSnapshot_agrees
    | compact => exact calls _ _ m rfl (keeps_compact_calm undisturbed_agrees _ _)
    | enforceRetention => exact calls _ _ m rfl (keeps_enforceRetention_calm undisturbed_agrees)
    | shutdown => exact calls _ _ m rfl keeps_shutdown_agrees

theorem agreeing_kept (R : Regime pf A) :
    Setting.Invariant.Kept (C := process config) (W := World A × Sqlite)
      { idle := fun s v => Agreeing s v.2 } ((R.setting config).observed fun _ => sqlite) where
  entered _ _ := trivial
  stays _ _ _ := trivial
  drift := by
    rintro s ⟨w, db⟩ ⟨_, db'⟩ agreeing ⟨-, same⟩
    obtain rfl : db' = db := same
    exact agreeing
  body := by
    intro q s v _ agreeing
    refine Prog.wp_mono (fun _ _ _ _ h => h) (fun _ _ _ _ _ => trivial) ?_ _ _
      (@Prog.wp_view Calls (World A × Sqlite) Sqlite _ Prod.snd sqlite anyCall _ _
        (fun _ _ _ _ served => served.2) _ v (wp_body_agrees config q s agreeing))
    exact fun _ _ kept _ => ⟨trivial, kept⟩

end

/-- SQLite, as a script computes it. -/
def sqliteNotes : Notes sqlite where
  note db c reply := match c, reply with
    | .openConn _, .ok conn => ⟨Function.update db.inTransaction conn false, false⟩
    | .closeConn conn, _ =>
      { db with inTransaction := Function.update db.inTransaction conn false }
    | .executeBatch conn .begin, .ok _ =>
      { db with inTransaction := Function.update db.inTransaction conn true }
    | .executeBatch conn .commit, .ok _ =>
      { db with inTransaction := Function.update db.inTransaction conn false }
    | .executeBatch _ .commit, .error _ => { db with slipped := true }
    | .queryMaster _, .error _ => { db with slipped := true }
    | _, _ => db
  check db c reply := match c, reply with
    | .executeBatch conn .begin, .ok _ => !db.inTransaction conn
    | _, _ => true
  noted db c reply checked := by
    cases c with
    | openConn | queryMaster => cases reply <;> rfl
    | closeConn => rfl
    | executeBatch conn batch =>
      cases batch with
      | begin =>
        cases reply with
        | ok => exact ⟨by simpa using checked, rfl⟩
        | error => rfl
      | commit => cases reply <;> rfl
      | configure | walCheckpointTruncate | journalModeWal => rfl
    | _ => rfl

/-- A machine for all operations on local files. -/
def anyhowMachine : @Machine plain Files (anyhow (fileHost fun _ _ => True)) where
  enable _ _ := true
  truncate := id
  install files _ _ := files
  check _ _ _ _ _ := true
  enabled _ _ _ := trivial
  truncated _ := trivial
  installed _ _ _ := trivial
  ticks _ _ := trivial
  checked _ _ _ _ _ _ := trivial

/-- The answers for a database without tables. -/
def withoutTables {W : Type} (answer : W → (c : Call) → Option (c.Reply × W)) (w : W) :
    (c : Call) → Option (c.Reply × W)
  | .queryMaster _ => some (.error "Query returned no rows", w)
  | c => answer w c

/-- After a sync the application drops its last table, and a checkpoint gets no row after its
`BEGIN`. -/
theorem exists_dropped : ∃ m w db,
    (((anyhow (fileHost fun _ _ => True)).setting plainConfig).observed fun _ => sqlite).Reach
      (.idle none (⟨∅, ⟨some dbFile, none⟩, 1000, []⟩, ⟨fun _ => false, false⟩))
      (.idle (some m) (w, db)) ∧
    0 < m.stats.syncCount ∧ m.hasReadTransaction = false ∧ db.inTransaction m.readConn = true := by
  let R : Regime plain Files := anyhow (fileHost fun _ _ => True)
  let M : Machine R := anyhowMachine
  let w₀ : World Files := ⟨∅, ⟨some dbFile, none⟩, 1000, []⟩
  let grow : Machine.Cue R :=
    .move (fun files => { files with wal := some (walHeader 7 ++ walFrame 1) })
      (fun _ => ⟨_, _, trivial, .inl rfl, rfl⟩)
  have served : ∀ (s : Manager plain) (w : World Files) (c : Call) (reply : c.Reply) (w' : World Files),
      withoutTables (M.answer plainConfig .checkpoint s fun _ => false) w c = some (reply, w') →
        (R.env plainConfig .checkpoint s).serve w c reply w' := by
    intro s w c reply w' answered
    cases c with
    | queryMaster conn =>
      cases answered
      exact ⟨w.app, trivial, trivial, rfl⟩
    | _ => exact Machine.answer_served plainConfig M answered
  have played : ((M.playBeside plainConfig (fun _ => sqliteNotes) [.well .new, grow, .well .syncWal]
      (none, w₀, ⟨fun _ => false, false⟩)).bind fun conf =>
      (((process plainConfig).body .checkpoint conf.1).interp
        (sqliteNotes.beside
          (withoutTables (M.answer plainConfig .checkpoint conf.1 fun _ => false))) conf.2).map
        fun done => (conf, done)).any (fun run => run.2.1.2.any fun m =>
          0 < m.stats.syncCount ∧ m.hasReadTransaction = false ∧
            run.2.2.2.inTransaction m.readConn = true) = true := by
    decide +kernel
  obtain ⟨⟨⟨s, v⟩, ⟨r, s'⟩, w, db⟩, found, checked⟩ := (Option.any_eq_true _ _).mp played
  obtain ⟨conf, first, rest⟩ := Option.bind_eq_some_iff.mp found
  obtain ⟨done, second, same⟩ := Option.map_eq_some_iff.mp rest
  cases same
  obtain ⟨m, rfl, forgotten⟩ := (Option.any_eq_true _ _).mp checked
  have run : ((R.setting plainConfig).observed fun _ => sqlite).Reach
      (.idle s v) (.running .checkpoint s v (.pure (r, some m)) (w, db)) :=
    Setting.Reach.of_interp (show (R.setting plainConfig).enabled .checkpoint s v.1 from trivial)
      (fun _ _ _ _ answered => sqliteNotes.beside_served (served s) answered) second
  exact ⟨m, w, db, (Machine.playBeside_reach first).trans run.finish, of_decide_eq_true forgotten⟩

/-- After every operation the flag is right and the transaction can be resumed exactly when
no `COMMIT` and no `SELECT` has failed since the manager was opened. -/
theorem flag_truthful_iff (R : Regime pf A) {w₀ w : World A} {db₀ db : Sqlite}
    {m : BackupManager pf.build}
    (run : ((R.setting config).observed fun _ => sqlite).Reach
      (.idle none (w₀, db₀)) (.idle (some m) (w, db))) :
    (Truthful m db ∧ Resumes m db) ↔ db.slipped = false := by
  have agrees : Agrees m db :=
    (agreeing_kept config R).reach run (show Agreeing none db₀ from Manager.unopened) m rfl
  rw [and_iff_left_of_imp Truthful.resumes]
  exact agrees.truthful_iff

theorem flag_truthful_iff_dropped : ∃ m w db,
    (((anyhow (fileHost fun _ _ => True)).setting plainConfig).observed fun _ => sqlite).Reach
      (.idle none (⟨∅, ⟨some dbFile, none⟩, 1000, []⟩, ⟨fun _ => false, false⟩))
      (.idle (some m) (w, db)) ∧
    0 < m.stats.syncCount ∧ ((Truthful m db ∧ Resumes m db) ↔ db.slipped = false) := by
  obtain ⟨m, w, db, run, synced, -, -⟩ := exists_dropped
  exact ⟨m, w, db, run, synced, flag_truthful_iff plainConfig _ run⟩

/-- A checkpoint leaves the connection in a transaction that its manager takes for ended. -/
theorem not_staysTruthful : ¬ StaysTruthful plainConfig (anyhow (fileHost fun _ _ => True)) := by
  obtain ⟨m, w, db, run, -, released, inside⟩ := exists_dropped
  intro claim
  have flag : m.hasReadTransaction = true := (claim _ _ m w db run).1.mpr inside
  rw [flag] at released
  cases released

end Waloy.Spec
