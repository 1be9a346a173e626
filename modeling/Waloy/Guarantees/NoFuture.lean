import Waloy.Guarantees.FailedReads
import Waloy.Guarantees.Representation
import Waloy.Spec.Merging

/-!
# A point in time does not show what was read later

A segment that is uploaded and not listed for good gets its index used again, and a
snapshot that is uploaded without its manifest keeps the older time. Where no upload but
that of a segment is given up, a restore to a time writes what was read by then.
-/
namespace Waloy.Spec
open Waloy.Effect Waloy.Source Waloy.Source.BackupManager

variable {pf : Platform} (config : BackupConfig pf.build) {A : Type}

/-- The runs of all operations but retention and shutdown in which the bucket may fail. -/
def outages (host : Host A) : Regime pf A where
  host := host
  enabled q _ := q ≠ .enforceRetention ∧ q ≠ .shutdown
  allows _ _ _ c reply := onlyBucketFails c reply ∧ uploadsWell config c
  drift := idleMove host

/-- A restore to a time that returns, whatever fails in it, has written what was read of the
database file by then, and bytes that were read of the WAL file, each at its place, by then. -/
def NoFuture (l : Ledger) : Prop :=
  ∀ T targetPath l', Op.Runs (unreliable l.bucket)
      (restoreToTimeWithConfig pf config targetPath T) () ⟨[], []⟩ (.ok ()) () l' →
    ∃ restored, written targetPath l'.files = some restored ∧
      l.account.Saw config.dbPath T restored.snapshot ∧
      l.account.SawAt (walPathOf config) T 0 restored.wal

/-- In every run of an empty bucket beside an observer, no restore shows the future. -/
def NeverShowsFuture (host : Host A) (observe : Request → Server Calls Account) : Prop :=
  ∀ w₀ time s w acc, w₀.bucket = ∅ →
    (((outages config host).setting config).observed observe).Reach
      (.idle none (w₀, ⟨time, [], 0⟩)) (.idle s (w, acc)) →
    NoFuture config ⟨w.bucket, acc⟩

/-- What a process has uploaded is attested, and so is what its manager remembers. -/
def Vouching (s : Manager pf) (l : Ledger) : Prop :=
  AllAttested config l ∧ ∀ m, s = some m → Vouched config m l

/-- The bucket and the account of a world. -/
def ledger (v : World A × Account) : Ledger := ⟨v.1.bucket, v.2⟩

section
variable {config} {host : Host A} {l : Ledger}

theorem AllAttested.noFuture (all : AllAttested config l) : NoFuture config l := by
  intro T targetPath l' run
  obtain ⟨generation, keys, snapshot, wal, selected, snap, held, files⟩ := runs_restoreInner rfl run
  obtain ⟨manifest, chosen, same⟩ := Option.map_eq_some_iff.mp selected
  cases same
  obtain ⟨fetched, old⟩ := selectManifest_mem chosen
  obtain ⟨key, read⟩ := mem_readable.mp (readableBut_subset fetched)
  refine ⟨⟨snapshot, wal⟩, ?_, ?_⟩
  · rw [files, written_overwritten held]
  · rw [keysData_segments] at held
    exact all.rebuilt read old snap held

/-- Every operation keeps what is attested. -/
theorem wp_body_attested (codec : Codec config) {q : Request}
    (among : q ≠ .enforceRetention ∧ q ≠ .shutdown) (s : Manager pf) (l : Ledger)
    (h : Vouching config s l) :
    ((process config).body q s).wp (ledgerServer config q) anyCall
      (fun out l' => Vouching config out.2 l') l := by
  have opens : (opening config).wp (ledgerServer config q) anyCall
      (fun out l' => Vouching config out.2 l') l := by
    refine (wp_opening config).mpr (Op.wp_mono (wp_new_attested codec h.1) ?_ ?_)
    · rintro m - l' vouched
      exact ⟨vouched.all, fun _ same => Option.some.inj same ▸ vouched⟩
    · intro e _ l' all
      exact ⟨all, Manager.unopened⟩
  have calls : ∀ {α : Type} (answer : α → Answer) (x : Method pf α) (m : BackupManager pf.build),
      s = some m → Op.Keeps (ledgerServer config q) (Vouched config) x →
      (method answer x m).wp (ledgerServer config q) anyCall
        (fun out l' => Vouching config out.2 l') l := by
    intro α answer x m same kept
    have kept_on : ∀ {m' l'}, Vouched config m' l' → Vouching config (some m') l' := fun vouched =>
      ⟨vouched.all, fun _ same => Option.some.inj same ▸ vouched⟩
    exact (wp_method answer x m).mpr (Op.wp_mono (kept m l (h.2 m same)) (fun _ _ _ => kept_on)
      fun _ _ _ => kept_on)
  cases s with
  | none =>
    cases q with
    | new => exact opens
    | _ => trivial
  | some m =>
    cases q with
    | new => exact opens
    | syncWal => exact calls _ _ m rfl (keeps_syncWal_attested codec (by simp))
    | snapshot => exact calls _ _ m rfl (keeps_snapshot_attested codec (by simp))
    | checkpoint => exact calls _ _ m rfl (keeps_checkpoint_attested codec (by simp))
    | maybeSnapshot => exact calls _ _ m rfl (keeps_maybeSnapshot_attested codec (by simp))
    | compact => exact calls _ _ m rfl (keeps_compact_attested codec (by simp) _ _)
    | enforceRetention => exact absurd rfl among.1
    | shutdown => exact absurd rfl among.2

theorem vouching_kept (codec : Codec config) :
    Setting.Invariant.Kept (C := process config) (W := World A × Account)
      { idle := fun s v => Vouching config s (ledger v) }
      (((outages config host).setting config).observed (insist config)) where
  entered _ _ := trivial
  stays _ _ _ := trivial
  drift := by
    rintro s ⟨w, acc⟩ ⟨_, acc'⟩ vouching ⟨⟨a, t, -, -, rfl⟩, same⟩
    obtain rfl : acc' = acc := same
    exact vouching
  body := by
    intro q s v among vouching
    have served : ∀ v c reply v',
        (((outages config host).env config q s).serve.beside (insist config q)) v c reply v' →
        ledgerServer config q (ledger v) c reply (ledger v') := by
      rintro v c reply v' ⟨⟨a, -, allowed, acts⟩, insists⟩
      exact ⟨acts.bucketed, allowed.1, allowed.2, insists⟩
    refine Prog.wp_mono (fun _ _ _ _ h => h) (fun _ _ _ _ _ => trivial) ?_ _ _
      (Prog.wp_view served _ v (wp_body_attested codec among s (ledger v) vouching))
    exact fun _ _ kept _ => ⟨trivial, kept⟩

end

/-- No restore to a time shows what was read later, where no upload but that of a segment is
given up by an operation other than `new`. -/
theorem future_unseen (codec : Codec config) (host : Host A) :
    NeverShowsFuture config host (insist config) := by
  intro w₀ time s w acc empty run
  have fresh : Vouching config (none : Manager pf) (ledger (w₀, ⟨time, [], 0⟩)) := by
    refine ⟨?_, Manager.unopened⟩
    rintro key manifest ⟨-, raw, present, -⟩
    change w₀.bucket.lookup _ = some raw at present
    rw [empty, AList.lookup_empty] at present
    cases present
  exact ((vouching_kept codec).reach run fresh).1.noFuture

theorem future_unseen_plain :
    NeverShowsFuture plainConfig (fileHost fun t t' => t < t') (insist plainConfig) :=
  future_unseen plainConfig plain_codec _

/-- Time passes when a file is read. -/
def sightingNotes : Notes Account.keep where
  note acc c reply :=
    let time := match c, reply with
      | .systemTime, reply => reading reply
      | .readFile _, _ => acc.time + 1
      | _, _ => acc.time
    ⟨time, Account.sighted time c reply ++ acc.sightings, Account.deniedAfter acc.denied c reply⟩
  check acc c reply := match c, reply with
    | .systemTime, reply => acc.time ≤ reading reply
    | _, _ => true
  noted acc c reply checked := by
    refine ⟨?_, ?_, rfl, rfl⟩
    · cases c with
      | systemTime => exact of_decide_eq_true checked
      | readFile => exact Nat.le_succ _
      | _ => exact Nat.le_refl _
    · cases c with
      | systemTime => rfl
      | _ => trivial

/-- The bucket may fail, where the uploads are to some objects only. -/
def outage (objects : List Object) (w : World A) : (c : Call) → c.Reply → Bool
  | .putObject key data, _ => faultlessly objects w (.putObject key data) (.ok ())
  | .getObject _, _ | .deleteObject _, _ | .list _, _ => true
  | .tryExists _, reply => reply.isOk
  | .readFile _, reply => reply.isOk
  | .writeFile _ _, reply => reply.isOk
  | .syncFile _, reply => reply.isOk
  | .openConn _, reply => reply.isOk
  | .executeBatch _ _, reply => reply.isOk
  | .queryMaster _, reply => reply.isOk
  | _, _ => true

theorem outage_sound {objects : List Object} {w : World A} {c : Call} {reply : c.Reply}
    (counted : ∀ o ∈ objects, ∀ generation index, o = .segment generation index → index + 1 < 2 ^ 32)
    (h : outage objects w c reply = true) : onlyBucketFails c reply ∧ uploadsWell plainConfig c := by
  cases c with
  | putObject key data =>
    have taken : faultlessly objects w (.putObject key data) (.ok ()) = true := h
    exact ⟨.inl rfl, (faultlessly_sound counted taken).2⟩
  | getObject | deleteObject | list => exact ⟨.inl rfl, trivial⟩
  | tryExists | readFile | writeFile | syncFile | openConn | executeBatch | queryMaster =>
    cases reply with
    | error => cases h
    | ok => exact ⟨.inr id, trivial⟩
  | _ => exact ⟨.inr id, trivial⟩

/-- A segment whose manifest does not get through is written again at its index, with a
frame that was written later. -/
theorem not_future_unseen :
    ¬ NeverShowsFuture plainConfig (fileHost fun t t' => t < t') fun _ => Account.keep := by
  let host : Host Files := fileHost fun t t' => t < t'
  let objects : List Object :=
    [.latest, .snapshot (uuid 0), .manifest (uuid 0), .segment (uuid 0) 0]
  let M : Machine (outages plainConfig host) :=
    { enable := fun q _ => q ≠ .enforceRetention ∧ q ≠ .shutdown
      truncate := id
      install := fun files _ _ => files
      check := fun _ _ => outage objects
      enabled := fun _ _ => of_decide_eq_true
      truncated := fun _ => trivial
      installed := fun _ _ _ => trivial
      ticks := fun t _ => Nat.lt_succ_self t
      checked := fun _ _ _ _ _ => outage_sound (by
        intro o among generation index same
        have small : objects.all isCounted = true := rfl
        have counted := List.all_eq_true.mp small o among
        rw [same] at counted
        exact of_decide_eq_true counted) }
  let w₀ : World Files := ⟨∅, ⟨some dbFile, none⟩, 0, []⟩
  let grow (frames : Bytes) : Machine.Cue (outages plainConfig host) :=
    .move (fun files => { files with wal := some (walHeader 7 ++ frames) })
      (fun _ => ⟨_, _, trivial, .inl rfl, rfl⟩)
  let unlisted : Machine.Cue (outages plainConfig host) :=
    .perform .syncWal (isPutTo (objectKey plainConfig (.manifest (uuid 0))))
  have played : ((M.playBeside plainConfig (fun _ => sightingNotes)
      [.well .new, grow (walFrame 1), unlisted, grow (walFrame 1 ++ walFrame 2), .well .syncWal]
      (none, w₀, ⟨0, [], 0⟩)).bind fun conf =>
      (Op.interp (grudging conf.2.1.bucket fun _ => false)
        (restoreToTimeWithConfig plain plainConfig ['t'] 3) () ⟨[], []⟩).map
        fun done => (conf, done)).any (fun run =>
      run.2.1.1.toOption = some () ∧
        (written ['t'] run.2.2.files).any (fun restored => restored.wal[600]? = some 2) ∧
        run.1.2.2.sightings.all fun r => 3 < r.time ∨ r.data[600]? ≠ some 2) = true := by
    decide +kernel
  obtain ⟨⟨⟨s, w, acc⟩, ⟨r, ⟨⟩⟩, l'⟩, found, checked⟩ := (Option.any_eq_true _ _).mp played
  obtain ⟨conf, first, rest⟩ := Option.bind_eq_some_iff.mp found
  obtain ⟨done, second, same⟩ := Option.map_eq_some_iff.mp rest
  cases same
  obtain ⟨returned, shows, unseen⟩ := of_decide_eq_true checked
  obtain rfl := eq_ok_of_toOption returned
  intro claim
  obtain ⟨restored, wrote, -, saw⟩ := claim w₀ 0 s w acc rfl (Machine.playBeside_reach first) 3 ['t'] l'
    (Steps.of_interp (fun _ _ _ _ answered => grudging_served answered) _ _ second)
  rw [wrote] at shows
  obtain ⟨r, seen, -, recent, here⟩ := saw 600 2 (of_decide_eq_true shows)
  obtain late | other := of_decide_eq_true (List.all_eq_true.mp unseen r seen)
  · omega
  · rw [Nat.zero_add] at here
    exact other here

end Waloy.Spec
