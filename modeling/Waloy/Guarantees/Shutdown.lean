import Waloy.Guarantees.Pinned

/-!
# The release of the WAL at a shutdown

A shutdown ends with a `COMMIT`, whatever came of its last sync. A shutdown after a completed
one returns at once, and leaves a read transaction that was begun in between.
-/
namespace Waloy.Spec
open Waloy.Effect Waloy.Source Waloy.Source.BackupManager

variable {pf : Platform} (config : BackupConfig pf.build) {A : Type}

/-- The answers by which `BEGIN`, its `SELECT` and `COMMIT` succeed. -/
def transacts : (c : Call) → c.Reply → Bool
  | .executeBatch _ .begin, .error _ => false
  | .executeBatch _ .commit, .error _ => false
  | .queryMaster _, .error _ => false
  | _, _ => true

/-- The runs of all operations in which every other call may fail. -/
def closing (host : Host A) : Regime pf A where
  host := host
  enabled _ _ := True
  allows _ _ _ c reply := transacts c reply = true
  drift := idleMove host

/-- A shutdown that returns without an error leaves no read transaction. -/
def ReleasesForGood (R : Regime pf A) : Prop :=
  ∀ w₀ m start answer m' w,
    R.Reach config (.idle none w₀)
      (.running .shutdown (some m) start (.pure (.ok answer, some m')) w) →
    m'.hasReadTransaction = false

/-- Every call of these runs succeeds. -/
def closingMachine : Machine (closing (fileHost fun _ _ => True) : Regime plain Files) where
  enable _ _ := true
  truncate := id
  install files _ _ := files
  check _ _ _ c reply := transacts c reply
  enabled _ _ _ := trivial
  truncated _ := trivial
  installed _ _ _ := trivial
  ticks _ _ := trivial
  checked _ _ _ _ _ checked := checked

/-- A shutdown after some operations, and what is computed of it. -/
theorem exists_shutdown (requests : List Request)
    (check : BackupManager plain.build → BackupManager plain.build → Bool)
    (played : (closingMachine.call plainConfig (requests.map (.perform · fun _ => false)) .shutdown
      (fun _ => false) (none, ⟨∅, ⟨some dbFile, none⟩, 1000, []⟩)).any (fun out =>
        out.2.1.1.isOk && out.1.1.any fun m => out.2.1.2.any fun m' => check m m') = true) :
    ∃ w₀ m start answer m' w, (closing (fileHost fun _ _ => True)).Reach plainConfig (.idle none w₀)
      (.running .shutdown (some m) start (.pure (.ok answer, some m')) w) ∧ check m m' = true := by
  obtain ⟨s, start, ⟨result, s'⟩, w, run, checked⟩ := Machine.exists_call played
  obtain ⟨returned, opened⟩ := Bool.and_eq_true_iff.mp checked
  obtain ⟨m, rfl, kept⟩ := (Option.any_eq_true _ _).mp opened
  obtain ⟨m', rfl, checked⟩ := (Option.any_eq_true _ _).mp kept
  cases result with
  | ok answer => exact ⟨_, m, start, answer, m', w, run, checked⟩
  | error e => cases returned

/-- A checkpoint after the shutdown begins a read transaction, and the second shutdown
leaves it. -/
theorem not_releasesForGood : ¬ ReleasesForGood plainConfig (closing (fileHost fun _ _ => True)) := by
  obtain ⟨w₀, m, start, answer, m', w, run, holds⟩ :=
    exists_shutdown [.new, .shutdown, .checkpoint] (fun _ m' => m'.hasReadTransaction)
      (by decide +kernel)
  intro claim
  have released : m'.hasReadTransaction = false := claim w₀ m start answer m' w run
  rw [released] at holds
  cases holds

section
variable {config} {serve : Server Calls (World A)} {w : World A} {m : BackupManager pf.build}

/-- After its `COMMIT`, or without one, a manager holds no transaction. -/
theorem wp_endReadTransaction_released :
    Op.wp serve anyCall (endReadTransaction pf) (fun _ m' _ => m'.hasReadTransaction = false)
      (fun _ _ _ => True) m w := by
  unfold endReadTransaction
  simp only [Op.wp_bind, Op.wp_get]
  refine Op.wp_ite (fun _ => ?_) fun released => ?_
  · exact fun reply w' _ => ⟨trivial, rfl⟩
  · simpa using released

/-- A shutdown leaves the manager with the read transaction that it finds after a completed
shutdown, and with none otherwise. -/
theorem wp_shutdown_released :
    Op.wp serve anyCall (shutdown pf)
      (fun _ m' _ => m'.hasReadTransaction = (m.shutdownComplete && m.hasReadTransaction))
      (fun _ _ _ => True) m w := by
  unfold shutdown
  simp only [Op.wp_bind, Op.wp_get]
  refine Op.wp_ite (fun completed => ?_) fun fresh => ?_
  · simp [completed]
  · have first : (m.shutdownComplete && m.hasReadTransaction) = false := by simp [fresh]
    rw [first]
    have ends : ∀ m₁ (w₁ : World A), Op.wp serve anyCall (do
        endReadTransaction pf
        modify fun self => { self with shutdownComplete := true })
        (fun _ m' _ => m'.hasReadTransaction = false) (fun _ _ _ => True) m₁ w₁ := by
      intro m₁ w₁
      simp only [Op.wp_bind, Op.wp_modify]
      exact wp_endReadTransaction_released
    simp only [Op.wp_bind, Op.wp_attempt]
    refine Prog.wp_mono (fun _ _ _ _ served => served) (fun _ _ _ _ _ => trivial) ?_ _ _
      (Prog.wp_trivial (syncWal pf m) w)
    rintro ⟨result, m₁⟩ w₁ -
    cases result with
    | ok found => simpa only [Op.wp_bind] using ends m₁ w₁
    | error e => simpa only [Op.wp_bind, Op.wp_modify] using ends _ w₁

end

/-- The read transaction that a shutdown from a state leaves when it returns. -/
def Leaves (m : BackupManager pf.build) (out : Except Error Answer × Manager pf) : Prop :=
  ∀ answer m', out = (.ok answer, some m') →
    m'.hasReadTransaction = (m.shutdownComplete && m.hasReadTransaction)

/-- What a shutdown returns with. -/
def releasing : Setting.Invariant (C := process config) (W := World A) where
  idle _ _ := True
  result q s _ result s' _ := q = .shutdown → ∀ m, s = some m → Leaves m (result, s')

theorem wp_shutdown_leaves {serve : Server Calls (World A)} {w : World A}
    {m : BackupManager pf.build} :
    (method (fun _ => .unit) (shutdown pf) m).wp serve anyCall (fun out _ => Leaves m out) w := by
  rw [wp_method]
  refine Op.wp_mono wp_shutdown_released ?_ ?_
  · rintro ⟨⟩ m₁ w₁ released answer m' same
    cases same
    exact released
  · rintro e m₁ w₁ - answer m' same
    cases same

theorem releasing_kept (R : Regime pf A) : (releasing config).Kept (R.setting config) := by
  constructor
  case entered => exact fun _ _ => trivial
  case stays => exact fun _ _ _ => trivial
  case drift => exact fun _ _ => trivial
  case body =>
    intro q s w _ _
    by_cases closes : q = .shutdown ∧ s.isSome
    · obtain ⟨rfl, opened⟩ := closes
      obtain ⟨m, rfl⟩ := Option.isSome_iff_exists.mp opened
      refine Prog.wp_mono (fun _ _ _ _ served => served) (fun _ _ _ _ _ => trivial) ?_ _ _
        wp_shutdown_leaves
      intro out w' leaves _
      refine ⟨fun _ m' same => ?_, trivial⟩
      cases same
      exact leaves
    · refine Prog.wp_mono (fun _ _ _ _ served => served) (fun _ _ _ _ _ => trivial) ?_ _ _
        (Prog.wp_trivial _ w)
      intro out w' _ _
      refine ⟨fun same m opened => absurd ⟨same, ?_⟩ closes, trivial⟩
      rw [opened]
      rfl

/-- A shutdown leaves no read transaction exactly where none was begun again after a
completed shutdown. -/
theorem shutdown_releases_iff {host : Host A} {w₀ start w : World A} {m m' : BackupManager pf.build}
    {answer : Answer} (run : (closing host).Reach config (.idle none w₀)
      (.running .shutdown (some m) start (.pure (.ok answer, some m')) w)) :
    m'.hasReadTransaction = false ↔
      ¬ (m.shutdownComplete = true ∧ m.hasReadTransaction = true) := by
  have returned := (releasing_kept config (closing host)).returned run trivial
  have leaves : Leaves m (.ok answer, some m') := returned.1 rfl m rfl
  rw [leaves answer m' rfl]
  simp

/-- The first shutdown, after a checkpoint. -/
theorem shutdown_releases_plain : ∃ w₀ m start answer m' w,
    (closing (fileHost fun _ _ => True)).Reach plainConfig (.idle none w₀)
      (.running .shutdown (some m) start (.pure (.ok answer, some m')) w) ∧
    m'.hasReadTransaction = false := by
  obtain ⟨w₀, m, start, answer, m', w, run, fresh⟩ :=
    exists_shutdown [.new, .checkpoint] (fun m _ => !m.shutdownComplete) (by decide +kernel)
  refine ⟨w₀, m, start, answer, m', w, run, (shutdown_releases_iff plainConfig run).mpr ?_⟩
  rintro ⟨completed, -⟩
  rw [completed] at fresh
  cases fresh

end Waloy.Spec
