import Waloy.Effect.Crash
import Waloy.Guarantees.RoundTrip

/-!
# Starting over heals

Calls may have failed, processes may have died, and the files may have been replaced: a snapshot
that goes through makes the bucket once more what the manager takes it for. It is the first
snapshot of a generation that nothing has been stored of, or it lists no segment any more, so
what became of earlier uploads does not matter. From there on the runs are those of the round trip.
-/
namespace Waloy.Spec
open Waloy.Effect Waloy.Source

variable {pf : Platform} (config : BackupConfig pf.build) {A : Type}

/-- The runs of all operations in which every call may fail. Between two operations the files may
change in any way; while one runs, the database file is the manager's. -/
def wreckedRuns (host : Host A) : Setting (process config) (World A) where
  enabled _ _ _ := True
  serve _ _ := (⟨{ host.undisturbed with dbPath := config.dbPath },
    fun _ c _ => decodesWell config c⟩ : Env A).serve
  drift _ w w' := ∃ a t, w' = { w with app := a, clock := t }

/-- The answers after which a snapshot has been taken. -/
def startsOver : Request → Answer → Bool
  | .new, _ => true
  | .snapshot, _ => true
  | .checkpoint, _ => true
  | .maybeSnapshot, answer => answer = .flag true
  | _, _ => false

/-- Whatever came before, after a snapshot that went through the backup can be relied on. -/
structure StartingOverHeals (host : Host A) : Prop where
  heals : ∀ {b a t q s start answer m w},
    (wreckedRuns config host).Lives none (.idle none ⟨b, a, t, []⟩)
      (.running q s start (.pure (.ok answer, some m)) w) →
    startsOver q answer = true → RestoresBackup config host (.idle (some m) (w, 0))

/-- A change that leaves every directory to its generation. -/
def KeepsTidy (b b' : Bucket) : Prop :=
  ∀ generation, Tidy config b generation → Tidy config b' generation

/-- The bucket holds what the manager remembers and the database file. -/
structure Mended (host : Host A) (h : Head) (w : World A) : Prop where
  mirrored : Mirrored config host h w
  saved : Saved config host h w

section
variable {config} {env : Env A} {host : Host A} {w w' : World A} {h h' : Head}

theorem tidy_retention : RetentionWatched config env (KeepsTidy config) w h where
  start _ := id
  deletes _ _ _ _ _ _ _ _ _ := ⟨fun _ => id, fun _ _ => ⟨fun _ => id, fun _ tidy => tidy.erase _,
    fun _ => id⟩⟩

theorem TidyLog.keeps {c : Call} {reply : c.Reply} (tidy : TidyLog config w)
    (served : env.serve w c reply w') (changed : KeepsTidy config w.bucket w'.bucket) :
    TidyLog config w' := by
  obtain ⟨a, moved, allowed, acts⟩ := served
  intro generation drawn
  obtain older | ⟨fresh, same⟩ := acts.drew drawn
  · exact changed generation (tidy generation older)
  · rw [same]
    exact tidy_of_fresh fresh

theorem ShutdownExit.logged (exit : ShutdownExit config env w h h' w')
    (drawn : .drew h.generation ∈ w.log) : .drew h'.generation ∈ w'.log := by
  cases exit with
  | already => exact drawn
  | closed sync => exact sync.logged drawn

theorem RetentionExit.logged (exit : RetentionExit config env w h w')
    (drawn : .drew h.generation ∈ w.log) : .drew h.generation ∈ w'.log := by
  cases exit with
  | off => exact drawn
  | ran => exact drawn

/-- The generation of an open manager has been drawn. -/
theorem Performed.logged {q : Request} {s s' : Manager pf} {r : Except Error Answer}
    (performed : Performed config env w q s r s' w')
    (idle : Holding config (fun h w => .drew h.generation ∈ w.log) s w) :
    Holding config (fun h w => .drew h.generation ∈ w.log) s' w' := by
  cases performed with
  | opened uses exit =>
    obtain ⟨generation, now, a, a', w₁, -, -, -, taken, -, rfl⟩ := exit.of_ok
    have drawn := taken.logged (by simp [Head.initial])
    exact .some uses drawn
  | unopened => exact .none _
  | synced uses exit => exact .some uses (exit.logged (idle _ rfl).2)
  | snapped uses exit => exact .some uses (exit.logged (idle _ rfl).2)
  | checkpointed uses exit => exact .some uses (exit.logged (idle _ rfl).2)
  | considered uses exit => exact .some uses (exit.logged (idle _ rfl).2)
  | compacted uses exit => exact .some uses (exit.logged (idle _ rfl).2)
  | retained uses exit => exact .some uses (exit.logged (idle _ rfl).2)
  | closed uses exit => exact .some uses (exit.logged (idle _ rfl).2)

/-! After a snapshot that went through the generation is as good as new. -/

section
variable (parses : Parses pf.libs) (inverts : env.Inverts config)
  (reads : ∀ a, env.host.db a = host.db a)
  (rests : ∀ {a a'}, env.host.during a a' → host.db a = host.db a')
include parses inverts reads rests

theorem SnapshotExit.mended (drawn : .drew h.generation ∈ w.log)
    (exit : SnapshotExit config env w h (.ok ()) h' w') {a : A}
    (moved : env.host.during w'.app a) : Mended config host h' { w' with app := a } := by
  have saved := (Saved.snapshot inverts reads rests exit).moved (rests moved) (t := w'.clock)
  have logged := exit.logged drawn
  refine ⟨?_, saved⟩
  cases exit with
  | done read moved sent ticks listed =>
    exact
      { published := published_withManifest _ _ _ _
        logged := logged
        listed := manifestAt_store (listed.decodes parses inverts)
        toAnchored := .start rfl rfl rfl }

theorem Regenerated.mended (exit : Regenerated config env w h (.ok ()) h' w') :
    Mended config host h' w' := by
  generalize hr : (Except.ok () : Except Error Unit) = r at exit
  cases exit with
  | mk moved fresh ticks exit pinned moved' =>
    obtain rfl | ⟨-, e, failed⟩ := pinned
    · subst hr
      have mended := exit.mended parses inverts reads rests (by simp [Head.begun]) moved'
      exact mended
    · cases hr.trans failed

theorem CheckpointExit.mended (exit : CheckpointExit config env w h (.ok ()) h' w') :
    Mended config host h' w' := by
  cases exit with
  | regenerated sync moved cut exit => exact exit.mended parses inverts reads rests

theorem IntervalExit.mended (exit : IntervalExit config env w h (.ok true) h' w') :
    Mended config host h' w' := by
  cases exit with
  | taken moved exit => exact exit.mended parses inverts reads rests

theorem OpeningExit.mended (exit : OpeningExit config env w (.ok h') w') :
    Mended config host h' w' := by
  obtain ⟨generation, now, a, a', w₁, -, -, -, taken, moved, rfl⟩ := exit.of_ok
  have mended := taken.mended parses inverts reads rests (by simp [Head.initial]) moved
  exact mended

/-- One case for each operation that takes a snapshot. -/
theorem Performed.mended {q : Request} {s : Manager pf} {m' : BackupManager pf.build}
    {answer : Answer} (performed : Performed config env w q s (.ok answer) (some m') w')
    (idle : Holding config (fun h w => .drew h.generation ∈ w.log) s w)
    (renewed : startsOver q answer = true) : Mended config host (head m') w' := by
  generalize hr : (Except.ok answer : Except Error Answer) = result at performed
  generalize hs : some m' = s' at performed
  cases performed with
  | opened uses exit =>
    cases hs
    exact exit.mended parses inverts reads rests
  | unopened => cases hr
  | synced => cases renewed
  | @snapped _ _ r _ uses exit =>
    cases hs
    cases r with
    | error e => cases hr
    | ok => exact exit.mended parses inverts reads rests (idle _ rfl).2 (env.host.during_refl _)
  | @checkpointed _ _ r _ uses exit =>
    cases hs
    cases r with
    | error e => cases hr
    | ok => exact exit.mended parses inverts reads rests
  | @considered _ _ r _ uses exit =>
    cases hs
    cases r with
    | error e => cases hr
    | ok taken =>
      cases hr
      obtain rfl : taken = true := by simpa [startsOver] using renewed
      exact exit.mended parses inverts reads rests
  | compacted => cases renewed
  | retained => cases renewed
  | closed => cases renewed

end

end

/-- What these runs keep, and what an operation that takes a snapshot leaves behind. -/
def wrecked (host : Host A) : Setting.Invariant (C := process config) (W := World A) where
  idle s w := TidyLog config w ∧ Holding config (fun h w => .drew h.generation ∈ w.log) s w
  always _ _ _ w := TidyLog config w
  guard _ _ _ := watch (KeepsTidy config)
  result q _ _ result s' w := ∀ answer m, result = .ok answer → s' = some m →
    startsOver q answer = true → Uses config m ∧ Mended config host (head m) w

section
variable {config}

theorem wrecked_kept (parses : Parses pf.libs) (host : Host A) :
    (wrecked config host.undisturbed.appending).Kept (wreckedRuns config host) where
  entered _ idle := idle.1
  stays tidy served changed := tidy.keeps served changed
  drift := by
    rintro s w _ ⟨tidy, idle⟩ ⟨a, t, rfl⟩
    exact ⟨tidy, idle⟩
  body := by
    intro q s w allowed ⟨tidy, idle⟩
    let env : Env A := ⟨{ host.undisturbed with dbPath := config.dbPath },
      fun _ c _ => decodesWell config c⟩
    have inverts : env.Inverts config := by
      rintro key data encoded ⟨w, reply, allowed⟩ notLatest encodes
      exact allowed notLatest data encodes
    have performs : ((process config).body q s).wp env.serve (watch (KeepsTidy config))
        (fun out w' => Performed config env w q s out.1 out.2 w') w := by
      by_cases hq : q = .enforceRetention
      · subst hq
        refine wp_process rfl (fun m hs => (idle m hs).1) ?_
        cases s with
        | none => trivial
        | some m => exact tidy_retention
      · have orderly : RequestWatched config env (Orderly config) w q s :=
          orderly_request hq fun m hs => tidy _ (idle m hs).2
        exact Prog.wp_mono (fun _ _ _ _ h => h) (fun _ _ _ _ step _ tidy => Orderly.tidy step tidy)
          (fun _ _ h => h) _ _ (wp_process rfl (fun m hs => (idle m hs).1) orderly)
    refine Prog.wp_mono (fun _ _ _ _ h => h) (fun _ _ _ _ h => h) ?_ _ _ performs
    rintro ⟨result, s'⟩ w' performed tidy'
    have logged := performed.logged idle
    refine ⟨?_, tidy', logged⟩
    rintro answer m rfl rfl renewed
    have reads : ∀ a, env.host.db a = host.undisturbed.appending.db a := fun _ => rfl
    have mended := performed.mended parses inverts reads (fun moved => moved.2) idle renewed
    exact ⟨(logged m rfl).1, mended⟩

theorem wrecked_survives (host : Host A) :
    (wrecked config host).Survives none where
  idle idle := ⟨idle.1, .none _⟩
  running tidy := ⟨tidy, .none _⟩

/-- After a snapshot that went through, the manager and the bucket agree. -/
theorem wrecked_mends (codec : Codec config) {host : Host A} {b : Bucket} {a : A} {t : Nat}
    {q : Request} {s : Manager pf} {start w : World A} {answer : Answer}
    {m : BackupManager pf.build}
    (life : (wreckedRuns config host).Lives none (.idle none ⟨b, a, t, []⟩)
      (.running q s start (.pure (.ok answer, some m)) w))
    (renewed : startsOver q answer = true) :
    (saving config host.undisturbed.appending).idle (some m) w := by
  have clean : (wrecked config host.undisturbed.appending).idle none
      (⟨b, a, t, []⟩ : World A) := by
    refine ⟨?_, .none _⟩
    intro generation drawn
    cases drawn
  have kept : (wrecked config host.undisturbed.appending).Kept (wreckedRuns config host) :=
    wrecked_kept codec.parses host
  have holds := kept.lives (wrecked_survives _) life clean
  have tidy : TidyLog config w := holds.1
  obtain ⟨result, -, -⟩ := holds.2 tidy
  obtain ⟨uses, mended⟩ := result answer m rfl rfl renewed
  refine ⟨⟨tidy, ?_⟩, trivial, ?_⟩
  · exact .some uses mended.mirrored
  · exact .some uses mended.saved

/-- After any failures, crashes and changes of the files, a snapshot that goes through is the
start of a backup that restores what is in the files, as long as nothing fails for good again. -/
theorem starting_over_heals (codec : Codec config) (host : Host A) :
    StartingOverHeals config host where
  heals life renewed := restores_onwards codec (wrecked_mends codec life renewed)

theorem starting_over_heals_plain :
    StartingOverHeals plainConfig (fileHost fun t t' => t ≤ t') :=
  starting_over_heals plain_codec _

end

end Waloy.Spec
