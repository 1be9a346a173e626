import Waloy.Effect.Automaton
import Waloy.Spec.Primitives

/-!
# Four attempts, with longer and longer pauses

Whatever it is answered, a manager tries a call of the bucket in a series of no more than four
attempts, waits 100, 200 and 400 milliseconds in between, and does nothing else until the call
succeeds or is given up. It does not sleep otherwise. A call that was given up may be made again
at once, by the next operation say; that begins a series of its own, without a pause before it.
-/
namespace Waloy.Spec
open Waloy.Effect Waloy.Source Waloy.Source.BackupManager

variable {pf : Platform} (config : BackupConfig pf.build)

/-- Where the attempts at a call of the bucket stand. -/
inductive Attempts where
  /-- The last call, if it was one of the bucket, succeeded. -/
  | settled
  | failed (c : Call) (times : Nat)
  | paused (c : Call) (times : Nat)
  deriving DecidableEq

namespace Attempts

/-- A call of the bucket that failed. -/
def refused : (c : Call) → c.Reply → Bool
  | .putObject _ _, .error _ | .getObject _, .error _ | .deleteObject _, .error _
  | .list _, .error _ => true
  | _, _ => false

def note (state : Attempts) (c : Call) (reply : c.Reply) : Attempts :=
  if refused c reply then
    match state with
    | .paused _ times => .failed c (times + 1)
    | _ => .failed c 1
  else
    match c, state with
    | .sleep _, .failed c' times => .paused c' times
    | _, _ => .settled

/-- A call that the attempts so far permit. -/
def Permits : Attempts → Call → Prop
  | .settled, c => ∀ ms, c ≠ .sleep ms
  | .failed _ times, c =>
    if times ≤ maxRetries then c = .sleep (retryBaseDelayMs * 2 ^ (times - 1))
    else ∀ ms, c ≠ .sleep ms
  | .paused c' _, c => c = c'

/-- Nothing is to be tried again. -/
def Idle : Attempts → Prop
  | .settled => True
  | .failed _ times => maxRetries < times
  | .paused _ _ => False

/-- The calls that a patient manager makes. -/
def patience : Automaton Calls Attempts where
  note := note
  Permits := Permits

end Attempts

/-- At every point of every run, the next call is permitted, and so it is in a restore. A series of
attempts is what its pauses join: after the last attempt the same call is permitted again. -/
structure BacksOff : Prop where
  process : ∀ {q s start c next state},
    (Attempts.patience.runs (process config)).Reach (.idle none .settled)
      (.running q s start (.call c next) state) →
    state.Permits c
  restore : ∀ {targetPath targetTime c next state},
    Steps Attempts.patience.serve (restoreInner pf config targetPath targetTime (), .settled)
      (.call c next, state) → state.Permits c

section
variable {σ α : Type} {x : M σ α} {c : Call} {result : c.Reply → Except Error α} {state : Attempts}

theorem Attempts.Idle.permits (idle : state.Idle) (awake : ∀ ms, c ≠ .sleep ms) :
    state.Permits c := by
  cases state with
  | settled => exact awake
  | failed c' times =>
    rw [Permits, if_neg (Nat.not_le.mpr idle)]
    exact awake
  | paused => exact idle.elim

/-- After a failure that is not the last one comes the pause. -/
theorem Attempts.permits_pause {n : Nat} (few : n + 1 ≤ maxRetries) :
    Permits (.failed c (n + 1)) (.sleep (retryBaseDelayMs * 2 ^ n)) := by
  rw [Permits, if_pos few, Nat.add_sub_cancel]

theorem Attempts.note_own {reply : c.Reply} (own : isOwnCall c = true) :
    state.note c reply = .settled := by
  cases c with
  | sleep | putObject | getObject | deleteObject | list => cases own
  | _ => rfl

theorem Attempts.note_success {reply : c.Reply} (bucket : isBucketCall c = true)
    (success : ¬ Failure c reply) : state.note c reply = .settled := by
  cases c with
  | putObject | getObject | deleteObject | list => cases reply with
    | ok => rfl
    | error e => exact absurd trivial success
  | _ => cases bucket

theorem Attempts.refused_of_failure {reply : c.Reply} (bucket : isBucketCall c = true)
    (failure : Failure c reply) : refused c reply = true := by
  cases c with
  | putObject | getObject | deleteObject | list => cases reply with
    | ok => cases failure
    | error e => rfl
  | _ => cases bucket

/-- The attempts before the one that some failures precede. -/
def Attempts.Before (c : Call) (state : Attempts) : Nat → Prop
  | 0 => state.Idle
  | times + 1 => state = .paused c (times + 1)

theorem Attempts.Before.permits {n : Nat} (before : state.Before c n)
    (awake : ∀ ms, c ≠ .sleep ms) : state.Permits c := by
  cases n with
  | zero => exact Attempts.Idle.permits before awake
  | succ n =>
    obtain rfl : state = _ := before
    rfl

theorem Attempts.Before.failed {n : Nat} {reply : c.Reply} (before : state.Before c n)
    (refused : refused c reply = true) : state.note c reply = .failed c (n + 1) := by
  unfold note
  rw [if_pos refused]
  cases n with
  | zero =>
    cases state with
    | settled | failed => rfl
    | paused => exact before.elim
  | succ n =>
    obtain rfl : state = _ := before
    rfl

/-- One attempt settles the call or counts as a failure. -/
theorem Attempted.tried (attempted : Attempted x c result) {n : Nat} (before : state.Before c n)
    (s : σ) :
    Op.wp Attempts.patience.serve Attempts.patience.guard x (fun _ _ state' => state' = .settled)
      (fun _ s' state' => s' = s ∧ state' = .failed c (n + 1)) s state := by
  have bucket := attempted.bucket
  have awake : ∀ ms, c ≠ .sleep ms := by
    rintro ms rfl
    cases bucket
  unfold Op.wp
  rw [attempted.single s]
  rintro reply _ rfl
  refine ⟨before.permits awake, ?_⟩
  beta_reduce
  cases answered : result reply with
  | ok value => exact Attempts.note_success bucket (attempted.succeeded answered)
  | error e =>
    exact ⟨rfl, before.failed (Attempts.refused_of_failure bucket (attempted.failed answered))⟩

theorem Attempted.retries (attempted : Attempted x c result) {left n : Nat}
    (counted : left + n = maxRetries) (before : state.Before c n) (s : σ) :
    Op.wp Attempts.patience.serve Attempts.patience.guard (S3Client.retryFrom x left n)
      (fun _ _ state' => state'.Idle) (fun _ _ state' => state'.Idle) s state := by
  induction left generalizing n state s with
  | zero =>
    obtain rfl : n = maxRetries := by omega
    refine Op.wp_mono (attempted.tried before s) ?_ ?_
    · rintro _ _ _ rfl
      trivial
    · rintro _ _ _ ⟨-, rfl⟩
      exact Nat.lt_succ_self _
  | succ left ih =>
    rw [S3Client.retryFrom, Op.wp_bind, Op.wp_attempt]
    refine Op.wp_mono (attempted.tried before s) ?_ ?_
    · rintro _ _ _ rfl
      trivial
    rintro e _ _ ⟨rfl, rfl⟩
    simp only [Op.wp_bind]
    rintro ⟨⟩ _ rfl
    exact ⟨Attempts.permits_pause (c := c) (by omega), ih (n := n + 1) (by omega) rfl _⟩

/-- An operation that begins with nothing to be tried again ends so. -/
theorem Composed.patient (composed : Composed x) :
    Op.Secures Attempts.patience.serve Attempts.patience.guard (fun _ state => state.Idle) x := by
  refine Op.Made.secures ?_ composed
  intro σ α x primitive
  cases primitive with
  | own c own =>
    refine Op.secures_call fun s state reply state' idle served => ?_
    obtain rfl : state' = .settled := served.trans (Attempts.note_own own)
    refine ⟨idle.permits ?_, trivial⟩
    rintro ms rfl
    cases own
  | retried attempted => exact fun s state idle => attempted.retries (n := 0) rfl idle s

end

/-- Nothing is to be tried again between two operations. -/
theorem patience_accepts :
    Attempts.patience.Accepts (process config) fun _ state => state.Idle where
  body := by
    intro q s state _ idle
    obtain halts | ⟨σ, α, x, t, answer, composed, same⟩ := process_composed config q s
    · rw [halts]
      trivial
    · rw [same]
      refine (Prog.wp_bind _ _ _ _ _ _).mpr ?_
      refine Prog.wp_mono (fun _ _ _ _ h => h) (fun _ _ _ _ h => h) ?_ _ _
        (composed.patient t state idle)
      rintro ⟨e | value, t'⟩ state' idle'
      · exact idle'
      · exact idle'

/-- Every call can be answered. -/
theorem Call.answerable (c : Call) : Nonempty c.Reply := by
  cases c <;> exact ⟨default⟩

/-- No series of attempts at a call of the bucket has more than four, and its pauses double. -/
theorem backs_off : BacksOff config where
  process := (patience_accepts config).permitted Call.answerable trivial
  restore := by
    intro targetPath targetTime c next state steps
    obtain ⟨reply⟩ := Call.answerable c
    have promised :=
      (composed_restoreInner config targetPath targetTime).patient () .settled trivial
    exact (Steps.sound steps promised reply _ rfl).1

end Waloy.Spec
