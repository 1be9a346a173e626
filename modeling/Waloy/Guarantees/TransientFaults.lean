import Waloy.Spec.Primitives

/-!
# Failures that do not last

A call of the bucket that fails no more than three times in a row is tried again until it
succeeds. A run with such failures is, between two operations and when one returns, a run
without any: the same manager, the same bucket and the same result. A put or a delete may have
taken effect although it failed; what is done again changes nothing more.
-/
namespace Waloy.Spec
open Waloy.Effect Waloy.Source Waloy.Source.BackupManager

variable {pf : Platform} (config : BackupConfig pf.build) {A : Type}

/-- A failure of the bucket that tells nothing of its content. -/
def isTransient (b : Bucket) : (c : Call) → c.Reply → Bool
  | .putObject _ _, .error _ => true
  | .getObject key, .error _ => (b.lookup key).isSome
  | .deleteObject _, .error _ => true
  | .list _, .error _ => true
  | _, _ => false

/-- The number of such failures in a row; a pause between two attempts is none. -/
def streakAfter (b : Bucket) (streak : Nat) (c : Call) (reply : c.Reply) : Nat :=
  if isTransient b c reply then streak + 1
  else match c with
    | .sleep _ => streak
    | _ => 0

/-- The answers of an environment, and failures of the bucket of which no more than three
follow each other. -/
def Env.unsteady (env : Env A) : Server Calls (World A × Nat) := fun v c reply v' =>
  ∃ a, env.host.during v.1.app a ∧
    (if isTransient v.1.bucket c reply then v.2 < maxRetries
      else env.allows { v.1 with app := a } c reply) ∧
    Acts env.host { v.1 with app := a } c reply v'.1 ∧
    v'.2 = streakAfter v.1.bucket v.2 c reply

/-- The runs of some operations in which the bucket fails now and then. -/
def unsteadyRuns (ops : Request → Prop) (host : Host A) :
    Setting (process config) (World A × Nat) where
  enabled q _ _ := ops q
  serve q s := ((flawless config ops host).env config q s).unsteady
  drift _ v v' := idleMove host v.1 v'.1 ∧ v'.2 = v.2

/-- Between two operations, and when one returns, a run in which the bucket fails now and then
is a run in which it does not. -/
structure FailuresAbsorbed (ops : Request → Prop) (host : Host A) : Prop where
  between : ∀ {w s w' streak},
    (unsteadyRuns config ops host).Reach (.idle none (w, 0)) (.idle s (w', streak)) →
    (flawless config ops host).Reach config (.idle none w) (.idle s w')
  returned : ∀ {w q s start result s' w' streak},
    (unsteadyRuns config ops host).Reach (.idle none (w, 0))
      (.running q s start (.pure (result, s')) (w', streak)) →
    (flawless config ops host).Reach config (.idle none w)
      (.running q s start.1 (.pure (result, s')) w')

/-- What a call that failed may have done to the bucket. -/
def Effected (b : Bucket) (b' : Bucket) : Call → Prop
  | .putObject key data => b' = b ∨ b' = b.insert key data
  | .deleteObject key => b' = b ∨ b' = b.erase key
  | _ => b' = b

/-- The world in which a call is tried again. -/
def Awaiting (env : Env A) (w₀ : World A) (c : Call) (w : World A) : Prop :=
  ∃ a b, env.host.during w₀.app a ∧ Effected w₀.bucket b c ∧ w = { w₀ with app := a, bucket := b }

/-- What is allowed of a call of the bucket that succeeds depends on the call alone. -/
def Env.Indifferent (env : Env A) : Prop :=
  ∀ w w' c (reply : c.Reply), isBucketCall c = true → ¬ Failure c reply →
    env.allows w c reply → env.allows w' c reply

section
variable {σ α : Type} {x : M σ α} {c : Call} {result : c.Reply → Except Error α} {W : Type}
  {serve : Server Calls W} {s s' : σ} {w w' : W} {r : Except Error α}

theorem Attempted.runs (attempted : Attempted x c result) :
    Op.Runs serve x s w r s' w' ↔ ∃ reply, serve w c reply w' ∧ r = result reply ∧ s' = s := by
  rw [Op.Runs, attempted.single s, Prog.runs_call]
  refine exists_congr fun reply => ?_
  constructor
  · rintro ⟨w₁, served, rest⟩
    obtain ⟨same, rfl⟩ := Prog.runs_pure.mp rest
    exact ⟨served, Prod.mk.inj same⟩
  · rintro ⟨served, rfl, rfl⟩
    exact ⟨w', served, Prog.runs_pure.mpr ⟨rfl, rfl⟩⟩

/-- What succeeds at the first attempt is not tried again. -/
theorem Attempted.runs_first (attempted : Attempted x c result) {reply : c.Reply} {value : α}
    (served : serve w c reply w') (success : result reply = .ok value) :
    Op.Runs serve (S3Client.retry x) s w (result reply) s w' := by
  have runs : Op.Runs serve x s w (result reply) s w' :=
    attempted.runs.mpr ⟨reply, served, rfl, rfl⟩
  refine Op.runs_bind_attempt.mpr ⟨result reply, s, w', runs, ?_⟩
  rw [success]
  exact Op.runs_pure.mpr ⟨rfl, rfl, rfl⟩

end

theorem erase_again (b : Bucket) (key : Str) : (b.erase key).erase key = b.erase key :=
  AList.ext (List.kerase_of_notMem_keys
    (AList.mem_keys.not.mp fun h => (AList.mem_erase.mp h).1 rfl))

section
variable {env : Env A} {w₀ w w' : World A} {c : Call} {reply : c.Reply} {a : A} {n : Nat}

theorem Awaiting.refl (env : Env A) (w : World A) (c : Call) : Awaiting env w c w := by
  refine ⟨w.app, w.bucket, env.host.during_refl _, ?_, rfl⟩
  cases c with
  | putObject | deleteObject => exact .inl rfl
  | _ => rfl

theorem Awaiting.moved (pending : Awaiting env w₀ c w) (moved : env.host.during w.app a) :
    Awaiting env w₀ c { w with app := a } := by
  obtain ⟨a₀, b, moved₀, effected, rfl⟩ := pending
  exact ⟨a, b, env.host.during_trans moved₀ moved, effected, rfl⟩

/-- A failure leaves the call to be tried again. -/
theorem Awaiting.failed (bucket : isBucketCall c = true) (pending : Awaiting env w₀ c w)
    (failure : Failure c reply) (acts : Acts env.host w c reply w') : Awaiting env w₀ c w' := by
  obtain ⟨a₀, b, moved₀, effected, rfl⟩ := pending
  cases c with
  | putObject key data => cases reply with
    | ok => cases failure
    | error e =>
      obtain rfl | rfl := acts
      · exact ⟨a₀, b, moved₀, effected, rfl⟩
      · refine ⟨a₀, _, moved₀, .inr ?_, rfl⟩
        obtain rfl | rfl := effected
        · rfl
        · exact AList.insert_insert _
  | deleteObject key => cases reply with
    | ok => cases failure
    | error e =>
      obtain rfl | rfl := acts
      · exact ⟨a₀, b, moved₀, effected, rfl⟩
      · refine ⟨a₀, _, moved₀, .inr ?_, rfl⟩
        obtain rfl | rfl := effected
        · rfl
        · exact erase_again _ _
  | getObject key => cases reply with
    | ok => cases failure
    | error e =>
      cases acts
      exact ⟨a₀, b, moved₀, effected, rfl⟩
  | list keyPrefix => cases reply with
    | ok => cases failure
    | error e =>
      cases acts
      exact ⟨a₀, b, moved₀, effected, rfl⟩
  | _ => cases bucket

/-- A success ends in the world to which the first attempt would have led. -/
theorem Awaiting.succeeded (bucket : isBucketCall c = true) (pending : Awaiting env w₀ c w)
    (success : ¬ Failure c reply) (acts : Acts env.host w c reply w') :
    env.host.during w₀.app w.app ∧ Acts env.host { w₀ with app := w.app } c reply w' := by
  obtain ⟨a₀, b, moved₀, effected, rfl⟩ := pending
  refine ⟨moved₀, ?_⟩
  cases c with
  | putObject key data => cases reply with
    | error e => exact absurd trivial success
    | ok =>
      cases acts
      obtain rfl | rfl := effected
      · rfl
      · exact congrArg (fun b => World.mk b a₀ w₀.clock (.stored key :: w₀.log))
          (AList.insert_insert _)
  | deleteObject key => cases reply with
    | error e => exact absurd trivial success
    | ok =>
      cases acts
      obtain rfl | rfl := effected
      · rfl
      · exact congrArg (fun b => World.mk b a₀ w₀.clock w₀.log) (erase_again _ _)
  | getObject key => cases reply with
    | error e => exact absurd trivial success
    | ok data =>
      obtain rfl := (effected : b = w₀.bucket)
      exact acts
  | list keyPrefix => cases reply with
    | error e => exact absurd trivial success
    | ok pages =>
      obtain rfl := (effected : b = w₀.bucket)
      exact acts
  | _ => cases bucket

/-- The read of a key that is not there. -/
def Absent (b : Bucket) : Call → Prop
  | .getObject key => b.lookup key = none
  | _ => False

/-- A failure of a call that concerns what is there is transient. -/
theorem Awaiting.transient (bucket : isBucketCall c = true) (pending : Awaiting env w₀ c w)
    (present : ¬ Absent w₀.bucket c) (failure : Failure c reply) :
    isTransient w.bucket c reply = true := by
  obtain ⟨a₀, b, -, effected, rfl⟩ := pending
  cases c with
  | putObject | deleteObject | list => cases reply with
    | ok => cases failure
    | error e => rfl
  | getObject key => cases reply with
    | ok => cases failure
    | error e =>
      obtain rfl := (effected : b = w₀.bucket)
      exact Option.isSome_iff_ne_none.mpr present
  | _ => cases bucket

theorem transient_failure {b : Bucket} (h : isTransient b c reply = true) : Failure c reply := by
  cases c with
  | putObject | getObject | deleteObject | list => cases reply with
    | ok => cases h
    | error e => trivial
  | _ => cases h

theorem transient_bucketCall {b : Bucket} (h : isTransient b c reply = true) :
    isBucketCall c = true := by
  cases c with
  | putObject | getObject | deleteObject | list => rfl
  | _ => cases h

theorem not_transient_of_own {b : Bucket} (own : isBucketCall c = false) :
    isTransient b c reply = false := by
  rw [← Bool.not_eq_true]
  intro h
  rw [transient_bucketCall h] at own
  cases own

/-- What is served in a row of failures. -/
theorem unsteady_failed {v v' : World A × Nat} (h : isTransient v.1.bucket c reply = true)
    (served : env.unsteady v c reply v') :
    v.2 < maxRetries ∧ v'.2 = v.2 + 1 ∧ ∃ a, env.host.during v.1.app a ∧
      Acts env.host { v.1 with app := a } c reply v'.1 := by
  obtain ⟨a, moved, allowed, acts, counted⟩ := served
  rw [if_pos h] at allowed
  unfold streakAfter at counted
  rw [if_pos h] at counted
  exact ⟨allowed, counted, a, moved, acts⟩

/-- What is served otherwise. -/
theorem unsteady_sound {v v' : World A × Nat} (h : isTransient v.1.bucket c reply = false)
    (served : env.unsteady v c reply v') :
    env.serve v.1 c reply v'.1 ∧ ((∀ ms, c ≠ .sleep ms) → v'.2 = 0) := by
  obtain ⟨a, moved, allowed, acts, counted⟩ := served
  rw [h, if_neg Bool.false_ne_true] at allowed
  unfold streakAfter at counted
  rw [h, if_neg Bool.false_ne_true] at counted
  refine ⟨⟨a, moved, allowed, acts⟩, fun awake => ?_⟩
  cases c with
  | sleep ms => exact absurd rfl (awake ms)
  | _ => exact counted

/-- A pause in a row of failures. -/
theorem unsteady_sleep {v v' : World A × Nat} {ms : Nat} {reply : Unit}
    (served : env.unsteady v (.sleep ms) reply v') :
    v'.2 = v.2 ∧ ∃ a, env.host.during v.1.app a ∧ v'.1 = { v.1 with app := a } := by
  obtain ⟨a, moved, -, acts, counted⟩ := served
  exact ⟨counted, a, moved, acts⟩

end

section
variable {env : Env A} {σ α : Type} {x : M σ α} {c : Call} {result : c.Reply → Except Error α}

/-- One of four attempts succeeds, as the first could have. -/
theorem Attempted.endures (attempted : Attempted x c result) (indifferent : env.Indifferent)
    {w₀ : World A} (present : ¬ Absent w₀.bucket c) {left n : Nat} {w : World A} {s s' : σ}
    {r : Except Error α} {v' : World A × Nat} (counted : left + n = maxRetries)
    (pending : Awaiting env w₀ c w)
    (run : Op.Runs env.unsteady (S3Client.retryFrom x left n) s (w, n) r s' v') :
    v'.2 = 0 ∧ s' = s ∧ ∃ reply value, env.serve w₀ c reply v'.1 ∧ result reply = .ok value ∧
      r = .ok value := by
  have bucket := attempted.bucket
  have awake : ∀ ms, c ≠ .sleep ms := by
    rintro ms rfl
    cases bucket
  -- an attempt that succeeds ends the row
  have succeeds : ∀ {n w reply value} {v' : World A × Nat}, Awaiting env w₀ c w →
      env.unsteady (w, n) c reply v' → result reply = .ok value →
      v'.2 = 0 ∧ env.serve w₀ c reply v'.1 := by
    intro n w reply value v' pending served success
    have sound := attempted.succeeded success
    have steady : isTransient w.bucket c reply = false := by
      rw [← Bool.not_eq_true]
      exact fun h => sound (transient_failure h)
    obtain ⟨⟨a, moved, allowed, acts⟩, zero⟩ := unsteady_sound steady served
    obtain ⟨moved', acts'⟩ := (pending.moved moved).succeeded bucket sound acts
    exact ⟨zero awake, a, moved', indifferent _ _ c reply bucket sound allowed, acts'⟩
  -- a failure counts, and the call stays to be tried
  have fails : ∀ {n w reply e} {v' : World A × Nat}, Awaiting env w₀ c w →
      env.unsteady (w, n) c reply v' → result reply = .error e →
      n < maxRetries ∧ v'.2 = n + 1 ∧ Awaiting env w₀ c v'.1 := by
    intro n w reply e v' pending served failed
    have failure := attempted.failed failed
    obtain ⟨few, next, a, moved, acts⟩ :=
      unsteady_failed (pending.transient bucket present failure) served
    exact ⟨few, next, (pending.moved moved).failed bucket failure acts⟩
  induction left generalizing n w with
  | zero =>
    obtain ⟨reply, served, rfl, rfl⟩ := attempted.runs.mp run
    cases answered : result reply with
    | error e =>
      obtain ⟨few, -, -⟩ := fails pending served answered
      omega
    | ok value =>
      obtain ⟨zero, served⟩ := succeeds pending served answered
      exact ⟨zero, rfl, reply, value, served, answered, rfl⟩
  | succ left ih =>
    obtain ⟨first, s₁, v₁, tried, rest⟩ := Op.runs_bind_attempt.mp run
    obtain ⟨reply, served, rfl, rfl⟩ := attempted.runs.mp tried
    cases answered : result reply with
    | ok value =>
      rw [answered] at rest
      obtain ⟨rfl, rfl, rfl⟩ := Op.runs_pure.mp rest
      obtain ⟨zero, served⟩ := succeeds pending served answered
      exact ⟨zero, rfl, reply, value, served, answered, rfl⟩
    | error e =>
      rw [answered] at rest
      obtain ⟨-, next, pending₁⟩ := fails pending served answered
      obtain ⟨_, v₂, slept, again⟩ := Op.runs_bind_call.mp rest
      obtain ⟨same, a, moved, later⟩ := unsteady_sleep slept
      obtain ⟨w₂, n₂⟩ := v₂
      obtain rfl : n₂ = n + 1 := same.trans next
      obtain rfl : w₂ = _ := later
      exact ih (by omega) (pending₁.moved moved) again

theorem Attempted.uses {allowed : Call → Prop} (attempted : Attempted x c result) (own : allowed c)
    (sleeps : ∀ ms, allowed (.sleep ms)) : Op.Uses allowed (S3Client.retry x) := by
  have once : Op.Uses allowed x := by
    intro s
    rw [attempted.single s]
    exact ⟨own, fun _ => trivial⟩
  suffices ∀ left attempt, Op.Uses allowed (S3Client.retryFrom x left attempt) from this _ _
  intro left
  induction left with
  | zero => exact fun _ => once
  | succ left ih =>
    intro attempt
    refine Op.uses_bind (Op.uses_attempt once) ?_
    rintro (_ | _)
    · exact Op.uses_bind (Op.uses_call (sleeps _)) fun _ => ih _
    · exact Op.uses_pure _

/-- What is missing is missing at every attempt, as in a bucket that does not fail. -/
theorem Attempted.misses (attempted : Attempted x c result) {w₀ : World A}
    (absent : Absent w₀.bucket c) {s s' : σ} {r : Except Error α} {v' : World A × Nat}
    (run : Op.Runs env.unsteady (S3Client.retry x) s (w₀, 0) r s' v') :
    v'.2 = 0 ∧ Op.Runs env.serve (S3Client.retry x) s w₀ r s' v'.1 := by
  let allowed (c' : Call) : Prop := c' = c ∨ ∃ ms, c' = .sleep ms
  have asks : Op.Uses allowed (S3Client.retry x) :=
    attempted.uses (.inl rfl) fun ms => .inr ⟨ms, rfl⟩
  have step : ∀ (v : World A × Nat) (w : World A) (c' : Call) (reply : c'.Reply) v',
      (v.1 = w ∧ v.2 = 0 ∧ Absent w.bucket c) → allowed c' → env.unsteady v c' reply v' →
      ∃ w', env.serve w c' reply w' ∧ v'.1 = w' ∧ v'.2 = 0 ∧ Absent w'.bucket c := by
    rintro v _ c' reply v' ⟨rfl, zero, absent⟩ called served
    obtain rfl | ⟨ms, rfl⟩ := called
    · cases c' with
      | getObject key =>
        have steady : isTransient v.1.bucket (.getObject key) reply = false := by
          cases reply with
          | ok => rfl
          | error e => exact Option.isSome_eq_false_iff.mpr (Option.isNone_iff_eq_none.mpr absent)
        obtain ⟨sound, zero'⟩ := unsteady_sound steady served
        refine ⟨v'.1, sound, rfl, zero' (by simp), ?_⟩
        obtain ⟨a, -, -, acts⟩ := sound
        rw [acts.quiet rfl]
        exact absent
      | _ => cases absent
    · obtain ⟨sound, -⟩ := unsteady_sound rfl served
      obtain ⟨same, a, -, later⟩ := unsteady_sleep served
      refine ⟨v'.1, sound, rfl, same.trans zero, ?_⟩
      rw [later]
      exact absent
  obtain ⟨w', run', rfl, zero, -⟩ := Prog.Runs.simulate run (asks s) step ⟨rfl, rfl, absent⟩
  exact ⟨zero, run'⟩

theorem Attempted.absorbs (attempted : Attempted x c result) (indifferent : env.Indifferent) :
    Op.Absorbs env.serve env.unsteady Prod.fst (fun v => v.2 = 0) (S3Client.retry x) := by
  rintro s ⟨w, n⟩ ⟨r, s'⟩ v' (rfl : n = 0) run
  by_cases absent : Absent w.bucket c
  · exact attempted.misses absent run
  · obtain ⟨zero, rfl, reply, value, served, success, rfl⟩ :=
      attempted.endures indifferent absent rfl (.refl env w c) run
    refine ⟨zero, ?_⟩
    have first : Op.Runs env.serve (S3Client.retry x) s' w (result reply) s' v'.1 :=
      attempted.runs_first served success
    rwa [success] at first

/-- An operation made of such calls absorbs the failures that do not last. -/
theorem Composed.absorbs (composed : Composed x) (indifferent : env.Indifferent) :
    Op.Absorbs env.serve env.unsteady Prod.fst (fun v => v.2 = 0) x := by
  refine Op.Made.absorbs ?_ composed
  intro σ α x primitive
  cases primitive with
  | own c own =>
    refine Op.absorbs_call fun v reply v' _ served => ?_
    have outside : isBucketCall c = false := by
      cases c with
      | putObject | getObject | deleteObject | list => cases own
      | _ => rfl
    have awake : ∀ ms, c ≠ .sleep ms := by
      rintro ms rfl
      cases own
    obtain ⟨sound, zero⟩ := unsteady_sound (not_transient_of_own outside) served
    exact ⟨zero awake, sound⟩
  | retried attempted => exact attempted.absorbs indifferent

end

theorem flawless_indifferent (ops : Request → Prop) (host : Host A) (q : Request) (s : Manager pf) :
    ((flawless config ops host).env config q s).Indifferent := by
  rintro w w' c reply bucket success ⟨sound, well⟩
  refine ⟨?_, well⟩
  cases c with
  | putObject | deleteObject | list | getObject => cases reply with
    | ok => trivial
    | error e => exact absurd trivial success
  | _ => cases bucket

theorem unsteadyRuns_absorbed (ops : Request → Prop) (host : Host A) :
    ((flawless config ops host).setting config).Absorbs (unsteadyRuns config ops host) Prod.fst
      (fun v => v.2 = 0) where
  enabled allowed := allowed
  drift := by
    rintro s v v' still ⟨moved, same⟩
    exact ⟨same.trans still, moved⟩
  body := by
    intro q s v _
    obtain halts | ⟨σ, α, x, t, answer, composed, same⟩ := process_composed config q s
    · rw [halts]
      exact Prog.absorbs_halt
    · rw [same]
      exact (composed.absorbs (flawless_indifferent config ops host q s) t).bind
        fun _ => Prog.absorbs_pure _

/-- Failures of the bucket that do not last leave no trace, neither in the bucket nor in the
manager nor in what an operation returns. -/
theorem failures_absorbed (ops : Request → Prop) (host : Host A) :
    FailuresAbsorbed config ops host where
  between run := ((unsteadyRuns_absorbed config ops host).idle rfl run).2
  returned run := ((unsteadyRuns_absorbed config ops host).returned rfl run).2

end Waloy.Spec
