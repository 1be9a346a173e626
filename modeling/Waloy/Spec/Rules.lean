import Waloy.Effect.Keeping
import Waloy.Spec.Objects

/-!
# Rules for the calls of a manager

One rule for each way the source talks to the world: from a world to the worlds
in which the call, with its retries, may return or fail. In between the
application may have moved; a failed write may have been applied.
-/
namespace Waloy.Spec
open Waloy.Effect Waloy.Source

section
variable {W σ α : Type} {serve : Server Calls W} {s s' : σ} {w w' : W} {wrap : String → Error}

theorem runs_orFail {x : M σ (Except String α)} {r : Except Error α} :
    Op.Runs serve (orFail wrap x) s w r s' w' ↔
      (∃ reply, Op.Runs serve x s w (.ok reply) s' w' ∧ r = reply.mapError wrap) ∨
        ∃ e, Op.Runs serve x s w (.error e) s' w' ∧ r = .error e := by
  refine Op.runs_bind.trans (or_congr_left ?_)
  constructor
  · rintro ⟨value | e, s₁, w₁, called, rest⟩
    · obtain ⟨rfl, rfl, rfl⟩ := Op.runs_throw.mp rest
      exact ⟨_, called, rfl⟩
    · obtain ⟨rfl, rfl, rfl⟩ := Op.runs_pure.mp rest
      exact ⟨_, called, rfl⟩
  · rintro ⟨e | value, called, rfl⟩
    · exact ⟨_, _, _, called, Op.runs_throw.mpr ⟨rfl, rfl, rfl⟩⟩
    · exact ⟨_, _, _, called, Op.runs_pure.mpr ⟨rfl, rfl, rfl⟩⟩

section
variable {guard : Server Calls W} {I : σ → W → Prop}

theorem secures_orFail {x : M σ (Except String α)} (hx : Op.Secures serve guard I x) :
    Op.Secures serve guard I (orFail wrap x) := by
  refine hx.bind ?_
  rintro (_ | _)
  · exact Op.secures_throw _
  · exact Op.secures_pure _

theorem secures_retry {f : M σ α}
    (sleeps : ∀ ms, Op.Secures serve guard I (call (.sleep ms) : M σ Unit))
    (hf : Op.Secures serve guard I f) : Op.Secures serve guard I (S3Client.retry f) := by
  suffices ∀ left attempt, Op.Secures serve guard I (S3Client.retryFrom f left attempt) from
    this _ _
  intro left
  induction left with
  | zero => exact fun _ => hf
  | succ left ih =>
    intro attempt
    refine hf.attempt.bind ?_
    rintro (_ | _)
    · exact (sleeps _).bind fun _ => ih _
    · exact Op.secures_pure _

theorem keeps_orFail {x : M σ (Except String α)} (hx : Op.Keeps serve I x) :
    Op.Keeps serve I (orFail wrap x) := secures_orFail hx

theorem keeps_retry {f : M σ α} (sleeps : ∀ ms, Op.Keeps serve I (call (.sleep ms) : M σ Unit))
    (hf : Op.Keeps serve I f) : Op.Keeps serve I (S3Client.retry f) := secures_retry sleeps hf

end

/-- The answer of a fallible call decides the result. -/
theorem runs_orFail_call {x : M σ (Except String α)} {answered : Except String α → W → Prop}
    {r : Except Error α}
    (asks : ∀ {r s' w'}, Op.Runs serve x s w r s' w' ↔
      ∃ reply, answered reply w' ∧ r = .ok reply ∧ s' = s) :
    Op.Runs serve (orFail wrap x) s w r s' w' ↔
      ∃ reply, answered reply w' ∧ r = reply.mapError wrap ∧ s' = s := by
  rw [runs_orFail]
  constructor
  · rintro (⟨reply, called, rfl⟩ | ⟨e, called, -⟩)
    · obtain ⟨_, held, same, rfl⟩ := asks.mp called
      cases same
      exact ⟨reply, held, rfl, rfl⟩
    · obtain ⟨_, -, same, -⟩ := asks.mp called
      cases same
  · rintro ⟨reply, held, rfl, rfl⟩
    exact .inl ⟨reply, asks.mpr ⟨reply, held, rfl, rfl⟩, rfl⟩

/-- The way on from a fallible call: past its answer, or out with its error. -/
theorem runs_orFail_bind {β : Type} {x : M σ (Except String α)} {f : α → M σ β}
    {answered : Except String α → W → Prop} {r : Except Error β}
    (asks : ∀ {r s' w'}, Op.Runs serve x s w r s' w' ↔
      ∃ reply, answered reply w' ∧ r = .ok reply ∧ s' = s) :
    Op.Runs serve (orFail wrap x >>= f) s w r s' w' ↔
      (∃ value w₁, answered (.ok value) w₁ ∧ Op.Runs serve (f value) s w₁ r s' w') ∨
        ∃ e, answered (.error e) w' ∧ r = .error (wrap e) ∧ s' = s := by
  rw [Op.runs_bind]
  simp only [runs_orFail_call asks]
  constructor
  · rintro (⟨value, _, w₁, ⟨reply, held, same, rfl⟩, rest⟩ | ⟨_, ⟨reply, held, same, rfl⟩, rfl⟩)
    · cases reply with
      | error e => cases same
      | ok value =>
        cases same
        exact .inl ⟨_, w₁, held, rest⟩
    · cases reply with
      | ok value => cases same
      | error e =>
        cases same
        exact .inr ⟨e, held, rfl, rfl⟩
  · rintro (⟨value, w₁, held, rest⟩ | ⟨e, held, rfl, rfl⟩)
    · exact .inl ⟨value, s, w₁, ⟨.ok value, held, rfl, rfl⟩, rest⟩
    · exact .inr ⟨_, ⟨.error e, held, rfl, rfl⟩, rfl⟩

end

section
variable {W σ α β : Type} {answer : W → (c : Call) → Option (c.Reply × W)} {x : M σ α} {s s' : σ}
  {w w' : W}

theorem interp_orFail {wrap : String → Error} {x : M σ (Except String α)} {reply : Except String α}
    (h : Op.interp answer x s w = some ((.ok reply, s'), w')) :
    Op.interp answer (orFail wrap x) s w = some ((reply.mapError wrap, s'), w') := by
  refine (Op.interp_bind_ok h _).trans ?_
  cases reply <;> rfl

/-- What answers the same each time is not changed by the retries. -/
theorem interp_retry_same {r : Except Error α}
    (sleeps : ∀ ms, answer w (.sleep ms) = some ((), w))
    (h : Op.interp answer x s w = some ((r, s), w)) :
    Op.interp answer (S3Client.retry x) s w = some ((r, s), w) := by
  suffices ∀ left attempt,
      Op.interp answer (S3Client.retryFrom x left attempt) s w = some ((r, s), w) from this _ _
  intro left
  induction left with
  | zero => exact fun _ => h
  | succ left ih =>
    intro attempt
    rw [S3Client.retryFrom, Op.interp_bind_ok (Op.interp_attempt h)]
    cases r with
    | ok value => rfl
    | error e =>
      have slept : Op.interp answer (call (.sleep (retryBaseDelayMs * 2 ^ attempt)) : M σ Unit) s w =
          some ((.ok (), s), w) := by
        rw [call, Op.interp_call, sleeps]
        rfl
      exact (Op.interp_bind_ok slept _).trans (ih _)

/-- What succeeds at the first attempt is not tried again. -/
theorem interp_retry_ok {value : α} (h : Op.interp answer x s w = some ((.ok value, s'), w')) :
    Op.interp answer (S3Client.retry x) s w = some ((.ok value, s'), w') :=
  (Op.interp_bind_ok (Op.interp_attempt h) _).trans rfl

end

/-- Some call of this kind may fail. -/
def Env.Denies {A : Type} (env : Env A) (c : Call) : Prop :=
  ∃ w reply, Failure c reply ∧ env.allows w c reply

/-- Some call of this kind may take place. -/
def Env.Takes {A : Type} (env : Env A) (c : Call) : Prop := ∃ w reply, env.allows w c reply

/-- A read of this key may fail in a bucket. -/
def Env.Misses {A : Type} (env : Env A) (b : Bucket) (key : Str) : Prop :=
  ∃ w e, w.bucket = b ∧ env.allows w (.getObject key) (.error e)

/-- The guarantee that asks nothing of a call. -/
def anyCall {W : Type} : Server Calls W := fun _ _ _ _ => True

/-- The calls that change nothing of what the world remembers. -/
def isQuiet : Call → Bool
  | .getObject _ | .list _ | .sleep _ | .instantNow | .fillBytes _ | .tryExists _ | .readFile _
  | .syncFile _ | .openConn _ | .queryMaster _ | .closeConn _ => true
  | .executeBatch _ batch => batch ≠ .walCheckpointTruncate
  | _ => false

theorem Acts.quiet {A : Type} {host : Host A} {w w' : World A} {c : Call} {reply : c.Reply}
    (hc : isQuiet c = true) (h : Acts host w c reply w') : w' = w := by
  cases c with
  | getObject => cases reply with
    | ok => exact h.2
    | error => exact h
  | list => cases reply with
    | ok => exact h.2
    | error => exact h
  | tryExists => cases reply with
    | ok => exact h.2.2
    | error => exact h
  | readFile => cases reply with
    | ok => exact h.2.2
    | error => exact h
  | fillBytes => exact h.2
  | executeBatch _ batch => cases batch with
    | walCheckpointTruncate => simp [isQuiet] at hc
    | _ => exact h
  | sleep => exact h
  | instantNow => exact h
  | syncFile => exact h
  | openConn => exact h
  | queryMaster => exact h
  | closeConn => exact h
  | putObject => simp [isQuiet] at hc
  | deleteObject => simp [isQuiet] at hc
  | systemTime => simp [isQuiet] at hc
  | newUuid => simp [isQuiet] at hc
  | writeFile => simp [isQuiet] at hc

/-- What a call does to the bucket. -/
def Bucketed (b : Bucket) : (c : Call) → c.Reply → Bucket → Prop
  | .putObject key data, .ok _, b' => b' = b.insert key data
  | .putObject key data, .error _, b' => b' = b ∨ b' = b.insert key data
  | .getObject key, .ok data, b' => b.lookup key = some data ∧ b' = b
  | .deleteObject key, .ok _, b' => b' = b.erase key
  | .deleteObject key, .error _, b' => b' = b ∨ b' = b.erase key
  | .newUuid, generation, b' => Fresh b generation ∧ b' = b
  | .fillBytes n, bytes, b' => bytes.length = n ∧ b' = b
  | _, _, b' => b' = b

theorem Acts.bucketed {A : Type} {host : Host A} {w w' : World A} {c : Call} {reply : c.Reply}
    (acts : Acts host w c reply w') : Bucketed w.bucket c reply w'.bucket := by
  cases c with
  | putObject key data => cases reply with
    | ok =>
      cases acts
      rfl
    | error e =>
      obtain rfl | rfl := acts
      · exact .inl rfl
      · exact .inr rfl
  | getObject key => cases reply with
    | ok data =>
      obtain ⟨found, rfl⟩ := acts
      exact ⟨found, rfl⟩
    | error e =>
      cases acts
      rfl
  | deleteObject key => cases reply with
    | ok =>
      cases acts
      rfl
    | error e =>
      obtain rfl | rfl := acts
      · exact .inl rfl
      · exact .inr rfl
  | systemTime =>
    obtain ⟨-, rfl⟩ := acts
    rfl
  | newUuid =>
    obtain ⟨fresh, rfl⟩ := acts
    exact ⟨fresh, rfl⟩
  | fillBytes n =>
    obtain ⟨length, rfl⟩ := acts
    exact ⟨length, rfl⟩
  | writeFile path data =>
    obtain ⟨a, -, rfl⟩ := acts
    rfl
  | executeBatch conn batch => cases batch with
    | walCheckpointTruncate =>
      obtain ⟨a, -, rfl⟩ := acts
      rfl
    | _ =>
      cases acts
      rfl
  | list | tryExists | readFile | syncFile | openConn | queryMaster =>
    obtain rfl := acts.quiet rfl
    rfl
  | sleep | instantNow | closeConn =>
    obtain rfl := acts.quiet rfl
    rfl

theorem Bucketed.same {b b' : Bucket} {c : Call} {reply : c.Reply}
    (put : ∀ key data, c ≠ .putObject key data) (delete : ∀ key, c ≠ .deleteObject key)
    (h : Bucketed b c reply b') : b' = b := by
  cases c with
  | putObject key data => exact absurd rfl (put key data)
  | deleteObject key => exact absurd rfl (delete key)
  | getObject key => cases reply with
    | ok data => exact h.2
    | error e => exact h
  | newUuid => exact h.2
  | fillBytes n => exact h.2
  | _ => exact h

/-- An id in the log was there before the call, or the call drew it. -/
theorem Acts.drew {A : Type} {host : Host A} {w w' : World A} {c : Call} {reply : c.Reply}
    (h : Acts host w c reply w') {generation : Str} (drawn : .drew generation ∈ w'.log) :
    .drew generation ∈ w.log ∨ Fresh w.bucket generation ∧ w'.bucket = w.bucket := by
  by_cases quiet : isQuiet c = true
  · rw [h.quiet quiet] at drawn
    exact .inl drawn
  cases c with
  | putObject => cases reply with
    | ok =>
      cases h
      exact .inl (by simpa using drawn)
    | error => obtain rfl | rfl := h <;> exact .inl drawn
  | deleteObject => cases reply with
    | ok =>
      cases h
      exact .inl drawn
    | error => obtain rfl | rfl := h <;> exact .inl drawn
  | systemTime =>
    obtain ⟨-, rfl⟩ := h
    exact .inl drawn
  | newUuid =>
    obtain ⟨fresh, rfl⟩ := h
    obtain same | older := List.mem_cons.mp drawn
    · cases same
      exact .inr ⟨fresh, rfl⟩
    · exact .inl older
  | writeFile =>
    obtain ⟨a, -, rfl⟩ := h
    exact .inl drawn
  | executeBatch _ batch => cases batch with
    | walCheckpointTruncate =>
      obtain ⟨a, -, rfl⟩ := h
      exact .inl drawn
    | _ => exact absurd rfl quiet
  | _ => exact absurd rfl quiet

section
variable {A σ α : Type} {env : Env A} {change : Bucket → Bucket → Prop} {s : σ} {w : World A}
  {err : Error → σ → World A → Prop}

theorem wp_orFail {W : Type} {serve guard : Server Calls W} {w : W} (wrap : String → Error)
    (x : M σ (Except String α)) {ok : α → σ → W → Prop} {err : Error → σ → W → Prop} :
    Op.wp serve guard (orFail wrap x) ok err s w ↔
      Op.wp serve guard x (fun reply s w => match reply with
        | .ok value => ok value s w
        | .error e => err (wrap e) s w) err s w := by
  unfold orFail
  rw [Op.wp_bind]
  refine Op.wp_congr ?_ fun _ _ _ => Iff.rfl
  rintro (_ | _) _ _ <;> rfl

theorem wp_quiet {c : Call} (hc : isQuiet c = true) {ok : c.Reply → σ → World A → Prop}
    (hstay : change w.bucket w.bucket)
    (hnext : ∀ a reply, env.host.during w.app a → env.allows { w with app := a } c reply →
      Acts env.host { w with app := a } c reply { w with app := a } →
      ok reply s { w with app := a }) :
    Op.wp env.serve (watch change) (call c) ok err s w := by
  rintro reply w' ⟨a, moved, allowed, acts⟩
  obtain rfl := acts.quiet hc
  exact ⟨hstay, hnext a reply moved allowed acts⟩

/-- A retried operation: `I n` holds before the attempt that `n` failures precede, and `J n`
after it has failed as well. -/
theorem wp_attempts {W : Type} {serve guard : Server Calls W} {f : M σ α} {w : W}
    {ok : α → σ → W → Prop} {err : Error → σ → W → Prop} {I J : Nat → W → Prop}
    (htry : ∀ n w, I n w → Op.wp serve guard f ok (fun _ s' w' => s' = s ∧ J n w') s w)
    (hsleep : ∀ n w ms reply w', J n w → serve w (.sleep ms) reply w' →
      guard w (.sleep ms) reply w' ∧ I (n + 1) w')
    (hgive : ∀ e w, J maxRetries w → err e s w) (hw : I 0 w) :
    Op.wp serve guard (S3Client.retry f) ok err s w := by
  suffices ∀ left n w, left + n = maxRetries → I n w →
      Op.wp serve guard (S3Client.retryFrom f left n) ok err s w from this _ _ w rfl hw
  intro left
  induction left with
  | zero =>
    intro n w counted hw
    refine Op.wp_mono (htry n w hw) (fun _ _ _ h => h) ?_
    rintro e s' w' ⟨rfl, failed⟩
    have last : n = maxRetries := by omega
    subst last
    exact hgive e w' failed
  | succ left ih =>
    intro n w counted hw
    rw [S3Client.retryFrom, Op.wp_bind, Op.wp_attempt]
    refine Op.wp_mono (htry n w hw) (fun _ _ _ h => h) ?_
    rintro e s' w' ⟨rfl, failed⟩
    simp only [Op.wp_bind]
    intro reply w'' served
    obtain ⟨guarded, again⟩ := hsleep n w' _ reply w'' failed served
    exact ⟨guarded, ih (n + 1) w'' (by omega) again⟩

/-- A retried operation: `I` holds before each attempt and `J` after a failed one. -/
theorem wp_retry {f : M σ α} {ok : α → σ → World A → Prop} {I J : World A → Prop}
    (htry : ∀ w, I w → Op.wp env.serve (watch change) f ok (fun _ s' w' => s' = s ∧ J w') s w)
    (hsleep : ∀ w a, J w → env.host.during w.app a →
      change w.bucket w.bucket ∧ I { w with app := a })
    (hgive : ∀ e w, J w → err e s w) (hw : I w) :
    Op.wp env.serve (watch change) (S3Client.retry f) ok err s w := by
  refine wp_attempts (I := fun _ => I) (J := fun _ => J) (fun _ => htry) ?_ hgive hw
  rintro _ w' ms _ w'' failed ⟨a, moved, -, rfl⟩
  exact hsleep w' a failed moved

/-- The worlds between the attempts of a call that changes nothing. -/
theorem wp_retry_quiet {f : M σ α} {ok : α → σ → World A → Prop} {fault : Prop}
    (htry : ∀ a, env.host.during w.app a →
      Op.wp env.serve (watch change) f ok (fun _ s' w' => s' = s ∧
        (∃ a', env.host.during w.app a' ∧ w' = { w with app := a' }) ∧ fault) s { w with app := a })
    (hstay : change w.bucket w.bucket)
    (hgive : fault → ∀ e a, env.host.during w.app a → err e s { w with app := a }) :
    Op.wp env.serve (watch change) (S3Client.retry f) ok err s w := by
  refine wp_retry
    (I := fun w' => ∃ a, env.host.during w.app a ∧ w' = { w with app := a })
    (J := fun w' => (∃ a, env.host.during w.app a ∧ w' = { w with app := a }) ∧ fault)
    ?_ ?_ ?_ ⟨w.app, env.host.during_refl _, rfl⟩
  · rintro w' ⟨a, moved, rfl⟩
    exact htry a moved
  · rintro w' a' ⟨⟨a, moved, rfl⟩, -⟩ moved'
    exact ⟨hstay, a', env.host.during_trans moved moved', rfl⟩
  · rintro e w' ⟨⟨a, moved, rfl⟩, failed⟩
    exact hgive failed e a moved

theorem wp_getObject (s3 : S3Client) (key : Str) {ok : Bytes → σ → World A → Prop}
    (hstay : change w.bucket w.bucket)
    (hok : ∀ a data, env.host.during w.app a → w.bucket.lookup (s3.fullKey key) = some data →
      ok data s { w with app := a })
    (herr : env.Misses w.bucket (s3.fullKey key) → ∀ e a, env.host.during w.app a →
      err e s { w with app := a }) :
    Op.wp env.serve (watch change) (s3.getObject key) ok err s w := by
  refine wp_retry_quiet ?_ hstay herr
  intro a moved
  rw [wp_orFail]
  refine wp_quiet rfl hstay ?_
  intro a' reply moved' allowed acts
  cases reply with
  | ok data => exact hok a' data (env.host.during_trans moved moved') acts.1
  | error e =>
    exact ⟨rfl, ⟨a', env.host.during_trans moved moved', rfl⟩,
      ⟨{ w with app := a' }, e, rfl, allowed⟩⟩

/-- A listing returns the keys under a prefix without the prefix of the client, sorted. -/
theorem wp_listKeys (s3 : S3Client) (keyPrefix : Str) {ok : List Str → σ → World A → Prop}
    (hstay : change w.bucket w.bucket)
    (hok : ∀ a keys, env.host.during w.app a →
      keys.Perm ((w.bucket.keys.filter ((s3.fullKey keyPrefix).isPrefixOf ·)).map s3.relativeKey) →
      keys.Pairwise (· ≤ ·) → ok keys s { w with app := a })
    (herr : env.Denies (.list (s3.fullKey keyPrefix)) → ∀ e a, env.host.during w.app a →
      err e s { w with app := a }) :
    Op.wp env.serve (watch change) (s3.listKeys keyPrefix) ok err s w := by
  refine wp_retry_quiet ?_ hstay herr
  intro a moved
  rw [Op.wp_bind, wp_orFail]
  refine wp_quiet rfl hstay ?_
  intro a' reply moved' allowed acts
  cases reply with
  | ok pages =>
    refine hok a' _ (env.host.during_trans moved moved') ?_ ?_
    · exact (List.perm_insertionSort _ _).trans (acts.1.map _)
    · exact List.pairwise_insertionSort _ _
  | error e =>
    exact ⟨rfl, ⟨a', env.host.during_trans moved moved', rfl⟩, ⟨_, .error e, trivial, allowed⟩⟩

theorem wp_putObject (s3 : S3Client) (key : Str) (data : Bytes) {ok : Unit → σ → World A → Prop}
    (hstay : change w.bucket w.bucket)
    (hput : env.Takes (.putObject (s3.fullKey key) data) →
      change w.bucket (w.bucket.insert (s3.fullKey key) data) ∧
        change (w.bucket.insert (s3.fullKey key) data) (w.bucket.insert (s3.fullKey key) data))
    (hok : env.Takes (.putObject (s3.fullKey key) data) → ∀ a, env.host.during w.app a →
      ok () s { w with
        app := a
        bucket := w.bucket.insert (s3.fullKey key) data
        log := .stored (s3.fullKey key) :: w.log })
    (herr : env.Denies (.putObject (s3.fullKey key) data) → ∀ e a b, env.host.during w.app a →
      (b = w.bucket ∨ b = w.bucket.insert (s3.fullKey key) data) →
      err e s { w with app := a, bucket := b }) :
    Op.wp env.serve (watch change) (s3.putObject key data) ok err s w := by
  let I : World A → Prop := fun w' => ∃ a b, env.host.during w.app a ∧
    (b = w.bucket ∨ b = w.bucket.insert (s3.fullKey key) data) ∧
    w' = { w with app := a, bucket := b }
  refine wp_retry (I := I)
    (J := fun w' => I w' ∧ env.Denies (.putObject (s3.fullKey key) data)) ?_ ?_ ?_
    ⟨w.app, w.bucket, env.host.during_refl _, .inl rfl, rfl⟩
  · rintro w' ⟨a, b, moved, hb, rfl⟩
    have same : b.insert (s3.fullKey key) data = w.bucket.insert (s3.fullKey key) data := by
      rcases hb with rfl | rfl
      · rfl
      · exact AList.insert_insert _
    rw [wp_orFail]
    rintro reply w'' ⟨a', moved', allowed, acts⟩
    have taken : env.Takes (.putObject (s3.fullKey key) data) := ⟨_, _, allowed⟩
    obtain ⟨puts, again⟩ := hput taken
    have stays : change b b := by rcases hb with rfl | rfl <;> assumption
    replace puts : change b (b.insert (s3.fullKey key) data) := by
      rw [same]
      rcases hb with rfl | rfl <;> assumption
    cases reply with
    | ok =>
      cases acts
      refine ⟨puts, ?_⟩
      dsimp only
      rw [same]
      exact hok taken a' (env.host.during_trans moved moved')
    | error e =>
      have failed : env.Denies (.putObject (s3.fullKey key) data) := ⟨_, .error e, trivial, allowed⟩
      rcases acts with rfl | rfl
      · exact ⟨stays, rfl, ⟨a', b, env.host.during_trans moved moved', hb, rfl⟩, failed⟩
      · exact ⟨puts, rfl, ⟨a', _, env.host.during_trans moved moved', .inr same, rfl⟩, failed⟩
  · rintro w' a' ⟨⟨a, b, moved, hb, rfl⟩, v, reply, -, allowed⟩ moved'
    refine ⟨?_, a', b, env.host.during_trans moved moved', hb, rfl⟩
    have again := (hput ⟨v, reply, allowed⟩).2
    rcases hb with rfl | rfl <;> assumption
  · rintro e w' ⟨⟨a, b, moved, hb, rfl⟩, failed⟩
    exact herr failed e a b moved hb

theorem wp_deleteObject (s3 : S3Client) (key : Str) {ok : Unit → σ → World A → Prop}
    (hstay : change w.bucket w.bucket)
    (hdelete : change w.bucket (w.bucket.erase (s3.fullKey key)))
    (hagain : change (w.bucket.erase (s3.fullKey key)) (w.bucket.erase (s3.fullKey key)))
    (hok : ∀ a, env.host.during w.app a →
      ok () s { w with app := a, bucket := w.bucket.erase (s3.fullKey key) })
    (herr : env.Denies (.deleteObject (s3.fullKey key)) → ∀ e a b, env.host.during w.app a →
      (b = w.bucket ∨ b = w.bucket.erase (s3.fullKey key)) →
      err e s { w with app := a, bucket := b }) :
    Op.wp env.serve (watch change) (s3.deleteObject key) ok err s w := by
  let I : World A → Prop := fun w' => ∃ a b, env.host.during w.app a ∧
    (b = w.bucket ∨ b = w.bucket.erase (s3.fullKey key)) ∧ w' = { w with app := a, bucket := b }
  have erased : (w.bucket.erase (s3.fullKey key)).erase (s3.fullKey key) =
      w.bucket.erase (s3.fullKey key) := by
    apply AList.ext
    exact List.kerase_of_notMem_keys (AList.mem_keys.not.mp fun h => (AList.mem_erase.mp h).1 rfl)
  refine wp_retry (I := I) (J := fun w' => I w' ∧ env.Denies (.deleteObject (s3.fullKey key)))
    ?_ ?_ ?_ ⟨w.app, w.bucket, env.host.during_refl _, .inl rfl, rfl⟩
  · rintro w' ⟨a, b, moved, hb, rfl⟩
    have stays : change b b := by rcases hb with rfl | rfl <;> assumption
    have same : b.erase (s3.fullKey key) = w.bucket.erase (s3.fullKey key) := by
      rcases hb with rfl | rfl
      · rfl
      · exact erased
    have deletes : change b (b.erase (s3.fullKey key)) := by
      rcases hb with rfl | rfl
      · exact hdelete
      · rwa [erased]
    rw [wp_orFail]
    rintro reply w'' ⟨a', moved', allowed, acts⟩
    cases reply with
    | ok =>
      cases acts
      refine ⟨deletes, ?_⟩
      dsimp only
      rw [same]
      exact hok a' (env.host.during_trans moved moved')
    | error e =>
      have failed : env.Denies (.deleteObject (s3.fullKey key)) := ⟨_, .error e, trivial, allowed⟩
      rcases acts with rfl | rfl
      · exact ⟨stays, rfl, ⟨a', b, env.host.during_trans moved moved', hb, rfl⟩, failed⟩
      · exact ⟨deletes, rfl, ⟨a', _, env.host.during_trans moved moved', .inr same, rfl⟩, failed⟩
  · rintro w' a' ⟨⟨a, b, moved, hb, rfl⟩, -⟩ moved'
    refine ⟨?_, a', b, env.host.during_trans moved moved', hb, rfl⟩
    rcases hb with rfl | rfl <;> assumption
  · rintro e w' ⟨⟨a, b, moved, hb, rfl⟩, failed⟩
    exact herr failed e a b moved hb

theorem wp_nowMs_reading {ok : Nat → σ → World A → Prop} (hstay : change w.bucket w.bucket)
    (hok : ∀ a reply, env.host.during w.app a → env.host.tick w.clock (reading reply) →
      env.allows { w with app := a } .systemTime reply →
      ok (reading reply) s { w with app := a, clock := reading reply }) :
    Op.wp env.serve (watch change) nowMs ok err s w := by
  unfold nowMs
  rw [Op.wp_bind]
  rintro reply w' ⟨a, moved, allowed, ticks, rfl⟩
  cases reply with
  | ok ms => exact ⟨hstay, hok a (.ok ms) moved ticks allowed⟩
  | error e => exact ⟨hstay, hok a (.error e) moved ticks allowed⟩

theorem wp_nowMs {ok : Nat → σ → World A → Prop} (hstay : change w.bucket w.bucket)
    (hok : ∀ a now, env.host.during w.app a → env.host.tick w.clock now →
      ok now s { w with app := a, clock := now }) :
    Op.wp env.serve (watch change) nowMs ok err s w :=
  wp_nowMs_reading hstay fun a _ moved ticks _ => hok a _ moved ticks

theorem wp_newUuid {ok : Str → σ → World A → Prop} (hstay : change w.bucket w.bucket)
    (hok : ∀ a generation, env.host.during w.app a → Fresh w.bucket generation →
      ok generation s { w with app := a, log := .drew generation :: w.log }) :
    Op.wp env.serve (watch change) (call .newUuid) ok err s w := by
  rintro generation w' ⟨a, moved, -, fresh, rfl⟩
  exact ⟨hstay, hok a generation moved fresh⟩

theorem wp_walCheckpointTruncate (conn : Conn) {ok : Except String Unit → σ → World A → Prop}
    (hstay : change w.bucket w.bucket)
    (hok : ∀ a a' reply, env.host.during w.app a → env.host.truncated a a' →
      env.allows { w with app := a } (.executeBatch conn .walCheckpointTruncate) reply →
      ok reply s { w with app := a' }) :
    Op.wp env.serve (watch change) (call (.executeBatch conn .walCheckpointTruncate)) ok err s w := by
  rintro reply w' ⟨a, moved, allowed, a', cut, rfl⟩
  exact ⟨hstay, hok a a' reply moved cut allowed⟩

end

end Waloy.Spec
