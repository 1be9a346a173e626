import Waloy.Effect.Operation

/-!
# Complete runs

A run from the start of a program to its return, as a relation. It takes a program
apart into its calls in the order they are answered, whatever the world is, so facts
about the order of two calls are read off the text of the program.
-/
namespace Waloy.Effect

variable {S : Signature} {W ε σ α β : Type}

namespace Prog

/-- The program, started in a world, returns a value in another one. -/
def Runs (serve : Server S W) (p : Prog S α) (w : W) (value : α) (w' : W) : Prop :=
  Steps serve (p, w) (.pure value, w')

variable {serve : Server S W} {w w' : W} {value : α}

theorem runs_pure {result : α} :
    Runs serve (.pure value) w result w' ↔ result = value ∧ w' = w := by
  constructor
  · intro run
    obtain same | ⟨_, step, _⟩ := Relation.ReflTransGen.cases_head run
    · cases same
      exact ⟨rfl, rfl⟩
    · cases step
  · rintro ⟨rfl, rfl⟩
    exact .refl

theorem runs_call {c : S.Call} {next : S.Reply c → Prog S α} :
    Runs serve (.call c next) w value w' ↔
      ∃ reply w₁, serve w c reply w₁ ∧ Runs serve (next reply) w₁ value w' := by
  constructor
  · intro run
    obtain same | ⟨_, step, rest⟩ := Relation.ReflTransGen.cases_head run
    · cases same
    · cases step with
      | call served => exact ⟨_, _, served, rest⟩
  · rintro ⟨reply, w₁, served, rest⟩
    exact .head (.call served) rest

theorem not_runs_halt : ¬ Runs serve (.halt : Prog S α) w value w' := by
  intro run
  obtain same | ⟨_, step, _⟩ := Relation.ReflTransGen.cases_head run
  · cases same
  · cases step

theorem runs_bind {p : Prog S α} {f : α → Prog S β} {result : β} :
    Runs serve (p.bind f) w result w' ↔
      ∃ value w₁, Runs serve p w value w₁ ∧ Runs serve (f value) w₁ result w' := by
  induction p generalizing w with
  | pure value =>
    constructor
    · exact fun run => ⟨value, w, runs_pure.mpr ⟨rfl, rfl⟩, run⟩
    · rintro ⟨_, _, first, run⟩
      obtain ⟨rfl, rfl⟩ := runs_pure.mp first
      exact run
  | call c next ih =>
    simp only [Prog.bind, runs_call, ih]
    constructor
    · rintro ⟨reply, w₁, served, value, w₂, first, second⟩
      exact ⟨value, w₂, ⟨reply, w₁, served, first⟩, second⟩
    · rintro ⟨value, w₂, ⟨reply, w₁, served, first⟩, second⟩
      exact ⟨reply, w₁, served, value, w₂, first, second⟩
  | halt => simp [Prog.bind, not_runs_halt]

/-- Without a guarantee on the calls, the weakest precondition speaks of complete runs. -/
theorem wp_iff_runs {post : α → W → Prop} {p : Prog S α} :
    p.wp serve (fun _ _ _ _ => True) post w ↔
      ∀ value w', Runs serve p w value w' → post value w' := by
  induction p generalizing w with
  | pure value => simp [wp, runs_pure]
  | call c next ih =>
    simp only [wp, runs_call, ih, true_and]
    constructor
    · rintro h value w' ⟨reply, w₁, served, rest⟩
      exact h reply w₁ served value w' rest
    · intro h reply w₁ served value w' rest
      exact h value w' ⟨reply, w₁, served, rest⟩
  | halt => simp [wp, not_runs_halt]

/-- A server that may answer more has more runs. -/
theorem Runs.mono {serve' : Server S W} {p : Prog S α}
    (more : ∀ w c reply w', serve w c reply w' → serve' w c reply w')
    (run : Runs serve p w value w') : Runs serve' p w value w' := by
  refine Relation.ReflTransGen.mono (fun _ _ step => ?_) _ _ run
  cases step with
  | call served => exact .call (more _ _ _ _ served)

/-- A run of allowed calls is followed by a run under a server that answers them alike. -/
theorem Runs.simulate {V : Type} {serve' : Server S V} {R : W → V → Prop} {allowed : S.Call → Prop}
    {p : Prog S α} {v : V} (run : Runs serve p w value w') (hp : p.Uses allowed)
    (step : ∀ w v c reply w', R w v → allowed c → serve w c reply w' →
      ∃ v', serve' v c reply v' ∧ R w' v') (related : R w v) :
    ∃ v', Runs serve' p v value v' ∧ R w' v' := by
  induction p generalizing w v with
  | pure result =>
    obtain ⟨rfl, rfl⟩ := runs_pure.mp run
    exact ⟨v, .refl, related⟩
  | call c next ih =>
    obtain ⟨reply, w₁, served, rest⟩ := runs_call.mp run
    obtain ⟨v₁, served', related₁⟩ := step w v c reply w₁ related hp.1 served
    obtain ⟨v', run', related'⟩ := ih reply rest (hp.2 reply) related₁
    exact ⟨v', runs_call.mpr ⟨reply, v₁, served', run'⟩, related'⟩
  | halt => exact absurd run not_runs_halt

end Prog

namespace Op

/-- The operation, started on a state in a world, ends with a result. -/
def Runs (serve : Server S W) (x : Op S ε σ α) (s : σ) (w : W) (r : Except ε α) (s' : σ)
    (w' : W) : Prop :=
  Prog.Runs serve (x s) w (r, s') w'

variable {serve : Server S W} {x : Op S ε σ α} {s s' : σ} {w w' : W} {r : Except ε α}

@[simp] theorem runs_pure {value : α} :
    Runs serve (pure value : Op S ε σ α) s w r s' w' ↔ r = .ok value ∧ s' = s ∧ w' = w :=
  Prog.runs_pure.trans (by rw [Prod.mk.injEq, and_assoc])

@[simp] theorem runs_throw {e : ε} :
    Runs serve (throw e : Op S ε σ α) s w r s' w' ↔ r = .error e ∧ s' = s ∧ w' = w :=
  Prog.runs_pure.trans (by rw [Prod.mk.injEq, and_assoc])

@[simp] theorem runs_halt : ¬ Runs serve (halt : Op S ε σ α) s w r s' w' := Prog.not_runs_halt

@[simp] theorem runs_get {r : Except ε σ} :
    Runs serve (get : Op S ε σ σ) s w r s' w' ↔ r = .ok s ∧ s' = s ∧ w' = w :=
  Prog.runs_pure.trans (by rw [Prod.mk.injEq, and_assoc])

@[simp] theorem runs_set {r : Except ε PUnit} {t : σ} :
    Runs serve (set t : Op S ε σ PUnit) s w r s' w' ↔ r = .ok ⟨⟩ ∧ s' = t ∧ w' = w :=
  Prog.runs_pure.trans (by rw [Prod.mk.injEq, and_assoc])

@[simp] theorem runs_modify {r : Except ε PUnit} {f : σ → σ} :
    Runs serve (modify f : Op S ε σ PUnit) s w r s' w' ↔ r = .ok ⟨⟩ ∧ s' = f s ∧ w' = w :=
  Prog.runs_pure.trans (by rw [Prod.mk.injEq, and_assoc])

@[simp] theorem runs_call {c : S.Call} {r : Except ε (S.Reply c)} :
    Runs serve (call c : Op S ε σ (S.Reply c)) s w r s' w' ↔
      ∃ reply, serve w c reply w' ∧ r = .ok reply ∧ s' = s := by
  refine Prog.runs_call.trans ?_
  constructor
  · rintro ⟨reply, w₁, served, rest⟩
    obtain ⟨same, rfl⟩ := Prog.runs_pure.mp rest
    cases same
    exact ⟨reply, served, rfl, rfl⟩
  · rintro ⟨reply, served, rfl, rfl⟩
    exact ⟨reply, w', served, Prog.runs_pure.mpr ⟨rfl, rfl⟩⟩

@[simp] theorem runs_ofExcept {result : Except ε α} :
    Runs serve (ofExcept result : Op S ε σ α) s w r s' w' ↔ r = result ∧ s' = s ∧ w' = w := by
  cases result with
  | ok value => exact runs_pure
  | error e => exact runs_throw

@[simp] theorem runs_ofOption {found : Option α} :
    Runs serve (ofOption found : Op S ε σ α) s w r s' w' ↔
      ∃ value, found = some value ∧ r = .ok value ∧ s' = s ∧ w' = w := by
  cases found with
  | some value => simp [ofOption]
  | none => simp [ofOption]

theorem runs_bind {f : α → Op S ε σ β} {r : Except ε β} :
    Runs serve (x >>= f) s w r s' w' ↔
      (∃ value s₁ w₁, Runs serve x s w (.ok value) s₁ w₁ ∧
        Runs serve (f value) s₁ w₁ r s' w') ∨
      ∃ e, Runs serve x s w (.error e) s' w' ∧ r = .error e := by
  unfold Runs
  rw [bind_run, Prog.runs_bind]
  constructor
  · rintro ⟨⟨e | value, s₁⟩, w₁, first, second⟩
    · obtain ⟨same, rfl⟩ := Prog.runs_pure.mp second
      cases same
      exact .inr ⟨e, first, rfl⟩
    · exact .inl ⟨value, s₁, w₁, first, second⟩
  · rintro (⟨value, s₁, w₁, first, second⟩ | ⟨e, first, rfl⟩)
    · exact ⟨(.ok value, s₁), w₁, first, second⟩
    · exact ⟨(.error e, s'), w', first, Prog.runs_pure.mpr ⟨rfl, rfl⟩⟩

/-- The way through a first operation that returns. -/
theorem Runs.bind {f : α → Op S ε σ β} {value : α} {s₁ : σ} {w₁ : W} {r : Except ε β}
    (first : Runs serve x s w (.ok value) s₁ w₁) (rest : Runs serve (f value) s₁ w₁ r s' w') :
    Runs serve (x >>= f) s w r s' w' :=
  runs_bind.mpr (.inl ⟨value, s₁, w₁, first, rest⟩)

@[simp] theorem runs_attempt {r : Except ε (Except ε α)} :
    Runs serve (attempt x) s w r s' w' ↔ ∃ result, Runs serve x s w result s' w' ∧ r = .ok result := by
  unfold Runs attempt
  rw [Prog.runs_bind]
  constructor
  · rintro ⟨⟨result, s₁⟩, w₁, first, second⟩
    obtain ⟨same, rfl⟩ := Prog.runs_pure.mp second
    cases same
    exact ⟨result, first, rfl⟩
  · rintro ⟨result, first, rfl⟩
    exact ⟨(result, s'), w', first, Prog.runs_pure.mpr ⟨rfl, rfl⟩⟩

/-- A run that returns a value passed both parts. -/
theorem runs_bind_ok {f : α → Op S ε σ β} {result : β} :
    Runs serve (x >>= f) s w (.ok result) s' w' ↔
      ∃ value s₁ w₁, Runs serve x s w (.ok value) s₁ w₁ ∧
        Runs serve (f value) s₁ w₁ (.ok result) s' w' := by
  rw [runs_bind, or_iff_left]
  rintro ⟨e, -, same⟩
  cases same

theorem runs_bind_call {c : S.Call} {f : S.Reply c → Op S ε σ β} {r : Except ε β} :
    Runs serve (call c >>= f) s w r s' w' ↔
      ∃ reply w₁, serve w c reply w₁ ∧ Runs serve (f reply) s w₁ r s' w' := by
  rw [runs_bind]
  simp only [runs_call]
  constructor
  · rintro (⟨_, _, w₁, ⟨reply, served, same, rfl⟩, rest⟩ | ⟨e, ⟨_, -, same, -⟩, -⟩)
    · cases same
      exact ⟨_, w₁, served, rest⟩
    · cases same
  · rintro ⟨reply, w₁, served, rest⟩
    exact .inl ⟨reply, s, w₁, ⟨reply, served, rfl, rfl⟩, rest⟩

theorem runs_bind_attempt {f : Except ε α → Op S ε σ β} {r : Except ε β} :
    Runs serve (attempt x >>= f) s w r s' w' ↔
      ∃ result s₁ w₁, Runs serve x s w result s₁ w₁ ∧ Runs serve (f result) s₁ w₁ r s' w' := by
  rw [runs_bind]
  simp only [runs_attempt]
  constructor
  · rintro (⟨_, s₁, w₁, ⟨result, first, same⟩, rest⟩ | ⟨e, ⟨_, -, same⟩, -⟩)
    · cases same
      exact ⟨_, s₁, w₁, first, rest⟩
    · cases same
  · rintro ⟨result, s₁, w₁, first, rest⟩
    exact .inl ⟨result, s₁, w₁, ⟨result, first, rfl⟩, rest⟩

theorem runs_runOn {τ : Type} {t : τ} {x : Op S ε τ α} {r : Except ε (α × τ)} :
    Runs serve (runOn t x : Op S ε σ (α × τ)) s w r s' w' ↔
      ∃ result t', Runs serve x t w result t' w' ∧ s' = s ∧ r = result.map fun value => (value, t') := by
  unfold Runs runOn
  rw [Prog.runs_bind]
  constructor
  · rintro ⟨⟨e | value, t'⟩, w₁, first, second⟩
    · obtain ⟨same, rfl⟩ := Prog.runs_pure.mp second
      cases same
      exact ⟨.error e, t', first, rfl, rfl⟩
    · obtain ⟨same, rfl⟩ := Prog.runs_pure.mp second
      cases same
      exact ⟨.ok value, t', first, rfl, rfl⟩
  · rintro ⟨e | value, t', first, rfl, rfl⟩
    · exact ⟨(.error e, t'), w', first, Prog.runs_pure.mpr ⟨rfl, rfl⟩⟩
    · exact ⟨(.ok value, t'), w', first, Prog.runs_pure.mpr ⟨rfl, rfl⟩⟩

/-- What holds of every return holds of the returns of complete runs. -/
theorem Runs.of_wp {guard : Server S W} {ok : α → σ → W → Prop} {err : ε → σ → W → Prop}
    (run : Runs serve x s w r s' w') (h : wp serve guard x ok err s w) :
    (∀ value, r = .ok value → ok value s' w') ∧ ∀ e, r = .error e → err e s' w' := by
  have result := Steps.result run h
  constructor
  · rintro value rfl
    exact result
  · rintro e rfl
    exact result

end Op

end Waloy.Effect
