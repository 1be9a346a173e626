import Waloy.Effect.Keeping
import Waloy.Effect.Session

/-!
# Operations made of primitive ones

An operation that is put together from a few primitive ones, in sequence, with branches and
with errors caught. What holds of the primitive operations and of sequences holds of it. One
such property is that an operation absorbs what one server does more than another: a complete
run under the first is one under the second.
-/
namespace Waloy.Effect

variable {S : Signature} {V W ε σ τ α β : Type}

namespace Op

/-- The operations that can be made of some primitive ones. -/
inductive Made (primitive : (σ α : Type) → Op S ε σ α → Prop) :
    ∀ {σ α : Type}, Op S ε σ α → Prop where
  | primitive {σ α : Type} {x : Op S ε σ α} (h : primitive σ α x) : Made primitive x
  | pure {σ α : Type} (value : α) : Made primitive (pure value : Op S ε σ α)
  | throw {σ α : Type} (e : ε) : Made primitive (throw e : Op S ε σ α)
  | halt {σ α : Type} : Made primitive (halt : Op S ε σ α)
  | get {σ : Type} : Made primitive (get : Op S ε σ σ)
  | modify {σ : Type} (f : σ → σ) : Made primitive (modify f : Op S ε σ PUnit)
  | bind {σ α β : Type} {x : Op S ε σ α} {f : α → Op S ε σ β} (hx : Made primitive x)
      (hf : ∀ value, Made primitive (f value)) : Made primitive (x >>= f)
  | attempt {σ α : Type} {x : Op S ε σ α} (hx : Made primitive x) : Made primitive (attempt x)
  | runOn {σ τ α : Type} (t : τ) {x : Op S ε τ α} (hx : Made primitive x) :
      Made primitive (runOn t x : Op S ε σ (α × τ))

namespace Made

variable {primitive : (σ α : Type) → Op S ε σ α → Prop}

theorem ofExcept (r : Except ε α) : Made primitive (ofExcept r : Op S ε σ α) := by
  cases r with
  | ok value => exact .pure value
  | error e => exact .throw e

theorem ofOption (found : Option α) : Made primitive (ofOption found : Op S ε σ α) := by
  cases found with
  | some value => exact .pure value
  | none => exact .halt

theorem ite {c : Prop} [Decidable c] {x y : Op S ε σ α} (hx : Made primitive x)
    (hy : Made primitive y) : Made primitive (if c then x else y) := by
  split
  · exact hx
  · exact hy

/-- What the primitive operations keep of the world, and promise of every call, the others do. -/
theorem secures {serve guard : Server S W} {J : W → Prop}
    (base : ∀ {σ α : Type} {x : Op S ε σ α}, primitive σ α x →
      Secures serve guard (fun _ w => J w) x)
    {x : Op S ε σ α} (made : Made primitive x) : Secures serve guard (fun _ w => J w) x := by
  induction made with
  | primitive h => exact base h
  | pure value => exact secures_pure value
  | throw e => exact secures_throw e
  | halt => exact secures_halt
  | get => exact fun _ _ h => h
  | modify f => exact secures_modify fun _ _ h => h
  | bind _ _ first later => exact first.bind later
  | attempt _ ih => exact ih.attempt
  | runOn t _ ih =>
    intro s w h
    rw [wp_runOn]
    exact ih t w h

end Made

end Op

/-- From a world at rest, a complete run under the second server leads to rest, and what is
seen of it is a run under the first. -/
def Prog.Absorbs (serve : Server S W) (serve' : Server S V) (view : V → W) (rest : V → Prop)
    (p : Prog S α) : Prop :=
  ∀ v value v', rest v → p.Runs serve' v value v' →
    rest v' ∧ p.Runs serve (view v) value (view v')

section
variable {serve : Server S W} {serve' : Server S V} {view : V → W} {rest : V → Prop}

theorem Prog.absorbs_pure (value : α) : Prog.Absorbs serve serve' view rest (.pure value) := by
  intro v result v' still run
  obtain ⟨rfl, rfl⟩ := Prog.runs_pure.mp run
  exact ⟨still, Prog.runs_pure.mpr ⟨rfl, rfl⟩⟩

theorem Prog.absorbs_halt : Prog.Absorbs serve serve' view rest (.halt : Prog S α) :=
  fun _ _ _ _ run => absurd run Prog.not_runs_halt

theorem Prog.Absorbs.bind {p : Prog S α} {f : α → Prog S β}
    (hp : p.Absorbs serve serve' view rest)
    (hf : ∀ value, (f value).Absorbs serve serve' view rest) :
    (p.bind f).Absorbs serve serve' view rest := by
  intro v result v' still run
  obtain ⟨value, v₁, first, second⟩ := Prog.runs_bind.mp run
  obtain ⟨still₁, first⟩ := hp v value v₁ still first
  obtain ⟨still', second⟩ := hf value v₁ result v' still₁ second
  exact ⟨still', Prog.runs_bind.mpr ⟨value, view v₁, first, second⟩⟩

namespace Op

def Absorbs (serve : Server S W) (serve' : Server S V) (view : V → W) (rest : V → Prop)
    (x : Op S ε σ α) : Prop :=
  ∀ s, (x s).Absorbs serve serve' view rest

/-- A call that both servers answer alike. -/
theorem absorbs_call {c : S.Call}
    (step : ∀ v reply v', rest v → serve' v c reply v' →
      rest v' ∧ serve (view v) c reply (view v')) :
    Absorbs serve serve' view rest (call c : Op S ε σ (S.Reply c)) := by
  rintro s v ⟨r, s'⟩ v' still run
  obtain ⟨reply, served, same⟩ := runs_call.mp run
  obtain ⟨still', served⟩ := step v reply v' still served
  exact ⟨still', runs_call.mpr ⟨reply, served, same⟩⟩

/-- What its primitive operations absorb, an operation does. -/
theorem Made.absorbs {primitive : (σ α : Type) → Op S ε σ α → Prop}
    (base : ∀ {σ α : Type} {x : Op S ε σ α}, primitive σ α x → Absorbs serve serve' view rest x)
    {x : Op S ε σ α} (made : Made primitive x) : Absorbs serve serve' view rest x := by
  induction made with
  | primitive h => exact base h
  | pure value => exact fun s => Prog.absorbs_pure _
  | throw e => exact fun s => Prog.absorbs_pure _
  | halt => exact fun s => Prog.absorbs_halt
  | get => exact fun s => Prog.absorbs_pure _
  | modify f => exact fun s => Prog.absorbs_pure _
  | bind _ _ first later =>
    intro s
    rw [bind_run]
    refine (first s).bind ?_
    rintro ⟨e | value, s₁⟩
    · exact Prog.absorbs_pure _
    · exact later value s₁
  | attempt _ ih => exact fun s => (ih s).bind fun out => Prog.absorbs_pure _
  | runOn t _ ih =>
    refine fun s => (ih t).bind ?_
    rintro ⟨e | value, t'⟩
    · exact Prog.absorbs_pure _
    · exact Prog.absorbs_pure _

end Op

/-- The runs of a session under a server that does more are runs of one that does less, where
the bodies of the requests absorb it. -/
structure Setting.Absorbs {C : Client S} (setting : Setting C W) (setting' : Setting C V)
    (view : V → W) (rest : V → Prop) : Prop where
  enabled : ∀ {q s v}, setting'.enabled q s v → setting.enabled q s (view v)
  drift : ∀ {s v v'}, rest v → setting'.drift s v v' → rest v' ∧ setting.drift s (view v) (view v')
  body : ∀ {q s v}, setting'.enabled q s v →
    (C.body q s).Absorbs (setting.serve q s) (setting'.serve q s) view rest

namespace Setting.Absorbs

variable {C : Client S} {setting : Setting C W} {setting' : Setting C V} {s₀ : C.State} {v₀ : V}

/-- Where a run stands: at rest between two requests, or on the way of one that began at rest. -/
def Stage (setting : Setting C W) (setting' : Setting C V) (view : V → W) (rest : V → Prop)
    (s₀ : C.State) (v₀ : V) : Conf C V → Prop
  | .idle s v => rest v ∧ setting.Reach (.idle s₀ (view v₀)) (.idle s (view v))
  | .running q s start p v => rest start ∧ setting'.enabled q s start ∧
    setting.Reach (.idle s₀ (view v₀)) (.idle s (view start)) ∧
    Steps (setting'.serve q s) (C.body q s, start) (p, v)

variable (absorbs : setting.Absorbs setting' view rest)
include absorbs

theorem completed {q : C.Request} {s s' : C.State} {start v : V} {result : C.Result}
    (stage : Stage setting setting' view rest s₀ v₀ (.running q s start (.pure (result, s')) v)) :
    rest v ∧ setting.Reach (.idle s₀ (view v₀))
      (.running q s (view start) (.pure (result, s')) (view v)) := by
  obtain ⟨still, enabled, before, steps⟩ := stage
  obtain ⟨still', run⟩ := absorbs.body enabled start (result, s') v still steps
  exact ⟨still', (before.tail (.issue (absorbs.enabled enabled))).trans (Reach.of_steps run)⟩

theorem stage_move {c c' : Conf C V} (move : setting'.Move c c')
    (stage : Stage setting setting' view rest s₀ v₀ c) :
    Stage setting setting' view rest s₀ v₀ c' := by
  cases move with
  | issue allowed => exact ⟨stage.1, allowed, stage.2, .refl⟩
  | call served =>
    obtain ⟨still, enabled, before, steps⟩ := stage
    exact ⟨still, enabled, before, steps.tail (.call served)⟩
  | finish =>
    obtain ⟨still, run⟩ := absorbs.completed stage
    exact ⟨still, run.finish⟩
  | drift moved =>
    obtain ⟨still, moved⟩ := absorbs.drift stage.1 moved
    exact ⟨still, stage.2.tail (.drift moved)⟩

theorem stage_reach {c : Conf C V} (still : rest v₀) (run : setting'.Reach (.idle s₀ v₀) c) :
    Stage setting setting' view rest s₀ v₀ c := by
  induction run with
  | refl => exact ⟨still, .refl⟩
  | tail _ move ih => exact absorbs.stage_move move ih

theorem idle {s : C.State} {v : V} (still : rest v₀)
    (run : setting'.Reach (.idle s₀ v₀) (.idle s v)) :
    rest v ∧ setting.Reach (.idle s₀ (view v₀)) (.idle s (view v)) :=
  absorbs.stage_reach still run

theorem returned {q : C.Request} {s s' : C.State} {start v : V} {result : C.Result}
    (still : rest v₀)
    (run : setting'.Reach (.idle s₀ v₀) (.running q s start (.pure (result, s')) v)) :
    rest v ∧ setting.Reach (.idle s₀ (view v₀))
      (.running q s (view start) (.pure (result, s')) (view v)) :=
  absorbs.completed (absorbs.stage_reach still run)

end Setting.Absorbs

end

end Waloy.Effect
