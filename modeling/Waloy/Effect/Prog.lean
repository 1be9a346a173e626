import Mathlib.Logic.Relation

/-!
# Programs that call an outside world

A program over a signature asks for calls one after the other and goes on with
each answer; it ends with a value or halts (a panic, or a loop that has run out
of the fuel it was given). The world that answers is a relation, so one program
is run under a world that never fails, under one whose calls may fail, or
beside other parties that act between its calls.

`Prog.wp` is the weakest precondition of a program with a guarantee on every
single call; `Steps.sound` connects it to the small steps of the program, so
what it promises holds at every point of a run, finished or not.
-/
namespace Waloy.Effect

/-- The calls a program may ask for, with the type of each answer. -/
structure Signature where
  Call : Type
  Reply : Call → Type

inductive Prog (S : Signature) (α : Type) : Type where
  | pure (value : α)
  | call (c : S.Call) (next : S.Reply c → Prog S α)
  | halt

/-- The answers a world may give to a call, and the world after each. -/
abbrev Server (S : Signature) (W : Type) := W → (c : S.Call) → S.Reply c → W → Prop

variable {S : Signature} {W α β γ : Type}

namespace Prog

def bind : Prog S α → (α → Prog S β) → Prog S β
  | .pure value, f => f value
  | .call c next, f => .call c (fun reply => (next reply).bind f)
  | .halt, _ => .halt

instance : Monad (Prog S) where
  pure := .pure
  bind := .bind

theorem bind_assoc (p : Prog S α) (f : α → Prog S β) (g : β → Prog S γ) :
    (p.bind f).bind g = p.bind fun value => (f value).bind g := by
  induction p with
  | pure value => rfl
  | call c next ih => exact congrArg (Prog.call c) (funext ih)
  | halt => rfl

/-- What holds of the result of every run of the program that starts in a world,
when every single call satisfies the guarantee. -/
def wp (serve guard : Server S W) : Prog S α → (α → W → Prop) → W → Prop
  | .pure value, post, w => post value w
  | .call c next, post, w => ∀ reply w', serve w c reply w' →
      guard w c reply w' ∧ (next reply).wp serve guard post w'
  | .halt, _, _ => True

theorem wp_mono {serve serve' guard guard' : Server S W} {post post' : α → W → Prop}
    (hserve : ∀ w c reply w', serve' w c reply w' → serve w c reply w')
    (hguard : ∀ w c reply w', guard w c reply w' → guard' w c reply w')
    (hpost : ∀ value w, post value w → post' value w) (p : Prog S α) (w : W)
    (h : p.wp serve guard post w) : p.wp serve' guard' post' w := by
  induction p generalizing w with
  | pure value => exact hpost value w h
  | call c next ih =>
    intro reply w' served
    obtain ⟨guarded, rest⟩ := h reply w' (hserve _ _ _ _ served)
    exact ⟨hguard _ _ _ _ guarded, ih reply w' rest⟩
  | halt => trivial

theorem wp_congr {serve guard : Server S W} {post post' : α → W → Prop}
    (hpost : ∀ value w, post value w ↔ post' value w) (p : Prog S α) (w : W) :
    p.wp serve guard post w ↔ p.wp serve guard post' w := by
  constructor
  · exact wp_mono (fun _ _ _ _ h => h) (fun _ _ _ _ h => h) (fun v w => (hpost v w).mp) p w
  · exact wp_mono (fun _ _ _ _ h => h) (fun _ _ _ _ h => h) (fun v w => (hpost v w).mpr) p w

theorem wp_bind (serve guard : Server S W) (post : β → W → Prop) (p : Prog S α)
    (f : α → Prog S β) (w : W) :
    (p.bind f).wp serve guard post w ↔
      p.wp serve guard (fun value w' => (f value).wp serve guard post w') w := by
  induction p generalizing w with
  | pure value => rfl
  | call c next ih =>
    exact forall₃_congr fun reply w' _ => and_congr_right fun _ => ih reply w'
  | halt => rfl

/-- Two specifications of one program hold together. -/
theorem wp_and {serve guard guard' : Server S W} {post post' : α → W → Prop} (p : Prog S α)
    (w : W) (h : p.wp serve guard post w) (h' : p.wp serve guard' post' w) :
    p.wp serve (fun w c reply w' => guard w c reply w' ∧ guard' w c reply w')
      (fun value w' => post value w' ∧ post' value w') w := by
  induction p generalizing w with
  | pure value => exact ⟨h, h'⟩
  | call c next ih =>
    intro reply w' served
    obtain ⟨guarded, rest⟩ := h reply w' served
    obtain ⟨guarded', rest'⟩ := h' reply w' served
    exact ⟨⟨guarded, guarded'⟩, ih reply w' rest rest'⟩
  | halt => trivial

/-- Of every program it holds that nothing is claimed. -/
theorem wp_trivial {serve : Server S W} (p : Prog S α) (w : W) :
    p.wp serve (fun _ _ _ _ => True) (fun _ _ => True) w := by
  induction p generalizing w with
  | pure value => trivial
  | call c next ih => exact fun reply w' _ => ⟨trivial, ih reply w'⟩
  | halt => trivial

/-- The program asks only for calls of one kind. -/
def Uses (allowed : S.Call → Prop) : Prog S α → Prop
  | .pure _ => True
  | .call c next => allowed c ∧ ∀ reply, (next reply).Uses allowed
  | .halt => True

theorem Uses.bind {allowed : S.Call → Prop} {p : Prog S α} {f : α → Prog S β}
    (hp : p.Uses allowed) (hf : ∀ value, (f value).Uses allowed) : (p.bind f).Uses allowed := by
  induction p with
  | pure value => exact hf value
  | call c next ih => exact ⟨hp.1, fun reply => ih reply (hp.2 reply)⟩
  | halt => trivial

/-- What the calls of one kind preserve holds after a program of such calls. -/
theorem Uses.wp {serve guard : Server S W} {allowed : S.Call → Prop} {inv : W → Prop}
    (hcall : ∀ w c reply w', inv w → allowed c → serve w c reply w' →
      guard w c reply w' ∧ inv w')
    {p : Prog S α} (hp : p.Uses allowed) (w : W) (hw : inv w) :
    p.wp serve guard (fun _ w' => inv w') w := by
  induction p generalizing w with
  | pure value => exact hw
  | call c next ih =>
    intro reply w' served
    obtain ⟨guarded, kept⟩ := hcall w c reply w' hw hp.1 served
    exact ⟨guarded, ih reply (hp.2 reply) w' kept⟩
  | halt => trivial

/-- The run of a program in a world that answers by a function; `none` where the
program halts or the world has no answer. -/
def interp (answer : W → (c : S.Call) → Option (S.Reply c × W)) :
    Prog S α → W → Option (α × W)
  | .pure value, w => some (value, w)
  | .call c next, w =>
    match answer w c with
    | some (reply, w') => (next reply).interp answer w'
    | none => none
  | .halt, _ => none

theorem interp_bind (answer : W → (c : S.Call) → Option (S.Reply c × W)) (p : Prog S α)
    (f : α → Prog S β) (w : W) :
    (p.bind f).interp answer w =
      (p.interp answer w).bind (fun out => (f out.1).interp answer out.2) := by
  induction p generalizing w with
  | pure value => rfl
  | call c next ih =>
    simp only [Prog.bind, interp]
    cases answer w c with
    | none => rfl
    | some out => exact ih out.1 out.2
  | halt => rfl

end Prog

/-- One answered call of a program. -/
inductive Step (serve : Server S W) : Prog S α × W → Prog S α × W → Prop where
  | call {c : S.Call} {next : S.Reply c → Prog S α} {w w' : W} {reply : S.Reply c}
      (served : serve w c reply w') : Step serve (.call c next, w) (next reply, w')

/-- Any number of answered calls: the points a run of the program passes through. -/
abbrev Steps (serve : Server S W) : Prog S α × W → Prog S α × W → Prop :=
  Relation.ReflTransGen (Step serve)

theorem Step.sound {serve guard : Server S W} {post : α → W → Prop}
    {before after : Prog S α × W} (step : Step serve before after)
    (h : before.1.wp serve guard post before.2) :
    (∃ c reply, serve before.2 c reply after.2 ∧ guard before.2 c reply after.2) ∧
      after.1.wp serve guard post after.2 := by
  cases step with
  | call served =>
    obtain ⟨guarded, rest⟩ := h _ _ served
    exact ⟨⟨_, _, served, guarded⟩, rest⟩

theorem Steps.sound {serve guard : Server S W} {post : α → W → Prop}
    {before after : Prog S α × W} (steps : Steps serve before after)
    (h : before.1.wp serve guard post before.2) :
    after.1.wp serve guard post after.2 := by
  induction steps with
  | refl => exact h
  | tail _ step ih => exact (step.sound ih).2

/-- What every call re-establishes holds at every point of the run. -/
theorem Steps.always {serve : Server S W} {always : W → Prop} {post : α → W → Prop}
    {before after : Prog S α × W} (steps : Steps serve before after)
    (h : before.1.wp serve (fun _ _ _ w' => always w') post before.2)
    (hstart : always before.2) : always after.2 := by
  induction steps with
  | refl => exact hstart
  | tail first step _ =>
    obtain ⟨⟨_, _, _, guarded⟩, _⟩ := step.sound (Steps.sound first h)
    exact guarded

theorem Steps.result {serve guard : Server S W} {post : α → W → Prop} {p : Prog S α} {w w' : W}
    {value : α} (steps : Steps serve (p, w) (.pure value, w'))
    (h : p.wp serve guard post w) : post value w' :=
  steps.sound h

/-- The calls of the first program, before those of the second. -/
theorem Steps.bind {serve : Server S W} {before after : Prog S α × W}
    (steps : Steps serve before after) (f : α → Prog S β) :
    Steps serve (before.1.bind f, before.2) (after.1.bind f, after.2) := by
  induction steps with
  | refl => exact .refl
  | tail _ step ih =>
    cases step with
    | call served => exact ih.tail (.call served)

/-- A run computed by `interp` is a run under every server that admits its answers. -/
theorem Steps.of_interp {serve : Server S W} {answer : W → (c : S.Call) → Option (S.Reply c × W)}
    (hanswer : ∀ w c reply w', answer w c = some (reply, w') → serve w c reply w')
    (p : Prog S α) (w : W) {value : α} {w' : W} (h : p.interp answer w = some (value, w')) :
    Steps serve (p, w) (.pure value, w') := by
  induction p generalizing w with
  | pure value' =>
    simp only [Prog.interp, Option.some.injEq, Prod.mk.injEq] at h
    obtain ⟨rfl, rfl⟩ := h
    exact .refl
  | call c next ih =>
    simp only [Prog.interp] at h
    cases answered : answer w c with
    | none => simp [answered] at h
    | some out =>
      simp only [answered] at h
      exact .head (.call (hanswer _ _ _ _ answered)) (ih out.1 out.2 h)
  | halt => simp [Prog.interp] at h

end Waloy.Effect
