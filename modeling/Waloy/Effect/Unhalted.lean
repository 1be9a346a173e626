import Waloy.Effect.Within

/-!
# Operations that never halt

A program halts where the source panics. One that does not halt, whatever it is answered,
ends with a value or an error after every run whose calls are answered.
-/
namespace Waloy.Effect

variable {S : Signature} {α β : Type} {allowed : S.Call → Prop}

namespace Prog

/-- The program asks for calls of one kind, never halts, and its value is as promised. -/
def Ends (allowed : S.Call → Prop) (post : α → Prop) : Prog S α → Prop
  | .pure value => post value
  | .call c next => allowed c ∧ ∀ reply, (next reply).Ends allowed post
  | .halt => False

theorem Ends.mono {post post' : α → Prop} (h : ∀ value, post value → post' value)
    {p : Prog S α} (ends : p.Ends allowed post) : p.Ends allowed post' := by
  induction p with
  | pure value => exact h value ends
  | call c next ih => exact ⟨ends.1, fun reply => ih reply (ends.2 reply)⟩
  | halt => exact ends

theorem ends_bind {post : β → Prop} {p : Prog S α} {f : α → Prog S β} :
    (p.bind f).Ends allowed post ↔ p.Ends allowed fun value => (f value).Ends allowed post := by
  induction p with
  | pure value => rfl
  | call c next ih => exact and_congr_right fun _ => forall_congr' ih
  | halt => rfl

theorem Ends.wp {post : α → Prop} {p : Prog S α} (ends : p.Ends allowed post) :
    p.wp (fun (_ : Unit) _ _ _ => True) (fun _ c _ _ => allowed c) (fun value _ => post value) () := by
  induction p with
  | pure value => exact ends
  | call c next ih => exact fun reply _ _ => ⟨ends.1, ih reply (ends.2 reply)⟩
  | halt => trivial

end Prog

namespace Op

variable {ε σ : Type} {I : σ → Prop}

/-- From a state of the invariant no run halts, all calls are allowed, and each run ends in
such a state. -/
def Unhalted (allowed : S.Call → Prop) (I : σ → Prop) (x : Op S ε σ α) : Prop :=
  ∀ s, I s → (x s).Ends allowed fun out => I out.2

theorem unhalted_pure (value : α) : Unhalted allowed I (pure value : Op S ε σ α) := fun _ h => h

theorem unhalted_throw (e : ε) : Unhalted allowed I (throw e : Op S ε σ α) := fun _ h => h

theorem unhalted_modify {f : σ → σ} (hf : ∀ s, I s → I (f s)) :
    Unhalted allowed I (modify f : Op S ε σ PUnit) := hf

theorem unhalted_call {c : S.Call} (h : allowed c) :
    Unhalted allowed I (call c : Op S ε σ (S.Reply c)) := fun _ hs => ⟨h, fun _ => hs⟩

theorem unhalted_ofExcept (r : Except ε α) : Unhalted allowed I (ofExcept r : Op S ε σ α) := by
  cases r with
  | ok value => exact unhalted_pure value
  | error e => exact unhalted_throw e

theorem unhalted_ofOption {r : Option α} (some : r.isSome) :
    Unhalted allowed I (ofOption r : Op S ε σ α) := by
  obtain ⟨value, rfl⟩ := Option.isSome_iff_exists.mp some
  exact unhalted_pure value

theorem Unhalted.bind {x : Op S ε σ α} {f : α → Op S ε σ β} (hx : Unhalted allowed I x)
    (hf : ∀ value, Unhalted allowed I (f value)) : Unhalted allowed I (x >>= f) := by
  intro s hs
  refine Prog.ends_bind.mpr ((hx s hs).mono ?_)
  rintro ⟨e | value, s'⟩ hs'
  · exact hs'
  · exact hf value s' hs'

/-- The state that is read satisfies the invariant. -/
theorem unhalted_get {f : σ → Op S ε σ β} (hf : ∀ s, I s → Unhalted allowed I (f s)) :
    Unhalted allowed I (get >>= f) := fun s hs => hf s hs s hs

theorem Unhalted.attempt {x : Op S ε σ α} (hx : Unhalted allowed I x) :
    Unhalted allowed I (attempt x) := fun s hs => Prog.ends_bind.mpr (hx s hs)

theorem Unhalted.ite {c : Prop} [Decidable c] {x y : Op S ε σ α} (hx : c → Unhalted allowed I x)
    (hy : ¬ c → Unhalted allowed I y) : Unhalted allowed I (if c then x else y) := by
  by_cases h : c
  · rw [if_pos h]
    exact hx h
  · rw [if_neg h]
    exact hy h

theorem ends_get {f : σ → Op S ε σ β} {s : σ} {post : Except ε β × σ → Prop} :
    ((get >>= f) s).Ends allowed post ↔ (f s s).Ends allowed post := Iff.rfl

theorem ends_modify {f : σ → σ} {x : Op S ε σ β} {s : σ} {post : Except ε β × σ → Prop} :
    ((modify f >>= fun _ => x) s).Ends allowed post ↔ (x (f s)).Ends allowed post := Iff.rfl

/-- The way on from an operation to what its result leads to. -/
theorem Unhalted.next {x : Op S ε σ α} {f : α → Op S ε σ β} {s : σ} (hx : Unhalted allowed I x)
    (hs : I s) (hf : ∀ value s', I s' → ((f value) s').Ends allowed fun _ => True) :
    ((x >>= f) s).Ends allowed fun _ => True := by
  refine Prog.ends_bind.mpr ((hx s hs).mono ?_)
  rintro ⟨e | value, s'⟩ hs'
  · trivial
  · exact hf value s' hs'

theorem Unhalted.within {x : Op S ε σ α} (hx : Unhalted allowed I x) : Within allowed I x := by
  intro s hs
  refine (Prog.wp_congr ?_ _ _).mp (hx s hs).wp
  rintro ⟨_ | _, _⟩ _ <;> rfl

end Op
end Waloy.Effect
