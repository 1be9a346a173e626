import Waloy.Effect.Prog

/-!
# Operations: programs with a state and an error

An operation runs on a state that it keeps when it fails, as a method on
`&mut self` does when `?` leaves it early. Its specification has one postcondition
for a normal return and one for an error.
-/
namespace Waloy.Effect

/-- A method that reads and writes `σ`, may return an error and calls the world. -/
abbrev Op (S : Signature) (ε σ α : Type) := ExceptT ε (StateT σ (Prog S)) α

namespace Op

variable {S : Signature} {W ε σ α β : Type}

/-- Ask the world and go on with its answer. -/
def call (c : S.Call) : Op S ε σ (S.Reply c) :=
  fun s => .call c (fun reply => .pure (.ok reply, s))

/-- Stop for good: the process panics, or the loop goes on beyond its fuel. -/
def halt : Op S ε σ α := fun _ => .halt

/-- Run an operation and hand back its result without leaving on an error. -/
def attempt (x : Op S ε σ α) : Op S ε σ (Except ε α) :=
  fun s => (x s).bind fun out => .pure (.ok out.1, out.2)

/-- The value of a result that is already there, or its error. -/
def ofExcept : Except ε α → Op S ε σ α
  | .ok value => pure value
  | .error e => throw e

/-- A value that is there unless the code panics. -/
def ofOption : Option α → Op S ε σ α
  | some value => pure value
  | none => halt

/-- Run an operation on a state of its own, which is lost when it fails. -/
def runOn {τ : Type} (t : τ) (x : Op S ε τ α) : Op S ε σ (α × τ) :=
  fun s => (x t).bind fun out =>
    match out.1 with
    | .ok value => .pure (.ok (value, out.2), s)
    | .error e => .pure (.error e, s)

/-- What holds of every run of the operation, returning a value or an error. -/
def wp (serve guard : Server S W) (x : Op S ε σ α) (ok : α → σ → W → Prop)
    (err : ε → σ → W → Prop) (s : σ) (w : W) : Prop :=
  Prog.wp serve guard (x s) (fun out w' =>
    match out.1 with
    | .ok value => ok value out.2 w'
    | .error e => err e out.2 w') w

variable {serve guard : Server S W} {ok : α → σ → W → Prop} {err : ε → σ → W → Prop}
  {s : σ} {w : W}

@[simp] theorem wp_pure (value : α) :
    wp serve guard (pure value : Op S ε σ α) ok err s w ↔ ok value s w := Iff.rfl

@[simp] theorem wp_throw (e : ε) :
    wp serve guard (throw e : Op S ε σ α) ok err s w ↔ err e s w := Iff.rfl

@[simp] theorem wp_halt : wp serve guard (halt : Op S ε σ α) ok err s w := trivial

@[simp] theorem wp_get {ok : σ → σ → W → Prop} :
    wp serve guard (get : Op S ε σ σ) ok err s w ↔ ok s s w := Iff.rfl

@[simp] theorem wp_set {ok : PUnit → σ → W → Prop} (s' : σ) :
    wp serve guard (set s' : Op S ε σ PUnit) ok err s w ↔ ok ⟨⟩ s' w := Iff.rfl

@[simp] theorem wp_modify {ok : PUnit → σ → W → Prop} (f : σ → σ) :
    wp serve guard (modify f : Op S ε σ PUnit) ok err s w ↔ ok ⟨⟩ (f s) w := Iff.rfl

theorem wp_call {c : S.Call} {ok : S.Reply c → σ → W → Prop} :
    wp serve guard (call c : Op S ε σ (S.Reply c)) ok err s w ↔
      ∀ reply w', serve w c reply w' → guard w c reply w' ∧ ok reply s w' := Iff.rfl

@[simp] theorem wp_ofExcept (r : Except ε α) :
    wp serve guard (ofExcept r : Op S ε σ α) ok err s w ↔
      match r with
      | .ok value => ok value s w
      | .error e => err e s w := by
  cases r <;> rfl

@[simp] theorem wp_ofOption (r : Option α) :
    wp serve guard (ofOption r : Op S ε σ α) ok err s w ↔ ∀ value, r = some value → ok value s w := by
  cases r <;> simp [ofOption]

theorem bind_run (x : Op S ε σ α) (f : α → Op S ε σ β) (s : σ) :
    (x >>= f) s = (x s).bind fun out =>
      match out.1 with
      | .ok value => f value out.2
      | .error e => .pure (.error e, out.2) := by
  change Prog.bind (x s) _ = _
  congr 1
  funext out
  rcases out with ⟨_ | _, _⟩ <;> rfl

theorem bind_assoc {γ : Type} (x : Op S ε σ α) (f : α → Op S ε σ β) (g : β → Op S ε σ γ) :
    (x >>= f) >>= g = x >>= fun value => f value >>= g := by
  funext s
  rw [bind_run, bind_run, bind_run, Prog.bind_assoc]
  congr 1
  funext out
  rcases out with ⟨e | value, s'⟩
  · rfl
  · exact (bind_run (f value) g s').symm

@[simp] theorem wp_bind (x : Op S ε σ α) (f : α → Op S ε σ β) {ok : β → σ → W → Prop} :
    wp serve guard (x >>= f) ok err s w ↔
      wp serve guard x (fun value s' w' => wp serve guard (f value) ok err s' w') err s w := by
  unfold wp
  rw [bind_run, Prog.wp_bind]
  refine Prog.wp_congr ?_ _ _
  rintro ⟨_ | _, _⟩ _ <;> rfl

@[simp] theorem wp_map (x : Op S ε σ α) (f : α → β) {ok : β → σ → W → Prop} :
    wp serve guard (f <$> x) ok err s w ↔
      wp serve guard x (fun value s' w' => ok (f value) s' w') err s w :=
  wp_bind x (fun value => pure (f value))

@[simp] theorem wp_attempt (x : Op S ε σ α) {ok : Except ε α → σ → W → Prop} :
    wp serve guard (attempt x) ok err s w ↔
      wp serve guard x (fun value => ok (.ok value)) (fun e => ok (.error e)) s w := by
  unfold wp attempt
  rw [Prog.wp_bind]
  refine Prog.wp_congr ?_ _ _
  rintro ⟨_ | _, _⟩ _ <;> rfl

@[simp] theorem wp_runOn {τ : Type} (t : τ) (x : Op S ε τ α) {ok : α × τ → σ → W → Prop} :
    wp serve guard (runOn t x : Op S ε σ (α × τ)) ok err s w ↔
      wp serve guard x (fun value t' => ok (value, t') s) (fun e _ => err e s) t w := by
  unfold wp runOn
  rw [Prog.wp_bind]
  refine Prog.wp_congr ?_ _ _
  rintro ⟨_ | _, _⟩ _ <;> rfl

theorem wp_mono {ok' : α → σ → W → Prop} {err' : ε → σ → W → Prop} {x : Op S ε σ α}
    (h : wp serve guard x ok err s w) (hok : ∀ value s w, ok value s w → ok' value s w)
    (herr : ∀ e s w, err e s w → err' e s w) : wp serve guard x ok' err' s w := by
  unfold wp at h ⊢
  refine Prog.wp_mono (fun _ _ _ _ h => h) (fun _ _ _ _ h => h) ?_ _ _ h
  rintro ⟨result, s'⟩ w'
  cases result with
  | ok value => exact hok value s' w'
  | error e => exact herr e s' w'

/-- What holds of every result holds of the result of every run. -/
theorem wp_of_forall {x : Op S ε σ α} (hok : ∀ value s w, ok value s w)
    (herr : ∀ e s w, err e s w) : wp serve (fun _ _ _ _ => True) x ok err s w := by
  refine Prog.wp_mono (fun _ _ _ _ h => h) (fun _ _ _ _ h => h) ?_ _ _ (Prog.wp_trivial _ w)
  rintro ⟨result, s'⟩ w' -
  cases result with
  | ok value => exact hok value s' w'
  | error e => exact herr e s' w'

theorem wp_congr {ok' : α → σ → W → Prop} {err' : ε → σ → W → Prop} {x : Op S ε σ α}
    (hok : ∀ value s w, ok value s w ↔ ok' value s w) (herr : ∀ e s w, err e s w ↔ err' e s w) :
    wp serve guard x ok err s w ↔ wp serve guard x ok' err' s w :=
  ⟨fun h => wp_mono h (fun v s w => (hok v s w).mp) (fun e s w => (herr e s w).mp),
    fun h => wp_mono h (fun v s w => (hok v s w).mpr) (fun e s w => (herr e s w).mpr)⟩

theorem wp_ite {c : Prop} [Decidable c] {x y : Op S ε σ α}
    (hx : c → wp serve guard x ok err s w) (hy : ¬ c → wp serve guard y ok err s w) :
    wp serve guard (if c then x else y) ok err s w := by
  split
  case isTrue h => exact hx h
  case isFalse h => exact hy h

/-- The operation asks only for calls of one kind. -/
def Uses (allowed : S.Call → Prop) (x : Op S ε σ α) : Prop := ∀ s, (x s).Uses allowed

section
variable {allowed : S.Call → Prop}

theorem uses_pure (value : α) : Uses allowed (pure value : Op S ε σ α) := fun _ => trivial

theorem uses_throw (e : ε) : Uses allowed (throw e : Op S ε σ α) := fun _ => trivial

theorem uses_call {c : S.Call} (h : allowed c) :
    Uses allowed (call c : Op S ε σ (S.Reply c)) := fun _ => ⟨h, fun _ => trivial⟩

theorem uses_ofExcept (r : Except ε α) : Uses allowed (ofExcept r : Op S ε σ α) := by
  cases r with
  | ok value => exact uses_pure value
  | error e => exact uses_throw e

theorem uses_bind {x : Op S ε σ α} {f : α → Op S ε σ β} (hx : Uses allowed x)
    (hf : ∀ value, Uses allowed (f value)) : Uses allowed (x >>= f) := by
  intro s
  rw [bind_run]
  refine (hx s).bind ?_
  rintro ⟨_ | value, s'⟩
  · trivial
  · exact hf value s'

theorem uses_attempt {x : Op S ε σ α} (hx : Uses allowed x) : Uses allowed (attempt x) :=
  fun s => (hx s).bind fun _ => trivial

/-- What the calls of one kind preserve holds after an operation of such calls. -/
theorem Uses.wp {inv : W → Prop}
    (hcall : ∀ w c reply w', inv w → allowed c → serve w c reply w' →
      guard w c reply w' ∧ inv w')
    {x : Op S ε σ α} (hx : Uses allowed x) (s : σ) (w : W) (hw : inv w) :
    wp serve guard x (fun _ _ w' => inv w') (fun _ _ w' => inv w') s w := by
  refine Prog.wp_mono (fun _ _ _ _ h => h) (fun _ _ _ _ h => h) ?_ _ _
    (Prog.Uses.wp hcall (hx s) w hw)
  rintro ⟨_ | _, _⟩ w' h <;> exact h

end

section
variable {answer : W → (c : S.Call) → Option (S.Reply c × W)}

/-- The run of an operation in a world that answers by a function. -/
def interp (answer : W → (c : S.Call) → Option (S.Reply c × W)) (x : Op S ε σ α) (s : σ) (w : W) :
    Option ((Except ε α × σ) × W) :=
  Prog.interp answer (x s) w

@[simp] theorem interp_pure (value : α) (s : σ) (w : W) :
    interp answer (pure value : Op S ε σ α) s w = some ((.ok value, s), w) := rfl

@[simp] theorem interp_throw (e : ε) (s : σ) (w : W) :
    interp answer (throw e : Op S ε σ α) s w = some ((.error e, s), w) := rfl

@[simp] theorem interp_call (c : S.Call) (s : σ) (w : W) :
    interp answer (call c : Op S ε σ (S.Reply c)) s w =
      (answer w c).map fun out => ((.ok out.1, s), out.2) := by
  unfold interp call
  rw [Prog.interp]
  cases answer w c <;> rfl

@[simp] theorem interp_ofExcept (r : Except ε α) (s : σ) (w : W) :
    interp answer (ofExcept r : Op S ε σ α) s w = some ((r, s), w) := by
  cases r <;> rfl

@[simp] theorem interp_ofOption (r : Option α) (s : σ) (w : W) :
    interp answer (ofOption r : Op S ε σ α) s w = r.map fun value => ((.ok value, s), w) := by
  cases r <;> rfl

theorem interp_bind (x : Op S ε σ α) (f : α → Op S ε σ β) (s : σ) (w : W) :
    interp answer (x >>= f) s w = (interp answer x s w).bind fun out =>
      match out.1.1 with
      | .ok value => interp answer (f value) out.1.2 out.2
      | .error e => some ((.error e, out.1.2), out.2) := by
  unfold interp
  rw [bind_run, Prog.interp_bind]
  cases Prog.interp answer (x s) w with
  | none => rfl
  | some out =>
    obtain ⟨⟨_ | _, _⟩, _⟩ := out <;> rfl

theorem interp_bind_ok {x : Op S ε σ α} {value : α} {s s' : σ} {w w' : W}
    (h : interp answer x s w = some ((.ok value, s'), w')) (f : α → Op S ε σ β) :
    interp answer (x >>= f) s w = interp answer (f value) s' w' := by
  rw [interp_bind, h]
  rfl

theorem interp_bind_error {x : Op S ε σ α} {e : ε} {s s' : σ} {w w' : W}
    (h : interp answer x s w = some ((.error e, s'), w')) (f : α → Op S ε σ β) :
    interp answer (x >>= f) s w = some ((.error e, s'), w') := by
  rw [interp_bind, h]
  rfl

theorem interp_attempt {x : Op S ε σ α} {r : Except ε α} {s s' : σ} {w w' : W}
    (h : interp answer x s w = some ((r, s'), w')) :
    interp answer (attempt x) s w = some ((.ok r, s'), w') := by
  unfold interp attempt at *
  rw [Prog.interp_bind, h]
  rfl

end

section
variable {ok : α → σ → W → Prop} {s : σ} {w : W}

/-- Some run of the operation returns a value with this property. -/
def may (serve : Server S W) (x : Op S ε σ α) (ok : α → σ → W → Prop) (s : σ) (w : W) : Prop :=
  ∃ value s' w', Steps serve (x s, w) (.pure (.ok value, s'), w') ∧ ok value s' w'

theorem may_pure {value : α} (h : ok value s w) : may serve (pure value : Op S ε σ α) ok s w :=
  ⟨value, s, w, .refl, h⟩

theorem may_get {ok : σ → σ → W → Prop} (h : ok s s w) : may serve (get : Op S ε σ σ) ok s w :=
  ⟨s, s, w, .refl, h⟩

theorem may_modify {ok : PUnit → σ → W → Prop} {f : σ → σ} (h : ok ⟨⟩ (f s) w) :
    may serve (modify f : Op S ε σ PUnit) ok s w :=
  ⟨⟨⟩, f s, w, .refl, h⟩

theorem may_call {c : S.Call} {reply : S.Reply c} {w' : W} {ok : S.Reply c → σ → W → Prop}
    (served : serve w c reply w') (h : ok reply s w') :
    may serve (call c : Op S ε σ (S.Reply c)) ok s w :=
  ⟨reply, s, w', .single (.call served), h⟩

theorem may_bind {x : Op S ε σ α} {f : α → Op S ε σ β} {ok : β → σ → W → Prop}
    (h : may serve x (fun value s' w' => may serve (f value) ok s' w') s w) :
    may serve (x >>= f) ok s w := by
  obtain ⟨value, s', w', first, result, s'', w'', second, holds⟩ := h
  refine ⟨result, s'', w'', ?_, holds⟩
  rw [bind_run]
  exact (first.bind _).trans second

theorem may_attempt {x : Op S ε σ α} {ok : Except ε α → σ → W → Prop}
    (h : may serve x (fun value => ok (.ok value)) s w) : may serve (attempt x) ok s w := by
  obtain ⟨value, s', w', steps, holds⟩ := h
  exact ⟨.ok value, s', w', steps.bind _, holds⟩

end

end Op

end Waloy.Effect
