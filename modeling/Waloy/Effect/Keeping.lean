import Waloy.Effect.Within

/-!
# Operations that keep an invariant of state and world

An invariant ties the state of an operation to the world that answers its calls. What
every call and every assignment keeps, the operation keeps, whether it returns or fails.
-/
namespace Waloy.Effect
namespace Op

variable {S : Signature} {W ε σ τ α β : Type} {serve : Server S W} {I : σ → W → Prop}

section
variable {guard : Server S W}

/-- From a state and a world of the invariant, every call meets the guarantee and every run
ends in such ones. -/
def Secures (serve guard : Server S W) (I : σ → W → Prop) (x : Op S ε σ α) : Prop :=
  ∀ s w, I s w → wp serve guard x (fun _ s' w' => I s' w') (fun _ s' w' => I s' w') s w

theorem secures_pure (value : α) : Secures serve guard I (pure value : Op S ε σ α) := fun _ _ h => h

theorem secures_throw (e : ε) : Secures serve guard I (throw e : Op S ε σ α) := fun _ _ h => h

theorem secures_halt : Secures serve guard I (halt : Op S ε σ α) := fun _ _ _ => trivial

theorem secures_modify {f : σ → σ} (hf : ∀ s w, I s w → I (f s) w) :
    Secures serve guard I (modify f : Op S ε σ PUnit) := hf

theorem secures_call {c : S.Call}
    (h : ∀ s w reply w', I s w → serve w c reply w' → guard w c reply w' ∧ I s w') :
    Secures serve guard I (call c : Op S ε σ (S.Reply c)) :=
  fun s w hs reply w' served => h s w reply w' hs served

theorem secures_ofExcept (r : Except ε α) : Secures serve guard I (ofExcept r : Op S ε σ α) := by
  cases r with
  | ok value => exact secures_pure value
  | error e => exact secures_throw e

theorem secures_ofOption (r : Option α) : Secures serve guard I (ofOption r : Op S ε σ α) := by
  cases r with
  | some value => exact secures_pure value
  | none => exact secures_halt

theorem Secures.bind {x : Op S ε σ α} {f : α → Op S ε σ β} (hx : Secures serve guard I x)
    (hf : ∀ value, Secures serve guard I (f value)) : Secures serve guard I (x >>= f) := by
  intro s w h
  rw [wp_bind]
  exact wp_mono (hx s w h) (fun value s' w' h' => hf value s' w' h') fun _ _ _ h' => h'

/-- The way on from an operation that keeps the invariant to what its result leads to. -/
theorem Secures.next {x : Op S ε σ α} {f : α → Op S ε σ β} {ok : β → σ → W → Prop}
    {err : ε → σ → W → Prop} {s : σ} {w : W} (hx : Secures serve guard I x) (h : I s w)
    (hok : ∀ value s' w', I s' w' → wp serve guard (f value) ok err s' w')
    (herr : ∀ e s' w', I s' w' → err e s' w') :
    wp serve guard (x >>= f) ok err s w := by
  rw [wp_bind]
  exact wp_mono (hx s w h) hok herr

/-- The state that is read satisfies the invariant in the world of that moment. -/
theorem secures_get {f : σ → Op S ε σ β} (hf : ∀ s w, I s w → Secures serve guard I (f s)) :
    Secures serve guard I (get >>= f) := fun s w h => hf s w h s w h

theorem Secures.attempt {x : Op S ε σ α} (hx : Secures serve guard I x) :
    Secures serve guard I (attempt x) := by
  intro s w h
  rw [wp_attempt]
  exact hx s w h

theorem Secures.ite {c : Prop} [Decidable c] {x y : Op S ε σ α}
    (hx : c → Secures serve guard I x) (hy : ¬ c → Secures serve guard I y) :
    Secures serve guard I (if c then x else y) :=
  fun s w h => wp_ite (fun holds => hx holds s w h) fun fails => hy fails s w h

end

/-- From a state and a world of the invariant, every run ends in such ones. -/
def Keeps (serve : Server S W) (I : σ → W → Prop) (x : Op S ε σ α) : Prop :=
  ∀ s w, I s w →
    wp serve (fun _ _ _ _ => True) x (fun _ s' w' => I s' w') (fun _ s' w' => I s' w') s w

theorem keeps_pure (value : α) : Keeps serve I (pure value : Op S ε σ α) := secures_pure value

theorem keeps_throw (e : ε) : Keeps serve I (throw e : Op S ε σ α) := secures_throw e

theorem keeps_halt : Keeps serve I (halt : Op S ε σ α) := secures_halt

theorem keeps_modify {f : σ → σ} (hf : ∀ s w, I s w → I (f s) w) :
    Keeps serve I (modify f : Op S ε σ PUnit) := hf

theorem keeps_call {c : S.Call} (h : ∀ s w reply w', I s w → serve w c reply w' → I s w') :
    Keeps serve I (call c : Op S ε σ (S.Reply c)) :=
  fun s w hs reply w' served => ⟨trivial, h s w reply w' hs served⟩

theorem keeps_ofExcept (r : Except ε α) : Keeps serve I (ofExcept r : Op S ε σ α) :=
  secures_ofExcept r

theorem keeps_ofOption (r : Option α) : Keeps serve I (ofOption r : Op S ε σ α) :=
  secures_ofOption r

theorem Keeps.bind {x : Op S ε σ α} {f : α → Op S ε σ β} (hx : Keeps serve I x)
    (hf : ∀ value, Keeps serve I (f value)) : Keeps serve I (x >>= f) :=
  Secures.bind hx hf

/-- The way on from an operation that keeps the invariant to what its result leads to. -/
theorem Keeps.next {x : Op S ε σ α} {f : α → Op S ε σ β} {ok : β → σ → W → Prop}
    {err : ε → σ → W → Prop} {s : σ} {w : W} (hx : Keeps serve I x) (h : I s w)
    (hok : ∀ value s' w', I s' w' → wp serve (fun _ _ _ _ => True) (f value) ok err s' w')
    (herr : ∀ e s' w', I s' w' → err e s' w') :
    wp serve (fun _ _ _ _ => True) (x >>= f) ok err s w :=
  Secures.next hx h hok herr

/-- A result that is already there leads on by its value. -/
theorem keeps_ofExcept_bind {r : Except ε α} {f : α → Op S ε σ β}
    (hf : ∀ value, r = .ok value → Keeps serve I (f value)) :
    Keeps serve I (ofExcept r >>= f) := by
  intro s w h
  rw [wp_bind, wp_ofExcept]
  cases r with
  | ok value => exact hf value rfl s w h
  | error e => exact h

/-- The state that is read satisfies the invariant in the world of that moment. -/
theorem keeps_get {f : σ → Op S ε σ β} (hf : ∀ s w, I s w → Keeps serve I (f s)) :
    Keeps serve I (get >>= f) := secures_get hf

theorem Keeps.attempt {x : Op S ε σ α} (hx : Keeps serve I x) : Keeps serve I (attempt x) :=
  Secures.attempt hx

theorem Keeps.ite {c : Prop} [Decidable c] {x y : Op S ε σ α} (hx : c → Keeps serve I x)
    (hy : ¬ c → Keeps serve I y) : Keeps serve I (if c then x else y) :=
  Secures.ite hx hy

/-- A family of invariants, each of them kept. -/
theorem keeps_exists {ι : Type} {I : ι → σ → W → Prop} {x : Op S ε σ α}
    (hx : ∀ i, Keeps serve (I i) x) : Keeps serve (fun s w => ∃ i, I i s w) x := by
  rintro s w ⟨i, h⟩
  exact wp_mono (hx i s w h) (fun _ _ _ h' => ⟨i, h'⟩) fun _ _ _ h' => ⟨i, h'⟩

section
variable {guard : Server S W}

/-- Every call meets the guarantee, whatever the state and the world are. -/
def Meets (serve guard : Server S W) (x : Op S ε σ α) : Prop :=
  ∀ s w, wp serve guard x (fun _ _ _ => True) (fun _ _ _ => True) s w

theorem meets_pure (value : α) : Meets serve guard (pure value : Op S ε σ α) :=
  fun _ _ => trivial

theorem meets_halt : Meets serve guard (halt : Op S ε σ α) := fun _ _ => trivial

theorem meets_ofOption (r : Option α) : Meets serve guard (ofOption r : Op S ε σ α) := by
  cases r with
  | some value => exact meets_pure value
  | none => exact meets_halt

theorem meets_call {c : S.Call} (h : ∀ w reply w', serve w c reply w' → guard w c reply w') :
    Meets serve guard (call c : Op S ε σ (S.Reply c)) :=
  fun _ w reply w' served => ⟨h w reply w' served, trivial⟩

theorem Uses.meets {allowed : S.Call → Prop} {x : Op S ε σ α} (hx : Uses allowed x)
    (h : ∀ w c reply w', allowed c → serve w c reply w' → guard w c reply w') :
    Meets serve guard x := by
  have one : ∀ w c reply w', True → allowed c → serve w c reply w' →
      guard w c reply w' ∧ True :=
    fun w c reply w' _ called served => ⟨h w c reply w' called served, trivial⟩
  exact fun s w => Uses.wp one hx s w trivial

theorem Meets.bind {x : Op S ε σ α} {f : α → Op S ε σ β} (hx : Meets serve guard x)
    (hf : ∀ value, Meets serve guard (f value)) : Meets serve guard (x >>= f) := by
  intro s w
  rw [wp_bind]
  exact wp_mono (hx s w) (fun value s' w' _ => hf value s' w') fun _ _ _ h => h

theorem Meets.ite {c : Prop} [Decidable c] {x y : Op S ε σ α} (hx : c → Meets serve guard x)
    (hy : ¬ c → Meets serve guard y) : Meets serve guard (if c then x else y) :=
  fun s w => wp_ite (fun holds => hx holds s w) fun fails => hy fails s w

end

/-- Operations that ask for calls of one kind only. -/
theorem Within.secures {guard : Server S W} {allowed : S.Call → Prop} {I : σ → Prop} {J : W → Prop}
    {x : Op S ε σ α}
    (hcall : ∀ w c reply w', J w → allowed c → serve w c reply w' → guard w c reply w' ∧ J w')
    (hx : Within allowed I x) : Secures serve guard (fun s w => I s ∧ J w) x :=
  fun _ _ h => hx.wp hcall h.1 h.2

theorem Within.keeps {allowed : S.Call → Prop} {I : σ → Prop} {J : W → Prop} {x : Op S ε σ α}
    (hcall : ∀ w c reply w', J w → allowed c → serve w c reply w' → J w')
    (hx : Within allowed I x) : Keeps serve (fun s w => I s ∧ J w) x :=
  Within.secures (fun w c reply w' hw called served => ⟨trivial, hcall w c reply w' hw called served⟩)
    hx

end Op
end Waloy.Effect
