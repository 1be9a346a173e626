import Waloy.Effect.Runs

/-!
# Operations that stay within some calls

An operation that asks for certain calls only, whatever it is answered, and keeps an
invariant of its state. What such calls preserve of any world, the operation preserves.
-/
namespace Waloy.Effect
namespace Op

variable {S : Signature} {W ε σ τ α β : Type} {allowed allowed' : S.Call → Prop} {I : σ → Prop}

/-- From a state of the invariant, every call is allowed and the state keeps the invariant. -/
def Within (allowed : S.Call → Prop) (I : σ → Prop) (x : Op S ε σ α) : Prop :=
  ∀ s, I s → wp (fun (_ : Unit) _ _ _ => True) (fun _ c _ _ => allowed c) x
    (fun _ s' _ => I s') (fun _ s' _ => I s') s ()

theorem within_pure (value : α) : Within allowed I (pure value : Op S ε σ α) := fun _ h => h

theorem within_throw (e : ε) : Within allowed I (throw e : Op S ε σ α) := fun _ h => h

theorem within_halt : Within allowed I (halt : Op S ε σ α) := fun _ _ => trivial

theorem within_modify {f : σ → σ} (hf : ∀ s, I s → I (f s)) :
    Within allowed I (modify f : Op S ε σ PUnit) := hf

theorem within_call {c : S.Call} (h : allowed c) :
    Within allowed I (call c : Op S ε σ (S.Reply c)) := fun _ hs _ _ _ => ⟨h, hs⟩

theorem within_ofExcept (r : Except ε α) : Within allowed I (ofExcept r : Op S ε σ α) := by
  cases r with
  | ok value => exact within_pure value
  | error e => exact within_throw e

theorem within_ofOption (r : Option α) : Within allowed I (ofOption r : Op S ε σ α) := by
  cases r with
  | some value => exact within_pure value
  | none => exact within_halt

theorem Within.bind {x : Op S ε σ α} {f : α → Op S ε σ β} (hx : Within allowed I x)
    (hf : ∀ value, Within allowed I (f value)) : Within allowed I (x >>= f) := by
  intro s hs
  rw [wp_bind]
  exact wp_mono (hx s hs) (fun value s' _ hs' => hf value s' hs') fun _ _ _ hs' => hs'

/-- The state that is read satisfies the invariant. -/
theorem within_get {f : σ → Op S ε σ β} (hf : ∀ s, I s → Within allowed I (f s)) :
    Within allowed I (get >>= f) := fun s hs => hf s hs s hs

theorem Within.attempt {x : Op S ε σ α} (hx : Within allowed I x) :
    Within allowed I (attempt x) := by
  intro s hs
  rw [wp_attempt]
  exact hx s hs

theorem Within.ite {c : Prop} [Decidable c] {x y : Op S ε σ α} (hx : c → Within allowed I x)
    (hy : ¬ c → Within allowed I y) : Within allowed I (if c then x else y) :=
  fun s hs => wp_ite (fun h => hx h s hs) fun h => hy h s hs

theorem Within.runOn {J : τ → Prop} {t : τ} {x : Op S ε τ α} (ht : J t) (hx : Within allowed J x) :
    Within allowed I (runOn t x : Op S ε σ (α × τ)) := by
  intro s hs
  rw [wp_runOn]
  exact wp_mono (hx t ht) (fun _ _ _ _ => hs) fun _ _ _ _ => hs

/-- An operation without an invariant. -/
theorem Uses.within {x : Op S ε σ α} (hx : Uses allowed x) : Within allowed (fun _ => True) x := by
  intro s _
  let guard : Server S Unit := fun _ c _ _ => allowed c
  have kept : (x s).wp (fun _ _ _ _ => True) guard (fun _ _ => True) () :=
    Prog.Uses.wp (fun _ _ _ _ _ called _ => ⟨called, trivial⟩) (hx s) () trivial
  refine Prog.wp_mono (fun _ _ _ _ h => h) (fun _ _ _ _ h => h) ?_ _ _ kept
  rintro ⟨_ | _, _⟩ _ _ <;> trivial

theorem Within.mono {x : Op S ε σ α} (h : ∀ c, allowed c → allowed' c) (hx : Within allowed I x) :
    Within allowed' I x :=
  fun s hs => Prog.wp_mono (fun _ _ _ _ h => h) (fun _ c _ _ => h c) (fun _ _ h => h) _ _ (hx s hs)

/-- The way on from an operation within the calls to what its result leads to. -/
theorem Within.next {x : Op S ε σ α} {f : α → Op S ε σ β} {ok : β → σ → Unit → Prop}
    {err : ε → σ → Unit → Prop} {s : σ} (hx : Within allowed I x) (hs : I s)
    (hok : ∀ value s', I s' → Op.wp (fun _ _ _ _ => True) (fun _ c _ _ => allowed c) (f value)
      ok err s' ())
    (herr : ∀ e s', I s' → err e s' ()) :
    Op.wp (fun _ _ _ _ => True) (fun _ c _ _ => allowed c) (x >>= f) ok err s () := by
  rw [wp_bind]
  exact wp_mono (hx s hs) (fun value s' _ => hok value s') fun e s' _ => herr e s'

/-- What the allowed calls preserve of a world is preserved at every call and at the end. -/
theorem Within.wp {serve guard : Server S W} {J : W → Prop} {x : Op S ε σ α}
    (hcall : ∀ w c reply w', J w → allowed c → serve w c reply w' → guard w c reply w' ∧ J w')
    (hx : Within allowed I x) {s : σ} {w : W} (hs : I s) (hw : J w) :
    Op.wp serve guard x (fun _ s' w' => I s' ∧ J w') (fun _ s' w' => I s' ∧ J w') s w := by
  have transfer : ∀ (p : Prog S (Except ε α × σ)) (w : W), J w →
      p.wp (fun (_ : Unit) _ _ _ => True) (fun _ c _ _ => allowed c) (fun out _ => I out.2) () →
      p.wp serve guard (fun out w' => I out.2 ∧ J w') w := by
    intro p
    induction p with
    | pure out => exact fun w hw h => ⟨h, hw⟩
    | call c next ih =>
      intro w hw h reply w' served
      obtain ⟨called, later⟩ := h reply () trivial
      obtain ⟨guarded, kept⟩ := hcall w c reply w' hw called served
      exact ⟨guarded, ih reply w' kept later⟩
    | halt => exact fun _ _ _ => trivial
  have inside : (x s).wp (fun (_ : Unit) _ _ _ => True) (fun _ c _ _ => allowed c)
      (fun out _ => I out.2) () := by
    refine (Prog.wp_congr ?_ _ _).mp (hx s hs)
    rintro ⟨_ | _, _⟩ _ <;> rfl
  refine (Prog.wp_congr ?_ _ _).mp (transfer (x s) w hw inside)
  rintro ⟨_ | _, _⟩ _ <;> rfl

/-- The same of a complete run. -/
theorem Within.runs {serve : Server S W} {J : W → Prop} {x : Op S ε σ α} {s s' : σ} {w w' : W}
    {r : Except ε α} (hcall : ∀ w c reply w', J w → allowed c → serve w c reply w' → J w')
    (hx : Within allowed I x) (hs : I s) (hw : J w) (run : Runs serve x s w r s' w') :
    I s' ∧ J w' := by
  have kept : Op.wp serve (fun _ _ _ _ => True) x (fun _ s' w' => I s' ∧ J w')
      (fun _ s' w' => I s' ∧ J w') s w :=
    hx.wp (fun w c reply w' hw called served => ⟨trivial, hcall w c reply w' hw called served⟩) hs hw
  obtain ⟨ok, err⟩ := run.of_wp kept
  cases r with
  | ok value => exact ok value rfl
  | error e => exact err e rfl

end Op
end Waloy.Effect
