import Waloy.Effect.Operation
import Waloy.Effect.Session

/-!
# Observed sessions

An observer sees every call of a session with its answer and remembers of them what a
statement is about. It may refuse an answer, so a condition on the calls of a run is an
observer that refuses what the condition rules out.
-/
namespace Waloy.Effect

variable {S : Signature} {C : Client S} {V W O ε σ α : Type}

/-- Every answer is one of the first server that the second one takes note of. -/
def Server.beside (serve : Server S W) (observe : Server S O) : Server S (W × O) :=
  fun w c reply w' => serve w.1 c reply w'.1 ∧ observe w.2 c reply w'.2

/-- The runs of a setting beside an observer, which sees nothing while no request runs. -/
def Setting.observed (setting : Setting C W) (observe : C.Request → Server S O) :
    Setting C (W × O) where
  enabled q s w := setting.enabled q s w.1
  serve q s := (setting.serve q s).beside (observe q)
  drift s w w' := setting.drift s w.1 w'.1 ∧ w'.2 = w.2

/-- A world in which less is seen. -/
theorem Prog.wp_view {view : V → W} {serve guard : Server S W} {serve' : Server S V}
    {post : α → W → Prop}
    (hserve : ∀ v c reply v', serve' v c reply v' → serve (view v) c reply (view v'))
    (p : Prog S α) (v : V) (h : p.wp serve guard post (view v)) :
    p.wp serve' (fun v c reply v' => guard (view v) c reply (view v'))
      (fun value v' => post value (view v')) v := by
  induction p generalizing v with
  | pure value => exact h
  | call c next ih =>
    intro reply v' served
    obtain ⟨guarded, rest⟩ := h reply (view v') (hserve v c reply v' served)
    exact ⟨guarded, ih reply v' rest⟩
  | halt => trivial

/-- An observer that can be computed, as long as its check holds. -/
structure Notes (observe : Server S O) where
  note : O → (c : S.Call) → S.Reply c → O
  check : O → (c : S.Call) → S.Reply c → Bool
  noted : ∀ o c reply, check o c reply = true → observe o c reply (note o c reply)

/-- Computed answers beside a computed observer. -/
def Notes.beside {observe : Server S O} (notes : Notes observe)
    (answer : W → (c : S.Call) → Option (S.Reply c × W)) (v : W × O) (c : S.Call) :
    Option (S.Reply c × (W × O)) :=
  ((answer v.1 c).filter fun out => notes.check v.2 c out.1).map
    fun out => (out.1, out.2, notes.note v.2 c out.1)

theorem Notes.beside_served {observe : Server S O} (notes : Notes observe) {serve : Server S W}
    {answer : W → (c : S.Call) → Option (S.Reply c × W)}
    (served : ∀ w c reply w', answer w c = some (reply, w') → serve w c reply w') {v v' : W × O}
    {c : S.Call} {reply : S.Reply c} (h : notes.beside answer v c = some (reply, v')) :
    serve.beside observe v c reply v' := by
  obtain ⟨⟨reply', w'⟩, found, same⟩ := Option.map_eq_some_iff.mp h
  cases same
  obtain ⟨answered, checked⟩ := Option.filter_eq_some_iff.mp found
  exact ⟨served _ _ _ _ answered, notes.noted _ _ _ checked⟩

end Waloy.Effect
