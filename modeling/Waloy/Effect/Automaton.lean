import Waloy.Effect.Crash
import Waloy.Effect.Keeping

/-!
# Automata that read along

An automaton takes note of every call of a session and of its answer, and says which calls may
come next. What it accepts of the body of every request, whatever the answers are, it accepts at
every point of a run, and of a life where nothing is asked of its state when the client starts.
-/
namespace Waloy.Effect

variable {S : Signature} {C : Client S} {O ε σ α : Type}

structure Automaton (S : Signature) (O : Type) where
  note : O → (c : S.Call) → S.Reply c → O
  Permits : O → S.Call → Prop

namespace Automaton

variable (reads : Automaton S O)

/-- Any answer, and what becomes of the automaton. -/
def serve : Server S O := fun o c reply o' => o' = reads.note o c reply

/-- Every call is one that the automaton permits. -/
def guard : Server S O := fun o c _ _ => reads.Permits o c

/-- The runs of some requests of a client that may be answered anything. -/
def runs (C : Client S) (ops : C.Request → Prop := fun _ => True) : Setting C O where
  enabled q _ _ := ops q
  serve _ _ := reads.serve
  drift _ o o' := o' = o

/-- The body of every such request makes permitted calls only. -/
structure Accepts (C : Client S) (rest : C.State → O → Prop)
    (ops : C.Request → Prop := fun _ => True) : Prop where
  body : ∀ {q s o}, ops q → rest s o →
    (C.body q s).wp reads.serve reads.guard (fun out o' => rest out.2 o') o

def following (rest : C.State → O → Prop) : Setting.Invariant (C := C) (W := O) where
  idle := rest
  guard _ _ _ := reads.guard

section
variable {reads} {rest : C.State → O → Prop} {ops : C.Request → Prop}
  (accepts : reads.Accepts C rest ops) {s₀ : C.State} {o₀ : O}
include accepts

theorem Accepts.kept : (following reads rest).Kept (reads.runs C ops) where
  entered _ _ := trivial
  stays _ _ _ := trivial
  drift := by
    rintro _ _ _ idle rfl
    exact idle
  body := by
    intro q s o asked idle
    exact Prog.wp_mono (fun _ _ _ _ h => h) (fun _ _ _ _ h => h) (fun _ _ h _ => ⟨trivial, h⟩) _ _
      (accepts.body asked idle)

variable (answerable : ∀ c, Nonempty (S.Reply c)) {q : C.Request} {s : C.State} {start o : O}
  {c : S.Call} {next : S.Reply c → Prog S (C.Result × C.State)}
include answerable

theorem Accepts.permitted (begun : rest s₀ o₀)
    (run : (reads.runs C ops).Reach (.idle s₀ o₀) (.running q s start (.call c next) o)) :
    reads.Permits o c := by
  obtain ⟨reply⟩ := answerable c
  have holds : (following reads rest).Holds (reads.runs C ops) (.idle s₀ o₀) := begun
  have served : (reads.runs C ops).serve q s o c reply (reads.note o c reply) := rfl
  exact accepts.kept.guarded run holds served

/-- The same where the client may be stopped and started again anywhere. -/
theorem Accepts.permitted_always (restarts : ∀ o, rest s₀ o)
    (life : (reads.runs C ops).Lives s₀ (.idle s₀ o₀) (.running q s start (.call c next) o)) :
    reads.Permits o c := by
  obtain ⟨reply⟩ := answerable c
  have survives : (following reads rest).Survives s₀ :=
    ⟨fun _ => restarts _, fun _ => restarts _⟩
  have holds : (following reads rest).Holds (reads.runs C ops) (.idle s₀ o₀) := restarts o₀
  exact ((accepts.kept.lives survives life holds).2 reply _ rfl).1

omit answerable in
/-- What the automaton and the client are in between two requests of a life. -/
theorem Accepts.rests_always (restarts : ∀ o, rest s₀ o)
    (life : (reads.runs C ops).Lives s₀ (.idle s₀ o₀) (.idle s o)) : rest s o := by
  have survives : (following reads rest).Survives s₀ :=
    ⟨fun _ => restarts _, fun _ => restarts _⟩
  have holds : (following reads rest).Holds (reads.runs C ops) (.idle s₀ o₀) := restarts o₀
  exact accepts.kept.lives survives life holds

end

variable {reads} in
/-- Operations that ask for calls which are always permitted. -/
theorem accepts_within {allowed : S.Call → Prop} {I : σ → Prop} {x : Op S ε σ α}
    (permits : ∀ o c, allowed c → reads.Permits o c) (hx : Op.Within allowed I x) :
    Op.Secures reads.serve reads.guard (fun s _ => I s) x := by
  intro s o hs
  have step : ∀ (o : O) c reply o', True → allowed c → reads.serve o c reply o' →
      reads.guard o c reply o' ∧ True :=
    fun o c _ _ _ called _ => ⟨permits o c called, trivial⟩
  exact Op.wp_mono (hx.wp step hs trivial) (fun _ _ _ h => h.1) fun _ _ _ h => h.1

end Automaton

end Waloy.Effect
