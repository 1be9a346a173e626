import Waloy.Effect.Prog

/-!
# Sessions: the runs of a client that issues one request after another

A client keeps a state between requests; the body of a request is a program.
While a request runs, every point between two of its calls is a configuration of
its own, so a statement about all reachable configurations covers the
intermediate worlds and the runs that are cut short. The world may move on its
own while the client is idle; what moves while a request waits for an answer is
part of the server.
-/
namespace Waloy.Effect

structure Client (S : Signature) where
  Request : Type
  State : Type
  Result : Type
  body : Request → State → Prog S (Result × State)

inductive Conf {S : Signature} (C : Client S) (W : Type) where
  | idle (s : C.State) (w : W)
  /-- A request that started in `s` and `start` and has the program `p` left to run. -/
  | running (q : C.Request) (s : C.State) (start : W) (p : Prog S (C.Result × C.State)) (w : W)

/-- The runs under consideration: which requests are issued, how the world
answers while one runs, and how it moves while none does. -/
structure Setting {S : Signature} (C : Client S) (W : Type) where
  enabled : C.Request → C.State → W → Prop
  serve : C.Request → C.State → Server S W
  drift : C.State → W → W → Prop

namespace Setting

variable {S : Signature} {C : Client S} {W : Type} (setting : Setting C W)

inductive Move : Conf C W → Conf C W → Prop where
  | issue {q : C.Request} {s : C.State} {w : W} (allowed : setting.enabled q s w) :
      Move (.idle s w) (.running q s w (C.body q s) w)
  | call {q : C.Request} {s : C.State} {start w w' : W} {c : S.Call} {reply : S.Reply c}
      {next : S.Reply c → Prog S (C.Result × C.State)}
      (served : setting.serve q s w c reply w') :
      Move (.running q s start (.call c next) w) (.running q s start (next reply) w')
  | finish {q : C.Request} {s s' : C.State} {start w : W} {result : C.Result} :
      Move (.running q s start (.pure (result, s')) w) (.idle s' w)
  | drift {s : C.State} {w w' : W} (moved : setting.drift s w w') : Move (.idle s w) (.idle s w')

abbrev Reach : Conf C W → Conf C W → Prop := Relation.ReflTransGen setting.Move

/-- An invariant of the runs: what holds while the client is idle, what holds at
every point of a request, what every single call guarantees, and what holds of
the result of a request. -/
structure Invariant where
  idle : C.State → W → Prop
  always : C.Request → C.State → W → W → Prop := fun _ _ _ _ => True
  guard : C.Request → C.State → W → Server S W := fun _ _ _ _ _ _ _ => True
  result : C.Request → C.State → W → C.Result → C.State → W → Prop := fun _ _ _ _ _ _ => True

variable {setting}

/-- What is left to show of a request: its calls keep the guarantee, and it ends in an
idle state. What holds at every point may be used at its end. -/
def Invariant.Promise (inv : Invariant (C := C) (W := W)) (setting : Setting C W) (q : C.Request)
    (s : C.State) (start : W) (p : Prog S (C.Result × C.State)) (w : W) : Prop :=
  p.wp (setting.serve q s) (inv.guard q s start)
    (fun out w' => inv.always q s start w' →
      inv.result q s start out.1 out.2 w' ∧ inv.idle out.2 w') w

/-- The obligations of an invariant: one for the body of each request, one for the drift. -/
structure Invariant.Kept (inv : Invariant (C := C) (W := W)) (setting : Setting C W) : Prop where
  entered : ∀ {q s w}, setting.enabled q s w → inv.idle s w → inv.always q s w w
  stays : ∀ {q s start w c reply w'}, inv.always q s start w → setting.serve q s w c reply w' →
    inv.guard q s start w c reply w' → inv.always q s start w'
  body : ∀ {q s w}, setting.enabled q s w → inv.idle s w → inv.Promise setting q s w (C.body q s) w
  drift : ∀ {s w w'}, inv.idle s w → setting.drift s w w' → inv.idle s w'

def Invariant.Holds (inv : Invariant (C := C) (W := W)) (setting : Setting C W) : Conf C W → Prop
  | .idle s w => inv.idle s w
  | .running q s start p w => inv.always q s start w ∧ inv.Promise setting q s start p w

namespace Invariant.Kept

variable {inv : Invariant (C := C) (W := W)} (kept : inv.Kept setting)
include kept

theorem move {c c' : Conf C W} (move : setting.Move c c') (h : inv.Holds setting c) :
    inv.Holds setting c' := by
  cases move with
  | issue allowed => exact ⟨kept.entered allowed h, kept.body allowed h⟩
  | call served =>
    obtain ⟨guarded, rest⟩ := h.2 _ _ served
    exact ⟨kept.stays h.1 served guarded, rest⟩
  | finish => exact (h.2 h.1).2
  | drift moved => exact kept.drift h moved

/-- The induction over runs, done once. -/
theorem reach {c c' : Conf C W} (run : setting.Reach c c') (h : inv.Holds setting c) :
    inv.Holds setting c' := by
  induction run with
  | refl => exact h
  | tail _ step ih => exact kept.move step ih

theorem always {c : Conf C W} {q : C.Request} {s : C.State} {start w : W}
    {p : Prog S (C.Result × C.State)} (run : setting.Reach c (.running q s start p w))
    (h : inv.Holds setting c) : inv.always q s start w :=
  (kept.reach run h).1

theorem returned {c : Conf C W} {q : C.Request} {s s' : C.State} {start w : W}
    {result : C.Result} (run : setting.Reach c (.running q s start (.pure (result, s')) w))
    (h : inv.Holds setting c) : inv.result q s start result s' w ∧ inv.idle s' w :=
  (kept.reach run h).2 (kept.reach run h).1

/-- The guarantee of one call, at the point of the run where it is made. -/
theorem guarded {c : Conf C W} {q : C.Request} {s : C.State} {start w w' : W} {k : S.Call}
    {reply : S.Reply k} {next : S.Reply k → Prog S (C.Result × C.State)}
    (run : setting.Reach c (.running q s start (.call k next) w)) (h : inv.Holds setting c)
    (served : setting.serve q s w k reply w') : inv.guard q s start w k reply w' :=
  ((kept.reach run h).2 _ _ served).1

end Invariant.Kept

/-- The calls of a request, as moves of the session. -/
theorem Reach.of_steps {q : C.Request} {s : C.State} {start : W}
    {before after : Prog S (C.Result × C.State) × W}
    (steps : Steps (setting.serve q s) before after) :
    setting.Reach (.running q s start before.1 before.2) (.running q s start after.1 after.2) := by
  induction steps with
  | refl => exact .refl
  | tail _ step ih =>
    cases step with
    | call served => exact ih.tail (.call served)

/-- A request whose body is computed by `Prog.interp` runs to its return. -/
theorem Reach.of_interp {q : C.Request} {s s' : C.State} {w w' : W} {result : C.Result}
    {answer : W → (c : S.Call) → Option (S.Reply c × W)} (allowed : setting.enabled q s w)
    (hanswer : ∀ w c reply w', answer w c = some (reply, w') → setting.serve q s w c reply w')
    (h : (C.body q s).interp answer w = some ((result, s'), w')) :
    setting.Reach (.idle s w) (.running q s w (.pure (result, s')) w') :=
  .head (.issue allowed) (of_steps (Steps.of_interp hanswer _ _ h))

theorem Reach.finish {c : Conf C W} {q : C.Request} {s s' : C.State} {start w : W}
    {result : C.Result} (run : setting.Reach c (.running q s start (.pure (result, s')) w)) :
    setting.Reach c (.idle s' w) :=
  run.tail .finish

end Setting

end Waloy.Effect
