import Waloy.Effect.Interleaving

/-!
# Sessions that may stop anywhere

A client may be stopped at any point of its run, in the middle of a request too, and be started
over: its memory is gone, the world is as it was left. A life is a run with any number of such
stops.
-/
namespace Waloy.Effect

variable {S : Signature} {C : Client S} {W : Type}

namespace Setting

variable (setting : Setting C W) (fresh : C.State)

/-- A move of the session, or a stop after which the client is started with a fresh state. -/
inductive Advance : Conf C W → Conf C W → Prop where
  | move {c c' : Conf C W} (move : setting.Move c c') : Advance c c'
  | stop (c : Conf C W) : Advance c (.idle fresh c.world)

abbrev Lives : Conf C W → Conf C W → Prop := Relation.ReflTransGen (setting.Advance fresh)

variable {setting fresh}

theorem Reach.lives {c c' : Conf C W} (run : setting.Reach c c') : setting.Lives fresh c c' :=
  Relation.ReflTransGen.mono (fun _ _ => .move) _ _ run

/-- What holds of a world is enough to start from, wherever the client stopped. -/
structure Invariant.Survives (inv : Invariant (C := C) (W := W)) (fresh : C.State) : Prop where
  idle : ∀ {s w}, inv.idle s w → inv.idle fresh w
  running : ∀ {q s start w}, inv.always q s start w → inv.idle fresh w

namespace Invariant.Kept

variable {inv : Invariant (C := C) (W := W)} (kept : inv.Kept setting)
  (survives : inv.Survives fresh)
include kept survives

theorem advance {c c' : Conf C W} (step : setting.Advance fresh c c') (h : inv.Holds setting c) :
    inv.Holds setting c' := by
  cases step with
  | move move => exact kept.move move h
  | stop =>
    cases c with
    | idle s w => exact survives.idle h
    | running q s start p w => exact survives.running h.1

/-- An invariant that survives a stop holds in every life. -/
theorem lives {c c' : Conf C W} (life : setting.Lives fresh c c') (h : inv.Holds setting c) :
    inv.Holds setting c' := by
  induction life with
  | refl => exact h
  | tail _ step ih => exact kept.advance survives step ih

end Invariant.Kept

end Setting

end Waloy.Effect
