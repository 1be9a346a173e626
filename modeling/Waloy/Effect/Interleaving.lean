import Waloy.Effect.Session
import Waloy.Effect.Within

/-!
# Two sessions in one world

Two clients take their steps in any order, a single call at a time, and see each other's
changes of the world. What one may ask for does not depend on what the other does to the
answers, so a client that stays within certain calls does so beside any other.
-/
namespace Waloy.Effect

variable {S : Signature} {C D : Client S} {W : Type}

namespace Conf

def world : Conf C W → W
  | .idle _ w => w
  | .running _ _ _ _ w => w

/-- The same point of the session in another world. -/
def inWorld : Conf C W → W → Conf C W
  | .idle s _, w => .idle s w
  | .running q s start p _, w => .running q s start p w

/-- The call that the session waits for. -/
def asks : Conf C W → Option S.Call
  | .running _ _ _ (.call c _) _ => some c
  | _ => none

@[simp] theorem world_idle (s : C.State) (w : W) : (.idle s w : Conf C W).world = w := rfl

/-- Two sessions that stand idle in one world share it. -/
theorem world_idle_eq (s : C.State) (s' : D.State) (w : W) :
    (.idle s w : Conf C W).world = (.idle s' w : Conf D W).world :=
  (world_idle s w).trans (world_idle s' w).symm

@[simp] theorem world_inWorld (c : Conf C W) (w : W) : (c.inWorld w).world = w := by
  cases c <;> rfl

@[simp] theorem inWorld_world (c : Conf C W) : c.inWorld c.world = c := by
  cases c <;> rfl

@[simp] theorem inWorld_inWorld (c : Conf C W) (w w' : W) :
    (c.inWorld w).inWorld w' = c.inWorld w' := by
  cases c <;> rfl

end Conf

inductive Party where
  | left
  | right
  deriving DecidableEq

/-- Two sessions, with the calls each has made, newest first. -/
structure Both (C D : Client S) (W : Type) where
  left : Conf C W
  right : Conf D W
  calls : List (Party × S.Call)

namespace Both

/-- The sessions share the world of the one that moved last. -/
inductive Move (L : Setting C W) (R : Setting D W) : Both C D W → Both C D W → Prop where
  | left {b : Both C D W} {c : Conf C W} (move : L.Move b.left c) :
      Move L R b ⟨c, b.right.inWorld c.world, (b.left.asks.map (Party.left, ·)).toList ++ b.calls⟩
  | right {b : Both C D W} {c : Conf D W} (move : R.Move b.right c) :
      Move L R b ⟨b.left.inWorld c.world, c, (b.right.asks.map (Party.right, ·)).toList ++ b.calls⟩

abbrev Reach (L : Setting C W) (R : Setting D W) : Both C D W → Both C D W → Prop :=
  Relation.ReflTransGen (Move L R)

end Both

/-- Every request of the client asks for certain calls only, and ends in a state of the
invariant. -/
def Client.Within (C : Client S) (allowed : S.Call → Prop) (I : C.State → Prop) : Prop :=
  ∀ q s, I s → (C.body q s).wp (fun (_ : Unit) _ _ _ => True) (fun _ c _ _ => allowed c)
    (fun out _ => I out.2) ()

/-- The rest of the session keeps within certain calls. -/
def Conf.Within (allowed : S.Call → Prop) (I : C.State → Prop) : Conf C W → Prop
  | .idle s _ => I s
  | .running _ _ _ p _ => p.wp (fun (_ : Unit) _ _ _ => True) (fun _ c _ _ => allowed c)
    (fun out _ => I out.2) ()

section
variable {L : Setting C W} {R : Setting D W} {allowed : S.Call → Prop} {I : C.State → Prop}
  {c c' : Conf C W} {d d' : Conf D W}

theorem Conf.Within.inWorld (h : c.Within allowed I) (w : W) : (c.inWorld w).Within allowed I := by
  cases c <;> exact h

theorem Conf.Within.move (client : C.Within allowed I) (h : c.Within allowed I)
    (move : L.Move c c') : c'.Within allowed I := by
  cases move with
  | issue _ => exact client _ _ h
  | call _ => exact (h _ () trivial).2
  | finish => exact h
  | drift _ => exact h

/-- A move asks for an allowed call and changes the world as such a call does, or asks for
nothing and leaves the world to the drift. -/
theorem Conf.Within.world {frame : Option S.Call → W → W → Prop} (still : ∀ w, frame none w w)
    (drift : ∀ s w w', L.drift s w w' → frame none w w')
    (serve : ∀ q s w k reply w', allowed k → L.serve q s w k reply w' → frame (some k) w w')
    (h : c.Within allowed I) (move : L.Move c c') : frame c.asks c.world c'.world := by
  cases move with
  | issue _ => exact still _
  | @call _ _ _ _ _ _ reply _ served =>
    obtain ⟨asked, -⟩ := h reply () trivial
    exact serve _ _ _ _ _ _ asked served
  | finish => exact still _
  | drift moved => exact drift _ _ _ moved

variable {allowed' : S.Call → Prop} {J : D.State → Prop}

/-- Each of the two sessions keeps within its calls. -/
structure Both.Within (allowed allowed' : S.Call → Prop) (I : C.State → Prop) (J : D.State → Prop)
    (b : Both C D W) : Prop where
  left : b.left.Within allowed I
  right : b.right.Within allowed' J

theorem Both.Within.move {b b' : Both C D W} (client : C.Within allowed I)
    (client' : D.Within allowed' J) (h : b.Within allowed allowed' I J) (move : Move L R b b') :
    b'.Within allowed allowed' I J := by
  cases move with
  | left moved => exact ⟨h.left.move client moved, h.right.inWorld _⟩
  | right moved => exact ⟨h.left.inWorld _, h.right.move client' moved⟩

theorem Both.Within.reach {b b' : Both C D W} (client : C.Within allowed I)
    (client' : D.Within allowed' J) (h : b.Within allowed allowed' I J) (run : Reach L R b b') :
    b'.Within allowed allowed' I J := by
  induction run with
  | refl => exact h
  | tail _ step ih => exact ih.move client client' step

/-- A session that moves on its own beside the other. -/
theorem Both.reach_left {c' : Conf C W} (run : L.Reach c c') (same : d.world = c.world)
    (calls : List (Party × S.Call)) : ∃ calls', (∀ call ∈ calls', call.1 = Party.left) ∧
      Reach L R ⟨c, d, calls⟩ ⟨c', d.inWorld c'.world, calls' ++ calls⟩ := by
  induction run with
  | refl =>
    refine ⟨[], by simp, ?_⟩
    rw [← same, Conf.inWorld_world]
    exact .refl
  | @tail c₁ c₂ _ step ih =>
    obtain ⟨calls', own, before⟩ := ih
    refine ⟨(c₁.asks.map (Party.left, ·)).toList ++ calls', ?_, ?_⟩
    · intro call member
      obtain now | earlier := List.mem_append.mp member
      · obtain ⟨_, -, rfl⟩ := Option.map_eq_some_iff.mp (Option.mem_toList.mp now)
        rfl
      · exact own call earlier
    · have moved : Move L R ⟨c₁, d.inWorld c₁.world, calls' ++ calls⟩ _ := .left step
      rw [Conf.inWorld_inWorld, ← List.append_assoc] at moved
      exact before.tail moved

theorem Both.reach_right {d' : Conf D W} (run : R.Reach d d') (same : c.world = d.world)
    (calls : List (Party × S.Call)) : ∃ calls', (∀ call ∈ calls', call.1 = Party.right) ∧
      Reach L R ⟨c, d, calls⟩ ⟨c.inWorld d'.world, d', calls' ++ calls⟩ := by
  induction run with
  | refl =>
    refine ⟨[], by simp, ?_⟩
    rw [← same, Conf.inWorld_world]
    exact .refl
  | @tail d₁ d₂ _ step ih =>
    obtain ⟨calls', own, before⟩ := ih
    refine ⟨(d₁.asks.map (Party.right, ·)).toList ++ calls', ?_, ?_⟩
    · intro call member
      obtain now | earlier := List.mem_append.mp member
      · obtain ⟨_, -, rfl⟩ := Option.map_eq_some_iff.mp (Option.mem_toList.mp now)
        rfl
      · exact own call earlier
    · have moved : Move L R ⟨c.inWorld d₁.world, d₁, calls' ++ calls⟩ _ := .right step
      rw [Conf.inWorld_inWorld, ← List.append_assoc] at moved
      exact before.tail moved

end

end Waloy.Effect
