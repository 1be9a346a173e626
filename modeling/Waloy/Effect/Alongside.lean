import Waloy.Effect.Interleaving

/-!
# Two sessions that might be alone

A session takes the same course in another world, if that world answers what the session may ask
for as the first one does. Two sessions in one world, each of which has a world of its own in
which it takes the same course, do not know of each other: what holds of a run of either alone
holds of their run together, as far as the worlds agree.
-/
namespace Waloy.Effect

variable {S : Signature} {C D : Client S} {U V W : Type}

/-- The same point of a session, in two worlds. -/
inductive Conf.Alike : Conf C W → Conf C V → Prop where
  | idle {s : C.State} {w : W} {v : V} : Alike (.idle s w) (.idle s v)
  | running {q : C.Request} {s : C.State} {start w : W} {start' v : V}
      {p : Prog S (C.Result × C.State)} : Alike (.running q s start p w) (.running q s start' p v)

theorem Conf.Alike.inWorld {c : Conf C W} {d : Conf C V} (alike : c.Alike d) (w : W) :
    (c.inWorld w).Alike d := by
  cases alike with
  | idle => exact .idle
  | running => exact .running

/-- The second world answers the permitted calls as the first one does. -/
structure Setting.Follows (shared : Setting C W) (alone : Setting C V) (sees : W → V → Prop)
    (permits : V → S.Call → Prop) : Prop where
  enabled : ∀ {q s w v}, sees w v → shared.enabled q s w → alone.enabled q s v
  serve : ∀ {q s w w' v k reply}, sees w v → permits v k → shared.serve q s w k reply w' →
    ∃ v', alone.serve q s v k reply v' ∧ sees w' v'
  drift : ∀ {s w w' v}, sees w v → shared.drift s w w' → ∃ v', alone.drift s v v' ∧ sees w' v'

/-- The session asks for nothing but permitted calls. -/
def Conf.Asks (permits : V → S.Call → Prop) (d : Conf C V) : Prop :=
  ∀ k, d.asks = some k → permits d.world k

section
variable {shared : Setting C W} {alone : Setting C V} {sees : W → V → Prop}
  {permits : V → S.Call → Prop} (follows : shared.Follows alone sees permits)
include follows

theorem Setting.Follows.move {c c' : Conf C W} {d : Conf C V} (alike : c.Alike d)
    (seen : sees c.world d.world) (asks : d.Asks permits) (move : shared.Move c c') :
    ∃ d', alone.Move d d' ∧ c'.Alike d' ∧ sees c'.world d'.world := by
  cases move with
  | issue allowed =>
    cases alike
    exact ⟨_, .issue (follows.enabled seen allowed), .running, seen⟩
  | call served =>
    cases alike
    obtain ⟨v', served', seen'⟩ := follows.serve seen (asks _ rfl) served
    exact ⟨_, .call served', .running, seen'⟩
  | finish =>
    cases alike
    exact ⟨_, .finish, .idle, seen⟩
  | drift moved =>
    cases alike
    obtain ⟨v', moved', seen'⟩ := follows.drift seen moved
    exact ⟨_, .drift moved', .idle, seen'⟩

/-- The session takes the same course in the second world. -/
theorem Setting.Follows.reach {c c' : Conf C W} {d : Conf C V} (alike : c.Alike d)
    (seen : sees c.world d.world) (asks : ∀ d', alone.Reach d d' → d'.Asks permits)
    (run : shared.Reach c c') :
    ∃ d', alone.Reach d d' ∧ c'.Alike d' ∧ sees c'.world d'.world := by
  induction run with
  | refl => exact ⟨d, .refl, alike, seen⟩
  | tail _ move ih =>
    obtain ⟨d₁, before, alike₁, seen₁⟩ := ih
    obtain ⟨d', moved, alike', seen'⟩ := follows.move alike₁ seen₁ (asks d₁ before) move
    exact ⟨d', before.tail moved, alike', seen'⟩

end

/-- Each of two sessions in one world has a world of its own, and what the one does there keeps
the relation of the three. -/
structure Both.Divide (L : Setting C W) (R : Setting D W) (L' : Setting C V) (R' : Setting D U)
    (joint : W → V → U → Prop) (permits : V → S.Call → Prop) (permits' : U → S.Call → Prop) :
    Prop where
  left : ∀ u, L.Follows L' (fun w v => joint w v u) permits
  right : ∀ v, R.Follows R' (fun w u => joint w v u) permits'

section
variable {L : Setting C W} {R : Setting D W} {L' : Setting C V} {R' : Setting D U}
  {joint : W → V → U → Prop} {permits : V → S.Call → Prop} {permits' : U → S.Call → Prop}

/-- Two sessions that have come where they have each come alone. -/
structure Both.Divided (L' : Setting C V) (R' : Setting D U) (joint : W → V → U → Prop)
    (d : Conf C V) (e : Conf D U) (b : Both C D W) (d' : Conf C V) (e' : Conf D U) : Prop where
  shared : b.left.world = b.right.world
  left : L'.Reach d d'
  right : R'.Reach e e'
  alike : b.left.Alike d'
  alike' : b.right.Alike e'
  joint : joint b.left.world d'.world e'.world

/-- Two sessions that share a world take the course that each takes in its own. -/
theorem Both.Divide.reach (divide : Both.Divide L R L' R' joint permits permits')
    {b b' : Both C D W} {d : Conf C V} {e : Conf D U}
    (asks : ∀ d', L'.Reach d d' → d'.Asks permits) (asks' : ∀ e', R'.Reach e e' → e'.Asks permits')
    (start : Both.Divided L' R' joint d e b d e) (run : Both.Reach L R b b') :
    ∃ d' e', Both.Divided L' R' joint d e b' d' e' := by
  induction run with
  | refl => exact ⟨d, e, start⟩
  | tail _ move ih =>
    obtain ⟨d₁, e₁, divided⟩ := ih
    cases move with
    | left move =>
      obtain ⟨d', moved, alike, joined⟩ :=
        (divide.left _).move divided.alike divided.joint (asks d₁ divided.left) move
      exact ⟨d', e₁,
        { shared := (Conf.world_inWorld _ _).symm
          left := divided.left.tail moved
          right := divided.right
          alike := alike
          alike' := divided.alike'.inWorld _
          joint := joined }⟩
    | right move =>
      have seen := divided.joint
      rw [divided.shared] at seen
      obtain ⟨e', moved, alike, joined⟩ :=
        (divide.right _).move divided.alike' seen (asks' e₁ divided.right) move
      exact ⟨d₁, e',
        { shared := Conf.world_inWorld _ _
          left := divided.left
          right := divided.right.tail moved
          alike := divided.alike.inWorld _
          alike' := alike
          joint := by rw [Conf.world_inWorld]; exact joined }⟩

end

end Waloy.Effect
