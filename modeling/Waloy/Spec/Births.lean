import Waloy.Effect.Observed
import Waloy.Spec.Archive
import Waloy.Spec.Confined
import Waloy.Spec.Faultless

/-!
# When the generations were started

An observer that remembers when each generation was started: the first reading of the
clock after its id was drawn. Whatever fails, the manifest of such a generation tells that
time as long as it is there, and nothing else lies in the directory of the generation.
-/
namespace Waloy.Spec
open Waloy.Effect Waloy.Source Waloy.Source.BackupManager

structure Births where
  /-- The id that was drawn, until the clock is read. -/
  drawn : Option Str
  started : AList fun _ : Str => Nat

namespace Births

def next (β : Births) : (c : Call) → c.Reply → Births
  | .newUuid, generation => { β with drawn := some generation }
  | .systemTime, reply =>
    match β.drawn with
    | some generation => ⟨none, β.started.insert generation (reading reply)⟩
    | none => β
  | _, _ => β

def record : Server Calls Births := fun β c reply β' => β' = β.next c reply

end Births

/-- The calls that neither draw an id nor upload. -/
def isAside : Call → Bool
  | .newUuid | .putObject _ _ => false
  | _ => true

variable {pf : Platform} (config : BackupConfig pf.build) {A : Type}

/-- The manifest of a generation tells when the generation was started, or is not there. -/
structure Recorded (b : Bucket) (generation : Str) (createdAtMs : Nat) : Prop where
  tidy : Tidy config b generation
  told : object config b (.manifest generation) = none ∨
    ∃ manifest, manifestAt config b generation = some manifest ∧ manifest.createdAtMs = createdAtMs

structure Registered (v : World A × Births) : Prop where
  settled : v.2.drawn = none
  recorded : ∀ generation t, v.2.started.lookup generation = some t →
    Recorded config v.1.bucket generation t

/-- An id was drawn for which the clock is still to be read. -/
structure Drawn (generation : Str) (v : World A × Births) : Prop where
  drawn : v.2.drawn = some generation
  fresh : Fresh v.1.bucket generation
  recorded : ∀ own t, v.2.started.lookup own = some t → Recorded config v.1.bucket own t

/-- The manager writes for a generation that was started. -/
structure Heads (p : Str × Nat) (m : BackupManager pf.build) (v : World A × Births) : Prop where
  uses : Uses config m
  generation : m.generation = p.1
  created : m.manifest.createdAtMs = p.2
  started : v.2.started.lookup p.1 = some p.2
  registered : Registered config v

section
variable {config} {b b' : Bucket} {generation : Str} {t : Nat} {o : Object} {data : Bytes}
  {host : Host A} {w w' : World A} {c : Call} {reply : c.Reply} {env : Env A}
  {v v' : World A × Births} {p : Str × Nat} {m : BackupManager pf.build}

/-- Fewer objects tell nothing else. -/
theorem Recorded.mono (recorded : Recorded config b generation t)
    (less : ∀ key, b'.lookup key = b.lookup key ∨ b'.lookup key = none) :
    Recorded config b' generation t := by
  refine ⟨⟨recorded.tidy.1, fun key present inside => recorded.tidy.2 key ?_ inside⟩, ?_⟩
  · have found : (b'.lookup key).isSome := AList.lookup_isSome.mpr (AList.mem_keys.mpr present)
    obtain same | gone := less key
    · exact AList.mem_keys.mp (AList.lookup_isSome.mp (same ▸ found))
    · rw [gone] at found
      cases found
  · obtain same | gone := less (objectKey config (.manifest generation))
    · refine recorded.told.imp same.trans ?_
      rintro ⟨manifest, listed, created⟩
      exact ⟨manifest, (manifestAt_congr config same).trans listed, created⟩
    · exact .inl gone

theorem Recorded.store (recorded : Recorded config b generation t)
    (plain : ∀ own, ownerOf o = some own → '/' ∉ own)
    (tells : o = .manifest generation →
      ∃ manifest, decodeManifest pf data config = .ok manifest ∧ manifest.createdAtMs = t) :
    Recorded config (store config b o data) generation t := by
  refine ⟨recorded.tidy.store plain, ?_⟩
  by_cases same : o = .manifest generation
  · obtain ⟨manifest, decodes, created⟩ := tells same
    subst same
    exact .inr ⟨manifest, manifestAt_store decodes, created⟩
  · have left : object config (Spec.store config b o data) (.manifest generation) =
        object config b (.manifest generation) := by
      rw [object_store, if_neg (Ne.symm same)]
    refine recorded.told.imp left.trans ?_
    rintro ⟨manifest, listed, created⟩
    exact ⟨manifest, (manifestAt_congr config left).trans listed, created⟩

theorem recorded_of_fresh (fresh : Fresh b generation) : Recorded config b generation t :=
  ⟨tidy_of_fresh fresh, .inl (fresh.absent rfl)⟩

/-- Without an upload there are no new objects. -/
theorem Acts.fewer (aside : isAside c = true) (acts : Acts host w c reply w') (key : Str) :
    w'.bucket.lookup key = w.bucket.lookup key ∨ w'.bucket.lookup key = none := by
  have erased : ∀ key', (w.bucket.erase key').lookup key = w.bucket.lookup key ∨
      (w.bucket.erase key').lookup key = none := by
    intro key'
    by_cases same : key = key'
    · rw [same, AList.lookup_erase]
      exact .inr rfl
    · exact .inl (AList.lookup_erase_ne same)
  have bucketed := acts.bucketed
  cases c with
  | deleteObject key' => cases reply with
    | ok =>
      rw [show w'.bucket = w.bucket.erase key' from bucketed]
      exact erased key'
    | error =>
      obtain same | gone := bucketed
      · exact .inl (congrArg _ same)
      · rw [gone]
        exact erased key'
  | newUuid | putObject => cases aside
  | _ => exact .inl (congrArg _ (bucketed.same (by simp) (by simp)))

theorem Births.next_aside {β : Births} (settled : β.drawn = none) (aside : isAside c = true) :
    β.next c reply = β := by
  cases c with
  | newUuid => cases aside
  | systemTime =>
    unfold Births.next
    rw [settled]
  | _ => rfl

theorem Registered.aside (registered : Registered config v) (aside : isAside c = true)
    (served : env.serve.beside Births.record v c reply v') :
    Registered config v' ∧ v'.2 = v.2 := by
  obtain ⟨w, β⟩ := v
  obtain ⟨w', β'⟩ := v'
  obtain ⟨⟨a, -, -, acts⟩, recorded⟩ := served
  obtain rfl : β' = β := Eq.trans recorded (Births.next_aside registered.settled aside)
  have fewer := acts.fewer aside
  refine ⟨⟨registered.settled, fun generation t started => ?_⟩, rfl⟩
  exact (registered.recorded generation t started).mono fewer

/-- An object of a plain generation is put, and a manifest only if it tells the truth. -/
theorem Registered.put (registered : Registered config v)
    (plain : ∀ own, ownerOf o = some own → '/' ∉ own)
    (tells : ∀ generation t, o = .manifest generation → v.2.started.lookup generation = some t →
      ∃ manifest, decodeManifest pf data config = .ok manifest ∧ manifest.createdAtMs = t)
    {reply : Except String Unit}
    (served : env.serve.beside Births.record v (.putObject (objectKey config o) data) reply v') :
    Registered config v' ∧ v'.2 = v.2 := by
  obtain ⟨w, β⟩ := v
  obtain ⟨w', β'⟩ := v'
  obtain ⟨⟨a, -, -, acts⟩, recorded⟩ := served
  obtain rfl : β' = β := recorded
  have stored : Registered config (⟨store config w.bucket o data, a, w.clock, w.log⟩, β') :=
    ⟨registered.settled, fun generation t started =>
      (registered.recorded generation t started).store plain fun same =>
        tells generation t same started⟩
  have kept : Registered config (⟨w.bucket, a, w.clock, w.log⟩, β') :=
    ⟨registered.settled, registered.recorded⟩
  cases reply with
  | ok =>
    cases acts
    exact ⟨⟨stored.settled, stored.recorded⟩, rfl⟩
  | error e =>
    obtain rfl | rfl := acts
    · exact ⟨kept, rfl⟩
    · exact ⟨stored, rfl⟩

theorem Registered.draw (registered : Registered config v)
    (served : env.serve.beside Births.record v .newUuid generation v') :
    Drawn config generation v' := by
  obtain ⟨w, β⟩ := v
  obtain ⟨w', β'⟩ := v'
  obtain ⟨⟨a, -, -, fresh, rfl⟩, same⟩ := served
  cases same
  exact ⟨rfl, fresh, registered.recorded⟩

theorem Drawn.create (drawn : Drawn config generation v) {reply : Except String Nat}
    (served : env.serve.beside Births.record v .systemTime reply v') :
    Registered config v' ∧ v'.2.started.lookup generation = some (reading reply) := by
  obtain ⟨w, β⟩ := v
  obtain ⟨w', β'⟩ := v'
  obtain ⟨⟨a, -, -, -, rfl⟩, same⟩ := served
  have created : β' = ⟨none, β.started.insert generation (reading reply)⟩ := by
    refine Eq.trans same ?_
    unfold Births.next
    rw [drawn.drawn]
  subst created
  refine ⟨⟨rfl, fun own t started => ?_⟩, AList.lookup_insert _⟩
  by_cases new : own = generation
  · subst new
    exact recorded_of_fresh drawn.fresh
  · rw [AList.lookup_insert_ne new] at started
    exact drawn.recorded own t started

end

end Waloy.Spec
