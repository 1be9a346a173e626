import Waloy.Effect.Alongside
import Waloy.Spec.Archive
import Waloy.Spec.Faultless
import Waloy.Spec.Territory

/-!
# Two processes with one bucket

Each process has files and a clock of its own, the bucket they share. What a process would see of
the bucket if it were alone there holds the objects of the generations that it has drawn, as they
are, and of the others no more than the bucket does.
-/
namespace Waloy.Spec
open Waloy.Effect Waloy.Source

variable {pf : Platform} (config : BackupConfig pf.build) {A A' : Type}

/-- What a process has to itself. -/
structure Desk (A : Type) where
  app : A
  clock : Nat
  log : List Event

def Desk.world (desk : Desk A) (b : Bucket) : World A := ⟨b, desk.app, desk.clock, desk.log⟩

/-- A bucket between two processes. -/
structure Shared (A A' : Type) where
  bucket : Bucket
  left : Desk A
  right : Desk A'

namespace Shared

def leftWorld (w : Shared A A') : World A := w.left.world w.bucket

def rightWorld (w : Shared A A') : World A' := w.right.world w.bucket

def swap (w : Shared A A') : Shared A' A := ⟨w.bucket, w.right, w.left⟩

end Shared

def drawnIds : List Event → List Str
  | [] => []
  | .drew generation :: rest => generation :: drawnIds rest
  | .stored _ :: rest => drawnIds rest

/-- An id that another process has drawn is not drawn again. -/
def Unclaimed (claimed : List Str) : (c : Call) → c.Reply → Prop
  | .newUuid, generation => generation ∉ claimed
  | _, _ => True

/-- The runs of a regime beside another process, which uses the same bucket. -/
def sharing (R : Regime pf A) : Setting (process config) (Shared A A') where
  enabled q s _ := R.enabled q s
  serve q s w c reply w' := (R.env config q s).serve w.leftWorld c reply w'.leftWorld ∧
    w'.right = w.right ∧ Unclaimed (drawnIds w.right.log) c reply
  drift _ w w' := R.drift w.leftWorld w'.leftWorld ∧ w'.right = w.right

/-- The same for the process on the right. -/
def sharingRight (R : Regime pf A') : Setting (process config) (Shared A A') where
  enabled q s _ := R.enabled q s
  serve q s w c reply w' :=
    ((sharing config R).serve q s : Server Calls (Shared A' A)) w.swap c reply w'.swap
  drift s w w' := (sharing config R).drift s w.swap w'.swap

/-- What a call changes of the bucket: an object, or nothing. -/
abbrev Edit := Option (Object × Option Bytes)

def Edit.apply (b : Bucket) : Edit → Bucket
  | none => b
  | some (o, some data) => store config b o data
  | some (o, none) => b.erase (objectKey config o)

/-- The marker is written, other objects are those of these generations. -/
def Edit.Within (own : List Str) : Edit → Prop
  | none => True
  | some (o, data) => (o = .latest ∧ data.isSome) ∨ ∃ generation, ownerOf o = some generation ∧
    generation ∈ own

/-- The world of a process as it would be without the other one. -/
structure Sees (w v : World A) : Prop where
  app : v.app = w.app
  clock : v.clock = w.clock
  log : v.log = w.log
  own : ∀ {o generation}, ownerOf o = some generation → generation ∈ drawnIds w.log →
    object config v.bucket o = object config w.bucket o
  covered : ∀ {key}, (v.bucket.lookup key).isSome → (w.bucket.lookup key).isSome

/-- The shared world, and what each process would see alone. -/
structure Joint (w : Shared A A') (v : World A) (u : World A') : Prop where
  left : Sees config w.leftWorld v
  right : Sees config w.rightWorld u
  apart : ∀ generation ∈ drawnIds w.left.log, generation ∉ drawnIds w.right.log
  foreign : ∀ {o generation}, ownerOf o = some generation → generation ∈ drawnIds w.right.log →
    object config v.bucket o = none
  foreign' : ∀ {o generation}, ownerOf o = some generation → generation ∈ drawnIds w.left.log →
    object config u.bucket o = none
  marked : object config w.bucket .latest = object config v.bucket .latest ∨
    object config w.bucket .latest = object config u.bucket .latest

section
variable {config}

theorem Joint.swap {w : Shared A A'} {v : World A} {u : World A'} (joint : Joint config w v u) :
    Joint config w.swap u v where
  left := joint.right
  right := joint.left
  apart generation mine theirs := joint.apart generation theirs mine
  foreign := joint.foreign'
  foreign' := joint.foreign
  marked := joint.marked.symm

theorem lookup_edit (b : Bucket) (o : Object) (data : Option Bytes) (key : Str) :
    (Edit.apply config b (some (o, data))).lookup key =
      if key = objectKey config o then data else b.lookup key := by
  cases data with
  | some data =>
    change (b.insert _ _).lookup key = _
    split
    case isTrue same => rw [same, AList.lookup_insert]
    case isFalse other => rw [AList.lookup_insert_ne other]
  | none =>
    change (b.erase _).lookup key = _
    split
    case isTrue same => rw [same, AList.lookup_erase]
    case isFalse other => rw [AList.lookup_erase_ne other]

theorem object_edit (b : Bucket) (o o' : Object) (data : Option Bytes) :
    object config (Edit.apply config b (some (o, data))) o' =
      if o' = o then data else object config b o' := by
  rw [object, lookup_edit]
  exact if_congr (objectKey_inj config) rfl rfl

/-- The ids that have been drawn, as the automaton takes note of them. -/
theorem Acts.noted {host : Host A} {w w' : World A} {c : Call} {reply : c.Reply}
    (acts : Acts host w c reply w') :
    drawnIds w'.log = Territory.note (drawnIds w.log) c reply := by
  by_cases quiet : isQuiet c = true
  case pos =>
    rw [acts.quiet quiet]
    cases c with
    | newUuid => cases quiet
    | _ => rfl
  case neg =>
    cases c with
    | putObject => cases reply with
      | ok =>
        obtain rfl := acts
        rfl
      | error => obtain rfl | rfl := acts <;> rfl
    | deleteObject => cases reply with
      | ok =>
        obtain rfl := acts
        rfl
      | error => obtain rfl | rfl := acts <;> rfl
    | systemTime =>
      obtain ⟨-, rfl⟩ := acts
      rfl
    | newUuid =>
      obtain ⟨-, rfl⟩ := acts
      rfl
    | writeFile =>
      obtain ⟨a, -, rfl⟩ := acts
      rfl
    | executeBatch _ batch => cases batch with
      | walCheckpointTruncate =>
        obtain ⟨a, -, rfl⟩ := acts
        rfl
      | _ => exact absurd rfl quiet
    | _ => exact absurd rfl quiet

/-- What a call of a manager that keeps to its generations does, it does in every world that
the manager sees alike. -/
theorem Acts.edits {host : Host A} {w w' v : World A} {c : Call} {reply : c.Reply}
    (settles : Settles config (drawnIds w.log) c) (sees : Sees config w v)
    (acts : Acts host w c reply w') : ∃ edit, Edit.Within (drawnIds w.log) edit ∧
      w'.bucket = Edit.apply config w.bucket edit ∧
      Acts host v c reply { w' with bucket := Edit.apply config v.bucket edit } := by
  obtain ⟨b, a, t, log⟩ := v
  obtain ⟨app, clock, logged, own, -⟩ := sees
  obtain rfl : a = w.app := app
  obtain rfl : t = w.clock := clock
  obtain rfl : log = w.log := logged
  cases c with
  | putObject key data =>
    obtain ⟨o, rfl, within⟩ : ∃ o, key = objectKey config o ∧
        Edit.Within (drawnIds w.log) (some (o, some data)) := by
      obtain rfl | ⟨o, generation, rfl, owner, among⟩ := settles.1
      · exact ⟨.latest, rfl, .inl ⟨rfl, rfl⟩⟩
      · exact ⟨o, rfl, .inr ⟨generation, owner, among⟩⟩
    cases reply with
    | ok =>
      obtain rfl := acts
      exact ⟨some (o, some data), within, rfl, rfl⟩
    | error =>
      obtain rfl | rfl := acts
      · exact ⟨none, trivial, rfl, .inl rfl⟩
      · exact ⟨some (o, some data), within, rfl, .inr rfl⟩
  | getObject key =>
    obtain ⟨o, generation, rfl, owner, among⟩ := settles.1
    cases reply with
    | ok data =>
      obtain ⟨found, rfl⟩ := acts
      exact ⟨none, trivial, rfl, (own owner among).trans found, rfl⟩
    | error =>
      obtain rfl := acts
      exact ⟨none, trivial, rfl, rfl⟩
  | deleteObject key =>
    obtain ⟨o, generation, rfl, owner, among⟩ := settles.1
    have within : Edit.Within (drawnIds w.log) (some (o, none)) := .inr ⟨generation, owner, among⟩
    cases reply with
    | ok =>
      obtain rfl := acts
      exact ⟨some (o, none), within, rfl, rfl⟩
    | error =>
      obtain rfl | rfl := acts
      · exact ⟨none, trivial, rfl, .inl rfl⟩
      · exact ⟨some (o, none), within, rfl, .inr rfl⟩
  | list => exact settles.1.elim
  | newUuid => exact absurd rfl settles.2
  | systemTime =>
    obtain ⟨ticked, rfl⟩ := acts
    exact ⟨none, trivial, rfl, ticked, rfl⟩
  | fillBytes =>
    obtain ⟨long, rfl⟩ := acts
    exact ⟨none, trivial, rfl, long, rfl⟩
  | tryExists =>
    cases reply with
    | ok =>
      obtain ⟨db, wal, rfl⟩ := acts
      exact ⟨none, trivial, rfl, db, wal, rfl⟩
    | error =>
      obtain rfl := acts
      exact ⟨none, trivial, rfl, rfl⟩
  | readFile =>
    cases reply with
    | ok =>
      obtain ⟨db, wal, rfl⟩ := acts
      exact ⟨none, trivial, rfl, db, wal, rfl⟩
    | error =>
      obtain rfl := acts
      exact ⟨none, trivial, rfl, rfl⟩
  | writeFile =>
    obtain ⟨a, written, rfl⟩ := acts
    exact ⟨none, trivial, rfl, a, written, rfl⟩
  | executeBatch conn batch =>
    cases batch with
    | walCheckpointTruncate =>
      obtain ⟨a, emptied, rfl⟩ := acts
      exact ⟨none, trivial, rfl, a, emptied, rfl⟩
    | _ =>
      obtain rfl := acts
      exact ⟨none, trivial, rfl, rfl⟩
  | _ =>
    obtain rfl := acts
    exact ⟨none, trivial, rfl, rfl⟩

/-! What an edit leaves of two buckets. -/

theorem Edit.agree {b b' : Bucket} {o : Object} (same : object config b o = object config b' o)
    (edit : Edit) :
    object config (edit.apply config b) o = object config (edit.apply config b') o := by
  cases edit with
  | none => exact same
  | some edit => rw [object_edit, object_edit, same]

theorem Edit.covers {b b' : Bucket} {key : Str}
    (covered : (b.lookup key).isSome → (b'.lookup key).isSome) (edit : Edit) :
    ((edit.apply config b).lookup key).isSome → ((edit.apply config b').lookup key).isSome := by
  cases edit with
  | none => exact covered
  | some edit =>
    rw [lookup_edit, lookup_edit]
    split
    case isTrue => exact id
    case isFalse => exact covered

variable {own : List Str} {edit : Edit}

theorem Edit.Within.kept (within : Edit.Within own edit) {b : Bucket} {o : Object}
    {generation : Str} (owner : ownerOf o = some generation) (foreign : generation ∉ own) :
    object config (edit.apply config b) o = object config b o := by
  cases edit with
  | none => rfl
  | some edit =>
    obtain ⟨o', data⟩ := edit
    rw [object_edit, if_neg]
    rintro rfl
    obtain ⟨rfl, -⟩ | ⟨mine, owner', among⟩ := within
    · cases owner
    · obtain rfl : generation = mine := Option.some.inj (owner.symm.trans owner')
      exact foreign among

/-- An edit deletes nothing that another process sees. -/
theorem Edit.Within.spares (within : Edit.Within own edit) {b b' : Bucket} {key : Str}
    (covered : (b'.lookup key).isSome → (b.lookup key).isSome)
    (foreign : ∀ {o generation}, ownerOf o = some generation → generation ∈ own →
      object config b' o = none)
    (seen : (b'.lookup key).isSome) : ((edit.apply config b).lookup key).isSome := by
  cases edit with
  | none => exact covered seen
  | some edit =>
    rw [lookup_edit]
    split
    case isTrue same =>
      obtain ⟨-, written⟩ | ⟨mine, owner, among⟩ := within
      · exact written
      · have missing : b'.lookup key = none := same ▸ foreign owner among
        rw [missing] at seen
        cases seen
    case isFalse => exact covered seen

theorem Edit.marked {b b' : Bucket} {r : Option Bytes}
    (same : object config b .latest = object config b' .latest ∨ object config b .latest = r)
    (within : Edit.Within own edit) :
    object config (edit.apply config b) .latest = object config (edit.apply config b') .latest ∨
      object config (edit.apply config b) .latest = r := by
  cases edit with
  | none => exact same
  | some edit =>
    rw [object_edit, object_edit]
    split
    case isTrue => exact .inl rfl
    case isFalse => exact same

theorem Fresh.covered {b b' : Bucket} {generation : Str}
    (covers : ∀ {key}, (b.lookup key).isSome → (b'.lookup key).isSome)
    (fresh : Fresh b' generation) : Fresh b generation := by
  refine ⟨fresh.1, fun key member => fresh.2 key ?_⟩
  have present : (b.lookup key).isSome := AList.lookup_isSome.mpr (AList.mem_keys.mpr member)
  exact AList.mem_keys.mp (AList.lookup_isSome.mp (covers present))

/-! What the process on the left does, and what it would do alone. -/

variable {w w' : Shared A A'} {v : World A} {u : World A'}

theorem Joint.edited (joint : Joint config w v u) (within : Edit.Within (drawnIds w.left.log) edit)
    (bucket : w'.bucket = edit.apply config w.bucket)
    (log : drawnIds w'.left.log = drawnIds w.left.log) (right : w'.right = w.right) :
    Joint config w' { w'.leftWorld with bucket := edit.apply config v.bucket } u := by
  obtain ⟨sees, sees', apart, foreign, foreign', marked⟩ := joint
  obtain ⟨b, left, desk⟩ := w'
  obtain rfl : b = edit.apply config w.bucket := bucket
  obtain rfl : desk = w.right := right
  have same : drawnIds left.log = drawnIds w.left.log := log
  have theirs : ∀ generation ∈ drawnIds w.right.log, generation ∉ drawnIds w.left.log :=
    fun generation theirs mine => apart generation mine theirs
  constructor
  case left =>
    refine ⟨rfl, rfl, rfl, ?_, edit.covers sees.covered⟩
    intro o generation owner among
    exact edit.agree (sees.own owner (same ▸ among))
  case right =>
    refine ⟨sees'.app, sees'.clock, sees'.log, ?_, within.spares sees'.covered foreign'⟩
    intro o generation owner among
    exact (sees'.own owner among).trans (within.kept owner (theirs generation among)).symm
  case apart =>
    intro generation mine
    exact apart generation (same ▸ mine)
  case foreign =>
    intro o generation owner among
    exact (within.kept owner (theirs generation among)).trans (foreign owner among)
  case foreign' =>
    intro o generation owner among
    exact foreign' owner (same ▸ among)
  case marked => exact Edit.marked marked within

theorem Joint.drawn {generation : Str} (joint : Joint config w v u)
    (fresh : Fresh w.bucket generation) (unclaimed : generation ∉ drawnIds w.right.log)
    (bucket : w'.bucket = w.bucket) (log : w'.left.log = .drew generation :: w.left.log)
    (right : w'.right = w.right) :
    Joint config w' { w'.leftWorld with bucket := v.bucket } u := by
  obtain ⟨sees, sees', apart, foreign, foreign', marked⟩ := joint
  obtain ⟨b, ⟨a, t, events⟩, desk⟩ := w'
  obtain rfl : b = w.bucket := bucket
  obtain rfl : desk = w.right := right
  obtain rfl : events = .drew generation :: w.left.log := log
  constructor
  case left =>
    refine ⟨rfl, rfl, rfl, ?_, sees.covered⟩
    intro o g owner among
    obtain rfl | older := List.mem_cons.mp among
    · exact ((fresh.covered sees.covered).absent owner).trans (fresh.absent owner).symm
    · exact sees.own owner older
  case right => exact ⟨sees'.app, sees'.clock, sees'.log, sees'.own, sees'.covered⟩
  case apart =>
    intro g mine
    obtain rfl | older := List.mem_cons.mp mine
    · exact unclaimed
    · exact apart g older
  case foreign => exact foreign
  case foreign' =>
    intro o g owner among
    obtain rfl | older := List.mem_cons.mp among
    -- What the other one sees is in the bucket, where nothing has this id.
    · exact (fresh.covered sees'.covered).absent owner
    · exact foreign' owner older
  case marked => exact marked

theorem Sees.moved {w v : World A} (sees : Sees config w v) (a : A) :
    Sees config { w with app := a } { v with app := a } :=
  ⟨rfl, sees.clock, sees.log, sees.own, sees.covered⟩

/-- A call that does not fail beside the other process does not fail alone. -/
theorem Sees.faultless {w v : World A} (sees : Sees config w v) {dbPath : Str} {c : Call}
    {reply : c.Reply} (permits : Territory.Permits config (drawnIds w.log) c)
    (good : faultless dbPath w c reply) : faultless dbPath v c reply := by
  cases c with
  | getObject key =>
    obtain ⟨o, generation, rfl, owner, among⟩ := permits
    cases reply with
    | ok => trivial
    | error => exact (sees.own owner among).trans good
  | putObject | deleteObject | list | readFile | openConn | executeBatch | queryMaster =>
    cases reply with
    | ok => trivial
    | error => exact good
  | _ => trivial

/-- What the process on the left does beside the other one, it does alone. -/
theorem sharing_follows (ops : Request → Prop) (host : Host A) (u : World A') :
    (sharing config (flawless config ops host)).Follows
      (Regime.setting config (flawless config ops host)) (fun w v => Joint config w v u)
      (fun v => Territory.Permits config (drawnIds v.log)) where
  enabled _ asked := asked
  serve := by
    rintro q s w w' v c reply joint permits ⟨⟨a, moved, ⟨good, uploads⟩, acts⟩, right, unclaimed⟩
    have sees := joint.left.moved a
    have permitted : Territory.Permits config (drawnIds w.leftWorld.log) c :=
      joint.left.log ▸ permits
    have during : host.during v.app a := joint.left.app ▸ moved
    have allowed : faultless config.dbPath { v with app := a } c reply ∧ uploadsWell config c :=
      ⟨sees.faultless permitted good, uploads⟩
    -- A new id may be any that neither bucket knows; what else it asks for is its own.
    by_cases draws : c = .newUuid
    case neg =>
      have settles : Settles config (drawnIds w.leftWorld.log) c := ⟨permitted, draws⟩
      have log : drawnIds w'.left.log = drawnIds w.left.log := acts.noted.trans (settles.note reply)
      obtain ⟨edit, within, bucket, acts'⟩ :=
        acts.edits (w := { w.leftWorld with app := a }) settles sees
      exact ⟨_, ⟨a, during, allowed, acts'⟩, joint.edited within bucket log right⟩
    case pos =>
      subst draws
      obtain ⟨fresh, same⟩ := acts
      have bucket : w'.bucket = w.bucket := congrArg World.bucket same
      have log : w'.left.log = .drew reply :: w.left.log := congrArg World.log same
      refine ⟨_, ⟨a, during, allowed, fresh.covered sees.covered, ?_⟩,
        joint.drawn fresh unclaimed bucket log right⟩
      obtain ⟨b, app, t, events⟩ := v
      obtain rfl : t = w.left.clock := sees.clock
      obtain rfl : events = w.left.log := sees.log
      rw [same]
      rfl
  drift := by
    rintro s w w' v joint ⟨⟨a, t, moved, ticked, same⟩, right⟩
    have bucket : w'.bucket = w.bucket := congrArg World.bucket same
    have log : w'.left.log = w.left.log := congrArg World.log same
    have within : Edit.Within (drawnIds w.left.log) none := trivial
    refine ⟨_, ⟨a, t, joint.left.app ▸ moved, joint.left.clock ▸ ticked, ?_⟩,
      joint.edited within bucket (congrArg drawnIds log) right⟩
    obtain ⟨b, app, clock, events⟩ := v
    obtain rfl : events = w.left.log := joint.left.log
    rw [same]
    rfl

theorem sharingRight_follows (ops : Request → Prop) (host : Host A') (v : World A) :
    (sharingRight config (flawless config ops host)).Follows
      (Regime.setting config (flawless config ops host)) (fun w u => Joint config w v u)
      (fun u => Territory.Permits config (drawnIds u.log)) where
  enabled _ asked := asked
  serve joint permits served := by
    obtain ⟨u', served', joint'⟩ :=
      (sharing_follows ops host v).serve joint.swap permits served
    exact ⟨u', served', joint'.swap⟩
  drift {s _ _ _} joint moved := by
    obtain ⟨u', moved', joint'⟩ := (sharing_follows ops host v).drift (s := s) joint.swap moved
    exact ⟨u', moved', joint'.swap⟩

theorem sharing_divide (ops ops' : Request → Prop) (host : Host A) (host' : Host A') :
    Both.Divide (sharing config (flawless config ops host))
      (sharingRight config (flawless config ops' host'))
      (Regime.setting config (flawless config ops host))
      (Regime.setting config (flawless config ops' host')) (Joint config)
      (fun v => Territory.Permits config (drawnIds v.log))
      (fun u => Territory.Permits config (drawnIds u.log)) where
  left := sharing_follows ops host
  right := sharingRight_follows ops' host'

/-- A run without cleaning, to the automaton that reads along. -/
theorem flawless_follows (host : Host A) :
    (Regime.setting config (flawless config (· ≠ .enforceRetention) host)).Follows
      ((territory config).runs (process config) (· ≠ .enforceRetention))
      (fun w own => own = drawnIds w.log) (fun _ _ => True) where
  enabled _ asked := asked
  serve := by
    rintro q s w w' _ c reply rfl - ⟨a, -, -, acts⟩
    exact ⟨_, rfl, acts.noted.symm⟩
  drift := by
    rintro s w w' _ rfl ⟨a, t, -, -, rfl⟩
    exact ⟨_, rfl, rfl⟩

end

end Waloy.Spec
