import Mathlib.Data.List.AList
import Waloy.Effect.Session
import Waloy.Source.Restore

/-!
# The world around a manager

The bucket, the local files, the clock and the ids the manager draws. A `Host` says
how the application moves its files while a call waits; an environment adds the
answers a statement is about: the failures it allows, or what it knows of the
values that are read. A write that fails may still have taken effect.
-/
namespace Waloy.Spec
open Waloy.Effect Waloy.Source

/-- The objects of a bucket under their full keys. -/
abbrev Bucket := AList (fun _ : Str => Bytes)

/-- The acknowledged writes and the ids drawn, newest first. -/
inductive Event where
  | drew (generation : Str)
  | stored (fullKey : Str)
  deriving DecidableEq

structure World (A : Type) where
  bucket : Bucket
  app : A
  /-- The last reading of the system clock, as `now_ms` returns it. -/
  clock : Nat
  log : List Event

structure Host (A : Type) where
  dbPath : Str
  /-- What the application may do while one call waits for its answer. -/
  during : A → A → Prop
  during_refl : ∀ a, during a a
  during_trans : ∀ {a b c}, during a b → during b c → during a c
  /-- The database file and its WAL file, where they exist. -/
  db : A → Option Bytes
  wal : A → Option Bytes
  /-- What a `wal_checkpoint(TRUNCATE)` may do, whatever it returns. -/
  truncated : A → A → Prop
  /-- A restore writes a local file. -/
  installed : A → Str → Bytes → A → Prop
  /-- Two successive readings of the clock. -/
  tick : Nat → Nat → Prop

/-- `now_ms` of an answer of the system clock. -/
def reading : Except String Nat → Nat
  | .ok ms => ms % 2 ^ 64
  | .error _ => 0

/-- A new UUID: no key of the bucket contains it as a directory. -/
def Fresh (b : Bucket) (generation : Str) : Prop :=
  '/' ∉ generation ∧ ∀ key ∈ b.keys, ¬ (generation ++ ['/']) <:+: key

/-- The answer of the world to one call, and what the call changes. -/
def Acts {A : Type} (host : Host A) (w : World A) : (c : Call) → c.Reply → World A → Prop
  | .putObject key data, .ok _, w' =>
    w' = { w with bucket := w.bucket.insert key data, log := .stored key :: w.log }
  | .putObject key data, .error _, w' =>
    w' = w ∨ w' = { w with bucket := w.bucket.insert key data }
  | .getObject key, .ok data, w' => w.bucket.lookup key = some data ∧ w' = w
  | .deleteObject key, .ok _, w' => w' = { w with bucket := w.bucket.erase key }
  | .deleteObject key, .error _, w' => w' = w ∨ w' = { w with bucket := w.bucket.erase key }
  | .list keyPrefix, .ok pages, w' =>
    pages.flatten.Perm (w.bucket.keys.filter (keyPrefix.isPrefixOf ·)) ∧ w' = w
  | .systemTime, reply, w' =>
    host.tick w.clock (reading reply) ∧ w' = { w with clock := reading reply }
  | .newUuid, generation, w' =>
    Fresh w.bucket generation ∧ w' = { w with log := .drew generation :: w.log }
  | .fillBytes n, bytes, w' => bytes.length = n ∧ w' = w
  | .tryExists path, .ok found, w' =>
    (path = host.dbPath → found = (host.db w.app).isSome) ∧
    (path = host.dbPath ++ ['-', 'w', 'a', 'l'] → found = (host.wal w.app).isSome) ∧ w' = w
  | .readFile path, .ok data, w' =>
    (path = host.dbPath → host.db w.app = some data) ∧
    (path = host.dbPath ++ ['-', 'w', 'a', 'l'] → host.wal w.app = some data) ∧ w' = w
  | .writeFile path data, _, w' => ∃ a, host.installed w.app path data a ∧ w' = { w with app := a }
  | .executeBatch _ .walCheckpointTruncate, _, w' =>
    ∃ a, host.truncated w.app a ∧ w' = { w with app := a }
  | _, _, w' => w' = w

/-- A host and the answers under consideration. -/
structure Env (A : Type) where
  host : Host A
  allows : World A → (c : Call) → c.Reply → Prop

/-- The application moves first, then the call takes effect. -/
def Env.serve {A : Type} (env : Env A) : Server Calls (World A) := fun w c reply w' =>
  ∃ a, env.host.during w.app a ∧ env.allows { w with app := a } c reply ∧
    Acts env.host { w with app := a } c reply w'

/-- The guarantee that every call changes the bucket in a certain way only. -/
def watch {A : Type} (change : Bucket → Bucket → Prop) : Server Calls (World A) :=
  fun w _ _ w' => change w.bucket w'.bucket

/-- The answers that report a failure. -/
def Failure : (c : Call) → c.Reply → Prop
  | .putObject _ _, .error _ => True
  | .getObject _, .error _ => True
  | .deleteObject _, .error _ => True
  | .list _, .error _ => True
  | .tryExists _, .error _ => True
  | .readFile _, .error _ => True
  | .writeFile _ _, .error _ => True
  | .syncFile _, .error _ => True
  | .openConn _, .error _ => True
  | .executeBatch _ _, .error _ => True
  | .queryMaster _, .error _ => True
  | _, _ => False

end Waloy.Spec
