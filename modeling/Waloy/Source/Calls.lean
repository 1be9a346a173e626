import Waloy.Effect.Operation
import Waloy.Source.Config

/-!
# The calls of the manager

Everything `manager.rs` and `s3.rs` ask of something outside: the bucket, the
local files, SQLite, the clocks and the random sources. An error answer carries
the text of the error.
-/
namespace Waloy.Source
open Waloy.Effect

abbrev Conn := Nat

/-- The statements the code executes on a connection. -/
inductive Batch where
  /-- `PRAGMA journal_mode = WAL; PRAGMA busy_timeout = 5000; PRAGMA wal_autocheckpoint = 0;` -/
  | configure
  | begin
  | commit
  /-- `PRAGMA wal_checkpoint(TRUNCATE)` -/
  | walCheckpointTruncate
  /-- `PRAGMA journal_mode = WAL` -/
  | journalModeWal
  deriving DecidableEq, Repr

inductive Call where
  | putObject (fullKey : Str) (data : Bytes)
  | getObject (fullKey : Str)
  | deleteObject (fullKey : Str)
  | list (fullPrefix : Str)
  | sleep (ms : Nat)
  /-- `SystemTime::now().duration_since(UNIX_EPOCH)` in milliseconds. -/
  | systemTime
  | instantNow
  | newUuid
  /-- `OsRng.fill_bytes` on an array of that length. -/
  | fillBytes (length : Nat)
  | tryExists (path : Str)
  | readFile (path : Str)
  | writeFile (path : Str) (data : Bytes)
  /-- `File::open` and `sync_all`. -/
  | syncFile (path : Str)
  | openConn (path : Str)
  | executeBatch (conn : Conn) (batch : Batch)
  /-- `query_row("SELECT 1 FROM sqlite_master LIMIT 1")` -/
  | queryMaster (conn : Conn)
  | closeConn (conn : Conn)
  deriving DecidableEq, Repr

@[reducible] def Call.Reply : Call → Type
  | .putObject _ _ => Except String Unit
  | .getObject _ => Except String Bytes
  | .deleteObject _ => Except String Unit
  | .list _ => Except String (List (List Str))
  | .sleep _ => Unit
  | .systemTime => Except String Nat
  | .instantNow => Nat
  | .newUuid => Str
  | .fillBytes _ => Bytes
  | .tryExists _ => Except String Bool
  | .readFile _ => Except String Bytes
  | .writeFile _ _ => Except String Unit
  | .syncFile _ => Except String Unit
  | .openConn _ => Except String Conn
  | .executeBatch _ _ => Except String Unit
  | .queryMaster _ => Except String Unit
  | .closeConn _ => Unit

abbrev Calls : Signature := ⟨Call, Call.Reply⟩

/-- A method with the state `σ` behind `self`; functions without one use `Unit`. -/
abbrev M (σ α : Type) := Op Calls Error σ α

variable {σ α : Type}

abbrev call (c : Call) : M σ c.Reply := Op.call (S := Calls) c

/-- A fallible call with its error wrapped, as `?` does. -/
def orFail (wrap : String → Error) (x : M σ (Except String α)) : M σ α := do
  match ← x with
  | .ok value => pure value
  | .error e => throw (wrap e)

/-- `now_ms`: zero before the epoch; the cast keeps the low 64 bits. -/
def nowMs : M σ Nat := do
  match (← call .systemTime : Except String Nat) with
  | .ok ms => pure (ms % 2 ^ 64)
  | .error _ => pure 0

end Waloy.Source
