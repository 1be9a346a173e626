import Waloy.Spec.Aligned
import Waloy.Spec.World

/-!
# SQLite's writer of the WAL file

The writer puts each frame at its own cursor. A rollback takes the cursor back to the end of
the last commit frame, and a restart takes it to the first frame under a header with a new
salt. The file keeps its length in both, so later frames are written over older ones.
-/
namespace Waloy.Spec
open Waloy.Effect Waloy.Source

/-- A file after a write in place, which may go on beyond its end. -/
def overwrite (file : Bytes) (start : Nat) (data : Bytes) : Bytes :=
  file.take start ++ data ++ file.drop (start + data.length)

theorem length_overwrite {file data : Bytes} {start : Nat} (inside : start ≤ file.length) :
    (overwrite file start data).length = max file.length (start + data.length) := by
  simp only [overwrite, List.length_append, List.length_take, List.length_drop]
  omega

/-- What lies before a write is kept. -/
theorem take_prefix_overwrite {file : Bytes} {start : Nat} (data : Bytes) :
    file.take start <+: overwrite file start data := by
  rw [overwrite, List.append_assoc]
  exact List.prefix_append _ _

/-- The header of a WAL file. -/
structure WalHeader (page : Nat) where
  bytes : Bytes
  length : bytes.length = walHeaderSize
  paged : pageSize bytes = page
  positive : 0 < page

/-- A WAL file with its header, and where its writer is: the cursor, and the end of the last
commit frame. -/
structure WalFile (page : Nat) where
  bytes : Bytes
  cursor : Nat
  committed : Nat
  paged : pageSize bytes = page
  positive : 0 < page
  headed : walHeaderSize ≤ committed
  ordered : committed ≤ cursor
  inside : cursor ≤ bytes.length

/-- The bytes of the frame with the given number, in a file or in a copy of it. -/
def frameOf (page : Nat) (data : Bytes) (i : Nat) : Bytes :=
  (data.drop (walHeaderSize + i * (walFrameHeaderSize + page))).take (walFrameHeaderSize + page)

/-- Where a frame ends. -/
def frameEnd (page i : Nat) : Nat := walHeaderSize + (i + 1) * (walFrameHeaderSize + page)

section
variable {page : Nat}

theorem frameOf_of_begins {data file : Bytes} {i : Nat} (begins : data <+: file)
    (inside : frameEnd page i ≤ data.length) : frameOf page data i = frameOf page file i := by
  obtain ⟨rest, rfl⟩ := begins
  have stop : walHeaderSize + i * (walFrameHeaderSize + page) + (walFrameHeaderSize + page) ≤
      data.length := by
    simpa [frameEnd, Nat.succ_mul, Nat.add_assoc] using inside
  rw [frameOf, frameOf, List.drop_append_of_le_length (by omega), List.take_append_of_le_length]
  rw [List.length_drop]
  omega

namespace WalFile

variable (f : WalFile page)

theorem long : walHeaderSize ≤ f.bytes.length := f.headed.trans (f.ordered.trans f.inside)

/-- The next frame is written at the cursor. -/
def write (frame : Bytes) (commit : Bool) : WalFile page where
  bytes := overwrite f.bytes f.cursor frame
  cursor := f.cursor + frame.length
  committed := if commit then f.cursor + frame.length else f.committed
  paged := by
    have before : walHeaderSize ≤ (f.bytes.take f.cursor).length := by
      rw [List.length_take]
      exact le_min (f.headed.trans f.ordered) f.long
    have long : 12 ≤ (f.bytes.take f.cursor).length := Nat.le_trans (by decide) before
    rw [pageSize_of_begins (take_prefix_overwrite frame) long,
      ← pageSize_of_begins (List.take_prefix _ _) long, f.paged]
  positive := f.positive
  headed := by
    have := f.headed
    have := f.ordered
    split <;> omega
  ordered := by
    have := f.ordered
    split <;> omega
  inside := by
    rw [length_overwrite f.inside]
    exact le_max_right _ _

/-- The cursor is back at the end of the last commit frame. -/
def rollback : WalFile page :=
  { f with
    cursor := f.committed
    ordered := Nat.le_refl _
    inside := f.ordered.trans f.inside }

/-- A header in front of the old bytes, and the cursor is at the first frame. -/
def restart (header : WalHeader page) : WalFile page where
  bytes := overwrite f.bytes 0 header.bytes
  cursor := walHeaderSize
  committed := walHeaderSize
  paged := by
    have begins : header.bytes <+: overwrite f.bytes 0 header.bytes := by
      rw [overwrite, List.take_zero, List.nil_append]
      exact List.prefix_append _ _
    have long : 12 ≤ header.bytes.length := by
      rw [header.length]
      decide
    rw [pageSize_of_begins begins long, header.paged]
  positive := f.positive
  headed := Nat.le_refl _
  ordered := Nat.le_refl _
  inside := by
    rw [length_overwrite (Nat.zero_le _), header.length]
    omega

/-- The first header of a file. -/
def first (header : WalHeader page) : WalFile page where
  bytes := header.bytes
  cursor := walHeaderSize
  committed := walHeaderSize
  paged := header.paged
  positive := header.positive
  headed := Nat.le_refl _
  ordered := Nat.le_refl _
  inside := header.length.ge

/-- The complete frames of a file reach as far as `wal_aligned_len` tells. -/
theorem frameEnd_le_aligned {i : Nat} (inside : frameEnd page i ≤ f.bytes.length) :
    frameEnd page i ≤ walAlignedLen f.bytes := by
  have size : frameSize f.bytes = walFrameHeaderSize + page := by rw [frameSize, f.paged]
  have more : 1 * (walFrameHeaderSize + page) ≤ (i + 1) * (walFrameHeaderSize + page) :=
    Nat.mul_le_mul_right _ (by omega)
  rw [frameEnd] at inside ⊢
  have long : walHeaderSize + walFrameHeaderSize ≤ f.bytes.length := by omega
  have sized : pageSize f.bytes ≠ 0 := by
    rw [f.paged]
    exact f.positive.ne'
  rw [walAlignedLen_of_long long, if_neg sized, size]
  have fits : i + 1 ≤ (f.bytes.length - walHeaderSize) / (walFrameHeaderSize + page) := by
    rw [Nat.le_div_iff_mul_le (Nat.add_pos_right _ f.positive)]
    omega
  exact Nat.add_le_add_left (Nat.mul_le_mul_right _ fits) _

end WalFile

end

/-- The WAL file on disk. -/
inductive OnDisk (page : Nat) where
  | missing
  | empty
  | log (f : WalFile page)

def OnDisk.bytes {page : Nat} : OnDisk page → Option Bytes
  | .missing => none
  | .empty => some []
  | .log f => some f.bytes

/-- The files of a database, with every salt that its WAL file has had. -/
structure DbFiles (page : Nat) where
  db : Option Bytes
  wal : OnDisk page
  salts : List Bytes
  known : ∀ f, wal = .log f → walSalt f.bytes ∈ salts

namespace DbFiles

variable {page : Nat}

def withLog (s : DbFiles page) (f : WalFile page) : DbFiles page where
  db := s.db
  wal := .log f
  salts := walSalt f.bytes :: s.salts
  known := by
    rintro _ ⟨⟩
    exact List.mem_cons_self

/-- The steps of the writer, and of a checkpoint into the database file. -/
inductive Step (s : DbFiles page) : DbFiles page → Prop where
  | started (header : WalHeader page) (bare : ∀ f, s.wal ≠ .log f)
      (new : walSalt header.bytes ∉ s.salts) : Step s (s.withLog (.first header))
  | wrote {f : WalFile page} (held : s.wal = .log f) (frame : Bytes)
      (size : frame.length = walFrameHeaderSize + page) (commit : Bool) :
      Step s (s.withLog (f.write frame commit))
  | rolledBack {f : WalFile page} (held : s.wal = .log f) : Step s (s.withLog f.rollback)
  | restarted {f : WalFile page} (held : s.wal = .log f) (header : WalHeader page)
      (new : walSalt header.bytes ∉ s.salts) : Step s (s.withLog (f.restart header))
  | checkpointed (db : Option Bytes) : Step s { s with db := db }

/-- The writer stands still while a call waits for its answer. -/
def host (tick : Nat → Nat → Prop) : Host (DbFiles page) where
  dbPath := []
  during a a' := a' = a
  during_refl _ := rfl
  during_trans first second := second.trans first
  db := DbFiles.db
  wal s := s.wal.bytes
  truncated _ _ := True
  installed _ _ _ _ := True
  tick := tick

end DbFiles

end Waloy.Spec
