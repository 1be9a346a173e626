import Waloy.Source.Text

/-!
# Reading the WAL file

The constants and the two pure functions of `manager.rs` that decide how much of
the WAL file is new, and whether it is still the file of the last sync.
-/
namespace Waloy.Source

def walHeaderSize : Nat := 32
def walFrameHeaderSize : Nat := 24
def walSaltOffset : Nat := 16
def walSaltLen : Nat := 8

/-- `u32::from_be_bytes`. -/
def fromBeBytes (bytes : Bytes) : Nat := bytes.foldl (fun n byte => n * 256 + byte.toNat) 0

/-- The page size field of a WAL header. -/
def pageSize (walData : Bytes) : Nat := fromBeBytes ((walData.drop 8).take 4)

def walAlignedLen (walData : Bytes) : Nat :=
  let len := walData.length
  if len < walHeaderSize + walFrameHeaderSize then min walHeaderSize len
  else
    let page := pageSize walData
    if page = 0 then walHeaderSize
    else
      let frameSize := walFrameHeaderSize + page
      walHeaderSize + (len - walHeaderSize) / frameSize * frameSize

/-- `&data[start..stop]`; `none` is the panic of a range that is out of bounds. -/
def slice (data : Bytes) (start stop : Nat) : Option Bytes :=
  if start ≤ stop ∧ stop ≤ data.length then some ((data.drop start).take (stop - start)) else none

/-- The salt fields of a WAL header. -/
def walSalt (walData : Bytes) : Bytes := (walData.drop walSaltOffset).take walSaltLen

def checkWalDiscontinuity (walOffset : Nat) (walHeaderSalt : Option Bytes) (walData : Bytes)
    (walLen : Nat) : Bool :=
  if 0 < walOffset ∧ walLen < walOffset then true
  else
    match walHeaderSalt with
    | some oldSalt =>
      if walSaltOffset + walSaltLen ≤ walData.length then walSalt walData ≠ oldSalt else false
    | none => false

theorem walAlignedLen_le_length (walData : Bytes) : walAlignedLen walData ≤ walData.length := by
  unfold walAlignedLen walHeaderSize walFrameHeaderSize
  dsimp only
  split_ifs
  · exact Nat.min_le_right _ _
  · omega
  · have := Nat.div_mul_le_self (walData.length - 32) (24 + pageSize walData)
    omega

/-- The slice that `sync_wal` takes is never out of bounds. -/
theorem slice_aligned (walData : Bytes) {walOffset : Nat} (h : walOffset < walAlignedLen walData) :
    slice walData walOffset (walAlignedLen walData) =
      some ((walData.drop walOffset).take (walAlignedLen walData - walOffset)) :=
  if_pos ⟨Nat.le_of_lt h, walAlignedLen_le_length walData⟩

end Waloy.Source
