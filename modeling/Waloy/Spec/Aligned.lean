import Mathlib.Data.List.Induction
import Waloy.Source.Wal

/-!
# The complete frames of a WAL file

`wal_aligned_len` in the arithmetic of the source, where an index, an addition or a division
may panic, and the frame boundary it finds: the last one in the file, which never moves back
while the file grows.
-/
namespace Waloy.Spec
open Waloy.Source

/-- `a + b` on a `u64`; `none` is an overflow. -/
def addU64 (a b : Nat) : Option Nat := if a + b < 2 ^ 64 then some (a + b) else none

def mulU64 (a b : Nat) : Option Nat := if a * b < 2 ^ 64 then some (a * b) else none

def subU64 (a b : Nat) : Option Nat := if b ≤ a then some (a - b) else none

/-- `a / b`; `none` is a division by zero. -/
def divU64 (a b : Nat) : Option Nat := if b = 0 then none else some (a / b)

/-- `wal_aligned_len` with every index and every operation that may panic. -/
def walAlignedLenU64 (walData : Bytes) : Option Nat := do
  let len := walData.length
  if len < (← addU64 walHeaderSize walFrameHeaderSize) then some (min walHeaderSize len)
  else
    let b₀ ← walData[8]?
    let b₁ ← walData[9]?
    let b₂ ← walData[10]?
    let b₃ ← walData[11]?
    let page := fromBeBytes [b₀, b₁, b₂, b₃]
    if page = 0 then some walHeaderSize
    else
      let frameSize ← addU64 walFrameHeaderSize page
      let dataAfterHeader ← subU64 len walHeaderSize
      let completeFrames ← divU64 dataAfterHeader frameSize
      addU64 walHeaderSize (← mulU64 completeFrames frameSize)

/-- A frame of a WAL file with its header. -/
def frameSize (walData : Bytes) : Nat := walFrameHeaderSize + pageSize walData

/-- The last frame boundary in a WAL file: that of the largest number of frames that fits. -/
structure LastBoundary (walData : Bytes) (stop : Nat) : Prop where
  page : 0 < pageSize walData
  largest : ∃ k, stop = walHeaderSize + k * frameSize walData ∧
    ∀ j, walHeaderSize + j * frameSize walData ≤ walData.length ↔ j ≤ k

section
variable {walData walData' : Bytes}

theorem fromBeBytes_lt (bytes : Bytes) : fromBeBytes bytes < 256 ^ bytes.length := by
  induction bytes using List.reverseRecOn with
  | nil => decide
  | append_singleton bytes byte ih =>
    have digit := byte.toNat_lt
    have sum : fromBeBytes (bytes ++ [byte]) = fromBeBytes bytes * 256 + byte.toNat :=
      List.foldl_concat ..
    rw [sum, List.length_append, List.length_singleton, Nat.pow_succ]
    omega

theorem pageSize_eq (long : 12 ≤ walData.length) :
    pageSize walData = fromBeBytes [walData[8], walData[9], walData[10], walData[11]] := by
  have field : (walData.drop 8).take 4 = [walData[8], walData[9], walData[10], walData[11]] := by
    rw [List.drop_eq_getElem_cons, List.drop_eq_getElem_cons, List.drop_eq_getElem_cons,
      List.drop_eq_getElem_cons]
    rfl
  rw [pageSize, field]

/-- Nothing in `wal_aligned_len` panics on a file that fits in memory. -/
theorem walAlignedLenU64_eq (fits : walData.length < 2 ^ 64) :
    walAlignedLenU64 walData = some (walAlignedLen walData) := by
  have least : addU64 walHeaderSize walFrameHeaderSize = some 56 := rfl
  unfold walAlignedLenU64 walAlignedLen
  simp only [least, Option.bind_eq_bind, Option.bind_some]
  by_cases short : walData.length < 56
  · rw [if_pos short, if_pos (by exact short)]
  have long : 56 ≤ walData.length := Nat.le_of_not_lt short
  have bound := fromBeBytes_lt [walData[8], walData[9], walData[10], walData[11]]
  simp only [List.length_cons, List.length_nil, Nat.reduceAdd, Nat.reducePow] at bound
  rw [if_neg short, if_neg (by exact short), pageSize_eq (by omega)]
  simp only [List.getElem?_eq_getElem (show 8 < walData.length by omega),
    List.getElem?_eq_getElem (show 9 < walData.length by omega),
    List.getElem?_eq_getElem (show 10 < walData.length by omega),
    List.getElem?_eq_getElem (show 11 < walData.length by omega), Option.bind_some]
  generalize fromBeBytes [walData[8], walData[9], walData[10], walData[11]] = page at *
  by_cases zero : page = 0
  · rw [if_pos zero, if_pos zero]
  have frame : addU64 walFrameHeaderSize page = some (walFrameHeaderSize + page) :=
    if_pos (by simp only [walFrameHeaderSize]; omega)
  have rest : subU64 walData.length walHeaderSize = some (walData.length - walHeaderSize) :=
    if_pos (by simp only [walHeaderSize]; omega)
  have count : divU64 (walData.length - walHeaderSize) (walFrameHeaderSize + page) =
      some ((walData.length - walHeaderSize) / (walFrameHeaderSize + page)) :=
    if_neg (by simp only [walFrameHeaderSize]; omega)
  have inside := Nat.div_mul_le_self (walData.length - walHeaderSize) (walFrameHeaderSize + page)
  have bytes : mulU64 ((walData.length - walHeaderSize) / (walFrameHeaderSize + page))
      (walFrameHeaderSize + page) =
      some ((walData.length - walHeaderSize) / (walFrameHeaderSize + page) *
        (walFrameHeaderSize + page)) := if_pos (by omega)
  rw [if_neg zero, if_neg zero, frame, Option.bind_some, rest, Option.bind_some, count,
    Option.bind_some, bytes, Option.bind_some]
  exact if_pos (by simp only [walHeaderSize] at inside ⊢; omega)

/-- A file that begins with another one has the page size of that one. -/
theorem pageSize_of_begins (grown : walData <+: walData') (long : 12 ≤ walData.length) :
    pageSize walData' = pageSize walData := by
  obtain ⟨more, rfl⟩ := grown
  have field : ((walData ++ more).drop 8).take 4 = (walData.drop 8).take 4 := by
    rw [List.drop_append_of_le_length (by omega), List.take_append_of_le_length]
    rw [List.length_drop]
    omega
  rw [pageSize, pageSize, field]

/-- The aligned part of a file with a complete header. -/
theorem walAlignedLen_of_long (long : walHeaderSize + walFrameHeaderSize ≤ walData.length) :
    walAlignedLen walData = if pageSize walData = 0 then walHeaderSize
      else walHeaderSize + (walData.length - walHeaderSize) / frameSize walData * frameSize walData :=
  if_neg (Nat.not_lt_of_le long)

theorem walAlignedLen_mono (grown : walData <+: walData') :
    walAlignedLen walData ≤ walAlignedLen walData' := by
  have lengths := grown.length_le
  by_cases short : walData.length < walHeaderSize + walFrameHeaderSize
  · have before : walAlignedLen walData = min walHeaderSize walData.length := if_pos short
    by_cases short' : walData'.length < walHeaderSize + walFrameHeaderSize
    · have after : walAlignedLen walData' = min walHeaderSize walData'.length := if_pos short'
      omega
    · have after : walHeaderSize ≤ walAlignedLen walData' := by
        rw [walAlignedLen_of_long (Nat.le_of_not_lt short')]
        split <;> omega
      omega
  · have long := Nat.le_of_not_lt short
    have page := pageSize_of_begins grown (Nat.le_trans (by decide) long)
    rw [walAlignedLen_of_long long, walAlignedLen_of_long (Nat.le_trans long lengths), frameSize,
      frameSize, page]
    split
    · exact Nat.le_refl _
    · have more := Nat.div_le_div_right (c := walFrameHeaderSize + pageSize walData)
        (Nat.sub_le_sub_right lengths walHeaderSize)
      exact Nat.add_le_add_left (Nat.mul_le_mul_right _ more) _

/-- Where there are frames, the aligned part ends at the last boundary. -/
theorem lastBoundary_walAlignedLen (frames : walHeaderSize < walAlignedLen walData) :
    LastBoundary walData (walAlignedLen walData) := by
  have long : walHeaderSize + walFrameHeaderSize ≤ walData.length := by
    by_contra short
    have aligned : walAlignedLen walData = min walHeaderSize walData.length :=
      if_pos (Nat.lt_of_not_le short)
    omega
  have aligned := walAlignedLen_of_long long
  by_cases zero : pageSize walData = 0
  · rw [if_pos zero] at aligned
    omega
  have positive : 0 < frameSize walData := Nat.add_pos_left (by decide) _
  rw [if_neg zero] at aligned
  refine ⟨Nat.pos_of_ne_zero zero, (walData.length - walHeaderSize) / frameSize walData, aligned, ?_⟩
  intro j
  rw [Nat.le_div_iff_mul_le positive]
  omega

end
end Waloy.Spec
