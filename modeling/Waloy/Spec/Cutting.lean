import Waloy.Data.Pieces
import Waloy.Spec.Objects

/-!
# The chunking loop of a compaction

A step of one byte or more reaches the end of any data. The loop is then the upload of the
pieces of the data one after the other, under consecutive indices; its additions stay within
a `usize`, since a second iteration means that the step is smaller than the data.
-/
namespace Waloy.Spec
open Waloy.Effect Waloy.Source Waloy.Source.BackupManager Waloy.Data

/-- What one iteration of the chunking loop uploads. -/
structure Cut where
  index : Nat
  offset : Nat
  chunk : Bytes

def cutAt (allData : Bytes) (maxSize index k : Nat) : Cut :=
  ⟨index + k, k * maxSize, piece maxSize allData k⟩

/-- The iterations over some data, from an index on. -/
def cuts (allData : Bytes) (maxSize index : Nat) : List Cut :=
  (List.range (allData.length ⌈/⌉ maxSize)).map (cutAt allData maxSize index)

variable {pf : Platform}

/-- The upload of some chunks, with the index that follows them. -/
def sendCuts (self : BackupManager pf.build) (last : Nat) :
    List Cut → Method pf (List SegmentMeta × Nat)
  | [] => pure ([], last)
  | c :: rest => do
    let encoded ← pipelineEncode pf self.config c.chunk
    self.s3.putObject (Object.segment self.generation c.index).key encoded
    let now ← nowMs
    let (metas, last) ← sendCuts self last rest
    pure (⟨c.index, now, c.offset, c.chunk.length⟩ :: metas, last)

/-- `a + b` on a `usize` of `w` bits; `none` is an overflow. -/
def addUsize (w a b : Nat) : Option Nat := if a + b < 2 ^ w then some (a + b) else none

/-- `uploadChunks` with the addition of a `usize`. -/
def uploadChunksUsize (w : Nat) (self : BackupManager pf.build) (allData : Bytes) (maxSize : Nat) :
    Nat → Nat → Nat → Method pf (List SegmentMeta × Nat)
  | fuel, offset, newIndex =>
    if offset < allData.length then
      match fuel with
      | 0 => Op.halt
      | fuel + 1 => do
        let sum ← Op.ofOption (addUsize w offset maxSize)
        let stop := min sum allData.length
        let chunk := (allData.drop offset).take (stop - offset)
        let encoded ← pipelineEncode pf self.config chunk
        self.s3.putObject (Object.segment self.generation newIndex).key encoded
        let now ← nowMs
        let nextIndex ← Op.ofOption (incrementU32 pf.build newIndex)
        let (rest, lastIndex) ← uploadChunksUsize w self allData maxSize fuel stop nextIndex
        pure (⟨newIndex, now, offset, chunk.length⟩ :: rest, lastIndex)
    else pure ([], newIndex)

section
variable {self : BackupManager pf.build} {allData : Bytes} {maxSize : Nat}

/-- The fuel of the loop is no matter once it covers what is left of the data. -/
theorem uploadChunks_fuel (positive : 0 < maxSize) {fuel fuel' offset index : Nat}
    (enough : allData.length ≤ offset + fuel) (enough' : allData.length ≤ offset + fuel') :
    uploadChunks pf self allData maxSize fuel offset index =
      uploadChunks pf self allData maxSize fuel' offset index := by
  induction fuel generalizing fuel' offset index with
  | zero =>
    have done : ¬ offset < allData.length := by omega
    unfold uploadChunks
    rw [if_neg done, if_neg done]
  | succ fuel ih =>
    unfold uploadChunks
    by_cases more : offset < allData.length
    · rw [if_pos more, if_pos more]
      cases fuel' with
      | zero => omega
      | succ fuel' =>
        have later : ∀ index, uploadChunks pf self allData maxSize fuel
            (min (offset + maxSize) allData.length) index =
              uploadChunks pf self allData maxSize fuel'
                (min (offset + maxSize) allData.length) index :=
          fun index => ih (by omega) (by omega)
        simp only [later]
    · rw [if_neg more, if_neg more]

/-- From its `k`-th iteration on, the loop uploads the pieces from the `k`-th on. -/
theorem uploadChunks_eq_sendCuts (positive : 0 < maxSize) {index n k fuel : Nat}
    (left : allData.length ⌈/⌉ maxSize = k + n) (room : index + (k + n) < 2 ^ 32)
    (enough : n ≤ fuel) :
    uploadChunks pf self allData maxSize fuel (min (k * maxSize) allData.length) (index + k) =
      sendCuts self (index + (k + n))
        ((List.range' k n).map (cutAt allData maxSize index)) := by
  induction n generalizing k fuel with
  | zero =>
    have covered : ¬ k * maxSize < allData.length := by
      rw [← lt_pieceCount positive, left]
      omega
    unfold uploadChunks
    rw [if_neg (by omega)]
    rfl
  | succ n ih =>
    have inside : k * maxSize < allData.length := (lt_pieceCount positive).mp (by omega)
    have here : min (k * maxSize) allData.length = k * maxSize := by omega
    have stop : min (k * maxSize + maxSize) allData.length =
        min ((k + 1) * maxSize) allData.length := by rw [Nat.succ_mul]
    have chunk : (allData.drop (k * maxSize)).take
        (min ((k + 1) * maxSize) allData.length - k * maxSize) = piece maxSize allData k := by
      rw [piece, List.take_eq_take_iff, List.length_drop, Nat.succ_mul]
      omega
    have next : incrementU32 pf.build (index + k) = some (index + (k + 1)) :=
      incrementU32_of_lt _ (by omega)
    obtain ⟨fuel, rfl⟩ : ∃ rest, fuel = rest + 1 := ⟨fuel - 1, by omega⟩
    have later : uploadChunks pf self allData maxSize fuel (min ((k + 1) * maxSize) allData.length)
        (index + (k + 1)) = _ := ih (by omega) (by omega) (by omega)
    unfold uploadChunks
    rw [here, if_pos inside, stop]
    dsimp only
    rw [chunk, next, List.range'_succ, List.map_cons, sendCuts]
    refine congrArg (_ >>= ·) (funext fun encoded => ?_)
    refine congrArg (_ >>= ·) (funext fun _ => ?_)
    refine congrArg (_ >>= ·) (funext fun now => ?_)
    change (uploadChunks pf self allData maxSize fuel _ _ >>= _) = _
    rw [later, Nat.add_right_comm k 1 n]
    rfl

theorem uploadChunks_eq (positive : 0 < maxSize) {index fuel : Nat}
    (room : index + allData.length ⌈/⌉ maxSize < 2 ^ 32)
    (enough : allData.length ⌈/⌉ maxSize ≤ fuel) :
    uploadChunks pf self allData maxSize fuel 0 index =
      sendCuts self (index + allData.length ⌈/⌉ maxSize) (cuts allData maxSize index) := by
  have unrolled : uploadChunks pf self allData maxSize fuel (min (0 * maxSize) allData.length)
      (index + 0) = _ :=
    uploadChunks_eq_sendCuts positive (Nat.zero_add _).symm (by rwa [Nat.zero_add]) enough
  rw [Nat.zero_mul, Nat.zero_min, Nat.add_zero, Nat.zero_add, ← List.range_eq_range'] at unrolled
  exact unrolled

/-- The addition of the loop stays within a `usize`: in the first iteration it is the step
itself, and in a later one the step is not larger than the data. -/
theorem uploadChunksUsize_eq {w : Nat} (step : maxSize < 2 ^ w)
    (fits : allData.length < 2 ^ (w - 1)) {fuel offset index : Nat}
    (history : offset < allData.length → offset = 0 ∨ maxSize ≤ allData.length) :
    uploadChunksUsize w self allData maxSize fuel offset index =
      uploadChunks pf self allData maxSize fuel offset index := by
  induction fuel generalizing offset index with
  | zero =>
    unfold uploadChunksUsize uploadChunks
    rfl
  | succ fuel ih =>
    unfold uploadChunksUsize uploadChunks
    by_cases more : offset < allData.length
    · have sum : addUsize w offset maxSize = some (offset + maxSize) := by
        refine if_pos ?_
        cases w with
        | zero => omega
        | succ w =>
          rw [Nat.add_sub_cancel] at fits
          have double : 2 ^ (w + 1) = 2 ^ w + 2 ^ w := by omega
          have := history more
          omega
      have later : ∀ index, uploadChunksUsize w self allData maxSize fuel
          (min (offset + maxSize) allData.length) index =
            uploadChunks pf self allData maxSize fuel
              (min (offset + maxSize) allData.length) index :=
        fun index => ih fun _ => .inr (by omega)
      rw [if_pos more, if_pos more, sum]
      simp only [← later]
      rfl
    · rw [if_neg more, if_neg more]

end

section
variable {allData : Bytes} {maxSize index : Nat}

theorem cuts_length : (cuts allData maxSize index).length = allData.length ⌈/⌉ maxSize := by
  simp [cuts]

theorem cuts_chunk : (cuts allData maxSize index).map Cut.chunk = pieces maxSize allData := by
  rw [cuts, List.map_map]
  rfl

theorem cuts_index : (cuts allData maxSize index).map Cut.index =
    List.range' index (allData.length ⌈/⌉ maxSize) := by
  rw [cuts, List.map_map, List.range'_eq_map_range]
  rfl

/-- The entry of a manifest for an uploaded chunk. -/
def Cut.Listed (c : Cut) (s : SegmentMeta) : Prop :=
  s.index = c.index ∧ s.offset = c.offset ∧ s.size = c.chunk.length

/-- The pieces from the `k`-th on follow each other to the end of the data. -/
theorem tiles_cuts (positive : 0 < maxSize) {n k : Nat} {metas : List SegmentMeta}
    (left : allData.length ⌈/⌉ maxSize = k + n)
    (listed : List.Forall₂ Cut.Listed ((List.range' k n).map (cutAt allData maxSize index)) metas) :
    Tiles (min (k * maxSize) allData.length) metas allData.length := by
  induction n generalizing k metas with
  | zero =>
    cases listed
    have covered : ¬ k * maxSize < allData.length := by
      rw [← lt_pieceCount positive, left]
      omega
    exact Nat.min_eq_right (Nat.not_lt.mp covered)
  | succ n ih =>
    rw [List.range'_succ, List.map_cons] at listed
    obtain ⟨s, rest, ⟨-, offset, size⟩, later, rfl⟩ := List.forall₂_cons_left_iff.mp listed
    have inside : k * maxSize < allData.length := (lt_pieceCount positive).mp (by omega)
    have tiles := ih (k := k + 1) (by omega) later
    change s.offset = k * maxSize at offset
    change s.size = (piece maxSize allData k).length at size
    rw [Nat.succ_mul] at tiles
    rw [piece_length] at size
    refine ⟨by omega, ?_⟩
    have next : min (k * maxSize) allData.length + s.size =
        min (k * maxSize + maxSize) allData.length := by omega
    exact next ▸ tiles

end

/-- What is returned lists the chunks that were uploaded. -/
theorem wp_sendCuts {W : Type} {serve : Server Calls W} {self m : BackupManager pf.build}
    (last : Nat) (cs : List Cut) (w : W) :
    Op.wp serve (fun _ _ _ _ => True) (sendCuts self last cs)
      (fun out _ _ => List.Forall₂ Cut.Listed cs out.1 ∧ out.2 = last) (fun _ _ _ => True) m w := by
  induction cs generalizing m w with
  | nil => exact ⟨.nil, rfl⟩
  | cons c rest ih =>
    simp only [sendCuts, Op.wp_bind]
    refine Op.wp_of_forall (fun encoded m w => ?_) fun _ _ _ => trivial
    refine Op.wp_of_forall (fun _ m w => ?_) fun _ _ _ => trivial
    refine Op.wp_of_forall (fun now m w => ?_) fun _ _ _ => trivial
    refine Op.wp_mono (ih w) ?_ fun _ _ _ h => h
    rintro ⟨metas, last'⟩ m' w' ⟨listed, same⟩
    exact ⟨.cons ⟨rfl, rfl, rfl⟩ listed, same⟩

end Waloy.Spec
