import Waloy.Spec.Objects

/-!
# Buckets of any size

A bucket with the first objects of a sequence, for statements about more objects than can
be written down.
-/
namespace Waloy.Spec
open Waloy.Effect Waloy.Source

variable {pf : Platform} (config : BackupConfig pf.build)

/-- The first `n` objects of a sequence and nothing else. -/
def stocked (objects : Nat → Object) (data : Nat → Bytes) : Nat → Bucket
  | 0 => ∅
  | n + 1 => store config (stocked objects data n) (objects n) (data n)

variable {config} {objects : Nat → Object} {data : Nat → Bytes} {n : Nat}

theorem mem_stocked {key : Str} : key ∈ stocked config objects data n ↔
    ∃ index < n, key = objectKey config (objects index) := by
  induction n with
  | zero => simp [stocked, AList.notMem_empty]
  | succ n ih =>
    rw [stocked, store, AList.mem_insert, ih]
    constructor
    · rintro (rfl | ⟨index, earlier, rfl⟩)
      · exact ⟨n, Nat.lt_succ_self n, rfl⟩
      · exact ⟨index, Nat.lt_succ_of_lt earlier, rfl⟩
    · rintro ⟨index, bounded, rfl⟩
      rcases Nat.lt_succ_iff_lt_or_eq.mp bounded with earlier | last
      · exact .inr ⟨index, earlier, rfl⟩
      · exact .inl (by rw [last])

theorem object_stocked (distinct : Function.Injective objects) {index : Nat} (bounded : index < n) :
    object config (stocked config objects data n) (objects index) = some (data index) := by
  induction n with
  | zero => exact absurd bounded (Nat.not_lt_zero index)
  | succ n ih =>
    rw [stocked, object_store]
    rcases Nat.lt_succ_iff_lt_or_eq.mp bounded with earlier | rfl
    · rw [if_neg fun same => Nat.ne_of_lt earlier (distinct same), ih earlier]
    · rw [if_pos rfl]

theorem object_stocked_none {o : Object} (absent : ∀ index, o ≠ objects index) :
    object config (stocked config objects data n) o = none := by
  refine AList.lookup_eq_none.mpr fun present => ?_
  obtain ⟨index, -, same⟩ := mem_stocked.mp present
  exact absent index ((objectKey_inj config).mp same)

end Waloy.Spec
