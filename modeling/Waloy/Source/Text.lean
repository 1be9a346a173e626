import Mathlib.Algebra.Group.Nat.Defs
import Mathlib.Data.List.Basic
import Waloy.Data.Numerals

/-!
# Bytes, strings and object keys

A Rust `String` is the list of its characters, a `Vec<u8>` or `&[u8]` the list of
its bytes. The object keys of a backup are built here by the `format!` calls of
`manager.rs`; no two of them coincide, whatever the generation ids contain.
-/
namespace Waloy.Source
open Waloy.Data

abbrev Bytes := List UInt8
abbrev Str := List Char

/-- `String::as_bytes`. -/
def asBytes (s : Str) : Bytes := s.flatMap String.utf8EncodeChar

/-- `String::from_utf8`; `none` when the bytes are not valid UTF-8. -/
def fromUtf8 (bytes : Bytes) : Option Str := bytes.toByteArray.utf8Decode?.map Array.toList

@[simp] theorem fromUtf8_asBytes (s : Str) : fromUtf8 (asBytes s) = some s := by
  change (List.utf8Encode s).utf8Decode?.map Array.toList = some s
  simp [List.utf8Decode?_utf8Encode]

theorem asBytes_of_fromUtf8 {bytes : Bytes} {s : Str} (h : fromUtf8 bytes = some s) :
    asBytes s = bytes := by
  obtain ⟨chars, decoded, rfl⟩ := Option.map_eq_some_iff.mp h
  have encoded : (List.utf8Encode chars.toList).data.toList = bytes := by
    have same := ByteArray.utf8Encode_get_utf8Decode? (b := bytes.toByteArray)
      (h := by rw [decoded]; rfl)
    simp only [decoded, Option.get_some] at same
    rw [same]
    simp
  rw [← encoded]
  simp [asBytes, List.utf8Encode]

/-- `str::trim_end_matches` with a fixed pattern; `fuel` bounds the number of cuts. -/
def trimEndMatchesFrom (pattern : Str) : Nat → Str → Str
  | 0, s => s
  | fuel + 1, s =>
    if pattern.isSuffixOf s then trimEndMatchesFrom pattern fuel (s.take (s.length - pattern.length))
    else s

def trimEndMatches (pattern s : Str) : Str := trimEndMatchesFrom pattern s.length s

/-- `str::strip_prefix`. -/
def stripPrefix (pattern s : Str) : Option Str :=
  if pattern.isPrefixOf s then some (s.drop pattern.length) else none

/-- `format!("{:08}", n)`: decimal digits, filled up with zeros to eight. -/
def fmt08 (n : Nat) : Str :=
  List.replicate (8 - (Nat.toDigits 10 n).length) '0' ++ Nat.toDigits 10 n

theorem fmt08_value (n : Nat) : numeralValue (fmt08 n) = n := numeralValue_zeroFilled

theorem fmt08_injective {n m : Nat} (h : fmt08 n = fmt08 m) : n = m := by
  rw [← fmt08_value n, h, fmt08_value]

theorem isDigit_of_mem_fmt08 {n : Nat} {c : Char} (h : c ∈ fmt08 n) : c.isDigit :=
  isNumeral_zeroFilled c h

theorem slash_notMem_fmt08 (n : Nat) : '/' ∉ fmt08 n := fun h =>
  absurd (isDigit_of_mem_fmt08 h) (by decide)

/-- The parts around the last slash of a string are unique. -/
theorem last_slash_inj {a b x y : Str} (hx : '/' ∉ x) (hy : '/' ∉ y)
    (h : a ++ '/' :: x = b ++ '/' :: y) : a = b ∧ x = y := by
  induction a generalizing b with
  | nil =>
    cases b with
    | nil => exact ⟨rfl, by simpa using h⟩
    | cons c b =>
      simp only [List.nil_append, List.cons_append, List.cons.injEq] at h
      exact absurd (h.2 ▸ List.mem_append_right b List.mem_cons_self) hx
  | cons c a ih =>
    cases b with
    | nil =>
      simp only [List.nil_append, List.cons_append, List.cons.injEq] at h
      exact absurd (h.2 ▸ List.mem_append_right a List.mem_cons_self) hy
    | cons d b =>
      simp only [List.cons_append, List.cons.injEq] at h
      obtain ⟨ha, hxy⟩ := ih h.2
      exact ⟨by rw [h.1, ha], hxy⟩

/-- The parts around the first slash of a string are unique. -/
theorem first_slash_inj {a b x y : Str} (ha : '/' ∉ a) (hb : '/' ∉ b)
    (h : a ++ '/' :: x = b ++ '/' :: y) : a = b ∧ x = y := by
  induction a generalizing b with
  | nil =>
    cases b with
    | nil => exact ⟨rfl, by simpa using h⟩
    | cons c b =>
      simp only [List.nil_append, List.cons_append, List.cons.injEq] at h
      exact absurd (h.1 ▸ List.mem_cons_self) hb
  | cons c a ih =>
    cases b with
    | nil =>
      simp only [List.nil_append, List.cons_append, List.cons.injEq] at h
      exact absurd (h.1 ▸ List.mem_cons_self) ha
    | cons d b =>
      simp only [List.cons_append, List.cons.injEq] at h
      obtain ⟨hab, hxy⟩ := ih (fun m => ha (List.mem_cons_of_mem c m))
        (fun m => hb (List.mem_cons_of_mem d m)) h.2
      exact ⟨by rw [h.1, hab], hxy⟩

/-- The name of an object of the backup, before the prefix of the bucket. -/
inductive Object where
  | latest
  | snapshot (generation : Str)
  | manifest (generation : Str)
  | segment (generation : Str) (index : Nat)
  deriving DecidableEq

def manifestSuffix : Str := '/' :: ['m', 'a', 'n', 'i', 'f', 'e', 's', 't', '.', 'j', 's', 'o', 'n']

/-- `"latest"` and the `format!` of each other key. -/
def Object.key : Object → Str
  | .latest => ['l', 'a', 't', 'e', 's', 't']
  | .snapshot generation => generation ++ '/' :: ['s', 'n', 'a', 'p', 's', 'h', 'o', 't']
  | .manifest generation => generation ++ manifestSuffix
  | .segment generation index => generation ++ ['/', 'w', 'a', 'l'] ++ '/' :: fmt08 index

/-- What stands after the last slash of a key tells the kind of object. -/
theorem Object.key_injective {o o' : Object} (h : o.key = o'.key) : o = o' := by
  have digits : ∀ (n : Nat) (c : Char) (rest : Str), ¬ c.isDigit → fmt08 n ≠ c :: rest :=
    fun n c rest hc he => hc (isDigit_of_mem_fmt08 (he ▸ List.mem_cons_self))
  have slash : ∀ (a : Str) (x : Str), a ++ '/' :: x ≠ ['l', 'a', 't', 'e', 's', 't'] := by
    intro a x he
    have : '/' ∈ ['l', 'a', 't', 'e', 's', 't'] := he ▸ List.mem_append_right a List.mem_cons_self
    exact absurd this (by decide)
  cases o <;> cases o' <;> simp only [Object.key, manifestSuffix] at h
  case latest.latest => rfl
  case latest.snapshot => exact absurd h.symm (slash _ _)
  case latest.manifest => exact absurd h.symm (slash _ _)
  case latest.segment => exact absurd h.symm (slash _ _)
  case snapshot.latest => exact absurd h (slash _ _)
  case manifest.latest => exact absurd h (slash _ _)
  case segment.latest => exact absurd h (slash _ _)
  case snapshot.snapshot => rw [(last_slash_inj (by decide) (by decide) h).1]
  case manifest.manifest => rw [(last_slash_inj (by decide) (by decide) h).1]
  case snapshot.manifest => exact absurd (last_slash_inj (by decide) (by decide) h).2 (by decide)
  case manifest.snapshot => exact absurd (last_slash_inj (by decide) (by decide) h).2 (by decide)
  case snapshot.segment =>
    exact absurd (last_slash_inj (by decide) (slash_notMem_fmt08 _) h).2.symm
      (digits _ _ _ (by decide))
  case manifest.segment =>
    exact absurd (last_slash_inj (by decide) (slash_notMem_fmt08 _) h).2.symm
      (digits _ _ _ (by decide))
  case segment.snapshot =>
    exact absurd (last_slash_inj (slash_notMem_fmt08 _) (by decide) h).2
      (digits _ _ _ (by decide))
  case segment.manifest =>
    exact absurd (last_slash_inj (slash_notMem_fmt08 _) (by decide) h).2
      (digits _ _ _ (by decide))
  case segment.segment =>
    obtain ⟨hgeneration, hindex⟩ :=
      last_slash_inj (slash_notMem_fmt08 _) (slash_notMem_fmt08 _) h
    rw [List.append_cancel_right hgeneration, fmt08_injective hindex]

end Waloy.Source
