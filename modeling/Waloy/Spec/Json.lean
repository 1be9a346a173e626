import Waloy.Source.Config
import Waloy.Source.Text

/-!
# Manifests as JSON text

The compact text that `serde_json` writes for a `GenerationManifest`, and a reader
that takes it back. It is the instance that concrete runs use for the JSON
functions of a platform. A character of a string that JSON does not allow as it is
gets the long escape.
-/
namespace Waloy.Spec
open Waloy.Source

def quote : Char := '\x22'
def backslash : Char := '\x5c'

def hexValue (c : Char) : Nat := if c.isDigit then c.toNat - 48 else c.toNat - 87

def escapeChar (c : Char) : Str :=
  if c = quote ∨ c = backslash ∨ c.toNat < 32 then
    [backslash, 'u', '0', '0', Nat.digitChar (c.toNat / 16), Nat.digitChar (c.toNat % 16)]
  else [c]

def escape (s : Str) : Str := s.flatMap escapeChar

/-- A string up to its closing quote, and what follows. -/
def unescape : Str → Option (Str × Str)
  | [] => none
  | '\x5c' :: _ :: _ :: _ :: high :: low :: rest =>
    (unescape rest).map fun out => (Char.ofNat (hexValue high * 16 + hexValue low) :: out.1, out.2)
  | c :: rest =>
    if c = quote then some ([], rest) else (unescape rest).map fun out => (c :: out.1, out.2)

theorem hexValue_digitChar : ∀ n < 16, hexValue (Nat.digitChar n) = n := by decide

theorem unescape_escapeChar (c : Char) (s : Str) :
    unescape (escapeChar c ++ s) = (unescape s).map fun out => (c :: out.1, out.2) := by
  unfold escapeChar
  split
  case isTrue special =>
    have small : c.toNat < 256 := by
      rcases special with rfl | rfl | h
      · decide
      · decide
      · omega
    have high := hexValue_digitChar (c.toNat / 16) (by omega)
    have low := hexValue_digitChar (c.toNat % 16) (by omega)
    have value : c.toNat / 16 * 16 + c.toNat % 16 = c.toNat := by omega
    change Option.map _ _ = _
    rw [high, low, value, Char.ofNat_toNat]
    rfl
  case isFalse plain =>
    simp only [not_or] at plain
    rw [List.singleton_append, unescape, if_neg plain.1]
    rintro _ _ _ _ _ _ rfl
    exact fun _ => plain.2.1 rfl

theorem unescape_escape (s rest : Str) :
    unescape (escape s ++ quote :: rest) = some (s, rest) := by
  induction s with
  | nil => rfl
  | cons c s ih =>
    rw [escape, List.flatMap_cons, List.append_assoc, unescape_escapeChar]
    exact congrArg _ ih

/-- A decimal number, and what follows. -/
def parseNat (s : Str) : Option (Nat × Str) :=
  match s.takeWhile Char.isDigit with
  | [] => none
  | digits => some (Nat.ofDigitChars 10 digits 0, s.dropWhile Char.isDigit)

theorem parseNat_toDigits (n : Nat) (c : Char) (rest : Str) (hc : c.isDigit = false) :
    parseNat (Nat.toDigits 10 n ++ c :: rest) = some (n, c :: rest) := by
  have digits : ∀ d ∈ Nat.toDigits 10 n, d.isDigit = true := fun d hd =>
    Nat.isDigit_of_mem_toDigits (by decide) (by decide) hd
  unfold parseNat
  rw [List.takeWhile_append_of_pos digits, List.dropWhile_append_of_pos digits]
  simp only [List.takeWhile_cons, hc, List.dropWhile_cons, Bool.false_eq_true, if_false,
    List.append_nil]
  cases hd : Nat.toDigits 10 n with
  | nil => exact absurd hd Nat.toDigits_ne_nil
  | cons d ds =>
    dsimp only
    rw [← hd, Nat.ofDigitChars_ten_toDigits]

theorem stripPrefix_append (pattern s : Str) : stripPrefix pattern (pattern ++ s) = some s := by
  unfold stripPrefix
  rw [if_pos (List.isPrefixOf_iff_prefix.mpr (List.prefix_append pattern s)), List.drop_left]

/-- The name of a field with its quotes and colon. -/
def fieldName (name : Str) : Str := quote :: name ++ [quote, ':']

def indexName : Str := '\x7b' :: fieldName ['i', 'n', 'd', 'e', 'x']
def timestampName : Str := ',' :: fieldName ['t', 'i', 'm', 'e', 's', 't', 'a', 'm', 'p', '_', 'm', 's']
def offsetName : Str := ',' :: fieldName ['o', 'f', 'f', 's', 'e', 't']
def sizeName : Str := ',' :: fieldName ['s', 'i', 'z', 'e']
def generationName : Str :=
  '\x7b' :: fieldName ['g', 'e', 'n', 'e', 'r', 'a', 't', 'i', 'o', 'n'] ++ [quote]
def createdName : Str :=
  ',' :: fieldName ['c', 'r', 'e', 'a', 't', 'e', 'd', '_', 'a', 't', '_', 'm', 's']
def snapshotName : Str :=
  ',' :: fieldName ['s', 'n', 'a', 'p', 's', 'h', 'o', 't', '_', 't', 'i', 'm', 'e', 's', 't', 'a',
    'm', 'p', '_', 'm', 's']
def segmentsName : Str :=
  ',' :: fieldName ['s', 'e', 'g', 'm', 'e', 'n', 't', 's'] ++ ['[']

def segmentText (s : SegmentMeta) : Str :=
  indexName ++ (Nat.toDigits 10 s.index ++ (timestampName ++ (Nat.toDigits 10 s.timestampMs ++
    (offsetName ++ (Nat.toDigits 10 s.offset ++ (sizeName ++ (Nat.toDigits 10 s.size ++
      ['\x7d'])))))))

def parseSegment (s : Str) : Option (SegmentMeta × Str) := do
  let s ← stripPrefix indexName s
  let (index, s) ← parseNat s
  let s ← stripPrefix timestampName s
  let (timestampMs, s) ← parseNat s
  let s ← stripPrefix offsetName s
  let (offset, s) ← parseNat s
  let s ← stripPrefix sizeName s
  let (size, s) ← parseNat s
  let s ← stripPrefix ['\x7d'] s
  return (⟨index, timestampMs, offset, size⟩, s)

theorem parseSegment_segmentText (segment : SegmentMeta) (rest : Str) :
    parseSegment (segmentText segment ++ rest) = some (segment, rest) := by
  have comma : ∀ n name tail, parseNat (Nat.toDigits 10 n ++ (',' :: fieldName name ++ tail)) =
      some (n, ',' :: fieldName name ++ tail) := fun n name tail => parseNat_toDigits n ',' _ rfl
  have brace : ∀ n tail, parseNat (Nat.toDigits 10 n ++ (['\x7d'] ++ tail)) =
      some (n, ['\x7d'] ++ tail) := fun n tail => parseNat_toDigits n '\x7d' tail rfl
  simp only [parseSegment, segmentText, List.append_assoc, stripPrefix_append, timestampName,
    offsetName, sizeName, comma, brace, Option.bind_eq_bind, Option.bind_some]
  rfl

/-- The segments of a list, with their commas and the closing bracket. -/
def segmentsText : List SegmentMeta → Str
  | [] => [']']
  | [s] => segmentText s ++ [']']
  | s :: rest => segmentText s ++ ',' :: segmentsText rest

/-- The segments of a list that is not empty, up to its closing bracket. -/
def parseSegments : Nat → Str → Option (List SegmentMeta × Str)
  | 0, _ => none
  | fuel + 1, s => do
    let (segment, s) ← parseSegment s
    match s with
    | ',' :: s =>
      let (rest, s) ← parseSegments fuel s
      return (segment :: rest, s)
    | ']' :: s => return ([segment], s)
    | _ => none

theorem parseSegments_segmentsText (s : SegmentMeta) (segments : List SegmentMeta) (rest : Str)
    {fuel : Nat} (hfuel : segments.length < fuel) :
    parseSegments fuel (segmentsText (s :: segments) ++ rest) = some (s :: segments, rest) := by
  induction segments generalizing s fuel with
  | nil =>
    obtain ⟨fuel, rfl⟩ := Nat.exists_eq_succ_of_ne_zero (Nat.ne_of_gt hfuel)
    simp only [segmentsText, parseSegments, List.append_assoc, parseSegment_segmentText,
      Option.bind_eq_bind, Option.bind_some]
    rfl
  | cons t segments ih =>
    obtain ⟨fuel, rfl⟩ := Nat.exists_eq_succ_of_ne_zero (Nat.ne_of_gt (Nat.zero_lt_of_lt hfuel))
    have later := ih t (Nat.lt_of_succ_lt_succ hfuel)
    simp only [segmentsText, parseSegments, List.append_assoc, List.cons_append,
      parseSegment_segmentText, Option.bind_eq_bind, Option.bind_some, later]
    rfl

def manifestText (m : GenerationManifest) : Str :=
  generationName ++ (escape m.generation ++ (quote :: createdName ++
    (Nat.toDigits 10 m.createdAtMs ++ (snapshotName ++ (Nat.toDigits 10 m.snapshotTimestampMs ++
      (segmentsName ++ (segmentsText m.segments ++ ['\x7d'])))))))

def parseManifest (s : Str) : Option GenerationManifest := do
  let s ← stripPrefix generationName s
  let (generation, s) ← unescape s
  let s ← stripPrefix createdName s
  let (createdAtMs, s) ← parseNat s
  let s ← stripPrefix snapshotName s
  let (snapshotTimestampMs, s) ← parseNat s
  let s ← stripPrefix segmentsName s
  let (segments, s) ← match s with
    | ']' :: s => some ([], s)
    | s => parseSegments s.length s
  if s = ['\x7d'] then return ⟨generation, createdAtMs, snapshotTimestampMs, segments⟩ else none

theorem segmentText_cons (s : SegmentMeta) : ∃ text, segmentText s = '\x7b' :: text := ⟨_, rfl⟩

theorem segmentsText_cons (s : SegmentMeta) (segments : List SegmentMeta) :
    ∃ text, segmentsText (s :: segments) = '\x7b' :: text := by
  obtain ⟨text, h⟩ := segmentText_cons s
  cases segments with
  | nil => exact ⟨text ++ [']'], by rw [segmentsText, h, List.cons_append]⟩
  | cons t rest => exact ⟨text ++ ',' :: segmentsText (t :: rest), by simp [segmentsText, h]⟩

theorem length_segmentsText (segments : List SegmentMeta) :
    segments.length < (segmentsText segments).length := by
  induction segments with
  | nil => decide
  | cons s segments ih =>
    obtain ⟨text, h⟩ := segmentText_cons s
    cases segments with
    | nil => simp [segmentsText, h]
    | cons t rest =>
      simp only [segmentsText, h, List.length_append, List.length_cons] at ih ⊢
      omega

theorem parseManifest_manifestText (m : GenerationManifest) :
    parseManifest (manifestText m) = some m := by
  have beforeSnapshot : ∀ n tail, parseNat (Nat.toDigits 10 n ++ (snapshotName ++ tail)) =
      some (n, snapshotName ++ tail) := fun n tail => parseNat_toDigits n ',' _ rfl
  have beforeSegments : ∀ n tail, parseNat (Nat.toDigits 10 n ++ (segmentsName ++ tail)) =
      some (n, segmentsName ++ tail) := fun n tail => parseNat_toDigits n ',' _ rfl
  simp only [parseManifest, manifestText, stripPrefix_append, unescape_escape, List.cons_append,
    Option.bind_eq_bind, Option.bind_some, beforeSnapshot, beforeSegments]
  cases hm : m.segments with
  | nil =>
    cases m
    cases hm
    rfl
  | cons s segments =>
    obtain ⟨text, htext⟩ := segmentsText_cons s segments
    have enough : segments.length < (segmentsText (s :: segments) ++ ['\x7d']).length := by
      have := length_segmentsText (s :: segments)
      simp only [List.length_append, List.length_cons] at this ⊢
      omega
    have parsed := parseSegments_segmentsText s segments ['\x7d'] enough
    rw [htext] at parsed ⊢
    change Option.bind (parseSegments ('\x7b' :: text ++ ['\x7d']).length
      ('\x7b' :: text ++ ['\x7d'])) _ = _
    rw [parsed]
    cases m
    cases hm
    rfl

def jsonToVec (m : GenerationManifest) : Except String Bytes := .ok (asBytes (manifestText m))

def jsonFromSlice (bytes : Bytes) : Except String GenerationManifest :=
  match (fromUtf8 bytes).bind parseManifest with
  | some m => .ok m
  | none => .error "invalid manifest"

/-- The text of a manifest begins with a brace. -/
theorem jsonFromSlice_brace {bytes : Bytes} {m : GenerationManifest}
    (parsed : jsonFromSlice bytes = .ok m) : bytes.head? = some 0x7b := by
  unfold jsonFromSlice at parsed
  cases decoded : fromUtf8 bytes with
  | none => rw [decoded] at parsed; cases parsed
  | some s =>
    rw [decoded, Option.bind_some] at parsed
    have opened : generationName <+: s := by
      cases stripped : stripPrefix generationName s with
      | none => rw [parseManifest, stripped] at parsed; cases parsed
      | some rest =>
        unfold stripPrefix at stripped
        split at stripped
        case isTrue h => exact List.isPrefixOf_iff_prefix.mp h
        case isFalse => cases stripped
    obtain ⟨rest, rfl⟩ := opened
    rw [← asBytes_of_fromUtf8 decoded]
    rfl

theorem jsonFromSlice_jsonToVec {m : GenerationManifest} {bytes : Bytes}
    (h : jsonToVec m = .ok bytes) : jsonFromSlice bytes = .ok m := by
  cases h
  simp [jsonFromSlice, parseManifest_manifestText]

end Waloy.Spec
