import Waloy.Spec.Selection

/-!
# A retention run over a bucket at rest

Where no call fails and nobody else acts, `enforce_retention` is a function of the bucket and
of the clock: the ids of the expired generations are taken from the manifests that can be
read, and all keys under each of them are deleted, one id after the other.
-/
namespace Waloy.Spec
open Waloy.Effect Waloy.Source Waloy.Source.BackupManager

variable {pf : Platform} (config : BackupConfig pf.build)

/-- How a listing is cut into pages. -/
structure Paging where
  pages : List Str → List (List Str)
  perm : ∀ keys, (pages keys).flatten.Perm keys

def onePage : Paging := ⟨fun keys => [keys], fun keys => by simp⟩

/-- A bucket, and the prefixes of the listings that were asked of it. -/
structure Shelf where
  bucket : Bucket
  listed : List Str

/-- The answers of a bucket to a retention run at a time. -/
def answerAt (paging : Paging) (time : Except String Nat) (w : Shelf) :
    (c : Call) → Option (c.Reply × Shelf)
  | .systemTime => some (time, w)
  | .list keyPrefix => some (.ok (paging.pages (w.bucket.keys.filter (keyPrefix.isPrefixOf ·))),
      { w with listed := w.listed ++ [keyPrefix] })
  | .getObject key =>
    match w.bucket.lookup key with
    | some data => some (.ok data, w)
    | none => some (.error "no such key", w)
  | .deleteObject key => some (.ok (), { w with bucket := w.bucket.erase key })
  | .sleep _ => some ((), w)
  | _ => none

/-- What `list_generation_manifests` returns. -/
def foundManifests (b : Bucket) : List (Str × GenerationManifest) :=
  (manifestKeys config b).filterMap fun key =>
    (readAt config b key).map fun manifest => (trimEndMatches manifestSuffix key, manifest)

/-- The ids that a retention run deletes, in its order. -/
def expiredIds (b : Bucket) (generation : Str) (cutoffMs : Nat) : List Str :=
  ((foundManifests config b).filter fun p =>
    p.1 ≠ generation ∧ p.2.createdAtMs < cutoffMs).map Prod.fst

/-- The bucket after the deletes of some keys. -/
def eraseKeys (b : Bucket) (keys : List Str) : Bucket :=
  keys.foldl (fun b key => b.erase ((S3Client.new config.s3).fullKey key)) b

/-- The bucket after the deletes of some generations. -/
def purged (b : Bucket) (ids : List Str) : Bucket :=
  ids.foldl (fun b id => eraseKeys config b (listing config b (id ++ ['/']))) b

/-- The prefix of everything under an id. -/
def directoryOf (id : Str) : Str := (S3Client.new config.s3).fullKey (id ++ ['/'])

/-- A `u32` after a number of increments. -/
def countFrom (build : Build) : Nat → Nat → Option Nat
  | 0, deleted => some deleted
  | left + 1, deleted => (incrementU32 build deleted).bind (countFrom build left)

section
variable {config} {b : Bucket}

theorem lookup_eraseKeys {keys : List Str} {key : Str} :
    (eraseKeys config b keys).lookup key =
      if ∃ k ∈ keys, key = (S3Client.new config.s3).fullKey k then none else b.lookup key := by
  induction keys generalizing b with
  | nil => simp [eraseKeys]
  | cons k keys ih =>
    have next : eraseKeys config b (k :: keys) =
      eraseKeys config (b.erase ((S3Client.new config.s3).fullKey k)) keys := rfl
    rw [next, ih]
    by_cases same : key = (S3Client.new config.s3).fullKey k
    · subst same
      rw [AList.lookup_erase, ite_self, if_pos ⟨k, List.mem_cons_self, rfl⟩]
    · rw [AList.lookup_erase_ne same]
      simp [same]

/-- Exactly what lies under the ids is gone. -/
theorem lookup_purged {ids : List Str} {key : Str} : (purged config b ids).lookup key =
    if ∃ id ∈ ids, directoryOf config id <+: key then none else b.lookup key := by
  induction ids generalizing b with
  | nil => simp [purged]
  | cons id ids ih =>
    have next : purged config b (id :: ids) =
      purged config (eraseKeys config b (listing config b (id ++ ['/']))) ids := rfl
    have under : (∃ k ∈ listing config b (id ++ ['/']), key = (S3Client.new config.s3).fullKey k) ↔
        directoryOf config id <+: key ∧ key ∈ b.keys := by
      constructor
      · rintro ⟨k, listed, rfl⟩
        obtain ⟨present, inside⟩ := mem_listing.mp listed
        exact ⟨(S3Client.fullKey_prefix _).mpr inside, present⟩
      · rintro ⟨inside, present⟩
        obtain ⟨rest, rfl⟩ := S3Client.exists_fullKey _ inside
        exact ⟨_, mem_listing.mpr ⟨present, List.prefix_append _ _⟩, rfl⟩
    rw [next, ih, lookup_eraseKeys]
    by_cases later : ∃ id ∈ ids, directoryOf config id <+: key
    · obtain ⟨other, hother, inside⟩ := later
      rw [if_pos ⟨other, hother, inside⟩, if_pos ⟨other, List.mem_cons_of_mem _ hother, inside⟩]
    rw [if_neg later]
    by_cases inside : directoryOf config id <+: key
    · have above : ∃ other ∈ id :: ids, directoryOf config other <+: key :=
        ⟨id, List.mem_cons_self, inside⟩
      rw [if_pos above]
      by_cases present : key ∈ b.keys
      · exact if_pos (under.mpr ⟨inside, present⟩)
      · rw [if_neg fun erased => present (under.mp erased).2]
        exact AList.lookup_eq_none.mpr fun member => present (AList.mem_keys.mp member)
    · rw [if_neg fun erased => inside (under.mp erased).1, if_neg]
      rintro ⟨other, hother, above⟩
      rcases List.mem_cons.mp hother with rfl | hother
      · exact inside above
      · exact later ⟨other, hother, above⟩

/-- The counter after `k` increments, unless it overflows where that is checked. -/
theorem countFrom_eq (build : Build) {k n : Nat} (start : n < 2 ^ 32) : countFrom build k n =
    if n + k < 2 ^ 32 then some (n + k)
    else if build.overflowChecks then none else some ((n + k) % 2 ^ 32) := by
  induction k generalizing n with
  | zero => rw [countFrom, Nat.add_zero, if_pos start]
  | succ k ih =>
    rw [countFrom]
    by_cases room : n + 1 < 2 ^ 32
    · rw [incrementU32_of_lt build room, Option.bind_some, ih room, Nat.add_right_comm, Nat.add_assoc]
    · obtain rfl : n = 2 ^ 32 - 1 := by omega
      have full : ¬ 2 ^ 32 - 1 + (k + 1) < 2 ^ 32 := by omega
      rw [if_neg full, incrementU32, if_neg room]
      by_cases checks : build.overflowChecks = true
      · rw [if_pos checks, if_pos checks, Option.bind_none]
      · rw [if_neg checks, if_neg checks, Option.bind_some, ih (by decide), Nat.zero_add]
        have wrapped : (2 ^ 32 - 1 + (k + 1)) % 2 ^ 32 = k % 2 ^ 32 := by omega
        rw [wrapped, if_neg checks]
        split
        · rw [Nat.mod_eq_of_lt (by assumption)]
        · rfl

end

section
variable {config} (paging : Paging) (time : Except String Nat) {m : BackupManager pf.build}
  {b : Bucket} {log : List Str}

variable (config b log) in
theorem interp_listKeys {σ : Type} (s : σ) (keyPrefix : Str) :
    Op.interp (answerAt paging time) ((S3Client.new config.s3).listKeys keyPrefix : M σ (List Str)) s
      ⟨b, log⟩ = some ((.ok (listing config b keyPrefix), s),
        ⟨b, log ++ [(S3Client.new config.s3).fullKey keyPrefix]⟩) := by
  let full := (S3Client.new config.s3).fullKey keyPrefix
  let pages := paging.pages (b.keys.filter (full.isPrefixOf ·))
  have answered : Op.interp (answerAt paging time) (call (.list full) : M σ _) s ⟨b, log⟩ =
      some ((.ok (.ok pages), s), ⟨b, log ++ [full]⟩) := by
    rw [call, Op.interp_call]
    rfl
  refine interp_retry_ok ((Op.interp_bind_ok (interp_orFail answered) _).trans ?_)
  rw [Op.interp_pure, sortKeys_flatten (paging.perm _)]
  rfl

theorem interp_getObject {σ : Type} {s : σ} (key : Str) : ∃ e,
    Op.interp (answerAt paging time) ((S3Client.new config.s3).getObject key : M σ Bytes) s ⟨b, log⟩ =
      some ((match b.lookup ((S3Client.new config.s3).fullKey key) with
        | some data => .ok data
        | none => .error e, s), ⟨b, log⟩) := by
  refine ⟨.s3 "no such key", interp_retry_same (fun _ => rfl) ?_⟩
  have answered : ∃ reply, Op.interp (answerAt paging time)
      (call (.getObject ((S3Client.new config.s3).fullKey key)) : M σ _) s ⟨b, log⟩ =
        some ((.ok reply, s), ⟨b, log⟩) ∧ reply.mapError Error.s3 =
      match b.lookup ((S3Client.new config.s3).fullKey key) with
        | some data => .ok data
        | none => .error (.s3 "no such key") := by
    rw [call, Op.interp_call]
    simp only [answerAt]
    cases b.lookup ((S3Client.new config.s3).fullKey key) with
    | none => exact ⟨_, rfl, rfl⟩
    | some data => exact ⟨_, rfl, rfl⟩
  obtain ⟨reply, answered, wrapped⟩ := answered
  rw [interp_orFail answered, wrapped]

theorem interp_deleteObjects {σ : Type} {s : σ} (keys : List Str) :
    Op.interp (answerAt paging time) ((S3Client.new config.s3).deleteObjects keys : M σ Unit) s
      ⟨b, log⟩ = some ((.ok (), s), ⟨eraseKeys config b keys, log⟩) := by
  induction keys generalizing b with
  | nil => rfl
  | cons key keys ih =>
    let full := (S3Client.new config.s3).fullKey key
    have answered : Op.interp (answerAt paging time) (call (.deleteObject full) : M σ _) s ⟨b, log⟩ =
        some ((.ok (.ok ()), s), ⟨b.erase full, log⟩) := by
      rw [call, Op.interp_call]
      rfl
    have deleted : Op.interp (answerAt paging time)
        ((S3Client.new config.s3).deleteObject key : M σ Unit) s ⟨b, log⟩ =
          some ((.ok (), s), ⟨b.erase full, log⟩) := interp_retry_ok (interp_orFail answered)
    rw [S3Client.deleteObjects, Op.interp_bind_ok deleted, ih]
    rfl

theorem interp_readManifests (hm : Uses config m) (keys : List Str) :
    Op.interp (answerAt paging time) (readManifests pf m keys) m ⟨b, log⟩ =
      some ((.ok ((keys.filter manifestSuffix.isSuffixOf).filterMap fun key =>
        (readAt config b key).map fun manifest => (trimEndMatches manifestSuffix key, manifest)), m),
        ⟨b, log⟩) := by
  induction keys with
  | nil => rfl
  | cons key keys ih =>
    unfold readManifests
    by_cases isManifest : manifestSuffix.isSuffixOf key = true
    · rw [if_pos isManifest, List.filter_cons_of_pos isManifest, hm.1, hm.2]
      obtain ⟨e, got⟩ := interp_getObject paging time key
      rw [Op.interp_bind_ok (Op.interp_attempt got), List.filterMap_cons, readAt]
      cases b.lookup ((S3Client.new config.s3).fullKey key) with
      | none => exact ih
      | some data =>
        dsimp only [Option.bind_some]
        cases decoded : decodeManifest pf data config with
        | error e => exact ih
        | ok manifest =>
          dsimp only [Except.toOption, Option.map_some]
          rw [Op.interp_bind_ok ih]
          rfl
    · rw [if_neg isManifest, List.filter_cons_of_neg isManifest, ih]

theorem interp_deleteExpired (hm : Uses config m) (cutoffMs : Nat)
    (found : List (Str × GenerationManifest)) (deleted : Nat) :
    Op.interp (answerAt paging time) (deleteExpired pf cutoffMs found deleted) m ⟨b, log⟩ =
      let ids := (found.filter fun p => p.1 ≠ m.generation ∧ p.2.createdAtMs < cutoffMs).map Prod.fst
      (countFrom pf.build ids.length deleted).map fun n =>
        ((.ok n, m), ⟨purged config b ids, log ++ ids.map (directoryOf config)⟩) := by
  induction found generalizing b log deleted with
  | nil =>
    rw [deleteExpired]
    simp [countFrom, purged]
  | cons p rest ih =>
    obtain ⟨genId, manifest⟩ := p
    rw [deleteExpired]
    have start : Op.interp (answerAt paging time) (get : Method pf _) m ⟨b, log⟩ =
        some ((.ok m, m), ⟨b, log⟩) := rfl
    rw [Op.interp_bind_ok start]
    by_cases own : genId = m.generation
    · rw [if_pos own, ih, List.filter_cons_of_neg (by simp [own])]
    rw [if_neg own]
    by_cases expires : manifest.createdAtMs < cutoffMs
    · rw [if_pos expires, List.filter_cons_of_pos (by simp [own, expires])]
      have listed := interp_listKeys config paging time b log m (genId ++ ['/'])
      have gone : Op.interp (answerAt paging time) (deleteGeneration pf genId) m ⟨b, log⟩ =
          some ((.ok (), m), ⟨eraseKeys config b (listing config b (genId ++ ['/'])),
            log ++ [directoryOf config genId]⟩) := by
        rw [deleteGeneration, Op.interp_bind_ok start, hm.2, Op.interp_bind_ok listed]
        exact interp_deleteObjects paging time _
      rw [Op.interp_bind_ok gone, Op.interp_bind, Op.interp_ofOption]
      cases next : incrementU32 pf.build deleted with
      | none => simp [countFrom, next]
      | some counted =>
        rw [Option.map_some, Option.bind_some]
        dsimp only
        rw [ih]
        simp [countFrom, next, purged]
    · rw [if_neg expires, ih, List.filter_cons_of_neg (by simp [expires])]

/-- The whole run. -/
theorem interp_enforceRetention (hm : Uses config m) {duration : Nat}
    (retention : config.retentionDuration = some duration) :
    Op.interp (answerAt paging time) (enforceRetention pf) m ⟨b, log⟩ =
      let ids := expiredIds config b m.generation (reading time - duration % 2 ^ 64)
      (countFrom pf.build ids.length 0).map fun n => ((.ok n, m),
        ⟨purged config b ids,
          log ++ (S3Client.new config.s3).fullKey [] :: ids.map (directoryOf config)⟩) := by
  have start : Op.interp (answerAt paging time) (get : Method pf _) m ⟨b, log⟩ =
      some ((.ok m, m), ⟨b, log⟩) := rfl
  have now : Op.interp (answerAt paging time) (nowMs : Method pf Nat) m ⟨b, log⟩ =
      some ((.ok (reading time), m), ⟨b, log⟩) := by
    have answered : Op.interp (answerAt paging time) (call .systemTime : Method pf _) m ⟨b, log⟩ =
        some ((.ok time, m), ⟨b, log⟩) := by
      rw [call, Op.interp_call]
      rfl
    rw [nowMs, Op.interp_bind_ok answered]
    cases time <;> rfl
  have found : Op.interp (answerAt paging time) (listGenerationManifests pf) m ⟨b, log⟩ =
      some ((.ok (foundManifests config b), m), ⟨b, log ++ [(S3Client.new config.s3).fullKey []]⟩) := by
    have listed := interp_listKeys config paging time b log m []
    rw [listGenerationManifests, Op.interp_bind_ok start, hm.2, Op.interp_bind_ok listed,
      interp_readManifests paging time hm]
    rfl
  rw [enforceRetention, Op.interp_bind_ok start, hm.1, retention]
  dsimp only
  rw [Op.interp_bind_ok now, Op.interp_bind_ok found, interp_deleteExpired paging time hm]
  simp [expiredIds]

end
end Waloy.Spec
