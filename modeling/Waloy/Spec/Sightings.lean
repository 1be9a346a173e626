import Waloy.Effect.Observed
import Waloy.Spec.Archive
import Waloy.Spec.Confined
import Waloy.Spec.Faultless

/-!
# What was read of the local files, and when

An observer of the calls keeps an account of the local files that were read. A ledger is
the bucket beside such an account; the rules below say what a call does to it.
-/
namespace Waloy.Spec
open Waloy.Effect Waloy.Source Waloy.Source.BackupManager

/-- The content of a local file when it was read. -/
structure Sighting where
  path : Str
  data : Bytes
  time : Nat

structure Account where
  time : Nat
  sightings : List Sighting
  /-- The uploads that were denied one after the other. -/
  denied : Nat

namespace Account

def sighted (time : Nat) : (c : Call) → c.Reply → List Sighting
  | .readFile path, .ok data => [⟨path, data, time⟩]
  | _, _ => []

/-- A reading of the clock is the time. -/
def Reads (time : Nat) : (c : Call) → c.Reply → Prop
  | .systemTime, reply => reading reply = time
  | _, _ => True

def deniedAfter (denied : Nat) : (c : Call) → c.Reply → Nat
  | .putObject _ _, .error _ => denied + 1
  | .sleep _, _ => denied
  | _, _ => 0

/-- A clock that does not go back, and the account that is kept under it. -/
def keep : Server Calls Account := fun acc c reply acc' =>
  acc.time ≤ acc'.time ∧ Reads acc'.time c reply ∧
    acc'.sightings = sighted acc'.time c reply ++ acc.sightings ∧
    acc'.denied = deniedAfter acc.denied c reply

/-- Nothing is seen in the future. -/
def Past (acc : Account) : Prop := ∀ r ∈ acc.sightings, r.time ≤ acc.time

/-- What an account keeps while it is kept on. -/
structure Grows (acc acc' : Account) : Prop where
  later : acc.time ≤ acc'.time
  sightings : ∀ r ∈ acc.sightings, r ∈ acc'.sightings
  past : acc.Past → acc'.Past

theorem Grows.refl (acc : Account) : acc.Grows acc := ⟨Nat.le_refl _, fun _ h => h, id⟩

theorem Grows.trans {acc acc' acc'' : Account} (h : acc.Grows acc') (h' : acc'.Grows acc'') :
    acc.Grows acc'' where
  later := Nat.le_trans h.later h'.later
  sightings r hr := h'.sightings r (h.sightings r hr)
  past hpast := h'.past (h.past hpast)

theorem sighted_time {time : Nat} {c : Call} {reply : c.Reply} {r : Sighting}
    (h : r ∈ sighted time c reply) : r.time = time := by
  cases c with
  | readFile path => cases reply with
    | ok data =>
      obtain rfl := List.mem_singleton.mp h
      rfl
    | error e => cases h
  | _ => cases h

theorem keep_grows {acc acc' : Account} {c : Call} {reply : c.Reply} (h : keep acc c reply acc') :
    acc.Grows acc' := by
  obtain ⟨later, -, same, -⟩ := h
  refine ⟨later, fun r hr => ?_, fun past r hr => ?_⟩
  · rw [same]
    exact List.mem_append_right _ hr
  · rw [same] at hr
    obtain new | old := List.mem_append.mp hr
    · exact Nat.le_of_eq (sighted_time new)
    · exact Nat.le_trans (past r old) later

/-- This content of a file was read at a time or before. -/
def Saw (acc : Account) (path : Str) (time : Nat) (data : Bytes) : Prop :=
  ∃ r ∈ acc.sightings, r.path = path ∧ r.time ≤ time ∧ r.data = data

/-- Every byte of the data was read at its place in a file, at a time or before; the data
begins at an offset of the file. -/
def SawAt (acc : Account) (path : Str) (time offset : Nat) (data : Bytes) : Prop :=
  ∀ i byte, data[i]? = some byte →
    ∃ r ∈ acc.sightings, r.path = path ∧ r.time ≤ time ∧ r.data[offset + i]? = some byte

section
variable {acc acc' : Account} {path : Str} {time time' offset : Nat} {data data' : Bytes}

theorem Saw.mono (grows : acc.Grows acc') (h : acc.Saw path time data) :
    acc'.Saw path time data := by
  obtain ⟨r, hr, rest⟩ := h
  exact ⟨r, grows.sightings r hr, rest⟩

theorem Saw.later (h : acc.Saw path time data) (later : time ≤ time') :
    acc.Saw path time' data := by
  obtain ⟨r, hr, same, recent, rest⟩ := h
  exact ⟨r, hr, same, Nat.le_trans recent later, rest⟩

theorem SawAt.mono (grows : acc.Grows acc') (later : time ≤ time')
    (h : acc.SawAt path time offset data) : acc'.SawAt path time' offset data := by
  intro i byte found
  obtain ⟨r, hr, same, recent, here⟩ := h i byte found
  exact ⟨r, grows.sightings r hr, same, Nat.le_trans recent later, here⟩

theorem sawAt_nil : acc.SawAt path time offset [] := by
  intro i byte found
  cases found

theorem SawAt.append (h : acc.SawAt path time offset data)
    (h' : acc.SawAt path time (offset + data.length) data') :
    acc.SawAt path time offset (data ++ data') := by
  intro i byte found
  by_cases first : i < data.length
  · rw [List.getElem?_append_left first] at found
    exact h i byte found
  · rw [List.getElem?_append_right (Nat.le_of_not_lt first)] at found
    obtain ⟨r, hr, same, recent, here⟩ := h' _ byte found
    refine ⟨r, hr, same, recent, ?_⟩
    have place : offset + data.length + (i - data.length) = offset + i := by omega
    rw [← place]
    exact here

/-- A part of what was seen was seen at its own place. -/
theorem SawAt.part (h : acc.SawAt path time offset data) (start length : Nat) :
    acc.SawAt path time (offset + start) ((data.drop start).take length) := by
  intro i byte found
  rw [List.getElem?_take] at found
  split at found
  case isFalse => cases found
  rw [List.getElem?_drop] at found
  obtain ⟨r, hr, same, recent, here⟩ := h _ byte found
  refine ⟨r, hr, same, recent, ?_⟩
  rw [Nat.add_assoc]
  exact here

theorem Saw.sawAt (h : acc.Saw path time data) : acc.SawAt path time 0 data := by
  obtain ⟨r, hr, same, recent, rfl⟩ := h
  intro i byte found
  refine ⟨r, hr, same, recent, ?_⟩
  rw [Nat.zero_add]
  exact found

end

end Account

/-- The calls of the bucket. -/
def isBucketCall : Call → Bool
  | .putObject _ _ | .getObject _ | .deleteObject _ | .list _ => true
  | _ => false

/-- The bucket may fail, and nothing else does. -/
def onlyBucketFails (c : Call) (reply : c.Reply) : Prop :=
  isBucketCall c = true ∨ ¬ Failure c reply

structure Ledger where
  bucket : Bucket
  account : Account

variable {pf : Platform} (config : BackupConfig pf.build) {A : Type}

/-- The last attempt to put a snapshot, the marker or a manifest is denied. -/
def GivesUp (denied : Nat) : (c : Call) → c.Reply → Prop
  | .putObject key _, .error _ => maxRetries ≤ denied ∧ ∃ o, isMark o = true ∧ key = objectKey config o
  | _, _ => False

/-- Keeps an account and refuses that an upload other than one of a segment is given up. What
`new` gives up is no matter. -/
def insist (q : Request) : Server Calls Account := fun acc c reply acc' =>
  Account.keep acc c reply acc' ∧ (q = .new ∨ ¬ GivesUp config acc.denied c reply)

/-- What a call does to a ledger. -/
def ledgerServer (q : Request) : Server Calls Ledger := fun l c reply l' =>
  Bucketed l.bucket c reply l'.bucket ∧ onlyBucketFails c reply ∧ uploadsWell config c ∧
    insist config q l.account c reply l'.account

section
variable {config} {q : Request} {l : Ledger} {σ : Type} {s : σ}

/-- A call that leaves the bucket alone. -/
theorem wp_posted {c : Call} (put : ∀ key data, c ≠ .putObject key data)
    (delete : ∀ key, c ≠ .deleteObject key) {ok : c.Reply → σ → Ledger → Prop}
    {err : Error → σ → Ledger → Prop}
    (hok : ∀ reply acc, l.account.Grows acc → onlyBucketFails c reply → ok reply s ⟨l.bucket, acc⟩) :
    Op.wp (ledgerServer config q) anyCall (call c) ok err s l := by
  rintro reply ⟨b, acc⟩ ⟨bucketed, fails, -, kept, -⟩
  obtain rfl := bucketed.same put delete
  exact ⟨trivial, hok reply acc (Account.keep_grows kept) fails⟩

theorem not_onlyBucketFails {c : Call} {reply : c.Reply} (outside : isBucketCall c = false)
    (failure : Failure c reply) : ¬ onlyBucketFails c reply := by
  rintro (inside | sound)
  · rw [outside] at inside
    cases inside
  · exact sound failure

/-- A local file is read. -/
theorem wp_seen {path : Str} {ok : Bytes → σ → Ledger → Prop} {err : Error → σ → Ledger → Prop}
    (hok : ∀ data acc, l.account.Grows acc → acc.Saw path acc.time data →
      ok data s ⟨l.bucket, acc⟩) :
    Op.wp (ledgerServer config q) anyCall (orFail .io (call (.readFile path))) ok err s l := by
  rw [wp_orFail]
  rintro reply ⟨b, acc⟩ ⟨rfl, fails, -, kept, -⟩
  refine ⟨trivial, ?_⟩
  have grows := Account.keep_grows kept
  cases reply with
  | error e => exact absurd fails (not_onlyBucketFails rfl trivial)
  | ok data =>
    refine hok data acc grows ⟨⟨path, data, acc.time⟩, ?_, rfl, Nat.le_refl _, rfl⟩
    obtain ⟨-, -, same, -⟩ := kept
    rw [same]
    exact List.mem_cons_self

theorem wp_timed {ok : Nat → σ → Ledger → Prop} {err : Error → σ → Ledger → Prop}
    (hok : ∀ acc, l.account.Grows acc → ok acc.time s ⟨l.bucket, acc⟩) :
    Op.wp (ledgerServer config q) anyCall nowMs ok err s l := by
  refine (Op.wp_bind _ _).mpr ?_
  rintro reply ⟨b, acc⟩ ⟨rfl, -, -, kept, -⟩
  refine ⟨trivial, ?_⟩
  have grows := Account.keep_grows kept
  obtain ⟨-, reads, -⟩ := kept
  have here := hok acc grows
  rw [← (reads : reading reply = acc.time)] at here
  cases reply with
  | ok ms => exact here
  | error e => exact here

theorem wp_drawn {ok : Str → σ → Ledger → Prop} {err : Error → σ → Ledger → Prop}
    (hok : ∀ generation acc, l.account.Grows acc → Fresh l.bucket generation →
      ok generation s ⟨l.bucket, acc⟩) :
    Op.wp (ledgerServer config q) anyCall (call .newUuid) ok err s l := by
  rintro generation ⟨b, acc⟩ ⟨⟨fresh, rfl⟩, -, -, kept, -⟩
  exact ⟨trivial, hok generation acc (Account.keep_grows kept) fresh⟩

/-- Encoding does not fail. -/
theorem wp_encoded (codec : Codec config) {data : Bytes} {ok : Bytes → σ → Ledger → Prop}
    {err : Error → σ → Ledger → Prop}
    (hok : ∀ encoded acc, l.account.Grows acc → Encodes pf config data encoded →
      ok encoded s ⟨l.bucket, acc⟩) :
    Op.wp (ledgerServer config q) anyCall (pipelineEncode pf config data) ok err s l := by
  refine wp_pipelineEncode_of config
    (J := fun l' => ∃ acc, l.account.Grows acc ∧ l' = ⟨l.bucket, acc⟩) ?_
    ⟨l.account, .refl _, rfl⟩ ?_ ?_
  · rintro _ n bytes ⟨b, acc'⟩ ⟨acc, grows, rfl⟩ ⟨⟨length, rfl⟩, -, -, kept, -⟩
    exact ⟨trivial, length, acc', grows.trans (Account.keep_grows kept), rfl⟩
  · rintro encoded _ ⟨acc, grows, rfl⟩ encodes
    exact hok encoded acc grows encodes
  · rintro e _ - fails
    obtain ⟨encoded, impossible⟩ := codec.encodes data _ fails
    cases impossible

/-- An object is put. Where it is no segment, the upload does not fail for good. -/
theorem wp_stored {o : Object} {raw data : Bytes} {ok : Unit → σ → Ledger → Prop}
    {err : Error → σ → Ledger → Prop} (encodes : o ≠ .latest → Encodes pf config raw data)
    (hok : ∀ acc, l.account.Grows acc →
      (o ≠ .latest → pipelineDecode pf data config = .ok raw) →
      (∀ generation index, o = .segment generation index → index + 1 < 2 ^ 32) →
      ok () s ⟨store config l.bucket o data, acc⟩)
    (herr : q = .new ∨ isMark o = false → ∀ e b acc, l.account.Grows acc →
      (b = l.bucket ∨ b = store config l.bucket o data ∧
        (o ≠ .latest → pipelineDecode pf data config = .ok raw)) → err e s ⟨b, acc⟩) :
    Op.wp (ledgerServer config q) anyCall ((S3Client.new config.s3).putObject o.key data) ok err s l := by
  let I (l' : Ledger) : Prop := ∃ b acc, l' = ⟨b, acc⟩ ∧ l.account.Grows acc ∧
    (b = l.bucket ∨ b = store config l.bucket o data ∧
      (o ≠ .latest → pipelineDecode pf data config = .ok raw))
  have again : ∀ {b}, (b = l.bucket ∨ b = store config l.bucket o data ∧
      (o ≠ .latest → pipelineDecode pf data config = .ok raw)) →
      store config b o data = store config l.bucket o data := by
    rintro b (rfl | ⟨rfl, -⟩)
    · rfl
    · exact store_store config _ _ _ _
  refine wp_attempts (I := fun n l' => I l' ∧ n ≤ l'.account.denied)
    (J := fun n l' => I l' ∧ n < l'.account.denied ∧
      (n = maxRetries → q = .new ∨ isMark o = false)) ?_ ?_ ?_ ?_
  · rintro n _ ⟨⟨b, acc, rfl, grows, hb⟩, counted⟩
    rw [wp_orFail]
    rintro reply ⟨b', acc'⟩ ⟨bucketed, -, well, kept, refused⟩
    refine ⟨trivial, ?_⟩
    have grows' := grows.trans (Account.keep_grows kept)
    have decodes : o ≠ .latest → pipelineDecode pf data config = .ok raw := fun other =>
      well.1 (mt (objectKey_inj config).mp other) raw (encodes other)
    cases reply with
    | ok =>
      obtain rfl : b' = store config b o data := bucketed
      rw [again hb]
      refine hok acc' grows' decodes fun generation index same => ?_
      exact well.2 generation index (congrArg (objectKey config) same)
    | error e =>
      refine ⟨rfl, ⟨b', acc', rfl, grows', ?_⟩, ?_, ?_⟩
      · obtain rfl | rfl := (bucketed : b' = b ∨ b' = store config b o data)
        · exact hb
        · exact .inr ⟨again hb, decodes⟩
      · have next : acc'.denied = acc.denied + 1 := kept.2.2.2
        dsimp only
        rw [next]
        exact Nat.lt_succ_of_le counted
      · rintro rfl
        refine refused.imp_right fun insists => ?_
        rw [← Bool.not_eq_true]
        exact fun mark => insists ⟨counted, o, mark, rfl⟩
  · rintro n _ ms reply ⟨b', acc'⟩ ⟨⟨b, acc, rfl, grows, hb⟩, counted, -⟩ ⟨rfl, -, -, kept, -⟩
    have next : acc'.denied = acc.denied := kept.2.2.2
    refine ⟨trivial, ⟨_, acc', rfl, grows.trans (Account.keep_grows kept), hb⟩, ?_⟩
    rw [next]
    exact counted
  · rintro e _ ⟨⟨b, acc, rfl, grows, hb⟩, -, given_up⟩
    exact herr (given_up rfl) e b acc grows hb
  · exact ⟨⟨l.bucket, l.account, rfl, .refl _, .inl rfl⟩, Nat.zero_le _⟩

theorem wp_fetched {key : Str} {ok : Bytes → σ → Ledger → Prop} {err : Error → σ → Ledger → Prop}
    (hok : ∀ data acc, l.account.Grows acc →
      l.bucket.lookup ((S3Client.new config.s3).fullKey key) = some data →
      ok data s ⟨l.bucket, acc⟩)
    (herr : ∀ e acc, l.account.Grows acc → err e s ⟨l.bucket, acc⟩) :
    Op.wp (ledgerServer config q) anyCall ((S3Client.new config.s3).getObject key) ok err s l := by
  let I (l' : Ledger) : Prop := ∃ acc, l.account.Grows acc ∧ l' = ⟨l.bucket, acc⟩
  refine wp_attempts (I := fun _ => I) (J := fun _ => I) ?_ ?_ ?_ ⟨l.account, .refl _, rfl⟩
  · rintro n _ ⟨acc, grows, rfl⟩
    rw [wp_orFail]
    rintro reply ⟨b', acc'⟩ ⟨bucketed, -, -, kept, -⟩
    refine ⟨trivial, ?_⟩
    have grows' := grows.trans (Account.keep_grows kept)
    cases reply with
    | ok data =>
      obtain ⟨found, rfl⟩ := bucketed
      exact hok data acc' grows' found
    | error e =>
      obtain rfl := bucketed
      exact ⟨rfl, acc', grows', rfl⟩
  · rintro n _ ms reply ⟨b', acc'⟩ ⟨acc, grows, rfl⟩ ⟨rfl, -, -, kept, -⟩
    exact ⟨trivial, acc', grows.trans (Account.keep_grows kept), rfl⟩
  · rintro e _ ⟨acc, grows, rfl⟩
    exact herr e acc grows

/-- What erasing some objects keeps is kept by a deletion of their keys, as far as it gets. -/
theorem wp_cleared {J : Ledger → Prop} {objects : List Object}
    (aside : ∀ b acc acc', J ⟨b, acc⟩ → acc.Grows acc' → J ⟨b, acc'⟩)
    (erases : ∀ o ∈ objects, ∀ b acc, J ⟨b, acc⟩ → J ⟨b.erase (objectKey config o), acc⟩) (hl : J l) :
    Op.wp (ledgerServer config q) anyCall
      ((S3Client.new config.s3).deleteObjects (objects.map Object.key) : M σ Unit)
      (fun _ s' l' => s' = s ∧ J l') (fun _ s' l' => s' = s ∧ J l') s l := by
  induction objects generalizing l with
  | nil => exact ⟨rfl, hl⟩
  | cons o rest ih =>
    rw [List.map_cons, S3Client.deleteObjects, Op.wp_bind]
    refine wp_attempts (I := fun _ => J) (J := fun _ => J) ?_ ?_ (fun e l' hl' => ⟨rfl, hl'⟩) hl
    · rintro n ⟨b, acc⟩ hl'
      rw [wp_orFail]
      rintro reply ⟨b', acc'⟩ ⟨bucketed, -, -, kept, -⟩
      refine ⟨trivial, ?_⟩
      have kept' := aside b acc acc' hl' (Account.keep_grows kept)
      have erased := erases o List.mem_cons_self b acc' kept'
      cases reply with
      | ok =>
        obtain rfl := bucketed
        exact ih (fun o' ho' => erases o' (List.mem_cons_of_mem _ ho')) erased
      | error e =>
        obtain rfl | rfl := bucketed
        · exact ⟨rfl, kept'⟩
        · exact ⟨rfl, erased⟩
    · rintro n ⟨b, acc⟩ ms reply ⟨b', acc'⟩ hl' ⟨rfl, -, -, kept, -⟩
      exact ⟨trivial, aside _ acc acc' hl' (Account.keep_grows kept)⟩

end

end Waloy.Spec
