import Waloy.Guarantees.Backoff
import Waloy.Guarantees.Mismatch
import Waloy.Spec.Confined

/-!
# Nothing is stored in the clear

With a key in the configuration, every object but the marker is sealed before it is written, under
a salt and a nonce that were drawn for this write after the one before. Only the attempts at one
write send the same bytes again. So it is whatever the answers are, and wherever the process stops.
-/
namespace Waloy.Spec
open Waloy.Effect Waloy.Source Waloy.Source.BackupManager

variable {pf : Platform} (config : BackupConfig pf.build)

/-- What is drawn for the next write, or the write that it was spent on. -/
inductive Draws where
  | none
  | salted (salt : Bytes)
  | ready (salt nonce : Bytes)
  | spent (fullKey : Str) (data : Bytes)

namespace Draws

/-- The nonce is drawn after the salt. -/
def nonce : Draws → Bytes → Draws
  | .salted salt, nonce => .ready salt nonce
  | _, _ => .none

/-- The first attempt at a write spends what was drawn. -/
def spend (key : Str) (data : Bytes) : Draws → Draws
  | .ready _ _ => .spent key data
  | state => state

def note (state : Draws) : (c : Call) → c.Reply → Draws
  | .fillBytes n, bytes => if n = saltLen then .salted bytes else state.nonce bytes
  | .putObject key data, _ => state.spend key data
  | _, _ => state

/-- The bytes are some data under what has been drawn. -/
def Seals (passphrase : Str) : Draws → Bytes → Prop
  | .ready salt nonce, data => ∃ raw compressed,
    compress pf raw config.compression = .ok compressed ∧ sealWith pf compressed passphrase salt nonce = .ok data
  | _, _ => False

/-- A write under what has been drawn for it, another attempt at it, or the marker. -/
def Permits (passphrase : Str) (state : Draws) : Call → Prop
  | .putObject key data => state.Seals config passphrase data ∨ state = .spent key data ∨
    key = objectKey config .latest ∧ ∃ generation, data = asBytes generation
  | _ => True

/-- The writes of a manager that encrypts. -/
def sealing (passphrase : Str) : Automaton Calls Draws where
  note := note
  Permits := Permits config passphrase

end Draws

/-- At every point of every life, the next write is sealed. -/
structure SealsObjects (passphrase : Str) : Prop where
  sealed : ∀ {o q s start c next state},
    ((Draws.sealing config passphrase).runs (process config)).Lives none (.idle none o)
      (.running q s start (.call c next) state) → state.Permits config passphrase c

/-- The calls that write no object. -/
def isNoPut : Call → Bool
  | .putObject _ _ => false
  | _ => true

section
variable {config} {passphrase : Str} {σ α β : Type} {state : Draws}

theorem noPut_permitted {c : Call} (h : isNoPut c = true) :
    (Draws.sealing config passphrase).Permits state c := by
  cases c with
  | putObject => cases h
  | _ => trivial

theorem noPut_local : PermitsLocal (isNoPut · = true) where
  quiet c h := by
    cases c with
    | putObject => cases h
    | _ => rfl
  time := rfl

theorem noPut_deletes : PermitsDeletes config (isNoPut · = true) :=
  { noPut_local with
    get := fun _ => rfl
    list := fun _ => rfl
    delete := fun _ => rfl }

/-- The sealed operations of a manager with this configuration. -/
abbrev Sealed (config : BackupConfig pf.build) (passphrase : Str) (x : Method pf α) : Prop :=
  Op.Secures (Draws.sealing config passphrase).serve (Draws.sealing config passphrase).guard
    (fun m _ => Uses config m) x

theorem sealed_within {x : Method pf α} (hx : Op.Within (isNoPut · = true) (Uses config) x) :
    Sealed config passphrase x :=
  Automaton.accepts_within (fun _ _ => noPut_permitted) hx

theorem sealed_call {c : Call} (h : isNoPut c = true) : Sealed config passphrase (call c) :=
  sealed_within (Op.within_call h)

theorem sealed_orFail {wrap : String → Error} {x : Method pf (Except String α)}
    (hx : Sealed config passphrase x) : Sealed config passphrase (orFail wrap x) :=
  secures_orFail hx

theorem sealed_nowMs : Sealed config passphrase nowMs := sealed_within (within_nowMs noPut_local)

/-- Encoding draws a salt and a nonce, and seals under them. -/
theorem sealed_pipelineEncode (enabled : pf.build.encryption = true)
    (key : config.encryptionKey = some passphrase) (raw : Bytes) (s : σ) :
    Op.wp (Draws.sealing config passphrase).serve (Draws.sealing config passphrase).guard
      (pipelineEncode pf config raw)
      (fun data s' state' => s' = s ∧ state'.Seals config passphrase data)
      (fun _ s' _ => s' = s) s state := by
  simp only [pipelineEncode, Op.wp_bind, Op.wp_ofExcept]
  cases compressed : compress pf raw config.compression with
  | error e => trivial
  | ok data =>
    dsimp only
    rw [if_pos enabled, key]
    have seals : ∀ salt nonce, Op.wp (Draws.sealing config passphrase).serve
        (Draws.sealing config passphrase).guard
        (Op.ofExcept (sealWith pf data passphrase salt nonce))
        (fun data s' state' => s' = s ∧ state'.Seals config passphrase data)
        (fun _ s' _ => s' = s) s (Draws.ready salt nonce) := by
      intro salt nonce
      cases done : sealWith pf data passphrase salt nonce with
      | error e => rfl
      | ok encoded => exact ⟨rfl, raw, data, compressed, done⟩
    simp only [encrypt, Op.wp_bind]
    rintro salt _ rfl
    refine ⟨trivial, ?_⟩
    rintro nonce _ rfl
    exact ⟨trivial, seals salt nonce⟩

/-- One attempt at a write that is permitted spends what was drawn. -/
theorem Draws.note_put {key : Str} {data : Bytes} {reply : Except String Unit}
    (permitted : state.Seals config passphrase data ∨ state = .spent key data) :
    state.note (.putObject key data) reply = .spent key data := by
  obtain seals | rfl := permitted
  · cases state with
    | ready => rfl
    | _ => cases seals
  · rfl

theorem sealed_attempt {key : Str} {data : Bytes} {s : σ}
    (permitted : state.Seals config passphrase data ∨ state = .spent key data) :
    Op.wp (Draws.sealing config passphrase).serve (Draws.sealing config passphrase).guard
      (orFail .s3 (call (.putObject key data)))
      (fun _ s' _ => s' = s) (fun _ s' state' => s' = s ∧ state' = .spent key data) s state := by
  rw [wp_orFail]
  rintro reply _ rfl
  have spent : state.note (.putObject key data) reply = .spent key data :=
    Draws.note_put permitted
  refine ⟨permitted.imp_right .inl, ?_⟩
  cases reply with
  | ok => rfl
  | error e => exact ⟨rfl, spent⟩

/-- The attempts at a write that is permitted. -/
theorem sealed_retry {key : Str} {data : Bytes} {s : σ} (left attempt : Nat)
    (permitted : state.Seals config passphrase data ∨ state = .spent key data) :
    Op.wp (Draws.sealing config passphrase).serve (Draws.sealing config passphrase).guard
      (S3Client.retryFrom (orFail .s3 (call (.putObject key data)) : M σ Unit) left attempt)
      (fun _ s' _ => s' = s) (fun _ s' _ => s' = s) s state := by
  induction left generalizing attempt state with
  | zero => exact Op.wp_mono (sealed_attempt permitted) (fun _ _ _ h => h) fun _ _ _ h => h.1
  | succ left ih =>
    rw [S3Client.retryFrom, Op.wp_bind, Op.wp_attempt]
    refine Op.wp_mono (sealed_attempt permitted) (fun _ _ _ h => h) ?_
    rintro e _ _ ⟨rfl, rfl⟩
    simp only [Op.wp_bind]
    rintro ⟨⟩ _ rfl
    exact ⟨trivial, ih _ (.inr rfl)⟩

theorem sealed_put {key : Str} {data : Bytes} {m : BackupManager pf.build} (hm : Uses config m)
    (seals : state.Seals config passphrase data) :
    Op.wp (Draws.sealing config passphrase).serve (Draws.sealing config passphrase).guard
      ((S3Client.new config.s3).putObject key data) (fun _ m' _ => Uses config m')
      (fun _ m' _ => Uses config m') m state := by
  refine Op.wp_mono (sealed_retry _ _ (.inl seals)) ?_ ?_
  · rintro _ _ _ rfl
    exact hm
  · rintro _ _ _ rfl
    exact hm

/-- A write, and what follows it. -/
theorem sealed_stored {key : Str} {data : Bytes} {m : BackupManager pf.build} {x : Method pf β}
    (hm : Uses config m) (seals : state.Seals config passphrase data)
    (hx : Sealed config passphrase x) :
    Op.wp (Draws.sealing config passphrase).serve (Draws.sealing config passphrase).guard
      ((S3Client.new config.s3).putObject key data >>= fun _ => x) (fun _ m' _ => Uses config m')
      (fun _ m' _ => Uses config m') m state := by
  rw [Op.wp_bind]
  exact Op.wp_mono (sealed_put hm seals) (fun _ m' state' hm' => hx m' state' hm') fun _ _ _ h => h

theorem sealed_marker (generation : Str) : Sealed config passphrase
    ((S3Client.new config.s3).putObject Object.latest.key (asBytes generation)) := by
  let allowed : Call → Prop := fun c =>
    isNoPut c = true ∨ c = .putObject (objectKey config .latest) (asBytes generation)
  have permits : ∀ (state : Draws) (c : Call), allowed c →
      (Draws.sealing config passphrase).Permits state c := by
    rintro state c (noPut | rfl)
    · exact noPut_permitted noPut
    · exact .inr (.inr ⟨rfl, generation, rfl⟩)
  have quiet : PermitsLocal allowed := ⟨fun c h => .inl (noPut_local.quiet c h), .inl rfl⟩
  exact Automaton.accepts_within permits
    (within_retry quiet (within_orFail (Op.within_call (.inr rfl))))

end

/-! Every method of a manager with the key. -/

section
variable {config} {passphrase : Str} (enabled : pf.build.encryption = true)
  (key : config.encryptionKey = some passphrase)
include enabled key

/-- What an encoding leads to, once it is sealed. -/
theorem sealed_encoded {β : Type} {raw : Bytes} {f : Bytes → Method pf β}
    (hf : ∀ data m state, Uses config m → Draws.Seals config passphrase state data →
      Op.wp (Draws.sealing config passphrase).serve (Draws.sealing config passphrase).guard (f data)
        (fun _ m' _ => Uses config m') (fun _ m' _ => Uses config m') m state) :
    Sealed config passphrase (pipelineEncode pf config raw >>= f) := by
  intro m state hm
  rw [Op.wp_bind]
  refine Op.wp_mono (sealed_pipelineEncode enabled key raw m) ?_ ?_
  · rintro data _ state' ⟨rfl, seals⟩
    exact hf data _ state' hm seals
  · rintro _ _ _ rfl
    exact hm

theorem sealed_uploadManifest : Sealed config passphrase (uploadManifest pf) := by
  refine Op.secures_get fun self state hself => ?_
  refine (Op.secures_ofExcept _).bind fun json => ?_
  rw [hself.1, hself.2]
  exact sealed_encoded enabled key fun data m state hm seals => sealed_put hm seals

theorem sealed_snapshot : Sealed config passphrase (snapshot pf) := by
  refine Op.secures_get fun self state hself => ?_
  rw [hself.1, hself.2]
  refine (sealed_orFail (sealed_call rfl)).bind fun rawData => ?_
  refine sealed_encoded enabled key fun data m state hm seals => sealed_stored hm seals ?_
  refine (sealed_marker _).bind fun _ => ?_
  refine Op.Secures.bind (Op.secures_modify fun _ _ h => h) fun _ => ?_
  refine (sealed_call rfl).bind fun _ => ?_
  refine Op.Secures.bind (Op.secures_modify fun _ _ h => h) fun _ => ?_
  refine (sealed_call rfl).bind fun _ => ?_
  refine Op.Secures.bind (Op.secures_modify fun _ _ h => h) fun _ => ?_
  refine sealed_nowMs.bind fun now => ?_
  refine Op.Secures.bind (Op.secures_modify fun _ _ h => h) fun _ => ?_
  exact sealed_uploadManifest enabled key

theorem sealed_uploadSegment (walData : Bytes) (alignedLen : Nat) :
    Sealed config passphrase (uploadSegment pf walData alignedLen) := by
  refine Op.secures_get fun self state hself => ?_
  rw [hself.1, hself.2]
  refine (Op.secures_ofOption _).bind fun newData => ?_
  refine sealed_encoded enabled key fun data m state hm seals => sealed_stored hm seals ?_
  refine sealed_nowMs.bind fun now => ?_
  refine Op.Secures.bind (Op.secures_modify fun _ _ h => h) fun _ => ?_
  refine (sealed_uploadManifest enabled key).bind fun _ => ?_
  refine (sealed_call rfl).bind fun _ => ?_
  refine Op.Secures.bind (Op.secures_modify fun _ _ h => h) fun _ => ?_
  refine (Op.secures_ofOption _).bind fun _ => ?_
  exact Op.secures_modify fun _ _ h => h

omit enabled key in
theorem sealed_beginReadTransaction : Sealed config passphrase (beginReadTransaction pf) := by
  refine Op.secures_get fun self _ _ => Op.Secures.ite (fun _ => Op.secures_pure _) fun _ => ?_
  refine (sealed_orFail (sealed_call rfl)).bind fun _ => ?_
  refine (sealed_orFail (sealed_call rfl)).bind fun _ => ?_
  exact Op.secures_modify fun _ _ h => h

omit enabled key in
theorem sealed_endReadTransaction : Sealed config passphrase (endReadTransaction pf) := by
  refine Op.secures_get fun self _ _ => Op.Secures.ite (fun _ => ?_) fun _ => Op.secures_pure _
  exact (sealed_call rfl).bind fun _ => Op.secures_modify fun _ _ h => h

omit enabled key in
theorem sealed_startGeneration : Sealed config passphrase (startGeneration pf) := by
  refine (sealed_call rfl).bind fun generation => ?_
  refine Op.Secures.bind (Op.secures_modify fun _ _ h => h) fun _ => ?_
  exact sealed_nowMs.bind fun now => Op.secures_modify fun _ _ h => h

theorem sealed_recover : Sealed config passphrase (recover pf) := by
  refine sealed_endReadTransaction.bind fun _ => ?_
  refine sealed_startGeneration.bind fun _ => ?_
  exact (sealed_snapshot enabled key).bind fun _ => sealed_beginReadTransaction

theorem sealed_syncWal : Sealed config passphrase (syncWal pf) := by
  refine Op.secures_get fun self state hself => ?_
  refine (sealed_call rfl).bind fun found => ?_
  refine Op.Secures.ite (fun _ => Op.secures_pure _) fun _ => ?_
  refine (sealed_orFail (sealed_call rfl)).bind fun walData => ?_
  refine Op.Secures.ite (fun _ => Op.secures_pure _) fun _ => ?_
  refine Op.Secures.ite (fun _ => ?_) fun _ => ?_
  · exact (sealed_recover enabled key).bind fun _ => Op.secures_pure _
  · refine Op.Secures.bind (Op.secures_modify fun m _ hm => hm.captureSalt walData) fun _ => ?_
    refine Op.Secures.ite (fun _ => Op.secures_pure _) fun _ => ?_
    exact (sealed_uploadSegment enabled key walData _).bind fun _ => Op.secures_pure _

theorem sealed_checkpoint : Sealed config passphrase (checkpoint pf) := by
  refine (sealed_syncWal enabled key).bind fun _ => ?_
  refine sealed_endReadTransaction.bind fun _ => ?_
  refine Op.secures_get fun self _ _ => ?_
  refine (sealed_orFail (sealed_call rfl)).bind fun _ => ?_
  refine sealed_startGeneration.bind fun _ => ?_
  refine (sealed_snapshot enabled key).attempt.bind fun _ => ?_
  exact sealed_beginReadTransaction.bind fun _ => Op.secures_ofExcept _

theorem sealed_maybeSnapshot : Sealed config passphrase (maybeSnapshot pf) := by
  refine Op.secures_get fun self _ _ => ?_
  cases self.config.snapshotInterval with
  | none => exact Op.secures_pure _
  | some interval =>
    refine (sealed_call rfl).bind fun now => Op.Secures.ite (fun _ => ?_) fun _ => Op.secures_pure _
    exact (sealed_checkpoint enabled key).bind fun _ => Op.secures_pure _

theorem sealed_shutdown : Sealed config passphrase (shutdown pf) := by
  have ends : Sealed config passphrase (do
      endReadTransaction pf
      modify fun self => { self with shutdownComplete := true }) :=
    sealed_endReadTransaction.bind fun _ => Op.secures_modify fun _ _ h => h
  refine Op.secures_get fun self _ _ => Op.Secures.ite (fun _ => Op.secures_pure _) fun _ => ?_
  refine (sealed_syncWal enabled key).attempt.bind fun result => ?_
  cases result with
  | ok => exact ends
  | error e => exact Op.Secures.bind (Op.secures_modify fun _ _ h => h) fun _ => ends

theorem sealed_uploadChunks {self : BackupManager pf.build} (hself : Uses config self)
    (allData : Bytes) (maxSize fuel offset newIndex : Nat) :
    Sealed config passphrase (uploadChunks pf self allData maxSize fuel offset newIndex) := by
  induction fuel generalizing offset newIndex with
  | zero =>
    unfold uploadChunks
    exact Op.Secures.ite (fun _ => Op.secures_halt) fun _ => Op.secures_pure _
  | succ fuel ih =>
    unfold uploadChunks
    refine Op.Secures.ite (fun _ => ?_) fun _ => Op.secures_pure _
    rw [hself.1, hself.2]
    refine sealed_encoded enabled key fun data m state hm seals => sealed_stored hm seals ?_
    refine sealed_nowMs.bind fun now => ?_
    refine (Op.secures_ofOption _).bind fun next => ?_
    exact (ih _ _).bind fun _ => Op.secures_pure _

theorem sealed_compact (maxSegmentSize : Option Nat) (fuel : Nat) :
    Sealed config passphrase (compact pf maxSegmentSize fuel) := by
  refine Op.secures_get fun self state hself => ?_
  refine Op.Secures.ite (fun _ => Op.secures_pure _) fun _ => ?_
  have deletes : PermitsDeletes config (isNoPut · = true) := noPut_deletes
  refine (sealed_within (within_downloadSegments deletes _)).bind fun allData => ?_
  refine (sealed_uploadChunks enabled key hself allData _ _ _ _).bind fun chunks => ?_
  refine Op.Secures.bind (Op.secures_modify fun _ _ h => h) fun _ => ?_
  refine (sealed_uploadManifest enabled key).bind fun _ => ?_
  refine Op.Secures.bind (Op.secures_modify fun _ _ h => h) fun _ => ?_
  rw [hself.2]
  exact (sealed_within (within_deleteObjects deletes _)).bind fun _ => Op.secures_pure _

theorem sealed_firstSnapshot : Sealed config passphrase (firstSnapshot pf) := by
  refine (sealed_snapshot enabled key).attempt.bind ?_
  rintro (e | _)
  · exact sealed_endReadTransaction.bind fun _ => Op.secures_throw _
  · exact Op.secures_pure _

omit enabled key in
theorem within_restores : Op.Within (isNoPut · = true) (fun _ => True) (restoreFirst config) := by
  have fetches : ∀ c, isFetchCall c = true → isNoPut c = true := by
    intro c fetch
    cases c with
    | putObject => cases fetch
    | _ => rfl
  have replays : ∀ c, isReplayCall c = true → isNoPut c = true := by
    intro c replay
    cases c with
    | putObject => cases replay
    | _ => rfl
  refine Op.Within.ite (fun _ => ?_) fun _ => Op.within_pure _
  refine (Op.within_call (noPut_local.quiet _ rfl)).bind fun found => ?_
  refine Op.Within.ite (fun _ => ?_) fun _ => Op.within_pure _
  exact (uses_restoreLatest config fetches replays _ _).within

/-- A manager that is opened has the key. -/
theorem sealed_new (state : Draws) :
    Op.wp (Draws.sealing config passphrase).serve (Draws.sealing config passphrase).guard
      (new pf config) (fun m _ _ => Uses config m) (fun _ _ _ => True) () state := by
  have quiet : ∀ {α : Type} {x : M Unit α}, Op.Within (isNoPut · = true) (fun _ => True) x →
      Op.Secures (Draws.sealing config passphrase).serve (Draws.sealing config passphrase).guard
        (fun _ _ => True) x :=
    fun hx => Automaton.accepts_within (fun _ _ => noPut_permitted) hx
  have calls : ∀ {c : Call}, isNoPut c = true →
      Op.Within (isNoPut · = true) (fun _ : Unit => True) (call c) := fun h => Op.within_call h
  have fails : ∀ (_ : Error) (_ : Unit) (_ : Draws), True → True := fun _ _ _ h => h
  rw [new_eq]
  refine (quiet within_restores).next trivial (fun _ _ _ _ => ?_) fails
  refine (quiet (within_orFail (calls rfl))).next trivial (fun readConn _ _ _ => ?_) fails
  refine (quiet (within_orFail (calls rfl))).next trivial (fun _ _ _ _ => ?_) fails
  refine (quiet (within_orFail (calls rfl))).next trivial (fun _ _ _ _ => ?_) fails
  refine (quiet (within_orFail (calls rfl))).next trivial (fun _ _ _ _ => ?_) fails
  refine (quiet (calls rfl)).next trivial (fun generation _ _ _ => ?_) fails
  refine (quiet (within_nowMs noPut_local)).next trivial (fun ts _ _ _ => ?_) fails
  refine (quiet (calls rfl)).next trivial (fun now _ state' _ => ?_) fails
  rw [Op.wp_bind, Op.wp_runOn]
  exact Op.wp_mono (sealed_firstSnapshot enabled key _ state' ⟨rfl, rfl⟩) (fun _ _ _ h => h)
    fun _ _ _ _ => trivial

omit enabled key in
theorem sealed_method {α : Type} {x : Method pf α} (answer : α → Answer)
    (hx : Sealed config passphrase x) {m : BackupManager pf.build} (hm : Uses config m)
    (state : Draws) :
    (method answer x m).wp (Draws.sealing config passphrase).serve
      (Draws.sealing config passphrase).guard
      (fun out _ => ∀ m, out.2 = some m → Uses config m) state := by
  refine (wp_method answer x m).mpr (Op.wp_mono (hx m state hm) ?_ ?_)
  · rintro _ _ _ uses _ ⟨⟩
    exact uses
  · rintro _ _ _ uses _ ⟨⟩
    exact uses

theorem sealing_accepts :
    (Draws.sealing config passphrase).Accepts (process config)
      fun s _ => ∀ m, s = some m → Uses config m where
  body := by
    intro q s state _ hs
    have opens : (opening config).wp (Draws.sealing config passphrase).serve
        (Draws.sealing config passphrase).guard
        (fun out _ => ∀ m, out.2 = some m → Uses config m) state := by
      refine (wp_opening config).mpr (Op.wp_mono (sealed_new enabled key state) ?_ ?_)
      · rintro _ _ _ uses _ ⟨⟩
        exact uses
      · exact fun _ _ _ _ => Manager.unopened
    cases s with
    | none =>
      cases q with
      | new => exact opens
      | _ => trivial
    | some m =>
      have hm := hs m rfl
      cases q with
      | new => exact opens
      | syncWal => exact sealed_method _ (sealed_syncWal enabled key) hm state
      | snapshot => exact sealed_method _ (sealed_snapshot enabled key) hm state
      | checkpoint => exact sealed_method _ (sealed_checkpoint enabled key) hm state
      | maybeSnapshot => exact sealed_method _ (sealed_maybeSnapshot enabled key) hm state
      | compact => exact sealed_method _ (sealed_compact enabled key _ _) hm state
      | enforceRetention =>
        have within : Op.Within (isNoPut · = true) (Uses config) (enforceRetention pf) :=
          within_enforceRetention noPut_deletes fun h => h
        exact sealed_method _ (sealed_within within) hm state
      | shutdown => exact sealed_method _ (sealed_shutdown enabled key) hm state

/-- With a key, all that is written is sealed under what was drawn for it, but for the marker. -/
theorem seals_objects : SealsObjects config passphrase where
  sealed := (sealing_accepts enabled key).permitted_always Call.answerable
    fun _ => Manager.unopened

end

theorem seals_objects_sealing : SealsObjects (sealedConfig (some ['p'])) ['p'] :=
  seals_objects rfl rfl

end Waloy.Spec
