import Waloy.Effect.Automaton
import Waloy.Spec.Confined
import Waloy.Spec.Directory

/-!
# What a manager asks the bucket for

A manager that does not clean up asks for objects of the generations that it has drawn itself,
and writes the marker. It reads no other object and lists nothing, whatever it is answered.
-/
namespace Waloy.Spec
open Waloy.Effect Waloy.Source Waloy.Source.BackupManager

variable {pf : Platform} (config : BackupConfig pf.build)

/-- The keys of the objects of some generations. -/
def OwnKey (own : List Str) (key : Str) : Prop :=
  ∃ o generation, key = objectKey config o ∧ ownerOf o = some generation ∧ generation ∈ own

namespace Territory

/-- The ids that have been drawn. -/
def note (own : List Str) : (c : Call) → c.Reply → List Str
  | .newUuid, generation => generation :: own
  | _, _ => own

def Permits (own : List Str) : Call → Prop
  | .putObject key _ => key = objectKey config .latest ∨ OwnKey config own key
  | .getObject key => OwnKey config own key
  | .deleteObject key => OwnKey config own key
  | .list _ => False
  | _ => True

end Territory

/-- The calls that concern the generations a manager has drawn. -/
def territory : Automaton Calls (List Str) where
  note := Territory.note
  Permits := Territory.Permits config

/-- The open manager is in a generation that it has drawn. -/
def AtHome (s : Manager pf) (own : List Str) : Prop :=
  ∀ m, s = some m → Uses config m ∧ m.generation ∈ own

/-- Such calls, of which none draws an id. -/
def Settles (own : List Str) (c : Call) : Prop := Territory.Permits config own c ∧ c ≠ .newUuid

section
variable {config} {own drawn : List Str}

theorem OwnKey.mono {key : Str} (more : own ⊆ drawn) (owned : OwnKey config own key) :
    OwnKey config drawn key := by
  obtain ⟨o, generation, same, owner, among⟩ := owned
  exact ⟨o, generation, same, owner, more among⟩

theorem ownKey_object {o : Object} {generation : Str} (owner : ownerOf o = some generation)
    (among : generation ∈ own) : OwnKey config own (objectKey config o) :=
  ⟨o, generation, rfl, owner, among⟩

theorem Territory.Permits.mono {c : Call} (more : own ⊆ drawn)
    (permits : Territory.Permits config own c) : Territory.Permits config drawn c := by
  cases c with
  | putObject => exact permits.imp_right (OwnKey.mono more)
  | getObject | deleteObject => exact OwnKey.mono more permits
  | list => cases permits
  | _ => trivial

theorem Settles.note {c : Call} (settles : Settles config own c) (reply : c.Reply) :
    Territory.note drawn c reply = drawn := by
  cases c with
  | newUuid => exact absurd rfl settles.2
  | _ => rfl

theorem settles_local : PermitsLocal (Settles config own) where
  quiet c h := by
    cases c with
    | putObject | getObject | deleteObject | list | newUuid => cases h
    | _ => exact ⟨trivial, Call.noConfusion⟩
  time := ⟨trivial, Call.noConfusion⟩

theorem settles_batch (conn : Conn) (batch : Batch) :
    Settles config own (.executeBatch conn batch) := ⟨trivial, Call.noConfusion⟩

/-- The operations that ask for nothing else, where the manager has drawn its generation and
some others. -/
abbrev Roams (config : BackupConfig pf.build) (own : List Str) {α : Type} (x : Method pf α) :
    Prop :=
  Op.Secures (territory config).serve (territory config).guard
    (fun m drawn => (Uses config m ∧ m.generation ∈ drawn) ∧ own ⊆ drawn) x

theorem roams_within {α : Type} {x : Method pf α}
    (hx : ∀ m, Op.Within (Settles config own) (fun m' => m' = m) x) : Roams config own x := by
  rintro m drawn ⟨home, more⟩
  have step : ∀ (own' : List Str) (c : Call) (reply : c.Reply) own'', drawn = own' →
      Settles config own c → (territory config).serve own' c reply own'' →
      (territory config).guard own' c reply own'' ∧ drawn = own'' := by
    rintro _ c reply _ rfl settles rfl
    exact ⟨settles.1.mono more, (settles.note reply).symm⟩
  refine Op.wp_mono ((hx m).wp step rfl rfl) ?_ ?_
  · rintro _ _ _ ⟨rfl, rfl⟩
    exact ⟨home, more⟩
  · rintro _ _ _ ⟨rfl, rfl⟩
    exact ⟨home, more⟩

theorem roams_call {c : Call} (settles : Settles config own c) : Roams config own (call c) :=
  roams_within fun _ => Op.within_call settles

theorem roams_get {β : Type} {f : BackupManager pf.build → Method pf β}
    (hf : ∀ self, Uses config self → Roams config (self.generation :: own) (f self)) :
    Roams config own (get >>= f) := by
  rintro m drawn ⟨home, more⟩
  have among : m.generation :: own ⊆ drawn := List.cons_subset.mpr ⟨home.2, more⟩
  have weaker : ∀ m' drawn', (Uses config m' ∧ m'.generation ∈ drawn') ∧
      m.generation :: own ⊆ drawn' → (Uses config m' ∧ m'.generation ∈ drawn') ∧ own ⊆ drawn' :=
    fun _ _ h => ⟨h.1, (List.cons_subset.mp h.2).2⟩
  have here := Op.wp_mono (hf m home.1 m drawn ⟨home, among⟩) (fun _ => weaker) fun _ => weaker
  exact (Op.wp_bind get f).mpr (Op.wp_get.mpr here)

theorem roams_putObject {key : Str} {data : Bytes}
    (permitted : Settles config own (.putObject ((S3Client.new config.s3).fullKey key) data)) :
    Roams config own ((S3Client.new config.s3).putObject key data) :=
  roams_within fun _ => within_retry settles_local (within_orFail (Op.within_call permitted))

theorem settles_put {o : Object} {generation : Str} (owner : ownerOf o = some generation)
    (among : generation ∈ own) (data : Bytes) :
    Settles config own (.putObject (objectKey config o) data) :=
  ⟨.inr (ownKey_object owner among), Call.noConfusion⟩

theorem roams_put {o : Object} {generation : Str} (owner : ownerOf o = some generation)
    (among : generation ∈ own) (data : Bytes) :
    Roams config own ((S3Client.new config.s3).putObject o.key data) :=
  roams_putObject (settles_put owner among data)

theorem roams_mark (data : Bytes) :
    Roams config own ((S3Client.new config.s3).putObject Object.latest.key data) :=
  roams_putObject ⟨.inl rfl, Call.noConfusion⟩

theorem roams_pipelineEncode (data : Bytes) : Roams config own (pipelineEncode pf config data) :=
  roams_within fun _ => within_pipelineEncode settles_local data

theorem roams_nowMs : Roams config own nowMs := roams_within fun _ => within_nowMs settles_local

/-! The methods of a manager. -/

theorem roams_uploadManifest : Roams config own (uploadManifest pf) := by
  refine roams_get fun self hself => ?_
  refine (Op.secures_ofExcept _).bind fun json => ?_
  rw [hself.1, hself.2]
  refine (roams_pipelineEncode json).bind fun encoded => ?_
  exact roams_put rfl List.mem_cons_self encoded

theorem roams_snapshot : Roams config own (snapshot pf) := by
  refine roams_get fun self hself => ?_
  rw [hself.1, hself.2]
  have quiet : ∀ {c : Call}, isLocalCall c = true →
      Roams config (self.generation :: own) (call c) :=
    fun h => roams_call (settles_local.quiet _ h)
  refine (secures_orFail (quiet rfl)).bind fun rawData => ?_
  refine (roams_pipelineEncode rawData).bind fun data => ?_
  refine (roams_put rfl List.mem_cons_self data).bind fun _ => ?_
  refine (roams_mark _).bind fun _ => ?_
  refine Op.Secures.bind (Op.secures_modify fun _ _ h => h) fun _ => ?_
  refine (quiet rfl).bind fun _ => ?_
  refine Op.Secures.bind (Op.secures_modify fun _ _ h => h) fun _ => ?_
  refine (quiet rfl).bind fun _ => ?_
  refine Op.Secures.bind (Op.secures_modify fun _ _ h => h) fun _ => ?_
  refine roams_nowMs.bind fun now => ?_
  refine Op.Secures.bind (Op.secures_modify fun _ _ h => h) fun _ => ?_
  exact roams_uploadManifest

theorem roams_beginReadTransaction : Roams config own (beginReadTransaction pf) := by
  refine roams_get fun self _ => Op.Secures.ite (fun _ => Op.secures_pure _) fun _ => ?_
  refine (secures_orFail (roams_call (settles_batch _ _))).bind fun _ => ?_
  refine (secures_orFail (roams_call (settles_local.quiet _ rfl))).bind fun _ => ?_
  exact Op.secures_modify fun _ _ h => h

theorem roams_endReadTransaction : Roams config own (endReadTransaction pf) := by
  refine roams_get fun self _ => Op.Secures.ite (fun _ => ?_) fun _ => Op.secures_pure _
  refine (roams_call (settles_batch _ _)).bind fun _ => ?_
  exact Op.secures_modify fun _ _ h => h

/-- The new generation is drawn before the manager is in it. -/
theorem roams_startGeneration : Roams config own (startGeneration pf) := by
  rintro m drawn ⟨home, more⟩
  refine (Op.wp_bind _ _).mpr (Op.wp_call.mpr ?_)
  rintro generation _ rfl
  refine ⟨trivial, ?_⟩
  have moves : Roams config (generation :: own) (do
      let now ← nowMs
      modify fun self =>
        { self with
          manifest := GenerationManifest.new generation now
          stats := self.stats.recordNewGeneration } : Method pf PUnit) :=
    roams_nowMs.bind fun _ => Op.secures_modify fun _ _ h => h
  have weaker : ∀ m' drawn', (Uses config m' ∧ m'.generation ∈ drawn') ∧
      generation :: own ⊆ drawn' → (Uses config m' ∧ m'.generation ∈ drawn') ∧ own ⊆ drawn' :=
    fun _ _ h => ⟨h.1, (List.cons_subset.mp h.2).2⟩
  have here := moves { m with generation := generation } (generation :: drawn)
    ⟨⟨home.1, List.mem_cons_self⟩, List.cons_subset_cons _ more⟩
  refine (Op.wp_bind _ _).mpr ((Op.wp_modify _).mpr ?_)
  exact Op.wp_mono here (fun _ => weaker) fun _ => weaker

theorem roams_recover : Roams config own (recover pf) := by
  refine roams_endReadTransaction.bind fun _ => roams_startGeneration.bind fun _ => ?_
  exact roams_snapshot.bind fun _ => roams_beginReadTransaction

theorem roams_uploadSegment (walData : Bytes) (alignedLen : Nat) :
    Roams config own (uploadSegment pf walData alignedLen) := by
  refine roams_get fun self hself => ?_
  rw [hself.1, hself.2]
  refine (Op.secures_ofOption _).bind fun newData => ?_
  refine (roams_pipelineEncode newData).bind fun encoded => ?_
  refine (roams_put rfl List.mem_cons_self encoded).bind fun _ => ?_
  refine roams_nowMs.bind fun now => ?_
  refine Op.Secures.bind (Op.secures_modify fun _ _ h => h) fun _ => ?_
  refine roams_uploadManifest.bind fun _ => ?_
  refine (roams_call (settles_local.quiet _ rfl)).bind fun _ => ?_
  refine Op.Secures.bind (Op.secures_modify fun _ _ h => h) fun _ => ?_
  refine (Op.secures_ofOption _).bind fun _ => ?_
  exact Op.secures_modify fun _ _ h => h

theorem roams_captureSalt (walData : Bytes) :
    Roams config own (modify fun self => self.captureSalt pf walData) := by
  refine Op.secures_modify fun m _ h => ?_
  unfold captureSalt
  split
  · exact h
  · exact h

theorem roams_syncWal : Roams config own (syncWal pf) := by
  have quiet : ∀ {own : List Str} {c : Call}, isLocalCall c = true →
      Roams config own (call c) := fun h => roams_call (settles_local.quiet _ h)
  refine roams_get fun self hself => ?_
  refine (quiet rfl).bind fun found => Op.Secures.ite (fun _ => Op.secures_pure _) fun _ => ?_
  refine (secures_orFail (quiet rfl)).bind fun walData => ?_
  refine Op.Secures.ite (fun _ => Op.secures_pure _) fun _ =>
    Op.Secures.ite (fun _ => ?_) fun _ => ?_
  · exact roams_recover.bind fun _ => Op.secures_pure _
  · refine (roams_captureSalt walData).bind fun _ => ?_
    refine Op.Secures.ite (fun _ => Op.secures_pure _) fun _ => ?_
    exact (roams_uploadSegment walData _).bind fun _ => Op.secures_pure _

theorem roams_checkpoint : Roams config own (checkpoint pf) := by
  refine roams_syncWal.bind fun _ => roams_endReadTransaction.bind fun _ => ?_
  refine roams_get fun self _ => ?_
  refine (secures_orFail (roams_call (settles_batch _ _))).bind fun _ => ?_
  refine roams_startGeneration.bind fun _ => roams_snapshot.attempt.bind fun snapshotResult => ?_
  exact roams_beginReadTransaction.bind fun _ => Op.secures_ofExcept _

theorem roams_maybeSnapshot : Roams config own (maybeSnapshot pf) := by
  refine roams_get fun self _ => ?_
  cases self.config.snapshotInterval with
  | none => exact Op.secures_pure _
  | some interval =>
    refine (roams_call (settles_local.quiet _ rfl)).bind fun now => ?_
    refine Op.Secures.ite (fun _ => ?_) fun _ => Op.secures_pure _
    exact roams_checkpoint.bind fun _ => Op.secures_pure _

theorem roams_shutdown : Roams config own (shutdown pf) := by
  have ends : ∀ {own : List Str}, Roams config own (do
      endReadTransaction pf
      modify fun self => { self with shutdownComplete := true }) :=
    roams_endReadTransaction.bind fun _ => Op.secures_modify fun _ _ h => h
  refine roams_get fun self _ => Op.Secures.ite (fun _ => Op.secures_pure _) fun _ => ?_
  refine roams_syncWal.attempt.bind fun result => ?_
  cases result with
  | ok => exact ends
  | error e => exact Op.Secures.bind (Op.secures_modify fun _ _ h => h) fun _ => ends

theorem roams_downloadSegments {self : BackupManager pf.build} (uses : Uses config self)
    {keys : List Str}
    (owned : ∀ key ∈ keys, OwnKey config own ((S3Client.new config.s3).fullKey key)) :
    Roams config own (downloadSegments pf self keys) := by
  induction keys with
  | nil => exact Op.secures_pure _
  | cons key keys ih =>
    unfold downloadSegments
    rw [uses.2]
    have gets : Settles config own (.getObject ((S3Client.new config.s3).fullKey key)) :=
      ⟨owned key List.mem_cons_self, Call.noConfusion⟩
    have downloads : Roams config own ((S3Client.new config.s3).getObject key) :=
      roams_within fun _ => within_retry settles_local (within_orFail (Op.within_call gets))
    refine downloads.bind fun _ => (Op.secures_ofExcept _).bind fun _ => ?_
    exact (ih fun key member => owned key (List.mem_cons_of_mem _ member)).bind fun _ =>
      Op.secures_pure _

theorem roams_uploadChunks {self : BackupManager pf.build} (uses : Uses config self)
    (among : self.generation ∈ own) (allData : Bytes) (maxSize fuel offset newIndex : Nat) :
    Roams config own (uploadChunks pf self allData maxSize fuel offset newIndex) := by
  induction fuel generalizing offset newIndex with
  | zero =>
    unfold uploadChunks
    exact Op.Secures.ite (fun _ => Op.secures_halt) fun _ => Op.secures_pure _
  | succ fuel ih =>
    unfold uploadChunks
    refine Op.Secures.ite (fun _ => ?_) fun _ => Op.secures_pure _
    rw [uses.1, uses.2]
    refine (roams_pipelineEncode _).bind fun encoded => ?_
    refine (roams_put rfl among encoded).bind fun _ => roams_nowMs.bind fun now => ?_
    exact (Op.secures_ofOption _).bind fun next => (ih _ _).bind fun _ => Op.secures_pure _

theorem roams_deleteObjects {keys : List Str}
    (owned : ∀ key ∈ keys, OwnKey config own ((S3Client.new config.s3).fullKey key)) :
    Roams config own ((S3Client.new config.s3).deleteObjects keys) := by
  induction keys with
  | nil => exact Op.secures_pure _
  | cons key keys ih =>
    have deletes : Settles config own (.deleteObject ((S3Client.new config.s3).fullKey key)) :=
      ⟨owned key List.mem_cons_self, Call.noConfusion⟩
    have first : Roams config own ((S3Client.new config.s3).deleteObject key) :=
      roams_within fun _ => within_retry settles_local (within_orFail (Op.within_call deletes))
    exact first.bind fun _ => ih fun key member => owned key (List.mem_cons_of_mem _ member)

theorem roams_compact (maxSegmentSize : Option Nat) (fuel : Nat) :
    Roams config own (compact pf maxSegmentSize fuel) := by
  refine roams_get fun self uses => Op.Secures.ite (fun _ => Op.secures_pure _) fun _ => ?_
  have owned : ∀ key ∈ self.manifest.segments.map fun s =>
      (Object.segment self.generation s.index).key,
      OwnKey config (self.generation :: own) ((S3Client.new config.s3).fullKey key) := by
    intro key member
    obtain ⟨s, -, rfl⟩ := List.mem_map.mp member
    exact ownKey_object rfl List.mem_cons_self
  refine (roams_downloadSegments uses owned).bind fun allData => ?_
  refine (roams_uploadChunks uses List.mem_cons_self allData _ _ _ _).bind fun chunks => ?_
  refine Op.Secures.bind (Op.secures_modify fun _ _ h => h) fun _ => ?_
  refine roams_uploadManifest.bind fun _ => ?_
  refine Op.Secures.bind (Op.secures_modify fun _ _ h => h) fun _ => ?_
  rw [uses.2]
  exact (roams_deleteObjects owned).bind fun _ => Op.secures_pure _

theorem roams_firstSnapshot : Roams config own (firstSnapshot pf) := by
  refine roams_snapshot.attempt.bind ?_
  rintro (e | _)
  · exact roams_endReadTransaction.bind fun _ => Op.secures_throw _
  · exact Op.secures_pure _

variable {σ : Type} {s : σ}

theorem roaming_call {c : Call} (settles : Settles config own c)
    {ok : c.Reply → σ → List Str → Prop} {err : Error → σ → List Str → Prop}
    (hok : ∀ reply, ok reply s own) :
    Op.wp (territory config).serve (territory config).guard (call c) ok err s own := by
  refine Op.wp_call.mpr fun reply own' noted => ?_
  obtain rfl : own' = own := noted.trans (settles.note reply)
  exact ⟨settles.1, hok reply⟩

theorem roaming_nowMs {ok : Nat → σ → List Str → Prop} {err : Error → σ → List Str → Prop}
    (hok : ∀ now, ok now s own) :
    Op.wp (territory config).serve (territory config).guard nowMs ok err s own := by
  refine (Op.wp_bind _ _).mpr (roaming_call settles_local.time fun reply => ?_)
  cases reply with
  | ok ms => exact hok _
  | error e => exact hok _

/-- Opening a backup without a restore. -/
theorem roams_new (starts : config.autoRestore = false) (own : List Str) :
    Op.wp (territory config).serve (territory config).guard (new pf config)
      (fun m _ drawn => Uses config m ∧ m.generation ∈ drawn) (fun _ _ _ => True) () own := by
  have skips : restoreFirst config = pure () :=
    if_neg fun restores => Bool.false_ne_true (starts.symm.trans restores)
  rw [new_eq, skips]
  simp only [connect, Op.wp_bind, Op.wp_pure, wp_orFail, Op.wp_runOn]
  refine roaming_call (settles_local.quiet _ rfl) fun opened => ?_
  cases opened with
  | error e => trivial
  | ok readConn =>
    refine roaming_call (settles_batch _ _) fun configured => ?_
    cases configured with
    | error e => trivial
    | ok =>
      refine roaming_call (settles_batch _ _) fun begun => ?_
      cases begun with
      | error e => trivial
      | ok =>
        refine roaming_call (settles_local.quiet _ rfl) fun queried => ?_
        cases queried with
        | error e => trivial
        | ok =>
          refine Op.wp_call.mpr ?_
          rintro generation _ rfl
          refine ⟨trivial, roaming_nowMs fun ts => ?_⟩
          refine roaming_call (settles_local.quiet _ rfl) fun now => ?_
          have first : Roams config [] (firstSnapshot pf) := roams_firstSnapshot
          refine Op.wp_mono (first _ _ ?_) (fun _ _ _ h => h.1) fun _ _ _ _ => trivial
          exact ⟨⟨⟨rfl, rfl⟩, List.mem_cons_self⟩, List.nil_subset _⟩

theorem roams_method {α : Type} {x : Method pf α} (answer : α → Answer)
    (hx : Roams config [] x) {m : BackupManager pf.build}
    (home : Uses config m ∧ m.generation ∈ own) :
    (method answer x m).wp (territory config).serve (territory config).guard
      (fun out drawn => AtHome config out.2 drawn) own := by
  refine (wp_method answer x m).mpr (Op.wp_mono (hx m own ⟨home, List.nil_subset _⟩) ?_ ?_)
  · rintro _ _ _ ⟨home, -⟩ _ ⟨⟩
    exact home
  · rintro _ _ _ ⟨home, -⟩ _ ⟨⟩
    exact home

/-- A manager that neither restores nor cleans up keeps to its own generations. -/
theorem territory_accepts (starts : config.autoRestore = false) :
    (territory config).Accepts (process config) (AtHome config) (· ≠ .enforceRetention) where
  body := by
    intro q s own asked home
    have opens : (opening config).wp (territory config).serve (territory config).guard
        (fun out drawn => AtHome config out.2 drawn) own := by
      refine (wp_opening config).mpr (Op.wp_mono (roams_new starts own) ?_ ?_)
      · rintro _ _ _ home _ ⟨⟩
        exact home
      · exact fun _ _ _ _ => Manager.unopened
    cases s with
    | none =>
      cases q with
      | new => exact opens
      | _ => trivial
    | some m =>
      have home := home m rfl
      cases q with
      | new => exact opens
      | syncWal => exact roams_method _ roams_syncWal home
      | snapshot => exact roams_method _ roams_snapshot home
      | checkpoint => exact roams_method _ roams_checkpoint home
      | maybeSnapshot => exact roams_method _ roams_maybeSnapshot home
      | compact => exact roams_method _ (roams_compact _ _) home
      | enforceRetention => exact absurd rfl asked
      | shutdown => exact roams_method _ roams_shutdown home

end

end Waloy.Spec
