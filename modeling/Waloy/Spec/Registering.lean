import Waloy.Spec.Births

/-!
# The register of generations

Every operation keeps the register of the generations that were started, whatever fails
in it: the manifests that a manager uploads are those of the generation it started last.
-/
namespace Waloy.Spec
open Waloy.Effect Waloy.Source Waloy.Source.BackupManager

/-- The environment beside an observer of the generations. -/
abbrev Env.registering {A : Type} (env : Env A) : Server Calls (World A × Births) :=
  env.serve.beside Births.record

variable {pf : Platform} (config : BackupConfig pf.build) {A : Type}

/-- Some generation that was started is the one of the manager. -/
def Started (m : BackupManager pf.build) (v : World A × Births) : Prop :=
  ∃ p, Heads config p m v

section
variable {config} {env : Env A} {α β : Type} {p : Str × Nat}
  {m m' : BackupManager pf.build} {v v' : World A × Births}

theorem Heads.keep (h : Heads config p m v) (hconfig : m'.config = m.config) (hs3 : m'.s3 = m.s3)
    (generation : m'.generation = m.generation)
    (created : m'.manifest.createdAtMs = m.manifest.createdAtMs) : Heads config p m' v where
  uses := ⟨hconfig.trans h.uses.1, hs3.trans h.uses.2⟩
  generation := generation.trans h.generation
  created := created.trans h.created
  started := h.started
  registered := h.registered

/-- An assignment to other fields. -/
theorem keeps_assign {f : BackupManager pf.build → BackupManager pf.build}
    (hf : ∀ m, (f m).config = m.config ∧ (f m).s3 = m.s3 ∧ (f m).generation = m.generation ∧
      (f m).manifest.createdAtMs = m.manifest.createdAtMs) :
    Op.Keeps env.registering (Heads config p) (modify f : Method pf PUnit) := by
  refine Op.keeps_modify fun m _ h => ?_
  obtain ⟨hconfig, hs3, generation, created⟩ := hf m
  exact h.keep hconfig hs3 generation created

/-- An operation that asks for other calls only and leaves the manager alone. -/
theorem keeps_of_within {x : Method pf α}
    (hx : ∀ m, Uses config m → Op.Within (fun c => isAside c = true) (· = m) x) :
    Op.Keeps env.registering (Heads config p) x := by
  intro m v h
  refine Op.wp_mono ((hx m h.uses).wp (J := fun v' => Registered config v' ∧ v'.2 = v.2)
    ?_ rfl ⟨h.registered, rfl⟩) ?_ ?_
  · rintro v₁ c reply v₂ ⟨registered, same⟩ aside served
    obtain ⟨registered', same'⟩ := registered.aside aside served
    exact ⟨trivial, registered', same'.trans same⟩
  · rintro value m' v' ⟨rfl, registered, same⟩
    exact ⟨h.uses, h.generation, h.created, same ▸ h.started, registered⟩
  · rintro e m' v' ⟨rfl, registered, same⟩
    exact ⟨h.uses, h.generation, h.created, same ▸ h.started, registered⟩

variable (config) in
theorem permits_aside : PermitsDeletes config fun c => isAside c = true where
  quiet c h := by
    cases c with
    | newUuid | putObject => cases h
    | _ => rfl
  time := rfl
  get _ := rfl
  list _ := rfl
  delete _ := rfl

theorem keeps_outside {c : Call} (aside : isAside c = true) :
    Op.Keeps env.registering (Heads config p) (call c) :=
  keeps_of_within fun _ _ => Op.within_call aside

theorem keeps_nowMs : Op.Keeps env.registering (Heads config p) nowMs :=
  keeps_of_within fun _ _ => within_nowMs (permits_aside config).toPermitsLocal

/-- What an encoding leads to may be used afterwards. -/
theorem keeps_encoded {data : Bytes} {f : Bytes → Method pf β}
    (hf : ∀ encoded, Encodes pf config data encoded →
      Op.Keeps env.registering (Heads config p) (f encoded)) :
    Op.Keeps env.registering (Heads config p) (pipelineEncode pf config data >>= f) := by
  intro m v h
  rw [Op.wp_bind]
  refine wp_pipelineEncode_of config (J := Heads config p m) ?_ h ?_ ?_
  · intro v₁ n bytes v₂ h₁ served
    obtain ⟨registered, same⟩ := h₁.registered.aside rfl served
    obtain ⟨⟨a, -, -, length, -⟩, -⟩ := served
    exact ⟨trivial, length, h₁.uses, h₁.generation, h₁.created, same ▸ h₁.started, registered⟩
  · exact fun encoded v' h' encodes => hf encoded encodes m v' h'
  · exact fun _ _ h' _ => h'

section
variable (decodes : ∀ w c reply, env.allows w c reply → decodesWell config c)
  (parses : Parses pf.libs)
include decodes parses

/-- An object of the generation is put; a manifest tells when the generation was started. -/
theorem keeps_putObject {o : Object} {data : Bytes}
    (owner : ∀ own, ownerOf o = some own → own = p.1)
    (tells : o = .manifest p.1 → ∃ manifest json, pf.libs.jsonToVec manifest = .ok json ∧
      Encodes pf config json data ∧ manifest.createdAtMs = p.2) :
    Op.Keeps env.registering (Heads config p) ((S3Client.new config.s3).putObject o.key data) := by
  refine keeps_retry (fun _ => keeps_outside rfl) (keeps_orFail (Op.keeps_call ?_))
  intro m v reply v' h served
  have plain : '/' ∉ p.1 := (h.registered.recorded _ _ h.started).tidy.1
  have truthful : ∀ generation t, o = .manifest generation →
      v.2.started.lookup generation = some t →
      ∃ manifest, decodeManifest pf data config = .ok manifest ∧ manifest.createdAtMs = t := by
    rintro generation t rfl started
    obtain rfl := owner generation rfl
    obtain rfl := Option.some.inj (started.symm.trans h.started)
    obtain ⟨manifest, json, written, encodes, created⟩ := tells rfl
    obtain ⟨⟨a, -, allowed, -⟩, -⟩ := served
    have decoded := decodes _ _ _ allowed (mt (objectKey_inj config).mp nofun) json encodes
    exact ⟨manifest, decodeManifest_of_decode decoded (parses _ _ written), created⟩
  obtain ⟨registered, same⟩ :=
    h.registered.put (fun own ho => owner own ho ▸ plain) truthful served
  exact ⟨h.uses, h.generation, h.created, same ▸ h.started, registered⟩

theorem keeps_uploadManifest : Op.Keeps env.registering (Heads config p) (uploadManifest pf) := by
  refine Op.keeps_get fun self v h => Op.keeps_ofExcept_bind fun json written => ?_
  rw [h.uses.1, h.uses.2, h.generation]
  refine keeps_encoded fun encoded encodes => ?_
  refine keeps_putObject decodes parses (fun own owner => (Option.some.inj owner).symm) fun _ => ?_
  refine ⟨self.manifest, json, ?_, encodes, h.created⟩
  cases result : pf.libs.jsonToVec self.manifest with
  | ok json' =>
    rw [result] at written
    cases written
    rfl
  | error e =>
    rw [result] at written
    cases written

theorem keeps_snapshot : Op.Keeps env.registering (Heads config p) (snapshot pf) := by
  refine Op.keeps_get fun self v h => ?_
  rw [h.uses.1, h.uses.2, h.generation]
  refine (keeps_orFail (keeps_outside rfl)).bind fun rawData => ?_
  refine keeps_encoded fun encoded _ => ?_
  refine (keeps_putObject decodes parses (o := .snapshot p.1)
    (fun own owner => (Option.some.inj owner).symm) nofun).bind fun _ => ?_
  refine (keeps_putObject decodes parses (o := .latest) nofun nofun).bind fun _ => ?_
  refine Op.Keeps.bind (keeps_assign fun _ => ⟨rfl, rfl, rfl, rfl⟩) fun _ => ?_
  refine (keeps_outside rfl).bind fun _ => ?_
  refine Op.Keeps.bind (keeps_assign fun _ => ⟨rfl, rfl, rfl, rfl⟩) fun _ => ?_
  refine (keeps_outside rfl).bind fun _ => ?_
  refine Op.Keeps.bind (keeps_assign fun _ => ⟨rfl, rfl, rfl, rfl⟩) fun _ => ?_
  refine keeps_nowMs.bind fun now => ?_
  refine Op.Keeps.bind (keeps_assign fun _ => ⟨rfl, rfl, rfl, rfl⟩) fun _ => ?_
  exact keeps_uploadManifest decodes parses

theorem keeps_uploadSegment (walData : Bytes) (alignedLen : Nat) :
    Op.Keeps env.registering (Heads config p) (uploadSegment pf walData alignedLen) := by
  refine Op.keeps_get fun self v h => ?_
  rw [h.uses.1, h.uses.2, h.generation]
  refine (Op.keeps_ofOption _).bind fun newData => ?_
  refine keeps_encoded fun encoded _ => ?_
  refine (keeps_putObject decodes parses (o := .segment p.1 self.walIndex)
    (fun own owner => (Option.some.inj owner).symm) nofun).bind fun _ => ?_
  refine keeps_nowMs.bind fun now => ?_
  refine Op.Keeps.bind (keeps_assign fun _ => ⟨rfl, rfl, rfl, rfl⟩) fun _ => ?_
  refine (keeps_uploadManifest decodes parses).bind fun _ => ?_
  refine (keeps_outside rfl).bind fun _ => ?_
  refine Op.Keeps.bind (keeps_assign fun _ => ⟨rfl, rfl, rfl, rfl⟩) fun _ => ?_
  refine (Op.keeps_ofOption _).bind fun _ => ?_
  exact keeps_assign fun _ => ⟨rfl, rfl, rfl, rfl⟩

theorem keeps_uploadChunks {self : BackupManager pf.build} (hself : Uses config self)
    (own : self.generation = p.1) (allData : Bytes) (maxSize fuel offset newIndex : Nat) :
    Op.Keeps env.registering (Heads config p)
      (uploadChunks pf self allData maxSize fuel offset newIndex) := by
  induction fuel generalizing offset newIndex with
  | zero =>
    unfold uploadChunks
    exact Op.Keeps.ite (fun _ => Op.keeps_halt) fun _ => Op.keeps_pure _
  | succ fuel ih =>
    unfold uploadChunks
    refine Op.Keeps.ite (fun _ => ?_) fun _ => Op.keeps_pure _
    rw [hself.1, hself.2, own]
    refine keeps_encoded fun encoded _ => ?_
    have segment : Object.segment p.1 newIndex ≠ .manifest p.1 := by simp
    refine (keeps_putObject decodes parses (o := .segment p.1 newIndex)
      (fun own owner => (Option.some.inj owner).symm) fun same => absurd same segment).bind fun _ => ?_
    refine keeps_nowMs.bind fun now => ?_
    refine (Op.keeps_ofOption _).bind fun next => ?_
    exact (ih _ _).bind fun _ => Op.keeps_pure _

theorem keeps_compact (maxSegmentSize : Option Nat) (fuel : Nat) :
    Op.Keeps env.registering (Heads config p) (compact pf maxSegmentSize fuel) := by
  refine Op.keeps_get fun self v h => Op.Keeps.ite (fun _ => Op.keeps_pure _) fun _ => ?_
  refine Op.Keeps.bind (keeps_of_within fun _ _ => within_downloadSegments (permits_aside config) _)
    fun allData => ?_
  refine (keeps_uploadChunks decodes parses h.uses h.generation _ _ _ _ _).bind fun chunks => ?_
  refine Op.Keeps.bind (keeps_assign fun _ => ⟨rfl, rfl, rfl, rfl⟩) fun _ => ?_
  refine (keeps_uploadManifest decodes parses).bind fun _ => ?_
  refine Op.Keeps.bind (keeps_assign fun _ => ⟨rfl, rfl, rfl, rfl⟩) fun _ => ?_
  rw [h.uses.2]
  exact Op.Keeps.bind (keeps_of_within fun _ _ => within_deleteObjects (permits_aside config) _)
    fun _ => Op.keeps_pure _

end

theorem keeps_beginReadTransaction :
    Op.Keeps env.registering (Heads config p) (beginReadTransaction pf) := by
  refine Op.keeps_get fun self v _ => Op.Keeps.ite (fun _ => Op.keeps_pure _) fun _ => ?_
  refine (keeps_orFail (keeps_outside rfl)).bind fun _ => ?_
  refine (keeps_orFail (keeps_outside rfl)).bind fun _ => ?_
  exact keeps_assign fun _ => ⟨rfl, rfl, rfl, rfl⟩

theorem keeps_endReadTransaction :
    Op.Keeps env.registering (Heads config p) (endReadTransaction pf) := by
  refine Op.keeps_get fun self v _ => Op.Keeps.ite (fun _ => ?_) fun _ => Op.keeps_pure _
  refine (keeps_outside rfl).bind fun _ => ?_
  exact keeps_assign fun _ => ⟨rfl, rfl, rfl, rfl⟩

theorem keeps_enforceRetention :
    Op.Keeps env.registering (Heads config p) (enforceRetention pf) :=
  keeps_of_within fun _ uses => within_enforceRetention (permits_aside config) fun same => same ▸ uses

/-- The clock is read for an id that was drawn. -/
theorem Drawn.wp_nowMs {σ : Type} {s : σ} {generation : Str} (drawn : Drawn config generation v)
    {ok : Nat → σ → World A × Births → Prop} {err : Error → σ → World A × Births → Prop}
    (hok : ∀ t v', Registered config v' → v'.2.started.lookup generation = some t → ok t s v') :
    Op.wp env.registering (fun _ _ _ _ => True) nowMs ok err s v := by
  unfold nowMs
  rw [Op.wp_bind]
  intro reply v' read
  obtain ⟨registered, started⟩ := drawn.create read
  refine ⟨trivial, ?_⟩
  cases reply with
  | ok ms => exact hok _ v' registered started
  | error e => exact hok _ v' registered started

/-- Some generation was started before, and the new one is started now. -/
theorem keeps_startGeneration :
    Op.Keeps env.registering (Started config) (startGeneration pf) := by
  rintro m v ⟨p, h⟩
  simp only [startGeneration, Op.wp_bind, Op.wp_modify]
  refine Op.wp_call.mpr fun generation v₁ drew => ⟨trivial, ?_⟩
  refine (h.registered.draw drew).wp_nowMs fun t v₂ registered started => ?_
  exact ⟨(generation, t), h.uses, rfl, rfl, started, registered⟩

section
variable (decodes : ∀ w c reply, env.allows w c reply → decodesWell config c)
  (parses : Parses pf.libs)
include decodes parses

theorem keeps_recover : Op.Keeps env.registering (Started config) (recover pf) := by
  refine (Op.keeps_exists fun p => keeps_endReadTransaction).bind fun _ => ?_
  refine keeps_startGeneration.bind fun _ => ?_
  refine (Op.keeps_exists fun p => keeps_snapshot decodes parses).bind fun _ => ?_
  exact Op.keeps_exists fun p => keeps_beginReadTransaction

theorem keeps_syncWal : Op.Keeps env.registering (Started config) (syncWal pf) := by
  have outside : ∀ {c : Call}, isAside c = true →
      Op.Keeps env.registering (Started config) (call c : Method pf c.Reply) := fun aside =>
    Op.keeps_exists fun p => keeps_outside aside
  refine Op.keeps_get fun self v _ => ?_
  refine (outside rfl).bind fun found => ?_
  refine Op.Keeps.ite (fun _ => Op.keeps_pure _) fun _ => ?_
  refine (keeps_orFail (outside rfl)).bind fun walData => ?_
  refine Op.Keeps.ite (fun _ => Op.keeps_pure _) fun _ => Op.Keeps.ite (fun _ => ?_) fun _ => ?_
  · exact (keeps_recover decodes parses).bind fun _ => Op.keeps_pure _
  refine Op.Keeps.bind (Op.keeps_modify ?_) fun _ => ?_
  · rintro m w ⟨p, h⟩
    unfold captureSalt
    split
    · exact ⟨p, h.keep rfl rfl rfl rfl⟩
    · exact ⟨p, h⟩
  refine Op.Keeps.ite (fun _ => Op.keeps_pure _) fun _ => ?_
  refine Op.Keeps.bind (Op.keeps_exists fun p => ?_) fun _ => Op.keeps_pure _
  exact keeps_uploadSegment decodes parses walData _

theorem keeps_checkpoint : Op.Keeps env.registering (Started config) (checkpoint pf) := by
  refine (keeps_syncWal decodes parses).bind fun _ => ?_
  refine (Op.keeps_exists fun p => keeps_endReadTransaction).bind fun _ => ?_
  refine Op.keeps_get fun self v _ => ?_
  refine (Op.keeps_exists fun p => keeps_orFail (keeps_outside rfl)).bind fun _ => ?_
  refine keeps_startGeneration.bind fun _ => ?_
  refine (Op.keeps_exists fun p => keeps_snapshot decodes parses).attempt.bind fun _ => ?_
  exact (Op.keeps_exists fun p => keeps_beginReadTransaction).bind fun _ => Op.keeps_ofExcept _

theorem keeps_maybeSnapshot : Op.Keeps env.registering (Started config) (maybeSnapshot pf) := by
  refine Op.keeps_get fun self v _ => ?_
  cases self.config.snapshotInterval with
  | none => exact Op.keeps_pure _
  | some interval =>
    refine (Op.keeps_exists fun p => keeps_outside rfl).bind fun now => ?_
    refine Op.Keeps.ite (fun _ => ?_) fun _ => Op.keeps_pure _
    exact (keeps_checkpoint decodes parses).bind fun _ => Op.keeps_pure _

theorem keeps_shutdown : Op.Keeps env.registering (Started config) (shutdown pf) := by
  have ends : Op.Keeps env.registering (Started config) (do
      endReadTransaction pf
      modify fun self => { self with shutdownComplete := true }) :=
    Op.keeps_exists fun p => keeps_endReadTransaction.bind fun _ =>
      keeps_assign fun _ => ⟨rfl, rfl, rfl, rfl⟩
  refine Op.keeps_get fun self v _ => Op.Keeps.ite (fun _ => Op.keeps_pure _) fun _ => ?_
  refine (keeps_syncWal decodes parses).attempt.bind fun result => ?_
  cases result with
  | ok => exact ends
  | error e =>
    refine Op.Keeps.bind (Op.keeps_exists fun p => ?_) fun _ => ends
    exact keeps_assign fun _ => ⟨rfl, rfl, rfl, rfl⟩

theorem keeps_firstSnapshot : Op.Keeps env.registering (Started config) (firstSnapshot pf) := by
  refine (Op.keeps_exists fun p => keeps_snapshot decodes parses).attempt.bind ?_
  rintro (e | _)
  · exact (Op.keeps_exists fun p => keeps_endReadTransaction).bind fun _ => Op.keeps_throw _
  · exact Op.keeps_pure _

omit decodes parses in
/-- Before there is a manager. -/
theorem keeps_unopened {x : M Unit α} (hx : Op.Within (fun c => isAside c = true) (fun _ => True) x) :
    Op.Keeps env.registering (fun (_ : Unit) v => Registered config v) x := by
  intro s v h
  refine Op.wp_mono (Op.Within.keeps (J := Registered config) ?_ hx s v ⟨trivial, h⟩)
    (fun _ _ _ h => h.2) fun _ _ _ h => h.2
  exact fun v c reply v' registered aside served => (registered.aside aside served).1

omit decodes parses in
theorem keeps_restoreFirst :
    Op.Keeps env.registering (fun (_ : Unit) v => Registered config v) (restoreFirst config) := by
  have fetches : ∀ c, isFetchCall c = true → isAside c = true := by
    intro c fetch
    cases c with
    | newUuid | putObject => cases fetch
    | _ => rfl
  have replays : ∀ c, isReplayCall c = true → isAside c = true := by
    intro c replay
    cases c with
    | newUuid | putObject => cases replay
    | _ => rfl
  refine keeps_unopened (Op.Within.ite (fun _ => ?_) fun _ => Op.within_pure _)
  refine Op.Within.bind (Op.within_call rfl) fun found => ?_
  refine Op.Within.ite (fun _ => ?_) fun _ => Op.within_pure _
  exact (uses_restoreLatest config fetches replays _ _).within

/-- A manager that is opened has started its generation. -/
theorem wp_new_registering (registered : Registered config v) :
    Op.wp env.registering (fun _ _ _ _ => True) (new pf config)
      (fun m _ v' => Started config m v') (fun _ _ v' => Registered config v') () v := by
  have outside : ∀ {c : Call}, isAside c = true →
      Op.Keeps env.registering (fun (_ : Unit) v => Registered config v) (call c) :=
    fun aside => keeps_unopened (Op.within_call aside)
  have fails : ∀ (_ : Error) (_ : Unit) (v' : World A × Births), Registered config v' →
      Registered config v' := fun _ _ _ h => h
  rw [new_eq]
  refine keeps_restoreFirst.next registered (fun _ _ v₁ h₁ => ?_) fails
  refine (keeps_orFail (outside rfl)).next h₁ (fun readConn _ v₂ h₂ => ?_) fails
  refine (keeps_orFail (outside rfl)).next h₂ (fun _ _ v₃ h₃ => ?_) fails
  refine (keeps_orFail (outside rfl)).next h₃ (fun _ _ v₄ h₄ => ?_) fails
  refine (keeps_orFail (outside rfl)).next h₄ (fun _ _ v₅ h₅ => ?_) fails
  simp only [Op.wp_bind]
  refine Op.wp_call.mpr fun generation v₆ drew => ⟨trivial, ?_⟩
  refine (h₅.draw drew).wp_nowMs fun ts v₇ h₇ started => ?_
  refine Op.wp_call.mpr fun now v₈ served => ⟨trivial, ?_⟩
  obtain ⟨h₈, same⟩ := h₇.aside rfl served
  rw [Op.wp_runOn]
  refine Op.wp_mono (keeps_firstSnapshot decodes parses _ v₈ ?_) (fun _ _ _ h => h) ?_
  · exact ⟨(generation, ts), ⟨rfl, rfl⟩, rfl, rfl, same ▸ started, h₈⟩
  · rintro e m' v' ⟨p, h⟩
    exact h.registered

end

end

/-- What a process keeps between its operations. -/
def Keeping (s : Manager pf) (v : World A × Births) : Prop :=
  Registered config v ∧ ∀ m, s = some m → Started config m v

/-- Every operation of a process keeps the register. -/
theorem wp_body_registering {env : Env A}
    (decodes : ∀ w c reply, env.allows w c reply → decodesWell config c)
    (parses : Parses pf.libs) (q : Request) (s : Manager pf) (v : World A × Births)
    (h : Keeping config s v) :
    ((process config).body q s).wp env.registering (fun _ _ _ _ => True)
      (fun out v' => Keeping config out.2 v') v := by
  have opens : (opening config).wp env.registering (fun _ _ _ _ => True)
      (fun out v' => Keeping config out.2 v') v := by
    refine (wp_opening config).mpr (Op.wp_mono (wp_new_registering decodes parses h.1) ?_ ?_)
    · rintro m - v' ⟨p, heads⟩
      exact ⟨heads.registered, fun _ same => ⟨p, Option.some.inj same ▸ heads⟩⟩
    · intro e _ v' registered
      exact ⟨registered, Manager.unopened⟩
  have calls : ∀ {α : Type} (answer : α → Answer) (x : Method pf α) (m : BackupManager pf.build),
      s = some m → Op.Keeps env.registering (Started config) x →
      (method answer x m).wp env.registering (fun _ _ _ _ => True)
        (fun out v' => Keeping config out.2 v') v := by
    intro α answer x m same kept
    refine (wp_method answer x m).mpr (Op.wp_mono (kept m v (h.2 m same)) ?_ ?_)
    · rintro value m' v' ⟨p, heads⟩
      exact ⟨heads.registered, fun _ same' => ⟨p, Option.some.inj same' ▸ heads⟩⟩
    · rintro e m' v' ⟨p, heads⟩
      exact ⟨heads.registered, fun _ same' => ⟨p, Option.some.inj same' ▸ heads⟩⟩
  cases s with
  | none =>
    cases q with
    | new => exact opens
    | _ => trivial
  | some m =>
    cases q with
    | new => exact opens
    | syncWal => exact calls _ _ m rfl (keeps_syncWal decodes parses)
    | snapshot => exact calls _ _ m rfl (Op.keeps_exists fun p => keeps_snapshot decodes parses)
    | checkpoint => exact calls _ _ m rfl (keeps_checkpoint decodes parses)
    | maybeSnapshot => exact calls _ _ m rfl (keeps_maybeSnapshot decodes parses)
    | compact => exact calls _ _ m rfl (Op.keeps_exists fun p => keeps_compact decodes parses _ _)
    | enforceRetention => exact calls _ _ m rfl (Op.keeps_exists fun p => keeps_enforceRetention)
    | shutdown => exact calls _ _ m rfl (keeps_shutdown decodes parses)

end Waloy.Spec
