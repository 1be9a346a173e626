import Waloy.Spec.Deposits

/-!
# The operations tend their backup

A manager between two operations has its whole backup in the segments of its manifest, which
is the one that was put last, and the indices from its own on are free. An operation without a
failure keeps that, and every call on the way keeps its promise to the vault.
-/
namespace Waloy.Spec
open Waloy.Effect Waloy.Source Waloy.Source.BackupManager

variable {pf : Platform} (config : BackupConfig pf.build)

/-- The segments of the manager's manifest hold the whole backup of its generation. -/
structure Bears (m : BackupManager pf.build) (v : Vault) : Prop where
  uses : Uses config m
  drawn : m.generation ∈ v.deposits.drawn
  held : segmentsData config v.deposits.uploads m.generation m.manifest.segments =
    some (v.backup config m.generation)
  length : listedLength m.manifest.segments = (v.backup config m.generation).length

structure Tends (m : BackupManager pf.build) (v : Vault) : Prop extends Bears config m v where
  listed : manifestAt config v.deposits.uploads m.generation = some m.manifest
  free : ∀ index, m.walIndex ≤ index →
    object config v.deposits.uploads (.segment m.generation index) = none
  only : ∀ index, object config v.bucket (.segment m.generation index) ≠ none →
    ∃ s ∈ m.manifest.segments, s.index = index

/-- The manager tends its generation, and no other one is in disorder than the one that is
being cut. -/
def Tending (cut : Option Str) (m : BackupManager pf.build) (v : Vault) : Prop :=
  Tends config m v ∧ Intact config cut v

/-- A generation of which nothing was put yet. -/
structure Founds (m : BackupManager pf.build) (v : Vault) : Prop where
  uses : Uses config m
  drawn : m.generation ∈ v.deposits.drawn
  empty : m.manifest.segments = []
  absent : ∀ o, ownerOf o = some m.generation → object config v.deposits.uploads o = none
  backup : v.backup config m.generation = []

/-- The manifest of the manager is put, and its segments are as before. -/
structure Manifested (m : BackupManager pf.build) (v v' : Vault) : Prop extends Bears config m v' where
  listed : manifestAt config v'.deposits.uploads m.generation = some m.manifest
  uploads : ∀ index, object config v'.deposits.uploads (.segment m.generation index) =
    object config v.deposits.uploads (.segment m.generation index)
  bucket : ∀ index, object config v'.bucket (.segment m.generation index) ≠ none →
    object config v.bucket (.segment m.generation index) ≠ none

section
variable {config} {q : Request} {cut : Option Str} {m m' : BackupManager pf.build} {v v' : Vault}
  {o : Object}

theorem Bears.aside (bears : Bears config m v) (h : Aside config v v') : Bears config m v' where
  uses := bears.uses
  drawn := h.drawn bears.drawn
  held := by rw [h.uploads, h.backup, bears.held]
  length := by rw [h.backup, bears.length]

theorem Tends.aside (tends : Tends config m v) (h : Aside config v v') : Tends config m v' where
  toBears := tends.toBears.aside h
  listed := by rw [h.uploads, tends.listed]
  free index above := by rw [h.uploads, tends.free index above]
  only index present := tends.only index ((h.spared m.generation).bucket _ rfl present)

/-- Only the generation, the manifest and the index matter. -/
theorem Tends.keep (tends : Tends config m v) (uses : Uses config m')
    (generation : m'.generation = m.generation) (manifest : m'.manifest = m.manifest)
    (index : m'.walIndex = m.walIndex) : Tends config m' v where
  uses := uses
  drawn := generation ▸ tends.drawn
  held := by rw [generation, manifest, tends.held]
  length := by rw [generation, manifest, tends.length]
  listed := by rw [generation, manifest, tends.listed]
  free i above := by
    rw [generation]
    exact tends.free i (index ▸ above)
  only i present := by
    rw [generation] at present
    rw [manifest]
    exact tends.only i present

/-- The last manifest of the generation is the one of the manager. -/
theorem Tends.listed_eq (tends : Tends config m v) :
    v.listed config m.generation = m.manifest.segments := by
  unfold Vault.listed
  rw [tends.listed]
  rfl

theorem Tends.shows (tends : Tends config m v) : ShowsBackup config v m.generation := by
  intro index present
  rw [tends.listed_eq]
  exact .inl (tends.only index present)

/-- What a manager tends is in order. -/
theorem Tends.settles (tends : Tends config m v) (intact : Intact config (some m.generation) v) :
    Tending config none m v := by
  refine ⟨tends, intact.toSound, fun own _ => ?_⟩
  by_cases same : some m.generation = some own
  · obtain rfl := Option.some.inj same
    exact tends.shows
  · exact intact.shows own same

theorem Founds.aside (founds : Founds config m v) (h : Aside config v v') : Founds config m v' where
  uses := founds.uses
  drawn := h.drawn founds.drawn
  empty := founds.empty
  absent o owner := by rw [h.uploads, founds.absent o owner]
  backup := by rw [h.backup, founds.backup]

/-- The manifest of a manager that bears its backup gets through. -/
theorem wp_manifest_deposited (codec : Codec config) (bears : Bears config m v)
    (intact : Intact config cut v)
    (longer : listedLength (v.listed config m.generation) ≤ listedLength m.manifest.segments)
    (covers : cut ≠ some m.generation → ∀ index,
      object config v.bucket (.segment m.generation index) ≠ none →
      ∃ s ∈ m.manifest.segments, s.index = index) :
    Op.wp (vaultServer config q) (tended config cut) (uploadManifest pf)
      (fun _ m' v' => m' = m ∧ Manifested config m v v' ∧ Intact config cut v')
      (fun _ _ _ => False) m v := by
  obtain ⟨json, written⟩ := codec.serializes m.manifest
  simp only [uploadManifest, Op.wp_bind, Op.wp_get, Op.wp_ofExcept, bears.uses.1, bears.uses.2,
    written, Except.mapError]
  refine wp_sealed codec intact fun encoded v₁ passed encodes => ?_
  have bears₁ := bears.aside passed
  have parsed : (Object.manifest m.generation ≠ .latest →
      pipelineDecode pf encoded config = .ok json) →
      decodeManifest pf encoded config = .ok m.manifest := fun decodes =>
    decodeManifest_of_decode (decodes (by simp)) (codec.parses _ _ written)
  refine wp_deposited (o := .manifest m.generation) (passed.intact intact) (fun _ => encodes) ?_ ?_
  · intro decodes
    refine fits_manifest (parsed decodes) bears₁.drawn ?_ bears₁.held List.prefix_rfl bears₁.length ?_
    · rw [passed.listed]
      exact longer
    · intro outside index present
      exact covers outside index ((passed.spared m.generation).bucket _ rfl present)
  · intro decodes _ intact'
    have same : ∀ index, object config (v₁.put config q (.manifest m.generation) encoded).deposits.uploads
        (.segment m.generation index) =
        object config v₁.deposits.uploads (.segment m.generation index) := by simp
    refine ⟨rfl, ⟨⟨bears.uses, bears₁.drawn, ?_, ?_⟩, manifestAt_store (parsed decodes), ?_, ?_⟩, intact'⟩
    · rw [backup_put_other (by simp), ← bears₁.held]
      exact segmentsData_congr config fun s _ => same s.index
    · rw [backup_put_other (by simp)]
      exact bears₁.length
    · intro index
      rw [same, passed.uploads]
    · intro index present
      rw [object_put_bucket, if_neg (by simp)] at present
      exact (passed.spared m.generation).bucket _ rfl present

/-- A generation is founded by its snapshot. -/
theorem wp_snapshot_tended (codec : Codec config) (founds : Founds config m v)
    (intact : Intact config cut v) :
    Op.wp (vaultServer config q) (tended config cut) (snapshot pf)
      (fun _ m' v' => Tending config cut m' v') (fun _ _ _ => False) m v := by
  simp only [snapshot, Op.wp_bind, Op.wp_get, Op.wp_modify, founds.uses.1, founds.uses.2, wp_orFail]
  refine wp_passed rfl intact fun reply v₁ passed₁ served => ?_
  cases reply with
  | error e =>
    have other : m.config.dbPath ≠ config.dbPath := served.2.1
    exact absurd (congrArg BackupConfig.dbPath founds.uses.1) other
  | ok raw =>
  dsimp only
  refine wp_sealed codec (passed₁.intact intact) fun encoded v₂ passed₂ encodes => ?_
  have passed := passed₁.trans passed₂
  have founds₂ := founds.aside passed
  have intact₂ := passed.intact intact
  refine wp_deposited (o := .snapshot m.generation) intact₂ (fun _ => encodes) ?_ ?_
  · intro _
    refine fits_once rfl intact₂ (founds₂.absent _ rfl) ?_ ?_
    · rintro own same
      exact Option.some.inj same ▸ founds₂.drawn
    · rintro own index ⟨⟩
  intro _ _ intact₃
  have unencoded : Object.latest ≠ .latest → Encodes pf config raw (asBytes m.generation) :=
    fun other => absurd rfl other
  refine wp_deposited (o := .latest) intact₃ unencoded (fun _ => fits_latest) ?_
  intro _ _ intact₄
  refine wp_passed rfl intact₄ fun _ v₅ passed₅ _ => ?_
  refine wp_passed rfl (passed₅.intact intact₄) fun _ v₆ passed₆ _ => ?_
  refine wp_dated ((passed₅.trans passed₆).intact intact₄) fun now v₇ passed₇ => ?_
  have later := (passed₅.trans passed₆).trans passed₇
  have absent : ∀ index, object config v₇.deposits.uploads (.segment m.generation index) = none := by
    intro index
    rw [later.uploads]
    simpa using founds₂.absent (.segment m.generation index) rfl
  have backup : v₇.backup config m.generation = [] := by
    rw [later.backup, backup_put_other (by simp), backup_put_other (by simp), founds₂.backup]
  have gone : ∀ index, object config v₇.bucket (.segment m.generation index) = none := by
    intro index
    by_contra present
    obtain ⟨x, here⟩ := Option.ne_none_iff_exists'.mp present
    have put := (later.intact intact₄).held _ x here
    cases (absent index).symm.trans put
  have unlisted : v₇.listed config m.generation = [] := by
    have missing := founds₂.absent (.manifest m.generation) rfl
    rw [later.listed, listed_put_other (by simp), listed_put_other (by simp), Vault.listed, manifestAt,
      missing]
    rfl
  refine Op.wp_mono (wp_manifest_deposited codec ?_ (later.intact intact₄) ?_ ?_) ?_
    fun _ _ _ h => h
  · refine ⟨⟨founds.uses.1, founds.uses.2⟩, later.drawn founds₂.drawn, ?_, ?_⟩
    · rw [backup]
      rfl
    · rw [backup]
      rfl
  · rw [unlisted]
  · intro _ index present
    exact absurd (gone index) present
  · rintro _ _ v' ⟨rfl, manifested, intact'⟩
    refine ⟨⟨manifested.toBears, manifested.listed, fun index _ => ?_, fun index present => ?_⟩, intact'⟩
    · exact (manifested.uploads index).trans (absent index)
    · exact absurd (gone index) (manifested.bucket index present)

end

section
variable {config} {q : Request} {cut : Option Str} {m : BackupManager pf.build} {v : Vault}

/-- Calls that leave the uploads alone, and assignments to other fields. -/
theorem secures_call_tending {c : Call} (aside : isAside c = true) :
    Op.Secures (vaultServer config q) (tended config cut) (Tending config cut)
      (call c : Method pf c.Reply) := by
  rintro m v ⟨tends, intact⟩
  exact wp_passed aside intact fun _ v' passed _ => ⟨tends.aside passed, passed.intact intact⟩

theorem secures_reassign {f : BackupManager pf.build → BackupManager pf.build}
    (hf : ∀ m, (f m).config = m.config ∧ (f m).s3 = m.s3 ∧ (f m).generation = m.generation ∧
      (f m).manifest = m.manifest ∧ (f m).walIndex = m.walIndex) :
    Op.Secures (vaultServer config q) (tended config cut) (Tending config cut)
      (modify f : Method pf PUnit) := by
  refine Op.secures_modify fun m v ⟨tends, intact⟩ => ?_
  obtain ⟨hconfig, hs3, generation, manifest, index⟩ := hf m
  have uses : Uses config (f m) := ⟨hconfig.trans tends.uses.1, hs3.trans tends.uses.2⟩
  exact ⟨tends.keep uses generation manifest index, intact⟩

theorem secures_begin_tending :
    Op.Secures (vaultServer config q) (tended config cut) (Tending config cut)
      (beginReadTransaction pf) := by
  refine Op.secures_get fun self _ _ => Op.Secures.ite (fun _ => Op.secures_pure _) fun _ => ?_
  refine (secures_orFail (secures_call_tending rfl)).bind fun _ => ?_
  refine (secures_orFail (secures_call_tending rfl)).bind fun _ => ?_
  exact secures_reassign fun _ => ⟨rfl, rfl, rfl, rfl, rfl⟩

theorem secures_end_tending :
    Op.Secures (vaultServer config q) (tended config cut) (Tending config cut)
      (endReadTransaction pf) := by
  refine Op.secures_get fun self _ _ => Op.Secures.ite (fun _ => ?_) fun _ => Op.secures_pure _
  refine (secures_call_tending rfl).bind fun _ => ?_
  exact secures_reassign fun _ => ⟨rfl, rfl, rfl, rfl, rfl⟩

/-- An id that was never drawn has nothing in the vault. -/
theorem wp_drawn_tended {σ : Type} {s : σ} (intact : Intact config cut v)
    {ok : Str → σ → Vault → Prop} {err : Error → σ → Vault → Prop}
    (hok : ∀ generation v', Aside config v v' → generation ∈ v'.deposits.drawn →
      (∀ o, ownerOf o = some generation → object config v'.deposits.uploads o = none) →
      v'.backup config generation = [] → ok generation s v') :
    Op.wp (vaultServer config q) (tended config cut) (call .newUuid) ok err s v := by
  rintro generation ⟨b', d'⟩ ⟨⟨-, same⟩, -, -, unused, noted⟩
  obtain rfl := (same : b' = v.bucket)
  obtain rfl := (noted : d' = _)
  have passed : Aside config v ⟨v.bucket, v.deposits.note q .newUuid generation⟩ :=
    ⟨rfl, rfl, List.subset_cons_self _ _, fun _ _ h => h⟩
  refine ⟨⟨passed.advances, passed.intact intact⟩, ?_⟩
  refine hok generation _ passed List.mem_cons_self (fun o owner => ?_) ?_
  · by_contra present
    exact unused (intact.owned o generation owner present)
  · rw [passed.backup]
    exact intact.unused generation unused

theorem wp_startGeneration_tended (h : Tending config cut m v) :
    Op.wp (vaultServer config q) (tended config cut) (startGeneration pf)
      (fun _ m' v' => Founds config m' v' ∧ Intact config cut v') (fun _ _ _ => False) m v := by
  obtain ⟨tends, intact⟩ := h
  simp only [startGeneration, Op.wp_bind, Op.wp_modify]
  refine wp_drawn_tended intact fun generation v₁ passed₁ drawn absent backup => ?_
  refine wp_dated (passed₁.intact intact) fun now v₂ passed₂ => ?_
  refine ⟨Founds.aside ?_ passed₂, (passed₁.trans passed₂).intact intact⟩
  exact ⟨tends.uses, drawn, rfl, absent, backup⟩

section
variable (codec : Codec config)
include codec

theorem secures_recover_tending :
    Op.Secures (vaultServer config q) (tended config cut) (Tending config cut) (recover pf) := by
  refine secures_end_tending.bind fun _ => ?_
  intro m v tending
  rw [Op.wp_bind]
  refine Op.wp_mono (wp_startGeneration_tended tending) ?_ fun _ _ _ => False.elim
  rintro _ m₁ v₁ ⟨founds, intact⟩
  rw [Op.wp_bind]
  refine Op.wp_mono (wp_snapshot_tended codec founds intact) ?_ fun _ _ _ => False.elim
  exact fun _ m₂ v₂ tending₂ => secures_begin_tending m₂ v₂ tending₂

/-- A sync puts its segment, then the manifest that lists it. -/
theorem wp_uploadSegment_tended (outside : compacts q = false) {walData : Bytes} {alignedLen : Nat}
    (h : Tending config cut m v) :
    Op.wp (vaultServer config q) (tended config cut) (uploadSegment pf walData alignedLen)
      (fun _ m' v' => Tending config cut m' v') (fun _ m' v' => Tending config cut m' v') m v := by
  obtain ⟨tends, intact⟩ := h
  simp only [uploadSegment, Op.wp_bind, Op.wp_get, Op.wp_modify, Op.wp_ofOption, tends.uses.1,
    tends.uses.2]
  intro newData _
  refine wp_sealed codec intact fun encoded v₁ passed₁ encodes => ?_
  have tends₁ := tends.aside passed₁
  have intact₁ := passed₁.intact intact
  have new := tends₁.free m.walIndex (Nat.le_refl _)
  have added : (Object.segment m.generation m.walIndex ≠ .latest →
      pipelineDecode pf encoded config = .ok newData) →
      content config (v₁.put config q (.segment m.generation m.walIndex) encoded).deposits.uploads
        (.segment m.generation m.walIndex) = some newData ∧
      (v₁.put config q (.segment m.generation m.walIndex) encoded).backup config m.generation =
        v₁.backup config m.generation ++ newData := fun decodes =>
    ⟨content_store (decodes (by simp)), backup_put_segment outside (decodes (by simp))⟩
  refine wp_deposited (o := .segment m.generation m.walIndex) intact₁ (fun _ => encodes) ?_ ?_
  · intro decodes
    refine fits_once rfl intact₁ new ?_ ?_
    · rintro own same
      exact Option.some.inj same ▸ tends₁.drawn
    · rintro own index ⟨⟩ -
      obtain ⟨here, backup⟩ := added decodes
      refine ⟨v₁.backup config m.generation, newData, ?_, here, ?_⟩
      · rw [listed_put_other (by simp), tends₁.listed_eq]
        exact segmentsData_put_new new tends₁.held
      · exact backup ▸ List.prefix_rfl
  intro decodes bound intact₂
  obtain ⟨here, backup⟩ := added decodes
  refine wp_dated intact₂ fun now v₃ passed₃ => ?_
  have intact₃ := passed₃.intact intact₂
  have bears : Bears config
      { m with manifest := m.manifest.addSegment m.walIndex now m.walOffset newData.length } v₃ := by
    refine ⟨tends.uses, passed₃.drawn tends₁.drawn, ?_, ?_⟩
    · rw [passed₃.uploads, passed₃.backup, GenerationManifest.addSegment_segments, segmentsData_append,
        segmentsData_put_new new tends₁.held, backup]
      simp [segmentsData, here]
    · rw [passed₃.backup, backup, List.length_append, ← tends₁.length]
      exact listedLength_append _ _
  have covered : ∀ index, object config v₃.bucket (.segment m.generation index) ≠ none →
      ∃ s ∈ m.manifest.segments ++ [⟨m.walIndex, now, m.walOffset, newData.length⟩],
        s.index = index := by
    intro index present
    have present₂ := (passed₃.spared m.generation).bucket _ rfl present
    rw [object_put_bucket] at present₂
    split at present₂
    case isTrue same =>
      injection same with _ same
      exact ⟨_, List.mem_append_right _ (List.mem_singleton_self _), same.symm⟩
    case isFalse =>
      obtain ⟨s, hs, same⟩ := tends₁.only index present₂
      exact ⟨s, List.mem_append_left _ hs, same⟩
  refine Op.wp_mono (wp_manifest_deposited codec bears intact₃ ?_ fun _ => covered) ?_
    fun _ _ _ => False.elim
  · rw [passed₃.listed, listed_put_other (by simp), tends₁.listed_eq,
      GenerationManifest.addSegment_segments, listedLength_append]
    exact Nat.le_add_right _ _
  rintro _ _ v₄ ⟨rfl, manifested, intact₄⟩
  refine wp_passed rfl intact₄ fun _ v₅ passed₅ _ => ?_
  intro next counted
  rw [incrementU32_of_lt _ (bound _ _ rfl)] at counted
  cases counted
  refine ⟨Tends.aside ?_ passed₅, passed₅.intact intact₄⟩
  refine ⟨⟨tends.uses, manifested.drawn, manifested.held, manifested.length⟩, manifested.listed, ?_, ?_⟩
  · intro index above
    have other : index ≠ m.walIndex := Nat.ne_of_gt above
    rw [manifested.uploads, passed₃.uploads, object_put_uploads, if_neg (by simpa using other)]
    exact tends₁.free index (Nat.le_of_lt above)
  · intro index present
    exact covered index (manifested.bucket index present)

theorem secures_syncWal_tending (outside : compacts q = false) :
    Op.Secures (vaultServer config q) (tended config cut) (Tending config cut) (syncWal pf) := by
  refine Op.secures_get fun self _ _ => ?_
  refine (secures_call_tending rfl).bind fun found => ?_
  refine Op.Secures.ite (fun _ => Op.secures_pure _) fun _ => ?_
  refine (secures_orFail (secures_call_tending rfl)).bind fun walData => ?_
  refine Op.Secures.ite (fun _ => Op.secures_pure _) fun _ => Op.Secures.ite (fun _ => ?_) fun _ => ?_
  · exact (secures_recover_tending codec).bind fun _ => Op.secures_pure _
  have captures : Op.Secures (vaultServer config q) (tended config cut) (Tending config cut)
      (modify fun self => self.captureSalt pf walData : Method pf PUnit) := by
    refine secures_reassign fun m => ?_
    unfold captureSalt
    split <;> exact ⟨rfl, rfl, rfl, rfl, rfl⟩
  refine captures.bind fun _ => Op.Secures.ite (fun _ => Op.secures_pure _) fun _ => ?_
  refine Op.Secures.bind ?_ fun _ => Op.secures_pure _
  exact fun m v tending => wp_uploadSegment_tended codec outside tending

theorem secures_checkpoint_tending (outside : compacts q = false) :
    Op.Secures (vaultServer config q) (tended config cut) (Tending config cut) (checkpoint pf) := by
  refine (secures_syncWal_tending codec outside).bind fun _ => ?_
  refine secures_end_tending.bind fun _ => ?_
  refine Op.secures_get fun self _ _ => ?_
  refine (secures_orFail (secures_call_tending rfl)).bind fun _ => ?_
  intro m v tending
  rw [Op.wp_bind]
  refine Op.wp_mono (wp_startGeneration_tended tending) ?_ fun _ _ _ => False.elim
  rintro _ m₁ v₁ ⟨founds, intact⟩
  rw [Op.wp_bind, Op.wp_attempt]
  refine Op.wp_mono (wp_snapshot_tended codec founds intact) ?_ fun _ _ _ => False.elim
  exact fun _ m₂ v₂ tending₂ =>
    (secures_begin_tending.bind fun _ => Op.secures_ofExcept _) m₂ v₂ tending₂

end

/-- Retention reads and deletes. -/
theorem secures_enforceRetention_tending :
    Op.Secures (vaultServer config q) (tended config cut) (Tending config cut)
      (enforceRetention pf) := by
  rintro m v tending
  let allowed (c : Call) : Prop := isAside c = true
  have permits : PermitsDeletes config allowed :=
    { quiet := by
        intro c isLocal
        cases c with
        | putObject | newUuid => cases isLocal
        | _ => rfl
      time := rfl
      get := fun _ => rfl
      list := fun _ => rfl
      delete := fun _ => rfl }
  have one : ∀ v c reply v', Tending config cut m v → allowed c → vaultServer config q v c reply v' →
      tended config cut v c reply v' ∧ Tending config cut m v' := by
    rintro v c reply v' ⟨tends, intact⟩ aside served
    have passed := served_aside aside served
    have kept := passed.intact intact
    exact ⟨⟨passed.advances, kept⟩, tends.aside passed, kept⟩
  have within : Op.Within allowed (fun m' => m' = m) (enforceRetention pf) := by
    refine within_enforceRetention permits ?_
    rintro _ rfl
    exact tending.1.uses
  refine Op.wp_mono (within.wp one rfl tending) ?_ ?_
  · rintro _ _ v' ⟨rfl, kept⟩
    exact kept
  · rintro _ _ v' ⟨rfl, kept⟩
    exact kept

/-- What the download loop of a compaction returns was put. -/
theorem wp_downloadSegments_tended {self : BackupManager pf.build} (uses : Uses config self)
    (segments : List SegmentMeta) (intact : Intact config cut v) :
    Op.wp (vaultServer config q) (tended config cut)
      (downloadSegments pf self (segments.map fun s => (Object.segment self.generation s.index).key))
      (fun data m' v' => m' = m ∧ Aside config v v' ∧
        segmentsData config v.deposits.uploads self.generation segments = some data)
      (fun _ m' v' => m' = m ∧ Aside config v v') m v := by
  induction segments generalizing v with
  | nil => exact ⟨rfl, .refl v, rfl⟩
  | cons s rest ih =>
    simp only [List.map_cons, downloadSegments, Op.wp_bind, Op.wp_ofExcept, uses.1, uses.2]
    refine wp_withdrawn intact (fun raw v₁ passed put => ?_) fun _ _ passed => ⟨rfl, passed⟩
    cases decoded : pipelineDecode pf raw config with
    | error e => exact ⟨rfl, passed⟩
    | ok data =>
      have here : content config v.deposits.uploads (.segment self.generation s.index) = some data := by
        rw [content, put, Option.bind_some, decoded]
        rfl
      refine Op.wp_mono (ih (passed.intact intact)) ?_ ?_
      · rintro later _ v₂ ⟨rfl, passed', held⟩
        rw [passed.uploads] at held
        refine ⟨rfl, passed.trans passed', ?_⟩
        rw [segmentsData, here, Option.bind_some, held]
        rfl
      · rintro _ _ v₂ ⟨rfl, passed'⟩
        exact ⟨rfl, passed.trans passed'⟩

end

/-- Segments from one index up to another were put, which hold some data. -/
structure Recuts (generation : Str) (index index' : Nat) (metas : List SegmentMeta) (data : Bytes)
    (v v' : Vault) : Prop where
  above : index ≤ index'
  uploads : ∀ o, (∀ i, index ≤ i → i < index' → o ≠ .segment generation i) →
    object config v'.deposits.uploads o = object config v.deposits.uploads o
  drawn : v.deposits.drawn ⊆ v'.deposits.drawn
  backup : v'.backup config generation = v.backup config generation
  held : segmentsData config v'.deposits.uploads generation metas = some data
  length : listedLength metas = data.length
  bucket : ∀ i, object config v'.bucket (.segment generation i) ≠ none →
    object config v.bucket (.segment generation i) ≠ none ∨ ∃ s ∈ metas, s.index = i

section
variable {config} {q : Request} {m : BackupManager pf.build} {v v₁ v₃ v' : Vault} {generation : Str}
  {index index' : Nat} {metas : List SegmentMeta} {chunk data encoded : Bytes}

theorem recuts_nil : Recuts config generation index index [] [] v v :=
  ⟨Nat.le_refl _, fun _ _ => rfl, fun _ h => h, rfl, rfl, rfl, fun _ present => .inl present⟩

/-- One chunk before the others. -/
theorem Recuts.cons {now offset : Nat} (inside : compacts q = true)
    (decodes : pipelineDecode pf encoded config = .ok chunk) (before : Aside config v v₁)
    (after : Aside config (v₁.put config q (.segment generation index) encoded) v₃)
    (rest : Recuts config generation (index + 1) index' metas data v₃ v') :
    Recuts config generation index index' (⟨index, now, offset, chunk.length⟩ :: metas)
      (chunk ++ data) v v' where
  above := Nat.le_of_succ_le rest.above
  uploads o apart := by
    have other : o ≠ .segment generation index := apart index (Nat.le_refl _) rest.above
    rw [rest.uploads o fun i above => apart i (Nat.le_of_succ_le above), after.uploads,
      object_put_uploads, if_neg other, before.uploads]
  drawn _ here := rest.drawn (after.drawn (before.drawn here))
  backup := by rw [rest.backup, after.backup, backup_put_compacts inside, before.backup]
  held := by
    have here : content config v'.deposits.uploads (.segment generation index) = some chunk := by
      rw [content_congr config (rest.uploads _ fun i above _ => by simp; omega), after.uploads]
      exact content_store decodes
    simp only [segmentsData, here, rest.held, Option.bind_some, Option.map_some]
  length := by
    rw [listedLength, rest.length, List.length_append]
  bucket i present := by
    obtain old | ⟨s, hs, same⟩ := rest.bucket i present
    · have put := (after.spared generation).bucket (.segment generation i) rfl old
      rw [object_put_bucket] at put
      split at put
      case isTrue same =>
        injection same with _ same
        exact .inr ⟨_, List.mem_cons_self, same.symm⟩
      case isFalse => exact .inl ((before.spared generation).bucket _ rfl put)
    · exact .inr ⟨s, List.mem_cons_of_mem _ hs, same⟩

/-- The chunking loop of a compaction from a place on. -/
theorem wp_uploadChunks_tended (codec : Codec config) (inside : compacts q = true)
    {self : BackupManager pf.build} (uses : Uses config self) (allData : Bytes) (maxSize : Nat)
    {fuel offset : Nat} (intact : Intact config (some self.generation) v)
    (drawn : self.generation ∈ v.deposits.drawn)
    (free : ∀ i, index ≤ i → object config v.deposits.uploads (.segment self.generation i) = none) :
    Op.wp (vaultServer config q) (tended config (some self.generation))
      (uploadChunks pf self allData maxSize fuel offset index)
      (fun out m' v' => m' = m ∧ Intact config (some self.generation) v' ∧
        Recuts config self.generation index out.2 out.1 (allData.drop offset) v v')
      (fun _ _ _ => False) m v := by
  have ends : ∀ {v : Vault} {offset index : Nat}, ¬ offset < allData.length →
      Recuts config self.generation index index [] (allData.drop offset) v v := by
    intro v offset index ended
    rw [List.drop_eq_nil_of_le (Nat.le_of_not_lt ended)]
    exact recuts_nil
  induction fuel generalizing offset index v with
  | zero =>
    unfold uploadChunks
    exact Op.wp_ite (fun _ => trivial) fun ended => ⟨rfl, intact, ends ended⟩
  | succ fuel ih =>
    unfold uploadChunks
    refine Op.wp_ite (fun more => ?_) fun ended => ⟨rfl, intact, ends ended⟩
    simp only [Op.wp_bind, Op.wp_ofOption, uses.1, uses.2]
    refine wp_sealed codec intact fun encoded v₁ passed₁ encodes => ?_
    have intact₁ := passed₁.intact intact
    have new : object config v₁.deposits.uploads (.segment self.generation index) = none := by
      rw [passed₁.uploads]
      exact free index (Nat.le_refl _)
    refine wp_deposited (o := .segment self.generation index) intact₁ (fun _ => encodes) ?_ ?_
    · intro _
      refine fits_once rfl intact₁ new ?_ ?_
      · rintro own same
        exact Option.some.inj same ▸ passed₁.drawn drawn
      · rintro own i ⟨⟩ outside
        exact absurd rfl outside
    intro decodes bound intact₂
    refine wp_dated intact₂ fun now v₃ passed₃ => ?_
    intro next counted
    rw [incrementU32_of_lt _ (bound _ _ rfl)] at counted
    cases counted
    refine Op.wp_mono (ih (passed₃.intact intact₂) (passed₃.drawn (passed₁.drawn drawn)) ?_) ?_
      fun _ _ _ => False.elim
    · intro i above
      rw [passed₃.uploads, object_put_uploads, if_neg (by simp; omega), passed₁.uploads]
      exact free i (Nat.le_of_lt above)
    rintro ⟨rest, last⟩ _ v₄ ⟨rfl, intact₄, recuts⟩
    refine ⟨rfl, intact₄, ?_⟩
    have cut : allData.drop offset =
        (allData.drop offset).take (min (offset + maxSize) allData.length - offset) ++
          allData.drop (min (offset + maxSize) allData.length) := by
      conv_lhs => rw [← List.take_append_drop (min (offset + maxSize) allData.length - offset)
        (allData.drop offset), List.drop_drop]
      congr 2
      omega
    have whole : Recuts config self.generation index last (⟨index, now, offset, _⟩ :: rest) _ v v₄ :=
      .cons inside (decodes (by simp)) passed₁ passed₃ recuts
    rwa [← cut] at whole

/-- A compaction cuts the backup again. -/
theorem wp_compact_tended (codec : Codec config) (inside : compacts q = true)
    (maxSegmentSize : Option Nat) (fuel : Nat) (h : Tending config none m v) :
    Op.wp (vaultServer config q) (tended config (some m.generation))
      (compact pf maxSegmentSize fuel)
      (fun _ m' v' => Tending config none m' v') (fun _ m' v' => Tending config none m' v') m v := by
  obtain ⟨tends, whole⟩ := h
  have intact : Intact config (some m.generation) v :=
    ⟨whole.toSound, fun own _ => whole.shows own (by simp)⟩
  unfold compact
  simp only [Op.wp_bind, Op.wp_get]
  refine Op.wp_ite (fun _ => ⟨tends, whole⟩) fun _ => ?_
  rw [Op.wp_bind]
  refine Op.wp_mono (wp_downloadSegments_tended tends.uses _ intact) ?_ ?_
  swap
  · rintro _ m v₁ ⟨rfl, passed⟩
    exact (tends.aside passed).settles (passed.intact intact)
  rintro allData m v₁ ⟨rfl, passed₁, downloaded⟩
  obtain rfl : allData = v.backup config m.generation :=
    Option.some.inj (downloaded.symm.trans tends.held)
  have tends₁ := tends.aside passed₁
  rw [Op.wp_bind]
  refine Op.wp_mono (wp_uploadChunks_tended codec inside tends.uses _ _ (passed₁.intact intact)
    tends₁.drawn tends₁.free) ?_ fun _ _ _ => False.elim
  rintro ⟨newSegments, newIndex⟩ m v₂ ⟨rfl, intact₂, recuts⟩
  rw [List.drop_zero] at recuts
  have bears : Bears config { m with manifest := { m.manifest with segments := newSegments } } v₂ := by
    refine ⟨tends.uses, recuts.drawn tends₁.drawn, ?_, ?_⟩
    · rw [recuts.backup, passed₁.backup]
      exact recuts.held
    · rw [recuts.backup, passed₁.backup]
      exact recuts.length
  have listed : v₂.listed config m.generation = m.manifest.segments := by
    rw [← tends₁.listed_eq, Vault.listed, Vault.listed,
      manifestAt_congr config (recuts.uploads (.manifest m.generation) (by simp))]
  simp only [Op.wp_bind, Op.wp_modify]
  refine Op.wp_mono (wp_manifest_deposited codec bears intact₂ ?_ fun other => absurd rfl other) ?_
    fun _ _ _ => False.elim
  · rw [listed, tends.length]
    exact Nat.le_of_eq recuts.length.symm
  rintro _ _ v₃ ⟨rfl, manifested, intact₃⟩
  have keys : m.manifest.segments.map (fun s => (Object.segment m.generation s.index).key) =
      (m.manifest.segments.map fun s => Object.segment m.generation s.index).map Object.key := by
    rw [List.map_map]
    rfl
  rw [keys]
  refine wp_discarded tends.uses.2 intact₃ _ fun v₄ passed₄ gone => ?_
  have tends₄ : Tends config { m with
      manifest := { m.manifest with segments := newSegments }
      walIndex := newIndex } v₄ := by
    obtain ⟨uses, drawn, held, length⟩ := manifested.toBears.aside passed₄
    refine ⟨⟨uses, drawn, held, length⟩, ?_, fun index above => ?_, fun index present => ?_⟩
    · rw [passed₄.uploads]
      exact manifested.listed
    · rw [passed₄.uploads, manifested.uploads, recuts.uploads]
      · exact tends₁.free index (Nat.le_trans recuts.above above)
      · intro i _ below same
        injection same with _ same
        exact absurd below (Nat.not_lt.mpr (same ▸ above))
    · have put := (passed₄.spared m.generation).bucket _ rfl present
      refine (recuts.bucket index (manifested.bucket index put)).resolve_left fun old => ?_
      obtain ⟨s, hs, rfl⟩ := tends₁.only index old
      exact present (gone _ (List.mem_map_of_mem hs))
  exact tends₄.settles (passed₄.intact intact₃)

end

section
variable {config} {q : Request} {cut : Option Str} {v : Vault}

/-- Where there is no manager yet. -/
theorem secures_call_intact {σ : Type} {c : Call} (aside : isAside c = true) :
    Op.Secures (vaultServer config q) (tended config cut) (fun (_ : σ) v => Intact config cut v)
      (call c) := by
  intro s v intact
  exact wp_passed aside intact fun _ v' passed _ => passed.intact intact

/-- A restore puts nothing. -/
theorem secures_restoreFirst_intact :
    Op.Secures (vaultServer config q) (tended config cut) (fun (_ : Unit) v => Intact config cut v)
      (restoreFirst config) := by
  let allowed (c : Call) : Prop := isAside c = true
  have fetches : ∀ c, isFetchCall c = true → allowed c := by
    intro c fetch
    cases c with
    | putObject | newUuid => cases fetch
    | _ => rfl
  have replays : ∀ c, isReplayCall c = true → allowed c := by
    intro c replay
    cases c with
    | putObject | newUuid => cases replay
    | _ => rfl
  have within : Op.Within allowed (fun _ => True) (restoreFirst config) := by
    refine Op.Within.ite (fun _ => ?_) fun _ => Op.within_pure _
    refine Op.Within.bind (Op.within_call rfl) fun found => ?_
    refine Op.Within.ite (fun _ => ?_) fun _ => Op.within_pure _
    exact (uses_restoreLatest config fetches replays _ _).within
  have one : ∀ v c reply v', Intact config cut v → allowed c → vaultServer config q v c reply v' →
      tended config cut v c reply v' ∧ Intact config cut v' := by
    intro v c reply v' intact aside served
    have passed := served_aside aside served
    have kept := passed.intact intact
    exact ⟨⟨passed.advances, kept⟩, kept⟩
  intro s v intact
  exact Op.wp_mono (within.secures one s v ⟨trivial, intact⟩) (fun _ _ _ h => h.2) fun _ _ _ h => h.2

theorem wp_new_tended (codec : Codec config) (intact : Intact config cut v) :
    Op.wp (vaultServer config q) (tended config cut) (new pf config)
      (fun m _ v' => Tending config cut m v') (fun _ _ v' => Intact config cut v') () v := by
  have fails : ∀ (_ : Error) (_ : Unit) (v' : Vault), Intact config cut v' → Intact config cut v' :=
    fun _ _ _ h => h
  rw [new_eq]
  refine secures_restoreFirst_intact.next intact (fun _ _ v₁ intact₁ => ?_) fails
  refine (secures_orFail (secures_call_intact rfl)).next intact₁ (fun readConn _ v₂ intact₂ => ?_) fails
  refine (secures_orFail (secures_call_intact rfl)).next intact₂ (fun _ _ v₃ intact₃ => ?_) fails
  refine (secures_orFail (secures_call_intact rfl)).next intact₃ (fun _ _ v₄ intact₄ => ?_) fails
  refine (secures_orFail (secures_call_intact rfl)).next intact₄ (fun _ _ v₅ intact₅ => ?_) fails
  simp only [Op.wp_bind]
  refine wp_drawn_tended intact₅ fun generation v₆ passed₆ drawn absent backup => ?_
  refine wp_dated (passed₆.intact intact₅) fun now v₇ passed₇ => ?_
  refine wp_passed rfl ((passed₆.trans passed₇).intact intact₅) fun started v₈ passed₈ _ => ?_
  have passed := passed₇.trans passed₈
  rw [Op.wp_runOn, firstSnapshot, Op.wp_bind, Op.wp_attempt]
  refine Op.wp_mono (wp_snapshot_tended codec (Founds.aside ⟨⟨rfl, rfl⟩, drawn, rfl, absent, backup⟩
    passed) (passed.intact (passed₆.intact intact₅))) (fun _ _ _ h => h) fun _ _ _ => False.elim

end

end Waloy.Spec
