import Waloy.Spec.Births

/-!
# What a bucket was ever given

An observer keeps all uploads, also of what is deleted later, and the ids that were drawn.
What a generation backed up are the segments that were put for it outside compactions, one
after the other. A vault is a bucket beside such an observer; the rules below say what a call
does to it.
-/
namespace Waloy.Spec
open Waloy.Effect Waloy.Source Waloy.Source.BackupManager

/-- A compaction puts again what was backed up before. -/
def compacts : Request → Bool
  | .compact _ _ => true
  | _ => false

structure Deposits where
  /-- Every object as it was put last. -/
  uploads : Bucket
  /-- The uploads outside compactions, newest first. -/
  synced : List (Str × Bytes)
  drawn : List Str

namespace Deposits

def none : Deposits := ⟨∅, [], []⟩

def note (q : Request) (d : Deposits) : (c : Call) → c.Reply → Deposits
  | .putObject key data, .ok _ =>
    { d with
      uploads := d.uploads.insert key data
      synced := if compacts q then d.synced else (key, data) :: d.synced }
  | .newUuid, generation => { d with drawn := generation :: d.drawn }
  | _, _ => d

/-- No id is drawn twice. -/
def Unused (d : Deposits) : (c : Call) → c.Reply → Prop
  | .newUuid, generation => generation ∉ d.drawn
  | _, _ => True

def keep (q : Request) : Server Calls Deposits := fun d c reply d' =>
  d.Unused c reply ∧ d' = d.note q c reply

end Deposits

structure Vault where
  bucket : Bucket
  deposits : Deposits

/-- The objects that are put once. -/
def isWrittenOnce : Object → Bool
  | .snapshot _ | .segment _ _ => true
  | .latest | .manifest _ => false

/-- The bytes that some segments are said to hold. -/
def listedLength : List SegmentMeta → Nat
  | [] => 0
  | s :: rest => s.size + listedLength rest

theorem listedLength_append (xs ys : List SegmentMeta) :
    listedLength (xs ++ ys) = listedLength xs + listedLength ys := by
  induction xs with
  | nil => simp [listedLength]
  | cons s rest ih => rw [List.cons_append, listedLength, ih, listedLength, Nat.add_assoc]

variable {pf : Platform} (config : BackupConfig pf.build)

open Classical in
/-- The WAL that a generation backed up, of the uploads outside compactions. -/
noncomputable def backedUp (generation : Str) : List (Str × Bytes) → Bytes
  | [] => []
  | (key, data) :: earlier =>
    backedUp generation earlier ++
      if ∃ index, key = objectKey config (.segment generation index) then
        (pipelineDecode pf data config).toOption.getD []
      else []

namespace Vault

variable (v : Vault)

/-- The segments that the last manifest of a generation lists. -/
def listed (generation : Str) : List SegmentMeta :=
  ((manifestAt config v.deposits.uploads generation).map GenerationManifest.segments).getD []

noncomputable def backup (generation : Str) : Bytes :=
  backedUp config generation v.deposits.synced

/-- An object is put by an operation. -/
def put (q : Request) (o : Object) (data : Bytes) : Vault :=
  ⟨store config v.bucket o data,
    { v.deposits with
      uploads := store config v.deposits.uploads o data
      synced := if compacts q then v.deposits.synced
        else (objectKey config o, data) :: v.deposits.synced }⟩

end Vault

/-- The segments that are listed hold a beginning of the backup, of the length they tell. -/
def ListsBackup (v : Vault) (generation : Str) : Prop :=
  ∃ data, segmentsData config v.deposits.uploads generation (v.listed config generation) = some data ∧
    data <+: v.backup config generation ∧
    listedLength (v.listed config generation) = data.length

/-- The segment goes on where the listed ones end. -/
def GoesOn (v : Vault) (generation : Str) (index : Nat) : Prop :=
  ∃ data next,
    segmentsData config v.deposits.uploads generation (v.listed config generation) = some data ∧
    content config v.deposits.uploads (.segment generation index) = some next ∧
    data ++ next <+: v.backup config generation

/-- A segment that is there is listed, or goes on where the listed ones end. -/
def ShowsBackup (v : Vault) (generation : Str) : Prop :=
  ∀ index, object config v.bucket (.segment generation index) ≠ none →
    (∃ s ∈ v.listed config generation, s.index = index) ∨ GoesOn config v generation index

structure Sound (v : Vault) : Prop where
  held : ∀ o x, object config v.bucket o = some x → object config v.deposits.uploads o = some x
  lists : ∀ generation, ListsBackup config v generation
  owned : ∀ o generation, ownerOf o = some generation →
    object config v.deposits.uploads o ≠ none → generation ∈ v.deposits.drawn
  unused : ∀ generation, generation ∉ v.deposits.drawn → v.backup config generation = []

/-- The segments in the bucket are in order, except those of a generation that is being cut
again. -/
structure Intact (cut : Option Str) (v : Vault) : Prop extends Sound config v where
  shows : ∀ generation, cut ≠ some generation → ShowsBackup config v generation

/-- What was put stays what it is, and backups and manifests get longer. -/
structure Advances (v v' : Vault) : Prop where
  written : ∀ o x, isWrittenOnce o = true → object config v.deposits.uploads o = some x →
    object config v'.deposits.uploads o = some x
  grown : ∀ generation, v.backup config generation <+: v'.backup config generation
  longer : ∀ generation, listedLength (v.listed config generation) ≤
    listedLength (v'.listed config generation)

/-- Nothing is put, and what was there may be gone. -/
structure Aside (v v' : Vault) : Prop where
  uploads : v'.deposits.uploads = v.deposits.uploads
  synced : v'.deposits.synced = v.deposits.synced
  drawn : v.deposits.drawn ⊆ v'.deposits.drawn
  bucket : ∀ o x, object config v'.bucket o = some x → object config v.bucket o = some x

/-- The objects of a generation are as they were in the uploads, and none is new in the bucket. -/
structure Spared (v : Vault) (generation : Str) (v' : Vault) : Prop where
  uploads : ∀ o, ownerOf o = some generation →
    object config v'.deposits.uploads o = object config v.deposits.uploads o
  backup : v.backup config generation <+: v'.backup config generation
  bucket : ∀ o, ownerOf o = some generation → object config v'.bucket o ≠ none →
    object config v.bucket o ≠ none

/-- What an upload has to show for itself. -/
structure Fits (q : Request) (cut : Option Str) (v : Vault) (o : Object) (encoded : Bytes) : Prop where
  once : isWrittenOnce o = true → object config v.deposits.uploads o = none
  drawn : ∀ own, ownerOf o = some own → own ∈ v.deposits.drawn
  longer : ∀ own, ownerOf o = some own → listedLength (v.listed config own) ≤
    listedLength ((v.put config q o encoded).listed config own)
  lists : ∀ own, ownerOf o = some own → ListsBackup config (v.put config q o encoded) own
  shows : ∀ own, ownerOf o = some own → cut ≠ some own →
    ShowsBackup config (v.put config q o encoded) own

/-- What a call does to a vault in a run without a failure. -/
def vaultServer (q : Request) : Server Calls Vault := fun v c reply v' =>
  Bucketed v.bucket c reply v'.bucket ∧
    faultless config.dbPath (⟨v.bucket, (), 0, []⟩ : World Unit) c reply ∧
    uploadsWell config c ∧ Deposits.keep q v.deposits c reply v'.deposits

/-- What is promised of every call of an operation. -/
def tended (cut : Option Str) : Server Calls Vault := fun v _ _ v' =>
  Advances config v v' ∧ Intact config cut v'

section
variable {config} {cut : Option Str} {v v' v'' : Vault} {o : Object} {generation own : Str}
  {data encoded raw : Bytes}

theorem Advances.refl (v : Vault) : Advances config v v :=
  ⟨fun _ _ _ h => h, fun _ => List.prefix_rfl, fun _ => Nat.le_refl _⟩

theorem Advances.trans (h : Advances config v v') (h' : Advances config v' v'') :
    Advances config v v'' where
  written o x once here := h'.written o x once (h.written o x once here)
  grown generation := (h.grown generation).trans (h'.grown generation)
  longer generation := Nat.le_trans (h.longer generation) (h'.longer generation)

theorem Aside.refl (v : Vault) : Aside config v v := ⟨rfl, rfl, fun _ h => h, fun _ _ h => h⟩

theorem Aside.trans (h : Aside config v v') (h' : Aside config v' v'') : Aside config v v'' where
  uploads := h'.uploads.trans h.uploads
  synced := h'.synced.trans h.synced
  drawn := fun _ here => h'.drawn (h.drawn here)
  bucket o x here := h.bucket o x (h'.bucket o x here)

theorem Aside.listed (h : Aside config v v') (generation : Str) :
    v'.listed config generation = v.listed config generation := by
  unfold Vault.listed
  rw [h.uploads]

theorem Aside.backup (h : Aside config v v') (generation : Str) :
    v'.backup config generation = v.backup config generation := by
  unfold Vault.backup
  rw [h.synced]

theorem Aside.advances (h : Aside config v v') : Advances config v v' where
  written _ _ _ here := h.uploads ▸ here
  grown generation := h.backup generation ▸ List.prefix_rfl
  longer generation := Nat.le_of_eq (congrArg listedLength (h.listed generation).symm)

namespace Spared

variable (h : Spared config v generation v')
include h

theorem listed : v'.listed config generation = v.listed config generation := by
  unfold Vault.listed
  rw [manifestAt_congr config (h.uploads (.manifest generation) rfl)]

theorem segments (segments : List SegmentMeta) :
    segmentsData config v'.deposits.uploads generation segments =
      segmentsData config v.deposits.uploads generation segments :=
  segmentsData_congr config fun _ _ => h.uploads _ rfl

theorem lists (lists : ListsBackup config v generation) : ListsBackup config v' generation := by
  obtain ⟨data, held, begins, length⟩ := lists
  refine ⟨data, ?_, begins.trans h.backup, ?_⟩
  · rw [h.listed, h.segments, held]
  · rw [h.listed, length]

theorem shows (shows : ShowsBackup config v generation) : ShowsBackup config v' generation := by
  intro index present
  rw [h.listed]
  refine (shows index (h.bucket _ rfl present)).imp_right ?_
  rintro ⟨data, next, held, here, begins⟩
  refine ⟨data, next, ?_, ?_, begins.trans h.backup⟩
  · rw [h.listed, h.segments, held]
  · rw [content_congr config (h.uploads (.segment generation index) rfl), here]

end Spared

theorem Aside.spared (h : Aside config v v') (generation : Str) :
    Spared config v generation v' where
  uploads o _ := by rw [h.uploads]
  backup := h.backup generation ▸ List.prefix_rfl
  bucket o _ present := by
    obtain ⟨x, here⟩ := Option.ne_none_iff_exists'.mp present
    rw [h.bucket o x here]
    exact Option.some_ne_none x

theorem Aside.sound (h : Aside config v v') (sound : Sound config v) : Sound config v' where
  held o x here := by
    rw [h.uploads]
    exact sound.held o x (h.bucket o x here)
  lists generation := (h.spared generation).lists (sound.lists generation)
  owned o generation owner present := by
    rw [h.uploads] at present
    exact h.drawn (sound.owned o generation owner present)
  unused generation apart := by
    rw [h.backup]
    exact sound.unused generation fun drawn => apart (h.drawn drawn)

theorem Aside.intact (h : Aside config v v') (intact : Intact config cut v) : Intact config cut v' where
  toSound := h.sound intact.toSound
  shows generation outside := (h.spared generation).shows (intact.shows generation outside)

end

section
variable {config} {q : Request} {v v' : Vault} {o o' : Object} {generation : Str}
  {encoded raw : Bytes} {M : GenerationManifest}

@[simp] theorem object_put_uploads : object config (v.put config q o encoded).deposits.uploads o' =
    if o' = o then some encoded else object config v.deposits.uploads o' := object_store _ _ _ _ _

@[simp] theorem object_put_bucket : object config (v.put config q o encoded).bucket o' =
    if o' = o then some encoded else object config v.bucket o' := object_store _ _ _ _ _

@[simp] theorem drawn_put : (v.put config q o encoded).deposits.drawn = v.deposits.drawn := rfl

/-- A segment that is put outside a compaction comes at the end of the backup. -/
theorem backup_put_segment {index : Nat} (outside : compacts q = false)
    (decodes : pipelineDecode pf encoded config = .ok raw) :
    (v.put config q (.segment generation index) encoded).backup config generation =
      v.backup config generation ++ raw := by
  simp only [Vault.backup, Vault.put, outside, Bool.false_eq_true, if_false, backedUp]
  rw [if_pos ⟨index, rfl⟩, decodes]
  rfl

theorem backup_put_compacts (inside : compacts q = true) :
    (v.put config q o encoded).backup config generation = v.backup config generation := by
  simp [Vault.backup, Vault.put, inside]

theorem backup_put_other (other : ∀ index, o ≠ .segment generation index) :
    (v.put config q o encoded).backup config generation = v.backup config generation := by
  cases inside : compacts q with
  | true => exact backup_put_compacts inside
  | false =>
    simp only [Vault.backup, Vault.put, inside, Bool.false_eq_true, if_false, backedUp]
    rw [if_neg, List.append_nil]
    rintro ⟨index, same⟩
    exact other index ((objectKey_inj config).mp same)

theorem backup_put_grown :
    v.backup config generation <+: (v.put config q o encoded).backup config generation := by
  cases inside : compacts q with
  | true => exact backup_put_compacts inside ▸ List.prefix_rfl
  | false =>
    simp only [Vault.backup, Vault.put, inside, Bool.false_eq_true, if_false, backedUp]
    exact List.prefix_append _ _

theorem listed_put_other (other : o ≠ .manifest generation) :
    (v.put config q o encoded).listed config generation = v.listed config generation := by
  have same : object config (v.put config q o encoded).deposits.uploads (.manifest generation) =
      object config v.deposits.uploads (.manifest generation) := by
    rw [object_put_uploads, if_neg other.symm]
  unfold Vault.listed
  rw [manifestAt_congr config same]

theorem listed_put_manifest (decodes : decodeManifest pf encoded config = .ok M) :
    (v.put config q (.manifest generation) encoded).listed config generation = M.segments := by
  unfold Vault.listed
  rw [Vault.put, manifestAt_store decodes]
  rfl

theorem spared_put (other : ownerOf o ≠ some generation) :
    Spared config v generation (v.put config q o encoded) where
  uploads o' owner := by
    rw [object_put_uploads, if_neg]
    rintro rfl
    exact other owner
  backup := backup_put_grown
  bucket o' owner present := by
    rwa [object_put_bucket, if_neg] at present
    rintro rfl
    exact other owner

end

section
variable {config} {q : Request} {cut : Option Str} {v v' : Vault} {o : Object} {generation : Str}
  {encoded data : Bytes} {M : GenerationManifest} {segments : List SegmentMeta}

theorem Fits.advances (fits : Fits config q cut v o encoded) :
    Advances config v (v.put config q o encoded) where
  written o' x once here := by
    rw [object_put_uploads, if_neg]
    · exact here
    · rintro rfl
      cases (fits.once once).symm.trans here
  grown _ := backup_put_grown
  longer own := by
    by_cases owner : ownerOf o = some own
    · exact fits.longer own owner
    · rw [(spared_put owner).listed]

theorem Fits.intact (fits : Fits config q cut v o encoded) (intact : Intact config cut v) :
    Intact config cut (v.put config q o encoded) where
  held o' x here := by
    rw [object_put_bucket] at here
    rw [object_put_uploads]
    split at here
    case isTrue same => rwa [if_pos same]
    case isFalse other =>
      rw [if_neg other]
      exact intact.held o' x here
  lists own := by
    by_cases owner : ownerOf o = some own
    · exact fits.lists own owner
    · exact (spared_put owner).lists (intact.lists own)
  owned o' own owner present := by
    rw [object_put_uploads] at present
    split at present
    case isTrue same => exact fits.drawn own (same ▸ owner)
    case isFalse => exact intact.owned o' own owner present
  unused own apart := by
    rw [backup_put_other]
    · exact intact.unused own apart
    · rintro index rfl
      exact apart (fits.drawn own rfl)
  shows own outside := by
    by_cases owner : ownerOf o = some own
    · exact fits.shows own owner outside
    · exact (spared_put owner).shows (intact.shows own outside)

/-- Segments that are held do not notice an object that is new. -/
theorem segmentsData_put_new (new : object config v.deposits.uploads o = none)
    (held : segmentsData config v.deposits.uploads generation segments = some data) :
    segmentsData config (v.put config q o encoded).deposits.uploads generation segments =
      some data := by
  have other : ∀ s ∈ segments, o ≠ .segment generation s.index := by
    rintro s hs rfl
    have present := segmentsData_present held s hs
    rw [new] at present
    cases present
  exact (segmentsData_store other).trans held

/-- A snapshot or a segment that is new fits, a segment of a sync where it goes on. -/
theorem fits_once (once : isWrittenOnce o = true) (intact : Intact config cut v)
    (new : object config v.deposits.uploads o = none)
    (drawn : ∀ own, ownerOf o = some own → own ∈ v.deposits.drawn)
    (goesOn : ∀ own index, o = .segment own index → cut ≠ some own →
      GoesOn config (v.put config q o encoded) own index) : Fits config q cut v o encoded := by
  have listed : ∀ own, (v.put config q o encoded).listed config own = v.listed config own := by
    intro own
    refine listed_put_other ?_
    rintro rfl
    cases once
  refine ⟨fun _ => new, drawn, fun own _ => Nat.le_of_eq (by rw [listed]), ?_, ?_⟩
  · intro own _
    obtain ⟨data, held, begins, length⟩ := intact.lists own
    refine ⟨data, ?_, begins.trans backup_put_grown, ?_⟩
    · rw [listed]
      exact segmentsData_put_new new held
    · rw [listed, length]
  · intro own _ outside index present
    by_cases same : o = .segment own index
    · exact .inr (goesOn own index same outside)
    rw [object_put_bucket, if_neg (Ne.symm same)] at present
    rw [listed]
    refine (intact.shows own outside index present).imp_right ?_
    rintro ⟨data, next, held, here, begins⟩
    refine ⟨data, next, ?_, ?_, begins.trans backup_put_grown⟩
    · rw [listed]
      exact segmentsData_put_new new held
    · rw [← here]
      refine content_congr config ?_
      rw [object_put_uploads, if_neg (Ne.symm same)]

theorem fits_latest : Fits config q cut v .latest encoded :=
  ⟨by simp [isWrittenOnce], by simp [ownerOf], by simp [ownerOf], by simp [ownerOf],
    by simp [ownerOf]⟩

/-- A manifest fits that lists a beginning of the backup, no less than before, and outside a
compaction all segments that are there. -/
theorem fits_manifest (decodes : decodeManifest pf encoded config = .ok M)
    (drawn : generation ∈ v.deposits.drawn)
    (longer : listedLength (v.listed config generation) ≤ listedLength M.segments)
    (held : segmentsData config v.deposits.uploads generation M.segments = some data)
    (begins : data <+: v.backup config generation) (length : listedLength M.segments = data.length)
    (covers : cut ≠ some generation → ∀ index,
      object config v.bucket (.segment generation index) ≠ none → ∃ s ∈ M.segments, s.index = index) :
    Fits config q cut v (.manifest generation) encoded := by
  have listed : (v.put config q (.manifest generation) encoded).listed config generation =
      M.segments := listed_put_manifest decodes
  have own_eq : ∀ own, ownerOf (.manifest generation) = some own → own = generation := by
    rintro own same
    exact (Option.some.inj same).symm
  refine ⟨by simp [isWrittenOnce], ?_, ?_, ?_, ?_⟩
  · intro own owner
    exact own_eq own owner ▸ drawn
  · intro own owner
    obtain rfl := own_eq own owner
    rwa [listed]
  · intro own owner
    obtain rfl := own_eq own owner
    refine ⟨data, ?_, begins.trans backup_put_grown, ?_⟩
    · rw [listed]
      exact (segmentsData_store (by simp)).trans held
    · rw [listed, length]
  · intro own owner outside index present
    obtain rfl := own_eq own owner
    rw [object_put_bucket, if_neg (by simp)] at present
    rw [listed]
    exact .inl (covers outside index present)

end

section
variable {config} {q : Request} {cut : Option Str} {v v' : Vault} {σ : Type} {s : σ} {o : Object}
  {raw encoded : Bytes}

theorem served_aside {c : Call} {reply : c.Reply} (aside : isAside c = true)
    (served : vaultServer config q v c reply v') : Aside config v v' := by
  obtain ⟨bucketed, -, -, -, noted⟩ := served
  have unnoted : v'.deposits = v.deposits := by
    rw [noted]
    cases c with
    | putObject | newUuid => cases aside
    | _ => rfl
  refine ⟨by rw [unnoted], by rw [unnoted], by rw [unnoted]; exact fun _ h => h, ?_⟩
  intro o x here
  cases c with
  | putObject | newUuid => cases aside
  | deleteObject key =>
    have erased : v'.bucket = v.bucket ∨ v'.bucket = v.bucket.erase key := by
      cases reply with
      | ok => exact .inr bucketed
      | error => exact bucketed
    obtain same | same := erased
    · rwa [same] at here
    · rw [same] at here
      by_cases own : objectKey config o = key
      · rw [object, own, AList.lookup_erase] at here
        cases here
      · rwa [object, AList.lookup_erase_ne own] at here
  | _ =>
    rwa [bucketed.same (by simp) (by simp)] at here

/-- A call that draws no id and puts nothing. -/
theorem wp_passed {c : Call} (aside : isAside c = true) (intact : Intact config cut v)
    {ok : c.Reply → σ → Vault → Prop} {err : Error → σ → Vault → Prop}
    (hok : ∀ reply v', Aside config v v' → vaultServer config q v c reply v' → ok reply s v') :
    Op.wp (vaultServer config q) (tended config cut) (call c) ok err s v := by
  intro reply v' served
  have passed := served_aside aside served
  exact ⟨⟨passed.advances, passed.intact intact⟩, hok reply v' passed served⟩

/-- An object is put. -/
theorem wp_deposited (intact : Intact config cut v) (encodes : o ≠ .latest → Encodes pf config raw encoded)
    {ok : Unit → σ → Vault → Prop} {err : Error → σ → Vault → Prop}
    (fits : (o ≠ .latest → pipelineDecode pf encoded config = .ok raw) → Fits config q cut v o encoded)
    (hok : (o ≠ .latest → pipelineDecode pf encoded config = .ok raw) →
      (∀ generation index, o = .segment generation index → index + 1 < 2 ^ 32) →
      Intact config cut (v.put config q o encoded) → ok () s (v.put config q o encoded)) :
    Op.wp (vaultServer config q) (tended config cut) ((S3Client.new config.s3).putObject o.key encoded)
      ok err s v := by
  refine wp_attempts (I := fun _ w => w = v) (J := fun _ _ => False) ?_ ?_ ?_ rfl
  · rintro - _ rfl
    rw [wp_orFail]
    rintro reply ⟨b', d'⟩ ⟨bucketed, sound, well, -, noted⟩
    cases reply with
    | error e => exact absurd sound id
    | ok =>
      obtain rfl := (bucketed : b' = _)
      obtain rfl := (noted : d' = _)
      have decodes : o ≠ .latest → pipelineDecode pf encoded config = .ok raw := fun other =>
        well.1 (mt (objectKey_inj config).mp other) raw (encodes other)
      have fit := fits decodes
      refine ⟨⟨fit.advances, fit.intact intact⟩, hok decodes ?_ (fit.intact intact)⟩
      exact fun generation index same => well.2 generation index (congrArg (objectKey config) same)
  · intro _ _ _ _ _ impossible
    exact impossible.elim
  · intro _ _ impossible
    exact impossible.elim

/-- Encoding does not fail. -/
theorem wp_sealed (codec : Codec config) (intact : Intact config cut v)
    {ok : Bytes → σ → Vault → Prop} {err : Error → σ → Vault → Prop}
    (hok : ∀ encoded v', Aside config v v' → Encodes pf config raw encoded → ok encoded s v') :
    Op.wp (vaultServer config q) (tended config cut) (pipelineEncode pf config raw) ok err s v := by
  refine wp_pipelineEncode_of config (J := Aside config v) ?_ (.refl v) ?_ ?_
  · intro w n bytes w' passed served
    have step := served_aside rfl served
    refine ⟨⟨step.advances, step.intact (passed.intact intact)⟩, ?_, passed.trans step⟩
    exact served.1.1
  · intro encoded w passed encodes
    exact hok encoded w passed encodes
  · intro e w _ fails
    obtain ⟨encoded, impossible⟩ := codec.encodes raw _ fails
    cases impossible

theorem wp_dated (intact : Intact config cut v) {ok : Nat → σ → Vault → Prop}
    {err : Error → σ → Vault → Prop} (hok : ∀ now v', Aside config v v' → ok now s v') :
    Op.wp (vaultServer config q) (tended config cut) nowMs ok err s v := by
  refine (Op.wp_bind _ _).mpr (wp_passed rfl intact fun reply v' passed _ => ?_)
  cases reply with
  | ok ms => exact hok _ v' passed
  | error e => exact hok _ v' passed

/-- An object that is read is one that was put. -/
theorem wp_withdrawn (intact : Intact config cut v) {ok : Bytes → σ → Vault → Prop}
    {err : Error → σ → Vault → Prop}
    (hok : ∀ raw v', Aside config v v' → object config v.deposits.uploads o = some raw → ok raw s v')
    (herr : ∀ e v', Aside config v v' → err e s v') :
    Op.wp (vaultServer config q) (tended config cut) ((S3Client.new config.s3).getObject o.key)
      ok err s v := by
  refine wp_attempts (I := fun _ => Aside config v) (J := fun _ => Aside config v) ?_ ?_ herr
    (.refl v)
  · intro _ w passed
    rw [wp_orFail]
    refine wp_passed rfl (passed.intact intact) fun reply w' passed' served => ?_
    cases reply with
    | ok raw =>
      have here : object config w.bucket o = some raw := served.1.1
      exact hok raw w' (passed.trans passed') (intact.held o raw (passed.bucket o raw here))
    | error e => exact ⟨rfl, passed.trans passed'⟩
  · intro _ w ms reply w' passed served
    have step := served_aside rfl served
    exact ⟨⟨step.advances, step.intact (passed.intact intact)⟩, passed.trans step⟩

/-- Objects are deleted. -/
theorem wp_discarded {s3 : S3Client} (client : s3 = S3Client.new config.s3)
    (intact : Intact config cut v) (objects : List Object)
    {ok : Unit → σ → Vault → Prop} {err : Error → σ → Vault → Prop}
    (hok : ∀ v', Aside config v v' → (∀ o ∈ objects, object config v'.bucket o = none) → ok () s v') :
    Op.wp (vaultServer config q) (tended config cut) (s3.deleteObjects (objects.map Object.key))
      ok err s v := by
  subst client
  induction objects generalizing v ok with
  | nil => exact hok v (.refl v) (List.forall_mem_nil _)
  | cons o rest ih =>
    rw [List.map_cons, S3Client.deleteObjects, Op.wp_bind]
    refine wp_attempts (I := fun _ w => w = v) (J := fun _ _ => False) ?_ ?_ ?_ rfl
    · rintro - _ rfl
      rw [wp_orFail]
      refine wp_passed rfl intact fun reply w passed served => ?_
      cases reply with
      | error e => exact absurd served.2.1 id
      | ok =>
        have gone : object config w.bucket o = none := by
          rw [(served.1 : w.bucket = _)]
          exact AList.lookup_erase _ _
        refine ih (passed.intact intact) fun v' passed' erased => ?_
        refine hok v' (passed.trans passed') fun o' among => ?_
        obtain rfl | among := List.mem_cons.mp among
        · by_contra present
          obtain ⟨x, here⟩ := Option.ne_none_iff_exists'.mp present
          cases gone.symm.trans (passed'.bucket o' x here)
        · exact erased o' among
    · intro _ _ _ _ _ impossible
      exact impossible.elim
    · intro _ _ impossible
      exact impossible.elim

end

end Waloy.Spec
