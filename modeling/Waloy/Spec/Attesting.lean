import Waloy.Spec.Attested

/-!
# The operations keep the manifests attested

What a manager remembers of its generation is attested, and it is what the bucket lists,
whenever no operation runs. A segment that did not get through is not listed, and no other
upload is given up.
-/
namespace Waloy.Spec
open Waloy.Effect Waloy.Source Waloy.Source.BackupManager

variable {pf : Platform} (config : BackupConfig pf.build)

/-- The manager uploads for its generation, and all other manifests are attested. -/
structure Authors (m : BackupManager pf.build) (l : Ledger) : Prop where
  uses : Uses config m
  named : m.manifest.generation = m.generation
  others : Others config m.generation l

/-- A generation that is new to the bucket, whose snapshot is still to be taken. -/
structure Begun (m : BackupManager pf.build) (l : Ledger) : Prop extends Authors config m l where
  unlisted : object config l.bucket (.manifest m.generation) = none

/-- Where the manager stands in its generation. -/
structure Stands (m : BackupManager pf.build) (time : Nat) : Prop where
  tiles : Tiles 0 m.manifest.segments m.walOffset
  below : ∀ s ∈ m.manifest.segments, s.index < m.walIndex
  recorded : ∀ s ∈ m.manifest.segments, s.timestampMs ≤ time

/-- Segments were written from an index on. -/
structure Rewritten (generation : Str) (index : Nat) (l l' : Ledger) : Prop where
  grows : l.account.Grows l'.account
  others : Others config generation l → Others config generation l'
  kept : ∀ o, (∀ i, index ≤ i → o ≠ .segment generation i) →
    object config l'.bucket o = object config l.bucket o

/-- The manifest of the manager is attested, and the one of the bucket. -/
structure Vouched (m : BackupManager pf.build) (l : Ledger) : Prop extends Authors config m l where
  attested : Attested config l m.manifest
  listed : manifestAt config l.bucket m.generation = some m.manifest
  stands : Stands m l.account.time

section
variable {config} {q : Request} {m m' : BackupManager pf.build} {l : Ledger} {b b' : Bucket}
  {acc acc' : Account} {o : Object} {data : Bytes} {time time' : Nat}

theorem Stands.later (stands : Stands m time) (later : time ≤ time') : Stands m time' :=
  { stands with recorded := fun s hs => Nat.le_trans (stands.recorded s hs) later }

/-- One segment further. -/
theorem Stands.added {t : Nat} (stands : Stands m time) (size : Nat) (later : time ≤ t) :
    Stands { m with
      manifest := m.manifest.addSegment m.walIndex t m.walOffset size
      walOffset := m.walOffset + size
      walIndex := m.walIndex + 1 } t where
  tiles := stands.tiles.append ⟨rfl, rfl⟩
  below := by
    intro s hs
    obtain old | new := List.mem_append.mp hs
    · exact Nat.lt_succ_of_lt (stands.below s old)
    · obtain rfl := List.mem_singleton.mp new
      exact Nat.lt_succ_self _
  recorded := by
    intro s hs
    obtain old | new := List.mem_append.mp hs
    · exact Nat.le_trans (stands.recorded s old) later
    · obtain rfl := List.mem_singleton.mp new
      exact Nat.le_refl _

theorem Authors.grow (authors : Authors config m ⟨b, acc⟩) (grows : acc.Grows acc') :
    Authors config m ⟨b, acc'⟩ :=
  { authors with others := authors.others.grow grows }

theorem Authors.store (authors : Authors config m ⟨b, acc⟩)
    (owner : ∀ own, ownerOf o = some own → own = m.generation) :
    Authors config m ⟨store config b o data, acc⟩ :=
  { authors with others := authors.others.store owner }

theorem Vouched.grow (vouched : Vouched config m ⟨b, acc⟩) (grows : acc.Grows acc') :
    Vouched config m ⟨b, acc'⟩ where
  toAuthors := vouched.toAuthors.grow grows
  attested := vouched.attested.congr grows rfl fun _ _ => rfl
  listed := vouched.listed
  stands := vouched.stands.later grows.later

theorem Vouched.all (vouched : Vouched config m l) : AllAttested config l := by
  have others := vouched.others
  rw [← vouched.named] at others
  exact others.all_of_listed (vouched.named ▸ vouched.listed) vouched.attested

/-- Only the manifest, the positions and the generation matter. -/
theorem Vouched.keep (vouched : Vouched config m l) (uses : Uses config m')
    (generation : m'.generation = m.generation) (manifest : m'.manifest = m.manifest)
    (offset : m'.walOffset = m.walOffset) (index : m'.walIndex = m.walIndex) :
    Vouched config m' l where
  uses := uses
  named := by rw [manifest, generation, vouched.named]
  others := generation ▸ vouched.others
  attested := manifest ▸ vouched.attested
  listed := by rw [generation, manifest, vouched.listed]
  stands := by
    obtain ⟨tiles, below, recorded⟩ := vouched.stands
    exact ⟨by rwa [manifest, offset], by rwa [manifest, index], by rwa [manifest]⟩

theorem Rewritten.refl (generation : Str) (index : Nat) (grows : acc.Grows acc') :
    Rewritten config generation index ⟨b, acc⟩ ⟨b, acc'⟩ :=
  ⟨grows, fun others => others.grow grows, fun _ _ => rfl⟩

theorem rewritten_store {generation : Str} {index : Nat} (grows : acc.Grows acc') :
    Rewritten config generation index ⟨b, acc⟩
      ⟨store config b (.segment generation index) data, acc'⟩ where
  grows := grows
  others others := (others.store (o := .segment generation index) fun own owner =>
    (Option.some.inj owner).symm).grow grows
  kept o apart := by rw [object_store, if_neg (apart index (Nat.le_refl _))]

theorem Rewritten.trans {generation : Str} {index index' : Nat} {l' l'' : Ledger}
    (first : Rewritten config generation index l l')
    (second : Rewritten config generation index' l' l'') (above : index ≤ index') :
    Rewritten config generation index l l'' where
  grows := first.grows.trans second.grows
  others others := second.others (first.others others)
  kept o apart := (second.kept o fun i le => apart i (Nat.le_trans above le)).trans (first.kept o apart)

theorem Rewritten.segment {generation : Str} {index i : Nat} {l' : Ledger}
    (rewritten : Rewritten config generation index l l') (below : i < index) :
    object config l'.bucket (.segment generation i) = object config l.bucket (.segment generation i) := by
  refine rewritten.kept _ fun j le same => ?_
  injection same with _ index_eq
  omega

/-- Segments that are not listed do no harm. -/
theorem Vouched.rewritten {l' : Ledger} (vouched : Vouched config m l)
    (rewritten : Rewritten config m.generation m.walIndex l l') : Vouched config m l' where
  uses := vouched.uses
  named := vouched.named
  others := rewritten.others vouched.others
  attested := by
    refine vouched.attested.congr rewritten.grows (rewritten.kept _ (by simp)) fun s hs => ?_
    rw [vouched.named]
    exact rewritten.segment (vouched.stands.below s hs)
  listed := by
    rw [← vouched.listed]
    exact manifestAt_congr config (rewritten.kept _ (by simp))
  stands := vouched.stands.later rewritten.grows.later

section
variable (codec : Codec config)
include codec

/-- The manifest of the manager gets through, except perhaps in `new`. -/
theorem wp_manifest_attested (authors : Authors config m l)
    (unlisted : q = .new → object config l.bucket (.manifest m.generation) = none)
    (attested : Attested config l m.manifest) :
    Op.wp (ledgerServer config q) anyCall (uploadManifest pf)
      (fun _ m' l' => m' = m ∧ Authors config m l' ∧ Attested config l' m.manifest ∧
        manifestAt config l'.bucket m.generation = some m.manifest ∧
        l.account.Grows l'.account)
      (fun _ _ l' => q = .new ∧ AllAttested config l') m l := by
  obtain ⟨b, acc⟩ := l
  have kept : ∀ {acc'} encoded, acc.Grows acc' → Authors config m
      ⟨store config b (.manifest m.generation) encoded, acc'⟩ := fun encoded grows =>
    (authors.store (o := .manifest m.generation) fun own owner =>
      (Option.some.inj owner).symm).grow grows
  have still : ∀ {acc'} encoded, acc.Grows acc' → Attested config
      ⟨store config b (.manifest m.generation) encoded, acc'⟩ m.manifest := fun encoded grows =>
    attested.congr grows (by simp) fun s _ => by simp
  obtain ⟨json, written⟩ := codec.serializes m.manifest
  simp only [uploadManifest, Op.wp_bind, Op.wp_get, Op.wp_ofExcept, authors.uses.1, authors.uses.2,
    written, Except.mapError]
  refine wp_encoded codec fun encoded acc₁ grows₁ encodes => ?_
  refine wp_stored (o := .manifest m.generation) (fun _ => encodes) ?_ ?_
  · intro acc₂ grows₂ decodes _
    have listed := decodeManifest_of_decode (decodes (by simp)) (codec.parses _ _ written)
    have grows := grows₁.trans grows₂
    exact ⟨rfl, kept encoded grows, still encoded grows, manifestAt_store listed, grows⟩
  · rintro given_up e b' acc₂ grows₂ partly
    have new : q = .new := given_up.resolve_right (by simp [isMark])
    have grows := grows₁.trans grows₂
    refine ⟨new, ?_⟩
    obtain rfl | ⟨rfl, decodes⟩ := partly
    · exact (authors.grow grows).others.all_of_unlisted (unlisted new)
    · have listed := decodeManifest_of_decode (decodes (by simp)) (codec.parses _ _ written)
      have others := (kept encoded grows).others
      rw [← authors.named] at others ⊢
      exact others.all_of_listed (manifestAt_store listed) (authors.named.symm ▸ still encoded grows)

/-- A snapshot gets through, except perhaps in `new`, and its generation starts over. -/
theorem wp_snapshot_attested (authors : Authors config m l)
    (unlisted : q = .new → object config l.bucket (.manifest m.generation) = none) :
    Op.wp (ledgerServer config q) anyCall (snapshot pf)
      (fun _ m' l' => Vouched config m' l')
      (fun _ _ l' => q = .new ∧ AllAttested config l') m l := by
  obtain ⟨b, acc⟩ := l
  have saved : ∀ {acc'} encoded, acc.Grows acc' → Authors config m
      ⟨store config b (.snapshot m.generation) encoded, acc'⟩ := fun encoded grows =>
    (authors.store (o := .snapshot m.generation) fun own owner =>
      (Option.some.inj owner).symm).grow grows
  have marked : ∀ {acc'} encoded, acc.Grows acc' → Authors config m
      ⟨store config (store config b (.snapshot m.generation) encoded) .latest
        (asBytes m.generation), acc'⟩ := fun encoded grows =>
    ((saved encoded (.refl acc)).store (o := .latest) (by simp [ownerOf])).grow grows
  simp only [snapshot, Op.wp_bind, Op.wp_get, Op.wp_modify, authors.uses.1, authors.uses.2]
  refine wp_seen fun raw acc₁ grows₁ saw => ?_
  rw [authors.uses.1] at saw
  refine wp_encoded codec fun encoded acc₂ grows₂ encodes => ?_
  refine wp_stored (o := .snapshot m.generation) (fun _ => encodes) ?_ ?_
  swap
  · rintro given_up e b' acc₃ grows₃ partly
    have new : q = .new := given_up.resolve_right (by simp [isMark])
    have grows := (grows₁.trans grows₂).trans grows₃
    refine ⟨new, ?_⟩
    obtain rfl | ⟨rfl, -⟩ := partly
    · exact (authors.grow grows).others.all_of_unlisted (unlisted new)
    · refine (saved encoded grows).others.all_of_unlisted ?_
      simpa using unlisted new
  intro acc₃ grows₃ decodes _
  have grows := (grows₁.trans grows₂).trans grows₃
  have unencoded : Object.latest ≠ .latest → Encodes pf config raw (asBytes m.generation) :=
    fun other => absurd rfl other
  refine wp_stored (o := .latest) unencoded ?_ ?_
  swap
  · rintro given_up e b' acc₄ grows₄ partly
    have new : q = .new := given_up.resolve_right (by simp [isMark])
    refine ⟨new, ?_⟩
    obtain rfl | ⟨rfl, -⟩ := partly
    · refine (saved encoded (grows.trans grows₄)).others.all_of_unlisted ?_
      simpa using unlisted new
    · refine (marked encoded (grows.trans grows₄)).others.all_of_unlisted ?_
      simpa using unlisted new
  intro acc₄ grows₄ _ _
  refine wp_posted (by simp) (by simp) fun _ acc₅ grows₅ _ => ?_
  refine wp_posted (by simp) (by simp) fun _ acc₆ grows₆ _ => ?_
  refine wp_timed fun acc₇ grows₇ => ?_
  have later : acc₁.Grows acc₇ :=
    ((((grows₂.trans grows₃).trans grows₄).trans grows₅).trans grows₆).trans grows₇
  have held : content config (store config (store config b (.snapshot m.generation) encoded) .latest
      (asBytes m.generation)) (.snapshot m.generation) = some raw := by
    have same : object config (store config (store config b (.snapshot m.generation) encoded)
        .latest (asBytes m.generation)) (.snapshot m.generation) =
        object config (store config b (.snapshot m.generation) encoded) (.snapshot m.generation) := by
      simp
    rw [content_congr config same]
    exact content_store (decodes (by simp))
  have manifest_attested : Attested config ⟨store config
      (store config b (.snapshot m.generation) encoded) .latest (asBytes m.generation), acc₇⟩
      { m.manifest with snapshotTimestampMs := acc₇.time, segments := [] } :=
    { snapshot := ⟨raw, by rw [authors.named]; exact held, (saw.mono later).later later.later⟩
      tiles := ⟨0, rfl⟩
      ordered := .nil
      segments := List.forall_mem_nil _ }
  have writes := marked encoded (grows₁.trans later)
  refine Op.wp_mono (wp_manifest_attested codec ⟨writes.uses, writes.named, writes.others⟩ ?_
    manifest_attested) ?_ fun _ _ _ h => h
  · intro new
    simpa using unlisted new
  · rintro _ _ l' ⟨rfl, authors', attested', listed', -⟩
    exact ⟨authors', attested', listed', ⟨rfl, List.forall_mem_nil _, List.forall_mem_nil _⟩⟩

end

/-- Calls that leave the bucket alone, and assignments to other fields. -/
theorem keeps_apart {c : Call} (put : ∀ key data, c ≠ .putObject key data)
    (delete : ∀ key, c ≠ .deleteObject key) :
    Op.Keeps (ledgerServer config q) (Vouched config) (call c : Method pf c.Reply) := by
  rintro m ⟨b, acc⟩ vouched
  exact wp_posted put delete fun _ _ grows _ => vouched.grow grows

theorem keeps_reassign {f : BackupManager pf.build → BackupManager pf.build}
    (hf : ∀ m, (f m).config = m.config ∧ (f m).s3 = m.s3 ∧ (f m).generation = m.generation ∧
      (f m).manifest = m.manifest ∧ (f m).walOffset = m.walOffset ∧ (f m).walIndex = m.walIndex) :
    Op.Keeps (ledgerServer config q) (Vouched config) (modify f : Method pf PUnit) := by
  refine Op.keeps_modify fun m _ h => ?_
  obtain ⟨hconfig, hs3, generation, manifest, offset, index⟩ := hf m
  exact h.keep ⟨hconfig.trans h.uses.1, hs3.trans h.uses.2⟩ generation manifest offset index

theorem keeps_begin_attested :
    Op.Keeps (ledgerServer config q) (Vouched config) (beginReadTransaction pf) := by
  refine Op.keeps_get fun self l _ => Op.Keeps.ite (fun _ => Op.keeps_pure _) fun _ => ?_
  refine (keeps_orFail (keeps_apart (by simp) (by simp))).bind fun _ => ?_
  refine (keeps_orFail (keeps_apart (by simp) (by simp))).bind fun _ => ?_
  exact keeps_reassign fun _ => ⟨rfl, rfl, rfl, rfl, rfl, rfl⟩

theorem keeps_end_attested :
    Op.Keeps (ledgerServer config q) (Vouched config) (endReadTransaction pf) := by
  refine Op.keeps_get fun self l _ => Op.Keeps.ite (fun _ => ?_) fun _ => Op.keeps_pure _
  refine (keeps_apart (by simp) (by simp)).bind fun _ => ?_
  exact keeps_reassign fun _ => ⟨rfl, rfl, rfl, rfl, rfl, rfl⟩

theorem wp_startGeneration_attested (vouched : Vouched config m l) :
    Op.wp (ledgerServer config q) anyCall (startGeneration pf)
      (fun _ m' l' => Begun config m' l') (fun _ _ _ => False) m l := by
  obtain ⟨b, acc⟩ := l
  simp only [startGeneration, Op.wp_bind, Op.wp_modify]
  refine wp_drawn fun generation acc₁ grows₁ fresh => ?_
  refine wp_timed fun acc₂ grows₂ => ?_
  have all := vouched.all.grow (grows₁.trans grows₂)
  exact ⟨⟨vouched.uses, rfl, all.others⟩, fresh.absent rfl⟩

section
variable (codec : Codec config) (later : q ≠ .new)
include codec later

theorem keeps_snapshot_attested :
    Op.Keeps (ledgerServer config q) (Vouched config) (snapshot pf) := by
  intro m l vouched
  refine Op.wp_mono (wp_snapshot_attested codec vouched.toAuthors fun new => absurd new later)
    (fun _ _ _ h => h) ?_
  rintro e m' l' ⟨new, -⟩
  exact absurd new later

/-- A generation that is begun gets its snapshot. -/
theorem wp_begun_snapshot (begun : Begun config m l) :
    Op.wp (ledgerServer config q) anyCall (snapshot pf) (fun _ m' l' => Vouched config m' l')
      (fun _ _ _ => False) m l := by
  refine Op.wp_mono (wp_snapshot_attested codec begun.toAuthors fun _ => begun.unlisted)
    (fun _ _ _ h => h) ?_
  rintro e m' l' ⟨new, -⟩
  exact later new

theorem keeps_recover_attested :
    Op.Keeps (ledgerServer config q) (Vouched config) (recover pf) := by
  refine keeps_end_attested.bind fun _ => ?_
  intro m l vouched
  rw [Op.wp_bind]
  refine Op.wp_mono (wp_startGeneration_attested vouched) (fun _ m₁ l₁ begun => ?_)
    fun _ _ _ => False.elim
  rw [Op.wp_bind]
  refine Op.wp_mono (wp_begun_snapshot codec later begun) (fun _ m₂ l₂ vouched₂ => ?_)
    fun _ _ _ => False.elim
  exact keeps_begin_attested m₂ l₂ vouched₂

theorem wp_uploadSegment_attested {walData : Bytes} {alignedLen : Nat} (vouched : Vouched config m l)
    (saw : l.account.Saw (walPathOf config) l.account.time walData) :
    Op.wp (ledgerServer config q) anyCall (uploadSegment pf walData alignedLen)
      (fun _ m' l' => Vouched config m' l') (fun _ m' l' => Vouched config m' l') m l := by
  obtain ⟨b, acc⟩ := l
  simp only [uploadSegment, Op.wp_bind, Op.wp_get, Op.wp_modify, Op.wp_ofOption, vouched.uses.1,
    vouched.uses.2]
  intro newData sliced
  refine wp_encoded codec fun encoded acc₁ grows₁ encodes => ?_
  refine wp_stored (o := .segment m.generation m.walIndex) (fun _ => encodes) ?_ ?_
  swap
  · rintro - e b' acc₂ grows₂ partly
    have grows := grows₁.trans grows₂
    obtain rfl | ⟨rfl, -⟩ := partly
    · exact vouched.grow grows
    · exact vouched.rewritten (rewritten_store grows)
  intro acc₂ grows₂ decodes bound
  refine wp_timed fun acc₃ grows₃ => ?_
  have grows := (grows₁.trans grows₂).trans grows₃
  have saved : Vouched config m
      ⟨store config b (.segment m.generation m.walIndex) encoded, acc₃⟩ :=
    vouched.rewritten (rewritten_store grows)
  have sliced_eq : newData = (walData.drop m.walOffset).take (alignedLen - m.walOffset) ∧
      alignedLen = m.walOffset + newData.length := by
    unfold slice at sliced
    split at sliced
    case isTrue inside =>
      cases sliced
      refine ⟨rfl, ?_⟩
      rw [List.length_take, List.length_drop]
      omega
    case isFalse => cases sliced
  have seen : SegmentSeen config ⟨store config b (.segment m.generation m.walIndex) encoded, acc₃⟩
      m.manifest.generation ⟨m.walIndex, acc₃.time, m.walOffset, newData.length⟩ := by
    refine ⟨newData, ?_, rfl, ?_⟩
    · rw [vouched.named]
      exact content_store (decodes (by simp))
    · have part := saw.sawAt.part m.walOffset (alignedLen - m.walOffset)
      rw [← sliced_eq.1, Nat.zero_add] at part
      exact part.mono grows grows.later
  have listed_attested := saved.attested.added saved.stands.tiles saved.stands.recorded seen
  refine Op.wp_mono (wp_manifest_attested codec ⟨saved.uses, saved.named, saved.others⟩
    (fun new => absurd new later) listed_attested) ?_ ?_
  swap
  · rintro e m' l' ⟨new, -⟩
    exact absurd new later
  rintro _ _ ⟨b₄, acc₄⟩ ⟨rfl, authors, attested, listed, grows₄⟩
  refine wp_posted (by simp) (by simp) fun _ acc₅ grows₅ _ => ?_
  intro next counted
  rw [incrementU32_of_lt _ (bound _ _ rfl)] at counted
  cases counted
  have stands := (saved.stands.added newData.length (Nat.le_refl _)).later
    (grows₄.trans grows₅).later
  rw [← sliced_eq.2] at stands
  exact
    { uses := authors.uses
      named := authors.named
      others := authors.others.grow grows₅
      attested := attested.congr grows₅ rfl fun _ _ => rfl
      listed := listed
      stands := ⟨stands.tiles, stands.below, stands.recorded⟩ }

theorem keeps_syncWal_attested :
    Op.Keeps (ledgerServer config q) (Vouched config) (syncWal pf) := by
  refine Op.keeps_get fun self _ held => ?_
  refine (keeps_apart (by simp) (by simp)).bind fun found => ?_
  refine Op.Keeps.ite (fun _ => Op.keeps_pure _) fun _ => ?_
  rintro m ⟨b, acc⟩ vouched
  have path : self.walPath pf = walPathOf config := by
    unfold walPath walPathOf
    rw [held.uses.1]
  rw [path, Op.wp_bind]
  refine wp_seen fun walData acc₁ grows₁ saw => ?_
  have vouched₁ := vouched.grow grows₁
  refine Op.wp_ite (fun _ => vouched₁) fun _ => Op.wp_ite (fun _ => ?_) fun _ => ?_
  · exact ((keeps_recover_attested codec later).bind fun _ => Op.keeps_pure _) m _ vouched₁
  have captured : Vouched config (m.captureSalt pf walData) ⟨b, acc₁⟩ := by
    unfold captureSalt
    split
    · exact vouched₁.keep vouched₁.uses rfl rfl rfl rfl
    · exact vouched₁
  rw [Op.wp_bind, Op.wp_modify]
  refine Op.wp_ite (fun _ => captured) fun _ => ?_
  rw [Op.wp_bind]
  exact Op.wp_mono (wp_uploadSegment_attested codec later captured saw) (fun _ _ _ h => h)
    fun _ _ _ h => h

theorem keeps_checkpoint_attested :
    Op.Keeps (ledgerServer config q) (Vouched config) (checkpoint pf) := by
  refine (keeps_syncWal_attested codec later).bind fun _ => ?_
  refine keeps_end_attested.bind fun _ => ?_
  refine Op.keeps_get fun self _ _ => ?_
  refine (keeps_orFail (keeps_apart (by simp) (by simp))).bind fun _ => ?_
  intro m l vouched
  rw [Op.wp_bind]
  refine Op.wp_mono (wp_startGeneration_attested vouched) (fun _ m₁ l₁ begun => ?_)
    fun _ _ _ => False.elim
  rw [Op.wp_bind, Op.wp_attempt]
  refine Op.wp_mono (wp_begun_snapshot codec later begun) (fun _ m₂ l₂ vouched₂ => ?_)
    fun _ _ _ => False.elim
  exact (keeps_begin_attested.bind fun _ => Op.keeps_ofExcept _) m₂ l₂ vouched₂

theorem keeps_maybeSnapshot_attested :
    Op.Keeps (ledgerServer config q) (Vouched config) (maybeSnapshot pf) := by
  refine Op.keeps_get fun self _ _ => ?_
  cases self.config.snapshotInterval with
  | none => exact Op.keeps_pure _
  | some interval =>
    refine (keeps_apart (by simp) (by simp)).bind fun now => ?_
    refine Op.Keeps.ite (fun _ => ?_) fun _ => Op.keeps_pure _
    exact (keeps_checkpoint_attested codec later).bind fun _ => Op.keeps_pure _

end

/-- Where there is no manager, or none any more. -/
theorem keeps_call_all {σ : Type} {c : Call} (put : ∀ key data, c ≠ .putObject key data)
    (delete : ∀ key, c ≠ .deleteObject key) :
    Op.Keeps (ledgerServer config q) (fun (_ : σ) l => AllAttested config l) (call c) := by
  rintro s ⟨b, acc⟩ all
  exact wp_posted put delete fun _ _ grows _ => all.grow grows

theorem keeps_end_all : Op.Keeps (ledgerServer config q)
    (fun (_ : BackupManager pf.build) l => AllAttested config l) (endReadTransaction pf) := by
  refine Op.keeps_get fun self _ _ => Op.Keeps.ite (fun _ => ?_) fun _ => Op.keeps_pure _
  exact (keeps_call_all (by simp) (by simp)).bind fun _ => Op.keeps_modify fun _ _ h => h

/-- A restore puts and deletes nothing. -/
theorem keeps_restoreFirst_all :
    Op.Keeps (ledgerServer config q) (fun (_ : Unit) l => AllAttested config l)
      (restoreFirst config) := by
  let reads (c : Call) : Prop := (∀ key data, c ≠ .putObject key data) ∧ ∀ key, c ≠ .deleteObject key
  have fetches : ∀ c, isFetchCall c = true → reads c := by
    intro c fetch
    cases c with
    | putObject | deleteObject => cases fetch
    | _ => exact ⟨by simp, by simp⟩
  have replays : ∀ c, isReplayCall c = true → reads c := by
    intro c replay
    cases c with
    | putObject | deleteObject => cases replay
    | _ => exact ⟨by simp, by simp⟩
  have within : Op.Within reads (fun _ => True) (restoreFirst config) := by
    refine Op.Within.ite (fun _ => ?_) fun _ => Op.within_pure _
    refine Op.Within.bind (Op.within_call ⟨by simp, by simp⟩) fun found => ?_
    refine Op.Within.ite (fun _ => ?_) fun _ => Op.within_pure _
    exact (uses_restoreLatest config fetches replays _ _).within
  have kept : ∀ l c reply l', AllAttested config l → reads c →
      ledgerServer config q l c reply l' → AllAttested config l' := by
    rintro ⟨b, acc⟩ c reply ⟨b', acc'⟩ all reading ⟨bucketed, -, -, noted, -⟩
    obtain rfl := bucketed.same reading.1 reading.2
    exact all.grow (Account.keep_grows noted)
  intro s l all
  exact Op.wp_mono (within.keeps kept s l ⟨trivial, all⟩) (fun _ _ _ h => h.2) fun _ _ _ h => h.2

/-- A manager that is opened has the manifest of its generation in the bucket. -/
theorem wp_new_attested (codec : Codec config) (all : AllAttested config l) :
    Op.wp (ledgerServer config q) anyCall (new pf config)
      (fun m _ l' => Vouched config m l') (fun _ _ l' => AllAttested config l') () l := by
  have fails : ∀ (_ : Error) (_ : Unit) (l' : Ledger), AllAttested config l' →
      AllAttested config l' := fun _ _ _ h => h
  rw [new_eq]
  refine keeps_restoreFirst_all.next all (fun _ _ l₁ all₁ => ?_) fails
  refine (keeps_orFail (keeps_call_all (by simp) (by simp))).next all₁
    (fun readConn _ l₂ all₂ => ?_) fails
  refine (keeps_orFail (keeps_call_all (by simp) (by simp))).next all₂ (fun _ _ l₃ all₃ => ?_) fails
  refine (keeps_orFail (keeps_call_all (by simp) (by simp))).next all₃ (fun _ _ l₄ all₄ => ?_) fails
  refine (keeps_orFail (keeps_call_all (by simp) (by simp))).next all₄ (fun _ _ l₅ all₅ => ?_) fails
  obtain ⟨b, acc⟩ := l₅
  simp only [Op.wp_bind]
  refine wp_drawn fun generation acc₁ grows₁ fresh => ?_
  refine wp_timed fun acc₂ grows₂ => ?_
  refine wp_posted (by simp) (by simp) fun now acc₃ grows₃ _ => ?_
  have all₆ := all₅.grow ((grows₁.trans grows₂).trans grows₃)
  have unlisted : object config b (.manifest generation) = none := fresh.absent rfl
  rw [Op.wp_runOn, firstSnapshot, Op.wp_bind, Op.wp_attempt]
  refine Op.wp_mono (wp_snapshot_attested codec ⟨⟨rfl, rfl⟩, rfl, all₆.others⟩ fun _ => unlisted)
    (fun _ _ _ h => h) ?_
  rintro e m' l' ⟨-, all'⟩
  exact keeps_end_all.next all' (fun _ _ _ h => h) fun _ _ _ h => h

end

end Waloy.Spec
