import Waloy.Spec.Attesting

/-!
# A compaction keeps its manifest attested

The chunks of a compaction hold what the old segments held, at times after those of the old
segments, under indices that no listed segment has. The old segments are deleted once the
manifest does not list them any more.
-/
namespace Waloy.Spec
open Waloy.Effect Waloy.Source Waloy.Source.BackupManager

variable {pf : Platform} (config : BackupConfig pf.build)

/-- Segments hold the bytes of the WAL file from an offset on, under the indices from one
number to another. -/
structure Recounted (generation : Str) (allData : Bytes) (offset index : Nat) (since : Nat)
    (out : List SegmentMeta × Nat) (l : Ledger) : Prop where
  tiles : Tiles offset out.1 allData.length
  ordered : (out.1.map SegmentMeta.timestampMs).Pairwise (· ≤ ·)
  recorded : ∀ s ∈ out.1, since ≤ s.timestampMs ∧ s.timestampMs ≤ l.account.time
  above : index ≤ out.2
  numbered : ∀ s ∈ out.1, index ≤ s.index ∧ s.index < out.2
  seen : ∀ s ∈ out.1, SegmentSeen config l generation s

section
variable {config} {q : Request} {m self : BackupManager pf.build} {l l' : Ledger}
  {generation : Str} {allData data : Bytes} {segments : List SegmentMeta}
  {start stop offset index since : Nat}

theorem length_segmentsData (tiles : Tiles start segments stop)
    (seen : ∀ s ∈ segments, SegmentSeen config l generation s)
    (found : segmentsData config l.bucket generation segments = some data) :
    start + data.length = stop := by
  induction segments generalizing start data with
  | nil =>
    cases found
    exact tiles
  | cons s rest ih =>
    obtain ⟨x, hx, later⟩ := Option.bind_eq_some_iff.mp found
    obtain ⟨y, hy, rfl⟩ := Option.map_eq_some_iff.mp later
    obtain ⟨x', held, length, -⟩ := seen s List.mem_cons_self
    obtain rfl : x' = x := Option.some.inj (held.symm.trans hx)
    have := ih tiles.2 (fun s' hs' => seen s' (List.mem_cons_of_mem _ hs')) hy
    rw [List.length_append, length]
    omega

/-- The listed segments of an attested manifest hold the WAL file up to their end. -/
theorem Vouched.held (vouched : Vouched config m l)
    (found : segmentsData config l.bucket m.generation m.manifest.segments = some data) :
    data.length = m.walOffset ∧
      l.account.SawAt (walPathOf config) l.account.time 0 data := by
  have seen := vouched.attested.segments
  rw [vouched.named] at seen
  have all : (m.manifest.segments.filter fun s => s.timestampMs ≤ l.account.time) =
      m.manifest.segments := by
    refine List.filter_eq_self.mpr fun s hs => ?_
    exact decide_eq_true (vouched.stands.recorded s hs)
  constructor
  · have := length_segmentsData vouched.stands.tiles seen found
    omega
  · rw [← all] at found
    exact sawAt_segmentsData vouched.stands.tiles vouched.attested.ordered seen found

/-- A segment that the manifest does not list may be deleted. -/
theorem Vouched.erased {b : Bucket} {acc : Account} (vouched : Vouched config m ⟨b, acc⟩)
    (unlisted : ∀ s ∈ m.manifest.segments, s.index ≠ index) :
    Vouched config m ⟨b.erase (objectKey config (.segment m.generation index)), acc⟩ where
  uses := vouched.uses
  named := vouched.named
  others := vouched.others.erase rfl
  attested := by
    refine vouched.attested.congr (.refl _) (by simp) fun s hs => ?_
    rw [object_erase, if_neg]
    intro same
    injection same with _ same
    exact unlisted s hs same
  listed := by
    rw [← vouched.listed]
    exact manifestAt_congr config (by simp)
  stands := vouched.stands

theorem wp_downloadSegments_seen (hself : Uses config self) (segments : List SegmentMeta) :
    Op.wp (ledgerServer config q) anyCall
      (downloadSegments pf self (segments.map fun s => (Object.segment self.generation s.index).key))
      (fun data m' l' => m' = m ∧ segmentsData config l.bucket self.generation segments = some data ∧
        ∃ acc, l.account.Grows acc ∧ l' = ⟨l.bucket, acc⟩)
      (fun _ m' l' => m' = m ∧ ∃ acc, l.account.Grows acc ∧ l' = ⟨l.bucket, acc⟩) m l := by
  obtain ⟨b, acc⟩ := l
  induction segments generalizing acc with
  | nil => exact ⟨rfl, rfl, acc, .refl _, rfl⟩
  | cons s rest ih =>
    simp only [List.map_cons, downloadSegments, Op.wp_bind, hself.1, hself.2, Op.wp_ofExcept,
      Op.wp_pure]
    refine wp_fetched (fun raw acc₁ grows₁ found => ?_) fun e acc₁ grows₁ => ⟨rfl, acc₁, grows₁, rfl⟩
    cases decoded : pipelineDecode pf raw config with
    | error e => exact ⟨rfl, acc₁, grows₁, rfl⟩
    | ok bytes =>
      have present : object config b (.segment self.generation s.index) = some raw := found
      have here : content config b (.segment self.generation s.index) = some bytes := by
        unfold content
        rw [present, Option.bind_some, decoded]
        rfl
      refine Op.wp_mono (ih acc₁) ?_ ?_
      · rintro later m' l' ⟨rfl, replayed, acc₂, grows₂, rfl⟩
        refine ⟨rfl, ?_, acc₂, grows₁.trans grows₂, rfl⟩
        rw [segmentsData, here, Option.bind_some, replayed, Option.map_some]
      · rintro e m' l' ⟨rfl, acc₂, grows₂, rfl⟩
        exact ⟨rfl, acc₂, grows₁.trans grows₂, rfl⟩

theorem wp_uploadChunks_seen (codec : Codec config) (hself : Uses config self) (maxSize : Nat)
    (fuel : Nat) (inside : offset ≤ allData.length)
    (saw : l.account.SawAt (walPathOf config) l.account.time 0 allData) :
    Op.wp (ledgerServer config q) anyCall (uploadChunks pf self allData maxSize fuel offset index)
      (fun out m' l' => m' = m ∧ Rewritten config self.generation index l l' ∧
        Recounted config self.generation allData offset index l.account.time out l')
      (fun _ m' l' => m' = m ∧ Rewritten config self.generation index l l') m l := by
  obtain ⟨b, acc⟩ := l
  have finish : ∀ {b acc offset index}, ¬ offset < allData.length → offset ≤ allData.length →
      Rewritten config self.generation index ⟨b, acc⟩ ⟨b, acc⟩ ∧
      Recounted config self.generation allData offset index acc.time ([], index) ⟨b, acc⟩ := by
    intro b acc offset index finished inside
    have last : offset = allData.length := by omega
    exact ⟨.refl _ _ (.refl _),
      { tiles := last
        ordered := .nil
        recorded := List.forall_mem_nil _
        above := Nat.le_refl _
        numbered := List.forall_mem_nil _
        seen := List.forall_mem_nil _ }⟩
  induction fuel generalizing b acc offset index with
  | zero =>
    unfold uploadChunks
    exact Op.wp_ite (fun _ => trivial) fun finished => ⟨rfl, finish finished inside⟩
  | succ fuel ih =>
    unfold uploadChunks
    refine Op.wp_ite (fun more => ?_) fun finished => ⟨rfl, finish finished inside⟩
    simp only [Op.wp_bind, hself.1, hself.2, Op.wp_ofOption, Op.wp_pure]
    refine wp_encoded codec fun encoded acc₁ grows₁ encodes => ?_
    refine wp_stored (o := .segment self.generation index) (fun _ => encodes) ?_ ?_
    swap
    · rintro - e b' acc₂ grows₂ partly
      have grows := grows₁.trans grows₂
      obtain rfl | ⟨rfl, -⟩ := partly
      · exact ⟨rfl, .refl _ _ grows⟩
      · exact ⟨rfl, rewritten_store grows⟩
    intro acc₂ grows₂ decodes bound
    refine wp_timed fun acc₃ grows₃ next counted => ?_
    rw [incrementU32_of_lt _ (bound _ _ rfl)] at counted
    cases counted
    have grows : acc.Grows acc₃ := (grows₁.trans grows₂).trans grows₃
    have first : Rewritten config self.generation index ⟨b, acc⟩
        ⟨store config b (.segment self.generation index) encoded, acc₃⟩ := rewritten_store grows
    obtain ⟨forward, within⟩ := le_chunkEnd inside maxSize
    refine Op.wp_mono (ih within _ acc₃ (saw.mono grows grows.later)) ?_ ?_
    swap
    · rintro e m' l' ⟨rfl, later⟩
      exact ⟨rfl, first.trans later (Nat.le_succ _)⟩
    rintro ⟨rest, last⟩ m' l' ⟨rfl, later, recounted⟩
    refine ⟨rfl, first.trans later (Nat.le_succ _), ?_⟩
    have chunk_seen : SegmentSeen config l' self.generation
        ⟨index, acc₃.time, offset, (chunkAt allData maxSize offset).length⟩ := by
      have here : SegmentSeen config
          ⟨store config b (.segment self.generation index) encoded, acc₃⟩ self.generation
          ⟨index, acc₃.time, offset, (chunkAt allData maxSize offset).length⟩ := by
        refine ⟨chunkAt allData maxSize offset, content_store (decodes (by simp)), rfl, ?_⟩
        have part := saw.part offset (chunkEnd allData maxSize offset - offset)
        rw [Nat.zero_add] at part
        exact part.mono grows grows.later
      exact here.congr later.grows (later.segment (Nat.lt_succ_self _))
    have size : offset + (chunkAt allData maxSize offset).length = chunkEnd allData maxSize offset := by
      rw [chunkAt_length]
      omega
    exact
      { tiles := ⟨rfl, by rw [← size] at recounted; exact recounted.tiles⟩
        ordered := by
          refine List.pairwise_cons.mpr ⟨?_, recounted.ordered⟩
          intro t ht
          obtain ⟨s, hs, rfl⟩ := List.mem_map.mp ht
          exact (recounted.recorded s hs).1
        recorded := by
          intro s hs
          obtain rfl | hs := List.mem_cons.mp hs
          · exact ⟨grows.later, later.grows.later⟩
          · exact (recounted.recorded s hs).imp_left (Nat.le_trans grows.later)
        above := Nat.le_trans (Nat.le_succ _) recounted.above
        numbered := by
          intro s hs
          obtain rfl | hs := List.mem_cons.mp hs
          · exact ⟨Nat.le_refl _, recounted.above⟩
          · exact (recounted.numbered s hs).imp_left (Nat.le_trans (Nat.le_succ _))
        seen := by
          intro s hs
          obtain rfl | hs := List.mem_cons.mp hs
          · exact chunk_seen
          · exact recounted.seen s hs }

/-- The manager once its manifest lists the chunks. -/
theorem Vouched.relisted {out : List SegmentMeta × Nat} (vouched : Vouched config m l)
    (recounted : Recounted config m.generation allData 0 m.walIndex since out l) :
    Attested config l { m.manifest with segments := out.1 } where
  snapshot := vouched.attested.snapshot
  tiles := ⟨_, recounted.tiles⟩
  ordered := recounted.ordered
  segments := vouched.named ▸ recounted.seen

theorem keeps_compact_attested (codec : Codec config) (later : q ≠ .new)
    (maxSegmentSize : Option Nat) (fuel : Nat) :
    Op.Keeps (ledgerServer config q) (Vouched config) (compact pf maxSegmentSize fuel) := by
  rintro m ⟨b, acc⟩ vouched
  simp only [compact, Op.wp_bind, Op.wp_get]
  refine Op.wp_ite (fun _ => vouched) fun _ => ?_
  simp only [Op.wp_bind]
  refine Op.wp_mono (wp_downloadSegments_seen vouched.uses m.manifest.segments) ?_ ?_
  swap
  · rintro e _ _ ⟨rfl, acc₁, grows₁, rfl⟩
    exact vouched.grow grows₁
  rintro allData _ _ ⟨rfl, found, acc₁, grows₁, rfl⟩
  have vouched₁ := vouched.grow grows₁
  obtain ⟨length, saw⟩ := vouched₁.held found
  refine Op.wp_mono (wp_uploadChunks_seen codec vouched.uses _ fuel (Nat.zero_le _) saw) ?_ ?_
  swap
  · rintro e _ l₂ ⟨rfl, rewritten⟩
    exact vouched₁.rewritten rewritten
  rintro ⟨newSegments, newIndex⟩ m l₂ ⟨rfl, rewritten, recounted⟩
  have vouched₂ := vouched₁.rewritten rewritten
  simp only [Op.wp_modify, Op.wp_pure]
  refine Op.wp_mono (wp_manifest_attested codec
    ⟨vouched₂.uses, vouched₂.named, vouched₂.others⟩ (fun new => absurd new later)
    (vouched₂.relisted recounted)) ?_ ?_
  swap
  · rintro e _ _ ⟨new, -⟩
    exact absurd new later
  rintro _ _ l₃ ⟨rfl, authors, attested, listed, grows₃⟩
  let compacted : BackupManager pf.build :=
    { m with manifest := { m.manifest with segments := newSegments }, walIndex := newIndex }
  have held : Vouched config compacted l₃ :=
    { uses := authors.uses
      named := authors.named
      others := authors.others
      attested := attested
      listed := listed
      stands :=
        { tiles := length ▸ recounted.tiles
          below := fun s hs => (recounted.numbered s hs).2
          recorded := fun s hs => Nat.le_trans (recounted.recorded s hs).2 grows₃.later } }
  have erases : ∀ o ∈ m.manifest.segments.map (fun s => Object.segment m.generation s.index), ∀ b acc,
      Vouched config compacted ⟨b, acc⟩ →
      Vouched config compacted ⟨b.erase (objectKey config o), acc⟩ := by
    intro o ho b acc kept
    obtain ⟨old, hold, rfl⟩ := List.mem_map.mp ho
    refine kept.erased fun s hs same => ?_
    have new := (recounted.numbered s hs).1
    have before := vouched.stands.below old hold
    omega
  have cleared := wp_cleared (q := q) (s := compacted) (fun _ _ _ held grows => held.grow grows) erases
    held
  rw [List.map_map, ← vouched.uses.2] at cleared
  refine Op.wp_mono cleared ?_ ?_
  · rintro _ _ l₄ ⟨rfl, kept⟩
    exact kept
  · rintro e _ l₄ ⟨rfl, kept⟩
    exact kept

end

end Waloy.Spec
