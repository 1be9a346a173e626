import Waloy.Guarantees.FailedSync

/-!
# Compactions that fail

A compaction stores its chunks under new indices, so one that fails before its manifest
is uploaded leaves every named segment alone. When the upload of the manifest itself
fails, the manager already lists the chunks but still counts from the old index, and the
next sync overwrites the first of them.
-/
namespace Waloy.Spec
open Waloy.Effect Waloy.Source

variable {pf : Platform} (config : BackupConfig pf.build) {A : Type}

/-- No segment object that a manifest names is overwritten with other bytes: one that
only the manager names may be deleted. -/
structure NamedKept (m : BackupManager pf.build) (b b' : Bucket) : Prop where
  manager : ∀ s ∈ m.manifest.segments,
    object config b' (.segment m.generation s.index) =
      object config b (.segment m.generation s.index) ∨
    object config b' (.segment m.generation s.index) = none
  bucket : ∀ manifest, manifestAt config b m.generation = some manifest →
    ∀ s ∈ manifest.segments, object config b' (.segment m.generation s.index) =
      object config b (.segment m.generation s.index)

/-- The runs of `sync_wal` and `compact` over a growing WAL file. -/
def compacting (host : Host A) (allows : World A → (c : Call) → c.Reply → Prop) : Regime pf A where
  host := host.appending
  enabled q _ := q = .syncWal ∨
    ∃ maxSize fuel, q = .compact maxSize fuel ∧ 1 ≤ maxSize.getD (4 * 1024 * 1024)
  allows _ _ := allows
  drift := idleMove host.appending

/-- A failed compaction loses nothing, neither at once nor in the calls after it. -/
structure CompactionsHarmless (R : Regime pf A) : Prop where
  named : ∀ {m w q m' start c next w₁ reply w₂}, Uses config m →
    Anchored config R.host (head m) w → manifestAt config w.bucket m.generation = some m.manifest →
    R.Reach config (.idle (some m) w) (.running q (some m') start (.call c next) w₁) →
    (R.env config q (some m')).serve w₁ c reply w₂ → NamedKept config m' w₁.bucket w₂.bucket
  synced : ∀ {m w s start found m' w'}, Uses config m →
    Anchored config R.host (head m) w → manifestAt config w.bucket m.generation = some m.manifest →
    R.Reach config (.idle (some m) w)
      (.running .syncWal s start (.pure (.ok (.flag found), some m')) w') →
    Listed config R.host m' w'

/-- The answers where no attempt at a put of a manifest fails, not even one that is retried. -/
def manifestsStored (_ : World A) : (c : Call) → c.Reply → Prop
  | .putObject key data, .error _ =>
    uploadsWell config (.putObject key data) ∧
      ∀ generation, key ≠ objectKey config (.manifest generation)
  | c, _ => uploadsWell config c

/-- A manifest can be serialized, and its serialization encoded. -/
def ManifestsEncode : Prop :=
  ∀ manifest, ∃ json, pf.libs.jsonToVec manifest = .ok json ∧
    ∀ r, EncodesTo pf config json r → ∃ encoded, r = .ok encoded

/-- The compaction of two segments fails at its manifest. The manager lists the chunk
under index 2, and the sync of the third frame takes the same index. -/
theorem not_compactionsHarmless :
    ¬ CompactionsHarmless plainConfig (compacting (fileHost fun _ _ => True) fun _ _ _ => True) := by
  let R : Regime plain Files := compacting (fileHost fun _ _ => True) fun _ _ _ => True
  let manifestKey := objectKey plainConfig (.manifest (uuid 0))
  let deny := isPutTo manifestKey
  let M : Machine R :=
    { enable := fun q _ => q = .syncWal ∨ q = .compact (some 4096) 8
      truncate := id
      install := fun files _ _ => files
      check := fun _ _ _ _ _ => true
      enabled := by
        intro q s enabled
        obtain rfl | rfl := of_decide_eq_true enabled
        · exact .inl rfl
        · exact .inr ⟨_, _, rfl, by decide⟩
      truncated := fun _ => trivial
      installed := fun _ _ _ => trivial
      ticks := fun _ _ => trivial
      checked := fun _ _ _ _ _ _ => trivial }
  let m₀ := plainManager [] 0 0
  let b₀ := store plainConfig ∅ (.manifest (uuid 0)) (asBytes (manifestText m₀.manifest))
  let w₀ : World Files := ⟨b₀, ⟨some dbFile, some (walHeader 7)⟩, 1000, []⟩
  let frame (fill : UInt8) : Machine.Cue R :=
    .move (fun files => { files with wal := some (files.wal.getD [] ++ walFrame fill) })
      (fun w => ⟨_, _, ⟨trivial, by simp [Host.walBytes, fileHost]⟩, .inl rfl, rfl⟩)
  let cues : List (Machine.Cue R) :=
    [frame 1, .perform .syncWal (fun _ => false), frame 2, .perform .syncWal (fun _ => false),
      .perform (.compact (some 4096) 8) deny, frame 3]
  have played : (M.call plainConfig cues .syncWal (fun _ => false) (some m₀, w₀)).any
      (fun out => out.2.1.1.toOption = some (.flag true) ∧ out.2.1.2.any fun m =>
        m.manifest.segments.map SegmentMeta.index = [2, 2]) = true := by decide +kernel
  obtain ⟨s, start, ⟨result, s'⟩, w, run, checked⟩ := Machine.exists_call played
  intro claim
  have anchored : Anchored plainConfig R.host (head m₀) w₀ := .start rfl rfl rfl
  have listed : manifestAt plainConfig b₀ m₀.generation = some m₀.manifest :=
    manifestAt_store (by
      change (jsonFromSlice _).mapError _ = _
      rw [jsonFromSlice_jsonToVec rfl]
      rfl)
  obtain ⟨returned, twice⟩ := of_decide_eq_true checked
  obtain ⟨m, rfl, indices⟩ := (Option.any_eq_true _ _).mp twice
  obtain rfl := eq_ok_of_toOption returned
  have increasing := (claim.synced ⟨rfl, rfl⟩ anchored listed run).increasing
  rw [of_decide_eq_true indices] at increasing
  exact absurd increasing (by decide)

/-- What an open manager keeps in these runs. -/
structure Backup (host : Host A) (h : Head) (w : World A) : Prop extends Anchored config host h w where
  listed : manifestAt config w.bucket h.generation = some h.manifest

/-- The environment of a call in these runs, as the proofs use it. -/
structure Storing (host : Host A) (env : Env A) : Prop where
  lists : ∀ generation manifest, ¬ ListingFails config env generation manifest
  inverts : env.Inverts config
  counts : env.Counts config
  parses : Parses pf.libs
  wal : ∀ a, env.host.wal a = host.wal a
  grows : ∀ {a a'}, env.host.during a a' → host.walBytes a <+: host.walBytes a'

section
variable {config} {env : Env A} {host : Host A} {m : BackupManager pf.build} {w w' : World A}
  {h h' : Head} {b b' : Bucket} {r : Except Error Bool}

theorem Backup.moved (backup : Backup config host h w) {a : A} {t : Nat}
    (grown : host.walBytes w.app <+: host.walBytes a) :
    Backup config host h { w with app := a, clock := t } :=
  ⟨backup.toAnchored.moved grown, backup.listed⟩

/-- A sync of these runs fails early, if it fails. -/
theorem Storing.failsEarly (storing : Storing config host env) (anchored : Anchored config host h w)
    (exit : SyncExit config env w h r h' w') : FailsEarly w r w' := by
  rintro e rfl
  cases exit with
  | unread => rfl
  | unrecovered read long broken =>
    obtain ⟨-, -, continuous⟩ := anchored.read storing.wal storing.grows read
    exact absurd broken (by simp [continuous])
  | unsent read long continuous frames new exit =>
    cases exit with
    | unsaved => rfl
    | unlisted moved sent ticks failed => exact absurd failed (storing.lists _ _)

theorem Backup.synced (backup : Backup config host h w) (storing : Storing config host env)
    (exit : SyncExit config env w h r h' w') : Backup config host h' w' := by
  obtain ⟨kept, listed⟩ := backup.toAnchored.synced storing.inverts storing.counts storing.parses
    storing.wal storing.grows exit (storing.failsEarly backup.toAnchored exit)
  exact ⟨kept, listed (.inr backup.listed)⟩

/-- Objects under indices that no listed segment has. -/
theorem Backup.stored (backup : Backup config host h w)
    (same : ∀ o, (∀ index, h.walIndex ≤ index → o ≠ .segment h.generation index) →
      object config b o = object config w.bucket o)
    {a : A} {t : Nat} {log : List Event} (grown : host.walBytes w.app <+: host.walBytes a) :
    Backup config host h ⟨b, a, t, log⟩ := by
  have named : ∀ s ∈ h.manifest.segments,
      object config b (.segment h.generation s.index) =
        object config w.bucket (.segment h.generation s.index) := by
    intro s hs
    apply same
    intro index above equal
    injection equal with _ index_eq
    have := backup.backed.below s hs
    omega
  have here : Backup config host h { w with bucket := b, log := log } :=
    { backed :=
        { toOrdered := backup.backed.toOrdered
          held := (segmentsData_congr config named).trans backup.backed.held
          length := backup.backed.length }
      follows := backup.follows
      listed := (manifestAt_congr config (same _ (by simp))).trans backup.listed }
  exact here.moved grown

theorem Backup.compacted {maxSize : Nat} {r : Except Error Unit} (backup : Backup config host h w)
    (storing : Storing config host env) (exit : CompactExit config env w h maxSize r h' w') :
    Backup config host h' w' := by
  have swapped : ∀ {allData manifest pairs lastIndex clock' a log} {erased : List SegmentMeta},
      Recut config env w h maxSize allData pairs lastIndex clock' →
      SendsManifest config env h.generation (h.relisted pairs).manifest manifest →
      (∀ s ∈ erased, s ∈ h.manifest.segments) → env.host.during w.app a →
      Backup config host (h.compacted pairs lastIndex)
        ⟨eraseSegments config h.generation erased (withChunkList config w.bucket h pairs manifest), a,
          clock', log⟩ := by
    intro allData manifest pairs lastIndex clock' a log erased recut listed old moved
    have renewed := recut.renewed backup.backed storing.inverts (recut.bound storing.counts)
    have here : Backup config host (h.compacted pairs lastIndex)
        ⟨eraseSegments config h.generation erased (withChunkList config w.bucket h pairs manifest),
          w.app, clock', log⟩ :=
      { backed := renewed.compacted backup.backed.length fun s hs => backup.backed.below s (old s hs)
        follows := ⟨backup.follows.offset, backup.follows.salt⟩
        listed := (manifestAt_eraseSegments _ _).trans
          (manifestAt_store (listed.decodes storing.parses storing.inverts)) }
    exact here.moved (storing.grows moved)
  cases exit with
  | few => exact backup
  | undownloaded several moved => exact backup.moved (storing.grows moved)
  | @unchunked e allData pairs offset' index' clock' a b several downloaded chunked failed partly moved =>
    have bound : ∀ p ∈ pairs, p.1.index + 1 < 2 ^ 32 := fun p hp =>
      (chunked.sent p hp).elim fun _ sent => storing.counts _ _ _ sent.taken
    have above := chunked.index_lt bound
    have last := (chunked.numbered bound).2
    have chunks : ∀ o, (∀ index, h.walIndex ≤ index → o ≠ .segment h.generation index) →
        object config (withChunks config w.bucket h pairs) o = object config w.bucket o :=
      fun o other => object_storeSegments_of_ne fun p hp =>
        other _ (above p.1 (List.mem_map_of_mem hp)).1
    obtain rfl | ⟨encoded, -, rfl⟩ := partly
    · exact backup.stored chunks (storing.grows moved)
    · refine backup.stored (fun o other => ?_) (storing.grows moved)
      rw [object_store, if_neg (other index' (by omega))]
      exact chunks o other
  | unlisted recut failed => exact absurd failed (storing.lists _ _)
  | undeleted recut listed failed split moved =>
    refine swapped recut listed (fun s hs => ?_) moved
    rw [split]
    exact List.mem_append_left _ hs
  | done recut listed moved => exact swapped recut listed (fun _ hs => hs) moved

theorem NamedKept.refl (b : Bucket) : NamedKept config m b b :=
  ⟨fun _ _ => .inl rfl, fun _ _ _ _ => rfl⟩

theorem along_named (step : NamedKept config m b b') : Along (NamedKept config m) b [b'] :=
  ⟨.refl b, step, .refl b'⟩

/-- A write under an index that no manifest names, or of an object that is no segment. -/
theorem NamedKept.store {o : Object} {data : Bytes}
    (manager : ∀ s ∈ m.manifest.segments, o ≠ .segment m.generation s.index)
    (bucket : ∀ manifest, manifestAt config b m.generation = some manifest →
      ∀ s ∈ manifest.segments, o ≠ .segment m.generation s.index) :
    NamedKept config m b (store config b o data) where
  manager s hs := .inl (by rw [object_store, if_neg (manager s hs).symm])
  bucket manifest found s hs := by rw [object_store, if_neg (bucket manifest found s hs).symm]

theorem NamedKept.mark {o : Object} {data : Bytes} (mark : isMark o = true) :
    NamedKept config m b (Spec.store config b o data) :=
  have other : ∀ index, o ≠ .segment m.generation index := by
    rintro index rfl
    cases mark
  .store (fun _ _ => other _) fun _ _ _ _ => other _

theorem named_sync (backup : Backup config host (head m) w) (storing : Storing config host env) :
    SyncWatched config env (NamedKept config m) w (head m) where
  start := .refl _
  recovers a walData read broken := by
    obtain ⟨-, -, continuous⟩ := backup.toAnchored.read storing.wal storing.grows read
    exact absurd broken (by simp [continuous])
  uploads a walData read continuous frames new := by
    have unnamed : ∀ s ∈ m.manifest.segments,
        Object.segment m.generation m.walIndex ≠ .segment m.generation s.index := by
      intro s hs same
      injection same with _ index
      have below : s.index < m.walIndex := backup.backed.below s hs
      omega
    have saved : ∀ encoded, NamedKept config m w.bucket
        (withSegment config w.bucket ((head m).captured walData) encoded) := by
      intro encoded
      have own : withSegment config w.bucket ((head m).captured walData) encoded =
          Spec.store config w.bucket (.segment m.generation m.walIndex) encoded := by
        simp [withSegment, head]
      rw [own]
      refine .store unnamed fun manifest found => ?_
      obtain rfl := Option.some.inj (found.symm.trans backup.listed)
      exact unnamed
    exact ⟨.refl _, fun encoded _ => along_named (saved encoded), fun _ _ _ _ _ =>
      along_named (.mark rfl)⟩

theorem named_erase {new : GenerationManifest} (segments : List SegmentMeta)
    (listed : manifestAt config b m.generation = some new)
    (other : ∀ s ∈ new.segments, ∀ s' ∈ segments, s.index ≠ s'.index) :
    Along (NamedKept config m) b (eraseTrail config m.generation segments b) := by
  induction segments generalizing b with
  | nil => exact .refl b
  | cons s rest ih =>
    refine ⟨.refl b, ⟨fun s' _ => ?_, fun manifest found s' hs' => ?_⟩, ih ?_ ?_⟩
    · rw [object_erase]
      split
      · exact .inr rfl
      · exact .inl rfl
    · obtain rfl := Option.some.inj (found.symm.trans listed)
      rw [object_erase, if_neg]
      intro same
      injection same with _ index
      exact other s' hs' s List.mem_cons_self index
    · exact (manifestAt_congr config (by simp)).trans listed
    · exact fun s₁ hs₁ s₂ hs₂ => other s₁ hs₁ s₂ (List.mem_cons_of_mem _ hs₂)

theorem named_compact (backup : Backup config host (head m) w) (storing : Storing config host env)
    (maxSize : Nat) : CompactWatched config env (NamedKept config m) w (head m) maxSize where
  start := .refl _
  chunks allData several downloaded := by
    refine ⟨fun _ => .refl _, fun {pairs offset' index' clock' encoded} chunked more sent =>
      along_named ?_⟩
    have bound : ∀ p ∈ pairs, p.1.index + 1 < 2 ^ 32 := fun p hp =>
      (chunked.sent p hp).elim fun _ sent => storing.counts _ _ _ sent.taken
    have last : index' = m.walIndex + pairs.length := (chunked.numbered bound).2
    have unnamed : ∀ s ∈ m.manifest.segments,
        Object.segment m.generation index' ≠ .segment m.generation s.index := by
      intro s hs same
      injection same with _ index
      have below : s.index < m.walIndex := backup.backed.below s hs
      omega
    refine .store unnamed fun manifest found => ?_
    rw [manifestAt_congr config (object_storeSegments _ _ rfl)] at found
    obtain rfl := Option.some.inj (found.symm.trans backup.listed)
    exact unnamed
  listed _ _ _ _ _ _ _ := along_named (.mark rfl)
  deleted allData pairs lastIndex clock' manifest recut listed := by
    have renewed := recut.renewed backup.backed storing.inverts (recut.bound storing.counts)
    refine named_erase _ (manifestAt_store (listed.decodes storing.parses storing.inverts)) ?_
    intro s hs s' hs'
    have above := renewed.later s hs
    have below := backup.backed.below s' hs'
    omega

end

/-- What these runs keep, what each call does to named segments, and what a sync leaves. -/
def storing (host : Host A) : Setting.Invariant (C := process config) (W := World A) where
  idle s w := s.isSome ∧ Holding config (Backup config host) s w
  guard _ s _ w _ _ w' := ∀ m, s = some m → NamedKept config m w.bucket w'.bucket
  result _ _ _ _ s' w := ∀ m, s' = some m → Backup config host (head m) w

variable {config} in
theorem storing_kept (encode : ManifestsEncode config) (parses : Parses pf.libs) (host : Host A) :
    (storing config host.appending).Kept
      (Regime.setting config (compacting host (manifestsStored config))) where
  entered _ _ := trivial
  stays _ _ _ := trivial
  drift := by
    rintro s w w' ⟨opened, holds⟩ ⟨a, t, moved, -, rfl⟩
    exact ⟨opened, fun m hs => ⟨(holds m hs).1, (holds m hs).2.moved moved.2⟩⟩
  body := by
    intro q s w enabled ⟨opened, holds⟩
    obtain ⟨m, rfl⟩ := Option.isSome_iff_exists.mp opened
    obtain ⟨hm, backup⟩ := holds m rfl
    let env := Regime.env config (compacting host (manifestsStored config)) q (some m)
    have well : ∀ w c reply, env.allows w c reply → uploadsWell config c := by
      intro w c reply allowed
      cases c with
      | putObject key data => cases reply with
        | ok => exact allowed
        | error => exact allowed.1
      | _ => trivial
    have denied : ∀ generation encoded,
        ¬ env.Denies (.putObject (objectKey config (.manifest generation)) encoded) := by
      rintro generation encoded ⟨w, _ | _, bad, allowed⟩
      · exact allowed.2 generation rfl
      · exact bad
    have store : Storing config host.appending env :=
      { lists := by
          rintro generation manifest (⟨e, failed⟩ | ⟨json, written, ⟨e, failed⟩ | ⟨encoded, -, bad⟩⟩)
          · obtain ⟨json, written, -⟩ := encode manifest
            cases written.symm.trans failed
          · obtain ⟨json', written', encodes⟩ := encode manifest
            obtain rfl := Except.ok.inj (written.symm.trans written')
            obtain ⟨encoded, same⟩ := encodes _ failed
            cases same
          · exact denied _ _ bad
        inverts := Env.inverts_of_allows well
        counts := Env.counts_of_allows well
        parses := parses
        wal := fun _ => rfl
        grows := fun moved => moved.2 }
    have watched : RequestWatched config env (NamedKept config m) w q (some m) := by
      obtain rfl | ⟨maxSize, fuel, rfl, -⟩ := enabled
      · exact named_sync backup store
      · exact named_compact backup store _
    refine Prog.wp_mono (fun _ _ _ _ h => h) ?_ ?_ _ _
      (wp_process rfl (fun m' hs => (holds m' hs).1) watched)
    · rintro w c reply w' kept _ ⟨⟩
      exact kept
    rintro ⟨result, s'⟩ w' performed -
    have after : s'.isSome ∧ Holding config (Backup config host.appending) s' w' := by
      obtain rfl | ⟨maxSize, fuel, rfl, -⟩ := enabled
      · cases performed with
        | synced uses exit => exact ⟨rfl, .some uses (backup.synced store exit)⟩
      · cases performed with
        | compacted uses exit => exact ⟨rfl, .some uses (backup.compacted store exit)⟩
    exact ⟨fun m' hs => (after.2 m' hs).2, after⟩

variable {config} in
/-- Failed compactions lose nothing, as long as no attempt at a put of a manifest fails. -/
theorem compactions_harmless (encode : ManifestsEncode config) (parses : Parses pf.libs)
    (host : Host A) : CompactionsHarmless config (compacting host (manifestsStored config)) := by
  have kept := storing_kept encode parses host
  have start : ∀ {m w}, Uses config m → Anchored config host.appending (head m) w →
      manifestAt config w.bucket m.generation = some m.manifest →
      (storing config host.appending).idle (some m) w := fun hm anchored listed =>
    ⟨rfl, .some hm ⟨anchored, listed⟩⟩
  constructor
  case named =>
    intro m w q m' start' c next w₁ reply w₂ hm anchored listed run served
    exact kept.guarded run (start hm anchored listed) served m' rfl
  case synced =>
    intro m w s start' found m' w' hm anchored listed run
    have backup := (kept.returned run (start hm anchored listed)).1 m' rfl
    exact backup.toAnchored.listed backup.listed

theorem compactions_harmless_plain :
    CompactionsHarmless plainConfig
      (compacting (fileHost fun _ _ => True) (manifestsStored plainConfig)) :=
  compactions_harmless
    (fun _ => ⟨_, rfl, fun r encodes => plain_codec.encodes _ r encodes⟩)
    plain_codec.parses _

end Waloy.Spec
