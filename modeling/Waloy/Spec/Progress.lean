import Waloy.Spec.Compaction

/-!
# Calls that succeed

Where nothing is known of the answers, every call may be answered well. A compaction
whose segments can be read and whose chunks can be encoded has a run to its end.
-/
namespace Waloy.Spec
open Waloy.Effect Waloy.Source Waloy.Source.BackupManager

variable {pf : Platform} {config : BackupConfig pf.build} {A σ α : Type}

/-- The environment that allows every answer. -/
def free (host : Host A) : Env A := ⟨host, fun _ _ _ => True⟩

/-- The clock of a host goes on. -/
def Host.Ticks (host : Host A) : Prop := ∀ t, ∃ now < 2 ^ 64, host.tick t now

variable {host : Host A} {s : σ} {w : World A}

theorem may_call (c : Call) (reply : c.Reply) {w' : World A} {ok : c.Reply → σ → World A → Prop}
    (acts : Acts host w c reply w') (h : ok reply s w') :
    Op.may (free host).serve (call c) ok s w :=
  Op.may_call ⟨w.app, host.during_refl _, trivial, acts⟩ h

theorem may_orFail (wrap : String → Error) {value : α} {x : M σ (Except String α)}
    {ok : α → σ → World A → Prop}
    (h : Op.may (free host).serve x (fun reply s' w' => reply = .ok value ∧ ok value s' w') s w) :
    Op.may (free host).serve (orFail wrap x) ok s w := by
  obtain ⟨reply, s', w', steps, rfl, holds⟩ := h
  exact Op.may_bind ⟨_, s', w', steps, Op.may_pure holds⟩

/-- The first attempt succeeds. -/
theorem may_retry {x : M σ α} {ok : α → σ → World A → Prop}
    (h : Op.may (free host).serve x ok s w) : Op.may (free host).serve (S3Client.retry x) ok s w := by
  obtain ⟨value, s', w', steps, holds⟩ := h
  refine Op.may_bind (Op.may_attempt ⟨value, s', w', steps, ?_⟩)
  exact Op.may_pure holds

theorem may_getObject (s3 : S3Client) {key : Str} {data : Bytes} {ok : Bytes → σ → World A → Prop}
    (present : w.bucket.lookup (s3.fullKey key) = some data) (h : ok data s w) :
    Op.may (free host).serve (s3.getObject key) ok s w :=
  may_retry (may_orFail .s3 (may_call (.getObject _) (.ok data) ⟨present, rfl⟩ ⟨rfl, h⟩))

theorem may_putObject (s3 : S3Client) {key : Str} {data : Bytes} {ok : Unit → σ → World A → Prop}
    (h : ok () s { w with
      bucket := w.bucket.insert (s3.fullKey key) data, log := .stored (s3.fullKey key) :: w.log }) :
    Op.may (free host).serve (s3.putObject key data) ok s w :=
  may_retry (may_orFail .s3 (may_call (.putObject _ _) (.ok ()) rfl ⟨rfl, h⟩))

theorem may_deleteObjects (s3 : S3Client) (keys : List Str) {ok : Unit → σ → World A → Prop}
    (h : ∀ w', ok () s w') : Op.may (free host).serve (s3.deleteObjects keys) ok s w := by
  induction keys generalizing w with
  | nil => exact Op.may_pure (h w)
  | cons key keys ih =>
    exact Op.may_bind (may_retry (may_orFail .s3
      (may_call (.deleteObject _) (.ok ()) rfl ⟨rfl, ih⟩)))

theorem may_nowMs (ticks : host.Ticks) {ok : Nat → σ → World A → Prop}
    (h : ∀ now, ok now s { w with clock := now }) : Op.may (free host).serve nowMs ok s w := by
  obtain ⟨now, small, ticked⟩ := ticks w.clock
  have same : reading (.ok now) = now := Nat.mod_eq_of_lt small
  refine Op.may_bind (may_call .systemTime (.ok now) ⟨same.symm ▸ ticked, rfl⟩ ?_)
  exact Op.may_pure (h _)

theorem may_pipelineEncode {data encoded : Bytes} (encodes : Encodes pf config data encoded)
    {ok : Bytes → σ → World A → Prop} (h : ok encoded s w) :
    Op.may (free host).serve (pipelineEncode pf config data) ok s w := by
  obtain ⟨salt, nonce, salted, nonced, result⟩ := encodes
  unfold pipelineEncode
  cases compressed : compress pf data config.compression with
  | error e => simp [encodeWith, compressed, bind, Except.bind] at result
  | ok bytes =>
    refine Op.may_bind (Op.may_pure ?_)
    by_cases feature : pf.build.encryption = true
    · cases hkey : config.encryptionKey with
      | none =>
        simp only [encodeWith, compressed, feature, hkey, if_true, bind, Except.bind] at result
        cases result
        simp only [feature, if_true]
        exact Op.may_pure h
      | some key =>
        simp only [encodeWith, compressed, feature, hkey, if_true, bind, Except.bind] at result
        simp only [feature, if_true, encrypt]
        refine Op.may_bind (may_call (.fillBytes saltLen) salt ⟨salted, rfl⟩ ?_)
        refine Op.may_bind (may_call (.fillBytes nonceLen) nonce ⟨nonced, rfl⟩ ?_)
        rw [result]
        exact Op.may_pure h
    · simp only [encodeWith, compressed, feature, bind, Except.bind, Bool.false_eq_true,
        if_false] at result
      cases result
      simp only [feature, Bool.false_eq_true, if_false]
      exact Op.may_pure h

section
variable {m self : BackupManager pf.build}

theorem may_downloadSegments (hself : Uses config self) {segments : List SegmentMeta} {data : Bytes}
    (held : segmentsData config w.bucket self.generation segments = some data)
    {ok : Bytes → BackupManager pf.build → World A → Prop} (h : ok data m w) :
    Op.may (free host).serve (downloadSegments pf self
      (segments.map fun s => (Object.segment self.generation s.index).key)) ok m w := by
  induction segments generalizing data ok with
  | nil =>
    cases held
    exact Op.may_pure h
  | cons s rest ih =>
    obtain ⟨decoded, here, held⟩ := Option.bind_eq_some_iff.mp held
    obtain ⟨later, rest_held, rfl⟩ := Option.map_eq_some_iff.mp held
    obtain ⟨raw, present, decodes⟩ := Option.bind_eq_some_iff.mp here
    have ok_decoded : pipelineDecode pf raw config = .ok decoded := by
      cases result : pipelineDecode pf raw config with
      | ok => rw [result] at decodes; cases decodes; rfl
      | error => rw [result] at decodes; cases decodes
    rw [List.map_cons]
    unfold downloadSegments
    have found : w.bucket.lookup
        (self.s3.fullKey (Object.segment self.generation s.index).key) = some raw := by
      rw [hself.2]
      exact present
    refine Op.may_bind (may_getObject _ found ?_)
    rw [hself.1, ok_decoded]
    exact Op.may_bind (Op.may_pure (Op.may_bind (ih rest_held (Op.may_pure h))))

theorem may_uploadChunks (hself : Uses config self) (ticks : host.Ticks)
    (wraps : pf.build.overflowChecks = false) {allData : Bytes} {maxSize fuel offset index : Nat}
    (enough : allData.length ≤ offset + fuel * maxSize)
    (encodable : ∀ k, offset + k * maxSize < allData.length →
      ∃ encoded, Encodes pf config (chunkAt allData maxSize (offset + k * maxSize)) encoded)
    {ok : List SegmentMeta × Nat → BackupManager pf.build → World A → Prop}
    (h : ∀ out w', ok out m w') :
    Op.may (free host).serve (uploadChunks pf self allData maxSize fuel offset index) ok m w := by
  induction fuel generalizing w offset index ok with
  | zero =>
    have finished : ¬ offset < allData.length := by omega
    unfold uploadChunks
    rw [if_neg finished]
    exact Op.may_pure (h _ _)
  | succ fuel ih =>
    unfold uploadChunks
    by_cases more : offset < allData.length
    · obtain ⟨encoded, encodes⟩ := encodable 0 (by simpa using more)
      have next : ∃ next, incrementU32 pf.build index = some next := by
        unfold incrementU32
        split
        · exact ⟨_, rfl⟩
        · exact ⟨0, by simp [wraps]⟩
      obtain ⟨next, counted⟩ := next
      have stop : min (offset + maxSize) allData.length = chunkEnd allData maxSize offset := rfl
      rw [Nat.succ_mul] at enough
      rw [if_pos more, hself.1]
      rw [Nat.zero_mul, Nat.add_zero] at encodes
      refine Op.may_bind (may_pipelineEncode encodes ?_)
      refine Op.may_bind (may_putObject _ (Op.may_bind (may_nowMs ticks fun now => ?_)))
      rw [counted]
      refine Op.may_bind (Op.may_pure (Op.may_bind (ih (by omega) ?_ fun out w' => Op.may_pure (h _ _))))
      intro k inside
      have := encodable (k + 1)
      rw [Nat.succ_mul] at this
      have same : min (offset + maxSize) allData.length + k * maxSize =
          offset + (k * maxSize + maxSize) := by omega
      rw [same] at inside ⊢
      exact this inside
    · rw [if_neg more]
      exact Op.may_pure (h _ _)

theorem may_uploadManifest (hm : Uses config m) {json encoded : Bytes}
    (written : pf.libs.jsonToVec m.manifest = .ok json) (encodes : Encodes pf config json encoded)
    {ok : Unit → BackupManager pf.build → World A → Prop} (h : ∀ w', ok () m w') :
    Op.may (free host).serve (uploadManifest pf) ok m w := by
  unfold uploadManifest
  refine Op.may_bind (Op.may_get ?_)
  rw [written, hm.1]
  exact Op.may_bind (Op.may_pure (Op.may_bind (may_pipelineEncode encodes (may_putObject _ (h _)))))

/-- A compaction may run to its end. -/
theorem may_compact (hm : Uses config m) (ticks : host.Ticks)
    (wraps : pf.build.overflowChecks = false) {maxSegmentSize : Option Nat} {allData : Bytes}
    {fuel : Nat}
    (held : segmentsData config w.bucket m.generation m.manifest.segments = some allData)
    (enough : allData.length ≤ fuel * maxSegmentSize.getD (4 * 1024 * 1024))
    (encodable : ∀ k, k * maxSegmentSize.getD (4 * 1024 * 1024) < allData.length →
      ∃ encoded, Encodes pf config (chunkAt allData (maxSegmentSize.getD (4 * 1024 * 1024))
        (k * maxSegmentSize.getD (4 * 1024 * 1024))) encoded)
    (listable : ∀ segments, ∃ json encoded,
      pf.libs.jsonToVec { m.manifest with segments := segments } = .ok json ∧
        Encodes pf config json encoded) :
    Op.may (free host).serve (compact pf maxSegmentSize fuel) (fun _ _ _ => True) m w := by
  unfold compact
  refine Op.may_bind (Op.may_get ?_)
  by_cases few : m.manifest.segments.length ≤ 1
  · simp only [if_pos few]
    exact Op.may_pure trivial
  · simp only [if_neg few]
    refine Op.may_bind (may_downloadSegments hm held ?_)
    refine Op.may_bind (may_uploadChunks hm ticks wraps (by simpa using enough)
      (by simpa using encodable) fun out w' => ?_)
    refine Op.may_bind (Op.may_modify ?_)
    obtain ⟨json, encoded, written, encodes⟩ := listable out.1
    refine Op.may_bind (may_uploadManifest (m := { m with
      manifest := { m.manifest with segments := out.1 } }) hm written encodes fun w'' => ?_)
    refine Op.may_bind (Op.may_modify ?_)
    exact Op.may_bind (may_deleteObjects _ _ fun _ => Op.may_pure trivial)

end

end Waloy.Spec
