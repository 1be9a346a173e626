import Waloy.Guarantees.Publication
import Waloy.Spec.Reading

/-!
# Restores that go on after a failed read

A restore leaves on most reads that fail, but a manifest that it cannot get sends it to a
listing, a listing that it cannot get counts as empty, and a point-in-time restore passes
over every manifest that it cannot get. It then returns an older database.
-/
namespace Waloy.Spec
open Waloy.Effect Waloy.Source Waloy.Source.BackupManager

variable {pf : Platform} (config : BackupConfig pf.build) {A : Type}

/-- What a restore to a path has written. -/
def written (targetPath : Str) (files : List (Str × Bytes)) : Option Restored :=
  (files.lookup targetPath).map fun snapshot => ⟨snapshot, walOf targetPath files⟩

/-- A restore that returns has written what it writes when no read fails. -/
def FailuresUnseen (b : Bucket) (time : Option Nat) : Prop :=
  ∀ targetPath l', Op.Runs (unreliable b) (restoreInner pf config targetPath time) () ⟨[], []⟩
    (.ok ()) () l' →
    written targetPath l'.files =
      restored b targetPath fun path => restoreInner pf config path time

/-- Whatever bucket a manager produces, reads that fail do not change a restore that returns. -/
def ReadFailuresHarmless (R : Regime pf A) : Prop :=
  ∀ w₀ s w time, w₀.bucket = ∅ → R.Reach config (.idle none w₀) (.idle s w) →
    FailuresUnseen config w.bucket time

/-- The reads that were given up hide nothing. For `restore_latest`: what stands in for the
manifest holds the same bytes, and a listing that counts as empty is one without bytes. For
`restore_to_time`: the manifest selected among those that were fetched leads to the same
bytes as the one selected among all. -/
def Unmissed (b : Bucket) (denied : List Call) : Option Nat → Prop
  | none => ∀ generation, (object config b .latest).bind fromUtf8 = some generation →
    match manifestAt config b generation with
    | some manifest => GaveUp denied (getCall config (Object.manifest generation).key) →
      keysData config b (standIn config b denied generation) =
        segmentsData config b generation manifest.segments
    | none => GaveUp denied (listCall config (walDirectory generation)) →
      keysData config b (listing config b (walDirectory generation)) = some []
  | some timestampMs => ∀ manifest standby,
    selectManifest (readable config b) timestampMs = some manifest →
    selectManifest (readableBut config b denied) timestampMs = some standby → manifest ≠ standby →
    content config b (.snapshot manifest.generation) =
        content config b (.snapshot standby.generation) ∧
      segmentsData config b manifest.generation
          (manifest.segments.filter fun s => s.timestampMs ≤ timestampMs) =
        segmentsData config b standby.generation
          (standby.segments.filter fun s => s.timestampMs ≤ timestampMs)

/-- The answers of a bucket at rest that always denies certain reads. -/
def grudging (b : Bucket) (deny : Call → Bool) (l : Local) : (c : Call) → Option (c.Reply × Local)
  | .getObject key =>
    if deny (.getObject key) then some (.error "denied", l.deny (.getObject key) 1)
    else
      match b.lookup key with
      | some data => some (.ok data, l)
      | none => some (.error "missing", l)
  | .list keyPrefix =>
    if deny (.list keyPrefix) then some (.error "denied", l.deny (.list keyPrefix) 1)
    else some (.ok [b.keys.filter (keyPrefix.isPrefixOf ·)], l)
  | .sleep _ => some ((), l)
  | .writeFile path data => some (.ok (), l.write path data)
  | .syncFile _ => some (.ok (), l)
  | .openConn _ => some (.ok 0, l)
  | .executeBatch _ _ => some (.ok (), l)
  | .closeConn _ => some ((), l)
  | _ => none

theorem grudging_served {b : Bucket} {deny : Call → Bool} {l l' : Local} {c : Call} {reply : c.Reply}
    (h : grudging b deny l c = some (reply, l')) : unreliable b l c reply l' := by
  cases c with
  | getObject key =>
    simp only [grudging] at h
    split at h
    · cases h
      exact .inr rfl
    · split at h <;> cases h
      · exact ⟨by assumption, rfl⟩
      · exact .inl ⟨by assumption, rfl⟩
  | list keyPrefix =>
    simp only [grudging] at h
    split at h <;> cases h
    · rfl
    · exact ⟨by simp, rfl⟩
  | sleep => cases h; rfl
  | writeFile => cases h; rfl
  | syncFile => cases h; rfl
  | openConn => cases h; rfl
  | executeBatch => cases h; rfl
  | closeConn => cases h; rfl
  | _ => cases h

/-- The gets of this object and all listings are denied. -/
def denies (o : Object) : Call → Bool
  | .getObject key => key = objectKey plainConfig o
  | .list _ => true
  | _ => false

/-- Of a snapshot and one segment, a restore that gets neither the manifest nor a listing
writes the snapshot alone. -/
theorem not_readFailuresHarmless :
    ¬ ReadFailuresHarmless plainConfig (publication (fileHost fun _ _ => True)) := by
  let R : Regime plain Files := publication (fileHost fun _ _ => True)
  let M : Machine R :=
    { enable := fun q _ => q ∈ [.new, .syncWal, .snapshot, .checkpoint, .maybeSnapshot]
      truncate := id
      install := fun files _ _ => files
      check := fun _ _ _ _ _ => true
      enabled := fun _ _ enabled => by simpa [R, publication] using enabled
      truncated := fun _ => trivial
      installed := fun _ _ _ => trivial
      ticks := fun _ _ => trivial
      checked := fun _ _ _ _ _ _ => trivial }
  let w₀ : World Files := ⟨∅, ⟨some dbFile, none⟩, 1000, []⟩
  let cues : List (Machine.Cue R) :=
    [.perform .new (fun _ => false),
      .move (fun files => { files with wal := some (walHeader 7 ++ walFrame 1) })
        (fun _ => ⟨_, _, trivial, .inl rfl, rfl⟩)]
  have played : (M.call plainConfig cues .syncWal (fun _ => false) (none, w₀)).any
      (fun out =>
        (Op.interp (grudging out.2.2.bucket (denies (.manifest (uuid 0))))
          (restoreInner plain plainConfig ['t'] none) () ⟨[], []⟩).any fun done =>
            done.1.1.toOption = some () ∧ written ['t'] done.2.files ≠
              restored out.2.2.bucket ['t'] fun path => restoreInner plain plainConfig path none) =
      true := by decide +kernel
  obtain ⟨s, start, ⟨result, s'⟩, w, run, checked⟩ := Machine.exists_call played
  intro claim
  obtain ⟨⟨⟨r, ⟨⟩⟩, l'⟩, restores, rest⟩ := (Option.any_eq_true _ _).mp checked
  obtain ⟨returned, differs⟩ := of_decide_eq_true rest
  obtain rfl := eq_ok_of_toOption returned
  exact differs (claim w₀ s' w none rfl run.finish ['t'] l'
    (Steps.of_interp (fun _ _ _ _ answered => grudging_served answered) _ _ restores))

section
variable {config} {b : Bucket} {denied : List Call} {targetPath generation : Str}
  {keys : List Str} {snapshot wal : Bytes}

theorem written_overwritten (held : keysData config b keys = some wal) :
    written targetPath (overwritten targetPath keys snapshot wal []) = some ⟨snapshot, wal⟩ := by
  unfold written
  rw [lookup_overwritten, Option.map_some, walOf_overwritten]
  by_cases empty : keys = []
  · subst empty
    cases held
    rfl
  · rw [if_neg empty]

/-- What stands in for the keys to replay holds the same bytes unless a read is missed. -/
theorem standIn_iff (held : keysData config b (standIn config b denied generation) = some wal) :
    keysData config b (replayed config b generation) = some wal ↔
      match manifestAt config b generation with
      | some manifest => GaveUp denied (getCall config (Object.manifest generation).key) →
        keysData config b (standIn config b denied generation) =
          segmentsData config b generation manifest.segments
      | none => GaveUp denied (listCall config (walDirectory generation)) →
        keysData config b (listing config b (walDirectory generation)) = some [] := by
  cases listed : manifestAt config b generation with
  | some manifest =>
    have lists : replayed config b generation =
        manifest.segments.map fun s => (Object.segment generation s.index).key := by
      rw [replayed, listed]
    rw [lists, keysData_segments, held]
    dsimp only
    by_cases gave : GaveUp denied (getCall config (Object.manifest generation).key)
    · exact ⟨fun same _ => same.symm, fun same => (same gave).symm⟩
    · have same : standIn config b denied generation =
          manifest.segments.map fun s => (Object.segment generation s.index).key := by
        rw [standIn, if_neg gave, listed]
      rw [same, keysData_segments] at held
      exact ⟨fun _ gave' => absurd gave' gave, fun _ => held⟩
  | none =>
    have lists : replayed config b generation = listing config b (walDirectory generation) := by
      rw [replayed, listed]
      rfl
    have stands : standIn config b denied generation =
        if GaveUp denied (listCall config (walDirectory generation)) then []
        else listing config b (walDirectory generation) := by
      rw [standIn, listed, ite_self]
    rw [lists]
    dsimp only
    by_cases gave : GaveUp denied (listCall config (walDirectory generation))
    · rw [stands, if_pos gave] at held
      cases held
      exact ⟨fun same _ => same, fun same => same gave⟩
    · rw [stands, if_neg gave] at held
      exact ⟨fun _ gave' => absurd gave' gave, fun _ => held⟩

/-- What is fetched is readable. -/
theorem readableBut_subset : readableBut config b denied ⊆ readable config b := by
  intro manifest member
  obtain ⟨key, listed, read⟩ := List.mem_filterMap.mp member
  refine List.mem_filterMap.mpr ⟨key, listed, ?_⟩
  unfold readBut at read
  split at read
  · cases read
  · exact read

theorem exists_selectManifest {manifests : List GenerationManifest} {manifest : GenerationManifest}
    {timestampMs : Nat} (member : manifest ∈ manifests)
    (old : manifest.snapshotTimestampMs ≤ timestampMs) :
    ∃ selected, selectManifest manifests timestampMs = some selected := by
  apply Option.ne_none_iff_exists'.mp
  intro nothing
  have too_new := List.find?_eq_none.mp nothing manifest ((List.mem_insertionSort _).mpr member)
  exact too_new (by simpa using old)

/-- A restore that returns although reads were given up has written what it writes when no
read fails exactly where the reads that were given up hide nothing. -/
theorem restore_unseen_iff {time : Option Nat} {l' : Local}
    (run : Op.Runs (unreliable b) (restoreInner pf config targetPath time) () ⟨[], []⟩ (.ok ()) ()
      l') :
    written targetPath l'.files =
        restored b targetPath (fun path => restoreInner pf config path time) ↔
      Unmissed config b l'.denied time := by
  obtain ⟨generation, keys, snapshot, wal, selected, snap, held, files⟩ := runs_restoreInner rfl run
  rw [files, written_overwritten held, restored_restoreInner, eq_comm]
  cases time with
  | none =>
    obtain ⟨named, marked, same⟩ := Option.map_eq_some_iff.mp selected
    cases same
    have picked : selection config b none = some (generation, replayed config b generation) := by
      rw [selection, marked, Option.map_some]
    rw [picked, Option.bind_some, snap, Option.bind_some, Option.map_eq_some_iff]
    constructor
    · rintro ⟨wal', held', same⟩ generation' marked'
      cases same
      cases marked.symm.trans marked'
      exact (standIn_iff held).mp held'
    · intro unmissed
      exact ⟨wal, (standIn_iff held).mpr (unmissed generation marked), rfl⟩
  | some timestampMs =>
    obtain ⟨standby, stands, same⟩ := Option.map_eq_some_iff.mp selected
    cases same
    obtain ⟨fetched, old⟩ := selectManifest_mem stands
    obtain ⟨manifest, chosen⟩ := exists_selectManifest (readableBut_subset fetched) old
    rw [keysData_segments] at held
    have picked : (selection config b (some timestampMs)).bind (fun picked =>
        (content config b (.snapshot picked.1)).bind fun snapshot =>
          (keysData config b picked.2).map fun wal => (⟨snapshot, wal⟩ : Restored)) =
        (content config b (.snapshot manifest.generation)).bind fun snapshot =>
          (segmentsData config b manifest.generation
            (manifest.segments.filter fun s => s.timestampMs ≤ timestampMs)).map
              fun wal => ⟨snapshot, wal⟩ := by
      rw [selection, chosen, Option.map_some, Option.bind_some, keysData_segments]
    rw [picked]
    constructor
    · intro same manifest' standby' chosen' stands' _
      cases chosen.symm.trans chosen'
      cases stands.symm.trans stands'
      obtain ⟨snapshot', snap', mapped⟩ := Option.bind_eq_some_iff.mp same
      obtain ⟨wal', held', equal⟩ := Option.map_eq_some_iff.mp mapped
      cases equal
      exact ⟨snap'.trans snap.symm, held'.trans held.symm⟩
    · intro unmissed
      have same : content config b (.snapshot manifest.generation) = some snapshot ∧
          segmentsData config b manifest.generation
            (manifest.segments.filter fun s => s.timestampMs ≤ timestampMs) = some wal := by
        by_cases other : manifest = standby
        · subst other
          exact ⟨snap, held⟩
        · obtain ⟨snap', held'⟩ := unmissed manifest standby chosen stands other
          exact ⟨snap'.trans snap, held'.trans held⟩
      rw [same.1, Option.bind_some, same.2, Option.map_some]

end

/-- A backup with an empty manifest. -/
def quietBackup : Bucket :=
  store plainConfig (store plainConfig (store plainConfig ∅ .latest (asBytes (uuid 0)))
    (.snapshot (uuid 0)) [1]) (.manifest (uuid 0)) (asBytes (manifestText ⟨uuid 0, 5, 5, []⟩))

/-- Its restore without the manifest and without a listing. -/
def unlisted : Local where
  files := [(['t'], [1])]
  denied := List.replicate 4 (listCall plainConfig (walDirectory (uuid 0))) ++
    List.replicate 4 (getCall plainConfig (Object.manifest (uuid 0)).key)

theorem restore_unseen_plain :
    written ['t'] unlisted.files =
        restored quietBackup ['t'] (fun path => restoreInner plain plainConfig path none) ↔
      Unmissed plainConfig quietBackup unlisted.denied none := by
  have computed : Op.interp (grudging quietBackup (denies (.manifest (uuid 0))))
      (restoreInner plain plainConfig ['t'] none) () ⟨[], []⟩ = some ((.ok (), ()), unlisted) := by
    decide +kernel
  exact restore_unseen_iff
    (Steps.of_interp (fun _ _ _ _ answered => grudging_served answered) _ _ computed)

end Waloy.Spec
