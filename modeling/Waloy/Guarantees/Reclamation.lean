import Waloy.Guarantees.RetentionWindow
import Waloy.Spec.Purging
import Waloy.Spec.Registering

/-!
# Objects that retention does not find

A generation is deleted in the order of its keys, its manifest first, and its manifest is
uploaded last. After a failure in between, its objects have no manifest, and a later
retention run does not find them.
-/
namespace Waloy.Spec
open Waloy.Effect Waloy.Source Waloy.Source.BackupManager

variable {pf : Platform} (config : BackupConfig pf.build) {A : Type}

/-- The runs of all operations in which every call may fail. -/
def faltering (host : Host A) : Regime pf A where
  host := host
  enabled _ _ := True
  allows _ _ _ c _ := decodesWell config c
  drift := idleMove host

/-- Nothing lies in the directory of a generation. -/
def Emptied (b : Bucket) (generation : Str) : Prop :=
  ∀ key, (S3Client.new config.s3).fullKey (generation ++ ['/']) <+: key → b.lookup key = none

/-- A property of all generations that were started before a cutoff, but one. -/
def OfExpired (births : Births) (own : Str) (cutoffMs : Nat) (P : Str → Prop) : Prop :=
  ∀ generation t, births.started.lookup generation = some t → generation ≠ own → t < cutoffMs →
    P generation

/-- What a retention run without a failure does after any run of the operations. -/
def AfterFailures (host : Host A)
    (P : Births → (own : Str) → (cutoffMs : Nat) → (before after : Bucket) → Prop) : Prop :=
  ∀ {w₀ m start births result s' w' duration},
    (((faltering config host).setting config).observed fun _ => Births.record).Reach
      (.idle none (w₀, ⟨none, ∅⟩)) (.idle (some m) (start, births)) →
    (pruning config host).Reach config (.idle (some m) start)
      (.running .enforceRetention (some m) start (.pure (result, s')) w') →
    config.retentionDuration = some duration →
    P births m.generation (w'.clock - duration % 2 ^ 64) start.bucket w'.bucket

/-- A retention run deletes exactly what its manifests doom. -/
def purging : Setting.Invariant (C := process config) (W := World A) where
  idle s _ := ∀ m, s = some m → Uses config m
  result _ s start _ _ w' := ∀ m duration, s = some m → config.retentionDuration = some duration →
    Purged config start.bucket m.generation (w'.clock - duration % 2 ^ 64) w'.bucket ∧
      Expunged config start.bucket m.generation (w'.clock - duration % 2 ^ 64) w'.bucket

section
variable {config} {host : Host A} {b b' : Bucket} {generation own : Str} {t cutoffMs : Nat}

theorem purging_kept : (purging config).Kept (Regime.setting config (pruning config host)) where
  entered _ _ := trivial
  stays _ _ _ := trivial
  drift uses _ := uses
  body := by
    rintro q s w rfl held
    cases s with
    | none => trivial
    | some m =>
      have uses := held m rfl
      have sound : ∀ v c reply, ((pruning config host).env config .enforceRetention (some m)).allows
          v c reply → faultless config.dbPath v c reply := fun _ _ _ allowed => allowed.1
      have exits : ((process config).body .enforceRetention (some m)).wp
          ((pruning config host).env config .enforceRetention (some m)).serve (watch anyChange)
          (fun out w' => Performed config ((pruning config host).env config .enforceRetention (some m))
            w .enforceRetention (some m) out.1 out.2 w') w :=
        wp_process rfl held (request_any .enforceRetention (some m))
      have deletes : ((process config).body .enforceRetention (some m)).wp
          ((pruning config host).env config .enforceRetention (some m)).serve (watch anyChange)
          (fun _ w' => ∀ duration, config.retentionDuration = some duration →
            Purged config w.bucket m.generation (w'.clock - duration % 2 ^ 64) w'.bucket) w :=
        (wp_method _ _ m).mpr (Op.wp_mono (wp_enforceRetention_all sound uses) (fun _ _ _ h => h)
          fun _ _ _ => False.elim)
      refine Prog.wp_mono (fun _ _ _ _ h => h) (fun _ _ _ _ _ => trivial) ?_ _ _
        (Prog.wp_and _ _ exits deletes)
      rintro ⟨result, s'⟩ w' ⟨performed, purged⟩ -
      cases performed with
      | retained uses exit =>
        refine ⟨fun m' duration same retention => ?_, fun m' same => Option.some.inj same ▸ uses⟩
        cases same
        refine ⟨purged duration retention, ?_⟩
        cases exit with
        | off off => cases off.symm.trans retention
        | @ran duration' reply a₁ a b retention' read allowed ticks moved expunged =>
          cases retention'.symm.trans retention
          exact expunged

/-- A generation with its manifest is found, and deleted if it was started before the cutoff. -/
theorem Purged.emptied (purged : Purged config b own cutoffMs b')
    (recorded : Recorded config b generation t) (other : generation ≠ own) (expired : t < cutoffMs)
    (present : (object config b (.manifest generation)).isSome) : Emptied config b' generation := by
  obtain gone | ⟨manifest, listed, created⟩ := recorded.told
  · rw [gone] at present
    cases present
  obtain ⟨suffixed, raw, stored, decodes⟩ := manifestAt_eq_some.mp listed
  have lists : Lists config b (Object.manifest generation).key (generation, manifest) :=
    { isManifest := List.isSuffixOf_iff_suffix.mpr suffixed
      id := (trimEndMatches_manifest recorded.tidy.1).symm
      readable := ⟨raw, stored, decodes⟩ }
  exact fun key inside => purged key ⟨_, _, lists, other, created ▸ expired, inside⟩

/-- What was emptied before has lost its manifest, or had nothing to lose. -/
theorem Expunged.found (expunged : Expunged config b own cutoffMs b') (tidy : Tidy config b generation)
    (emptied : Emptied config b' generation) :
    Emptied config b generation ∨ (object config b (.manifest generation)).isSome := by
  by_cases empty : Emptied config b generation
  · exact .inl empty
  right
  simp only [Emptied, not_forall] at empty
  obtain ⟨key, inside, present⟩ := empty
  obtain same | ⟨-, doomed⟩ := expunged key
  · exact absurd (same.symm.trans (emptied key inside)) present
  · obtain ⟨-, manifest, listed, -⟩ := doomed.of_tidy tidy inside
    obtain ⟨-, raw, stored, -⟩ := manifestAt_eq_some.mp listed
    exact Option.isSome_of_eq_some stored

/-- The register is kept in every run. -/
theorem keeping_kept (parses : Parses pf.libs) :
    Setting.Invariant.Kept (C := process config) (W := World A × Births)
      { idle := Keeping config }
      (((faltering config host).setting config).observed fun _ => Births.record) where
  entered _ _ := trivial
  stays _ _ _ := trivial
  drift := by
    rintro s ⟨w, β⟩ ⟨_, β'⟩ ⟨registered, heads⟩ ⟨⟨a, t, -, -, rfl⟩, same⟩
    obtain rfl : β' = β := same
    have kept : Registered config (⟨w.bucket, a, t, w.log⟩, β') :=
      ⟨registered.settled, registered.recorded⟩
    refine ⟨kept, fun m same => ?_⟩
    obtain ⟨p, h⟩ := heads m same
    exact ⟨p, h.uses, h.generation, h.created, h.started, kept⟩
  body := by
    intro q s v _ keeping
    have decodes : ∀ w c reply, ((faltering config host).env config q s).allows w c reply →
        decodesWell config c := fun _ _ _ allowed => allowed
    refine Prog.wp_mono (fun _ _ _ _ h => h) (fun _ _ _ _ _ => trivial) ?_ _ _
      (wp_body_registering config decodes parses q s v keeping)
    exact fun _ _ kept _ => ⟨trivial, kept⟩

end

/-- After any run, a retention run without a failure empties the directories of all
generations that were started before its cutoff, other than the current one, if and only
if each of them that is not empty has its manifest. -/
theorem expired_reclaimed (parses : Parses pf.libs) (host : Host A) :
    AfterFailures config host fun births own cutoffMs before after =>
      OfExpired births own cutoffMs (Emptied config after) ↔
        OfExpired births own cutoffMs fun generation => Emptied config before generation ∨
          (object config before (.manifest generation)).isSome := by
  intro w₀ m start births result s' w' duration run call retention
  have fresh : Keeping config (none : Manager pf) (w₀, ⟨none, ∅⟩) := by
    refine ⟨⟨rfl, fun generation t started => ?_⟩, Manager.unopened⟩
    rw [AList.lookup_empty] at started
    cases started
  obtain ⟨registered, heads⟩ := (keeping_kept parses).reach run fresh
  obtain ⟨p, h⟩ := heads m rfl
  have uses : (purging config).idle (some m) start := fun _ same => Option.some.inj same ▸ h.uses
  obtain ⟨purged, expunged⟩ := (purging_kept.returned call uses).1 m duration rfl retention
  refine forall₂_congr fun generation t => forall₃_congr fun started other expired => ?_
  have recorded := registered.recorded generation t started
  constructor
  · exact expunged.found recorded.tidy
  · rintro (empty | present)
    · intro key inside
      obtain same | ⟨gone, -⟩ := expunged key
      · exact same.trans (empty key inside)
      · exact gone
    · exact purged.emptied recorded other expired present

theorem expired_reclaimed_brief :
    AfterFailures windowConfig (fileHost fun t t' => t < t') fun births own cutoffMs before after =>
      OfExpired births own cutoffMs (Emptied windowConfig after) ↔
        OfExpired births own cutoffMs fun generation => Emptied windowConfig before generation ∨
          (object windowConfig before (.manifest generation)).isSome :=
  expired_reclaimed windowConfig plain_codec.parses _

/-- The observer of the generations is a function. -/
def birthNotes : Notes Births.record where
  note := Births.next
  check _ _ _ := true
  noted _ _ _ _ := rfl

/-- What is uploaded decodes to itself. -/
def isPlain : Call → Bool
  | .putObject _ data => (pipelineDecode plain data windowConfig).toOption = some data
  | _ => true

def falteringMachine {tick : Nat → Nat → Prop} (ticks : ∀ t, tick t (t + 1)) :
    Machine (faltering windowConfig (fileHost tick)) where
  enable _ _ := true
  truncate := id
  install files _ _ := files
  check _ _ _ c _ := isPlain c
  enabled _ _ _ := trivial
  truncated _ := trivial
  installed _ _ _ := trivial
  ticks t _ := ticks t
  checked q s w c reply checked := by
    cases c with
    | putObject key data =>
      rintro - raw ⟨salt, nonce, -, -, encoded⟩
      cases encoded
      exact eq_ok_of_toOption (of_decide_eq_true checked)
    | _ => trivial

/-- A checkpoint whose manifest does not get through leaves a snapshot for good. -/
theorem not_expired_reclaimed :
    ¬ AfterFailures windowConfig (fileHost fun t t' => t < t') fun births own cutoffMs _ after =>
      OfExpired births own cutoffMs (Emptied windowConfig after) := by
  let host : Host Files := fileHost fun t t' => t < t'
  let M : Machine (faltering windowConfig host) := falteringMachine Nat.lt_succ_self
  let M' : Machine (pruning windowConfig host) :=
    flawlessMachine (some 2) _ Nat.lt_succ_self [] rfl
  let w₀ : World Files := ⟨∅, ⟨some dbFile, none⟩, 0, []⟩
  let unlisted : Machine.Cue (faltering windowConfig host) :=
    .perform .checkpoint (isPutTo (objectKey windowConfig (.manifest (uuid 1))))
  have played : ((M.playBeside windowConfig (fun _ => birthNotes)
      [.well .new, unlisted, .well .checkpoint] (none, w₀, ⟨none, ∅⟩)).bind fun conf =>
      (M'.perform windowConfig .enforceRetention (fun _ => false) conf.1 conf.2.1).map
        fun out => (conf, out)).any (fun run =>
      run.1.1.any (fun m => m.generation ≠ uuid 1) ∧
        run.1.2.2.started.lookup (uuid 1) = some 3 ∧ run.2.2.clock = 7 ∧
        (object windowConfig run.2.2.bucket (.snapshot (uuid 1))).isSome) = true := by decide +kernel
  obtain ⟨⟨⟨s, start, births⟩, ⟨result, s'⟩, w'⟩, found, checked⟩ := (Option.any_eq_true _ _).mp played
  obtain ⟨⟨s, start, births⟩, first, rest⟩ := Option.bind_eq_some_iff.mp found
  obtain ⟨out, second, same⟩ := Option.map_eq_some_iff.mp rest
  cases same
  obtain ⟨opened, started, clock, left⟩ := of_decide_eq_true checked
  obtain ⟨m, rfl, other⟩ := (Option.any_eq_true _ _).mp opened
  intro claim
  have emptied := claim (Machine.playBeside_reach first) (Machine.perform_reach second) rfl (uuid 1) 3
    started (of_decide_eq_true other).symm (by rw [clock]; decide)
  rw [object, emptied _ (objectKey_inside rfl)] at left
  cases left

end Waloy.Spec
