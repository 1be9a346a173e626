import Waloy.Spec.Confined
import Waloy.Spec.Machine
import Waloy.Spec.Selection

/-!
# Two backups in one bucket

A manager takes every manifest that its listing shows for one of its own generations. The
listing under an outer prefix shows the manifests under an inner one too, so a retention run
of the outer manager deletes generations of the inner one. Prefixes that are not nested keep
two managers apart.
-/
namespace Waloy.Spec
open Waloy.Effect Waloy.Source Waloy.Source.BackupManager

variable {pf : Platform} (config config' : BackupConfig pf.build) {A : Type}

/-- What every key of a backup begins with. -/
def directory : Str := (S3Client.new config.s3).fullKey []

/-- Neither directory is inside the other. -/
def Apart : Prop := ¬ directory config <+: directory config' ∧ ¬ directory config' <+: directory config

/-- Writes and deletes under the prefix of a configuration. -/
def UnderPrefix : Call → Prop
  | .putObject key _ => directory config <+: key
  | .deleteObject key => directory config <+: key
  | _ => True

/-- All runs: any operation, any failure, and any change of the local files in between. -/
def anyRun (host : Host A) : Regime pf A where
  host := host
  enabled _ _ := True
  allows _ _ _ _ _ := True
  drift := idleMove host

/-- Two processes on one bucket. -/
abbrev Duo (A : Type) := Both (process config) (process config') (World A)

/-- One of the two has stored an object under a key, or tried to. -/
def Wrote (party : Party) (calls : List (Party × Call)) (key : Str) : Prop :=
  ∃ data, (party, Call.putObject key data) ∈ calls

/-- No step of one process changes what the other has written, and a point-in-time restore
with one prefix selects a manifest that was written under it. -/
structure KeptApart (host host' : Host A) (b : Duo config config' A) : Prop where
  left : ∀ c, (Regime.setting config (anyRun host)).Move b.left c → ∀ key,
    Wrote .right b.calls key → c.world.bucket.lookup key = b.left.world.bucket.lookup key
  right : ∀ c, (Regime.setting config' (anyRun host')).Move b.right c → ∀ key,
    Wrote .left b.calls key → c.world.bucket.lookup key = b.right.world.bucket.lookup key
  restoresLeft : ∀ timestampMs manifest,
    selectManifest (readable config b.left.world.bucket) timestampMs = some manifest →
    ∃ key, ReadableAt config b.left.world.bucket key manifest ∧
      Wrote .left b.calls ((S3Client.new config.s3).fullKey key)
  restoresRight : ∀ timestampMs manifest,
    selectManifest (readable config' b.right.world.bucket) timestampMs = some manifest →
    ∃ key, ReadableAt config' b.right.world.bucket key manifest ∧
      Wrote .right b.calls ((S3Client.new config'.s3).fullKey key)

/-- The two backups are isolated in every interleaving of their processes. -/
def Isolated (host host' : Host A) : Prop :=
  ∀ w₀ b, w₀.bucket = ∅ →
    Both.Reach (Regime.setting config (anyRun host)) (Regime.setting config' (anyRun host'))
      ⟨.idle none w₀, .idle none w₀, []⟩ b → KeptApart config config' host host' b

/-- What a call may do to the objects of a bucket. -/
def Touches (asked : Option Call) (w w' : World A) : Prop :=
  ∀ key, w'.bucket.lookup key = w.bucket.lookup key ∨
    (∃ data, asked = some (.putObject key data)) ∨
    asked = some (.deleteObject key) ∧ w'.bucket.lookup key = none

section
variable {config config'}

theorem fullKey_eq_directory (key : Str) :
    (S3Client.new config.s3).fullKey key = directory config ++ key := by
  unfold directory S3Client.fullKey
  split <;> simp

theorem permits_underPrefix : PermitsAll config (UnderPrefix config) where
  quiet c local_call := by
    cases c with
    | putObject | deleteObject => cases local_call
    | _ => trivial
  batch _ _ _ := trivial
  time := trivial
  id := trivial
  put key data := fullKey_eq_directory key ▸ List.prefix_append _ _
  get _ := trivial
  list _ := trivial
  delete key := fullKey_eq_directory key ▸ List.prefix_append _ _
  truncate _ := trivial
  write _ _ := trivial

theorem Acts.touches {host : Host A} {w w' : World A} {c : Call} {reply : c.Reply}
    (acts : Acts host w c reply w') : Touches (some c) w w' := by
  have still : w'.bucket = w.bucket → Touches (some c) w w' := fun same key => .inl (by rw [same])
  by_cases quiet : isQuiet c = true
  · rw [acts.quiet quiet]
    exact fun key => .inl rfl
  cases c with
  | putObject key data =>
    have inserts : ∀ b : Bucket, ∀ key', (b.insert key data).lookup key' = b.lookup key' ∨
        (∃ data', some (Call.putObject key data) = some (.putObject key' data')) := by
      intro b key'
      by_cases same : key' = key
      · exact .inr ⟨data, by rw [same]⟩
      · exact .inl (AList.lookup_insert_ne same)
    cases reply with
    | ok =>
      cases acts
      exact fun key' => (inserts _ key').imp_right .inl
    | error =>
      obtain rfl | rfl := acts
      · exact fun _ => .inl rfl
      · exact fun key' => (inserts _ key').imp_right .inl
  | deleteObject key =>
    have erases : ∀ b : Bucket, ∀ key', (b.erase key).lookup key' = b.lookup key' ∨
        some (Call.deleteObject key) = some (.deleteObject key') ∧ (b.erase key).lookup key' = none := by
      intro b key'
      by_cases same : key' = key
      · exact .inr ⟨by rw [same], by rw [same, AList.lookup_erase]⟩
      · exact .inl (AList.lookup_erase_ne same)
    cases reply with
    | ok =>
      cases acts
      exact fun key' => (erases _ key').imp_right .inr
    | error =>
      obtain rfl | rfl := acts
      · exact fun _ => .inl rfl
      · exact fun key' => (erases _ key').imp_right .inr
  | systemTime => exact still (by rw [acts.2])
  | newUuid => exact still (by rw [acts.2])
  | writeFile =>
    obtain ⟨a, -, rfl⟩ := acts
    exact still rfl
  | executeBatch _ batch => cases batch with
    | walCheckpointTruncate =>
      obtain ⟨a, -, rfl⟩ := acts
      exact still rfl
    | _ => exact absurd rfl quiet
  | _ => exact absurd rfl quiet

/-- A step of a process touches what is under its prefix. -/
theorem touches_move {host : Host A} {c c' : Conf (process config) (World A)}
    (within : c.Within (UnderPrefix config) fun s => ∀ m, s = some m → Uses config m)
    (move : (Regime.setting config (anyRun host)).Move c c') :
    (∀ call, c.asks = some call → UnderPrefix config call) ∧ Touches c.asks c.world c'.world := by
  let frame (asked : Option Call) (w w' : World A) : Prop :=
    (∀ call, asked = some call → UnderPrefix config call) ∧ Touches asked w w'
  suffices frame c.asks c.world c'.world from this
  refine within.world ?_ ?_ ?_ move
  · exact fun w => ⟨by simp, fun _ => .inl rfl⟩
  · rintro s w w' ⟨a, t, -, -, rfl⟩
    exact ⟨by simp, fun _ => .inl rfl⟩
  · rintro q s w call reply w' under ⟨a, -, -, acts⟩
    have touches := acts.touches
    refine ⟨?_, touches⟩
    rintro _ ⟨⟩
    exact under

/-- What two processes have written so far: every object of the bucket was stored by one of
them, and each has stored under its own prefix. -/
structure Accounted (b : Duo config config' A) : Prop where
  shared : b.left.world = b.right.world
  stored : ∀ key, (b.left.world.bucket.lookup key).isSome = true →
    Wrote .left b.calls key ∨ Wrote .right b.calls key
  left : ∀ key, Wrote .left b.calls key → directory config <+: key
  right : ∀ key, Wrote .right b.calls key → directory config' <+: key

theorem Wrote.mono {party : Party} {calls : List (Party × Call)} {key : Str}
    (wrote : Wrote party calls key) (more : List (Party × Call)) : Wrote party (more ++ calls) key := by
  obtain ⟨data, member⟩ := wrote
  exact ⟨data, List.mem_append_right _ member⟩

theorem not_wrote_nil (party : Party) (key : Str) : ¬ Wrote party [] key := by
  rintro ⟨data, member⟩
  cases member

theorem wrote_asked {party party' : Party} {asked : Option Call} {calls : List (Party × Call)}
    {key : Str} : Wrote party ((asked.map (party', ·)).toList ++ calls) key ↔
      (party = party' ∧ ∃ data, asked = some (.putObject key data)) ∨ Wrote party calls key := by
  unfold Wrote
  cases asked with
  | none => simp
  | some call => simp [Prod.ext_iff, exists_or, eq_comm]

/-- A step of one party keeps the account. -/
theorem stored_move {w w' : World A} {asked : Option Call} {party : Party}
    {calls : List (Party × Call)} (touches : Touches asked w w')
    (stored : ∀ key, (w.bucket.lookup key).isSome = true →
      Wrote .left calls key ∨ Wrote .right calls key) (key : Str)
    (present : (w'.bucket.lookup key).isSome = true) :
    Wrote .left ((asked.map (party, ·)).toList ++ calls) key ∨
      Wrote .right ((asked.map (party, ·)).toList ++ calls) key := by
  obtain same | ⟨data, put⟩ | ⟨-, gone⟩ := touches key
  · rw [same] at present
    exact (stored key present).imp (Wrote.mono · _) (Wrote.mono · _)
  · cases party with
    | left => exact .inl (wrote_asked.mpr (.inl ⟨rfl, data, put⟩))
    | right => exact .inr (wrote_asked.mpr (.inl ⟨rfl, data, put⟩))
  · rw [gone] at present
    cases present

/-- Each process keeps within the calls under its prefix. -/
abbrev BothUnder (b : Duo config config' A) : Prop :=
  b.Within (UnderPrefix config) (UnderPrefix config') (fun s => ∀ m, s = some m → Uses config m)
    fun s => ∀ m, s = some m → Uses config' m

variable {host host' : Host A} {b b' : Duo config config' A}

theorem Accounted.move (under : BothUnder b) (accounted : Accounted b)
    (move : Both.Move (Regime.setting config (anyRun host)) (Regime.setting config' (anyRun host')) b
      b') : Accounted b' := by
  cases move with
  | left moved =>
    obtain ⟨asked, touches⟩ := touches_move under.left moved
    constructor
    case shared => exact (Conf.world_inWorld _ _).symm
    case stored => exact stored_move touches accounted.stored
    case left =>
      intro key wrote
      obtain ⟨-, data, put⟩ | before := wrote_asked.mp wrote
      · exact asked _ put
      · exact accounted.left key before
    case right =>
      intro key wrote
      obtain ⟨other, -⟩ | before := wrote_asked.mp wrote
      · cases other
      · exact accounted.right key before
  | right moved =>
    obtain ⟨asked, touches⟩ := touches_move under.right moved
    constructor
    case shared => exact Conf.world_inWorld _ _
    case stored =>
      rw [Conf.world_inWorld]
      exact stored_move touches (accounted.shared ▸ accounted.stored)
    case left =>
      intro key wrote
      obtain ⟨other, -⟩ | before := wrote_asked.mp wrote
      · cases other
      · exact accounted.left key before
    case right =>
      intro key wrote
      obtain ⟨-, data, put⟩ | before := wrote_asked.mp wrote
      · exact asked _ put
      · exact accounted.right key before

theorem accounted_start {w₀ : World A} (empty : w₀.bucket = ∅) :
    Accounted (⟨.idle none w₀, .idle none w₀, []⟩ : Duo config config' A) := by
  constructor
  case shared => exact Conf.world_idle_eq _ _ w₀
  case stored =>
    intro key present
    have nothing : w₀.bucket.lookup key = none := by
      rw [empty]
      exact AList.lookup_empty key
    change (w₀.bucket.lookup key).isSome = true at present
    rw [nothing] at present
    cases present
  case left => exact fun key wrote => absurd wrote (not_wrote_nil _ key)
  case right => exact fun key wrote => absurd wrote (not_wrote_nil _ key)

theorem under_start {w₀ : World A} :
    BothUnder (⟨.idle none w₀, .idle none w₀, []⟩ : Duo config config' A) := by
  constructor
  case left => rintro _ ⟨⟩
  case right => rintro _ ⟨⟩

theorem accounted_reach {w₀ : World A} (empty : w₀.bucket = ∅)
    (run : Both.Reach (Regime.setting config (anyRun host)) (Regime.setting config' (anyRun host'))
      ⟨.idle none w₀, .idle none w₀, []⟩ b) : BothUnder b ∧ Accounted b := by
  induction run with
  | refl => exact ⟨under_start, accounted_start empty⟩
  | tail _ step ih =>
    obtain ⟨under, accounted⟩ := ih
    refine ⟨?_, accounted.move under step⟩
    exact under.move (within_process permits_underPrefix) (within_process permits_underPrefix) step

/-- Two directories of which neither is inside the other have no key in common. -/
theorem Apart.disjoint (apart : Apart config config') {key : Str}
    (under : directory config <+: key) : ¬ directory config' <+: key := by
  intro under'
  obtain inside | inside := List.prefix_or_prefix_of_prefix under under'
  · exact apart.1 inside
  · exact apart.2 inside

theorem Apart.symm (apart : Apart config config') : Apart config' config := ⟨apart.2, apart.1⟩

/-- A call under one prefix does not touch what is under the other. -/
theorem Touches.apart {asked : Option Call} {w w' : World A} {key : Str} (touches : Touches asked w w')
    (under : ∀ call, asked = some call → UnderPrefix config call)
    (outside : ¬ directory config <+: key) : w'.bucket.lookup key = w.bucket.lookup key := by
  obtain same | ⟨data, put⟩ | ⟨deleted, -⟩ := touches key
  · exact same
  · exact absurd (under _ put) outside
  · exact absurd (under _ deleted) outside

theorem ReadableAt.stored {b : Bucket} {key : Str} {manifest : GenerationManifest}
    (read : ReadableAt config b key manifest) :
    (b.lookup ((S3Client.new config.s3).fullKey key)).isSome = true := by
  obtain ⟨-, raw, present, -⟩ := read
  rw [present]
  rfl

end

/-- Prefixes that are not nested isolate two backups. -/
theorem isolated_of_apart (host host' : Host A) (apart : Apart config config') :
    Isolated config config' host host' := by
  intro w₀ b empty run
  obtain ⟨under, accounted⟩ := accounted_reach empty run
  constructor
  case left =>
    intro c moved key wrote
    obtain ⟨asked, touches⟩ := touches_move under.left moved
    exact touches.apart asked (apart.symm.disjoint (accounted.right key wrote))
  case right =>
    intro c moved key wrote
    obtain ⟨asked, touches⟩ := touches_move under.right moved
    exact touches.apart asked (apart.disjoint (accounted.left key wrote))
  case restoresLeft =>
    intro timestampMs manifest selected
    obtain ⟨key, read⟩ := mem_readable.mp (selectManifest_mem selected).1
    refine ⟨key, read, (accounted.stored _ read.stored).resolve_right fun wrote => ?_⟩
    refine apart.disjoint ?_ (accounted.right _ wrote)
    rw [fullKey_eq_directory]
    exact List.prefix_append _ _
  case restoresRight =>
    intro timestampMs manifest selected
    obtain ⟨key, read⟩ := mem_readable.mp (selectManifest_mem selected).1
    have stored := read.stored
    rw [← accounted.shared] at stored
    refine ⟨key, read, (accounted.stored _ stored).resolve_left fun wrote => ?_⟩
    refine apart.symm.disjoint ?_ (accounted.left _ wrote)
    rw [fullKey_eq_directory]
    exact List.prefix_append _ _

/-- A plain configuration with a prefix. -/
def prefixedConfig (keyPrefix : Str) : BackupConfig plain.build :=
  { plainConfig with s3 := ⟨keyPrefix⟩, retentionDuration := some 1 }

theorem isolated_plain :
    Isolated (prefixedConfig ['a']) (prefixedConfig ['b']) (fileHost fun _ _ => True)
      (fileHost fun _ _ => True) :=
  isolated_of_apart _ _ _ _ ⟨by decide, by decide⟩

/-- What one process does alone leaves the objects of the other where they are, if the two
are isolated. -/
theorem Isolated.alone {config config' : BackupConfig pf.build} {host host' : Host A}
    (isolated : Isolated config config' host host') {w₀ : World A} (empty : w₀.bucket = ∅)
    {c c' : Conf (process config) (World A)} {d : Conf (process config') (World A)}
    {calls : List (Party × Call)} {key : Str}
    (before : Both.Reach (Regime.setting config (anyRun host)) (Regime.setting config' (anyRun host'))
      ⟨.idle none w₀, .idle none w₀, []⟩ ⟨c, d, calls⟩) (same : d.world = c.world)
    (wrote : Wrote .right calls key) (run : (Regime.setting config (anyRun host)).Reach c c') :
    c'.world.bucket.lookup key = c.world.bucket.lookup key := by
  induction run with
  | refl => rfl
  | tail first step ih =>
    obtain ⟨calls', -, beside⟩ := Both.reach_left first same calls
    exact ((isolated _ _ empty (before.trans beside)).left _ step key (wrote.mono calls')).trans ih

/-- A manager without a prefix takes the manifest of one with a prefix for an expired
generation of its own. -/
theorem not_isolated :
    ¬ Isolated (prefixedConfig []) (prefixedConfig ['x']) (fileHost fun _ _ => True)
      (fileHost fun _ _ => True) := by
  let R : Regime plain Files := anyRun (fileHost fun _ _ => True)
  let M : Machine R :=
    { enable := fun _ _ => true
      truncate := id
      install := fun files _ _ => files
      check := fun _ _ _ _ _ => true
      enabled := fun _ _ _ => trivial
      truncated := fun _ => trivial
      installed := fun _ _ _ => trivial
      ticks := fun _ _ => trivial
      checked := fun _ _ _ _ _ _ => trivial }
  let w₀ : World Files := ⟨∅, ⟨some dbFile, none⟩, 1000, []⟩
  let key := objectKey (prefixedConfig ['x']) (.snapshot (uuid 0))
  have played : ((M.play (prefixedConfig ['x']) [.perform .new fun _ => false] (none, w₀)).bind
      fun middle => (M.play (prefixedConfig [])
        [.perform .new fun _ => false, .perform .enforceRetention fun _ => false]
        (none, middle.2)).map fun last => (middle, last)).any
      (fun out => (out.1.2.bucket.lookup key).isSome && (out.2.2.bucket.lookup key).isNone) =
        true := by
    decide +kernel
  obtain ⟨middle, last, inner, outer, checked⟩ := Machine.exists_relay played
  rw [Bool.and_eq_true] at checked
  intro claim
  obtain ⟨calls, alone, run⟩ := Both.reach_right (C := process (prefixedConfig []))
    (L := Regime.setting (prefixedConfig []) R) (c := .idle none w₀) inner
    (Conf.world_idle_eq _ _ w₀) []
  obtain ⟨-, accounted⟩ := accounted_reach rfl run
  have wrote : Wrote .right (calls ++ []) key := by
    refine (accounted.stored key checked.1).resolve_left ?_
    rintro ⟨data, member⟩
    rw [List.append_nil] at member
    cases alone _ member
  have same : last.2.bucket.lookup key = middle.2.bucket.lookup key :=
    claim.alone rfl run (Conf.world_idle_eq _ _ _) wrote outer
  dsimp only at checked
  rw [same, Option.isNone_iff_eq_none] at checked
  rw [checked.2] at checked
  cases checked.1

end Waloy.Spec
