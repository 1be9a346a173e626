import Waloy.Guarantees.ResetWal
import Waloy.Spec.WalWriter

/-!
# The committed frames of a WAL file

A sync tells what is new in a WAL file by the length of the file and the salt of its header.
The frames that SQLite commits are all uploaded as long as it writes over none that a sync
has uploaded before.
-/
namespace Waloy.Spec
open Waloy.Effect Waloy.Source Waloy.Source.BackupManager

variable {pf : Platform} (config : BackupConfig pf.build) {page : Nat}

/-- The runs of `new` and `sync_wal` without a failing call, and between two operations the
steps of SQLite's writer in any order. -/
def writing (page : Nat) (tick : Nat → Nat → Prop) : Regime pf (DbFiles page) where
  host := DbFiles.host tick
  enabled q _ := q = .new ∨ q = .syncWal
  allows _ _ _ c reply := succeeds c reply = true ∧ uploadsWell config c
  drift w w' := ∃ a t, (a = w.app ∨ DbFiles.Step w.app a) ∧
    (t = w.clock ∨ tick w.clock t) ∧ w' = { w with app := a, clock := t }

/-- Every committed frame of the WAL file lies at its place in what the segments of the
generation hold. -/
def CoversCommitted (h : Head) (w : World (DbFiles page)) : Prop :=
  ∃ data, segmentsData config w.bucket h.generation h.manifest.segments = some data ∧
    ∀ f, w.app.wal = .log f → ∀ i, frameEnd page i ≤ f.committed →
      frameEnd page i ≤ data.length ∧ frameOf page data i = frameOf page f.bytes i

/-- So it is whenever a sync returns that has uploaded, or that has not recovered: it has
drawn no generation. -/
def CommittedFramesKept (setting : Setting (process config) (World (DbFiles page))) : Prop :=
  ∀ {w₀ s start found m w}, setting.Reach (.idle none w₀)
    (.running .syncWal s start (.pure (.ok (.flag found), some m)) w) →
    found = true ∨ drawn w.log = drawn start.log → CoversCommitted config (head m) w

/-- A step that leaves the bytes alone that were uploaded of the WAL file. -/
def SparesUploaded (h : Head) (s s' : DbFiles page) : Prop :=
  ∀ f f', s.wal = .log f → s'.wal = .log f' → walSalt f'.bytes = walSalt f.bytes →
    h.walHeaderSalt = some (walSalt f.bytes) →
    f'.bytes.take h.walOffset = f.bytes.take h.walOffset

/-- The runs whose steps all do. -/
def sparingUploads (page : Nat) (tick : Nat → Nat → Prop) :
    Setting (process config) (World (DbFiles page)) :=
  { (writing config page tick).setting config with
    drift := fun s w w' => (writing config page tick : Regime pf (DbFiles page)).drift w w' ∧
      ∀ m, s = some m → SparesUploaded (head m) w.app w'.app }

/-- The segments hold the beginning of the WAL file whose salt the manager knows. -/
structure Tracked (h : Head) (w : World (DbFiles page)) (data : Bytes) : Prop where
  backed : Backed config w.bucket h data
  salted : Salted h
  known : ∀ salt, h.walHeaderSalt = some salt → salt ∈ w.app.salts
  begins : ∀ f, w.app.wal = .log f → h.walHeaderSalt = some (walSalt f.bytes) → data <+: f.bytes

/-- Some bytes are tracked. -/
def Followed (h : Head) (w : World (DbFiles page)) : Prop := ∃ data, Tracked config h w data

section
variable {config} {tick : Nat → Nat → Prop} {w w' : World (DbFiles page)} {h h' : Head}
  {data walData : Bytes} {f : WalFile page} {q : Request} {s s' : Manager pf}

theorem walSalt_write (f : WalFile page) (frame : Bytes) (commit : Bool) :
    walSalt (f.write frame commit).bytes = walSalt f.bytes := by
  have header : walSaltOffset + walSaltLen ≤ (f.bytes.take f.cursor).length := by
    have headed := f.headed
    have ordered := f.ordered
    have inside := f.inside
    simp only [walSaltOffset, walSaltLen, walHeaderSize] at headed ⊢
    rw [List.length_take]
    omega
  exact (walSalt_grown (take_prefix_overwrite frame) header).trans
    (walSalt_grown (List.take_prefix _ _) header).symm

theorem walSalt_restart (f : WalFile page) (header : WalHeader page) :
    walSalt (f.restart header).bytes = walSalt header.bytes := by
  have begins : header.bytes <+: (f.restart header).bytes := by
    simp [WalFile.restart, overwrite]
  refine walSalt_grown begins ?_
  rw [header.length]
  decide

/-- A step of the writer that spares what was uploaded. -/
theorem Tracked.step {a : DbFiles page} (tracked : Tracked config h w data) (t : Nat)
    (step : DbFiles.Step w.app a) (spares : SparesUploaded h w.app a) :
    Tracked config h { w with app := a, clock := t } data := by
  have known := tracked.known
  have older : ∀ {salt' : Bytes} (salt), h.walHeaderSalt = some salt → salt ∈ salt' :: w.app.salts :=
    fun salt captured => List.mem_cons_of_mem _ (known salt captured)
  have unknown : ∀ header : WalHeader page, walSalt header.bytes ∉ w.app.salts →
      h.walHeaderSalt ≠ some (walSalt header.bytes) :=
    fun header new same => new (known _ same)
  cases step with
  | started header bare new =>
    refine ⟨tracked.backed, tracked.salted, older, ?_⟩
    rintro _ ⟨⟩ same
    exact absurd same (unknown header new)
  | @wrote f held frame size commit =>
    refine ⟨tracked.backed, tracked.salted, older, ?_⟩
    rintro _ ⟨⟩ same
    rw [walSalt_write] at same
    have kept := spares f _ held rfl (walSalt_write f frame commit) same
    have begins := List.prefix_iff_eq_take.mp (tracked.begins f held same)
    rw [tracked.backed.length, ← kept] at begins
    rw [begins]
    exact List.take_prefix _ _
  | @rolledBack f held =>
    refine ⟨tracked.backed, tracked.salted, older, ?_⟩
    rintro _ ⟨⟩ same
    exact tracked.begins f held same
  | @restarted f held header new =>
    refine ⟨tracked.backed, tracked.salted, older, ?_⟩
    rintro _ ⟨⟩ same
    rw [walSalt_restart] at same
    exact absurd same (unknown header new)
  | checkpointed db => exact ⟨tracked.backed, tracked.salted, known, tracked.begins⟩

/-- A manager at the start of a generation. -/
theorem Tracked.start (segments : h.manifest.segments = []) (offset : h.walOffset = 0)
    (salt : h.walHeaderSalt = none) : Tracked config h w [] where
  backed :=
    { increasing := by simp [segments]
      below := by simp [segments]
      tiles := by
        rw [segments, offset]
        rfl
      held := by
        rw [segments]
        rfl
      length := offset.symm }
  salted synced := by
    rw [offset] at synced
    exact absurd synced (Nat.lt_irrefl 0)
  known := by simp [salt]
  begins := by simp [salt]

/-- Where no discontinuity is found, the file begins with what was uploaded. -/
theorem Tracked.continues (tracked : Tracked config h w data) (held : w.app.wal = .log f)
    (continuous : h.discontinuous f.bytes = false) : data <+: f.bytes := by
  cases captured : h.walHeaderSalt with
  | none =>
    have unsynced : h.walOffset = 0 := by
      by_contra synced
      have known := tracked.salted (Nat.pos_of_ne_zero synced)
      rw [captured] at known
      cases known
    have empty : data = [] := List.length_eq_zero_iff.mp (tracked.backed.length.trans unsynced)
    rw [empty]
    exact List.nil_prefix
  | some salt =>
    refine tracked.begins f held ?_
    have header : walSaltOffset + walSaltLen ≤ f.bytes.length := Nat.le_trans (by decide) f.long
    unfold Head.discontinuous checkWalDiscontinuity at continuous
    split at continuous
    · cases continuous
    · rw [captured] at continuous ⊢
      simp only [ne_eq, decide_not, Bool.not_eq_false', decide_eq_true_eq] at continuous
      rw [continuous]

theorem captured_of_continuous (header : walSaltOffset + walSaltLen ≤ walData.length)
    (continuous : h.discontinuous walData = false) :
    (h.captured walData).walHeaderSalt = some (walSalt walData) := by
  unfold Head.captured
  unfold Head.discontinuous checkWalDiscontinuity at continuous
  cases captured : h.walHeaderSalt with
  | none => simp [header]
  | some salt =>
    split at continuous
    · cases continuous
    · rw [captured] at continuous
      simp only [ne_eq, decide_not, Bool.not_eq_false', decide_eq_true_eq] at continuous
      simp [captured, continuous]

/-- The manager after it has captured the salt of a file that continues. -/
theorem Tracked.captured (tracked : Tracked config h w data) (held : w.app.wal = .log f)
    (continuous : h.discontinuous f.bytes = false) :
    Tracked config (h.captured f.bytes) w data := by
  have header : walSaltOffset + walSaltLen ≤ f.bytes.length := Nat.le_trans (by decide) f.long
  have salt := captured_of_continuous header continuous
  refine ⟨tracked.backed.captured _, fun _ => by rw [salt]; rfl, ?_, ?_⟩
  · rw [salt]
    rintro _ ⟨⟩
    exact w.app.known f held
  · intro f' held' _
    cases held.symm.trans held'
    exact tracked.continues held continuous

/-- The frames of a file are covered once all its complete frames are. -/
theorem Tracked.covers (tracked : Tracked config h w data)
    (all : ∀ f, w.app.wal = .log f → data <+: f.bytes ∧
      (walAlignedLen f.bytes ≤ walHeaderSize ∨ walAlignedLen f.bytes ≤ h.walOffset)) :
    CoversCommitted config h w := by
  refine ⟨data, tracked.backed.held, fun f held i committed => ?_⟩
  obtain ⟨begins, covered⟩ := all f held
  have aligned := f.frameEnd_le_aligned (committed.trans (f.ordered.trans f.inside))
  have framed : walHeaderSize < frameEnd page i := by
    have := f.positive
    rw [frameEnd, Nat.succ_mul]
    omega
  have inside : frameEnd page i ≤ data.length := by
    rw [tracked.backed.length]
    omega
  exact ⟨inside, frameOf_of_begins begins inside⟩

end

section
variable {config} {tick : Nat → Nat → Prop} {w w' : World (DbFiles page)} {h h' : Head}
  {data walData : Bytes} {q : Request} {s s' : Manager pf}

theorem writing_faultless : ((writing config page tick).env config q s).Faultless :=
  .of_allows fun _ _ _ allowed => faultless_of_succeeds allowed.1

theorem writing_inverts : ((writing config page tick).env config q s).Inverts config :=
  Env.inverts_of_allows fun _ _ _ allowed => allowed.2

theorem writing_counts : ((writing config page tick).env config q s).Counts config :=
  Env.counts_of_allows fun _ _ _ allowed => allowed.2

/-- What a sync reads is the file that the writer has left. -/
theorem ReadsWal.standing {a : DbFiles page}
    (read : ReadsWal ((writing config page tick).env config q s) w a walData)
    (long : walHeaderSize < walData.length) :
    a = w.app ∧ ∃ f, w.app.wal = .log f ∧ f.bytes = walData := by
  obtain rfl : a = w.app := read.moved
  refine ⟨rfl, ?_⟩
  have held : w.app.wal.bytes = some walData := read.held
  cases wal : w.app.wal with
  | missing =>
    rw [wal] at held
    cases held
  | empty =>
    rw [wal] at held
    cases held
    exact absurd long (by decide)
  | log f =>
    rw [wal] at held
    exact ⟨f, rfl, Option.some.inj held⟩

variable (codec : Codec config)
include codec

theorem Tracked.regenerated {r : Except Error Unit}
    (exit : Regenerated config ((writing config page tick).env config q s) w h r h' w') :
    Tracked config h' w' [] ∧ drawn w'.log = drawn w.log + 1 ∧ r = .ok () := by
  obtain ⟨generation, now, a, a', w₁, moved, fresh, ticks, taken, moved', rfl, ok⟩ :=
    exit.faultless writing_faultless codec
  have drew : drawn w₁.log = drawn w.log + 1 := taken.drawn_eq
  cases taken with
  | done => exact ⟨.start rfl rfl rfl, drew, ok⟩

/-- The upload of a sync covers the complete frames of the file. -/
theorem Tracked.uploaded {r : Except Error Unit} {f : WalFile page}
    (tracked : Tracked config h w data) (held : w.app.wal = .log f) (begins : data <+: f.bytes)
    (salt : h.walHeaderSalt = some (walSalt f.bytes)) (new : h.walOffset < walAlignedLen f.bytes)
    (exit : UploadExit config ((writing config page tick).env config q s) w h f.bytes r h' w') :
    Tracked config h' w' (f.bytes.take (walAlignedLen f.bytes)) ∧ w'.app = w.app ∧
      walAlignedLen f.bytes ≤ h'.walOffset ∧ r = .ok () := by
  obtain rfl := exit.faultless writing_faultless codec
  cases exit with
  | @done a encoded manifest now nextIndex moved sent ticks listed next =>
    obtain rfl : a = w.app := moved
    rw [incrementU32_of_lt _ (writing_counts _ _ _ sent.taken)] at next
    obtain rfl := Option.some.inj next
    have backed := tracked.backed.advanced manifest (sent.decodes writing_inverts (by simp))
      (Nat.le_of_lt new) now
    have whole : data ++ h.unsynced f.bytes = f.bytes.take (walAlignedLen f.bytes) := by
      rw [List.prefix_iff_eq_take.mp begins, tracked.backed.length]
      exact h.take_append_unsynced (Nat.le_of_lt new)
    rw [whole] at backed
    refine ⟨⟨backed, fun _ => ?_, tracked.known, ?_⟩, rfl, Nat.le_refl _, rfl⟩
    · change h.walHeaderSalt.isSome
      rw [salt]
      rfl
    · intro f' held' _
      cases held.symm.trans held'
      exact List.take_prefix _ _

/-- A sync keeps track of the file, and covers it where it uploads or draws no generation. -/
theorem Tracked.synced {r : Except Error Bool} (tracked : Tracked config h w data)
    (exit : SyncExit config ((writing config page tick).env config q s) w h r h' w') :
    Followed config h' w' ∧
      ∀ found, r = .ok found → found = true ∨ drawn w'.log = drawn w.log →
        CoversCommitted config h' w' := by
  cases exit with
  | @absent reply a moved missing allowed found =>
    obtain rfl : a = w.app := moved
    refine ⟨⟨data, tracked⟩, fun _ _ _ => tracked.covers fun f held => ?_⟩
    cases reply with
    | error e => cases allowed.1
    | ok there =>
      have is_there : there = w.app.wal.bytes.isSome := found there rfl
      rw [held] at is_there
      exact absurd (congrArg Except.ok is_there) missing
  | unread moved failed =>
    obtain ⟨v, reply, bad, allowed⟩ := failed
    cases reply with
    | ok => cases bad
    | error e => cases allowed.1
  | @short walData a read short =>
    obtain rfl : a = w.app := read.moved
    refine ⟨⟨data, tracked⟩, fun _ _ _ => ⟨data, tracked.backed.held, ?_⟩⟩
    intro f held i committed
    have same : f.bytes = walData := by
      have read : w.app.wal.bytes = some walData := read.held
      rw [held] at read
      exact Option.some.inj read
    have inside := committed.trans (f.ordered.trans f.inside)
    have := f.positive
    rw [same, frameEnd, Nat.succ_mul] at inside
    omega
  | @recovered walData a _ _ read long broken exit =>
    obtain ⟨rfl, -⟩ := read.standing long
    obtain ⟨started, drew, -⟩ := Tracked.regenerated codec exit
    refine ⟨⟨_, started⟩, ?_⟩
    rintro _ ⟨⟩ (uploaded | same)
    · cases uploaded
    · exact absurd (drew.symm.trans same) (Nat.succ_ne_self _)
  | unrecovered read long broken exit =>
    obtain ⟨-, -, ok⟩ := Tracked.regenerated codec exit
    cases ok
  | covered read long continuous covered =>
    obtain ⟨rfl, f, held, rfl⟩ := read.standing long
    have here := tracked.captured held continuous
    refine ⟨⟨data, here⟩, fun _ _ _ => here.covers fun f' held' => ?_⟩
    cases held.symm.trans held'
    exact ⟨tracked.continues held continuous, by simpa using covered⟩
  | uploaded read long continuous frames new exit =>
    obtain ⟨rfl, f, held, rfl⟩ := read.standing long
    have header : walSaltOffset + walSaltLen ≤ f.bytes.length := Nat.le_trans (by decide) f.long
    obtain ⟨here, still, covered, -⟩ := (tracked.captured held continuous).uploaded codec held
      (tracked.continues held continuous) (captured_of_continuous header continuous)
      (by simpa using new) exit
    refine ⟨⟨_, here⟩, fun _ _ _ => here.covers fun f' held' => ?_⟩
    rw [still] at held'
    cases held.symm.trans held'
    exact ⟨List.take_prefix _ _, .inr covered⟩
  | unsent read long continuous frames new exit =>
    obtain ⟨rfl, f, held, rfl⟩ := read.standing long
    have header : walSaltOffset + walSaltLen ≤ f.bytes.length := Nat.le_trans (by decide) f.long
    obtain ⟨-, -, -, ok⟩ := (tracked.captured held continuous).uploaded codec held
      (tracked.continues held continuous) (captured_of_continuous header continuous)
      (by simpa using new) exit
    cases ok

omit codec in
theorem Tracked.opened
    (exit : OpeningExit config ((writing config page tick).env config q s) w (.ok h') w') :
    Tracked config h' w' [] := by
  obtain ⟨generation, now, a, a', w₁, opened, fresh, ticks, taken, moved, rfl⟩ := exit.of_ok
  cases taken with
  | done => exact .start rfl rfl rfl

end

/-- The manager keeps track of the file in which SQLite writes. -/
def tracking : Setting.Invariant (C := process config) (W := World (DbFiles page)) where
  idle := Holding config (Followed config)
  result q _ start result s' w' := q = .syncWal → ∀ found m', result = .ok (.flag found) →
    s' = some m' → found = true ∨ drawn w'.log = drawn start.log →
    CoversCommitted config (head m') w'

section
variable {config} {tick : Nat → Nat → Prop}

theorem tracking_kept (codec : Codec config) :
    (tracking config).Kept (sparingUploads config page tick) where
  entered _ _ := trivial
  stays _ _ _ := trivial
  drift := by
    rintro s w w' idle ⟨⟨a, t, moved, -, rfl⟩, spares⟩ m rfl
    obtain ⟨uses, data, tracked⟩ := idle m rfl
    refine ⟨uses, data, ?_⟩
    obtain rfl | step := moved
    · exact ⟨tracked.backed, tracked.salted, tracked.known, tracked.begins⟩
    · exact tracked.step t step (spares m rfl)
  body := by
    intro q s w enabled idle
    refine Prog.wp_mono (fun _ _ _ _ h => h) (fun _ _ _ _ _ => trivial) ?_ _ _
      (wp_process rfl (fun m hs => (idle m hs).1) (request_any q s))
    rintro ⟨result, s'⟩ w' performed -
    obtain rfl | rfl := enabled
    · refine ⟨fun (other : Request.new = .syncWal) => absurd other (by decide), ?_⟩
      cases performed with
      | opened uses exit => exact .some uses ⟨_, Tracked.opened exit⟩
      | unopened => exact .none _
    · cases performed with
      | @synced m m' r _ uses exit =>
        obtain ⟨uses₀, data, tracked⟩ := idle m rfl
        obtain ⟨kept, covers⟩ := tracked.synced codec exit
        refine ⟨?_, .some uses kept⟩
        rintro - found _ returned ⟨⟩ uploaded
        refine covers found ?_ uploaded
        cases r with
        | ok found' =>
          cases returned
          rfl
        | error e => cases returned

/-- As long as SQLite writes over nothing that was uploaded, no committed frame is skipped. -/
theorem committed_frames_kept (codec : Codec config) :
    CommittedFramesKept config (sparingUploads config page tick) := by
  intro w₀ s start found m w run
  have start : (tracking config).Holds (sparingUploads config page tick) (.idle none w₀) :=
    Holding.none config
  exact ((tracking_kept codec).returned run start).1 rfl found m rfl rfl

end

theorem committed_frames_kept_plain :
    CommittedFramesKept plainConfig (sparingUploads plainConfig 512 fun t t' => t < t') :=
  committed_frames_kept plain_codec

/-- A step in the WAL file, where there is one. -/
def DbFiles.inLog (s : DbFiles page) (step : WalFile page → WalFile page) : DbFiles page :=
  match s.wal with
  | .log f => s.withLog (step f)
  | _ => s

theorem drift_inLog {tick : Nat → Nat → Prop} {step : WalFile page → WalFile page}
    (steps : ∀ s f, s.wal = .log f → DbFiles.Step s (s.withLog (step f)))
    (w : World (DbFiles page)) : (writing config page tick : Regime pf (DbFiles page)).drift w
      { w with app := w.app.inLog step } := by
  refine ⟨_, w.clock, ?_, .inl rfl, rfl⟩
  unfold DbFiles.inLog
  cases held : w.app.wal with
  | log f => exact .inr (steps _ f held)
  | _ => exact .inl rfl

/-- The machine of these runs, where the uploads are to some objects only. -/
def writingMachine (objects : List Object) (counted : objects.all isCounted = true) :
    Machine (writing plainConfig page fun _ _ => True) where
  enable q _ := q = .new ∨ q = .syncWal
  truncate := id
  install files _ _ := files
  check _ _ w c reply := succeeds c reply && faultlessly objects w c reply
  enabled _ _ := of_decide_eq_true
  truncated _ := trivial
  installed _ _ _ := trivial
  ticks _ _ := trivial
  checked _ _ w c reply checked := by
    obtain ⟨succeeded, faultless⟩ := Bool.and_eq_true_iff.mp checked
    refine ⟨succeeded, (faultlessly_sound (fun o among generation index same => ?_) faultless).2⟩
    have small := List.all_eq_true.mp counted o among
    rw [same] at small
    exact of_decide_eq_true small

/-- After a commit the frame of another transaction is uploaded. It is rolled back, a third one
writes its own frame there and commits, and the next sync finds nothing new. -/
theorem not_committedFramesKept : ¬ CommittedFramesKept plainConfig
    ((writing plainConfig 512 fun _ _ => True).setting plainConfig) := by
  let R : Regime plain (DbFiles 512) := writing plainConfig 512 fun _ _ => True
  let M : Machine R := writingMachine
    [.latest, .manifest (uuid 0), .snapshot (uuid 0), .segment (uuid 0) 0] rfl
  let write (fill : UInt8) (commit : Bool) : Machine.Cue R :=
    .move (·.inLog (·.write (walFrame fill) commit))
      (drift_inLog _ fun _ _ held => .wrote held _ List.length_replicate commit)
  let rollback : Machine.Cue R :=
    .move (·.inLog (·.rollback)) (drift_inLog _ fun _ _ held => .rolledBack held)
  let header : WalHeader 512 := ⟨walHeader 7, rfl, rfl, by decide⟩
  let files : DbFiles 512 :=
    ⟨some dbFile, .log (.first header), [walSalt header.bytes], fun _ held => by
      cases held
      exact List.mem_cons_self⟩
  let perform (q : Request) : Machine.Cue R := .perform q fun _ => false
  have played : (M.call plainConfig
      [write 1 true, perform .new, write 2 false, perform .syncWal, rollback, write 3 true] .syncWal
      (fun _ => false) (none, ⟨∅, files, 1000, []⟩)).any (fun out =>
      out.2.1.1.toOption = some (.flag false) ∧ drawn out.2.2.log = drawn out.1.2.log ∧
        out.2.1.2.any fun m =>
          match out.2.2.app.wal with
          | .log f => frameEnd 512 1 ≤ f.committed ∧
              (segmentsData plainConfig out.2.2.bucket m.generation m.manifest.segments).map
                (frameOf 512 · 1) ≠ some (frameOf 512 f.bytes 1)
          | _ => false) = true := by decide +kernel
  obtain ⟨s, start, ⟨result, s'⟩, w, run, checked⟩ := Machine.exists_call played
  obtain ⟨returned, same, uncovered⟩ := of_decide_eq_true checked
  obtain ⟨m, rfl, uncovered⟩ := (Option.any_eq_true _ _).mp uncovered
  obtain rfl := eq_ok_of_toOption returned
  intro claim
  obtain ⟨data, held, covered⟩ := claim run (.inr same)
  cases wal : w.app.wal with
  | log f =>
    rw [wal] at uncovered
    obtain ⟨committed, differs⟩ := of_decide_eq_true uncovered
    refine differs ?_
    have held : segmentsData plainConfig w.bucket m.generation m.manifest.segments = some data := held
    rw [held, Option.map_some, (covered f wal 1 committed).2]
  | _ =>
    rw [wal] at uncovered
    cases uncovered

end Waloy.Spec
