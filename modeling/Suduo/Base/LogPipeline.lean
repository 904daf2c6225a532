/-
# From `append` to the files

`AsyncLogger` (`AsyncLogger.lean`, with its call of `stop` in `AsyncLoggerStop.lean`) gives bytes to
`LogFile::append`, and `LogFile` (`LogFile.lean`) writes them through stdio to one file after the
other.  Here the two are put together: `thread_func` constructs the log file when it starts, appends
each buffer to it, flushes it at the end of a round, and flushes it once more before it goes home.

What comes of it is a statement about the files alone.  In every interleaving the bytes in the
files, in the order of the files, are the first of the bytes that were appended; what is missing is
in stdio, in the buffers the backend has taken, or in the front end; and in stdio there is nothing
unless the backend is in the middle of a write-out (`files_begin`).  So a process that dies loses
the end of its log and never a piece from its middle, and `stop`, where it loses nothing, leaves all
of it in the files (`stop_files`).
-/
import Suduo.Base.AsyncLoggerStop
import Suduo.Base.LogFile

namespace Suduo.LogPipeline

open Lib
open AsyncLogger (Stopping pollBytes ptrBytes)
open LogFile (Config Timestamp NonDecreasing)

/-! ## 1. The backend thread and its log file -/

/-- A call of `log_file`. -/
inductive FileOp
  | append (msg : List Byte)
  | flush
  deriving DecidableEq

/-- The bytes a step of the backend gives to the log file. -/
def FileOp.bytes : Option FileOp → List Byte
  | some (.append msg) => msg
  | some .flush | none => []

/-- The call of `log_file` that a step of `thread_func` makes. -/
def fileOp (s : Stopping) : Stopping.Label → Option FileOp
  | .checkOverrun buf => if s.logger.bufferToWrite.length > 25 then some (.append buf) else none
  | .write =>
    match s.logger.pc with
    | .writing i => (s.logger.bufferToWrite[i]?).map fun p => .append (ptrBytes p)
    | _ => none
  | .recycle => some .flush
  -- the `flush` after the loop; the destructor then closes a file that has nothing left to write
  | .test => if s.logger.running then none else some .flush
  | .append _ | .start | .callStop | .store | .lock | .wake | .join => none

structure State where
  front : Stopping
  /-- `log_file`, which is a local of `thread_func`. -/
  logFile : Option LogFile.State

def State.init : State := ⟨.init, none⟩

section

variable (cfg : Config) (clock : Nat → Timestamp)

/-- `spill` is how much stdio writes out of itself. -/
def perform (spill : Nat) (f : LogFile.State) : FileOp → Option LogFile.State
  | .append msg => LogFile.appendUnlocked cfg clock f msg spill
  | .flush => LogFile.flush f

/-- A step of the logger, with what it does to the files. -/
def step (s : State) (l : Stopping.Label × Nat) : Option State := do
  let front ← s.front.step l.1
  if l.1 = .start then some ⟨front, some (LogFile.start clock)⟩
  else
    match fileOp s.front l.1 with
    | none => some { s with front := front }
    | some op => do
      let f ← s.logFile
      let f ← perform cfg clock l.2 f op
      some ⟨front, some f⟩

end

namespace State

/-- What is in the files, in the order of their creation. -/
def files (s : State) : List Byte := (s.logFile.map fun f => f.disk.flatMap LogFile.File.bytes).getD []

/-- What stdio keeps. -/
def inStdio (s : State) : List Byte := ((s.logFile.bind LogFile.State.file).map LogFile.FileAppender.pending).getD []

/-- The backend is in a write-out. -/
def WritesOut (s : State) : Prop := ∃ i, s.front.logger.pc = .writing i

end State

/-! ## 2. What a step of the backend gives to the file -/

variable {s s' : State} {t t' : Stopping} {l : Stopping.Label}

/-- **The file gets what the logger says it gets**: the bytes of each call are those by which the
logger's own account of the file grows.  And the backend leaves a write-out by a flush only. -/
theorem fileOp_spec (hk : Stopping.Kept t) (hst : t.step l = some t') :
    t'.logger.file = t.logger.file ++ FileOp.bytes (fileOp t l) ∧
      ((∀ i, t'.logger.pc ≠ .writing i) →
        fileOp t l = some .flush ∨ fileOp t l = none ∧ ∀ i, t.logger.pc ≠ .writing i) := by
  have hx := hk.exchange
  cases l with
  | append log =>
    obtain ⟨logger, hl, rfl⟩ := Option.map_eq_some_iff.mp hst
    obtain ⟨cur, -, ⟨-, rfl⟩ | rfl⟩ := AsyncLogger.append_cases hl
    · exact ⟨(List.append_nil _).symm, fun hidle => .inr ⟨rfl, hidle⟩⟩
    · exact ⟨(List.append_nil _).symm, fun hidle => .inr ⟨rfl, hidle⟩⟩
  | start =>
    obtain ⟨logger, hl, rfl⟩ := Option.map_eq_some_iff.mp hst
    cases AsyncLogger.step_inv hx hl with
    | start hpc => exact ⟨(List.append_nil _).symm, fun _ => .inr ⟨rfl, by simp [hpc]⟩⟩
  | callStop =>
    simp only [Stopping.step, Option.ite_none_right_eq_some, Option.some.injEq] at hst
    obtain ⟨-, rfl⟩ := hst
    exact ⟨(List.append_nil _).symm, fun hidle => .inr ⟨rfl, hidle⟩⟩
  | store =>
    simp only [Stopping.step, Option.ite_none_right_eq_some] at hst
    obtain ⟨-, hst⟩ := hst
    cases hst
    exact ⟨(List.append_nil _).symm, fun hidle => .inr ⟨rfl, hidle⟩⟩
  | test =>
    simp only [Stopping.step, Option.ite_none_right_eq_some] at hst
    obtain ⟨hhead, hst⟩ := hst
    have hbefore : ∀ i, t.logger.pc ≠ .writing i := by simp [hhead.1]
    split at hst
    · rename_i hrunning
      cases hst
      rw [fileOp, if_pos hrunning]
      exact ⟨(List.append_nil _).symm, fun _ => .inr ⟨rfl, hbefore⟩⟩
    · rename_i hcleared
      cases hst
      rw [fileOp, if_neg hcleared]
      exact ⟨(List.append_nil _).symm, fun _ => .inl rfl⟩
  | lock =>
    simp only [Stopping.step, Option.ite_none_right_eq_some, Option.some.injEq] at hst
    obtain ⟨htested, rfl⟩ := hst
    refine ⟨?_, fun _ => .inr ⟨rfl, fun i hpc => ?_⟩⟩
    · simp only [Stopping.lockedSection, fileOp, FileOp.bytes, List.append_nil]
      split
      · rfl
      · rfl
    · rw [hk.atHead htested] at hpc
      cases hpc
  | wake =>
    obtain ⟨logger, hl, rfl⟩ := Option.map_eq_some_iff.mp hst
    cases AsyncLogger.step_inv hx hl with
    | wakes hpc => exact ⟨(List.append_nil _).symm, fun _ => .inr ⟨rfl, by simp [hpc]⟩⟩
  | checkOverrun buf =>
    simp only [Stopping.step, Stopping.onLogger, AsyncLogger.State.step] at hst
    split at hst
    · split at hst
      · rename_i hmany
        cases hst
        rw [fileOp, if_pos hmany]
        exact ⟨rfl, fun hidle => absurd rfl (hidle 0)⟩
      · rename_i hfew
        cases hst
        rw [fileOp, if_neg hfew]
        exact ⟨(List.append_nil _).symm, fun hidle => absurd rfl (hidle 0)⟩
    · cases hst
  | write =>
    obtain ⟨logger, hl, rfl⟩ := Option.map_eq_some_iff.mp hst
    cases AsyncLogger.step_inv hx hl with
    | write i b hpc hget =>
      simp only [fileOp, hpc, hget]
      exact ⟨rfl, fun hidle => absurd rfl (hidle (i + 1))⟩
  | recycle =>
    obtain ⟨logger, hl, rfl⟩ := Option.map_eq_some_iff.mp hst
    cases AsyncLogger.step_inv hx hl with
    | recycle hpc => exact ⟨(List.append_nil _).symm, fun _ => .inl rfl⟩
  | join =>
    simp only [Stopping.step, Option.ite_none_right_eq_some, Option.some.injEq] at hst
    obtain ⟨-, rfl⟩ := hst
    exact ⟨(List.append_nil _).symm, fun hidle => .inr ⟨rfl, hidle⟩⟩

/-- Before `thread_func` runs there is only `append`. -/
theorem before_start (hk : Stopping.Kept t) (hpc : t.logger.pc = .notStarted) (hl : l ≠ .start)
    (hst : t.step l = some t') :
    t'.logger.pc = .notStarted ∧ t'.logger.file = t.logger.file ∧ fileOp t l = none := by
  have hcalls : t.call ≠ .called := fun hc => hk.started (by rw [hc]; decide) hpc
  have hstored : t.call ≠ .stored := fun hc => hk.started (by rw [hc]; decide) hpc
  have htested : t.tested ≠ true := by
    intro ht
    rw [hk.atHead ht] at hpc
    cases hpc
  cases l with
  | append log =>
    obtain ⟨logger, ha, rfl⟩ := Option.map_eq_some_iff.mp hst
    obtain ⟨cur, -, ⟨-, rfl⟩ | rfl⟩ := AsyncLogger.append_cases ha
    · exact ⟨hpc, rfl, rfl⟩
    · exact ⟨hpc, rfl, rfl⟩
  | start => exact absurd rfl hl
  | callStop | store | test | lock | wake | checkOverrun _ | write | recycle | join =>
    simp [Stopping.step, Stopping.onLogger, AsyncLogger.State.step, hpc, hcalls, hstored, htested] at hst

/-- A thread that runs is not started again, so its log file is constructed once. -/
theorem after_start (hk : Stopping.Kept t) (hpc : t.logger.pc ≠ .notStarted) (hst : t.step l = some t') :
    t'.logger.pc ≠ .notStarted ∧ l ≠ .start := by
  refine ⟨?_, ?_⟩
  · cases Stopping.step_cases hst with
    | onLogger h _ hstop hround =>
      obtain ⟨logger, hl, rfl⟩ := Option.map_eq_some_iff.mp h
      exact (AsyncLogger.step_effect hl hk.exchange hstop hround).started hpc
    | callStop _ _ | store _ | goesOn _ _ _ | join _ _ => exact hpc
    | exits _ _ => exact fun hexit => by cases hexit
    | lock _ =>
      simp only [Stopping.lockedSection]
      split
      · exact fun hwait => by cases hwait
      · exact fun hswapped => by cases hswapped
  · rintro rfl
    simp [Stopping.step, Stopping.onLogger, AsyncLogger.State.step, hpc] at hst

/-! ## 3. What every step keeps -/

variable {cfg : Config} {clock : Nat → Timestamp} {f : LogFile.State} {a : LogFile.FileAppender}
  {init : LogFile.Disk} {g : LogFile.File}

/-- **One call of the log file.**  It succeeds, whatever stdio does of itself, its bytes join the
messages of the files at the end, and after a flush stdio is empty. -/
theorem perform_spec (cfg : Config) (hclock : NonDecreasing clock) (h : LogFile.Inv clock f a init g) (spill : Nat)
    (op : FileOp) :
    ∃ f' a' init' g', perform cfg clock spill f op = some f' ∧ LogFile.Inv clock f' a' init' g' ∧
      (f'.disk.flatMap LogFile.File.messages).flatten =
        (f.disk.flatMap LogFile.File.messages).flatten ++ FileOp.bytes (some op) ∧
      (op = .flush → a'.pending = []) := by
  cases op with
  | append msg =>
    obtain ⟨f', a', init', g', happ, hinv, hout⟩ := LogFile.append_step cfg hclock h msg spill
    refine ⟨f', a', init', g', happ, hinv, ?_, fun hop => by cases hop⟩
    rw [hinv.disk, hout.messages, h.disk, List.flatten_append, List.flatten_singleton]
    rfl
  | flush =>
    obtain ⟨f', hflush, hinv⟩ := h.flush
    refine ⟨f', _, init, _, hflush, hinv, ?_, fun _ => rfl⟩
    rw [hinv.disk, h.disk, List.flatMap_append, List.flatMap_append]
    exact (List.append_nil _).symm

/-- The files hold the messages, but for what stdio keeps: that is the end of the last one. -/
theorem files_eq (h : LogFile.Inv clock f a init g) :
    f.disk.flatMap LogFile.File.bytes ++ a.pending = (f.disk.flatMap LogFile.File.messages).flatten := by
  have hclosed : init.flatMap LogFile.File.bytes = (init.flatMap LogFile.File.messages).flatten := by
    rw [List.flatMap_def, List.map_congr_left h.closed, List.flatMap_def, List.flatten_flatten, List.map_map]
    rfl
  rw [h.disk, List.flatMap_append, List.flatMap_append, List.flatten_append, ← hclosed, List.flatMap_singleton,
    List.flatMap_singleton, List.append_assoc, h.current]

/-- The log file is open, has got what the logger has given, and stdio is empty but for a
write-out. -/
def Opened (clock : Nat → Timestamp) (s : State) : Prop :=
  ∃ f a init g, s.logFile = some f ∧ LogFile.Inv clock f a init g ∧
    (f.disk.flatMap LogFile.File.messages).flatten = s.front.logger.file ∧ (¬ s.WritesOut → a.pending = [])

/-- What every step keeps of the two together: the logger's own invariant, and that the log file
is there exactly while `thread_func` runs. -/
structure Piped (clock : Nat → Timestamp) (s : State) : Prop where
  kept : Stopping.Kept s.front
  closed : s.front.logger.pc = .notStarted → s.logFile = none ∧ s.front.logger.file = []
  opened : s.front.logger.pc ≠ .notStarted → Opened clock s

theorem piped_init (clock : Nat → Timestamp) : Piped clock .init :=
  ⟨Stopping.kept_init, fun _ => ⟨rfl, rfl⟩, fun hpc => absurd rfl hpc⟩

/-- The log file of a thread that runs is there for every call. -/
theorem Piped.step_some (cfg : Config) (h : Piped clock s) (hclock : NonDecreasing clock)
    (hpc : s.front.logger.pc ≠ .notStarted)
    {l : Stopping.Label × Nat} (hst : s.front.step l.1 = some t') :
    ∃ s', step cfg clock s l = some s' ∧ s'.front = t' ∧ Opened clock s' := by
  obtain ⟨f, a, init, g, hf, hinv, hfile, hidle⟩ := h.opened hpc
  obtain ⟨hbytes, hleave⟩ := fileOp_spec h.kept hst
  obtain ⟨-, hl⟩ := after_start h.kept hpc hst
  rw [step, hst, Option.bind_eq_bind, Option.bind_some, if_neg hl]
  cases hop : fileOp s.front l.1 with
  | none =>
    rw [hop] at hbytes hleave
    refine ⟨_, rfl, rfl, f, a, init, g, hf, hinv, ?_, fun hout => ?_⟩
    · exact hfile.trans ((List.append_nil _).symm.trans hbytes.symm)
    · rcases hleave fun i hi => hout ⟨i, hi⟩ with hflush | ⟨-, hbefore⟩
      · cases hflush
      · exact hidle fun ⟨i, hi⟩ => hbefore i hi
  | some op =>
    rw [hop] at hbytes hleave
    obtain ⟨f', a', init', g', hperform, hinv', hmsgs, hflushed⟩ := perform_spec cfg hclock hinv l.2 op
    refine ⟨⟨t', some f'⟩, ?_, rfl, f', a', init', g', rfl, hinv', ?_, fun hout => ?_⟩
    · dsimp only
      rw [hf, Option.bind_eq_bind, Option.bind_some, hperform]
      rfl
    · rw [hmsgs, hfile, ← hbytes]
    · rcases hleave fun i hi => hout ⟨i, hi⟩ with hflush | ⟨hnone, -⟩
      · exact hflushed (Option.some.inj hflush)
      · cases hnone

/-- **A step of the logger is a step of the two**, and keeps the invariant: no call of the log
file fails, so the pair is never stuck where the logger alone would go on. -/
theorem Piped.step (cfg : Config) (h : Piped clock s) (hclock : NonDecreasing clock) (hpos : 0 < clock 0)
    {l : Stopping.Label × Nat} (hg : Stopping.WithinLimits s.front l.1) (hst : s.front.step l.1 = some t') :
    ∃ s', LogPipeline.step cfg clock s l = some s' ∧ s'.front = t' ∧ Piped clock s' := by
  have hkept : Stopping.Kept t' := Stopping.step_kept h.kept hg hst
  by_cases hpc : s.front.logger.pc = .notStarted
  · obtain ⟨hnone, hempty⟩ := h.closed hpc
    by_cases hl : l.1 = .start
    · have hstart : t'.logger.file = [] ∧ t'.logger.pc ≠ .notStarted ∧ ∀ i, t'.logger.pc ≠ .writing i := by
        rw [hl] at hst
        obtain ⟨logger, hlogger, rfl⟩ := Option.map_eq_some_iff.mp hst
        cases AsyncLogger.step_inv h.kept.exchange hlogger with
        | start _ => exact ⟨hempty, by simp, by simp⟩
      have hinv := LogFile.start_inv hclock hpos
      refine ⟨⟨t', some (LogFile.start clock)⟩, ?_, rfl, hkept, fun hn => absurd hn hstart.2.1, fun _ => ?_⟩
      · rw [LogPipeline.step, hst, Option.bind_eq_bind, Option.bind_some, if_pos hl]
      · refine ⟨_, _, _, _, rfl, hinv, ?_, fun _ => rfl⟩
        rw [hinv.disk, hstart.1]
        rfl
    · obtain ⟨hstill, hsame, hop⟩ := before_start h.kept hpc hl hst
      refine ⟨⟨t', s.logFile⟩, ?_, rfl, hkept, fun _ => ⟨hnone, hsame.trans hempty⟩, fun hn => absurd hstill hn⟩
      rw [LogPipeline.step, hst, Option.bind_eq_bind, Option.bind_some, if_neg hl, hop]
  · obtain ⟨s', hs', rfl, hopened⟩ := h.step_some cfg hclock hpc hst
    exact ⟨s', hs', rfl, hkept, fun hn => absurd hn (after_start h.kept hpc hst).1, fun _ => hopened⟩

theorem step_piped (hclock : NonDecreasing clock) (hpos : 0 < clock 0) {l : Stopping.Label × Nat}
    (h : Piped clock s) (hg : Stopping.WithinLimits s.front l.1) (hst : step cfg clock s l = some s') :
    s.front.step l.1 = some s'.front ∧ Piped clock s' := by
  obtain ⟨t', ht'⟩ : ∃ t', s.front.step l.1 = some t' := by
    cases ht : s.front.step l.1 with
    | none =>
      rw [step, ht] at hst
      cases hst
    | some t' => exact ⟨t', rfl⟩
  obtain ⟨s₁, hs₁, rfl, hp⟩ := h.step cfg hclock hpos hg ht'
  rw [hst] at hs₁
  cases hs₁
  exact ⟨ht', hp⟩

/-! ## 4. Runs -/

/-- What the files and stdio have is what the logger has given to them, and outside a write-out
it is all in the files. -/
theorem Piped.files_inStdio (h : Piped clock s) : s.files ++ s.inStdio = s.front.logger.file ∧
    (¬ s.WritesOut → s.inStdio = []) := by
  by_cases hpc : s.front.logger.pc = .notStarted
  · obtain ⟨hnone, hempty⟩ := h.closed hpc
    rw [State.files, State.inStdio, hnone, hempty]
    exact ⟨rfl, fun _ => rfl⟩
  · obtain ⟨f, a, init, g, hf, hinv, hfile, hidle⟩ := h.opened hpc
    rw [State.files, State.inStdio, hf, Option.bind_some, hinv.file]
    exact ⟨(files_eq hinv).trans hfile, hidle⟩

/-- **The files hold the beginning of the log.**  In every interleaving of `append`s from any number
of threads with the backend thread and its log file, within the limits of the logger, however much
stdio writes out of itself and wherever the file rolls over: the bytes in the files, then those in
stdio, in the buffers taken, in those filled and in the current one are all that was appended, in
append order; stdio is empty unless a write-out is going on; and the log file has an open file for
every call that the backend makes of it.

Taken for granted are a clock that does not go back and starts behind 0, names that tell the
files apart by their second, and `fopen` and `fwrite` that succeed (see `LogFile.lean`).  The
proof joins the account of the logger, which ends at `LogFile::append`, to that of the log file,
which begins there: `Piped` is the two invariants and the equation between them. -/
theorem files_begin (cfg : Config) (clock : Nat → Timestamp) (hclock : NonDecreasing clock) (hpos : 0 < clock 0)
    (s : State) (h : Reach (step cfg clock) (fun s l => Stopping.WithinLimits s.front l.1) .init s) :
    s.files ++ s.inStdio ++ pollBytes s.front.logger.unwritten ++ pollBytes s.front.logger.bufferPoll ++
        ptrBytes s.front.logger.currentBuffer = s.front.logger.appended ∧
      s.files <+: s.front.logger.appended ∧ (¬ s.WritesOut → s.inStdio = []) ∧
      ∀ l t, Stopping.WithinLimits s.front l.1 → s.front.step l.1 = some t →
        ∃ s', step cfg clock s l = some s' ∧ s'.front = t := by
  have hp : Piped clock s := h.invariant (piped_init clock) fun _ _ _ hp hg hst => (step_piped hclock hpos hp hg hst).2
  obtain ⟨hfiles, hidle⟩ := hp.files_inStdio
  have hall := hp.kept.conserved
  rw [AsyncLogger.Conserved, ← hfiles] at hall
  refine ⟨hall, ?_, hidle, fun l t hg hst => ?_⟩
  · rw [List.append_assoc, List.append_assoc, List.append_assoc] at hall
    exact ⟨_, hall⟩
  · obtain ⟨s', hs', hfront, -⟩ := hp.step cfg hclock hpos hg hst
    exact ⟨s', hs', hfront⟩

/-- A clock that is read once a second. -/
def seconds (n : Nat) : Timestamp := (n + 1) * 1000000000

theorem seconds_nonDecreasing : NonDecreasing seconds := by
  intro m n hmn
  have hle : ((m : Int) + 1) * 1000000000 ≤ ((n : Int) + 1) * 1000000000 := by omega
  exact hle

/-- Four bytes fill a file for three; the two that come after are in the next one. -/
def rollsOver : List (Stopping.Label × Nat) :=
  [(.append [1, 2, 3, 4], 0), (.start, 0), (.test, 0), (.lock, 0), (.wake, 0), (.checkOverrun [], 0), (.write, 1),
    (.append [5, 6], 0), (.recycle, 0), (.test, 0), (.lock, 0), (.callStop, 0), (.append [7], 0), (.store, 0),
    (.wake, 0), (.checkOverrun [], 0), (.write, 2)]

theorem files_begin_rollsOver :
    ∃ s, Reach (step ⟨3, 3, 1024⟩ seconds) (fun s l => Stopping.WithinLimits s.front l.1) .init s ∧
      s.files = [1, 2, 3, 4, 5, 6] ∧ s.inStdio = [7] ∧ s.files <+: s.front.logger.appended := by
  have hrun : ∃ s, Reach (step ⟨3, 3, 1024⟩ seconds) (fun s l => Stopping.WithinLimits s.front l.1) .init s ∧
      (s.files = [1, 2, 3, 4, 5, 6] ∧ s.inStdio = [7]) :=
    Reach.exists_of_exec rollsOver _ (by decide +kernel) (by decide +kernel)
  obtain ⟨s, h, hfiles, hstdio⟩ := hrun
  exact ⟨s, h, hfiles, hstdio, (files_begin _ _ seconds_nonDecreasing (by decide) s h).2.1⟩

/-- Once `_running` is cleared, it was so at a safe moment. -/
def State.StoppedSafely (s : State) : Prop := s.front.call = .stored ∨ s.front.call = .returned → Stopping.Safe s.front

theorem step_stoppedSafely (hclock : NonDecreasing clock) (hpos : 0 < clock 0) {l : Stopping.Label × Nat}
    (h : Piped clock s) (hsafe : s.StoppedSafely) (hg : Stopping.StopsSafely s.front l.1)
    (hst : step cfg clock s l = some s') : s'.StoppedSafely := by
  obtain ⟨hfront, -⟩ := step_piped hclock hpos h hg.withinLimits hst
  intro hc'
  by_cases hc : s.front.call = .stored ∨ s.front.call = .returned
  · exact (Stopping.step_safe_iff h.kept hg.withinLimits hc hfront).2.mpr (hsafe hc)
  · obtain ⟨hl, -, hiff⟩ := Stopping.step_store hc hc' hfront
    rw [hl] at hg
    exact hiff.mpr hg

/-- When `stop` has returned, what was promised is in the files. -/
theorem Piped.promised_files (h : Piped clock s) (hsafe : s.StoppedSafely) (hr : s.front.call = .returned) :
    s.front.promised <+: s.files := by
  have hflushed := (h.kept.flushed_iff hr).mpr (hsafe (.inr hr))
  obtain ⟨hfiles, hidle⟩ := h.files_inStdio
  have hnone : s.inStdio = [] := by
    refine hidle fun ⟨i, hi⟩ => ?_
    rw [h.kept.exited hr] at hi
    cases hi
  rw [hnone, List.append_nil] at hfiles
  rw [hfiles]
  exact hflushed

/-- **A stop at a safe moment leaves everything in the files**: what had been appended when
`stop` was called is there when it returns.  By `stop_flushes` it was given to the log file, and
the last thing `thread_func` does is a flush. -/
theorem stop_files (cfg : Config) (clock : Nat → Timestamp) (hclock : NonDecreasing clock) (hpos : 0 < clock 0)
    (s : State) (h : Reach (step cfg clock) (fun s l => Stopping.StopsSafely s.front l.1) .init s)
    (hr : s.front.call = .returned) : s.front.promised <+: s.files := by
  have hI : Piped clock s ∧ s.StoppedSafely := by
    refine h.invariant (I := fun s => Piped clock s ∧ s.StoppedSafely) ?_ ?_
    · constructor
      · exact piped_init clock
      · rintro (hc | hc) <;> cases hc
    · rintro s l s' ⟨hp, hsafe⟩ hg hst
      constructor
      · exact (step_piped hclock hpos hp hg.withinLimits hst).2
      · exact step_stoppedSafely hclock hpos hp hsafe hg hst
  exact hI.1.promised_files hI.2 hr

theorem stop_files_rollsOver :
    ∃ s, Reach (step ⟨3, 3, 1024⟩ seconds) (fun s l => Stopping.StopsSafely s.front l.1) .init s ∧
      s.front.promised = [1, 2, 3, 4, 5, 6] ∧ s.front.promised <+: s.files := by
  have hrun : ∃ s, Reach (step ⟨3, 3, 1024⟩ seconds) (fun s l => Stopping.StopsSafely s.front l.1) .init s ∧
      (s.front.promised = [1, 2, 3, 4, 5, 6] ∧ s.front.call = .returned) :=
    Reach.exists_of_exec (rollsOver ++ [(.recycle, 0), (.test, 0), (.join, 0)]) _ (by decide +kernel)
      (by decide +kernel)
  obtain ⟨s, h, hpromised, hr⟩ := hrun
  exact ⟨s, h, hpromised, stop_files _ _ seconds_nonDecreasing (by decide) s h hr⟩

end Suduo.LogPipeline
