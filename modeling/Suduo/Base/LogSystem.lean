/-
# From a log statement to the disk

`Logger` hands each record to an output function (`Logger.lean`), the program sets
`AsyncLogger::append` for it, and the logger's thread writes to files (`LogPipeline.lean`).  Here
they run together: a destructor appends its record, and the steps of the backend come in between as
they like.  Of what each part needs of the others one thing is left, that no round of the backend
finds more than its 25 buffers; a record is never too long for a buffer.

`log_on_disk` says what can be read from the files at any time, by whoever cuts them into lines: the
first records, each once and in the order of their destructors, and a beginning of the next.  After
a `stop` at a safe moment these are at least all that were output before it was called.
-/
import Suduo.Base.Logger
import Suduo.Base.LogPipeline

namespace Suduo.LogSystem

open Lib
open AsyncLogger (Stopping pollBytes ptrBytes)
open Logger (Record newline splitOn_lines)
open LogFile (Config Timestamp NonDecreasing)

/-! ## 1. The parts together -/

structure State where
  logger : Logger.State
  pipe : LogPipeline.State
  /-- How many records had been output when `stop` was called. -/
  before : Nat

def State.init (level : LogLevel) : State := ⟨.init level, .init, 0⟩

inductive Label
  /-- A step of a thread that logs. -/
  | log (l : Logger.Label)
  /-- A step of the asynchronous logger; `spill` is for stdio. -/
  | backend (l : Stopping.Label) (spill : Nat)

/-- What a step of the asynchronous logger appends. -/
def message : Stopping.Label → Option (List Byte)
  | .append log => some log
  | .start | .callStop | .store | .test | .lock | .wake | .checkOverrun _ | .write | .recycle | .join => none

section

variable (gmtime : Int → List Byte) (cfg : Config) (clock : Nat → Timestamp)

/-- The output function. -/
def append (pipe : LogPipeline.State) (r : Record) : Option LogPipeline.State :=
  LogPipeline.step cfg clock pipe (.append r.bytes, 0)

def step (s : State) : Label → Option State
  | .log l => do
    let logger ← Logger.step gmtime s.logger l
    -- the record that a destructor has put out, if this was one
    let pipe ← (logger.output.drop s.logger.output.length).foldlM (append cfg clock) s.pipe
    return { s with logger, pipe }
  | .backend l spill =>
    if s.logger.aborted then none
    else
      match message l with
      | some _ => none
      | none => do
        let pipe ← LogPipeline.step cfg clock s.pipe (l, spill)
        return { s with pipe, before := if l = .callStop then s.logger.output.length else s.before }

end

/-- Statements are lines with room, rounds of the backend are within the limits, and `_running`
is cleared when that is safe. -/
def Bounded (s : State) : Label → Prop
  | .log l => Logger.OneLine s.logger l
  | .backend l _ => Stopping.StopsSafely s.pipe.front l

instance (s : State) : ∀ l, Decidable (Bounded s l)
  | .log l => inferInstanceAs (Decidable (Logger.OneLine s.logger l))
  | .backend l _ => inferInstanceAs (Decidable (Stopping.StopsSafely s.pipe.front l))

/-! ## 2. What is appended -/

/-- Only `append` appends, and `stop` promises what has been appended when it is called. -/
theorem step_appended {s s' : Stopping} {l : Stopping.Label} (hk : Stopping.Kept s) (hst : s.step l = some s') :
    s'.logger.appended = s.logger.appended ++ (message l).getD [] ∧
      s'.promised = (if l = .callStop then s.logger.appended else s.promised) := by
  have hx := hk.exchange
  cases l with
  | append log =>
    obtain ⟨logger, hl, rfl⟩ := Option.map_eq_some_iff.mp hst
    cases AsyncLogger.step_inv hx hl with
    | append log s' ha =>
      obtain ⟨cur, -, ⟨-, rfl⟩ | rfl⟩ := AsyncLogger.append_cases ha
      · exact ⟨rfl, rfl⟩
      · exact ⟨rfl, rfl⟩
  | start | wake | checkOverrun | write | recycle =>
    obtain ⟨logger, hl, rfl⟩ := Option.map_eq_some_iff.mp hst
    cases AsyncLogger.step_inv hx hl
    all_goals exact ⟨(List.append_nil _).symm, rfl⟩
  | callStop | join =>
    simp only [Stopping.step] at hst
    split at hst
    · cases hst
      exact ⟨(List.append_nil _).symm, rfl⟩
    · cases hst
  | store =>
    simp only [Stopping.step] at hst
    split at hst
    · cases hst
      exact ⟨(List.append_nil _).symm, rfl⟩
    · cases hst
  | test =>
    simp only [Stopping.step] at hst
    split at hst
    · split at hst
      all_goals cases hst
      all_goals exact ⟨(List.append_nil _).symm, rfl⟩
    · cases hst
  | lock =>
    simp only [Stopping.step] at hst
    split at hst
    · cases hst
      refine ⟨Eq.trans ?_ (List.append_nil _).symm, rfl⟩
      change (Stopping.lockedSection s.logger).appended = _
      unfold Stopping.lockedSection
      split
      · rfl
      · rfl
    · cases hst

/-! ## 3. Steps -/

variable {gmtime : Int → List Byte} {cfg : Config} {clock : Nat → Timestamp} {s s' : State}

/-- A step of a thread puts out one record at most, and none that is too long for a buffer of the
logger. -/
theorem output_cases {g g' : Logger.State} {l : Logger.Label} (h : Logger.step gmtime g l = some g') :
    g'.output = g.output ∨ ∃ r, g'.output = g.output ++ [r] ∧ r.bytes.length ≤ LogStream.minBufferSize := by
  have hlen : ∀ {o : Logger.Object} {left : Nat → Byte} {r : Record}, Logger.destruct o left = some r →
      r.bytes.length ≤ LogStream.minBufferSize := by
    intro o left r hr
    obtain ⟨-, -, hbytes⟩ := Logger.destruct_inv hr
    obtain ⟨b, -, hb⟩ := Option.map_eq_some_iff.mp hbytes
    rw [← hb, LogStream.StreamArray.contents_length]
    exact b.current_le
  cases (Logger.step_inv h).2.2 with
  | setLogLevel | statement | filtered | insert | flush | abort => exact .inl rfl
  | finish ho hr => exact .inr ⟨_, rfl, hlen hr⟩

/-- What a step can be. -/
inductive Step (gmtime : Int → List Byte) (cfg : Config) (clock : Nat → Timestamp) (s : State) : Label → State → Prop
  | quiet {l : Logger.Label} {g : Logger.State} (hg : Logger.step gmtime s.logger l = some g)
      (hout : g.output = s.logger.output) : Step gmtime cfg clock s (.log l) { s with logger := g }
  | puts {l : Logger.Label} {g : Logger.State} {r : Record} {pipe : LogPipeline.State}
      (hg : Logger.step gmtime s.logger l = some g) (hout : g.output = s.logger.output ++ [r])
      (hlen : r.bytes.length ≤ LogStream.minBufferSize)
      (hp : LogPipeline.step cfg clock s.pipe (.append r.bytes, 0) = some pipe) :
      Step gmtime cfg clock s (.log l) { s with logger := g, pipe }
  | backend {l : Stopping.Label} {spill : Nat} {pipe : LogPipeline.State} (hl : message l = none)
      (hp : LogPipeline.step cfg clock s.pipe (l, spill) = some pipe) :
      Step gmtime cfg clock s (.backend l spill)
        { s with pipe, before := if l = .callStop then s.logger.output.length else s.before }

theorem step_inv {l : Label} (h : step gmtime cfg clock s l = some s') : Step gmtime cfg clock s l s' := by
  cases l with
  | log l =>
    simp only [step, Option.bind_eq_bind] at h
    obtain ⟨g, hg, h⟩ := Option.bind_eq_some_iff.mp h
    obtain ⟨pipe, hp, h⟩ := Option.bind_eq_some_iff.mp h
    cases h
    rcases output_cases hg with hsame | ⟨r, hout, hlen⟩
    · rw [hsame, List.drop_length] at hp
      cases hp
      exact .quiet hg hsame
    · rw [hout, List.drop_left, List.foldlM_cons] at hp
      obtain ⟨pipe', hp', hnil⟩ := Option.bind_eq_some_iff.mp hp
      cases hnil
      exact .puts hg hout hlen hp'
  | backend l spill =>
    simp only [step] at h
    split at h
    · cases h
    · split at h
      · cases h
      · rename_i hl
        obtain ⟨pipe, hp, h⟩ := Option.bind_eq_some_iff.mp h
        cases h
        exact .backend hl hp

/-- **The invariant**: every part keeps its own, and what has been appended is the records, one
behind the other.  The last two fields are the joints: they say the same thing in the words of
two parts. -/
structure Joined (clock : Nat → Timestamp) (s : State) : Prop where
  lined : Logger.Lined s.logger
  piped : LogPipeline.Piped clock s.pipe
  appended : s.pipe.front.logger.appended = s.logger.output.flatMap Record.bytes
  promised : s.pipe.front.promised = (s.logger.output.take s.before).flatMap Record.bytes
  before : s.before ≤ s.logger.output.length
  safe : s.pipe.front.call = .stored ∨ s.pipe.front.call = .returned → Stopping.Safe s.pipe.front

theorem joined_init (level : LogLevel) : Joined clock (.init level) where
  lined := Logger.lined_init level
  piped := LogPipeline.piped_init clock
  appended := rfl
  promised := rfl
  before := Nat.le_refl 0
  safe := by rintro (hc | hc) <;> cases hc

/-- **Every step keeps the invariant.**  A step of a thread appends the record it puts out, and a
step of the backend appends nothing. -/
theorem step_joined (hgm : ∀ sec, newline ∉ gmtime sec) (hclock : NonDecreasing clock) (hpos : 0 < clock 0) {l : Label}
    (h : Joined clock s) (hg : Bounded s l) (hst : step gmtime cfg clock s l = some s') : Joined clock s' := by
  cases step_inv hst with
  | @quiet l g hl hout =>
    constructor
    · exact Logger.step_lined hgm h.lined hg hl
    · exact h.piped
    · rw [hout]
      exact h.appended
    · rw [hout]
      exact h.promised
    · rw [hout]
      exact h.before
    · exact h.safe
  | @puts l g r pipe hl hout hlen hp =>
    -- a record fits a buffer, whatever it is
    have hwithin : Stopping.StopsSafely s.pipe.front (.append r.bytes) := by
      have hmax : LogStream.minBufferSize < AsyncLogger.maxBufferSize := by decide
      exact Nat.lt_of_le_of_lt hlen hmax
    obtain ⟨hfront, hpiped⟩ := LogPipeline.step_piped hclock hpos h.piped hwithin.withinLimits hp
    obtain ⟨happended, hpromised⟩ := step_appended h.piped.kept hfront
    constructor
    · exact Logger.step_lined hgm h.lined hg hl
    · exact hpiped
    · rw [happended, h.appended, hout, List.flatMap_append]
      exact congrArg _ (List.flatMap_singleton _ _).symm
    · rw [hpromised, hout, List.take_append_of_le_length h.before]
      exact h.promised
    · rw [hout, List.length_append]
      exact Nat.le_add_right_of_le h.before
    · exact LogPipeline.step_stoppedSafely hclock hpos h.piped h.safe hwithin hp
  | @backend l spill pipe hl hp =>
    have hg : Stopping.StopsSafely s.pipe.front l := hg
    obtain ⟨hfront, hpiped⟩ := LogPipeline.step_piped hclock hpos h.piped hg.withinLimits hp
    obtain ⟨happended, hpromised⟩ := step_appended h.piped.kept hfront
    constructor
    · exact h.lined
    · exact hpiped
    · rw [happended, hl, Option.getD_none, List.append_nil]
      exact h.appended
    · rw [hpromised]
      dsimp only
      split
      · rw [List.take_length]
        exact h.appended
      · exact h.promised
    · dsimp only
      split
      · exact Nat.le_refl _
      · exact h.before
    · exact LogPipeline.step_stoppedSafely hclock hpos h.piped h.safe hg hp

/-! ## 4. What is on the disk -/

/-- A beginning of lines is cut into the first of them and a beginning of the next; and it holds
at least as many as any number of whole lines that are known to be in it. -/
theorem splitOn_prefix (lines : List (List Byte)) (h : ∀ l ∈ lines, newline ∉ l) (text : List Byte)
    (hp : text <+: Logger.linesText lines) :
    ∃ k rest, text.splitOn newline = lines.take k ++ [rest] ∧
      (rest = [] ∨ ∃ l, lines[k]? = some l ∧ rest <+: l) ∧
      ∀ m, Logger.linesText (lines.take m) <+: text → m ≤ lines.length → m ≤ k := by
  induction lines generalizing text with
  | nil =>
    rw [List.prefix_nil.mp hp]
    exact ⟨0, [], rfl, .inl rfl, fun m _ hm => hm⟩
  | cons l lines ih =>
    have hl : newline ∉ l := h l List.mem_cons_self
    rw [Logger.linesText_cons] at hp
    by_cases hshort : text.length ≤ l.length
    · -- the end of the first line is not there
      have htext : text <+: l := by
        have hfirst : l <+: l ++ newline :: Logger.linesText lines := List.prefix_append _ _
        exact List.prefix_of_prefix_length_le hp hfirst hshort
      have hnone : newline ∉ text := fun hmem => hl (htext.mem hmem)
      refine ⟨0, text, List.splitOn_eq_singleton hnone, .inr ⟨l, rfl, htext⟩, ?_⟩
      intro m hm hlen
      cases m with
      | zero => exact Nat.le_refl 0
      | succ m =>
        have hle := hm.length_le
        rw [List.take_succ_cons, Logger.linesText_cons, List.length_append, List.length_cons] at hle
        omega
    · -- the first line is whole
      obtain ⟨rest, htext, hrest⟩ : ∃ rest, text = l ++ newline :: rest ∧ rest <+: Logger.linesText lines := by
        obtain ⟨tail, htail⟩ := hp
        rcases List.append_eq_append_iff.mp htail with ⟨a, hl', -⟩ | ⟨c, hc, hrest⟩
        · refine absurd ?_ hshort
          rw [hl', List.length_append]
          exact Nat.le_add_right _ _
        · cases c with
          | nil =>
            rw [hc, List.append_nil] at hshort
            exact absurd (Nat.le_refl _) hshort
          | cons x rest =>
            rw [List.cons_append, List.cons.injEq] at hrest
            rw [← hrest.1] at hc
            exact ⟨rest, hc, tail, hrest.2.symm⟩
      obtain ⟨k, p, hsplit, hnext, hall⟩ := ih (fun k hk => h k (.tail _ hk)) rest hrest
      refine ⟨k + 1, p, ?_, hnext, ?_⟩
      · rw [htext, List.splitOn_append_cons_self_of_not_mem hl, hsplit]
        rfl
      · intro m hm hlen
        cases m with
        | zero => exact Nat.zero_le _
        | succ m =>
          rw [List.take_succ_cons, Logger.linesText_cons, htext, List.prefix_append_right_inj,
            List.cons_prefix_cons] at hm
          exact Nat.succ_le_succ (hall m hm.2 (Nat.le_of_succ_le_succ hlen))

/-- **What can be read from the log files.**  In every run of threads that log lines with room, and
of the asynchronous logger and its files, no round of which finds too many buffers and whose
`_running` is cleared at a safe moment if at all: the files, one after the other and cut at the ends
of lines, are the first records in the order of their destructors, each once, with its file and
line, and at the end a beginning of the next or nothing.  When a `stop` has returned, the records
output before its call are among them.

The clock does not go back and starts behind 0, a file is known by its second, and stdio does not
fail, as in `LogFile.lean`.  The bytes come from `LogPipeline`, the lines from `Logger`; what is
proved here is that the first are the second (`Joined`), and the rest is cutting them
(`splitOn_prefix`). -/
theorem log_on_disk (gmtime : Int → List Byte) (hgm : ∀ sec, newline ∉ gmtime sec) (cfg : Config)
    (clock : Nat → Timestamp) (hclock : NonDecreasing clock) (hpos : 0 < clock 0) (level : LogLevel) (s : State)
    (h : Reach (step gmtime cfg clock) Bounded (.init level) s) :
    ∃ k rest, s.pipe.files.splitOn newline = (s.logger.output.map Record.line).take k ++ [rest] ∧
      (rest = [] ∨ ∃ l, (s.logger.output.map Record.line)[k]? = some l ∧ rest <+: l) ∧
      (s.pipe.front.call = .returned → s.before ≤ k) := by
  have hj : Joined clock s :=
    h.invariant (joined_init level) fun _ _ _ hi hg hst => step_joined hgm hclock hpos hi hg hst
  have hfiles : s.pipe.files <+: Logger.linesText (s.logger.output.map Record.line) := by
    rw [← hj.lined.output_eq, ← hj.appended]
    have hall := hj.piped.kept.conserved
    rw [AsyncLogger.Conserved, ← hj.piped.files_inStdio.1] at hall
    rw [List.append_assoc, List.append_assoc, List.append_assoc] at hall
    exact ⟨_, hall⟩
  obtain ⟨k, rest, hsplit, hnext, hk⟩ := splitOn_prefix _ hj.lined.newline_notMem _ hfiles
  refine ⟨k, rest, hsplit, hnext, ?_⟩
  intro hr
  have hpromised := hj.piped.promised_files hj.safe hr
  rw [hj.promised] at hpromised
  refine hk s.before ?_ ?_
  · have hlines : (s.logger.output.take s.before).flatMap Record.bytes =
        Logger.linesText ((s.logger.output.map Record.line).take s.before) := by
      rw [← List.map_take, Logger.linesText, List.flatMap_map]
      exact List.flatMap_congr fun r hr => (hj.lined.records r (List.mem_of_mem_take hr)).2
    rw [← hlines]
    exact hpromised
  · rw [List.length_map]
    exact hj.before

/-- Thread 7 logs, the backend writes it out and waits; `stop` is called, and thread 8 logs
before `_running` is cleared. -/
def stopsLogging : List Label :=
  let now : Timestamp := 1718452800000000000
  let left : Nat → Byte := fun _ => 0
  let record (t : Nat) (c : Byte) : List Label :=
    [.log (.statement t .info (LogStream.ascii "a.cc".toList) [] 5 now left), .log (.insert t (.char c) left),
      .log (.finish t left)]
  record 7 65 ++
    [.backend .start 0, .backend .test 0, .backend .lock 0, .backend .wake 0, .backend (.checkOverrun []) 0,
      .backend .write 9, .backend .recycle 0, .backend .test 0, .backend .lock 0, .backend .callStop 0] ++
    record 8 66 ++
    [.backend .store 0, .backend .wake 0, .backend (.checkOverrun []) 0, .backend .write 0, .backend .recycle 0,
      .backend .test 0, .backend .join 0]

theorem log_on_disk_stopsLogging :
    ∃ s, Reach (step Logger.noon ⟨3, 3, 1024⟩ LogPipeline.seconds) Bounded (.init .info) s ∧
      s.pipe.front.call = .returned ∧ s.before = 1 ∧
      ∃ k rest, s.pipe.files.splitOn newline = (s.logger.output.map Record.line).take k ++ [rest] ∧
        (rest = [] ∨ ∃ l, (s.logger.output.map Record.line)[k]? = some l ∧ rest <+: l) ∧
        (s.pipe.front.call = .returned → s.before ≤ k) := by
  have hrun : ∃ s, Reach (step Logger.noon ⟨3, 3, 1024⟩ LogPipeline.seconds) Bounded (.init .info) s ∧
      (s.pipe.front.call = .returned ∧ s.before = 1) :=
    Reach.exists_of_exec stopsLogging _ (by decide +kernel) (by decide +kernel)
  obtain ⟨s, h, hr, hbefore⟩ := hrun
  have hnoon : ∀ sec, newline ∉ Logger.noon sec := by
    intro sec
    unfold Logger.noon
    decide +kernel
  exact ⟨s, h, hr, hbefore,
    log_on_disk Logger.noon hnoon _ _ LogPipeline.seconds_nonDecreasing (by decide) .info s h⟩

end Suduo.LogSystem
