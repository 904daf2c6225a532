/-
# `LogFile`: rolling over

`base/LogFile.cpp` over `base/FileUtil.cpp` and `base/Timestamp.h`.  A `LogFile` appends to one file and
goes on to a new one when the file is full or the day is over.  Three things decide what ends up where:
the name of a file carries the second it was opened in; it is opened to append; and the size that is
compared with `_roll_size` is that of what this `FileAppender` has written, from zero.

Times are nanoseconds since the epoch and clock readings are a sequence; the second and the day of a
reading are rounded towards the epoch, as `duration_cast` and the division of C++ do.

Two things are taken for granted, here and in what builds on this module.  A name is identified with its
second: the code prints the LOCAL time into it, which repeats when the clocks are set back, and then a
file of an hour ago would be opened again.  And stdio does not fail: `fopen` gives a file, and `fwrite`
takes all it is given, so the loop of `FileAppender::append` does not leave by its `ferror`.

Nothing is lost or reordered (`append_step`).  But a file that is rolled over in the second it was
opened in is opened again, and the size starts from zero.  `roll_size_exact` says that this, and nothing
else, makes a file too large.
-/
import Mathlib.Data.List.Infix
import Mathlib.Tactic.Basic
import Suduo.Lib.Slice

namespace Suduo.LogFile

open Lib

/-! ## 1. Time -/

/-- A `Timestamp`: nanoseconds. -/
abbrev Timestamp := Int

/-- `Timestamp::Seconds`. -/
def ofSeconds (sec : Int) : Timestamp := sec * 1000000000

/-- `get_seconds_in_int64`. -/
def getSeconds (t : Timestamp) : Int := t.tdiv 1000000000

def rollPerSeconds : Int := 60 * 60 * 24

/-- The start of the day. -/
def periodOf (t : Timestamp) : Timestamp := ofSeconds ((getSeconds t).tdiv rollPerSeconds * rollPerSeconds)

/-! ## 2. Files -/

/-- What is appended. -/
abbrev Msg := List Byte

/-- A file with its name, which is the second it was created in, and its bytes.  `messages` is for the
statements only: what has been appended to the file so far. -/
structure File where
  second : Int
  bytes : List Byte
  messages : List Msg
  deriving DecidableEq

/-- All files, in the order of creation. -/
abbrev Disk := List File

/-- What happens to the file of this name. -/
def Disk.update (disk : Disk) (second : Int) (f : File → File) : Disk :=
  disk.map fun g => if g.second = second then f g else g

/-- `fopen` in mode `a`: a file that is there is left as it is. -/
def Disk.fopen (disk : Disk) (second : Int) : Disk :=
  if ∃ g ∈ disk, g.second = second then disk else disk ++ [⟨second, [], []⟩]

/-- `FileAppender`, with what stdio keeps in its buffer. -/
structure FileAppender where
  second : Int
  pending : List Byte
  writtenBytes : Nat
  deriving DecidableEq

namespace FileAppender

/-- `FileAppender(filename)`, the file being open. -/
def new (second : Int) : FileAppender := ⟨second, [], 0⟩

/-- `append`, one `fwrite` that succeeds.  Stdio writes out the first `spill` bytes of what it has. -/
def append (file : FileAppender) (disk : Disk) (log : Msg) (spill : Nat) : FileAppender × Disk :=
  let all := file.pending ++ log
  ({ file with pending := all.drop spill, writtenBytes := file.writtenBytes + log.length },
    disk.update file.second fun g =>
      { g with bytes := g.bytes ++ all.take spill, messages := g.messages ++ [log] })

/-- `fflush`, and what `fclose` writes out. -/
def flushTo (file : FileAppender) (disk : Disk) : Disk :=
  disk.update file.second fun g => { g with bytes := g.bytes ++ file.pending }

end FileAppender

/-! ## 3. The code -/

/-- What a `LogFile` is constructed with. -/
structure Config where
  rollSize : Int
  flushInterval : Int
  checkEveryN : Int

/-- The members that change, the disk, and how often the clock has been read. -/
structure State where
  count : Int
  startOfPeriod : Timestamp
  lastRoll : Timestamp
  lastFlush : Timestamp
  file : Option FileAppender
  disk : Disk
  reads : Nat
  deriving DecidableEq

/-- A sequence of readings: none is before an earlier one. -/
def NonDecreasing (clock : Nat → Timestamp) : Prop := ∀ ⦃m n⦄, m ≤ n → clock m ≤ clock n

variable (cfg : Config) (clock : Nat → Timestamp)

/-- `roll_file`.  `_file.reset` opens the new file before it closes the old one. -/
def rollFile (s : State) : State × Bool :=
  let now := clock s.reads
  let start := periodOf now
  let s := { s with reads := s.reads + 1 }
  if now > s.lastRoll then
    let disk := s.disk.fopen (getSeconds now)
    ({ s with
      lastRoll := now
      lastFlush := now
      startOfPeriod := start
      file := some (.new (getSeconds now))
      disk := match s.file with
        | some file => file.flushTo disk
        | none => disk }, true)
  else (s, false)

/-- `_file->flush()`. -/
def flush (s : State) : Option State := do
  let file ← s.file
  some { s with file := some { file with pending := [] }, disk := file.flushTo s.disk }

/-- The end of `append_unlocked`, when the file is not full. -/
def check (s : State) : Option State :=
  let s := { s with count := s.count + 1 }
  if s.count ≥ cfg.checkEveryN then
    let now := clock s.reads
    let s := { s with count := 0, reads := s.reads + 1 }
    if periodOf now ≠ s.startOfPeriod then some (rollFile clock s).1
    else if now - s.lastFlush > ofSeconds cfg.flushInterval then flush { s with lastFlush := now }
    else some s
  else some s

/-- `append_unlocked`.  There is no `_file` if the constructor did not open one. -/
def appendUnlocked (s : State) (log : Msg) (spill : Nat) : Option State := do
  let file ← s.file
  let (file, disk) := file.append s.disk log spill
  let s := { s with file := some file, disk := disk }
  if (file.writtenBytes : Int) > cfg.rollSize then some (rollFile clock s).1
  else check cfg clock s

/-- The constructor, on an empty disk. -/
def start : State := (rollFile clock ⟨0, ofSeconds 0, ofSeconds 0, ofSeconds 0, none, [], 0⟩).1

/-- Calls of `append`, each with what stdio does then. -/
def run (logs : List (Msg × Nat)) : Option State :=
  logs.foldlM (fun s log => appendUnlocked cfg clock s log.1 log.2) (start clock)

/-! ## 4. What holds between two calls -/

variable {cfg clock} {s s' : State} {file : FileAppender} {init disk : Disk} {g : File} {k : Int}
  {log : Msg} {spill : Nat} {t t' : Timestamp}

theorem getSeconds_mono (h : t ≤ t') : getSeconds t ≤ getSeconds t' :=
  Int.tdiv_le_tdiv (by decide) h

/-- Another day is another second: a roll at the end of a day never goes to a file that exists. -/
theorem getSeconds_lt_of_period (h : t ≤ t') (hne : periodOf t' ≠ periodOf t) :
    getSeconds t < getSeconds t' := by
  refine Int.lt_iff_le_and_ne.mpr ⟨getSeconds_mono h, fun heq => hne ?_⟩
  rw [periodOf, periodOf, heq]

theorem update_append (disk disk' : Disk) (k : Int) (f : File → File) :
    Disk.update (disk ++ disk') k f = Disk.update disk k f ++ Disk.update disk' k f :=
  List.map_append

/-- Files of other names are left as they are. -/
theorem update_other {f : File → File} (h : ∀ g' ∈ disk, g'.second ≠ k) : Disk.update disk k f = disk :=
  (List.map_congr_left fun g' hg' => if_neg (h g' hg')).trans (List.map_id' disk)

/-- The file that was created last stands last in the list, and to change it is to change it
there. -/
theorem update_last {f : File → File} (hinit : ∀ g' ∈ init, g'.second ≠ k) (hg : g.second = k) :
    Disk.update (init ++ [g]) k f = init ++ [f g] := by
  have hone : Disk.update [g] k f = [f g] := congrArg ([·]) (if_pos hg)
  rw [update_append, update_other hinit, hone]

theorem fopen_last (hg : g.second = k) : Disk.fopen (init ++ [g]) k = init ++ [g] :=
  if_pos ⟨g, List.mem_append_right _ (List.mem_singleton_self g), hg⟩

theorem fopen_new (h : ∀ g' ∈ disk, g'.second ≠ k) : Disk.fopen disk k = disk ++ [⟨k, [], []⟩] :=
  if_neg fun ⟨g', hmem, heq⟩ => h g' hmem heq

/-- Before and after every call: `a` is open, on the last file `g`, and the ones before are
closed and hold their messages.  The file before the last was opened in an earlier second than
the last, which is what keeps the name of an old file from coming up again. -/
structure Inv (clock : Nat → Timestamp) (s : State) (a : FileAppender) (init : Disk) (g : File) :
    Prop where
  file : s.file = some a
  disk : s.disk = init ++ [g]
  second : g.second = a.second
  rolled : getSeconds s.lastRoll = a.second
  older : ∀ g' ∈ init, g'.second < a.second
  past : ∀ n, s.reads ≤ n → s.lastRoll ≤ clock n
  period : s.startOfPeriod = periodOf s.lastRoll
  closed : ∀ g' ∈ init, g'.bytes = g'.messages.flatten
  current : g.bytes ++ a.pending = g.messages.flatten
  written : a.writtenBytes ≤ g.messages.flatten.length

/-- What `append` makes of the last file. -/
def File.append (g : File) (a : FileAppender) (log : Msg) (spill : Nat) : File where
  second := g.second
  bytes := g.bytes ++ (a.pending ++ log).take spill
  messages := g.messages ++ [log]

/-- The last file when it is closed. -/
def File.close (g : File) (a : FileAppender) : File := { g with bytes := g.bytes ++ a.pending }

namespace Inv

variable {a : FileAppender}

theorem older_ne (h : Inv clock s a init g) : ∀ g' ∈ init, g'.second ≠ a.second :=
  fun g' hg' => Int.ne_of_lt (h.older g' hg')

/-- The counters and the time of the last flush are not part of it. -/
theorem frame (h : Inv clock s a init g) (c : Int) (f : Timestamp) {n : Nat} (hn : s.reads ≤ n) :
    Inv clock { s with count := c, lastFlush := f, reads := n } a init g where
  file := h.file
  disk := h.disk
  second := h.second
  rolled := h.rolled
  older := h.older
  past m hm := h.past m (Nat.le_trans hn hm)
  period := h.period
  closed := h.closed
  current := h.current
  written := h.written

/-- A message goes to the last file. -/
theorem append (h : Inv clock s a init g) (log : Msg) (spill : Nat) :
    Inv clock { s with file := some (a.append s.disk log spill).1, disk := (a.append s.disk log spill).2 }
      (a.append s.disk log spill).1 init (g.append a log spill) where
  file := rfl
  disk := by
    change s.disk.update a.second _ = _
    rw [h.disk, update_last h.older_ne h.second]
    rfl
  second := h.second
  rolled := h.rolled
  older := h.older
  past := h.past
  period := h.period
  closed := h.closed
  current := by
    change g.bytes ++ (a.pending ++ log).take spill ++ (a.pending ++ log).drop spill =
      (g.messages ++ [log]).flatten
    rw [List.append_assoc, List.take_append_drop, ← List.append_assoc, h.current, List.flatten_append,
      List.flatten_singleton]
  written := by
    change a.writtenBytes + log.length ≤ (g.messages ++ [log]).flatten.length
    rw [List.flatten_append, List.flatten_singleton, List.length_append]
    exact Nat.add_le_add_right h.written _

/-- What stdio has is written out. -/
theorem flush (h : Inv clock s a init g) :
    ∃ s', LogFile.flush s = some s' ∧ Inv clock s' { a with pending := [] } init (g.close a) := by
  have hdisk : a.flushTo s.disk = init ++ [g.close a] := by
    rw [FileAppender.flushTo, h.disk, update_last h.older_ne h.second]
    rfl
  refine ⟨_, by rw [LogFile.flush, h.file]; rfl, ?_⟩
  exact
    { h with
      file := rfl
      disk := hdisk
      current := (List.append_nil _).trans h.current }

/-- After a roll: the new appender is on the last file, and the old one has been closed.  Whether
the last file is a new one is left to the two lemmas below. -/
theorem of_roll (hclock : NonDecreasing clock) (hfile : s.file = some a) (hnow : clock s.reads > s.lastRoll)
    (hdisk : a.flushTo (s.disk.fopen (getSeconds (clock s.reads))) = init ++ [g])
    (hsecond : g.second = getSeconds (clock s.reads))
    (holder : ∀ g' ∈ init, g'.second < getSeconds (clock s.reads))
    (hclosed : ∀ g' ∈ init ++ [g], g'.bytes = g'.messages.flatten) :
    Inv clock (rollFile clock s).1 (.new (getSeconds (clock s.reads))) init g := by
  have hrolled : (rollFile clock s).1 =
      { s with
        lastRoll := clock s.reads
        lastFlush := clock s.reads
        startOfPeriod := periodOf (clock s.reads)
        file := some (.new (getSeconds (clock s.reads)))
        disk := init ++ [g]
        reads := s.reads + 1 } := by
    rw [← hdisk, rollFile, if_pos hnow, hfile]
  rw [hrolled]
  exact
    { file := rfl
      disk := rfl
      second := hsecond
      rolled := rfl
      older := holder
      past := fun n hn => hclock (Nat.le_of_succ_le hn)
      period := rfl
      closed := fun g' hg' => hclosed g' (List.mem_append_left _ hg')
      current := (List.append_nil _).trans
        (hclosed g (List.mem_append_right _ (List.mem_singleton_self g)))
      written := Nat.zero_le _ }

/-- With the last file closed, all files hold their messages. -/
theorem closed_all (h : Inv clock s a init g) : ∀ g' ∈ init ++ [g.close a], g'.bytes = g'.messages.flatten := by
  intro g' hg'
  rcases List.mem_append.mp hg' with hg' | hg'
  · exact h.closed g' hg'
  · rw [List.mem_singleton.mp hg']
    exact h.current

/-- A reading in a later second opens a new file, and what stdio kept for the old one is written
out when that is closed, -/
theorem roll_later (hclock : NonDecreasing clock) (h : Inv clock s a init g)
    (hlater : getSeconds s.lastRoll < getSeconds (clock s.reads)) :
    Inv clock (rollFile clock s).1 (.new (getSeconds (clock s.reads))) (init ++ [g.close a])
      ⟨getSeconds (clock s.reads), [], []⟩ := by
  have hnow : clock s.reads > s.lastRoll := by
    by_contra hle
    exact absurd (getSeconds_mono (Int.not_lt.mp hle)) (Int.not_le.mpr hlater)
  have hnew : a.second < getSeconds (clock s.reads) := by
    rw [← h.rolled]
    exact hlater
  have hlt : ∀ {g₀ : File}, g₀.second = a.second → ∀ g' ∈ init ++ [g₀],
      g'.second < getSeconds (clock s.reads) := by
    intro g₀ hg₀ g' hg'
    rcases List.mem_append.mp hg' with hg' | hg'
    · exact Int.lt_trans (h.older g' hg') hnew
    · rw [List.mem_singleton.mp hg', hg₀]
      exact hnew
  have hopen : s.disk.fopen (getSeconds (clock s.reads)) =
      init ++ [g] ++ [⟨getSeconds (clock s.reads), [], []⟩] := by
    rw [h.disk]
    exact fopen_new fun g' hg' => Int.ne_of_lt (hlt h.second g' hg')
  -- the old file is closed behind the new one
  have hclose : a.flushTo (s.disk.fopen (getSeconds (clock s.reads))) =
      init ++ [g.close a] ++ [⟨getSeconds (clock s.reads), [], []⟩] := by
    have hother : ∀ g' ∈ [(⟨getSeconds (clock s.reads), [], []⟩ : File)], g'.second ≠ a.second := by
      intro g' hg'
      rw [List.mem_singleton.mp hg']
      exact Int.ne_of_gt hnew
    rw [hopen, FileAppender.flushTo, update_append, update_last h.older_ne h.second, update_other hother]
    rfl
  refine of_roll hclock h.file hnow hclose rfl (hlt h.second) fun g' hg' => ?_
  rcases List.mem_append.mp hg' with hg' | hg'
  · exact h.closed_all g' hg'
  · rw [List.mem_singleton.mp hg']
    rfl

/-- and one in the same second does not: the last file is opened again and stays the last.  Its
bytes are all still there, but the new appender counts from zero. -/
theorem roll_same (hclock : NonDecreasing clock) (h : Inv clock s a init g)
    (hsame : ¬ getSeconds s.lastRoll < getSeconds (clock s.reads)) :
    ∃ a' g', Inv clock (rollFile clock s).1 a' init g' ∧ g'.messages = g.messages := by
  have hsecond : getSeconds (clock s.reads) = a.second := by
    have := getSeconds_mono (h.past s.reads (Nat.le_refl _))
    rw [← h.rolled]
    omega
  by_cases hnow : clock s.reads > s.lastRoll
  · have hclose : a.flushTo (s.disk.fopen (getSeconds (clock s.reads))) = init ++ [g.close a] := by
      rw [h.disk, fopen_last (h.second.trans hsecond.symm), FileAppender.flushTo,
        update_last h.older_ne h.second]
      rfl
    have holder : ∀ g' ∈ init, g'.second < getSeconds (clock s.reads) := by
      rw [hsecond]
      exact h.older
    exact ⟨_, g.close a,
      of_roll hclock h.file hnow hclose (h.second.trans hsecond.symm) holder h.closed_all, rfl⟩
  · have hrolled : (rollFile clock s).1 = { s with reads := s.reads + 1 } := by
      rw [rollFile, if_neg hnow]
    rw [hrolled]
    exact ⟨a, g, h.frame s.count s.lastFlush (Nat.le_succ _), rfl⟩

end Inv

/-! ## 5. One call -/

/-- The roll for size would go to a later second. -/
def Later (clock : Nat → Timestamp) (s : State) : Prop := getSeconds s.lastRoll < getSeconds (clock s.reads)

instance (clock : Nat → Timestamp) (s : State) : Decidable (Later clock s) :=
  inferInstanceAs (Decidable (_ < _))

/-- What becomes of the open file and the last one: the message is in the last file and stays
there, or it is and the file was left, for a new one or for the same one again. -/
inductive Outcome (cfg : Config) (clock : Nat → Timestamp) (s : State) (a : FileAppender) (init : Disk)
    (g : File) (log : Msg) : FileAppender → Disk → File → Prop
  /-- The message is in the last file, and there is room. -/
  | stays {a' : FileAppender} {g' : File} (hroom : (a.writtenBytes + log.length : Nat) ≤ cfg.rollSize)
      (hmsg : g'.messages = g.messages ++ [log])
      (hwritten : a'.writtenBytes = a.writtenBytes + log.length) : Outcome cfg clock s a init g log a' init g'
  /-- The last file is closed behind the message. -/
  | rolls {a' : FileAppender} {g' g₁ : File}
      (hlater : cfg.rollSize < (a.writtenBytes + log.length : Nat) → Later clock s)
      (hmsg : g₁.messages = g.messages ++ [log]) (hnew : g'.messages = []) (hwritten : a'.writtenBytes = 0) :
      Outcome cfg clock s a init g log a' (init ++ [g₁]) g'
  /-- It is full and stays the last. -/
  | reopens {a' : FileAppender} {g' : File} (hfull : cfg.rollSize < (a.writtenBytes + log.length : Nat))
      (hsame : ¬ Later clock s) (hmsg : g'.messages = g.messages ++ [log]) :
      Outcome cfg clock s a init g log a' init g'

variable {a a' : FileAppender} {init' : Disk} {g' : File}

/-- The end of a call: the file stays, or the day is over.  A flush in between changes neither
the messages nor what has been counted. -/
theorem check_step (cfg : Config) (hclock : NonDecreasing clock) (h : Inv clock s a init g) :
    ∃ s' a' init' g', check cfg clock s = some s' ∧ Inv clock s' a' init' g' ∧
      (init' = init ∧ g'.messages = g.messages ∧ a'.writtenBytes = a.writtenBytes ∨
        ∃ g₁, init' = init ++ [g₁] ∧ g₁.messages = g.messages ∧ g'.messages = [] ∧ a'.writtenBytes = 0) := by
  have hpast := h.past s.reads (Nat.le_refl _)
  unfold check
  dsimp only
  split
  · have hread := h.frame 0 s.lastFlush (Nat.le_succ s.reads)
    split
    · rename_i hday
      -- the next reading is not before this one
      have hlt : getSeconds s.lastRoll < getSeconds (clock s.reads) :=
        getSeconds_lt_of_period hpast (by rwa [← h.period])
      have hlater : getSeconds s.lastRoll < getSeconds (clock (s.reads + 1)) :=
        Int.lt_of_lt_of_le hlt (getSeconds_mono (hclock (Nat.le_succ _)))
      exact ⟨_, _, _, _, rfl, hread.roll_later hclock hlater, .inr ⟨_, rfl, rfl, rfl, rfl⟩⟩
    · split
      · obtain ⟨s', hflush, hinv⟩ := (h.frame 0 (clock s.reads) (Nat.le_succ s.reads)).flush
        exact ⟨s', _, init, _, hflush, hinv, .inl ⟨rfl, rfl, rfl⟩⟩
      · exact ⟨_, a, init, g, rfl, hread, .inl ⟨rfl, rfl, rfl⟩⟩
  · exact ⟨_, a, init, g, rfl, h.frame (s.count + 1) s.lastFlush (Nat.le_refl _), .inl ⟨rfl, rfl, rfl⟩⟩

/-- **One call of `append`.**  It succeeds, and its outcome is one of those above, whatever stdio
does of itself. -/
theorem append_step (cfg : Config) (hclock : NonDecreasing clock) (h : Inv clock s a init g) (log : Msg)
    (spill : Nat) :
    ∃ s' a' init' g', appendUnlocked cfg clock s log spill = some s' ∧ Inv clock s' a' init' g' ∧
      Outcome cfg clock s a init g log a' init' g' := by
  have happ := h.append log spill
  have hwritten : (a.append s.disk log spill).1.writtenBytes = a.writtenBytes + log.length := rfl
  rw [appendUnlocked, h.file, Option.bind_eq_bind, Option.bind_some]
  by_cases hfull : cfg.rollSize < ((a.append s.disk log spill).1.writtenBytes : Int)
  · by_cases hlater : Later clock s
    · have hroll := happ.roll_later hclock hlater
      exact ⟨_, _, _, _, if_pos hfull, hroll, .rolls (fun _ => hlater) rfl rfl rfl⟩
    · obtain ⟨a', g', hroll, hmsg⟩ := happ.roll_same hclock hlater
      exact ⟨_, a', init, g', if_pos hfull, hroll, .reopens hfull hlater hmsg⟩
  · obtain ⟨s', a', init', g', hcheck, hinv, hcase⟩ := check_step cfg hclock happ
    refine ⟨s', a', init', g', (if_neg hfull).trans hcheck, hinv, ?_⟩
    rcases hcase with ⟨rfl, hmsg, hw⟩ | ⟨g₁, rfl, hmsg, hnew, hw⟩
    · exact .stays (Int.not_lt.mp hfull) hmsg hw
    · exact .rolls (fun h => absurd h hfull) hmsg hnew hw

/-- The constructor opens a file if the clock is past the epoch: `roll_file` compares the reading
with a `_last_roll` of 0. -/
theorem start_inv (hclock : NonDecreasing clock) (h : 0 < clock 0) :
    Inv clock (start clock) (.new (getSeconds (clock 0))) [] ⟨getSeconds (clock 0), [], []⟩ := by
  have hnow : clock 0 > ofSeconds 0 := by
    rw [ofSeconds, Int.zero_mul]
    exact h
  have hstart : start clock =
      ⟨0, periodOf (clock 0), clock 0, clock 0, some (.new (getSeconds (clock 0))),
        [⟨getSeconds (clock 0), [], []⟩], 1⟩ := by
    rw [start, rollFile, if_pos hnow]
    rfl
  rw [hstart]
  exact
    { file := rfl
      disk := rfl
      second := rfl
      rolled := rfl
      older := fun g' hg' => absurd hg' List.not_mem_nil
      past := fun n _ => hclock (Nat.zero_le n)
      period := rfl
      closed := fun g' hg' => absurd hg' List.not_mem_nil
      current := rfl
      written := Nat.le_refl 0 }

/-! ## 6. What the files hold -/

/-- The length of the last message that was appended to a file. -/
def File.lastLength (g : File) : Nat := (g.messages.getLast?.map List.length).getD 0

/-- What is in a file, with what stdio still keeps for it. -/
def State.content (s : State) (g : File) : List Byte :=
  match s.file with
  | some a => if a.second = g.second then g.bytes ++ a.pending else g.bytes
  | none => g.bytes

/-- The files one after the other are the messages one after the other. -/
def Kept (s : State) (logs : List (Msg × Nat)) : Prop :=
  s.disk.flatMap s.content = (logs.map Prod.fst).flatten

/-- No file is larger than the roll size and its last message. -/
def Bounded (cfg : Config) (s : State) : Prop :=
  ∀ g ∈ s.disk, ((s.content g).length : Int) ≤ cfg.rollSize + g.lastLength

instance (cfg : Config) (s : State) : Decidable (Bounded cfg s) :=
  inferInstanceAs (Decidable (∀ g ∈ s.disk, _))

/-- The same of one file's messages. -/
def File.Small (cfg : Config) (g : File) : Prop :=
  (g.messages.flatten.length : Int) ≤ cfg.rollSize + g.lastLength

theorem File.lastLength_append {g g' : File} (h : g'.messages = g.messages ++ [log]) :
    g'.lastLength = log.length := by
  rw [File.lastLength, h, List.getLast?_concat]
  rfl

theorem flatten_append {g g' : File} (h : g'.messages = g.messages ++ [log]) :
    g'.messages.flatten.length = g.messages.flatten.length + log.length := by
  rw [h, List.flatten_append, List.flatten_singleton, List.length_append]

namespace Inv

/-- A file holds its messages, in order, but for what stdio still has. -/
theorem content (h : Inv clock s a init g) : ∀ g' ∈ s.disk, s.content g' = g'.messages.flatten := by
  intro g' hg'
  rw [h.disk, List.mem_append, List.mem_singleton] at hg'
  rw [State.content, h.file]
  rcases hg' with hg' | rfl
  · exact (if_neg (Ne.symm (h.older_ne g' hg'))).trans (h.closed g' hg')
  · exact (if_pos h.second.symm).trans h.current

theorem bounded_iff (h : Inv clock s a init g) : Bounded cfg s ↔ ∀ g' ∈ s.disk, g'.Small cfg :=
  forall₂_congr fun g' hg' => by rw [h.content g' hg', File.Small]

theorem kept_iff (h : Inv clock s a init g) (logs : List (Msg × Nat)) :
    Kept s logs ↔ (s.disk.flatMap File.messages).flatten = (logs.map Prod.fst).flatten := by
  have hcontent : s.disk.flatMap s.content = (s.disk.flatMap File.messages).flatten := by
    rw [List.flatMap_def, List.map_congr_left h.content, List.flatMap_def, List.flatten_flatten,
      List.map_map]
    rfl
  rw [Kept, hcontent]

end Inv

/-- Every outcome puts the message behind all others. -/
theorem Outcome.messages (h : Outcome cfg clock s a init g log a' init' g') :
    (init' ++ [g']).flatMap File.messages = (init ++ [g]).flatMap File.messages ++ [log] := by
  simp only [List.flatMap_append, List.flatMap_singleton]
  cases h with
  | stays hroom hmsg hwritten => rw [hmsg, List.append_assoc]
  | reopens hfull hsame hmsg => rw [hmsg, List.append_assoc]
  | rolls hlater hmsg hnew hwritten =>
    rw [hnew, List.append_nil, List.flatMap_append, List.flatMap_singleton, hmsg, List.append_assoc]

/-! ## 7. Runs -/

variable {logs : List (Msg × Nat)} {l : Msg × Nat}

theorem run_snoc (cfg : Config) (clock : Nat → Timestamp) (logs : List (Msg × Nat)) (l : Msg × Nat) :
    run cfg clock (logs ++ [l]) = (run cfg clock logs).bind fun s => appendUnlocked cfg clock s l.1 l.2 := by
  rw [run, List.foldlM_append]
  refine congrArg (Option.bind _) (funext fun s => ?_)
  rw [List.foldlM_cons]
  cases appendUnlocked cfg clock s l.1 l.2 with
  | none => rfl
  | some s' => rfl

/-- **Nothing is lost or reordered**, whatever the clock reads after the epoch: the messages of
the files, one file after the other, are those that were appended. -/
theorem run_inv (cfg : Config) (hclock : NonDecreasing clock) (h : 0 < clock 0) (logs : List (Msg × Nat)) :
    ∃ s a init g, run cfg clock logs = some s ∧ Inv clock s a init g ∧
      s.disk.flatMap File.messages = logs.map Prod.fst := by
  induction logs using List.reverseRecOn with
  | nil =>
    have hinv := start_inv hclock h
    exact ⟨_, _, _, _, rfl, hinv, by rw [hinv.disk]; rfl⟩
  | append_singleton logs l ih =>
    obtain ⟨s, a, init, g, hrun, hinv, hmsgs⟩ := ih
    obtain ⟨s', a', init', g', happ, hinv', hout⟩ := append_step cfg hclock hinv l.1 l.2
    refine ⟨s', a', init', g', ?_, hinv', ?_⟩
    · rw [run_snoc, hrun, Option.bind_some, happ]
    · rw [hinv'.disk, hout.messages, ← hinv.disk, hmsgs, List.map_append]
      rfl

theorem run_kept (cfg : Config) (hclock : NonDecreasing clock) (h : 0 < clock 0) (logs : List (Msg × Nat)) :
    ∃ s, run cfg clock logs = some s ∧ Kept s logs := by
  obtain ⟨s, a, init, g, hrun, hinv, hmsgs⟩ := run_inv cfg hclock h logs
  exact ⟨s, hrun, (hinv.kept_iff logs).mpr (by rw [hmsgs])⟩

/-- If the message fills the file, the file that is opened next is another.  This is a condition
on the reading that `roll_file` is about to make, and on the state before the call. -/
def RollsLater (cfg : Config) (clock : Nat → Timestamp) (s : State) (log : Msg) : Prop :=
  ∀ a, s.file = some a → cfg.rollSize < (a.writtenBytes + log.length : Nat) → Later clock s

/-- As long as that is so: all files are small, and what has been counted is the size of the
last. -/
structure Light (cfg : Config) (a : FileAppender) (init : Disk) (g : File) : Prop where
  small : ∀ g' ∈ init, g'.Small cfg
  counted : a.writtenBytes = g.messages.flatten.length
  light : (g.messages.flatten.length : Int) ≤ cfg.rollSize

/-- The last file is small too, so all of them are. -/
theorem Light.bounded (h : Light cfg a init g) (hinv : Inv clock s a init g) : Bounded cfg s := by
  rw [hinv.bounded_iff, hinv.disk]
  intro g' hg'
  rcases List.mem_append.mp hg' with hg' | hg'
  · exact h.small g' hg'
  · have hlight := h.light
    rw [List.mem_singleton.mp hg', File.Small]
    omega

/-- A message that fills the file leaves it with at most the roll size and that message, and the
next one starts empty.  Both need that the next one is another file. -/
theorem Light.step (hroll : 0 ≤ cfg.rollSize) (h : Light cfg a init g) (hfile : s.file = some a)
    (hlater : RollsLater cfg clock s log) (hout : Outcome cfg clock s a init g log a' init' g') :
    Light cfg a' init' g' := by
  have hcounted := h.counted
  have hlight := h.light
  cases hout with
  | stays hroom hmsg hwritten =>
    have hlen := flatten_append hmsg
    exact ⟨h.small, by omega, by omega⟩
  | @rolls _ g₁ hlater hmsg hnew hwritten =>
    have hlen := flatten_append hmsg
    have hnil : g'.messages.flatten.length = 0 := by
      rw [hnew]
      rfl
    refine ⟨fun g' hg' => ?_, by omega, by omega⟩
    rcases List.mem_append.mp hg' with hg' | hg'
    · exact h.small g' hg'
    · rw [List.mem_singleton.mp hg', File.Small, File.lastLength_append hmsg]
      omega
  | reopens hfull hsame hmsg => exact absurd (hlater a hfile hfull) hsame

/-- A file that is too large before a message is so behind it, since nothing takes messages out
of a file. -/
theorem Outcome.large (h : Outcome cfg clock s a init g log a' init' g')
    (hlarge : cfg.rollSize < g.messages.flatten.length) :
    ∃ g₁ ∈ init' ++ [g'], ¬ g₁.Small cfg := by
  have hsize : ∀ g₁ : File, g₁.messages = g.messages ++ [log] → ¬ g₁.Small cfg := by
    intro g₁ hmsg
    rw [File.Small, File.lastLength_append hmsg, flatten_append hmsg]
    omega
  cases h with
  | stays hroom hmsg hwritten =>
    exact ⟨g', List.mem_append_right _ (List.mem_singleton_self g'), hsize g' hmsg⟩
  | @rolls _ g₁ hlater hmsg hnew hwritten =>
    exact ⟨g₁, List.mem_append_left _ (List.mem_append_right _ (List.mem_singleton_self g₁)), hsize g₁ hmsg⟩
  | reopens hfull hsame hmsg =>
    exact ⟨g', List.mem_append_right _ (List.mem_singleton_self g'), hsize g' hmsg⟩

/-- One more message, whatever the clock reads.  It goes to the file that is open, or to a new
one. -/
theorem Light.last (hroll : 0 ≤ cfg.rollSize) (h : Light cfg a init g)
    (hout : Outcome cfg clock s a init g log a' init' g') : ∀ g₁ ∈ init' ++ [g'], g₁.Small cfg := by
  have hlight := h.light
  have hsize : ∀ g₁ : File, g₁.messages = g.messages ++ [log] → g₁.Small cfg := by
    intro g₁ hmsg
    rw [File.Small, File.lastLength_append hmsg, flatten_append hmsg]
    omega
  intro g₁ hg₁
  rw [List.mem_append, List.mem_singleton] at hg₁
  cases hout with
  | stays hroom hmsg hwritten =>
    rcases hg₁ with hg₁ | rfl
    · exact h.small g₁ hg₁
    · exact hsize g₁ hmsg
  | reopens hfull hsame hmsg =>
    rcases hg₁ with hg₁ | rfl
    · exact h.small g₁ hg₁
    · exact hsize g₁ hmsg
  | rolls hlater hmsg hnew hwritten =>
    rw [List.mem_append, List.mem_singleton] at hg₁
    rcases hg₁ with (hg₁ | rfl) | rfl
    · exact h.small g₁ hg₁
    · exact hsize g₁ hmsg
    · rw [File.Small, File.lastLength, hnew]
      simpa using hroll

/-- A run whose rolls for size all go to a later second is light throughout; by induction on the
messages, with `run_inv`. -/
theorem run_light (cfg : Config) (hclock : NonDecreasing clock) (h : 0 < clock 0) (hroll : 0 ≤ cfg.rollSize)
    (hlater : ∀ pre l s, pre ++ [l] <+: logs → run cfg clock pre = some s → RollsLater cfg clock s l.1) :
    ∃ s a init g, run cfg clock logs = some s ∧ Inv clock s a init g ∧ Light cfg a init g := by
  induction logs using List.reverseRecOn with
  | nil =>
    have hlight : Light cfg (.new (getSeconds (clock 0))) [] ⟨getSeconds (clock 0), [], []⟩ :=
      ⟨fun g' hg' => absurd hg' List.not_mem_nil, rfl, hroll⟩
    exact ⟨_, _, _, _, rfl, start_inv hclock h, hlight⟩
  | append_singleton logs l ih =>
    obtain ⟨s, a, init, g, hrun, hinv, hlight⟩ := ih fun pre l' s hpre =>
      hlater pre l' s (hpre.trans (List.prefix_append logs [l]))
    obtain ⟨s', a', init', g', happ, hinv', hout⟩ := append_step cfg hclock hinv l.1 l.2
    have hstep := hlater logs l s (List.prefix_refl _) hrun
    refine ⟨s', a', init', g', ?_, hinv', hlight.step hroll hinv.file hstep hout⟩
    rw [run_snoc, hrun, Option.bind_some, happ]

/-- Without a file nothing can be appended.  If the clock is not past the epoch, the constructor
has opened none. -/
theorem run_closed (cfg : Config) (h : ¬ 0 < clock 0) (l : Msg × Nat) : run cfg clock [l] = none := by
  have hnow : ¬ clock 0 > ofSeconds 0 := by
    rw [ofSeconds, Int.zero_mul]
    exact h
  have hstart : (start clock).file = none := by
    rw [start, rollFile, if_neg hnow]
  have happ : appendUnlocked cfg clock (start clock) l.1 l.2 = none := by
    rw [appendUnlocked, hstart]
    rfl
  rw [← List.nil_append [l], run_snoc]
  exact happ

/-- What is asked of a run at one point. -/
def RunHolds (cfg : Config) (clock : Nat → Timestamp) (logs : List (Msg × Nat)) : Prop :=
  ∃ s, run cfg clock logs = some s ∧ Kept s logs ∧ Bounded cfg s

/-- A full file that is opened again is too large with the next message, as long as the roll size
counts for anything: the message that filled it is no longer the last. -/
theorem not_runHolds_of_reopen (hclock : NonDecreasing clock) (h : 0 < clock 0)
    (hrun : run cfg clock logs = some s) (hsame : ¬ RollsLater cfg clock s l.1) (l' : Msg × Nat) :
    ¬ RunHolds cfg clock (logs ++ [l] ++ [l']) := by
  obtain ⟨s₀, a, init, g, hrun₀, hinv, -⟩ := run_inv cfg hclock h logs
  rw [hrun] at hrun₀
  cases hrun₀
  unfold RollsLater at hsame
  push Not at hsame
  obtain ⟨a₀, hfile, hfull, hsame⟩ := hsame
  rw [hinv.file] at hfile
  cases hfile
  obtain ⟨s', a', init', g', happ, hinv', hout⟩ := append_step cfg hclock hinv l.1 l.2
  have hlarge : cfg.rollSize < g'.messages.flatten.length := by
    have hwritten := hinv.written
    cases hout with
    | stays hroom hmsg hw => exact absurd hroom (Int.not_le.mpr hfull)
    | rolls hlater hmsg hnew hw => exact absurd (hlater hfull) hsame
    | reopens _ _ hmsg =>
      rw [flatten_append hmsg]
      omega
  obtain ⟨s'', a'', init'', g'', happ', hinv'', hout'⟩ := append_step cfg hclock hinv' l'.1 l'.2
  obtain ⟨g₁, hmem, hnot⟩ := hout'.large hlarge
  rintro ⟨s₁, hrun₁, -, hbounded⟩
  rw [run_snoc, run_snoc, hrun, Option.bind_some, happ, Option.bind_some, happ'] at hrun₁
  cases hrun₁
  exact hnot ((hinv''.bounded_iff.mp hbounded) g₁ (by rw [hinv''.disk]; exact hmem))

/-- A run without a file, or with a negative roll size, is wrong from the start. -/
theorem RunHolds.start (hclock : NonDecreasing clock)
    (hall : ∀ pre, pre <+: logs ++ [l] → RunHolds cfg clock pre) : 0 < clock 0 ∧ 0 ≤ cfg.rollSize := by
  have hpos : 0 < clock 0 := by
    by_contra hneg
    obtain ⟨l₀, rest, hcons⟩ := List.exists_cons_of_ne_nil (List.concat_ne_nil l logs)
    obtain ⟨s, hrun, -⟩ := hall [l₀] (by rw [hcons]; exact List.cons_prefix_cons.mpr ⟨rfl, List.nil_prefix⟩)
    rw [run_closed cfg hneg] at hrun
    cases hrun
  refine ⟨hpos, ?_⟩
  obtain ⟨s, hrun, -, hbounded⟩ := hall [] List.nil_prefix
  cases hrun
  have hinv := start_inv hclock hpos
  have hsmall := hinv.bounded_iff.mp hbounded _ (by rw [hinv.disk]; exact List.mem_singleton_self _)
  simpa [File.Small, File.lastLength] using hsmall

/-- **When the files respect the roll size.**  The messages are kept in every run with a file.  In a
run of at least one message all files are within the roll size and their last message, at every
point, if and only if the clock is past the epoch, the roll size is not negative, and each message
but the last that fills a file finds the clock in a later second than the one the file was opened
in.

In the one direction this is `run_light`, with `Light.last` for the last message, after which
nothing more has to be small.  In the other a run that goes wrong somewhere is cut there, and
`not_runHolds_of_reopen` shows it one message later. -/
theorem roll_size_exact (cfg : Config) (hclock : NonDecreasing clock) (logs : List (Msg × Nat))
    (l : Msg × Nat) :
    (0 < clock 0 → ∃ s, run cfg clock (logs ++ [l]) = some s ∧ Kept s (logs ++ [l])) ∧
    ((∀ pre, pre <+: logs ++ [l] →
        ∃ s, run cfg clock pre = some s ∧ Kept s pre ∧ Bounded cfg s) ↔
      0 < clock 0 ∧ 0 ≤ cfg.rollSize ∧ ∀ pre l' s, pre ++ [l'] <+: logs →
        run cfg clock pre = some s → RollsLater cfg clock s l'.1) := by
  refine ⟨fun h => run_kept cfg hclock h _, fun hall => ?_, ?_⟩
  · obtain ⟨hpos, hroll⟩ := RunHolds.start hclock hall
    refine ⟨hpos, hroll, fun pre l' s hpre hrun => ?_⟩
    by_contra hsame
    -- one more message comes behind the one that fills the file
    obtain ⟨rest, rfl⟩ := hpre
    obtain ⟨l₀, rest', hcons⟩ := List.exists_cons_of_ne_nil (List.concat_ne_nil l rest)
    refine not_runHolds_of_reopen hclock hpos hrun hsame l₀ (hall _ ⟨rest', ?_⟩)
    rw [List.append_assoc _ rest, hcons, List.append_assoc _ [l₀]]
    rfl
  · rintro ⟨hpos, hroll, hlater⟩ pre hpre
    rcases List.prefix_concat_iff.mp hpre with rfl | hpre
    · obtain ⟨s, a, init, g, hrun, hinv, hlight⟩ := run_light cfg hclock hpos hroll hlater
      obtain ⟨s', a', init', g', happ, hinv', hout⟩ := append_step cfg hclock hinv l.1 l.2
      obtain ⟨s₁, hrun₁, hkept⟩ := run_kept cfg hclock hpos (logs ++ [l])
      have hsnoc : run cfg clock (logs ++ [l]) = some s' := by
        rw [run_snoc, hrun, Option.bind_some, happ]
      rw [hsnoc] at hrun₁
      cases hrun₁
      refine ⟨s', hsnoc, hkept, hinv'.bounded_iff.mpr ?_⟩
      rw [hinv'.disk]
      exact hlight.last hroll hout
    · obtain ⟨s, a, init, g, hrun, hinv, hlight⟩ := run_light cfg hclock hpos hroll
        fun pre' l' s' hpre' => hlater pre' l' s' (hpre'.trans hpre)
      obtain ⟨s₁, hrun₁, hkept⟩ := run_kept cfg hclock hpos pre
      rw [hrun] at hrun₁
      cases hrun₁
      exact ⟨s, hrun, hkept, hlight.bounded hinv⟩

/-- A second for every reading, and three bytes for every file: two messages of five bytes are two
files. -/
theorem roll_size_seconds :
    ∃ s, run ⟨3, 3, 1024⟩ (fun n => (n + 1) * 1000000000) [([1, 2, 3, 4, 5], 0), ([6, 7, 8, 9, 10], 0)] =
      some s ∧ Kept s [([1, 2, 3, 4, 5], 0), ([6, 7, 8, 9, 10], 0)] ∧ Bounded ⟨3, 3, 1024⟩ s := by
  have hclock : NonDecreasing fun n => (n + 1) * 1000000000 := fun m n hmn => by
    have hle : ((m : Int) + 1) * 1000000000 ≤ ((n : Int) + 1) * 1000000000 := by omega
    exact hle
  refine ((roll_size_exact ⟨3, 3, 1024⟩ hclock [([1, 2, 3, 4, 5], 0)] ([6, 7, 8, 9, 10], 0)).2.mpr
    ⟨by decide, by decide, fun pre l' s hpre hrun => ?_⟩) _ (List.prefix_refl _)
  cases pre with
  | nil =>
    cases hrun
    intro a _ _
    decide
  | cons l₀ pre => simp at hpre

/-- Two messages in one second, each more than a file may hold: they go to one file of ten bytes. -/
theorem roll_size_exceeded :
    ¬ ∃ s, run ⟨3, 3, 1024⟩ (fun n => 1000000000 + n) [([1, 2, 3, 4, 5], 0), ([6, 7, 8, 9, 10], 0)] =
      some s ∧ Kept s [([1, 2, 3, 4, 5], 0), ([6, 7, 8, 9, 10], 0)] ∧ Bounded ⟨3, 3, 1024⟩ s := by
  rintro ⟨s, hrun, -, hbounded⟩
  have hsome : run ⟨3, 3, 1024⟩ (fun n => 1000000000 + n)
      [([1, 2, 3, 4, 5], 0), ([6, 7, 8, 9, 10], 0)] =
      some ⟨0, 0, 1000000002, 1000000002, some ⟨1, [], 0⟩,
        [⟨1, [1, 2, 3, 4, 5, 6, 7, 8, 9, 10], [[1, 2, 3, 4, 5], [6, 7, 8, 9, 10]]⟩], 3⟩ := by decide
  rw [hsome] at hrun
  cases hrun
  revert hbounded
  decide

end Suduo.LogFile
