/-
# `Logger`: from a log statement to a record

`base/Logger.cpp`, with `tid_string` of `CurrentThreadInfo.h`.  A `LOG_` macro makes a `Logger`,
whose constructor prints the time, the thread and the level into its stream; the statement inserts
what it has to say; the destructor prints where it was said and hands all of it to the output
function, and for `FATAL` it then flushes and aborts.  The operands of a statement may log
themselves, so a thread has a STACK of `Logger`s, and between any two steps of one thread others
take theirs.  There is no lock in the destructor: other threads may output records between a `FATAL`
one and the flush, and between the flush and `abort()`, a second `FATAL` one too.

The text of the time is kept for each thread and printed anew only when the second has changed.
`records_exact` says that it is the right one in every record nevertheless, and what else is in the
record; the stream is bounded, and what does not fit is left out (`LogStream.lean`).  `log_lines`
says when the log can be cut into its records again.

The output, flush and print functions are the default ones; the calendar is `gmtime_r`'s, a
parameter.  Of what can be inserted `float` and `double` are not modelled.
-/
import Suduo.Base.LogStream
import Suduo.Base.LogFile
import Suduo.Lib.IpText

namespace Suduo

/-! ## 1. Levels and macros -/

/-- `Logger::LogLevel`. -/
inductive LogLevel
  | trace
  | debug
  | info
  | warn
  | error
  | fatal
  deriving DecidableEq, Repr

namespace Logger

open Lib
open LogStream (StreamArray Insertion Step ascii run intText minBufferSize)
open LogFile (Timestamp getSeconds)

/-- `Logger::Logger(source, line, to_abort)`. -/
def sysLevel (toAbort : Bool) : LogLevel := if toAbort then .fatal else .error

/-- The level of a `LOG_SYSERR`. -/
def logSyserr : LogLevel := sysLevel false

/-- The level of a `LOG_SYSFATAL`. -/
def logSysfatal : LogLevel := sysLevel true

/-- A record is written, by `~Logger`; `none` is `abort()`.  Other modules ask this of a level
when all they need to know is whether the program goes on. -/
def record (level : LogLevel) : Option Unit := if level = .fatal then none else some ()

/-- `LogLevel_name`. -/
def levelName : LogLevel → List Byte
  | .trace => ascii "TRACE ".toList
  | .debug => ascii "DEBUG ".toList
  | .info => ascii "INFO  ".toList
  | .warn => ascii "WARN  ".toList
  | .error => ascii "ERROR ".toList
  | .fatal => ascii "FATAL ".toList

/-- The `LOG_` macros. -/
inductive Macro
  | trace
  | debug
  | info
  | warn
  | error
  | fatal
  | syserr
  | sysfatal
  deriving DecidableEq, Repr

/-- The level of the `Logger` that a macro makes. -/
def Macro.level : Macro → LogLevel
  | .trace => .trace
  | .debug => .debug
  | .info => .info
  | .warn => .warn
  | .error => .error
  | .fatal => .fatal
  | .syserr => logSyserr
  | .sysfatal => logSysfatal

/-- Only the first three ask for the log level. -/
def Macro.enabled (m : Macro) (global : LogLevel) : Bool :=
  match m with
  | .trace | .debug | .info => decide (global.ctorIdx ≤ m.level.ctorIdx)
  | .warn | .error | .fatal | .syserr | .sysfatal => true

/-- Whether a macro passes `__func__`. -/
def Macro.namesFunc : Macro → Bool
  | .trace | .debug => true
  | .info | .warn | .error | .fatal | .syserr | .sysfatal => false

def slash : Byte := 47

def newline : Byte := 10

/-- `SourceFile`: what is behind the last slash, and all of it if there is none. -/
def sourceFile (filename : List Byte) : List Byte := (filename.reverse.takeWhile (· ≠ slash)).reverse

/-! ## 2. The printed prefix and suffix -/

/-- A thread, by its `gettid()`. -/
abbrev Tid := Nat

/-- `"%5d"`. -/
def tidString (t : Tid) : List Byte :=
  ascii (List.replicate (5 - (Nat.toDigits 10 t).length) ' ' ++ Nat.toDigits 10 t)

/-- `thread_time` and `thread_lastSecond`. -/
structure ThreadTime where
  threadTime : List Byte
  lastSecond : Int

/-- What a thread starts with. -/
def ThreadTime.init : ThreadTime := ⟨[], 0⟩

/-- `time_to_string`. -/
def timeToString (gmtime : Int → List Byte) (now : Timestamp) (t : ThreadTime) : ThreadTime :=
  if getSeconds now ≠ t.lastSecond then ⟨gmtime (getSeconds now), getSeconds now⟩ else t

/-- The insertions of `default_pre_output`. -/
def preOutput (time tid : List Byte) (level : LogLevel) (func : Option (List Byte)) : List Insertion :=
  [.cStr (some time), .cStr (some (ascii [' '])), .cStr (some tid), .cStr (some (ascii [' '])),
    .cStr (some (levelName level))] ++
    match func with
    | some func => [.cStr (some func), .char 32]
    | none => []

/-- The insertions of `default_post_output`. -/
def postOutput (source : List Byte) (line : Int32) : List Insertion :=
  [.cStr (some (ascii [' ', '-'])), .str source, .cStr (some (ascii [':'])), .int line, .char newline]

/-- Insertions, with what a `to_chars` that fails among them leaves. -/
def stepsOf (left : Nat → Byte) (is : List Insertion) : List Step := is.map fun i => (i, left)

/-! ## 3. Statements -/

/-- A `Logger`, and what its statement has inserted so far. -/
structure Object where
  stream : LogStream.Buffer
  time : Timestamp
  source : List Byte
  level : LogLevel
  line : Int32
  /-- The rest is not in the code: its thread, the name it was given, the first contents of its
  array, and what has been inserted. -/
  tid : Tid
  func : Option (List Byte)
  left : Nat → Byte
  inserted : List Step

/-- What the destructor has handed to the output function. -/
structure Record where
  object : Object
  bytes : List Byte
  /-- What a line number that did not fit has left. -/
  left : Nat → Byte

/-- Where a thread is in the destructor, after the output function. -/
inductive Ending
  /-- Not there: the thread goes on. -/
  | no
  /-- The record was `FATAL`, `global_flush()` is next. -/
  | toFlush
  /-- `abort()` is next. -/
  | toAbort
  deriving DecidableEq, Repr

structure ThreadState where
  time : ThreadTime
  /-- The innermost statement first. -/
  objects : List Object
  ending : Ending

structure State where
  level : LogLevel
  thread : Tid → ThreadState
  output : List Record
  /-- How many records there were at the last `global_flush`. -/
  flushed : Nat
  aborted : Bool
  /-- The statements of each thread that have passed the test of the level. -/
  begun : Tid → Nat

/-- `initLogLevel` takes the level from the environment. -/
def State.init (level : LogLevel) : State := ⟨level, fun _ => ⟨.init, [], .no⟩, [], 0, false, fun _ => 0⟩

inductive Label
  | setLogLevel (level : LogLevel)
  /-- A statement begins: the macro's test, and the constructor. -/
  | statement (t : Tid) (m : Macro) (file func : List Byte) (line : Int32) (now : Timestamp) (left : Nat → Byte)
  | insert (t : Tid) (i : Insertion) (left : Nat → Byte)
  /-- The statement ends: the destructor, up to the test for `FATAL`. -/
  | finish (t : Tid) (left : Nat → Byte)
  /-- `global_flush()` in the destructor. -/
  | flush (t : Tid)
  | abort (t : Tid)

section

variable (gmtime : Int → List Byte)

/-- The constructor. -/
def construct (t : Tid) (m : Macro) (file func : List Byte) (line : Int32) (now : Timestamp) (left : Nat → Byte)
    (time : ThreadTime) : Option Object := do
  let func := if m.namesFunc then some func else none
  let stream ← run (LogStream.empty left) (stepsOf left (preOutput time.threadTime (tidString t) m.level func))
  return {
    stream, time := now, source := sourceFile file, level := m.level, line, tid := t, func, left, inserted := [] }

/-- The destructor, up to the output function. -/
def destruct (o : Object) (left : Nat → Byte) : Option Record := do
  let stream ← run o.stream (stepsOf left (postOutput o.source o.line))
  return ⟨o, stream.contents, left⟩

def setThread (s : State) (t : Tid) (ts : ThreadState) : State := { s with thread := Function.update s.thread t ts }

@[simp] theorem setThread_self (s : State) (t : Tid) (ts : ThreadState) : (setThread s t ts).thread t = ts := by
  simp [setThread]

theorem setThread_of_ne (s : State) {t u : Tid} (ts : ThreadState) (h : u ≠ t) :
    (setThread s t ts).thread u = s.thread u := by
  simp [setThread, h]

/-- The thread that makes the step is at that place of its code: a thread that is flushing or
about to abort makes no other statement.  Whoever sets the log level is not told apart. -/
def State.at (s : State) : Label → Prop
  | .setLogLevel _ => True
  | .statement t _ _ _ _ _ _ | .insert t _ _ | .finish t _ => (s.thread t).ending = .no
  | .flush t => (s.thread t).ending = .toFlush
  | .abort t => (s.thread t).ending = .toAbort

instance (s : State) : ∀ l, Decidable (s.at l)
  | .setLogLevel _ => .isTrue trivial
  | .statement t _ _ _ _ _ _ | .insert t _ _ | .finish t _ => inferInstanceAs (Decidable ((s.thread t).ending = .no))
  | .flush t => inferInstanceAs (Decidable ((s.thread t).ending = .toFlush))
  | .abort t => inferInstanceAs (Decidable ((s.thread t).ending = .toAbort))

def step (s : State) (l : Label) : Option State :=
  if s.aborted = true ∨ ¬ s.at l then none
  else
    match l with
    | .setLogLevel level => some { s with level }
    | .statement t m file func line now left =>
      if m.enabled s.level then do
        let time := timeToString gmtime now (s.thread t).time
        let o ← construct t m file func line now left time
        return { setThread s t { s.thread t with time, objects := o :: (s.thread t).objects } with
                 begun := Function.update s.begun t (s.begun t + 1) }
      else some s
    | .insert t i left =>
      match (s.thread t).objects with
      | o :: rest => do
        let stream ← o.stream.insert left i
        return setThread s t
          { s.thread t with objects := { o with stream, inserted := o.inserted ++ [(i, left)] } :: rest }
      | [] => none
    | .finish t left =>
      match (s.thread t).objects with
      | o :: rest => do
        let r ← destruct o left
        let ending := if o.level = .fatal then .toFlush else .no
        return { setThread s t { s.thread t with objects := rest, ending } with output := s.output ++ [r] }
      | [] => none
    | .flush t => some { setThread s t { s.thread t with ending := .toAbort } with flushed := s.output.length }
    | .abort _ => some { s with aborted := true }

end

/-! ## 4. Printing with room -/

section

variable {n : Nat} {b b' : StreamArray n} {left : Nat → Byte}

/-- The text of insertions that all fit. -/
def textOf (steps : List Step) : List Byte := steps.flatMap fun p => p.1.render

theorem textOf_stepsOf (left : Nat → Byte) (is : List Insertion) :
    textOf (stepsOf left is) = is.flatMap Insertion.render := List.flatMap_map _ _ is

theorem run_append (b : StreamArray n) (xs ys : List Step) : run b (xs ++ ys) = (run b xs).bind fun b => run b ys :=
  List.foldlM_append

theorem size_add_availability (b : StreamArray n) : b.contents.length + b.availability = n := by
  rw [StreamArray.contents_length]
  exact Nat.add_sub_cancel' b.current_le

/-- An insertion with room to spare prints its text, whatever its kind. -/
theorem insert_room (left : Nat → Byte) {i : Insertion} (h : i.render.length < b.availability) :
    ∃ b', b.insert left i = some b' ∧ b'.contents = b.contents ++ i.render := by
  have hsafe : i.Safe true b := by
    unfold Insertion.Safe
    cases i.kind with
    | string => exact .inl rfl
    | number => exact .inl (Nat.le_of_lt h)
    | pointer => exact Nat.le_of_lt h
  obtain ⟨b', hins, hcont⟩ := (LogStream.insert_exact true left b i).mpr hsafe
  refine ⟨b', hins, ?_⟩
  have hfits : i.Fits true b := by
    unfold Insertion.Fits
    split <;> omega
  rwa [Insertion.added, if_pos hfits] at hcont

/-- **Insertions with room to spare print their text.**  One byte must be left over, because that
is what a string asks for. -/
theorem run_room (steps : List Step) (b : StreamArray n) (h : (textOf steps).length < b.availability) :
    ∃ b', run b steps = some b' ∧ b'.contents = b.contents ++ textOf steps := by
  induction steps generalizing b with
  | nil => exact ⟨b, rfl, (List.append_nil _).symm⟩
  | cons p steps ih =>
    have htext : textOf (p :: steps) = p.1.render ++ textOf steps := List.flatMap_cons
    rw [htext, List.length_append] at h
    obtain ⟨b₁, hins, hcont⟩ := insert_room p.2 (b := b) (i := p.1) (by omega)
    have hroom : (textOf steps).length < b₁.availability := by
      have hbefore := size_add_availability b
      have hafter := size_add_availability b₁
      rw [hcont, List.length_append] at hafter
      omega
    obtain ⟨b', hrun, hcont'⟩ := ih b₁ hroom
    refine ⟨b', ?_, ?_⟩
    · rw [LogStream.run_cons, hins, Option.bind_some, hrun]
    · rw [hcont', hcont, htext, List.append_assoc]

/-- With no room to spare, an insertion is left out, or it fills the array. -/
theorem insert_cases {i : Insertion} (h : b.insert left i = some b') :
    b'.contents = b.contents ++ i.render ∨ b'.contents = b.contents ∨ b'.availability = 0 := by
  have hkinds := LogStream.insert_kind left b i
  have hfull : ∀ b₁ : StreamArray n, b₁.size = n → b₁.availability = 0 := by
    intro b₁ hsize
    rw [StreamArray.availability, ← StreamArray.size, hsize, Nat.sub_self]
  cases hkind : i.kind with
  | string =>
    rw [hkind] at hkinds
    obtain ⟨b₁, hins, hwritten⟩ := hkinds
    rw [h] at hins
    cases hins
    have hcont : b'.contents = (b.written.append i.render).written := congrArg _ hwritten
    by_cases hroom : b.written.availability > i.render.length
    · rw [AsyncLogger.StreamBuffer.append_written hroom] at hcont
      exact .inl hcont
    · rw [AsyncLogger.StreamBuffer.append, dif_neg hroom] at hcont
      exact .inr (.inl hcont)
  | number =>
    rw [hkind] at hkinds
    obtain ⟨val, hput, hrender⟩ := hkinds
    rw [hput] at h
    by_cases hroom : b.current + (intText val).length ≤ n
    · obtain ⟨b₁, hins, hcont⟩ := StreamArray.putInt_fits left hroom
      rw [h] at hins
      cases hins
      exact .inl (hrender ▸ hcont)
    · obtain ⟨b₁, hins, hsize, -⟩ := StreamArray.putInt_fails left hroom
      rw [h] at hins
      cases hins
      exact .inr (.inr (hfull b' hsize))
  | pointer =>
    rw [hkind] at hkinds
    obtain ⟨val, hput, hrender⟩ := hkinds
    rw [hput] at h
    by_cases htwo : b.current + 2 ≤ n
    · by_cases hroom : b.current + (2 + (LogStream.hexText val.toNat).length) ≤ n
      · obtain ⟨b₁, hins, hcont⟩ := StreamArray.putPointer_fits left hroom
        rw [h] at hins
        cases hins
        exact .inl (hrender ▸ hcont)
      · obtain ⟨b₁, hins, hsize⟩ := StreamArray.putPointer_fails left htwo hroom
        rw [h] at hins
        cases hins
        exact .inr (.inr (hfull b' hsize))
    · rw [StreamArray.putPointer_none (by omega)] at h
      cases h

end

/-! ## 5. What a step does -/

variable {gmtime : Int → List Byte} {s s' : State}

/-- The ways a step can go. -/
inductive Stepped (gmtime : Int → List Byte) (s : State) : Label → State → Prop
  | setLogLevel {level : LogLevel} : Stepped gmtime s (.setLogLevel level) { s with level }
  | statement {t : Tid} {m : Macro} {file func : List Byte} {line : Int32} {now : Timestamp} {left : Nat → Byte}
      {o : Object} (hm : m.enabled s.level = true)
      (ho : construct t m file func line now left (timeToString gmtime now (s.thread t).time) = some o) :
      Stepped gmtime s (.statement t m file func line now left)
        { setThread s t { s.thread t with time := timeToString gmtime now (s.thread t).time
                                          objects := o :: (s.thread t).objects } with
          begun := Function.update s.begun t (s.begun t + 1) }
  | filtered {t : Tid} {m : Macro} {file func : List Byte} {line : Int32} {now : Timestamp} {left : Nat → Byte}
      (hm : m.enabled s.level = false) : Stepped gmtime s (.statement t m file func line now left) s
  | insert {t : Tid} {i : Insertion} {left : Nat → Byte} {o : Object} {rest : List Object} {stream : LogStream.Buffer}
      (ho : (s.thread t).objects = o :: rest) (hi : o.stream.insert left i = some stream) :
      Stepped gmtime s (.insert t i left)
        (setThread s t
          { s.thread t with objects := { o with stream, inserted := o.inserted ++ [(i, left)] } :: rest })
  | finish {t : Tid} {left : Nat → Byte} {o : Object} {rest : List Object} {r : Record} {ending : Ending}
      (ho : (s.thread t).objects = o :: rest) (hr : destruct o left = some r)
      (hending : ending = if o.level = .fatal then .toFlush else .no) :
      Stepped gmtime s (.finish t left)
        { setThread s t { s.thread t with objects := rest, ending } with output := s.output ++ [r] }
  | flush {t : Tid} : Stepped gmtime s (.flush t)
      { setThread s t { s.thread t with ending := .toAbort } with flushed := s.output.length }
  | abort {t : Tid} : Stepped gmtime s (.abort t) { s with aborted := true }

/-- **Inversion of a step.**  Each constructor has what the statement, the insertion or the
destructor needs, and the results below look at steps through it only. -/
theorem step_inv {l : Label} (h : step gmtime s l = some s') :
    s.aborted = false ∧ s.at l ∧ Stepped gmtime s l s' := by
  simp only [step] at h
  split at h
  · cases h
  · rename_i hrun
    rw [not_or, not_not] at hrun
    refine ⟨(Bool.not_eq_true _).mp hrun.1, hrun.2, ?_⟩
    cases l with
    | setLogLevel level =>
      cases h
      exact .setLogLevel
    | statement t m file func line now left =>
      dsimp only at h
      split at h
      · rename_i hm
        obtain ⟨o, ho, h⟩ := Option.bind_eq_some_iff.mp h
        cases h
        exact .statement hm ho
      · rename_i hm
        cases h
        exact .filtered ((Bool.not_eq_true _).mp hm)
    | insert t i left =>
      dsimp only at h
      split at h
      · rename_i o rest ho
        obtain ⟨stream, hi, h⟩ := Option.bind_eq_some_iff.mp h
        cases h
        exact .insert ho hi
      · cases h
    | finish t left =>
      dsimp only at h
      split at h
      · rename_i o rest ho
        obtain ⟨r, hr, h⟩ := Option.bind_eq_some_iff.mp h
        cases h
        exact .finish ho hr rfl
      · cases h
    | flush t =>
      cases h
      exact .flush
    | abort t =>
      cases h
      exact .abort

/-- **What `record` says of a destructor**: the thread is on its way to `abort()`, or not, by the
level alone. -/
theorem ending_iff_record {t : Tid} {left : Nat → Byte} (h : step gmtime s (.finish t left) = some s') :
    ∃ o rest, (s.thread t).objects = o :: rest ∧ ((s'.thread t).ending = .toFlush ↔ record o.level = none) := by
  obtain ⟨-, -, hstep⟩ := step_inv h
  cases hstep with
  | @finish t left o rest r ending ho hr hending =>
    refine ⟨o, rest, ho, ?_⟩
    change ((setThread s t _).thread t).ending = .toFlush ↔ _
    rw [setThread_self, hending, record]
    split
    · exact iff_of_true rfl rfl
    · exact iff_of_false (by rintro ⟨⟩) (Option.some_ne_none _)

/-! ## 6. Every record -/

/-- The text that is kept is that of its second.  Nothing is claimed of the second 0, with which
a thread starts without any text. -/
def ThreadTime.Cached (gmtime : Int → List Byte) (t : ThreadTime) : Prop :=
  t.lastSecond ≠ 0 → t.threadTime = gmtime t.lastSecond

/-- **The text of the time is the right one**, kept or printed anew, but for a first statement in
the second 0: then the test finds the second unchanged and there is no text at all. -/
theorem timeToString_spec {t : ThreadTime} (h : t.Cached gmtime) (now : Timestamp) :
    (timeToString gmtime now t).Cached gmtime ∧
      (getSeconds now ≠ 0 → (timeToString gmtime now t).threadTime = gmtime (getSeconds now)) := by
  unfold timeToString
  split
  · exact ⟨fun _ => rfl, fun _ => rfl⟩
  · rename_i hsame
    rw [not_not] at hsame
    refine ⟨h, fun hnow => ?_⟩
    rw [hsame] at hnow ⊢
    exact h hnow

/-- What the constructor has inserted, and the statement after it. -/
def Object.steps (gmtime : Int → List Byte) (o : Object) : List Step :=
  stepsOf o.left (preOutput (gmtime (getSeconds o.time)) (tidString o.tid) o.level o.func) ++ o.inserted

/-- The insertions of a whole record. -/
def Record.steps (gmtime : Int → List Byte) (r : Record) : List Step :=
  r.object.steps gmtime ++ stepsOf r.left (postOutput r.object.source r.object.line)

/-- The stream is what its insertions have printed, those of the constructor first. -/
def Object.Printed (gmtime : Int → List Byte) (o : Object) : Prop :=
  run (LogStream.empty o.left) (o.steps gmtime) = some o.stream

/-- What every record is: the bytes are what the destructor's insertions make of the stream, and
the stream is what the others have printed. -/
structure Record.Exact (gmtime : Int → List Byte) (r : Record) : Prop where
  printed : r.object.Printed gmtime
  bytes : (run r.object.stream (stepsOf r.left (postOutput r.object.source r.object.line))).map StreamArray.contents =
    some r.bytes

/-- What is true of a thread: the text of the time that it keeps, and each of its statements. -/
structure ThreadState.Sound (gmtime : Int → List Byte) (t : Tid) (ts : ThreadState) : Prop where
  cached : ts.time.Cached gmtime
  objects : ∀ o ∈ ts.objects, o.Printed gmtime ∧ o.tid = t

/-- **The invariant.**  Which thread has output a `FATAL` record can be told from where the
thread is: it does not come back from there (`ending`, `last`), and it is at `abort()` only after
a flush of all that was output by then (`toAbort`). -/
structure Sound (gmtime : Int → List Byte) (s : State) : Prop where
  thread : ∀ t, (s.thread t).Sound gmtime t
  records : ∀ r ∈ s.output, r.Exact gmtime
  /-- No statement is lost and none is output twice. -/
  count : ∀ t, (s.output.filter fun r => r.object.tid = t).length + (s.thread t).objects.length = s.begun t
  ending : ∀ r ∈ s.output, r.object.level = .fatal → (s.thread r.object.tid).ending ≠ .no
  last : s.output.Pairwise fun r r' => r.object.level = .fatal → r'.object.tid ≠ r.object.tid
  toFlush : ∀ t, (s.thread t).ending = .toFlush → ∃ r ∈ s.output, r.object.level = .fatal
  toAbort : ∀ t, (s.thread t).ending = .toAbort → ∃ r ∈ s.output.take s.flushed, r.object.level = .fatal
  aborted : s.aborted = true → ∃ t, (s.thread t).ending = .toAbort

theorem sound_init (level : LogLevel) : Sound gmtime (.init level) := by
  constructor
  · intro t
    constructor
    · intro hsec
      exact absurd rfl hsec
    · rintro o ⟨⟩
  · rintro r ⟨⟩
  · intro t
    rfl
  · rintro r ⟨⟩
  · exact .nil
  · rintro t ⟨⟩
  · rintro t ⟨⟩
  · rintro ⟨⟩

/-- Statements begin after the first second of the epoch. -/
def AfterEpoch (_ : State) : Label → Prop
  | .statement _ _ _ _ _ now _ => getSeconds now ≠ 0
  | _ => True

instance (s : State) : ∀ l, Decidable (AfterEpoch s l)
  | .statement _ _ _ _ _ now _ => inferInstanceAs (Decidable (getSeconds now ≠ 0))
  | .setLogLevel _ | .insert _ _ _ | .finish _ _ | .flush _ | .abort _ => .isTrue trivial

theorem construct_inv {t : Tid} {m : Macro} {file func : List Byte} {line : Int32} {now : Timestamp}
    {left : Nat → Byte} {time : ThreadTime} {o : Object} (h : construct t m file func line now left time = some o) :
    o.tid = t ∧ o.time = now ∧ o.left = left ∧ o.inserted = [] ∧ o.source = sourceFile file ∧
      o.func = (if m.namesFunc then some func else none) ∧ o.level = m.level ∧
      run (LogStream.empty left) (stepsOf left (preOutput time.threadTime (tidString t) o.level o.func)) =
        some o.stream := by
  simp only [construct, Option.bind_eq_bind] at h
  obtain ⟨stream, hrun, h⟩ := Option.bind_eq_some_iff.mp h
  cases h
  exact ⟨rfl, rfl, rfl, rfl, rfl, rfl, rfl, hrun⟩

theorem destruct_inv {o : Object} {left : Nat → Byte} {r : Record} (h : destruct o left = some r) :
    r.object = o ∧ r.left = left ∧
      (run o.stream (stepsOf left (postOutput o.source o.line))).map StreamArray.contents = some r.bytes := by
  simp only [destruct, Option.bind_eq_bind] at h
  obtain ⟨stream, hrun, h⟩ := Option.bind_eq_some_iff.mp h
  cases h
  exact ⟨rfl, rfl, by rw [hrun]; rfl⟩

/-- An insertion more.  What is printed is what was printed, and then this. -/
theorem Object.Printed.insert {o : Object} (h : o.Printed gmtime) {i : Insertion} {left : Nat → Byte}
    {stream : LogStream.Buffer} (hi : o.stream.insert left i = some stream) :
    Object.Printed gmtime { o with stream, inserted := o.inserted ++ [(i, left)] } := by
  change run _ (stepsOf o.left _ ++ (o.inserted ++ [(i, left)])) = some stream
  rw [← List.append_assoc, run_append]
  change (run (LogStream.empty o.left) (o.steps gmtime)).bind _ = _
  rw [h, Option.bind_some, LogStream.run_singleton, hi]

/-- What is true of every thread, when one has changed. -/
theorem forall_setThread {P : Tid → ThreadState → Prop} {t : Tid} {ts : ThreadState} (h : ∀ u, P u (s.thread u))
    (ht : P t ts) (u : Tid) : P u ((setThread s t ts).thread u) := by
  by_cases hu : u = t
  · rw [hu, setThread_self]
    exact ht
  · rw [setThread_of_ne s ts hu]
    exact h u

/-- Where a thread is in the destructor, when another property of a thread has changed. -/
theorem ending_setThread {t : Tid} {ts : ThreadState} (hend : ts.ending = (s.thread t).ending) (u : Tid) :
    ((setThread s t ts).thread u).ending = (s.thread u).ending := by
  by_cases hu : u = t
  · rw [hu, setThread_self, hend]
  · rw [setThread_of_ne s ts hu]

/-- A step of a thread that outputs nothing: its statements are as many as have begun. -/
theorem Sound.setThread (h : Sound gmtime s) {t : Tid} {ts : ThreadState} {k : Nat} (hts : ts.Sound gmtime t)
    (hend : ts.ending = (s.thread t).ending) (hlen : ts.objects.length = (s.thread t).objects.length + k) :
    Sound gmtime { setThread s t ts with begun := Function.update s.begun t (s.begun t + k) } := by
  have hsame := ending_setThread hend
  refine ⟨forall_setThread h.thread hts, h.records, fun u => ?_, fun r hr hlevel => ?_, h.last, fun u hu => ?_,
    fun u hu => ?_, fun ha => ?_⟩
  · have hcount := h.count u
    change (s.output.filter _).length + ((Logger.setThread s t ts).thread u).objects.length = _
    by_cases hu : u = t
    · subst hu
      rw [setThread_self]
      simp only [Function.update_self]
      omega
    · rw [setThread_of_ne s ts hu]
      simp only [Function.update_of_ne hu]
      exact hcount
  · exact (hsame _).symm ▸ h.ending r hr hlevel
  · exact h.toFlush u ((hsame u).symm.trans hu)
  · exact h.toAbort u ((hsame u).symm.trans hu)
  · obtain ⟨u, hu⟩ := h.aborted ha
    exact ⟨u, (hsame u).trans hu⟩

/-- What the destructor of the innermost statement leaves, but for what `FATAL` does. -/
theorem Sound.output (h : Sound gmtime s) {t : Tid} {left : Nat → Byte} {o : Object} {rest : List Object} {r : Record}
    (ending : Ending) (ho : (s.thread t).objects = o :: rest) (hr : destruct o left = some r) :
    (∀ u, ((Logger.setThread s t { s.thread t with objects := rest, ending }).thread u).Sound gmtime u) ∧
      (∀ r' ∈ s.output ++ [r], r'.Exact gmtime) ∧
      ∀ u, ((s.output ++ [r]).filter fun r => r.object.tid = u).length +
        ((Logger.setThread s t { s.thread t with objects := rest, ending }).thread u).objects.length = s.begun u := by
  obtain ⟨hobj, hleft, hbytes⟩ := destruct_inv hr
  have hall := (h.thread t).objects
  rw [ho] at hall
  have htop := hall o List.mem_cons_self
  refine ⟨forall_setThread h.thread ⟨(h.thread t).cached, fun o' ho' => hall o' (.tail _ ho')⟩, ?_, ?_⟩
  · intro r' hr'
    rcases List.mem_append.mp hr' with hr' | hr'
    · exact h.records r' hr'
    · rw [List.mem_singleton.mp hr']
      exact ⟨hobj ▸ htop.1, by rw [hobj, hleft]; exact hbytes⟩
  · intro u
    have hcount := h.count u
    rw [List.filter_append, List.length_append, List.filter_singleton, hobj, htop.2]
    by_cases hu : u = t
    · subst hu
      rw [ho, List.length_cons] at hcount
      rw [setThread_self, decide_eq_true rfl, cond_true, List.length_singleton]
      change _ + rest.length = _
      omega
    · rw [setThread_of_ne s _ hu, decide_eq_false fun heq => hu heq.symm, cond_false]
      exact hcount

/-- **The destructor.**  The thread had no `FATAL` record out, or it would not be here; so a
`FATAL` one is its last, and what other threads have output stays where it is. -/
theorem Sound.finish (h : Sound gmtime s) {t : Tid} {left : Nat → Byte} {o : Object} {rest : List Object} {r : Record}
    {ending : Ending} (hrun : s.aborted = false) (hno : (s.thread t).ending = .no)
    (ho : (s.thread t).objects = o :: rest) (hr : destruct o left = some r)
    (hending : ending = if o.level = .fatal then .toFlush else .no) :
    Sound gmtime
      { Logger.setThread s t { s.thread t with objects := rest, ending } with output := s.output ++ [r] } := by
  obtain ⟨hthread, hrecords, hcount⟩ := h.output ending ho hr
  have hobj := (destruct_inv hr).1
  have htid : r.object.tid = t := by
    rw [hobj]
    exact ((h.thread t).objects o (by rw [ho]; exact List.mem_cons_self)).2
  have hother (u : Tid) (hu : u ≠ t) :
      ((Logger.setThread s t { s.thread t with objects := rest, ending }).thread u).ending = (s.thread u).ending := by
    rw [setThread_of_ne s _ hu]
  have hself : ((Logger.setThread s t { s.thread t with objects := rest, ending }).thread t).ending = ending := by
    rw [setThread_self]
  have hold (r' : Record) (hr' : r' ∈ s.output) (hlevel : r'.object.level = .fatal) : r'.object.tid ≠ t := by
    intro heq
    exact h.ending r' hr' hlevel (heq ▸ hno)
  refine ⟨hthread, hrecords, hcount, fun r' hr' hlevel => ?_, ?_, fun u hu => ?_, fun u hu => ?_, fun ha => ?_⟩
  · rcases List.mem_append.mp hr' with hr' | hr'
    · rw [hother _ (hold r' hr' hlevel)]
      exact h.ending r' hr' hlevel
    · rw [List.mem_singleton.mp hr'] at hlevel ⊢
      rw [htid, hself, hending, if_pos (hobj ▸ hlevel)]
      decide
  · refine List.pairwise_append.mpr ⟨h.last, List.pairwise_singleton _ _, fun r₁ hr₁ r₂ hr₂ hlevel => ?_⟩
    rw [List.mem_singleton.mp hr₂, htid]
    exact (hold r₁ hr₁ hlevel).symm
  · by_cases hut : u = t
    · subst hut
      rw [hself, hending] at hu
      refine ⟨r, List.mem_append_right _ List.mem_cons_self, ?_⟩
      split at hu
      · rename_i hlevel
        rwa [hobj]
      · cases hu
    · obtain ⟨r', hr', hlevel⟩ := h.toFlush u ((hother u hut).symm.trans hu)
      exact ⟨r', List.mem_append_left _ hr', hlevel⟩
  · have hut : u ≠ t := by
      rintro rfl
      rw [hself, hending] at hu
      split at hu
      all_goals cases hu
    obtain ⟨r', hr', hlevel⟩ := h.toAbort u ((hother u hut).symm.trans hu)
    exact ⟨r', ((List.prefix_append s.output [r]).take s.flushed).mem hr', hlevel⟩
  · rw [show (Logger.setThread s t _).aborted = s.aborted from rfl, hrun] at ha
    cases ha

/-- **The flush.**  All that is out by now is flushed, the thread's own `FATAL` record with it. -/
theorem Sound.flush (h : Sound gmtime s) {t : Tid} (hflush : (s.thread t).ending = .toFlush) :
    Sound gmtime
      { Logger.setThread s t { s.thread t with ending := .toAbort } with flushed := s.output.length } := by
  have hother (u : Tid) (hu : u ≠ t) :
      ((Logger.setThread s t { s.thread t with ending := .toAbort }).thread u).ending = (s.thread u).ending := by
    rw [setThread_of_ne s _ hu]
  have hself : ((Logger.setThread s t { s.thread t with ending := .toAbort }).thread t).ending = .toAbort := by
    rw [setThread_self]
  refine ⟨forall_setThread h.thread ⟨(h.thread t).cached, (h.thread t).objects⟩, h.records, fun u => ?_,
    fun r hr hlevel => ?_, h.last, fun u hu => ?_, fun u hu => ?_, fun ha => ?_⟩
  · have hcount := h.count u
    change _ + ((Logger.setThread s t _).thread u).objects.length = _
    by_cases hu : u = t
    · subst hu
      rw [setThread_self]
      exact hcount
    · rw [setThread_of_ne s _ hu]
      exact hcount
  · by_cases hu : r.object.tid = t
    · rw [hu, hself]
      decide
    · rw [hother _ hu]
      exact h.ending r hr hlevel
  · by_cases hut : u = t
    · rw [hut, hself] at hu
      cases hu
    · exact h.toFlush u ((hother u hut).symm.trans hu)
  · change ∃ r ∈ s.output.take s.output.length, _
    rw [List.take_length]
    by_cases hut : u = t
    · exact h.toFlush t hflush
    · obtain ⟨r, hr, hlevel⟩ := h.toAbort u ((hother u hut).symm.trans hu)
      exact ⟨r, List.mem_of_mem_take hr, hlevel⟩
  · obtain ⟨u, hu⟩ := h.aborted ha
    have hut : u ≠ t := by
      rintro rfl
      rw [hflush] at hu
      cases hu
    exact ⟨u, (hother u hut).trans hu⟩

/-- **Every step keeps the invariant.**  The steps of one thread are those of its innermost
object, and all other threads keep theirs. -/
theorem step_sound {l : Label} (h : Sound gmtime s) (hg : AfterEpoch s l) (hst : step gmtime s l = some s') :
    Sound gmtime s' := by
  obtain ⟨hrun, hat, hstep⟩ := step_inv hst
  cases hstep with
  | setLogLevel =>
    exact ⟨h.thread, h.records, h.count, h.ending, h.last, h.toFlush, h.toAbort, h.aborted⟩
  | filtered => exact h
  | @statement t m file func line now left o hm ho =>
    obtain ⟨htid, htime, hleft, hins, -, -, -, hprinted⟩ := construct_inv ho
    obtain ⟨hcached, htext⟩ := timeToString_spec (h.thread t).cached now
    refine h.setThread (k := 1) ⟨hcached, fun o' ho' => ?_⟩ rfl rfl
    rcases List.mem_cons.mp ho' with rfl | ho'
    · refine ⟨?_, htid⟩
      rw [Object.Printed, Object.steps, hins, List.append_nil, htid, htime, hleft, ← htext hg]
      exact hprinted
    · exact (h.thread t).objects o' ho'
  | @insert t i left o rest stream ho hi =>
    have hall := (h.thread t).objects
    rw [ho] at hall
    have htop := hall o List.mem_cons_self
    have hts : ThreadState.Sound gmtime t
        { s.thread t with objects := { o with stream, inserted := o.inserted ++ [(i, left)] } :: rest } := by
      constructor
      · exact (h.thread t).cached
      · intro o' ho'
        rcases List.mem_cons.mp ho' with rfl | ho'
        · exact ⟨htop.1.insert hi, htop.2⟩
        · exact hall o' (.tail _ ho')
    have hkept := h.setThread (k := 0) hts rfl (by rw [ho]; rfl)
    rw [Nat.add_zero, Function.update_eq_self] at hkept
    exact hkept
  | finish ho hr hending => exact h.finish hrun hat ho hr hending
  | flush => exact h.flush hat
  | @abort t =>
    exact ⟨h.thread, h.records, h.count, h.ending, h.last, h.toFlush, h.toAbort, fun _ => ⟨t, hat⟩⟩

theorem Record.Exact.run_eq {r : Record} (h : r.Exact gmtime) :
    (run (LogStream.empty r.object.left) (r.steps gmtime)).map StreamArray.contents = some r.bytes := by
  rw [Record.steps, run_append, h.printed, Option.bind_some]
  exact h.bytes

theorem Record.Exact.length_le {r : Record} (h : r.Exact gmtime) : r.bytes.length ≤ minBufferSize := by
  obtain ⟨b, -, hb⟩ := Option.map_eq_some_iff.mp h.run_eq
  rw [← hb, StreamArray.contents_length]
  exact b.current_le

/-- **Every record is exact.**  In every run of any number of threads, whatever statements they nest
and however the log level changes meanwhile, all statements after the first second of the epoch:
each record handed to the output function is what its own second, thread, level and function, then
what was inserted, then its file and line print into a stream; it is their whole text, if there is
room for it; and the asynchronous logger can take it.  Of each thread the records that are out and
the statements under way are as many as have passed the test of the level.  After its `FATAL` record
a thread outputs nothing more, though other threads may; and the process is aborted only when a
`FATAL` record is among those that were output before the last flush.

What a record says is carried through the statement's insertions by `Object.Printed`; that the
time in it is right by the text each thread keeps being that of the second it keeps
(`ThreadTime.Cached`). -/
theorem records_exact (gmtime : Int → List Byte) (level : LogLevel) (s : State)
    (h : Reach (step gmtime) AfterEpoch (.init level) s) :
    (∀ r ∈ s.output,
      (run (LogStream.empty r.object.left) (r.steps gmtime)).map StreamArray.contents = some r.bytes ∧
      ((textOf (r.steps gmtime)).length < minBufferSize → r.bytes = textOf (r.steps gmtime)) ∧
      ∀ a : AsyncLogger.State, AsyncLogger.WithinLimits a (.append r.bytes)) ∧
    (∀ t, (s.output.filter fun r => r.object.tid = t).length + (s.thread t).objects.length = s.begun t) ∧
    (s.output.Pairwise fun r r' => r.object.level = .fatal → r'.object.tid ≠ r.object.tid) ∧
    (s.aborted = true → ∃ r ∈ s.output.take s.flushed, r.object.level = .fatal) := by
  have hs : Sound gmtime s := h.invariant (sound_init level) fun _ _ _ hi hg hst => step_sound hi hg hst
  have hfatal (ha : s.aborted = true) : ∃ r ∈ s.output.take s.flushed, r.object.level = .fatal := by
    obtain ⟨t, ht⟩ := hs.aborted ha
    exact hs.toAbort t ht
  refine ⟨fun r hr => ?_, hs.count, hs.last, hfatal⟩
  have hr := hs.records r hr
  refine ⟨hr.run_eq, fun hroom => ?_, fun a => ?_⟩
  · obtain ⟨b, hrun, hcont⟩ := run_room (r.steps gmtime) (LogStream.empty r.object.left) hroom
    have hbytes := hr.run_eq
    rw [hrun, Option.map_some, hcont, LogStream.empty_contents, List.nil_append] at hbytes
    exact (Option.some.inj hbytes).symm
  · have hmax : minBufferSize < AsyncLogger.maxBufferSize := by decide
    exact Nat.lt_of_le_of_lt hr.length_le hmax

/-- A calendar of one second. -/
def noon (_ : Int) : List Byte := ascii "20240615 12:00:00".toList

/-- Thread 7 logs within a statement of its own, thread 8 below the level and then `FATAL`;
before it has flushed, thread 9 logs too. -/
def nested : List Label :=
  let now : Timestamp := 1718452800000000000
  let left : Nat → Byte := fun _ => 0
  [.statement 7 .info (ascii "net/a.cc".toList) [] 5 now left, .insert 7 (.cStr (some (ascii "n = ".toList))) left,
    .statement 8 .debug (ascii "b.cc".toList) (ascii "g".toList) 1 now left,
    .statement 7 .warn (ascii "b.cc".toList) [] 9 now left, .insert 7 (.char 33) left, .finish 7 left,
    .insert 7 (.int (-2)) left, .finish 7 left, .statement 8 .sysfatal (ascii "b.cc".toList) [] 3 now left,
    .statement 9 .warn (ascii "c.cc".toList) [] 2 now left, .finish 8 left, .finish 9 left, .flush 8, .abort 8]

theorem records_exact_nested :
    ∃ s, Reach (step noon) AfterEpoch (.init .info) s ∧
      s.output.map Record.bytes =
        [ascii "20240615 12:00:00     7 WARN  ! -b.cc:9\n".toList,
          ascii "20240615 12:00:00     7 INFO  n = -2 -a.cc:5\n".toList,
          ascii "20240615 12:00:00     8 FATAL  -b.cc:3\n".toList,
          ascii "20240615 12:00:00     9 WARN   -c.cc:2\n".toList] ∧
      s.aborted = true ∧ ∃ r ∈ s.output.take s.flushed, r.object.level = .fatal := by
  have hrun : ∃ s, Reach (step noon) AfterEpoch (.init .info) s ∧
      (s.output.map Record.bytes =
        [ascii "20240615 12:00:00     7 WARN  ! -b.cc:9\n".toList,
          ascii "20240615 12:00:00     7 INFO  n = -2 -a.cc:5\n".toList,
          ascii "20240615 12:00:00     8 FATAL  -b.cc:3\n".toList,
          ascii "20240615 12:00:00     9 WARN   -c.cc:2\n".toList] ∧ s.aborted = true) :=
    Reach.exists_of_exec nested _ (by decide +kernel) (by decide +kernel)
  obtain ⟨s, h, hbytes, ha⟩ := hrun
  exact ⟨s, h, hbytes, ha, (records_exact noon .info s h).2.2.2 ha⟩

/-! ## 7. The lines of the log -/

/-- What is printed behind the message, but for the end of the line. -/
def location (source : List Byte) (line : Int32) : List Byte :=
  ascii [' ', '-'] ++ (source ++ (ascii [':'] ++ intText line.toInt))

theorem textOf_postOutput (left : Nat → Byte) (source : List Byte) (line : Int32) :
    textOf (stepsOf left (postOutput source line)) = location source line ++ [newline] := by
  rw [textOf_stepsOf, location]
  simp [postOutput, Insertion.render]

/-- A record as a line. -/
def Record.line (r : Record) : List Byte := r.object.stream.contents ++ location r.object.source r.object.line

/-- Nobody inserts the end of a line, and every statement leaves room for where it was made. -/
def OneLine (s : State) : Label → Prop
  | .statement _ _ file func _ _ _ => newline ∉ file ∧ newline ∉ func
  | .insert _ i _ => newline ∉ i.render
  | .finish t _ =>
    ∀ o ∈ (s.thread t).objects.head?, (location o.source o.line).length + 1 < o.stream.availability
  | .setLogLevel _ | .flush _ | .abort _ => True

instance (s : State) : ∀ l, Decidable (OneLine s l)
  | .statement _ _ file func _ _ _ => inferInstanceAs (Decidable (newline ∉ file ∧ newline ∉ func))
  | .insert _ i _ => inferInstanceAs (Decidable (newline ∉ i.render))
  | .finish t _ => inferInstanceAs (Decidable (∀ o ∈ (s.thread t).objects.head?, _ < _))
  | .setLogLevel _ | .flush _ | .abort _ => .isTrue trivial

theorem newline_notMem_ascii {cs : List Char} (h : ∀ c ∈ cs, UInt8.ofNat c.toNat ≠ newline) : newline ∉ ascii cs := by
  intro hmem
  obtain ⟨c, hc, heq⟩ := List.mem_map.mp hmem
  exact h c hc heq

theorem digit_ne_newline {n : Nat} : ∀ c ∈ Nat.toDigits 10 n, UInt8.ofNat c.toNat ≠ newline := by
  intro c hc
  obtain ⟨d, hd, rfl⟩ := IpText.mem_toDigits (by decide) (by decide) hc
  have hall : ∀ d < 16, UInt8.ofNat d.digitChar.toNat ≠ newline := by decide
  exact hall d hd

theorem newline_notMem_tidString (t : Tid) : newline ∉ tidString t := by
  refine newline_notMem_ascii fun c hc => ?_
  rcases List.mem_append.mp hc with hc | hc
  · rw [List.eq_of_mem_replicate hc]
    decide
  · exact digit_ne_newline c hc

theorem newline_notMem_intText (val : Int) : newline ∉ intText val := by
  refine newline_notMem_ascii fun c hc => ?_
  split at hc
  · rcases List.mem_cons.mp hc with rfl | hc
    · decide
    · exact digit_ne_newline c hc
  · exact digit_ne_newline c hc

theorem newline_notMem_location {source : List Byte} (h : newline ∉ source) (line : Int32) :
    newline ∉ location source line := by
  have hdash : newline ∉ ascii [' ', '-'] := by decide
  have hcolon : newline ∉ ascii [':'] := by decide
  have hline := newline_notMem_intText line.toInt
  simp [location, hdash, hcolon, hline, h]

theorem newline_notMem_sourceFile {file : List Byte} (h : newline ∉ file) : newline ∉ sourceFile file := by
  intro hmem
  exact h (List.mem_reverse.mp ((List.takeWhile_sublist _).mem (List.mem_reverse.mp hmem)))

/-- No end of a line has been inserted, unless there is no room for one any more.  The second
case is that of a number that filled the buffer; behind it nothing can be inserted, and a record
without room is excluded by the condition on statements. -/
def Plain {n : Nat} (b : StreamArray n) : Prop := newline ∉ b.contents ∨ b.availability = 0

theorem Plain.insert {n : Nat} {b b' : StreamArray n} (h : Plain b) {i : Insertion} {left : Nat → Byte}
    (hi : newline ∉ i.render) (hins : b.insert left i = some b') : Plain b' := by
  have hbefore := size_add_availability b
  have hafter := size_add_availability b'
  rcases insert_cases hins with hcont | hcont | hfull
  · rw [hcont] at hafter
    rcases h with h | h
    · left
      rw [hcont, List.mem_append]
      rintro (hmem | hmem)
      · exact h hmem
      · exact hi hmem
    · right
      rw [List.length_append] at hafter
      omega
  · rw [hcont] at hafter
    rcases h with h | h
    · exact .inl (hcont ▸ h)
    · right
      omega
  · exact .inr hfull

theorem Plain.run {n : Nat} {b b' : StreamArray n} {steps : List Step} (h : Plain b)
    (hs : ∀ p ∈ steps, newline ∉ p.1.render) (hrun : run b steps = some b') : Plain b' := by
  induction steps generalizing b with
  | nil =>
    cases hrun
    exact h
  | cons p steps ih =>
    rw [LogStream.run_cons] at hrun
    obtain ⟨b₁, hins, hrest⟩ := Option.bind_eq_some_iff.mp hrun
    exact ih (h.insert (hs p List.mem_cons_self) hins) (fun q hq => hs q (.tail _ hq)) hrest

theorem newline_notMem_preOutput {time func : List Byte} {t : Tid} {level : LogLevel} (left : Nat → Byte) (b : Bool)
    (htime : newline ∉ time) (hfunc : newline ∉ func) :
    ∀ p ∈ stepsOf left (preOutput time (tidString t) level (if b then some func else none)), newline ∉ p.1.render := by
  have htid := newline_notMem_tidString t
  have hname : newline ∉ levelName level := by cases level <;> decide
  have hblank : newline ∉ ascii [' '] := by decide
  have hchar : newline ∉ ([32] : List Byte) := by decide
  intro p hp
  obtain ⟨i, hi, rfl⟩ := List.mem_map.mp hp
  rcases List.mem_append.mp hi with hi | hi
  · simp only [List.mem_cons, List.not_mem_nil, or_false] at hi
    rcases hi with rfl | rfl | rfl | rfl | rfl <;> assumption
  · cases b with
    | true =>
      simp only [if_true, List.mem_cons, List.not_mem_nil, or_false] at hi
      rcases hi with rfl | rfl <;> assumption
    | false => cases hi

/-- What is true of a thread whose statements are lines. -/
structure ThreadState.Lined (ts : ThreadState) : Prop where
  time : newline ∉ ts.time.threadTime
  objects : ∀ o ∈ ts.objects, newline ∉ o.source ∧ Plain o.stream

/-- **Every record is a line**: its text has no end of a line in it, and the one at its end is
the destructor's. -/
structure Lined (s : State) : Prop where
  thread : ∀ t, (s.thread t).Lined
  records : ∀ r ∈ s.output, newline ∉ r.line ∧ r.bytes = r.line ++ [newline]

theorem lined_init (level : LogLevel) : Lined (.init level) := by
  constructor
  · intro t
    constructor
    · exact List.not_mem_nil
    · rintro o ⟨⟩
  · rintro r ⟨⟩

/-- A destructor that has room ends the line.  It inserts the file, the line number and the new
line, and the room is counted for all three. -/
theorem Lined.output (h : Lined s) {t : Tid} {left : Nat → Byte} {o : Object} {rest : List Object} {r : Record}
    {ending : Ending} (ho : (s.thread t).objects = o :: rest)
    (hroom : (location o.source o.line).length + 1 < o.stream.availability)
    (hr : destruct o left = some r) :
    (∀ u, ((Logger.setThread s t { s.thread t with objects := rest, ending }).thread u).Lined) ∧
      ∀ r' ∈ s.output ++ [r], newline ∉ r'.line ∧ r'.bytes = r'.line ++ [newline] := by
  obtain ⟨hobj, -, hbytes⟩ := destruct_inv hr
  have hall := (h.thread t).objects
  rw [ho] at hall
  obtain ⟨hsource, hplain⟩ := hall o List.mem_cons_self
  refine ⟨forall_setThread (P := fun _ ts => ts.Lined) h.thread
    ⟨(h.thread t).time, fun o' ho' => hall o' (.tail _ ho')⟩, fun r' hr' => ?_⟩
  rcases List.mem_append.mp hr' with hr' | hr'
  · exact h.records r' hr'
  · rw [List.mem_singleton.mp hr']
    have hnone : newline ∉ o.stream.contents := by
      rcases hplain with hplain | hfull
      · exact hplain
      · omega
    constructor
    · rw [Record.line, hobj, List.mem_append]
      rintro (hmem | hmem)
      · exact hnone hmem
      · exact newline_notMem_location hsource o.line hmem
    · have htext := textOf_postOutput left o.source o.line
      obtain ⟨b, hrun, hcont⟩ := run_room (stepsOf left (postOutput o.source o.line)) o.stream (by
        rw [htext, List.length_append, List.length_singleton]
        exact hroom)
      rw [hrun, Option.map_some, hcont, htext, ← List.append_assoc] at hbytes
      rw [Record.line, hobj]
      exact (Option.some.inj hbytes).symm

theorem step_lined (hgm : ∀ sec, newline ∉ gmtime sec) {l : Label} (h : Lined s) (hg : OneLine s l)
    (hst : step gmtime s l = some s') : Lined s' := by
  cases (step_inv hst).2.2 with
  | setLogLevel | abort => exact ⟨h.thread, h.records⟩
  | filtered => exact h
  | @statement t m file func line now left o hm ho =>
    obtain ⟨-, -, -, -, hsource, hfunc, -, hrun⟩ := construct_inv ho
    have htime : newline ∉ (timeToString gmtime now (s.thread t).time).threadTime := by
      unfold timeToString
      split
      · exact hgm _
      · exact (h.thread t).time
    have hplain : Plain o.stream := by
      rw [hfunc] at hrun
      refine Plain.run (.inl ?_) (newline_notMem_preOutput left m.namesFunc htime hg.2) hrun
      rw [LogStream.empty_contents]
      exact List.not_mem_nil
    refine ⟨forall_setThread (P := fun _ ts => ts.Lined) h.thread ⟨htime, fun o' ho' => ?_⟩, h.records⟩
    rcases List.mem_cons.mp ho' with rfl | ho'
    · rw [hsource]
      exact ⟨newline_notMem_sourceFile hg.1, hplain⟩
    · exact (h.thread t).objects o' ho'
  | @insert t i left o rest stream ho hi =>
    have hall := (h.thread t).objects
    rw [ho] at hall
    refine ⟨forall_setThread (P := fun _ ts => ts.Lined) h.thread ⟨(h.thread t).time, fun o' ho' => ?_⟩, h.records⟩
    rcases List.mem_cons.mp ho' with rfl | ho'
    · obtain ⟨hsource, hplain⟩ := hall o List.mem_cons_self
      exact ⟨hsource, hplain.insert hg hi⟩
    · exact hall o' (.tail _ ho')
  | @finish t left o rest r ending ho hr hending =>
    obtain ⟨hthread, hrecords⟩ := h.output ho (hg o (by rw [ho]; rfl)) hr
    exact ⟨hthread, hrecords⟩
  | @flush t =>
    exact ⟨forall_setThread (P := fun _ ts => ts.Lined) h.thread ⟨(h.thread t).time, (h.thread t).objects⟩, h.records⟩

/-- Lines with their ends, one after the other. -/
def linesText (lines : List (List Byte)) : List Byte := lines.flatMap fun l => l ++ [newline]

theorem linesText_cons (l : List Byte) (lines : List (List Byte)) :
    linesText (l :: lines) = l ++ newline :: linesText lines := by
  rw [linesText, List.flatMap_cons, List.append_assoc]
  rfl

/-- Lines are cut apart at their ends: cutting puts an empty piece behind the last one, and that
is all it adds. -/
theorem splitOn_lines (lines : List (List Byte)) (h : ∀ l ∈ lines, newline ∉ l) :
    (linesText lines).splitOn newline = lines ++ [[]] := by
  induction lines with
  | nil => rfl
  | cons l lines ih =>
    have hl : newline ∉ l := h l List.mem_cons_self
    have hrest : ∀ k ∈ lines, newline ∉ k := fun k hk => h k (.tail _ hk)
    rw [linesText_cons, List.splitOn_append_cons_self_of_not_mem hl, ih hrest, List.cons_append]

/-- The records are lines with their ends, so the output is their concatenation. -/
theorem Lined.output_eq (h : Lined s) : s.output.flatMap Record.bytes = linesText (s.output.map Record.line) := by
  rw [linesText, List.flatMap_map]
  exact List.flatMap_congr fun r hr => (h.records r hr).2

theorem Lined.newline_notMem (h : Lined s) : ∀ l ∈ s.output.map Record.line, newline ∉ l := by
  intro l hl
  obtain ⟨r, hr, rfl⟩ := List.mem_map.mp hl
  exact (h.records r hr).1

/-- **The log can be cut into its records.**  In every run in which nobody inserts the end of a line
and each statement leaves room for where it was made, what has been handed to the output function,
cut at the ends of lines, is the messages in the order of their destructors, each with its file and
line.  (`float` and `double` are not among the insertions.)

The prefix has no end of a line in it, whatever the thread and the time
(`newline_notMem_preOutput`), and an insertion that does not fit cannot bring one in
(`Plain.insert`); so the only one in a record is the one the destructor prints. -/
theorem log_lines (gmtime : Int → List Byte) (hgm : ∀ sec, newline ∉ gmtime sec) (level : LogLevel) (s : State)
    (h : Reach (step gmtime) OneLine (.init level) s) :
    (s.output.flatMap Record.bytes).splitOn newline = s.output.map Record.line ++ [[]] := by
  have hl : Lined s := h.invariant (lined_init level) fun _ _ _ hi hg hst => step_lined hgm hi hg hst
  rw [hl.output_eq]
  exact splitOn_lines _ hl.newline_notMem

theorem log_lines_nested :
    ∃ s, Reach (step noon) OneLine (.init .info) s ∧ s.output.length = 4 ∧
      (s.output.flatMap Record.bytes).splitOn newline = s.output.map Record.line ++ [[]] := by
  have hrun : ∃ s, Reach (step noon) OneLine (.init .info) s ∧ s.output.length = 4 :=
    Reach.exists_of_exec nested _ (by decide +kernel) (by decide +kernel)
  obtain ⟨s, h, hlen⟩ := hrun
  have hnoon : ∀ sec, newline ∉ noon sec := by
    intro sec
    unfold noon
    decide +kernel
  exact ⟨s, h, hlen, log_lines noon hnoon .info s h⟩

end Logger

end Suduo
