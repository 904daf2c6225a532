/-
# `Acceptor`, and which failures end the process

`net/Acceptor.cpp` over `sockets::accept` and `sockets::shutdown_write`.  A failed system call is
reported by a log record, and what becomes of it is decided by the macro: `LOG_SYSERR` makes a
record of level `ERROR`, `LOG_SYSFATAL` one of level `FATAL`, and `~Logger` aborts on that.

`Acceptor::handle_read` is written to live with a failed `accept`: it sheds a connection with the
descriptor it keeps in reserve when there are none left.  But `sockets::accept` reports every failure
with `LOG_SYSFATAL`, the ones a peer causes among them, so that branch is never reached
(`handleRead_keeps`), and `sockets::shutdown_write` does the same with `ENOTCONN`.  Failed reads and
writes are reported with `LOG_SYSERR` and cost their own connection at most.

So the process lives exactly as long as no `accept` and no `shutdown` fails (`never_aborts`,
`step_aborts_iff`).
-/
import Suduo.Base.Logger
import Suduo.Net.TcpMoves

namespace Suduo

open Lib

/-! ## 1. System calls -/

namespace Acceptor

inductive Errno
  /-- And `EWOULDBLOCK`. -/
  | eagain
  | econnaborted
  | eintr
  | emfile
  | enfile
  | enotconn
  | econnreset
  | epipe
  | other
  deriving DecidableEq, Repr

/-- `sockets::accept`, given what `accept4` answers. -/
def accept (answer : Except Errno Nat) : Option (Except Errno Nat) :=
  match answer with
  | .ok connfd => some (.ok connfd)
  | .error errno => do
    Logger.record Logger.logSysfatal
    return .error errno

/-- `sockets::shutdown_write`. -/
def shutdownWrite (answer : Except Errno Unit) : Option Unit :=
  match answer with
  | .ok () => some ()
  | .error _ => Logger.record Logger.logSysfatal

end Acceptor

/-! ## 2. `Acceptor` -/

/-- `suduo::net::Acceptor`. -/
structure Acceptor where
  listening : Bool
  /-- `_idle_fd`; `none` is a negative number. -/
  idleFd : Option Nat
  /-- `_callback` is set. -/
  hasCallback : Bool
  deriving DecidableEq, Repr

namespace Acceptor

/-- `Acceptor::listen`. -/
def listen (a : Acceptor) : Acceptor := { a with listening := true }

/-- `Acceptor::handle_read`, with the new connection if the callback gets one; `reopened` is what
`open("/dev/null")` answers at the end of the shedding. -/
def handleRead (a : Acceptor) (answer : Except Errno Nat) (reopened : Option Nat) :
    Option (Acceptor × Option Nat) := do
  match ← accept answer with
  | .ok connfd => return (a, if a.hasCallback then some connfd else none)
  | .error errno =>
    Logger.record Logger.logSyserr
    if errno = .emfile ∨ errno = .enfile then
      -- `close(_idle_fd)`, `accept` and `close` once more, `open`
      return ({ a with idleFd := reopened }, none)
    else return (a, none)

/-! ## 3. The process -/

/-- An acceptor and the connections it has made. -/
structure Process where
  acceptor : Acceptor
  conns : List TcpConnection.State
  aborted : Bool
  /-- Runs of `handle_read` that have returned. -/
  handled : Nat

def Process.init (idleFd : Nat) (hasCallback : Bool) : Process :=
  ⟨⟨false, some idleFd, hasCallback⟩, [], false, 0⟩

/-- The failed reads and writes among the answers an act or an event carries, whether or not it
comes to the call. -/
def actFailures : TcpConnection.State.Act → Nat
  | .send _ (.failed _) => 1
  | _ => 0

def ioFailures : TcpConnection.Label → Nat
  | .event e =>
    ((e.closeActs ++ e.readActs).map actFailures).sum + (if e.readv.isOk then 0 else 1) +
      match e.write with
      | .failed _ => 1
      | .wrote _ => 0
  | .runFunctor acts write =>
    (acts.map actFailures).sum +
      match write with
      | .failed _ => 1
      | .wrote _ => 0
  | .act a => actFailures a
  | .serverDestroys acts => (acts.map actFailures).sum
  | .delayFires | .removeConnectionInLoop | .serverQueuesDestroy => 0

/-- What the failed calls of a connection's step report: at most a `LOG_SYSERR` for each read or
write, and what `sockets::shutdown_write` makes of each `shutdown`.  `none` is the end of the
process. -/
def reports (l : TcpConnection.Label) (shutdowns : List (Except Errno Unit)) : Option Unit := do
  (List.replicate (ioFailures l) Logger.logSyserr).forM Logger.record
  shutdowns.forM shutdownWrite

inductive Label
  | listen
  /-- The listening socket is readable; the rest is for the connection made. -/
  | handleRead (answer : Except Errno Nat) (reopened : Option Nat) (loopThread : TcpConnection.Tid)
    (highWaterMark : Nat) (hasWriteComplete hasHighWaterMark : Bool)
  /-- Connection `i` takes a step, with the answers to its calls of `shutdown`. -/
  | connection (i : Nat) (l : TcpConnection.Label) (shutdowns : List (Except Errno Unit))

def Process.step (p : Process) (l : Label) : Option Process :=
  if p.aborted then none
  else
    match l with
    | .listen => some { p with acceptor := p.acceptor.listen }
    | .handleRead answer reopened loopThread mark wc hw =>
      if p.acceptor.listening then
        match p.acceptor.handleRead answer reopened with
        | none => some { p with aborted := true }
        | some (acceptor, connfd) =>
          let made := connfd.toList.map fun _ => .init loopThread false mark wc hw
          some { p with acceptor := acceptor, conns := p.conns ++ made, handled := p.handled + 1 }
      else none
    | .connection i l shutdowns => do
      let c ← p.conns[i]?
      let c' ← c.step l
      -- one answer for each `shutdown_write` of the step
      if c.halfCloses.length + shutdowns.length = c'.halfCloses.length then
        match reports l shutdowns with
        | none => some { p with aborted := true }
        | some () => some { p with conns := p.conns.set i c' }
      else none

/-! ## 4. What a failure does -/

/-- Neither `accept` nor `shutdown` fails. -/
def CallsSucceed (_ : Process) : Label → Prop
  | .listen => True
  | .handleRead answer _ _ _ _ _ => answer.isOk = true
  | .connection _ _ shutdowns => ∀ answer ∈ shutdowns, answer.isOk = true

instance (p : Process) : ∀ l, Decidable (CallsSucceed p l)
  | .listen => .isTrue trivial
  | .handleRead answer _ _ _ _ _ => inferInstanceAs (Decidable (answer.isOk = true))
  | .connection _ _ shutdowns =>
    inferInstanceAs (Decidable (∀ answer ∈ shutdowns, answer.isOk = true))

/-- The process is alive, the reserve descriptor is there, and the acceptor that has handled a
read is still listening. -/
structure Process.Alive (p : Process) : Prop where
  running : p.aborted = false
  reserve : p.acceptor.idleFd.isSome = true
  listening : 0 < p.handled → p.acceptor.listening = true

theorem record_logSysfatal : Logger.record Logger.logSysfatal = none := rfl

/-- **The shedding is never reached**: where `handle_read` returns at all, it has left the
acceptor as it was.  A failed `accept` does not return to it, because the record of
`LOG_SYSFATAL` aborts. -/
theorem handleRead_keeps {a a' : Acceptor} {answer : Except Errno Nat} {reopened connfd : Option Nat}
    (h : a.handleRead answer reopened = some (a', connfd)) : a' = a ∧ answer.isOk = true := by
  cases answer with
  | ok fd =>
    cases h
    exact ⟨rfl, rfl⟩
  | error errno => cases h

theorem handleRead_eq_none_iff {a : Acceptor} {answer : Except Errno Nat} {reopened : Option Nat} :
    a.handleRead answer reopened = none ↔ answer.isOk = false := by
  cases answer with
  | ok fd => simp [handleRead, accept, Except.isOk, Except.toBool]
  | error errno => simp [handleRead, accept, record_logSysfatal, Except.isOk, Except.toBool]

/-- Failed reads and writes are survived; a failed `shutdown` is not. -/
theorem reports_eq_none_iff (l : TcpConnection.Label) (shutdowns : List (Except Errno Unit)) :
    reports l shutdowns = none ↔ ¬ ∀ answer ∈ shutdowns, answer.isOk = true := by
  have hio : ∀ n : Nat, (List.replicate n Logger.logSyserr).forM Logger.record = some () := by
    intro n
    induction n with
    | zero => rfl
    | succ n ih => exact ih
  have hshut : ∀ answers : List (Except Errno Unit), answers.forM shutdownWrite = none ↔
      ¬ ∀ answer ∈ answers, answer.isOk = true := by
    intro answers
    induction answers with
    | nil => simp
    | cons answer answers ih =>
      cases answer with
      | ok u =>
        have hok : (Except.ok u : Except Errno Unit).isOk = true := rfl
        rw [List.forall_mem_cons, and_iff_right hok]
        exact ih
      | error errno =>
        rw [List.forall_mem_cons]
        exact iff_of_true rfl fun hall => by cases hall.1
  rw [reports, hio]
  exact hshut shutdowns

/-- **Inversion of a step.**  A step of the listening socket, or one of a connection with the
answers to its `shutdown_write`s. -/
theorem step_cases {p p' : Process} {l : Label} (h : p.step l = some p') :
    p.aborted = false ∧
      (¬ CallsSucceed p l ∧ p' = { p with aborted := true } ∨
        CallsSucceed p l ∧ ∃ conns handled, p' = { p with
          acceptor := p'.acceptor, conns := conns, handled := handled } ∧
          p'.acceptor.idleFd = p.acceptor.idleFd ∧
          (p.acceptor.listening = true → p'.acceptor.listening = true) ∧
          (handled ≠ p.handled → p'.acceptor.listening = true)) := by
  simp only [Process.step] at h
  split at h
  · cases h
  · rename_i hrun
    rw [Bool.not_eq_true] at hrun
    refine ⟨hrun, ?_⟩
    cases l with
    | listen =>
      cases h
      exact .inr ⟨trivial, p.conns, p.handled, rfl, rfl, fun _ => rfl, fun _ => rfl⟩
    | handleRead answer reopened loopThread mark wc hw =>
      simp only at h
      split at h
      · rename_i hlisten
        split at h
        · rename_i hnone
          cases h
          left
          refine ⟨?_, rfl⟩
          rw [CallsSucceed, handleRead_eq_none_iff.mp hnone]
          simp
        · rename_i acceptor connfd hread
          cases h
          obtain ⟨rfl, hok⟩ := handleRead_keeps hread
          exact .inr ⟨hok, _, _, rfl, rfl, id, fun _ => hlisten⟩
      · cases h
    | connection i l shutdowns =>
      simp only [Option.bind_eq_bind, Option.bind_eq_some_iff] at h
      obtain ⟨c, -, c', -, h⟩ := h
      split at h
      · split at h
        · rename_i hnone
          cases h
          exact .inl ⟨(reports_eq_none_iff l shutdowns).mp hnone, rfl⟩
        · rename_i hsome
          cases h
          refine .inr ⟨?_, _, _, rfl, rfl, id, fun hne => absurd rfl hne⟩
          rw [CallsSucceed]
          by_contra hfail
          rw [(reports_eq_none_iff l shutdowns).mpr hfail] at hsome
          cases hsome
      · cases h

/-- **A step ends the process exactly if an `accept` or a `shutdown` fails in it.**  Which calls
a step makes is in its label, with what they answer. -/
theorem step_aborts_iff {p p' : Process} {l : Label} (h : p.step l = some p') :
    p'.aborted = true ↔ ¬ CallsSucceed p l := by
  obtain ⟨hrun, ⟨hfail, rfl⟩ | ⟨hok, conns, handled, heq, -⟩⟩ := step_cases h
  · exact iff_of_true rfl hfail
  · rw [heq]
    exact iff_of_false (by simp [hrun]) (not_not.mpr hok)

theorem alive_init (idleFd : Nat) (hasCallback : Bool) : (Process.init idleFd hasCallback).Alive :=
  ⟨rfl, rfl, fun h => absurd h (Nat.lt_irrefl 0)⟩

theorem step_alive {p p' : Process} {l : Label} (ha : p.Alive) (hg : CallsSucceed p l)
    (h : p.step l = some p') : p'.Alive := by
  obtain ⟨hrun, ⟨hfail, -⟩ | ⟨-, conns, handled, heq, hidle, hkeep, hnew⟩⟩ := step_cases h
  · exact absurd hg hfail
  · refine ⟨by rw [heq]; exact hrun, hidle ▸ ha.reserve, ?_⟩
    intro hpos
    have hhandled : p'.handled = handled := by rw [heq]
    by_cases hsame : handled = p.handled
    · rw [hhandled, hsame] at hpos
      exact hkeep (ha.listening hpos)
    · exact hnew hsame

/-- A step of a connection is a step of the process, with an answer for each `shutdown_write`.
So no behaviour of the connection is left out of the process. -/
theorem connection_step {p : Process} {i : Nat} {l : TcpConnection.Label} {c c' : TcpConnection.State}
    (hrun : p.aborted = false) (hc : p.conns[i]? = some c) (hst : c.step l = some c') :
    ∃ shutdowns, CallsSucceed p (.connection i l shutdowns) ∧
      p.step (.connection i l shutdowns) = some { p with conns := p.conns.set i c' } := by
  have hlen := (TcpConnection.step_halfCloses_prefix hst).length_le
  have hok : ∀ answer ∈ List.replicate (c'.halfCloses.length - c.halfCloses.length)
      (Except.ok () : Except Errno Unit), answer.isOk = true := by
    intro answer hmem
    rw [List.eq_of_mem_replicate hmem]
    rfl
  refine ⟨_, hok, ?_⟩
  have hreports := not_iff_not.mpr (reports_eq_none_iff l _) |>.mpr (not_not.mpr hok)
  obtain ⟨u, hu⟩ := Option.ne_none_iff_exists'.mp hreports
  simp only [Process.step, hrun, Bool.false_eq_true, if_false, hc, hst, Option.bind_eq_bind,
    Option.bind_some, List.length_replicate, hu]
  rw [if_pos (by omega)]

/-! ## 5. Failures of peers -/

/-- **No failed read or write ends the process, if no `accept` and no `shutdown` fails.**  In
every run of an acceptor and its connections in which reads and writes fail as they like, and
neither `accept` nor `shutdown` does: nothing is aborted, the reserve descriptor is held, and
after every `handle_read` the acceptor is still listening.  By `step_aborts_iff` the condition is
exact at every step. -/
theorem never_aborts (idleFd : Nat) (hasCallback : Bool) (p : Process)
    (h : Reach Process.step CallsSucceed (.init idleFd hasCallback) p) : p.Alive :=
  h.invariant (alive_init idleFd hasCallback) fun _ _ _ ha hg hst => step_alive ha hg hst

/-- A connection is accepted, fails to write and to read, and shuts down. -/
def failingPeer : List Label :=
  [.listen, .handleRead (.ok 7) none 0 64 false false,
    .connection 0 (.runFunctor [] (.wrote 0)) [],
    .connection 0 (.act (.send [1, 2] (.failed .ewouldblock))) [],
    .connection 0 (.event ⟨Events.pollOut, [], .ok [], [], .failed .econnreset⟩) [],
    .connection 0 (.event ⟨Events.pollIn, [], .error 104, [], .wrote 0⟩) [],
    .connection 0 (.event ⟨Events.pollOut, [], .ok [], [], .wrote 2⟩) [],
    .connection 0 (.act .shutdown) [.ok ()]]

theorem never_aborts_failingPeer : ∃ p, Reach Process.step CallsSucceed (.init 3 true) p ∧
    p.handled = 1 ∧ p.conns.length = 1 ∧ p.Alive := by
  have hrun : ∃ p, Reach Process.step CallsSucceed (.init 3 true) p ∧
      (p.handled = 1 ∧ p.conns.length = 1) :=
    Reach.exists_of_exec failingPeer _ (by decide +kernel) (by decide +kernel)
  obtain ⟨p, h, hh, hc⟩ := hrun
  exact ⟨p, h, hh, hc, never_aborts 3 true p h⟩

/-- **Running out of descriptors ends the process**, at the `accept` that was to be shed; and so does
a peer that is gone when its connection is shut down. -/
theorem failed_accept_aborts :
    (∃ p, Reach Process.step anyStep (.init 3 true) p ∧ (p.handled = 0 ∧ p.aborted = true)) ∧
    ∃ p, Reach Process.step anyStep (.init 3 true) p ∧
      (p.conns.length = 1 ∧ p.aborted = true) :=
  ⟨Reach.exists_of_exec [.listen, .handleRead (.error .emfile) (some 3) 0 64 false false] _
      (meets_any _ _) (by decide +kernel),
    Reach.exists_of_exec [.listen, .handleRead (.ok 7) none 0 64 false false,
      .connection 0 (.runFunctor [.shutdown] (.wrote 0)) [.error .enotconn]] _
      (meets_any _ _) (by decide +kernel)⟩

end Acceptor

end Suduo
