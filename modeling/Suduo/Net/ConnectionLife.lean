/-
# The life of one connection

Seen from one connection, a `TcpServer` with all its loops is a small machine: the connection's own
state, whether the table has it, the tasks of its own in the three lists of its loop, the removals on
their way to the server's loop, whether its loop is inside its `handle_close`, and who holds a pointer.
`Life.step` says what can happen to it, and nothing else can.

`State.life` projects the whole system onto one connection.  That every step of the system is, for
each connection, one step of this machine is `Suduo.Net.TcpServerLife`; here are the machine and what
each function of the system does to the projection.
-/
import Suduo.Net.TcpServer

namespace Suduo.TcpServer

open Lib
open TcpConnection (ConnState)

/-! ## 1. The machine -/

structure Life where
  conn : Conn
  /-- The table has the connection under its name. -/
  stored : Bool
  pending : List Task
  running : List Task
  done : List Task
  /-- `remove_connection_in_loop` calls still to run in the server's loop. -/
  removals : Nat
  closing : Bool
  /-- The user threads with a pointer to it. -/
  held : List Nat

namespace Life

def log (v : Life) (e : LoopStep) : Life := { v with conn := v.conn.log e }

def setState (v : Life) (state : ConnState) : Life := { v with conn := v.conn.setState state }

def push (v : Life) (task : Task) : Life := { v with pending := v.pending ++ [task] }

def userCode (v : Life) (t : Nat) (o : Outcome) : Life :=
  if o.keep then { v with held := v.held ++ [t] } else v

def setClosing (v : Life) (closing : Bool) : Life := { v with closing := closing }

def handleClose (v : Life) (o : Outcome) : Life :=
  (((v.log (.handleClose v.conn.loop)).setState .disconnected).userCode v.conn.loop o).setClosing true

def wrote (v : Life) (o : Outcome) : Life := if o.callback then v.push .userCallback else v

def runTask (v : Life) (o : Outcome) : Task → Life
  | .connectEstablished => (v.setState .connected).userCode v.conn.loop o
  | .connectDestroyed =>
    if v.conn.state = .connected then (v.setState .disconnected).userCode v.conn.loop o else v
  | .sendInLoop => if v.conn.state = .disconnected then v else v.wrote o
  | .shutdownInLoop | .startReadInLoop | .stopReadInLoop => v
  | .forceCloseInLoop =>
    if v.conn.state = .connected ∨ v.conn.state = .disconnecting then v.handleClose o else v
  | .userCallback => v.userCode v.conn.loop o

/-- A task of the connection is called in its loop. -/
def call (v : Life) (o : Outcome) (task : Task) : Life :=
  (v.log (.ran v.conn.loop task)).runTask o task

def unstore (v : Life) : Life := { v with stored := false }

/-- `remove_connection_in_loop`. -/
def erase (v : Life) : Life :=
  (v.unstore.log (.erased (if v.stored then 1 else 0))).push .connectDestroyed

/-- The next task of the batch leaves it. -/
def pop (v : Life) (task : Task) (rest : List Task) : Life :=
  { v with running := rest, done := v.done ++ [task] }

end Life

/-- A connection just made, before `connect_established` is handed to its loop. -/
def Life.newborn (loop : Nat) (name : List Char) : Life where
  conn := ⟨loop, name, .connecting, []⟩
  stored := true
  pending := []
  running := []
  done := []
  removals := 0
  closing := false
  held := []

/-- `run_in_loop(connect_established)` in the server's loop. -/
def Life.start (v : Life) (o : Outcome) : Life :=
  if v.conn.loop = 0 then v.call o .connectEstablished else v.push .connectEstablished

/-- What can happen to a connection. -/
inductive Move
  /-- Nothing: the step is about something else. -/
  | rest
  | takeFunctors
  | dropFunctors
  | runFunctor (o : Outcome)
  /-- The next task is bound to `this`, and the connection is gone. -/
  | dangle
  | handleEvent (o : Outcome)
  | handleClose (o : Outcome)
  /-- The close callback, in another loop than the server's and in the server's. -/
  | removeConnection
  | removeAtOnce
  | removeConnectionInLoop
  /-- The removal is run on a server that is gone: from the queue, or at once. -/
  | removeDangles
  | closeDangles
  | setDisconnecting
  | queueTask (op : Op)
  | callTask (op : Op) (o : Outcome)
  | hold (t : Nat)
  | release (t : Nat)
  /-- `~TcpServer` gets to its entry. -/
  | orphan (o : Outcome)

def Life.step (v : Life) : Move → Option Life
  | .rest => some v
  | .takeFunctors =>
    if v.running = [] ∧ v.done = [] then some { v with pending := [], running := v.pending } else none
  | .dropFunctors => if v.running = [] then some { v with done := [] } else none
  | .runFunctor o =>
    match v.running with
    | [] => none
    | task :: rest => if v.closing then none else some ((v.pop task rest).call o task)
  | .dangle =>
    match v.running with
    | [] => none
    | task :: rest => if task.shared then none else some (v.pop task rest)
  | .handleEvent o =>
    if v.conn.state ≠ .connecting then
      some (((v.log (.event v.conn.loop)).wrote o).userCode v.conn.loop o)
    else none
  | .handleClose o =>
    if v.conn.state ≠ .connecting ∧ v.closing = false then some (v.handleClose o) else none
  | .removeConnection =>
    if v.closing then some { v with closing := false, removals := v.removals + 1 } else none
  | .removeAtOnce => if v.closing then some (v.setClosing false).erase else none
  | .removeConnectionInLoop =>
    if 0 < v.removals then some { v with removals := v.removals - 1 }.erase else none
  | .removeDangles =>
    if 0 < v.removals then some { v with removals := v.removals - 1 } else none
  | .closeDangles => if v.closing then some (v.setClosing false) else none
  | .setDisconnecting => if v.held = [] then none else some (v.setState .disconnecting)
  | .queueTask op => if v.held = [] then none else some (v.push op.task)
  | .callTask op o => if v.held = [] ∨ op = .forceClose then none else some (v.call o op.task)
  | .hold t => if v.held = [] then none else some { v with held := v.held ++ [t] }
  | .release t => if t ∈ v.held then some { v with held := v.held.erase t } else none
  | .orphan o =>
    if v.stored then
      if v.conn.loop = 0 then some (v.unstore.call o .connectDestroyed)
      else some (v.unstore.push .connectDestroyed)
    else none

/-- The moves that can be made, each with what it found. -/
inductive Moved (v : Life) : Move → Life → Prop
  | rest : Moved v .rest v
  | takeFunctors (hrun : v.running = []) (hdone : v.done = []) :
      Moved v .takeFunctors { v with pending := [], running := v.pending }
  | dropFunctors (hrun : v.running = []) : Moved v .dropFunctors { v with done := [] }
  | runFunctor {o : Outcome} {task : Task} {rest : List Task} (hclosing : v.closing = false)
      (hrun : v.running = task :: rest) : Moved v (.runFunctor o) ((v.pop task rest).call o task)
  | dangle {task : Task} {rest : List Task} (hraw : task.shared = false)
      (hrun : v.running = task :: rest) : Moved v .dangle (v.pop task rest)
  | handleEvent {o : Outcome} (hstate : v.conn.state ≠ .connecting) :
      Moved v (.handleEvent o) (((v.log (.event v.conn.loop)).wrote o).userCode v.conn.loop o)
  | handleClose {o : Outcome} (hstate : v.conn.state ≠ .connecting) (hclosing : v.closing = false) :
      Moved v (.handleClose o) (v.handleClose o)
  | removeConnection (hclosing : v.closing = true) :
      Moved v .removeConnection { v with closing := false, removals := v.removals + 1 }
  | removeAtOnce (hclosing : v.closing = true) : Moved v .removeAtOnce (v.setClosing false).erase
  | removeConnectionInLoop (hremovals : 0 < v.removals) :
      Moved v .removeConnectionInLoop { v with removals := v.removals - 1 }.erase
  | removeDangles (hremovals : 0 < v.removals) :
      Moved v .removeDangles { v with removals := v.removals - 1 }
  | closeDangles (hclosing : v.closing = true) : Moved v .closeDangles (v.setClosing false)
  | setDisconnecting (hheld : v.held ≠ []) : Moved v .setDisconnecting (v.setState .disconnecting)
  | queueTask {op : Op} (hheld : v.held ≠ []) : Moved v (.queueTask op) (v.push op.task)
  | callTask {op : Op} {o : Outcome} (hheld : v.held ≠ []) (hop : op ≠ .forceClose) :
      Moved v (.callTask op o) (v.call o op.task)
  | hold {t : Nat} (hheld : v.held ≠ []) : Moved v (.hold t) { v with held := v.held ++ [t] }
  | release {t : Nat} (hheld : t ∈ v.held) : Moved v (.release t) { v with held := v.held.erase t }
  | orphanHere {o : Outcome} (hloop : v.conn.loop = 0) :
      Moved v (.orphan o) (v.unstore.call o .connectDestroyed)
  | orphanAway {o : Outcome} (hloop : v.conn.loop ≠ 0) :
      Moved v (.orphan o) (v.unstore.push .connectDestroyed)

theorem moved_of_step {v v' : Life} {m : Move} (hst : v.step m = some v') : Moved v m v' := by
  cases m with
  | rest =>
    cases hst
    exact .rest
  | takeFunctors =>
    simp only [Life.step, Option.ite_none_right_eq_some, Option.some.injEq] at hst
    obtain ⟨⟨hrun, hdone⟩, rfl⟩ := hst
    exact .takeFunctors hrun hdone
  | dropFunctors =>
    simp only [Life.step, Option.ite_none_right_eq_some, Option.some.injEq] at hst
    obtain ⟨hrun, rfl⟩ := hst
    exact .dropFunctors hrun
  | runFunctor o =>
    simp only [Life.step] at hst
    split at hst
    · cases hst
    · rename_i task rest hrun
      simp only [Option.ite_none_left_eq_some, Bool.not_eq_true, Option.some.injEq] at hst
      obtain ⟨hclosing, rfl⟩ := hst
      exact .runFunctor hclosing hrun
  | dangle =>
    simp only [Life.step] at hst
    split at hst
    · cases hst
    · rename_i task rest hrun
      simp only [Option.ite_none_left_eq_some, Bool.not_eq_true, Option.some.injEq] at hst
      obtain ⟨hraw, rfl⟩ := hst
      exact .dangle hraw hrun
  | handleEvent o =>
    simp only [Life.step, Option.ite_none_right_eq_some, Option.some.injEq] at hst
    obtain ⟨hstate, rfl⟩ := hst
    exact .handleEvent hstate
  | handleClose o =>
    simp only [Life.step, Option.ite_none_right_eq_some, Option.some.injEq] at hst
    obtain ⟨⟨hstate, hclosing⟩, rfl⟩ := hst
    exact .handleClose hstate hclosing
  | removeConnection =>
    simp only [Life.step, Option.ite_none_right_eq_some, Option.some.injEq] at hst
    obtain ⟨hclosing, rfl⟩ := hst
    exact .removeConnection hclosing
  | removeAtOnce =>
    simp only [Life.step, Option.ite_none_right_eq_some, Option.some.injEq] at hst
    obtain ⟨hclosing, rfl⟩ := hst
    exact .removeAtOnce hclosing
  | removeConnectionInLoop =>
    simp only [Life.step, Option.ite_none_right_eq_some, Option.some.injEq] at hst
    obtain ⟨hremovals, rfl⟩ := hst
    exact .removeConnectionInLoop hremovals
  | removeDangles =>
    simp only [Life.step, Option.ite_none_right_eq_some, Option.some.injEq] at hst
    obtain ⟨hremovals, rfl⟩ := hst
    exact .removeDangles hremovals
  | closeDangles =>
    simp only [Life.step, Option.ite_none_right_eq_some, Option.some.injEq] at hst
    obtain ⟨hclosing, rfl⟩ := hst
    exact .closeDangles hclosing
  | setDisconnecting =>
    simp only [Life.step, Option.ite_none_left_eq_some, Option.some.injEq] at hst
    obtain ⟨hheld, rfl⟩ := hst
    exact .setDisconnecting hheld
  | queueTask op =>
    simp only [Life.step, Option.ite_none_left_eq_some, Option.some.injEq] at hst
    obtain ⟨hheld, rfl⟩ := hst
    exact .queueTask hheld
  | callTask op o =>
    simp only [Life.step, Option.ite_none_left_eq_some, Option.some.injEq, not_or] at hst
    obtain ⟨⟨hheld, hop⟩, rfl⟩ := hst
    exact .callTask hheld hop
  | hold t =>
    simp only [Life.step, Option.ite_none_left_eq_some, Option.some.injEq] at hst
    obtain ⟨hheld, rfl⟩ := hst
    exact .hold hheld
  | release t =>
    simp only [Life.step, Option.ite_none_right_eq_some, Option.some.injEq] at hst
    obtain ⟨hheld, rfl⟩ := hst
    exact .release hheld
  | orphan o =>
    simp only [Life.step, Option.ite_none_right_eq_some] at hst
    obtain ⟨-, hst⟩ := hst
    split at hst
    · rename_i hloop
      cases hst
      exact .orphanHere hloop
    · rename_i hloop
      cases hst
      exact .orphanAway hloop

/-! ## 2. The projection -/

/-- The task a functor is, if it is one of connection `c`. -/
def Functor.taskOf (c : Nat) : Functor → Option Task
  | .conn task d => if d = c then some task else none
  | .removeConnectionInLoop _ => none

def State.life (s : State) (c : Nat) : Life where
  conn := s.conns c
  stored := s.connections.get? (s.conns c).name == some c
  pending := (s.loops (s.conns c).loop).pending.filterMap (Functor.taskOf c)
  running := (s.loops (s.conns c).loop).running.filterMap (Functor.taskOf c)
  done := (s.loops (s.conns c).loop).done.filterMap (Functor.taskOf c)
  removals := ((s.loops 0).running ++ (s.loops 0).pending).count (.removeConnectionInLoop c)
  closing := (s.loops (s.conns c).loop).closing == some c
  held := (s.holders.filter fun h => h.2 = c).map Prod.fst

variable {s s' : State} {c d l t : Nat} {o : Outcome} {f : Functor} {task : Task}

@[simp] theorem life_conn : (s.life c).conn = s.conns c := rfl

@[simp] theorem taskOf_conn : Functor.taskOf c (.conn task c) = some task := by
  simp [Functor.taskOf]

@[simp] theorem taskOf_removeConnectionInLoop :
    Functor.taskOf c (.removeConnectionInLoop d) = none := rfl

theorem taskOf_of_ne (h : f.about ≠ c) : f.taskOf c = none := by
  cases f with
  | conn task d => simp only [Functor.taskOf, if_neg (show d ≠ c from h)]
  | removeConnectionInLoop d => rfl

theorem taskOf_eq_some : f.taskOf c = some task ↔ f = .conn task c := by
  cases f with
  | conn task' d =>
    simp only [Functor.taskOf]
    split
    · simp_all
    · simp_all
  | removeConnectionInLoop d => simp [Functor.taskOf]

/-- A task of `c` in a list of functors comes from a functor of `c`. -/
theorem mem_filterMap_taskOf {fs : List Functor} :
    task ∈ fs.filterMap (Functor.taskOf c) ↔ .conn task c ∈ fs := by
  rw [List.mem_filterMap]
  constructor
  · rintro ⟨f, hf, htask⟩
    rw [taskOf_eq_some] at htask
    exact htask ▸ hf
  · intro h
    exact ⟨_, h, taskOf_conn⟩

/-! ## 3. What the functions do to a connection they are called for -/

@[simp] theorem life_log_self (e : LoopStep) : (s.log c e).life c = (s.life c).log e := by
  simp [State.log, State.setConn, State.life, Life.log, Conn.log]

@[simp] theorem life_setState_self (st : ConnState) :
    (s.setConn c fun k => k.setState st).life c = (s.life c).setState st := by
  simp [State.setConn, State.life, Life.setState, Conn.setState]

@[simp] theorem life_userCode_self : (s.userCode t c o).life c = (s.life c).userCode t o := by
  unfold State.userCode Life.userCode
  split <;> simp [State.life]

@[simp] theorem life_queueTask_self :
    (s.queueInLoop (.conn task c)).life c = (s.life c).push task := by
  simp only [State.queueInLoop, State.setLoop, State.home, State.life, Life.push, Loop.push,
    Function.update_self]
  by_cases h0 : (s.conns c).loop = 0
  · simp [h0, List.count_append]
  · simp [Function.update_of_ne (Ne.symm h0)]

@[simp] theorem life_wrote_self : (s.wrote c o).life c = (s.life c).wrote o := by
  unfold State.wrote Life.wrote
  split <;> simp

theorem life_setClosing_self (hl : (s.conns c).loop = l) :
    (s.setLoop l fun k => k.setClosing (some c)).life c = (s.life c).setClosing true := by
  subst hl
  simp only [State.setLoop, State.life, Life.setClosing, Loop.setClosing, Function.update_self]
  by_cases h0 : (s.conns c).loop = 0
  · simp [h0]
  · simp [Function.update_of_ne (Ne.symm h0)]

/-- None of the pieces moves a connection to another loop. -/
@[simp] theorem loop_log (e : LoopStep) : ((s.log c e).conns d).loop = (s.conns d).loop := by
  unfold State.log State.setConn
  by_cases h : d = c
  · subst h
    simp [Conn.log]
  · simp [Function.update_of_ne h]

@[simp] theorem loop_setState (st : ConnState) :
    ((s.setConn c fun k => k.setState st).conns d).loop = (s.conns d).loop := by
  unfold State.setConn
  by_cases h : d = c
  · subst h
    simp [Conn.setState]
  · simp [Function.update_of_ne h]

@[simp] theorem conns_userCode : (s.userCode t c o).conns = s.conns := by
  unfold State.userCode
  split <;> rfl

@[simp] theorem conns_queueInLoop : (s.queueInLoop f).conns = s.conns := rfl

theorem life_handleClose_self (hl : (s.conns c).loop = l) :
    (s.handleClose l c o).life c = (s.life c).handleClose o := by
  subst hl
  unfold State.handleClose Life.handleClose
  rw [life_setClosing_self (by simp)]
  simp

theorem life_runTask_self (hl : (s.conns c).loop = l) :
    (s.runTask l c o task).life c = (s.life c).runTask o task := by
  subst hl
  cases task with
  | connectEstablished => simp [State.runTask, Life.runTask]
  | connectDestroyed =>
    by_cases hst : (s.conns c).state = .connected <;> simp [State.runTask, Life.runTask, hst]
  | sendInLoop =>
    by_cases hst : (s.conns c).state = .disconnected <;> simp [State.runTask, Life.runTask, hst]
  | shutdownInLoop | startReadInLoop | stopReadInLoop => rfl
  | forceCloseInLoop =>
    by_cases hst : (s.conns c).state = .connected ∨ (s.conns c).state = .disconnecting
    · simp [State.runTask, Life.runTask, hst, life_handleClose_self rfl]
    · simp [State.runTask, Life.runTask, hst]
  | userCallback => simp [State.runTask, Life.runTask]

theorem life_call_self (hl : (s.conns c).loop = l) (h : s.targetThere (.conn task c)) :
    (s.call l o (.conn task c)).life c = (s.life c).call o task := by
  subst hl
  rw [State.call, if_pos h, Life.call, life_runTask_self (loop_log _), life_log_self]
  rfl

end Suduo.TcpServer
