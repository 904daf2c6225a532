/-
# The connection table

What becomes of a connection of a server that is alive, whatever the loops and threads do.  The
accounts are kept per connection and are exact: every `handle_close` is still in progress, on its way to
the server's loop, or has erased; every erasure has queued one `connect_destroyed`, run or not.  From
them the table protocol (`table_protocol`): if no connection runs `handle_close` twice, each is stored
under a name of its own until the one removal erases it, and is established before and destroyed after.

Everything is proved of `Life.step`, once per kind of move; `NEUTRAL` moves, the great majority, touch
no account.
-/
import Suduo.Net.TcpServerLife

namespace Suduo.TcpServer

open Lib
open TcpConnection (ConnState)

variable {v v' v₁ : Life} {o : Outcome} {task : Task} {e : LoopStep}

/-! ## 1. The accounts -/

/-- The step is a run of `task`. -/
def LoopStep.isRun (task : Task) : LoopStep → Bool
  | .ran _ task' => task' = task
  | _ => false

def LoopStep.isClose : LoopStep → Bool
  | .handleClose _ => true
  | _ => false

def LoopStep.erasure : LoopStep → Option Nat
  | .erased n => some n
  | _ => none

/-- How often a task of the connection has been run. -/
def Conn.runs (k : Conn) (task : Task) : Nat := k.trace.countP (LoopStep.isRun task)

/-- How often its `handle_close` has been run. -/
def Conn.closes (k : Conn) : Nat := k.trace.countP LoopStep.isClose

/-- What `_connections.erase` of its name has returned, call by call.  The code asserts that it
returns one. -/
def Conn.erasures (k : Conn) : List Nat := k.trace.filterMap LoopStep.erasure

theorem runs_log (k : Conn) : (k.log e).runs task = k.runs task + if e.isRun task then 1 else 0 := by
  simp [Conn.runs, Conn.log, List.countP_append, List.countP_singleton]

theorem closes_log (k : Conn) : (k.log e).closes = k.closes + if e.isClose then 1 else 0 := by
  simp [Conn.closes, Conn.log, List.countP_append, List.countP_singleton]

theorem erasures_log (k : Conn) : (k.log e).erasures = k.erasures ++ e.erasure.toList := by
  cases e <;> simp [Conn.erasures, Conn.log, LoopStep.erasure]

namespace Life

/-- Tasks of one kind still to be run. -/
def queued (v : Life) (task : Task) : Nat := v.running.count task + v.pending.count task

theorem queued_push {t : Task} : (v.push t).queued task = v.queued task + if t = task then 1 else 0 := by
  simp only [queued, push, List.count_append, List.count_singleton, beq_iff_eq]
  omega

theorem queued_pop {t : Task} {rest : List Task} (hrun : v.running = t :: rest) :
    (v.pop t rest).queued task + (if t = task then 1 else 0) = v.queued task := by
  simp only [queued, pop, hrun, List.count_cons, beq_iff_eq]
  omega

end Life

/-- Every `connect_destroyed` of a trace ran in `loop`, and after an erasure that found the
entry.  It is stated of every way to split the trace, so that appending to the trace needs no
induction. -/
def Ordered (loop : Nat) (tr : List LoopStep) : Prop :=
  ∀ pre l post, tr = pre ++ .ran l .connectDestroyed :: post → l = loop ∧ .erased 1 ∈ pre

/-- A connection that has not been established has done nothing and nobody knows it.  No pointer
to it has been given to user code yet, and no event can be reported of a channel that is not
registered. -/
structure Unborn (v : Life) : Prop where
  connecting : v.conn.state = .connecting
  trace : v.conn.trace = []
  tasks : ∀ task ∈ v.pending ++ v.running ++ v.done, task = .connectEstablished
  held : v.held = []

/-- The account of a connection.  Each line is a balance: what has been done, and what is queued
to be done, add up to what gave rise to it.  A functor that got lost or was queued twice would
show in the sums. -/
structure Ledger (v : Life) : Prop where
  established : v.conn.runs .connectEstablished + v.queued .connectEstablished = 1
  closes : v.conn.closes = (if v.closing then 1 else 0) + v.removals + v.conn.erasures.length
  destroys : v.conn.erasures.length = v.queued .connectDestroyed + v.conn.runs .connectDestroyed
  /-- The first erasure takes the entry out; another would find none. -/
  erasures : v.stored = true ∧ v.conn.erasures = [] ∨
    v.stored = false ∧ ∃ n, v.conn.erasures = 1 :: List.replicate n 0
  unborn : v.conn.runs .connectEstablished = 0 → Unborn v
  connecting : v.conn.state = .connecting → v.conn.runs .connectEstablished = 0
  first : v.conn.trace = [] ∨
    ∃ rest, v.conn.trace = .ran v.conn.loop .connectEstablished :: rest
  order : Ordered v.conn.loop v.conn.trace

/-! ## 2. Neutral moves -/

/-- The step moves no account. -/
def LoopStep.Neutral : LoopStep → Prop
  | .ran _ task => task ≠ .connectEstablished ∧ task ≠ .connectDestroyed
  | .event _ => True
  | .handleClose _ | .erased _ => False

/-- From `v` to `v'` no account is moved.  What is appended to the trace is of no interest to any
of them, and the queued tasks that count are as many as before. -/
structure Neutral (v v' : Life) : Prop where
  loop_eq : v'.conn.loop = v.conn.loop
  stored_eq : v'.stored = v.stored
  removals_eq : v'.removals = v.removals
  closing_eq : v'.closing = v.closing
  queued_established : v'.queued .connectEstablished = v.queued .connectEstablished
  queued_destroyed : v'.queued .connectDestroyed = v.queued .connectDestroyed
  state_ne : v'.conn.state = v.conn.state ∨ v'.conn.state ≠ .connecting
  trace_eq : ∃ es : List LoopStep, (∀ e ∈ es, e.Neutral) ∧ v'.conn.trace = v.conn.trace ++ es

theorem Neutral.refl (v : Life) : Neutral v v :=
  ⟨rfl, rfl, rfl, rfl, rfl, rfl, .inl rfl, [], by simp, by simp⟩

theorem Neutral.trans (h : Neutral v v₁) (h' : Neutral v₁ v') : Neutral v v' := by
  refine ⟨h'.loop_eq.trans h.loop_eq, h'.stored_eq.trans h.stored_eq,
    h'.removals_eq.trans h.removals_eq, h'.closing_eq.trans h.closing_eq,
    h'.queued_established.trans h.queued_established, h'.queued_destroyed.trans h.queued_destroyed,
    ?_, ?_⟩
  · rcases h'.state_ne with hst | hst
    · rw [hst]
      exact h.state_ne
    · exact .inr hst
  · obtain ⟨es, hes, htr⟩ := h.trace_eq
    obtain ⟨es', hes', htr'⟩ := h'.trace_eq
    refine ⟨es ++ es', ?_, by rw [htr', htr, List.append_assoc]⟩
    intro e he
    rcases List.mem_append.mp he with he | he
    · exact hes e he
    · exact hes' e he

theorem neutral_log (he : e.Neutral) : Neutral v (v.log e) :=
  ⟨rfl, rfl, rfl, rfl, rfl, rfl, .inl rfl, [e], by simpa using he, rfl⟩

theorem neutral_setState {st : ConnState} (hst : st ≠ .connecting) : Neutral v (v.setState st) :=
  ⟨rfl, rfl, rfl, rfl, rfl, rfl, .inr hst, [], by simp, by simp [Life.setState, Conn.setState]⟩

theorem neutral_userCode {t : Nat} : Neutral v (v.userCode t o) := by
  unfold Life.userCode
  split
  · exact ⟨rfl, rfl, rfl, rfl, rfl, rfl, .inl rfl, [], by simp, by simp⟩
  · exact .refl v

theorem neutral_held (ts : List Nat) : Neutral v { v with held := ts } :=
  ⟨rfl, rfl, rfl, rfl, rfl, rfl, .inl rfl, [], by simp, by simp⟩

theorem neutral_push (h : task ≠ .connectEstablished ∧ task ≠ .connectDestroyed) :
    Neutral v (v.push task) := by
  refine ⟨rfl, rfl, rfl, rfl, ?_, ?_, .inl rfl, [], by simp, by simp [Life.push]⟩
  · rw [Life.queued_push, if_neg h.1, Nat.add_zero]
  · rw [Life.queued_push, if_neg h.2, Nat.add_zero]

theorem neutral_pop {rest : List Task} (hrun : v.running = task :: rest)
    (h : task ≠ .connectEstablished ∧ task ≠ .connectDestroyed) : Neutral v (v.pop task rest) := by
  have hqueued : ∀ t, task ≠ t → (v.pop task rest).queued t = v.queued t := by
    intro t ht
    have hpop : (v.pop task rest).queued t + (if task = t then 1 else 0) = v.queued t :=
      Life.queued_pop hrun
    rwa [if_neg ht] at hpop
  exact ⟨rfl, rfl, rfl, rfl, hqueued _ h.1, hqueued _ h.2, .inl rfl, [], by simp, by simp [Life.pop]⟩

theorem neutral_wrote : Neutral v (v.wrote o) := by
  unfold Life.wrote
  split
  · exact neutral_push (by decide)
  · exact .refl v

/-- A step of no interest at the end of a trace leaves its order alone.  A split of the longer
trace at a `connect_destroyed` is one of the shorter. -/
theorem Ordered.append {loop : Nat} {tr es : List LoopStep} (h : Ordered loop tr)
    (hes : ∀ l, .ran l .connectDestroyed ∉ es) : Ordered loop (tr ++ es) := by
  intro pre l post heq
  rcases List.append_eq_append_iff.mp heq with ⟨as, rfl, hes'⟩ | ⟨cs, rfl, hcs⟩
  · exact absurd (hes' ▸ List.mem_append_right _ (List.mem_cons_self ..)) (hes l)
  · cases cs with
    | nil =>
      rw [List.nil_append] at hcs
      exact absurd (hcs ▸ List.mem_cons_self ..) (hes l)
    | cons x cs =>
      obtain ⟨rfl, -⟩ := List.cons.inj hcs
      exact h pre l cs rfl

theorem Ordered.destroyed {loop : Nat} {tr : List LoopStep} (h : Ordered loop tr)
    (herased : .erased 1 ∈ tr) : Ordered loop (tr ++ [.ran loop .connectDestroyed]) := by
  intro pre l post heq
  rcases List.append_eq_append_iff.mp heq with ⟨as, rfl, has⟩ | ⟨cs, rfl, hcs⟩
  · cases as with
    | nil =>
      obtain ⟨hx, -⟩ := List.cons.inj has
      cases hx
      exact ⟨rfl, by simpa using herased⟩
    | cons x as => simp at has
  · cases cs with
    | nil =>
      obtain ⟨hx, -⟩ := List.cons.inj hcs
      cases hx
      exact ⟨rfl, by simpa using herased⟩
    | cons x cs =>
      obtain ⟨rfl, -⟩ := List.cons.inj hcs
      exact h pre l cs rfl

/-- The accounts after a neutral piece of trace.  They are read off the trace, and that piece
adds nothing to any of them. -/
theorem Neutral.accounts (h : Neutral v v') :
    v'.conn.runs .connectEstablished = v.conn.runs .connectEstablished ∧
      v'.conn.runs .connectDestroyed = v.conn.runs .connectDestroyed ∧
      v'.conn.closes = v.conn.closes ∧ v'.conn.erasures = v.conn.erasures := by
  obtain ⟨es, hes, htr⟩ := h.trace_eq
  have hzero : ∀ p : LoopStep → Bool, (∀ e : LoopStep, e.Neutral → p e = false) →
      es.countP p = 0 := fun p hp =>
    List.countP_eq_zero.mpr fun e he => Bool.eq_false_iff.mp (hp e (hes e he))
  refine ⟨?_, ?_, ?_, ?_⟩
  · rw [Conn.runs, htr, List.countP_append, hzero, Nat.add_zero, Conn.runs]
    intro e he
    cases e <;> simp_all [LoopStep.Neutral, LoopStep.isRun]
  · rw [Conn.runs, htr, List.countP_append, hzero, Nat.add_zero, Conn.runs]
    intro e he
    cases e <;> simp_all [LoopStep.Neutral, LoopStep.isRun]
  · rw [Conn.closes, htr, List.countP_append, hzero, Nat.add_zero, Conn.closes]
    intro e he
    cases e <;> simp_all [LoopStep.Neutral, LoopStep.isClose]
  · have hnil : es.filterMap LoopStep.erasure = [] := by
      refine List.filterMap_eq_nil_iff.mpr fun e he => ?_
      have hne := hes e he
      cases e <;> simp_all [LoopStep.Neutral, LoopStep.erasure]
    rw [Conn.erasures, htr, List.filterMap_append, hnil, List.append_nil, Conn.erasures]

theorem trace_ne_nil (hup : v.conn.runs .connectEstablished ≠ 0) : v.conn.trace ≠ [] := by
  intro hnil
  exact hup (by simp [Conn.runs, hnil])

theorem first_append {es : List LoopStep} (h : Ledger v)
    (hup : v.conn.runs .connectEstablished ≠ 0) :
    ∃ rest, v.conn.trace ++ es = .ran v.conn.loop .connectEstablished :: rest := by
  obtain ⟨rest, hrest⟩ := h.first.resolve_left (trace_ne_nil hup)
  exact ⟨rest ++ es, by rw [hrest, List.cons_append]⟩

/-- **An established connection may do what is neutral.**  All balances have the same terms as
before; what is left is that the trace still begins with `connect_established`, and that its
order is kept. -/
theorem Ledger.neutral (h : Ledger v) (hup : v.conn.runs .connectEstablished ≠ 0)
    (hn : Neutral v v') : Ledger v' := by
  obtain ⟨hest, hdes, hcloses, herasures⟩ := hn.accounts
  obtain ⟨es, hes, htr⟩ := hn.trace_eq
  refine ⟨?_, ?_, ?_, ?_, ?_, ?_, ?_, ?_⟩
  · rw [hest, hn.queued_established]
    exact h.established
  · rw [hcloses, hn.closing_eq, hn.removals_eq, herasures]
    exact h.closes
  · rw [herasures, hn.queued_destroyed, hdes]
    exact h.destroys
  · rw [hn.stored_eq, herasures]
    exact h.erasures
  · intro hzero
    exact absurd (hest ▸ hzero) hup
  · intro hst
    rcases hn.state_ne with heq | hne
    · rw [hest]
      exact h.connecting (heq ▸ hst)
    · exact absurd hst hne
  · rw [htr, hn.loop_eq]
    exact .inr (first_append h hup)
  · rw [htr, hn.loop_eq]
    exact h.order.append fun l hl => (hes _ hl).2 rfl

/-! ## 3. The moves that are accounted for -/

/-- Nothing has happened yet, and `connect_established` is about to.  The one functor that was
queued has left the queue. -/
structure Blank (v : Life) : Prop where
  trace : v.conn.trace = []
  queued_established : v.queued .connectEstablished = 0
  queued_destroyed : v.queued .connectDestroyed = 0
  removals : v.removals = 0
  closing : v.closing = false
  stored : v.stored = true

theorem Ledger.establish (h : Blank v) : Ledger (v.call o .connectEstablished) := by
  have hruns : ∀ task, v.conn.runs task = 0 := fun task => by simp [Conn.runs, h.trace]
  have hcloses : v.conn.closes = 0 := by simp [Conn.closes, h.trace]
  have herasures : v.conn.erasures = [] := by simp [Conn.erasures, h.trace]
  have hup : (v.conn.log (.ran v.conn.loop .connectEstablished)).runs .connectEstablished = 1 := by
    rw [runs_log, hruns]
    simp [LoopStep.isRun]
  have hfirst : Ledger ((v.log (.ran v.conn.loop .connectEstablished)).setState .connected) := by
    refine ⟨?_, ?_, ?_, ?_, ?_, ?_, ?_, ?_⟩
    · change (v.conn.log _).runs .connectEstablished + v.queued .connectEstablished = 1
      rw [hup, h.queued_established]
    · change (v.conn.log _).closes = (if v.closing then 1 else 0) + v.removals +
        (v.conn.log _).erasures.length
      rw [closes_log, erasures_log, hcloses, herasures, h.removals, h.closing]
      rfl
    · change (v.conn.log _).erasures.length = v.queued .connectDestroyed +
        (v.conn.log _).runs .connectDestroyed
      rw [erasures_log, runs_log, herasures, hruns, h.queued_destroyed]
      rfl
    · refine .inl ⟨h.stored, ?_⟩
      change (v.conn.log _).erasures = []
      rw [erasures_log, herasures]
      rfl
    · intro hzero
      exact absurd (hup.symm.trans hzero) one_ne_zero
    · intro hst
      cases hst
    · refine .inr ⟨[], ?_⟩
      change v.conn.trace ++ _ = _
      rw [h.trace]
      rfl
    · have hnil : Ordered v.conn.loop [] := fun pre l post heq => by simp at heq
      change Ordered v.conn.loop (v.conn.trace ++ _)
      rw [h.trace]
      exact hnil.append (by simp)
  exact hfirst.neutral (fun hzero => one_ne_zero (hup.symm.trans hzero)) neutral_userCode

/-- What a connection that is not established would have to be.  An account without a first entry
has no other entries. -/
theorem Ledger.blank (h : Ledger v) (hup : v.conn.runs .connectEstablished = 0) :
    v.conn.trace = [] ∧ v.queued .connectDestroyed = 0 ∧ v.removals = 0 ∧ v.closing = false ∧
      v.stored = true := by
  have htrace := (h.unborn hup).trace
  have hcloses := h.closes
  have hdestroys := h.destroys
  have herasures := h.erasures
  simp only [Conn.closes, Conn.erasures, Conn.runs, htrace, List.countP_nil, List.filterMap_nil,
    List.length_nil] at hcloses hdestroys herasures
  refine ⟨htrace, by omega, by omega, ?_, ?_⟩
  · by_contra hclosing
    rw [if_pos (by simpa using hclosing)] at hcloses
    omega
  · simpa using herasures

/-- An established connection logs a step: what is left to show are the accounts it moves.  The
other lines of the ledger are the same in each of the three cases, and are proved here. -/
theorem Ledger.accounted (h : Ledger v) (hup : v.conn.runs .connectEstablished ≠ 0)
    (hloop : v'.conn.loop = v.conn.loop) (htr : v'.conn.trace = (v.conn.log e).trace)
    (hstate : v'.conn.state = v.conn.state) (he : e.isRun .connectEstablished = false)
    (hqueued : v'.queued .connectEstablished = v.queued .connectEstablished)
    (hcloses : (v.conn.log e).closes =
      (if v'.closing then 1 else 0) + v'.removals + (v.conn.log e).erasures.length)
    (hdestroys : (v.conn.log e).erasures.length =
      v'.queued .connectDestroyed + (v.conn.log e).runs .connectDestroyed)
    (herasures : v'.stored = true ∧ (v.conn.log e).erasures = [] ∨
      v'.stored = false ∧ ∃ n, (v.conn.log e).erasures = 1 :: List.replicate n 0)
    (horder : Ordered v.conn.loop (v.conn.log e).trace) : Ledger v' := by
  have hruns : v'.conn.runs .connectEstablished = v.conn.runs .connectEstablished := by
    calc
      v'.conn.runs .connectEstablished = (v.conn.log e).runs .connectEstablished := by
        rw [Conn.runs, htr, Conn.runs]
      _ = v.conn.runs .connectEstablished := by
        rw [runs_log, he]
        rfl
  refine ⟨?_, ?_, ?_, ?_, ?_, ?_, ?_, ?_⟩
  · rw [hruns, hqueued]
    exact h.established
  · rw [Conn.closes, Conn.erasures, htr]
    exact hcloses
  · rw [Conn.erasures, Conn.runs, htr]
    exact hdestroys
  · rw [Conn.erasures, htr]
    exact herasures
  · intro hzero
    exact absurd (hruns ▸ hzero) hup
  · intro hst
    rw [hruns]
    exact h.connecting (hstate ▸ hst)
  · rw [htr, hloop]
    exact .inr (first_append h hup)
  · rw [htr, hloop]
    exact horder

/-- `connect_destroyed` leaves the batch and is logged.  One line of the ledger is about both,
and its sum stays. -/
theorem Ledger.destroy (h : Ledger v) {rest : List Task} (hrun : v.running = .connectDestroyed :: rest)
    (hup : v.conn.runs .connectEstablished ≠ 0) :
    Ledger ((v.pop .connectDestroyed rest).log (.ran v.conn.loop .connectDestroyed)) := by
  have hqueued : ∀ t, (v.pop .connectDestroyed rest).queued t +
      (if Task.connectDestroyed = t then 1 else 0) = v.queued t := fun t => Life.queued_pop hrun
  have hdestroyed := hqueued .connectDestroyed
  have hestablished := hqueued .connectEstablished
  rw [if_pos rfl] at hdestroyed
  rw [if_neg (by decide)] at hestablished
  -- There is something to destroy, so there was an erasure, and the first found the entry.
  have hlen := h.destroys
  have herased : .erased 1 ∈ v.conn.trace := by
    rcases h.erasures with ⟨-, hnil⟩ | ⟨-, n, hcons⟩
    · rw [hnil, List.length_nil] at hlen
      omega
    · have hmem : 1 ∈ v.conn.erasures := hcons ▸ List.mem_cons_self ..
      obtain ⟨e, he, heq⟩ := List.mem_filterMap.mp hmem
      cases e <;> simp only [LoopStep.erasure, Option.some.injEq, reduceCtorEq] at heq
      exact heq ▸ he
  have herasures : (v.conn.log (.ran v.conn.loop .connectDestroyed)).erasures = v.conn.erasures := by
    simp [erasures_log, LoopStep.erasure]
  refine h.accounted hup rfl rfl rfl rfl hestablished ?_ ?_ ?_ (h.order.destroyed herased)
  · rw [closes_log, herasures]
    exact h.closes
  · rw [herasures, runs_log]
    simp only [LoopStep.isRun, decide_true, if_true]
    change _ = (v.pop .connectDestroyed rest).queued .connectDestroyed + _
    omega
  · rw [herasures]
    exact h.erasures

/-- The account of `handle_close`: one more, and the loop is in it.  The other ways to a removal
are not taken yet. -/
theorem Ledger.handleClose (h : Ledger v) (hup : v.conn.runs .connectEstablished ≠ 0)
    (hclosing : v.closing = false) : Ledger (v.handleClose o) := by
  have herasures : (v.conn.log (.handleClose v.conn.loop)).erasures = v.conn.erasures := by
    simp [erasures_log, LoopStep.erasure]
  have hlog : Ledger ((v.log (.handleClose v.conn.loop)).setClosing true) := by
    have hcloses := h.closes
    rw [hclosing] at hcloses
    refine h.accounted hup rfl rfl rfl rfl rfl ?_ ?_ ?_ (h.order.append (by simp))
    · rw [closes_log, herasures]
      simp only [LoopStep.isClose, Life.setClosing, Life.log, if_true]
      simp only [Bool.false_eq_true, if_false] at hcloses
      omega
    · rw [herasures, runs_log]
      exact h.destroys
    · rw [herasures]
      exact h.erasures
  -- The rest of `handle_close` is neutral, and does not care in which order it is done.
  have hrest : Neutral ((v.log (.handleClose v.conn.loop)).setClosing true) (v.handleClose o) := by
    have hswap : v.handleClose o =
        (((v.log (.handleClose v.conn.loop)).setClosing true).setState .disconnected).userCode
          v.conn.loop o := by
      unfold Life.handleClose Life.userCode
      split <;> rfl
    rw [hswap]
    exact (neutral_setState (by decide)).trans neutral_userCode
  refine hlog.neutral ?_ hrest
  change (v.conn.log _).runs .connectEstablished ≠ 0
  rw [runs_log]
  omega

/-- A removal that is only handed on moves from one place to another: out of the hands of the
loop that runs `handle_close`, into the queue of the server's. -/
theorem Ledger.handOn (h : Ledger v) {closing : Bool} {removals : Nat}
    (hsum : (if closing then 1 else 0) + removals = (if v.closing then 1 else 0) + v.removals) :
    Ledger { v with closing := closing, removals := removals } :=
  { h with
    closes := by
      have hcloses := h.closes
      simp only
      omega
    unborn := fun hzero => { h.unborn hzero with } }

/-- A removal that is run: one more erasure, and one `connect_destroyed` for it.  Whether the
erasure found the entry is in the ledger: the first did, and no other does. -/
theorem Ledger.erase (h : Ledger v) (hup : v.conn.runs .connectEstablished ≠ 0) {closing : Bool}
    {removals : Nat}
    (hsum : (if closing then 1 else 0) + removals + 1 = (if v.closing then 1 else 0) + v.removals) :
    Ledger { v with closing := closing, removals := removals }.erase := by
  have herasures : (v.conn.log (.erased (if v.stored then 1 else 0))).erasures =
      v.conn.erasures ++ [if v.stored then 1 else 0] := by
    simp [erasures_log, LoopStep.erasure]
  have hcloses := h.closes
  have hdestroys := h.destroys
  refine h.accounted (e := .erased (if v.stored then 1 else 0)) hup rfl rfl rfl rfl ?_ ?_ ?_ ?_
    (h.order.append (by simp))
  · rw [Life.erase, Life.queued_push]
    exact Nat.add_zero _
  · rw [closes_log, herasures, List.length_append, List.length_singleton]
    change v.conn.closes + 0 = (if closing then 1 else 0) + removals + (v.conn.erasures.length + 1)
    omega
  · rw [herasures, runs_log, Life.erase, Life.queued_push, if_pos rfl, List.length_append,
      List.length_singleton]
    change v.conn.erasures.length + 1 =
      v.queued .connectDestroyed + 1 + (v.conn.runs .connectDestroyed + 0)
    omega
  · rw [herasures]
    refine .inr ⟨rfl, ?_⟩
    rcases h.erasures with ⟨hstored, hnil⟩ | ⟨hstored, n, hcons⟩
    · exact ⟨0, by rw [hnil, hstored]; rfl⟩
    · refine ⟨n + 1, ?_⟩
      rw [hcons, hstored, List.replicate_succ']
      rfl

/-- Taking the batch, and dropping it.  Both only move tasks that are still to run from one list
to another, or forget tasks that have run. -/
theorem Ledger.lists (h : Ledger v) {pending running done : List Task}
    (hcount : ∀ task, running.count task + pending.count task = v.queued task)
    (hsub : ∀ task ∈ pending ++ running ++ done, task ∈ v.pending ++ v.running ++ v.done) :
    Ledger { v with pending := pending, running := running, done := done } where
  established := (congrArg (v.conn.runs .connectEstablished + ·) (hcount _)).trans h.established
  closes := h.closes
  destroys := h.destroys.trans (congrArg (· + v.conn.runs .connectDestroyed) (hcount _).symm)
  erasures := h.erasures
  unborn := fun hzero =>
    { h.unborn hzero with tasks := fun task ht => (h.unborn hzero).tasks task (hsub task ht) }
  connecting := h.connecting
  first := h.first
  order := h.order

/-! ## 4. Every move -/

theorem Task.neutral_of_op (op : Op) :
    op.task ≠ .connectEstablished ∧ op.task ≠ .connectDestroyed := by
  cases op <;> decide

/-- A task other than the three that are accounted for is neutral to run.  It sets a state or
asks the poller for something, and that is nobody's account. -/
theorem neutral_call (h : task ≠ .connectEstablished ∧ task ≠ .connectDestroyed)
    (hclose : task ≠ .forceCloseInLoop) : Neutral v (v.call o task) := by
  have hlog : Neutral v (v.log (.ran v.conn.loop task)) := neutral_log h
  cases task with
  | connectEstablished => exact absurd rfl h.1
  | connectDestroyed => exact absurd rfl h.2
  | sendInLoop =>
    refine hlog.trans ?_
    rw [Life.call, Life.runTask]
    split
    · exact .refl _
    · exact neutral_wrote
  | shutdownInLoop | startReadInLoop | stopReadInLoop => exact hlog
  | forceCloseInLoop => exact absurd rfl hclose
  | userCallback => exact hlog.trans neutral_userCode

/-- What only an established connection does.  Whoever holds a pointer has got it from a
callback. -/
theorem Ledger.up_of_held (h : Ledger v) (hheld : v.held ≠ []) :
    v.conn.runs .connectEstablished ≠ 0 := fun hzero => hheld (h.unborn hzero).held

theorem Ledger.up_of_state (h : Ledger v) (hst : v.conn.state ≠ .connecting) :
    v.conn.runs .connectEstablished ≠ 0 := fun hzero => hst (h.unborn hzero).connecting

theorem Ledger.up_of_next (h : Ledger v) {rest : List Task} (hrun : v.running = task :: rest)
    (htask : task ≠ .connectEstablished) : v.conn.runs .connectEstablished ≠ 0 := fun hzero =>
  htask ((h.unborn hzero).tasks task (by simp [hrun]))

theorem Ledger.up_of_closing (h : Ledger v) (hclosing : v.closing = true) :
    v.conn.runs .connectEstablished ≠ 0 := fun hzero => by
  rw [(h.blank hzero).2.2.2.1] at hclosing
  cases hclosing

theorem Ledger.up_of_removals (h : Ledger v) (hremovals : 0 < v.removals) :
    v.conn.runs .connectEstablished ≠ 0 := fun hzero => by
  rw [(h.blank hzero).2.2.1] at hremovals
  exact lt_irrefl _ hremovals

/-- The next task of the batch is run.  `connect_established`, `connect_destroyed` and
`force_close_in_loop` each have their line in the ledger, and all others are neutral. -/
theorem Ledger.runFunctor (h : Ledger v) {rest : List Task} (hrun : v.running = task :: rest)
    (hclosing : v.closing = false) : Ledger ((v.pop task rest).call o task) := by
  by_cases hest : task = .connectEstablished
  · subst hest
    have hpop : ∀ t, (v.pop .connectEstablished rest).queued t +
        (if Task.connectEstablished = t then 1 else 0) = v.queued t := fun t => Life.queued_pop hrun
    have hest := hpop .connectEstablished
    have hdes := hpop .connectDestroyed
    rw [if_pos rfl] at hest
    rw [if_neg (by decide)] at hdes
    have hsum := h.established
    obtain ⟨htrace, hqueued, hremovals, -, hstored⟩ := h.blank (by omega)
    exact Ledger.establish ⟨htrace, by omega, by omega, hremovals, hclosing, hstored⟩
  · have hup := h.up_of_next hrun hest
    by_cases hdes : task = .connectDestroyed
    · subst hdes
      have hlogged := h.destroy hrun hup
      refine hlogged.neutral ?_ ?_
      · change (v.conn.log _).runs .connectEstablished ≠ 0
        rw [runs_log]
        omega
      · rw [Life.call, Life.runTask]
        split
        · exact (neutral_setState (by decide)).trans neutral_userCode
        · exact .refl _
    · have hpop : Neutral v (v.pop task rest) := neutral_pop hrun ⟨hest, hdes⟩
      by_cases hforce : task = .forceCloseInLoop
      · subst hforce
        have hlogged := hpop.trans (neutral_log (e := .ran v.conn.loop .forceCloseInLoop)
          ⟨hest, hdes⟩)
        have h₁ := h.neutral hup hlogged
        rw [Life.call, Life.runTask]
        split
        · exact h₁.handleClose (by rw [hlogged.accounts.1]; exact hup) hclosing
        · exact h₁
      · exact h.neutral hup (hpop.trans (neutral_call ⟨hest, hdes⟩ hforce))

/-- The moves of a connection whose server is alive. -/
def Move.Live : Move → Prop
  | .orphan _ | .removeDangles | .closeDangles => False
  | _ => True

/-- **The accounts balance after every move.**  Each move is neutral, or it is one of those that
are accounted for above; the server must be alive, because a removal that finds it gone would
erase nothing. -/
theorem Ledger.step (h : Ledger v) {m : Move} (hm : m.Live) (hst : v.step m = some v') :
    Ledger v' := by
  cases moved_of_step hst with
  | rest => exact h
  | takeFunctors hrun hdone =>
    refine h.lists ?_ ?_
    · intro task
      simp [Life.queued, hrun]
    · intro task ht
      simpa [hdone] using Or.inl ht
  | dropFunctors hrun =>
    refine h.lists (fun task => rfl) ?_
    intro task ht
    rw [List.append_nil] at ht
    exact List.mem_append_left _ ht
  | runFunctor hclosing hrun => exact h.runFunctor hrun hclosing
  | @dangle task rest hraw hrun =>
    have htask : task ≠ .connectEstablished ∧ task ≠ .connectDestroyed := by
      constructor <;> rintro rfl <;> cases hraw
    exact h.neutral (h.up_of_next hrun htask.1) (neutral_pop hrun htask)
  | handleEvent hstate =>
    have hlog : Neutral v (v.log (.event v.conn.loop)) := neutral_log trivial
    exact h.neutral (h.up_of_state hstate) ((hlog.trans neutral_wrote).trans neutral_userCode)
  | handleClose hstate hclosing => exact h.handleClose (h.up_of_state hstate) hclosing
  | removeConnection hclosing =>
    refine h.handOn ?_
    simp [hclosing, Nat.add_comm]
  | removeAtOnce hclosing =>
    refine h.erase (h.up_of_closing hclosing) ?_
    simp [hclosing, Nat.add_comm]
  | removeConnectionInLoop hremovals =>
    refine h.erase (h.up_of_removals hremovals) ?_
    omega
  | setDisconnecting hheld => exact h.neutral (h.up_of_held hheld) (neutral_setState (by decide))
  | queueTask hheld =>
    exact h.neutral (h.up_of_held hheld) (neutral_push (Task.neutral_of_op _))
  | callTask hheld hop =>
    exact h.neutral (h.up_of_held hheld)
      (neutral_call (Task.neutral_of_op _) (Op.task_ne_forceClose hop))
  | hold hheld => exact h.neutral (h.up_of_held hheld) (neutral_held _)
  | release hheld => exact h.neutral (h.up_of_held (List.ne_nil_of_mem hheld)) (neutral_held _)
  | removeDangles _ | closeDangles _ | orphanHere _ | orphanAway _ => exact hm.elim

/-- A connection starts with its accounts balanced, whether its `connect_established` is queued
or has been run at once. -/
theorem Ledger.start (loop : Nat) (name : List Char) : Ledger ((Life.newborn loop name).start o) := by
  unfold Life.start
  split
  · exact Ledger.establish ⟨rfl, rfl, rfl, rfl, rfl, rfl⟩
  · refine ⟨rfl, rfl, rfl, .inl ⟨rfl, rfl⟩, ?_, fun _ => rfl, .inl rfl, ?_⟩
    · intro _
      exact ⟨rfl, rfl, by simp [Life.push, Life.newborn], rfl⟩
    · intro pre l post heq
      simp [Life.push, Life.newborn] at heq

/-! ## 5. Runs -/

variable {s s' : State} {c : Nat} {lb : Label}

theorem Cause.live {m : Move} (h : Cause s lb c m) (halive : s.alive) : m.Live := by
  cases m <;> simp_all [Cause, Move.Live]

/-- The state has its shape and, while the server is alive, every account balances.  Once the
server is being destroyed, the table is emptied without `handle_close`, and the accounts are
closed. -/
def Balanced (s : State) : Prop :=
  Shape s ∧ (s.alive → ∀ c, s.Accepted c → Ledger (s.life c))

theorem Balanced.step (h : Balanced s) (hst : step s lb = some s') : Balanced s' := by
  have hsim := step_simulates h.1 hst
  refine ⟨hsim.shape, ?_⟩
  intro halive' c hc
  have halive : s.alive := by
    by_cases hlb : lb = .destroyServer
    · subst hlb
      cases taken_of_step hst with
      | destroyServer halive => exact halive
    · exact hsim.alive_eq hlb ▸ halive'
  rcases hsim.births c hc with hc | ⟨loop, name, o, hlife⟩
  · obtain ⟨m, hcause, hmove⟩ := hsim.moves c hc
    exact (h.2 halive c hc).step (hcause.live halive) hmove
  · rw [hlife]
    exact Ledger.start loop name

theorem reach_balanced {name : List Char} {ipPort : IpPort} {threads : Nat} {G : State → Label → Prop}
    (h : Reach step G (State.init name ipPort threads) s) : Balanced s := by
  refine h.invariant ⟨Shape.init name ipPort threads, ?_⟩ fun s l s' hi _ hst => hi.step hst
  intro _ c hc
  exact absurd hc.2 (not_lt_of_ge hc.1)

/-- What the table promises of connection `c`.  It is the ledger read for a connection that has
run `handle_close` once at most: each sum then has one way to come about. -/
structure Protocol (s : State) (c : Nat) : Prop where
  /-- It is stored under its name as long as nothing has erased it, -/
  stored : s.connections.get? (s.conns c).name = some c ↔ (s.conns c).erasures = []
  /-- under a name that no other connection has, -/
  own_name : ∀ d, s.Accepted d → d ≠ c → (s.conns d).name ≠ (s.conns c).name
  /-- and `assert(n == 1)` holds at the one erasure there is. -/
  erased : (s.conns c).erasures = [] ∨ (s.conns c).erasures = [1]
  /-- A `handle_close` is in progress, its removal is queued, or it has erased. -/
  removed : (s.conns c).closes =
    (if (s.loops (s.conns c).loop).closing = some c then 1 else 0) +
      ((s.loops 0).running ++ (s.loops 0).pending).count (.removeConnectionInLoop c) +
      (s.conns c).erasures.length
  established_first : (s.conns c).trace = [] ∨
    ∃ rest, (s.conns c).trace = .ran (s.conns c).loop .connectEstablished :: rest
  destroyed_once : (s.conns c).runs .connectDestroyed ≤ 1
  /-- In the connection's own loop, after the erasure. -/
  destroyed_after : Ordered (s.conns c).loop (s.conns c).trace

/-- **The connection table.**  In every state of every run of a server that is alive, with any
number of loops and threads: if no connection has run `handle_close` twice, every connection
accepted keeps to the protocol.  The functors cross between two loops and may be overtaken by
others, and user threads come in at any time; the accounts do not depend on the order. -/
theorem table_protocol (name : List Char) (ipPort : IpPort) (threads : Nat) {s : State}
    (h : Reach step anyStep (State.init name ipPort threads) s) (halive : s.alive)
    (honce : ∀ c < s.nextConnId, (s.conns c).closes ≤ 1) (c : Nat) (hc : s.Accepted c) :
    Protocol s c := by
  obtain ⟨hshape, hledgers⟩ := reach_balanced h
  have hledger := hledgers halive c hc
  have hcloses : (s.conns c).closes = (if (s.life c).closing then 1 else 0) + (s.life c).removals +
    (s.conns c).erasures.length := hledger.closes
  have hlen : (s.conns c).erasures.length ≤ 1 := by
    have := honce c hc.2
    omega
  have hdestroys : (s.conns c).erasures.length =
    (s.life c).queued .connectDestroyed + (s.conns c).runs .connectDestroyed := hledger.destroys
  refine ⟨?_, ?_, ?_, ?_, hledger.first, by omega, hledger.order⟩
  · rcases hledger.erasures with ⟨hstored, hnil⟩ | ⟨hstored, n, hcons⟩
    · have hget : s.connections.get? (s.conns c).name = some c := by
        simpa [State.life] using hstored
      exact ⟨fun _ => hnil, fun _ => hget⟩
    · have hget : s.connections.get? (s.conns c).name ≠ some c := by
        simpa [State.life] using hstored
      rw [life_conn] at hcons
      exact ⟨fun heq => absurd heq hget, fun hnil => by rw [hcons] at hnil; cases hnil⟩
  · intro d hd hne heq
    exact hne (hshape.name_inj hd hc heq)
  · rcases hledger.erasures with ⟨-, hnil⟩ | ⟨-, n, hcons⟩
    · exact .inl hnil
    · refine .inr ?_
      rw [life_conn] at hcons
      rw [hcons] at hlen ⊢
      have hn : n = 0 := by simpa using hlen
      rw [hn]
      rfl
  · rw [hcloses]
    simp only [State.life, beq_iff_eq]

/-- The server of the runs below listens at `127.0.0.1:2000`. -/
def localhost : IpPort := ⟨false, "127.0.0.1".toList, 2000, by decide⟩

/-- Two connections on two loops; thread `7` force-closes the first, the peer closes the second, and the
removals cross. -/
def twoConnections : List Label :=
  let keep : Outcome := ⟨true, false⟩
  let pass : Outcome := ⟨false, false⟩
  [.newConnection pass, .newConnection pass,
    .takeFunctors 1, .runFunctor 1 keep, .dropFunctors 1, .copy 1 7 1,
    .takeFunctors 2, .runFunctor 2 pass, .dropFunctors 2,
    .test 7 .forceClose 1, .setDisconnecting 7, .handleClose 2 pass, .post 7 pass,
    .takeFunctors 1, .runFunctor 1 pass, .closeCallback 1, .dropFunctors 1, .closeCallback 2,
    .takeFunctors 0, .runFunctor 0 pass, .runFunctor 0 pass, .dropFunctors 0,
    .takeFunctors 2, .runFunctor 2 pass, .dropFunctors 2]

theorem table_protocol_twoConnections :
    ∃ s, Reach step anyStep (State.init "echo".toList localhost 2) s ∧ s.alive ∧
      (s.conns 1).erasures = [1] ∧ (s.conns 2).runs .connectDestroyed = 1 ∧
      Protocol s 1 ∧ Protocol s 2 := by
  have hrun : ∃ s, Reach step anyStep (State.init "echo".toList localhost 2) s ∧
      (s.alive ∧ s.nextConnId = 3 ∧ (∀ c < s.nextConnId, (s.conns c).closes ≤ 1) ∧
        (s.conns 1).erasures = [1] ∧ (s.conns 2).runs .connectDestroyed = 1) :=
    Reach.exists_of_exec twoConnections _ (meets_any twoConnections _) (by decide +kernel)
  obtain ⟨s, hreach, halive, hid, honce, herased, hdestroyed⟩ := hrun
  have h1 : s.Accepted 1 := ⟨by decide, by rw [hid]; decide⟩
  have h2 : s.Accepted 2 := ⟨by decide, by rw [hid]; decide⟩
  exact ⟨s, hreach, halive, herased, hdestroyed,
    table_protocol _ _ _ hreach halive honce 1 h1, table_protocol _ _ _ hreach halive honce 2 h2⟩

end Suduo.TcpServer
