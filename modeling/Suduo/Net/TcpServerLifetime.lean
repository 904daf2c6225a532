/-
# Functors and the objects they are bound to

`force_close` binds `shared_from_this()` into its functor; `send`, `shutdown`, `start_read` and
`stop_read` bind `this`, and the close callback binds the server's `this` (`// FIXME: unsafe`).  So
a loop can run a functor on a connection or a server that is gone (`functors_dangle`).

When it cannot is stated per connection.  A functor bound to `this` finds its connection if
something KEEPS it (`Life.Kept`: the table, a user thread, a close in progress, a removal on its
way), or if a functor with a pointer is dropped no sooner (`Life.Covered`): `do_pending_functors`
runs the queue in batches and drops a batch as a whole, so a functor with a pointer covers its whole
batch, and the `connect_destroyed` that follows an erasure covers whatever was queued before it.
`Careful` asks this of the two steps that give up a pointer unasked, the release of a user's pointer
and `~TcpServer` on a connection of its own loop, and that no close is under way at `~TcpServer` or
begins after it.  Under `Careful` no functor ever misses its target (`functors_find_targets`).
-/
import Suduo.Net.TcpServerTable

namespace Suduo.TcpServer

open Lib
open TcpConnection (ConnState)

variable {v v' v₁ : Life} {o : Outcome} {task : Task} {ts : List Task}

/-! ## 1. The condition -/

/-- Some of the tasks are bound to `this`. -/
def hasRaw (ts : List Task) : Bool := ts.any fun task => !task.shared

/-- Some of the tasks carry a pointer. -/
def hasShared (ts : List Task) : Bool := ts.any Task.shared

namespace Life

/-- Something outside the connection's own loop keeps the connection.  Functors are not counted,
since those that are bound to `this` are what is to be kept safe. -/
def Kept (v : Life) : Prop := v.stored = true ∨ v.held ≠ [] ∨ v.closing = true ∨ 0 < v.removals

/-- Every task bound to `this` that is still to run will find the connection.  It is kept; or
behind each such task there is one with a pointer, in the same batch or in a later one, that is
dropped no sooner. -/
def Covered (v : Life) : Prop :=
  v.Kept ∨ (hasRaw v.pending → hasShared v.pending) ∧
    (hasRaw v.running → hasShared (v.pending ++ v.running ++ v.done))

instance (v : Life) : Decidable v.Kept := inferInstanceAs (Decidable (_ ∨ _ ∨ _ ∨ _))

instance (v : Life) : Decidable v.Covered :=
  inferInstanceAs (Decidable (v.Kept ∨ (_ → _) ∧ (_ → _)))

/-- No `handle_close` in progress, and no removal to come of one. -/
def Settled (v : Life) : Prop := v.closing = false ∧ v.removals = 0

instance (v : Life) : Decidable v.Settled := inferInstanceAs (Decidable (_ ∧ _))

/-- Thread `t` lets go of its pointer. -/
def letGo (v : Life) (t : Nat) : Life := { v with held := v.held.erase t }

end Life

/-- The next functor of loop `l` is a `force_close_in_loop` that will close.  This is the one
functor that enters `handle_close`, which binds the server's address. -/
def State.closesNext (s : State) (l : Nat) : Bool :=
  match (s.loops l).running with
  | .conn .forceCloseInLoop c :: _ =>
    (s.conns c).state = .connected ∨ (s.conns c).state = .disconnecting
  | _ => false

/-- The entry that `~TcpServer` comes to is of a connection in another loop, or its queued functors do
without it. -/
def State.orphanCovered (s : State) : Bool :=
  match s.connections.entries with
  | [] => true
  | e :: _ => (s.conns e.2).loop ≠ 0 ∨ (s.life e.2).unstore.Covered

/-- **The condition on a step**, read off the state before it.  It is put on user code and on the
owner of the server, at the steps where each gives something up; the library's own steps are not
restricted, but for a close that would begin after the server is gone. -/
def Careful (s : State) : Label → Prop
  | .release t c => ((s.life c).letGo t).Covered
  | .destroyServer => ∀ c < s.nextConnId, (s.life c).Settled
  | .destroyNext _ => s.orphanCovered
  | .handleClose _ _ => s.alive
  | .runFunctor l _ => s.closesNext l → s.alive
  | _ => True

instance (s : State) : (lb : Label) → Decidable (Careful s lb)
  | .release t c => inferInstanceAs (Decidable ((s.life c).letGo t).Covered)
  | .destroyServer => inferInstanceAs (Decidable (∀ c < s.nextConnId, (s.life c).Settled))
  | .destroyNext _ => inferInstanceAs (Decidable (s.orphanCovered = true))
  | .handleClose _ _ => inferInstanceAs (Decidable (s.alive = true))
  | .runFunctor l _ => inferInstanceAs (Decidable (s.closesNext l = true → s.alive = true))
  | .newConnection _ | .takeFunctors _ | .dropFunctors _ | .handleEvent _ _ | .closeCallback _
  | .test _ _ _ | .setDisconnecting _ | .post _ _ | .copy _ _ _ => .isTrue trivial

/-- The object a functor is bound to has not been destroyed. -/
def State.TargetLives (s : State) : Functor → Prop
  | .conn _ c => 0 < s.useCount c
  | .removeConnectionInLoop _ => s.alive

/-! ## 2. Covered along a life -/

/-- `v'` has all that `v` has, and more functors with pointers at most.  Whatever is covered in
the one is covered in the other, so such moves need no case of their own. -/
structure Extends (v v' : Life) : Prop where
  stored_eq : v'.stored = v.stored
  held_ne : v.held ≠ [] → v'.held ≠ []
  closing_le : v.closing = true → v'.closing = true
  removals_eq : v'.removals = v.removals
  running_eq : v'.running = v.running
  done_eq : v'.done = v.done
  pending_eq : ∃ ts, hasRaw ts = false ∧ v'.pending = v.pending ++ ts

theorem Extends.refl (v : Life) : Extends v v :=
  ⟨rfl, id, id, rfl, rfl, rfl, [], rfl, by simp⟩

theorem hasRaw_append {ts ts' : List Task} : hasRaw (ts ++ ts') = (hasRaw ts || hasRaw ts') :=
  List.any_append

theorem hasShared_append {ts ts' : List Task} :
    hasShared (ts ++ ts') = (hasShared ts || hasShared ts') := List.any_append

theorem Extends.trans (h : Extends v v₁) (h' : Extends v₁ v') : Extends v v' := by
  obtain ⟨ts, hraw, hts⟩ := h.pending_eq
  obtain ⟨ts', hraw', hts'⟩ := h'.pending_eq
  refine ⟨h'.stored_eq.trans h.stored_eq, fun hh => h'.held_ne (h.held_ne hh),
    fun hc => h'.closing_le (h.closing_le hc), h'.removals_eq.trans h.removals_eq,
    h'.running_eq.trans h.running_eq, h'.done_eq.trans h.done_eq, ts ++ ts', ?_, ?_⟩
  · rw [hasRaw_append, hraw, hraw']
    rfl
  · rw [hts', hts, List.append_assoc]

theorem Extends.kept (h : Extends v v') (hk : v.Kept) : v'.Kept := by
  rcases hk with hk | hk | hk | hk
  · exact .inl (h.stored_eq ▸ hk)
  · exact .inr (.inl (h.held_ne hk))
  · exact .inr (.inr (.inl (h.closing_le hk)))
  · exact .inr (.inr (.inr (h.removals_eq ▸ hk)))

theorem Extends.covered (h : Extends v v') (hc : v.Covered) : v'.Covered := by
  obtain ⟨ts, hraw, hts⟩ := h.pending_eq
  refine hc.imp h.kept ?_
  rintro ⟨hpending, hrunning⟩
  rw [hts, h.running_eq, h.done_eq]
  refine ⟨?_, ?_⟩
  · intro hr
    rw [hasRaw_append, hraw, Bool.or_false] at hr
    rw [hasShared_append, hpending hr, Bool.true_or]
  · intro hr
    have hshared := hrunning hr
    simp only [hasShared_append, Bool.or_eq_true] at hshared ⊢
    tauto

theorem extends_log (e : LoopStep) : Extends v (v.log e) :=
  ⟨rfl, id, id, rfl, rfl, rfl, [], rfl, by simp [Life.log]⟩

theorem extends_setState (st : ConnState) : Extends v (v.setState st) :=
  ⟨rfl, id, id, rfl, rfl, rfl, [], rfl, by simp [Life.setState]⟩

theorem extends_userCode {t : Nat} : Extends v (v.userCode t o) := by
  unfold Life.userCode
  split
  · exact ⟨rfl, fun _ => by simp, id, rfl, rfl, rfl, [], rfl, by simp⟩
  · exact .refl v

theorem extends_setClosing : Extends v (v.setClosing true) :=
  ⟨rfl, id, fun _ => rfl, rfl, rfl, rfl, [], rfl, by simp [Life.setClosing]⟩

theorem extends_push (h : task.shared = true) : Extends v (v.push task) :=
  ⟨rfl, id, id, rfl, rfl, rfl, [task], by simp [hasRaw, h], rfl⟩

theorem extends_wrote : Extends v (v.wrote o) := by
  unfold Life.wrote
  split
  · exact extends_push rfl
  · exact .refl v

theorem extends_handleClose : Extends v (v.handleClose o) :=
  (((extends_log _).trans (extends_setState _)).trans extends_userCode).trans extends_setClosing

/-- Running a task gives nothing up.  The pointer in the functor is dropped with its batch, not
when the functor returns. -/
theorem extends_call : Extends v (v.call o task) := by
  refine (extends_log (.ran v.conn.loop task)).trans ?_
  cases task with
  | connectEstablished => exact (extends_setState _).trans extends_userCode
  | connectDestroyed =>
    rw [Life.call, Life.runTask]
    split
    · exact (extends_setState _).trans extends_userCode
    · exact .refl _
  | sendInLoop =>
    rw [Life.call, Life.runTask]
    split
    · exact .refl _
    · exact extends_wrote
  | shutdownInLoop | startReadInLoop | stopReadInLoop => exact .refl _
  | forceCloseInLoop =>
    rw [Life.call, Life.runTask]
    split
    · exact extends_handleClose
    · exact .refl _
  | userCallback => exact extends_userCode

/-- A `connect_destroyed` that is queued covers everything queued.  It has a pointer, and it
comes last. -/
theorem covered_push_destroyed : (v.push .connectDestroyed).Covered := by
  have hshared : hasShared (v.push .connectDestroyed).pending = true := by
    simp [Life.push, hasShared, Task.shared]
  refine .inr ⟨fun _ => hshared, fun _ => ?_⟩
  rw [hasShared_append, hasShared_append, hshared]
  rfl

/-- A task that leaves the batch goes on covering it.  It is run and stays in the local vector
until the batch is dropped as a whole. -/
theorem Life.Covered.pop (h : v.Covered) {rest : List Task} (hrun : v.running = task :: rest) :
    (v.pop task rest).Covered := by
  refine h.imp id ?_
  rintro ⟨hpending, hrunning⟩
  refine ⟨hpending, ?_⟩
  intro hr
  have hr : hasRaw rest = true := hr
  have hshared := hrunning (by rw [hrun, hasRaw, List.any_cons, ← hasRaw, hr, Bool.or_true])
  simp only [hrun, Life.pop, hasShared, List.any_append, List.any_cons, List.any_nil, Bool.or_false,
    Bool.or_eq_true] at hshared ⊢
  tauto

/-- The moves that can give up a pointer. -/
def Move.Yields : Move → Prop
  | .release _ | .orphan _ | .removeDangles | .closeDangles => True
  | _ => False

/-- **A connection stays covered**, unless a pointer is given up.  Of the moves that do not give
one up, one drops functors with pointers: dropping a batch.  At that time nothing of the batch is
left to run, and what is queued is covered by what is queued behind it. -/
theorem Life.Covered.step (h : v.Covered) {m : Move} (hm : ¬ m.Yields) (hst : v.step m = some v') :
    v'.Covered := by
  cases moved_of_step hst with
  | rest => exact h
  | takeFunctors _ hdone =>
    -- The whole queue becomes the batch, so what covered it in the queue covers it in the batch.
    refine h.imp id ?_
    rintro ⟨hpending, -⟩
    refine ⟨fun hr => absurd hr Bool.false_ne_true, fun hr => ?_⟩
    rw [hdone, List.nil_append, List.append_nil]
    exact hpending hr
  | dropFunctors hrun =>
    refine h.imp id ?_
    rintro ⟨hpending, -⟩
    refine ⟨hpending, fun hr => ?_⟩
    rw [hrun] at hr
    cases hr
  | runFunctor _ hrun => exact extends_call.covered (h.pop hrun)
  | dangle _ hrun => exact h.pop hrun
  | handleEvent _ => exact (((extends_log _).trans extends_wrote).trans extends_userCode).covered h
  | handleClose _ _ => exact extends_handleClose.covered h
  | removeConnection _ => exact .inl (.inr (.inr (.inr (Nat.succ_pos _))))
  | removeAtOnce _ => exact covered_push_destroyed
  | removeConnectionInLoop _ => exact covered_push_destroyed
  | setDisconnecting _ => exact (extends_setState _).covered h
  | queueTask hheld => exact .inl (.inr (.inl hheld))
  | callTask _ _ => exact extends_call.covered h
  | hold _ => exact .inl (.inr (.inl (by simp)))
  | removeDangles _ | closeDangles _ | release _ | orphanHere _ | orphanAway _ =>
    exact absurd trivial hm

/-! ## 3. Settled along a life -/

/-- A move begins a `handle_close`. -/
def Move.Begins (v : Life) : Move → Prop
  | .handleClose _ => True
  | .runFunctor _ => v.running.head? = some .forceCloseInLoop ∧
    (v.conn.state = .connected ∨ v.conn.state = .disconnecting)
  | _ => False

@[simp] theorem closing_userCode {t : Nat} : (v.userCode t o).closing = v.closing := by
  unfold Life.userCode
  split <;> rfl

@[simp] theorem closing_wrote : (v.wrote o).closing = v.closing := by
  unfold Life.wrote
  split <;> rfl

/-- Only `force_close_in_loop` enters `handle_close`, and only of a connection that is not closed
yet. -/
theorem closing_call (h : ¬ (task = .forceCloseInLoop ∧
    (v.conn.state = .connected ∨ v.conn.state = .disconnecting))) :
    (v.call o task).closing = v.closing := by
  unfold Life.call
  cases task with
  | connectEstablished => simp [Life.runTask, Life.setState, Life.log]
  | connectDestroyed =>
    rw [Life.runTask]
    split <;> simp [Life.setState, Life.log]
  | sendInLoop =>
    rw [Life.runTask]
    split <;> simp [Life.log]
  | shutdownInLoop | startReadInLoop | stopReadInLoop => rfl
  | forceCloseInLoop =>
    rw [Life.runTask]
    split
    · rename_i hst
      exact absurd ⟨rfl, hst⟩ h
    · rfl
  | userCallback => simp [Life.runTask, Life.log]

theorem Life.Settled.call (hv : v.Settled) (h : ¬ (task = .forceCloseInLoop ∧
    (v.conn.state = .connected ∨ v.conn.state = .disconnecting))) : (v.call o task).Settled :=
  ⟨(closing_call h).trans hv.1, extends_call.removals_eq.trans hv.2⟩

/-- **No close comes from nothing.**  A connection that is settled has no `handle_close` in
progress and no removal on its way, and only a move that begins a close changes that. -/
theorem Life.Settled.step (h : v.Settled) {m : Move} (hm : ¬ m.Begins v) (hst : v.step m = some v') :
    v'.Settled := by
  cases moved_of_step hst with
  | runFunctor _ hrun =>
    refine Life.Settled.call h ?_
    rintro ⟨rfl, hstate⟩
    exact hm ⟨by rw [hrun]; rfl, hstate⟩
  | @handleEvent o _ =>
    have hext : Extends v (((v.log (.event v.conn.loop)).wrote o).userCode v.conn.loop o) :=
      ((extends_log _).trans extends_wrote).trans extends_userCode
    exact ⟨by simpa [Life.log] using h.1, hext.removals_eq.trans h.2⟩
  | handleClose _ _ => exact absurd trivial hm
  | removeConnection hclosing | removeAtOnce hclosing | closeDangles hclosing =>
    rw [h.1] at hclosing
    cases hclosing
  | removeConnectionInLoop hremovals | removeDangles hremovals =>
    rw [h.2] at hremovals
    exact absurd hremovals (lt_irrefl 0)
  | callTask _ hop => exact Life.Settled.call h fun hforce => Op.task_ne_forceClose hop hforce.1
  | orphanHere _ => exact Life.Settled.call h fun hforce => by cases hforce.1
  | rest | takeFunctors _ _ | dropFunctors _ | dangle _ _ | setDisconnecting _ | queueTask _ | hold _
  | release _ | orphanAway _ => exact h

/-! ## 4. Steps -/

variable {s s' : State} {c l t : Nat} {f : Functor} {lb : Label}

/-- What is true of a connection in a careful run.  It is covered at any time; and once the
server is gone, no close of it is under way, so no functor is left that binds the server. -/
structure Guarded (alive : Bool) (v : Life) : Prop where
  covered : v.Covered
  settled : alive = false → v.Settled

theorem Guarded.start (alive : Bool) (loop : Nat) (name : List Char) :
    Guarded alive ((Life.newborn loop name).start o) := by
  have hstored : (Life.newborn loop name).Kept := .inl rfl
  unfold Life.start
  split
  · refine ⟨.inl (extends_call.kept hstored), fun _ => ?_⟩
    exact Life.Settled.call ⟨rfl, rfl⟩ fun hforce => by cases hforce.1
  · exact ⟨.inl ((extends_push rfl).kept hstored), fun _ => ⟨rfl, rfl⟩⟩

/-- A move that begins a close comes from a step that `Careful` watches: an event, or a
`force_close_in_loop` that is run.  Both ask for the server. -/
theorem alive_of_begins (hg : Careful s lb) {m : Move} (hcause : Cause s lb c m)
    (hshape : Shape s) (hb : m.Begins (s.life c)) : s.alive := by
  cases m with
  | handleClose o =>
    rw [show lb = .handleClose c o from hcause] at hg
    exact hg
  | runFunctor o =>
    obtain ⟨l, task, rest, rfl, hrun⟩ := hcause
    obtain ⟨hhead, hstate⟩ := hb
    have hl : (s.conns c).loop = l := (hshape.next_functor hrun).2
    have htask : task = .forceCloseInLoop := by
      simpa [State.life, hl, hrun] using hhead
    subst htask
    refine hg ?_
    simp only [State.closesNext, hrun]
    simpa using hstate
  | _ => exact hb.elim

/-- The moves that give up a pointer come from steps that `Careful` watches, or from a server
that is gone with a close under way.  The latter does not happen to a connection that is guarded. -/
theorem covered_of_yields (hg : Careful s lb) {m : Move} (hcause : Cause s lb c m)
    (h : Guarded s.alive (s.life c)) (hy : m.Yields) {v : Life} (hst : (s.life c).step m = some v) :
    v.Covered := by
  cases moved_of_step hst with
  | @release t _ =>
    rw [show lb = .release t c from hcause] at hg
    exact hg
  | orphanHere hloop =>
    obtain ⟨-, rfl, n, rest, hentries⟩ := hcause
    have horphan : s.orphanCovered := hg
    simp only [State.orphanCovered, hentries, decide_eq_true_eq] at horphan
    exact extends_call.covered (horphan.resolve_left (not_not_intro hloop))
  | orphanAway _ => exact covered_push_destroyed
  | removeDangles hremovals =>
    rw [(h.settled hcause).2] at hremovals
    exact absurd hremovals (lt_irrefl 0)
  | closeDangles hclosing =>
    rw [(h.settled hcause).1] at hclosing
    cases hclosing
  | _ => exact hy.elim

/-- **Every careful step keeps every connection guarded.**  By the simulation, each connection
makes a move: one that gives nothing up keeps it covered by `Life.Covered.step`, and one that
does has a cause that the condition watches. -/
theorem guarded_step (hshape : Shape s) (h : ∀ c, s.Accepted c → Guarded s.alive (s.life c))
    (hg : Careful s lb) (hst : step s lb = some s') (hc : s'.Accepted c) :
    Guarded s'.alive (s'.life c) := by
  have hsim := step_simulates hshape hst
  rcases hsim.births c hc with hc | ⟨loop, name, o, hlife⟩
  · obtain ⟨m, hcause, hmove⟩ := hsim.moves c hc
    refine ⟨?_, ?_⟩
    · by_cases hy : m.Yields
      · exact covered_of_yields hg hcause (h c hc) hy hmove
      · exact (h c hc).covered.step hy hmove
    · intro hdead
      by_cases hlb : lb = .destroyServer
      · -- `~TcpServer` is entered: nothing is under way, and the step itself moves nothing.
        subst hlb
        have hsettled : (s.life c).Settled := hg c hc.2
        refine hsettled.step ?_ hmove
        cases m <;> simp_all [Move.Begins, Cause]
      · have hdead : s.alive = false := hsim.alive_eq hlb ▸ hdead
        refine ((h c hc).settled hdead).step ?_ hmove
        intro hb
        rw [alive_of_begins hg hcause hshape hb] at hdead
        cases hdead
  · rw [hlife]
    exact Guarded.start _ _ _

/-! ## 5. The functors' targets -/

/-- A connection that is kept has a pointer to it: in the table, in a thread's hands, on the
stack of `handle_close`, or in the removal that is queued. -/
theorem pointer_of_kept (hshape : Shape s) (h : (s.life c).Kept) : c ∈ s.pointers := by
  rw [mem_pointers]
  rcases h with h | h | h | h
  · exact .inl ⟨_, by simpa [State.life] using h⟩
  · obtain ⟨t, ht⟩ := List.exists_mem_of_ne_nil _ h
    simp only [State.life, List.mem_map, List.mem_filter, decide_eq_true_eq] at ht
    obtain ⟨⟨t', d⟩, ⟨hmem, rfl⟩, rfl⟩ := ht
    exact .inr (.inl ⟨t', hmem⟩)
  · refine .inr (.inr ⟨(s.conns c).loop, hshape.loop_le c, mem_loop_pointers.mpr (.inr ?_)⟩)
    simpa [State.life] using h
  · refine .inr (.inr ⟨0, Nat.zero_le _, mem_loop_pointers.mpr (.inl ?_)⟩)
    have hmem : .removeConnectionInLoop c ∈ (s.loops 0).running ++ (s.loops 0).pending :=
      List.count_pos_iff.mp h
    refine ⟨.removeConnectionInLoop c, ?_, rfl⟩
    simp only [Loop.functors, List.mem_append] at hmem ⊢
    tauto

/-- A functor with a pointer is a pointer, wherever in its loop it is. -/
theorem pointer_of_shared (hshape : Shape s) (h : task.shared = true)
    (hmem : .conn task c ∈ (s.loops (s.conns c).loop).functors) : c ∈ s.pointers := by
  rw [mem_pointers]
  refine .inr (.inr ⟨(s.conns c).loop, hshape.loop_le c, mem_loop_pointers.mpr (.inl ?_)⟩)
  exact ⟨.conn task c, hmem, by simp [Functor.pointer, h]⟩

/-- **The next functor finds its target.**  If it has a pointer, that is the reason; if it is
bound to `this`, its connection is covered, and what covers it is a pointer; if it is a removal,
its server is alive, since no close is under way otherwise. -/
theorem targetLives_of_guarded (hshape : Shape s) (h : ∀ c, s.Accepted c → Guarded s.alive (s.life c))
    {rest : List Functor} (hrun : (s.loops l).running = f :: rest) : s.TargetLives f := by
  obtain ⟨hacc, hhome⟩ := hshape.next_functor hrun
  cases f with
  | conn task c =>
    have hl : (s.conns c).loop = l := hhome
    have hnext : task ∈ (s.life c).running := by simp [State.life, hl, hrun]
    refine useCount_pos.mpr ?_
    by_cases hshared : task.shared = true
    · refine pointer_of_shared hshape hshared ?_
      rw [hl]
      simp [Loop.functors, hrun]
    · have hraw : hasRaw (s.life c).running = true :=
        List.any_eq_true.mpr ⟨task, hnext, by simpa using hshared⟩
      rcases (h c hacc).covered with hkept | ⟨-, hcover⟩
      · exact pointer_of_kept hshape hkept
      · obtain ⟨task', hmem, hshared'⟩ := List.any_eq_true.mp (hcover hraw)
        refine pointer_of_shared hshape hshared' ?_
        simp only [State.life, ← List.filterMap_append] at hmem
        exact mem_filterMap_taskOf.mp hmem
  | removeConnectionInLoop c =>
    have hl : 0 = l := hhome
    subst hl
    by_contra hdead
    have hremovals := ((h c hacc).settled (Bool.eq_false_iff.mpr hdead)).2
    simp [State.life, hrun] at hremovals

@[simp] theorem dangling_userCode : (s.userCode t c o).dangling = s.dangling := by
  unfold State.userCode
  split <;> rfl

@[simp] theorem dangling_wrote : (s.wrote c o).dangling = s.dangling := by
  unfold State.wrote
  split <;> rfl

@[simp] theorem dangling_setConn (g : Conn → Conn) : (s.setConn c g).dangling = s.dangling := rfl

@[simp] theorem dangling_log (e : LoopStep) : (s.log c e).dangling = s.dangling := rfl

@[simp] theorem dangling_handleClose : (s.handleClose l c o).dangling = s.dangling := by
  simp [State.handleClose, State.setLoop]

theorem dangling_runTask : (s.runTask l c o task).dangling = s.dangling := by
  cases task with
  | connectEstablished => simp [State.runTask]
  | connectDestroyed =>
    rw [State.runTask]
    split <;> simp
  | sendInLoop =>
    rw [State.runTask]
    split <;> simp
  | shutdownInLoop | startReadInLoop | stopReadInLoop => rfl
  | forceCloseInLoop =>
    rw [State.runTask]
    split <;> simp
  | userCallback => simp [State.runTask]

theorem dangling_call (h : s.targetThere f) : (s.call l o f).dangling = s.dangling := by
  unfold State.call
  rw [if_pos h]
  cases f with
  | conn task c => exact dangling_runTask.trans (dangling_log _)
  | removeConnectionInLoop c => rfl

theorem dangling_runInLoop (h : t = s.home f → s.targetThere f) :
    (s.runInLoop t o f).dangling = s.dangling := by
  unfold State.runInLoop
  split
  · rename_i ht
    exact dangling_call (h ht)
  · rfl

/-- A functor with a living target still has one when it has left the batch.  It goes from the
batch to what has been run of it, and is a pointer in both. -/
theorem targetThere_pop {rest : List Functor} (hrun : (s.loops l).running = f :: rest)
    (h : s.TargetLives f) : (s.pop l f rest).targetThere f := by
  cases f with
  | conn task c =>
    have hmem : c ∈ (s.pop l (.conn task c) rest).pointers := by
      rw [mem_pointers]
      rcases mem_pointers.mp (useCount_pos.mp h) with h | h | ⟨l', hl', h⟩
      · exact .inl h
      · exact .inr (.inl h)
      · refine .inr (.inr ⟨l', hl', ?_⟩)
        by_cases hl : l' = l
        · subst hl
          rw [mem_loop_pointers] at h ⊢
          simp only [State.pop, State.setLoop, Function.update_self]
          refine h.imp ?_ id
          rintro ⟨f, hf, hptr⟩
          exact ⟨f, (functors_pop hrun).mpr hf, hptr⟩
        · simpa [State.pop, State.setLoop, Function.update_of_ne hl] using h
    simp only [State.targetThere, Bool.or_eq_true, decide_eq_true_eq]
    exact .inr (useCount_pos.mpr hmem)
  | removeConnectionInLoop c => exact h

theorem dangling_step (hshape : Shape s) (h : ∀ c, s.Accepted c → Guarded s.alive (s.life c))
    (hst : step s lb = some s') : s'.dangling = s.dangling := by
  cases taken_of_step hst with
  | newConnection _ => exact dangling_runInLoop fun _ => rfl
  | runFunctor _ _ hrun =>
    exact dangling_call (targetThere_pop hrun (targetLives_of_guarded hshape h hrun))
  | handleEvent _ => simp
  | handleClose _ => simp
  | @closeCallback l c _ hclosing =>
    obtain ⟨hc, hl⟩ := hshape.closing l c hclosing
    refine dangling_runInLoop fun _ => ?_
    by_contra hdead
    have hsettled := (h c hc).settled (Bool.eq_false_iff.mpr hdead)
    simp [Life.Settled, State.life, hl, hclosing] at hsettled
  | post _ hcall => exact dangling_runInLoop fun _ => targetThere_of_holder (hshape.caller hcall)
  | destroyNext _ _ => exact dangling_runInLoop fun _ => rfl
  | _ => rfl

/-! ## 6. Destroyed for good -/

variable {d : Nat}

/-- Work for one connection makes no pointer to another. -/
theorem Within.pointer (hw : Within d s s') (hne : c ≠ d) (h : c ∈ s'.pointers) : c ∈ s.pointers := by
  rw [mem_pointers] at h ⊢
  rcases h with ⟨n, hn⟩ | ⟨t, ht⟩ | ⟨l, hl, hloop⟩
  · exact .inl ⟨n, hw.table_le n c hn⟩
  · rcases hw.holders_le _ ht with ht | heq
    · exact .inr (.inl ⟨t, ht⟩)
    · exact absurd heq hne
  · refine .inr (.inr ⟨l, hw.pool_eq ▸ hl, ?_⟩)
    rw [mem_loop_pointers] at hloop ⊢
    rcases hloop with ⟨f, hf, hptr⟩ | hclosing
    · rcases hw.functors_le l f hf with hf | ⟨habout, -⟩
      · exact .inl ⟨f, hf, hptr⟩
      · exact absurd ((about_of_pointer hptr).symm.trans habout) hne
    · rcases hw.closing_le l c hclosing with hclosing | ⟨heq, -⟩
      · exact .inr hclosing
      · exact absurd heq hne

/-- Moving functors inside a loop, or dropping some, makes no pointer.  The pointers are read off
the functors there are. -/
theorem pointer_setLoop {g : Loop → Loop}
    (hfun : ∀ f ∈ (g (s.loops l)).functors, f ∈ (s.loops l).functors)
    (hclosing : (g (s.loops l)).closing = (s.loops l).closing) (h : c ∈ (s.setLoop l g).pointers) :
    c ∈ s.pointers := by
  rw [mem_pointers] at h ⊢
  refine h.imp id (Or.imp id ?_)
  rintro ⟨l', hl', hloop⟩
  refine ⟨l', hl', ?_⟩
  by_cases hl : l' = l
  · subst hl
    simp only [State.setLoop, Function.update_self, mem_loop_pointers, hclosing] at hloop
    rw [mem_loop_pointers]
    refine hloop.imp ?_ id
    rintro ⟨f, hf, hptr⟩
    exact ⟨f, hfun f hf, hptr⟩
  · simpa [State.setLoop, Function.update_of_ne hl] using hloop

theorem pointer_accept (hshape : Shape s) (hid : s.nextConnId < 2 ^ 31) (hc : s.Accepted c)
    (h : c ∈ s.accept.pointers) : c ∈ s.pointers := by
  rw [mem_pointers] at h ⊢
  have hthreads : s.accept.pool.threads = s.pool.threads := getNextLoop_threads _
  rw [hthreads] at h
  refine h.imp ?_ id
  rintro ⟨n, hn⟩
  rw [hshape.get?_accept hid] at hn
  split at hn
  · exact absurd (Option.some.inj hn).symm (ne_next hc)
  · exact ⟨n, hn⟩

/-- A pointer to the connection that a loop or a thread works for. -/
theorem pointer_of_holder (h : (t, c) ∈ s.holders) : c ∈ s.pointers :=
  mem_pointers.mpr (.inr (.inl ⟨t, h⟩))

theorem pointer_runFunctor (hshape : Shape s) (hl : l ≤ s.pool.threads) {rest : List Functor}
    (hrun : (s.loops l).running = f :: rest) (hclosing : (s.loops l).closing = none)
    (h : c ∈ ((s.pop l f rest).call l o f).pointers) : c ∈ s.pointers := by
  obtain ⟨hacc, hhome⟩ := hshape.next_functor hrun
  have hpop : c ∈ (s.pop l f rest).pointers → c ∈ s.pointers :=
    pointer_setLoop (fun _ => (functors_pop hrun).mp) rfl
  by_cases hc : c = f.about
  · by_contra hgone
    -- Only a functor without a pointer can be next, and it finds nothing.
    have hdangle : ¬ (s.pop l f rest).targetThere f := by
      cases f with
      | conn task d =>
        obtain rfl : c = d := hc
        simp only [State.targetThere, Bool.or_eq_true, decide_eq_true_eq, useCount_pos, not_or]
        refine ⟨fun hshared => hgone ?_, fun hmem => hgone (hpop hmem)⟩
        have hl : (s.conns c).loop = l := hhome
        exact pointer_of_shared hshape hshared (by simp [hl, Loop.functors, hrun])
      | removeConnectionInLoop d =>
        obtain rfl : c = d := hc
        refine absurd (mem_pointers.mpr (.inr (.inr ⟨l, hl, mem_loop_pointers.mpr (.inl ?_)⟩))) hgone
        exact ⟨.removeConnectionInLoop c, by simp [Loop.functors, hrun], rfl⟩
    unfold State.call at h
    rw [if_neg hdangle] at h
    exact hgone (hpop h)
  · refine hpop (Within.pointer (within_call (shape_pop hshape hrun) hacc rfl hhome ?_) hc h)
    intro _
    simpa [State.pop, State.setLoop] using hclosing

/-- A step that works for a connection somebody points to.  It makes pointers to that connection
at most, so one to any other was there before. -/
theorem pointer_of_work (hw : Within d s s') (hd : d ∈ s.pointers) (h : c ∈ s'.pointers) :
    c ∈ s.pointers := by
  by_cases hne : c = d
  · exact hne ▸ hd
  · exact hw.pointer hne h

/-- No step makes a pointer to a connection that nobody pointed to.  New pointers are copies:
`shared_from_this()` and `TcpConnectionPtr conn(...)` both begin with one that is there. -/
theorem pointer_step (hshape : Shape s) (hc : s.Accepted c) (hst : step s lb = some s')
    (h : c ∈ s'.pointers) : c ∈ s.pointers := by
  cases taken_of_step hst with
  | newConnection hid =>
    exact pointer_accept hshape hid hc ((within_newConnection hshape hid).pointer (ne_next hc) h)
  | takeFunctors _ => exact pointer_setLoop functors_take rfl h
  | runFunctor hl hclosing hrun => exact pointer_runFunctor hshape hl hrun hclosing h
  | dropFunctors _ => exact pointer_setLoop functors_drop rfl h
  | handleEvent hr => exact pointer_of_work within_handleEvent (useCount_pos.mp hr.2.1) h
  | handleClose hr =>
    exact pointer_of_work (within_handleClose rfl hr.2.2.2.2.2) (useCount_pos.mp hr.2.1) h
  | @closeCallback l d hl hclosing =>
    have hd : d ∈ s.pointers :=
      mem_pointers.mpr (.inr (.inr ⟨l, hl, mem_loop_pointers.mpr (.inr hclosing)⟩))
    exact pointer_of_work (within_closeCallback hshape hclosing) hd h
  | test _ => exact h
  | @setDisconnecting t d op hcall =>
    exact pointer_of_work (within_setState .disconnecting) (pointer_of_holder (hshape.setter hcall)) h
  | @queue t d o hcall =>
    have hw : Within d (s.setCall t .idle)
        ((s.setCall t .idle).queueInLoop (.conn .forceCloseInLoop d)) := within_queueInLoop rfl
    exact pointer_of_work (s := s.setCall t .idle) hw (pointer_of_holder (hshape.caller hcall)) h
  | @post t d o op hop hcall =>
    have ht := hshape.caller hcall
    have htask : Functor.conn op.task d ≠ .conn .forceCloseInLoop d := fun heq =>
      Op.task_ne_forceClose hop (Functor.conn.inj heq).1
    exact pointer_of_work (s := s.setCall t .idle)
      (within_runInLoop (shape_idle hshape) (hshape.holders t d ht) rfl htask)
      (pointer_of_holder ht) h
  | @copy t t' d ht =>
    have hcopy : Within d s (s.userCode t' d ⟨true, false⟩) := within_userCode
    exact pointer_of_work hcopy (pointer_of_holder ht) h
  | release _ _ =>
    rw [mem_pointers] at h ⊢
    refine h.imp id (Or.imp ?_ id)
    rintro ⟨t', ht'⟩
    exact ⟨t', List.mem_of_mem_erase ht'⟩
  | destroyServer _ => exact h
  | destroyNext _ he =>
    obtain ⟨hd, hname, hget⟩ := hshape.head_entry he
    rw [← hname] at h
    exact pointer_of_work (within_destroyNext hshape hd) (mem_pointers.mpr (.inl ⟨_, hget⟩)) h

/-- **What is destroyed stays destroyed**, along every run.  So a use count of zero is the end of
a connection, and the destructor runs once. -/
theorem destroyed_stays {G : State → Label → Prop} (hshape : Shape s) (hc : s.Accepted c)
    (hgone : s.useCount c = 0) (h : Reach step G s s') : s'.useCount c = 0 := by
  have hinv : Shape s' ∧ s'.Accepted c ∧ c ∉ s'.pointers := by
    induction h with
    | refl => exact ⟨hshape, hc, fun hmem => (useCount_pos.mpr hmem).ne' hgone⟩
    | tail lb _ _ hst ih =>
      obtain ⟨hshape, hc, hgone⟩ := ih
      have hsim := step_simulates hshape hst
      exact ⟨hsim.shape, hsim.stays c hc, fun hmem => hgone (pointer_step hshape hc hst hmem)⟩
  exact Nat.eq_zero_of_not_pos fun hpos => hinv.2.2 (useCount_pos.mp hpos)

/-! ## 7. Runs -/

/-- The invariant of careful runs.  The shape is kept by every step, the guard by careful ones,
and as long as it holds nothing is recorded as dangling. -/
structure Sound (s : State) : Prop where
  shape : Shape s
  guarded : ∀ c, s.Accepted c → Guarded s.alive (s.life c)
  dangling : s.dangling = []

theorem Sound.init (name : List Char) (ipPort : IpPort) (threads : Nat) :
    Sound (State.init name ipPort threads) where
  shape := Shape.init name ipPort threads
  guarded := fun _ hc => absurd hc.2 (not_lt_of_ge hc.1)
  dangling := rfl

theorem Sound.step (h : Sound s) (hg : Careful s lb) (hst : step s lb = some s') : Sound s' where
  shape := (step_simulates h.shape hst).shape
  guarded := fun _ hc => guarded_step h.shape h.guarded hg hst hc
  dangling := (dangling_step h.shape h.guarded hst).trans h.dangling

/-- **No functor outlives its target.**  In every run all of whose steps are careful, with any
number of loops, threads and connections: whatever functor a loop is about to run, the object it
is bound to has not been destroyed, and none was run without.  Use counts are counted here, not
assumed: the target of a functor is there if the number of pointers to it is not zero. -/
theorem functors_find_targets (name : List Char) (ipPort : IpPort) (threads : Nat) {s : State}
    (h : Reach step Careful (State.init name ipPort threads) s) :
    (∀ l f rest, (s.loops l).running = f :: rest → s.TargetLives f) ∧ s.dangling = [] := by
  have hsound : Sound s :=
    h.invariant (Sound.init name ipPort threads) fun s lb s' hs hg hst => hs.step hg hst
  exact ⟨fun l f rest hrun => targetLives_of_guarded hsound.shape hsound.guarded hrun,
    hsound.dangling⟩

/-- A connection that is used from a thread, closed by the peer and let go of, and a server that is
destroyed when that is over, with a functor of the second connection still queued. -/
def carefulRun : List Label :=
  let keep : Outcome := ⟨true, false⟩
  let pass : Outcome := ⟨false, false⟩
  [.newConnection pass, .newConnection pass,
    .takeFunctors 1, .runFunctor 1 keep, .runFunctor 1 keep, .dropFunctors 1, .copy 1 7 1, .copy 1 8 2,
    .test 7 .send 1, .post 7 pass, .release 7 1, .release 1 1,
    .takeFunctors 1, .runFunctor 1 pass, .dropFunctors 1,
    .handleClose 1 pass, .closeCallback 1, .takeFunctors 0, .runFunctor 0 pass, .dropFunctors 0,
    .test 8 .startRead 2, .post 8 pass, .destroyServer, .destroyNext pass, .release 8 2, .release 1 2,
    .takeFunctors 1, .runFunctor 1 pass]

theorem functors_find_targets_carefulRun :
    ∃ s, Reach step Careful (State.init "echo".toList localhost 1) s ∧ s.alive = false ∧
      (s.loops 1).running = [.conn .startReadInLoop 2, .conn .connectDestroyed 2] ∧
      0 < s.useCount 2 ∧ s.dangling = [] := by
  have hrun : ∃ s, Reach step Careful (State.init "echo".toList localhost 1) s ∧ (s.alive = false ∧
      (s.loops 1).running = [.conn .startReadInLoop 2, .conn .connectDestroyed 2]) :=
    Reach.exists_of_exec carefulRun _ (by decide +kernel) (by decide +kernel)
  obtain ⟨s, hreach, halive, hnext⟩ := hrun
  obtain ⟨htargets, hdangling⟩ := functors_find_targets _ _ _ hreach
  exact ⟨s, hreach, halive, hnext, htargets 1 _ _ hnext, hdangling⟩

/-- Thread `7` calls `start_read` on a connection that is closed already, and lets go of it. -/
def lateStartRead : List Label :=
  let keep : Outcome := ⟨true, false⟩
  let pass : Outcome := ⟨false, false⟩
  [.newConnection pass, .takeFunctors 1, .runFunctor 1 keep, .dropFunctors 1, .copy 1 7 1, .release 1 1,
    .handleClose 1 pass, .closeCallback 1, .takeFunctors 0, .runFunctor 0 pass, .dropFunctors 0,
    .takeFunctors 1, .test 7 .startRead 1, .post 7 pass, .release 7 1, .runFunctor 1 pass,
    .dropFunctors 1, .takeFunctors 1]

/-- The peer closes, and the server is destroyed before its loop gets to the removal. -/
def earlyDestroy : List Label :=
  let pass : Outcome := ⟨false, false⟩
  [.newConnection pass, .takeFunctors 1, .runFunctor 1 pass, .dropFunctors 1,
    .handleClose 1 pass, .closeCallback 1, .destroyServer, .destroyNext pass, .takeFunctors 0]

/-- Without the condition a loop can run a functor on a connection that is destroyed, and on a
server that is.  The first needs a user who calls a closed connection and lets go of it, the
second an owner who does not wait; nothing in the library prevents either. -/
theorem functors_dangle :
    (∃ s, Reach step anyStep (State.init "echo".toList localhost 1) s ∧
      (s.loops 1).running = [.conn .startReadInLoop 1] ∧ s.nextConnId = 2 ∧ s.useCount 1 = 0) ∧
    ∃ s, Reach step anyStep (State.init "echo".toList localhost 1) s ∧
      (s.loops 0).running = [.removeConnectionInLoop 1] ∧ s.alive = false :=
  ⟨Reach.exists_of_exec lateStartRead _ (meets_any lateStartRead _) (by decide +kernel),
    Reach.exists_of_exec earlyDestroy _ (meets_any earlyDestroy _) (by decide +kernel)⟩

end Suduo.TcpServer
