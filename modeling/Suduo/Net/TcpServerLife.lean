/-
# Every connection of a server lives its life

Each step of the system is, for each connection there is, one move of `Life.step` (`step_simulates`): the
connection it works for makes the move, the others rest; a loop that takes or drops its functors moves
all its connections at once.  So what holds along every life holds of every connection of every run.

`Cause` ties the moves that are not harmless back to the step they come from.
-/
import Suduo.Net.TcpServerShape

namespace Suduo.TcpServer

open Lib
open TcpConnection (ConnState)

variable {s s' s₁ : State} {c d l t : Nat} {o : Outcome} {f : Functor} {task : Task}

/-! ## 1. What a step is to a connection -/

/-- Which step a move of connection `c` can come from, where that matters.  Most moves are
harmless wherever they come from; a move that runs a task, closes, lets go or destroys has to be
traced to the step, because that is where a condition can be put. -/
def Cause (s : State) (lb : Label) (c : Nat) : Move → Prop
  | .runFunctor o => ∃ l task rest, lb = .runFunctor l o ∧ (s.loops l).running = .conn task c :: rest
  | .handleClose o => lb = .handleClose c o
  | .removeAtOnce | .removeConnectionInLoop => s.alive
  | .removeDangles | .closeDangles => s.alive = false
  | .release t => lb = .release t c
  | .orphan o =>
    s.alive = false ∧ lb = .destroyNext o ∧ ∃ n rest, s.connections.entries = (n, c) :: rest
  | _ => True

/-- What a step does to the connections there are and to a new one.  Each of the former makes one
move of its own life, with a cause in the step; the latter, if there is one, is newborn and has
been started. -/
structure Simulates (s : State) (lb : Label) (s' : State) : Prop where
  shape : Shape s'
  alive_eq : lb ≠ .destroyServer → s'.alive = s.alive
  moves : ∀ c, s.Accepted c → ∃ m, Cause s lb c m ∧ (s.life c).step m = some (s'.life c)
  stays : ∀ c, s.Accepted c → s'.Accepted c
  births : ∀ c, s'.Accepted c → s.Accepted c ∨
    ∃ loop name o, s'.life c = (Life.newborn loop name).start o

variable {lb : Label}

theorem simulates_of_within (h₁ : Shape s₁) (hc : s₁.Accepted c) (halive : s₁.alive = s.alive)
    (hid : s₁.nextConnId = s.nextConnId)
    (hlife : ∀ d, s.Accepted d → d ≠ c → s₁.life d = s.life d) (hw : Within c s₁ s')
    (hself : ∃ m, Cause s lb c m ∧ (s.life c).step m = some (s'.life c)) : Simulates s lb s' := by
  have hacc : ∀ d, s₁.Accepted d ↔ s.Accepted d := fun d => by
    rw [State.Accepted, State.Accepted, hid]
  refine ⟨h₁.within hc hw, fun _ => hw.alive_eq.trans halive, ?_,
    fun d hd => hw.accepted.mpr ((hacc d).mpr hd), ?_⟩
  · intro d hd
    by_cases hdc : d = c
    · subst hdc
      exact hself
    · refine ⟨.rest, trivial, ?_⟩
      rw [hw.life_eq d ((hacc d).mpr hd) hdc, hlife d hd hdc]
      rfl
  · intro d hd
    exact .inl ((hacc d).mp (hw.accepted.mp hd))

/-- Work for one connection, from the state itself.  That connection makes the move, and the
others rest. -/
theorem simulates_of_work (h : Shape s) (hc : s.Accepted c) (hw : Within c s s')
    (hself : ∃ m, Cause s lb c m ∧ (s.life c).step m = some (s'.life c)) : Simulates s lb s' :=
  simulates_of_within h hc rfl rfl (fun _ _ _ => rfl) hw hself

theorem life_removeConnectionInLoop_self (h : Shape s) (hc : s.Accepted c) :
    (s.removeConnectionInLoop c).life c = (s.life c).erase := by
  have hlog : s.removeConnectionInLoop c = ((s.unstore c).log c (.erased
      (if s.connections.contains (s.conns c).name then 1 else 0))).queueInLoop
      (.conn .connectDestroyed c) := rfl
  rw [hlog, Life.erase, life_queueTask_self, life_log_self, life_unstore_self, h.contains_name hc]

/-! ## 2. Step by step -/

/-- The others do not notice a new connection.  It takes a number and a name that none of them
has, and its loop gets no task yet. -/
theorem life_accept (h : Shape s) (hid : s.nextConnId < 2 ^ 31) (hd : s.Accepted d) :
    s.accept.life d = s.life d := by
  have hname : (s.conns d).name ≠ serverConnName s.name s.ipPort s.nextConnId := by
    rw [h.named d hd]
    intro heq
    exact ne_next hd (serverConnName_inj _ _ (lt_trans hd.2 hid) hid heq)
  rw [State.life, conns_accept_of_ne (ne_next hd), h.get?_accept hid, if_neg hname]
  rfl

/-- To its own loop a new connection is unknown.  There is no task for it anywhere, since the
functors in all queues are of connections accepted before. -/
theorem life_accept_self (h : Shape s) (hid : s.nextConnId < 2 ^ 31) :
    s.accept.life s.nextConnId =
      Life.newborn s.pool.getNextLoop.1 (serverConnName s.name s.ipPort s.nextConnId) := by
  have hnone : ∀ l, ∀ f ∈ (s.loops l).functors, f.taskOf s.nextConnId = none ∧
      f ≠ .removeConnectionInLoop s.nextConnId := by
    intro l f hf
    have hne : f.about ≠ s.nextConnId := ne_next (h.functors l f hf).1
    refine ⟨taskOf_of_ne hne, ?_⟩
    rintro rfl
    exact hne rfl
  have hclosing : ∀ l, (s.loops l).closing ≠ some s.nextConnId := fun l hl =>
    ne_next (h.closing l _ hl).1 rfl
  have hheld : ∀ t, (t, s.nextConnId) ∉ s.holders := fun t ht => ne_next (h.holders t _ ht) rfl
  have hloops : s.accept.loops = s.loops := rfl
  have hholders : s.accept.holders = s.holders := rfl
  have hnil : ∀ l, ∀ fs ⊆ (s.loops l).functors, fs.filterMap (Functor.taskOf s.nextConnId) = [] :=
    fun l fs hfs => List.filterMap_eq_nil_iff.mpr fun f hf => (hnone l f (hfs hf)).1
  have hpending : ∀ l, (s.loops l).pending.filterMap (Functor.taskOf s.nextConnId) = [] :=
    fun l => hnil l _ fun f hf => by simp [Loop.functors, hf]
  have hrunning : ∀ l, (s.loops l).running.filterMap (Functor.taskOf s.nextConnId) = [] :=
    fun l => hnil l _ fun f hf => by simp [Loop.functors, hf]
  have hdone : ∀ l, (s.loops l).done.filterMap (Functor.taskOf s.nextConnId) = [] :=
    fun l => hnil l _ fun f hf => by simp [Loop.functors, hf]
  have hremovals : ((s.loops 0).running ++ (s.loops 0).pending).count
      (.removeConnectionInLoop s.nextConnId) = 0 := by
    rw [List.count_eq_zero]
    intro hmem
    refine (hnone 0 _ ?_).2 rfl
    simp only [Loop.functors, List.mem_append] at hmem ⊢
    tauto
  have hfilter : s.holders.filter (fun k => k.2 = s.nextConnId) = [] := by
    rw [List.filter_eq_nil_iff]
    rintro ⟨t, c⟩ hk
    simp only [decide_eq_true_eq]
    rintro rfl
    exact hheld t hk
  simp [State.life, Life.newborn, conns_accept_self, h.get?_accept hid, hloops, hholders, hpending,
    hrunning, hdone, hremovals, hclosing, hfilter]

/-- `run_in_loop(connect_established)`, seen from the connection.  In the server's own loop it is
run at once, in any other it is queued. -/
theorem life_start :
    (s.runInLoop 0 o (.conn .connectEstablished c)).life c = (s.life c).start o := by
  rw [State.runInLoop, Life.start, life_conn]
  by_cases hl : (s.conns c).loop = 0
  · rw [if_pos (show 0 = s.home (.conn .connectEstablished c) from hl.symm), if_pos hl,
      life_call_self hl rfl]
  · rw [if_neg (show 0 ≠ s.home (.conn .connectEstablished c) from Ne.symm hl), if_neg hl,
      life_queueTask_self]

theorem simulates_newConnection (h : Shape s) (hid : s.nextConnId < 2 ^ 31) :
    Simulates s lb (s.newConnection o) := by
  have h₁ := shape_accept h hid
  have hw := within_newConnection (o := o) h hid
  have hself : s.accept.Accepted s.nextConnId := (accepted_accept h).mpr (.inr rfl)
  refine ⟨h₁.within hself hw, fun _ => hw.alive_eq, ?_,
    fun d hd => hw.accepted.mpr ((accepted_accept h).mpr (.inl hd)), ?_⟩
  · intro d hd
    refine ⟨.rest, trivial, ?_⟩
    rw [hw.life_eq d ((accepted_accept h).mpr (.inl hd)) (ne_next hd), life_accept h hid hd]
    rfl
  · intro d hd
    rcases (accepted_accept h).mp (hw.accepted.mp hd) with hd | rfl
    · exact .inl hd
    · refine .inr ⟨s.pool.getNextLoop.1, serverConnName s.name s.ipPort s.nextConnId, o, ?_⟩
      rw [newConnection_eq, life_start, life_accept_self h hid]

theorem simulates_takeFunctors (h : Shape s) (hfree : (s.loops l).Free) :
    Simulates s lb (s.setLoop l fun k => { k with pending := [], running := k.pending }) := by
  obtain ⟨hrun, hdone, -⟩ := hfree
  refine ⟨shape_setLoop h functors_take rfl, fun _ => rfl, ?_, fun _ hd => hd, fun _ hd => .inl hd⟩
  · intro c _
    by_cases hl : (s.conns c).loop = l
    · refine ⟨.takeFunctors, trivial, ?_⟩
      subst hl
      by_cases h0 : (s.conns c).loop = 0
      · rw [h0] at hrun hdone
        simp [Life.step, State.life, State.setLoop, hrun, hdone, h0]
      · simp [Life.step, State.life, State.setLoop, hrun, hdone, Function.update_of_ne (Ne.symm h0)]
    · refine ⟨.rest, trivial, ?_⟩
      by_cases h0 : l = 0
      · subst h0
        simp [Life.step, State.life, State.setLoop, hrun, Function.update_of_ne hl]
      · simp [Life.step, State.life, State.setLoop, Function.update_of_ne hl,
          Function.update_of_ne (Ne.symm h0)]

theorem simulates_dropFunctors (h : Shape s) (hrun : (s.loops l).running = []) :
    Simulates s lb (s.setLoop l fun k => { k with done := [] }) := by
  refine ⟨shape_setLoop h functors_drop rfl, fun _ => rfl, ?_, fun _ hd => hd, fun _ hd => .inl hd⟩
  · intro c _
    by_cases hl : (s.conns c).loop = l
    · refine ⟨.dropFunctors, trivial, ?_⟩
      subst hl
      by_cases h0 : (s.conns c).loop = 0
      · rw [h0] at hrun
        simp [Life.step, State.life, State.setLoop, hrun, h0]
      · simp [Life.step, State.life, State.setLoop, hrun, Function.update_of_ne (Ne.symm h0)]
    · refine ⟨.rest, trivial, ?_⟩
      by_cases h0 : l = 0
      · subst h0
        simp [Life.step, State.life, State.setLoop, Function.update_of_ne hl]
      · simp [Life.step, State.life, State.setLoop, Function.update_of_ne hl,
          Function.update_of_ne (Ne.symm h0)]

/-- The others do not notice that a functor leaves the batch.  What they see of the batch is what
is left when it is filtered. -/
theorem life_pop_of_ne {rest : List Functor} (hrun : (s.loops l).running = f :: rest)
    (hd : d ≠ f.about) : (s.pop l f rest).life d = s.life d := by
  have htask : f.taskOf d = none := taskOf_of_ne (Ne.symm hd)
  have hremoval : f ≠ .removeConnectionInLoop d := by
    rintro rfl
    exact hd rfl
  refine life_setLoop rfl ?_ ?_ ?_ rfl
  · simp [hrun, htask]
  · simp [htask]
  · simp [hrun, hremoval]

theorem life_pop_task {rest : List Functor} (hrun : (s.loops l).running = .conn task c :: rest)
    (hl : (s.conns c).loop = l) :
    (s.pop l (.conn task c) rest).life c =
      (s.life c).pop task (rest.filterMap (Functor.taskOf c)) := by
  subst hl
  by_cases h0 : (s.conns c).loop = 0
  · rw [h0] at hrun
    simp [State.pop, State.setLoop, State.life, Life.pop, h0, hrun]
  · simp [State.pop, State.setLoop, State.life, Life.pop, Function.update_of_ne (Ne.symm h0)]

theorem life_pop_removal {rest : List Functor}
    (hrun : (s.loops 0).running = .removeConnectionInLoop c :: rest) :
    (s.pop 0 (.removeConnectionInLoop c) rest).life c =
      { s.life c with removals := (s.life c).removals - 1 } := by
  by_cases h0 : (s.conns c).loop = 0
  · simp [State.pop, State.setLoop, State.life, h0, hrun, List.filterMap_cons]
  · simp [State.pop, State.setLoop, State.life, Function.update_of_ne h0, hrun]

/-- A functor whose target is gone leaves nothing but the record of it.  In the program this is
undefined; here the record is what the results of `Suduo.Net.TcpServerLifetime` are about. -/
theorem life_call_dangling (h : ¬ s.targetThere f) : (s.call l o f).life c = s.life c := by
  unfold State.call
  rw [if_neg h]
  rfl

theorem life_call_removal_self (h : Shape s) (hc : s.Accepted c) (halive : s.alive) :
    (s.call l o (.removeConnectionInLoop c)).life c = (s.life c).erase := by
  rw [State.call, if_pos (show s.targetThere (.removeConnectionInLoop c) from halive)]
  exact life_removeConnectionInLoop_self h hc

/-- A functor that is run moves its own connection.  Which move it is follows from the task, from
whether the target is there, and, for a removal, from whether the server is. -/
theorem life_runFunctor (h : Shape s) {rest : List Functor}
    (hrun : (s.loops l).running = f :: rest) (hclosing : (s.loops l).closing = none) :
    ∃ m, Cause s (.runFunctor l o) f.about m ∧
      (s.life f.about).step m = some (((s.pop l f rest).call l o f).life f.about) := by
  obtain ⟨hacc, hhome⟩ := h.next_functor hrun
  have h₁ := shape_pop h hrun
  cases f with
  | conn task c =>
    have hl : (s.conns c).loop = l := hhome
    have hpop := life_pop_task hrun hl
    have hrunning : (s.life c).running = task :: rest.filterMap (Functor.taskOf c) := by
      simp [State.life, hl, hrun]
    have hopen : (s.life c).closing = false := by simp [State.life, hl, hclosing]
    by_cases hthere : (s.pop l (.conn task c) rest).targetThere (.conn task c)
    · refine ⟨.runFunctor o, ⟨l, task, rest, rfl, hrun⟩, ?_⟩
      simp only [Functor.about]
      rw [life_call_self (show ((s.pop l (.conn task c) rest).conns c).loop = l from hl) hthere, hpop]
      simp [Life.step, hrunning, hopen]
    · refine ⟨.dangle, trivial, ?_⟩
      have hraw : task.shared = false := by
        simp only [State.targetThere, Bool.or_eq_true, not_or] at hthere
        exact Bool.eq_false_iff.mpr hthere.1
      simp only [Functor.about]
      rw [life_call_dangling hthere, hpop]
      simp [Life.step, hrunning, hraw]
  | removeConnectionInLoop c =>
    have hl : 0 = l := hhome
    subst hl
    have hpos : 0 < (s.life c).removals := by simp [State.life, hrun]
    cases halive : s.alive with
    | true =>
      refine ⟨.removeConnectionInLoop, halive, ?_⟩
      simp only [Functor.about] at hacc ⊢
      rw [life_call_removal_self h₁ hacc halive, life_pop_removal hrun]
      simp only [Life.step, if_pos hpos]
    | false =>
      refine ⟨.removeDangles, halive, ?_⟩
      have hgone : ¬ (s.pop 0 (.removeConnectionInLoop c) rest).targetThere
          (.removeConnectionInLoop c) := Bool.eq_false_iff.mp halive
      simp only [Functor.about]
      rw [life_call_dangling hgone, life_pop_removal hrun]
      simp only [Life.step, if_pos hpos]

theorem simulates_runFunctor (h : Shape s) {rest : List Functor}
    (hrun : (s.loops l).running = f :: rest) (hclosing : (s.loops l).closing = none) :
    Simulates s (.runFunctor l o) ((s.pop l f rest).call l o f) := by
  obtain ⟨hacc, hhome⟩ := h.next_functor hrun
  have h₁ := shape_pop h hrun
  refine simulates_of_within h₁ hacc rfl rfl (fun d _ hd => life_pop_of_ne hrun hd) ?_
    (life_runFunctor h hrun hclosing)
  refine within_call h₁ hacc rfl hhome ?_
  intro _
  simpa [State.pop, State.setLoop] using hclosing

theorem Shape.ready (h : Shape s) (hr : s.Ready c) : s.Accepted c :=
  h.accepted_of_pointer (useCount_pos.mp hr.2.1)

theorem simulates_handleEvent (h : Shape s) (hr : s.Ready c) :
    Simulates s lb (((s.log c (.event (s.conns c).loop)).wrote c o).userCode (s.conns c).loop c o) := by
  refine simulates_of_work h (h.ready hr) within_handleEvent ⟨.handleEvent o, trivial, ?_⟩
  simp [Life.step, hr.1]

theorem simulates_handleClose (h : Shape s) (hr : s.Ready c) :
    Simulates s (.handleClose c o) (s.handleClose (s.conns c).loop c o) := by
  have hfree := hr.2.2.2.2.2
  refine simulates_of_work h (h.ready hr) (within_handleClose rfl hfree) ⟨.handleClose o, rfl, ?_⟩
  have hclosing : (s.life c).closing = false := by simp [State.life, hfree]
  rw [life_handleClose_self rfl]
  simp [Life.step, hr.1, hclosing]

/-- The loop leaves `handle_close`, and its local pointer goes. -/
theorem life_leaveClose_self (hl : (s.conns c).loop = l) :
    (s.setLoop l fun k => k.setClosing none).life c = (s.life c).setClosing false := by
  subst hl
  simp only [State.setLoop, State.life, Life.setClosing, Loop.setClosing, Function.update_self]
  by_cases h0 : (s.conns c).loop = 0
  · simp [h0]
  · simp [Function.update_of_ne (Ne.symm h0)]

theorem life_queueRemoval_self :
    (s.queueInLoop (.removeConnectionInLoop c)).life c =
      { s.life c with removals := (s.life c).removals + 1 } := by
  simp only [State.queueInLoop, State.setLoop, State.home, State.life, Loop.push, Function.update_self]
  by_cases h0 : (s.conns c).loop = 0
  · simp [h0, List.count_append, Nat.add_assoc]
  · simp [Function.update_of_ne h0, List.count_append, Nat.add_assoc]

theorem simulates_closeCallback (h : Shape s) (hclosing : (s.loops l).closing = some c) :
    Simulates s lb ((s.setLoop l fun k => k.setClosing none).runInLoop l o
      (.removeConnectionInLoop c)) := by
  obtain ⟨hc, hl⟩ := h.closing l c hclosing
  have hlife : (s.life c).closing := by simp [State.life, hl, hclosing]
  have hleave := within_leaveClose hclosing
  have hself := life_leaveClose_self hl
  refine simulates_of_work h hc (within_closeCallback h hclosing) ?_
  unfold State.runInLoop
  by_cases h0 : l = 0
  · rw [if_pos (show l = (s.setLoop l fun k => k.setClosing none).home (.removeConnectionInLoop c)
      from h0)]
    cases halive : s.alive with
    | true =>
      refine ⟨.removeAtOnce, halive, ?_⟩
      rw [life_call_removal_self (h.within hc hleave) (hleave.accepted.mpr hc) halive, hself]
      simp only [Life.step, if_pos hlife]
    | false =>
      refine ⟨.closeDangles, halive, ?_⟩
      have hgone : ¬ (s.setLoop l fun k => k.setClosing none).targetThere
          (.removeConnectionInLoop c) := Bool.eq_false_iff.mp halive
      rw [life_call_dangling hgone, hself]
      simp only [Life.step, if_pos hlife]
  · rw [if_neg (show l ≠ (s.setLoop l fun k => k.setClosing none).home (.removeConnectionInLoop c)
      from h0)]
    refine ⟨.removeConnection, trivial, ?_⟩
    rw [life_queueRemoval_self, hself]
    simp only [Life.step, if_pos hlife, Life.setClosing]

theorem simulates_test (h : Shape s) {op : Op} (ht : (t, c) ∈ s.holders) :
    Simulates s lb (s.setCall t (op.test (s.conns c).state c)) := by
  refine ⟨shape_setCall h ?_, fun _ => rfl, fun d _ => ⟨.rest, trivial, rfl⟩, fun _ hd => hd,
    fun _ hd => .inl hd⟩
  intro d hd
  have hon : (op.test (s.conns c).state c).on = none ∨
      (op.test (s.conns c).state c).on = some c := by
    cases op <;> simp only [Op.test] <;> (try split) <;> simp [Call.on]
  rcases hon with hon | hon
  · rw [hon] at hd
    cases hd
  · rw [hon] at hd
    cases hd
    exact ht

theorem simulates_setDisconnecting (h : Shape s) {op : Op} (hcall : s.calls t = .setting op c) :
    Simulates s lb ((s.setConn c fun k => k.setState .disconnecting).setCall t (.posting op c)) := by
  have ht := h.setter hcall
  have h₁ : Shape (s.setCall t (.posting op c)) := by
    refine shape_setCall h ?_
    intro d hd
    cases hd
    exact ht
  refine simulates_of_within h₁ (h.holders t c ht) rfl rfl (fun _ _ _ => rfl)
    (within_setState .disconnecting) ?_
  refine ⟨.setDisconnecting, trivial, ?_⟩
  have hlife : ((s.setCall t (.posting op c)).setConn c fun k => k.setState .disconnecting).life c =
      (s.life c).setState .disconnecting := life_setState_self _
  simp only [Life.step, if_neg (held_ne_nil ht)]
  exact congrArg some hlife.symm

/-- Handing over a functor to the loop, whether it is queued or called at once.  In both cases
the thread is idle afterwards. -/
theorem simulates_queue (h : Shape s) (op : Op) (ht : (t, c) ∈ s.holders) :
    Simulates s lb ((s.setCall t .idle).queueInLoop (.conn op.task c)) := by
  refine simulates_of_within (shape_idle h) (h.holders t c ht) rfl rfl (fun _ _ _ => rfl)
    (within_queueInLoop rfl) ?_
  refine ⟨.queueTask op, trivial, ?_⟩
  rw [life_queueTask_self]
  simp only [Life.step, if_neg (held_ne_nil ht)]
  rfl

theorem simulates_post (h : Shape s) {op : Op} (ht : (t, c) ∈ s.holders) (hop : op ≠ .forceClose) :
    Simulates s lb ((s.setCall t .idle).runInLoop t o (.conn op.task c)) := by
  unfold State.runInLoop
  split
  · rename_i hl
    have htask : Functor.conn op.task c ≠ .conn .forceCloseInLoop c := fun heq =>
      Op.task_ne_forceClose hop (Functor.conn.inj heq).1
    refine simulates_of_within (shape_idle h) (h.holders t c ht) rfl rfl (fun _ _ _ => rfl)
      (within_call (shape_idle h) (h.holders t c ht) rfl hl.symm fun heq => absurd heq htask) ?_
    refine ⟨.callTask op o, trivial, ?_⟩
    rw [life_call_self hl.symm (targetThere_of_holder ht)]
    simp only [Life.step, if_neg (not_or.mpr ⟨held_ne_nil ht, hop⟩)]
    rfl
  · exact simulates_queue h op ht

theorem simulates_copy (h : Shape s) {t' : Nat} (ht : (t, c) ∈ s.holders) :
    Simulates s lb { s with holders := s.holders ++ [(t', c)] } := by
  have hcopy : ({ s with holders := s.holders ++ [(t', c)] } : State) =
      s.userCode t' c ⟨true, false⟩ := rfl
  rw [hcopy]
  refine simulates_of_work h (h.holders t c ht) within_userCode ⟨.hold t', trivial, ?_⟩
  rw [life_userCode_self]
  simp only [Life.step, if_neg (held_ne_nil ht)]
  rfl

/-- The threads that hold `c`, after thread `t` has let go of it.  It lets go of one pointer, and
may have others. -/
theorem held_erase (hs : List (Nat × Nat)) :
    ((hs.erase (t, c)).filter fun h => h.2 = c).map Prod.fst =
      ((hs.filter fun h => h.2 = c).map Prod.fst).erase t := by
  induction hs with
  | nil => rfl
  | cons h hs ih =>
    by_cases hh : h = (t, c)
    · subst hh
      simp
    · rw [List.erase_cons_tail (by simpa using hh)]
      by_cases hc : h.2 = c
      · have ht : h.1 ≠ t := fun ht => hh (Prod.ext ht hc)
        simp [hc, ht, ih]
      · simp [hc, ih]

theorem held_erase_of_ne (hd : d ≠ c) (hs : List (Nat × Nat)) :
    (hs.erase (t, c)).filter (fun h => h.2 = d) = hs.filter fun h => h.2 = d := by
  induction hs with
  | nil => rfl
  | cons h hs ih =>
    by_cases hh : h = (t, c)
    · subst hh
      simp [Ne.symm hd]
    · rw [List.erase_cons_tail (by simpa using hh), List.filter_cons, List.filter_cons, ih]

theorem simulates_release (h : Shape s) (hcall : s.calls t = .idle) (ht : (t, c) ∈ s.holders) :
    Simulates s (.release t c) { s with holders := s.holders.erase (t, c) } := by
  refine ⟨{ h with holders := ?_, calls := ?_ }, fun _ => rfl, ?_, fun _ hd => hd,
    fun _ hd => .inl hd⟩
  · intro t' d hd
    exact h.holders t' d (List.mem_of_mem_erase hd)
  · intro t' d hd
    have hmem := h.calls t' d hd
    have hne : (t', d) ≠ (t, c) := by
      rintro heq
      rw [Prod.mk.injEq] at heq
      rw [heq.1, hcall] at hd
      cases hd
    exact (List.mem_erase_of_ne hne).mpr hmem
  · intro d _
    by_cases hd : d = c
    · subst hd
      refine ⟨.release t, rfl, ?_⟩
      have hmem : t ∈ (s.life d).held := by simpa [State.life] using ht
      simp only [Life.step, if_pos hmem]
      simp [State.life, held_erase]
    · refine ⟨.rest, trivial, ?_⟩
      simp [Life.step, State.life, held_erase_of_ne hd]

theorem simulates_destroyServer (h : Shape s) :
    Simulates s .destroyServer { s with alive := false } :=
  ⟨{ h with }, fun hne => absurd rfl hne, fun _ _ => ⟨.rest, trivial, rfl⟩, fun _ hd => hd,
    fun _ hd => .inl hd⟩

theorem simulates_destroyNext (h : Shape s) (halive : s.alive = false) {e : List Char × Nat}
    {es : List (List Char × Nat)} (he : s.connections.entries = e :: es) :
    Simulates s (.destroyNext o) (s.destroyNext e.1 e.2 o) := by
  obtain ⟨hc, hname, hget⟩ := h.head_entry he
  rw [← hname] at hget
  rw [← hname]
  refine simulates_of_work h hc (within_destroyNext h hc) ⟨.orphan o, ⟨halive, rfl, e.1, es, he⟩, ?_⟩
  have hstored : (s.life e.2).stored := by simp [State.life, hget]
  have hrun : s.destroyNext (s.conns e.2).name e.2 o =
      (s.unstore e.2).runInLoop 0 o (.conn .connectDestroyed e.2) := rfl
  rw [hrun, State.runInLoop]
  by_cases hl : (s.conns e.2).loop = 0
  · have hhome : (s.unstore e.2).home (.conn .connectDestroyed e.2) = 0 := hl
    rw [hhome, if_pos rfl, life_call_self hhome rfl, life_unstore_self]
    simp [Life.step, hstored, hl]
  · have hhome : 0 ≠ (s.unstore e.2).home (.conn .connectDestroyed e.2) := Ne.symm hl
    rw [if_neg hhome, life_queueTask_self, life_unstore_self]
    simp [Life.step, hstored, hl]

/-! ## 3. Runs -/

/-- **The simulation.**  A step keeps the shape and is one move of every connection.  All that
follows about connections is proved of `Life.step`, which knows one connection and no server, and
carried over by this. -/
theorem step_simulates (h : Shape s) (hst : step s lb = some s') : Simulates s lb s' := by
  cases taken_of_step hst with
  | newConnection hid => exact simulates_newConnection h hid
  | takeFunctors hfree => exact simulates_takeFunctors h hfree
  | runFunctor _ hclosing hrun => exact simulates_runFunctor h hrun hclosing
  | dropFunctors hrun => exact simulates_dropFunctors h hrun
  | handleEvent hr => exact simulates_handleEvent h hr
  | handleClose hr => exact simulates_handleClose h hr
  | closeCallback _ hclosing => exact simulates_closeCallback h hclosing
  | test ht => exact simulates_test h ht
  | setDisconnecting hcall => exact simulates_setDisconnecting h hcall
  | queue hcall => exact simulates_queue h .forceClose (h.caller hcall)
  | post hop hcall => exact simulates_post h (h.caller hcall) hop
  | copy ht => exact simulates_copy h ht
  | release hcall ht => exact simulates_release h hcall ht
  | destroyServer _ => exact simulates_destroyServer h
  | destroyNext halive he => exact simulates_destroyNext h halive he

end Suduo.TcpServer
