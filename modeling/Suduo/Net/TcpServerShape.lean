/-
# The shape of a server's state

Whatever a loop or a thread does, it does it for one connection: it writes only that connection's
record, queues only its functors, on the loop they belong to, and takes from the table at most its
entry.  `Within c s s'` says so, and every function of the server is within the connection it is
called for.

The SHAPE of the state is what this keeps: functors sit on the loop of their connection, the table has
connections under their own names, a thread in a call holds a pointer.  It rests on names being
different, and that on `_next_conn_id` being an `int`.
-/
import Suduo.Net.ConnectionLife

namespace Suduo.TcpServer

open Lib
open TcpConnection (ConnState)

variable {s s' s₁ s₂ : State} {c d l t : Nat} {o : Outcome} {f : Functor} {task : Task}

/-! ## 1. The shape of a state -/

/-- The connection a thread is in a call on. -/
def Call.on : Call → Option Nat
  | .idle => none
  | .setting _ c | .posting _ c => some c

/-- All functors a loop has, run or not. -/
def Loop.functors (k : Loop) : List Functor := k.pending ++ k.running ++ k.done

structure Shape (s : State) : Prop where
  id_pos : 1 ≤ s.nextConnId
  id_le : s.nextConnId ≤ 2 ^ 31
  loop_le : ∀ c, (s.conns c).loop ≤ s.pool.threads
  named : ∀ c, s.Accepted c → (s.conns c).name = serverConnName s.name s.ipPort c
  table : ∀ n c, s.connections.get? n = some c → s.Accepted c ∧ (s.conns c).name = n
  functors : ∀ l, ∀ f ∈ (s.loops l).functors, s.Accepted f.about ∧ s.home f = l
  closing : ∀ l c, (s.loops l).closing = some c → s.Accepted c ∧ (s.conns c).loop = l
  holders : ∀ t c, (t, c) ∈ s.holders → s.Accepted c
  calls : ∀ t c, (s.calls t).on = some c → (t, c) ∈ s.holders

theorem Shape.init (name : List Char) (ipPort : IpPort) (threads : Nat) :
    Shape (State.init name ipPort threads) where
  id_pos := le_refl _
  id_le := show 1 ≤ 2 ^ 31 by decide
  loop_le := fun _ => Nat.zero_le _
  named := fun c hc => absurd hc.2 (not_lt_of_ge hc.1)
  table := fun n c h => by simp [State.init] at h
  functors := fun l f hf => by simp [State.init, Loop.functors, Loop.new] at hf
  closing := fun l c h => by simp [State.init, Loop.new] at h
  holders := fun t c h => by simp [State.init] at h
  calls := fun t c h => by simp [State.init, Call.on] at h

/-- Different connections have different names.  A name ends in the number, which is an `int`,
and below `2 ^ 31` two numbers print differently. -/
theorem Shape.name_inj (h : Shape s) (hc : s.Accepted c) (hd : s.Accepted d)
    (heq : (s.conns c).name = (s.conns d).name) : c = d := by
  rw [h.named c hc, h.named d hd] at heq
  have hle := h.id_le
  exact serverConnName_inj _ _ (lt_of_lt_of_le hc.2 hle) (lt_of_lt_of_le hd.2 hle) heq

/-- Under the name of a connection the table has that connection or nothing.  So to look a name
up is to ask whether its connection is stored. -/
theorem Shape.contains_name (h : Shape s) (hc : s.Accepted c) :
    s.connections.contains (s.conns c).name = (s.life c).stored := by
  rw [SortedMap.contains, State.life]
  cases hg : s.connections.get? (s.conns c).name with
  | none => rfl
  | some d =>
    obtain ⟨hd, hname⟩ := h.table _ _ hg
    rw [h.name_inj hd hc hname]
    simp

/-! ## 2. Work for one connection -/

/-- `s'` comes from `s` by work for connection `c`.  What other connections can notice of it is
nothing: their records, their functors and their entries stay.  Every function of the server but
`new_connection` and the destructor is within a connection, and the relation composes. -/
structure Within (c : Nat) (s s' : State) : Prop where
  name_eq : s'.name = s.name
  ipPort_eq : s'.ipPort = s.ipPort
  pool_eq : s'.pool = s.pool
  alive_eq : s'.alive = s.alive
  id_eq : s'.nextConnId = s.nextConnId
  calls_eq : s'.calls = s.calls
  loop_eq : ∀ d, (s'.conns d).loop = (s.conns d).loop
  connName_eq : ∀ d, (s'.conns d).name = (s.conns d).name
  table_le : ∀ n d, s'.connections.get? n = some d → s.connections.get? n = some d
  functors_le : ∀ l, ∀ f ∈ (s'.loops l).functors,
    f ∈ (s.loops l).functors ∨ f.about = c ∧ s.home f = l
  closing_le : ∀ l d, (s'.loops l).closing = some d →
    (s.loops l).closing = some d ∨ d = c ∧ (s.conns c).loop = l
  holders_le : ∀ h ∈ s'.holders, h ∈ s.holders ∨ h.2 = c
  holders_ge : ∀ h ∈ s.holders, h ∈ s'.holders
  life_eq : ∀ d, s.Accepted d → d ≠ c → s'.life d = s.life d

theorem Within.refl (c : Nat) (s : State) : Within c s s where
  name_eq := rfl
  ipPort_eq := rfl
  pool_eq := rfl
  alive_eq := rfl
  id_eq := rfl
  calls_eq := rfl
  loop_eq := fun _ => rfl
  connName_eq := fun _ => rfl
  table_le := fun _ _ h => h
  functors_le := fun _ _ h => .inl h
  closing_le := fun _ _ h => .inl h
  holders_le := fun _ h => .inl h
  holders_ge := fun _ h => h
  life_eq := fun _ _ _ => rfl

theorem Within.home_eq (h : Within c s s') (f : Functor) : s'.home f = s.home f := by
  cases f with
  | conn task d => exact h.loop_eq d
  | removeConnectionInLoop d => rfl

theorem Within.accepted (h : Within c s s') : s'.Accepted d ↔ s.Accepted d := by
  rw [State.Accepted, State.Accepted, h.id_eq]

theorem Within.trans (h : Within c s s₁) (h' : Within c s₁ s₂) : Within c s s₂ where
  name_eq := h'.name_eq.trans h.name_eq
  ipPort_eq := h'.ipPort_eq.trans h.ipPort_eq
  pool_eq := h'.pool_eq.trans h.pool_eq
  alive_eq := h'.alive_eq.trans h.alive_eq
  id_eq := h'.id_eq.trans h.id_eq
  calls_eq := h'.calls_eq.trans h.calls_eq
  loop_eq := fun d => (h'.loop_eq d).trans (h.loop_eq d)
  connName_eq := fun d => (h'.connName_eq d).trans (h.connName_eq d)
  table_le := fun n d hd => h.table_le n d (h'.table_le n d hd)
  functors_le := fun l f hf => by
    rcases h'.functors_le l f hf with hf | ⟨hf, hl⟩
    · exact h.functors_le l f hf
    · exact .inr ⟨hf, h.home_eq f ▸ hl⟩
  closing_le := fun l d hd => by
    rcases h'.closing_le l d hd with hd | ⟨hd, hl⟩
    · exact h.closing_le l d hd
    · exact .inr ⟨hd, h.loop_eq c ▸ hl⟩
  holders_le := fun k hk => by
    rcases h'.holders_le k hk with hk | hk
    · exact h.holders_le k hk
    · exact .inr hk
  holders_ge := fun k hk => h'.holders_ge k (h.holders_ge k hk)
  life_eq := fun d hd hne =>
    (h'.life_eq d (h.accepted.mpr hd) hne).trans (h.life_eq d hd hne)

/-- Work for a connection keeps the shape.  This is where the functions of the server meet the
invariant: each of them is shown to be within its connection, and none of them needs to be looked
at again. -/
theorem Shape.within (h : Shape s) (hc : s.Accepted c) (hw : Within c s s') : Shape s' where
  id_pos := hw.id_eq ▸ h.id_pos
  id_le := hw.id_eq ▸ h.id_le
  loop_le := fun d => by rw [hw.loop_eq, hw.pool_eq]; exact h.loop_le d
  named := fun d hd => by
    rw [hw.connName_eq, hw.name_eq, hw.ipPort_eq]
    exact h.named d (hw.accepted.mp hd)
  table := fun n d hd => by
    rw [hw.accepted, hw.connName_eq]
    exact h.table n d (hw.table_le n d hd)
  functors := fun l f hf => by
    rw [hw.accepted, hw.home_eq]
    rcases hw.functors_le l f hf with hf | ⟨rfl, hl⟩
    · exact h.functors l f hf
    · exact ⟨hc, hl⟩
  closing := fun l d hd => by
    rw [hw.accepted, hw.loop_eq]
    rcases hw.closing_le l d hd with hd | ⟨rfl, hl⟩
    · exact h.closing l d hd
    · exact ⟨hc, hl⟩
  holders := fun t d hd => by
    rw [hw.accepted]
    rcases hw.holders_le _ hd with hd | rfl
    · exact h.holders t d hd
    · exact hc
  calls := fun t d hd => by
    rw [hw.calls_eq] at hd
    exact hw.holders_ge _ (h.calls t d hd)

/-! ## 3. Every function is work for the connection it is called for -/

theorem within_setConn {g : Conn → Conn} (hloop : ∀ k, (g k).loop = k.loop)
    (hname : ∀ k, (g k).name = k.name) : Within c s (s.setConn c g) := by
  have hself : ∀ d, ((s.setConn c g).conns d).loop = (s.conns d).loop ∧
      ((s.setConn c g).conns d).name = (s.conns d).name := by
    intro d
    by_cases hd : d = c
    · subst hd
      simp [State.setConn, hloop, hname]
    · simp [State.setConn, Function.update_of_ne hd]
  refine { Within.refl c s with loop_eq := ?_, connName_eq := ?_, life_eq := ?_ }
  · exact fun d => (hself d).1
  · exact fun d => (hself d).2
  · intro d _ hd
    simp [State.setConn, State.life, Function.update_of_ne hd]

theorem within_log (e : LoopStep) : Within c s (s.log c e) :=
  within_setConn (fun _ => rfl) fun _ => rfl

theorem within_setState (st : ConnState) : Within c s (s.setConn c fun k => k.setState st) :=
  within_setConn (fun _ => rfl) fun _ => rfl

/-- Changing a loop for connection `c`: what the loop has afterwards it had before, or it is of
`c`; and the others see the same tasks, in the same order. -/
theorem within_setLoop {g : Loop → Loop}
    (hfun : ∀ f ∈ (g (s.loops l)).functors,
      f ∈ (s.loops l).functors ∨ f.about = c ∧ s.home f = l)
    (hclosing : ∀ d, (g (s.loops l)).closing = some d →
      (s.loops l).closing = some d ∨ d = c ∧ (s.conns c).loop = l)
    (hlife : ∀ d, s.Accepted d → d ≠ c → (s.setLoop l g).life d = s.life d) :
    Within c s (s.setLoop l g) := by
  refine { Within.refl c s with functors_le := ?_, closing_le := ?_, life_eq := hlife }
  · intro l' f hf
    by_cases hl : l' = l
    · subst hl
      simp only [State.setLoop, Function.update_self] at hf
      exact hfun f hf
    · simp only [State.setLoop, Function.update_of_ne hl] at hf
      exact .inl hf
  · intro l' d hd
    by_cases hl : l' = l
    · subst hl
      simp only [State.setLoop, Function.update_self] at hd
      exact hclosing d hd
    · simp only [State.setLoop, Function.update_of_ne hl] at hd
      exact .inl hd

/-- A loop changed only in what does not concern connection `d` looks the same to it.  A
connection's view of a loop is the list of its own tasks there. -/
theorem life_setLoop {g : Loop → Loop}
    (hpending : (g (s.loops l)).pending.filterMap (Functor.taskOf d) =
      (s.loops l).pending.filterMap (Functor.taskOf d))
    (hrunning : (g (s.loops l)).running.filterMap (Functor.taskOf d) =
      (s.loops l).running.filterMap (Functor.taskOf d))
    (hdone : (g (s.loops l)).done.filterMap (Functor.taskOf d) =
      (s.loops l).done.filterMap (Functor.taskOf d))
    (hremovals : ((g (s.loops l)).running ++ (g (s.loops l)).pending).count
        (.removeConnectionInLoop d) =
      ((s.loops l).running ++ (s.loops l).pending).count (.removeConnectionInLoop d))
    (hclosing : ((g (s.loops l)).closing == some d) = ((s.loops l).closing == some d)) :
    (s.setLoop l g).life d = s.life d := by
  by_cases hl : (s.conns d).loop = l
  · by_cases h0 : l = 0
    · subst h0
      simp [State.setLoop, State.life, hl, hpending, hrunning, hdone, hclosing, hremovals]
    · simp [State.setLoop, State.life, hl, hpending, hrunning, hdone, hclosing,
        Function.update_of_ne (Ne.symm h0)]
  · by_cases h0 : l = 0
    · subst h0
      simp [State.setLoop, State.life, Function.update_of_ne hl, hremovals]
    · simp [State.setLoop, State.life, Function.update_of_ne hl,
        Function.update_of_ne (Ne.symm h0)]

theorem within_queueInLoop (hf : f.about = c) : Within c s (s.queueInLoop f) := by
  refine within_setLoop ?_ (fun d hd => .inl hd) ?_
  · intro f' hf'
    simp only [Loop.functors, Loop.push, List.mem_append, List.mem_singleton] at hf' ⊢
    rcases hf' with ((h | rfl) | h) | h
    · exact .inl (.inl (.inl h))
    · exact .inr ⟨hf, rfl⟩
    · exact .inl (.inl (.inr h))
    · exact .inl (.inr h)
  · intro d _ hd
    have hne : f.about ≠ d := hf ▸ Ne.symm hd
    have hremoval : f ≠ .removeConnectionInLoop d := by
      rintro rfl
      exact hne rfl
    refine life_setLoop ?_ rfl rfl ?_ rfl
    · simp [Loop.push, taskOf_of_ne hne]
    · simp [Loop.push, List.count_append, hremoval]

theorem within_userCode : Within c s (s.userCode t c o) := by
  unfold State.userCode
  split
  · refine { Within.refl c s with holders_le := ?_, holders_ge := ?_, life_eq := ?_ }
    · intro h hh
      rcases List.mem_append.mp hh with hh | hh
      · exact .inl hh
      · rw [List.mem_singleton.mp hh]
        exact .inr rfl
    · intro h hh
      exact List.mem_append_left _ hh
    · intro d _ hd
      simp [State.life, Ne.symm hd]
  · exact .refl c s

theorem within_wrote : Within c s (s.wrote c o) := by
  unfold State.wrote
  split
  · exact within_queueInLoop rfl
  · exact .refl c s

theorem within_enterClose (hl : (s.conns c).loop = l) (hfree : (s.loops l).closing = none) :
    Within c s (s.setLoop l fun k => k.setClosing (some c)) := by
  refine within_setLoop (fun f hf => .inl hf) ?_ ?_
  · intro d hd
    exact .inr ⟨(Option.some.inj hd).symm, hl⟩
  · intro d _ hd
    exact life_setLoop rfl rfl rfl rfl (by simp [Loop.setClosing, hfree, Ne.symm hd])

theorem within_leaveClose (hclosing : (s.loops l).closing = some c) :
    Within c s (s.setLoop l fun k => k.setClosing none) := by
  refine within_setLoop (fun f hf => .inl hf) ?_ ?_
  · intro d hd
    simp [Loop.setClosing] at hd
  · intro d _ hd
    exact life_setLoop rfl rfl rfl rfl (by simp [Loop.setClosing, hclosing, Ne.symm hd])

theorem within_handleClose (hl : (s.conns c).loop = l) (hfree : (s.loops l).closing = none) :
    Within c s (s.handleClose l c o) := by
  have hbody : Within c s (((s.log c (.handleClose l)).setConn c fun k =>
      k.setState .disconnected).userCode l c o) :=
    ((within_log _).trans (within_setState _)).trans within_userCode
  refine hbody.trans (within_enterClose ?_ ?_)
  · rw [hbody.loop_eq, hl]
  · unfold State.userCode
    split <;> exact hfree

theorem within_runTask (hl : (s.conns c).loop = l)
    (hfree : task = .forceCloseInLoop → (s.loops l).closing = none) :
    Within c s (s.runTask l c o task) := by
  cases task with
  | connectEstablished => exact (within_setState _).trans within_userCode
  | connectDestroyed =>
    rw [State.runTask]
    split
    · exact (within_setState _).trans within_userCode
    · exact .refl c s
  | sendInLoop =>
    rw [State.runTask]
    split
    · exact .refl c s
    · exact within_wrote
  | shutdownInLoop | startReadInLoop | stopReadInLoop => exact .refl c s
  | forceCloseInLoop =>
    rw [State.runTask]
    split
    · exact within_handleClose hl (hfree rfl)
    · exact .refl c s
  | userCallback => exact within_userCode

/-- The entry of `c` is taken out of the table. -/
def State.unstore (s : State) (c : Nat) : State :=
  { s with connections := s.connections.erase (s.conns c).name }

theorem life_unstore_self : (s.unstore c).life c = (s.life c).unstore := by
  simp [State.unstore, State.life, Life.unstore, SortedMap.get?_erase]

/-- The entries of the others stay.  Erasing a name could take out another connection's entry if
two had the same name, and the shape says that they do not. -/
theorem within_unstore (h : Shape s) (hc : s.Accepted c) : Within c s (s.unstore c) := by
  refine { Within.refl c s with table_le := ?_, life_eq := ?_ }
  · exact fun n d hd => SortedMap.get?_of_get?_erase hd
  · intro d hd hne
    have hname : (s.conns d).name ≠ (s.conns c).name := fun heq => hne (h.name_inj hd hc heq)
    simp [State.unstore, State.life, SortedMap.get?_erase, hname]

theorem within_removeConnectionInLoop (h : Shape s) (hc : s.Accepted c) :
    Within c s (s.removeConnectionInLoop c) :=
  ((within_unstore h hc).trans (within_log _)).trans (within_queueInLoop rfl)

theorem within_dangling (fs : List Functor) : Within c s { s with dangling := fs } :=
  { Within.refl c s with life_eq := fun _ _ _ => rfl }

theorem within_call (h : Shape s) (hc : s.Accepted c) (hf : f.about = c) (hl : s.home f = l)
    (hfree : f = .conn .forceCloseInLoop c → (s.loops l).closing = none) :
    Within c s (s.call l o f) := by
  unfold State.call
  split
  · cases f with
    | conn task d =>
      obtain rfl : d = c := hf
      refine (within_log _).trans (within_runTask ?_ ?_)
      · rw [loop_log]
        exact hl
      · intro htask
        exact hfree (htask ▸ rfl)
    | removeConnectionInLoop d =>
      obtain rfl : d = c := hf
      exact within_removeConnectionInLoop h hc
  · exact within_dangling _

theorem within_runInLoop (h : Shape s) (hc : s.Accepted c) (hf : f.about = c)
    (hfree : f ≠ .conn .forceCloseInLoop c) : Within c s (s.runInLoop t o f) := by
  unfold State.runInLoop
  split
  · rename_i ht
    exact within_call h hc hf ht.symm fun heq => absurd heq hfree
  · exact within_queueInLoop hf

/-! ## 4. The steps keep the shape -/

theorem shape_setCall (h : Shape s) {call : Call}
    (hcall : ∀ c, call.on = some c → (t, c) ∈ s.holders) : Shape (s.setCall t call) := by
  refine { h with calls := ?_ }
  intro t' c hc
  by_cases ht : t' = t
  · subst ht
    simp only [State.setCall, Function.update_self] at hc
    exact hcall c hc
  · simp only [State.setCall, Function.update_of_ne ht] at hc
    exact h.calls t' c hc

/-- Moving functors inside a loop, or dropping some.  The shape says something of each functor by
itself, so neither order nor place matters. -/
theorem shape_setLoop (h : Shape s) {g : Loop → Loop}
    (hfun : ∀ f ∈ (g (s.loops l)).functors, f ∈ (s.loops l).functors)
    (hclosing : (g (s.loops l)).closing = (s.loops l).closing) : Shape (s.setLoop l g) := by
  refine { h with functors := ?_, closing := ?_ }
  · intro l' f hf
    by_cases hl : l' = l
    · subst hl
      simp only [State.setLoop, Function.update_self] at hf
      exact h.functors l' f (hfun f hf)
    · simp only [State.setLoop, Function.update_of_ne hl] at hf
      exact h.functors l' f hf
  · intro l' c hc
    by_cases hl : l' = l
    · subst hl
      simp only [State.setLoop, Function.update_self, hclosing] at hc
      exact h.closing l' c hc
    · simp only [State.setLoop, Function.update_of_ne hl] at hc
      exact h.closing l' c hc

/-- Taking the queue as the batch and dropping the batch make no functors; running the next one
keeps them all. -/
theorem functors_take {k : Loop} :
    ∀ f ∈ ({ k with pending := [], running := k.pending } : Loop).functors, f ∈ k.functors := by
  intro f hf
  simp only [Loop.functors, List.mem_append, List.not_mem_nil, false_or] at hf ⊢
  tauto

theorem functors_pop {k : Loop} {f' : Functor} {rest : List Functor} (hrun : k.running = f :: rest) :
    f' ∈ ({ k with running := rest, done := k.done ++ [f] } : Loop).functors ↔ f' ∈ k.functors := by
  simp only [Loop.functors, hrun, List.mem_append, List.mem_cons, List.not_mem_nil, or_false]
  tauto

theorem functors_drop {k : Loop} :
    ∀ f ∈ ({ k with done := [] } : Loop).functors, f ∈ k.functors := by
  intro f hf
  simp only [Loop.functors, List.mem_append, List.not_mem_nil, or_false] at hf ⊢
  tauto

theorem shape_pop (h : Shape s) {rest : List Functor} (hrun : (s.loops l).running = f :: rest) :
    Shape (s.pop l f rest) := shape_setLoop h (fun _ => (functors_pop hrun).mp) rfl

/-- A functor that is next belongs to the loop, and its connection is there.  All that is run by
a loop comes through here. -/
theorem Shape.next_functor (h : Shape s) {rest : List Functor}
    (hrun : (s.loops l).running = f :: rest) : s.Accepted f.about ∧ s.home f = l :=
  h.functors l f (by simp [Loop.functors, hrun])

theorem within_closeCallback (h : Shape s) (hclosing : (s.loops l).closing = some c) :
    Within c s ((s.setLoop l fun k => k.setClosing none).runInLoop l o
      (.removeConnectionInLoop c)) := by
  have hc := (h.closing l c hclosing).1
  have hleave := within_leaveClose hclosing
  exact hleave.trans
    (within_runInLoop (h.within hc hleave) (hleave.accepted.mpr hc) rfl nofun)

theorem within_handleEvent :
    Within c s (((s.log c (.event l)).wrote c o).userCode t c o) :=
  ((within_log _).trans within_wrote).trans within_userCode

theorem within_destroyNext (h : Shape s) (hc : s.Accepted c) :
    Within c s (s.destroyNext (s.conns c).name c o) := by
  have hunstore := within_unstore h hc
  exact hunstore.trans
    (within_runInLoop (h.within hc hunstore) (hunstore.accepted.mpr hc) rfl nofun)

/-- The first entry of the table is that of a connection, under its name.  This is the entry that
`~TcpServer` comes to next. -/
theorem Shape.head_entry (h : Shape s) {e : List Char × Nat} {es : List (List Char × Nat)}
    (he : s.connections.entries = e :: es) :
    s.Accepted e.2 ∧ (s.conns e.2).name = e.1 ∧ s.connections.get? e.1 = some e.2 := by
  have hget : s.connections.get? e.1 = some e.2 := by
    rw [SortedMap.get?_eq_some, he]
    exact List.mem_cons_self ..
  obtain ⟨hc, hname⟩ := h.table _ _ hget
  exact ⟨hc, hname, hget⟩

/-- A new connection, before `connect_established` is handed to its loop.  Up to here the server
has only written its own fields. -/
def State.accept (s : State) : State :=
  { s with
    pool := s.pool.getNextLoop.2
    nextConnId := s.nextConnId + 1
    connections := (s.connections.insert (serverConnName s.name s.ipPort s.nextConnId)
      s.nextConnId).set (serverConnName s.name s.ipPort s.nextConnId) s.nextConnId
    conns := Function.update s.conns s.nextConnId
      ⟨s.pool.getNextLoop.1, serverConnName s.name s.ipPort s.nextConnId, .connecting, []⟩ }

theorem newConnection_eq :
    s.newConnection o = s.accept.runInLoop 0 o (.conn .connectEstablished s.nextConnId) := rfl

theorem getNextLoop_threads (p : Pool) : p.getNextLoop.2.threads = p.threads := by
  unfold Pool.getNextLoop
  split
  · rfl
  · split <;> rfl

theorem getNextLoop_le (p : Pool) : p.getNextLoop.1 ≤ p.threads := by
  unfold Pool.getNextLoop
  split
  · exact Nat.zero_le _
  · have := p.next_lt (by omega)
    split <;> simp only <;> omega

theorem accepted_accept (h : Shape s) : s.accept.Accepted d ↔ s.Accepted d ∨ d = s.nextConnId := by
  have := h.id_pos
  unfold State.Accepted State.accept
  simp only
  omega

/-- The new name is not in the table yet.  It ends in a number that no connection has, so
`_connections[connName] = conn` overwrites nothing. -/
theorem Shape.fresh_name (h : Shape s) (hid : s.nextConnId < 2 ^ 31) :
    s.connections.get? (serverConnName s.name s.ipPort s.nextConnId) = none := by
  rw [SortedMap.get?_eq_none]
  intro c hc
  obtain ⟨hacc, hname⟩ := h.table _ _ hc
  rw [h.named c hacc] at hname
  have := serverConnName_inj _ _ (lt_trans hacc.2 hid) hid hname
  exact absurd this (Nat.ne_of_lt hacc.2)

/-- `_connections[connName] = conn` under a new name.  All other names lead where they led
before. -/
theorem Shape.get?_accept (h : Shape s) (hid : s.nextConnId < 2 ^ 31) (n : List Char) :
    s.accept.connections.get? n =
      if n = serverConnName s.name s.ipPort s.nextConnId then some s.nextConnId
      else s.connections.get? n := by
  have hfresh := h.fresh_name hid
  unfold State.accept
  simp only
  split
  · rename_i hn
    subst hn
    exact SortedMap.get?_set_self (w := s.nextConnId) (by rw [SortedMap.get?_insert hfresh, if_pos rfl])
  · rename_i hn
    rw [SortedMap.get?_set_of_ne hn, SortedMap.get?_insert hfresh, if_neg hn]

theorem conns_accept_of_ne (hd : d ≠ s.nextConnId) : s.accept.conns d = s.conns d := by
  simp [State.accept, Function.update_of_ne hd]

theorem conns_accept_self : s.accept.conns s.nextConnId =
    ⟨s.pool.getNextLoop.1, serverConnName s.name s.ipPort s.nextConnId, .connecting, []⟩ := by
  simp [State.accept]

theorem ne_next (hd : s.Accepted d) : d ≠ s.nextConnId := Nat.ne_of_lt hd.2

theorem home_accept (hf : s.Accepted f.about) : s.accept.home f = s.home f := by
  cases f with
  | conn task d => exact congrArg Conn.loop (conns_accept_of_ne (ne_next hf))
  | removeConnectionInLoop d => rfl

theorem shape_accept (h : Shape s) (hid : s.nextConnId < 2 ^ 31) : Shape s.accept := by
  have hacc : ∀ d, s.Accepted d → s.accept.Accepted d := fun d hd =>
    (accepted_accept h).mpr (.inl hd)
  refine ⟨?_, ?_, ?_, ?_, ?_, ?_, ?_, ?_, ?_⟩
  · exact Nat.le_add_left ..
  · exact hid
  · intro d
    have hthreads : s.accept.pool.threads = s.pool.threads := getNextLoop_threads _
    rw [hthreads]
    by_cases hd : d = s.nextConnId
    · subst hd
      rw [conns_accept_self]
      exact getNextLoop_le _
    · rw [conns_accept_of_ne hd]
      exact h.loop_le d
  · intro d hd
    rcases (accepted_accept h).mp hd with hd | rfl
    · rw [conns_accept_of_ne (ne_next hd)]
      exact h.named d hd
    · rw [conns_accept_self]
      rfl
  · intro n d hd
    rw [h.get?_accept hid] at hd
    split at hd
    · rename_i hn
      cases hd
      exact ⟨(accepted_accept h).mpr (.inr rfl), by rw [conns_accept_self, hn]⟩
    · obtain ⟨hd, hname⟩ := h.table _ _ hd
      exact ⟨hacc d hd, by rw [conns_accept_of_ne (ne_next hd), hname]⟩
  · intro l f hf
    obtain ⟨habout, hhome⟩ := h.functors l f hf
    exact ⟨hacc _ habout, by rw [home_accept habout, hhome]⟩
  · intro l d hd
    obtain ⟨hd, hl⟩ := h.closing l d hd
    exact ⟨hacc d hd, by rw [conns_accept_of_ne (ne_next hd), hl]⟩
  · intro t d hd
    exact hacc d (h.holders t d hd)
  · intro t d hd
    exact h.calls t d hd

theorem within_newConnection (h : Shape s) (hid : s.nextConnId < 2 ^ 31) :
    Within s.nextConnId s.accept (s.newConnection o) :=
  within_runInLoop (shape_accept h hid) ((accepted_accept h).mpr (.inr rfl)) rfl nofun

/-- The functor of a call has the thread's pointer behind it.  The caller is still inside a
member function, through a pointer that it holds. -/
theorem Shape.caller (h : Shape s) {op : Op} (hcall : s.calls t = .posting op c) :
    (t, c) ∈ s.holders := h.calls t c (by rw [hcall]; rfl)

theorem Shape.setter (h : Shape s) {op : Op} (hcall : s.calls t = .setting op c) :
    (t, c) ∈ s.holders := h.calls t c (by rw [hcall]; rfl)

theorem shape_idle (h : Shape s) : Shape (s.setCall t .idle) :=
  shape_setCall h fun _ hc => by cases hc

/-! ## 5. Pointers -/

theorem mem_loop_pointers {k : Loop} :
    c ∈ k.pointers ↔ (∃ f ∈ k.functors, f.pointer = some c) ∨ k.closing = some c := by
  simp only [Loop.pointers, Loop.functors, List.mem_append, List.mem_filterMap, Option.mem_toList]

theorem mem_pointers :
    c ∈ s.pointers ↔ (∃ n, s.connections.get? n = some c) ∨ (∃ t, (t, c) ∈ s.holders) ∨
      ∃ l ≤ s.pool.threads, c ∈ (s.loops l).pointers := by
  simp only [State.pointers, List.mem_append, List.mem_map, List.mem_flatMap, List.mem_range,
    Nat.lt_succ_iff, Prod.exists, exists_eq_right, SortedMap.get?_eq_some, or_assoc]

theorem useCount_pos : 0 < s.useCount c ↔ c ∈ s.pointers := List.count_pos_iff

theorem about_of_pointer (h : f.pointer = some c) : f.about = c := by
  cases f with
  | conn task d =>
    simp only [Functor.pointer, Option.ite_none_right_eq_some, Option.some.injEq] at h
    exact h.2
  | removeConnectionInLoop d => exact Option.some.inj h

/-- Whatever is pointed to has been accepted.  So no step can conjure up a connection that the
server did not make. -/
theorem Shape.accepted_of_pointer (h : Shape s) (hc : c ∈ s.pointers) : s.Accepted c := by
  rcases mem_pointers.mp hc with ⟨n, hn⟩ | ⟨t, ht⟩ | ⟨l, -, hl⟩
  · exact (h.table n c hn).1
  · exact h.holders t c ht
  · rcases mem_loop_pointers.mp hl with ⟨f, hf, hptr⟩ | hclosing
    · exact about_of_pointer hptr ▸ (h.functors l f hf).1
    · exact (h.closing l c hclosing).1

/-- What a thread points to is there: its pointer is counted. -/
theorem targetThere_of_holder (h : (t, c) ∈ s.holders) : s.targetThere (.conn task c) := by
  have hpos : 0 < s.useCount c := useCount_pos.mpr (mem_pointers.mpr (.inr (.inl ⟨t, h⟩)))
  simp [State.targetThere, hpos]

theorem held_ne_nil (h : (t, c) ∈ s.holders) : (s.life c).held ≠ [] := by
  have hmem : t ∈ (s.life c).held := by
    simp only [State.life, List.mem_map, List.mem_filter, decide_eq_true_eq]
    exact ⟨(t, c), ⟨h, rfl⟩, rfl⟩
  exact List.ne_nil_of_mem hmem

end Suduo.TcpServer
