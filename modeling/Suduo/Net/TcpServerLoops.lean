/-
# Which loop a connection is served by

`EventLoopThreadPool::get_next_loop` deals the I/O loops out in turn, and `new_connection` gives
each connection to the next.  So the loop of a connection follows from its number alone (`ioLoop`),
it never changes, and the loops have been given equally many connections, up to one.

The other half of "one loop per thread" is that nothing of a connection is run anywhere else: tasks,
events and `handle_close` alike are run by the loop it was given to, whichever thread asked for
them.
-/
import Mathlib.Data.Int.CardIntervalMod
import Suduo.Net.TcpServerTable

namespace Suduo.TcpServer

open Lib

variable {s s' : State} {c l threads : Nat} {lb : Label} {o : Outcome} {task : Task} {e : LoopStep} {v v' : Life}

/-! ## 1. One connection stays on its loop -/

/-- The loop that a step of a connection was run in. -/
def LoopStep.ranIn : LoopStep → Option Nat
  | .ran l _ | .event l | .handleClose l => some l
  | .erased _ => none

/-- All that was run of the connection was run in its own loop. -/
def Conn.Confined (k : Conn) : Prop := ∀ e ∈ k.trace, ∀ l ∈ e.ranIn, l = k.loop

/-- `k'` is `k` some steps later, all of them in its loop. -/
def Conn.Onwards (k k' : Conn) : Prop := k'.loop = k.loop ∧ (k.Confined → k'.Confined)

theorem Conn.Onwards.refl (k : Conn) : k.Onwards k := ⟨rfl, id⟩

theorem Conn.Onwards.trans {k k₁ k₂ : Conn} (h : k.Onwards k₁) (h' : k₁.Onwards k₂) : k.Onwards k₂ :=
  ⟨h'.1.trans h.1, fun hk => h'.2 (h.2 hk)⟩

theorem onwards_log {k : Conn} (he : ∀ l ∈ e.ranIn, l = k.loop) : k.Onwards (k.log e) := by
  refine ⟨rfl, fun hk f hf => ?_⟩
  rcases List.mem_append.mp hf with hf | hf
  · exact hk f hf
  · rw [List.mem_singleton.mp hf]
    exact he

theorem onwards_setState (k : Conn) (state : TcpConnection.ConnState) : k.Onwards (k.setState state) := ⟨rfl, id⟩

theorem conn_userCode (v : Life) (t : Nat) (o : Outcome) : (v.userCode t o).conn = v.conn := by
  unfold Life.userCode
  split
  · rfl
  · rfl

theorem conn_wrote (v : Life) (o : Outcome) : (v.wrote o).conn = v.conn := by
  unfold Life.wrote
  split
  · rfl
  · rfl

theorem onwards_handleClose (v : Life) (o : Outcome) : v.conn.Onwards (v.handleClose o).conn := by
  have hlog : v.conn.Onwards (v.conn.log (.handleClose v.conn.loop)) :=
    onwards_log fun _ hl => (Option.some.inj hl).symm
  refine hlog.trans ?_
  change Conn.Onwards _ (((v.log _).setState .disconnected).userCode v.conn.loop o).conn
  rw [conn_userCode]
  exact onwards_setState _ _

theorem onwards_runTask (v : Life) (o : Outcome) (task : Task) : v.conn.Onwards (v.runTask o task).conn := by
  cases task with
  | connectEstablished =>
    rw [Life.runTask, conn_userCode]
    exact onwards_setState _ _
  | connectDestroyed =>
    rw [Life.runTask]
    split
    · rw [conn_userCode]
      exact onwards_setState _ _
    · exact .refl _
  | sendInLoop =>
    rw [Life.runTask]
    split
    · exact .refl _
    · rw [conn_wrote]
      exact .refl _
  | shutdownInLoop | startReadInLoop | stopReadInLoop => exact .refl _
  | forceCloseInLoop =>
    rw [Life.runTask]
    split
    · exact onwards_handleClose v o
    · exact .refl _
  | userCallback =>
    rw [Life.runTask, conn_userCode]
    exact .refl _

theorem onwards_call (v : Life) (o : Outcome) (task : Task) : v.conn.Onwards (v.call o task).conn := by
  have hlog : v.conn.Onwards (v.conn.log (.ran v.conn.loop task)) :=
    onwards_log fun _ hl => (Option.some.inj hl).symm
  exact hlog.trans (onwards_runTask (v.log (.ran v.conn.loop task)) o task)

theorem onwards_erase (v : Life) : v.conn.Onwards v.erase.conn :=
  onwards_log fun _ hl => by cases hl

/-- **No move takes a connection off its loop.**  `_loop` is set when the connection is made.
What is run of it is run by a functor or an event of that loop, or by the server's own loop where
the two are the same. -/
theorem step_onwards {m : Move} (hst : v.step m = some v') : v.conn.Onwards v'.conn := by
  cases moved_of_step hst with
  | runFunctor _ _ => exact onwards_call (v.pop _ _) _ _
  | handleEvent _ =>
    rw [conn_userCode, conn_wrote]
    exact onwards_log fun _ hl => (Option.some.inj hl).symm
  | handleClose _ _ => exact onwards_handleClose v _
  | removeAtOnce _ => exact onwards_erase (v.setClosing false)
  | removeConnectionInLoop _ => exact onwards_erase { v with removals := v.removals - 1 }
  | setDisconnecting _ => exact onwards_setState _ _
  | callTask _ _ => exact onwards_call v _ _
  | orphanHere _ => exact onwards_call v.unstore _ _
  | rest | takeFunctors _ _ | dropFunctors _ | dangle _ _ | removeConnection _ | removeDangles _ | closeDangles _
  | queueTask _ | hold _ | release _ | orphanAway _ => exact .refl _

theorem onwards_start (v : Life) (o : Outcome) : v.conn.Onwards (v.start o).conn := by
  unfold Life.start
  split
  · exact onwards_call v o _
  · exact .refl _

/-! ## 2. The loops are dealt out in turn -/

/-- The loop of the connection that `i` others were accepted before.  Loop `0` is the server's
own, which has all connections if there is no I/O thread. -/
def ioLoop (threads i : Nat) : Nat := if threads = 0 then 0 else i % threads + 1

/-- `_next` after `i` calls of `get_next_loop`. -/
def nextAfter (threads i : Nat) : Nat := if threads = 0 then 0 else i % threads

/-- **One call of `get_next_loop`.**  If the counter stands where `i` calls leave it, the next
call returns the loop with that number and leaves it where `i + 1` calls do.  The counter wraps
by a comparison, `ioLoop` by a remainder, and the two agree. -/
theorem getNextLoop_eq {p : Pool} {i : Nat} (h : p.next = nextAfter p.threads i) :
    p.getNextLoop.1 = ioLoop p.threads i ∧ p.getNextLoop.2.next = nextAfter p.threads (i + 1) := by
  by_cases hnone : p.threads = 0
  · rw [nextAfter, if_pos hnone] at h
    rw [Pool.getNextLoop, ioLoop, nextAfter, if_pos hnone, if_pos hnone, if_pos hnone]
    exact ⟨rfl, h⟩
  · rw [nextAfter, if_neg hnone] at h
    have hlt : p.next < p.threads := p.next_lt (Nat.pos_of_ne_zero hnone)
    have hsucc : (i + 1) % p.threads = (p.next + 1) % p.threads := by rw [h, Nat.mod_add_mod]
    rw [Pool.getNextLoop, ioLoop, nextAfter, if_neg hnone, if_neg hnone, if_neg hnone, ← h, hsucc]
    split
    · rename_i hlast
      rw [show p.next + 1 = p.threads by omega, Nat.mod_self]
      exact ⟨rfl, rfl⟩
    · rename_i hmore
      rw [Nat.mod_eq_of_lt (Nat.lt_of_not_ge hmore)]
      exact ⟨rfl, rfl⟩

/-! ## 3. Every step -/

/-- What the server keeps to: the pool stands after as many calls as there were connections, and each has its
own loop and stays there. -/
structure Dealt (threads : Nat) (s : State) : Prop where
  shape : Shape s
  threads_eq : s.pool.threads = threads
  next : s.pool.next = nextAfter threads (s.nextConnId - 1)
  loop : ∀ c, s.Accepted c → (s.conns c).loop = ioLoop threads (c - 1)
  confined : ∀ c, s.Accepted c → (s.conns c).Confined

theorem dealt_init (name : List Char) (ipPort : IpPort) (threads : Nat) :
    Dealt threads (.init name ipPort threads) where
  shape := Shape.init name ipPort threads
  threads_eq := rfl
  next := by
    change 0 = nextAfter threads 0
    unfold nextAfter
    split
    · rfl
    · exact (Nat.zero_mod threads).symm
  loop c hc := absurd hc.2 (not_lt_of_ge hc.1)
  confined c hc := absurd hc.2 (not_lt_of_ge hc.1)

/-- Only `new_connection` asks the pool for a loop, and only it makes a connection.  So the
counter and the number of connections go up together. -/
theorem step_pool (h : Shape s) (hst : step s lb = some s') (hlb : ∀ o, lb ≠ .newConnection o) :
    s'.pool = s.pool ∧ s'.nextConnId = s.nextConnId := by
  cases taken_of_step hst with
  | newConnection _ => exact absurd rfl (hlb _)
  | takeFunctors _ | dropFunctors _ | test _ | setDisconnecting _ | copy _ | release _ _ | destroyServer _ =>
    exact ⟨rfl, rfl⟩
  | @runFunctor l o f rest _ hclosing hrun =>
    obtain ⟨hc, hl⟩ := h.next_functor hrun
    have hfree : ((s.pop l f rest).loops l).closing = none := by simp [State.pop, State.setLoop, hclosing]
    have hw : Within f.about (s.pop l f rest) ((s.pop l f rest).call l o f) :=
      within_call (shape_pop h hrun) hc rfl hl fun _ => hfree
    exact ⟨hw.pool_eq, hw.id_eq⟩
  | handleEvent _ => exact ⟨within_handleEvent.pool_eq, within_handleEvent.id_eq⟩
  | @handleClose c o hr =>
    have hw : Within c s (s.handleClose (s.conns c).loop c o) := within_handleClose rfl hr.2.2.2.2.2
    exact ⟨hw.pool_eq, hw.id_eq⟩
  | @closeCallback l c _ hclosing =>
    have hw : Within c s ((s.setLoop l fun k => k.setClosing none).runInLoop l ⟨false, false⟩
        (.removeConnectionInLoop c)) := within_closeCallback h hclosing
    exact ⟨hw.pool_eq, hw.id_eq⟩
  | queue _ => exact ⟨rfl, rfl⟩
  | @post t c o op hop hcall =>
    have hf : Functor.conn op.task c ≠ .conn .forceCloseInLoop c := by
      rw [Ne, Functor.conn.injEq, not_and_or]
      exact .inl (Op.task_ne_forceClose hop)
    have hc : (s.setCall t .idle).Accepted c := h.holders t c (h.caller hcall)
    have hw : Within c (s.setCall t .idle) ((s.setCall t .idle).runInLoop t o (.conn op.task c)) :=
      within_runInLoop (shape_idle h) hc rfl hf
    exact ⟨hw.pool_eq, hw.id_eq⟩
  | @destroyNext o e es _ he =>
    obtain ⟨hc, hname, -⟩ := h.head_entry he
    have hw : Within e.2 s (s.destroyNext (s.conns e.2).name e.2 o) := within_destroyNext h hc
    rw [hname] at hw
    exact ⟨hw.pool_eq, hw.id_eq⟩

theorem Dealt.newConnection (h : Dealt threads s) (hid : s.nextConnId < 2 ^ 31) :
    (s.newConnection o).pool.threads = threads ∧
    (s.newConnection o).pool.next = nextAfter threads ((s.newConnection o).nextConnId - 1) ∧
    ∀ c, (s.newConnection o).Accepted c → ((s.newConnection o).conns c).loop = ioLoop threads (c - 1) := by
  have hw : Within s.nextConnId s.accept (s.newConnection o) := within_newConnection h.shape hid
  have hpool : s.pool.next = nextAfter s.pool.threads (s.nextConnId - 1) := by
    rw [h.threads_eq]
    exact h.next
  obtain ⟨hloop, hnext⟩ := getNextLoop_eq hpool
  rw [h.threads_eq] at hloop hnext
  have hpos := h.shape.id_pos
  have hcount : s.accept.nextConnId - 1 = s.nextConnId - 1 + 1 := by
    change s.nextConnId + 1 - 1 = _
    omega
  rw [hw.pool_eq, hw.id_eq, hcount]
  refine ⟨(getNextLoop_threads s.pool).trans h.threads_eq, hnext, fun c hc => ?_⟩
  rw [hw.loop_eq]
  rcases (accepted_accept h.shape).mp (hw.accepted.mp hc) with hc | rfl
  · rw [conns_accept_of_ne (ne_next hc)]
    exact h.loop c hc
  · rw [conns_accept_self]
    exact hloop

/-- What is run of a connection in one step is run in its loop, and a new one has run nothing
elsewhere.  This is the simulation again: a move keeps a connection on its loop, and a start
begins there. -/
theorem Dealt.stays (h : Dealt threads s) (hst : step s lb = some s') (hc : s'.Accepted c) :
    (s.Accepted c → (s'.conns c).loop = (s.conns c).loop) ∧ (s'.conns c).Confined := by
  have hsim := step_simulates h.shape hst
  have hold (hc : s.Accepted c) : (s.conns c).Onwards (s'.conns c) := by
    obtain ⟨m, -, hmove⟩ := hsim.moves c hc
    exact step_onwards hmove
  refine ⟨fun hc => (hold hc).1, ?_⟩
  rcases hsim.births c hc with hc | ⟨loop, name, o, hlife⟩
  · exact (hold hc).2 (h.confined c hc)
  · have hconn : s'.conns c = ((Life.newborn loop name).start o).conn := congrArg Life.conn hlife
    rw [hconn]
    refine (onwards_start (Life.newborn loop name) o).2 fun _ he => ?_
    cases he

theorem step_dealt (h : Dealt threads s) (hst : step s lb = some s') : Dealt threads s' := by
  have hconfined : ∀ c, s'.Accepted c → (s'.conns c).Confined := fun c hc => (h.stays hst hc).2
  have hshape : Shape s' := (step_simulates h.shape hst).shape
  by_cases hnew : ∃ o, lb = .newConnection o
  · obtain ⟨o, rfl⟩ := hnew
    cases taken_of_step hst with
    | newConnection hid =>
      obtain ⟨hthreads, hnext, hloop⟩ := h.newConnection hid
      exact ⟨hshape, hthreads, hnext, hloop, hconfined⟩
  · obtain ⟨hpool, hid⟩ := step_pool h.shape hst fun o ho => hnew ⟨o, ho⟩
    refine ⟨hshape, hpool ▸ h.threads_eq, ?_, fun c hc => ?_, hconfined⟩
    · rw [hpool, hid]
      exact h.next
    · have hbefore : s.Accepted c := by
        rw [State.Accepted, ← hid]
        exact hc
      rw [(h.stays hst hc).1 hbefore]
      exact h.loop c hbefore

/-! ## 4. Runs -/

/-- How many connections loop `l` has been given. -/
def State.given (s : State) (l : Nat) : Nat := Nat.count (fun i => (s.conns (i + 1)).loop = l) (s.nextConnId - 1)

theorem count_ioLoop {threads l : Nat} (hl : 1 ≤ l) (hle : l ≤ threads) (n : Nat) :
    Nat.count (fun i => ioLoop threads i = l) n = n / threads + if l - 1 < n % threads then 1 else 0 := by
  have hpos : 0 < threads := by omega
  have hcount := Nat.count_modEq_card n hpos (l - 1)
  rw [Nat.mod_eq_of_lt (show l - 1 < threads by omega)] at hcount
  rw [← hcount]
  congr 1
  funext i
  rw [ioLoop, if_neg (Nat.ne_of_gt hpos), Nat.ModEq, Nat.mod_eq_of_lt (show l - 1 < threads by omega), eq_iff_iff]
  omega

/-- **Loops are dealt out in turn, for good.**  In every state of every run of a server, whatever
its loops and threads do, and its destructor: connection `c` belongs to the loop that
`get_next_loop` returns in its `c`th call; all that was ever run of it was run there; and of `n`
connections accepted each I/O loop has been given `n / threads` or one more, without I/O loops
all go to the server's own loop. -/
theorem loops_balanced (name : List Char) (ipPort : IpPort) (threads : Nat) (s : State)
    (h : Reach step anyStep (State.init name ipPort threads) s) :
    (∀ c, s.Accepted c → (s.conns c).loop = ioLoop threads (c - 1) ∧ (s.conns c).Confined) ∧
      (∀ l, 1 ≤ l → l ≤ threads → s.given l =
        (s.nextConnId - 1) / threads + if l - 1 < (s.nextConnId - 1) % threads then 1 else 0) ∧
      (threads = 0 → s.given 0 = s.nextConnId - 1) := by
  have hd : Dealt threads s := h.invariant (dealt_init name ipPort threads) fun _ _ _ hd _ hst => step_dealt hd hst
  have hgiven (l : Nat) : s.given l = Nat.count (fun i => ioLoop threads i = l) (s.nextConnId - 1) := by
    rw [State.given, Nat.count_eq_card_filter_range, Nat.count_eq_card_filter_range]
    refine congrArg Finset.card (Finset.filter_congr fun i hi => ?_)
    rw [Finset.mem_range] at hi
    have hacc : s.Accepted (i + 1) := ⟨by omega, by omega⟩
    rw [hd.loop (i + 1) hacc, Nat.add_sub_cancel]
  refine ⟨fun c hc => ⟨hd.loop c hc, hd.confined c hc⟩, fun l hl hle => ?_, fun hnone => ?_⟩
  · rw [hgiven]
    exact count_ioLoop hl hle _
  · have hall : ∀ i, ioLoop threads i = 0 := fun i => if_pos hnone
    simp only [hgiven, hall]
    exact Nat.count_true _

/-- Three connections on two loops: the third is given to the first loop again. -/
def threeConnections : List Label :=
  let pass : Outcome := ⟨false, false⟩
  [.newConnection pass, .newConnection pass, .takeFunctors 2, .runFunctor 2 pass, .newConnection pass]

theorem loops_balanced_threeConnections :
    ∃ s, Reach step anyStep (State.init "echo".toList localhost 2) s ∧ (s.conns 3).loop = 1 ∧
      (s.conns 2).trace = [.ran 2 .connectEstablished] ∧ s.given 1 = 2 ∧ s.given 2 = 1 := by
  have hrun : ∃ s, Reach step anyStep (State.init "echo".toList localhost 2) s ∧
      (s.nextConnId = 4 ∧ (s.conns 3).loop = 1 ∧ (s.conns 2).trace = [.ran 2 .connectEstablished]) :=
    Reach.exists_of_exec threeConnections _ (meets_any threeConnections _) (by decide +kernel)
  obtain ⟨s, h, hid, hloop, htrace⟩ := hrun
  obtain ⟨-, hgiven, -⟩ := loops_balanced _ localhost 2 s h
  refine ⟨s, h, hloop, htrace, ?_, ?_⟩
  · rw [hgiven 1 (by decide) (by decide), hid]
    rfl
  · rw [hgiven 2 (by decide) (by decide), hid]
    rfl

end Suduo.TcpServer
