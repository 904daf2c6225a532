/-
# The pipe benchmark

`bench/pingpong/bench.cpp`.  `numPipes` socket pairs stand in a ring, each with a channel on its
reading end.  A round (`runOnce`) puts one byte into `numActive` of them and runs the loop; whoever
reads a byte sends one to the next pair of the ring, as long as `g_writes` lasts; the loop quits
when as many bytes have been read as were sent.

The sockets block: a `recv` that finds nothing never returns.  `runOnce_exact` says that this does
not happen, although a byte is sent while others wait to be handled in the same batch of the poller,
and that each round starts and ends with empty pipes and reads `numActive + numWrites` bytes, no
more and no less.

`poll` may report any of the pipes that have something, or none at all.  A `send` does not fail; the
times that are printed are left out.
-/
import Suduo.Lib.Reach
import Mathlib.Algebra.GroupWithZero.Nat

namespace Suduo.Pipes

open Lib

/-! ## 1. Rows of counters -/

section Row

variable {row : List Nat} {i : Nat}

/-- One more at `i` is one more in all. -/
theorem sum_modify_succ (h : i < row.length) : (row.modify i (· + 1)).sum = row.sum + 1 := by
  induction row generalizing i with
  | nil => cases h
  | cons n row ih =>
    cases i with
    | zero =>
      rw [List.modify_zero_cons, List.sum_cons, List.sum_cons]
      omega
    | succ i =>
      have hrest := ih (Nat.lt_of_succ_lt_succ h)
      rw [List.modify_succ_cons, List.sum_cons, List.sum_cons, hrest]
      omega

/-- One less at `i` is one less in all, if there was one. -/
theorem sum_modify_pred (h : 0 < row[i]?.getD 0) : (row.modify i (· - 1)).sum + 1 = row.sum := by
  induction row generalizing i with
  | nil => cases h
  | cons n row ih =>
    cases i with
    | zero =>
      have hn : 0 < n := h
      rw [List.modify_zero_cons, List.sum_cons, List.sum_cons]
      omega
    | succ i =>
      have hrest : (row.modify i (· - 1)).sum + 1 = row.sum := by
        apply ih
        rwa [List.getElem?_cons_succ] at h
      rw [List.modify_succ_cons, List.sum_cons, List.sum_cons]
      omega

theorem pos_of_getElem (h : 0 < row[i]?.getD 0) : 0 < row.sum := by
  have hpred := sum_modify_pred h
  omega

theorem lt_length_of_pos (h : 0 < row[i]?.getD 0) : i < row.length := by
  by_contra hge
  rw [List.getElem?_eq_none (Nat.le_of_not_lt hge)] at h
  cases h

/-- What others do leaves it: a byte that is taken from pipe `i` is not missing in pipe `j`. -/
theorem getElem_modify_pred {j : Nat} (hne : j ≠ i) : (row.modify i (· - 1))[j]? = row[j]? :=
  List.getElem?_modify_ne _ _ hne.symm

theorem getElem_modify_succ (j : Nat) : row[j]?.getD 0 ≤ (row.modify i (· + 1))[j]?.getD 0 := by
  by_cases hij : i = j
  · subst hij
    rw [List.getElem?_modify_eq]
    cases row[i]? with
    | none => exact Nat.le_refl _
    | some n => exact Nat.le_succ n
  · have hsame : (row.modify i (· + 1))[j]? = row[j]? := List.getElem?_modify_ne _ _ hij
    exact Nat.le_of_eq (congrArg (·.getD 0) hsame.symm)

end Row

/-! ## 2. The benchmark -/

/-- What the command line sets. -/
structure Config where
  numPipes : Nat
  numActive : Nat
  numWrites : Nat
  deriving DecidableEq, Repr

/-- Where `runOnce` is: before or after its loop, about to poll, or with the active channels
still to be handled. -/
inductive Phase
  | outside
  | polling
  | handling (active : List Nat)
  deriving DecidableEq, Repr

structure State where
  /-- The bytes waiting in each pipe. -/
  pipes : List Nat
  /-- `g_reads`, `g_writes` and `g_fired`. -/
  reads : Nat
  writes : Nat
  fired : Nat
  /-- `_running` of the loop. -/
  running : Bool
  phase : Phase
  /-- A `recv` has found nothing. -/
  blocked : Bool
  /-- `g_reads` at the end of each round. -/
  rounds : List Nat
  deriving DecidableEq, Repr

variable (cfg : Config)

def State.init : State where
  pipes := List.replicate cfg.numPipes 0
  reads := 0
  writes := 0
  fired := 0
  running := false
  phase := .outside
  blocked := false
  rounds := []

namespace State

/-- The pipe behind `idx` in the ring. -/
def widx (idx : Nat) : Nat :=
  let widx := idx + 1
  if cfg.numPipes ≤ widx then widx - cfg.numPipes else widx

/-- `send(g_pipes[2 * i + 1], "m", 1, 0)`. -/
def send (s : State) (i : Nat) : State := { s with pipes := s.pipes.modify i (· + 1) }

/-- `readCallback`. -/
def readCallback (s : State) (idx : Nat) : State :=
  if s.pipes[idx]?.getD 0 = 0 then { s with blocked := true }
  else
    let s : State := { s with pipes := s.pipes.modify idx (· - 1), reads := s.reads + 1 }
    let s : State :=
      if 0 < s.writes then
        { s.send (widx cfg idx) with writes := s.writes - 1, fired := s.fired + 1 }
      else s
    if s.fired = s.reads then { s with running := false } else s

/-- `runOnce`, up to the first `poll` of its loop. -/
def runOnce (s : State) : State :=
  let space := cfg.numPipes / cfg.numActive
  let s := (List.range cfg.numActive).foldl (fun s i => s.send (i * space)) s
  { s with fired := cfg.numActive, reads := 0, writes := cfg.numWrites, running := true, phase := .polling }

end State

inductive Label
  | runOnce
  /-- `poll` returns these channels. -/
  | poll (ready : List Nat)
  /-- The next active channel is handled, or there is none left. -/
  | next
  /-- `loop` returns. -/
  | returns
  deriving DecidableEq, Repr

def State.step (s : State) (l : Label) : Option State :=
  if s.blocked then none
  else
    match l, s.phase with
    | .runOnce, .outside => some (s.runOnce cfg)
    | .poll ready, .polling =>
      if s.running = true ∧ ready.Nodup ∧ ∀ i ∈ ready, 0 < s.pipes[i]?.getD 0 then
        some { s with phase := .handling ready }
      else none
    | .next, .handling (i :: rest) => some { s.readCallback cfg i with phase := .handling rest }
    | .next, .handling [] => some { s with phase := .polling }
    | .returns, .polling =>
      if s.running = false then some { s with phase := .outside, rounds := s.rounds ++ [s.reads] } else none
    | _, _ => none

/-- What a step can be. -/
inductive Step (s : State) : Label → State → Prop
  | runOnce (hp : s.phase = .outside) : Step s .runOnce (s.runOnce cfg)
  | poll {ready : List Nat} (hp : s.phase = .polling) (hr : s.running = true) (hn : ready.Nodup)
      (hready : ∀ i ∈ ready, 0 < s.pipes[i]?.getD 0) : Step s (.poll ready) { s with phase := .handling ready }
  | handles {i : Nat} {rest : List Nat} (hp : s.phase = .handling (i :: rest)) :
      Step s .next { s.readCallback cfg i with phase := .handling rest }
  | handled (hp : s.phase = .handling []) : Step s .next { s with phase := .polling }
  | returns (hp : s.phase = .polling) (hr : s.running = false) :
      Step s .returns { s with phase := .outside, rounds := s.rounds ++ [s.reads] }

variable {cfg} {s s' : State}

theorem step_inv {l : Label} (h : s.step cfg l = some s') : Step cfg s l s' := by
  simp only [State.step] at h
  split at h
  · cases h
  · split at h
    · rename_i hp
      cases h
      exact .runOnce hp
    · rename_i hp
      split at h
      · rename_i hg
        cases h
        exact .poll hp hg.1 hg.2.1 hg.2.2
      · cases h
    · rename_i hp
      cases h
      exact .handles hp
    · rename_i hp
      cases h
      exact .handled hp
    · rename_i hp
      split at h
      · rename_i hr
        cases h
        exact .returns hp hr
      · cases h
    · cases h

/-! ## 3. What one callback does -/

/-- The counters of a run of the loop.  What is sent is counted when it is sent, and what is read
when it is read, so the difference is in the pipes. -/
structure Kept (cfg : Config) (s : State) : Prop where
  size : s.pipes.length = cfg.numPipes
  unblocked : s.blocked = false
  /-- What was sent waits in a pipe, or has been read. -/
  inFlight : s.pipes.sum + s.reads = s.fired
  sent : s.phase ≠ .outside → s.fired + s.writes = cfg.numActive + cfg.numWrites
  /-- The loop goes on exactly while something waits, and as long as there is something to send. -/
  running : s.phase ≠ .outside → (s.running = true ↔ 0 < s.pipes.sum)
  lasting : s.phase ≠ .outside → 0 < s.writes → 0 < s.pipes.sum
  /-- What `poll` has reported is still there. -/
  active : ∀ rest, s.phase = .handling rest → rest.Nodup ∧ ∀ i ∈ rest, 0 < s.pipes[i]?.getD 0
  empty : s.phase = .outside → s.pipes.sum = 0
  rounds : ∀ n ∈ s.rounds, n = cfg.numActive + cfg.numWrites

theorem kept_init (cfg : Config) : Kept cfg (.init cfg) := by
  have hzero : (List.replicate cfg.numPipes 0).sum = 0 := by
    rw [List.sum_replicate_nat, Nat.mul_zero]
  constructor
  · exact List.length_replicate
  · rfl
  · exact congrArg (· + 0) hzero
  · exact fun h => absurd rfl h
  · exact fun h => absurd rfl h
  · exact fun h => absurd rfl h
  · rintro rest ⟨⟩
  · exact fun _ => hzero
  · rintro n ⟨⟩

theorem widx_lt {idx : Nat} (h : idx < cfg.numPipes) : State.widx cfg idx < cfg.numPipes := by
  simp only [State.widx]
  split <;> omega

/-- What `readCallback` leaves where a byte waits.  It is read, and as long as there is something
to send, one byte is sent on: then the pipes hold as many as before. -/
structure Called (cfg : Config) (idx : Nat) (s s' : State) : Prop where
  size : s'.pipes.length = s.pipes.length
  unblocked : s'.blocked = s.blocked
  reads : s'.reads = s.reads + 1
  inFlight : s'.pipes.sum + s'.reads + s.fired = s.pipes.sum + s.reads + s'.fired
  sent : s'.fired + s'.writes = s.fired + s.writes
  passes : 0 < s.writes → s'.pipes.sum = s.pipes.sum
  stops : s.writes = 0 → s'.writes = 0
  running : s'.running = if s'.fired = s'.reads then false else s.running
  others : ∀ j, j ≠ idx → s.pipes[j]?.getD 0 ≤ s'.pipes[j]?.getD 0
  rounds : s'.rounds = s.rounds

theorem readCallback_called {idx : Nat} (hsize : s.pipes.length = cfg.numPipes) (h : 0 < s.pipes[idx]?.getD 0) :
    Called cfg idx s (s.readCallback cfg idx) := by
  have hlt : State.widx cfg idx < (s.pipes.modify idx (· - 1)).length := by
    rw [List.length_modify, hsize]
    exact widx_lt (hsize ▸ lt_length_of_pos h)
  have hpred := sum_modify_pred h
  have hsucc := sum_modify_succ hlt
  have hkept (j : Nat) (hj : j ≠ idx) : s.pipes[j]?.getD 0 = (s.pipes.modify idx (· - 1))[j]?.getD 0 := by
    rw [getElem_modify_pred hj]
  by_cases hw : 0 < s.writes
  · have heq : s.readCallback cfg idx = { s with
        pipes := (s.pipes.modify idx (· - 1)).modify (State.widx cfg idx) (· + 1)
        reads := s.reads + 1
        writes := s.writes - 1
        fired := s.fired + 1
        running := if s.fired + 1 = s.reads + 1 then false else s.running } := by
      rw [State.readCallback, if_neg (Nat.pos_iff_ne_zero.mp h)]
      dsimp only [State.send]
      rw [if_pos hw]
      dsimp only
      by_cases hq : s.fired + 1 = s.reads + 1
      · rw [if_pos hq, if_pos hq]
      · rw [if_neg hq, if_neg hq]
    rw [heq]
    constructor
    · simp only [List.length_modify]
    · rfl
    · rfl
    · dsimp only
      omega
    · dsimp only
      omega
    · intro _
      dsimp only
      omega
    · intro hzero
      exact absurd hw (Nat.not_lt.mpr (Nat.le_of_eq hzero))
    · rfl
    · intro j hj
      rw [hkept j hj]
      exact getElem_modify_succ j
    · rfl
  · have heq : s.readCallback cfg idx = { s with
        pipes := s.pipes.modify idx (· - 1)
        reads := s.reads + 1
        running := if s.fired = s.reads + 1 then false else s.running } := by
      rw [State.readCallback, if_neg (Nat.pos_iff_ne_zero.mp h)]
      dsimp only
      rw [if_neg hw]
      by_cases hq : s.fired = s.reads + 1
      · rw [if_pos hq, if_pos hq]
      · rw [if_neg hq, if_neg hq]
    rw [heq]
    constructor
    · simp only [List.length_modify]
    · rfl
    · rfl
    · dsimp only
      omega
    · rfl
    · exact fun hpos => absurd hpos hw
    · exact fun hzero => hzero
    · rfl
    · exact fun j hj => Nat.le_of_eq (hkept j hj)
    · rfl

/-- A callback of an active channel: it finds its byte, and leaves the others theirs.  A byte is
only taken out of the pipe of the channel that is handled, and each channel is in the batch once. -/
theorem Kept.handles (h : Kept cfg s) {i : Nat} {rest : List Nat} (hp : s.phase = .handling (i :: rest)) :
    Kept cfg { s.readCallback cfg i with phase := .handling rest } := by
  have hin : s.phase ≠ .outside := by simp [hp]
  obtain ⟨hnodup, hready⟩ := h.active _ hp
  have hcalled := readCallback_called h.size (hready i List.mem_cons_self)
  have hflow := hcalled.inFlight
  have hbefore := h.inFlight
  have hafter : (s.readCallback cfg i).pipes.sum + (s.readCallback cfg i).reads = (s.readCallback cfg i).fired := by
    omega
  have hpos : 0 < s.pipes.sum := pos_of_getElem (hready i List.mem_cons_self)
  constructor
  · exact hcalled.size.trans h.size
  · exact hcalled.unblocked.trans h.unblocked
  · exact hafter
  · exact fun _ => hcalled.sent.trans (h.sent hin)
  · intro _
    change (s.readCallback cfg i).running = true ↔ 0 < (s.readCallback cfg i).pipes.sum
    rw [hcalled.running]
    split
    · rename_i hq
      constructor
      · exact fun hf => absurd hf Bool.false_ne_true
      · intro hsum
        omega
    · rename_i hq
      constructor
      · intro _
        omega
      · exact fun _ => (h.running hin).mpr hpos
  · intro _ hw
    change 0 < (s.readCallback cfg i).pipes.sum
    by_cases hw0 : 0 < s.writes
    · rw [hcalled.passes hw0]
      exact hpos
    · have hzero := hcalled.stops (Nat.eq_zero_of_not_pos hw0)
      rw [show (s.readCallback cfg i).writes = 0 from hzero] at hw
      cases hw
  · rintro rest' hrest
    cases hrest
    refine ⟨hnodup.of_cons, fun j hj => ?_⟩
    have hne : j ≠ i := by
      rintro rfl
      exact (List.nodup_cons.mp hnodup).1 hj
    exact Nat.lt_of_lt_of_le (hready j (List.mem_cons_of_mem _ hj)) (hcalled.others j hne)
  · intro hout
    cases hout
  · change ∀ n ∈ (s.readCallback cfg i).rounds, _
    rw [hcalled.rounds]
    exact h.rounds

/-- The first bytes of a round.  They go into different pipes, all of them in the ring. -/
theorem foldl_send (s : State) (n space : Nat) (hspace : ∀ i < n, i * space < s.pipes.length) :
    ((List.range n).foldl (fun s i => s.send (i * space)) s).pipes.sum = s.pipes.sum + n ∧
      ((List.range n).foldl (fun s i => s.send (i * space)) s) =
        { s with pipes := ((List.range n).foldl (fun s i => s.send (i * space)) s).pipes } ∧
      ((List.range n).foldl (fun s i => s.send (i * space)) s).pipes.length = s.pipes.length := by
  induction n with
  | zero => exact ⟨rfl, rfl, rfl⟩
  | succ n ih =>
    obtain ⟨hsum, hsame, hlength⟩ := ih fun i hi => hspace i (Nat.lt_succ_of_lt hi)
    rw [List.range_succ, List.foldl_append, List.foldl_cons, List.foldl_nil]
    generalize (List.range n).foldl (fun s i => s.send (i * space)) s = t at hsum hsame hlength ⊢
    refine ⟨?_, ?_, ?_⟩
    · have hadd : (t.send (n * space)).pipes.sum = t.pipes.sum + 1 :=
        sum_modify_succ (hlength ▸ hspace n (Nat.lt_succ_self n))
      omega
    · rw [hsame]
      rfl
    · exact (List.length_modify ..).trans hlength

/-- The pipes that get one are in the ring: `numActive` steps of `numPipes / numActive` do not go
round. -/
theorem space_lt {numPipes numActive i : Nat} (hpipes : 0 < numPipes) (hi : i < numActive) :
    i * (numPipes / numActive) < numPipes := by
  by_cases hzero : numPipes / numActive = 0
  · rw [hzero, Nat.mul_zero]
    exact hpipes
  · calc i * (numPipes / numActive) < numActive * (numPipes / numActive) :=
        Nat.mul_lt_mul_of_pos_right hi (Nat.pos_of_ne_zero hzero)
      _ ≤ numPipes := Nat.mul_div_le numPipes numActive

theorem Kept.runOnce (h : Kept cfg s) (hpipes : 0 < cfg.numPipes) (hactive : 0 < cfg.numActive)
    (hp : s.phase = .outside) : Kept cfg (s.runOnce cfg) := by
  obtain ⟨hsum, hsame, hlength⟩ := foldl_send s cfg.numActive (cfg.numPipes / cfg.numActive) fun i hi => by
    rw [h.size]
    exact space_lt hpipes hi
  rw [h.empty hp, Nat.zero_add] at hsum
  unfold State.runOnce
  dsimp only
  rw [hsame]
  generalize ((List.range cfg.numActive).foldl
    (fun s i => s.send (i * (cfg.numPipes / cfg.numActive))) s).pipes = pipes at hsum hlength
  constructor
  · exact hlength.trans h.size
  · exact h.unblocked
  · exact hsum
  · exact fun _ => rfl
  · intro _
    change true = true ↔ 0 < pipes.sum
    rw [hsum]
    exact ⟨fun _ => hactive, fun _ => rfl⟩
  · intro _ _
    exact hsum ▸ hactive
  · rintro rest ⟨⟩
  · intro hout
    cases hout
  · exact h.rounds

/-- **Every step.**  The poller may report any of the pipes that have something, in any order;
what the step needs is only that each of them has. -/
theorem step_kept (hpipes : 0 < cfg.numPipes) (hactive : 0 < cfg.numActive) {l : Label} (h : Kept cfg s)
    (hst : s.step cfg l = some s') : Kept cfg s' := by
  cases step_inv hst with
  | runOnce hp => exact h.runOnce hpipes hactive hp
  | @poll ready hp hr hn hready =>
    have hin : s.phase ≠ .outside := by simp [hp]
    refine ⟨h.size, h.unblocked, h.inFlight, fun _ => h.sent hin, fun _ => h.running hin, fun _ => h.lasting hin,
      ?_, ?_, h.rounds⟩
    · rintro rest ⟨⟩
      exact ⟨hn, hready⟩
    · intro hout
      cases hout
  | handles hp => exact h.handles hp
  | handled hp =>
    have hin : s.phase ≠ .outside := by simp [hp]
    refine ⟨h.size, h.unblocked, h.inFlight, fun _ => h.sent hin, fun _ => h.running hin, fun _ => h.lasting hin,
      ?_, ?_, h.rounds⟩
    · rintro rest ⟨⟩
    · intro hout
      cases hout
  | returns hp hr =>
    have hin : s.phase ≠ .outside := by simp [hp]
    have hempty : s.pipes.sum = 0 := by
      by_contra hne
      rw [(h.running hin).mpr (Nat.pos_of_ne_zero hne)] at hr
      cases hr
    have hflow := h.inFlight
    have hsent := h.sent hin
    have hwrites : s.writes = 0 := by
      by_contra hne
      have hpos := h.lasting hin (Nat.pos_of_ne_zero hne)
      omega
    refine ⟨h.size, h.unblocked, h.inFlight, fun hout => absurd rfl hout, fun hout => absurd rfl hout,
      fun hout => absurd rfl hout, ?_, fun _ => hempty, ?_⟩
    · rintro rest ⟨⟩
    · intro n hn
      rcases List.mem_append.mp hn with hn | hn
      · exact h.rounds n hn
      · rw [List.mem_singleton.mp hn]
        omega

/-! ## 4. Runs -/

/-- **No `recv` waits, and each round reads what it was to send.**  In every run of rounds, with
whatever the poller reports of the pipes that have something: no callback finds its pipe empty;
what was sent and not read waits in a pipe; the loop goes on exactly while something waits;
between two rounds every pipe is empty; and every round has read `numActive + numWrites` bytes.
A callback that runs may send into the pipe of one that is still to run; that one then has two
bytes, and is called again in the next poll. -/
theorem runOnce_exact (cfg : Config) (hpipes : 0 < cfg.numPipes) (hactive : 0 < cfg.numActive) (s : State)
    (h : Reach (State.step cfg) anyStep (.init cfg) s) :
    s.blocked = false ∧ s.pipes.sum + s.reads = s.fired ∧
      (s.phase ≠ .outside → s.fired + s.writes = cfg.numActive + cfg.numWrites ∧ (s.running = true ↔ 0 < s.pipes.sum)) ∧
      (s.phase = .outside → ∀ i : Nat, s.pipes[i]?.getD 0 = 0) ∧
      ∀ n ∈ s.rounds, n = cfg.numActive + cfg.numWrites := by
  have hkept : Kept cfg s := h.invariant (kept_init cfg) fun _ _ _ hi _ hst => step_kept hpipes hactive hi hst
  refine ⟨hkept.unblocked, hkept.inFlight, fun hin => ⟨hkept.sent hin, hkept.running hin⟩, fun hout i => ?_,
    hkept.rounds⟩
  by_contra hne
  have hpos := pos_of_getElem (Nat.pos_of_ne_zero hne)
  rw [hkept.empty hout] at hpos
  cases hpos

/-- Three pipes, two bytes and one more: the second callback of the batch finds the byte of the
first in its pipe beside its own. -/
def threePipes : Config := ⟨3, 2, 1⟩

def oneRound : List Label :=
  [.runOnce, .poll [0, 1], .next, .next, .next, .poll [], .next, .poll [1], .next, .next, .returns]

theorem runOnce_exact_threePipes :
    ∃ s, Reach (State.step threePipes) anyStep (.init threePipes) s ∧ s.rounds = [3] ∧ ∀ n ∈ s.rounds, n = 2 + 1 := by
  have hrun : ∃ s, Reach (State.step threePipes) anyStep (.init threePipes) s ∧ s.rounds = [3] :=
    Reach.exists_of_exec oneRound _ (meets_any oneRound _) (by decide +kernel)
  obtain ⟨s, h, hrounds⟩ := hrun
  exact ⟨s, h, hrounds, (runOnce_exact threePipes (by decide) (by decide) s h).2.2.2.2⟩

end Suduo.Pipes
