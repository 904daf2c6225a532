/-
# Monitors: locked sections that wait in a `while` loop

A locked section of the usual shape

    lock;  while (test) cond.wait();  body;  cond.notify() / cond.notifyAll();  unlock

is given by its test and its body.  `Monitor` collects the sections of a component, each with the
mutex it holds, and `Monitor.step` runs them for any number of threads, one monitor step at a time:
`lock`, `test`, `wait`, `wake` (spurious), `relock` (the return from `wait`), `operate` (the body
with its signals), `unlock` and `unsetHolder`.  A `notify` wakes whichever waiters the label names,
but at least one if there is any; a woken thread still has to get the mutex, and any other may come
first.

The end of a section is two steps, as it is in a mutex that also keeps a mark of its holder: `unlock`
gives the mutex back, `unsetHolder` is the write to the mark that comes after it.  Between the two the
thread is out of the way of the others, but it is not out of the section: it still uses the mutex
object, which matters to whoever wants to destroy it.

`pending c` lists the threads that were notified on `c` and have since neither been found blocked
again nor done their body.  The rule of the module is `Served`: if `avail c d` counts what a waiter
of `c` waits for, then as long as anybody waits on `c`, there are as many pending threads as units
(`served_operate`, `served_other`).  It needs of each body only that one who may wait on `c` takes a
unit if there is one, and that who adds a unit adds one and signals (`Accounts`).

What is never used up needs less: a condition that stays true once it is, and whose last obstacle is
taken away by a body that wakes all, leaves nobody waiting (`Cleared`, `Announces`).
-/
import Suduo.Lib.Reach
import Mathlib.Data.List.Nodup
import Mathlib.Logic.Function.Basic

namespace Lib

universe u v w x

/-- A thread. -/
abbrev Thread := Nat

/-- What a body does to a condition variable at its end. -/
inductive Signal (κ : Type v)
  | notify (c : κ)
  | notifyAll (c : κ)
  deriving DecidableEq, Repr

/-- The condition variable signalled. -/
def Signal.cond {κ : Type v} : Signal κ → κ
  | .notify c | .notifyAll c => c

/-- The locked sections of a component, `ω` naming them with their arguments; `μ` are the
mutexes, `κ` the condition variables and `δ` the data.  That a section waits on a condition
variable of the mutex it holds, and on one only, are fields: no component can be given that
breaks them. -/
structure Monitor (μ : Type u) (κ : Type v) (δ : Type w) (ω : Type x) where
  mutex : ω → μ
  condMutex : κ → μ
  /-- The test of the `while` loop: the condition variable to wait on, if there is need to. -/
  blocked : ω → δ → Option κ
  body : Thread → ω → δ → δ
  /-- The signals at the end of the body, in terms of the data before it. -/
  signals : ω → δ → List (Signal κ)
  blocked_mutex : ∀ {op d c}, blocked op d = some c → condMutex c = mutex op
  /-- A section waits on one condition variable only. -/
  blocked_unique : ∀ {op d d' c c'}, blocked op d = some c → blocked op d' = some c' → c = c'

namespace Monitor

/-! ## 1. Threads and their steps -/

/-- Where a thread is in its section. -/
inductive Pc (κ : Type v) (ω : Type x)
  | outside
  /-- The mutex is held, the test is next. -/
  | testing (op : ω)
  /-- The test has let the thread through. -/
  | passing (op : ω)
  /-- The test has failed, `wait` is next. -/
  | toWait (op : ω) (c : κ)
  | waiting (op : ω) (c : κ)
  /-- Woken, the mutex not yet taken again. -/
  | woken (op : ω)
  /-- The body is done. -/
  | leaving (op : ω)
  /-- The mutex is given back, the write to the mark of its holder is next. -/
  | unlocking (op : ω)
  deriving DecidableEq, Repr

/-- The section whose mutex a thread holds. -/
def Pc.inside {κ : Type v} {ω : Type x} : Pc κ ω → Option ω
  | .testing op | .passing op | .toWait op _ | .leaving op => some op
  | .outside | .waiting _ _ | .woken _ | .unlocking _ => none

/-- The condition variable a thread sleeps on. -/
def Pc.asleep {κ : Type v} {ω : Type x} : Pc κ ω → Option κ
  | .waiting _ c => some c
  | .outside | .testing _ | .passing _ | .toWait _ _ | .woken _ | .leaving _ | .unlocking _ => none

/-- The section a thread is on its way through, awake: it has not been found blocked since it
last woke, and its body is still to come.  Only such a thread can be pending. -/
def Pc.entering {κ : Type v} {ω : Type x} : Pc κ ω → Option ω
  | .testing op | .passing op | .woken op => some op
  | .outside | .toWait _ _ | .waiting _ _ | .leaving _ | .unlocking _ => none

def Pc.awake {κ : Type v} {ω : Type x} : Pc κ ω → Pc κ ω
  | .waiting op _ => .woken op
  | p => p

structure State (μ : Type u) (κ : Type v) (δ : Type w) (ω : Type x) where
  owner : μ → Option Thread
  data : δ
  pc : Thread → Pc κ ω
  /-- The threads asleep on a condition variable. -/
  waiters : κ → List Thread
  /-- The threads notified that have neither been found blocked since nor done their body. -/
  pending : κ → List Thread

inductive Label (ω : Type x)
  | lock (t : Thread) (op : ω)
  | test (t : Thread)
  | wait (t : Thread)
  /-- A spurious wake-up. -/
  | wake (t : Thread)
  /-- `wait` returns. -/
  | relock (t : Thread)
  /-- The body, and the signals, which wake the threads named. -/
  | operate (t : Thread) (woken : List Thread)
  /-- The mutex is given back. -/
  | unlock (t : Thread)
  /-- The last use of the mutex object in a section: its holder is cleared. -/
  | unsetHolder (t : Thread)
  deriving DecidableEq, Repr

variable {μ : Type u} {κ : Type v} {δ : Type w} {ω : Type x}

def State.init (d : δ) : State μ κ δ ω where
  owner := fun _ => none
  data := d
  pc := fun _ => .outside
  waiters := fun _ => []
  pending := fun _ => []

/-- A signal on a condition variable with these waiters wakes enough of them: `notify` at least
one if there is any, `notifyAll` every one.  That `notify` may wake more is what the standard
allows. -/
def Enough (waiters woken : List Thread) : Signal κ → Prop
  | .notify _ => waiters ≠ [] → ∃ t ∈ woken, t ∈ waiters
  | .notifyAll _ => ∀ t ∈ waiters, t ∈ woken

instance (waiters woken : List Thread) : (g : Signal κ) → Decidable (Enough waiters woken g)
  | .notify _ => inferInstanceAs (Decidable (waiters ≠ [] → ∃ t ∈ woken, t ∈ waiters))
  | .notifyAll _ => inferInstanceAs (Decidable (∀ t ∈ waiters, t ∈ woken))

namespace State

/-- The signals may wake exactly these threads. -/
def Wakes (s : State μ κ δ ω) (gs : List (Signal κ)) (woken : List Thread) : Prop :=
  (∀ t ∈ woken, ∃ g ∈ gs, t ∈ s.waiters g.cond) ∧
    ∀ g ∈ gs, Enough (s.waiters g.cond) woken g

instance (s : State μ κ δ ω) (gs : List (Signal κ)) (woken : List Thread) :
    Decidable (s.Wakes gs woken) :=
  inferInstanceAs (Decidable (_ ∧ _))

def move (s : State μ κ δ ω) (t : Thread) (p : Pc κ ω) : State μ κ δ ω :=
  { s with pc := Function.update s.pc t p }

/-- Thread `t` is no longer pending on `c`. -/
def settle [DecidableEq κ] (s : State μ κ δ ω) (t : Thread) (c : κ) : State μ κ δ ω :=
  { s with pending := Function.update s.pending c ((s.pending c).filter (· ≠ t)) }

/-- The threads of `woken` wake up, notified. -/
def rouse (s : State μ κ δ ω) (woken : List Thread) : State μ κ δ ω :=
  { s with
    pc := fun t => if t ∈ woken then (s.pc t).awake else s.pc t
    waiters := fun c => (s.waiters c).filter (· ∉ woken)
    pending := fun c => s.pending c ++ (s.waiters c).filter (· ∈ woken) }

end State

variable (M : Monitor μ κ δ ω)

/-- The body of thread `t`'s section, with its signals. -/
def operate (s : State μ κ δ ω) (t : Thread) (op : ω) (woken : List Thread) : State μ κ δ ω :=
  ({ s with
      data := M.body t op s.data
      pending := fun c => (s.pending c).filter (· ≠ t) }.rouse woken).move t (.leaving op)

section

variable [DecidableEq μ] [DecidableEq κ]

def step (s : State μ κ δ ω) : Label ω → Option (State μ κ δ ω)
  | .lock t op =>
    match s.pc t, s.owner (M.mutex op) with
    | .outside, none =>
      some { s.move t (.testing op) with
        owner := Function.update s.owner (M.mutex op) (some t) }
    | _, _ => none
  | .test t =>
    match s.pc t with
    | .testing op =>
      match M.blocked op s.data with
      | none => some (s.move t (.passing op))
      | some c => some ((s.move t (.toWait op c)).settle t c)
    | _ => none
  | .wait t =>
    match s.pc t with
    | .toWait op c =>
      some { s.move t (.waiting op c) with
        owner := Function.update s.owner (M.mutex op) none
        waiters := Function.update s.waiters c (s.waiters c ++ [t]) }
    | _ => none
  | .wake t =>
    match s.pc t with
    | .waiting op c =>
      some { s.move t (.woken op) with
        waiters := Function.update s.waiters c ((s.waiters c).filter (· ≠ t)) }
    | _ => none
  | .relock t =>
    match s.pc t with
    | .woken op =>
      match s.owner (M.mutex op) with
      | none =>
        some { s.move t (.testing op) with
          owner := Function.update s.owner (M.mutex op) (some t) }
      | some _ => none
    | _ => none
  | .operate t woken =>
    match s.pc t with
    | .passing op =>
      if s.Wakes (M.signals op s.data) woken then some (M.operate s t op woken) else none
    | _ => none
  | .unlock t =>
    match s.pc t with
    | .leaving op =>
      some { s.move t (.unlocking op) with owner := Function.update s.owner (M.mutex op) none }
    | _ => none
  | .unsetHolder t =>
    match s.pc t with
    | .unlocking _ => some (s.move t .outside)
    | _ => none

/-- The transitions, one constructor for each way a step can change the state.  All proofs below
are by cases over these, and none unfolds the step function again. -/
inductive Step (s : State μ κ δ ω) : Label ω → State μ κ δ ω → Prop
  | lock (t : Thread) (op : ω) (hpc : s.pc t = .outside) (hfree : s.owner (M.mutex op) = none) :
      Step s (.lock t op) { s.move t (.testing op) with
        owner := Function.update s.owner (M.mutex op) (some t) }
  | pass (t : Thread) (op : ω) (hpc : s.pc t = .testing op) (hb : M.blocked op s.data = none) :
      Step s (.test t) (s.move t (.passing op))
  | block (t : Thread) (op : ω) (c : κ) (hpc : s.pc t = .testing op)
      (hb : M.blocked op s.data = some c) :
      Step s (.test t) ((s.move t (.toWait op c)).settle t c)
  | wait (t : Thread) (op : ω) (c : κ) (hpc : s.pc t = .toWait op c) :
      Step s (.wait t) { s.move t (.waiting op c) with
        owner := Function.update s.owner (M.mutex op) none
        waiters := Function.update s.waiters c (s.waiters c ++ [t]) }
  | wake (t : Thread) (op : ω) (c : κ) (hpc : s.pc t = .waiting op c) :
      Step s (.wake t) { s.move t (.woken op) with
        waiters := Function.update s.waiters c ((s.waiters c).filter (· ≠ t)) }
  | relock (t : Thread) (op : ω) (hpc : s.pc t = .woken op)
      (hfree : s.owner (M.mutex op) = none) :
      Step s (.relock t) { s.move t (.testing op) with
        owner := Function.update s.owner (M.mutex op) (some t) }
  | operate (t : Thread) (op : ω) (woken : List Thread) (hpc : s.pc t = .passing op)
      (hw : s.Wakes (M.signals op s.data) woken) :
      Step s (.operate t woken) (M.operate s t op woken)
  | unlock (t : Thread) (op : ω) (hpc : s.pc t = .leaving op) :
      Step s (.unlock t) { s.move t (.unlocking op) with
        owner := Function.update s.owner (M.mutex op) none }
  | unsetHolder (t : Thread) (op : ω) (hpc : s.pc t = .unlocking op) :
      Step s (.unsetHolder t) (s.move t .outside)

end

variable {M} {s s' : State μ κ δ ω} {l : Label ω}

/-- **Inversion of a step.**  One constructor for each place where a thread can be, with what it
finds there. -/
theorem step_inv [DecidableEq μ] [DecidableEq κ] (h : M.step s l = some s') : M.Step s l s' := by
  cases l with
  | lock t op =>
    simp only [step] at h
    split at h
    · rename_i hpc hfree
      cases h
      exact .lock t op hpc hfree
    · cases h
  | test t =>
    simp only [step] at h
    split at h
    · rename_i op hpc
      split at h
      · rename_i hb
        cases h
        exact .pass t op hpc hb
      · rename_i c hb
        cases h
        exact .block t op c hpc hb
    · cases h
  | wait t =>
    simp only [step] at h
    split at h
    · rename_i op c hpc
      cases h
      exact .wait t op c hpc
    · cases h
  | wake t =>
    simp only [step] at h
    split at h
    · rename_i op c hpc
      cases h
      exact .wake t op c hpc
    · cases h
  | relock t =>
    simp only [step] at h
    split at h
    · rename_i op hpc
      split at h
      · rename_i hfree
        cases h
        exact .relock t op hpc hfree
      · cases h
    · cases h
  | operate t woken =>
    simp only [step] at h
    split at h
    · rename_i op hpc
      split at h
      · rename_i hw
        cases h
        exact .operate t op woken hpc hw
      · cases h
    · cases h
  | unlock t =>
    simp only [step] at h
    split at h
    · rename_i op hpc
      cases h
      exact .unlock t op hpc
    · cases h
  | unsetHolder t =>
    simp only [step] at h
    split at h
    · rename_i op hpc
      cases h
      exact .unsetHolder t op hpc
    · cases h

/-! ## 2. What holds in every run -/

variable (M) in
/-- A thread in this section may have to wait on `c`. -/
def MayWait (op : ω) (c : κ) : Prop := ∃ d, M.blocked op d = some c

variable (M) in
/-- The bookkeeping: who owns which mutex, who sleeps where, and who is pending.  Owners and
waiters are determined by where the threads are; of the pending ones it is known that they are
awake and on their way through a section that may wait there. -/
structure Orderly (s : State μ κ δ ω) : Prop where
  owner : ∀ t m, s.owner m = some t ↔ ∃ op, (s.pc t).inside = some op ∧ M.mutex op = m
  waiters : ∀ t c, t ∈ s.waiters c ↔ (s.pc t).asleep = some c
  waits : ∀ t op c, s.pc t = .toWait op c ∨ s.pc t = .waiting op c → M.MayWait op c
  waitersNodup : ∀ c, (s.waiters c).Nodup
  pendingNodup : ∀ c, (s.pending c).Nodup
  pending : ∀ c, ∀ t ∈ s.pending c, ∃ op, (s.pc t).entering = some op ∧ M.MayWait op c

theorem orderly_init (d : δ) : M.Orderly (.init d) where
  owner := by simp [State.init, Pc.inside]
  waiters := by simp [State.init, Pc.asleep]
  waits := by simp [State.init]
  waitersNodup := by simp [State.init]
  pendingNodup := by simp [State.init]
  pending := by simp [State.init]

/-- **Mutual exclusion.**  Two threads inside sections of one mutex both own it, and it has one
owner. -/
theorem Orderly.exclusive (h : M.Orderly s) {t u : Thread} {op op' : ω}
    (ht : (s.pc t).inside = some op) (hu : (s.pc u).inside = some op')
    (hm : M.mutex op = M.mutex op') : t = u := by
  have hto := (h.owner t _).mpr ⟨op, ht, rfl⟩
  have huo := (h.owner u _).mpr ⟨op', hu, rfl⟩
  rw [hm, huo] at hto
  exact (Option.some.inj hto).symm

section

variable {t : Thread} {p : Pc κ ω} {op : ω}

/-- `t` takes a free mutex, and is its owner from then on. -/
theorem Orderly.owner_acquire [DecidableEq μ] (h : M.Orderly s) (hpc : (s.pc t).inside = none)
    (hp : p.inside = some op) (hfree : s.owner (M.mutex op) = none) (u : Thread) (m : μ) :
    Function.update s.owner (M.mutex op) (some t) m = some u ↔
      ∃ op', (Function.update s.pc t p u).inside = some op' ∧ M.mutex op' = m := by
  rcases eq_or_ne u t with rfl | hu
  · rw [Function.update_self, hp]
    rcases eq_or_ne m (M.mutex op) with rfl | hm
    · simp
    · rw [Function.update_of_ne hm, h.owner u m, hpc]
      simp [hm.symm]
  · rw [Function.update_of_ne hu]
    rcases eq_or_ne m (M.mutex op) with rfl | hm
    · rw [Function.update_self, ← h.owner u, hfree]
      simp [hu.symm]
    · rw [Function.update_of_ne hm, h.owner u m]

/-- `t` gives its mutex back, and nobody has it. -/
theorem Orderly.owner_release [DecidableEq μ] (h : M.Orderly s) (hpc : (s.pc t).inside = some op)
    (hp : p.inside = none) (u : Thread) (m : μ) :
    Function.update s.owner (M.mutex op) none m = some u ↔
      ∃ op', (Function.update s.pc t p u).inside = some op' ∧ M.mutex op' = m := by
  have hown : s.owner (M.mutex op) = some t := (h.owner t _).mpr ⟨op, hpc, rfl⟩
  rcases eq_or_ne u t with rfl | hu
  · rw [Function.update_self, hp]
    rcases eq_or_ne m (M.mutex op) with rfl | hm
    · simp
    · rw [Function.update_of_ne hm, h.owner u m, hpc]
      simp [hm.symm]
  · rw [Function.update_of_ne hu, ← h.owner u m]
    rcases eq_or_ne m (M.mutex op) with rfl | hm
    · rw [Function.update_self, hown]
      simp [hu.symm]
    · rw [Function.update_of_ne hm]

/-- `t` goes on with the mutex it has, if any. -/
theorem Orderly.owner_keep (h : M.Orderly s) (hp : p.inside = (s.pc t).inside) (u : Thread)
    (m : μ) : s.owner m = some u ↔
      ∃ op', (Function.update s.pc t p u).inside = some op' ∧ M.mutex op' = m := by
  rcases eq_or_ne u t with rfl | hu
  · rw [Function.update_self, hp, h.owner]
  · rw [Function.update_of_ne hu, h.owner]

/-- `t` sleeps neither before nor after, so who sleeps is the same. -/
theorem Orderly.waiters_keep (h : M.Orderly s) (hpc : (s.pc t).asleep = none)
    (hp : p.asleep = none) (u : Thread) (c : κ) :
    u ∈ s.waiters c ↔ (Function.update s.pc t p u).asleep = some c := by
  rcases eq_or_ne u t with rfl | hu
  · rw [Function.update_self, hp, h.waiters, hpc]
  · rw [Function.update_of_ne hu, h.waiters]

/-- `t` is at no place where it may come to sleep, so nothing is said of it. -/
theorem Orderly.waits_keep (h : M.Orderly s)
    (hp : ∀ op c, p = .toWait op c ∨ p = .waiting op c → M.MayWait op c) (u : Thread) (op : ω)
    (c : κ) (hu : Function.update s.pc t p u = .toWait op c ∨
      Function.update s.pc t p u = .waiting op c) : M.MayWait op c := by
  rcases eq_or_ne u t with rfl | hne
  · rw [Function.update_self] at hu
    exact hp op c hu
  · rw [Function.update_of_ne hne] at hu
    exact h.waits u op c hu

/-- `t` is still on its way through, if it was, or was not pending. -/
theorem Orderly.pending_keep (h : M.Orderly s)
    (hp : ∀ op, (s.pc t).entering = some op → p.entering = some op) (c : κ) (u : Thread)
    (hu : u ∈ s.pending c) :
    ∃ op, (Function.update s.pc t p u).entering = some op ∧ M.MayWait op c := by
  obtain ⟨op, hop, hc⟩ := h.pending c u hu
  refine ⟨op, ?_, hc⟩
  rcases eq_or_ne u t with rfl | hne
  · rw [Function.update_self]
    exact hp op hop
  · rwa [Function.update_of_ne hne]

end

theorem awake_inside (p : Pc κ ω) : p.awake.inside = p.inside := by
  cases p <;> rfl

/-- Everyone but the thread at work, after its body. -/
theorem operate_pc_of_ne {t u : Thread} (op : ω) (woken : List Thread) (h : u ≠ t) :
    (M.operate s t op woken).pc u = if u ∈ woken then (s.pc u).awake else s.pc u := by
  simp [operate, State.rouse, State.move, h]

@[simp] theorem operate_pc_self (s : State μ κ δ ω) (t : Thread) (op : ω) (woken : List Thread) :
    (M.operate s t op woken).pc t = .leaving op := by
  simp [operate, State.move]

/-- The threads that a body wakes are asleep, and so the one at work is not among them. -/
theorem Orderly.woken_asleep (h : M.Orderly s) {gs : List (Signal κ)} {woken : List Thread}
    (hw : s.Wakes gs woken) {u : Thread} (hu : u ∈ woken) :
    ∃ op c, s.pc u = .waiting op c := by
  obtain ⟨g, -, hg⟩ := hw.1 u hu
  have := (h.waiters u _).mp hg
  cases hpc : s.pc u with
  | waiting op c => exact ⟨op, c, rfl⟩
  | _ => simp [hpc, Pc.asleep] at this

theorem Orderly.operate (h : M.Orderly s) {t : Thread} {op : ω} {woken : List Thread}
    (hpc : s.pc t = .passing op) (hw : s.Wakes (M.signals op s.data) woken) :
    M.Orderly (M.operate s t op woken) := by
  have ht : t ∉ woken := by
    intro ht
    obtain ⟨op', c, hu⟩ := h.woken_asleep hw ht
    rw [hpc] at hu
    cases hu
  have hne : ∀ u, u ≠ t → (M.operate s t op woken).pc u =
      if u ∈ woken then (s.pc u).awake else s.pc u := fun u hu => operate_pc_of_ne op woken hu
  have hself : (M.operate s t op woken).pc t = .leaving op := operate_pc_self s t op woken
  refine ⟨?_, ?_, ?_, ?_, ?_, ?_⟩
  · intro u m
    change s.owner m = some u ↔ _
    rw [h.owner]
    rcases eq_or_ne u t with rfl | hu
    · rw [hself, hpc]
      rfl
    · rw [hne u hu]
      split
      · rw [awake_inside]
      · rfl
  · intro u c
    change u ∈ (s.waiters c).filter (· ∉ woken) ↔ _
    rw [List.mem_filter, h.waiters, decide_eq_true_eq]
    rcases eq_or_ne u t with rfl | hu
    · simp [hpc, Pc.asleep]
    · rw [hne u hu]
      split
      · rename_i hmem
        obtain ⟨op', c', hu'⟩ := h.woken_asleep hw hmem
        simp [hu', Pc.awake, Pc.asleep, hmem]
      · rename_i hmem
        simp [hmem]
  · intro u op' c hu
    rcases eq_or_ne u t with rfl | hut
    · rw [hself] at hu
      simp at hu
    · rw [hne u hut] at hu
      split at hu
      · rename_i hmem
        obtain ⟨op'', c', hu'⟩ := h.woken_asleep hw hmem
        simp [hu', Pc.awake] at hu
      · exact h.waits u op' c hu
  · exact fun c => (h.waitersNodup c).filter _
  · intro c
    change ((s.pending c).filter (· ≠ t) ++ (s.waiters c).filter (· ∈ woken)).Nodup
    refine List.Nodup.append ((h.pendingNodup c).filter _) ((h.waitersNodup c).filter _) ?_
    intro u hu hu'
    -- who is pending is awake
    obtain ⟨op', hop', -⟩ := h.pending c u (List.mem_of_mem_filter hu)
    have hasleep := (h.waiters u c).mp (List.mem_of_mem_filter hu')
    cases hpu : s.pc u <;> simp [hpu, Pc.entering, Pc.asleep] at hop' hasleep
  · intro c u hu
    change u ∈ (s.pending c).filter (· ≠ t) ++ (s.waiters c).filter (· ∈ woken) at hu
    rcases List.mem_append.mp hu with hu | hu
    · obtain ⟨hu, hut⟩ := List.mem_filter.mp hu
      rw [decide_eq_true_eq] at hut
      obtain ⟨op', hop', hc⟩ := h.pending c u hu
      refine ⟨op', ?_, hc⟩
      rw [hne u hut]
      split
      · rename_i hmem
        obtain ⟨op'', c', hu'⟩ := h.woken_asleep hw hmem
        simp [hu', Pc.entering] at hop'
      · exact hop'
    · obtain ⟨hu, hmem⟩ := List.mem_filter.mp hu
      rw [decide_eq_true_eq] at hmem
      have hasleep := (h.waiters u c).mp hu
      obtain ⟨op', c', hu'⟩ := h.woken_asleep hw hmem
      rw [hu', Pc.asleep, Option.some.injEq] at hasleep
      subst hasleep
      have hut : u ≠ t := fun hut => ht (hut ▸ hmem)
      refine ⟨op', ?_, h.waits u op' c' (.inr hu')⟩
      rw [hne u hut, if_pos hmem, hu']
      rfl

/-- A thread that is found blocked is pending no more on what it is about to wait for, and on nothing else
either: its section waits on one condition variable only. -/
theorem Orderly.block [DecidableEq κ] (h : M.Orderly s) {t : Thread} {op : ω} {c : κ} (hpc : s.pc t = .testing op)
    (hb : M.blocked op s.data = some c) : M.Orderly ((s.move t (.toWait op c)).settle t c) := by
  refine ⟨h.owner_keep (by rw [hpc]; rfl), h.waiters_keep (by rw [hpc]; rfl) rfl,
    h.waits_keep ?_, h.waitersNodup, ?_, ?_⟩
  · rintro op' c' (hp | hp)
    · cases hp
      exact ⟨_, hb⟩
    · cases hp
  · intro c'
    simp only [State.settle, State.move]
    rcases eq_or_ne c' c with rfl | hc
    · rw [Function.update_self]
      exact (h.pendingNodup c').filter _
    · rw [Function.update_of_ne hc]
      exact h.pendingNodup c'
  · intro c' u hu
    simp only [State.settle, State.move] at hu ⊢
    -- `t` may wait on `c` only, and there it is pending no more
    have hut : u ∈ s.pending c' ∧ u ≠ t := by
      rcases eq_or_ne c' c with rfl | hc
      · rw [Function.update_self, List.mem_filter, decide_eq_true_eq] at hu
        exact hu
      · rw [Function.update_of_ne hc] at hu
        refine ⟨hu, ?_⟩
        rintro rfl
        obtain ⟨op', hop', d, hd⟩ := h.pending c' u hu
        rw [hpc] at hop'
        cases hop'
        exact hc (M.blocked_unique hd hb)
    rw [Function.update_of_ne hut.2]
    exact h.pending c' u hut.1

/-- Who sleeps on what, when `t` has fallen asleep on `c`. -/
theorem Orderly.waiters_wait [DecidableEq κ] (h : M.Orderly s) {t : Thread} {op : ω} {c : κ}
    (hpc : s.pc t = .toWait op c) (u : Thread) (c' : κ) :
    u ∈ Function.update s.waiters c (s.waiters c ++ [t]) c' ↔
      (Function.update s.pc t (.waiting op c) u).asleep = some c' := by
  rcases eq_or_ne u t with rfl | hu
  · have hnot : ∀ c', u ∉ s.waiters c' := fun c' hm => by
      simpa [hpc, Pc.asleep] using (h.waiters u c').mp hm
    rcases eq_or_ne c' c with rfl | hc
    · simp [Pc.asleep]
    · simp [hc, Pc.asleep, hnot c', hc.symm]
  · rw [Function.update_of_ne hu, ← h.waiters u c']
    rcases eq_or_ne c' c with rfl | hc
    · simp [hu]
    · rw [Function.update_of_ne hc]

/-- A thread that falls asleep gives its mutex back and joins the waiters, once. -/
theorem Orderly.wait [DecidableEq μ] [DecidableEq κ] (h : M.Orderly s) {t : Thread} {op : ω} {c : κ}
    (hpc : s.pc t = .toWait op c) :
    M.Orderly { s.move t (.waiting op c) with
      owner := Function.update s.owner (M.mutex op) none
      waiters := Function.update s.waiters c (s.waiters c ++ [t]) } := by
  refine ⟨h.owner_release (by rw [hpc]; rfl) rfl, h.waiters_wait hpc, h.waits_keep ?_, ?_,
    h.pendingNodup, h.pending_keep (by simp [hpc, Pc.entering])⟩
  · rintro op' c' (hp | hp)
    · cases hp
    · cases hp
      exact h.waits t op c (.inl hpc)
  · intro c'
    simp only
    rcases eq_or_ne c' c with rfl | hc
    · have hnot : t ∉ s.waiters c' := fun hm => by
        simpa [hpc, Pc.asleep] using (h.waiters t c').mp hm
      rw [Function.update_self]
      exact List.Nodup.append (h.waitersNodup c') (List.nodup_singleton t) (by simpa using hnot)
    · rw [Function.update_of_ne hc]
      exact h.waitersNodup c'

/-- A spurious wake-up takes the thread out of the waiters; it is not pending for it. -/
theorem Orderly.wake [DecidableEq κ] (h : M.Orderly s) {t : Thread} {op : ω} {c : κ} (hpc : s.pc t = .waiting op c) :
    M.Orderly { s.move t (.woken op) with
      waiters := Function.update s.waiters c ((s.waiters c).filter (· ≠ t)) } := by
  refine ⟨h.owner_keep (by rw [hpc]; rfl), ?_, h.waits_keep (by simp), ?_, h.pendingNodup,
    h.pending_keep (by simp [hpc, Pc.entering])⟩
  · intro u c'
    simp only [State.move]
    rcases eq_or_ne u t with rfl | hu
    · rcases eq_or_ne c' c with rfl | hc
      · simp [Pc.asleep]
      · simp [Pc.asleep, hc, h.waiters, hpc, hc.symm]
    · rw [Function.update_of_ne hu, ← h.waiters u c']
      rcases eq_or_ne c' c with rfl | hc
      · simp [hu]
      · rw [Function.update_of_ne hc]
  · intro c'
    simp only
    rcases eq_or_ne c' c with rfl | hc
    · rw [Function.update_self]
      exact (h.waitersNodup c').filter _
    · rw [Function.update_of_ne hc]
      exact h.waitersNodup c'

/-- **Every step keeps the books.**  The steps that only take or give back the mutex, or go on
with it, move one thread between two places; the others have a lemma each above. -/
theorem step_orderly [DecidableEq μ] [DecidableEq κ] (h : M.Orderly s) (hst : M.step s l = some s') : M.Orderly s' := by
  cases step_inv hst with
  | lock t op hpc hfree =>
    exact ⟨h.owner_acquire (by rw [hpc]; rfl) rfl hfree,
      h.waiters_keep (by rw [hpc]; rfl) rfl, h.waits_keep (by simp), h.waitersNodup,
      h.pendingNodup, h.pending_keep (by simp [hpc, Pc.entering])⟩
  | pass t op hpc hb =>
    exact ⟨h.owner_keep (by rw [hpc]; rfl), h.waiters_keep (by rw [hpc]; rfl) rfl,
      h.waits_keep (by simp), h.waitersNodup, h.pendingNodup,
      h.pending_keep (by simp [hpc, Pc.entering])⟩
  | block t op c hpc hb => exact h.block hpc hb
  | wait t op c hpc => exact h.wait hpc
  | wake t op c hpc => exact h.wake hpc
  | relock t op hpc hfree =>
    exact ⟨h.owner_acquire (by rw [hpc]; rfl) rfl hfree,
      h.waiters_keep (by rw [hpc]; rfl) rfl, h.waits_keep (by simp), h.waitersNodup,
      h.pendingNodup, h.pending_keep (by simp [hpc, Pc.entering])⟩
  | operate t op woken hpc hw => exact h.operate hpc hw
  | unlock t op hpc =>
    exact ⟨h.owner_release (by rw [hpc]; rfl) rfl, h.waiters_keep (by rw [hpc]; rfl) rfl,
      h.waits_keep (by simp), h.waitersNodup, h.pendingNodup,
      h.pending_keep (by simp [hpc, Pc.entering])⟩
  | unsetHolder t op hpc =>
    exact ⟨h.owner_keep (by rw [hpc]; rfl), h.waiters_keep (by rw [hpc]; rfl) rfl,
      h.waits_keep (by simp), h.waitersNodup, h.pendingNodup,
      h.pending_keep (by simp [hpc, Pc.entering])⟩

/-! ## 3. From the test to the body -/

variable (M) in
/-- Whom the test has let through is not blocked, at the time its body runs and not only when the
test was made. -/
def Tested (s : State μ κ δ ω) : Prop := ∀ t op, s.pc t = .passing op → M.blocked op s.data = none

theorem tested_init (d : δ) : M.Tested (.init d) := by
  intro t op h
  cases h

/-- The data change in bodies only, and a body is run inside the mutex. -/
theorem step_data [DecidableEq μ] [DecidableEq κ] (h : M.step s l = some s') :
    s'.data = s.data ∨
      ∃ t op woken, l = .operate t woken ∧ s.pc t = .passing op ∧ s'.data = M.body t op s.data := by
  cases step_inv h with
  | operate t op woken hpc hw => exact .inr ⟨t, op, woken, rfl, hpc, rfl⟩
  | _ => exact .inl rfl

/-- A body puts nobody anywhere, but its own thread at the end and the woken ones on their way. -/
theorem operate_pc_inv {t u : Thread} {op : ω} {woken : List Thread} {p : Pc κ ω}
    (h : (M.operate s t op woken).pc u = p) (hp : ∀ op', p ≠ .leaving op' ∧ p ≠ .woken op') :
    u ≠ t ∧ s.pc u = p := by
  have hu : u ≠ t := by
    rintro rfl
    rw [operate_pc_self] at h
    exact (hp op).1 h.symm
  refine ⟨hu, ?_⟩
  rw [operate_pc_of_ne op woken hu] at h
  split at h
  · cases hpc : s.pc u with
    | waiting op' c =>
      rw [hpc] at h
      exact absurd h.symm (hp op').2
    | _ => rw [hpc] at h; exact h
  · exact h

/-- **The mutex protects the test.**  Between a test and its body nobody else runs a body under
the same mutex, by `Orderly.exclusive`.  So it is enough that no body blocks whom the test of a
section under ANOTHER mutex has let through. -/
theorem step_tested [DecidableEq μ] [DecidableEq κ] (ho : M.Orderly s) (ht : M.Tested s)
    (hst : M.step s l = some s')
    (hop : ∀ t op woken u op', l = .operate t woken → s.pc t = .passing op →
      s.pc u = .passing op' → M.mutex op' ≠ M.mutex op →
      M.blocked op' (M.body t op s.data) = none) : M.Tested s' := by
  have hkeep : ∀ {t : Thread} {p : Pc κ ω}, (∀ op, p ≠ .passing op) → ∀ u op,
      Function.update s.pc t p u = .passing op → M.blocked op s.data = none := by
    intro t p hp u op hu
    rcases eq_or_ne u t with rfl | hne
    · rw [Function.update_self] at hu
      exact absurd hu (hp op)
    · rw [Function.update_of_ne hne] at hu
      exact ht u op hu
  cases step_inv hst with
  | pass t op hpc hb =>
    intro u op' hu
    simp only [State.move] at hu
    rcases eq_or_ne u t with rfl | hne
    · rw [Function.update_self] at hu
      cases hu
      exact hb
    · rw [Function.update_of_ne hne] at hu
      exact ht u op' hu
  | operate t op woken hpc hw =>
    intro u op' hu
    obtain ⟨hne, hu⟩ := operate_pc_inv hu (by simp)
    refine hop t op woken u op' rfl hpc hu fun hm => hne ?_
    exact ho.exclusive (by rw [hu]; rfl) (by rw [hpc]; rfl) hm
  | lock t op hpc hfree => exact hkeep (by simp)
  | block t op c hpc hb => exact hkeep (by simp)
  | wait t op c hpc => exact hkeep (by simp)
  | wake t op c hpc => exact hkeep (by simp)
  | relock t op hpc hfree => exact hkeep (by simp)
  | unlock t op hpc => exact hkeep (by simp)
  | unsetHolder t op hpc => exact hkeep (by simp)

/-! ## 4. No wake-up is lost -/

variable {avail : κ → δ → Nat}

/-- **As long as somebody waits on `c`, or is about to, the units that are there are spoken
for**: for each of them there is a thread that was notified and has not been found blocked since.
This is the invariant that excludes a lost wake-up, and it counts, since one `notify` for two
units would not do. -/
def Served (avail : κ → δ → Nat) (s : State μ κ δ ω) : Prop :=
  ∀ c, (s.waiters c ≠ [] ∨ ∃ t op, s.pc t = .toWait op c) → avail c s.data ≤ (s.pending c).length

theorem served_init (d : δ) : Served avail (.init d : State μ κ δ ω) := by
  rintro c (h | ⟨t, op, h⟩)
  · exact absurd rfl h
  · cases h

variable (M) in
/-- A body accounts for its units: one who may wait on `c` takes a unit of `c` if there is one, and
one who adds a unit holds the mutex of `c`, adds one, and signals. -/
structure Accounts (avail : κ → δ → Nat) (t : Thread) (op : ω) (d : δ) : Prop where
  uses : ∀ c, M.MayWait op c → avail c (M.body t op d) ≤ avail c d - 1
  adds : ∀ c, avail c d < avail c (M.body t op d) → M.condMutex c = M.mutex op ∧
    avail c (M.body t op d) ≤ avail c d + 1 ∧ ∃ g ∈ M.signals op d, g.cond = c

/-- Taking one thread out of a list without repetition shortens it by one at most. -/
theorem length_le_filter_ne {ts : List Thread} (h : ts.Nodup) (t : Thread) :
    ts.length ≤ (ts.filter (· ≠ t)).length + 1 := by
  have hfilter : ts.filter (· ≠ t) = ts.erase t := by
    rw [h.erase_eq_filter]
    simp [bne, decide_not, Bool.beq_eq_decide_eq]
  rw [hfilter, List.length_erase]
  split <;> omega

/-- A signal wakes somebody, if there is anybody. -/
theorem rouse_nonempty {gs : List (Signal κ)} {woken : List Thread} (hw : s.Wakes gs woken)
    {g : Signal κ} (hg : g ∈ gs) (hne : s.waiters g.cond ≠ []) :
    0 < ((s.waiters g.cond).filter (· ∈ woken)).length := by
  obtain ⟨t, ht, hmem⟩ : ∃ t ∈ woken, t ∈ s.waiters g.cond := by
    have henough := hw.2 g hg
    cases g with
    | notify c => exact henough hne
    | notifyAll c =>
      obtain ⟨t, ht⟩ := List.exists_mem_of_ne_nil _ hne
      exact ⟨t, henough t ht, ht⟩
  exact List.length_pos_of_mem (List.mem_filter.mpr ⟨hmem, by simpa using ht⟩)

/-- A body that accounts for its units loses no wake-up.  If it takes a unit of `c`, its own
thread may have been pending on `c` and is no more, so both sides fall by one; if it adds one,
the signal makes a waiter pending, and if nobody waits there is nothing to show. -/
theorem served_operate (ho : M.Orderly s) (hs : Served avail s) {t : Thread} {op : ω}
    {woken : List Thread} (hpc : s.pc t = .passing op) (hw : s.Wakes (M.signals op s.data) woken)
    (ha : M.Accounts avail t op s.data) : Served avail (M.operate s t op woken) := by
  intro c hc
  change avail c (M.body t op s.data) ≤
    ((s.pending c).filter (· ≠ t) ++ (s.waiters c).filter (· ∈ woken)).length
  rw [List.length_append]
  -- whoever waits afterwards waited before
  have hbefore : s.waiters c ≠ [] ∨ ∃ u op', u ≠ t ∧ s.pc u = .toWait op' c := by
    rcases hc with hc | ⟨u, op', hu⟩
    · refine .inl fun hnil => hc ?_
      change (s.waiters c).filter (· ∉ woken) = []
      rw [hnil, List.filter_nil]
    · exact .inr ⟨u, op', operate_pc_inv hu (by simp)⟩
  have hold : avail c s.data ≤ (s.pending c).length :=
    hs c (hbefore.imp_right fun ⟨u, op', _, hu⟩ => ⟨u, op', hu⟩)
  by_cases hmay : M.MayWait op c
  · -- `t` takes a unit, and is pending no more
    have huse := ha.uses c hmay
    have hrest := length_le_filter_ne (ho.pendingNodup c) t
    omega
  · -- `t` was not pending on `c`
    have hkept : (s.pending c).filter (· ≠ t) = s.pending c := by
      refine List.filter_eq_self.mpr fun u hu => ?_
      rw [decide_eq_true_eq]
      rintro rfl
      obtain ⟨op', hop', hw'⟩ := ho.pending c u hu
      rw [hpc] at hop'
      cases hop'
      exact hmay hw'
    rw [hkept]
    by_cases hmore : avail c s.data < avail c (M.body t op s.data)
    · obtain ⟨hmutex, hone, g, hg, rfl⟩ := ha.adds c hmore
      rcases hbefore with hne | ⟨u, op', hut, hu⟩
      · have := rouse_nonempty hw hg hne
        omega
      · -- nobody else is inside the mutex of `c`
        obtain ⟨d, hd⟩ := ho.waits u op' _ (.inl hu)
        have hsame : M.mutex op' = M.mutex op := (M.blocked_mutex hd).symm.trans hmutex
        exact absurd (ho.exclusive (by rw [hu]; rfl) (by rw [hpc]; rfl) hsame) hut
    · omega

/-- Neither does any other step.  A thread leaves the pending ones only when it is found blocked,
and then there is no unit at all (`hz`). -/
theorem served_other [DecidableEq μ] [DecidableEq κ]
    (hz : ∀ op d c, M.blocked op d = some c → avail c d = 0)
    (hs : Served avail s) (hst : M.step s l = some s')
    (hl : ∀ t woken, l ≠ .operate t woken) : Served avail s' := by
  have hkeep : ∀ {t : Thread} {p : Pc κ ω}, (∀ op c, p ≠ .toWait op c) → ∀ c,
      (∃ u op, Function.update s.pc t p u = .toWait op c) → ∃ u op, s.pc u = .toWait op c := by
    rintro t p hp c ⟨u, op, hu⟩
    rcases eq_or_ne u t with rfl | hne
    · rw [Function.update_self] at hu
      exact absurd hu (hp op c)
    · rw [Function.update_of_ne hne] at hu
      exact ⟨u, op, hu⟩
  cases step_inv hst with
  | operate t op woken hpc hw => exact absurd rfl (hl t woken)
  | block t op c hpc hb =>
    -- who is blocked has found no unit
    intro c' hc'
    simp only [State.settle, State.move] at hc' ⊢
    rcases eq_or_ne c' c with rfl | hne
    · rw [hz op _ c' hb]
      exact Nat.zero_le _
    · rw [Function.update_of_ne hne]
      refine hs c' (hc'.imp_right ?_)
      rintro ⟨u, op', hu⟩
      rcases eq_or_ne u t with rfl | hut
      · rw [Function.update_self] at hu
        cases hu
        exact absurd rfl hne
      · rw [Function.update_of_ne hut] at hu
        exact ⟨u, op', hu⟩
  | wait t op c hpc =>
    intro c' hc'
    refine hs c' ?_
    rcases eq_or_ne c' c with rfl | hne
    · exact .inr ⟨t, op, hpc⟩
    · refine hc'.imp (fun h => ?_) (hkeep (by simp) c')
      simpa only [Function.update_of_ne hne] using h
  | wake t op c hpc =>
    intro c' hc'
    refine hs c' (hc'.imp (fun h => ?_) (hkeep (by simp) c'))
    rcases eq_or_ne c' c with rfl | hne
    · simp only [Function.update_self] at h
      intro hnil
      rw [hnil] at h
      exact h rfl
    · simpa only [Function.update_of_ne hne] using h
  | lock t op hpc hfree => exact fun c hc => hs c (hc.imp_right (hkeep (by simp) c))
  | pass t op hpc hb => exact fun c hc => hs c (hc.imp_right (hkeep (by simp) c))
  | relock t op hpc hfree => exact fun c hc => hs c (hc.imp_right (hkeep (by simp) c))
  | unlock t op hpc => exact fun c hc => hs c (hc.imp_right (hkeep (by simp) c))
  | unsetHolder t op hpc => exact fun c hc => hs c (hc.imp_right (hkeep (by simp) c))

/-- **Steps serve as the bodies do.**  For a component it is enough to look at its bodies, one
after the other. -/
theorem step_served [DecidableEq μ] [DecidableEq κ]
    (hz : ∀ op d c, M.blocked op d = some c → avail c d = 0)
    (hs : Served avail s) (hst : M.step s l = some s')
    (hop : ∀ t op woken, l = .operate t woken → s.pc t = .passing op →
      s.Wakes (M.signals op s.data) woken → Served avail (M.operate s t op woken)) :
    Served avail s' := by
  cases l with
  | operate t woken =>
    cases step_inv hst with
    | operate t op woken hpc hw => exact hop t op woken rfl hpc hw
  | _ => exact served_other hz hs hst (by simp)

/-- **A waiter with a unit to take has somebody on the way**: a thread that was notified on the
same condition variable and has not been found blocked since.  It need not be the waiter itself,
and the mutex decides who comes first. -/
theorem Served.exists_pending (ho : M.Orderly s) (hs : Served avail s) {t : Thread} {op : ω}
    {c : κ} (ht : s.pc t = .waiting op c) (ha : 0 < avail c s.data) :
    ∃ u ∈ s.pending c, ∃ op', (s.pc u).entering = some op' ∧ M.MayWait op' c := by
  have hmem : t ∈ s.waiters c := (ho.waiters t c).mpr (by rw [ht]; rfl)
  have hlen := hs c (.inl (List.ne_nil_of_mem hmem))
  obtain ⟨u, hu⟩ := List.exists_mem_of_length_pos (Nat.lt_of_lt_of_le ha hlen)
  exact ⟨u, hu, ho.pending c u hu⟩

/-! ## 5. What stays open lets everybody through -/

variable {isOpen : κ → δ → Prop}

/-- **Once `c` is open, nobody waits on it, and nobody is about to.** -/
def Cleared (isOpen : κ → δ → Prop) (s : State μ κ δ ω) : Prop :=
  ∀ c, isOpen c s.data → s.waiters c = [] ∧ ∀ t op, s.pc t ≠ .toWait op c

theorem cleared_init (d : δ) : Cleared isOpen (.init d : State μ κ δ ω) :=
  fun _ _ => ⟨rfl, fun _ _ h => by cases h⟩

variable (M) in
/-- A body that opens `c` holds its mutex and wakes all who wait on it.  Holding the mutex
matters: a thread between its test and its `wait` holds it too, so there is none. -/
def Announces (isOpen : κ → δ → Prop) (t : Thread) (op : ω) (d : δ) : Prop :=
  ∀ c, isOpen c (M.body t op d) → isOpen c d ∨ M.condMutex c = M.mutex op ∧ .notifyAll c ∈ M.signals op d

theorem cleared_operate (ho : M.Orderly s) (hc : Cleared isOpen s) {t : Thread} {op : ω} {woken : List Thread}
    (hpc : s.pc t = .passing op) (hw : s.Wakes (M.signals op s.data) woken)
    (ha : M.Announces isOpen t op s.data) : Cleared isOpen (M.operate s t op woken) := by
  intro c hopen
  rcases ha c hopen with hbefore | ⟨hmutex, hsignal⟩
  · obtain ⟨hnone, hnobody⟩ := hc c hbefore
    refine ⟨?_, fun u op' hu => hnobody u op' (operate_pc_inv hu (by simp)).2⟩
    change (s.waiters c).filter (· ∉ woken) = []
    rw [hnone, List.filter_nil]
  · refine ⟨List.filter_eq_nil_iff.mpr fun u hu => ?_, fun u op' hu => ?_⟩
    · have hwoken : u ∈ woken := hw.2 _ hsignal u hu
      simpa using hwoken
    · -- whoever is about to wait is inside the mutex, and `t` is
      obtain ⟨hne, hu⟩ := operate_pc_inv hu (by simp)
      obtain ⟨d, hd⟩ := ho.waits u op' c (.inl hu)
      have hsame : M.mutex op' = M.mutex op := (M.blocked_mutex hd).symm.trans hmutex
      exact hne (ho.exclusive (by rw [hu]; rfl) (by rw [hpc]; rfl) hsame)

/-- **Steps clear as the bodies do.**  Opening is announced by a body and never taken back by
one, and no thread comes to wait on what is open, because its test does not fail. -/
theorem step_cleared [DecidableEq μ] [DecidableEq κ]
    (hz : ∀ op d c, M.blocked op d = some c → ¬ isOpen c d) (ho : M.Orderly s)
    (hc : Cleared isOpen s) (hst : M.step s l = some s')
    (hop : ∀ t op woken, l = .operate t woken → s.pc t = .passing op → M.Announces isOpen t op s.data) :
    Cleared isOpen s' := by
  have hkeep : ∀ {t : Thread} {p : Pc κ ω}, (∀ op c, p ≠ .toWait op c) → ∀ c,
      (∀ u op, s.pc u ≠ .toWait op c) → ∀ u op, Function.update s.pc t p u ≠ .toWait op c := by
    intro t p hp c hno u op
    rcases eq_or_ne u t with rfl | hne
    · rw [Function.update_self]
      exact hp op c
    · rw [Function.update_of_ne hne]
      exact hno u op
  cases step_inv hst with
  | operate t op woken hpc hw => exact cleared_operate ho hc hpc hw (hop t op woken rfl hpc)
  | block t op c hpc hb =>
    intro c' hopen
    obtain ⟨hnone, hnobody⟩ := hc c' hopen
    refine ⟨hnone, fun u op' => ?_⟩
    change Function.update s.pc t (.toWait op c) u ≠ _
    rcases eq_or_ne u t with rfl | hne
    · rw [Function.update_self]
      rintro ⟨⟩
      exact hz op _ c hb hopen
    · rw [Function.update_of_ne hne]
      exact hnobody u op'
  | wait t op c hpc =>
    intro c' hopen
    obtain ⟨hnone, hnobody⟩ := hc c' hopen
    have hne : c' ≠ c := by
      rintro rfl
      exact hnobody t op hpc
    refine ⟨?_, hkeep (by simp) c' hnobody⟩
    change Function.update s.waiters c _ c' = []
    rw [Function.update_of_ne hne, hnone]
  | wake t op c hpc =>
    intro c' hopen
    obtain ⟨hnone, hnobody⟩ := hc c' hopen
    refine ⟨?_, hkeep (by simp) c' hnobody⟩
    change Function.update s.waiters c _ c' = []
    rcases eq_or_ne c' c with rfl | hne
    · rw [Function.update_self, hnone, List.filter_nil]
    · rw [Function.update_of_ne hne, hnone]
  | lock t op hpc hfree => exact fun c hopen => ⟨(hc c hopen).1, hkeep (by simp) c (hc c hopen).2⟩
  | pass t op hpc hb => exact fun c hopen => ⟨(hc c hopen).1, hkeep (by simp) c (hc c hopen).2⟩
  | relock t op hpc hfree => exact fun c hopen => ⟨(hc c hopen).1, hkeep (by simp) c (hc c hopen).2⟩
  | unlock t op hpc => exact fun c hopen => ⟨(hc c hopen).1, hkeep (by simp) c (hc c hopen).2⟩
  | unsetHolder t op hpc => exact fun c hopen => ⟨(hc c hopen).1, hkeep (by simp) c (hc c hopen).2⟩

/-! ## 6. The section a thread is in -/

/-- The section, asleep in it or not. -/
def Pc.op {κ : Type v} {ω : Type x} : Pc κ ω → Option ω
  | .testing op | .passing op | .toWait op _ | .waiting op _ | .woken op | .leaving op | .unlocking op => some op
  | .outside => none

/-- The thread that makes the step. -/
def Label.thread : Label ω → Thread
  | .lock t _ | .test t | .wait t | .wake t | .relock t | .operate t _ | .unlock t | .unsetHolder t => t

theorem awake_op (p : Pc κ ω) : p.awake.op = p.op := by
  cases p <;> rfl

theorem awake_eq {p q : Pc κ ω} (hq : ∀ op, q ≠ .woken op) (h : p.awake = q) : p = q := by
  cases p with
  | waiting op c => exact absurd h.symm (hq op)
  | _ => exact h

variable [DecidableEq μ] [DecidableEq κ]

/-- The other threads stay where they are, but that some may be woken. -/
theorem step_pc_of_ne (hst : M.step s l = some s') {u : Thread} (hu : u ≠ l.thread) :
    s'.pc u = s.pc u ∨ s'.pc u = (s.pc u).awake := by
  cases step_inv hst with
  | operate t op woken hpc hw =>
    have hne : u ≠ t := hu
    rw [operate_pc_of_ne op woken hne]
    split
    · exact .inr rfl
    · exact .inl rfl
  | lock t op hpc hfree => exact .inl (Function.update_of_ne hu _ _)
  | pass t op hpc hb => exact .inl (Function.update_of_ne hu _ _)
  | block t op c hpc hb => exact .inl (Function.update_of_ne hu _ _)
  | wait t op c hpc => exact .inl (Function.update_of_ne hu _ _)
  | wake t op c hpc => exact .inl (Function.update_of_ne hu _ _)
  | relock t op hpc hfree => exact .inl (Function.update_of_ne hu _ _)
  | unlock t op hpc => exact .inl (Function.update_of_ne hu _ _)
  | unsetHolder t op hpc => exact .inl (Function.update_of_ne hu _ _)

/-- A thread enters a section by `lock` and is out of it after `unsetHolder` only, so between the
two the section is the same. -/
theorem step_op (hst : M.step s l = some s') (u : Thread) :
    (s'.pc u).op = (s.pc u).op ∨ (∃ op, l = .lock u op ∧ (s'.pc u).op = some op) ∨
      l = .unsetHolder u ∧ s'.pc u = .outside := by
  by_cases hu : u = l.thread
  · cases step_inv hst with
    | lock t op hpc hfree =>
      obtain rfl : u = t := hu
      refine .inr (.inl ⟨op, rfl, ?_⟩)
      change (Function.update s.pc u _ u).op = _
      rw [Function.update_self]
      rfl
    | unsetHolder t op hpc =>
      obtain rfl : u = t := hu
      exact .inr (.inr ⟨rfl, Function.update_self ..⟩)
    | operate t op woken hpc hw =>
      obtain rfl : u = t := hu
      refine .inl ?_
      rw [operate_pc_self, hpc]
      rfl
    | pass t op hpc hb | block t op c hpc hb | wait t op c hpc | wake t op c hpc | relock t op hpc hfree
    | unlock t op hpc =>
      obtain rfl : u = t := hu
      refine .inl ?_
      change (Function.update s.pc u _ u).op = _
      rw [Function.update_self, hpc]
      rfl
  · rcases step_pc_of_ne hst hu with h | h
    · exact .inl (congrArg Pc.op h)
    · exact .inl ((congrArg Pc.op h).trans (awake_op _))

/-- The mutex is given back; the section is not over yet, the mark of the holder is still to be
cleared. -/
theorem step_unlock {t : Thread} (hst : M.step s (.unlock t) = some s') :
    ∃ op, s.pc t = .leaving op ∧ s'.pc t = .unlocking op ∧ s'.data = s.data := by
  cases step_inv hst with
  | unlock t op hpc =>
    refine ⟨op, hpc, ?_, rfl⟩
    change Function.update s.pc t (.unlocking op) t = .unlocking op
    exact Function.update_self ..

/-- The end of a section: only now does the thread leave the mutex object alone. -/
theorem step_unsetHolder {t : Thread} (hst : M.step s (.unsetHolder t) = some s') :
    ∃ op, s.pc t = .unlocking op ∧ s'.pc t = .outside ∧ s'.data = s.data := by
  cases step_inv hst with
  | unsetHolder t op hpc =>
    refine ⟨op, hpc, ?_, rfl⟩
    change Function.update s.pc t .outside t = .outside
    exact Function.update_self ..

/-- The body of a section runs when the test has let its thread through, and takes it to the end. -/
theorem step_operate {t : Thread} {woken : List Thread} (hst : M.step s (.operate t woken) = some s') :
    ∃ op, s.pc t = .passing op ∧ s'.pc t = .leaving op ∧ s'.data = M.body t op s.data := by
  cases step_inv hst with
  | operate t op woken hpc hw => exact ⟨op, hpc, operate_pc_self .., rfl⟩

/-- After the body nothing else is to be done than to give the mutex back. -/
theorem step_of_leaving (hst : M.step s l = some s') {op : ω} (h : s.pc l.thread = .leaving op) :
    l = .unlock l.thread := by
  cases step_inv hst with
  | unlock t op' hpc => rfl
  | lock t op' hpc _ | pass t op' hpc _ | block t op' c hpc _ | wait t op' c hpc | wake t op' c hpc
  | relock t op' hpc _ | operate t op' woken hpc _ | unsetHolder t op' hpc =>
    have hleaving : s.pc t = .leaving op := h
    rw [hpc] at hleaving
    cases hleaving

/-- And then nothing than to clear the holder.  Others may have taken the mutex by then. -/
theorem step_of_unlocking (hst : M.step s l = some s') {op : ω} (h : s.pc l.thread = .unlocking op) :
    l = .unsetHolder l.thread := by
  cases step_inv hst with
  | unsetHolder t op' hpc => rfl
  | lock t op' hpc _ | pass t op' hpc _ | block t op' c hpc _ | wait t op' c hpc | wake t op' c hpc
  | relock t op' hpc _ | operate t op' woken hpc _ | unlock t op' hpc =>
    have hunlocking : s.pc t = .unlocking op := h
    rw [hpc] at hunlocking
    cases hunlocking

/-- A section comes to its end by its body: who is about to leave has just run it, or stands
where it stood. -/
theorem step_leaving (hst : M.step s l = some s') {t : Thread} {op : ω} (h : s'.pc t = .leaving op) :
    s.pc t = .leaving op ∨ ∃ woken, l = .operate t woken ∧ s.pc t = .passing op := by
  by_cases ht : t = l.thread
  · cases step_inv hst with
    | operate u op' woken hpc hw =>
      obtain rfl : t = u := ht
      rw [operate_pc_self] at h
      cases h
      exact .inr ⟨woken, rfl, hpc⟩
    | lock u op' hpc _ | pass u op' hpc _ | block u op' c hpc _ | wait u op' c hpc | wake u op' c hpc
    | relock u op' hpc _ | unlock u op' hpc | unsetHolder u op' hpc =>
      obtain rfl : t = u := ht
      change Function.update s.pc t _ t = _ at h
      rw [Function.update_self] at h
      cases h
  · rcases step_pc_of_ne hst ht with hpc | hpc
    · exact .inl (hpc.symm.trans h)
    · exact .inl (awake_eq (by simp) (hpc.symm.trans h))

/-- The mutex is given back after the body only, and by the thread that ran it. -/
theorem step_unlocking (hst : M.step s l = some s') {t : Thread} {op : ω} (h : s'.pc t = .unlocking op) :
    s.pc t = .unlocking op ∨ l = .unlock t ∧ s.pc t = .leaving op := by
  by_cases ht : t = l.thread
  · cases step_inv hst with
    | unlock u op' hpc =>
      obtain rfl : t = u := ht
      change Function.update s.pc t _ t = _ at h
      rw [Function.update_self] at h
      cases h
      exact .inr ⟨rfl, hpc⟩
    | operate u op' woken hpc hw =>
      obtain rfl : t = u := ht
      rw [operate_pc_self] at h
      cases h
    | lock u op' hpc _ | pass u op' hpc _ | block u op' c hpc _ | wait u op' c hpc | wake u op' c hpc
    | relock u op' hpc _ | unsetHolder u op' hpc =>
      obtain rfl : t = u := ht
      change Function.update s.pc t _ t = _ at h
      rw [Function.update_self] at h
      cases h
  · rcases step_pc_of_ne hst ht with hpc | hpc
    · exact .inl (hpc.symm.trans h)
    · exact .inl (awake_eq (by simp) (hpc.symm.trans h))

end Monitor

end Lib
