import Xv6Riscv.ProcMachine

/-!
# sleep and wakeup of kernel/proc.c

Processes run code under spinlocks and call sleep and wakeup there. A step
ends where a lock is acquired or released: lk, the p->lock of the sleeper and
the p->lock of each slot that wakeup looks at. sched hands the sleeper's lock
to a scheduler, which releases it, and a scheduler that enters a process hands
the lock back. Timer interrupts make processes yield wherever they hold no
spinlock, and kill may reach a process at any point.

The code under the lock is a parameter: what it does next depends on the data
that the lock protects, on where the process is and on its killed flag. The
times that sleep and wakeup record belong to another module.
-/

namespace Xv6Riscv.SleepWakeup

open Function
open Transition ProcMachine

/-- What a client does next while it holds its lock. -/
inductive Cmd (χ ρ σ : Type) where
  | step (data : σ) (l : ρ)
  | sleep (chan : χ) (l : ρ)
  | wakeup (chan : χ) (l : ρ)
  | release

/-- Code that runs under locks. κ names the locks, χ the channels, ρ the places
in the code with their local variables and σ the data under a lock. -/
structure Client (κ χ ρ σ : Type) where
  entry : κ→ρ→Bool
  code : κ→(p : ℕ)→(killed : Bool)→ρ→σ→Cmd χ ρ σ

inductive Rest (κ ρ : Type) where
  | user
  | enter (k : κ) (l : ρ)

inductive Pc (κ χ ρ : Type) where
  | rest (r : Rest κ ρ)
  | inside (k : κ) (l : ρ)
  | drowsy (k : κ) (c : χ) (l : ρ)
  | falling (k : κ) (c : χ) (l : ρ)
  | asleep (k : κ) (c : χ) (l : ρ)
  | woken (k : κ) (l : ρ)
  | waking (k : κ) (c : χ) (j : ℕ) (l : ρ)
  | scanning (k : κ) (c : χ) (j : ℕ) (l : ρ)
  | yielding (r : Rest κ ρ)
  | yielded (r : Rest κ ρ)
  | resumed (r : Rest κ ρ)
  | killing (q : ℕ)

inductive Holder where
  | proc (p : ℕ)
  | scheduler
  deriving DecidableEq

/-- The processes with their channels and locks, and the shared data. -/
structure Threads (κ χ ρ σ : Type) where
  data : κ→σ
  lk : κ→Option ℕ
  plock : ℕ→Option Holder
  state : ℕ→ProcState
  chan : ℕ→Option χ
  killed : ℕ→Bool
  pc : ℕ→Pc κ χ ρ

inductive Act (κ ρ : Type) where
  | call (k : κ) (l : ρ)
  | go
  | yield
  | kill (q : ℕ)
  | grab
  | dispatch
  | settle

variable {κ χ ρ σ : Type}

@[simp] def Threads.setPc (s : Threads κ χ ρ σ) (p : ℕ) (pc : Pc κ χ ρ) : Threads κ χ ρ σ :=
  {s with pc := update s.pc p pc}

@[simp] def Threads.setPlock (s : Threads κ χ ρ σ) (p : ℕ) (o : Option Holder) : Threads κ χ ρ σ :=
  {s with plock := update s.plock p o}

@[simp] def Threads.setState (s : Threads κ χ ρ σ) (p : ℕ) (state : ProcState) : Threads κ χ ρ σ :=
  {s with state := update s.state p state}

@[simp] def Threads.setChan (s : Threads κ χ ρ σ) (p : ℕ) (c : Option χ) : Threads κ χ ρ σ :=
  {s with chan := update s.chan p c}

section Step

variable [DecidableEq κ] [DecidableEq χ]

@[simp] def Threads.setLk (s : Threads κ χ ρ σ) (k : κ) (o : Option ℕ) : Threads κ χ ρ σ :=
  {s with lk := update s.lk k o}

/-- The state of slot j after wakeup(c) has looked at it. -/
def wakeState (s : Threads κ χ ρ σ) (c : χ) (j : ℕ) : ProcState :=
  if s.state j=.sleeping ∧ s.chan j=some c then .runnable else s.state j

def killState (s : Threads κ χ ρ σ) (q : ℕ) : ProcState :=
  if s.state q=.sleeping then .runnable else s.state q

/-- The code under the lock, up to the next lock operation. -/
def codeStep (m : Client κ χ ρ σ) (s : Threads κ χ ρ σ) (p : ℕ) (k : κ) (l : ρ) :
    Outcome (Threads κ χ ρ σ) :=
  match m.code k p (s.killed p) l (s.data k) with
  | .step d l => .next {s.setPc p (.inside k l) with data := update s.data k d}
  | .sleep c l =>
    if s.plock p=none then .next ((s.setPlock p (some (.proc p))).setPc p (.drowsy k c l))
    else .blocked
  | .wakeup c l => .next (s.setPc p (.waking k c 0 l))
  | .release => .next ((s.setLk k none).setPc p (.rest .user))

/-- The next section of a process. -/
def goStep (m : Client κ χ ρ σ) (s : Threads κ χ ρ σ) (p : ℕ) : Outcome (Threads κ χ ρ σ) :=
  match s.pc p with
  | .rest .user => .blocked
  | .rest (.enter k l) =>
    if s.lk k=none then .next ((s.setLk k (some p)).setPc p (.inside k l)) else .blocked
  | .inside k l => codeStep m s p k l
  | .drowsy k c l => .next ((s.setLk k none).setPc p (.falling k c l))
  | .falling k c l =>
    .next ((((s.setChan p (some c)).setState p .sleeping).setPlock p (some .scheduler)).setPc p
      (.asleep k c l))
  | .asleep _ _ _ => .blocked
  | .woken k l => .next (((s.setChan p none).setPlock p none).setPc p (.rest (.enter k l)))
  | .waking k c j l =>
    if j<nproc then
      if j=p then .next (s.setPc p (.waking k c (j+1) l))
      else if s.plock j=none then
        .next ((s.setPlock j (some (.proc p))).setPc p (.scanning k c j l))
      else .blocked
    else .next (s.setPc p (.inside k l))
  | .scanning k c j l =>
    .next (((s.setState j (wakeState s c j)).setPlock j none).setPc p (.waking k c (j+1) l))
  | .yielding r =>
    .next (((s.setState p .runnable).setPlock p (some .scheduler)).setPc p (.yielded r))
  | .yielded _ => .blocked
  | .resumed r => .next ((s.setPlock p none).setPc p (.rest r))
  | .killing q =>
    .next {((s.setState q (killState s q)).setPlock q none).setPc p (.rest .user) with
      killed := update s.killed q true}

def dispatchStep (s : Threads κ χ ρ σ) (p : ℕ) : Outcome (Threads κ χ ρ σ) :=
  if s.plock p=some .scheduler ∧ s.state p=.runnable then
    match s.pc p with
    | .asleep k _ l =>
      .next (((s.setState p .running).setPlock p (some (.proc p))).setPc p (.woken k l))
    | .yielded r =>
      .next (((s.setState p .running).setPlock p (some (.proc p))).setPc p (.resumed r))
    | _ => .blocked
  else .blocked

/-- One step of process p, or of a scheduler that looks at it. -/
def threadStep (m : Client κ χ ρ σ) (s : Threads κ χ ρ σ) (a : ℕ×Act κ ρ) :
    Outcome (Threads κ χ ρ σ) :=
  let p := a.1
  if p<nproc then
    match a.2 with
    | .call k l =>
      match s.pc p with
      | .rest .user =>
        if s.state p=.running ∧ m.entry k l then .next (s.setPc p (.rest (.enter k l)))
        else .blocked
      | _ => .blocked
    | .go => if s.state p=.running then goStep m s p else .blocked
    | .yield =>
      match s.pc p with
      | .rest r =>
        if s.state p=.running ∧ s.plock p=none then
          .next ((s.setPlock p (some (.proc p))).setPc p (.yielding r))
        else .blocked
      | _ => .blocked
    | .kill q =>
      match s.pc p with
      | .rest .user =>
        if s.state p=.running ∧ q<nproc ∧ s.plock q=none then
          .next ((s.setPlock q (some (.proc p))).setPc p (.killing q))
        else .blocked
      | _ => .blocked
    | .grab => if s.plock p=none then .next (s.setPlock p (some .scheduler)) else .blocked
    | .dispatch => dispatchStep s p
    | .settle => if s.plock p=some .scheduler then .next (s.setPlock p none) else .blocked
  else .blocked

end Step

def startThreads (data : κ→σ) : Threads κ χ ρ σ where
  data := data
  lk := fun _ => none
  plock := fun _ => none
  state := fun _ => .runnable
  chan := fun _ => none
  killed := fun _ => false
  pc := fun _ => .yielded .user

section Cases

variable [DecidableEq κ] [DecidableEq χ] {m : Client κ χ ρ σ} {s t : Threads κ χ ρ σ} {p : ℕ}
  {a : Act κ ρ}

inductive Took (m : Client κ χ ρ σ) (s : Threads κ χ ρ σ) (p : ℕ) (a : Act κ ρ) :
    Threads κ χ ρ σ→Prop where
  | call {k : κ} {l : ρ} (ha : a=.call k l) (hpc : s.pc p=.rest .user)
      (hrun : s.state p=.running) (he : m.entry k l=true) : Took m s p a (s.setPc p (.rest (.enter k l)))
  | acquire {k : κ} {l : ρ} (hpc : s.pc p=.rest (.enter k l)) (hrun : s.state p=.running)
      (hk : s.lk k=none) : Took m s p a ((s.setLk k (some p)).setPc p (.inside k l))
  | compute {k : κ} {l l' : ρ} {d : σ} (hpc : s.pc p=.inside k l) (hrun : s.state p=.running)
      (hc : m.code k p (s.killed p) l (s.data k)=.step d l') :
      Took m s p a {s.setPc p (.inside k l') with data := update s.data k d}
  | sleep {k : κ} {c : χ} {l l' : ρ} (hpc : s.pc p=.inside k l) (hrun : s.state p=.running)
      (hc : m.code k p (s.killed p) l (s.data k)=.sleep c l') (hpl : s.plock p=none) :
      Took m s p a ((s.setPlock p (some (.proc p))).setPc p (.drowsy k c l'))
  | wakeup {k : κ} {c : χ} {l l' : ρ} (hpc : s.pc p=.inside k l) (hrun : s.state p=.running)
      (hc : m.code k p (s.killed p) l (s.data k)=.wakeup c l') :
      Took m s p a (s.setPc p (.waking k c 0 l'))
  | release {k : κ} {l : ρ} (hpc : s.pc p=.inside k l) (hrun : s.state p=.running)
      (hc : m.code k p (s.killed p) l (s.data k)=.release) :
      Took m s p a ((s.setLk k none).setPc p (.rest .user))
  | fall {k : κ} {c : χ} {l : ρ} (hpc : s.pc p=.drowsy k c l) (hrun : s.state p=.running) :
      Took m s p a ((s.setLk k none).setPc p (.falling k c l))
  | sched {k : κ} {c : χ} {l : ρ} (hpc : s.pc p=.falling k c l) (hrun : s.state p=.running) :
      Took m s p a ((((s.setChan p (some c)).setState p .sleeping).setPlock p
        (some .scheduler)).setPc p (.asleep k c l))
  | tidy {k : κ} {l : ρ} (hpc : s.pc p=.woken k l) (hrun : s.state p=.running) :
      Took m s p a (((s.setChan p none).setPlock p none).setPc p (.rest (.enter k l)))
  | skip {k : κ} {c : χ} {l : ρ} (hpc : s.pc p=.waking k c p l) (hrun : s.state p=.running) :
      Took m s p a (s.setPc p (.waking k c (p+1) l))
  | scan {k : κ} {c : χ} {j : ℕ} {l : ρ} (hpc : s.pc p=.waking k c j l)
      (hrun : s.state p=.running) (hj : j≠p) (hpl : s.plock j=none) :
      Took m s p a ((s.setPlock j (some (.proc p))).setPc p (.scanning k c j l))
  | woke {k : κ} {c : χ} {j : ℕ} {l : ρ} (hpc : s.pc p=.waking k c j l)
      (hrun : s.state p=.running) (hj : nproc≤j) : Took m s p a (s.setPc p (.inside k l))
  | look {k : κ} {c : χ} {j : ℕ} {l : ρ} (hpc : s.pc p=.scanning k c j l)
      (hrun : s.state p=.running) :
      Took m s p a (((s.setState j (wakeState s c j)).setPlock j none).setPc p
        (.waking k c (j+1) l))
  | yield {r : Rest κ ρ} (hpc : s.pc p=.rest r) (hrun : s.state p=.running)
      (hpl : s.plock p=none) : Took m s p a ((s.setPlock p (some (.proc p))).setPc p (.yielding r))
  | yielded {r : Rest κ ρ} (hpc : s.pc p=.yielding r) (hrun : s.state p=.running) :
      Took m s p a (((s.setState p .runnable).setPlock p (some .scheduler)).setPc p (.yielded r))
  | resumed {r : Rest κ ρ} (hpc : s.pc p=.resumed r) (hrun : s.state p=.running) :
      Took m s p a ((s.setPlock p none).setPc p (.rest r))
  | kill {q : ℕ} (hpc : s.pc p=.rest .user) (hrun : s.state p=.running) (hpl : s.plock q=none) :
      Took m s p a ((s.setPlock q (some (.proc p))).setPc p (.killing q))
  | killed {q : ℕ} (ha : a=.go) (hpc : s.pc p=.killing q) (hrun : s.state p=.running) :
      Took m s p a {((s.setState q (killState s q)).setPlock q none).setPc p (.rest .user) with
        killed := update s.killed q true}
  | grab (hpl : s.plock p=none) : Took m s p a (s.setPlock p (some .scheduler))
  | settle (hpl : s.plock p=some .scheduler) : Took m s p a (s.setPlock p none)
  | wake {k : κ} {c : χ} {l : ρ} (hpc : s.pc p=.asleep k c l) (hst : s.state p=.runnable)
      (hpl : s.plock p=some .scheduler) :
      Took m s p a (((s.setState p .running).setPlock p (some (.proc p))).setPc p (.woken k l))
  | resume {r : Rest κ ρ} (hpc : s.pc p=.yielded r) (hst : s.state p=.runnable)
      (hpl : s.plock p=some .scheduler) :
      Took m s p a (((s.setState p .running).setPlock p (some (.proc p))).setPc p (.resumed r))

lemma goStep_took (hrun : s.state p=.running) (h : goStep m s p=.next t) :
    Took m s p .go t := by
  rw [goStep] at h
  split at h
  next => cases h
  next k l hpc =>
    split at h
    next hk =>
      cases h
      exact .acquire hpc hrun hk
    next => cases h
  next k l hpc =>
    rw [codeStep] at h
    split at h
    next d l' hc =>
      cases h
      exact .compute hpc hrun hc
    next c l' hc =>
      split at h
      next hpl =>
        cases h
        exact .sleep hpc hrun hc hpl
      next => cases h
    next c l' hc =>
      cases h
      exact .wakeup hpc hrun hc
    next hc =>
      cases h
      exact .release hpc hrun hc
  next k c l hpc =>
    cases h
    exact .fall hpc hrun
  next k c l hpc =>
    cases h
    exact .sched hpc hrun
  next => cases h
  next k l hpc =>
    cases h
    exact .tidy hpc hrun
  next k c j l hpc =>
    split at h
    next =>
      split at h
      next hj =>
        subst hj
        cases h
        exact .skip hpc hrun
      next hj =>
        split at h
        next hpl =>
          cases h
          exact .scan hpc hrun hj hpl
        next => cases h
    next hj =>
      cases h
      exact .woke hpc hrun (Nat.le_of_not_lt hj)
  next k c j l hpc =>
    cases h
    exact .look hpc hrun
  next r hpc =>
    cases h
    exact .yielded hpc hrun
  next => cases h
  next r hpc =>
    cases h
    exact .resumed hpc hrun
  next q hpc =>
    cases h
    exact .killed rfl hpc hrun

lemma threadStep_took {a : ℕ×Act κ ρ} (h : threadStep m s a=.next t) :
    a.1<nproc ∧ Took m s a.1 a.2 t := by
  obtain ⟨p,a⟩ := a
  rw [threadStep] at h
  dsimp only at h
  split at h
  next hp =>
    refine ⟨hp,?_⟩
    cases a with
    | call k l =>
      dsimp only at h
      split at h
      next hpc =>
        split at h
        next hc =>
          cases h
          exact .call rfl hpc hc.1 hc.2
        next => cases h
      next => cases h
    | go =>
      dsimp only at h
      split at h
      next hrun => exact goStep_took hrun h
      next => cases h
    | yield =>
      dsimp only at h
      split at h
      next r hpc =>
        split at h
        next hc =>
          cases h
          exact .yield hpc hc.1 hc.2
        next => cases h
      next => cases h
    | kill q =>
      dsimp only at h
      split at h
      next hpc =>
        split at h
        next hc =>
          cases h
          exact .kill hpc hc.1 hc.2.2
        next => cases h
      next => cases h
    | grab =>
      dsimp only at h
      split at h
      next hpl =>
        cases h
        exact .grab hpl
      next => cases h
    | dispatch =>
      simp only [dispatchStep] at h
      split at h
      next hc =>
        split at h
        next hpc =>
          cases h
          exact .wake hpc hc.2 hc.1
        next hpc =>
          cases h
          exact .resume hpc hc.2 hc.1
        next => cases h
      next => cases h
    | settle =>
      dsimp only at h
      split at h
      next hpl =>
        cases h
        exact .settle hpl
      next => cases h
  next => cases h

lemma pc_other {r : ℕ} (ht : Took m s p a t) (hr : r≠p) : t.pc r=s.pc r := by
  cases ht <;> first | rfl | exact update_of_ne hr _ _

end Cases

end Xv6Riscv.SleepWakeup
