import Xv6Riscv.SchedMachine

/-!
# A process runs on one CPU

Which locks a CPU holds is read off from what it executes, and the lock words
agree with that. p->lock is held from the test of RUNNABLE to the first release
in the process, and from the change of state in sched's caller to the release in
the scheduler. While a process is parked its thread stands at a place where it
holds p->lock, so the lock can be passed across swtch in both directions.

What one step of a CPU may do is said once, in Effect; the invariants of all
CPUs follow from it.
-/

namespace Xv6Riscv.OneCpu

open Function
open Transition ProcMachine SchedMachine

/-- The p->lock that the thread of process p holds at a place. -/
def holds (p : Slot) : SchedMachine.Pc→Option Slot
  | .forkret | .sleepHold _ _ | .sleepBack _ | .exitHold _ | .exitSched | .exited
  | .waitHold _ => some p
  | .wakeLook _ i _ | .killLook _ i | .forkLook i | .forkHold i | .waitLook _ i => some i
  | _ => none

def waits : SchedMachine.Pc→Bool
  | .wake _ _ _ | .wakeLook _ _ _ | .forkLinked _ | .exitReparent _ _ | .exitFinish _
  | .exitHold _ | .waitScan _ _ _ | .waitLook _ _ | .waitCheck _ _ | .waitSleep _
  | .waitHold _ => true
  | _ => false

/-- The child that a thread in fork has not made RUNNABLE yet. -/
def embryo : SchedMachine.Pc→Option Slot
  | .forkLink np | .forkLinked np | .forkReady np | .forkHold np => some np
  | _ => none

/-- The places at which a thread has called sched and will return from it. -/
def suspended : SchedMachine.Pc→Bool
  | .forkret | .sleepBack _ => true
  | _ => false

/-- The p->lock that a thread holds, or will hold when it is entered. -/
def threadHolds (s : Cpus) (p : Slot) : Option Slot :=
  if s.mode p=.normal then holds p (s.pc p) else some p

def ctxHolds (s : Cpus) : Ctx→Option Slot
  | .look i _ => some i
  | .hold hp => some hp
  | .run p => threadHolds s p
  | .back hp => some hp
  | _ => none

def looked : Wakeup→Option Slot
  | .look _ i => some i
  | _ => none

def held (s : Cpus) (c : ℕ) : Option Slot := (looked (s.wakeup c)).or (ctxHolds s (s.ctx c))

def holdsWait (s : Cpus) (c : ℕ) : Bool :=
  match s.ctx c with
  | .run p => s.mode p=.normal ∧ waits (s.pc p)
  | _ => false

/-- The process that a CPU has entered and not yet left behind. -/
def entered : Ctx→Option Slot
  | .run p => some p
  | .back p => some p
  | _ => none

def resumable (s : Cpus) (p : Slot) : Prop :=
  s.mode p=.yielded ∨ s.mode p=.normal ∧ suspended (s.pc p)

def parked : ProcState→Bool
  | .used | .sleeping | .runnable => true
  | _ => false

lemma held_idle {s : Cpus} {c : ℕ} (h : s.wakeup c=.idle) : held s c=ctxHolds s (s.ctx c) := by
  rw [held,h]
  rfl

lemma held_run {s : Cpus} {c : ℕ} {p : Slot} (hctx : s.ctx c=.run p) (h : s.wakeup c=.idle) :
    held s c=threadHolds s p := by
  rw [held_idle h,hctx]
  rfl

lemma resumable_holds {s : Cpus} {p : Slot} (h : resumable s p) : threadHolds s p=some p := by
  rcases h with h | ⟨h,hpc⟩
  · simp [threadHolds,h]
  · rw [threadHolds,if_pos h]
    revert hpc
    cases s.pc p <;> simp [suspended,holds]

lemma preemptible_holds {p : Slot} {pc : SchedMachine.Pc} (h : pc.preemptible) :
    holds p pc=none := by
  revert h
  cases pc <;> simp [Pc.preemptible,holds]

lemma preemptible_waits {pc : SchedMachine.Pc} (h : pc.preemptible) : waits pc=false := by
  revert h
  cases pc <;> simp [Pc.preemptible,waits]

structure Inv (s : Cpus) : Prop where
  locks : ∀ c i,held s c=some i ↔ s.plock i=some c
  waitLocks : ∀ c,holdsWait s c=true ↔ s.waitLock=some c
  onTop : ∀ c,s.wakeup c≠.idle→interruptible s (s.ctx c)
  preempted : ∀ p,s.mode p≠.normal→(s.pc p).preemptible
  current : ∀ c,s.cproc c=entered (s.ctx c)
  unique : ∀ c d p,entered (s.ctx c)=some p→ entered (s.ctx d)=some p→c=d
  executed : ∀ c p,s.ctx c=.run p→(s.proc p).state=.running ∨
    (s.proc p).state=.zombie ∧ s.mode p=.normal ∧ s.pc p=.exitSched
  switched : ∀ c p,s.ctx c=.back p→(s.proc p).state≠.running
  running : ∀ p,(s.proc p).state=.running→∃ c,s.ctx c=.run p
  resumes : ∀ p,parked (s.proc p).state→ resumable s p
  embryos : ∀ q np,embryo (s.pc q)=some np→(s.proc np).state=.used
  parents : ∀ q r np,embryo (s.pc q)=some np→ embryo (s.pc r)=some np→q=r

/-- How the locks change when a CPU holds one p->lock before and one after. -/
inductive LockMove (c : ℕ) : Option Slot→Option Slot→(Slot→Option ℕ)→(Slot→Option ℕ)→Prop where
  | same (o : Option Slot) (f : Slot→Option ℕ) : LockMove c o o f f
  | take (f : Slot→Option ℕ) (i : Slot) (h : f i=none) :
      LockMove c none (some i) f (update f i (some c))
  | give (f : Slot→Option ℕ) (i : Slot) : LockMove c (some i) none f (update f i none)

inductive WaitMove (c : ℕ) : Bool→Bool→Option ℕ→Option ℕ→Prop where
  | same (b : Bool) (o : Option ℕ) : WaitMove c b b o o
  | take : WaitMove c false true none (some c)
  | give (o : Option ℕ) : WaitMove c true false o none

/-- How a CPU passes between the scheduler and a process. -/
inductive Turn (s : Cpus) (c : ℕ) (t : Cpus) : Prop where
  | stay (hctx : t.ctx c=s.ctx c) (hproc : t.cproc c=s.cproc c)
      (hlive : ∀ p,s.ctx c=.run p→(s.proc p).state=.running ∨
        t.pc p=s.pc p ∧ t.mode p=s.mode p)
  | move (hs : entered (s.ctx c)=none) (ht : entered (t.ctx c)=none)
      (hproc : t.cproc c=s.cproc c)
  | enter (p : Slot) (hs : s.ctx c=.hold p) (ht : t.ctx c=.run p) (hproc : t.cproc c=some p)
      (hheld : held s c=some p) (hold : (s.proc p).state=.runnable)
      (hnew : (t.proc p).state=.running)
  | leave (p : Slot) (hs : s.ctx c=.run p) (ht : t.ctx c=.back p) (hproc : t.cproc c=s.cproc c)
      (hnew : (t.proc p).state≠.running)
  | back (p : Slot) (hs : s.ctx c=.back p) (ht : t.ctx c=.loop) (hproc : t.cproc c=none)

inductive Shift (s : Cpus) (c : ℕ) (t : Cpus) (q : Slot) : Prop where
  | same (h : (t.proc q).state=(s.proc q).state)
  | wake (hs : (s.proc q).state=.sleeping) (ht : (t.proc q).state=.runnable)
  | alloc (hs : (s.proc q).state=.unused) (ht : (t.proc q).state=.used) (hr : resumable t q)
  | ready (hs : (s.proc q).state=.used) (ht : (t.proc q).state=.runnable)
      (hp : ∃ p,embryo (s.pc p)=some q ∧ embryo (t.pc p)=none)
  | free (hs : (s.proc q).state=.zombie) (ht : (t.proc q).state=.unused)
      (hheld : held s c=some q) (hrun : entered (s.ctx c)≠some q)
  | enter (hs : (s.proc q).state=.runnable) (ht : (t.proc q).state=.running)
      (hheld : held s c=some q) (hctx : t.ctx c=.run q)
  | leave (hs : s.ctx c=.run q) (ht : t.ctx c=.back q) (hold : (s.proc q).state=.running)
      (hnew : parked (t.proc q).state) (hr : resumable t q)
  | die (hs : s.ctx c=.run q) (ht : t.ctx c=.run q) (hold : (s.proc q).state=.running)
      (hnew : (t.proc q).state=.zombie) (hmode : t.mode q=.normal) (hpc : t.pc q=.exitSched)

/-- How a step of a CPU may move a thread that it does not execute. -/
inductive Other (s t : Cpus) (q : Slot) : Prop where
  | same (hpc : t.pc q=s.pc q) (hmode : t.mode q=s.mode q)
  | born (hs : (s.proc q).state=.unused) (hpc : t.pc q=.forkret) (hmode : t.mode q=.normal)

/-- How a step of a CPU may move a thread that it executes. -/
inductive Birth (s t : Cpus) (q : Slot) : Prop where
  | same (h : embryo (t.pc q)=embryo (s.pc q))
  | none (h : embryo (t.pc q)=none)
  | new (np : Slot) (h : embryo (t.pc q)=some np) (hs : (s.proc np).state=.unused)
      (ht : (t.proc np).state=.used)

structure Effect (s : Cpus) (c : ℕ) (t : Cpus) : Prop where
  others : ∀ d,d≠c→t.ctx d=s.ctx d ∧ t.wakeup d=s.wakeup d ∧ t.cproc d=s.cproc d
  turn : Turn s c t
  threads : ∀ q,s.ctx c≠.run q→Other s t q
  lock : LockMove c (held s c) (held t c) s.plock t.plock
  wait : WaitMove c (holdsWait s c) (holdsWait t c) s.waitLock t.waitLock
  onTop : t.wakeup c≠.idle→interruptible t (t.ctx c)
  preempted : ∀ p,s.ctx c=.run p→t.mode p≠.normal→(t.pc p).preemptible
  birth : ∀ q,s.ctx c=.run q→Birth s t q
  shift : ∀ q,Shift s c t q

section Kept

variable {s t : Cpus} {c : ℕ}

variable {p : Slot} {d : ℕ}

variable (h : Inv s)

include h

lemma Inv.zombie_held (hrun : s.ctx d=.run p) (hz : (s.proc p).state=.zombie) :
    held s d=some p := by
  rcases h.executed d p hrun with hr | ⟨-,hmode,hpc⟩
  · rw [hr] at hz
    cases hz
  · have hidle : s.wakeup d=.idle := by
      by_contra hne
      have hi := h.onTop d hne
      simp [hrun,interruptible,hpc,Pc.preemptible] at hi
    simp [held_idle hidle,hrun,ctxHolds,threadHolds,hmode,hpc,holds]

lemma Inv.back_held (hback : s.ctx d=.back p) : held s d=some p := by
  have hidle : s.wakeup d=.idle := by
    by_contra hne
    have hi := h.onTop d hne
    simp [hback,interruptible] at hi
  rw [held_idle hidle,hback]
  rfl

lemma Inv.held_unique {d e : ℕ} (hd : held s d=some p) (he : held s e=some p) :
    d=e := by grind [h.locks]

lemma Inv.not_entered {d e : ℕ} (hd : held s d=some p) (hne : e≠d)
    (hst : (s.proc p).state≠.running) : entered (s.ctx e)≠some p := by
  intro hp
  have hcases : s.ctx e=.run p ∨ s.ctx e=.back p := by
    revert hp
    cases s.ctx e <;> simp [entered]
  rcases hcases with hrun | hback
  · rcases h.executed e p hrun with hr | ⟨hz,-⟩
    · exact hst hr
    · exact hne (h.held_unique (h.zombie_held hrun hz) hd)
  · exact hne (h.held_unique (h.back_held hback) hd)

lemma Inv.executed_state (hrun : s.ctx d=.run p) :
    (s.proc p).state=.running ∨ (s.proc p).state=.zombie :=
  (h.executed d p hrun).imp_right And.left

lemma Effect.other_thread (he : Effect s c t) (hd : d≠c) {q : Slot} (hrun : s.ctx d=.run q) :
    t.pc q=s.pc q ∧ t.mode q=s.mode q := by
  have hq : s.ctx c≠.run q := fun hc => hd (h.unique d c q (by rw [hrun]; rfl) (by rw [hc]; rfl))
  rcases he.threads q hq with ⟨hpc,hmode⟩ | ⟨hs,-,-⟩
  · exact ⟨hpc,hmode⟩
  · grind [h.executed_state]

lemma Effect.other_held (he : Effect s c t) (hd : d≠c) :
    held t d=held s d ∧ holdsWait t d=holdsWait s d ∧
      interruptible t (t.ctx d)=interruptible s (s.ctx d) := by
  obtain ⟨hctx,hwake,-⟩ := he.others d hd
  by_cases hrun : ∃ q,s.ctx d=.run q
  · obtain ⟨q,hq⟩ := hrun
    obtain ⟨hpc,hmode⟩ := he.other_thread h hd hq
    simp only [held,holdsWait,hctx,hwake,hq,ctxHolds,threadHolds,interruptible,hpc,hmode,and_self]
  · rw [held,holdsWait,hctx,hwake]
    revert hrun
    cases hc : s.ctx d <;> simp [held,holdsWait,hc,ctxHolds,interruptible]

lemma Effect.locks (he : Effect s c t) (d : ℕ) (i : Slot) :
    held t d=some i ↔ t.plock i=some d := by
  have hlock := he.lock
  by_cases hd : d=c
  · subst hd
    have hbase := h.locks d
    generalize held s d=o,held t d=o',s.plock=f,t.plock=f' at *
    cases hlock with
    | same => exact hbase i
    | take | give => grind
  · rw [(he.other_held h hd).1,h.locks d i]
    have hc := h.locks c
    generalize held s c=o,held t c=o',s.plock=f,t.plock=f' at *
    cases hlock with
    | same => rfl
    | take | give => grind

lemma Effect.waitLocks (he : Effect s c t) (d : ℕ) : holdsWait t d=true ↔ t.waitLock=some d := by
  have hwait := he.wait
  by_cases hd : d=c
  · subst hd
    have hbase := h.waitLocks d
    generalize holdsWait s d=o,holdsWait t d=o',s.waitLock=f,t.waitLock=f' at *
    cases hwait with
    | same => exact hbase
    | take | give => simp
  · rw [(he.other_held h hd).2.1,h.waitLocks d]
    have hc := h.waitLocks c
    generalize holdsWait s c=o,holdsWait t c=o',s.waitLock=f,t.waitLock=f' at *
    cases hwait with
    | same => rfl
    | take | give => grind

lemma Effect.unique (he : Effect s c t) (d e : ℕ) (p : Slot) (hd : entered (t.ctx d)=some p)
    (hp : entered (t.ctx e)=some p) : d=e := by
  -- either the process was entered before, or this CPU enters it, and holds its lock
  have hold : ∀ e,entered (t.ctx e)=some p→ entered (s.ctx e)=some p ∨
      e=c ∧ held s c=some p ∧ (s.proc p).state=.runnable := by
    intro e hp
    by_cases hec : e=c
    · subst hec
      cases he.turn with
      | stay hctx _ _ => exact Or.inl (hctx ▸ hp)
      | move _ ht _ => simp [ht] at hp
      | enter q _ ht _ hheld hold _ =>
        rw [ht,entered,Option.some.injEq] at hp
        grind
      | leave q hs ht _ _ =>
        rw [ht] at hp
        rw [hs]
        exact Or.inl hp
      | back q _ ht _ => simp [ht,entered] at hp
    · rw [(he.others e hec).1] at hp
      exact Or.inl hp
  rcases hold d hd with h1 | ⟨rfl,hheld,hst⟩ <;> rcases hold e hp with h2 | ⟨rfl,hheld',hst'⟩
  · exact h.unique d e p h1 h2
  · by_contra hne
    exact h.not_entered hheld' hne (by simp [hst']) h1
  · by_contra hne
    exact h.not_entered hheld (Ne.symm hne) (by simp [hst]) h2
  · rfl

lemma Effect.executed (he : Effect s c t) (d : ℕ) (p : Slot) (hrun : t.ctx d=.run p) :
    (t.proc p).state=.running ∨
      (t.proc p).state=.zombie ∧ t.mode p=.normal ∧ t.pc p=.exitSched := by
  by_cases hd : d=c
  · subst hd
    have hshift := he.shift p
    cases he.turn with
    | stay hctx _ hlive =>
      have hs := hctx ▸ hrun
      have hex := h.executed d p hs
      have hl := hlive p hs
      cases hshift <;> grind [entered]
    | move _ ht _ => simp [hrun,entered] at ht
    | enter | leave | back => grind
  · have hs := (he.others d hd).1 ▸ hrun
    obtain ⟨hpc,hmode⟩ := he.other_thread h hd hs
    have hex := h.executed d p hs
    have hne : s.ctx c≠.run p := fun hc =>
      hd (h.unique d c p (by rw [hs]; rfl) (by rw [hc]; rfl))
    rw [hpc,hmode]
    cases he.shift p with
    | same hst => rwa [hst]
    | free hz _ hheld _ => exact absurd (h.held_unique (h.zombie_held hs hz) hheld) hd
    | leave hc | die hc => exact absurd hc hne
    | wake | alloc | ready | enter => grind

lemma Effect.switched (he : Effect s c t) (d : ℕ) (p : Slot) (hback : t.ctx d=.back p) :
    (t.proc p).state≠.running := by
  by_cases hd : d=c
  · subst hd
    have hshift := he.shift p
    cases he.turn with
    | stay hctx _ _ =>
      have hs := h.switched d p (hctx ▸ hback)
      cases hshift <;> grind
    | move _ ht _ => simp [hback,entered] at ht
    | enter | leave | back => grind
  · have hs := (he.others d hd).1 ▸ hback
    have hst := h.switched d p hs
    cases he.shift p with
    | enter _ _ hheld _ => exact absurd (h.held_unique (h.back_held hs) hheld) hd
    | same | wake | alloc | ready | free | leave | die => grind

lemma Effect.running (he : Effect s c t) (p : Slot) (hp : (t.proc p).state=.running) :
    ∃ d,t.ctx d=.run p := by
  cases he.shift p with
  | same hst =>
    obtain ⟨d,hd⟩ := h.running p (hst ▸ hp)
    by_cases hdc : d=c
    · subst hdc
      cases he.turn with
      | stay hctx _ _ => exact ⟨d,hctx ▸ hd⟩
      | move hs _ _ => simp [hd,entered] at hs
      | enter q hs _ _ _ _ _ | back q hs _ _ => simp [hd] at hs
      | leave q hs _ _ hnew => grind
    · exact ⟨d,(he.others d hdc).1 ▸ hd⟩
  | enter _ _ _ hctx => exact ⟨c,hctx⟩
  | wake | alloc | ready | free | die => grind
  | leave => grind [parked]

lemma Effect.resumes (he : Effect s c t) (p : Slot) (hp : parked (t.proc p).state) :
    resumable t p := by
  -- a process that was parked before is not executed, so its thread has not moved
  have hkeep : parked (s.proc p).state→ resumable t p := by
    intro hs
    have hne : s.ctx c≠.run p := by
      intro hc
      rcases h.executed_state hc with hr | hr <;> simp [hr,parked] at hs
    rcases he.threads p hne with ⟨hpc,hmode⟩ | ⟨-,hpc,hmode⟩
    · have hr := h.resumes p hs
      rwa [resumable,←hpc,←hmode] at hr
    · exact Or.inr ⟨hmode,by rw [hpc]; rfl⟩
  cases he.shift p with
  | same hst => exact hkeep (hst ▸ hp)
  | wake hs _ | ready hs _ _ => exact hkeep (by rw [hs]; rfl)
  | alloc _ _ hr | leave _ _ _ _ hr => exact hr
  | free _ ht _ _ | enter _ ht _ _ | die _ _ _ ht _ _ => simp [ht,parked] at hp

omit h

lemma Effect.embryo_cases (he : Effect s c t) {q np : Slot} (hq : embryo (t.pc q)=some np) :
    embryo (s.pc q)=some np ∨ (s.proc np).state=.unused ∧ (t.proc np).state=.used ∧ s.ctx c=.run q := by
  by_cases hc : s.ctx c=.run q
  · cases he.birth q hc with
    | same h => exact Or.inl (h ▸ hq)
    | none h => simp [h] at hq
    | new np' h hs ht =>
      grind
  · rcases he.threads q hc with ⟨hpc,-⟩ | ⟨-,hpc,-⟩
    · exact Or.inl (hpc ▸ hq)
    · simp [hpc,embryo] at hq

lemma Effect.embryos (h : Inv s) (he : Effect s c t) (q np : Slot)
    (hq : embryo (t.pc q)=some np) : (t.proc np).state=.used := by
  rcases he.embryo_cases hq with hs | ⟨-,ht,-⟩
  · have hst := h.embryos q np hs
    cases he.shift np with
    | same hsame => rw [hsame,hst]
    | ready _ _ hp =>
      obtain ⟨p,hps,hpt⟩ := hp
      grind [h.parents]
    | wake | alloc | free | enter | leave | die => grind
  · exact ht

lemma Effect.parents (h : Inv s) (he : Effect s c t) (q r np : Slot)
    (hq : embryo (t.pc q)=some np) (hr : embryo (t.pc r)=some np) : q=r := by
  rcases he.embryo_cases hq with h1 | ⟨hu,-,hc⟩ <;> rcases he.embryo_cases hr with h2 | ⟨hu',-,hc'⟩
  · exact h.parents q r np h1 h2
  · have := h.embryos q np h1
    simp [hu'] at this
  · have := h.embryos r np h2
    simp [hu] at this
  · grind

lemma Effect.inv (h : Inv s) (he : Effect s c t) : Inv t where
  locks := he.locks h
  waitLocks := he.waitLocks h
  onTop d hd := by
    by_cases hdc : d=c
    · subst hdc
      exact he.onTop hd
    · rw [(he.other_held h hdc).2.2]
      exact h.onTop d ((he.others d hdc).2.1 ▸ hd)
  preempted p hp := by
    by_cases hc : s.ctx c=.run p
    · exact he.preempted p hc hp
    · rcases he.threads p hc with ⟨hpc,hmode⟩ | ⟨-,-,hmode⟩
      · rw [hpc]
        exact h.preempted p (hmode ▸ hp)
      · exact absurd hmode hp
  current d := by
    by_cases hdc : d=c
    · subst hdc
      have hcur := h.current d
      cases he.turn with
      | stay hctx hproc _ => rw [hproc,hctx,hcur]
      | move hs ht hproc => rw [hproc,ht,hcur,hs]
      | enter p _ ht hproc _ _ _ | back p _ ht hproc => rw [hproc,ht]; rfl
      | leave p hs ht hproc _ => rw [hproc,ht,hcur,hs]; rfl
    · obtain ⟨hctx,-,hproc⟩ := he.others d hdc
      rw [hproc,hctx,h.current d]
  unique := he.unique h
  executed := he.executed h
  switched := he.switched h
  running := he.running h
  resumes := he.resumes h
  embryos := he.embryos h
  parents := he.parents h

end Kept

section Steps

variable {s t : Cpus} {c : ℕ} {p : Slot} {v : Proc}

variable {i : Slot}

lemma acquire_next (h : acquire s c i=.next t) :
    s.plock i=none ∧ t=s.setPlock i (some c) := by grind [acquire]

lemma acquireWait_next (h : acquireWait s c=.next t) :
    s.waitLock=none ∧ t=s.setWaitLock (some c) := by grind [acquireWait]

lemma sched_next (h : sched s c p=.next t) :
    (s.proc p).state≠.running ∧ t=s.setCtx c (.back p) := by grind [sched]

lemma shift_same (h : t.proc=s.proc) (q : Slot) : Shift s c t q := .same (by rw [h])

lemma shift_update (h : t.proc=update s.proc i v) (hi : Shift s c t i) (q : Slot) :
    Shift s c t q := by
  by_cases hq : q=i
  · exact hq ▸ hi
  · exact .same (by rw [h,update_of_ne hq])

lemma shift_fields (h : t.proc=update s.proc i v) (hv : v.state=(s.proc i).state) (q : Slot) :
    Shift s c t q :=
  shift_update h (.same (by rw [h,update_self,hv])) q

lemma shift_wakeup {chan : Option ProcMachine.Chan}
    (h : t.proc=update s.proc i (wakeupProc true s.ticks chan (s.proc i))) (q : Slot) :
    Shift s c t q := by
  apply shift_update h
  have hi : t.proc i=wakeupProc true s.ticks chan (s.proc i) := by rw [h,update_self]
  by_cases hs : (s.proc i).state=.sleeping ∧ (s.proc i).chan=chan
  · exact .wake hs.1 (by rw [hi,wakeupProc,if_pos hs])
  · exact .same (by rw [hi,wakeupProc,if_neg hs])

lemma shift_kill (h : t.proc=update s.proc i (killProc (s.proc i)))
    (q : Slot) : Shift s c t q := by
  apply shift_update h
  have hi : t.proc i=killProc (s.proc i) := by rw [h,update_self]
  by_cases hs : (s.proc i).state=.sleeping
  · exact .wake hs (by rw [hi,killProc,if_pos hs])
  · exact .same (by rw [hi,killProc,if_neg hs])

lemma interruptible_holds (hint : interruptible s (s.ctx c)) : ctxHolds s (s.ctx c)=none := by
  revert hint
  cases s.ctx c with
  | run p =>
    intro hint
    simp only [interruptible,Bool.decide_and,Bool.and_eq_true,decide_eq_true_eq,
      Bool.decide_eq_true] at hint
    rw [ctxHolds,threadHolds,if_pos hint.1]
    exact preemptible_holds hint.2
  | _ => simp [interruptible,ctxHolds]

lemma context_congr (hpc : t.pc=s.pc) (hmode : t.mode=s.mode) (x : Ctx) :
    ctxHolds t x=ctxHolds s x ∧ interruptible t x=interruptible s x := by
  cases x <;> simp [ctxHolds,threadHolds,interruptible,hpc,hmode]

lemma holdsWait_congr (hpc : t.pc=s.pc) (hmode : t.mode=s.mode) (hctx : t.ctx=s.ctx) :
    holdsWait t c=holdsWait s c := by
  rw [holdsWait,holdsWait,hctx]
  simp [hpc,hmode]

lemma quiet_effect (h : Inv s) (c : ℕ) (hctx : t.ctx=s.ctx) (hwake : t.wakeup=s.wakeup)
    (hcproc : t.cproc=s.cproc) (hpc : t.pc=s.pc) (hmode : t.mode=s.mode)
    (hplock : t.plock=s.plock) (hwait : t.waitLock=s.waitLock)
    (hst : ∀ q,(t.proc q).state=(s.proc q).state) : Effect s c t where
  others d _ := by rw [hctx,hwake,hcproc]; exact ⟨rfl,rfl,rfl⟩
  turn := .stay (by rw [hctx]) (by rw [hcproc]) fun p _ => Or.inr ⟨by rw [hpc],by rw [hmode]⟩
  threads q _ := .same (by rw [hpc]) (by rw [hmode])
  lock := by
    rw [held,held,hctx,hwake,hplock,(context_congr hpc hmode _).1]
    exact .same _ _
  wait := by
    rw [holdsWait_congr hpc hmode hctx,hwait]
    exact .same _ _
  onTop ht := by
    rw [hctx,(context_congr hpc hmode _).2]
    exact h.onTop c (hwake ▸ ht)
  preempted q _ hq := by
    rw [hmode] at hq
    rw [hpc]
    exact h.preempted q hq
  birth q _ := .same (by rw [hpc])
  shift q := .same (hst q)

lemma scheduler_effect {x x' : Ctx} (hx : s.ctx c=x) (hidle : s.wakeup c=.idle)
    (he : entered x=none) (he' : entered x'=none) (hctx : t.ctx=update s.ctx c x')
    (hwake : t.wakeup=s.wakeup) (hcproc : t.cproc=s.cproc) (hpc : t.pc=s.pc)
    (hmode : t.mode=s.mode) (hproc : t.proc=s.proc) (hwait : t.waitLock=s.waitLock)
    (hlock : LockMove c (ctxHolds s x) (ctxHolds s x') s.plock t.plock) : Effect s c t := by
  have hx' : t.ctx c=x' := by rw [hctx,update_self]
  have hidle' : t.wakeup c=.idle := by rw [hwake,hidle]
  have hrun : ∀ q,s.ctx c≠.run q := by grind [entered]
  have hholds : ctxHolds t x'=ctxHolds s x' := by
    revert he'
    cases x' <;> simp [entered,ctxHolds]
  have hnowait : holdsWait s c=false ∧ holdsWait t c=false := by
    rw [holdsWait,holdsWait,hx,hx']
    grind [entered]
  exact {
    others := fun d hd => by
      rw [hctx,hwake,hcproc,update_of_ne hd]
      exact ⟨rfl,rfl,rfl⟩
    turn := .move (by rw [hx,he]) (by rw [hx',he']) (by rw [hcproc])
    threads := fun q _ => .same (by rw [hpc]) (by rw [hmode])
    lock := by
      rw [held_idle hidle,held_idle hidle',hx,hx',hholds]
      exact hlock
    wait := by
      rw [hnowait.1,hnowait.2,hwait]
      exact .same _ _
    onTop := fun ht => absurd hidle' ht
    preempted := fun q hq => absurd hq (hrun q)
    birth := fun q hq => absurd hq (hrun q)
    shift := shift_same hproc}

lemma enter_effect (h : Inv s) (hx : s.ctx c=.hold p) (hidle : s.wakeup c=.idle)
    (hst : (s.proc p).state=.runnable) (hv : v.state=.running) :
    Effect s c (((s.setProc p v).setCproc c (some p)).setCtx c (.run p)) := by
  have hheld : held s c=some p := by rw [held_idle hidle,hx]; rfl
  have hres : resumable s p := h.resumes p (by rw [hst]; rfl)
  have hrun : ∀ q,s.ctx c≠.run q := by simp [hx]
  exact {
    others := fun d hd => by simp [hd]
    turn := .enter p hx (by simp) (by simp) hheld hst (by simp [hv])
    threads := fun q _ => .same rfl rfl
    lock := by
      have hheld' : held (((s.setProc p v).setCproc c (some p)).setCtx c (.run p)) c=some p := by
        have hc : (((s.setProc p v).setCproc c (some p)).setCtx c (.run p)).ctx c=.run p := by simp
        rw [held_run hc hidle]
        exact resumable_holds hres
      rw [hheld,hheld']
      exact .same _ _
    wait := by
      -- a parked thread is outside the places that hold wait_lock
      have hwaits : ¬(s.mode p=.normal ∧ waits (s.pc p)) := by
        rcases hres with hm | ⟨-,hpc⟩
        · simp [hm]
        · revert hpc
          cases s.pc p <;> simp [suspended,waits]
      have h1 : holdsWait s c=false := by rw [holdsWait,hx]
      have h2 : holdsWait (((s.setProc p v).setCproc c (some p)).setCtx c (.run p)) c=false := by
        simp [holdsWait,hwaits]
      rw [h1,h2]
      exact .same _ _
    onTop := fun ht => absurd (by simpa using hidle) ht
    preempted := fun q hq => absurd hq (hrun q)
    birth := fun q hq => absurd hq (hrun q)
    shift := shift_update rfl (.enter hst (by simp [hv]) hheld (by simp))}

lemma back_effect (hx : s.ctx c=.back p) (hidle : s.wakeup c=.idle) :
    Effect s c (((s.setCproc c none).setPlock p none).setCtx c .loop) := by
  have hrun : ∀ q,s.ctx c≠.run q := by simp [hx]
  exact {
    others := fun d hd => by simp [hd]
    turn := .back p hx (by simp) (by simp)
    threads := fun q _ => .same rfl rfl
    lock := by
      have h1 : held s c=some p := by rw [held_idle hidle,hx]; rfl
      have h2 : held (((s.setCproc c none).setPlock p none).setCtx c .loop) c=none := by
        rw [held_idle (by simpa using hidle)]
        simp [ctxHolds]
      rw [h1,h2]
      exact .give _ p
    wait := by
      have h1 : holdsWait s c=false := by rw [holdsWait,hx]
      have h2 : holdsWait (((s.setCproc c none).setPlock p none).setCtx c .loop) c=false := by
        simp [holdsWait]
      rw [h1,h2]
      exact .same _ _
    onTop := fun ht => absurd (by simpa using hidle) ht
    preempted := fun q hq => absurd hq (hrun q)
    birth := fun q hq => absurd hq (hrun q)
    shift := shift_same rfl}

lemma schedulerStep_effect (h : Inv s) {x : Ctx} (hx : s.ctx c=x) (hidle : s.wakeup c=.idle)
    (ht : schedulerStep s c x=.next t) : Effect s c t := by
  cases x with
  | loop =>
    cases ht
    exact scheduler_effect hx hidle rfl rfl rfl rfl rfl rfl rfl rfl rfl (.same _ _)
  | scan k ch =>
    rw [schedulerStep] at ht
    split at ht
    · next i _ =>
      obtain ⟨u,hu,hn⟩ := bind_eq_next.mp ht
      obtain ⟨hfree,rfl⟩ := acquire_next hu
      cases hn
      exact scheduler_effect hx hidle rfl rfl rfl rfl rfl rfl rfl rfl rfl (.take _ i hfree)
    · split at ht <;> cases ht
      · exact scheduler_effect hx hidle rfl rfl rfl rfl rfl rfl rfl rfl rfl (.same _ _)
      · exact scheduler_effect hx hidle rfl rfl rfl rfl rfl rfl rfl rfl rfl (.same _ _)
  | look i ch =>
    cases ht
    exact scheduler_effect hx hidle rfl rfl rfl rfl rfl rfl rfl rfl rfl (.give _ i)
  | chosen hp =>
    obtain ⟨u,hu,hn⟩ := bind_eq_next.mp ht
    obtain ⟨hfree,rfl⟩ := acquire_next hu
    cases hn
    exact scheduler_effect hx hidle rfl rfl rfl rfl rfl rfl rfl rfl rfl (.take _ hp hfree)
  | hold hp =>
    rw [schedulerStep] at ht
    split at ht
    · next hst =>
      cases ht
      exact enter_effect h hx hidle hst rfl
    · cases ht
      exact scheduler_effect hx hidle rfl rfl rfl rfl rfl rfl rfl rfl rfl (.give _ hp)
  | back hp =>
    cases ht
    exact back_effect hx hidle
  | run p => cases ht

lemma wakeup_effect (h : Inv s) {w : Wakeup} (hint : interruptible s (s.ctx c))
    (hctx : t.ctx=s.ctx) (hwake : t.wakeup=update s.wakeup c w)
    (hcproc : t.cproc=s.cproc) (hpc : t.pc=s.pc) (hmode : t.mode=s.mode)
    (hwait : t.waitLock=s.waitLock)
    (hlock : LockMove c (held s c) (looked w) s.plock t.plock)
    (hshift : ∀ q,Shift s c t q) : Effect s c t := by
  have hheld : held t c=looked w := by
    rw [held,hwake,update_self,hctx,(context_congr hpc hmode _).1,
      interruptible_holds hint,Option.or_none]
  exact {
    others := fun d hd => by
      rw [hctx,hwake,hcproc,update_of_ne hd]
      exact ⟨rfl,rfl,rfl⟩
    turn := .stay (by rw [hctx]) (by rw [hcproc]) fun p _ => Or.inr ⟨by rw [hpc],by rw [hmode]⟩
    threads := fun q _ => .same (by rw [hpc]) (by rw [hmode])
    lock := by rwa [hheld]
    wait := by
      rw [holdsWait_congr hpc hmode hctx,hwait]
      exact .same _ _
    onTop := fun _ => by
      rw [hctx,(context_congr hpc hmode _).2]
      exact hint
    preempted := fun q _ hq => by
      rw [hmode] at hq
      rw [hpc]
      exact h.preempted q hq
    birth := fun q _ => .same (by rw [hpc])
    shift := hshift}

lemma wakeupStep_effect (h : Inv s) (hne : s.wakeup c≠.idle)
    (ht : SchedMachine.wakeupStep s c (s.wakeup c)=.next t) : Effect s c t := by
  have hint := h.onTop c hne
  have hnone := interruptible_holds hint
  cases hw : s.wakeup c with
  | idle => exact absurd hw hne
  | scan chan j =>
    have hheld : held s c=none := by rw [held,hw,hnone]; rfl
    rw [hw,SchedMachine.wakeupStep] at ht
    split at ht
    · next i _ =>
      split at ht
      · cases ht
        exact wakeup_effect h hint rfl rfl rfl rfl rfl rfl (hheld ▸ .same _ _) (shift_same rfl)
      · obtain ⟨u,hu,hn⟩ := bind_eq_next.mp ht
        obtain ⟨hfree,rfl⟩ := acquire_next hu
        cases hn
        exact wakeup_effect h hint rfl rfl rfl rfl rfl rfl (hheld ▸ .take _ i hfree)
          (shift_same rfl)
    · cases ht
      exact wakeup_effect h hint rfl rfl rfl rfl rfl rfl (hheld ▸ .same _ _) (shift_same rfl)
  | look chan i =>
    have hheld : held s c=some i := by rw [held,hw]; rfl
    rw [hw] at ht
    cases ht
    exact wakeup_effect h hint rfl rfl rfl rfl rfl rfl (hheld ▸ .give _ i) (shift_wakeup rfl)

/-- CPU c executes the thread of process p at a place, outside of yield. -/
structure Executes (s : Cpus) (c : ℕ) (p : Slot) (pc : SchedMachine.Pc) : Prop where
  ctx : s.ctx c=.run p
  idle : s.wakeup c=.idle
  mode : s.mode p=.normal
  pc : s.pc p=pc

/-- The thread of process p moves to a place, and no CPU moves. -/
structure Moves (s t : Cpus) (p : Slot) (pc : SchedMachine.Pc) : Prop where
  ctx : t.ctx=s.ctx
  wakeup : t.wakeup=s.wakeup
  cproc : t.cproc=s.cproc
  mode : t.mode p=s.mode p
  pc : t.pc p=pc
  others : ∀ q,q≠p→Other s t q

variable {pc : SchedMachine.Pc}

lemma Executes.running (h : Inv s) (hx : Executes s c p pc)
    (hlive : pc≠.exitSched) : (s.proc p).state=.running := by grind [h.executed,hx.ctx,hx.pc]

lemma Executes.held (hx : Executes s c p pc) : held s c=holds p pc := by
  rw [held_idle hx.idle,hx.ctx,ctxHolds,threadHolds,if_pos hx.mode,hx.pc]

lemma Executes.holdsWait (hx : Executes s c p pc) :
    holdsWait s c=waits pc := by
  simp [OneCpu.holdsWait,hx.ctx,hx.mode,hx.pc]

lemma Executes.moves {pc pc' : SchedMachine.Pc} (hx : Executes s c p pc) (hm : Moves s t p pc') :
    Executes t c p pc' :=
  ⟨by rw [hm.ctx,hx.ctx],by rw [hm.wakeup,hx.idle],by rw [hm.mode,hx.mode],hm.pc⟩

lemma thread_effect {pc pc' : SchedMachine.Pc} (h : Inv s) (hx : Executes s c p pc)
    (hlive : pc≠.exitSched) (hm : Moves s t p pc')
    (hlock : LockMove c (holds p pc) (holds p pc') s.plock t.plock)
    (hwait : WaitMove c (waits pc) (waits pc') s.waitLock t.waitLock)
    (hbirth : Birth s t p) (hshift : ∀ q,Shift s c t q) : Effect s c t := by
  have hy := hx.moves hm
  have hone : ∀ q,s.ctx c=.run q→q=p := fun q hq => SchedMachine.Ctx.run.inj (hq.symm.trans hx.ctx)
  exact {
    others := fun d _ => by rw [hm.ctx,hm.wakeup,hm.cproc]; exact ⟨rfl,rfl,rfl⟩
    turn := .stay (by rw [hm.ctx]) (by rw [hm.cproc]) fun q hq =>
      Or.inl (hone q hq ▸ hx.running h hlive)
    threads := fun q hq => hm.others q fun heq => hq (heq ▸ hx.ctx)
    lock := by rwa [hx.held,hy.held]
    wait := by rwa [hx.holdsWait,hy.holdsWait]
    onTop := fun ht => absurd hy.idle ht
    preempted := fun q hq ht => absurd hy.mode (hone q hq ▸ ht)
    birth := fun q hq => hone q hq ▸ hbirth
    shift := hshift}

structure Still (s u : Cpus) : Prop where
  ctx : u.ctx=s.ctx
  wakeup : u.wakeup=s.wakeup
  cproc : u.cproc=s.cproc
  mode : u.mode=s.mode
  pc : u.pc=s.pc

section Places

variable {u : Cpus} {i : Slot} {pc pc' : SchedMachine.Pc}

lemma Still.moves (hu : Still s u) (p : Slot) (pc : SchedMachine.Pc) :
    Moves s (u.setPc p pc) p pc where
  ctx := hu.ctx
  wakeup := hu.wakeup
  cproc := hu.cproc
  mode := by simp [hu.mode]
  pc := by simp
  others q hq := .same (by simp [hq,hu.pc]) (by simp [hu.mode])

lemma place_effect (h : Inv s) (hx : Executes s c p pc) (hlive : pc≠.exitSched)
    (hu : Still s u) (hbirth : embryo pc'=none ∨ embryo pc'=embryo pc)
    (hlock : LockMove c (holds p pc) (holds p pc') s.plock u.plock)
    (hwait : WaitMove c (waits pc) (waits pc') s.waitLock u.waitLock)
    (hshift : ∀ q,Shift s c (u.setPc p pc') q) : Effect s c (u.setPc p pc') := by
  refine thread_effect h hx hlive (hu.moves p pc') hlock hwait ?_ hshift
  rcases hbirth with hnone | hsame
  · exact .none (by simp [hnone])
  · exact .same (by simp [hx.pc,hsame])

lemma go_effect (h : Inv s) (hx : Executes s c p pc) (hlive : pc≠.exitSched)
    (hbirth : embryo pc'=none) (hholds : holds p pc=holds p pc') (hwaits : waits pc=waits pc') :
    Effect s c (s.setPc p pc') :=
  place_effect h hx hlive ⟨rfl,rfl,rfl,rfl,rfl⟩ (Or.inl hbirth) (hholds ▸ .same _ _)
    (hwaits ▸ .same _ _) (shift_same rfl)

lemma acquire_effect (h : Inv s) (hx : Executes s c p pc) (hlive : pc≠.exitSched)
    (ht : ((acquire s c i).bind fun s => .next (s.setPc p pc'))=.next t)
    (hbirth : embryo pc'=none ∨ embryo pc'=embryo pc) (hnone : holds p pc=none)
    (hsome : holds p pc'=some i) (hwaits : waits pc=waits pc') : Effect s c t := by
  obtain ⟨u,hu,hn⟩ := bind_eq_next.mp ht
  obtain ⟨hfree,rfl⟩ := acquire_next hu
  cases hn
  refine place_effect h hx hlive ⟨rfl,rfl,rfl,rfl,rfl⟩ hbirth ?_ (hwaits ▸ .same _ _) (shift_same rfl)
  rw [hnone,hsome]
  exact .take _ i hfree

lemma acquireWait_effect (h : Inv s) (hx : Executes s c p pc) (hlive : pc≠.exitSched)
    (ht : ((acquireWait s c).bind fun s => .next (s.setPc p pc'))=.next t)
    (hbirth : embryo pc'=none ∨ embryo pc'=embryo pc) (hholds : holds p pc=holds p pc')
    (hno : waits pc=false) (hyes : waits pc'=true) : Effect s c t := by
  obtain ⟨u,hu,hn⟩ := bind_eq_next.mp ht
  obtain ⟨hfree,rfl⟩ := acquireWait_next hu
  cases hn
  refine place_effect h hx hlive ⟨rfl,rfl,rfl,rfl,rfl⟩ hbirth (hholds ▸ .same _ _) ?_ (shift_same rfl)
  rw [hno,hyes,hfree]
  exact .take

end Places

lemma leave_effect (hx : s.ctx c=.run p) (hidle : s.wakeup c=.idle)
    (hctx : t.ctx=update s.ctx c (.back p)) (hwake : t.wakeup=s.wakeup)
    (hcproc : t.cproc=s.cproc) (hpc : ∀ q,q≠p→t.pc q=s.pc q) (hmode : ∀ q,q≠p→t.mode q=s.mode q)
    (hpre : t.mode p≠.normal→(t.pc p).preemptible) (hplock : t.plock=s.plock)
    (hwait : t.waitLock=s.waitLock) (hheld : held s c=some p) (hnw : holdsWait s c=false)
    (hbirth : Birth s t p) (hnew : (t.proc p).state≠.running) (hshift : ∀ q,Shift s c t q) :
    Effect s c t := by
  have hx' : t.ctx c=.back p := by rw [hctx,update_self]
  have hidle' : t.wakeup c=.idle := by rw [hwake,hidle]
  have hone : ∀ q,s.ctx c=.run q→q=p := fun q hq => SchedMachine.Ctx.run.inj (hq.symm.trans hx)
  exact {
    others := fun d hd => by
      rw [hctx,hwake,hcproc,update_of_ne hd]
      exact ⟨rfl,rfl,rfl⟩
    turn := .leave p hx hx' (by rw [hcproc]) hnew
    threads := fun q hq =>
      have hne : q≠p := fun heq => hq (heq ▸ hx)
      .same (hpc q hne) (hmode q hne)
    lock := by
      have hheld' : held t c=some p := by rw [held_idle hidle',hx']; rfl
      rw [hheld,hheld',hplock]
      exact .same _ _
    wait := by
      have hnw' : holdsWait t c=false := by rw [holdsWait,hx']
      rw [hnw,hnw',hwait]
      exact .same _ _
    onTop := fun ht => absurd hidle' ht
    preempted := fun q hq => hone q hq ▸ hpre
    birth := fun q hq => hone q hq ▸ hbirth
    shift := hshift}

lemma forkLook_effect (h : Inv s) (memory : Memory)
    (hx : Executes s c p (.forkLook i)) : Effect s c (forkLookStep s p i memory) := by
  have hr := hx.running h (by simp)
  rw [forkLookStep]
  split
  · next hst =>
    -- the slot is free, so it is not the caller's own
    have hne : i≠p := by
      rintro rfl
      simp [hst] at hr
    cases memory with
    | none | short =>
      exact place_effect h hx nofun ⟨rfl,rfl,rfl,rfl,rfl⟩ (Or.inl rfl) (.give _ i) (.same _ _)
        (shift_fields rfl hst.symm)
    | enough =>
      refine thread_effect h hx nofun
        (show Moves _ _ _ (.forkLink i) from ⟨rfl,rfl,rfl,?_,by simp,?_⟩)
        (.give _ i) (.same _ _) (.new i (by simp [embryo]) hst (by simp [allocFound]))
        (shift_update rfl (.alloc hst (by simp [allocFound]) (Or.inr ⟨by simp,?_⟩)))
      · simp [Ne.symm hne]
      · intro q hq
        by_cases hqi : q=i
        · subst hqi
          exact .born hst (by simp [hq]) (by simp)
        · exact .same (by simp [hq,hqi]) (by simp [hqi])
      · simp [hne,suspended]
  · exact place_effect h hx nofun ⟨rfl,rfl,rfl,rfl,rfl⟩ (Or.inl rfl) (.give _ i) (.same _ _)
      (shift_same rfl)

lemma waitLook_effect (h : Inv s) {addr : StatusAddr}
    (hx : Executes s c p (.waitLook addr i)) : Effect s c (waitLookStep s p i addr) := by
  have hr := hx.running h (by simp)
  rw [waitLookStep]
  split
  · next hst =>
    split
    · exact place_effect h hx nofun ⟨rfl,rfl,rfl,rfl,rfl⟩ (Or.inl rfl) (.give _ i) (.give _)
        (shift_same rfl)
    · have hne : p≠i := by
        rintro rfl
        simp [hst] at hr
      exact place_effect h hx nofun ⟨rfl,rfl,rfl,rfl,rfl⟩ (Or.inl rfl) (.give _ i) (.give _)
        (shift_update rfl (.free hst (by simp [freeproc]) hx.held (by simp [hx.ctx,entered,hne])))
  · exact place_effect h hx nofun ⟨rfl,rfl,rfl,rfl,rfl⟩ (Or.inl rfl) (.give _ i) (.same _ _)
      (shift_same rfl)

lemma threadStep_effect (h : Inv s) {memory : Memory}
    (hx : Executes s c p pc) (ht : SchedMachine.threadStep s c p memory pc=.next t) :
    Effect s c t := by
  cases pc with
  | user => cases ht
  | exited => cases ht
  | forkret =>
    cases ht
    exact place_effect h hx nofun ⟨rfl,rfl,rfl,rfl,rfl⟩ (Or.inl rfl) (.give _ p) (.same _ _)
      (shift_same rfl)
  | sleepHold chan wait =>
    obtain ⟨u,hu,hn⟩ := bind_eq_next.mp ht
    obtain ⟨-,rfl⟩ := sched_next hu
    cases hn
    have hr := hx.running h nofun
    exact leave_effect hx.ctx hx.idle rfl rfl rfl (fun q hq => by simp [hq]) (fun _ _ => rfl)
      (fun hm => absurd hx.mode hm) rfl rfl hx.held hx.holdsWait (.none (by simp [embryo]))
      (by simp [sleepProc])
      (shift_update rfl (.leave hx.ctx (by simp) hr (by simp [sleepProc,parked])
        (Or.inr ⟨hx.mode,by simp [suspended]⟩)))
  | sleepBack wait =>
    cases ht
    cases wait <;>
      exact place_effect h hx nofun ⟨rfl,rfl,rfl,rfl,rfl⟩ (Or.inl rfl) (.give _ p) (.same _ _)
        (shift_fields rfl rfl)
  | wake chan j next =>
    rw [SchedMachine.threadStep] at ht
    split at ht
    · split at ht
      · cases ht
        exact go_effect h hx nofun rfl rfl rfl
      · exact acquire_effect h hx nofun ht (Or.inl rfl) rfl rfl rfl
    · cases ht
      cases next <;> exact go_effect h hx nofun rfl rfl rfl
  | wakeLook chan i next =>
    cases ht
    exact place_effect h hx nofun ⟨rfl,rfl,rfl,rfl,rfl⟩ (Or.inl rfl) (.give _ i) (.same _ _)
      (shift_wakeup rfl)
  | killScan pid k | forkScan k =>
    rw [SchedMachine.threadStep] at ht
    split at ht
    · exact acquire_effect h hx nofun ht (Or.inl rfl) rfl rfl rfl
    · cases ht
      exact go_effect h hx nofun rfl rfl rfl
  | killLook pid i =>
    rw [SchedMachine.threadStep] at ht
    split at ht <;> cases ht
    · exact place_effect h hx nofun ⟨rfl,rfl,rfl,rfl,rfl⟩ (Or.inl rfl) (.give _ i) (.same _ _)
        (shift_kill rfl)
    · exact place_effect h hx nofun ⟨rfl,rfl,rfl,rfl,rfl⟩ (Or.inl rfl) (.give _ i) (.same _ _)
        (shift_same rfl)
  | forkLook i =>
    cases ht
    exact forkLook_effect h memory hx
  | forkLink np => exact acquireWait_effect h hx nofun ht (Or.inr rfl) rfl rfl rfl
  | forkLinked np =>
    cases ht
    exact place_effect h hx nofun ⟨rfl,rfl,rfl,rfl,rfl⟩ (Or.inr rfl) (.same _ _) (.give _)
      (shift_fields rfl rfl)
  | forkReady np => exact acquire_effect h hx nofun ht (Or.inr rfl) rfl rfl rfl
  | forkHold np =>
    cases ht
    have hused : (s.proc np).state=.used := h.embryos p np (by rw [hx.pc]; rfl)
    exact place_effect h hx nofun ⟨rfl,rfl,rfl,rfl,rfl⟩ (Or.inl rfl) (.give _ np) (.same _ _)
      (shift_update rfl (.ready hused (by simp) ⟨p,by rw [hx.pc]; rfl,by simp [embryo]⟩))
  | exitLock status => exact acquireWait_effect h hx nofun ht (Or.inl rfl) rfl rfl rfl
  | exitReparent status k =>
    rw [SchedMachine.threadStep] at ht
    split at ht
    · split at ht <;> cases ht
      · exact place_effect h hx nofun ⟨rfl,rfl,rfl,rfl,rfl⟩ (Or.inl rfl) (.same _ _) (.same _ _)
          (shift_fields rfl rfl)
      · exact go_effect h hx nofun rfl rfl rfl
    · cases ht
      exact go_effect h hx nofun rfl rfl rfl
  | exitFinish status => exact acquire_effect h hx nofun ht (Or.inl rfl) rfl rfl rfl
  | exitHold status =>
    cases ht
    have hr := hx.running h nofun
    exact place_effect h hx nofun ⟨rfl,rfl,rfl,rfl,rfl⟩ (Or.inl rfl) (.same _ _) (.give _)
      (shift_update rfl (.die hx.ctx hx.ctx hr (by simp [exitProc]) hx.mode (by simp)))
  | exitSched =>
    obtain ⟨u,hu,hn⟩ := bind_eq_next.mp ht
    obtain ⟨hst,rfl⟩ := sched_next hu
    cases hn
    exact leave_effect hx.ctx hx.idle rfl rfl rfl (fun q hq => by simp [hq]) (fun _ _ => rfl)
      (fun hm => absurd hx.mode hm) rfl rfl hx.held hx.holdsWait (.none (by simp [embryo])) hst
      (shift_same rfl)
  | waitLock addr => exact acquireWait_effect h hx nofun ht (Or.inl rfl) rfl rfl rfl
  | waitScan addr k havekids =>
    rw [SchedMachine.threadStep] at ht
    split at ht
    · split at ht
      · exact acquire_effect h hx nofun ht (Or.inl rfl) rfl rfl rfl
      · cases ht
        exact go_effect h hx nofun rfl rfl rfl
    · cases ht
      exact go_effect h hx nofun rfl rfl rfl
  | waitLook addr i =>
    cases ht
    exact waitLook_effect h hx
  | waitCheck addr havekids =>
    rw [SchedMachine.threadStep] at ht
    split at ht
    · cases ht
      exact place_effect h hx nofun ⟨rfl,rfl,rfl,rfl,rfl⟩ (Or.inl rfl) (.same _ _) (.give _)
        (shift_same rfl)
    split at ht
    · cases ht
    split at ht <;> cases ht
    · exact place_effect h hx nofun ⟨rfl,rfl,rfl,rfl,rfl⟩ (Or.inl rfl) (.same _ _) (.give _)
        (shift_same rfl)
    · exact go_effect h hx nofun rfl rfl rfl
  | waitSleep addr => exact acquire_effect h hx nofun ht (Or.inl rfl) rfl rfl rfl
  | waitHold addr =>
    cases ht
    exact place_effect h hx nofun ⟨rfl,rfl,rfl,rfl,rfl⟩ (Or.inl rfl) (.same _ _) (.give _)
      (shift_same rfl)

lemma mode_effect {m : Mode} {o : Option ℕ} (hctx : s.ctx c=.run p)
    (hidle : s.wakeup c=.idle) (hr : (s.proc p).state=.running) (hpre : (s.pc p).preemptible)
    (hlock : LockMove c (threadHolds s p) (if m=.normal then none else some p) s.plock
      (update s.plock p o)) : Effect s c ((s.setPlock p o).setMode p m) := by
  have hone : ∀ q,s.ctx c=.run q→q=p := fun q hq => SchedMachine.Ctx.run.inj (hq.symm.trans hctx)
  have hctx' : ((s.setPlock p o).setMode p m).ctx c=.run p := hctx
  exact {
    others := fun d _ => ⟨rfl,rfl,rfl⟩
    turn := .stay rfl rfl fun q hq => Or.inl (hone q hq ▸ hr)
    threads := fun q hq => .same rfl (by simp [show q≠p from fun heq => hq (heq ▸ hctx)])
    lock := by
      rw [held_run hctx hidle,held_run hctx' hidle]
      simpa [threadHolds,preemptible_holds hpre] using hlock
    wait := by
      simp only [holdsWait,hctx,hctx']
      simpa [preemptible_waits hpre] using WaitMove.same false s.waitLock
    onTop := fun ht => absurd hidle ht
    preempted := fun q hq _ => hone q hq ▸ hpre
    birth := fun q _ => .same rfl
    shift := shift_same rfl}

lemma runStep_effect (h : Inv s) {memory : Memory} (hctx : s.ctx c=.run p)
    (hidle : s.wakeup c=.idle) (ht : runStep s c p memory=.next t) : Effect s c t := by
  rw [runStep] at ht
  split at ht
  · next hmode => exact threadStep_effect h ⟨hctx,hidle,hmode,rfl⟩ ht
  · next hmode =>
    obtain ⟨u,hu,hn⟩ := bind_eq_next.mp ht
    obtain ⟨-,rfl⟩ := sched_next hu
    cases hn
    have hr : (s.proc p).state=.running := by
      rcases h.executed c p hctx with hr | ⟨-,hm,-⟩
      · exact hr
      · simp [hmode] at hm
    exact leave_effect hctx hidle rfl rfl rfl (fun _ _ => rfl) (fun q hq => by simp [hq])
      (fun _ => h.preempted p (by simp [hmode])) rfl rfl
      (by simp [held_idle hidle,hctx,ctxHolds,threadHolds,hmode]) (by simp [holdsWait,hctx,hmode])
      (.same rfl) (by simp)
      (shift_update rfl (.leave hctx (by simp) hr (by simp [parked]) (Or.inl (by simp))))
  · next hmode =>
    cases ht
    refine mode_effect hctx hidle ?_ (h.preempted p (by simp [hmode])) ?_
    · rcases h.executed c p hctx with hr | ⟨-,hm,-⟩
      · exact hr
      · simp [hmode] at hm
    · simpa [threadHolds,hmode] using LockMove.give s.plock p

lemma startStep_effect (h : Inv s) {a : Act} (hctx : s.ctx c=.run p)
    (hidle : s.wakeup c=.idle) (ht : startStep s c p a=.next t) : Effect s c t := by
  have huser : (s.pc p).isUser→s.pc p=.user := by
    cases s.pc p <;> simp [SchedMachine.Pc.isUser]
  cases a with
  | timer =>
    rw [startStep] at ht
    split at ht
    · next hint =>
      obtain ⟨u,hu,hn⟩ := bind_eq_next.mp ht
      obtain ⟨hfree,rfl⟩ := acquire_next hu
      cases hn
      simp only [interruptible,Bool.decide_and,Bool.and_eq_true,decide_eq_true_eq,
        Bool.decide_eq_true] at hint
      obtain ⟨hmode,hpre⟩ := hint
      refine mode_effect hctx hidle ?_ hpre ?_
      · rcases h.executed c p hctx with hr | ⟨-,-,hpc⟩
        · exact hr
        · simp [hpc,SchedMachine.Pc.preemptible] at hpre
      · simpa [threadHolds,hmode,preemptible_holds hpre] using LockMove.take s.plock p hfree
    · cases ht
  | call call =>
    rw [startStep] at ht
    split at ht
    · next hu =>
      have hx : Executes s c p .user := ⟨hctx,hidle,hu.1,huser hu.2⟩
      obtain ⟨pc,hpc,hn⟩ := bind_eq_next.mp ht
      cases hn
      cases call with
      | fork | wait addr | kill pid =>
        cases hpc
        exact go_effect h hx nofun rfl rfl rfl
      | exit status =>
        rw [callPc] at hpc
        split at hpc <;> cases hpc
        exact go_effect h hx nofun rfl rfl rfl
    · cases ht
  | sleepOn addr =>
    rw [startStep] at ht
    split at ht
    · next hu =>
      have hx : Executes s c p .user := ⟨hctx,hidle,hu.1,huser hu.2⟩
      exact acquire_effect h hx nofun ht (Or.inl rfl) rfl rfl rfl
    · cases ht
  | go | wakeup | account | tick => cases ht

lemma cpuStep_effect (h : Inv s) {a : ℕ×Act} (ht : cpuStep s a=.next t) : Effect s a.1 t := by
  obtain ⟨c,b⟩ := a
  have hstart : ∀ b,(if s.wakeup c=.idle then
      match s.ctx c with
      | .run p => startStep s c p b
      | _ => .blocked
      else .blocked)=.next t→Effect s c t := by
    intro b ht
    split at ht
    · next hidle =>
      split at ht
      · next p hctx => exact startStep_effect h hctx hidle ht
      · cases ht
    · cases ht
  cases b with
  | tick =>
    cases ht
    exact quiet_effect h c rfl rfl rfl rfl rfl rfl rfl fun _ => rfl
  | account i rtime stime wtime staticPriority =>
    cases ht
    refine quiet_effect h c rfl rfl rfl rfl rfl rfl rfl fun q => ?_
    by_cases hq : q=i
    · subst hq
      simp
    · simp [hq]
  | wakeup addr =>
    rw [cpuStep] at ht
    dsimp only at ht
    split at ht
    · next hint =>
      cases ht
      have hheld : held s c=none := by rw [held_idle hint.1,interruptible_holds hint.2]
      exact wakeup_effect h hint.2 rfl rfl rfl rfl rfl rfl (hheld ▸ .same _ _) (shift_same rfl)
    · cases ht
  | go memory =>
    rw [cpuStep] at ht
    dsimp only at ht
    split at ht
    · next hidle =>
      split at ht
      · next p hctx => exact runStep_effect h hctx hidle ht
      · next x _ => exact schedulerStep_effect h rfl hidle ht
    · next hne => exact wakeupStep_effect h hne ht
  | timer => exact hstart .timer ht
  | call call => exact hstart (.call call) ht
  | sleepOn addr => exact hstart (.sleepOn addr) ht

end Steps

section Runs

lemma boot_inv : Inv bootCpus where
  locks c i := by simp [held,looked,bootCpus,ctxHolds]
  waitLocks c := by simp [holdsWait,bootCpus]
  onTop c hc := by simp [bootCpus] at hc
  preempted p hp := by simp [bootCpus] at hp
  current c := rfl
  unique c d p hc := by simp [bootCpus,entered] at hc
  executed c p hc := by simp [bootCpus] at hc
  switched c p hc := by simp [bootCpus] at hc
  running p hp := by
    by_cases hi : p=initproc
    · simp [bootCpus,bootSys,hi,firstProc] at hp
    · simp [bootCpus,bootSys,hi,zeroProc] at hp
  resumes p _ := Or.inr ⟨rfl,rfl⟩
  embryos q np hq := by simp [bootCpus,embryo] at hq
  parents q r np hq := by simp [bootCpus,embryo] at hq

lemma run_inv {as : List (ℕ×Act)} {s : Cpus} (hrun : run cpuStep bootCpus as=.next s) : Inv s :=
  run_invariant (fun _ _ _ h ht => (cpuStep_effect h ht).inv h) boot_inv hrun

variable {s t : Cpus} {c : ℕ} {p : Slot}

lemma Inv.one_cpu (h : Inv s) (hp : (s.proc p).state=.running) : ∃! c,s.cproc c=some p := by
  obtain ⟨c,hc⟩ := h.running p hp
  refine ⟨c,by simp [h.current,hc,entered],fun d hd => ?_⟩
  have hd' : entered (s.ctx d)=some p := by rw [←h.current,hd]
  exact h.unique d c p hd' (by rw [hc]; rfl)

lemma Effect.entered_runnable (he : Effect s c t) {d : ℕ} (ht : t.ctx d=.run p)
    (hs : s.ctx d≠.run p) : (s.proc p).state=.runnable ∧ (t.proc p).state=.running := by
  by_cases hd : d=c
  · subst hd
    cases he.turn with
    | stay hctx _ _ => exact absurd (hctx ▸ ht) hs
    | move _ hmove _ => simp [ht,entered] at hmove
    | enter q _ henter _ _ hold hnew =>
      rw [henter,SchedMachine.Ctx.run.injEq] at ht
      exact ht ▸ ⟨hold,hnew⟩
    | leave q _ hleave _ _ => simp [hleave] at ht
    | back q _ hback _ => simp [hback] at ht
  · exact absurd ((he.others d hd).1 ▸ ht) hs

lemma Effect.zombie_left (h : Inv s) (he : Effect s c t) (hs : (s.proc p).state=.zombie)
    (ht : (t.proc p).state≠.zombie) (d : ℕ) : entered (s.ctx d)≠some p := by
  cases he.shift p with
  | free _ _ hheld hrun =>
    grind [h.not_entered]
  | same hst => exact absurd (hst.trans hs) ht
  | wake hst | alloc hst | ready hst | enter hst | leave _ _ hst | die _ _ hst => simp [hs] at hst

/-- For any number of CPUs and any interleaving of their steps: a RUNNING process
is the c->proc of exactly one CPU, a CPU enters a process only when it is
RUNNABLE, and wait frees a ZOMBIE only when no CPU is on it any more. -/
theorem process_runs_on_one_cpu {as : List (ℕ×Act)} {s : Cpus}
    (hrun : run cpuStep bootCpus as=.next s) :
    (∀ p,(s.proc p).state=.running→∃! c,s.cproc c=some p) ∧
    ∀ a t,cpuStep s a=.next t→
      (∀ c p,t.ctx c=.run p→s.ctx c≠.run p→
        (s.proc p).state=.runnable ∧ (t.proc p).state=.running) ∧
      ∀ p,(s.proc p).state=.zombie→(t.proc p).state≠.zombie→
        ∀ c,s.ctx c≠.run p ∧ s.cproc c≠some p := by
  have h := run_inv hrun
  refine ⟨fun p hp => h.one_cpu hp,fun a t ht => ⟨?_,?_⟩⟩
  · intro c p hc hs
    exact (cpuStep_effect h ht).entered_runnable hc hs
  · intro p hs hz c
    have hleft := (cpuStep_effect h ht).zombie_left h hs hz c
    refine ⟨fun hc => hleft (by rw [hc]; rfl),?_⟩
    rwa [h.current]

/-- Two CPUs select init, one enters it, and the other finds it RUNNING. -/
def race : List (ℕ×Act) :=
  List.replicate 130 (0,.go .enough)++List.replicate 130 (1,.go .enough)++
    List.replicate 3 (0,.go .enough)++List.replicate 2 (1,.go .enough)

theorem race_one_cpu : ∃ s,run cpuStep bootCpus race=.next s ∧
    (s.proc initproc).state=.running ∧ ∃! c,s.cproc c=some initproc := by
  obtain ⟨s,hs,hobs⟩ := exists_of_state? (o := run cpuStep bootCpus race)
    (f := fun s => ((s.proc initproc).state,s.cproc 0,s.cproc 1))
    (v := (.running,some initproc,none)) (by decide +kernel)
  simp only [Prod.mk.injEq] at hobs
  exact ⟨s,hs,hobs.1,(process_runs_on_one_cpu hs).1 initproc hobs.1⟩

end Runs

end Xv6Riscv.OneCpu
