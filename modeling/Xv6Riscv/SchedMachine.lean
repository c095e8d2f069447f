import Xv6Riscv.ProcMachine

/-!
# CPUs, the PBS scheduler and the process table

Any number of CPUs run the scheduler loop of kernel/proc.c or the kernel thread
of a process. A step of a CPU ends where a p->lock or wait_lock is acquired or
released, or at swtch. The loops of the scheduler, of allocproc, wakeup, wait,
reparent and kill look at one slot at a time. p->lock is passed across swtch:
the scheduler holds it when it enters a process, and the process holds it when
it calls sched.

Timer interrupts make a process yield wherever it holds no spinlock, which also
covers the yield of set_priority. Interrupt handlers on any CPU, and kernel code
outside the calls modelled here, may call wakeup there as well; they never yield
on the way, because each such wakeup is called with interrupts off. waitx takes
the locks that wait takes. Locks other than p->lock and wait_lock and the
interrupt flag are left out, and so are pages and files. The accounting of times
may change the fields that the scheduler reads at any time.
-/

namespace Xv6Riscv.SchedMachine

open Function
open Transition ProcMachine

/-- The dynamic priority that the scheduler computes for a slot. -/
def dynamicPriority (p : Proc) : ℕ :=
  let val : Int32 := ((3*p.rtime-p.stime-divu p.wtime (p.rtime+p.stime+p.wtime+1))*
    defaultPriority).toInt32
  let rbi : UInt32 := if p.rtime+p.stime≠0 then (if 0<val then val.toUInt32 else 0) else 25
  let sum := p.staticPriority+rbi
  if sum<100 then sum.toNat else 100

/-- The best slot of a scan so far and its dynamic priority. -/
structure Choice where
  hp : Option Slot
  min : ℕ
  deriving DecidableEq

def Choice.start : Choice := ⟨none,101⟩

/-- What the scheduler's scan makes of a RUNNABLE slot. The fields of hpProc are
read without its lock. -/
def Choice.consider (proc : Slot→Proc) (ch : Choice) (i : Slot) : Choice :=
  let dp := dynamicPriority (proc i)
  match ch.hp with
  | none => ⟨some i,dp⟩
  | some h =>
    if dp<ch.min then ⟨some i,dp⟩
    else if dp=ch.min then
      if (proc h).noOfTimesScheduled<(proc i).noOfTimesScheduled then ⟨some i,ch.min⟩
      else if (proc h).noOfTimesScheduled=(proc i).noOfTimesScheduled ∧
          (proc i).ctime<(proc h).ctime then ⟨some i,ch.min⟩
      else ch
    else ch

/-- What a CPU does: a point of the scheduler, or a process. -/
inductive Ctx where
  | loop
  | scan (k : ℕ) (ch : Choice)
  | look (i : Slot) (ch : Choice)
  | chosen (hp : Slot)
  | hold (hp : Slot)
  | run (p : Slot)
  | back (hp : Slot)

/-- The wakeup that a CPU executes outside of exit, if any. -/
inductive Wakeup where
  | idle
  | scan (chan : Chan) (j : ℕ)
  | look (chan : Chan) (i : Slot)
  deriving DecidableEq

inductive Next where
  | reparent (status : Int32) (k : ℕ)
  | finish (status : Int32)

inductive Pc where
  | forkret
  | user
  | sleepHold (chan : Chan) (wait : Option StatusAddr)
  | sleepBack (wait : Option StatusAddr)
  | wake (chan : Option Chan) (j : ℕ) (next : Next)
  | wakeLook (chan : Option Chan) (i : Slot) (next : Next)
  | killScan (pid : ℤ) (k : ℕ)
  | killLook (pid : ℤ) (i : Slot)
  | forkScan (k : ℕ)
  | forkLook (i : Slot)
  | forkLink (np : Slot)
  | forkLinked (np : Slot)
  | forkReady (np : Slot)
  | forkHold (np : Slot)
  | exitLock (status : Int32)
  | exitReparent (status : Int32) (k : ℕ)
  | exitFinish (status : Int32)
  | exitHold (status : Int32)
  | exitSched
  | exited
  | waitLock (addr : StatusAddr)
  | waitScan (addr : StatusAddr) (k : ℕ) (havekids : Bool)
  | waitLook (addr : StatusAddr) (i : Slot)
  | waitCheck (addr : StatusAddr) (havekids : Bool)
  | waitSleep (addr : StatusAddr)
  | waitHold (addr : StatusAddr)

inductive Mode where
  | normal
  | yielding
  | yielded
  deriving DecidableEq

/-- The table with its locks, and what each CPU does. -/
structure Cpus where
  proc : Slot→Proc
  nextpid : ℤ
  ticks : UInt32
  waitLock : Option ℕ
  plock : Slot→Option ℕ
  cproc : ℕ→Option Slot
  ctx : ℕ→Ctx
  wakeup : ℕ→Wakeup
  pc : Slot→Pc
  mode : Slot→Mode

inductive Memory where
  | none
  | short
  | enough
  deriving DecidableEq

inductive Act where
  | go (memory : Memory)
  | timer
  | call (c : Call)
  | sleepOn (addr : ℕ)
  | wakeup (addr : ℕ)
  | account (i : Slot) (rtime stime wtime staticPriority : UInt32)
  | tick

@[simp] def Cpus.setProc (s : Cpus) (i : Slot) (p : Proc) : Cpus :=
  {s with proc := update s.proc i p}

@[simp] def Cpus.setPlock (s : Cpus) (i : Slot) (o : Option ℕ) : Cpus :=
  {s with plock := update s.plock i o}

@[simp] def Cpus.setCtx (s : Cpus) (c : ℕ) (x : Ctx) : Cpus :=
  {s with ctx := update s.ctx c x}

@[simp] def Cpus.setWakeup (s : Cpus) (c : ℕ) (w : Wakeup) : Cpus :=
  {s with wakeup := update s.wakeup c w}

@[simp] def Cpus.setCproc (s : Cpus) (c : ℕ) (o : Option Slot) : Cpus :=
  {s with cproc := update s.cproc c o}

@[simp] def Cpus.setPc (s : Cpus) (p : Slot) (pc : Pc) : Cpus :=
  {s with pc := update s.pc p pc}

@[simp] def Cpus.setMode (s : Cpus) (p : Slot) (m : Mode) : Cpus :=
  {s with mode := update s.mode p m}

@[simp] def Cpus.setWaitLock (s : Cpus) (o : Option ℕ) : Cpus := {s with waitLock := o}

/-- acquire of the lock of a slot; blocked while it is held. -/
def acquire (s : Cpus) (c : ℕ) (i : Slot) : Outcome Cpus :=
  if s.plock i=none then .next (s.setPlock i (some c)) else .blocked

def acquireWait (s : Cpus) (c : ℕ) : Outcome Cpus :=
  if s.waitLock=none then .next (s.setWaitLock (some c)) else .blocked

/-- sched, which the process p calls on CPU c. The count of locks in noff is 1 if
the CPU holds none but p->lock. -/
def sched (s : Cpus) (c : ℕ) (p : Slot) : Outcome Cpus :=
  if s.plock p≠some c then .panic "sched p->lock"
  else if s.waitLock=some c ∨ ∃ i,i≠p ∧ s.plock i=some c then .panic "sched locks"
  else if (s.proc p).state=.running then .panic "sched running"
  else .next (s.setCtx c (.back p))

/-- The next section of the scheduler loop. -/
def schedulerStep (s : Cpus) (c : ℕ) : Ctx→Outcome Cpus
  | .loop => .next (s.setCtx c (.scan 0 .start))
  | .scan k ch =>
    match slot? k with
    | some i => (acquire s c i).bind fun s => .next (s.setCtx c (.look i ch))
    | none =>
      match ch.hp with
      | some hp => .next (s.setCtx c (.chosen hp))
      | none => .next (s.setCtx c .loop)
  | .look i ch =>
    let ch := if (s.proc i).state=.runnable then ch.consider s.proc i else ch
    .next ((s.setPlock i none).setCtx c (.scan (i.val+1) ch))
  | .chosen hp => (acquire s c hp).bind fun s => .next (s.setCtx c (.hold hp))
  | .hold hp =>
    if (s.proc hp).state=.runnable then
      .next (((s.setProc hp {s.proc hp with
        state := .running
        noOfTimesScheduled := (s.proc hp).noOfTimesScheduled+1}).setCproc c (some hp)).setCtx c
          (.run hp))
    else .next ((s.setPlock hp none).setCtx c .loop)
  | .back hp => .next (((s.setCproc c none).setPlock hp none).setCtx c .loop)
  | .run _ => .blocked

/-- The wakeup on CPU c. It skips the process on the CPU. -/
def wakeupStep (s : Cpus) (c : ℕ) : Wakeup→Outcome Cpus
  | .idle => .blocked
  | .scan chan j =>
    match slot? j with
    | some i =>
      if s.cproc c=some i then .next (s.setWakeup c (.scan chan (j+1)))
      else (acquire s c i).bind fun s => .next (s.setWakeup c (.look chan i))
    | none => .next (s.setWakeup c .idle)
  | .look chan i =>
    .next (((s.setProc i (wakeupProc true s.ticks (some chan) (s.proc i))).setPlock i none).setWakeup
      c (.scan chan (i.val+1)))

def Next.pc : Next→Pc
  | .reparent status k => .exitReparent status k
  | .finish status => .exitFinish status

def sleepReturn : Option StatusAddr→Pc
  | none => .user
  | some addr => .waitLock addr

/-- allocproc holds the lock of slot i, and what fork does up to the release. -/
def forkLookStep (s : Cpus) (p i : Slot) (memory : Memory) : Cpus :=
  if (s.proc i).state=.unused then
    let found := allocFound (s.proc i) s.nextpid s.ticks
    let s' := {s with nextpid := s.nextpid+1}
    match memory with
    | .none =>
      ((s'.setProc i (freeproc {s.proc i with pid := s.nextpid,state := .used})).setPlock i none).setPc
        p .user
    | .short => ((s'.setProc i (freeproc found)).setPlock i none).setPc p .user
    | .enough =>
      ((((s'.setProc i found).setPc i .forkret).setMode i .normal).setPlock i none).setPc p
        (.forkLink i)
  else (s.setPlock i none).setPc p (.forkScan (i.val+1))

def waitLookStep (s : Cpus) (p i : Slot) (addr : StatusAddr) : Cpus :=
  if (s.proc i).state=.zombie then
    if addr=.bad then ((s.setPlock i none).setWaitLock none).setPc p .user
    else (((s.setProc i (freeproc (s.proc i))).setPlock i none).setWaitLock none).setPc p .user
  else (s.setPlock i none).setPc p (.waitScan addr (i.val+1) true)

/-- The kernel thread of process p on CPU c, outside of yield. -/
def threadStep (s : Cpus) (c : ℕ) (p : Slot) (memory : Memory) : Pc→Outcome Cpus
  | .forkret => .next ((s.setPlock p none).setPc p .user)
  | .user => .blocked
  | .sleepHold chan wait =>
    (sched (s.setProc p (sleepProc true s.ticks chan (s.proc p))) c p).bind fun s =>
      .next (s.setPc p (.sleepBack wait))
  | .sleepBack wait =>
    .next (((s.setProc p {s.proc p with chan := none}).setPlock p none).setPc p (sleepReturn wait))
  | .wake chan j next =>
    match slot? j with
    | some i =>
      if i=p then .next (s.setPc p (.wake chan (j+1) next))
      else (acquire s c i).bind fun s => .next (s.setPc p (.wakeLook chan i next))
    | none => .next (s.setPc p next.pc)
  | .wakeLook chan i next =>
    .next (((s.setProc i (wakeupProc true s.ticks chan (s.proc i))).setPlock i none).setPc p
      (.wake chan (i.val+1) next))
  | .killScan pid k =>
    match slot? k with
    | some i => (acquire s c i).bind fun s => .next (s.setPc p (.killLook pid i))
    | none => .next (s.setPc p .user)
  | .killLook pid i =>
    if (s.proc i).pid=pid then
      .next (((s.setProc i (killProc (s.proc i))).setPlock i none).setPc p .user)
    else .next ((s.setPlock i none).setPc p (.killScan pid (i.val+1)))
  | .forkScan k =>
    match slot? k with
    | some i => (acquire s c i).bind fun s => .next (s.setPc p (.forkLook i))
    | none => .next (s.setPc p .user)
  | .forkLook i => .next (forkLookStep s p i memory)
  | .forkLink np => (acquireWait s c).bind fun s => .next (s.setPc p (.forkLinked np))
  | .forkLinked np =>
    .next (((s.setProc np {s.proc np with parent := some p}).setWaitLock none).setPc p
      (.forkReady np))
  | .forkReady np => (acquire s c np).bind fun s => .next (s.setPc p (.forkHold np))
  | .forkHold np =>
    .next (((s.setProc np {s.proc np with state := .runnable}).setPlock np none).setPc p .user)
  | .exitLock status => (acquireWait s c).bind fun s => .next (s.setPc p (.exitReparent status 0))
  | .exitReparent status k =>
    match slot? k with
    | some i =>
      if (s.proc i).parent=some p then
        .next ((s.setProc i {s.proc i with parent := some initproc}).setPc p
          (.wake (some (.proc initproc)) 0 (.reparent status (k+1))))
      else .next (s.setPc p (.exitReparent status (k+1)))
    | none => .next (s.setPc p (.wake ((s.proc p).parent.map .proc) 0 (.finish status)))
  | .exitFinish status => (acquire s c p).bind fun s => .next (s.setPc p (.exitHold status))
  | .exitHold status =>
    .next (((s.setProc p (exitProc status s.ticks (s.proc p))).setWaitLock none).setPc p .exitSched)
  | .exitSched => (sched s c p).bind fun s => .next (s.setPc p .exited)
  | .exited => .panic "zombie exit"
  | .waitLock addr => (acquireWait s c).bind fun s => .next (s.setPc p (.waitScan addr 0 false))
  | .waitScan addr k havekids =>
    match slot? k with
    | some i =>
      if (s.proc i).parent=some p then
        (acquire s c i).bind fun s => .next (s.setPc p (.waitLook addr i))
      else .next (s.setPc p (.waitScan addr (k+1) havekids))
    | none => .next (s.setPc p (.waitCheck addr havekids))
  | .waitLook addr i => .next (waitLookStep s p i addr)
  | .waitCheck addr havekids =>
    -- killed(p) holds p->lock for its one read
    if havekids=false then .next ((s.setWaitLock none).setPc p .user)
    else if s.plock p≠none then .blocked
    else if (s.proc p).killed then .next ((s.setWaitLock none).setPc p .user)
    else .next (s.setPc p (.waitSleep addr))
  | .waitSleep addr => (acquire s c p).bind fun s => .next (s.setPc p (.waitHold addr))
  | .waitHold addr => .next ((s.setWaitLock none).setPc p (.sleepHold (.proc p) (some addr)))

/-- The next section of the process on a CPU. -/
def runStep (s : Cpus) (c : ℕ) (p : Slot) (memory : Memory) : Outcome Cpus :=
  match s.mode p with
  | .normal => threadStep s c p memory (s.pc p)
  | .yielding =>
    (sched (s.setProc p {s.proc p with state := .runnable}) c p).bind fun s =>
      .next (s.setMode p .yielded)
  | .yielded => .next ((s.setPlock p none).setMode p .normal)

/-- Whether a kernel thread is outside the calls modelled here. -/
def Pc.isUser : Pc→Bool
  | .user => true
  | _ => false

/-- Whether a kernel thread holds no spinlock, so that interrupts are on. -/
def Pc.preemptible : Pc→Bool
  | .user | .killScan _ _ | .forkScan _ | .forkLink _ | .forkReady _ | .exitLock _
  | .waitLock _ => true
  | _ => false

def callPc (p : Slot) : Call→Outcome Pc
  | .fork => .next (.forkScan 0)
  | .exit status => if p=initproc then .panic "init exiting" else .next (.exitLock status)
  | .wait addr => .next (.waitLock addr)
  | .kill pid => .next (.killScan pid 0)

def interruptible (s : Cpus) : Ctx→Bool
  | .loop | .scan _ _ | .chosen _ => true
  | .run p => s.mode p=.normal ∧ (s.pc p).preemptible
  | _ => false

def startStep (s : Cpus) (c : ℕ) (p : Slot) : Act→Outcome Cpus
  | .timer =>
    if interruptible s (.run p) then
      (acquire s c p).bind fun s => .next (s.setMode p .yielding)
    else .blocked
  | .call call =>
    if s.mode p=.normal ∧ (s.pc p).isUser then
      (callPc p call).bind fun pc => .next (s.setPc p pc)
    else .blocked
  | .sleepOn addr =>
    if s.mode p=.normal ∧ (s.pc p).isUser then
      (acquire s c p).bind fun s => .next (s.setPc p (.sleepHold (.other addr) none))
    else .blocked
  | _ => .blocked

/-- A step of a CPU. -/
def cpuStep (s : Cpus) (a : ℕ×Act) : Outcome Cpus :=
  let c := a.1
  match a.2 with
  | .tick => .next {s with ticks := s.ticks+1}
  | .account i rtime stime wtime staticPriority =>
    .next (s.setProc i {s.proc i with
      rtime := rtime,stime := stime,wtime := wtime,staticPriority := staticPriority})
  | .wakeup addr =>
    if s.wakeup c=.idle ∧ interruptible s (s.ctx c) then
      .next (s.setWakeup c (.scan (.other addr) 0))
    else .blocked
  | .go memory =>
    if s.wakeup c=.idle then
      match s.ctx c with
      | .run p => runStep s c p memory
      | x => schedulerStep s c x
    else wakeupStep s c (s.wakeup c)
  | b =>
    if s.wakeup c=.idle then
      match s.ctx c with
      | .run p => startStep s c p b
      | _ => .blocked
    else .blocked

/-- The machine after userinit: every CPU is about to schedule. -/
def bootCpus : Cpus where
  proc := bootSys.proc
  nextpid := 2
  ticks := 0
  waitLock := none
  plock := fun _ => none
  cproc := fun _ => none
  ctx := fun _ => .loop
  wakeup := fun _ => .idle
  pc := fun _ => .forkret
  mode := fun _ => .normal

end Xv6Riscv.SchedMachine
