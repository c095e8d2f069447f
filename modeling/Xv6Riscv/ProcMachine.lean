import Xv6Riscv.Transition

/-!
# The process table of kernel/proc.c and its locks

fork, exit, wait and kill are taken one critical section at a time. A section
under a p->lock is one step; wait_lock is held across the steps of exit and
wait, so its holder is part of the state. The loops over the table (allocproc,
reparent, wakeup, wait and kill) are program counters that visit one slot a
step, and the scheduler, timer yields and sleeps elsewhere in the kernel may
come between any two steps. The section in which exit makes its process a
ZOMBIE ends when the scheduler releases the process's lock.

Address spaces, open files and the working directory belong to other modules;
whether their allocation succeeds is a choice of the step. The trace of calls
and returns is specification state that no branch of the code reads.
-/

namespace Xv6Riscv.ProcMachine

open Transition

def nproc : ℕ := 64

instance : NeZero nproc := ⟨by decide⟩

/-- A slot of the array proc[NPROC]; also a struct proc pointer. -/
abbrev Slot := Fin nproc

/-- enum procstate. -/
inductive ProcState where
  | unused
  | used
  | sleeping
  | runnable
  | running
  | zombie
  deriving DecidableEq

inductive Chan where
  | proc (p : Slot)
  | other (addr : ℕ)
  deriving DecidableEq

/-- The fields of struct proc that the process-table code reads and writes. -/
structure Proc where
  state : ProcState
  chan : Option Chan
  killed : Bool
  xstate : Int32
  pid : ℤ
  parent : Option Slot
  rtime : UInt32
  ctime : UInt32
  etime : UInt32
  noOfTimesScheduled : UInt32
  sStartTime : UInt32
  stime : UInt32
  wtime : UInt32
  rbi : UInt32
  staticPriority : UInt32
  deriving DecidableEq

def defaultPriority : UInt32 := 50

def zeroProc : Proc := ⟨.unused,none,false,0,0,none,0,0,0,0,0,0,0,0,0⟩

/-- The fields that freeproc clears. -/
def freeproc (p : Proc) : Proc :=
  {p with pid := 0,parent := none,chan := none,killed := false,xstate := 0,state := .unused}

/-- allocproc from the label found to its return, less the pages. -/
def allocFound (p : Proc) (pid : ℤ) (ticks : UInt32) : Proc :=
  {p with
    pid := pid
    state := .used
    rtime := 0
    etime := 0
    ctime := ticks
    noOfTimesScheduled := 0
    wtime := 0
    staticPriority := defaultPriority
    sStartTime := 0
    stime := 0
    rbi := 25}

/-- wakeup's critical section on one slot. The stime assignment is compiled
only under PBS. -/
def wakeupProc (pbs : Bool) (ticks : UInt32) (chan : Option Chan) (p : Proc) : Proc :=
  if p.state=.sleeping ∧ p.chan=chan then
    {p with state := .runnable,stime := if pbs then ticks-p.sStartTime else p.stime}
  else p

/-- What kill does to a process with the pid. -/
def killProc (p : Proc) : Proc :=
  {p with killed := true,state := if p.state=.sleeping then .runnable else p.state}

/-- sleep from acquiring p->lock to the scheduler's release of it. -/
def sleepProc (pbs : Bool) (ticks : UInt32) (chan : Chan) (p : Proc) : Proc :=
  {p with
    chan := some chan
    state := .sleeping
    sStartTime := if pbs then ticks else p.sStartTime}

/-- The scheduler's section on the slot it enters. A process that slept
clears its channel before the lock is released; one that yielded has none. -/
def runProc (pbs : Bool) (p : Proc) : Proc :=
  {p with
    state := .running
    chan := none
    noOfTimesScheduled := if pbs then p.noOfTimesScheduled+1 else p.noOfTimesScheduled}

def exitProc (status : Int32) (ticks : UInt32) (p : Proc) : Proc :=
  {p with xstate := status,state := .zombie,etime := ticks}

inductive StatusAddr where
  | null
  | valid
  | bad
  deriving DecidableEq

/-- Where a process is in a system call. -/
inductive Pc where
  | user
  | forkScan (k : ℕ)
  | forkLink (np : Slot) (pid : ℤ)
  | forkReady (np : Slot) (pid : ℤ)
  | exitLock (status : Int32)
  | exitReparent (status : Int32) (k : ℕ)
  | exitReparentWake (status : Int32) (k j : ℕ)
  | exitWake (status : Int32) (chan : Option Chan) (j : ℕ)
  | exitFinish (status : Int32)
  | waitLock (addr : StatusAddr)
  | waitScan (addr : StatusAddr) (k : ℕ) (havekids : Bool)
  | waitCheck (addr : StatusAddr) (havekids : Bool)
  | waitSleep (addr : StatusAddr)
  | killScan (pid : ℤ) (k : ℕ)
  deriving DecidableEq

/-- What calls have returned, for the statements. -/
inductive Event where
  | created (np : Slot) (pid : ℤ)
  | forkReturned (p np : Slot) (pid : ℤ)
  | forkFailed (p : Slot)
  | becameZombie (i : Slot) (pid : ℤ) (xstate : Int32)
  | waitReturned (w i : Slot) (pid : ℤ) (status : Option Int32)
  | waitFailed (w : Slot)
  | killReturned (c : Slot) (pid : ℤ) (i : Slot)
  | killFailed (c : Slot) (pid : ℤ)
  deriving DecidableEq

/-- The process table with its locks and program counters. -/
structure ProcSys where
  proc : Slot→Proc
  nextpid : ℤ
  ticks : UInt32
  waitLock : Option Slot
  pc : Slot→Pc
  trace : List Event

def initproc : Slot := ⟨0,by decide⟩

def firstProc : Proc := {allocFound zeroProc 1 0 with state := .runnable}

def bootSys : ProcSys where
  proc := Function.update (fun _ => zeroProc) initproc firstProc
  nextpid := 2
  ticks := 0
  waitLock := none
  pc := fun _ => .user
  trace := []

inductive Call where
  | fork
  | exit (status : Int32)
  | wait (addr : StatusAddr)
  | kill (pid : ℤ)
  deriving DecidableEq

inductive ProcAction where
  | call (w : Slot) (c : Call)
  | advance (w : Slot) (memory : Bool)
  | schedule (w : Slot)
  | yield (w : Slot)
  | sleepOn (w : Slot) (addr : ℕ)
  | wakeOther (addr : ℕ) (i : Slot)
  | tick

def setProc (s : ProcSys) (i : Slot) (p : Proc) : ProcSys :=
  {s with proc := Function.update s.proc i p}

def setPc (s : ProcSys) (w : Slot) (pc : Pc) : ProcSys :=
  {s with pc := Function.update s.pc w pc}

def finish (s : ProcSys) (w : Slot) (e : Event) : ProcSys :=
  {setPc s w .user with trace := e::s.trace}

/-- The instruction divu of RISC-V, which does not trap on a divisor 0. -/
def divu (x y : UInt32) : UInt32 := if y=0 then 0xffffffff else x/y

def slot? (k : ℕ) : Option Slot := if h : k<nproc then some ⟨k,h⟩ else none

/-- allocproc's section on slot k, and on success the rest of fork's section
under np->lock. -/
def forkScanStep (s : ProcSys) (w : Slot) (k : ℕ) (memory : Bool) : ProcSys :=
  match slot? k with
  | none => finish s w (.forkFailed w)
  | some np =>
    if (s.proc np).state=.unused then
      let pid := s.nextpid
      let found := allocFound (s.proc np) pid s.ticks
      let s' := {s with nextpid := s.nextpid+1}
      if memory then
        let s'' := setPc (setPc (setProc s' np found) np .user) w (.forkLink np pid)
        {s'' with trace := .created np pid::s.trace}
      else finish (setProc s' np (freeproc found)) w (.forkFailed w)
    else setPc s w (.forkScan (k+1))

/-- What wait does with slot k of the table. -/
def waitScanStep (s : ProcSys) (w : Slot) (addr : StatusAddr) (k : ℕ) (havekids : Bool) :
    ProcSys :=
  match slot? k with
  | none => setPc s w (.waitCheck addr havekids)
  | some i =>
    if (s.proc i).parent=some w then
      if (s.proc i).state=.zombie then
        if addr=.bad then {finish s w (.waitFailed w) with waitLock := none}
        else
          let status := if addr=.valid then some (s.proc i).xstate else none
          let s' := finish (setProc s i (freeproc (s.proc i))) w
            (.waitReturned w i (s.proc i).pid status)
          {s' with waitLock := none}
      else setPc s w (.waitScan addr (k+1) true)
    else setPc s w (.waitScan addr (k+1) havekids)

/-- What reparent does with slot k. -/
def reparentStep (s : ProcSys) (w : Slot) (status : Int32) (k : ℕ) : ProcSys :=
  match slot? k with
  | none => setPc s w (.exitWake status ((s.proc w).parent.map Chan.proc) 0)
  | some i =>
    if (s.proc i).parent=some w then
      setPc (setProc s i {s.proc i with parent := some initproc}) w (.exitReparentWake status k 0)
    else setPc s w (.exitReparent status (k+1))

/-- What kill does with slot k. -/
def killScanStep (s : ProcSys) (w : Slot) (pid : ℤ) (k : ℕ) : ProcSys :=
  match slot? k with
  | none => finish s w (.killFailed w pid)
  | some i =>
    if (s.proc i).pid=pid then
      finish (setProc s i (killProc (s.proc i))) w (.killReturned w pid i)
    else setPc s w (.killScan pid (k+1))

/-- One iteration of a wakeup loop run by process w: look at slot j, then go
on with the loop or with what follows it. -/
def wakeupStep (pbs : Bool) (s : ProcSys) (w : Slot) (chan : Option Chan) (j : ℕ)
    (again after : Pc) : ProcSys :=
  match slot? j with
  | none => setPc s w after
  | some i =>
    if i=w then setPc s w again
    else setPc (setProc s i (wakeupProc pbs s.ticks chan (s.proc i))) w again

/-- The next section of the call that a process is in. -/
def advanceStep (pbs : Bool) (s : ProcSys) (w : Slot) (memory : Bool) : Outcome ProcSys :=
  match s.pc w with
  | .user => .blocked
  | .forkScan k => .next (forkScanStep s w k memory)
  | .forkLink np pid =>
    if s.waitLock=none then
      .next (setPc (setProc s np {s.proc np with parent := some w}) w (.forkReady np pid))
    else .blocked
  | .forkReady np pid =>
    .next (finish (setProc s np {s.proc np with state := .runnable}) w (.forkReturned w np pid))
  | .exitLock status =>
    if s.waitLock=none then
      .next {setPc s w (.exitReparent status 0) with waitLock := some w}
    else .blocked
  | .exitReparent status k => .next (reparentStep s w status k)
  | .exitReparentWake status k j =>
    .next (wakeupStep pbs s w (some (.proc initproc)) j (.exitReparentWake status k (j+1))
      (.exitReparent status (k+1)))
  | .exitWake status chan j =>
    .next (wakeupStep pbs s w chan j (.exitWake status chan (j+1)) (.exitFinish status))
  | .exitFinish status =>
    let s' := setProc s w (exitProc status s.ticks (s.proc w))
    .next {finish s' w (.becameZombie w (s.proc w).pid status) with waitLock := none}
  | .waitLock addr =>
    if s.waitLock=none then
      .next {setPc s w (.waitScan addr 0 false) with waitLock := some w}
    else .blocked
  | .waitScan addr k havekids => .next (waitScanStep s w addr k havekids)
  | .waitCheck addr havekids =>
    if havekids=false ∨ (s.proc w).killed then
      .next {finish s w (.waitFailed w) with waitLock := none}
    else .next (setPc s w (.waitSleep addr))
  | .waitSleep addr =>
    let s' := setProc s w (sleepProc pbs s.ticks (.proc w) (s.proc w))
    .next {setPc s' w (.waitLock addr) with waitLock := none}
  | .killScan pid k => .next (killScanStep s w pid k)

def callStep (s : ProcSys) (w : Slot) : Call→Outcome ProcSys
  | .fork => .next (setPc s w (.forkScan 0))
  | .exit status =>
    if w=initproc then .panic "init exiting" else .next (setPc s w (.exitLock status))
  | .wait addr => .next (setPc s w (.waitLock addr))
  | .kill pid => .next (setPc s w (.killScan pid 0))

/-- A process may sleep elsewhere while no spinlock of these calls is held:
in user position, or while exit closes files and drops the directory. -/
def Pc.maySleep : Pc→Bool
  | .user => true
  | .exitLock _ => true
  | _ => false

/-- The interleaved process-table machine. A process acts only while RUNNING. -/
def procStep (pbs : Bool) (s : ProcSys) : ProcAction→Outcome ProcSys
  | .call w c =>
    if (s.proc w).state=.running ∧ s.pc w=.user then callStep s w c else .blocked
  | .advance w memory =>
    if (s.proc w).state=.running then advanceStep pbs s w memory else .blocked
  | .schedule w =>
    if (s.proc w).state=.runnable then
      .next (setProc s w (runProc pbs (s.proc w)))
    else .blocked
  | .yield w =>
    if (s.proc w).state=.running ∧ s.waitLock≠some w then
      .next (setProc s w {s.proc w with state := .runnable})
    else .blocked
  | .sleepOn w addr =>
    if (s.proc w).state=.running ∧ (s.pc w).maySleep then
      .next (setProc s w (sleepProc pbs s.ticks (.other addr) (s.proc w)))
    else .blocked
  | .wakeOther addr i =>
    .next (setProc s i (wakeupProc pbs s.ticks (some (.other addr)) (s.proc i)))
  | .tick => .next {s with ticks := s.ticks+1}

end Xv6Riscv.ProcMachine
