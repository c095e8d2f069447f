import Xv6Riscv.ExecImage
import Xv6Riscv.ProcMachine

/-!
# The memory of all processes

The state is physical memory with its allocator, the memory of each process
and the pages that the kernel holds for itself (its own page table and stacks,
pipe buffers, exec arguments). One action is one system call, one user load or
store with the trap it causes, or one step of the kernel. The machine is
parametrised by the version of uvmcopy that fork uses.
-/

namespace Xv6Riscv.VmMachine

open Transition PageAllocator PageTables AddressSpace ExecImage ProcMachine

inductive Phase where
  | running
  | killed
  | zombie
  deriving DecidableEq

/-- A process: its table, size, trapframe, phase and pages without PTE_W. -/
structure VmProc where
  pagetable : PageTable
  sz : ℕ
  trapframe : ℕ
  phase : Phase
  ro : ℕ→Bool

/-- The allocator, the processes and the pages that other kernel code holds. -/
structure VmSys where
  kmem : Kmem
  proc : Slot→Option VmProc
  kernel : List ℕ

/-- What processes and the rest of the kernel do to memory. -/
inductive Action where
  | kernelAlloc
  | kernelFree (i : ℕ)
  | fork (p : Slot)
  | load (p : Slot) (va : ℕ)
  | store (p : Slot) (va : ℕ) (b : UInt8)
  | copyout (p : Slot) (dstva : ℕ) (src : List UInt8)
  | copyin (p : Slot) (srcva len : ℕ)
  | sbrk (p : Slot) (n : BitVec 32)
  | exec (p : Slot) (file : List UInt8) (argv : List (List UInt8))
  | exit (p : Slot)
  | teardown (p : Slot)

def VmSys.set (s : VmSys) (k : Kmem) (p : Slot) (q : Option VmProc) : VmSys :=
  {s with
    kmem := k
    proc := Function.update s.proc p q}

def freeSlot (s : VmSys) : Option Slot := (List.finRange nproc).find? fun i => (s.proc i).isNone

/-- The memory that allocproc gives to a process: a trapframe and a page table. -/
def allocproc (k : Kmem) : Outcome (Kmem×Option (ℕ×PageTable)) :=
  match kalloc k with
  | (none,k1) => .next (k1,none)
  | (some page,k1) =>
    (procPagetable k1 page).bind fun
      | (k2,none) => (kfree k2 page).bind fun k3 => .next (k3,none)
      | (k2,some pt) => .next (k2,some (page,pt))

/-- freeproc of kernel/proc.c, the part about memory. -/
def freeproc (k : Kmem) (page : ℕ) (pt : PageTable) (sz : ℕ) : Outcome Kmem :=
  (kfree k page).bind fun k1 => procFreepagetable k1 pt sz

/-- fork of kernel/proc.c, the part about memory. -/
def fork (mode : CopyMode) (s : VmSys) (p : Slot) (q : VmProc) : Outcome VmSys :=
  match freeSlot s with
  | none => .next s
  | some np =>
    (allocproc s.kmem).bind fun
      | (k1,none) => .next {s with kmem := k1}
      | (k1,some (page,pt)) =>
        (uvmcopy mode k1 q.pagetable pt q.sz).bind fun
          | (k2,old,new,false) =>
            (freeproc k2 page new 0).bind fun k3 => .next (s.set k3 p (some {q with pagetable := old}))
          | (k2,old,new,true) =>
            .next ((s.set k2 p (some {q with pagetable := old})).set k2 np
              (some ⟨new,q.sz,page,.running,q.ro⟩))

def addInt (sz : ℕ) (n : BitVec 32) : ℕ := (((sz : ℤ)+n.toInt)%2^64).toNat

/-- growproc of kernel/proc.c: a new size, and the old one when it fails. -/
def growproc (k : Kmem) (pt : PageTable) (sz : ℕ) (n : BitVec 32) : Outcome (Kmem×PageTable×ℕ) :=
  if 0<n.toInt then
    (uvmalloc k pt sz (addInt sz n) true false).bind fun r =>
      .next (r.1,r.2.1,if r.2.2=0 then sz else r.2.2)
  else if n.toInt<0 then uvmdealloc k pt sz (addInt sz n)
  else .next (k,pt,sz)

def grown (sz : ℕ) (n : BitVec 32) : ℕ :=
  if 0<n.toInt then addInt sz n else if n.toInt<0 then min sz (addInt sz n) else sz

def readOnly (pt : PageTable) (v : ℕ) : Bool := (lookup pt v).any fun e => !e.w

def VmProc.after (q : VmProc) (alive : Bool) : VmProc :=
  {q with phase := if alive then q.phase else .killed}

/-- The effect of an action of a running process. -/
def act (mode : CopyMode) (s : VmSys) (p : Slot) (q : VmProc) : Action→Outcome VmSys
  | .fork _ => fork mode s p q
  | .load _ va =>
    .next (s.set s.kmem p (some (q.after (userLoad s.kmem q.pagetable va).isSome)))
  | .store _ va b =>
    (userStore s.kmem q.pagetable va b).bind fun r =>
      .next (s.set r.1 p (some ({q with pagetable := r.2.1}.after r.2.2)))
  | .copyout _ dstva src =>
    (copyout s.kmem q.pagetable dstva src).bind fun r =>
      .next (s.set r.1 p (some ({q with pagetable := r.2.1}.after (decide (r.2.2≠CopyResult.exited)))))
  | .copyin _ _ _ => .next s
  | .sbrk _ n =>
    (growproc s.kmem q.pagetable q.sz n).bind fun r =>
      .next (s.set r.1 p (some {q with
        pagetable := r.2.1
        sz := r.2.2}))
  | .exec _ file argv =>
    (exec s.kmem q.pagetable q.sz q.trapframe file argv).bind fun
      | (k,.bad) => .next {s with kmem := k}
      | (k,.exited) => .next (s.set k p (some (q.after false)))
      | (k,.image pt sz _ _) =>
        .next (s.set k p (some ⟨pt,sz,q.trapframe,q.phase,readOnly pt⟩))
  | _ => .blocked

def actor : Action→Option Slot
  | .fork p => some p
  | .load p _ => some p
  | .store p _ _ => some p
  | .copyout p _ _ => some p
  | .copyin p _ _ => some p
  | .sbrk p _ => some p
  | .exec p _ _ => some p
  | _ => none

/-- One step of the memory system. -/
def step (mode : CopyMode) (s : VmSys) (a : Action) : Outcome VmSys :=
  match a with
  | .kernelAlloc =>
    match kalloc s.kmem with
    | (none,k) => .next {s with kmem := k}
    | (some page,k) => .next {s with
        kmem := k
        kernel := page::s.kernel}
  | .kernelFree i =>
    match s.kernel[i]? with
    | none => .blocked
    | some page => (kfree s.kmem page).bind fun k => .next {s with
        kmem := k
        kernel := s.kernel.eraseIdx i}
  | .exit p =>
    match s.proc p with
    | none => .blocked
    | some q =>
      if q.phase=.zombie then .blocked
      else if p=0 then .panic "init exiting"
      else .next (s.set s.kmem p (some {q with phase := .zombie}))
  | .teardown p =>
    match s.proc p with
    | none => .blocked
    | some q =>
      if q.phase=.zombie then
        (freeproc s.kmem q.trapframe q.pagetable q.sz).bind fun k => .next (s.set k p none)
      else .blocked
  | a =>
    match actor a with
    | none => .blocked
    | some p =>
      match s.proc p with
      | none => .blocked
      | some q => if q.phase=.running then act mode s p q a else .blocked

/-- The pages that the kernel takes before the first process. -/
def kernelPages (k : Kmem) (l : List ℕ) : ℕ→Outcome (Kmem×List ℕ)
  | 0 => .next (k,l)
  | n+1 =>
    match kalloc k with
    | (none,_) => .panic "kalloc"
    | (some page,k1) => kernelPages k1 (page::l) n

def initcode : List UInt8 :=
  [0x17,0x05,0x00,0x00,0x13,0x05,0x45,0x02,0x97,0x05,0x00,0x00,0x93,0x85,0x35,0x02,
   0x93,0x08,0x70,0x00,0x73,0x00,0x00,0x00,0x93,0x08,0x20,0x00,0x73,0x00,0x00,0x00,
   0xef,0xf0,0x9f,0xff,0x2f,0x69,0x6e,0x69,0x74,0x00,0x00,0x24,0x00,0x00,0x00,0x00,
   0x00,0x00,0x00,0x00]

/-- uvmfirst of kernel/vm.c for initcode. It does not look at the results of
kalloc and mappages; a null page makes memset fault. -/
def uvmfirst (k : Kmem) (pt : PageTable) : Outcome (Kmem×PageTable) :=
  match kalloc k with
  | (none,_) => .panic "kerneltrap"
  | (some p,k1) =>
    (mappages (k1.store p (fill 0)) pt 0 pgsize p ⟨true,true,true,true,false⟩).bind fun r =>
      .next (r.1.store p (writeBytes (r.1.mem p) 0 initcode),r.2.1)

def userinit (k : Kmem) (kernel : List ℕ) : Outcome VmSys :=
  (allocproc k).bind fun
    | (_,none) => .panic "kerneltrap"
    | (k1,some (page,pt)) =>
      (uvmfirst k1 pt).bind fun r =>
        .next ⟨r.1,fun p => if p=0 then some ⟨r.2,pgsize,page,.running,fun _ => false⟩ else none,
          kernel⟩

/-- main of kernel/main.c: memory starts at page first, the kernel takes n
pages, and the first process is made. -/
def boot (first text n : ℕ) : Outcome VmSys :=
  (kinit first text).bind fun k => (kernelPages k [] n).bind fun r => userinit r.1 r.2

end Xv6Riscv.VmMachine
