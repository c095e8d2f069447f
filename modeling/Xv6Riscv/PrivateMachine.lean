import Xv6Riscv.VmMachine

/-!
# What the memory of processes is for

The same actions as in the machine of page tables, on private address spaces:
fork gives the child a copy, and what one process does is seen by nobody else.
There are no frames, no counts and no lack of memory.
-/

namespace Xv6Riscv.PrivateMachine

open Transition PageAllocator PageTables AddressSpace PrivateSpace ExecImage
open ProcMachine (Slot nproc)
open VmMachine (Action Phase actor grown)

structure PrivateProc where
  space : Space
  sz : ℕ
  phase : Phase

structure PrivateSys where
  proc : Slot→Option PrivateProc
  kernel : ℕ

def PrivateSys.set (t : PrivateSys) (p : Slot) (x : Option PrivateProc) : PrivateSys :=
  {t with proc := Function.update t.proc p x}

def freeSlot (t : PrivateSys) : Option Slot :=
  (List.finRange nproc).find? fun i => (t.proc i).isNone

def PrivateProc.after (x : PrivateProc) (alive : Bool) : PrivateProc :=
  {x with phase := if alive then x.phase else .killed}

/-- Keep the pages below the new size and add zeroed ones up to it. -/
def resize (A : Space) (sz m : ℕ) : Space :=
  (A.truncate (pageCount m)).alloc (pageCount sz) (pageCount m-pageCount sz) true false

def act (t : PrivateSys) (p : Slot) (x : PrivateProc) : Action→Outcome PrivateSys
  | .fork _ =>
    match freeSlot t with
    | none => .next t
    | some np => .next (t.set np (some {x with phase := .running}))
  | .load _ va => .next (t.set p (some (x.after (x.space.load va).isSome)))
  | .store _ va b => .next (t.set p (some {x with space := x.space.store va b}))
  | .copyout _ dstva src =>
    .next (t.set p (some ({x with space := (x.space.copyout dstva src).1}.after
      (decide ((x.space.copyout dstva src).2≠CopyResult.exited)))))
  | .copyin _ _ _ => .next t
  | .sbrk _ n => .next (t.set p (some {x with
      space := resize x.space x.sz (grown x.sz n)
      sz := grown x.sz n}))
  | .exec _ file argv =>
    match execSpace file argv with
    | .error .bad => .next t
    | .error .exited => .next (t.set p (some (x.after false)))
    | .ok (A,sz) => .next (t.set p (some ⟨A,sz,x.phase⟩))
  | _ => .blocked

def step (t : PrivateSys) (a : Action) : Outcome PrivateSys :=
  match a with
  | .kernelAlloc => .next {t with kernel := t.kernel+1}
  | .kernelFree i => if i<t.kernel then .next {t with kernel := t.kernel-1} else .blocked
  | .exit p =>
    match t.proc p with
    | none => .blocked
    | some x =>
      if x.phase=.zombie then .blocked
      else if p=0 then .panic "init exiting"
      else .next (t.set p (some {x with phase := .zombie}))
  | .teardown p =>
    match t.proc p with
    | none => .blocked
    | some x => if x.phase=.zombie then .next (t.set p none) else .blocked
  | a =>
    match actor a with
    | none => .blocked
    | some p =>
      match t.proc p with
      | none => .blocked
      | some x => if x.phase=.running then act t p x a else .blocked

/-- A store is to a page that the program may access and write, and not to
address 0. -/
def LegalStore (t : PrivateSys) : Action→Prop
  | .store p va _ => va≠0 ∧ ∃ x,t.proc p=some x ∧ x.space.w (va/pgsize)=true ∧
      (x.space.access (va/pgsize)).isSome=true
  | _ => True

end Xv6Riscv.PrivateMachine
