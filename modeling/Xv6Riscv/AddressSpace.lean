import Xv6Riscv.PageTables

/-!
# User memory of kernel/vm.c and the traps that repair it

Growing, shrinking, copying and freeing user memory, the two routines that
break copy-on-write sharing, and the copies between kernel and user memory.
uvmcopy comes in two versions: the one of this kernel, which shares the
parent's pages, and the one it replaces, which copies them.
-/

namespace Xv6Riscv.AddressSpace

open Transition RadixTree PageAllocator PageTables

def pgRoundUp (a : ℕ) : ℕ := (a+pgsize-1)%2^64/pgsize*pgsize

def pageCount (sz : ℕ) : ℕ := pgRoundUp sz/pgsize

def userPerm (w x : Bool) : Perm := ⟨true,w,x,true,false⟩

/-- uvmdealloc of kernel/vm.c. -/
def uvmdealloc (k : Kmem) (pt : PageTable) (oldsz newsz : ℕ) : Outcome (Kmem×PageTable×ℕ) :=
  if newsz≥oldsz then .next (k,pt,oldsz)
  else if pgRoundUp newsz<pgRoundUp oldsz then
    (uvmunmap k pt (pgRoundUp newsz) ((pgRoundUp oldsz-pgRoundUp newsz)/pgsize) true).bind
      fun s => .next (s.1,s.2,newsz)
  else .next (k,pt,newsz)

/-- The end of uvmalloc when memory runs out: give back what it mapped. -/
def allocUndo (k : Kmem) (pt : PageTable) (a start : ℕ) : Outcome (Kmem×PageTable×Bool) :=
  (uvmdealloc k pt (a*pgsize) (start*pgsize)).bind fun s => .next (s.1,s.2.1,false)

/-- The loop of uvmalloc over n pages from page a on; it started at page
start. -/
def allocLoop (k : Kmem) (pt : PageTable) (perm : Perm) (start a : ℕ) :
    ℕ→Outcome (Kmem×PageTable×Bool)
  | 0 => .next (k,pt,true)
  | n+1 =>
    match kalloc k with
    | (none,k') => allocUndo k' pt a start
    | (some p,k') =>
      (mappages (k'.store p (fill 0)) pt (a*pgsize) pgsize p perm).bind fun
        | (k'',pt',true) => allocLoop k'' pt' perm start (a+1) n
        | (k'',pt',false) => (kfree k'' p).bind fun k''' => allocUndo k''' pt' a start

/-- uvmalloc of kernel/vm.c; the result 0 reports an error. -/
def uvmalloc (k : Kmem) (pt : PageTable) (oldsz newsz : ℕ) (w x : Bool) :
    Outcome (Kmem×PageTable×ℕ) :=
  if newsz<oldsz then .next (k,pt,oldsz)
  else
    (allocLoop k pt (userPerm w x) (pageCount oldsz) (pageCount oldsz)
      ((newsz-pgRoundUp oldsz+pgsize-1)/pgsize)).bind fun
      | (k',pt',true) => .next (k',pt',newsz)
      | (k',pt',false) => .next (k',pt',0)

def uvmfree (k : Kmem) (pt : PageTable) (sz : ℕ) : Outcome Kmem :=
  (if 0<sz then uvmunmap k pt 0 (pageCount sz) true else .next (k,pt)).bind fun s =>
    freewalk s.1 s.2

/-- proc_pagetable of kernel/proc.c for a process with this trapframe page. -/
def procPagetable (k : Kmem) (page : ℕ) : Outcome (Kmem×Option PageTable) :=
  match uvmcreate k with
  | (none,k') => .next (k',none)
  | (some pt,k') =>
    (mappages k' pt (trampoline*pgsize) pgsize k.text ⟨true,false,true,false,false⟩).bind fun
      | (k1,pt1,false) => (uvmfree k1 pt1 0).bind fun k2 => .next (k2,none)
      | (k1,pt1,true) =>
        (mappages k1 pt1 (trapframe*pgsize) pgsize page ⟨true,true,false,false,false⟩).bind fun
          | (k2,pt2,false) =>
            (uvmunmap k2 pt2 (trampoline*pgsize) 1 false).bind fun s =>
              (uvmfree s.1 s.2 0).bind fun k3 => .next (k3,none)
          | (k2,pt2,true) => .next (k2,some pt2)

def procFreepagetable (k : Kmem) (pt : PageTable) (sz : ℕ) : Outcome Kmem :=
  (uvmunmap k pt (trampoline*pgsize) 1 false).bind fun s =>
    (uvmunmap s.1 s.2 (trapframe*pgsize) 1 false).bind fun s' => uvmfree s'.1 s'.2 sz

/-- uvmcopy shares the pages or copies them. -/
inductive CopyMode where
  | cow
  | eager
  deriving DecidableEq

/-- declarations of kernel/vm.c: mark a PTE and count one more reference. -/
def declarations (k : Kmem) (old : PageTable) (i : ℕ) (e : Pte) : Kmem×PageTable×Pte :=
  let e' := {e with cow := true,w := false}
  ({k with refCnt := Function.update k.refCnt e.ppn (k.refCnt e.ppn+1)},
    put old (px i) (some e'),e')

/-- The label err of uvmcopy: unmap the pages before page i. -/
def copyUndo (k : Kmem) (old new : PageTable) (i : ℕ) :
    Outcome (Kmem×PageTable×PageTable×Bool) :=
  (uvmunmap k new 0 i true).bind fun s => .next (s.1,old,s.2,false)

/-- The body of uvmcopy's loop for the valid PTE e of page i: the new state,
and whether the loop goes on. -/
def copyPage (mode : CopyMode) (k : Kmem) (old new : PageTable) (i : ℕ) (e : Pte) :
    Outcome (Kmem×PageTable×PageTable×Bool) :=
  match mode with
  | .cow =>
    let d := declarations k old i e
    (mappages d.1 new (i*pgsize) pgsize d.2.2.ppn d.2.2.toPerm).bind fun
      | (k',new',true) => .next (k',d.2.1,new',true)
      | (k',new',false) => copyUndo k' d.2.1 new' i
  | .eager =>
    match kalloc k with
    | (none,k') => copyUndo k' old new i
    | (some p,k') =>
      (mappages (k'.store p (k'.mem e.ppn)) new (i*pgsize) pgsize p e.toPerm).bind fun
        | (k'',new',true) => .next (k'',old,new',true)
        | (k'',new',false) => (kfree k'' p).bind fun k''' => copyUndo k''' old new' i

/-- The loop of uvmcopy over n pages from page i on. -/
def copyLoop (mode : CopyMode) (k : Kmem) (old new : PageTable) (i : ℕ) :
    ℕ→Outcome (Kmem×PageTable×PageTable×Bool)
  | 0 => .next (k,old,new,true)
  | n+1 =>
    (walk old i).bind fun
      | none => .panic "uvmcopy: pte should exist"
      | some none => .panic "uvmcopy: page not present"
      | some (some e) =>
        (copyPage mode k old new i e).bind fun
          | (k',old',new',true) => copyLoop mode k' old' new' (i+1) n
          | (k',old',new',false) => .next (k',old',new',false)

/-- uvmcopy of kernel/vm.c; false stands for the result -1. -/
def uvmcopy (mode : CopyMode) (k : Kmem) (old new : PageTable) (sz : ℕ) :
    Outcome (Kmem×PageTable×PageTable×Bool) :=
  copyLoop mode k old new 0 ((sz+pgsize-1)/pgsize)

def uvmclear (pt : PageTable) (v : ℕ) : Outcome PageTable :=
  (walk pt v).bind fun
    | none => .panic "uvmclear"
    | some none => .next pt
    | some (some e) => .next (put pt (px v) (some {e with u := false}))

/-- Break the sharing of a COW page by copying it, the common part of
handle_cowbit and handle_trap_cow; false stands for a failed kalloc. -/
def breakCow (k : Kmem) (pt : PageTable) (v : ℕ) (e : Pte) : Outcome (Kmem×PageTable×Bool) :=
  match kalloc k with
  | (none,k') => .next (k',pt,false)
  | (some p,k') =>
    (kfree (k'.store p (k'.mem e.ppn)) e.ppn).bind fun k'' =>
      .next (k'',put pt (px v) (some {e with w := true,cow := false,ppn := p}),true)

/-- handle_cowbit of kernel/vm.c; on false the process exits. -/
def handleCowbit (k : Kmem) (pt : PageTable) (v : ℕ) (e : Pte) : Outcome (Kmem×PageTable×Bool) :=
  if e.cow then breakCow k pt v e else .next (k,pt,true)

/-- handle_trap_cow of kernel/trap.c; on false the process exits. -/
def handleTrapCow (k : Kmem) (pt : PageTable) (v : ℕ) (e : Pte) :
    Outcome (Kmem×PageTable×Bool) :=
  if e.cow ∧ k.refCnt e.ppn≠1 then breakCow k pt v e
  else if e.cow ∧ k.refCnt e.ppn=1 then
    .next (k,put pt (px v) (some {e with cow := false,w := true}),true)
  else .next (k,pt,true)

/-- walkaddr of kernel/vm.c: the physical page, absent for the result 0. -/
def walkaddr (pt : PageTable) (v : ℕ) : Option ℕ :=
  if maxPages≤v then none
  else (lookup pt v).bind fun e => if e.u then some e.ppn else none

def writeBytes (d : Page) (off : ℕ) (bs : List UInt8) : Page :=
  fun i => if off≤ i.val ∧ i.val<off+bs.length then bs.getD (i.val-off) 0 else d i

def readBytes (d : Page) (off n : ℕ) : List UInt8 :=
  (List.range n).map fun i => if h : off+i<pgsize then d ⟨off+i,h⟩ else 0

/-- copyout returns 0 or -1, or the process exits inside it. -/
inductive CopyResult where
  | done
  | failed
  | exited
  deriving DecidableEq

/-- The loop of copyout; every round copies at least one byte, so the number
of bytes bounds the rounds. -/
def copyoutLoop (k : Kmem) (pt : PageTable) (dstva : ℕ) (src : List UInt8) :
    ℕ→Outcome (Kmem×PageTable×CopyResult)
  | 0 => .next (k,pt,.done)
  | fuel+1 =>
    if src=[] then .next (k,pt,.done)
    else
      let v := dstva/pgsize
      if maxPages≤v ∨ v=0 then .next (k,pt,.failed)
      else
        match lookup pt v with
        | none => .next (k,pt,.failed)
        | some e =>
          if e.u=false then .next (k,pt,.failed)
          else
            (handleCowbit k pt v e).bind fun
              | (k',pt',false) => .next (k',pt',.exited)
              | (k',pt',true) =>
                match walkaddr pt' v with
                | none => .next (k',pt',.failed)
                | some p =>
                  let off := dstva%pgsize
                  let n := min (pgsize-off) src.length
                  copyoutLoop (k'.store p (writeBytes (k'.mem p) off (src.take n))) pt'
                    ((v+1)*pgsize) (src.drop n) fuel

/-- copyout of kernel/vm.c. -/
def copyout (k : Kmem) (pt : PageTable) (dstva : ℕ) (src : List UInt8) :
    Outcome (Kmem×PageTable×CopyResult) := copyoutLoop k pt dstva src src.length

def copyinLoop (k : Kmem) (pt : PageTable) (srcva len : ℕ) : ℕ→Option (List UInt8)
  | 0 => some []
  | fuel+1 =>
    if len=0 then some []
    else
      match walkaddr pt (srcva/pgsize) with
      | none => none
      | some p =>
        let off := srcva%pgsize
        let n := min (pgsize-off) len
        (copyinLoop k pt ((srcva/pgsize+1)*pgsize) (len-n) fuel).map
          (readBytes (k.mem p) off n++·)

/-- copyin of kernel/vm.c: the bytes it copies, absent for the result -1. -/
def copyin (k : Kmem) (pt : PageTable) (srcva len : ℕ) : Option (List UInt8) :=
  copyinLoop k pt srcva len len

def pageOffset (va : ℕ) : Fin pgsize := ⟨va%pgsize,Nat.mod_lt _ (by decide)⟩

/-- What a load of user code gets. -/
def userLoad (k : Kmem) (pt : PageTable) (va : ℕ) : Option UInt8 :=
  if maxPages≤va/pgsize then none
  else (lookup pt (va/pgsize)).bind fun e =>
    if e.u && e.r then some (k.mem e.ppn (pageOffset va)) else none

/-- A store through a PTE that allows it; absent for a fault. -/
def storeThrough (k : Kmem) (e : Pte) (va : ℕ) (b : UInt8) : Option Kmem :=
  if e.u && e.w then some (k.store e.ppn (writeBytes (k.mem e.ppn) (va%pgsize) [b])) else none

/-- A user store with usertrap on a fault. After the trap the instruction is
executed once more; a store that still faults changes nothing. A walk to a
missing page-table page makes handle_trap_cow read through a null pointer. -/
def userStore (k : Kmem) (pt : PageTable) (va : ℕ) (b : UInt8) : Outcome (Kmem×PageTable×Bool) :=
  if maxPages≤va/pgsize then .next (k,pt,false)
  else
    match (lookup pt (va/pgsize)).bind (storeThrough k · va b) with
    | some k' => .next (k',pt,true)
    | none =>
      if va=0 then .next (k,pt,false)
      else
        match cell pt (px (va/pgsize)) with
        | none => .panic "kerneltrap"
        | some none => .next (k,pt,true)
        | some (some e) =>
          (handleTrapCow k pt (va/pgsize) e).bind fun
            | (k',pt',false) => .next (k',pt',false)
            | (k',pt',true) =>
              match (lookup pt' (va/pgsize)).bind (storeThrough k' · va b) with
              | some k'' => .next (k'',pt',true)
              | none => .next (k',pt',true)

end Xv6Riscv.AddressSpace
