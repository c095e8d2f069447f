import Xv6Riscv.PrivateSpace

/-!
# The image that exec of kernel/exec.c builds

exec reads an ELF file and writes the segments, a guard page and a stack with
the arguments through four operations on user memory. It is written here over
these operations, so that the same text runs on page tables, which is the
kernel, and on a private address space, which is what it is for.
-/

namespace Xv6Riscv.ExecImage

open Transition PageAllocator PageTables AddressSpace PrivateSpace

structure ImageOps (σ : Type*) where
  uvmalloc : σ→ℕ→ℕ→Bool→Bool→Outcome (σ×ℕ)
  mapped : σ→ℕ→Bool
  write : σ→ℕ→List UInt8→σ
  uvmclear : σ→ℕ→Outcome σ
  copyout : σ→ℕ→List UInt8→Outcome (σ×CopyResult)

inductive ExecError where
  | bad
  | exited
  deriving DecidableEq

def field (bs : List UInt8) (off n : ℕ) : ℕ :=
  ((bs.drop off).take n).foldr (fun b acc => b.toNat+256*acc) 0

structure ElfHdr where
  magic : ℕ
  entry : ℕ
  phoff : ℕ
  phnum : ℕ

def elfHdr (bs : List UInt8) : ElfHdr := ⟨field bs 0 4,field bs 24 8,field bs 32 8,field bs 56 2⟩

structure ProgHdr where
  type : ℕ
  flags : ℕ
  off : ℕ
  vaddr : ℕ
  filesz : ℕ
  memsz : ℕ

def progHdr (bs : List UInt8) : ProgHdr :=
  ⟨field bs 0 4,field bs 4 4,field bs 8 8,field bs 16 8,field bs 32 8,field bs 40 8⟩

def elfMagic : ℕ := 0x464C457F

def elfProgLoad : ℕ := 1

def maxarg : ℕ := 32

/-- readi as exec calls it: the bytes, absent unless the count is full. -/
def readFull (file : List UInt8) (off n : ℕ) : Option (List UInt8) :=
  if off+n<2^32 ∧ off+n≤file.length then some ((file.drop off).take n) else none

def flags2perm (flags : ℕ) : Bool×Bool := (flags/2%2==1,flags%2==1)

def sub64 (a b : ℕ) : ℕ := (a%2^64+(2^64-b%2^64))%2^64

def bytes64 (n : ℕ) : List UInt8 := (List.range 8).map fun i => UInt8.ofNat (n/256^i)

section Build

variable {σ : Type*} (ops : ImageOps σ)

def loadLoop (file : List UInt8) (va offset sz : ℕ) (s : σ) (i : ℕ) : ℕ→Outcome (σ×Bool)
  | 0 => .next (s,true)
  | c+1 =>
    if ops.mapped s (va/pgsize+i)=false then .panic "loadseg: address should exist"
    else
      match readFull file ((offset+i*pgsize)%2^32) (min (sz-i*pgsize) pgsize) with
      | none => .next (s,false)
      | some bs => loadLoop file va offset sz (ops.write s (va/pgsize+i) bs) (i+1) c

/-- loadseg of kernel/exec.c; offset and sz are 32-bit arguments. -/
def loadseg (file : List UInt8) (s : σ) (va offset sz : ℕ) : Outcome (σ×Bool) :=
  loadLoop ops file va (offset%2^32) (sz%2^32) s 0 ((sz%2^32+pgsize-1)/pgsize)

/-- One segment of the file: the memory and its size, and whether exec goes
on. -/
def loadSegment (file : List UInt8) (s : σ) (sz : ℕ) (ph : ProgHdr) : Outcome (σ×ℕ×Bool) :=
  if ph.memsz<ph.filesz then .next (s,sz,false)
  else if (ph.vaddr+ph.memsz)%2^64<ph.vaddr then .next (s,sz,false)
  else if ph.vaddr%pgsize≠0 then .next (s,sz,false)
  else
    (ops.uvmalloc s sz (ph.vaddr+ph.memsz) (flags2perm ph.flags).1 (flags2perm ph.flags).2).bind
      fun m =>
        if m.2=0 then .next (m.1,sz,false)
        else (loadseg ops file m.1 ph.vaddr ph.off ph.filesz).bind fun r => .next (r.1,m.2,r.2)

def segmentLoop (file : List UInt8) (s : σ) (sz off : ℕ) : ℕ→Outcome (σ×ℕ×Bool)
  | 0 => .next (s,sz,true)
  | n+1 =>
    match readFull file (off%2^32) 56 with
    | none => .next (s,sz,false)
    | some bs =>
      if (progHdr bs).type≠elfProgLoad then segmentLoop file s sz (off+56) n
      else
        (loadSegment ops file s sz (progHdr bs)).bind fun
          | (s1,sz1,false) => .next (s1,sz1,false)
          | (s1,sz1,true) => segmentLoop file s1 sz1 (off+56) n

/-- Push bytes on the stack: align, check against the stack's base, copy. -/
def push (stackbase : ℕ) (s : σ) (sp : ℕ) (bs : List UInt8) : Outcome (σ×Except ExecError ℕ) :=
  let sp1 := sub64 sp bs.length
  let sp2 := sp1-sp1%16
  if sp2<stackbase then .next (s,.error .bad)
  else
    (ops.copyout s sp2 bs).bind fun
      | (s1,.done) => .next (s1,.ok sp2)
      | (s1,.failed) => .next (s1,.error .bad)
      | (s1,.exited) => .next (s1,.error .exited)

/-- Push the argument strings and collect their addresses. -/
def pushArgs (stackbase : ℕ) (s : σ) (sp : ℕ) (ustack : List ℕ) :
    List (List UInt8)→Outcome (σ×Except ExecError (ℕ×List ℕ))
  | [] => .next (s,.ok (sp,ustack))
  | arg::argv =>
    if maxarg≤ustack.length then .next (s,.error .bad)
    else
      (push ops stackbase s sp (arg++[0])).bind fun
        | (s1,.error e) => .next (s1,.error e)
        | (s1,.ok sp1) => pushArgs stackbase s1 sp1 (ustack++[sp1]) argv

/-- The strings and then the array of pointers to them: argc and the stack
pointer. -/
def pushAll (stackbase : ℕ) (s : σ) (sp : ℕ) (argv : List (List UInt8)) :
    Outcome (σ×Except ExecError (ℕ×ℕ)) :=
  (pushArgs ops stackbase s sp [] argv).bind fun
    | (s1,.error e) => .next (s1,.error e)
    | (s1,.ok (sp1,ustack)) =>
      (push ops stackbase s1 sp1 ((ustack++[0]).flatMap bytes64)).bind fun
        | (s2,.error e) => .next (s2,.error e)
        | (s2,.ok sp2) => .next (s2,.ok (ustack.length,sp2))

def buildStack (s : σ) (sz : ℕ) (argv : List (List UInt8)) :
    Outcome (σ×ℕ×Except ExecError (ℕ×ℕ)) :=
  (ops.uvmalloc s (pgRoundUp sz) (pgRoundUp sz+2*pgsize) true false).bind fun m =>
    if m.2=0 then .next (m.1,pgRoundUp sz,.error .bad)
    else
      (ops.uvmclear m.1 ((m.2-2*pgsize)/pgsize)).bind fun s1 =>
        (pushAll ops (m.2-pgsize) s1 m.2 argv).bind fun r => .next (r.1,m.2,r.2)

/-- exec from the new page table to the commit: the memory, its size, and
argc with the stack pointer. -/
def buildImage (s : σ) (file : List UInt8) (hdr : ElfHdr) (argv : List (List UInt8)) :
    Outcome (σ×ℕ×Except ExecError (ℕ×ℕ)) :=
  (segmentLoop ops file s 0 hdr.phoff hdr.phnum).bind fun
    | (s1,sz,false) => .next (s1,sz,.error .bad)
    | (s1,sz,true) => buildStack ops s1 sz argv

end Build

def checkHeader (file : List UInt8) : Option ElfHdr :=
  (readFull file 0 64).bind fun bs =>
    if (elfHdr bs).magic=elfMagic then some (elfHdr bs) else none

def memoryOps : ImageOps (Kmem×PageTable) where
  uvmalloc := fun s oldsz newsz w x =>
    (uvmalloc s.1 s.2 oldsz newsz w x).bind fun r => .next ((r.1,r.2.1),r.2.2)
  mapped := fun s v => (walkaddr s.2 v).isSome
  write := fun s v bs =>
    match walkaddr s.2 v with
    | none => s
    | some p => (s.1.store p (writeBytes (s.1.mem p) 0 bs),s.2)
  uvmclear := fun s v => (uvmclear s.2 v).bind fun pt => .next (s.1,pt)
  copyout := fun s dstva src =>
    (copyout s.1 s.2 dstva src).bind fun r => .next ((r.1,r.2.1),r.2.2)

inductive ExecResult where
  | bad
  | exited
  | image (pt : PageTable) (sz argc sp : ℕ)

/-- exec of kernel/exec.c on the contents of the file: it replaces the image
old of size oldsz of a process with this trapframe page. -/
def exec (k : Kmem) (old : PageTable) (oldsz page : ℕ) (file : List UInt8)
    (argv : List (List UInt8)) : Outcome (Kmem×ExecResult) :=
  match checkHeader file with
  | none => .next (k,.bad)
  | some hdr =>
    (procPagetable k page).bind fun
      | (k1,none) => .next (k1,.bad)
      | (k1,some pt) =>
        (buildImage memoryOps (k1,pt) file hdr argv).bind fun
          | ((k2,pt2),sz,.error .bad) =>
            (procFreepagetable k2 pt2 sz).bind fun k3 => .next (k3,.bad)
          | ((k2,_),_,.error .exited) => .next (k2,.exited)
          | ((k2,pt2),sz,.ok (argc,sp)) =>
            (procFreepagetable k2 old oldsz).bind fun k3 => .next (k3,.image pt2 sz argc sp)

/-- The operations on a private address space, which has no lack of memory. -/
def spaceOps : ImageOps Space where
  uvmalloc := fun A oldsz newsz w x =>
    if newsz<oldsz then .next (A,oldsz)
    else .next (A.alloc (pageCount oldsz) (pageCount newsz-pageCount oldsz) w x,newsz)
  mapped := fun A v => (A.access v).isSome
  write := fun A v bs => A.edit v fun d => writeBytes d 0 bs
  uvmclear := fun A v => .next (A.clear v)
  copyout := fun A dstva src => .next (A.copyout dstva src)

/-- What exec does to a private address space: the new one and its size. -/
def execSpace (file : List UInt8) (argv : List (List UInt8)) : Except ExecError (Space×ℕ) :=
  match checkHeader file with
  | none => .error .bad
  | some hdr =>
    match buildImage spaceOps Space.empty file hdr argv with
    | .next (A,sz,.ok _) => .ok (A,sz)
    | .next (_,_,.error e) => .error e
    | _ => .error .bad

/-- An ELF file with one segment of four bytes of text at address 0, flags R
and X. -/
def textProgram : List UInt8 :=
  [0x7f,0x45,0x4c,0x46,0,0,0,0,0,0,0,0,0,0,0,0,0,0,0,0,0,0,0,0,0,0,0,0,0,0,0,0,
   64,0,0,0,0,0,0,0,0,0,0,0,0,0,0,0,0,0,0,0,0,0,0,0,1,0,0,0,0,0,0,0,
   1,0,0,0,5,0,0,0,120,0,0,0,0,0,0,0,0,0,0,0,0,0,0,0,0,0,0,0,0,0,0,0,
   4,0,0,0,0,0,0,0,4,0,0,0,0,0,0,0,0,0,0,0,0,0,0,0,1,2,3,4]

end Xv6Riscv.ExecImage
