import Xv6Riscv.FileSyscalls
import Xv6Riscv.InodeTable

/-!
# Inodes under concurrent system calls

Here processes interleave inside their system calls. A step is what a process
does under one lock: itable.lock, ftable.lock, the sleep-lock of an inode or
the lock of an inode block's buffer. The code that runs under an inode's
sleep-lock touches no other inode, and is one step. iput and ialloc take
several steps, since they give up one lock before they take the next.

A process keeps references to inodes in local variables, which hand lists. It
may look up any inode number, as namex does, and lock any inode that it has a
reference to or an open file for. So every order of the calls open, dup, fork,
read, write, link, unlink, close and exit is a run, except for O_TRUNC, and so
are many more.
-/

namespace Xv6Riscv.InodeProtocol

open Transition OutcomeLogic InodeLayer InodeTable FileSyscalls

def claim (fs : Fs) (inum : ℕ) (type : FileType) : Fs := fs.setDinode inum (.blank type)

lemma ialloc_pieces (fs : Fs) (type : FileType) : ialloc fs type=
    match (List.range' 1 (fs.sb.ninodes-1)).find? (fun i => (fs.dinode i).type=.free) with
    | some inum => (iget (claim fs inum type) inum).bind fun r => .next (r.1,some r.2)
    | none => .next (fs,none) := by
  rw [ialloc]
  cases (List.range' 1 (fs.sb.ninodes-1)).find? (fun i => (fs.dinode i).type=.free) <;> rfl

/-- fileclose up to its call of iput: the inode that is left to be put. -/
def dropFile (s : Sys) (f : ℕ) : Outcome (Sys×Option ℕ) :=
  let e := s.ftable f
  if e.ref<1 then .panic "fileclose"
  else if 0<e.ref-1 then .next (s.setFile f {e with ref := e.ref-1},none)
  else
    let s := s.setFile f {e with ref := 0,type := .none}
    match e.type with
    | .none => .next (s,none)
    | .pipe => .next (pipeclose s e.pipe e.writable,none)
    | .inode | .device => .next (s,some e.ip)

lemma fileclose_pieces (s : Sys) (f : ℕ) : fileclose s f=
    (dropFile s f).bind fun r => match r.2 with
      | none => .next r.1
      | some ip => (iput r.1.fs ip).bind fun fs => .next {r.1 with fs := fs} := by
  rw [fileclose,dropFile]
  dsimp only
  split_ifs
  · rfl
  · rfl
  · cases (s.ftable f).type <;> rfl

inductive Task where
  | idle
  | freeing (ip : ℕ)
  | dropping (ip : ℕ)
  | claimed (inum : ℕ)
  | created (ip : ℕ)
deriving DecidableEq

inductive Event where
  | allocated (inum : ℕ)
  | freed (inum : ℕ)
deriving DecidableEq

structure Kernel where
  sys : Sys
  hand : ℕ→List ℕ
  task : ℕ→Task
  holder : ℕ→Option ℕ
  log : List Event

def Kernel.setFs (s : Kernel) (fs : Fs) : Kernel := {s with sys := {s.sys with fs := fs}}

def Kernel.setHand (s : Kernel) (p : ℕ) (l : List ℕ) : Kernel :=
  {s with hand := Function.update s.hand p l}

def Kernel.setTask (s : Kernel) (p : ℕ) (t : Task) : Kernel :=
  {s with task := Function.update s.task p t}

def Kernel.setHolder (s : Kernel) (ip : ℕ) (o : Option ℕ) : Kernel :=
  {s with holder := Function.update s.holder ip o}

def isFor (e : File) (ip : ℕ) : Bool := (e.type=.inode || e.type=.device) && e.ip=ip

/-- Whether a process has an open file for an inode table entry. -/
def opens (s : Sys) (p ip : ℕ) : Bool :=
  (s.proc p).any fun q => (List.range nofile).any fun fd =>
    (q.ofile fd).any fun f => isFor (s.ftable f) ip

/-- Whether a process has a pointer to an inode table entry that counts. -/
def Kernel.reaches (s : Kernel) (p ip : ℕ) : Bool := decide (ip∈s.hand p) || opens s.sys p ip

inductive LockedOp where
  | readi (room : Option ℕ) (off n : ℕ)
  | writei (src : List UInt8) (off n : ℕ)
  | addLink (k : ℤ)
  | fill (major minor : ℤ)
  | unfill

/-- The file system after an operation under the lock of an inode. -/
def lockedOp (fs : Fs) (ip : ℕ) : LockedOp→Outcome Fs
  | .readi room off n => (readi fs ip room off n).bind fun r => .next r.1
  | .writei src off n => (writei fs ip src off n).bind fun r => .next r.1
  | .addLink k => .next (addLink fs ip k)
  | .fill major minor => .next (iupdate (fs.edit ip fun d =>
      {d with major := short major,minor := short minor,nlink := 1}) ip)
  | .unfill => .next (iupdate (fs.edit ip fun d => {d with nlink := 0}) ip)

inductive Act where
  | idup
  | iget (inum : ℕ)
  | ilock (ip : ℕ)
  | iunlock (ip : ℕ)
  | locked (ip : ℕ) (op : LockedOp)
  | iput (ip : ℕ)
  | ialloc (inum : ℕ) (type : FileType)
  | openEnd (ip omode : ℕ)
  | dup (fd : ℕ)
  | close (fd : ℕ)
  | fork (child : ℕ)
  | leave
  | go

def Kernel.lock (s : Kernel) (p ip : ℕ) : Outcome Kernel :=
  (ilock s.sys.fs ip).bind fun fs => .next ((s.setFs fs).setHolder ip (some p))

/-- Drop a reference of a process, the last part of iput. -/
def Kernel.drop (s : Kernel) (p ip : ℕ) : Kernel :=
  (s.setFs (dropRef s.sys.fs ip)).setHand p ((s.hand p).erase ip)

def Kernel.get (s : Kernel) (p inum : ℕ) : Outcome (Kernel×ℕ) :=
  (iget s.sys.fs inum).bind fun r => .next ((s.setFs r.1).setHand p (r.2::s.hand p),r.2)

def Kernel.free (s : Kernel) (p : ℕ) : Bool := (List.range ninode).all fun ip => s.holder ip≠some p

/-- The next step of a process inside iput or ialloc. itrunc, iupdate, valid = 0 and
releasesleep of iput are one step: only ialloc of another process can come
between them, and what it does there it can do right after them as well. -/
def proceed (s : Kernel) (p : ℕ) : Task→Outcome Kernel
  | .idle => .blocked
  | .freeing ip => (erase s.sys.fs ip).bind fun fs =>
    .next {((s.setFs fs).setHolder ip none).setTask p (.dropping ip) with
      log := .freed (s.sys.fs.itable ip).inum::s.log}
  | .dropping ip => .next ((s.drop p ip).setTask p .idle)
  | .claimed inum => (s.get p inum).bind fun r => .next (r.1.setTask p (.created r.2))
  | .created ip => (s.lock p ip).bind fun s => .next (s.setTask p .idle)

/-- sys_open stores the inode that it has locked, unless there is no file or
descriptor left or the device number is bad. -/
def openStep (s : Kernel) (p : ℕ) (q : Proc) (ip omode : ℕ) : Outcome Kernel :=
  let d := (s.sys.fs.itable ip).copy
  if d.type=.device ∧ (d.major<0 ∨ ndev≤d.major) then .blocked
  else
    match filealloc s.sys,fdalloc q with
    | some f,some fd =>
      .next {s.setHand p ((s.hand p).erase ip) with
        sys := (s.sys.setFile f (openFile d ip omode {s.sys.ftable f with ref := 1})).setProc p
          (some (q.setFd fd (some f)))}
    | _,_ => .blocked

def closeStep (s : Kernel) (p : ℕ) (q : Proc) (fd : ℕ) : Outcome Kernel :=
  match argfd q fd with
  | none => .next s
  | some f => (dropFile (s.sys.setProc p (some (q.setFd fd none))) f).bind fun r =>
    .next {s.setHand p (r.2.toList++s.hand p) with sys := r.1}

/-- A step of a process that is in the middle of nothing. -/
def act (s : Kernel) (p : ℕ) : Act→Outcome Kernel
  | .iget inum => (s.get p inum).bind fun r => .next r.1
  | .ilock ip => if s.reaches p ip then s.lock p ip else .blocked
  | .iunlock ip =>
    if s.holder ip≠some p then .panic "iunlock"
    else (iunlock s.sys.fs ip).bind fun fs => .next ((s.setFs fs).setHolder ip none)
  | .locked ip op =>
    if s.holder ip=some p then (lockedOp s.sys.fs ip op).bind fun fs => .next (s.setFs fs)
    else .blocked
  | .iput ip =>
    if ip∈s.hand p ∧ s.holder ip≠some p then
      if lastRef s.sys.fs ip then
        if (s.sys.fs.itable ip).locked then .blocked
        else .next (((s.setFs (lockInode s.sys.fs ip)).setHolder ip (some p)).setTask p (.freeing ip))
      else .next (s.drop p ip)
    else .blocked
  | .ialloc inum type =>
    if 0< inum ∧ inum<s.sys.fs.sb.ninodes ∧ (s.sys.fs.dinode inum).type=.free ∧ type≠.free then
      .next {(s.setFs (claim s.sys.fs inum type)).setTask p (.claimed inum) with
        log := .allocated inum::s.log}
    else .blocked
  | .go => .blocked
  | a =>
    match s.sys.proc p with
    | none => .blocked
    | some q =>
      match a with
      | .idup => .next ((s.setFs (idup s.sys.fs q.cwd)).setHand p (q.cwd::s.hand p))
      | .openEnd ip omode =>
        if ip∈s.hand p ∧ s.holder ip=some p then openStep s p q ip omode else .blocked
      | .dup fd => (sysDup s.sys p q fd).bind fun r => .next {s with sys := r.1}
      | .close fd => if s.free p then closeStep s p q fd else .blocked
      | .fork child =>
        if s.hand child=[] ∧ s.task child=.idle then
          (fork s.sys q (some child)).bind fun r => .next {s with sys := r.1}
        else .blocked
      | .leave =>
        if p=0 then .panic "init exiting"
        else if s.free p ∧ (List.range nofile).all (fun fd => (q.ofile fd).isNone) then
          .next {s.setHand p (q.cwd::s.hand p) with sys := s.sys.setProc p none}
        else .blocked
      | _ => .blocked

def inodeStep (s : Kernel) (a : ℕ×Act) : Outcome Kernel :=
  if a.1<nproc then
    match s.task a.1,a.2 with
    | .idle,b => act s a.1 b
    | t,.go => proceed s a.1 t
    | _,_ => .blocked
  else .blocked

def start (img : Image) : Kernel := ⟨boot img,fun _ => [],fun _ => .idle,fun _ => none,[]⟩

end Xv6Riscv.InodeProtocol
