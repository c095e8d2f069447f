import Xv6Riscv.DirectoryLayer

/-!
# File descriptors and file system calls

The system calls of kernel/sysfile.c with the file table of kernel/file.c, and
the parts of fork and exit of kernel/proc.c that concern files. A machine step
is one call by one process, run to its end. Path arguments have already been
fetched. The bytes that go through pipes and device drivers are left out: they
change nothing that is kept here.

The writei step lets a process write through an open file at any offset and
not only at the file's own one. The reads of exec depend on the headers in the
file, and its step takes any sequence of them.
-/

namespace Xv6Riscv.FileSyscalls

open Function
open Transition OutcomeLogic InodeLayer DirectoryLayer

def nofile : ℕ := 16

def nfile : ℕ := 100

def nproc : ℕ := 64

def ndev : ℕ := 10

def oWronly : ℕ := 0x001

def oRdwr : ℕ := 0x002

def oCreate : ℕ := 0x200

def oTrunc : ℕ := 0x400

def addLink (fs : Fs) (ip : ℕ) (k : ℤ) : Fs :=
  iupdate (fs.edit ip fun d => {d with nlink := short (d.nlink+k)}) ip

def dotEntries (fs : Fs) (dp ip : ℕ) (type : FileType) : Outcome (Fs×Bool) :=
  if type=.dir then do
    let (fs,ok) ← dirlink fs ip dot (fs.itable ip).inum
    if ok then dirlink fs ip dotdot (fs.itable dp).inum else pure (fs,false)
  else pure (fs,true)

/-- Fill in a new inode and enter it into its parent directory. -/
def enter (fs : Fs) (dp ip : ℕ) (type : FileType) (name : List UInt8) : Outcome (Fs×Bool) := do
  let (fs,ok) ← dotEntries fs dp ip type
  if ok then dirlink fs dp name (fs.itable ip).inum else pure (fs,false)

/-- create, from the point where the name is known to be unused. -/
def createNew (fs : Fs) (dp : ℕ) (name : List UInt8) (type : FileType) (major minor : ℤ) :
    Outcome (Fs×Option ℕ) := do
  let (fs,r) ← ialloc fs type
  match r with
  | none => do
    let fs ← iunlockput fs dp
    pure (fs,none)
  | some ip => do
    let fs ← ilock fs ip
    let fs := iupdate (fs.edit ip fun d =>
      {d with major := short major,minor := short minor,nlink := 1}) ip
    let (fs,ok) ← enter fs dp ip type name
    if ok then do
      let fs := if type=.dir then addLink fs dp 1 else fs
      let fs ← iunlockput fs dp
      pure (fs,some ip)
    else do
      let fs := iupdate (fs.edit ip fun d => {d with nlink := 0}) ip
      let fs ← iunlockput fs ip
      let fs ← iunlockput fs dp
      pure (fs,none)

/-- create of kernel/sysfile.c. -/
def create (fs : Fs) (cwd : ℕ) (path : List UInt8) (type : FileType) (major minor : ℤ) :
    Outcome (Fs×Option ℕ) := do
  let (fs,r) ← nameiparent fs cwd path
  match r with
  | none => pure (fs,none)
  | some (dp,name) => do
    let fs ← ilock fs dp
    let (fs,r) ← dirlookup fs dp name
    match r with
    | some (ip,_) => do
      let fs ← iunlockput fs dp
      let fs ← ilock fs ip
      if type=.file ∧ ((fs.itable ip).copy.type=.file ∨ (fs.itable ip).copy.type=.device) then
        pure (fs,some ip)
      else do
        let fs ← iunlockput fs ip
        pure (fs,none)
    | none => createNew fs dp name type major minor

/-- The second half of sys_link: enter the inode under the new name. -/
def linkInto (fs : Fs) (cwd : ℕ) (new : List UInt8) (ip : ℕ) : Outcome (Fs×Bool) := do
  let (fs,r) ← nameiparent fs cwd new
  match r with
  | none => pure (fs,false)
  | some (dp,name) => do
    let fs ← ilock fs dp
    let (fs,ok) ← dirlink fs dp name (fs.itable ip).inum
    let fs ← iunlockput fs dp
    pure (fs,ok)

/-- sys_link of kernel/sysfile.c. -/
def sysLink (fs : Fs) (cwd : ℕ) (old new : List UInt8) : Outcome (Fs×ℤ) := do
  let (fs,r) ← namei fs cwd old
  match r with
  | none => pure (fs,-1)
  | some ip => do
    let fs ← ilock fs ip
    if (fs.itable ip).copy.type=.dir then do
      let fs ← iunlockput fs ip
      pure (fs,-1)
    else do
      let fs ← iunlock (addLink fs ip 1) ip
      let (fs,ok) ← linkInto fs cwd new ip
      if ok then do
        let fs ← iput fs ip
        pure (fs,0)
      else do
        let fs ← ilock fs ip
        let fs ← iunlockput (addLink fs ip (-1)) ip
        pure (fs,-1)

/-- Whether the inode may be unlinked: it is no directory, or an empty one. -/
def mayUnlink (fs : Fs) (ip : ℕ) : Outcome (Fs×Bool) :=
  if (fs.itable ip).copy.type=.dir then isdirempty fs ip else pure (fs,true)

/-- sys_unlink, from the point where the entry has been found and its inode is
locked. -/
def unlinkEntry (fs : Fs) (dp ip off : ℕ) : Outcome (Fs×ℤ) :=
  if (fs.itable ip).copy.nlink<1 then .panic "unlink: nlink < 1"
  else do
    let (fs,empty) ← mayUnlink fs ip
    if empty then do
      let (fs,n) ← writei fs dp Dirent.zero.encode off direntSize
      if n≠direntSize then .panic "unlink: writei"
      else do
        let fs := if (fs.itable ip).copy.type=.dir then addLink fs dp (-1) else fs
        let fs ← iunlockput fs dp
        let fs ← iunlockput (addLink fs ip (-1)) ip
        pure (fs,0)
    else do
      let fs ← iunlockput fs ip
      let fs ← iunlockput fs dp
      pure (fs,-1)

/-- sys_unlink of kernel/sysfile.c. -/
def sysUnlink (fs : Fs) (cwd : ℕ) (path : List UInt8) : Outcome (Fs×ℤ) := do
  let (fs,r) ← nameiparent fs cwd path
  match r with
  | none => pure (fs,-1)
  | some (dp,name) => do
    let fs ← ilock fs dp
    if namecmp name dot || namecmp name dotdot then do
      let fs ← iunlockput fs dp
      pure (fs,-1)
    else do
      let (fs,r) ← dirlookup fs dp name
      match r with
      | none => do
        let fs ← iunlockput fs dp
        pure (fs,-1)
      | some (ip,off) => do
        let fs ← ilock fs ip
        unlinkEntry fs dp ip off

/-- sys_mkdir and sys_mknod: create the inode and let go of it. -/
def makeNode (fs : Fs) (cwd : ℕ) (path : List UInt8) (type : FileType) (major minor : ℤ) :
    Outcome (Fs×ℤ) := do
  let (fs,r) ← create fs cwd path type major minor
  match r with
  | none => pure (fs,-1)
  | some ip => do
    let fs ← iunlockput fs ip
    pure (fs,0)

def sysMkdir (fs : Fs) (cwd : ℕ) (path : List UInt8) : Outcome (Fs×ℤ) :=
  makeNode fs cwd path .dir 0 0

def sysMknod (fs : Fs) (cwd : ℕ) (path : List UInt8) (major minor : ℤ) : Outcome (Fs×ℤ) :=
  makeNode fs cwd path .device major minor

def openInode (fs : Fs) (cwd : ℕ) (path : List UInt8) (omode : ℕ) : Outcome (Fs×Option ℕ) :=
  if omode&&&oCreate≠0 then create fs cwd path .file 0 0
  else do
    let (fs,r) ← namei fs cwd path
    match r with
    | none => pure (fs,none)
    | some ip => do
      let fs ← ilock fs ip
      if (fs.itable ip).copy.type=.dir ∧ omode≠0 then do
        let fs ← iunlockput fs ip
        pure (fs,none)
      else pure (fs,some ip)

def execReads (ip : ℕ) : List (ℕ×ℕ)→Fs→Outcome Fs
  | [],fs => pure fs
  | (off,n)::reads,fs => do
    let (fs,_) ← readi fs ip none off n
    execReads ip reads fs

/-- What exec does to the file system, and its result once the file is read. -/
def exec (fs : Fs) (cwd : ℕ) (path : List UInt8) (reads : List (ℕ×ℕ)) (ret : ℤ) :
    Outcome (Fs×ℤ) := do
  let (fs,r) ← namei fs cwd path
  match r with
  | none => pure (fs,-1)
  | some ip => do
    let fs ← ilock fs ip
    let fs ← execReads ip reads fs
    let fs ← iunlockput fs ip
    pure (fs,ret)

inductive FdType where
  | none
  | pipe
  | inode
  | device
deriving DecidableEq

/-- struct file. -/
structure File where
  type : FdType
  ref : ℤ
  readable : Bool
  writable : Bool
  pipe : ℕ
  ip : ℕ
  off : ℕ
  major : ℤ

/-- The part of struct pipe that says who uses it, with a number that tells it
from earlier pipes in the same page. -/
structure Pipe where
  id : ℕ
  readopen : Bool
  writeopen : Bool

inductive PipeEvent where
  | created (id : ℕ)
  | closed (id : ℕ) (writable : Bool)
  | freed (id : ℕ)
deriving DecidableEq

structure Proc where
  cwd : ℕ
  ofile : ℕ→Option ℕ

/-- The file system, ftable, the pipes and the processes. -/
structure Sys where
  fs : Fs
  ftable : ℕ→File
  proc : ℕ→Option Proc
  pipe : ℕ→Pipe
  used : ℕ→Bool
  history : List PipeEvent

def Sys.setFile (s : Sys) (f : ℕ) (e : File) : Sys := {s with ftable := update s.ftable f e}

def Sys.setProc (s : Sys) (p : ℕ) (q : Option Proc) : Sys :=
  {s with proc := update s.proc p q}

def Proc.setFd (q : Proc) (fd : ℕ) (f : Option ℕ) : Proc :=
  {q with ofile := update q.ofile fd f}

def argfd (q : Proc) (fd : ℕ) : Option ℕ := if fd<nofile then q.ofile fd else none

/-- fdalloc takes the first free descriptor. -/
def fdalloc (q : Proc) : Option ℕ := (List.range nofile).find? fun fd => (q.ofile fd).isNone

/-- filealloc takes the first entry with ref 0. -/
def filealloc (s : Sys) : Option ℕ := (List.range nfile).find? fun f => (s.ftable f).ref=0

def Pipe.close (q : Pipe) (writable : Bool) : Pipe :=
  if writable then {q with writeopen := false} else {q with readopen := false}

def Sys.freePipe (s : Sys) (pg : ℕ) : Sys :=
  {s with used := update s.used pg false,history := .freed (s.pipe pg).id::s.history}

def pipeclose (s : Sys) (pg : ℕ) (writable : Bool) : Sys :=
  let q := (s.pipe pg).close writable
  let s : Sys := {s with
    pipe := update s.pipe pg q
    history := .closed q.id writable::s.history}
  if q.readopen=false ∧ q.writeopen=false then s.freePipe pg else s

def filedup (s : Sys) (f : ℕ) : Outcome Sys :=
  let e := s.ftable f
  if e.ref<1 then .panic "filedup" else pure (s.setFile f {e with ref := e.ref+1})

/-- fileclose of kernel/file.c. -/
def fileclose (s : Sys) (f : ℕ) : Outcome Sys :=
  let e := s.ftable f
  if e.ref<1 then .panic "fileclose"
  else if 0<e.ref-1 then pure (s.setFile f {e with ref := e.ref-1})
  else
    let s := s.setFile f {e with ref := 0,type := .none}
    match e.type with
    | .none => pure s
    | .pipe => pure (pipeclose s e.pipe e.writable)
    | .inode | .device => do
      let fs ← iput s.fs e.ip
      pure {s with fs := fs}

def Sys.takeFile (s : Sys) (f : ℕ) : Sys := s.setFile f {s.ftable f with ref := 1}

def Sys.openPipe (s : Sys) (pg f0 f1 : ℕ) : Sys :=
  let id := s.history.length
  let s : Sys := {s with
    pipe := update s.pipe pg ⟨id,true,true⟩
    used := update s.used pg true
    history := .created id::s.history}
  let s := s.setFile f0
    {s.ftable f0 with type := .pipe,readable := true,writable := false,pipe := pg}
  s.setFile f1 {s.ftable f1 with type := .pipe,readable := false,writable := true,pipe := pg}

def pipealloc (s : Sys) (page : Option ℕ) : Outcome (Sys×Option (ℕ×ℕ)) :=
  match filealloc s with
  | none => pure (s,none)
  | some f0 =>
    let s := s.takeFile f0
    match filealloc s with
    | none => do
      let s ← fileclose s f0
      pure (s,none)
    | some f1 =>
      let s := s.takeFile f1
      match page with
      | none => do
        let s ← fileclose s f0
        let s ← fileclose s f1
        pure (s,none)
      | some pg => if s.used pg then .blocked else pure (s.openPipe pg f0 f1,some (f0,f1))

/-- The failure exits of sys_pipe after pipealloc: the descriptors are clear. -/
def closeBoth (s : Sys) (f0 f1 : ℕ) : Outcome (Sys×ℤ) := do
  let s ← fileclose s f0
  let s ← fileclose s f1
  pure (s,-1)

/-- sys_pipe, with the page that kalloc returns and whether both copyouts
succeed. -/
def sysPipe (s : Sys) (p : ℕ) (q : Proc) (page : Option ℕ) (copied : Bool) :
    Outcome (Sys×ℤ) := do
  let (s,r) ← pipealloc s page
  match r with
  | none => pure (s,-1)
  | some (f0,f1) =>
    match fdalloc q with
    | none => closeBoth s f0 f1
    | some fd0 =>
      match fdalloc (q.setFd fd0 (some f0)) with
      | none => closeBoth (s.setProc p (some ((q.setFd fd0 (some f0)).setFd fd0 none))) f0 f1
      | some fd1 =>
        let q := (q.setFd fd0 (some f0)).setFd fd1 (some f1)
        if copied then pure (s.setProc p (some q),0)
        else closeBoth (s.setProc p (some ((q.setFd fd0 none).setFd fd1 none))) f0 f1

def openFile (d : Dinode) (ip omode : ℕ) (e : File) : File :=
  {e with
    type := if d.type=.device then .device else .inode
    major := if d.type=.device then d.major else e.major
    off := if d.type=.device then e.off else 0
    ip := ip
    readable := omode&&&oWronly=0
    writable := omode&&&oWronly≠0 || omode&&&oRdwr≠0}

def openTrunc (fs : Fs) (ip omode : ℕ) : Outcome Fs :=
  if omode&&&oTrunc≠0 ∧ (fs.itable ip).copy.type=.file then itrunc fs ip else pure fs

/-- The end of sys_open, once there is a file and a descriptor for it. -/
def openEnd (s : Sys) (p : ℕ) (q : Proc) (ip omode f fd : ℕ) : Outcome (Sys×ℤ) := do
  let d := (s.fs.itable ip).copy
  let s := (s.setFile f (openFile d ip omode {s.ftable f with ref := 1})).setProc p
    (some (q.setFd fd (some f)))
  let fs ← openTrunc s.fs ip omode
  let fs ← iunlock fs ip
  pure ({s with fs := fs},fd)

/-- sys_open of kernel/sysfile.c. -/
def sysOpen (s : Sys) (p : ℕ) (q : Proc) (path : List UInt8) (omode : ℕ) : Outcome (Sys×ℤ) := do
  let (fs,r) ← openInode s.fs q.cwd path omode
  let s := {s with fs := fs}
  match r with
  | none => pure (s,-1)
  | some ip =>
    let d := (s.fs.itable ip).copy
    if d.type=.device ∧ (d.major<0 ∨ ndev≤d.major) then do
      let fs ← iunlockput s.fs ip
      pure ({s with fs := fs},-1)
    else
      match filealloc s with
      | none => do
        let fs ← iunlockput s.fs ip
        pure ({s with fs := fs},-1)
      | some f =>
        match fdalloc q with
        | none => do
          let s ← fileclose (s.takeFile f) f
          let fs ← iunlockput s.fs ip
          pure ({s with fs := fs},-1)
        | some fd => openEnd s p q ip omode f fd

def sysChdir (s : Sys) (p : ℕ) (q : Proc) (path : List UInt8) : Outcome (Sys×ℤ) := do
  let (fs,r) ← namei s.fs q.cwd path
  match r with
  | none => pure ({s with fs := fs},-1)
  | some ip => do
    let fs ← ilock fs ip
    if (fs.itable ip).copy.type≠.dir then do
      let fs ← iunlockput fs ip
      pure ({s with fs := fs},-1)
    else do
      let fs ← iunlock fs ip
      let fs ← iput fs q.cwd
      pure ({s with fs := fs}.setProc p (some {q with cwd := ip}),0)

def sysClose (s : Sys) (p : ℕ) (q : Proc) (fd : ℕ) : Outcome (Sys×ℤ) :=
  match argfd q fd with
  | none => pure (s,-1)
  | some f => do
    let s ← fileclose (s.setProc p (some (q.setFd fd none))) f
    pure (s,0)

def sysDup (s : Sys) (p : ℕ) (q : Proc) (fd : ℕ) : Outcome (Sys×ℤ) :=
  match argfd q fd with
  | none => pure (s,-1)
  | some f =>
    match fdalloc q with
    | none => pure (s,-1)
    | some fd => do
      let s ← filedup (s.setProc p (some (q.setFd fd (some f)))) f
      pure (s,fd)

/-- fileread with n as a uint: the result of readi for an FD_INODE file. The
offset moves only when bytes were read. -/
def fileread (s : Sys) (f n : ℕ) (room : Option ℕ) : Outcome (Sys×ℤ) :=
  let e := s.ftable f
  if !e.readable then pure (s,-1)
  else
    match e.type with
    | .pipe | .device => pure (s,-1)
    | .none => .panic "fileread"
    | .inode => do
      let fs ← ilock s.fs e.ip
      let (fs,r) ← readi fs e.ip room e.off n
      let s := s.setFile f {e with off := e.off+(r.getD []).length}
      let fs ← iunlock fs e.ip
      pure ({s with fs := fs},match r with | none => -1 | some bs => bs.length)

/-- Write n bytes through a file at an offset, as one round of filewrite does. -/
def writeAt (fs : Fs) (ip : ℕ) (src : List UInt8) (off n : ℕ) : Outcome (Fs×ℤ) := do
  let fs ← ilock fs ip
  let (fs,r) ← writei fs ip src off n
  let fs ← iunlock fs ip
  pure (fs,r)

/-- The number of bytes that filewrite writes in one transaction. -/
def maxWrite : ℕ := 3*bsize

/-- The loop of filewrite, one round for each unit of fuel. It returns the
number of bytes that are left. -/
def filewriteLoop (f : ℕ) : ℕ→Sys→List UInt8→ℕ→Outcome (Sys×ℕ)
  | 0,s,_,left => pure (s,left)
  | fuel+1,s,src,left =>
    if left=0 then pure (s,left)
    else do
      let n1 := min left maxWrite
      let e := s.ftable f
      let (fs,r) ← writeAt s.fs e.ip src e.off n1
      let s := {s with fs := fs}.setFile f {e with off := if 0<r then e.off+r.toNat else e.off}
      if r≠n1 then pure (s,left) else filewriteLoop f fuel s (src.drop n1) (left-n1)

def filewrite (s : Sys) (f : ℕ) (src : List UInt8) (n : ℕ) : Outcome (Sys×ℤ) :=
  let e := s.ftable f
  if !e.writable then pure (s,-1)
  else
    match e.type with
    | .pipe | .device => pure (s,-1)
    | .none => .panic "filewrite"
    | .inode => do
      let (s,left) ← filewriteLoop f n s src n
      pure (s,if left=0 then n else -1)

def writeiAny (s : Sys) (f : ℕ) (src : List UInt8) (off n : ℕ) : Outcome (Sys×ℤ) :=
  let e := s.ftable f
  if e.writable && e.type=.inode then do
    let (fs,r) ← writeAt s.fs e.ip src off n
    pure ({s with fs := fs},r)
  else pure (s,-1)

def dupFiles (q : Proc) : List ℕ→Sys→Outcome Sys
  | [],s => pure s
  | fd::fds,s =>
    match q.ofile fd with
    | none => dupFiles q fds s
    | some f => do
      let s ← filedup s f
      dupFiles q fds s

/-- fork into a free process slot, or none if allocproc or uvmcopy fails. -/
def fork (s : Sys) (q : Proc) (child : Option ℕ) : Outcome (Sys×ℤ) :=
  match child with
  | none => pure (s,-1)
  | some child =>
    if child<nproc ∧ (s.proc child).isNone then do
      let s ← dupFiles q (List.range nofile) s
      pure ({s with fs := idup s.fs q.cwd}.setProc child (some q),child)
    else .blocked

def closeFiles (p : ℕ) : List ℕ→Sys→Proc→Outcome Sys
  | [],s,_ => pure s
  | fd::fds,s,q =>
    match q.ofile fd with
    | none => closeFiles p fds s q
    | some f => do
      let s ← fileclose s f
      closeFiles p fds (s.setProc p (some (q.setFd fd none))) (q.setFd fd none)

def exit (s : Sys) (p : ℕ) (q : Proc) : Outcome (Sys×ℤ) :=
  if p=0 then .panic "init exiting"
  else do
    let s ← closeFiles p (List.range nofile) s q
    let fs ← iput s.fs q.cwd
    pure ({s with fs := fs}.setProc p none,0)

/-- The system calls on files. -/
inductive Call where
  | sysOpen (path : List UInt8) (omode : ℕ)
  | sysMkdir (path : List UInt8)
  | sysMknod (path : List UInt8) (major minor : ℤ)
  | sysLink (old new : List UInt8)
  | sysUnlink (path : List UInt8)
  | sysChdir (path : List UInt8)
  | sysClose (fd : ℕ)
  | sysDup (fd : ℕ)
  | sysRead (fd n : ℕ) (room : Option ℕ)
  | sysWrite (fd n : ℕ) (src : List UInt8)
  | writei (fd off n : ℕ) (src : List UInt8)
  | fork (child : Option ℕ)
  | exit
  | exec (path : List UInt8) (reads : List (ℕ×ℕ)) (ret : ℤ)
  | sysPipe (page : Option ℕ) (copied : Bool)

/-- The file system is replaced by the one that the call leaves. -/
def Sys.onFs (s : Sys) (o : Outcome (Fs×ℤ)) : Outcome (Sys×ℤ) := do
  let (fs,r) ← o
  pure ({s with fs := fs},r)

def withFile (s : Sys) (q : Proc) (fd : ℕ) (k : ℕ→Outcome (Sys×ℤ)) : Outcome (Sys×ℤ) :=
  match argfd q fd with
  | none => pure (s,-1)
  | some f => k f

def call (s : Sys) (p : ℕ) (q : Proc) : Call→Outcome (Sys×ℤ)
  | .sysOpen path omode => sysOpen s p q path omode
  | .sysMkdir path => s.onFs (sysMkdir s.fs q.cwd path)
  | .sysMknod path major minor => s.onFs (sysMknod s.fs q.cwd path major minor)
  | .sysLink old new => s.onFs (sysLink s.fs q.cwd old new)
  | .sysUnlink path => s.onFs (sysUnlink s.fs q.cwd path)
  | .sysChdir path => sysChdir s p q path
  | .sysClose fd => sysClose s p q fd
  | .sysDup fd => sysDup s p q fd
  | .sysRead fd n room => withFile s q fd fun f => fileread s f n room
  | .sysWrite fd n src => withFile s q fd fun f => filewrite s f src n
  | .writei fd off n src => withFile s q fd fun f => writeiAny s f src off n
  | .fork child => fork s q child
  | .exit => exit s p q
  | .exec path reads ret => s.onFs (exec s.fs q.cwd path reads ret)
  | .sysPipe page copied => sysPipe s p q page copied

/-- One system call of a process. -/
def step (s : Sys) (a : ℕ×Call) : Outcome Sys :=
  match s.proc a.1 with
  | none => .blocked
  | some q => do
    let (s,_) ← call s a.1 q a.2
    pure s

structure Image where
  sb : Superblock
  bitmap : ℕ→Bool
  dinode : ℕ→Dinode
  data : ℕ→Block

def Inode.empty : Inode := ⟨0,0,false,false,.blank .free⟩

def File.empty : File := ⟨.none,0,false,false,0,0,0,0⟩

/-- The state after userinit: process 0 has the root as current directory. -/
def boot (img : Image) : Sys where
  fs := ⟨img.sb,img.bitmap,img.dinode,img.data,
    update (fun _ => Inode.empty) 0 {Inode.empty with inum := rootino,ref := 1}⟩
  ftable := fun _ => File.empty
  proc := update (fun _ => none) 0 (some ⟨0,fun _ => none⟩)
  pipe := fun _ => ⟨0,false,false⟩
  used := fun _ => false
  history := []

end Xv6Riscv.FileSyscalls
