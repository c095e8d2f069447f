import Xv6Riscv.InodeLayer

/-!
# Directories and path names of kernel/fs.c

A directory is a file of 16-byte entries, read and written through readi and
writei. The three functions that search one share their loop. Path names are
the bytes before the terminating NUL; skipelem cuts off one element at a time
and namex follows the elements from the root or from the current directory.
-/

namespace Xv6Riscv.DirectoryLayer

open Transition OutcomeLogic InodeLayer

def dirsiz : ℕ := 14

def direntSize : ℕ := 16

def slash : UInt8 := 47

def dot : List UInt8 := [46]

def dotdot : List UInt8 := [46,46]

structure Dirent where
  inum : ℕ
  name : List UInt8
deriving DecidableEq

def decode (bs : List UInt8) : Dirent :=
  ⟨(bs.getD 0 0).toNat+256*(bs.getD 1 0).toNat,bs.drop 2⟩

def Dirent.encode (de : Dirent) : List UInt8 :=
  UInt8.ofNat de.inum::UInt8.ofNat (de.inum/256)::de.name

def Dirent.zero : Dirent := ⟨0,List.replicate dirsiz 0⟩

/-- strncpy into a name field: the string, filled up with NULs. -/
def strncpy (name : List UInt8) : List UInt8 :=
  let s := (name.takeWhile (·≠0)).take dirsiz
  s++List.replicate (dirsiz-s.length) 0

/-- Whether strncmp finds two strings equal; the end of a list is a NUL. -/
def strncmp : ℕ→List UInt8→List UInt8→Bool
  | 0,_,_ => true
  | n+1,s,t =>
    if s.headD 0=t.headD 0 then s.headD 0=0 || strncmp n s.tail t.tail else false

def namecmp (s t : List UInt8) : Bool := strncmp dirsiz s t

/-- The loop over directory entries: stop at the first one the test accepts.
It returns the last offset. -/
def scan (msg : String) (dp : ℕ) (test : Dirent→Bool) :
    ℕ→Fs→ℕ→Outcome (Fs×ℕ×Option Dirent)
  | 0,fs,off => pure (fs,off,none)
  | fuel+1,fs,off =>
    if off<(fs.itable dp).copy.size then do
      let (fs,r) ← readi fs dp none off direntSize
      let bs := r.getD []
      if bs.length≠direntSize then .panic msg
      else if test (decode bs) then pure (fs,off,some (decode bs))
      else scan msg dp test fuel fs (off+direntSize)
    else pure (fs,off,none)

def rounds (fs : Fs) (dp : ℕ) : ℕ := (fs.itable dp).copy.size/direntSize+1

/-- dirlookup of kernel/fs.c. -/
def dirlookup (fs : Fs) (dp : ℕ) (name : List UInt8) : Outcome (Fs×Option (ℕ×ℕ)) :=
  if (fs.itable dp).copy.type≠.dir then .panic "dirlookup not DIR"
  else do
    let (fs,off,r) ← scan "dirlookup read" dp
      (fun de => de.inum≠0 && namecmp name de.name) (rounds fs dp) fs 0
    match r with
    | none => pure (fs,none)
    | some de => do
      let (fs,ip) ← iget fs de.inum
      pure (fs,some (ip,off))

/-- dirlink of kernel/fs.c. -/
def dirlink (fs : Fs) (dp : ℕ) (name : List UInt8) (inum : ℕ) : Outcome (Fs×Bool) := do
  let (fs,r) ← dirlookup fs dp name
  match r with
  | some (ip,_) => do
    let fs ← iput fs ip
    pure (fs,false)
  | none => do
    let (fs,off,_) ← scan "dirlink read" dp (fun de => de.inum=0) (rounds fs dp) fs 0
    let (fs,n) ← writei fs dp (Dirent.encode ⟨inum,strncpy name⟩) off direntSize
    pure (fs,n=direntSize)

/-- isdirempty of kernel/sysfile.c. -/
def isdirempty (fs : Fs) (dp : ℕ) : Outcome (Fs×Bool) := do
  let (fs,_,r) ← scan "isdirempty: readi" dp (fun de => de.inum≠0) (rounds fs dp) fs
    (2*direntSize)
  pure (fs,r.isNone)

/-- skipelem: the next path element, cut to DIRSIZ bytes, and the rest of the
path without leading slashes. -/
def skipelem (path : List UInt8) : Option (List UInt8×List UInt8) :=
  match path.dropWhile (·=slash) with
  | [] => none
  | c::s =>
    some (((c::s).takeWhile (·≠slash)).take dirsiz,
      ((c::s).dropWhile (·≠slash)).dropWhile (·=slash))

def namexEnd (parent : Bool) (fs : Fs) (ip : ℕ) : Outcome (Fs×Option (ℕ×List UInt8)) :=
  if parent then do
    let fs ← iput fs ip
    pure (fs,none)
  else pure (fs,some (ip,[]))

/-- The loop of namex. Each round uses up at least one byte of the path, so
the length of the path is enough fuel. -/
def namexLoop (parent : Bool) : ℕ→Fs→ℕ→List UInt8→Outcome (Fs×Option (ℕ×List UInt8))
  | 0,fs,ip,_ => namexEnd parent fs ip
  | fuel+1,fs,ip,path =>
    match skipelem path with
    | none => namexEnd parent fs ip
    | some (name,path) => do
      let fs ← ilock fs ip
      if (fs.itable ip).copy.type≠.dir then do
        let fs ← iunlockput fs ip
        pure (fs,none)
      else if parent && path.isEmpty then do
        let fs ← iunlock fs ip
        pure (fs,some (ip,name))
      else do
        let (fs,next) ← dirlookup fs ip name
        let fs ← iunlockput fs ip
        match next with
        | none => pure (fs,none)
        | some (next,_) => namexLoop parent fuel fs next path

/-- namex, for a process with the given current directory. -/
def namex (fs : Fs) (cwd : ℕ) (path : List UInt8) (parent : Bool) :
    Outcome (Fs×Option (ℕ×List UInt8)) :=
  if path.head?=some slash then do
    let (fs,ip) ← iget fs rootino
    namexLoop parent path.length fs ip path
  else namexLoop parent path.length (idup fs cwd) cwd path

/-- namei of kernel/fs.c. -/
def namei (fs : Fs) (cwd : ℕ) (path : List UInt8) : Outcome (Fs×Option ℕ) := do
  let (fs,r) ← namex fs cwd path false
  pure (fs,r.map Prod.fst)

/-- nameiparent: the parent directory and the last path element. -/
def nameiparent (fs : Fs) (cwd : ℕ) (path : List UInt8) :
    Outcome (Fs×Option (ℕ×List UInt8)) := namex fs cwd path true

end Xv6Riscv.DirectoryLayer
