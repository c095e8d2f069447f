import Xv6Riscv.DiskFormat

/-!
# The file system builder of mkfs/mkfs.c

mkfs writes an image into a file of the host, one sector at a time: it fills
in the superblock, makes the root directory and then, for each argument, an
inode, a directory entry and the contents that read returns in pieces. Inode
and block numbers come from two counters. A call of die or a failed assertion
ends the program with a message and another status than 0.
-/

namespace Xv6Riscv.Mkfs

open Transition OutcomeLogic InodeLayer DirectoryLayer DiskFormat

def fssize : ℕ := 2000

def ninodes : ℕ := 200

def nlog : ℕ := 30

def nbitmap : ℕ := fssize/(bsize*8)+1

def ninodeblocks : ℕ := ninodes/ipb+1

/-- nmeta: the boot block, the superblock, the log, the inodes and the bitmap. -/
def nmeta : ℕ := 2+nlog+ninodeblocks+nbitmap

def nblocks : ℕ := fssize-nmeta

def inodestart : ℕ := 2+nlog

def bmapstart : ℕ := 2+nlog+ninodeblocks

def superblock : List ℕ := [fsmagic,fssize,nblocks,ninodes,nlog,2,inodestart,bmapstart]

/-- The contents of an input file in the pieces that read returns: none is
empty and none is longer than the buffer. -/
structure Contents where
  chunks : List (List UInt8)
  sized : ∀ c∈chunks,c≠[] ∧ c.length≤bsize

def Contents.bytes (f : Contents) : List UInt8 := f.chunks.flatten

structure Input where
  arg : List UInt8
  text : ∀ c∈arg,c≠0
  file : Option Contents

def Input.bytes (f : Input) : List UInt8 := (f.file.map Contents.bytes).getD []

/-- The image so far, freeinode and freeblock. -/
structure Maker where
  disk : ℕ→Block
  sectors : ℕ
  freeinode : ℕ
  freeblock : ℕ

def wsect (m : Maker) (sec : ℕ) (buf : Block) : Maker :=
  {m with disk := Function.update m.disk sec buf,sectors := max m.sectors (sec+1)}

/-- rsect, which finds nothing past the end of the image. -/
def rsect (m : Maker) (sec : ℕ) : Outcome Block :=
  if sec< m.sectors then .next (m.disk sec) else .panic "read"

def iblock (inum : ℕ) : ℕ := inum/ipb+inodestart

def winode (m : Maker) (inum : ℕ) (din : Dinode) : Outcome Maker := do
  let buf ← rsect m (iblock inum)
  pure (wsect m (iblock inum) (putDinode buf (inum%ipb) din))

def rinode (m : Maker) (inum : ℕ) : Outcome Dinode := do
  let buf ← rsect m (iblock inum)
  pure (dinodeIn buf (inum%ipb))

/-- ialloc of mkfs/mkfs.c. -/
def ialloc (m : Maker) (type : FileType) : Outcome (Maker×ℕ) := do
  let inum := m.freeinode
  let m ← winode {m with freeinode := inum+1} inum {Dinode.blank type with nlink := 1}
  pure (m,inum)

def balloc (m : Maker) (used : ℕ) : Outcome Maker :=
  if used<bsize*8 then pure (wsect m bmapstart ((List.range used).foldl setBit zeros))
  else .panic "assert"

def addrFor (m : Maker) (din : Dinode) (k : ℕ) : Maker×Dinode :=
  if din.addrs k=0 then ({m with freeblock := m.freeblock+1},din.setAddr k m.freeblock)
  else (m,din)

/-- The block in entry j of the indirect block, which is filled in with a new
one if it is 0. -/
def entryFor (m : Maker) (din : Dinode) (j : ℕ) : Outcome (Maker×ℕ) := do
  let indirect ← rsect m (din.addrs ndirect)
  if word indirect j=0 then
    let indirect := setWord indirect j m.freeblock
    pure (wsect {m with freeblock := m.freeblock+1} (din.addrs ndirect) indirect,word indirect j)
  else pure (m,word indirect j)

/-- The block for block fbn of a file, with what had to be allocated for it. -/
def blockFor (m : Maker) (din : Dinode) (fbn : ℕ) : Outcome (Maker×Dinode×ℕ) :=
  if fbn<ndirect then
    let (m,din) := addrFor m din fbn
    pure (m,din,din.addrs fbn)
  else do
    let (m,din) := addrFor m din ndirect
    let (m,x) ← entryFor m din (fbn-ndirect)
    pure (m,din,x)

/-- The loop of iappend, one round for each unit of fuel. It returns the inode
and the last off. -/
def iappendLoop : ℕ→Maker→Dinode→ℕ→List UInt8→Outcome (Maker×Dinode×ℕ)
  | 0,m,din,off,_ => pure (m,din,off)
  | fuel+1,m,din,off,p =>
    if p=[] then pure (m,din,off)
    else
      let fbn := off/bsize
      if fbn< maxfile then do
        let (m,din,x) ← blockFor m din fbn
        let n1 := min p.length ((fbn+1)*bsize-off)
        let buf ← rsect m x
        let m := wsect m x (writeBytes buf (off-fbn*bsize) (p.take n1))
        iappendLoop fuel m din (off+n1) (p.drop n1)
      else .panic "assert"

/-- iappend of mkfs/mkfs.c. -/
def iappend (m : Maker) (inum : ℕ) (p : List UInt8) : Outcome Maker := do
  let din ← rinode m inum
  let (m,din,off) ← iappendLoop p.length m din din.size p
  winode m inum {din with size := off}

/-- The bytes that mkfs cuts off an argument: a leading user/. -/
def userSlash : List UInt8 := [117,115,101,114,47]

def shortname (arg : List UInt8) : List UInt8 :=
  if arg.take 5=userSlash then arg.drop 5 else arg

def skipUnderscore (name : List UInt8) : List UInt8 :=
  if name.head?=some 95 then name.drop 1 else name

def Input.name (f : Input) : List UInt8 := skipUnderscore (shortname f.arg)

def appendAll (inum : ℕ) : List (List UInt8)→Maker→Outcome Maker
  | [],m => pure m
  | c::chunks,m => do
    let m ← iappend m inum c
    appendAll inum chunks m

def addFile (m : Maker) (f : Input) : Outcome Maker :=
  if slash∈shortname f.arg then .panic "assert"
  else
    match f.file with
    | none => .panic "open"
    | some file => do
      let (m,inum) ← ialloc m .file
      let m ← iappend m rootino (Dirent.encode ⟨inum,strncpy f.name⟩)
      appendAll inum file.chunks m

def addFiles : List Input→Maker→Outcome Maker
  | [],m => pure m
  | f::files,m => do
    let m ← addFile m f
    addFiles files m

/-- The image with every sector zeroed and the superblock written. -/
def format : Maker :=
  wsect ⟨fun _ => zeros,fssize,1,nmeta⟩ 1 (writeBytes zeros 0 (superblock.flatMap xint))

def fixRoot (m : Maker) : Outcome Maker := do
  let din ← rinode m rootino
  winode m rootino {din with size := (din.size/bsize+1)*bsize}

def makeRoot (m : Maker) : Outcome Maker := do
  let (m,root) ← ialloc m .dir
  if root=rootino then do
    let m ← iappend m root (Dirent.encode ⟨root,strncpy dot⟩)
    iappend m root (Dirent.encode ⟨root,strncpy dotdot⟩)
  else .panic "assert"

/-- main: the image that mkfs leaves when it exits with status 0. -/
def main (files : List Input) : Outcome Maker := do
  let m ← makeRoot format
  let m ← addFiles files m
  let m ← fixRoot m
  balloc m m.freeblock

end Xv6Riscv.Mkfs
