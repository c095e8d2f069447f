import Xv6Riscv.OutcomeLogic

/-!
# Blocks and inodes of kernel/fs.c

The disk is seen through the buffer cache, as bread returns it, with one field
for each area: the free bitmap, the inode blocks and the data blocks. The
inode table holds counted copies of on-disk inodes; an index into it stands
for a struct inode pointer. Functions take the file system they are called in
and return the one they leave, and stop with the panic message of the source
or block on a sleep-lock that is held.

There is one device, so dev is left out. A buffer handed to writei is the list
of bytes that can be read from it before the first unmapped address.
-/

namespace Xv6Riscv.InodeLayer

open Function
open Transition OutcomeLogic

def bsize : ℕ := 1024

def ndirect : ℕ := 12

def nindirect : ℕ := 256

def maxfile : ℕ := ndirect+nindirect

def ninode : ℕ := 50

def rootino : ℕ := 1

/-- Contents of a block; only offsets below BSIZE are used. -/
abbrev Block := ℕ→UInt8

def zeros : Block := fun _ => 0

def writeBytes (d : Block) (off : ℕ) (bs : List UInt8) : Block := fun i =>
  if off≤ i ∧ i<off+bs.length then bs.getD (i-off) 0 else d i

def readBytes (d : Block) (off n : ℕ) : List UInt8 := (List.range n).map fun k => d (off+k)

def word (d : Block) (i : ℕ) : ℕ :=
  (d (4*i)).toNat+256*((d (4*i+1)).toNat+256*((d (4*i+2)).toNat+256*(d (4*i+3)).toNat))

/-- Assignment to entry i of a block seen as an array of uint. -/
def setWord (d : Block) (i v : ℕ) : Block :=
  writeBytes d (4*i) [UInt8.ofNat v,UInt8.ofNat (v/256),UInt8.ofNat (v/256/256),
    UInt8.ofNat (v/256/256/256)]

def short (x : ℤ) : ℤ := (x+2^15)%2^16-2^15

inductive FileType where
  | free
  | dir
  | file
  | device
deriving DecidableEq

structure Superblock where
  size : ℕ
  nblocks : ℕ
  ninodes : ℕ

def Superblock.dataStart (sb : Superblock) : ℕ := sb.size-sb.nblocks

/-- struct dinode. -/
structure Dinode where
  type : FileType
  major : ℤ
  minor : ℤ
  nlink : ℤ
  size : ℕ
  addrs : ℕ→ℕ

def Dinode.blank (type : FileType) : Dinode := ⟨type,0,0,0,0,fun _ => 0⟩

/-- An entry of itable. -/
structure Inode where
  inum : ℕ
  ref : ℤ
  locked : Bool
  valid : Bool
  copy : Dinode

/-- The disk as the buffer cache shows it, and itable. -/
structure Fs where
  sb : Superblock
  bitmap : ℕ→Bool
  dinode : ℕ→Dinode
  data : ℕ→Block
  itable : ℕ→Inode

def Fs.store (fs : Fs) (b : ℕ) (d : Block) : Fs := {fs with data := update fs.data b d}

def Fs.setDinode (fs : Fs) (i : ℕ) (d : Dinode) : Fs :=
  {fs with dinode := update fs.dinode i d}

def Fs.setInode (fs : Fs) (ip : ℕ) (e : Inode) : Fs :=
  {fs with itable := update fs.itable ip e}

/-- Assign to the fields of an in-memory inode that live on disk. -/
def Fs.edit (fs : Fs) (ip : ℕ) (f : Dinode→Dinode) : Fs :=
  fs.setInode ip {fs.itable ip with copy := f (fs.itable ip).copy}

variable (fs : Fs)

include fs

@[simp] lemma setInode_self (ip : ℕ) (e : Inode) :
    (fs.setInode ip e).itable ip=e := update_self _ _ _

lemma setInode_of_ne {ip jp : ℕ} (h : jp≠ip) (e : Inode) :
    (fs.setInode ip e).itable jp=fs.itable jp := update_of_ne h _ _

@[simp] lemma setInode_dinode (ip : ℕ) (e : Inode) : (fs.setInode ip e).dinode=fs.dinode := rfl

@[simp] lemma setInode_data (ip : ℕ) (e : Inode) : (fs.setInode ip e).data=fs.data := rfl

@[simp] lemma edit_self (ip : ℕ) (f : Dinode→Dinode) :
    (fs.edit ip f).itable ip={fs.itable ip with copy := f (fs.itable ip).copy} :=
  update_self _ _ _

lemma edit_of_ne {ip jp : ℕ} (h : jp≠ip) (f : Dinode→Dinode) :
    (fs.edit ip f).itable jp=fs.itable jp := update_of_ne h _ _

@[simp] lemma edit_data (ip : ℕ) (f : Dinode→Dinode) : (fs.edit ip f).data=fs.data := rfl

def Dinode.setAddr (d : Dinode) (k b : ℕ) : Dinode := {d with addrs := update d.addrs k b}

def Fs.mark (fs : Fs) (b : ℕ) : Fs :=
  {fs with bitmap := update fs.bitmap b true}.store b zeros

/-- balloc: the first block whose bit is clear, zeroed; 0 if there is none. -/
def balloc (fs : Fs) : Fs×ℕ :=
  match (List.range fs.sb.size).find? (fun b => !fs.bitmap b) with
  | some b => (fs.mark b,b)
  | none => (fs,0)

def Fs.unmark (fs : Fs) (b : ℕ) : Fs := {fs with bitmap := update fs.bitmap b false}

/-- bfree of kernel/fs.c. -/
def bfree (fs : Fs) (b : ℕ) : Outcome Fs :=
  if fs.bitmap b then .next (fs.unmark b) else .panic "freeing free block"

/-- iupdate copies the entry to the disk inode. -/
def iupdate (fs : Fs) (ip : ℕ) : Fs := fs.setDinode (fs.itable ip).inum (fs.itable ip).copy

@[simp] lemma iupdate_itable (ip : ℕ) : (iupdate fs ip).itable=fs.itable := rfl

@[simp] lemma iupdate_sb (ip : ℕ) : (iupdate fs ip).sb=fs.sb := rfl

@[simp] lemma iupdate_data (ip : ℕ) : (iupdate fs ip).data=fs.data := rfl

lemma iupdate_self (ip : ℕ) : (iupdate fs ip).dinode (fs.itable ip).inum=(fs.itable ip).copy :=
  update_self _ _ _

lemma iupdate_of_ne {ip j : ℕ} (hj : j≠(fs.itable ip).inum) :
    (iupdate fs ip).dinode j=fs.dinode j :=
  update_of_ne hj _ _

omit fs

/-- iget: the entry that already holds the inode, or else the first unused one. -/
def iget (fs : Fs) (inum : ℕ) : Outcome (Fs×ℕ) :=
  match (List.range ninode).find?
      (fun ip => 0<(fs.itable ip).ref && (fs.itable ip).inum=inum) with
  | some ip => .next (fs.setInode ip {fs.itable ip with ref := (fs.itable ip).ref+1},ip)
  | none =>
    match (List.range ninode).find? (fun ip => (fs.itable ip).ref=0) with
    | none => .panic "iget: no inodes"
    | some ip =>
      .next (fs.setInode ip {fs.itable ip with inum := inum,ref := 1,valid := false},ip)

/-- ialloc: the first free inode from number 1 on, marked with the type. -/
def ialloc (fs : Fs) (type : FileType) : Outcome (Fs×Option ℕ) :=
  match (List.range' 1 (fs.sb.ninodes-1)).find? (fun i => (fs.dinode i).type=.free) with
  | some inum => do
    let (fs,ip) ← iget (fs.setDinode inum (.blank type)) inum
    pure (fs,some ip)
  | none => pure (fs,none)

def idup (fs : Fs) (ip : ℕ) : Fs :=
  fs.setInode ip {fs.itable ip with ref := (fs.itable ip).ref+1}

/-- ilock of kernel/fs.c, which loads the inode if it is not valid. -/
def ilock (fs : Fs) (ip : ℕ) : Outcome Fs :=
  let e := fs.itable ip
  if e.ref<1 then .panic "ilock"
  else if e.locked then .blocked
  else if e.valid then .next (fs.setInode ip {e with locked := true})
  else if (fs.dinode e.inum).type=.free then .panic "ilock: no type"
  else .next (fs.setInode ip {e with locked := true,valid := true,copy := fs.dinode e.inum})

/-- iunlock of kernel/fs.c. -/
def iunlock (fs : Fs) (ip : ℕ) : Outcome Fs :=
  let e := fs.itable ip
  if !e.locked || e.ref<1 then .panic "iunlock"
  else .next (fs.setInode ip {e with locked := false})

/-- The direct blocks of itrunc: free each one and clear its address. -/
def freeDirect (ip : ℕ) : List ℕ→Fs→Outcome Fs
  | [],fs => pure fs
  | k::ks,fs =>
    let b := (fs.itable ip).copy.addrs k
    if b=0 then freeDirect ip ks fs
    else do
      let fs ← bfree fs b
      freeDirect ip ks (fs.edit ip fun d => d.setAddr k 0)

def freeEntries (a : Block) : List ℕ→Fs→Outcome Fs
  | [],fs => pure fs
  | j::js,fs =>
    if word a j=0 then freeEntries a js fs
    else do
      let fs ← bfree fs (word a j)
      freeEntries a js fs

def freeIndirect (fs : Fs) (ip : ℕ) : Outcome Fs :=
  let b := (fs.itable ip).copy.addrs ndirect
  if b=0 then pure fs
  else do
    let fs ← freeEntries (fs.data b) (List.range nindirect) fs
    let fs ← bfree fs b
    pure (fs.edit ip fun d => d.setAddr ndirect 0)

/-- itrunc frees all blocks of a file. -/
def itrunc (fs : Fs) (ip : ℕ) : Outcome Fs := do
  let fs ← freeDirect ip (List.range ndirect) fs
  let fs ← freeIndirect fs ip
  pure (iupdate (fs.edit ip fun d => {d with size := 0}) ip)

/-- What iput does to the last reference of an inode without links: truncate
and free it on disk. -/
def ifree (fs : Fs) (ip : ℕ) : Outcome Fs :=
  if (fs.itable ip).locked then .blocked
  else do
    let fs ← itrunc (fs.setInode ip {fs.itable ip with locked := true}) ip
    let fs := iupdate (fs.edit ip fun d => {d with type := .free}) ip
    pure (fs.setInode ip {fs.itable ip with locked := false,valid := false})

/-- iput of kernel/fs.c as one step. -/
def iput (fs : Fs) (ip : ℕ) : Outcome Fs := do
  let e := fs.itable ip
  let fs ← if e.ref=1 ∧ e.valid ∧ e.copy.nlink=0 then ifree fs ip else pure fs
  pure (fs.setInode ip {fs.itable ip with ref := (fs.itable ip).ref-1})

def iunlockput (fs : Fs) (ip : ℕ) : Outcome Fs := do
  let fs ← iunlock fs ip
  iput fs ip

/-- The address in ip->addrs[k], allocated if there is none; 0 if out of space. -/
def addrAlloc (fs : Fs) (ip k : ℕ) : Fs×ℕ :=
  let addr := (fs.itable ip).copy.addrs k
  if addr=0 then
    let (fs,addr) := balloc fs
    if addr=0 then (fs,0) else (fs.edit ip fun d => d.setAddr k addr,addr)
  else (fs,addr)

/-- The address in entry j of the indirect block, allocated if there is none. -/
def entryAlloc (fs : Fs) (b j : ℕ) : Fs×ℕ :=
  let addr := word (fs.data b) j
  if addr=0 then
    let (fs,addr) := balloc fs
    if addr=0 then (fs,0) else (fs.store b (setWord (fs.data b) j addr),addr)
  else (fs,addr)

/-- bmap gives the block of an index and allocates it if it is missing. -/
def bmap (fs : Fs) (ip bn : ℕ) : Outcome (Fs×ℕ) :=
  if bn<ndirect then .next (addrAlloc fs ip bn)
  else if bn-ndirect<nindirect then
    let (fs,addr) := addrAlloc fs ip ndirect
    if addr=0 then .next (fs,0) else .next (entryAlloc fs addr (bn-ndirect))
  else .panic "bmap: out of range"

/-- The number of bytes that one round of readi or writei moves. -/
def chunk (off left : ℕ) : ℕ := min left (bsize-off%bsize)

/-- Whether a destination has room for the bytes; a kernel buffer always has. -/
def fits (room : Option ℕ) (n : ℕ) : Bool :=
  match room with
  | none => true
  | some r => n≤r

def readiLoop (ip : ℕ) (room : Option ℕ) :
    ℕ→Fs→ℕ→ℕ→List UInt8→Outcome (Fs×Option (List UInt8))
  | 0,fs,_,_,got => pure (fs,some got)
  | fuel+1,fs,off,left,got =>
    if left=0 then pure (fs,some got)
    else do
      let (fs,addr) ← bmap fs ip (off/bsize)
      if addr=0 then pure (fs,some got)
      else
        let m := chunk off left
        if fits room (got.length+m) then
          readiLoop ip room fuel fs (off+m) (left-m) (got++readBytes (fs.data addr) (off%bsize) m)
        else pure (fs,none)

/-- readi: the bytes copied, or none for -1. In uint arithmetic off+n<off says
that off+n reaches 2^32. -/
def readi (fs : Fs) (ip : ℕ) (room : Option ℕ) (off n : ℕ) : Outcome (Fs×Option (List UInt8)) :=
  let size := (fs.itable ip).copy.size
  if size<off ∨ 2^32≤off+n then pure (fs,some [])
  else
    let n := if size<off+n then size-off else n
    readiLoop ip room n fs off n []

/-- The loop of writei, one round for each unit of fuel. It returns the last
off and tot. The bytes of a buffer that turns out to be bad are already in the
block when either_copyin fails. -/
def writeiLoop (ip : ℕ) : ℕ→Fs→List UInt8→ℕ→ℕ→ℕ→Outcome (Fs×ℕ×ℕ)
  | 0,fs,_,off,_,tot => pure (fs,off,tot)
  | fuel+1,fs,src,off,left,tot =>
    if left=0 then pure (fs,off,tot)
    else do
      let (fs,addr) ← bmap fs ip (off/bsize)
      if addr=0 then pure (fs,off,tot)
      else
        let m := chunk off left
        let fs := fs.store addr (writeBytes (fs.data addr) (off%bsize) (src.take m))
        if src.length< m then pure (fs,off,tot)
        else writeiLoop ip fuel fs (src.drop m) (off+m) (left-m) (tot+m)

/-- writei of kernel/fs.c. -/
def writei (fs : Fs) (ip : ℕ) (src : List UInt8) (off n : ℕ) : Outcome (Fs×ℤ) :=
  let size := (fs.itable ip).copy.size
  if size<off ∨ 2^32≤off+n then pure (fs,-1)
  else if maxfile*bsize<off+n then pure (fs,-1)
  else do
    let (fs,off,tot) ← writeiLoop ip n fs src off n 0
    let fs := if size<off then fs.edit ip fun d => {d with size := off} else fs
    pure (iupdate fs ip,tot)

end Xv6Riscv.InodeLayer
