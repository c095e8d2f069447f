import Xv6Riscv.Transition

/-!
# The write-ahead log of kernel/log.c as a machine with crashes

Operations bracket their writes by begin_op and end_op. The last end_op
commits: write_log copies the cached blocks into the log area, write_head
is the commit point, install_trans copies the log to the home blocks, and a
second write_head erases the transaction. Each machine step performs at most
one block write, so a crash step between two steps is a crash between two
block writes. Recovery after a crash is also taken one block write at a time.

The buffer cache is the coherent view that bread returns: bwrite updates the
view and the disk together, log_write only the view. The in-progress
operations and the transaction history are specification state that no
branch of the code reads.
-/

namespace Xv6Riscv.LogMachine

open Transition

def maxOpBlocks : ℕ := 10

def logSize : ℕ := maxOpBlocks*3

/-- One block of BSIZE=1024 bytes, seen as its 256 words. -/
abbrev Block := Fin 256→UInt32

/-- struct logheader: the same record is the on-disk header and lh in memory. -/
structure LogHeader where
  n : ℕ
  block : Fin logSize→UInt32

/-- Entry of the block array at an index known to the code as an int. -/
def LogHeader.blockAt (lh : LogHeader) (i : ℕ) : UInt32 :=
  if h : i<logSize then lh.block ⟨i,h⟩ else 0

/-- log.start and log.size, which initlog copies from the superblock. -/
structure LogArea where
  start : ℕ
  size : ℕ
  size_pos : 0<size

/-- Block numbers outside the log area, where file-system data lives. -/
def LogArea.Home (g : LogArea) (b : ℕ) : Prop := b<g.start ∨ g.start+g.size≤b

instance (g : LogArea) (b : ℕ) : Decidable (g.Home b) :=
  inferInstanceAs (Decidable (_ ∨ _))

/-- The log area of the image that mkfs writes: logstart=2, nlog=LOGSIZE. -/
def mkfsArea : LogArea := ⟨2,logSize,by decide⟩

/-- The header record stored in a block: n in word 0, block[i] in word 1+i. -/
def getHeader (b : Block) : LogHeader :=
  ⟨(b 0).toNat,fun i => b ⟨i.val+1,by have := i.isLt; simp only [logSize,maxOpBlocks] at this; omega⟩⟩

/-- write_head's assignments into the header block: n, then the entries below
n. Every other word keeps the buffer's contents. -/
def putHeader (b : Block) (lh : LogHeader) : Block := fun w =>
  if w.val=0 then UInt32.ofNat lh.n
  else if w.val≤lh.n then lh.blockAt (w.val-1) else b w

/-- What a transaction writes: home block numbers with their new contents. -/
abbrev Txn := List (UInt32×Block)

inductive Phase where
  | running
  | commit
  | writeLog (tail : ℕ)
  | writeHead
  | install (tail : ℕ)
  | eraseHead
  | committed
  | crashed
  | recoverInstall (tail : ℕ)
  | recoverErase
  deriving DecidableEq

/-- Disk, buffer-cache view, the fields of struct log, and specification state. -/
structure LogState where
  disk : ℕ→Block
  cache : ℕ→Block
  outstanding : ℤ
  committing : Bool
  lh : LogHeader
  phase : Phase
  ops : List (Finset UInt32)
  history : List (Txn×Bool)

def bwrite (s : LogState) (b : ℕ) (data : Block) : LogState :=
  {s with disk := Function.update s.disk b data,cache := Function.update s.cache b data}

/-- The absorption loop of log_write: the first index below lh.n whose entry
is b, or lh.n. The first argument counts the entries left to look at. -/
def absorbIndex (lh : LogHeader) (b : UInt32) : ℕ→ℕ→ℕ
  | 0,i => i
  | left+1,i => if lh.blockAt i=b then i else absorbIndex lh b left (i+1)

def setEntry (lh : LogHeader) (i : ℕ) (b : UInt32) : LogHeader :=
  {lh with block := fun j => if j.val=i then b else lh.block j}

/-- The header after log_write of block b: absorbed or appended. -/
def recordBlock (lh : LogHeader) (b : UInt32) : LogHeader :=
  let i := absorbIndex lh b lh.n 0
  let lh' := setEntry lh i b
  if i=lh.n then {lh' with n := lh.n+1} else lh'

/-- The transaction that the in-memory header and the cache describe. -/
def pendingTxn (s : LogState) : Txn :=
  (List.range s.lh.n).map fun i => (s.lh.blockAt i,s.cache (s.lh.blockAt i).toNat)

/-- commit has returned for the last entered transaction. -/
def finishLast (history : List (Txn×Bool)) : List (Txn×Bool) :=
  match history.getLast? with
  | none => []
  | some (t,_) => history.dropLast++[(t,true)]

/-- begin_op. A caller that has to sleep is not admitted. -/
def beginOp (s : LogState) : Outcome LogState :=
  if s.committing then .blocked
  else if s.lh.n+(s.outstanding+1)*maxOpBlocks>logSize then .blocked
  else .next {s with outstanding := s.outstanding+1,ops := s.ops++[∅]}

/-- log_write of block b, whose buffer the caller has filled with data. -/
def logWrite (g : LogArea) (s : LogState) (op : ℕ) (b : UInt32) (data : Block) :
    Outcome LogState :=
  if s.lh.n≥logSize ∨ s.lh.n+1≥g.size then .panic "too big a transaction"
  else if s.outstanding<1 then .panic "log_write outside of trans"
  else .next {s with
    cache := Function.update s.cache b.toNat data
    lh := recordBlock s.lh b
    ops := s.ops.modify op (insert b)}

/-- end_op up to its first release of log.lock. The last operation sets
committing and goes on to call commit. -/
def endOp (s : LogState) (op : ℕ) : Outcome LogState :=
  let s' := {s with outstanding := s.outstanding-1,ops := s.ops.eraseIdx op}
  if s.committing then .panic "log.committing"
  else if s'.outstanding=0 then .next {s' with committing := true,phase := .commit}
  else .next s'

/-- write_head: the header block of the cache with lh stored into it. -/
def writeHeadBlock (g : LogArea) (s : LogState) : LogState :=
  bwrite s g.start (putHeader (s.cache g.start) s.lh)

def installBlock (g : LogArea) (s : LogState) (tail : ℕ) : LogState :=
  bwrite s (s.lh.blockAt tail).toNat (s.cache (g.start+tail+1))

/-- The next disk write of commit. -/
def commitStep (g : LogArea) (s : LogState) : Outcome LogState :=
  match s.phase with
  | .commit =>
    if 0<s.lh.n then
      .next {s with phase := .writeLog 0,history := s.history++[(pendingTxn s,false)]}
    else .next {s with phase := .committed}
  | .writeLog tail =>
    if tail<s.lh.n then
      .next {bwrite s (g.start+tail+1) (s.cache (s.lh.blockAt tail).toNat) with
        phase := .writeLog (tail+1)}
    else .next {s with phase := .writeHead}
  | .writeHead => .next {writeHeadBlock g s with phase := .install 0}
  | .install tail =>
    if tail<s.lh.n then .next {installBlock g s tail with phase := .install (tail+1)}
    else .next {s with lh := {s.lh with n := 0},phase := .eraseHead}
  | .eraseHead =>
    .next {writeHeadBlock g s with phase := .committed,history := finishLast s.history}
  | .committed => .next {s with committing := false,phase := .running}
  | _ => .blocked

/-- The next disk write of recover_from_log. -/
def recoverStep (g : LogArea) (s : LogState) : Outcome LogState :=
  match s.phase with
  | .recoverInstall tail =>
    if tail<s.lh.n then .next {installBlock g s tail with phase := .recoverInstall (tail+1)}
    else .next {s with lh := {s.lh with n := 0},phase := .recoverErase}
  | .recoverErase => .next {writeHeadBlock g s with phase := .running}
  | _ => .blocked

/-- initlog on the next boot, up to the end of read_head: every buffer is
read afresh from the disk. -/
def reboot (g : LogArea) (s : LogState) : Outcome LogState :=
  if s.phase=.crashed then
    .next {s with cache := s.disk,lh := getHeader (s.disk g.start),phase := .recoverInstall 0}
  else .blocked

/-- Power loss: the disk stays, everything in memory goes. -/
def crash (s : LogState) : LogState :=
  {s with outstanding := 0,committing := false,lh := ⟨0,fun _ => 0⟩,phase := .crashed,ops := []}

/-- Between initlog's return and a crash, file-system code may run. -/
def Phase.up : Phase→Bool
  | .crashed => false
  | .recoverInstall _ => false
  | .recoverErase => false
  | _ => true

/-- One action of some process, of the committing process, or of the power supply. -/
inductive LogAction where
  | beginOp
  | logWrite (op : ℕ) (b : UInt32) (data : Block)
  | endOp (op : ℕ)
  | commitStep
  | crash
  | reboot
  | recoverStep

/-- The log machine. File-system code only writes home blocks, as mkfs lays
the disk out, and only between its begin_op and its end_op. -/
def logStep (g : LogArea) (s : LogState) : LogAction→Outcome LogState
  | .beginOp => if s.phase.up then beginOp s else .blocked
  | .logWrite op b data =>
    if s.phase.up ∧ op<s.ops.length ∧ g.Home b.toNat then logWrite g s op b data else .blocked
  | .endOp op => if s.phase.up ∧ op<s.ops.length then endOp s op else .blocked
  | .commitStep => commitStep g s
  | .crash => .next (crash s)
  | .reboot => reboot g s
  | .recoverStep => recoverStep g s

/-- A machine about to boot from a disk for the first time. -/
def powerOn (disk : ℕ→Block) : LogState :=
  crash ⟨disk,disk,0,false,⟨0,fun _ => 0⟩,.crashed,[],[]⟩

end Xv6Riscv.LogMachine
