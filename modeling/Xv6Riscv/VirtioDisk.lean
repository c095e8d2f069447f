import Xv6Riscv.Transition

/-!
# The virtio disk driver and its device

kernel/virtio_disk.c runs under vdisk_lock, which its sleep calls give up. A
step is the code between two points at which another process, the interrupt
handler or the device can interfere: the driver's steps end where the lock is
taken or given up and at the barriers before and after avail->idx is written,
each turn of the interrupt handler's loop is a step, and so is the device's
reading of one available entry and its completion of one request.

The device reads the avail ring in order, keeps the requests it has read, and
completes them in any order: it writes status 0 and posts the head of the chain.
A sleeping process runs on after wakeup, or because kill made it runnable.
Block contents are left out. Processes and buffers are arbitrary types.

A log numbers the requests in the order in which they become available and says
how far each has come. No step of the driver or the device reads it.
-/

namespace Xv6Riscv.VirtioDisk

open Function
open Transition

def num : ℕ := 8

/-- The arguments of virtio_disk_rw, with the block number of the buffer. -/
structure Call (B : Type*) where
  b : B
  blockno : UInt32
  write : Bool
  deriving DecidableEq

structure Idx where
  i0 : ℕ
  i1 : ℕ
  i2 : ℕ
  deriving DecidableEq

def Idx.list (x : Idx) : List ℕ := [x.i0,x.i1,x.i2]

inductive Addr (B : Type*) where
  | null
  | op (i : ℕ)
  | data (b : B)
  | status (i : ℕ)
  deriving DecidableEq

/-- A descriptor of the ring. -/
structure Desc (B : Type*) where
  addr : Addr B
  len : ℕ
  flags : BitVec 16
  next : ℕ
  deriving DecidableEq

def Desc.zero {B : Type*} : Desc B := ⟨.null,0,0,0⟩

structure Op where
  type : UInt32
  reserved : UInt32
  sector : UInt64
  deriving DecidableEq

/-- The header that virtio_disk_rw writes. BSIZE/512 is 2. -/
def Call.op {B : Type*} (r : Call B) : Op := ⟨if r.write then 1 else 0,0,(r.blockno*2).toUInt64⟩

structure Info (B : Type*) where
  b : Option B
  status : BitVec 8
  deriving DecidableEq

inductive Pc (B : Type*) where
  | out
  | enter (r : Call B)
  | alloc (r : Call B)
  | short (r : Call B) (awake : Bool)
  | notify (r : Call B) (x : Idx)
  | test (r : Call B) (x : Idx)
  | wait (r : Call B) (x : Idx) (awake : Bool)
  deriving DecidableEq

/-- A request that the device has read from the avail ring. -/
structure Job (B : Type*) where
  number : ℕ
  head : ℕ
  op : Option Op
  data : Addr B
  status : Addr B
  deriving DecidableEq

inductive Holder (P : Type*) where
  | proc (p : P)
  | intr
  deriving DecidableEq

structure Sent (P B : Type*) where
  proc : P
  call : Call B
  idx : Idx
  deriving DecidableEq

structure Log (P B : Type*) where
  sent : List (Sent P B)
  queue : List ℕ
  posted : List ℕ
  done : List ℕ
  ticket : P→ℕ

/-- The driver, the device and the processes that use them. -/
structure Sys (P B : Type*) where
  desc : ℕ→Desc B
  availRing : ℕ→ℕ
  availIdx : BitVec 16
  usedRing : ℕ→ℕ
  usedDev : BitVec 16
  free : ℕ→Bool
  usedIdx : BitVec 16
  info : ℕ→Info B
  ops : ℕ→Op
  bufDisk : B→Bool
  lock : Option (Holder P)
  pc : P→Pc B
  lastAvail : BitVec 16
  working : List (Job B)
  log : Log P B

def initSys (P B : Type*) : Sys P B where
  desc := fun _ => .zero
  availRing := fun _ => 0
  availIdx := 0
  usedRing := fun _ => 0
  usedDev := 0
  free := fun i => i<num
  usedIdx := 0
  info := fun _ => ⟨none,0⟩
  ops := fun _ => ⟨0,0,0⟩
  bufDisk := fun _ => false
  lock := none
  pc := fun _ => .out
  lastAvail := 0
  working := []
  log := ⟨[],[],[],[],fun _ => 0⟩

variable {P B : Type*}

def wakeFree : Pc B→Pc B
  | .short r _ => .short r true
  | pc => pc

def wakeBuf [DecidableEq B] (b : B) : Pc B→Pc B
  | .wait r x awake => .wait r x (awake || r.b=b)
  | pc => pc

def wakeKilled : Pc B→Pc B
  | .short r _ => .short r true
  | .wait r x _ => .wait r x true
  | pc => pc

def allocDesc (s : Sys P B) : Option (ℕ×Sys P B) :=
  match (List.range num).find? s.free with
  | some i => some (i,{s with free := update s.free i false})
  | none => none

def freeDesc (s : Sys P B) (i : ℕ) : Outcome (Sys P B) :=
  if num≤ i then .panic "free_desc 1"
  else if s.free i then .panic "free_desc 2"
  else .next {s with
    desc := update s.desc i .zero
    free := update s.free i true
    pc := fun p => wakeFree (s.pc p)}

/-- free_chain. Each turn of its loop frees a descriptor or stops, so it takes at
most NUM+1 of them. -/
def freeChain : ℕ→Sys P B→ℕ→Outcome (Sys P B)
  | 0,_,_ => .blocked
  | fuel+1,s,i =>
    let flag := (s.desc i).flags
    let nxt := (s.desc i).next
    (freeDesc s i).bind fun s => if flag &&& 1≠0 then freeChain fuel s nxt else .next s

/-- alloc3_desc of kernel/virtio_disk.c. -/
def alloc3Desc (s : Sys P B) : Outcome (Sys P B×Option Idx) :=
  match allocDesc s with
  | none => .next (s,none)
  | some (i0,s) =>
    match allocDesc s with
    | none => (freeDesc s i0).bind fun s => .next (s,none)
    | some (i1,s) =>
      match allocDesc s with
      | none =>
        (freeDesc s i0).bind fun s => (freeDesc s i1).bind fun s => .next (s,none)
      | some (i2,s) => .next (s,some ⟨i0,i1,i2⟩)

/-- The descriptors that virtio_disk_rw writes for a request. -/
def format (desc : ℕ→Desc B) (r : Call B) (x : Idx) : ℕ→Desc B :=
  let desc := update desc x.i0 ⟨.op x.i0,16,1,x.i1⟩
  let desc := update desc x.i1 ⟨.data r.b,1024,(if r.write then 0 else 2) ||| 1,x.i2⟩
  update desc x.i2 ⟨.status x.i0,1,2,0⟩

section Machine

variable [DecidableEq P] [DecidableEq B]

/-- virtio_disk_rw from alloc3_desc to the first barrier, or to sleep. -/
def allocStep (s : Sys P B) (p : P) (r : Call B) : Outcome (Sys P B) :=
  (alloc3Desc s).bind fun (s,got) =>
    match got with
    | none => .next {s with pc := update s.pc p (.short r false),lock := none}
    | some x => .next {s with
        ops := update s.ops x.i0 r.op
        desc := format s.desc r x
        bufDisk := update s.bufDisk r.b true
        info := update s.info x.i0 ⟨some r.b,0xff⟩
        availRing := update s.availRing (s.availIdx.toNat%num) x.i0
        pc := update s.pc p (.notify r x)}

def notifyStep (s : Sys P B) (p : P) (r : Call B) (x : Idx) : Sys P B :=
  {s with
    availIdx := s.availIdx+1
    pc := update s.pc p (.test r x)
    log := {s.log with
      sent := s.log.sent++[⟨p,r,x⟩]
      queue := s.log.queue++[s.log.sent.length]
      ticket := update s.log.ticket p s.log.sent.length}}

def testStep (s : Sys P B) (p : P) (r : Call B) (x : Idx) : Outcome (Sys P B) :=
  if s.bufDisk r.b then
    .next {s with pc := update s.pc p (.wait r x false),lock := none}
  else
    (freeChain (num+1) {s with info := update s.info x.i0 {s.info x.i0 with b := none}}
      x.i0).bind fun s => .next {s with pc := update s.pc p .out,lock := none}

def lockStep (s : Sys P B) (p : P) (pc : Pc B) : Outcome (Sys P B) :=
  if s.lock=none then .next {s with lock := some (.proc p),pc := update s.pc p pc}
  else .blocked

/-- The next section of virtio_disk_rw in a process. -/
def procStep (s : Sys P B) (p : P) : Outcome (Sys P B) :=
  match s.pc p with
  | .out => .blocked
  | .enter r => lockStep s p (.alloc r)
  | .alloc r => allocStep s p r
  | .short r awake => if awake then lockStep s p (.alloc r) else .blocked
  | .notify r x => .next (notifyStep s p r x)
  | .test r x => testStep s p r x
  | .wait r x awake => if awake then lockStep s p (.test r x) else .blocked

/-- The log when the interrupt handler sees a completion. -/
def Log.see (l : Log P B) : Log P B :=
  match l.posted with
  | [] => l
  | n::rest => {l with posted := rest,done := l.done++[n]}

/-- One turn of the loop of virtio_disk_intr. A null b->disk would fault. -/
def intrStep (s : Sys P B) : Outcome (Sys P B) :=
  if s.lock≠some .intr then .blocked
  else if s.usedIdx=s.usedDev then .next {s with lock := none}
  else
    let id := s.usedRing (s.usedIdx.toNat%num)
    if (s.info id).status≠0 then .panic "virtio_disk_intr status"
    else
      match (s.info id).b with
      | none => .panic "kerneltrap"
      | some b => .next {s with
          bufDisk := update s.bufDisk b false
          pc := fun p => wakeBuf b (s.pc p)
          usedIdx := s.usedIdx+1
          log := s.log.see}

def opAt (ops : ℕ→Op) : Addr B→Option Op
  | .op i => some (ops i)
  | _ => none

def readJob (s : Sys P B) (number head : ℕ) : Job B :=
  let d0 := s.desc head
  let d1 := s.desc d0.next
  let d2 := s.desc d1.next
  ⟨number,head,opAt s.ops d0.addr,d1.addr,d2.addr⟩

def fetchStep (s : Sys P B) : Outcome (Sys P B) :=
  if s.lastAvail=s.availIdx then .blocked
  else
    let head := s.availRing (s.lastAvail.toNat%num)
    .next {s with
      lastAvail := s.lastAvail+1
      working := s.working++[readJob s (s.log.queue.headD 0) head]
      log := {s.log with queue := s.log.queue.tail}}

def writeStatus (info : ℕ→Info B) : Addr B→ℕ→Info B
  | .status i => update info i {info i with status := 0}
  | _ => info

/-- The device completes the request at position k of those it has read. -/
def completeStep (s : Sys P B) (k : ℕ) : Outcome (Sys P B) :=
  match s.working[k]? with
  | none => .blocked
  | some job => .next {s with
      info := writeStatus s.info job.status
      usedRing := update s.usedRing (s.usedDev.toNat%num) job.head
      usedDev := s.usedDev+1
      working := s.working.eraseIdx k
      log := {s.log with posted := s.log.posted++[job.number]}}

inductive Act (P B : Type*) where
  | call (p : P) (r : Call B)
  | go (p : P)
  | kill (p : P)
  | interrupt
  | handle
  | fetch
  | complete (k : ℕ)
  deriving DecidableEq

/-- A step of a process, of the device or of the interrupt handler. -/
def diskStep (s : Sys P B) : Act P B→Outcome (Sys P B)
  | .call p r =>
    if s.pc p=.out then .next {s with pc := update s.pc p (.enter r)} else .blocked
  | .go p => procStep s p
  | .kill p => .next {s with pc := update s.pc p (wakeKilled (s.pc p))}
  | .interrupt => if s.lock=none then .next {s with lock := some .intr} else .blocked
  | .handle => intrStep s
  | .fetch => fetchStep s
  | .complete k => completeStep s k

end Machine

end Xv6Riscv.VirtioDisk
