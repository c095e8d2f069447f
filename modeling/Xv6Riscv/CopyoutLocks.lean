import Xv6Riscv.Console
import Xv6Riscv.CopyReturns
import Xv6Riscv.InodeLayer
import Xv6Riscv.LockTrace
import Xv6Riscv.PriorityReports
import Xv6Riscv.VmInvariant

/-!
# copyout under locks

wait, waitx, piperead, consoleread and readi call copyout while they hold locks.
They release them after copyout has returned; if handle_cowbit exits inside
copyout, nobody does. exit then takes wait_lock, and sched panics if a spin lock
is held. Each path is followed from the call to its end with the locks it takes
and gives back. Between two copies other processes run, so the memory that each
copy finds is an input.
-/

namespace Xv6Riscv.CopyoutLocks

open Transition PageAllocator PageTables AddressSpace SpaceOwnership
open ProcMachine ProcTimes PriorityReports VmMachine VmInvariant CopyReturns LockTrace

inductive Lock where
  | waitLock
  | proc (i : Slot)
  | pipe
  | cons
  | buffer (b : ℕ)
  | inode
  deriving DecidableEq, Repr

inductive PathEnd where
  | returned (r : ℤ)
  | asleep
  | exited
  deriving DecidableEq, Repr

structure Path where
  events : List (Event Lock)
  last : PathEnd
  deriving DecidableEq, Repr

def Path.after (es : List (Event Lock)) (p : Path) : Path := {p with events := es++p.events}

/-- The memory that a copyout finds: the allocator and the page table. -/
abbrev Memory : Type := Kmem×PageTable

/-- What wait and waitx find in one pass over the table. -/
inductive Scan where
  | found (i : Slot)
  | failed
  | sleeps

/-- The pass of waitx: the first ZOMBIE child, else whether to give up or to sleep. -/
def waitxScan (table : Slot→Proc) (w : Slot) : Scan :=
  match (List.finRange nproc).find? fun i =>
    decide ((table i).parent=some w ∧ (table i).state=.zombie) with
  | some i => .found i
  | none => if (∀ i,(table i).parent≠some w) ∨ (table w).killed then .failed else .sleeps

/-- The bytes of an int, the lowest first. -/
def intBytes (x : UInt32) : List UInt8 :=
  [x.toUInt8,(x>>>8).toUInt8,(x>>>16).toUInt8,(x>>>24).toUInt8]

/-- One pass of wait over the table. After a pass without a ZOMBIE child the caller
sleeps and looks again. -/
def waitScan (table : Slot→Proc) (w : Slot) (addr : ℕ) (mem : Memory) (again : Outcome Path) :
    List Slot→Bool→Outcome Path
  | [],havekids =>
    if havekids=false ∨ (table w).killed=true then .next ⟨[.release .waitLock],.returned (-1)⟩
    else again.bind fun p => .next (p.after [.release .waitLock])
  | i::rest,havekids =>
    if (table i).parent=some w then
      if (table i).state=.zombie then
        let found (r : ℤ) : Path :=
          ⟨[.acquire (.proc i),.release (.proc i),.release .waitLock],.returned r⟩
        if addr=0 then .next (found (table i).pid)
        else
          (copyout mem.1 mem.2 addr (intBytes (table i).xstate.toUInt32)).bind fun
            | (_,_,.done) => .next (found (table i).pid)
            | (_,_,.failed) => .next (found (-1))
            | (_,_,.exited) => .next ⟨[.acquire (.proc i)],.exited⟩
      else
        (waitScan table w addr mem again rest true).bind fun p =>
          .next (p.after [.acquire (.proc i),.release (.proc i)])
    else waitScan table w addr mem again rest havekids

/-- The loop of wait and waitx, given the table that each pass finds. -/
def waitLoop (w : Slot) (addr : ℕ) (mem : Memory) : List (Slot→Proc)→Outcome Path
  | [] => .next ⟨[],.asleep⟩
  | table::later =>
    (waitScan table w addr mem (waitLoop w addr mem later) (List.finRange nproc) false).bind
      fun p => .next (p.after [.acquire .waitLock])

def pipereadLoop (mem : ℕ→Memory) (addr : ℕ) : ℕ→List UInt8→Outcome Path
  | i,[] => .next ⟨[.release .pipe],.returned i⟩
  | i,ch::rest =>
    (copyout (mem i).1 (mem i).2 (addr+i) [ch]).bind fun
      | (_,_,.done) => pipereadLoop mem addr (i+1) rest
      | (_,_,.failed) => .next ⟨[.release .pipe],.returned i⟩
      | (_,_,.exited) => .next ⟨[],.exited⟩

inductive PipeWait where
  | killed
  | never
  | ready (data : List UInt8)

def piperead (mem : ℕ→Memory) (addr : ℕ) (n : ℤ) (naps : ℕ) (wake : PipeWait) : Outcome Path :=
  let tail : Outcome Path :=
    match wake with
    | .killed => .next ⟨[.release .pipe],.returned (-1)⟩
    | .never => .next ⟨[.release .pipe],.asleep⟩
    | .ready data => pipereadLoop mem addr 0 (data.take n.toNat)
  tail.bind fun p => .next (p.after (.acquire .pipe::sleeps .pipe naps))

/-- The loop of consoleread with n bytes to go after j bytes. Each input byte comes
after a number of sleeps; at the end of the input the reader is killed or sleeps on. -/
def consolereadLoop (mem : ℕ→Memory) (killed : Bool) (dst : ℕ) :
    ℕ→ℕ→List (ℕ×UInt8)→Outcome Path
  | j,0,_ => .next ⟨[.release .cons],.returned j⟩
  | _,_+1,[] => .next ⟨[.release .cons],if killed then .returned (-1) else .asleep⟩
  | j,n+1,(naps,c)::rest =>
    let tail : Outcome Path :=
      if c=Console.ctrlD then .next ⟨[.release .cons],.returned j⟩
      else
        (copyout (mem j).1 (mem j).2 (dst+j) [c]).bind fun
          | (_,_,.done) =>
            if c=Console.newline then .next ⟨[.release .cons],.returned (j+1)⟩
            else consolereadLoop mem killed dst (j+1) n rest
          | (_,_,.failed) => .next ⟨[.release .cons],.returned j⟩
          | (_,_,.exited) => .next ⟨[],.exited⟩
    tail.bind fun p => .next (p.after (sleeps .cons naps))

/-- consoleread of kernel/console.c with a user destination. -/
def consoleread (mem : ℕ→Memory) (killed : Bool) (dst : ℕ) (n : ℤ) (input : List (ℕ×UInt8)) :
    Outcome Path :=
  (consolereadLoop mem killed dst 0 n.toNat input).bind fun p =>
    .next (p.after [.acquire .cons])

/-- What readi sees of a file: for each block its number on disk and its bytes, or
none if bmap returns 0. -/
abbrev Blocks : Type := ℕ→Option (ℕ×InodeLayer.Block)

def roundBytes (data : InodeLayer.Block) (off left : ℕ) : List UInt8 :=
  InodeLayer.readBytes data (off%InodeLayer.bsize) (InodeLayer.chunk off left)

/-- The loop of readi and the end of fileread, one round for each unit of fuel. -/
def readiLoop (mem : ℕ→Memory) (block : Blocks) : ℕ→ℕ→ℕ→ℕ→ℕ→ℕ→Outcome Path
  | 0,_,_,_,_,tot => .next ⟨[.release .inode],.returned tot⟩
  | fuel+1,j,dst,off,left,tot =>
    if left=0 then .next ⟨[.release .inode],.returned tot⟩
    else
      match block (off/InodeLayer.bsize) with
      | none => .next ⟨[.release .inode],.returned tot⟩
      | some (b,data) =>
        let m := InodeLayer.chunk off left
        (copyout (mem j).1 (mem j).2 dst (roundBytes data off left)).bind fun
          | (_,_,.done) =>
            (readiLoop mem block fuel (j+1) (dst+m) (off+m) (left-m) (tot+m)).bind fun p =>
              .next (p.after [.acquire (.buffer b),.release (.buffer b)])
          | (_,_,.failed) =>
            .next ⟨[.acquire (.buffer b),.release (.buffer b),.release .inode],.returned (-1)⟩
          | (_,_,.exited) => .next ⟨[.acquire (.buffer b)],.exited⟩

def readLength (size off n : ℕ) : ℕ :=
  if size<off ∨ 2^32≤off+n then 0 else if size<off+n then size-off else n

/-- fileread of kernel/file.c on an inode, with readi of kernel/fs.c. -/
def fileread (mem : ℕ→Memory) (block : Blocks) (size off dst n : ℕ) : Outcome Path :=
  (readiLoop mem block (readLength size off n) 0 dst off (readLength size off n) 0).bind fun p =>
    .next (p.after [.acquire .inode])

inductive Request where
  | wait (addr : ℕ) (scans : List (Slot→Proc))
  | waitx (addr : ℕ) (scans : List (Slot→Proc))
  | piperead (addr : ℕ) (n : ℤ) (naps : ℕ) (wake : PipeWait)
  | consoleread (killed : Bool) (dst : ℕ) (n : ℤ) (input : List (ℕ×UInt8))
  | fileread (block : Blocks) (size off dst n : ℕ)

/-- The path of a request by process w, given the memory that each copy finds. -/
def Request.path (w : Slot) (mem : ℕ→Memory) : Request→Outcome Path
  | .wait addr scans => waitLoop w addr (mem 0) scans
  | .waitx addr scans => waitLoop w addr (mem 0) scans
  | .piperead addr n naps wake => CopyoutLocks.piperead mem addr n naps wake
  | .consoleread killed dst n input => CopyoutLocks.consoleread mem killed dst n input
  | .fileread block size off dst n => CopyoutLocks.fileread mem block size off dst n

abbrev Copy : Type := ℕ×List UInt8

def waitCopies (w : Slot) (addr : ℕ) : List (Slot→Proc)→List Copy
  | [] => []
  | table::later =>
    match waitxScan table w with
    | .found i => if addr=0 then [] else [(addr,intBytes (table i).xstate.toUInt32)]
    | .failed => []
    | .sleeps => waitCopies w addr later

def byteCopies (addr : ℕ) : ℕ→List UInt8→List Copy
  | _,[] => []
  | i,ch::rest => (addr+i,[ch])::byteCopies addr (i+1) rest

/-- The bytes that consoleread copies: up to ^D, or up to and with a newline. -/
def lineBytes : ℕ→List (ℕ×UInt8)→List UInt8
  | n+1,(_,c)::rest =>
    if c=Console.ctrlD then [] else c::if c=Console.newline then [] else lineBytes n rest
  | _,_ => []

def readCopies (block : Blocks) : ℕ→ℕ→ℕ→ℕ→List Copy
  | 0,_,_,_ => []
  | fuel+1,dst,off,left =>
    if left=0 then []
    else
      match block (off/InodeLayer.bsize) with
      | none => []
      | some (_,data) =>
        let m := InodeLayer.chunk off left
        (dst,roundBytes data off left)::readCopies block fuel (dst+m) (off+m) (left-m)

def Request.copies (w : Slot) : Request→List Copy
  | .wait addr scans => waitCopies w addr scans
  | .waitx addr scans => waitCopies w addr scans
  | .piperead addr n _ (.ready data) => byteCopies addr 0 (data.take n.toNat)
  | .piperead .. => []
  | .consoleread _ dst n input => byteCopies dst 0 (lineBytes n.toNat input)
  | .fileread block size off dst n =>
    readCopies block (readLength size off n) dst off (readLength size off n)

/-- The free pages cover the COW pages that a copy reaches. -/
def covers (m : Memory) (c : Copy) : Bool :=
  ((budget m.1 m.2).breakPages (reached m.2 c.1 c.2.length)).isSome

/-- The free pages cover each copy that is made in the memory it finds. The copies
end with the first one that cannot be stored. -/
def covered (mem : ℕ→Memory) : ℕ→List Copy→Bool
  | _,[] => true
  | j,c::rest =>
    covers (mem j) c && (!writable (mem j).2 c.1 c.2.length || covered mem (j+1) rest)

section Steps

variable {mem : ℕ→Memory} {m : Memory} {own : ℕ→ℕ} {n j : ℕ}

lemma copyout_ending (h : SpaceInv m.1 m.2 own n) (c : Copy) :
    ∃ k pt,copyout m.1 m.2 c.1 c.2=.next (k,pt,if covers m c then
      if writable m.2 c.1 c.2.length then .done else .failed else .exited) := by
  obtain ⟨k,pt,r,hrun,-,hres⟩ := copyout_exact h c.1 c.2
  refine ⟨k,pt,?_⟩
  rw [covers]
  cases hm : (budget m.1 m.2).breakPages (reached m.2 c.1 c.2.length) with
  | none =>
    rw [hm] at hres
    rw [hrun,hres]
    rfl
  | some b =>
    rw [hm] at hres
    rw [hrun,hres.2]
    rfl

/-- The rest of a path that holds these locks and has these copies left: it returns
and gives all locks back, or the process exits with lock l. -/
structure Ends (mem : ℕ→Memory) (j : ℕ) (copies : List Copy) (held : List Lock) (l : Lock)
    (p : Path) : Prop where
  exits : p.last≠PathEnd.exited ↔ covered mem j copies=true
  released : p.last≠PathEnd.exited→ replay held p.events=some []
  kept : p.last=PathEnd.exited→∃ held',replay held p.events=some held' ∧ l∈held'

variable {copies rest : List Copy} {held held' : List Lock} {l : Lock} {p : Path}
  {es : List (Event Lock)} {e : PathEnd} {c : Copy}

lemma Ends.done (he : e≠.exited) (hcopies : covered mem j copies=true)
    (hes : replay held es=some []) : Ends mem j copies held l ⟨es,e⟩ :=
  ⟨⟨fun _ => hcopies,fun _ => he⟩,fun _ => hes,fun hex => absurd hex he⟩

lemma Ends.exit (hcopies : covered mem j copies=false) (hes : replay held es=some held')
    (hl : l∈held') : Ends mem j copies held l ⟨es,.exited⟩ := by
  refine ⟨⟨fun hex => absurd rfl hex,fun hcov => ?_⟩,fun hex => absurd rfl hex,
    fun _ => ⟨held',hes,hl⟩⟩
  grind

lemma Ends.after (h : Ends mem j copies held' l p) (hes : replay held es=some held') :
    Ends mem j copies held l (p.after es) := by
  have hreplay : replay held (p.after es).events=replay held' p.events := by
    rw [Path.after,replay_append,hes,Option.bind_some]
  refine ⟨h.exits,fun hex => hreplay.trans (h.released hex),fun hex => ?_⟩
  obtain ⟨held1,hheld1,hl⟩ := h.kept hex
  exact ⟨held1,hreplay.trans hheld1,hl⟩

/-- A path with these locks taken or given back in front. -/
lemma Ends.bind_after {o : Outcome Path} (h : ∃ p,o=.next p ∧ Ends mem j copies held' l p)
    (hes : replay held es=some held') :
    ∃ p,(o.bind fun p => .next (p.after es))=.next p ∧ Ends mem j copies held l p := by
  obtain ⟨p,rfl,hends⟩ := h
  exact ⟨_,rfl,hends.after hes⟩

lemma Ends.of_tail (hcov : covers (mem j) c=true) (hw : writable (mem j).2 c.1 c.2.length=true)
    (h : Ends mem (j+1) rest held l p) : Ends mem j (c::rest) held l p := by
  refine ⟨?_,h.released,h.kept⟩
  rw [covered,hcov,hw,h.exits]
  rfl

lemma Ends.copy (hmem : SpaceInv (mem j).1 (mem j).2 own n) (c : Copy) (rest : List Copy)
    {f : Kmem×PageTable×CopyResult→Outcome Path}
    (hdone : ∀ k pt,covers (mem j) c=true→writable (mem j).2 c.1 c.2.length=true→
      ∃ p,f (k,pt,.done)=.next p ∧ Ends mem j (c::rest) held l p)
    (hfailed : ∀ k pt,covered mem j (c::rest)=true→
      ∃ p,f (k,pt,.failed)=.next p ∧ Ends mem j (c::rest) held l p)
    (hexited : ∀ k pt,covered mem j (c::rest)=false→
      ∃ p,f (k,pt,.exited)=.next p ∧ Ends mem j (c::rest) held l p) :
    ∃ p,(copyout (mem j).1 (mem j).2 c.1 c.2).bind f=.next p ∧ Ends mem j (c::rest) held l p := by
  obtain ⟨k,pt,hrun⟩ := copyout_ending hmem c
  rw [hrun,bind_next]
  cases hcov : covers (mem j) c with
  | false =>
    refine hexited k pt ?_
    rw [covered,hcov,Bool.false_and]
  | true =>
    rw [if_pos rfl]
    cases hw : writable (mem j).2 c.1 c.2.length with
    | true => exact hdone k pt hcov hw
    | false =>
      refine hfailed k pt ?_
      rw [covered,hcov,hw]
      rfl

end Steps

section Loops

variable {mem : ℕ→Memory} {own : ℕ→ℕ→ℕ} {pages : ℕ→ℕ}

lemma pipereadLoop_ends (hmem : ∀ j,SpaceInv (mem j).1 (mem j).2 (own j) (pages j)) (addr : ℕ)
    (data : List UInt8) (i : ℕ) : ∃ p,pipereadLoop mem addr i data=.next p ∧
      Ends mem i (byteCopies addr i data) [.pipe] .pipe p := by
  induction data generalizing i with
  | nil => exact ⟨_,rfl,.done nofun rfl (replay_release _)⟩
  | cons ch rest ih =>
    rw [pipereadLoop,byteCopies]
    refine Ends.copy (hmem i) (addr+i,[ch]) _ ?_ ?_ ?_
    · intro _ _ hcov hw
      obtain ⟨p,hp,hends⟩ := ih (i+1)
      exact ⟨p,hp,hends.of_tail hcov hw⟩
    · intro _ _ hcov
      exact ⟨_,rfl,.done nofun hcov (replay_release _)⟩
    · intro _ _ hcov
      exact ⟨_,rfl,.exit hcov rfl List.mem_cons_self⟩

lemma piperead_ends (hmem : ∀ j,SpaceInv (mem j).1 (mem j).2 (own j) (pages j)) (w : Slot)
    (addr : ℕ) (n : ℤ) (naps : ℕ) (wake : PipeWait) : ∃ p,piperead mem addr n naps wake=.next p ∧
      Ends mem 0 ((Request.piperead addr n naps wake).copies w) [] .pipe p := by
  have hes : replay [] (.acquire .pipe::sleeps .pipe naps)=some [Lock.pipe] := by
    rw [replay_acquire _ List.not_mem_nil,replay_sleeps naps List.not_mem_nil]
  refine Ends.bind_after ?_ hes
  cases wake with
  | killed | never => exact ⟨_,rfl,.done nofun rfl (replay_release [])⟩
  | ready data => exact pipereadLoop_ends hmem addr (data.take n.toNat) 0

lemma consolereadLoop_ends (hmem : ∀ j,SpaceInv (mem j).1 (mem j).2 (own j) (pages j))
    (killed : Bool) (dst : ℕ) (input : List (ℕ×UInt8)) (j n : ℕ) :
    ∃ p,consolereadLoop mem killed dst j n input=.next p ∧
      Ends mem j (byteCopies dst j (lineBytes n input)) [.cons] .cons p := by
  induction input generalizing j n with
  | nil =>
    cases n with
    | zero => exact ⟨_,rfl,.done nofun rfl (replay_release _)⟩
    | succ n =>
      refine ⟨_,rfl,.done ?_ rfl (replay_release _)⟩
      cases killed <;> nofun
  | cons c rest ih =>
    obtain ⟨naps,c⟩ := c
    cases n with
    | zero => exact ⟨_,rfl,.done nofun rfl (replay_release _)⟩
    | succ n =>
      rw [consolereadLoop]
      refine Ends.bind_after ?_ (replay_sleeps naps List.not_mem_nil)
      rw [lineBytes]
      by_cases hd : c=Console.ctrlD
      · rw [if_pos hd,if_pos hd]
        exact ⟨_,rfl,.done nofun rfl (replay_release _)⟩
      rw [if_neg hd,if_neg hd,byteCopies]
      refine Ends.copy (hmem j) (dst+j,[c]) _ ?_ ?_ ?_
      · intro _ _ hcov hw
        dsimp only
        by_cases hnl : c=Console.newline
        · rw [if_pos hnl,if_pos hnl]
          exact ⟨_,rfl,.of_tail hcov hw (.done nofun rfl (replay_release _))⟩
        · obtain ⟨p,hp,hends⟩ := ih (j+1) n
          rw [if_neg hnl,if_neg hnl]
          exact ⟨p,hp,hends.of_tail hcov hw⟩
      · intro _ _ hcov
        exact ⟨_,rfl,.done nofun hcov (replay_release _)⟩
      · intro _ _ hcov
        exact ⟨_,rfl,.exit hcov rfl List.mem_cons_self⟩

lemma readiLoop_ends (hmem : ∀ j,SpaceInv (mem j).1 (mem j).2 (own j) (pages j))
    (block : Blocks) (fuel j dst off left tot : ℕ) :
    ∃ p,readiLoop mem block fuel j dst off left tot=.next p ∧
      Ends mem j (readCopies block fuel dst off left) [.inode] .inode p := by
  induction fuel generalizing j dst off left tot with
  | zero => exact ⟨_,rfl,.done nofun rfl (replay_release _)⟩
  | succ fuel ih =>
    rw [readiLoop,readCopies]
    by_cases hleft : left=0
    · rw [if_pos hleft,if_pos hleft]
      exact ⟨_,rfl,.done nofun rfl (replay_release _)⟩
    rw [if_neg hleft,if_neg hleft]
    cases hblock : block (off/InodeLayer.bsize) with
    | none => exact ⟨_,rfl,.done nofun rfl (replay_release _)⟩
    | some found =>
      obtain ⟨b,data⟩ := found
      have hfresh : Lock.buffer b∉[Lock.inode] := by grind
      refine Ends.copy (hmem j) (dst,roundBytes data off left) _ ?_ ?_ ?_
      · intro _ _ hcov hw
        obtain ⟨p,hp,hends⟩ := Ends.bind_after (ih (j+1) (dst+InodeLayer.chunk off left)
          (off+InodeLayer.chunk off left) (left-InodeLayer.chunk off left)
          (tot+InodeLayer.chunk off left)) (replay_bracket [] hfresh)
        exact ⟨p,hp,hends.of_tail hcov hw⟩
      · intro _ _ hcov
        refine ⟨_,rfl,.done nofun hcov ?_⟩
        rw [replay_bracket _ hfresh]
        exact replay_release _
      · intro _ _ hcov
        exact ⟨_,rfl,.exit hcov (replay_acquire _ hfresh) (.tail _ (.head _))⟩

def zombieOf (table : Slot→Proc) (w : Slot) (i : Slot) : Bool :=
  decide ((table i).parent=some w ∧ (table i).state=.zombie)

def scanCopies (table : Slot→Proc) (w : Slot) (addr : ℕ) (later : List Copy) (slots : List Slot)
    (havekids : Bool) : List Copy :=
  match slots.find? (zombieOf table w) with
  | some i => if addr=0 then [] else [(addr,intBytes (table i).xstate.toUInt32)]
  | none =>
    if (havekids=false ∧ ∀ i∈slots,(table i).parent≠some w) ∨ (table w).killed=true then []
    else later

lemma waitScan_ends {own : ℕ→ℕ} {n : ℕ} (hmem : SpaceInv (mem 0).1 (mem 0).2 own n)
    (table : Slot→Proc) (w : Slot) (addr : ℕ) {again : Path} {later : List Copy}
    (hagain : Ends mem 0 later [] .waitLock again) (slots : List Slot) (havekids : Bool) :
    ∃ p,waitScan table w addr (mem 0) (.next again) slots havekids=.next p ∧
      Ends mem 0 (scanCopies table w addr later slots havekids) [.waitLock] .waitLock p := by
  induction slots generalizing havekids with
  | nil =>
    rw [waitScan,scanCopies,List.find?_nil]
    simp only [List.not_mem_nil,false_imp_iff,implies_true,and_true]
    by_cases hstop : havekids=false ∨ (table w).killed=true
    · rw [if_pos hstop,if_pos hstop]
      exact ⟨_,rfl,.done nofun rfl (replay_release _)⟩
    · rw [if_neg hstop,if_neg hstop]
      exact ⟨_,rfl,hagain.after (replay_release _)⟩
  | cons i rest ih =>
    have hfresh : Lock.proc i∉[Lock.waitLock] := by grind
    rw [waitScan]
    by_cases hparent : (table i).parent=some w
    · rw [if_pos hparent]
      by_cases hzombie : (table i).state=.zombie
      · have hback : replay [Lock.waitLock]
            [.acquire (.proc i),.release (.proc i),.release .waitLock]=some [] := by
          rw [replay_bracket _ hfresh,replay_release,replay_nil]
        rw [if_pos hzombie,scanCopies,List.find?_cons_of_pos (by simp [zombieOf,hparent,hzombie])]
        dsimp only
        by_cases haddr : addr=0
        · rw [if_pos haddr,if_pos haddr]
          exact ⟨_,rfl,.done nofun rfl hback⟩
        rw [if_neg haddr,if_neg haddr]
        refine Ends.copy hmem (addr,intBytes (table i).xstate.toUInt32) [] ?_ ?_ ?_
        · intro _ _ hcov hw
          exact ⟨_,rfl,.of_tail hcov hw (.done nofun rfl hback)⟩
        · intro _ _ hcov
          exact ⟨_,rfl,.done nofun hcov hback⟩
        · intro _ _ hcov
          exact ⟨_,rfl,.exit hcov (replay_acquire _ hfresh) (.tail _ (.head _))⟩
      · have hcopies : scanCopies table w addr later (i::rest) havekids=
            scanCopies table w addr later rest true := by
          grind [scanCopies,zombieOf]
        rw [if_neg hzombie,hcopies]
        exact Ends.bind_after (ih true) (replay_bracket [] hfresh)
    · have hcopies : scanCopies table w addr later (i::rest) havekids=
          scanCopies table w addr later rest havekids := by
        grind [scanCopies,zombieOf]
      rw [if_neg hparent,hcopies]
      exact ih havekids

lemma waitLoop_ends {own : ℕ→ℕ} {n : ℕ} (hmem : SpaceInv (mem 0).1 (mem 0).2 own n) (w : Slot)
    (addr : ℕ) (scans : List (Slot→Proc)) : ∃ p,waitLoop w addr (mem 0) scans=.next p ∧
      Ends mem 0 (waitCopies w addr scans) [] .waitLock p := by
  induction scans with
  | nil => exact ⟨_,rfl,.done nofun rfl rfl⟩
  | cons table later ih =>
    obtain ⟨again,hagain,hlater⟩ := ih
    obtain ⟨p,hp,hends⟩ := waitScan_ends hmem table w addr hlater (List.finRange nproc) false
    have hcopies : waitCopies w addr (table::later)=
        scanCopies table w addr (waitCopies w addr later) (List.finRange nproc) false := by
      have hscan : waitxScan table w=match (List.finRange nproc).find? (zombieOf table w) with
          | some i => .found i
          | none =>
            if (∀ i,(table i).parent≠some w) ∨ (table w).killed then .failed else .sleeps := rfl
      rw [waitCopies,hscan,scanCopies]
      simp only [List.mem_finRange,true_imp_iff,true_and]
      cases (List.finRange nproc).find? (zombieOf table w) with
      | some i => rfl
      | none =>
        dsimp only
        by_cases hstop : (∀ i,(table i).parent≠some w) ∨ (table w).killed=true
        · rw [if_pos hstop,if_pos hstop]
        · rw [if_neg hstop,if_neg hstop]
    rw [waitLoop,hagain,hp,bind_next,hcopies]
    exact ⟨_,rfl,hends.after (replay_acquire [] List.not_mem_nil)⟩

end Loops

def Request.lock : Request→Lock
  | .wait .. => .waitLock
  | .waitx .. => .waitLock
  | .piperead .. => .pipe
  | .consoleread .. => .cons
  | .fileread .. => .inode

lemma path_ends {mem : ℕ→Memory} {own : ℕ→ℕ→ℕ} {pages : ℕ→ℕ}
    (hmem : ∀ j,SpaceInv (mem j).1 (mem j).2 (own j) (pages j)) (w : Slot) (r : Request) :
    ∃ p,r.path w mem=.next p ∧ Ends mem 0 (r.copies w) [] r.lock p := by
  cases r with
  | wait addr scans | waitx addr scans => exact waitLoop_ends (hmem 0) w addr scans
  | piperead addr n naps wake => exact piperead_ends hmem w addr n naps wake
  | consoleread killed dst n input =>
    exact Ends.bind_after (consolereadLoop_ends hmem killed dst input 0 n.toNat)
      (replay_acquire [] List.not_mem_nil)
  | fileread block size off dst n =>
    exact Ends.bind_after (readiLoop_ends hmem block (readLength size off n) 0 dst off _ 0)
      (replay_acquire [] List.not_mem_nil)

/-- The process table and the memory of all processes. -/
structure WaitSys where
  table : Slot→Proc
  vm : VmSys

/-- A table that the process table, set_priority and the clock reach, with a memory
that the processes reach. -/
def Reached (s : WaitSys) : Prop :=
  (∃ pbs as t,run (timedStep pbs clockPiece) bootTimed as=.next t ∧ s.table=t.sys.proc) ∧
    ∃ mode first text n bs v,boot first text n=.next v ∧ v.kmem.oom=false ∧
      run (step mode) v bs=.next s.vm

def ReachedMemory (w : Slot) (m : Memory) : Prop :=
  ∃ mode first text n as v s q,boot first text n=.next v ∧ v.kmem.oom=false ∧
    run (step mode) v as=.next s ∧ s.proc w=some q ∧ m=(s.kmem,q.pagetable)

lemma ReachedMemory.space {w : Slot} {m : Memory} (h : ReachedMemory w m) :
    ∃ own n,SpaceInv m.1 m.2 own n := by
  obtain ⟨mode,first,text,n,as,v,s,q,hboot,hoom,hrun,hq,rfl⟩ := h
  exact ⟨_,_,(vmInv_run ((boot_spec hboot hoom).inv mode) hrun).space w q hq⟩

lemma reached_memory {s : WaitSys} (h : Reached s) {w : Slot} {q : VmProc}
    (hq : s.vm.proc w=some q) : ReachedMemory w (s.vm.kmem,q.pagetable) := by
  obtain ⟨-,mode,first,text,n,bs,v,hboot,hoom,hrun⟩ := h
  exact ⟨mode,first,text,n,bs,v,s.vm,q,hboot,hoom,hrun,hq,rfl⟩

/-- copyout has returned to the path each time, and the path has released each lock
that it has acquired. -/
def Path.Returns (p : Path) : Prop := p.last≠.exited ∧ Balanced p.events

/-- On every path that copies under locks, with any reachable memory at each copy,
copyout returns and the locks are released if and only if the free pages cover the
COW pages that each copy reaches. -/
theorem copyout_returns_iff (w : Slot) {mem : ℕ→Memory} (hmem : ∀ j,ReachedMemory w (mem j))
    (r : Request) : ∃ p,r.path w mem=.next p ∧
      (p.Returns ↔ covered mem 0 (r.copies w)=true) := by
  choose own pages hspace using fun j => (hmem j).space
  obtain ⟨p,hp,hends⟩ := path_ends hspace w r
  exact ⟨p,hp,fun h => hends.exits.mp h.1,fun h => ⟨hends.exits.mpr h,
    hends.released (hends.exits.mpr h)⟩⟩

/-- The state after these actions on a machine with forty pages. -/
def stateAfter (as : List TimedAction) (bs : List Action) : Outcome WaitSys :=
  (run (timedStep true clockPiece) bootTimed as).bind fun t =>
    (boot (physTop-40) 0 0).bind fun v0 => (run (step .cow) v0 bs).bind fun v => .next ⟨t.sys.proc,v⟩

lemma stateAfter_reached {as : List TimedAction} {bs : List Action} {s : WaitSys}
    (h : stateAfter as bs=.next s) : Reached s := by
  obtain ⟨t,ht,h⟩ := bind_eq_next.mp h
  obtain ⟨v0,hv0,h⟩ := bind_eq_next.mp h
  obtain ⟨v,hv,h⟩ := bind_eq_next.mp h
  cases h
  obtain ⟨v1,hv1,hoom⟩ := exists_of_state? (o:=boot (physTop-40) 0 0) (f:=fun s => s.kmem.oom)
    (v:=false) (by decide +kernel)
  rw [hv0] at hv1
  cases hv1
  exact ⟨⟨true,as,t,ht,rfl⟩,.cow,_,_,_,bs,v0,hv0,hoom,hv⟩

/-- The first process has grown by a page, and its child has exited. -/
def bereaved : List TimedAction×List Action :=
  (forkAndRun++List.map TimedAction.proc
    ([.call 1 (.exit 0)]++List.replicate 132 (.advance 1 true)++[.schedule 0]),
    [.sbrk 0 4096,.fork 0,.exit 1])

/-- A byte read from a pipe arrives in a page that is shared with a ZOMBIE child. -/
theorem pipe_byte_returns : ∃ s q p,Reached s ∧ s.vm.proc 0=some q ∧
    (Request.piperead 4096 1 2 (.ready [7])).path 0 (fun _ => (s.vm.kmem,q.pagetable))=.next p ∧
      p.Returns := by
  obtain ⟨s,hs,hobs⟩ := exists_of_state? (o:=stateAfter bereaved.1 bereaved.2)
    (f:=fun s => (s.vm.proc 0).map fun q => covers (s.vm.kmem,q.pagetable) (4096,[7]))
    (v:=some true) (by decide +kernel)
  obtain ⟨q,hq,hcov⟩ := Option.map_eq_some_iff.mp hobs
  have hreached := stateAfter_reached hs
  obtain ⟨p,hp,hiff⟩ := copyout_returns_iff 0 (fun _ => reached_memory hreached hq)
    (.piperead 4096 1 2 (.ready [7]))
  refine ⟨s,q,p,hreached,hq,hp,hiff.mpr ?_⟩
  rw [Request.copies,show List.take (Int.toNat 1) [(7 : UInt8)]=[7] from rfl,byteCopies,byteCopies,
    covered,covered,Bool.or_true,Bool.and_true]
  exact hcov

/-- A child has exited and the kernel has taken all free pages. -/
def starved : List ProcTimes.TimedAction×List Action :=
  (bereaved.1,bereaved.2++List.replicate 26 .kernelAlloc)

/-- With no free page, wait exits inside copyout with wait_lock and the lock of the
child, and piperead with the lock of the pipe. -/
theorem copyout_exits_under_locks : ∃ s q p p',Reached s ∧ s.vm.proc 0=some q ∧
    s.vm.kmem.freelist=[] ∧
    (Request.wait 4096 [s.table]).path 0 (fun _ => (s.vm.kmem,q.pagetable))=.next p ∧
    p=⟨[.acquire .waitLock,.acquire (.proc 1)],.exited⟩ ∧ ¬p.Returns ∧
    (Request.piperead 4096 1 0 (.ready [7])).path 0 (fun _ => (s.vm.kmem,q.pagetable))=.next p' ∧
    p'=⟨[.acquire .pipe],.exited⟩ ∧ ¬p'.Returns := by
  obtain ⟨s,hs,hobs⟩ := exists_of_state? (o:=stateAfter starved.1 starved.2)
    (f:=fun s => (s.vm.proc 0).map fun q => (s.vm.kmem.freelist,
      ((Request.wait 4096 [s.table]).path 0 fun _ => (s.vm.kmem,q.pagetable)).state?,
      ((Request.piperead 4096 1 0 (.ready [7])).path 0 fun _ => (s.vm.kmem,q.pagetable)).state?))
    (v:=some ([],some ⟨[.acquire .waitLock,.acquire (.proc 1)],.exited⟩,
      some ⟨[.acquire .pipe],.exited⟩)) (by decide +kernel)
  obtain ⟨q,hq,hpair⟩ := Option.map_eq_some_iff.mp hobs
  simp only [Prod.mk.injEq] at hpair
  exact ⟨s,q,_,_,stateAfter_reached hs,hq,hpair.1,eq_next_of_state? hpair.2.1,rfl,
    fun h => h.1 rfl,eq_next_of_state? hpair.2.2,rfl,fun h => h.1 rfl⟩

/-- If copyout runs exit on the path of a call, the acquires and releases so far
are in order and leave the lock of the call held, so that acquiring it again, as
exit does with wait_lock, fails. -/
theorem exited_holds_lock (w : Slot) {mem : ℕ→Memory} (hmem : ∀ j,ReachedMemory w (mem j))
    (r : Request) {p : Path} (hp : r.path w mem=.next p) (hexit : p.last=.exited) :
    ∃ held,replay [] p.events=some held ∧ r.lock∈held ∧ replay held [.acquire r.lock]=none := by
  choose own pages hspace using fun j => (hmem j).space
  obtain ⟨p1,hp1,hends⟩ := path_ends hspace w r
  rw [hp] at hp1
  cases hp1
  obtain ⟨held,hheld,hl⟩ := hends.kept hexit
  exact ⟨held,hheld,hl,replay_acquire_held _ hl⟩

/-- A wait whose copyout finds no memory exits with wait_lock held. -/
theorem starved_wait_holds : ∃ s q p held,Reached s ∧ s.vm.proc 0=some q ∧
    (Request.wait 4096 [s.table]).path 0 (fun _ => (s.vm.kmem,q.pagetable))=.next p ∧
    replay [] p.events=some held ∧ Lock.waitLock∈held ∧
    replay held [.acquire .waitLock]=none := by
  obtain ⟨s,hs,hobs⟩ := exists_of_state? (o:=stateAfter starved.1 starved.2)
    (f:=fun s => (s.vm.proc 0).map fun q =>
      ((Request.wait 4096 [s.table]).path 0 fun _ => (s.vm.kmem,q.pagetable)).state?.map Path.last)
    (v:=some (some .exited)) (by decide +kernel)
  obtain ⟨q,hq,hlast⟩ := Option.map_eq_some_iff.mp hobs
  obtain ⟨p,hp,hexit⟩ := exists_of_state? hlast
  have hreached := stateAfter_reached hs
  obtain ⟨held,hheld,hl,hagain⟩ :=
    exited_holds_lock 0 (fun _ => reached_memory hreached hq) _ hp hexit
  exact ⟨s,q,p,held,hreached,hq,hp,hheld,hl,hagain⟩

end Xv6Riscv.CopyoutLocks
