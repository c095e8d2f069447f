import Xv6Riscv.LogMachine

/-!
# The buffer cache of kernel/bio.c

A fixed set of buffers stands for the blocks of the disk. bget looks a block
up under bcache.lock and only then waits for the buffer's sleep-lock, and
brelse gives the sleep-lock back before it takes bcache.lock again, so every
call is cut at these points. Recycling throws the data of a buffer away. The
driver addresses the disk by the block number alone; the device number of a
buffer is only compared in bget.

Specification state, which no branch of the code reads: the contents that a
holder gave each block last, whether a holder has changed a buffer since it
last called bwrite or log_write, and the bpins that each process has to undo.
-/

namespace Xv6Riscv.BufferCache

open Function
open Transition LogMachine

def nbuf : ℕ := maxOpBlocks*3

def nproc : ℕ := 64

/-- struct buf. Its links are the position in the cache's list. -/
structure Buf where
  valid : Bool
  dev : UInt32
  blockno : UInt32
  refcnt : ℕ
  data : Block

def Buf.key (b : Buf) : UInt32×UInt32 := (b.dev,b.blockno)

inductive Task where
  | idle
  | waiting (i : ℕ)
  | locked (i : ℕ)
  | releasing (i : ℕ)
  deriving DecidableEq

/-- bcache, the disk, the sleep-locks and the processes that use them. -/
structure Cache where
  buf : ℕ→Buf
  lru : List ℕ
  disk : ℕ→Block
  holder : ℕ→Option ℕ
  task : ℕ→Task
  dirty : ℕ→Bool
  pins : ℕ→ℕ→ℕ
  given : UInt32×UInt32→Option Block

/-- The sector that virtio_disk_rw computes, a product of two 32-bit integers. -/
def sector (blockno : UInt32) : ℕ := (blockno*2).toNat

def inc (n : ℕ) : ℕ := (n+1)%2^32

def dec (n : ℕ) : ℕ := (n+(2^32-1))%2^32

/-- The cache after binit: each buffer was put at the front of the list. -/
def binit (disk : ℕ→Block) : Cache where
  buf := fun _ => ⟨false,0,0,0,fun _ => 0⟩
  lru := (List.range nbuf).reverse
  disk := disk
  holder := fun _ => none
  task := fun _ => .idle
  dirty := fun _ => false
  pins := fun _ _ => 0
  given := fun _ => none

def Cache.setBuf (c : Cache) (i : ℕ) (b : Buf) : Cache :=
  {c with buf := update c.buf i b}

def Cache.setTask (c : Cache) (p : ℕ) (t : Task) : Cache :=
  {c with task := update c.task p t}

/-- bget of kernel/bio.c. -/
def bget (c : Cache) (p : ℕ) (dev blockno : UInt32) : Outcome Cache :=
  match c.lru.find? fun i => (c.buf i).dev=dev ∧ (c.buf i).blockno=blockno with
  | some i =>
    .next ((c.setBuf i {c.buf i with refcnt := inc (c.buf i).refcnt}).setTask p (.waiting i))
  | none =>
    match c.lru.reverse.find? fun i => (c.buf i).refcnt=0 with
    | some i =>
      .next ((c.setBuf i {c.buf i with
        dev := dev,blockno := blockno,valid := false,refcnt := 1}).setTask p (.waiting i))
    | none => .panic "bget: no buffers"

/-- acquiresleep at the end of bget; the process sleeps while the lock is taken. -/
def acquiresleep (c : Cache) (p i : ℕ) : Outcome Cache :=
  if c.holder i=none then
    .next {c with holder := update c.holder i (some p)
                  task := update c.task p (.locked i)}
  else .blocked

/-- The rest of bread: read the block unless the buffer is valid, and return. -/
def fill (c : Cache) (p i : ℕ) : Cache :=
  (if (c.buf i).valid then c
    else c.setBuf i {c.buf i with data := c.disk (sector (c.buf i).blockno),valid := true}).setTask
      p .idle

def setData (c : Cache) (i : ℕ) (data : Block) : Cache :=
  {c.setBuf i {c.buf i with data := data} with
    dirty := update c.dirty i true
    given := update c.given (c.buf i).key (some data)}

def bwrite (c : Cache) (p i : ℕ) : Outcome Cache :=
  if c.holder i=some p then
    .next {c with disk := update c.disk (sector (c.buf i).blockno) (c.buf i).data
                  dirty := update c.dirty i false}
  else .panic "bwrite"

/-- brelse of kernel/bio.c. -/
def brelse (c : Cache) (p i : ℕ) : Outcome Cache :=
  if c.holder i=some p then
    .next {c with holder := update c.holder i none
                  task := update c.task p (.releasing i)}
  else .panic "brelse"

/-- The rest of brelse: drop the reference, and move an unused buffer to the
front of the list. -/
def drop (c : Cache) (p i : ℕ) : Cache :=
  let refcnt := dec (c.buf i).refcnt
  {c with buf := update c.buf i {c.buf i with refcnt := refcnt}
          lru := if refcnt=0 then i::c.lru.erase i else c.lru
          task := update c.task p .idle}

/-- bpin of kernel/bio.c. -/
def bpin (c : Cache) (i : ℕ) : Cache :=
  c.setBuf i {c.buf i with refcnt := inc (c.buf i).refcnt}

/-- bunpin of kernel/bio.c. -/
def bunpin (c : Cache) (i : ℕ) : Cache :=
  c.setBuf i {c.buf i with refcnt := dec (c.buf i).refcnt}

def go (c : Cache) (p : ℕ) : Outcome Cache :=
  match c.task p with
  | .idle => .blocked
  | .waiting i => acquiresleep c p i
  | .locked i => .next (fill c p i)
  | .releasing i => .next (drop c p i)

/-- The contents that holders have given a block, or else those of the disk
at boot. -/
def contents (disk : ℕ→Block) (c : Cache) (key : UInt32×UInt32) : Block :=
  (c.given key).getD (disk (sector key.2))

/-- The buffer a process refers to from inside bread or brelse. -/
def Task.buffer : Task→Option ℕ
  | .idle => none
  | .waiting i => some i
  | .locked i => some i
  | .releasing i => some i

/-! ### One buffer for a block -/

structure SingleCopy (c : Cache) : Prop where
  order : ∀ i,i∈c.lru ↔ i<nbuf
  single : ∀ i<nbuf,∀ j<nbuf,(c.buf i).dev≠0→(c.buf i).key=(c.buf j).key→i=j
  tasks : ∀ p i,(c.task p).buffer=some i→i<nbuf
  held : ∀ i p,c.holder i=some p→i<nbuf

lemma singleCopy_binit (disk : ℕ→Block) : SingleCopy (binit disk) where
  order := fun i => by simp only [binit,List.mem_reverse,List.mem_range]
  single := fun i _ j _ hdev => absurd rfl hdev
  tasks := fun p i hi => by simp only [binit,Task.buffer,reduceCtorEq] at hi
  held := fun i p hp => by simp only [binit,reduceCtorEq] at hp

variable {i p : ℕ}

lemma key_update (buf : ℕ→Buf) (b : Buf) (hb : b.key=(buf i).key) (j : ℕ) :
    (update buf i b j).key=(buf j).key := by grind

lemma single_congr {buf buf' : ℕ→Buf}
    (h : ∀ i<nbuf,∀ j<nbuf,(buf i).dev≠0→(buf i).key=(buf j).key→i=j)
    (hkey : ∀ i,(buf' i).key=(buf i).key) :
    ∀ i<nbuf,∀ j<nbuf,(buf' i).dev≠0→(buf' i).key=(buf' j).key→i=j := by
  intro i hi j hj hd
  have hdev : (buf' i).dev=(buf i).dev := congrArg Prod.fst (hkey i)
  grind

lemma tasks_update {task : ℕ→Task} (h : ∀ p i,(task p).buffer=some i→i<nbuf) (p : ℕ) {t : Task}
    (ht : ∀ i,t.buffer=some i→i<nbuf) :
    ∀ q i,(update task p t q).buffer=some i→i<nbuf := by grind

inductive BgetCases (c : Cache) (p : ℕ) (dev blockno : UInt32) : Outcome Cache→Prop where
  | hit (i : ℕ) : i∈c.lru→(c.buf i).key=(dev,blockno)→
      BgetCases c p dev blockno (.next ((c.setBuf i {c.buf i with
        refcnt := inc (c.buf i).refcnt}).setTask p (.waiting i)))
  | recycle (i : ℕ) : i∈c.lru→(c.buf i).refcnt=0→
      (∀ j∈c.lru,(c.buf j).key≠(dev,blockno))→
      BgetCases c p dev blockno (.next ((c.setBuf i {c.buf i with
        dev := dev,blockno := blockno,valid := false,refcnt := 1}).setTask p (.waiting i)))
  | full : BgetCases c p dev blockno (.panic "bget: no buffers")

lemma bget_cases (c : Cache) (p : ℕ) (dev blockno : UInt32) :
    BgetCases c p dev blockno (bget c p dev blockno) := by
  unfold bget
  split
  · rename_i i hi
    have hkey := List.find?_some hi
    simp only [Bool.decide_and,Bool.and_eq_true,decide_eq_true_eq] at hkey
    exact .hit i (List.mem_of_find?_eq_some hi) (Prod.ext hkey.1 hkey.2)
  · rename_i hnone
    split
    · rename_i i hi
      refine .recycle i (List.mem_reverse.mp (List.mem_of_find?_eq_some hi))
        (by simpa only [decide_eq_true_eq] using List.find?_some hi) fun j hj hkey => ?_
      have hno := List.find?_eq_none.mp hnone j hj
      simp only [decide_eq_true_eq] at hno
      exact hno ⟨congrArg Prod.fst hkey,congrArg Prod.snd hkey⟩
    · exact .full

variable {c' c : Cache}

lemma singleCopy_bget {dev blockno : UInt32} (h : SingleCopy c)
    (ht : bget c p dev blockno=.next c') : SingleCopy c' := by
  have hcases := bget_cases c p dev blockno
  rw [ht] at hcases
  cases hcases with
  | hit i hi hkey =>
    refine ⟨h.order,single_congr h.single fun j => key_update c.buf (i:=i) _ (by rfl) j,
      tasks_update h.tasks p fun j hj => ?_,h.held⟩
    exact Option.some.inj hj ▸ (h.order i).mp hi
  | recycle i hi hz hno =>
    have hother : ∀ j<nbuf,(c.buf j).key≠(dev,blockno) := fun j hj => hno j ((h.order j).mpr hj)
    refine ⟨h.order,fun j hj k hk hd hjk => ?_,tasks_update h.tasks p fun j hj => ?_,h.held⟩
    · simp only [Cache.setTask,Cache.setBuf] at hd hjk
      by_cases hji : j=i <;> by_cases hki : k=i
      · rw [hji,hki]
      · rw [hji,update_self,update_of_ne hki] at hjk
        exact absurd hjk.symm (hother k hk)
      · rw [hki,update_self,update_of_ne hji] at hjk
        exact absurd hjk (hother j hj)
      · grind [h.single]
    · exact Option.some.inj hj ▸ (h.order i).mp hi

lemma bget_key {dev blockno : UInt32}
    (ht : bget c p dev blockno=.next c') (hi : (c.buf i).refcnt≠0) :
    (c'.buf i).key=(c.buf i).key := by
  have hcases := bget_cases c p dev blockno
  rw [ht] at hcases
  cases hcases with
  | hit j hj hkey => exact key_update c.buf (i:=j) _ (by rfl) i
  | recycle j hj hz hno =>
    have hne : i≠j := by
      rintro rfl
      exact hi hz
    simp only [Cache.setTask,Cache.setBuf,update_of_ne hne]

inductive GoCases (c : Cache) (p : ℕ) : Cache→Prop where
  | lock (i : ℕ) : c.task p=.waiting i→c.holder i=none→
      GoCases c p {c with holder := update c.holder i (some p)
                          task := update c.task p (.locked i)}
  | fill (i : ℕ) : c.task p=.locked i→GoCases c p (fill c p i)
  | drop (i : ℕ) : c.task p=.releasing i→GoCases c p (drop c p i)

lemma go_cases (ht : go c p=.next c') : GoCases c p c' := by
  unfold go at ht
  split at ht
  · cases ht
  · rename_i i hi
    unfold acquiresleep at ht
    split_ifs at ht with hfree
    rw [Outcome.next.injEq] at ht
    exact ht ▸ .lock i hi hfree
  · rename_i i hi
    rw [Outcome.next.injEq] at ht
    exact ht ▸ .fill i hi
  · rename_i i hi
    rw [Outcome.next.injEq] at ht
    exact ht ▸ .drop i hi

lemma fill_key (c : Cache) (p i j : ℕ) : ((fill c p i).buf j).key=(c.buf j).key := by
  unfold fill
  split_ifs
  · rfl
  · exact key_update c.buf _ (by rfl) j

lemma drop_key (c : Cache) (p i j : ℕ) : ((drop c p i).buf j).key=(c.buf j).key := by
  simp only [drop]
  grind [Buf.key]

lemma singleCopy_go (h : SingleCopy c) (ht : go c p=.next c') :
    SingleCopy c' := by
  have hidle : ∀ i,Task.idle.buffer=some i→i<nbuf := by
    simp only [Task.buffer,reduceCtorEq,false_implies,implies_true]
  cases go_cases ht with
  | lock i hi hfree =>
    have hlt := h.tasks p i (by rw [hi,Task.buffer])
    refine ⟨h.order,h.single,tasks_update h.tasks p fun j hj => ?_,fun j q hj => ?_⟩
    · exact Option.some.inj hj ▸ hlt
    · dsimp only at hj
      rw [update_apply] at hj
      split_ifs at hj with hji
      · exact hji ▸ hlt
      · exact h.held j q hj
  | fill i hi =>
    refine ⟨?_,single_congr h.single (fill_key c p i),?_,?_⟩
    · intro j
      rw [fill]
      split_ifs <;> exact h.order j
    · rw [fill]
      split_ifs <;> exact tasks_update h.tasks p hidle
    · rw [fill]
      split_ifs <;> exact h.held
  | drop i hi =>
    have hlt := h.tasks p i (by rw [hi,Task.buffer])
    refine ⟨fun j => ?_,single_congr h.single (drop_key c p i),tasks_update h.tasks p hidle,h.held⟩
    simp only [drop]
    split_ifs
    · grind [h.order]
    · exact h.order j

lemma go_key (ht : go c p=.next c') (i : ℕ) :
    (c'.buf i).key=(c.buf i).key := by
  cases go_cases ht with
  | lock j hj hfree => rfl
  | fill j hj => exact fill_key c p j i
  | drop j hj => exact drop_key c p j i

lemma brelse_buf (ht : brelse c p i=.next c') : c'.buf=c.buf := by
  grind [brelse]

lemma singleCopy_brelse (h : SingleCopy c) (ht : brelse c p i=.next c') : SingleCopy c' := by
  unfold brelse at ht
  split_ifs at ht with hheld
  cases ht
  refine ⟨h.order,h.single,tasks_update h.tasks p fun j hj => ?_,fun j q hj => ?_⟩
  · exact Option.some.inj hj ▸ h.held i p hheld
  · dsimp only at hj
    rw [update_apply] at hj
    split_ifs at hj
    exact h.held j q hj

end Xv6Riscv.BufferCache
