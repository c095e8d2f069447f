import Xv6Riscv.BufferLog

/-!
# The log's buffers on one device

While all blocks belong to the log's device, the blocks listed in the header
are cached and pinned until install_trans unpins them, every buffer that bread
returns has the contents that holders gave its block, and write_log therefore
copies the data that log_write recorded. The committing process is one process
among others: what its local variables stand for survives every action of the
others because its buffers are held.
-/

namespace Xv6Riscv.PinnedBuffers

open Function
open Transition BufferCache CacheCoherence BufferLog LogReservation
open LogMachine (Block LogHeader LogArea logSize maxOpBlocks absorbIndex recordBlock putHeader
  mkfsArea)

/-- What a process knows about a buffer between bread and brelse. -/
structure Holds (c : Cache) (p i : ℕ) (key : UInt32×UInt32) : Prop where
  held : c.holder i=some p
  returned : c.task p≠.locked i
  key_eq : (c.buf i).key=key

/-- Buffer j is as it was, and so is its block on the disk. -/
structure Same (c c' : Cache) (j : ℕ) : Prop where
  key_eq : (c'.buf j).key=(c.buf j).key
  data : (c'.buf j).data=(c.buf j).data
  dirty : c'.dirty j=c.dirty j
  holder : c'.holder j=c.holder j
  disk : c'.disk (sector (c.buf j).blockno)=c.disk (sector (c.buf j).blockno)

section Frame

variable {dev : UInt32} {disk : ℕ→Block} {listed : Finset UInt32} {c c' : Cache} {p q i j : ℕ}

lemma same_bget {b : UInt32} (hj : (c.buf j).refcnt≠0) (ht : bget c p dev b=.next c') :
    Same c c' j := by
  have hcases := bget_cases c p dev b
  rw [ht] at hcases
  cases hcases with
  | hit i hi hkey =>
    obtain ⟨h1,_,h3⟩ := recount_fields c.buf i (inc (c.buf i).refcnt) j
    exact ⟨h1,h3,rfl,rfl,rfl⟩
  | recycle i hi hz hno =>
    have hji : j≠i := by
      rintro rfl
      exact hj hz
    have hbuf : update c.buf i {c.buf i with
        dev := dev,blockno := b,valid := false,refcnt := 1} j=c.buf j := update_of_ne hji _ _
    exact ⟨congrArg Buf.key hbuf,congrArg Buf.data hbuf,rfl,rfl,rfl⟩

lemma bget_waiting {b : UInt32} (ht : bget c p dev b=.next c') :
    ∃ i,c'.task=update c.task p (.waiting i) ∧ (c'.buf i).key=(dev,b) := by
  have hcases := bget_cases c p dev b
  rw [ht] at hcases
  cases hcases with
  | hit i hi hkey =>
    refine ⟨i,rfl,?_⟩
    rw [←hkey]
    exact (recount_fields c.buf i _ i).1
  | recycle i hi hz hno =>
    refine ⟨i,rfl,?_⟩
    simp only [Cache.setTask,Cache.setBuf,update_self,Buf.key]

lemma same_go (hc : Counted dev listed c) (hheld : c.holder j=some q) (hret : c.task q≠.locked j)
    (ht : go c p=.next c') : Same c c' j := by
  cases go_cases ht with
  | lock i hi hfree =>
    have hji : j≠i := by grind
    exact ⟨rfl,rfl,rfl,update_of_ne hji _ _,rfl⟩
  | fill i hi =>
    have hji : j≠i := by
      rintro rfl
      have hp := hc.locked p j hi
      grind
    have hbuf : (fill c p i).buf j=c.buf j := by
      rw [fill]
      split_ifs
      · rfl
      · simp only [Cache.setTask,Cache.setBuf,update_of_ne hji]
    refine ⟨congrArg Buf.key hbuf,congrArg Buf.data hbuf,?_,?_,?_⟩ <;> rw [fill] <;> split_ifs <;> rfl
  | drop i hi =>
    obtain ⟨h1,_,h3⟩ := recount_fields c.buf i (dec (c.buf i).refcnt) j
    exact ⟨h1,h3,rfl,rfl,rfl⟩

lemma same_setData (hji : j≠i) (data : Block) : Same c (setData c i data) j := by
  have hbuf : (setData c i data).buf j=c.buf j := by
    simp only [setData,Cache.setBuf,update_of_ne hji]
  refine ⟨congrArg Buf.key hbuf,congrArg Buf.data hbuf,?_,rfl,rfl⟩
  simp only [setData,update_of_ne hji]

lemma same_bwrite (h : CacheInv dev disk listed c) (hdev : dev≠0) (hheld : c.holder j=some q)
    (hji : j≠i) (ht : bwrite c p i=.next c') : Same c c' j := by
  unfold bwrite at ht
  split_ifs at ht with hp
  cases ht
  obtain ⟨hi,hikey,hismall⟩ := h.of_held hp
  obtain ⟨hj,hjkey,hjsmall⟩ := h.of_held hheld
  refine ⟨rfl,rfl,update_of_ne hji _ _,rfl,update_of_ne (fun heq => hji ?_) _ _⟩
  have hb := sector_inj hjsmall hismall heq
  refine h.copies.single j hj i hi ?_ ?_
  · rw [show (c.buf j).dev=dev from congrArg Prod.fst hjkey]
    exact hdev
  · rw [hjkey,hikey,hb]

lemma same_brelse (hji : j≠i) (ht : brelse c p i=.next c') : Same c c' j := by
  unfold brelse at ht
  split_ifs at ht with hp
  cases ht
  exact ⟨rfl,rfl,rfl,update_of_ne hji _ _,rfl⟩

lemma same_count (i n : ℕ) (pins : ℕ→ℕ→ℕ) : Same c {c with
    buf := update c.buf i {c.buf i with refcnt := n},pins := pins} j := by
  obtain ⟨h1,_,h3⟩ := recount_fields c.buf i n j
  exact ⟨h1,h3,rfl,rfl,rfl⟩

lemma Holds.of_same {key : UInt32×UInt32} (h : Holds c q i key) (hs : Same c c' i)
    (ht : c'.task q≠.locked i) : Holds c' q i key :=
  ⟨hs.holder.trans h.held,ht,hs.key_eq.trans h.key_eq⟩

end Frame

/-- A buffer of block b in a local variable of the commit code, unchanged so far. -/
structure Reg (dev : UInt32) (c : Cache) (q i : ℕ) (b : UInt32) : Prop extends
    Holds c q i (dev,b) where
  clean : c.dirty i=false

def target (g : LogArea) (lh : LogHeader) : CommitPc→Option UInt32
  | .logTo tail => if tail<lh.n then some (logBlock g tail) else none
  | .logFrom tail _ => some (lh.blockAt tail)
  | .head _ => some (UInt32.ofNat g.start)
  | .insLog tail => if tail<lh.n then some (logBlock g tail) else none
  | .insHome tail _ => some (lh.blockAt tail)
  | _ => none

/-- What the local variables of the commit code stand for at pc. -/
def Regs (g : LogArea) (dev : UInt32) (c : Cache) (lh : LogHeader) (q : ℕ) : CommitPc→Prop
  | .logFrom tail dst => tail<lh.n ∧ Reg dev c q dst (logBlock g tail)
  | .logCopy tail dst src =>
    tail<lh.n ∧ dst≠src ∧ Reg dev c q dst (logBlock g tail) ∧ Reg dev c q src (lh.blockAt tail)
  | .logWrite tail dst src =>
    tail<lh.n ∧ dst≠src ∧ Holds c q dst (dev,logBlock g tail) ∧
      Reg dev c q src (lh.blockAt tail) ∧ (c.buf dst).data=(c.buf src).data
  | .logRelFrom tail dst src =>
    tail<lh.n ∧ dst≠src ∧ Reg dev c q dst (logBlock g tail) ∧ Reg dev c q src (lh.blockAt tail) ∧
      (c.buf dst).data=(c.buf src).data ∧ c.disk (sector (logBlock g tail))=(c.buf dst).data
  | .logRelTo tail dst => Reg dev c q dst (logBlock g tail)
  | .headFill _ i => Reg dev c q i (UInt32.ofNat g.start)
  | .headWrite _ i => Holds c q i (dev,UInt32.ofNat g.start)
  | .headRel _ i => Reg dev c q i (UInt32.ofNat g.start)
  | .insHome tail src => tail<lh.n ∧ Reg dev c q src (logBlock g tail)
  | .insCopy tail src dst =>
    tail<lh.n ∧ src≠dst ∧ Reg dev c q src (logBlock g tail) ∧ Reg dev c q dst (lh.blockAt tail)
  | .insWrite tail src dst =>
    tail<lh.n ∧ src≠dst ∧ Reg dev c q src (logBlock g tail) ∧ Holds c q dst (dev,lh.blockAt tail)
  | .insUnpin tail src dst =>
    tail<lh.n ∧ src≠dst ∧ Reg dev c q src (logBlock g tail) ∧ Reg dev c q dst (lh.blockAt tail) ∧
      c.disk (sector (lh.blockAt tail))=(c.buf dst).data
  | .insRelLog tail src dst =>
    src≠dst ∧ Reg dev c q src (logBlock g tail) ∧ Reg dev c q dst (lh.blockAt tail)
  | .insRelHome tail dst => Reg dev c q dst (lh.blockAt tail)
  | _ => True

/-- The committing process is where its local variables say. -/
structure PcOk (g : LogArea) (dev : UInt32) (c : Cache) (lh : LogHeader) (q : ℕ) (pc : CommitPc) :
    Prop where
  slot : q<nproc
  reading : ∀ i,c.task q=.waiting i ∨ c.task q=.locked i→
    ∃ b,target g lh pc=some b ∧ (c.buf i).key=(dev,b)
  regs : Regs g dev c lh q pc

section Regs

variable {g : LogArea} {dev : UInt32} {disk : ℕ→Block} {listed : Finset UInt32} {c c' : Cache}
  {lh : LogHeader} {p q i j : ℕ} {b : UInt32} {pc : CommitPc}

lemma Reg.of_same (h : Reg dev c q i b) (hs : Same c c' i) (ht : c'.task q≠.locked i) :
    Reg dev c' q i b :=
  ⟨Holds.of_same h.toHolds hs ht,hs.dirty.trans h.clean⟩

lemma Holds.blockno (h : Holds c q i (dev,b)) : (c.buf i).blockno=b := congrArg Prod.snd h.key_eq

lemma Regs.frame (h : Regs g dev c lh q pc)
    (hsame : ∀ j,c.holder j=some q→c.task q≠.locked j→Same c c' j ∧ c'.task q≠.locked j) :
    Regs g dev c' lh q pc := by
  have hreg : ∀ {i b},Reg dev c q i b→Reg dev c' q i b := fun hr =>
    hr.of_same (hsame _ hr.held hr.returned).1 (hsame _ hr.held hr.returned).2
  have hholds : ∀ {i key},Holds c q i key→Holds c' q i key := fun hr =>
    hr.of_same (hsame _ hr.held hr.returned).1 (hsame _ hr.held hr.returned).2
  have hdata : ∀ {i key},Holds c q i key→(c'.buf i).data=(c.buf i).data := fun hr =>
    (hsame _ hr.held hr.returned).1.data
  have hdisk : ∀ {i b},Holds c q i (dev,b)→c'.disk (sector b)=c.disk (sector b) := by
    intro i b hr
    rw [←hr.blockno]
    exact (hsame _ hr.held hr.returned).1.disk
  cases pc with
  | logFrom | insHome => exact ⟨h.1,hreg h.2⟩
  | logCopy tail dst src =>
    obtain ⟨hlt,hne,hd,hs⟩ := h
    exact ⟨hlt,hne,hreg hd,hreg hs⟩
  | logWrite tail dst src =>
    obtain ⟨hlt,hne,hd,hs,heq⟩ := h
    refine ⟨hlt,hne,hholds hd,hreg hs,?_⟩
    rw [hdata hd,hdata hs.toHolds,heq]
  | logRelFrom tail dst src =>
    obtain ⟨hlt,hne,hd,hs,heq,hon⟩ := h
    refine ⟨hlt,hne,hreg hd,hreg hs,?_,?_⟩
    · rw [hdata hd.toHolds,hdata hs.toHolds,heq]
    · rw [hdisk hd.toHolds,hdata hd.toHolds,hon]
  | logRelTo | headFill | headRel | insRelHome => exact hreg h
  | headWrite erase i => exact hholds h
  | insCopy tail src dst =>
    obtain ⟨hlt,hne,hs,hd⟩ := h
    exact ⟨hlt,hne,hreg hs,hreg hd⟩
  | insWrite tail src dst =>
    obtain ⟨hlt,hne,hs,hd⟩ := h
    exact ⟨hlt,hne,hreg hs,hholds hd⟩
  | insUnpin tail src dst =>
    obtain ⟨hlt,hne,hs,hd,hon⟩ := h
    refine ⟨hlt,hne,hreg hs,hreg hd,?_⟩
    rw [hdisk hd.toHolds,hdata hd.toHolds,hon]
  | insRelLog tail src dst =>
    obtain ⟨hne,hs,hd⟩ := h
    exact ⟨hne,hreg hs,hreg hd⟩
  | start | logTo | head | insLog | finish => trivial

lemma PcOk.frame (h : PcOk g dev c lh q pc) (hc : Counted dev listed c) (hs : SingleCopy c)
    (htouch : Touches c c') (htask : c'.task q=c.task q)
    (hsame : ∀ j,c.holder j=some q→c.task q≠.locked j→Same c c' j) : PcOk g dev c' lh q pc := by
  refine ⟨h.slot,fun i hi => ?_,h.regs.frame fun j hj hret => ⟨hsame j hj hret,?_⟩⟩
  · rw [htask] at hi
    obtain ⟨b,hb,hkey⟩ := h.reading i hi
    have hbuffer : (c.task q).buffer=some i := by
      rcases hi with hi|hi <;> rw [hi,Task.buffer]
    refine ⟨b,hb,?_⟩
    rw [touches_key htouch (hc.of_task (hs.tasks q i hbuffer) hbuffer),hkey]
  · rw [htask]
    exact hret

lemma clean_of_locked (h : CacheInv dev disk listed c) (hlock : c.task p=.locked i) :
    c.dirty i=false := by
  apply Bool.eq_false_of_not_eq_true
  intro hd
  obtain ⟨q,hq,hret⟩ := h.coherent.changed i hd
  rw [h.counts.locked p i hlock,Option.some.injEq] at hq
  exact hret (hq ▸ hlock)

def afterGo (task : Task) (pc : CommitPc) : CommitPc :=
  match task with
  | .locked i => pc.returned i
  | _ => pc

lemma regs_returned (h : PcOk g dev c lh q pc) (hlock : c.task q=.locked i)
    (hreg : ∀ b,(c.buf i).key=(dev,b)→Reg dev c' q i b)
    (hframe : Regs g dev c' lh q pc) : Regs g dev c' lh q (pc.returned i) := by
  obtain ⟨b,hb,hkey⟩ := h.reading i (Or.inr hlock)
  have hnew := hreg b hkey
  have hregs := h.regs
  cases pc with
  | logTo | insLog =>
    simp only [target,Option.ite_none_right_eq_some,Option.some.injEq] at hb
    exact ⟨hb.1,hb.2 ▸ hnew⟩
  | logFrom | insHome =>
    simp only [target,Option.some.injEq] at hb
    refine ⟨hframe.1,?_,hframe.2,hb ▸ hnew⟩
    rintro rfl
    exact hregs.2.returned hlock
  | head erase =>
    simp only [target,Option.some.injEq] at hb
    change Reg dev c' q i (UInt32.ofNat g.start)
    rw [hb]
    exact hnew
  | _ => simp only [target,reduceCtorEq] at hb

lemma PcOk.go (h : PcOk g dev c lh q pc) (hinv : CacheInv dev disk listed c)
    (ht : go c q=.next c') : PcOk g dev c' lh q (afterGo (c.task q) pc) := by
  have hsame : ∀ j,c.holder j=some q→c.task q≠.locked j→Same c c' j :=
    fun j hj hret => same_go hinv.counts hj hret ht
  cases go_cases ht with
  | lock i hi hfree =>
    have hpc : afterGo (c.task q) pc=pc := by rw [hi]; rfl
    rw [hpc]
    refine ⟨h.slot,fun j hj => ?_,h.regs.frame fun j hj hret => ⟨hsame j hj hret,?_⟩⟩
    · grind [h.reading]
    · grind
  | fill i hi =>
    have htask : (fill c q i).task q=.idle := by
      rw [fill]
      split_ifs <;> exact update_self ..
    have hholder : (fill c q i).holder=c.holder ∧ (fill c q i).dirty=c.dirty := by
      rw [fill]
      split_ifs <;> exact ⟨rfl,rfl⟩
    have hframe : Regs g dev (fill c q i) lh q pc := by
      refine h.regs.frame fun j hj hret => ⟨hsame j hj hret,?_⟩
      rw [htask]
      grind
    have hpc : afterGo (c.task q) pc=pc.returned i := by rw [hi]; rfl
    rw [hpc]
    refine ⟨h.slot,fun j hj => ?_,regs_returned h hi (fun b hkey => ⟨⟨?_,?_,?_⟩,?_⟩) hframe⟩
    · rw [htask] at hj
      grind
    · rw [hholder.1]
      exact hinv.counts.locked q i hi
    · rw [htask]
      grind
    · rw [fill_key,hkey]
    · rw [hholder.2]
      exact clean_of_locked hinv hi
  | drop i hi =>
    have htask : (drop c q i).task q=.idle := update_self ..
    have hpc : afterGo (c.task q) pc=pc := by rw [hi]; rfl
    rw [hpc]
    refine ⟨h.slot,fun j hj => ?_,h.regs.frame fun j hj hret => ⟨hsame j hj hret,?_⟩⟩
    · grind
    · grind

end Regs

/-! ### The header -/

def listedFrom (lh : LogHeader) (k : ℕ) : Finset UInt32 :=
  ((Finset.range lh.n).filter (k≤·)).image lh.blockAt

/-- The number of entries that install_trans has unpinned, none outside a commit. -/
def unpinned (s : Sys) : ℕ :=
  match s.commit with
  | some (_,pc) => pc.unpinned
  | none => 0

def listed (s : Sys) : Finset UInt32 := listedFrom s.lh (unpinned s)

/-- The header names distinct blocks of the disk and fits the log area. -/
structure HeaderOk (g : LogArea) (lh : LogHeader) : Prop where
  fits : lh.n≤logSize
  area : lh.n<g.size
  distinct : ∀ k<lh.n,∀ l<lh.n,lh.blockAt k=lh.blockAt l→k=l
  small : ∀ k<lh.n,(lh.blockAt k).toNat<2^31

lemma mem_listedFrom {lh : LogHeader} {k : ℕ} {b : UInt32} :
    b∈listedFrom lh k ↔ ∃ l,k≤l ∧ l<lh.n ∧ lh.blockAt l=b := by grind [listedFrom]

lemma listedFrom_end {lh : LogHeader} {k : ℕ} (h : lh.n≤k) : listedFrom lh k=∅ := by
  apply Finset.eq_empty_of_forall_notMem
  intro b hb
  obtain ⟨l,hk,hl,_⟩ := mem_listedFrom.mp hb
  omega

lemma listedFrom_succ {g : LogArea} {lh : LogHeader} {k : ℕ} (h : HeaderOk g lh)
    (hk : k<lh.n) : (listedFrom lh k).erase (lh.blockAt k)=listedFrom lh (k+1) := by
  grind [mem_listedFrom,h.distinct]

lemma listedFrom_record {lh : LogHeader} {b : UInt32} (hn : lh.n<logSize) :
    listedFrom (recordBlock lh b) 0=insert b (listedFrom lh 0) := by
  have hlogged : ∀ lh' : LogHeader,∀ b',b'∈listedFrom lh' 0 ↔ Logged lh' b' := by
    intro lh' b'
    rw [mem_listedFrom]
    constructor
    · rintro ⟨l,_,hl,hb⟩
      exact ⟨l,hl,hb⟩
    · rintro ⟨l,hl,hb⟩
      exact ⟨l,Nat.zero_le l,hl,hb⟩
  ext b'
  rw [Finset.mem_insert,hlogged,hlogged,logged_recordBlock hn,or_comm]

lemma headerOk_record {g : LogArea} {lh : LogHeader} {b : UInt32} (h : HeaderOk g lh)
    (hn : lh.n<logSize) (ha : lh.n+1<g.size) (hb : b.toNat<2^31) : HeaderOk g (recordBlock lh b) := by
  by_cases hl : Logged lh b
  · rw [recordBlock_of_logged hl]
    exact h
  · rw [recordBlock_of_not_logged hl]
    refine ⟨hn,ha,fun k hk l hl' heq => ?_,fun k hk => ?_⟩
    · rw [blockAt_append hn,blockAt_append hn] at heq
      dsimp only at hk hl'
      split_ifs at heq with h1 h2 h2
      · omega
      · exact absurd ⟨l,by omega,heq.symm⟩ hl
      · exact absurd ⟨k,by omega,heq⟩ hl
      · exact h.distinct k (by omega) l (by omega) heq
    · rw [blockAt_append hn]
      dsimp only at hk
      split_ifs
      · exact hb
      · exact h.small k (by omega)

/-! ### Every action -/

structure SysInv (g : LogArea) (dev : UInt32) (disk : ℕ→Block) (s : Sys) : Prop where
  cache : CacheInv dev disk (listed s) s.cache
  header : HeaderOk g s.lh
  quiet : s.commit≠none→s.ops=[]
  position : ∀ q pc,s.commit=some (q,pc)→PcOk g dev s.cache s.lh q pc

lemma sysInv_boot (g : LogArea) (dev : UInt32) (disk : ℕ→Block) (block : Fin logSize→UInt32) :
    SysInv g dev disk (boot disk block) := by
  refine ⟨?_,⟨Nat.zero_le _,g.size_pos,?_,?_⟩,fun h => absurd rfl h,fun q pc h => ?_⟩
  · have hempty : listed (boot disk block)=∅ := listedFrom_end (Nat.zero_le _)
    rw [hempty]
    exact cacheInv_binit dev disk
  · intro k hk
    exact absurd hk (Nat.not_lt_zero k)
  · intro k hk
    exact absurd hk (Nat.not_lt_zero k)
  · simp only [boot,reduceCtorEq] at h

section Steps

variable {g : LogArea} {dev : UInt32} {disk : ℕ→Block} {s t : Sys} {c : Cache} {p q i : ℕ}
  {pc pc' : CommitPc}

lemma SysInv.atPc (h : SysInv g dev disk s) (hpc : s.commit=some (q,pc))
    (hcache : CacheInv dev disk (listed s) c) (hun : pc'.unpinned=pc.unpinned)
    (hpos : PcOk g dev c s.lh q pc') : SysInv g dev disk (s.atPc q c pc') := by
  have hlisted : listed (s.atPc q c pc')=listed s := by
    simp only [listed,unpinned,Sys.atPc,hpc,hun]
  refine ⟨hlisted ▸ hcache,h.header,fun _ => h.quiet (by rw [hpc]; simp),fun q' pc'' heq => ?_⟩
  grind [Sys.atPc]

lemma pcOk_of_regs {lh : LogHeader} (hq : q<nproc)
    (ht : ∀ j,c.task q≠.waiting j ∧ c.task q≠.locked j) (hr : Regs g dev c lh q pc) :
    PcOk g dev c lh q pc := by
  refine ⟨hq,fun j hj => ?_,hr⟩
  grind

lemma sysInv_read (h : SysInv g dev disk s) (hpc : s.commit=some (q,pc))
    (hidle : s.cache.task q=.idle) (hroom : ∀ i<nbuf,(s.cache.buf i).refcnt+1<2^32) {b : UInt32}
    (hb : b.toNat<2^31) (htarget : target g s.lh pc=some b)
    (ht : (bget s.cache q dev b).bind (fun c => .next {s with cache := c})=.next t) :
    SysInv g dev disk t := by
  obtain ⟨c,hc,ht⟩ := bind_eq_next.mp ht
  cases ht
  have hpos := h.position q pc hpc
  have hcache := cacheInv_bget h.cache hpos.slot hidle hb hroom hc
  obtain ⟨i,htask,hkey⟩ := bget_waiting hc
  have htq : c.task q=.waiting i := by rw [htask,update_self]
  refine ⟨hcache,h.header,h.quiet,fun q' pc' heq => ?_⟩
  rw [hpc,Option.some.injEq,Prod.mk.injEq] at heq
  obtain ⟨rfl,rfl⟩ := heq
  refine ⟨hpos.slot,fun j hj => ⟨b,htarget,?_⟩,hpos.regs.frame fun j hj hret => ⟨?_,?_⟩⟩
  · grind
  · exact same_bget (h.cache.counts.of_holder (h.cache.copies.held j q hj) hj) hc
  · grind

lemma logBlock_toNat (hg : g.start+g.size≤2^31) {tail : ℕ} (h : tail+1<g.size) :
    (logBlock g tail).toNat<2^31 := by
  rw [logBlock,UInt32.toNat_ofNat']
  omega

lemma own_setData {listed : Finset UInt32} (h : CacheInv dev disk listed c) (hdev : dev≠0)
    {key : UInt32×UInt32} (hr : Holds c q i key) (data : Block) :
    CacheInv dev disk listed (setData c i data) ∧ Holds (setData c i data) q i key ∧
    ((setData c i data).buf i).data=data ∧ (setData c i data).task=c.task := by
  refine ⟨cacheInv_setData h hdev hr.held hr.returned data,⟨hr.held,hr.returned,?_⟩,?_,rfl⟩
  · rw [←hr.key_eq]
    simp only [setData,Cache.setBuf,update_self,Buf.key]
  · simp only [setData,Cache.setBuf,update_self]

lemma own_bwrite {listed : Finset UInt32} {c' : Cache} (h : CacheInv dev disk listed c)
    {b : UInt32} (hr : Holds c q i (dev,b)) (ht : bwrite c q i=.next c') :
    CacheInv dev disk listed c' ∧ Reg dev c' q i b ∧ c'.buf=c.buf ∧ c'.task=c.task ∧
    c'.disk (sector b)=(c.buf i).data := by
  have hcache := cacheInv_bwrite h hr.returned ht
  unfold bwrite at ht
  rw [if_pos hr.held,Outcome.next.injEq] at ht
  subst ht
  refine ⟨hcache,⟨⟨hr.held,hr.returned,hr.key_eq⟩,update_self ..⟩,rfl,rfl,?_⟩
  dsimp only
  rw [hr.blockno,update_self]

lemma own_brelse {listed : Finset UInt32} {c' : Cache} (h : CacheInv dev disk listed c)
    (hidle : c.task q=.idle) {b : UInt32} (hr : Reg dev c q i b) (ht : brelse c q i=.next c') :
    CacheInv dev disk listed c' ∧ c'.task q=.releasing i := by
  refine ⟨cacheInv_brelse h hidle hr.clean ht,?_⟩
  unfold brelse at ht
  rw [if_pos hr.held,Outcome.next.injEq] at ht
  subst ht
  exact update_self ..

lemma sysInv_unpin (h : SysInv g dev disk s) (hdev : dev≠0) {tail src dst : ℕ}
    (hpc : s.commit=some (q,.insUnpin tail src dst)) (hidle : s.cache.task q=.idle) :
    SysInv g dev disk (s.atPc q (bunpin s.cache dst) (.insRelLog tail src dst)) := by
  have hpos := h.position q _ hpc
  obtain ⟨hlt,hne,hs,hd,hon⟩ := hpos.regs
  have hlisted : listed s=listedFrom s.lh tail := by simp only [listed,unpinned,hpc,CommitPc.unpinned]
  have hmem : (s.cache.buf dst).blockno∈listed s := by
    rw [hlisted,hd.blockno]
    exact mem_listedFrom.mpr ⟨tail,le_refl _,hlt,rfl⟩
  have hcache := cacheInv_unlist h.cache hdev hd.held hd.returned hmem hd.clean
    (by rw [hd.blockno]; exact hon)
  have hlisted' : listed (s.atPc q (bunpin s.cache dst) (.insRelLog tail src dst))=
      (listed s).erase (s.cache.buf dst).blockno := by
    rw [hlisted,hd.blockno,listedFrom_succ h.header hlt]
    rfl
  refine ⟨hlisted' ▸ hcache,h.header,fun _ => h.quiet (by rw [hpc]; simp),fun q' pc' heq => ?_⟩
  simp only [Sys.atPc,Option.some.injEq,Prod.mk.injEq] at heq
  obtain ⟨rfl,rfl⟩ := heq
  refine pcOk_of_regs hpos.slot (fun j => ?_) ⟨hne,hs.of_same (same_count dst _ s.cache.pins) ?_,
    hd.of_same (same_count dst _ s.cache.pins) ?_⟩
  · change s.cache.task q≠_ ∧ s.cache.task q≠_
    rw [hidle]
    simp
  · exact hs.returned
  · exact hd.returned

lemma sysInv_clear (h : SysInv g dev disk s) {tail : ℕ} (hpc : s.commit=some (q,.insLog tail))
    (hidle : s.cache.task q=.idle) (hend : s.lh.n≤tail) :
    SysInv g dev disk {s with lh := {s.lh with n := 0},commit := some (q,.head true)} := by
  have hlisted : listed s=∅ := by
    simp only [listed,unpinned,hpc,CommitPc.unpinned]
    exact listedFrom_end hend
  have hlisted' : listed {s with lh := {s.lh with n := 0},commit := some (q,.head true)}=∅ :=
    listedFrom_end (Nat.zero_le _)
  have hcache := h.cache
  rw [hlisted] at hcache
  refine ⟨hlisted' ▸ hcache,⟨Nat.zero_le _,g.size_pos,?_,?_⟩,
    fun _ => h.quiet (by rw [hpc]; simp),fun q' pc' heq => ?_⟩
  · grind
  · grind
  · simp only [Option.some.injEq,Prod.mk.injEq] at heq
    obtain ⟨rfl,rfl⟩ := heq
    refine pcOk_of_regs (h.position _ _ hpc).slot (fun j => ?_) trivial
    rw [hidle]
    simp

lemma sysInv_commitCall (h : SysInv g dev disk s) (hdev : dev≠0) (hg : g.start+g.size≤2^31)
    (hpc : s.commit=some (q,pc)) (hidle : s.cache.task q=.idle)
    (hroom : ∀ i<nbuf,(s.cache.buf i).refcnt+1<2^32) (ht : commitCall g dev s q pc=.next t) :
    SysInv g dev disk t := by
  have hpos := h.position q pc hpc
  have hslot := hpos.slot
  have hsize := g.size_pos
  have harea := h.header.area
  have hquiet : ∀ c : Cache,c.task=s.cache.task→
      ∀ j,c.task q≠.waiting j ∧ c.task q≠.locked j := by
    grind
  have hreleasing : ∀ (c : Cache) (i : ℕ),c.task q=.releasing i→
      ∀ j,c.task q≠.waiting j ∧ c.task q≠.locked j := by
    grind
  cases pc with
  | start =>
    simp only [commitCall,Outcome.next.injEq] at ht
    subst ht
    refine h.atPc hpc h.cache ?_ (pcOk_of_regs hslot (hquiet _ rfl) ?_) <;> split_ifs <;>
      first | rfl | trivial
  | logTo tail =>
    simp only [commitCall] at ht
    split_ifs at ht with hlt
    · exact sysInv_read h hpc hidle hroom (logBlock_toNat hg (by omega))
        (by simp only [target,if_pos hlt]) ht
    · rw [Outcome.next.injEq] at ht
      exact ht ▸ h.atPc hpc h.cache rfl (pcOk_of_regs hslot (hquiet _ rfl) trivial)
  | logFrom tail dst | insHome tail src =>
    exact sysInv_read h hpc hidle hroom (h.header.small tail hpos.regs.1) rfl ht
  | logCopy tail dst src =>
    obtain ⟨hlt,hne,hd,hs⟩ := hpos.regs
    rw [commitCall,Outcome.next.injEq] at ht
    subst ht
    obtain ⟨hcache,hheld,hdata,htask⟩ :=
      own_setData h.cache hdev hd.toHolds (s.cache.buf src).data
    have hsame := same_setData (c:=s.cache) (i:=dst) hne.symm (s.cache.buf src).data
    refine h.atPc hpc hcache rfl (pcOk_of_regs hslot (hquiet _ htask)
      ⟨hlt,hne,hheld,hs.of_same hsame hs.returned,?_⟩)
    rw [hdata,hsame.data]
  | logWrite tail dst src =>
    obtain ⟨hlt,hne,hd,hs,heq⟩ := hpos.regs
    obtain ⟨c,hc,ht⟩ := bind_eq_next.mp ht
    cases ht
    obtain ⟨hcache,hreg,hbuf,htask,hon⟩ := own_bwrite h.cache hd hc
    have hsame := same_bwrite h.cache hdev hs.held hne.symm hc
    refine h.atPc hpc hcache rfl (pcOk_of_regs hslot (hquiet _ htask)
      ⟨hlt,hne,hreg,hs.of_same hsame ?_,?_,?_⟩)
    · grind
    · rw [hbuf,heq]
    · rw [hbuf,hon]
  | logRelFrom tail dst src =>
    obtain ⟨hlt,hne,hd,hs,_⟩ := hpos.regs
    obtain ⟨c,hc,ht⟩ := bind_eq_next.mp ht
    cases ht
    obtain ⟨hcache,htask⟩ := own_brelse h.cache hidle hs hc
    refine h.atPc hpc hcache rfl (pcOk_of_regs hslot (hreleasing _ _ htask)
      (hd.of_same (same_brelse hne hc) ?_))
    rw [htask]
    simp
  | logRelTo | insRelHome =>
    obtain ⟨c,hc,ht⟩ := bind_eq_next.mp ht
    cases ht
    obtain ⟨hcache,htask⟩ := own_brelse h.cache hidle hpos.regs hc
    exact h.atPc hpc hcache rfl (pcOk_of_regs hslot (hreleasing _ _ htask) trivial)
  | head erase =>
    refine sysInv_read h hpc hidle hroom ?_ rfl ht
    rw [UInt32.toNat_ofNat']
    omega
  | headFill erase i =>
    rw [commitCall,Outcome.next.injEq] at ht
    subst ht
    obtain ⟨hcache,hheld,_,htask⟩ := own_setData h.cache hdev hpos.regs.toHolds
      (putHeader (s.cache.buf i).data s.lh)
    exact h.atPc hpc hcache rfl (pcOk_of_regs hslot (hquiet _ htask) hheld)
  | headWrite erase i =>
    obtain ⟨c,hc,ht⟩ := bind_eq_next.mp ht
    cases ht
    obtain ⟨hcache,hreg,_,htask,_⟩ := own_bwrite h.cache hpos.regs hc
    exact h.atPc hpc hcache rfl (pcOk_of_regs hslot (hquiet _ htask) hreg)
  | headRel erase i =>
    obtain ⟨c,hc,ht⟩ := bind_eq_next.mp ht
    cases ht
    obtain ⟨hcache,htask⟩ := own_brelse h.cache hidle hpos.regs hc
    refine h.atPc hpc hcache ?_ (pcOk_of_regs hslot (hreleasing _ _ htask) ?_) <;> cases erase <;>
      first | rfl | trivial
  | insLog tail =>
    simp only [commitCall] at ht
    split_ifs at ht with hlt
    · exact sysInv_read h hpc hidle hroom (logBlock_toNat hg (by omega))
        (by simp only [target,if_pos hlt]) ht
    · rw [Outcome.next.injEq] at ht
      exact ht ▸ sysInv_clear h hpc hidle (by omega)
  | insCopy tail src dst =>
    obtain ⟨hlt,hne,hs,hd⟩ := hpos.regs
    rw [commitCall,Outcome.next.injEq] at ht
    subst ht
    obtain ⟨hcache,hheld,_,htask⟩ := own_setData h.cache hdev hd.toHolds (s.cache.buf src).data
    have hsame := same_setData (c:=s.cache) (i:=dst) hne (s.cache.buf src).data
    exact h.atPc hpc hcache rfl (pcOk_of_regs hslot (hquiet _ htask)
      ⟨hlt,hne,hs.of_same hsame hs.returned,hheld⟩)
  | insWrite tail src dst =>
    obtain ⟨hlt,hne,hs,hd⟩ := hpos.regs
    obtain ⟨c,hc,ht⟩ := bind_eq_next.mp ht
    cases ht
    obtain ⟨hcache,hreg,hbuf,htask,hon⟩ := own_bwrite h.cache hd hc
    have hsame := same_bwrite h.cache hdev hs.held hne hc
    refine h.atPc hpc hcache rfl (pcOk_of_regs hslot (hquiet _ htask)
      ⟨hlt,hne,hs.of_same hsame ?_,hreg,?_⟩)
    · grind
    · rw [hbuf,hon]
  | insUnpin tail src dst =>
    rw [commitCall,Outcome.next.injEq] at ht
    exact ht ▸ sysInv_unpin h hdev hpc hidle
  | insRelLog tail src dst =>
    obtain ⟨hne,hs,hd⟩ := hpos.regs
    obtain ⟨c,hc,ht⟩ := bind_eq_next.mp ht
    cases ht
    obtain ⟨hcache,htask⟩ := own_brelse h.cache hidle hs hc
    refine h.atPc hpc hcache rfl (pcOk_of_regs hslot (hreleasing _ _ htask)
      (hd.of_same (same_brelse hne.symm hc) ?_))
    rw [htask]
    simp
  | finish =>
    rw [commitCall,Outcome.next.injEq] at ht
    subst ht
    have hlisted : listed {s with commit := none}=listed s := by
      simp only [listed,unpinned,hpc,CommitPc.unpinned]
    exact ⟨hlisted ▸ h.cache,h.header,fun hne => absurd rfl hne,fun q' pc' heq => by
      simp only [reduceCtorEq] at heq⟩

lemma free_spec (h : s.free p=true) :
    p<nproc ∧ s.cache.task p=.idle ∧ ∀ q pc,s.commit=some (q,pc)→q≠p := by
  simp only [Sys.free,Bool.and_eq_true,decide_eq_true_eq,beq_iff_eq,Bool.not_eq_true'] at h
  refine ⟨h.1.1,h.1.2,fun q pc hpc heq => ?_⟩
  grind [Sys.committing]

lemma SysInv.client (h : SysInv g dev disk s) (hp : ∀ q pc,s.commit=some (q,pc)→q≠p)
    (hcache : CacheInv dev disk (listed s) c) (htouch : Touches s.cache c)
    (htask : ∀ q,q≠p→c.task q=s.cache.task q)
    (hsame : ∀ q j,q≠p→s.cache.holder j=some q→s.cache.task q≠.locked j→Same s.cache c j) :
    SysInv g dev disk {s with cache := c} := by
  refine ⟨hcache,h.header,h.quiet,fun q pc hpc => ?_⟩
  have hne := hp q pc hpc
  exact (h.position q pc hpc).frame h.cache.counts h.cache.copies htouch (htask q hne)
    (fun j => hsame q j hne)

lemma returned_unpinned (i : ℕ) (pc : CommitPc) : (pc.returned i).unpinned=pc.unpinned := by
  cases pc <;> rfl

lemma sysInv_go (h : SysInv g dev disk s) (hdev : dev≠0) (ht : go s.cache p=.next c) :
    SysInv g dev disk {s with cache := c,commit := s.advance p} := by
  have hcache := cacheInv_go h.cache hdev ht
  by_cases hp : ∀ q pc,s.commit=some (q,pc)→q≠p
  · have hadv : s.advance p=s.commit := by
      grind [Sys.advance]
    rw [hadv]
    refine h.client hp hcache (.go ht) (fun q hq => ?_)
      fun q j _ hj hret => same_go h.cache.counts hj hret ht
    cases go_cases ht with
    | lock | drop => exact update_of_ne hq _ _
    | fill i hi =>
      rw [fill]
      split_ifs <;> exact update_of_ne hq _ _
  · push Not at hp
    obtain ⟨q,pc,hpc,rfl⟩ := hp
    have hadv : s.advance q=some (q,afterGo (s.cache.task q) pc) := by
      simp only [Sys.advance,hpc,afterGo]
      split <;> simp_all
    have hlisted : listed {s with cache := c,commit := s.advance q}=listed s := by
      have hun : (afterGo (s.cache.task q) pc).unpinned=pc.unpinned := by
        unfold afterGo
        split
        · exact returned_unpinned _ pc
        · rfl
      simp only [listed,unpinned,hadv,hpc,hun]
    refine ⟨hlisted ▸ hcache,h.header,fun _ => h.quiet (by rw [hpc]; simp),fun q' pc' heq => ?_⟩
    rw [hadv,Option.some.injEq,Prod.mk.injEq] at heq
    obtain ⟨rfl,rfl⟩ := heq
    exact (h.position q pc hpc).go h.cache ht

lemma sysInv_logWrite (h : SysInv g dev disk s) (hdev : dev≠0) (hheld : s.cache.holder i=some p)
    (hret : s.cache.task p≠.locked i) (hops : s.ops≠[])
    (hroom : ∀ i<nbuf,(s.cache.buf i).refcnt+1<2^32) (ht : logWrite g s i=.next t) :
    SysInv g dev disk t := by
  have hnone : s.commit=none := by
    by_contra hne
    exact hops (h.quiet hne)
  have hun : unpinned s=0 := by simp only [unpinned,hnone]
  obtain ⟨hlt,hkey,hsmall⟩ := h.cache.of_held hheld
  unfold logWrite at ht
  dsimp only at ht
  split_ifs at ht with hfull hout hnew <;> cases ht
  · have hn : s.lh.n<logSize := by omega
    have hnot : ¬Logged s.lh (s.cache.buf i).blockno := by
      rcases absorbIndex_spec s.lh (s.cache.buf i).blockno s.lh.n 0 with ⟨hlt',_⟩|⟨_,hall⟩
      · omega
      · rintro ⟨l,hl,hb⟩
        exact hall l (Nat.zero_le l) (by omega) hb
    have hmem : (s.cache.buf i).blockno∉listed s := by
      rw [listed,hun,mem_listedFrom]
      rintro ⟨l,_,hl,hb⟩
      exact hnot ⟨l,hl,hb⟩
    have hcache := cacheInv_list h.cache hdev hheld hret hmem (hroom i hlt)
    rw [listed,hun,←listedFrom_record hn] at hcache
    refine ⟨?_,headerOk_record h.header hn (by omega) hsmall,h.quiet,fun q pc hpc => ?_⟩
    · simp only [listed,unpinned,hnone]
      exact hcache
    · exact absurd hpc (by simp only [hnone,reduceCtorEq,not_false_eq_true])
  · have hn : s.lh.n<logSize := by omega
    have hlogged : Logged s.lh (s.cache.buf i).blockno := by
      rcases absorbIndex_spec s.lh (s.cache.buf i).blockno s.lh.n 0 with ⟨hlt',hb⟩|⟨hend,_⟩
      · exact ⟨_,by omega,hb⟩
      · exact absurd (by omega) hnew
    have hmem : (s.cache.buf i).blockno∈listed s := by
      obtain ⟨l,hl,hb⟩ := hlogged
      rw [listed,hun,mem_listedFrom]
      exact ⟨l,Nat.zero_le l,hl,hb⟩
    rw [recordBlock_of_logged hlogged]
    have hcache := cacheInv_absorb h.cache hheld hret hmem
    refine ⟨hcache,h.header,h.quiet,fun q pc hpc => ?_⟩
    exact absurd hpc (by simp only [hnone,reduceCtorEq,not_false_eq_true])

end Steps

/-- The action reads a block that the driver can address on the log's device,
and no count is at its maximum. -/
def OneDevice (dev : UInt32) (s : Sys) (act : ℕ×BufAction) : Prop :=
  (match act.2 with
    | .bread d b => d=dev ∧ b.toNat<2^31
    | _ => True) ∧ ∀ i<nbuf,(s.cache.buf i).refcnt+1<2^32

lemma sysInv_step {g : LogArea} {dev : UInt32} {disk : ℕ→Block} {s t : Sys}
    {act : ℕ×BufAction} (hdev : dev≠0) (hg : g.start+g.size≤2^31) (h : SysInv g dev disk s)
    (hok : OneDevice dev s act) (ht : bufStep g dev s act=.next t) : SysInv g dev disk t := by
  have htouch := touches_step ht
  obtain ⟨p,act⟩ := act
  obtain ⟨hone,hroom⟩ := hok
  cases act with
  | go =>
    obtain ⟨c,hc,ht⟩ := bind_eq_next.mp ht
    rw [Outcome.next.injEq] at ht
    exact ht ▸ sysInv_go h hdev hc
  | bread d b =>
    simp only [bufStep] at ht
    split_ifs at ht with hfree
    obtain ⟨hp,hidle,hother⟩ := free_spec hfree
    obtain ⟨c,hc,ht⟩ := bind_eq_next.mp ht
    cases ht
    obtain ⟨rfl,hb⟩ := hone
    refine h.client hother (cacheInv_bget h.cache hp hidle hb hroom hc) htouch (fun q hq => ?_)
      fun q j _ hj _ => same_bget (h.cache.counts.of_holder (h.cache.copies.held j q hj) hj) hc
    obtain ⟨i,htask,_⟩ := bget_waiting hc
    rw [htask,update_of_ne hq]
  | modify i data =>
    simp only [bufStep] at ht
    split_ifs at ht with hfree
    obtain ⟨hp,hidle,hother⟩ := free_spec hfree.1
    cases ht
    have hret : s.cache.task p≠.locked i := by rw [hidle]; simp
    refine h.client hother (cacheInv_setData h.cache hdev hfree.2 hret data) htouch
      (fun _ _ => rfl) fun q j hq hj _ => same_setData ?_ data
    rintro rfl
    grind
  | bwrite i =>
    simp only [bufStep] at ht
    split_ifs at ht with hfree
    obtain ⟨hp,hidle,hother⟩ := free_spec hfree
    obtain ⟨c,hc,ht⟩ := bind_eq_next.mp ht
    cases ht
    have hret : s.cache.task p≠.locked i := by rw [hidle]; simp
    have hc' := hc
    unfold bwrite at hc'
    split_ifs at hc' with hheld
    rw [Outcome.next.injEq] at hc'
    refine h.client hother (cacheInv_bwrite h.cache hret hc) htouch (fun _ _ => by rw [←hc'])
      fun q j hq hj _ => same_bwrite h.cache hdev hj ?_ hc
    rintro rfl
    grind
  | brelse i =>
    simp only [bufStep] at ht
    split_ifs at ht with hfree
    obtain ⟨hp,hidle,hother⟩ := free_spec hfree.1
    obtain ⟨c,hc,ht⟩ := bind_eq_next.mp ht
    cases ht
    have hc' := hc
    unfold brelse at hc'
    split_ifs at hc' with hheld
    rw [Outcome.next.injEq] at hc'
    have hclean : s.cache.dirty i=false :=
      Bool.eq_false_of_not_eq_true fun hd => hfree.2 ⟨hheld,hd⟩
    refine h.client hother (cacheInv_brelse h.cache hidle hclean hc) htouch
      (fun q hq => by rw [←hc']; exact update_of_ne hq _ _)
      fun q j hq hj _ => same_brelse ?_ hc
    rintro rfl
    grind
  | bpin i =>
    simp only [bufStep] at ht
    split_ifs at ht with hfree
    obtain ⟨hp,hidle,hother⟩ := free_spec hfree.1
    cases ht
    have hlt := h.cache.copies.held i p hfree.2
    have hinc := inc_eq (hroom i hlt)
    refine h.client hother (cacheInv_pin h.cache hlt (h.cache.counts.of_holder hlt hfree.2) hp
      (n:=inc (s.cache.buf i).refcnt) ?_ ?_) htouch (fun _ _ => rfl)
      fun q j _ _ _ => same_count i _ _
    · grind
    · rw [hinc]
      omega
  | bunpin i =>
    simp only [bufStep] at ht
    split_ifs at ht with hfree
    obtain ⟨hp,hidle,hother⟩ := free_spec hfree.1
    obtain ⟨hlt,hpin⟩ := hfree.2
    cases ht
    have hused := h.cache.counts.of_pin hlt hp hpin
    have hbound := h.cache.counts.bound i hlt
    have hdec := dec_eq hused hbound
    refine h.client hother (cacheInv_pin h.cache hlt hused hp
      (n:=dec (s.cache.buf i).refcnt) ?_ ?_) htouch (fun _ _ => rfl)
      fun q j _ _ _ => same_count i _ _
    · rw [hdec]
      omega
    · rw [hdec]
      omega
  | beginOp =>
    simp only [bufStep] at ht
    split_ifs at ht with hfree hcommit
    cases ht
    have hnone : s.commit=none := by simpa only [Option.isSome_iff_ne_none,ne_eq,not_not] using hcommit
    exact ⟨h.cache,h.header,fun hne => absurd hnone hne,h.position⟩
  | logWrite i =>
    simp only [bufStep] at ht
    split_ifs at ht with hfree
    obtain ⟨hp,hidle,hother⟩ := free_spec hfree.1
    refine sysInv_logWrite h hdev hfree.2.2 ?_ (List.ne_nil_of_mem hfree.2.1) hroom ht
    rw [hidle]
    simp
  | endOp =>
    simp only [bufStep] at ht
    split_ifs at ht with hfree hcommit hlast
    · obtain ⟨hp,hidle,hother⟩ := free_spec hfree.1
      have hnone : s.commit=none := by
        simpa only [Option.isSome_iff_ne_none,ne_eq,not_not] using hcommit
      cases ht
      have hlisted : listed {s with ops := s.ops.erase p,commit := some (p,.start)}=listed s := by
        simp only [listed,unpinned,hnone,CommitPc.unpinned]
      refine ⟨hlisted ▸ h.cache,h.header,fun _ => List.eq_nil_of_length_eq_zero hlast,
        fun q pc heq => ?_⟩
      simp only [Option.some.injEq,Prod.mk.injEq] at heq
      obtain ⟨rfl,rfl⟩ := heq
      refine pcOk_of_regs hp (fun j => ?_) trivial
      rw [hidle]
      simp
    · have hnone : s.commit=none := by
        simpa only [Option.isSome_iff_ne_none,ne_eq,not_not] using hcommit
      cases ht
      exact ⟨h.cache,h.header,fun hne => absurd hnone hne,h.position⟩
  | commit =>
    simp only [bufStep] at ht
    split at ht
    · rename_i q pc hpc
      split_ifs at ht with hq
      obtain ⟨rfl,hidle⟩ := hq
      exact sysInv_commitCall h hdev hg hpc hidle hroom ht
    · cases ht

/-- What a state on the log's device says about the blocks. -/
structure CacheSound (g : LogArea) (dev : UInt32) (disk : ℕ→Block) (s : Sys) : Prop where
  pinned : ∀ b∈listed s,∃ i<nbuf,(s.cache.buf i).key=(dev,b) ∧
    (s.cache.buf i).refcnt=refs s.cache i+1
  returned : ∀ i p,s.cache.holder i=some p→s.cache.task p≠.locked i→
    (s.cache.buf i).data=contents disk s.cache (s.cache.buf i).key
  copied : ∀ q tail dst src,s.commit=some (q,.logRelFrom tail dst src)→
    s.cache.disk (sector (logBlock g tail))=contents disk s.cache (dev,s.lh.blockAt tail)

lemma SysInv.sound {g : LogArea} {dev : UInt32} {disk : ℕ→Block} {s : Sys}
    (h : SysInv g dev disk s) : CacheSound g dev disk s := by
  refine ⟨fun b hb => ?_,fun i p hheld hret => ?_,fun q tail dst src hpc => ?_⟩
  · obtain ⟨i,hi,hkey,_⟩ := h.cache.coherent.cached b hb
    refine ⟨i,hi,hkey,?_⟩
    rw [h.cache.counts.count i hi,logPin_self hkey,if_pos hb]
  · exact h.cache.coherent.data i (h.cache.copies.held i p hheld)
      (h.cache.coherent.read i p hheld hret)
  · obtain ⟨_,_,hd,hs,heq,hon⟩ := (h.position q _ hpc).regs
    rw [hon,heq,h.cache.coherent.data src (h.cache.copies.held src q hs.held)
      (h.cache.coherent.read src q hs.held hs.returned),hs.key_eq]

/-- The buffer cache of a system whose log is on device dev. On any devices
no block of a device has two buffers and no buffer in use is recycled. As
long as all blocks are read from the log's device and no count is at its
maximum, the blocks of the header are cached and pinned, bread returns the
contents last given to the block, and write_log copies them. -/
theorem buffer_cache_coherent (g : LogArea) (dev : UInt32) (hdev : dev≠0)
    (hg : g.start+g.size≤2^31) (disk : ℕ→Block) (block : Fin logSize→UInt32)
    (acts : List (ℕ×BufAction)) (s : Sys) (hrun : run (bufStep g dev) (boot disk block) acts=.next s) :
    (∀ i<nbuf,∀ j<nbuf,(s.cache.buf i).dev≠0→(s.cache.buf i).key=(s.cache.buf j).key→i=j) ∧
    (∀ act t i,bufStep g dev s act=.next t→0<(s.cache.buf i).refcnt→
      (t.cache.buf i).key=(s.cache.buf i).key) ∧
    (Guarded (bufStep g dev) (OneDevice dev) (boot disk block) acts→CacheSound g dev disk s) := by
  refine ⟨?_,fun act t i ht hi => touches_key (touches_step ht) (by omega),fun hguard => ?_⟩
  · have hstep : ∀ s act t,SingleCopy s.cache→bufStep g dev s act=.next t→SingleCopy t.cache :=
      fun s act t hs ht => singleCopy_touches hs (touches_step ht)
    have hcopies : SingleCopy s.cache := run_invariant hstep (singleCopy_binit disk) hrun
    exact hcopies.single
  · exact (run_invariant_guarded (fun s act t hs hok ht => sysInv_step hdev hg hs hok ht)
      (sysInv_boot g dev disk block) hguard hrun).sound

/-- A process changes block 40 of a device in an operation of its own, up to
the call of end_op. -/
def changeBlock (dev : UInt32) : List (ℕ×BufAction) :=
  [(0,.beginOp),(0,.bread dev 40),(0,.go),(0,.go),(0,.modify 0 fun _ => 1),(0,.logWrite 0),
    (0,.brelse 0),(0,.go),(0,.endOp)]

/-- commit up to the point where write_log has written entry 0. -/
def copyEntry : List (ℕ×BufAction) :=
  [(0,.commit),(0,.commit),(0,.go),(0,.go),(0,.commit),(0,.go),(0,.go),(0,.commit),(0,.commit)]

def oneDevice (dev : UInt32) (s : Sys) (act : ℕ×BufAction) : Bool :=
  (match act.2 with
    | .bread d b => d=dev && decide (b.toNat<2^31)
    | _ => true) && (List.range nbuf).all fun i => (s.cache.buf i).refcnt+1<2^32

lemma oneDevice_sound (dev : UInt32) (s : Sys) (act : ℕ×BufAction)
    (h : oneDevice dev s act=true) : OneDevice dev s act := by
  simp only [oneDevice,Bool.and_eq_true,List.all_eq_true,List.mem_range,decide_eq_true_eq] at h
  refine ⟨?_,h.2⟩
  obtain ⟨p,act⟩ := act
  cases act with
  | bread d b => simpa only [Bool.and_eq_true,decide_eq_true_eq] using h.1
  | _ => trivial

/-- On the log's device write_log copies the changed block. -/
theorem changeBlock_copied : ∃ s,
    run (bufStep mkfsArea 1) (boot (fun _ _ => 0) fun _ => 0) (changeBlock 1++copyEntry)=.next s ∧
    CacheSound mkfsArea 1 (fun _ _ => 0) s ∧ s.cache.disk (sector (logBlock mkfsArea 0)) 0=1 := by
  have hobs : (run (bufStep mkfsArea 1) (boot (fun _ _ => 0) fun _ => 0)
      (changeBlock 1++copyEntry)).state?.map
        (fun s => s.cache.disk (sector (logBlock mkfsArea 0)) 0)=some 1 := by
    decide +kernel
  obtain ⟨s,hs,hv⟩ := exists_of_state? hobs
  refine ⟨s,hs,(buffer_cache_coherent mkfsArea 1 (by decide) (by decide) (fun _ _ => 0) (fun _ => 0)
    _ s hs).2.2 ?_,hv⟩
  refine guarded_of_check (k:=oneDevice 1) (oneDevice_sound 1) ?_
  decide +kernel

/-- On a second device it does not. The header takes the number of the changed
block without its device, and write_log reads the block of that number from
the log's device. The log block has the old contents, although the changed
block of device 2 is cached, listed and pinned. -/
theorem changeBlock_of_other_device : ∃ s,
    run (bufStep mkfsArea 1) (boot (fun _ _ => 0) fun _ => 0) (changeBlock 2++copyEntry)=.next s ∧
    s.commit=some (0,.logRelFrom 0 1 2) ∧ s.lh.blockAt 0=40 ∧
    (s.cache.given (2,40)).map (· 0)=some 1 ∧ (s.cache.given (1,40)).isNone=true ∧
    s.cache.disk (sector (logBlock mkfsArea 0)) 0=0 := by
  have hobs : (run (bufStep mkfsArea 1) (boot (fun _ _ => 0) fun _ => 0)
      (changeBlock 2++copyEntry)).state?.map
        (fun s => (s.commit,s.lh.blockAt 0,(s.cache.given (2,40)).map (· 0),
          (s.cache.given (1,40)).isNone,s.cache.disk (sector (logBlock mkfsArea 0)) 0))=
        some (some (0,.logRelFrom 0 1 2),40,some 1,true,0) := by
    decide +kernel
  obtain ⟨s,hs,hv⟩ := exists_of_state? hobs
  simp only [Prod.mk.injEq] at hv
  exact ⟨s,hs,hv.1,hv.2.1,hv.2.2.1,hv.2.2.2.1,hv.2.2.2.2⟩

end Xv6Riscv.PinnedBuffers
