import Xv6Riscv.BufferCache
import Xv6Riscv.Tally

/-!
# Coherence of the buffer cache on one device

All references to a buffer are accounted for: processes between bget and the
end of brelse, bpins, and the blocks that the log has listed. A buffer whose
block is newer than the disk is always referenced, by the holder that changed
it or by the log, so recycling loses nothing and a block that has to be read
is read from a disk that has its contents.
-/

namespace Xv6Riscv.CacheCoherence

open Function
open Transition BufferCache
open LogMachine (Block)

/-! ### References -/

/-- References of a process inside bread or brelse, its held buffers apart. -/
def taskRefs : Task→ℕ→ℕ
  | .idle => 0
  | .waiting i => Pi.single i 1
  | .locked _ => 0
  | .releasing i => Pi.single i 1

def refs (c : Cache) (i : ℕ) : ℕ :=
  Tally.total nproc taskRefs c.task i+(c.holder i).isSome.toNat+Tally.total nproc id c.pins i

/-- The log's own reference to a buffer whose block it has listed. -/
def logPin (dev : UInt32) (listed : Finset UInt32) (b : Buf) : ℕ :=
  if b.dev=dev ∧ b.blockno∈listed then 1 else 0

/-- What refcnt counts, with the blocks that the log has listed. -/
structure Counted (dev : UInt32) (listed : Finset UInt32) (c : Cache) : Prop where
  count : ∀ i<nbuf,(c.buf i).refcnt=refs c i+logPin dev listed (c.buf i)
  bound : ∀ i<nbuf,(c.buf i).refcnt<2^32
  device : ∀ i<nbuf,(c.buf i).refcnt≠0→(c.buf i).dev=dev ∧ (c.buf i).blockno.toNat<2^31
  procs : ∀ p i,(c.task p).buffer=some i→p<nproc
  holders : ∀ i p,c.holder i=some p→p<nproc
  locked : ∀ p i,c.task p=.locked i→c.holder i=some p

lemma inc_eq {n : ℕ} (h : n+1<2^32) : inc n=n+1 := Nat.mod_eq_of_lt h

lemma dec_eq {n : ℕ} (h : n≠0) (hb : n<2^32) : dec n=n-1 := by
  unfold dec
  omega

lemma taskRefs_update (c : Cache) {p : ℕ} (hp : p<nproc) (t : Task) (i : ℕ) :
    Tally.total nproc taskRefs (update c.task p t) i+taskRefs (c.task p) i=
      Tally.total nproc taskRefs c.task i+taskRefs t i :=
  congrFun (Tally.total_update taskRefs c.task hp t) i

lemma taskRefs_le (c : Cache) {p : ℕ} (hp : p<nproc) (i : ℕ) :
    taskRefs (c.task p) i≤Tally.total nproc taskRefs c.task i :=
  Tally.le_total taskRefs c.task hp i

section Counted

variable {dev : UInt32} {listed : Finset UInt32} {c c' : Cache} {p i : ℕ}

lemma counted_binit (dev : UInt32) (disk : ℕ→Block) : Counted dev ∅ (binit disk) where
  count := fun i _ => by
    have htask : Tally.total nproc taskRefs (binit disk).task i=0 :=
      Finset.sum_eq_zero fun _ _ => rfl
    have hpins : Tally.total nproc id (binit disk).pins i=0 := Finset.sum_eq_zero fun _ _ => rfl
    simp only [refs,htask,hpins,logPin,Finset.notMem_empty,and_false,if_false]
    rfl
  bound := fun _ _ => by simp only [binit]; omega
  device := fun _ _ h => absurd rfl h
  procs := fun _ _ h => by simp only [binit,Task.buffer,reduceCtorEq] at h
  holders := fun _ _ h => by simp only [binit,reduceCtorEq] at h
  locked := fun _ _ h => by simp only [binit,reduceCtorEq] at h

variable (h : Counted dev listed c)

include h

lemma Counted.of_holder (hi : i<nbuf) (hp : c.holder i=some p) : (c.buf i).refcnt≠0 := by
  grind [h.count,refs]

lemma Counted.of_task (hi : i<nbuf) (ht : (c.task p).buffer=some i) : (c.buf i).refcnt≠0 := by
  have hle := taskRefs_le c (h.procs p i ht) i
  cases htask : c.task p with
  | idle => simp only [htask,Task.buffer,reduceCtorEq] at ht
  | locked j =>
    simp only [htask,Task.buffer,Option.some.injEq] at ht
    subst ht
    exact h.of_holder hi (h.locked p j htask)
  | waiting j | releasing j =>
    simp only [htask,Task.buffer,Option.some.injEq] at ht
    subst ht
    rw [htask,taskRefs,Pi.single_eq_same] at hle
    rw [h.count j hi,refs]
    omega

lemma Counted.of_pin (hi : i<nbuf) (hp : p<nproc) (hpin : 0<c.pins p i) : (c.buf i).refcnt≠0 := by
  have hle : c.pins p i≤Tally.total nproc id c.pins i := Tally.le_total id c.pins hp i
  rw [h.count i hi,refs]
  omega

lemma Counted.of_listed (hi : i<nbuf) {b : UInt32} (hb : b∈listed) (hkey : (c.buf i).key=(dev,b)) :
    (c.buf i).refcnt≠0 := by
  have hpin : logPin dev listed (c.buf i)=1 := by
    rw [logPin,if_pos]
    exact ⟨congrArg Prod.fst hkey,by rw [show (c.buf i).blockno=b from congrArg Prod.snd hkey]; exact hb⟩
  rw [h.count i hi,hpin]
  omega

lemma Counted.congr (hkey : ∀ j,(c'.buf j).key=(c.buf j).key)
    (href : ∀ j,(c'.buf j).refcnt=(c.buf j).refcnt) (hholder : c'.holder=c.holder)
    (htask : c'.task=c.task) (hpins : c'.pins=c.pins) : Counted dev listed c' := by
  have hdev : ∀ j,(c'.buf j).dev=(c.buf j).dev := fun j => congrArg Prod.fst (hkey j)
  have hno : ∀ j,(c'.buf j).blockno=(c.buf j).blockno := fun j => congrArg Prod.snd (hkey j)
  refine ⟨fun j hj => ?_,fun j hj => ?_,fun j hj hr => ?_,?_,?_,?_⟩
  · grind [h.count,refs,logPin]
  · rw [href]
    exact h.bound j hj
  · grind [h.device]
  · rw [htask]
    exact h.procs
  · rw [hholder]
    exact h.holders
  · rw [htask,hholder]
    exact h.locked

omit h

lemma procs_update {task : ℕ→Task} (h : ∀ q j,(task q).buffer=some j→q<nproc) (hp : p<nproc)
    (t : Task) : ∀ q j,(update task p t q).buffer=some j→q<nproc := by
  intro q j hq
  grind [update_apply]

variable (h : Counted dev listed c)

include h

lemma locked_update (p : ℕ) {t : Task} (ht : ∀ j,t≠.locked j) :
    ∀ q j,update c.task p t q=.locked j→c.holder j=some q := by
  intro q j hq
  have hold := h.locked q j
  grind [update_apply]

lemma Counted.recount (hdevice : (c.buf i).dev=dev ∧ (c.buf i).blockno.toNat<2^31)
    {listed' : Finset UInt32} {n : ℕ} (hn : n<2^32)
    (hbuf : c'.buf=update c.buf i {c.buf i with refcnt := n})
    (hcount : n=refs c' i+logPin dev listed' (c.buf i))
    (hother : ∀ j<nbuf,j≠i→ refs c' j+logPin dev listed' (c.buf j)=
      refs c j+logPin dev listed (c.buf j)) (hprocs : ∀ q j,(c'.task q).buffer=some j→q<nproc)
    (hholder : c'.holder=c.holder) (hlocked : ∀ q j,c'.task q=.locked j→c.holder j=some q) :
    Counted dev listed' c' := by
  refine ⟨fun j hj => ?_,fun j hj => ?_,fun j hj hr => ?_,hprocs,hholder ▸ h.holders,
    hholder ▸ hlocked⟩
  · have hcnt := h.count j hj
    rw [hbuf]
    grind [update_apply,logPin]
  · have hbound := h.bound j hj
    rw [hbuf]
    grind [update_apply]
  · have hdev := h.device j hj
    rw [hbuf] at hr ⊢
    grind [update_apply]

lemma counted_bget (hs : SingleCopy c) (hp : p<nproc) (hidle : c.task p=.idle) {b : UInt32}
    (hb : b.toNat<2^31) (hroom : ∀ i<nbuf,(c.buf i).refcnt+1<2^32)
    (hcached : ∀ b∈listed,∃ i<nbuf,(c.buf i).key=(dev,b)) (ht : bget c p dev b=.next c') :
    Counted dev listed c' := by
  have hcases := bget_cases c p dev b
  rw [ht] at hcases
  have hmove : ∀ i j,Tally.total nproc taskRefs (update c.task p (.waiting i)) j=
      Tally.total nproc taskRefs c.task j+Pi.single (M:=fun _ => ℕ) i 1 j := by
    intro i j
    have hupd := taskRefs_update c hp (.waiting i) j
    rw [hidle] at hupd
    simpa only [taskRefs,Pi.zero_apply,Nat.add_zero] using hupd
  cases hcases with
  | hit i hi hkey =>
    have hlt := (hs.order i).mp hi
    have hold := h.count i hlt
    have hnew : (c.buf i).dev=dev ∧ (c.buf i).blockno.toNat<2^31 := by
      simp only [Buf.key,Prod.mk.injEq] at hkey
      rw [hkey.1,hkey.2]
      exact ⟨rfl,hb⟩
    refine h.recount (i:=i) hnew (n:=inc (c.buf i).refcnt) ?_ rfl ?_ (fun j hj hji => ?_)
      (procs_update h.procs hp _) rfl (locked_update h p (by simp))
    · rw [inc_eq (hroom i hlt)]
      exact hroom i hlt
    · rw [inc_eq (hroom i hlt),hold]
      simp only [refs,Cache.setTask,Cache.setBuf,hmove,Pi.single_eq_same]
      omega
    · simp only [refs,Cache.setTask,Cache.setBuf,hmove,Pi.single_eq_of_ne hji,Nat.add_zero]
  | recycle i hi hz hno =>
    have hlt := (hs.order i).mp hi
    have hold := h.count i hlt
    rw [hz,refs] at hold
    have hnot : b∉listed := by
      intro hmem
      obtain ⟨j,hj,hkey⟩ := hcached b hmem
      exact hno j ((hs.order j).mpr hj) hkey
    refine ⟨fun j hj => ?_,fun j hj => ?_,fun j hj hr => ?_,procs_update h.procs hp _,h.holders,
      locked_update h p (by simp)⟩
    · simp only [refs,Cache.setTask,Cache.setBuf,hmove]
      by_cases hji : j=i
      · subst hji
        simp only [update_self,Pi.single_eq_same,logPin,hnot,and_false,if_false]
        omega
      · simp only [update_of_ne hji,Pi.single_eq_of_ne hji,Nat.add_zero]
        exact h.count j hj
    · have hbound := h.bound j hj
      simp only [Cache.setTask,Cache.setBuf]
      grind [update_apply]
    · have hdev := h.device j hj
      simp only [Cache.setTask,Cache.setBuf] at hr ⊢
      grind [update_apply]

lemma counted_lock (hwait : c.task p=.waiting i) (hfree : c.holder i=none) :
    Counted dev listed {c with holder := update c.holder i (some p)
                               task := update c.task p (.locked i)} := by
  have hp := h.procs p i (by rw [hwait,Task.buffer])
  refine ⟨fun j hj => ?_,h.bound,h.device,procs_update h.procs hp _,fun j q hq => ?_,
    fun q j hq => ?_⟩
  · have hupd := taskRefs_update c hp (.locked i) j
    rw [hwait] at hupd
    simp only [taskRefs,Pi.zero_apply,Nat.add_zero] at hupd
    rw [h.count j hj]
    grind [refs]
  · have hold := h.holders j q
    grind [update_apply]
  · have hold := h.locked q j
    grind [update_apply]

lemma counted_fill (hlock : c.task p=.locked i) : Counted dev listed (fill c p i) := by
  have hp := h.procs p i (by rw [hlock,Task.buffer])
  have htask : ∀ j,Tally.total nproc taskRefs (update c.task p .idle) j=
      Tally.total nproc taskRefs c.task j := by
    intro j
    have hupd := taskRefs_update c hp .idle j
    rw [hlock] at hupd
    simpa only [taskRefs,Pi.zero_apply,Nat.add_zero] using hupd
  have hidle : Counted dev listed (c.setTask p .idle) := by
    refine ⟨fun j hj => ?_,h.bound,h.device,procs_update h.procs hp _,h.holders,
      locked_update h p (by simp)⟩
    rw [refs]
    simp only [Cache.setTask,htask]
    exact h.count j hj
  refine hidle.congr (fill_key c p i) (fun j => ?_) ?_ ?_ ?_
  · rw [fill]
    split_ifs
    · rfl
    · simp only [Cache.setTask,Cache.setBuf,update_apply]
      grind
  all_goals
    rw [fill]
    split_ifs <;> rfl

lemma counted_release (hheld : c.holder i=some p) (hidle : c.task p=.idle) :
    Counted dev listed {c with holder := update c.holder i none
                               task := update c.task p (.releasing i)} := by
  have hp := h.holders i p hheld
  refine ⟨fun j hj => ?_,h.bound,h.device,procs_update h.procs hp _,fun j q hq => ?_,
    fun q j hq => ?_⟩
  · have hupd := taskRefs_update c hp (.releasing i) j
    rw [hidle] at hupd
    simp only [taskRefs,Pi.zero_apply,Nat.add_zero] at hupd
    rw [h.count j hj]
    grind [refs]
  · have hold := h.holders j q
    grind [update_apply]
  · have hold := h.locked q j
    grind [update_apply]

lemma counted_drop (hs : SingleCopy c) (hrel : c.task p=.releasing i) :
    Counted dev listed (drop c p i) := by
  have hbuffer : (c.task p).buffer=some i := by rw [hrel,Task.buffer]
  have hp := h.procs p i hbuffer
  have hlt := hs.tasks p i hbuffer
  have hused := h.of_task hlt hbuffer
  have hbound := h.bound i hlt
  have hold := h.count i hlt
  have hupd := taskRefs_update c hp .idle
  rw [hrel] at hupd
  simp only [taskRefs,Pi.zero_apply,Nat.add_zero] at hupd
  refine h.recount (i:=i) (h.device i hlt hused) (n:=dec (c.buf i).refcnt) ?_ rfl ?_
    (fun j hj hji => ?_) (procs_update h.procs hp _) rfl (locked_update h p (by simp))
  · rw [dec_eq hused hbound]
    omega
  · have hi := hupd i
    rw [Pi.single_eq_same] at hi
    rw [dec_eq hused hbound,hold]
    simp only [refs,drop]
    omega
  · have hj := hupd j
    rw [Pi.single_eq_of_ne hji] at hj
    simp only [refs,drop]
    omega

lemma counted_pin (hi : i<nbuf) (hused : (c.buf i).refcnt≠0) (hp : p<nproc) {n k : ℕ}
    (hn : n<2^32) (hk : n+c.pins p i=(c.buf i).refcnt+k) : Counted dev listed {c with
      buf := update c.buf i {c.buf i with refcnt := n}
      pins := update c.pins p (update (c.pins p) i k)} := by
  have hold := h.count i hi
  have hupd : ∀ j,_ := fun j => congrFun (Tally.total_update id c.pins hp
    (update (c.pins p) i k)) j
  refine h.recount (i:=i) (h.device i hi hused) hn rfl ?_ (fun j hj hji => ?_) h.procs rfl
    h.locked
  · have hi := hupd i
    simp only [id,Pi.add_apply,update_self] at hi
    grind [refs]
  · have hj := hupd j
    simp only [id,Pi.add_apply,update_of_ne hji] at hj
    simp only [refs]
    omega

end Counted

/-! ### Contents -/

/-- The valid buffers and the disk agree with what holders have given each
block. The disk may be behind only for a block whose buffer cannot be
recycled: its holder has yet to write it, or the log has listed it. -/
structure Coherent (dev : UInt32) (disk : ℕ→Block) (listed : Finset UInt32) (c : Cache) : Prop where
  read : ∀ i p,c.holder i=some p→c.task p≠.locked i→(c.buf i).valid=true
  changed : ∀ i,c.dirty i=true→∃ p,c.holder i=some p ∧ c.task p≠.locked i
  data : ∀ i<nbuf,(c.buf i).valid=true→(c.buf i).data=contents disk c (c.buf i).key
  newer : ∀ b : UInt32,b.toNat<2^31→c.disk (sector b)≠contents disk c (dev,b)→
    ∃ i<nbuf,(c.buf i).key=(dev,b) ∧ (c.buf i).valid=true ∧ (c.dirty i=true ∨ b∈listed)
  cached : ∀ b∈listed,∃ i<nbuf,(c.buf i).key=(dev,b) ∧ (c.buf i).valid=true

lemma sector_inj {a b : UInt32} (ha : a.toNat<2^31) (hb : b.toNat<2^31)
    (h : sector a=sector b) : a=b := by
  unfold sector at h
  rw [UInt32.toNat_mul,UInt32.toNat_mul] at h
  have htwo : (2 : UInt32).toNat=2 := rfl
  grind [UInt32.toNat_inj]

section Coherent

variable {dev : UInt32} {disk : ℕ→Block} {listed : Finset UInt32} {c c' : Cache} {p i : ℕ}

lemma coherent_binit (dev : UInt32) (disk : ℕ→Block) : Coherent dev disk ∅ (binit disk) where
  read := fun _ _ h => by simp only [binit,reduceCtorEq] at h
  changed := fun _ h => by simp only [binit,Bool.false_eq_true] at h
  data := fun _ _ h => by simp only [binit,Bool.false_eq_true] at h
  newer := fun _ _ h => absurd rfl h
  cached := fun _ h => absurd h (Finset.notMem_empty _)

lemma Coherent.congr (h : Coherent dev disk listed c)
    (hbuf : ∀ j,(c'.buf j).key=(c.buf j).key ∧ (c'.buf j).valid=(c.buf j).valid ∧
      (c'.buf j).data=(c.buf j).data)
    (hholder : c'.holder=c.holder) (hdirty : c'.dirty=c.dirty) (hdisk : c'.disk=c.disk)
    (hgiven : c'.given=c.given)
    (htask : ∀ q j,c'.task q=.locked j ↔ c.task q=.locked j) :
    Coherent dev disk listed c' := by
  have hcontents : ∀ key,contents disk c' key=contents disk c key := by grind [contents]
  refine ⟨fun j q hq ht => ?_,fun j hj => ?_,fun j hj hv => ?_,fun b hb hn => ?_,fun b hb => ?_⟩
  · grind [h.read]
  · rw [hdirty] at hj
    grind [h.changed]
  · grind [h.data]
  · grind [h.newer]
  · grind [h.cached]

lemma recount_fields (buf : ℕ→Buf) (i n j : ℕ) :
    (update buf i {buf i with refcnt := n} j).key=(buf j).key ∧
    (update buf i {buf i with refcnt := n} j).valid=(buf j).valid ∧
    (update buf i {buf i with refcnt := n} j).data=(buf j).data := by
  rw [update_apply]
  split_ifs with hj
  · subst hj
    exact ⟨rfl,rfl,rfl⟩
  · exact ⟨rfl,rfl,rfl⟩

lemma locked_update_iff {task : ℕ→Task} {t : Task} (ht : ∀ j,task p≠.locked j)
    (ht' : ∀ j,t≠.locked j) (q j : ℕ) :
    update task p t q=.locked j ↔ task q=.locked j := by
  grind [update_apply]

variable (h : Coherent dev disk listed c)

include h

lemma coherent_bget (hc : Counted dev listed c) (hs : SingleCopy c) (hidle : c.task p=.idle)
    {b : UInt32} (ht : bget c p dev b=.next c') : Coherent dev disk listed c' := by
  have hcases := bget_cases c p dev b
  rw [ht] at hcases
  have hun : ∀ j,c.task p≠.locked j := by
    rw [hidle]
    simp only [ne_eq,reduceCtorEq,not_false_eq_true,implies_true]
  cases hcases with
  | hit i hi hkey =>
    exact h.congr (recount_fields c.buf i _) rfl rfl rfl rfl (locked_update_iff hun (by simp))
  | recycle i hi hz hno =>
    have hlt := (hs.order i).mp hi
    have hfree : c.holder i=none := by
      by_contra hne
      obtain ⟨q,hq⟩ := Option.ne_none_iff_exists'.mp hne
      exact hc.of_holder hlt hq hz
    have hclean : c.dirty i≠true := by
      intro hd
      obtain ⟨q,hq,_⟩ := h.changed i hd
      exact hc.of_holder hlt hq hz
    have htasks : ∀ q j,update c.task p (.waiting i) q=.locked j ↔ c.task q=.locked j :=
      locked_update_iff hun (by simp)
    have hnot : ∀ b'∈listed,(c.buf i).key≠(dev,b') :=
      fun b' hb' hkey => hc.of_listed hlt hb' hkey hz
    refine ⟨fun j q hq htask => ?_,fun j hj => ?_,fun j hj hv => ?_,fun b' hb' hn => ?_,
      fun b' hb' => ?_⟩
    · have hread := h.read j q
      simp only [Cache.setTask,Cache.setBuf] at hq htask ⊢
      grind [update_apply]
    · simp only [Cache.setTask,Cache.setBuf,ne_eq,htasks]
      exact h.changed j hj
    · have hdata := h.data j hj
      simp only [Cache.setTask,Cache.setBuf] at hv ⊢
      grind [update_apply,contents]
    · obtain ⟨j,hj,hkey,hv,hor⟩ := h.newer b' hb' hn
      have hji : j≠i := by grind
      refine ⟨j,hj,?_,?_,hor⟩ <;> simp only [Cache.setTask,Cache.setBuf,update_of_ne hji]
      · exact hkey
      · exact hv
    · obtain ⟨j,hj,hkey,hv⟩ := h.cached b' hb'
      have hji : j≠i := by grind
      refine ⟨j,hj,?_,?_⟩ <;> simp only [Cache.setTask,Cache.setBuf,update_of_ne hji]
      · exact hkey
      · exact hv

lemma coherent_lock (hwait : c.task p=.waiting i) (hfree : c.holder i=none) :
    Coherent dev disk listed {c with holder := update c.holder i (some p)
                                     task := update c.task p (.locked i)} := by
  refine ⟨fun j q hq htask => ?_,fun j hj => ?_,h.data,h.newer,h.cached⟩
  · have hread := h.read j q
    grind [update_apply]
  · have hchanged := h.changed j hj
    grind [update_apply]

lemma coherent_fill (hc : Counted dev listed c) (hs : SingleCopy c) (hdev : dev≠0)
    (hlock : c.task p=.locked i) : Coherent dev disk listed (fill c p i) := by
  have hlt := hs.tasks p i (by rw [hlock,Task.buffer])
  have hheld := hc.locked p i hlock
  obtain ⟨hidev,hsmall⟩ := hc.device i hlt (hc.of_holder hlt hheld)
  have hkeyi : (c.buf i).key=(dev,(c.buf i).blockno) := Prod.ext hidev rfl
  have hbuf : ∀ j,j≠i→(fill c p i).buf j=c.buf j := by
    intro j hji
    rw [fill]
    split_ifs
    · rfl
    · simp only [Cache.setTask,Cache.setBuf,update_of_ne hji]
  have hvalid : ((fill c p i).buf i).valid=true := by
    rw [fill]
    split_ifs with hv
    · exact hv
    · simp only [Cache.setTask,Cache.setBuf,update_self]
  have hkeep : ∀ j,(c.buf j).valid=true→((fill c p i).buf j).valid=true := by grind
  have hfields : (fill c p i).holder=c.holder ∧ (fill c p i).dirty=c.dirty ∧
      (fill c p i).disk=c.disk ∧ (fill c p i).given=c.given ∧
      (fill c p i).task=update c.task p .idle := by
    rw [fill]
    split_ifs <;> exact ⟨rfl,rfl,rfl,rfl,rfl⟩
  obtain ⟨hholder,hdirty,hdisk,hgiven,htask⟩ := hfields
  have hcontents : ∀ key,contents disk (fill c p i) key=contents disk c key := by grind [contents]
  have hdata : ((fill c p i).buf i).data=contents disk c (c.buf i).key := by
    rw [fill]
    split_ifs with hv
    · exact h.data i hlt hv
    · simp only [Cache.setTask,Cache.setBuf,update_self]
      by_contra hne
      grind [h.newer,hs.single]
  refine ⟨fun j q hq hqt => ?_,fun j hj => ?_,fun j hj hv => ?_,fun b hb hn => ?_,fun b hb => ?_⟩
  · have hread := h.read j q
    rw [hholder] at hq
    rw [htask] at hqt
    grind [update_apply]
  · rw [hdirty] at hj
    have hchanged := h.changed j hj
    rw [hholder,htask]
    grind [update_apply]
  · have hold := h.data j hj
    rw [fill_key,hcontents]
    grind
  · rw [hdisk,hcontents] at hn
    obtain ⟨j,hj,hkey,hv,hor⟩ := h.newer b hb hn
    exact ⟨j,hj,by rw [fill_key,hkey],hkeep j hv,by rw [hdirty]; exact hor⟩
  · obtain ⟨j,hj,hkey,hv⟩ := h.cached b hb
    exact ⟨j,hj,by rw [fill_key,hkey],hkeep j hv⟩

lemma coherent_setData (hc : Counted dev listed c) (hs : SingleCopy c) (hdev : dev≠0)
    (hheld : c.holder i=some p) (hret : c.task p≠.locked i) (data : Block) :
    Coherent dev disk listed (setData c i data) := by
  have hlt := hs.held i p hheld
  obtain ⟨hidev,_⟩ := hc.device i hlt (hc.of_holder hlt hheld)
  have hfields : ∀ j,((setData c i data).buf j).key=(c.buf j).key ∧
      ((setData c i data).buf j).valid=(c.buf j).valid := by
    intro j
    simp only [setData,Cache.setBuf,update_apply]
    split_ifs with hji
    · subst hji
      exact ⟨rfl,rfl⟩
    · exact ⟨rfl,rfl⟩
  have hother : ∀ key,key≠(c.buf i).key→contents disk (setData c i data) key=contents disk c key := by
    intro key hne
    simp only [contents,setData,update_of_ne hne]
  have hself : contents disk (setData c i data) (c.buf i).key=data := by
    simp only [contents,setData,update_self,Option.getD_some]
  refine ⟨fun j q hq hqt => ?_,fun j hj => ?_,fun j hj hv => ?_,fun b hb hn => ?_,fun b hb => ?_⟩
  · rw [(hfields j).2]
    exact h.read j q hq hqt
  · have hchanged := h.changed j
    simp only [setData] at hj
    change ∃ q,c.holder j=some q ∧ c.task q≠.locked j
    grind [update_apply]
  · rw [(hfields j).2] at hv
    rw [(hfields j).1]
    by_cases hji : j=i
    · subst hji
      rw [hself]
      simp only [setData,Cache.setBuf,update_self]
    · have hne : (c.buf j).key≠(c.buf i).key := by
        grind [hs.single]
      rw [hother _ hne]
      simp only [setData,Cache.setBuf,update_of_ne hji]
      exact h.data j hj hv
  · by_cases hkey : (dev,b)=(c.buf i).key
    · refine ⟨i,hlt,by rw [(hfields i).1,hkey],?_,Or.inl ?_⟩
      · grind [h.read]
      · simp only [setData,update_self]
    · rw [hother _ hkey] at hn
      obtain ⟨j,hj,hjkey,hv,hor⟩ := h.newer b hb hn
      refine ⟨j,hj,by rw [(hfields j).1,hjkey],by rw [(hfields j).2,hv],?_⟩
      simp only [setData]
      grind [update_apply]
  · grind [h.cached]

lemma coherent_settle (hlt : i<nbuf) {listed' : Finset UInt32} {b : UInt32}
    (hkey : (c.buf i).key=(dev,b)) (hv : (c.buf i).valid=true)
    (hbuf : ∀ j,(c'.buf j).key=(c.buf j).key ∧ (c'.buf j).valid=(c.buf j).valid ∧
      (c'.buf j).data=(c.buf j).data) (hholder : c'.holder=c.holder)
    (hdirty : c'.dirty=update c.dirty i false)
    (hdisk : ∀ b',b'.toNat<2^31→b'≠b→c'.disk (sector b')=c.disk (sector b'))
    (hnow : c'.disk (sector b)=(c.buf i).data ∨ b∈listed') (hgiven : c'.given=c.given)
    (htask : c'.task=c.task) (hlisted : ∀ b',b'≠b→(b'∈listed' ↔ b'∈listed)) :
    Coherent dev disk listed' c' := by
  have hcontents : ∀ key,contents disk c' key=contents disk c key := by grind [contents]
  refine ⟨fun j q hq ht => ?_,fun j hj => ?_,fun j hj hjv => ?_,fun b' hb' hn => ?_,
    fun b' hb' => ?_⟩
  · grind [h.read]
  · have hchanged := h.changed j
    rw [hdirty] at hj
    rw [hholder,htask]
    grind [update_apply]
  · grind [h.data]
  · rw [hcontents] at hn
    by_cases hbb : b'=b
    · grind [h.data]
    · rw [hdisk b' hb' hbb] at hn
      obtain ⟨j,hj,hjkey,hjv,hor⟩ := h.newer b' hb' hn
      have hji : j≠i := by
        rintro rfl
        exact hbb (congrArg Prod.snd (hjkey.symm.trans hkey))
      refine ⟨j,hj,by rw [(hbuf j).1,hjkey],by rw [(hbuf j).2.1,hjv],?_⟩
      rw [hdirty,update_of_ne hji,hlisted b' hbb]
      exact hor
  · grind [h.cached]

lemma coherent_release (hclean : c.dirty i=false) (hidle : c.task p=.idle) :
    Coherent dev disk listed {c with holder := update c.holder i none
                                     task := update c.task p (.releasing i)} := by
  refine ⟨fun j q hq htask => ?_,fun j hj => ?_,h.data,h.newer,h.cached⟩
  · have hread := h.read j q
    grind [update_apply]
  · have hchanged := h.changed j hj
    grind [update_apply]

end Coherent

/-! ### The cache as a whole -/

/-- One device's blocks in the cache: single copies, exact counts and the
contents that holders have given. -/
structure CacheInv (dev : UInt32) (disk : ℕ→Block) (listed : Finset UInt32) (c : Cache) : Prop where
  copies : SingleCopy c
  counts : Counted dev listed c
  coherent : Coherent dev disk listed c

lemma cacheInv_binit (dev : UInt32) (disk : ℕ→Block) : CacheInv dev disk ∅ (binit disk) :=
  ⟨singleCopy_binit disk,counted_binit dev disk,coherent_binit dev disk⟩

section Cache

variable {dev : UInt32} {disk : ℕ→Block} {listed : Finset UInt32} {c c' : Cache} {p i : ℕ}
  {b : UInt32}

variable (h : CacheInv dev disk listed c)

include h

lemma cacheInv_bget (hp : p<nproc) (hidle : c.task p=.idle) (hb : b.toNat<2^31)
    (hroom : ∀ i<nbuf,(c.buf i).refcnt+1<2^32) (ht : bget c p dev b=.next c') :
    CacheInv dev disk listed c' := by
  have hcached : ∀ b∈listed,∃ i<nbuf,(c.buf i).key=(dev,b) := by grind [h.coherent.cached]
  exact ⟨singleCopy_bget h.copies ht,
    counted_bget h.counts h.copies hp hidle hb hroom hcached ht,
    coherent_bget h.coherent h.counts h.copies hidle ht⟩

lemma cacheInv_go (hdev : dev≠0) (ht : go c p=.next c') : CacheInv dev disk listed c' := by
  refine ⟨singleCopy_go h.copies ht,?_,?_⟩ <;> cases go_cases ht with
  | lock i hi hfree =>
    first
      | exact counted_lock h.counts hi hfree
      | exact coherent_lock h.coherent hi hfree
  | fill i hi =>
    first
      | exact counted_fill h.counts hi
      | exact coherent_fill h.coherent h.counts h.copies hdev hi
  | drop i hi =>
    first
      | exact counted_drop h.counts h.copies hi
      | exact h.coherent.congr (recount_fields c.buf i _) rfl rfl rfl rfl
          (locked_update_iff (by rw [hi]; simp) (by simp))

lemma cacheInv_setData (hdev : dev≠0) (hheld : c.holder i=some p) (hret : c.task p≠.locked i)
    (data : Block) : CacheInv dev disk listed (setData c i data) := by
  have hkey : ∀ j,((setData c i data).buf j).key=(c.buf j).key := by
    intro j
    simp only [setData,Cache.setBuf]
    grind [Buf.key]
  refine ⟨⟨h.copies.order,single_congr h.copies.single hkey,h.copies.tasks,h.copies.held⟩,
    h.counts.congr hkey (fun j => ?_) rfl rfl rfl,
    coherent_setData h.coherent h.counts h.copies hdev hheld hret data⟩
  simp only [setData,Cache.setBuf,update_apply]
  grind

lemma CacheInv.of_held (hheld : c.holder i=some p) :
    i<nbuf ∧ (c.buf i).key=(dev,(c.buf i).blockno) ∧ (c.buf i).blockno.toNat<2^31 := by
  have hlt := h.copies.held i p hheld
  obtain ⟨hdev,hsmall⟩ := h.counts.device i hlt (h.counts.of_holder hlt hheld)
  exact ⟨hlt,Prod.ext hdev rfl,hsmall⟩

lemma cacheInv_bwrite (hret : c.task p≠.locked i) (ht : bwrite c p i=.next c') :
    CacheInv dev disk listed c' := by
  unfold bwrite at ht
  split_ifs at ht with hheld
  cases ht
  obtain ⟨hlt,hkey,hsmall⟩ := h.of_held hheld
  refine ⟨⟨h.copies.order,h.copies.single,h.copies.tasks,h.copies.held⟩,
    h.counts.congr (fun _ => rfl) (fun _ => rfl) rfl rfl rfl,?_⟩
  refine coherent_settle h.coherent hlt hkey (h.coherent.read i p hheld hret)
    (fun _ => ⟨rfl,rfl,rfl⟩) rfl rfl (fun b' hb' hne => ?_) (Or.inl ?_) rfl rfl
    fun _ _ => Iff.rfl
  · exact update_of_ne (fun heq => hne (sector_inj hb' hsmall heq)) _ _
  · exact update_self ..

lemma cacheInv_brelse (hidle : c.task p=.idle) (hclean : c.dirty i=false)
    (ht : brelse c p i=.next c') : CacheInv dev disk listed c' := by
  have hcopies := singleCopy_brelse h.copies ht
  unfold brelse at ht
  split_ifs at ht with hheld
  cases ht
  exact ⟨hcopies,counted_release h.counts hheld hidle,coherent_release h.coherent hclean hidle⟩

omit h

lemma singleCopy_recount (h : SingleCopy c) (n : ℕ) (pins : ℕ→ℕ→ℕ) (dirty : ℕ→Bool) :
    SingleCopy {c with buf := update c.buf i {c.buf i with refcnt := n}
                       pins := pins,dirty := dirty} :=
  ⟨h.order,single_congr h.single fun j => (recount_fields c.buf i n j).1,h.tasks,h.held⟩

lemma cacheInv_pin (h : CacheInv dev disk listed c) (hi : i<nbuf) (hused : (c.buf i).refcnt≠0)
    (hp : p<nproc) {n k : ℕ} (hn : n<2^32) (hk : n+c.pins p i=(c.buf i).refcnt+k) :
    CacheInv dev disk listed {c with
      buf := update c.buf i {c.buf i with refcnt := n}
      pins := update c.pins p (update (c.pins p) i k)} :=
  ⟨singleCopy_recount h.copies n _ _,counted_pin h.counts hi hused hp hn hk,
    h.coherent.congr (recount_fields c.buf i n) rfl rfl rfl rfl fun _ _ => Iff.rfl⟩

lemma logPin_other (hs : SingleCopy c) (hdev : dev≠0) (hlt : i<nbuf)
    (hkey : (c.buf i).key=(dev,b)) {listed' : Finset UInt32}
    (hlisted : ∀ b',b'≠b→(b'∈listed' ↔ b'∈listed)) {j : ℕ} (hj : j<nbuf) (hji : j≠i) :
    logPin dev listed' (c.buf j)=logPin dev listed (c.buf j) := by
  by_cases hjd : (c.buf j).dev=dev
  · have hne : (c.buf j).blockno≠b := by
      intro heq
      have hsame : (c.buf j).key=(c.buf i).key := by
        rw [hkey]
        exact Prod.ext hjd heq
      exact hji (hs.single j hj i hlt (hjd ▸ hdev) hsame)
    simp only [logPin,hlisted _ hne]
  · grind [logPin]

lemma logPin_self (hkey : (c.buf i).key=(dev,b)) (listed : Finset UInt32) :
    logPin dev listed (c.buf i)=if b∈listed then 1 else 0 := by
  have hd : (c.buf i).dev=dev := congrArg Prod.fst hkey
  have hb : (c.buf i).blockno=b := congrArg Prod.snd hkey
  simp only [logPin,hd,hb,true_and]

variable (h : CacheInv dev disk listed c)

include h

lemma cacheInv_absorb (hheld : c.holder i=some p) (hret : c.task p≠.locked i)
    (hmem : (c.buf i).blockno∈listed) :
    CacheInv dev disk listed {c with dirty := update c.dirty i false} := by
  obtain ⟨hlt,hkey,_⟩ := h.of_held hheld
  refine ⟨⟨h.copies.order,h.copies.single,h.copies.tasks,h.copies.held⟩,
    h.counts.congr (fun _ => rfl) (fun _ => rfl) rfl rfl rfl,?_⟩
  exact coherent_settle h.coherent hlt hkey (h.coherent.read i p hheld hret)
    (fun _ => ⟨rfl,rfl,rfl⟩) rfl rfl (fun _ _ _ => rfl) (Or.inr hmem) rfl rfl fun _ _ => Iff.rfl

lemma cacheInv_list (hdev : dev≠0) (hheld : c.holder i=some p) (hret : c.task p≠.locked i)
    (hnot : (c.buf i).blockno∉listed) (hroom : (c.buf i).refcnt+1<2^32) :
    CacheInv dev disk (insert (c.buf i).blockno listed)
      {bpin c i with dirty := update c.dirty i false} := by
  obtain ⟨hlt,hkey,hsmall⟩ := h.of_held hheld
  have hlisted : ∀ b',b'≠(c.buf i).blockno→
      (b'∈insert (c.buf i).blockno listed ↔ b'∈listed) := by
    grind
  have hold := h.counts.count i hlt
  rw [logPin_self hkey,if_neg hnot] at hold
  refine ⟨singleCopy_recount h.copies _ _ _,?_,?_⟩
  · refine h.counts.recount (h.counts.device i hlt (h.counts.of_holder hlt hheld))
      (n:=inc (c.buf i).refcnt) ?_ rfl ?_ (fun j hj hji => ?_) h.counts.procs rfl h.counts.locked
    · rw [inc_eq hroom]
      exact hroom
    · rw [inc_eq hroom,hold,logPin_self hkey,if_pos (Finset.mem_insert_self _ _)]
      rfl
    · rw [logPin_other h.copies hdev hlt hkey hlisted hj hji]
      rfl
  · exact coherent_settle h.coherent hlt hkey (h.coherent.read i p hheld hret)
      (recount_fields c.buf i _) rfl rfl (fun _ _ _ => rfl) (Or.inr (Finset.mem_insert_self _ _))
      rfl rfl hlisted

lemma cacheInv_unlist (hdev : dev≠0) (hheld : c.holder i=some p) (hret : c.task p≠.locked i)
    (hmem : (c.buf i).blockno∈listed) (hclean : c.dirty i=false)
    (hdisk : c.disk (sector (c.buf i).blockno)=(c.buf i).data) :
    CacheInv dev disk (listed.erase (c.buf i).blockno) (bunpin c i) := by
  obtain ⟨hlt,hkey,hsmall⟩ := h.of_held hheld
  have hlisted : ∀ b',b'≠(c.buf i).blockno→
      (b'∈listed.erase (c.buf i).blockno ↔ b'∈listed) := by
    grind
  have hold := h.counts.count i hlt
  have hused := h.counts.of_holder hlt hheld
  have hbound := h.counts.bound i hlt
  rw [logPin_self hkey,if_pos hmem] at hold
  have hrefs : refs (bunpin c i)=refs c := rfl
  refine ⟨singleCopy_recount h.copies _ _ _,?_,?_⟩
  · refine h.counts.recount (h.counts.device i hlt hused)
      (n:=dec (c.buf i).refcnt) ?_ rfl ?_ (fun j hj hji => ?_) h.counts.procs rfl h.counts.locked
    · rw [dec_eq hused hbound]
      omega
    · rw [dec_eq hused hbound,hold,logPin_self hkey,if_neg (Finset.notMem_erase _ _),hrefs,
        Nat.add_sub_cancel,Nat.add_zero]
    · rw [logPin_other h.copies hdev hlt hkey hlisted hj hji,hrefs]
  · refine coherent_settle h.coherent hlt hkey (h.coherent.read i p hheld hret)
      (recount_fields c.buf i _) rfl ?_ (fun _ _ _ => rfl) (Or.inl hdisk) rfl rfl hlisted
    exact (update_eq_self_iff.mpr hclean.symm).symm

end Cache

end Xv6Riscv.CacheCoherence
