import Xv6Riscv.RingBuffer
import Xv6Riscv.VirtioDisk

/-!
# Disk requests and their completions

A request that has its three descriptors is in flight until its process frees
them. Every number in the log is in one of four places: in the avail ring, with
the device, in the used ring, or seen by the interrupt handler. A request that the
handler has not seen belongs to a process that still waits for it, so its
descriptors, its info entry and its status byte are its own. There are never
more than NUM/3 such requests, so neither ring is overrun and the 16-bit indices
are never a whole turn apart.
-/

namespace Xv6Riscv.DiskRequests

open Function
open Transition VirtioDisk RingBuffer

variable {P B : Type*}

inductive Stage (B : Type*) where
  | out
  | calling (r : Call B)
  | pending (r : Call B) (x : Idx)
  | sent (r : Call B) (x : Idx)

def stage : Pc B→Stage B
  | .out => .out
  | .enter r | .alloc r | .short r _ => .calling r
  | .notify r x => .pending r x
  | .test r x | .wait r x _ => .sent r x

def Stage.call : Stage B→Option (Call B)
  | .out => none
  | .calling r | .pending r _ | .sent r _ => some r

def Stage.flight : Stage B→Option (Call B×Idx)
  | .pending r x | .sent r x => some (r,x)
  | _ => none

def locked : Pc B→Bool
  | .alloc _ | .notify _ _ | .test _ _ => true
  | _ => false

@[simp] lemma stage_wakeFree (pc : Pc B) : stage (wakeFree pc)=stage pc := by
  cases pc <;> rfl

@[simp] lemma locked_wakeFree (pc : Pc B) : locked (wakeFree pc)=locked pc := by
  cases pc <;> rfl

@[simp] lemma stage_wakeBuf [DecidableEq B] (b : B) (pc : Pc B) :
    stage (wakeBuf b pc)=stage pc := by
  cases pc <;> rfl

@[simp] lemma locked_wakeBuf [DecidableEq B] (b : B) (pc : Pc B) :
    locked (wakeBuf b pc)=locked pc := by
  cases pc <;> rfl

@[simp] lemma stage_wakeKilled (pc : Pc B) : stage (wakeKilled pc)=stage pc := by
  cases pc <;> rfl

@[simp] lemma locked_wakeKilled (pc : Pc B) : locked (wakeKilled pc)=locked pc := by
  cases pc <;> rfl

lemma Stage.flight_call {g : Stage B} {r : Call B} {x : Idx} (h : g.flight=some (r,x)) :
    g.call=some r := by
  cases g <;> simp_all [Stage.flight,Stage.call]

section Allocation

variable {s t : Sys P B}

def setFree (free : ℕ→Bool) (x : Idx) (v : Bool) : ℕ→Bool :=
  fun i => if i∈x.list then v else free i

structure Chain (x : Idx) : Prop where
  nodup : x.list.Nodup
  bound : ∀ i∈x.list,i<num

lemma allocDesc_some {i : ℕ} (h : allocDesc s=some (i,t)) :
    i<num ∧ s.free i=true ∧ t={s with free := update s.free i false} := by grind [allocDesc]

lemma freeDesc_next {i : ℕ} (hi : i<num) (hf : s.free i=false) :
    freeDesc s i=.next {s with
      desc := update s.desc i .zero
      free := update s.free i true
      pc := fun p => wakeFree (s.pc p)} := by
  grind [freeDesc]

def Woken (pc pc' : P→Pc B) : Prop :=
  ∀ p,stage (pc' p)=stage (pc p) ∧ locked (pc' p)=locked (pc p)

/-- alloc3_desc takes a free chain, or it has written only descriptors that are
free and woken the processes that wait for some. -/
lemma alloc3Desc_spec (s : Sys P B) :
    (∃ desc' pc',alloc3Desc s=.next ({s with desc := desc',pc := pc'},none) ∧
      (∀ i,s.free i=false→desc' i=s.desc i) ∧ Woken s.pc pc') ∨
    ∃ x,alloc3Desc s=.next ({s with free := setFree s.free x false},some x) ∧ Chain x ∧
      ∀ i∈x.list,s.free i=true := by
  rw [alloc3Desc]
  split
  · exact Or.inl ⟨s.desc,s.pc,rfl,fun _ _ => rfl,fun _ => ⟨rfl,rfl⟩⟩
  next i0 s0 h0 =>
  obtain ⟨hi0,hf0,rfl⟩ := allocDesc_some h0
  split
  · left
    rw [freeDesc_next hi0 (by simp)]
    refine ⟨update s.desc i0 .zero,fun p => wakeFree (s.pc p),?_,?_,?_⟩
    · simp [hf0]
    · grind [update_apply]
    · exact fun p => ⟨by simp,by simp⟩
  next i1 s1 h1 =>
  obtain ⟨hi1,hf1,rfl⟩ := allocDesc_some h1
  have h10 : i1≠i0 := by grind [update_apply]
  simp only [update_of_ne h10] at hf1
  split
  · left
    rw [freeDesc_next hi0 (by simp [Ne.symm h10])]
    simp only [bind_next]
    rw [freeDesc_next hi1 (by simp [h10])]
    refine ⟨update (update s.desc i0 .zero) i1 .zero,
      fun p => wakeFree (wakeFree (s.pc p)),?_,?_,?_⟩
    · have hfree : update (update (update (update s.free i0
          false) i1 false) i0 true) i1 true=s.free := by
        funext i
        grind [update_apply]
      simp [hfree]
    · grind [update_apply]
    · exact fun p => ⟨by simp,by simp⟩
  next i2 s2 h2 =>
  obtain ⟨hi2,hf2,rfl⟩ := allocDesc_some h2
  right
  have h21 : i2≠i1 := by grind [update_apply]
  have h20 : i2≠i0 := by grind [update_apply]
  simp only [update_of_ne h21,update_of_ne h20] at hf2
  refine ⟨⟨i0,i1,i2⟩,?_,⟨?_,?_⟩,?_⟩
  · have hfree : update (update (update s.free i0 false) i1 false) i2
        false=setFree s.free ⟨i0,i1,i2⟩ false := by
      funext i
      simp only [setFree,Idx.list,List.mem_cons,List.not_mem_nil,or_false,update_apply]
      grind
    simp [hfree]
  · grind [Idx.list]
  · simp [Idx.list,hi0,hi1,hi2]
  · simp [Idx.list,hf0,hf1,hf2]

lemma freeChain_spec {x : Idx} (hx : Chain x) (hfree : ∀ i∈x.list,s.free i=false)
    (h0 : (s.desc x.i0).flags &&& 1≠0 ∧ (s.desc x.i0).next=x.i1)
    (h1 : (s.desc x.i1).flags &&& 1≠0 ∧ (s.desc x.i1).next=x.i2)
    (h2 : (s.desc x.i2).flags &&& 1=0) :
    ∃ desc' pc',freeChain (num+1) s x.i0=
        .next {s with desc := desc',free := setFree s.free x true,pc := pc'} ∧
      (∀ i,i∉x.list→desc' i=s.desc i) ∧ Woken s.pc pc' := by
  obtain ⟨i0,i1,i2⟩ := x
  have hnd := hx.nodup
  have hb := hx.bound
  simp only [Idx.list,List.nodup_cons,List.mem_cons,List.not_mem_nil,or_false,not_or,
    not_false_eq_true,List.nodup_nil,and_true,forall_eq_or_imp,forall_eq] at hnd hb hfree
  obtain ⟨⟨h01,h02⟩,h12⟩ := hnd
  obtain ⟨hb0,hb1,hb2⟩ := hb
  obtain ⟨hf0,hf1,hf2⟩ := hfree
  dsimp only at h0 h1 h2
  refine ⟨update (update (update s.desc i0 .zero) i1 .zero) i2 .zero,
    fun p => wakeFree (wakeFree (wakeFree (s.pc p))),?_,?_,fun p => ⟨by simp,by simp⟩⟩
  · have hset : update (update (update s.free i0 true) i1 true) i2 true=
        setFree s.free ⟨i0,i1,i2⟩ true := by
      funext i
      simp only [setFree,Idx.list,List.mem_cons,List.not_mem_nil,or_false,update_apply]
      grind
    rw [num,freeChain,freeDesc_next hb0 hf0]
    simp only [bind_next,if_pos h0.1,h0.2]
    rw [freeChain,freeDesc_next hb1 (by simp [Ne.symm h01,hf1])]
    simp only [bind_next,update_of_ne (Ne.symm h01),if_pos h1.1,h1.2]
    rw [freeChain,freeDesc_next hb2 (by simp [Ne.symm h02,Ne.symm h12,hf2])]
    simp only [bind_next,update_of_ne (Ne.symm h12),update_of_ne (Ne.symm h02),h2,
      ne_eq,not_true_eq_false,if_false,hset]
  · intro i hi
    simp only [Idx.list,List.mem_cons,List.not_mem_nil,or_false,not_or] at hi
    simp [hi]

end Allocation

section Invariant

def phase (s : Sys P B) (p : P) : Stage B := stage (s.pc p)

def headOf (sent : List (Sent P B)) (n : ℕ) : ℕ := ((sent[n]?).map fun e => e.idx.i0).getD 0

structure Owned (free : ℕ→Bool) (phase : P→Stage B) : Prop where
  chain : ∀ p r x,(phase p).flight=some (r,x)→Chain x
  free : ∀ i,i<num→(free i=true ↔ ∀ p r x,(phase p).flight=some (r,x)→i∉x.list)
  disjoint : ∀ p q r r' x x' i,(phase p).flight=some (r,x)→(phase q).flight=some (r',x')→
    i∈x.list→i∈x'.list→p=q

/-- The queue memory of a request is as virtio_disk_rw wrote it. -/
structure Formatted (s : Sys P B) (r : Call B) (x : Idx) : Prop where
  d0 : s.desc x.i0=⟨.op x.i0,16,1,x.i1⟩
  d1 : s.desc x.i1=⟨.data r.b,1024,(if r.write then 0 else 2) ||| 1,x.i2⟩
  d2 : s.desc x.i2=⟨.status x.i0,1,2,0⟩
  op : s.ops x.i0=r.op
  info : (s.info x.i0).b=some r.b

def Sent.job (n : ℕ) (e : Sent P B) : Job B :=
  ⟨n,e.idx.i0,some e.call.op,.data e.call.b,.status e.idx.i0⟩

/-- The numbers of the requests that the interrupt handler has not seen. -/
def unseen (s : Sys P B) : List ℕ := s.log.queue++s.working.map Job.number++s.log.posted

structure Inv (s : Sys P B) : Prop where
  lock : ∀ p,locked (s.pc p)=true ↔ s.lock=some (.proc p)
  bufs : ∀ p q r r',(phase s p).call=some r→(phase s q).call=some r'→ r.b=r'.b→p=q
  owned : Owned s.free (phase s)
  format : ∀ p r x,(phase s p).flight=some (r,x)→Formatted s r x
  numbers : (unseen s++s.log.done).Perm (List.range s.log.sent.length)
  entry : ∀ n e,s.log.sent[n]?=some e→n∉s.log.done→
    phase s e.proc=.sent e.call e.idx ∧ s.log.ticket e.proc=n
  waits : ∀ p r x,phase s p=.sent r x→s.log.sent[s.log.ticket p]?=some ⟨p,r,x⟩ ∧
    (s.bufDisk r.b=true ↔ s.log.ticket p∉s.log.done)
  pending : ∀ p r x,phase s p=.pending r x→
    s.bufDisk r.b=true ∧ s.availRing (s.log.sent.length%num)=x.i0
  jobs : ∀ j∈s.working,∃ e,s.log.sent[j.number]?=some e ∧ j=Sent.job j.number e
  status : ∀ n∈s.log.posted,∀ e,s.log.sent[n]?=some e→(s.info e.idx.i0).status=0
  avail : Window num s.availRing (s.log.sent.length-s.log.queue.length)
    (s.log.queue.map (headOf s.log.sent))
  used : Window num s.usedRing s.log.done.length (s.log.posted.map (headOf s.log.sent))
  availCount : Counts s.availIdx s.log.sent.length
  lastCount : Counts s.lastAvail (s.log.sent.length-s.log.queue.length)
  usedCount : Counts s.usedIdx s.log.done.length
  devCount : Counts s.usedDev (s.log.done.length+s.log.posted.length)

variable {s : Sys P B}

lemma Owned.card {free : ℕ→Bool} {phase : P→Stage B} (h : Owned free phase) (F : Finset P)
    (hF : ∀ p∈F,(phase p).flight≠none) : F.card≤num/3 := by
  classical
  -- the chains are disjoint sets of three descriptors
  let chain : P→Finset ℕ := fun p =>
    match (phase p).flight with
    | some (_,x) => x.list.toFinset
    | none => ∅
  have hchain : ∀ p∈F,∃ r x,(phase p).flight=some (r,x) ∧ chain p=x.list.toFinset := by
    intro p hp
    obtain ⟨⟨r,x⟩,hf⟩ := Option.ne_none_iff_exists'.mp (hF p hp)
    exact ⟨r,x,hf,by simp only [chain,hf]⟩
  have hdisj : (F : Set P).PairwiseDisjoint chain := by
    intro p hp q hq hne
    obtain ⟨r,x,hfp,hcp⟩ := hchain p hp
    obtain ⟨r',x',hfq,hcq⟩ := hchain q hq
    rw [Function.onFun,hcp,hcq,Finset.disjoint_left]
    grind [h.disjoint,List.mem_toFinset]
  have hsub : F.biUnion chain⊆Finset.range num := by
    intro i hi
    obtain ⟨p,hp,hip⟩ := Finset.mem_biUnion.mp hi
    obtain ⟨r,x,hf,hc⟩ := hchain p hp
    rw [hc,List.mem_toFinset] at hip
    exact Finset.mem_range.mpr ((h.chain p r x hf).bound i hip)
  have hcard : (F.biUnion chain).card=F.card*3 := by
    rw [Finset.card_biUnion hdisj]
    refine Finset.sum_const_nat fun p hp => ?_
    obtain ⟨r,x,hf,hc⟩ := hchain p hp
    rw [hc,List.toFinset_card_of_nodup (h.chain p r x hf).nodup]
    rfl
  have hle := Finset.card_le_card hsub
  grind

lemma Inv.unseen_spec (h : Inv s) : (unseen s).Nodup ∧
    (∀ n∈unseen s,n∉s.log.done) ∧ (∀ n∈unseen s,n<s.log.sent.length) ∧
    (unseen s).length+s.log.done.length=s.log.sent.length := by
  have hnd : (unseen s++s.log.done).Nodup := h.numbers.nodup_iff.mpr List.nodup_range
  rw [List.nodup_append'] at hnd
  refine ⟨hnd.1,fun n hn hd => hnd.2.2 hn hd,fun n hn => ?_,?_⟩
  · exact List.mem_range.mp (h.numbers.mem_iff.mp (List.mem_append_left _ hn))
  · grind [h.numbers.length_eq]

lemma Inv.unseen_entry (h : Inv s) {n : ℕ} (hn : n∈unseen s) : ∃ e,s.log.sent[n]?=some e ∧
    headOf s.log.sent n=e.idx.i0 ∧ phase s e.proc=.sent e.call e.idx ∧ s.log.ticket e.proc=n := by
  have hlt := h.unseen_spec.2.2.1 n hn
  have he := List.getElem?_eq_getElem hlt
  refine ⟨s.log.sent[n],he,?_,h.entry n _ he (h.unseen_spec.2.1 n hn)⟩
  rw [headOf,he]
  rfl

lemma Inv.unseen_length (h : Inv s) : (unseen s).length≤num/3 := by
  classical
  rcases isEmpty_or_nonempty (Sent P B) with hempty | hne
  · have hnil : unseen s=[] := List.eq_nil_iff_forall_not_mem.mpr fun n hn =>
      hempty.elim (h.unseen_entry hn).choose
    simp [hnil]
  choose! e he hhead hphase hticket using fun n (hn : n∈unseen s) => h.unseen_entry hn
  have hinj : Set.InjOn (fun n => (e n).proc) ((unseen s).toFinset : Set ℕ) := by
    intro n hn m hm heq
    have hn' := List.mem_toFinset.mp (Finset.mem_coe.mp hn)
    grind [List.mem_toFinset]
  have hcard := h.owned.card ((unseen s).toFinset.image fun n => (e n).proc) (by
    intro p hp
    obtain ⟨n,hn,rfl⟩ := Finset.mem_image.mp hp
    rw [hphase n (List.mem_toFinset.mp hn)]
    simp [Stage.flight])
  rwa [Finset.card_image_of_injOn hinj,List.toFinset_card_of_nodup h.unseen_spec.1] at hcard

lemma Inv.rooms (h : Inv s) : s.log.queue.length+s.working.length+s.log.posted.length≤2 ∧
    s.log.queue.length+s.working.length+s.log.posted.length+s.log.done.length=
      s.log.sent.length := by
  have hle := h.unseen_length
  have heq := h.unseen_spec.2.2.2
  simp only [unseen,List.length_append,List.length_map,num] at hle heq
  exact ⟨by omega,by omega⟩

lemma Owned.not_free {free : ℕ→Bool} {phase : P→Stage B} (h : Owned free phase) {p : P}
    {r : Call B} {x : Idx} (hf : (phase p).flight=some (r,x)) {i : ℕ} (hi : i∈x.list) :
    free i=false := by
  by_contra hfree
  rw [Bool.not_eq_false] at hfree
  exact (h.free i ((h.chain p r x hf).bound i hi)).mp hfree p r x hf hi

end Invariant

section Steps

variable {s : Sys P B} {p : P} {pc : Pc B}

lemma Inv.idle (h : Inv s) {desc' : ℕ→Desc B} {pc' : P→Pc B} {lock' : Option (Holder P)}
    (hdesc : ∀ i,s.free i=false→desc' i=s.desc i)
    (hphase : ∀ p,stage (pc' p)=phase s p ∨ (phase s p).flight=none ∧ (stage (pc' p)).flight=none)
    (hlock : ∀ p,locked (pc' p)=true ↔ lock'=some (.proc p))
    (hbufs : ∀ p q r r',(stage (pc' p)).call=some r→(stage (pc' q)).call=some r'→ r.b=r'.b→p=q) :
    Inv {s with desc := desc',pc := pc',lock := lock'} := by
  have hflight : ∀ p,(stage (pc' p)).flight=(phase s p).flight := by
    grind
  have hsent : ∀ p r x,stage (pc' p)=.sent r x ↔ phase s p=.sent r x := by grind [Stage.flight]
  have hpend : ∀ p r x,stage (pc' p)=.pending r x→ phase s p=.pending r x := by
    grind [Stage.flight]
  refine {h with lock := hlock,bufs := hbufs,owned := ?_,format := ?_,entry := ?_,waits := ?_,pending := ?_}
  · exact {
      chain := fun p r x hf => h.owned.chain p r x (hflight p ▸ hf)
      free := fun i hi => by
        rw [h.owned.free i hi]
        simp only [phase,hflight]
      disjoint := fun p q r r' x x' i hp hq =>
        h.owned.disjoint p q r r' x x' i (hflight p ▸ hp) (hflight q ▸ hq)}
  · intro p r x hf
    have hf' : (phase s p).flight=some (r,x) := hflight p ▸ hf
    have hform := h.format p r x hf'
    have hsame : ∀ i∈x.list,desc' i=s.desc i := fun i hi => hdesc i (h.owned.not_free hf' hi)
    exact {
      d0 := (hsame _ (by simp [Idx.list])).trans hform.d0
      d1 := (hsame _ (by simp [Idx.list])).trans hform.d1
      d2 := (hsame _ (by simp [Idx.list])).trans hform.d2
      op := hform.op
      info := hform.info}
  · intro n e he hn
    obtain ⟨hp,ht⟩ := h.entry n e he hn
    exact ⟨(hsent _ _ _).mpr hp,ht⟩
  · exact fun p r x hp => h.waits p r x ((hsent p r x).mp hp)
  · exact fun p r x hp => h.pending p r x (hpend p r x hp)

lemma Inv.woken (h : Inv s) {desc' : ℕ→Desc B} {pc' : P→Pc B} {lock' : Option (Holder P)}
    (hdesc : ∀ i,s.free i=false→desc' i=s.desc i) (hphase : ∀ p,stage (pc' p)=phase s p)
    (hlock : ∀ p,locked (pc' p)=true ↔ lock'=some (.proc p)) :
    Inv {s with desc := desc',pc := pc',lock := lock'} := by grind [h.idle,h.bufs]

lemma Inv.locked_unique (h : Inv s) {q : P} (hp : locked (s.pc p)=true)
    (hq : locked (s.pc q)=true) : p=q := by grind [h.lock]

lemma pending_locked {r : Call B} {x : Idx} (h : phase s p=.pending r x) :
    locked (s.pc p)=true := by
  revert h
  rw [phase]
  cases s.pc p <;> simp [stage,locked]

lemma format_other (desc : ℕ→Desc B) (r : Call B) (x : Idx) {i : ℕ} (hi : i∉x.list) :
    format desc r x i=desc i := by
  simp only [Idx.list,List.mem_cons,List.not_mem_nil,or_false,not_or] at hi
  simp [format,hi]

lemma Inv.done_lt (h : Inv s) {n : ℕ} (hn : n∈s.log.done) : n<s.log.sent.length :=
  List.mem_range.mp (h.numbers.mem_iff.mp (List.mem_append_right _ hn))

lemma headOf_append {sent : List (Sent P B)} {n : ℕ} (hn : n<sent.length) (e : Sent P B) :
    headOf (sent++[e]) n=headOf sent n := by
  rw [headOf,headOf,List.getElem?_append_left hn]

variable [DecidableEq P]

lemma Inv.unlock (h : Inv s) (hp : locked (s.pc p)=true) (hpc : locked pc=false) (q : P) :
    locked (update s.pc p pc q)=true ↔ (none : Option (Holder P))=some (.proc q) := by
  grind [h.lock]

lemma Inv.keepLock (h : Inv s) (hp : locked (s.pc p)=locked pc) (q : P) :
    locked (update s.pc p pc q)=true ↔ s.lock=some (.proc q) := by grind [h.lock]

lemma Inv.lockStep (h : Inv s) {p : P} {pc : Pc B} {t : Sys P B}
    (hst : stage pc=phase s p) (hpc : locked pc=true)
    (ht : VirtioDisk.lockStep s p pc=.next t) : Inv t := by
  rw [VirtioDisk.lockStep] at ht
  split at ht
  · next hfree =>
    cases ht
    refine h.woken (fun _ _ => rfl) (fun q => ?_) fun q => ?_
    · grind [update_apply,phase]
    · grind [h.lock q,update_apply]
  · cases ht

variable [DecidableEq B]

def taken (s : Sys P B) (p : P) (r : Call B) (x : Idx) : Sys P B :=
  {s with
    free := setFree s.free x false
    ops := update s.ops x.i0 r.op
    desc := format s.desc r x
    bufDisk := update s.bufDisk r.b true
    info := update s.info x.i0 ⟨some r.b,0xff⟩
    availRing := update s.availRing (s.availIdx.toNat%num) x.i0
    pc := update s.pc p (.notify r x)}

lemma Inv.taken (h : Inv s) {r : Call B} {x : Idx} (hp : s.pc p=.alloc r) (hx : Chain x)
    (hfree : ∀ i∈x.list,s.free i=true) : Inv (taken s p r x) := by
  have hstage : phase s p=.calling r := by rw [phase,hp]; rfl
  have hself : phase (DiskRequests.taken s p r x) p=.pending r x := by
    simp [phase,DiskRequests.taken,stage]
  have hother : ∀ q,q≠p→ phase (DiskRequests.taken s p r x) q=phase s q := by
    intro q hq
    simp [phase,DiskRequests.taken,hq]
  have hi0 : x.i0∈x.list := by simp [Idx.list]
  -- the chain is new
  have hnew : ∀ q r' x',(phase s q).flight=some (r',x')→∀ i∈x'.list,i∉x.list := by
    grind [h.owned.not_free]
  have hne : ∀ q r' x',(phase s q).flight=some (r',x')→q≠p := by grind [Stage.flight]
  have hb : ∀ q r' x',(phase s q).flight=some (r',x')→ r'.b≠r.b := by
    intro q r' x' hf heq
    exact hne q r' x' hf (h.bufs q p r' r (Stage.flight_call hf) (by rw [hstage]; rfl) heq)
  have hflight : ∀ q r' x',(phase (DiskRequests.taken s p r x) q).flight=some (r',x')→
      q=p ∧ r'=r ∧ x'=x ∨ q≠p ∧ (phase s q).flight=some (r',x') := by
    intro q r' x' hf
    by_cases hq : q=p <;> grind [Stage.flight]
  have hcell : s.availIdx.toNat%num=s.log.sent.length%num :=
    h.availCount.index (by decide)
  refine {h with
    lock := h.keepLock (by rw [hp]; rfl),bufs := ?_,owned := ?_,format := ?_,entry := ?_,
    waits := ?_,pending := ?_,status := ?_,avail := ?_}
  · have hcall : ∀ q,(phase (DiskRequests.taken s p r x) q).call=(phase s q).call := by
      intro q
      by_cases hq : q=p <;> grind [Stage.call]
    grind [h.bufs]
  · refine ⟨?_,?_,?_⟩
    · grind [h.owned.chain]
    · intro i hi
      show setFree s.free x false i=true ↔ _
      by_cases hix : i∈x.list
      · simp only [setFree,hix,if_true,Bool.false_eq_true,false_iff,not_forall]
        exact ⟨p,r,x,by rw [hself]; rfl,fun hn => hn hix⟩
      · rw [setFree,if_neg hix,h.owned.free i hi]
        grind
    · grind [h.owned.disjoint]
  · intro q r' x' hf
    rcases hflight q r' x' hf with ⟨-,rfl,rfl⟩ | ⟨-,hf'⟩
    · have hnd := hx.nodup
      simp only [Idx.list,List.nodup_cons,List.mem_cons,List.not_mem_nil,or_false,not_or,
        not_false_eq_true,List.nodup_nil,and_true] at hnd
      obtain ⟨⟨h01,h02⟩,h12⟩ := hnd
      constructor <;> simp [DiskRequests.taken,VirtioDisk.format,h01,h02,h12]
    · have hform := h.format q r' x' hf'
      have hout := hnew q r' x' hf'
      have hi0' : x'.i0≠x.i0 := fun heq => hout x'.i0 (by simp [Idx.list]) (heq ▸ hi0)
      exact {
        d0 := (format_other _ _ _ (hout _ (by simp [Idx.list]))).trans hform.d0
        d1 := (format_other _ _ _ (hout _ (by simp [Idx.list]))).trans hform.d1
        d2 := (format_other _ _ _ (hout _ (by simp [Idx.list]))).trans hform.d2
        op := by
          show update s.ops x.i0 r.op x'.i0=r'.op
          rw [update_of_ne hi0',hform.op]
        info := by
          show (update s.info x.i0 _ x'.i0).b=some r'.b
          rw [update_of_ne hi0',hform.info]}
  · intro n e he hn
    obtain ⟨hpe,hte⟩ := h.entry n e he hn
    have hq : e.proc≠p := hne e.proc e.call e.idx (by rw [hpe]; rfl)
    exact ⟨by rw [hother _ hq,hpe],hte⟩
  · intro q r' x' hq'
    have hq : q≠p := by grind
    rw [hother q hq] at hq'
    obtain ⟨hsent,hdisk⟩ := h.waits q r' x' hq'
    refine ⟨hsent,?_⟩
    show update s.bufDisk r.b true r'.b=true ↔ _
    rw [update_of_ne (hb q r' x' (by rw [hq']; rfl))]
    exact hdisk
  · intro q r' x' hq'
    have hq : q=p := by
      by_contra hq
      rw [hother q hq] at hq'
      exact hq (h.locked_unique (pending_locked hq') (by rw [hp]; rfl))
    subst hq
    rw [hself] at hq'
    cases hq'
    refine ⟨by simp [DiskRequests.taken],?_⟩
    show update s.availRing (s.availIdx.toNat%num) x.i0 (s.log.sent.length%num)=x.i0
    rw [hcell,update_self]
  · intro n hn e he
    show (update s.info x.i0 _ e.idx.i0).status=0
    have hun : n∈unseen s := List.mem_append_right _ hn
    obtain ⟨hpe,-⟩ := h.entry n e he (h.unseen_spec.2.1 n hun)
    have hi0' : e.idx.i0≠x.i0 := fun heq =>
      hnew e.proc e.call e.idx (by rw [hpe]; rfl) e.idx.i0 (by simp [Idx.list]) (heq ▸ hi0)
    rw [update_of_ne hi0']
    exact h.status n hn e he
  · have hroom := h.rooms
    have hpos : s.availIdx.toNat%num=
        (s.log.sent.length-s.log.queue.length+s.log.queue.length)%num := by
      rw [hcell,Nat.sub_add_cancel (by omega)]
    show Window num (update s.availRing (s.availIdx.toNat%num) x.i0) _ _
    rw [hpos]
    exact h.avail.spare (by rw [List.length_map]) (by simp only [num]; omega) _

omit [DecidableEq B] in
lemma Inv.notify (h : Inv s) {p : P} {r : Call B} {x : Idx} (hp : s.pc p=.notify r x) :
    Inv (notifyStep s p r x) := by
  have hstage : phase s p=.pending r x := by rw [phase,hp]; rfl
  have hself : phase (notifyStep s p r x) p=.sent r x := by simp [phase,notifyStep,stage]
  have hother : ∀ q,q≠p→ phase (notifyStep s p r x) q=phase s q := by
    intro q hq
    simp [phase,notifyStep,hq]
  have hflight : ∀ q,(phase (notifyStep s p r x) q).flight=(phase s q).flight := by
    intro q
    by_cases hq : q=p <;> grind [Stage.flight]
  have hcall : ∀ q,(phase (notifyStep s p r x) q).call=(phase s q).call := by
    intro q
    by_cases hq : q=p <;> grind [Stage.call]
  have hfresh : s.log.sent.length∉s.log.done := fun hn => absurd (h.done_lt hn) (Nat.lt_irrefl _)
  have hroom := h.rooms
  have hheads : ∀ ns : List ℕ,(∀ n∈ns,n∈unseen s)→
      ns.map (headOf (s.log.sent++[⟨p,r,x⟩]))=ns.map (headOf s.log.sent) := by
    intro ns hns
    refine List.map_congr_left fun n hn => headOf_append (h.unseen_spec.2.2.1 n (hns n hn)) _
  have hkeep : ∀ (n : ℕ) e,s.log.sent[n]?=some e→(s.log.sent++[⟨p,r,x⟩])[n]?=some e := by grind
  have hcount : s.log.sent.length+1-(s.log.queue.length+1)=
      s.log.sent.length-s.log.queue.length := by omega
  refine {
    lock := h.keepLock (by rw [hp]; rfl),bufs := ?_,owned := ?_,format := ?_,numbers := ?_,
    entry := ?_,waits := ?_,pending := ?_,jobs := ?_,status := ?_,avail := ?_,used := ?_,
    availCount := ?_,lastCount := ?_,usedCount := h.usedCount,devCount := h.devCount}
  · grind [h.bufs]
  · exact {
      chain := fun q r' x' hf => h.owned.chain q r' x' (hflight q ▸ hf)
      free := fun i hi => by
        simp only [hflight]
        exact h.owned.free i hi
      disjoint := fun q q' r' r'' x' x'' i h1 h2 =>
        h.owned.disjoint q q' r' r'' x' x'' i (hflight q ▸ h1) (hflight q' ▸ h2)}
  · intro q r' x' hf
    have hform := h.format q r' x' (hflight q ▸ hf)
    exact ⟨hform.d0,hform.d1,hform.d2,hform.op,hform.info⟩
  · have hperm := h.numbers
    rw [List.perm_iff_count] at hperm ⊢
    intro a
    have ha := hperm a
    simp only [unseen,notifyStep,List.count_append,List.length_append,List.length_singleton,
      List.range_succ] at ha ⊢
    omega
  · intro n e he hn
    by_cases hlt : n<s.log.sent.length
    · rw [notifyStep,List.getElem?_append_left hlt] at he
      obtain ⟨hpe,hte⟩ := h.entry n e he hn
      have hq : e.proc≠p := by grind
      refine ⟨by rw [hother _ hq,hpe],?_⟩
      show update s.log.ticket p _ e.proc=n
      rw [update_of_ne hq,hte]
    · have hn' : n=s.log.sent.length := by
        have := (List.getElem?_eq_some_iff.mp he).1
        simp only [notifyStep,List.length_append,List.length_singleton] at this
        omega
      subst hn'
      simp only [notifyStep,List.getElem?_concat_length,Option.some.injEq] at he
      subst he
      exact ⟨hself,by simp [notifyStep]⟩
  · intro q r' x' hq'
    by_cases hq : q=p
    · subst hq
      rw [hself] at hq'
      cases hq'
      simp only [notifyStep,update_self,List.getElem?_concat_length,true_and]
      simp [(h.pending q r x hstage).1,hfresh]
    · rw [hother q hq] at hq'
      obtain ⟨hsent,hdisk⟩ := h.waits q r' x' hq'
      simp only [notifyStep,update_of_ne hq]
      exact ⟨hkeep _ _ hsent,hdisk⟩
  · intro q r' x' hq'
    have hq : q≠p := by grind
    rw [hother q hq] at hq'
    exact absurd (h.locked_unique (pending_locked hq') (by rw [hp]; rfl)) hq
  · intro j hj
    obtain ⟨e,he,hje⟩ := h.jobs j hj
    exact ⟨e,hkeep _ _ he,hje⟩
  · intro n hn e he
    have hlt := h.unseen_spec.2.2.1 n (List.mem_append_right _ hn)
    rw [notifyStep,List.getElem?_append_left hlt] at he
    exact h.status n hn e he
  · have hroom' : s.log.queue.length<num := by simp only [num]; omega
    have hlen : (s.log.queue.map (headOf s.log.sent)).length=s.log.queue.length := List.length_map _
    have hcell := (h.pending p r x hstage).2
    have hpush := h.avail.snoc (x := x.i0) (by rw [hlen]; exact hroom') (by
      rw [hlen,Nat.sub_add_cancel (by omega),hcell])
    simp only [notifyStep,List.length_append,List.length_singleton,List.map_append,hcount]
    rw [hheads s.log.queue (fun n hn => by simp [unseen,hn])]
    simpa [headOf] using hpush
  · simp only [notifyStep]
    rw [hheads s.log.posted (fun n hn => by simp [unseen,hn])]
    exact h.used
  · simpa [notifyStep] using h.availCount.succ
  · simpa [notifyStep,hcount] using h.lastCount

omit [DecidableEq B] in
lemma Inv.finish (h : Inv s) {p : P} {r : Call B} {x : Idx} (hp : s.pc p=.test r x)
    (hdone : s.log.ticket p∈s.log.done) {desc' : ℕ→Desc B} {pc' : P→Pc B}
    (hdesc : ∀ i,i∉x.list→desc' i=s.desc i) (hwoken : Woken s.pc pc') :
    Inv {s with
      desc := desc'
      free := setFree s.free x true
      info := update s.info x.i0 {s.info x.i0 with b := none}
      pc := update pc' p .out
      lock := none} := by
  have hstage : phase s p=.sent r x := by rw [phase,hp]; rfl
  have hpf : (phase s p).flight=some (r,x) := by rw [hstage]; rfl
  have hother : ∀ q,q≠p→stage (update pc' p .out q)=phase s q := by
    intro q hq
    rw [update_of_ne hq,(hwoken q).1,phase]
  have hself : stage (update pc' p .out p)=.out := by
    rw [update_self]
    rfl
  have hout : ∀ q r' x',(phase s q).flight=some (r',x')→q≠p→∀ i∈x'.list,i∉x.list := by
    grind [h.owned.disjoint]
  have hflight : ∀ q r' x',(stage (update pc' p .out q)).flight=some (r',x')→
      q≠p ∧ (phase s q).flight=some (r',x') := by
    grind [Stage.flight]
  have hi0 : x.i0∈x.list := by simp [Idx.list]
  have hinfo : ∀ q r' x',(phase s q).flight=some (r',x')→q≠p→
      update s.info x.i0 {s.info x.i0 with b := none} x'.i0=s.info x'.i0 := by
    intro q r' x' hf hq
    refine update_of_ne (fun heq => ?_) _ _
    exact hout q r' x' hf hq x'.i0 (by simp [Idx.list]) (heq ▸ hi0)
  -- a request that is not seen belongs to another process
  have hentry : ∀ n e,s.log.sent[n]?=some e→n∉s.log.done→
      e.proc≠p ∧ phase s e.proc=.sent e.call e.idx ∧ s.log.ticket e.proc=n := by
    grind [h.entry]
  refine {h with
    lock := ?_,bufs := ?_,owned := ?_,format := ?_,entry := ?_,waits := ?_,pending := ?_,status := ?_}
  · intro q
    have hl := (h.lock p).mp (by rw [hp]; rfl)
    have hw := (hwoken q).2
    grind [h.lock q,locked,update_apply]
  · intro q q' r' r'' h1 h2
    have hcall : ∀ q r',(stage (update pc' p .out q)).call=some r'→
        (phase s q).call=some r' := by grind [Stage.call]
    exact h.bufs q q' r' r'' (hcall q r' h1) (hcall q' r'' h2)
  · refine ⟨?_,?_,?_⟩
    · exact fun q r' x' hf => h.owned.chain q r' x' (hflight q r' x' hf).2
    · intro i hi
      show setFree s.free x true i=true ↔ _
      by_cases hix : i∈x.list
      · simp only [setFree,hix,if_true,true_iff]
        intro q r' x' hf hi'
        obtain ⟨hq,hf'⟩ := hflight q r' x' hf
        exact hout q r' x' hf' hq i hi' hix
      · rw [setFree,if_neg hix,h.owned.free i hi]
        constructor
        · exact fun hall q r' x' hf => hall q r' x' (hflight q r' x' hf).2
        · intro hall q r' x' hf
          by_cases hq : q=p
          · grind
          · exact hall q r' x' ((congrArg Stage.flight (hother q hq)).trans hf)
    · exact fun q q' r1 r2 x1 x2 i h1 h2 =>
        h.owned.disjoint q q' r1 r2 x1 x2 i (hflight q r1 x1 h1).2 (hflight q' r2 x2 h2).2
  · intro q r' x' hf
    obtain ⟨hq,hf'⟩ := hflight q r' x' hf
    have hform := h.format q r' x' hf'
    have ho := hout q r' x' hf' hq
    exact {
      d0 := (hdesc _ (ho _ (by simp [Idx.list]))).trans hform.d0
      d1 := (hdesc _ (ho _ (by simp [Idx.list]))).trans hform.d1
      d2 := (hdesc _ (ho _ (by simp [Idx.list]))).trans hform.d2
      op := hform.op
      info := by
        refine Eq.trans ?_ hform.info
        exact congrArg Info.b (hinfo q r' x' hf' hq)}
  · intro n e he hn
    obtain ⟨hq,hpe,hte⟩ := hentry n e he hn
    exact ⟨(hother _ hq).trans hpe,hte⟩
  · intro q r' x' hq'
    have hq := (hflight q r' x' (by
      rw [phase] at hq'
      rw [hq']
      rfl)).1
    exact h.waits q r' x' ((hother q hq).symm.trans hq')
  · intro q r' x' hq'
    have hq := (hflight q r' x' (by
      rw [phase] at hq'
      rw [hq']
      rfl)).1
    exact h.pending q r' x' ((hother q hq).symm.trans hq')
  · intro n hn e he
    have hun : n∈unseen s := List.mem_append_right _ hn
    obtain ⟨hq,hpe,-⟩ := hentry n e he (h.unseen_spec.2.1 n hun)
    refine Eq.trans (congrArg Info.status ?_) (h.status n hn e he)
    exact hinfo e.proc e.call e.idx (by rw [hpe]; rfl) hq

omit [DecidableEq P] in
lemma Inv.see (h : Inv s) {n : ℕ} {rest : List ℕ} {e : Sent P B} (hposted : s.log.posted=n::rest)
    (he : s.log.sent[n]?=some e) : Inv {s with
      bufDisk := update s.bufDisk e.call.b false
      pc := fun p => wakeBuf e.call.b (s.pc p)
      usedIdx := s.usedIdx+1
      log := s.log.see} := by
  have hun : n∈unseen s := List.mem_append_right _ (by simp [hposted])
  have hnd := h.unseen_spec.2.1 n hun
  obtain ⟨hpe,hte⟩ := h.entry n e he hnd
  have hsee : s.log.see={s.log with posted := rest,done := s.log.done++[n]} := by
    rw [Log.see,hposted]
  rw [hsee]
  have hphase : ∀ p,stage (wakeBuf e.call.b (s.pc p))=phase s p := fun p => stage_wakeBuf _ _
  have hroom := h.rooms
  refine {
    lock := ?_,bufs := ?_,owned := ?_,format := ?_,numbers := ?_,entry := ?_,waits := ?_,
    pending := ?_,jobs := h.jobs,status := ?_,avail := h.avail,used := ?_,
    availCount := h.availCount,lastCount := h.lastCount,usedCount := ?_,devCount := ?_}
  · intro p
    rw [locked_wakeBuf]
    exact h.lock p
  · intro p q r r' hp hq
    exact h.bufs p q r r' (hphase p ▸ hp) (hphase q ▸ hq)
  · have hfun : (phase {s with
        bufDisk := update s.bufDisk e.call.b false
        pc := fun p => wakeBuf e.call.b (s.pc p)
        usedIdx := s.usedIdx+1
        log := {s.log with posted := rest,done := s.log.done++[n]}})=phase s := funext hphase
    rw [hfun]
    exact h.owned
  · intro p r x hf
    have hform := h.format p r x (hphase p ▸ hf)
    exact ⟨hform.d0,hform.d1,hform.d2,hform.op,hform.info⟩
  · grind [h.numbers,unseen]
  · intro m e' he' hm
    rw [List.mem_append,not_or] at hm
    obtain ⟨hp',ht'⟩ := h.entry m e' he' hm.1
    exact ⟨(hphase _).trans hp',ht'⟩
  · intro p r x hp
    have hp' : phase s p=.sent r x := (hphase p).symm.trans hp
    obtain ⟨hsent,hdisk⟩ := h.waits p r x hp'
    refine ⟨hsent,?_⟩
    show update s.bufDisk e.call.b false r.b=true ↔ s.log.ticket p∉s.log.done++[n]
    by_cases hpn : s.log.ticket p=n
    · grind
    · have hb : r.b≠e.call.b := by
        intro heq
        have hpe' := h.bufs p e.proc r e.call (by rw [hp']; rfl) (by rw [hpe]; rfl) heq
        exact hpn (hpe' ▸ hte)
      grind
  · intro p r x hp
    have hp' : phase s p=.pending r x := (hphase p).symm.trans hp
    obtain ⟨hdisk,hcell⟩ := h.pending p r x hp'
    refine ⟨?_,hcell⟩
    show update s.bufDisk e.call.b false r.b=true
    have hb : r.b≠e.call.b := by
      intro heq
      have hpe' := h.bufs p e.proc r e.call (by rw [hp']; rfl) (by rw [hpe]; rfl) heq
      rw [←hpe',hp'] at hpe
      cases hpe
    rw [update_of_ne hb,hdisk]
  · intro m hm e' he'
    exact h.status m (by simp [hposted,show m∈rest from hm]) e' he'
  · have hw := h.used
    rw [hposted,List.map_cons] at hw
    simpa using hw.tail
  · simpa using h.usedCount.succ
  · have hc := h.devCount
    rw [hposted,List.length_cons] at hc
    simp only [List.length_append,List.length_singleton]
    rwa [show s.log.done.length+1+rest.length=s.log.done.length+(rest.length+1) by omega]

omit [DecidableEq P] [DecidableEq B] in
lemma readJob_eq (h : Inv s) {n : ℕ} {e : Sent P B} (hpe : phase s e.proc=.sent e.call e.idx) :
    readJob s n e.idx.i0=Sent.job n e := by
  have hform := h.format e.proc e.call e.idx (by rw [hpe]; rfl)
  simp only [readJob,hform.d0,hform.d1,hform.d2,opAt,hform.op,Sent.job]

omit [DecidableEq P] [DecidableEq B] in
lemma Inv.fetch_queue (h : Inv s) (hne : s.lastAvail≠s.availIdx) :
    ∃ n rest e,s.log.queue=n::rest ∧ s.log.sent[n]?=some e ∧
      readJob s (s.log.queue.headD 0) (s.availRing (s.lastAvail.toNat%num))=Sent.job n e := by
  cases hq : s.log.queue with
  | nil =>
    have h1 := h.lastCount
    rw [hq,List.length_nil,Nat.sub_zero] at h1
    exact absurd (h1.trans h.availCount.symm) hne
  | cons n rest =>
    obtain ⟨e,he,hhead,hpe,-⟩ := h.unseen_entry (n := n) (by simp [unseen,hq])
    have hw := h.avail
    rw [hq,List.map_cons] at hw
    have hcell : s.availRing (s.lastAvail.toNat%num)=e.idx.i0 := by
      rw [h.lastCount.index (by decide),hq]
      exact hw.head.trans hhead
    exact ⟨n,rest,e,rfl,he,by rw [hcell,List.headD_cons,readJob_eq h hpe]⟩

omit [DecidableEq P] [DecidableEq B] in
lemma Inv.fetch (h : Inv s) {t : Sys P B} (ht : fetchStep s=.next t) : Inv t := by
  rw [fetchStep] at ht
  split at ht
  · cases ht
  next hne =>
  obtain ⟨n,rest,e,hq,he,hjob⟩ := h.fetch_queue hne
  dsimp only at ht
  rw [hjob] at ht
  cases ht
  have hroom := h.rooms
  rw [hq,List.length_cons] at hroom
  refine {h with
    format := ?_,numbers := ?_,jobs := ?_,avail := ?_,lastCount := ?_}
  · intro p r x hf
    have hform := h.format p r x hf
    exact ⟨hform.d0,hform.d1,hform.d2,hform.op,hform.info⟩
  · grind [h.numbers,unseen,Sent.job]
  · intro j hj
    rcases List.mem_append.mp hj with hj | hj
    · exact h.jobs j hj
    · rw [List.mem_singleton] at hj
      subst hj
      exact ⟨e,he,rfl⟩
  · have hw := h.avail
    rw [hq,List.map_cons,List.length_cons] at hw
    simp only [hq,List.tail_cons]
    rw [show s.log.sent.length-rest.length=s.log.sent.length-(rest.length+1)+1 by omega]
    exact hw.tail
  · have hc := h.lastCount.succ
    rw [hq,List.length_cons] at hc
    simp only [hq,List.tail_cons]
    rwa [show s.log.sent.length-rest.length=s.log.sent.length-(rest.length+1)+1 by omega]

omit [DecidableEq P] [DecidableEq B] in
lemma Inv.complete (h : Inv s) {k : ℕ} {t : Sys P B} (ht : completeStep s k=.next t) : Inv t := by
  rw [completeStep] at ht
  split at ht
  · cases ht
  next job hjob =>
  cases ht
  have hmem : job∈s.working := List.mem_of_getElem? hjob
  obtain ⟨e,he,hje⟩ := h.jobs job hmem
  obtain ⟨hk,hget⟩ := List.getElem?_eq_some_iff.mp hjob
  have hperm : (job::s.working.eraseIdx k).Perm s.working :=
    hget ▸ List.getElem_cons_eraseIdx_perm hk
  have hhead : job.head=headOf s.log.sent job.number := by
    rw [headOf,he,hje]
    rfl
  have hinfo : writeStatus s.info job.status=
      update s.info e.idx.i0 {s.info e.idx.i0 with status := 0} := by
    rw [hje]
    rfl
  have hroom := h.rooms
  refine {h with
    format := ?_,numbers := ?_,jobs := ?_,status := ?_,used := ?_,devCount := ?_}
  · intro p r x hf
    have hform := h.format p r x hf
    refine ⟨hform.d0,hform.d1,hform.d2,hform.op,?_⟩
    show (writeStatus s.info job.status x.i0).b=some r.b
    rw [hinfo,←hform.info]
    grind [update_apply]
  · have hnum := h.numbers
    have hcount := hperm.map Job.number
    rw [List.perm_iff_count] at hnum hcount ⊢
    intro a
    have ha := hnum a
    have hb := hcount a
    simp only [unseen,List.map_cons,List.count_append,List.count_cons,List.count_nil] at ha hb ⊢
    omega
  · exact fun j hj => h.jobs j (List.mem_of_mem_eraseIdx hj)
  · intro n hn e' he'
    show (writeStatus s.info job.status e'.idx.i0).status=0
    rw [hinfo]
    have hold := h.status n
    grind [update_apply]
  · have hlen : (s.log.posted.map (headOf s.log.sent)).length=s.log.posted.length :=
      List.length_map _
    have hpush := h.used.push (by rw [hlen,num]; omega) job.head
    rw [hlen] at hpush
    simp only [List.map_append,List.map_cons,List.map_nil,←hhead]
    rw [h.devCount.index (by decide)]
    exact hpush
  · simpa [Nat.add_assoc] using h.devCount.succ

end Steps

section Runs

variable [DecidableEq P] [DecidableEq B] {s t : Sys P B} {p : P}

/-- The caller of virtio_disk_rw holds the lock of its buffer, so no other call is
using it. -/
def bufLocked (s : Sys P B) : Act P B→Prop
  | .call _ r => ∀ q r',(phase s q).call=some r'→ r'.b≠r.b
  | _ => True

/-- What a step does to b->disk, and when a call returns. -/
structure Advance (s t : Sys P B) : Prop where
  seen : t.log.done=s.log.done ∧ (∀ b,s.bufDisk b=true→t.bufDisk b=true) ∨
    ∃ n e,s.log.posted.head?=some n ∧ t.log.done=s.log.done++[n] ∧ s.log.sent[n]?=some e ∧
      s.bufDisk e.call.b=true ∧ t.bufDisk=update s.bufDisk e.call.b false
  returns : ∀ p r x,phase s p=.sent r x→ phase t p=.out→
    s.log.sent[s.log.ticket p]?=some ⟨p,r,x⟩ ∧ s.log.ticket p∈s.log.done

omit [DecidableEq P] in
lemma Advance.quiet (hdone : t.log.done=s.log.done)
    (hdisk : ∀ b,s.bufDisk b=true→t.bufDisk b=true)
    (hphase : ∀ p r x,phase s p=.sent r x→ phase t p≠.out) : Advance s t :=
  ⟨Or.inl ⟨hdone,hdisk⟩,fun p r x hp ht => absurd ht (hphase p r x hp)⟩

/-- A step after which the invariants hold and nothing has gone wrong. -/
def Fine (s : Sys P B) (o : Outcome (Sys P B)) : Prop :=
  (∀ msg,o≠.panic msg) ∧ ∀ t,o=.next t→Inv t ∧ Advance s t

omit [DecidableEq P] in
lemma fine_next (h : Inv t) (ha : Advance s t) : Fine s (.next t) :=
  ⟨fun _ => by simp,fun _ ht => Outcome.next.inj ht ▸ ⟨h,ha⟩⟩

omit [DecidableEq P] in
lemma fine_blocked : Fine s .blocked := ⟨fun _ => by simp,fun _ ht => by cases ht⟩

lemma lockStep_fine (h : Inv s) {pc : Pc B} (hst : stage pc=phase s p) (hpc : locked pc=true) :
    Fine s (lockStep s p pc) := by
  have hinv := @Inv.lockStep P B s _ h p pc
  rw [lockStep] at hinv ⊢
  split
  · next hfree =>
    rw [if_pos hfree] at hinv
    refine fine_next (hinv hst hpc rfl) (.quiet rfl (fun _ hb => hb) fun q r x hq => ?_)
    simp only [phase] at hst hq ⊢
    grind [update_apply]
  · exact fine_blocked

lemma allocStep_fine (h : Inv s) {r : Call B} (hp : s.pc p=.alloc r) :
    Fine s (allocStep s p r) := by
  have hcall : phase s p=.calling r := by rw [phase,hp]; rfl
  rw [allocStep]
  rcases alloc3Desc_spec s with ⟨desc',pc',heq,hdesc,hwoken⟩ | ⟨x,heq,hx,hfree⟩
  · rw [heq,bind_next]
    have hstage : ∀ q,stage (update pc' p (.short r false) q)=phase s q := by
      intro q
      have hw := (hwoken q).1
      grind [update_apply,stage,phase]
    refine fine_next (h.woken hdesc hstage fun q => ?_) (.quiet rfl (fun _ hb => hb) fun q r' x hq => ?_)
    · have hw := (hwoken q).2
      have hl := (h.lock p).mp (by rw [hp]; rfl)
      grind [h.lock q,locked,update_apply]
    · exact fun ho => by simp [(hstage q).symm.trans ho] at hq
  · rw [heq,bind_next]
    refine fine_next (h.taken hp hx hfree) (.quiet rfl (fun b hb => ?_) fun q r' x' hq => ?_)
    · grind
    · grind [phase]

lemma testStep_fine (h : Inv s) {r : Call B} {x : Idx} (hp : s.pc p=.test r x) :
    Fine s (testStep s p r x) := by
  have hsent : phase s p=.sent r x := by rw [phase,hp]; rfl
  have hflight : (phase s p).flight=some (r,x) := by rw [hsent]; rfl
  rw [testStep]
  split
  · have hstage : ∀ q,stage (update s.pc p (.wait r x false) q)=phase s q := by
      grind [update_apply,stage,phase]
    refine fine_next (h.woken (fun _ _ => rfl) hstage (h.unlock (by rw [hp]; rfl) rfl))
      (.quiet rfl (fun _ hb => hb) fun q r' x' hq ho => ?_)
    simp [(hstage q).symm.trans ho] at hq
  · next hdisk =>
    have hform := h.format p r x hflight
    obtain ⟨hticket,hiff⟩ := h.waits p r x hsent
    have hdone : s.log.ticket p∈s.log.done := by
      by_contra hn
      exact hdisk (hiff.mpr hn)
    obtain ⟨desc',pc',heq,hdesc,hwoken⟩ := freeChain_spec
      (s := {s with info := update s.info x.i0 {s.info x.i0 with b := none}})
      (h.owned.chain p r x hflight) (fun i hi => h.owned.not_free hflight hi)
      (by simp [hform.d0]) (by simp only [hform.d1]; cases r.write <;> decide)
      (by simp only [hform.d2]; decide)
    rw [heq,bind_next]
    refine fine_next (h.finish hp hdone hdesc hwoken) ⟨Or.inl ⟨rfl,fun _ hb => hb⟩,?_⟩
    intro q r' x' hq ho
    have hqp : q=p := by
      by_contra hne
      have hst : stage (update pc' p .out q)=phase s q := by
        rw [update_of_ne hne,(hwoken q).1,phase]
      simp [hst.symm.trans ho] at hq
    grind

omit [DecidableEq P] [DecidableEq B] in
lemma Inv.posted_oldest (h : Inv s) (hne : s.usedIdx≠s.usedDev) :
    ∃ n rest e,s.log.posted=n::rest ∧ s.log.sent[n]?=some e ∧
      s.usedRing (s.usedIdx.toNat%num)=e.idx.i0 ∧ (s.info e.idx.i0).status=0 ∧
      (s.info e.idx.i0).b=some e.call.b ∧ s.bufDisk e.call.b=true := by
  cases hq : s.log.posted with
  | nil =>
    have h1 := h.devCount
    rw [hq,List.length_nil,Nat.add_zero] at h1
    exact absurd (h.usedCount.trans h1.symm) hne
  | cons n rest =>
    have hun : n∈unseen s := by simp [unseen,hq]
    obtain ⟨e,he,hhead,hpe,hte⟩ := h.unseen_entry hun
    have hw := h.used
    rw [hq,List.map_cons] at hw
    refine ⟨n,rest,e,rfl,he,?_,h.status n (by simp [hq]) e he,?_,?_⟩
    · rw [h.usedCount.index (by decide)]
      exact hw.head.trans hhead
    · exact (h.format e.proc e.call e.idx (by rw [hpe]; rfl)).info
    · exact (h.waits e.proc e.call e.idx hpe).2.mpr (hte ▸ h.unseen_spec.2.1 n hun)

lemma intrStep_fine (h : Inv s) : Fine s (intrStep s) := by
  rw [intrStep]
  split
  · exact fine_blocked
  next hlock =>
  rw [not_not] at hlock
  split
  · refine fine_next (h.woken (fun _ _ => rfl) (fun _ => rfl) fun p => ?_)
      (.quiet rfl (fun _ hb => hb) fun p r x hp ho => ?_)
    · have hne : locked (s.pc p)≠true := by
        intro hp
        simp [(h.lock p).mp hp] at hlock
      simp [hne]
    · exact absurd (hp.symm.trans ho) (by simp)
  next hne =>
  obtain ⟨n,rest,e,hposted,he,hid,hstatus,hb,hdisk⟩ := h.posted_oldest hne
  dsimp only
  rw [hid,if_neg (by simp [hstatus]),hb]
  have hdone : s.log.see.done=s.log.done++[n] := by rw [Log.see,hposted]
  refine fine_next (h.see hposted he) ⟨Or.inr ⟨n,e,by simp [hposted],hdone,he,hdisk,rfl⟩,?_⟩
  intro p r x hp ho
  simp only [phase,stage_wakeBuf] at hp ho
  exact absurd (hp.symm.trans ho) (by simp)

lemma diskStep_fine (h : Inv s) {a : Act P B} (hok : bufLocked s a) : Fine s (diskStep s a) := by
  cases a with
  | call p r =>
    rw [diskStep]
    split
    · next hout =>
      have hphase : phase s p=.out := by rw [phase,hout]; rfl
      have hself : stage (update s.pc p (.enter r) p)=.calling r := by
        rw [update_self]
        rfl
      have hother : ∀ q,q≠p→stage (update s.pc p (.enter r) q)=phase s q := by grind [phase]
      refine fine_next (h.idle (fun _ _ => rfl) (fun q => ?_) (h.keepLock (by rw [hout]; rfl)) ?_)
        (.quiet rfl (fun _ hb => hb) fun q r' x hq ho => ?_)
      · grind [Stage.flight]
      · intro q q' r1 r2 h1 h2 heq
        simp only [bufLocked] at hok
        grind [h.bufs q q' r1 r2,Stage.call]
      · have hqp : q≠p := by
          rintro rfl
          simp [hphase] at hq
        simp [(hother q hqp).symm.trans ho] at hq
    · exact fine_blocked
  | go p =>
    rw [diskStep,procStep]
    split
    · exact fine_blocked
    · next r hp => exact lockStep_fine h (by rw [phase,hp]; rfl) rfl
    · next r hp => exact allocStep_fine h hp
    · next r awake hp =>
      split
      · exact lockStep_fine h (by rw [phase,hp]; rfl) rfl
      · exact fine_blocked
    · next r x hp =>
      refine fine_next (h.notify hp) (.quiet rfl (fun _ hb => hb) fun q r' x' hq => ?_)
      have hqp : q≠p := by
        rintro rfl
        simp [phase,hp,stage] at hq
      rw [phase] at hq
      simp [phase,notifyStep,hqp,hq]
    · next r x hp => exact testStep_fine h hp
    · next r x awake hp =>
      split
      · exact lockStep_fine h (by rw [phase,hp]; rfl) rfl
      · exact fine_blocked
  | kill p =>
    have hstage : ∀ q,stage (update s.pc p (wakeKilled (s.pc p)) q)=phase s q := by
      grind [update_apply,phase,stage_wakeKilled]
    refine fine_next (h.woken (fun _ _ => rfl) hstage (h.keepLock (locked_wakeKilled _).symm))
      (.quiet rfl (fun _ hb => hb) fun q r x hq ho => ?_)
    simp [(hstage q).symm.trans ho] at hq
  | interrupt =>
    rw [diskStep]
    split
    · next hfree =>
      refine fine_next (h.woken (fun _ _ => rfl) (fun _ => rfl) fun p => ?_)
        (.quiet rfl (fun _ hb => hb) fun p r x hp ho => absurd (hp.symm.trans ho) (by simp))
      have hne : locked (s.pc p)≠true := by
        intro hp
        simp [(h.lock p).mp hp] at hfree
      simp [hne]
    · exact fine_blocked
  | handle => exact intrStep_fine h
  | fetch =>
    refine ⟨fun msg => ?_,fun t ht => ⟨h.fetch ht,?_⟩⟩
    · rw [diskStep,fetchStep]
      split <;> simp
    · rw [diskStep,fetchStep] at ht
      split at ht <;> cases ht
      exact .quiet rfl (fun _ hb => hb) fun p r x hp ho => absurd (hp.symm.trans ho) (by simp)
  | complete k =>
    refine ⟨fun msg => ?_,fun t ht => ⟨h.complete ht,?_⟩⟩
    · rw [diskStep,completeStep]
      split <;> simp
    · rw [diskStep,completeStep] at ht
      split at ht <;> cases ht
      exact .quiet rfl (fun _ hb => hb) fun p r x hp ho => absurd (hp.symm.trans ho) (by simp)

omit [DecidableEq P] [DecidableEq B] in
lemma init_inv : Inv (initSys P B) where
  lock p := by simp [initSys,locked]
  bufs p q r r' hp := by simp [phase,initSys,stage,Stage.call] at hp
  owned := by
    refine ⟨?_,?_,?_⟩
    · intro p r x hf
      simp [phase,initSys,stage,Stage.flight] at hf
    · intro i hi
      simp [phase,initSys,stage,Stage.flight,hi]
    · intro p q r r' x x' i hf
      simp [phase,initSys,stage,Stage.flight] at hf
  format p r x hf := by simp [phase,initSys,stage,Stage.flight] at hf
  numbers := by simp [unseen,initSys]
  entry n e he := by simp [initSys] at he
  waits p r x hp := by simp [phase,initSys,stage] at hp
  pending p r x hp := by simp [phase,initSys,stage] at hp
  jobs j hj := by simp [initSys] at hj
  status n hn := by simp [initSys] at hn
  avail := Window.nil _ _ _
  used := Window.nil _ _ _
  availCount := rfl
  lastCount := rfl
  usedCount := rfl
  devCount := rfl

lemma run_inv {as : List (Act P B)} (hok : Guarded diskStep bufLocked (initSys P B) as)
    (hrun : run diskStep (initSys P B) as=.next s) : Inv s :=
  run_invariant_guarded (fun _ _ t h hok ht => ((diskStep_fine h hok).2 t ht).1) init_inv hok hrun

/-- The descriptor i is in the chain of the request of p. -/
def Owner (s : Sys P B) (i : ℕ) (p : P) : Prop :=
  ∃ r x,(phase s p).flight=some (r,x) ∧ i∈x.list

omit [DecidableEq P] [DecidableEq B] in
lemma Inv.one_owner (h : Inv s) {i : ℕ} (hi : i<num) :
    s.free i=true ∧ (∀ p,¬Owner s i p) ∨ s.free i=false ∧ ∃! p,Owner s i p := by
  by_cases hf : s.free i=true
  · left
    refine ⟨hf,?_⟩
    rintro p ⟨r,x,hflight,hix⟩
    exact (h.owned.free i hi).mp hf p r x hflight hix
  · right
    refine ⟨by simpa using hf,?_⟩
    rw [h.owned.free i hi] at hf
    push Not at hf
    obtain ⟨p,r,x,hflight,hix⟩ := hf
    refine ⟨p,⟨r,x,hflight,hix⟩,?_⟩
    rintro q ⟨r',x',hflight',hix'⟩
    exact h.owned.disjoint q p r' r x' x i hflight' hflight hix' hix

/-- In every run in which callers hold the locks of their buffers: each descriptor
is free or in the chain of one request in flight, and chains have three
descriptors; at most NUM/3 requests are in flight, and the avail ring holds the
chains that the device has not read; what the device has read is what was written
for a request. The next step clears b->disk only for the buffer of the request
whose completion the interrupt handler sees, a call returns only after its own
request was seen, and nothing panics. -/
theorem disk_requests_matched {as : List (Act P B)}
    (hok : Guarded diskStep bufLocked (initSys P B) as)
    (hrun : run diskStep (initSys P B) as=.next s) :
    (∀ i,i<num→s.free i=true ∧ (∀ p,¬Owner s i p) ∨ s.free i=false ∧ ∃! p,Owner s i p) ∧
    (∀ p r x,(phase s p).flight=some (r,x)→Chain x) ∧
    (∀ F : Finset P,(∀ p∈F,(phase s p).flight≠none)→F.card≤num/3) ∧
    Window num s.availRing (s.log.sent.length-s.log.queue.length)
      (s.log.queue.map (headOf s.log.sent)) ∧
    (∀ j∈s.working,∃ e,s.log.sent[j.number]?=some e ∧ j=Sent.job j.number e) ∧
    ∀ a,bufLocked s a→(∀ msg,diskStep s a≠.panic msg) ∧ ∀ t,diskStep s a=.next t→Advance s t := by
  have h := run_inv hok hrun
  refine ⟨fun i hi => h.one_owner hi,h.owned.chain,h.owned.card,h.avail,h.jobs,fun a ha => ?_⟩
  obtain ⟨hpanic,hnext⟩ := diskStep_fine h ha
  exact ⟨hpanic,fun t ht => (hnext t ht).2⟩

/-- Two processes read two blocks, and the device completes the second first. -/
def crossing : List (Act (Fin 2) (Fin 2)) :=
  [.call 0 ⟨0,7,false⟩,.call 1 ⟨1,9,true⟩,.go 0,.go 0,.go 0,.go 0,.go 1,.go 1,.go 1,.fetch,.fetch,
    .go 1,.complete 1,.interrupt,.handle,.complete 0,.handle,.handle,.go 1,.go 1,.go 0,.go 0]

def bufLockedCheck (s : Sys (Fin 2) (Fin 2)) : Act (Fin 2) (Fin 2)→Bool
  | .call _ r => (phase s 0).call.all (fun r' => r'.b≠r.b) && (phase s 1).call.all (fun r' => r'.b≠r.b)
  | _ => true

/-- Both requests are answered, and every descriptor is free or has one owner. -/
theorem crossing_matched : ∃ s,run diskStep (initSys (Fin 2) (Fin 2)) crossing=.next s ∧
    s.log.done=[1,0] ∧
    ∀ i,i<num→s.free i=true ∧ (∀ p,¬Owner s i p) ∨ s.free i=false ∧ ∃! p,Owner s i p := by
  have hok : Guarded diskStep bufLocked (initSys (Fin 2) (Fin 2)) crossing := by
    refine guarded_of_check (k := bufLockedCheck) (fun s a ha => ?_) (by decide +kernel)
    cases a with
    | call p r =>
      simp only [bufLockedCheck,Bool.and_eq_true,Option.all_eq_true,decide_eq_true_eq] at ha
      intro q r' hq
      match q with
      | 0 => exact ha.1 r' hq
      | 1 => exact ha.2 r' hq
    | _ => trivial
  obtain ⟨s,hs,hobs⟩ := exists_of_state? (o := run diskStep (initSys (Fin 2) (Fin 2)) crossing)
    (f := fun s => (s.log.done,s.pc 0,s.pc 1)) (v := ([1,0],.out,.out)) (by decide +kernel)
  simp only [Prod.mk.injEq] at hobs
  exact ⟨s,hs,hobs.1,(disk_requests_matched hok hs).1⟩

end Runs

end Xv6Riscv.DiskRequests
