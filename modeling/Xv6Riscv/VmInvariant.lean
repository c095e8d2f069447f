import Xv6Riscv.ExecReplace
import Xv6Riscv.ForkCopy
import Xv6Riscv.Tally
import Xv6Riscv.VmMachine

/-!
# Every page has its owners counted

The invariant of the memory of all processes: seen from each process, its
address space is sound with everybody else as the owners outside. Every action
keeps it, whether fork shares pages or copies them and whether or not memory
runs out. In particular no panic of mappages, uvmunmap, freewalk, uvmcopy,
kfree or loadseg is reachable.
-/

namespace Xv6Riscv.VmInvariant

open Function
open Transition RadixTree PageAllocator PageTables AddressSpace PrivateSpace SpaceOwnership CowSharing CopyBytes
  ForkCopy ExecImage ExecReplace VmMachine Tally
open ProcMachine (Slot nproc)

def weight : Option VmProc→ℕ→ℕ
  | none => 0
  | some q => tags q.pagetable+(leafs q.pagetable+Pi.single q.trapframe 1)

def kernelOwn (l : List ℕ) (f : ℕ) : ℕ := l.count f

def owners (s : VmSys) : ℕ→ℕ := kernelOwn s.kernel+∑ p,weight (s.proc p)

/-- The owners outside the page table of process q in slot p. -/
def outside (s : VmSys) (p : Slot) (q : VmProc) : ℕ→ℕ :=
  Pi.single q.trapframe 1+(kernelOwn s.kernel+∑ p' ∈ Finset.univ.erase p,weight (s.proc p'))

structure VmInv (mode : CopyMode) (s : VmSys) : Prop where
  kmem : KmemInv s.kmem (owners s)
  space : ∀ p q,s.proc p=some q → SpaceInv s.kmem q.pagetable (outside s p q) (pageCount q.sz)
  small : ∀ p q,s.proc p=some q → q.sz<2^63
  trapped : ∀ p q,s.proc p=some q → Trapped q.pagetable
  plain : mode=.eager → ∀ p q,s.proc p=some q → ∀ v e,v<trapframe →
    lookup q.pagetable v=some e → e.cow=false

section Counting

variable {s s' : VmSys} {p p' : Slot} {q q' : VmProc}

lemma kernelOwn_cons (page : ℕ) (l : List ℕ) :
    kernelOwn (page::l)=Pi.single page 1+kernelOwn l := by
  funext f
  by_cases hf : f=page
  · grind [Pi.add_apply,kernelOwn]
  · grind [Pi.add_apply,kernelOwn]

lemma owners_eq (hp : s.proc p=some q) :
    owners s=tags q.pagetable+(leafs q.pagetable+outside s p q) := by
  grind [owners,outside,Finset.add_sum_erase,weight]

lemma owners_set (s : VmSys) (k : Kmem) (p : Slot) (o : Option VmProc) (f : ℕ) :
    owners (s.set k p o) f+weight (s.proc p) f=owners s f+weight o f := by
  have hsum := sum_exchange (Finset.mem_univ p) (f:=fun x => weight (s.proc x) f)
    (g:=fun x => weight ((s.set k p o).proc x) f) (fun x _ hx => by
      simp only [VmSys.set,update_of_ne hx])
  have hself : (s.set k p o).proc p=o := update_self ..
  simp only [owners,Pi.add_apply,Finset.sum_apply]
  rw [hself] at hsum
  have hkernel : (s.set k p o).kernel=s.kernel := rfl
  rw [hkernel]
  omega

lemma outside_set_self (s : VmSys) (k : Kmem) (p : Slot) (o : Option VmProc) (q : VmProc) :
    outside (s.set k p o) p q=outside s p q := by
  unfold outside
  have hsum : ∑ x ∈ Finset.univ.erase p,weight ((s.set k p o).proc x)=
      ∑ x ∈ Finset.univ.erase p,weight (s.proc x) := by
    refine Finset.sum_congr rfl fun x hx => ?_
    simp only [VmSys.set,update_of_ne (Finset.ne_of_mem_erase hx)]
  rw [hsum]
  rfl

lemma outside_set (s : VmSys) (k : Kmem) (o : Option VmProc) (q' : VmProc) (hne : p'≠p) (f : ℕ) :
    outside (s.set k p o) p' q' f+weight (s.proc p) f=outside s p' q' f+weight o f := by
  have hmem : p∈Finset.univ.erase p' := Finset.mem_erase.mpr ⟨hne.symm,Finset.mem_univ p⟩
  have hsum := sum_exchange hmem (f:=fun x => weight (s.proc x) f)
    (g:=fun x => weight ((s.set k p o).proc x) f) (fun x _ hx => by
      simp only [VmSys.set,update_of_ne hx])
  have hself : (s.set k p o).proc p=o := update_self ..
  simp only [outside,Pi.add_apply,Finset.sum_apply]
  rw [hself] at hsum
  have hkernel : (s.set k p o).kernel=s.kernel := rfl
  rw [hkernel]
  omega

lemma weight_le_outside (s : VmSys) (q' : VmProc) (hne : p'≠p) (f : ℕ) :
    weight (s.proc p) f≤outside s p' q' f := by
  have hmem : p∈Finset.univ.erase p' := Finset.mem_erase.mpr ⟨hne.symm,Finset.mem_univ p⟩
  have hsum := Finset.add_sum_erase _ (fun x => weight (s.proc x) f) hmem
  simp only [outside,Pi.add_apply,Finset.sum_apply]
  omega

end Counting

section Parts

variable {k : Kmem} {pt : PageTable} {own : ℕ→ℕ} {sz page : ℕ}

lemma allocproc_spec (h : KmemInv k own) :
    ∃ k' r,allocproc k=.next (k',r) ∧ Keeps own k k' ∧
      match r with
      | none => KmemInv k' own ∧ k'.oom=true
      | some (page,pt) => SpaceInv k' pt (Pi.single page 1+own) 0 ∧ Trapped pt ∧ k'.oom=k.oom ∧
          leafs pt=0 ∧ own page=0 ∧ ∀ f,0<(Pi.single page 1+own : ℕ→ℕ) f → tags pt f=0 := by
  rcases kalloc_spec h with ⟨k1,hk,hinv,hkeep,hoom⟩|⟨page,k1,hk,hfresh,hinv,hkeep,hoom⟩
  · exact ⟨k1,none,by simp only [allocproc,hk],hkeep,hinv,hoom⟩
  · have hle : ∀ f,own f≤(Pi.single page 1+own : ℕ→ℕ) f := by
      grind [Pi.add_apply]
    obtain ⟨k2,r,hrun,hkeep2,hcase⟩ := procPagetable_spec hinv page
    cases r with
    | none =>
      obtain ⟨hinv2,hoom2⟩ := hcase
      obtain ⟨k3,hfree,hinv3,hkeep3,hoom3⟩ := kfree_spec hinv2
      refine ⟨k3,none,by simp only [allocproc,hk,hrun,hfree,bind_next],
        (hkeep.trans (hkeep2.mono hle)).trans hkeep3,hinv3,hoom3.trans hoom2⟩
    | some pt =>
      obtain ⟨hspace,htrap,hoom2,hleafs,htags⟩ := hcase
      exact ⟨k2,some (page,pt),by simp only [allocproc,hk,hrun,bind_next],
        hkeep.trans (hkeep2.mono hle),hspace,htrap,hoom2.trans hoom,hleafs,hfresh,htags⟩

lemma freeproc_spec (h : SpaceInv k pt (Pi.single page 1+own) (pageCount sz))
    (htrap : Trapped pt) :
    ∃ k',freeproc k page pt sz=.next k' ∧ KmemInv k' own ∧ Keeps own k k' ∧ k'.oom=k.oom := by
  have hkmem : KmemInv k (Pi.single page 1+(tags pt+(leafs pt+own))) := by
    grind [h.kmem.mono,Pi.add_apply]
  obtain ⟨k1,hfree,hinv1,hkeep1,hoom1⟩ := kfree_spec hkmem
  have hspace : SpaceInv k1 pt own (pageCount sz) := by grind [h.reown,Pi.add_apply]
  obtain ⟨k2,hpt,hinv2,hkeep2,hoom2⟩ := procFreepagetable_spec hspace htrap
  refine ⟨k2,by simp only [freeproc,hfree,hpt,bind_next],hinv2,(hkeep1.mono fun f => ?_).trans hkeep2,
    hoom2.trans hoom1⟩
  simp only [Pi.add_apply]
  omega

lemma growproc_spec (h : SpaceInv k pt own (pageCount sz)) (hsz : sz<2^63) (n : BitVec 32) :
    ∃ k' pt' sz',growproc k pt sz n=.next (k',pt',sz') ∧ SpaceInv k' pt' own (pageCount sz') ∧
      Undisturbed own k pt k' pt' ∧ sz'<2^63 ∧
      (∀ v,v<2^27 → (v<pageCount sz ∧ v<pageCount sz') ∨ trapframe≤v → lookup pt' v=lookup pt v) ∧
      (∀ v,v<pageCount sz → v<pageCount sz' → view k' pt' v=view k pt v) ∧
      (∀ v,pageCount sz≤v → v<pageCount sz' → view k' pt' v=some ⟨fill 0,false,true⟩ ∧
        ∃ e,lookup pt' v=some e ∧ e.toPerm=userPerm true false) ∧
      (k'.oom=false → sz'=grown sz n) := by
  unfold growproc grown
  by_cases hpos : 0<n.toInt
  · have hle : sz≤addInt sz n := by
      grind [addInt]
    obtain ⟨k',pt',r,hrun,hund,hsame,hview,hcase⟩ := uvmalloc_spec (addInt sz n) h hsz true false
    rw [if_pos hpos,if_pos hpos,hrun,bind_next]
    rcases hcase with ⟨hlt,_⟩|⟨_,hsmall,hr,hinv,_,_,hnew⟩|⟨_,hr,hinv,hoom⟩
    · omega
    · have hr0 : r≠0 := by
        grind [addInt]
      rw [if_neg hr0,hr]
      exact ⟨k',pt',_,rfl,hinv,hund,hsmall,
        fun v hv hc => hsame v hv (hc.imp And.left id),fun v hv _ => hview v hv,hnew,fun _ => rfl⟩
    · rw [if_pos hr]
      refine ⟨k',pt',_,rfl,hinv,hund,hsz,fun v hv hc => hsame v hv (hc.imp And.left id),
        fun v hv _ => hview v hv,fun v h1 h2 => ?_,fun hno => ?_⟩
      · omega
      · grind
  · rw [if_neg hpos,if_neg hpos]
    by_cases hneg : n.toInt<0
    · rw [if_pos hneg,if_pos hneg]
      obtain ⟨k',pt',hrun,hinv,hund,_,hsame,hview⟩ := uvmdealloc_spec (addInt sz n) h hsz
      have hmono : pageCount (min sz (addInt sz n))≤pageCount sz := by
        grind [pageCount,pgRoundUp,pgsize]
      refine ⟨k',pt',_,hrun,hinv,hund,by omega,fun v hv hc => hsame v hv (hc.imp And.right id),
        fun v _ hv => hview v hv,fun v h1 h2 => ?_,fun _ => rfl⟩
      omega
    · rw [if_neg hneg,if_neg hneg]
      exact ⟨k,pt,sz,rfl,h,Undisturbed.refl own k pt,hsz,fun _ _ _ => rfl,fun _ _ _ => rfl,
        fun v h1 h2 => absurd h2 (Nat.not_lt.mpr h1),fun _ => rfl⟩

/-- sbrk with a negative argument shrinks at most to the new size, and no other
sbrk shrinks. -/
lemma growproc_least {k' : Kmem} {pt' : PageTable} {sz' : ℕ}
    (h : SpaceInv k pt own (pageCount sz)) (hsz : sz<2^63) {n : BitVec 32}
    (hrun : growproc k pt sz n=.next (k',pt',sz')) : min sz (grown sz n)≤ sz' := by
  unfold growproc at hrun
  unfold grown
  by_cases hpos : 0<n.toInt
  · obtain ⟨k1,pt1,r,hrun1,_,_,_,hcase⟩ := uvmalloc_spec (addInt sz n) h hsz true false
    rw [if_pos hpos,hrun1,bind_next] at hrun
    cases hrun
    split_ifs <;> grind
  · rw [if_neg hpos] at hrun
    by_cases hneg : n.toInt<0
    · obtain ⟨k1,pt1,hrun1,_⟩ := uvmdealloc_spec (addInt sz n) h hsz
      rw [if_pos hneg,hrun1] at hrun
      cases hrun
      rw [if_neg hpos,if_pos hneg]
      omega
    · rw [if_neg hneg] at hrun
      cases hrun
      exact Nat.min_le_left ..

end Parts

section Change

variable {mode : CopyMode} {s s' : VmSys} {p : Slot} {q q' : VmProc} {k : Kmem}

lemma VmInv.change (h : VmInv mode s) (C : Slot→Prop) (hsame : ∀ x,¬C x → s'.proc x=s.proc x)
    (hk : KmemInv s'.kmem (owners s'))
    (hzero : ∀ x y f,¬C x → s.proc x=some y → 0<leafs y.pagetable f → outside s x y f=0 →
      outside s' x y f=0)
    (hself : ∀ x y,C x → s'.proc x=some y →
      SpaceInv s'.kmem y.pagetable (outside s' x y) (pageCount y.sz) ∧ y.sz<2^63 ∧
      Trapped y.pagetable ∧
      (mode=.eager → ∀ v e,v<trapframe → lookup y.pagetable v=some e → e.cow=false)) :
    VmInv mode s' := by
  have hcase : ∀ x y,s'.proc x=some y →
      SpaceInv s'.kmem y.pagetable (outside s' x y) (pageCount y.sz) ∧ y.sz<2^63 ∧
      Trapped y.pagetable ∧
      (mode=.eager → ∀ v e,v<trapframe → lookup y.pagetable v=some e → e.cow=false) := by
    intro x y hy
    by_cases hC : C x
    · exact hself x y hC hy
    · have hold : s.proc x=some y := by rw [← hsame x hC,hy]
      refine ⟨(h.space x y hold).reown ?_ (fun v e hv he _ hz => ?_),h.small x y hold,
        h.trapped x y hold,fun hm => h.plain hm x y hold⟩
      · rw [← owners_eq hy]
        exact hk
      · exact hzero x y e.ppn hC hold (leafs_pos hv he) hz
  exact ⟨hk,fun x y hy => (hcase x y hy).1,fun x y hy => (hcase x y hy).2.1,
    fun x y hy => (hcase x y hy).2.2.1,fun hm x y hy => (hcase x y hy).2.2.2 hm⟩

lemma VmInv.replace (h : VmInv mode s) (hp : s.proc p=some q)
    (hframe : q'.trapframe=q.trapframe)
    (hinv : SpaceInv k q'.pagetable (outside s p q) (pageCount q'.sz))
    (hund : Undisturbed (outside s p q) s.kmem q.pagetable k q'.pagetable) (hsmall : q'.sz<2^63)
    (htrapped : Trapped q'.pagetable)
    (hplain : mode=.eager → ∀ v e,v<trapframe → lookup q'.pagetable v=some e → e.cow=false) :
    VmInv mode (s.set k p (some q')) := by
  have hout : outside (s.set k p (some q')) p q'=outside s p q := by
    rw [outside_set_self]
    unfold outside
    rw [hframe]
  have hself : (s.set k p (some q')).proc p=some q' := update_self ..
  refine h.change (· = p) (fun x hx => update_of_ne hx _ _) ?_ (fun x y f hx hy hpos hz => ?_)
    (fun x y hx hy => ?_)
  · rw [owners_eq hself,hout]
    exact hinv.kmem
  · have hset := outside_set s k (some q') y hx f
    have hle := weight_le_outside s y hx f
    have hle' := weight_le_outside s q (Ne.symm hx) f
    rw [hy] at hle'
    rw [hp] at hset hle
    simp only [weight,Pi.add_apply,hframe] at hset hle hle'
    have hst := hund.stable f (by omega)
    omega
  · subst hx
    rw [hself] at hy
    cases hy
    refine ⟨?_,hsmall,htrapped,hplain⟩
    rw [hout]
    exact hinv

lemma VmInv.kernel (h : VmInv mode s) (hproc : s'.proc=s.proc)
    (hk : KmemInv s'.kmem (owners s'))
    (hzero : ∀ f,0<owners s f → kernelOwn s.kernel f=0 → kernelOwn s'.kernel f=0) :
    VmInv mode s' := by
  refine h.change (fun _ => False) (fun x _ => by rw [hproc]) hk (fun x y f _ hy hpos hz => ?_)
    (fun _ _ hx => hx.elim)
  have how := owners_eq hy
  have hposo : 0<owners s f := by
    rw [how]
    simp only [Pi.add_apply]
    omega
  simp only [outside,Pi.add_apply] at hz ⊢
  grind

lemma set_same (hp : s.proc p=some q) : s.set k p (some q)={s with kmem := k} := by
  unfold VmSys.set
  rw [← hp,update_eq_self]

lemma VmInv.keep (h : VmInv mode s) (hp : s.proc p=some q)
    (hinv : SpaceInv k q.pagetable (outside s p q) (pageCount q.sz))
    (hkeep : Keeps (outside s p q) s.kmem k) : VmInv mode (s.set k p (some q)) :=
  h.replace hp rfl hinv ⟨hkeep,fun _ _ => Nat.le_refl _⟩ (h.small p q hp) (h.trapped p q hp)
    fun hm => h.plain hm p q hp

lemma outside_free (hnone : s.proc p=none) (q : VmProc) :
    outside s p q=Pi.single q.trapframe 1+owners s := by
  grind [outside,owners,Finset.add_sum_erase,weight]

lemma freeSlot_none {np : Slot} (h : freeSlot s=some np) : s.proc np=none := by
  have hsome := List.find?_some h
  exact Option.isNone_iff_eq_none.mp hsome

end Change

section Fork

variable {mode : CopyMode} {s : VmSys} {p np : Slot} {q : VmProc} {k : Kmem} {old new : PageTable}
  {page : ℕ}

/-- What fork leaves behind in physical memory and the two page tables. -/
structure Forked (mode : CopyMode) (s : VmSys) (p : Slot) (q : VmProc) (k : Kmem)
    (old : PageTable) : Prop where
  keeps : Keeps (outside s p q) s.kmem k
  seen : ∀ v,v<trapframe → view k old v=view s.kmem q.pagetable v
  can : ∀ v,v<trapframe → canWrite q.pagetable v=true → canWrite old v=true
  protect : ∀ v e',lookup old v=some e' → v<trapframe → ∃ e,lookup q.pagetable v=some e ∧
    (e'.w=true → e.w=true)
  eager : mode=.eager → old=q.pagetable

/-- The child sees the parent's bytes with the parent's permissions. -/
def Twin (k : Kmem) (old new : PageTable) : Prop :=
  ∀ v,v<trapframe → view k new v=view k old v ∧
    (lookup new v).map Pte.toPerm=(lookup old v).map Pte.toPerm

lemma Twin.of_forking {own : ℕ→ℕ} {n : ℕ} (h : Forking mode k old new own n n) : Twin k old new := by
  intro v hv
  by_cases hvn : v<n
  · grind [h.copied,view]
  · have hold : lookup old v=none := by
      cases he : lookup old v with
      | none => rfl
      | some e => exact absurd ((h.parent.mapped v hv).mp ⟨e,he⟩) hvn
    have hnew : lookup new v=none := by
      cases he : lookup new v with
      | none => rfl
      | some e => exact absurd ((h.child.mapped v hv).mp ⟨e,he⟩) hvn
    rw [view,view,hold,hnew]
    exact ⟨rfl,rfl⟩

lemma VmInv.forked (h : VmInv mode s) (hp : s.proc p=some q) (hnp : s.proc np=none)
    (hpage : owners s page=0)
    (hfork : Forking mode k old new (Pi.single page 1+outside s p q) (pageCount q.sz) (pageCount q.sz))
    (htables : tags old=tags q.pagetable) (hframes : leafs old=leafs q.pagetable)
    (happart : ∀ f,0<outside s p q f → leafs q.pagetable f=0 → tags new f+leafs new f=0)
    (hold : Trapped old) (hnew : Trapped new) :
    VmInv mode ((s.set k p (some {q with pagetable := old})).set k np
      (some ⟨new,q.sz,page,.running,q.ro⟩)) := by
  have hne : np≠p := by grind
  have hslot : (s.set k p (some {q with pagetable := old})).proc np=none := by
    rw [← hnp]
    exact update_of_ne hne _ _
  have hself : ((s.set k p (some {q with pagetable := old})).set k np
      (some ⟨new,q.sz,page,.running,q.ro⟩)).proc p=some {q with pagetable := old} :=
    (update_of_ne hne.symm _ _).trans (update_self ..)
  have hchild : ((s.set k p (some {q with pagetable := old})).set k np
      (some ⟨new,q.sz,page,.running,q.ro⟩)).proc np=some ⟨new,q.sz,page,.running,q.ro⟩ :=
    update_self ..
  have hout1 : outside ((s.set k p (some {q with pagetable := old})).set k np
      (some ⟨new,q.sz,page,.running,q.ro⟩)) p {q with pagetable := old}=
      tags new+(leafs new+(Pi.single page 1+outside s p q)) := by
    funext f
    have hset := outside_set (s.set k p (some {q with pagetable := old})) k
      (some ⟨new,q.sz,page,.running,q.ro⟩) {q with pagetable := old} hne.symm f
    rw [hslot,outside_set_self] at hset
    have hq : outside s p {q with pagetable := old}=outside s p q := rfl
    rw [hq] at hset
    simp only [weight,Pi.add_apply,Pi.zero_apply] at hset ⊢
    omega
  have hout2 : outside ((s.set k p (some {q with pagetable := old})).set k np
      (some ⟨new,q.sz,page,.running,q.ro⟩)) np ⟨new,q.sz,page,.running,q.ro⟩=
      tags old+(leafs old+(Pi.single page 1+outside s p q)) := by
    rw [outside_set_self]
    funext f
    have hset := outside_set s k (some {q with pagetable := old})
      ⟨new,q.sz,page,.running,q.ro⟩ hne f
    have how := congrFun (owners_eq hp) f
    rw [outside_free hnp,hp] at hset
    simp only [weight,Pi.add_apply] at hset how ⊢
    omega
  refine h.change (fun x => x=p ∨ x=np) (fun x hx => ?_) ?_ (fun x y f hx hy hpos hz => ?_)
    (fun x y hx hy => ?_)
  · rw [not_or] at hx
    exact (update_of_ne hx.2 _ _).trans (update_of_ne hx.1 _ _)
  · rw [owners_eq hself,hout1]
    exact hfork.parent.kmem
  · rw [not_or] at hx
    have hset1 := outside_set (s.set k p (some {q with pagetable := old})) k
      (some ⟨new,q.sz,page,.running,q.ro⟩) y hx.2 f
    have hset2 := outside_set s k (some {q with pagetable := old}) y hx.1 f
    have hle := weight_le_outside s y hx.1 f
    have hle' := weight_le_outside s q (Ne.symm hx.1) f
    have how := congrFun (owners_eq hy) f
    rw [hy] at hle'
    rw [hp] at hset2 hle
    rw [hslot] at hset1
    have hfp : f≠page := by grind [Pi.add_apply]
    simp only [weight,Pi.add_apply,Pi.zero_apply,htables,hframes,Pi.single_eq_of_ne hfp] at hset1 hset2 hle hle'
    grind
  · rcases hx with hxp|hxn
    · subst hxp
      rw [hself] at hy
      cases hy
      rw [hout1]
      exact ⟨hfork.parent,h.small x q hp,hold,hfork.plain⟩
    · subst hxn
      rw [hchild] at hy
      cases hy
      rw [hout2]
      refine ⟨hfork.child,h.small p q hp,hnew,fun hm v e hv he => ?_⟩
      obtain ⟨e1,f1,he1,hf1,hperm,_,_⟩ := hfork.copied v ((hfork.child.mapped v hv).mp ⟨e,he⟩)
      rw [he] at hf1
      grind [hfork.plain]

inductive ForkOutcome (mode : CopyMode) (s : VmSys) (p : Slot) (q : VmProc) : VmSys→Prop where
  | full (hslot : freeSlot s=none) : ForkOutcome mode s p q s
  | failed {k : Kmem} {old : PageTable} (hfork : Forked mode s p q k old) (hoom : k.oom=true) :
      ForkOutcome mode s p q (s.set k p (some {q with pagetable := old}))
  | done {k : Kmem} {old new : PageTable} {np : Slot} {page : ℕ} (hslot : freeSlot s=some np)
      (hfork : Forked mode s p q k old) (htwin : Twin k old new) (hoom : k.oom=s.kmem.oom) :
      ForkOutcome mode s p q ((s.set k p (some {q with pagetable := old})).set k np
        (some ⟨new,q.sz,page,.running,q.ro⟩))

lemma VmInv.forking_start (h : VmInv mode s) (hp : s.proc p=some q) {k : Kmem} {page : ℕ}
    {pt : PageTable} (hinv : SpaceInv k pt (Pi.single page 1+owners s) 0) (hleafs : leafs pt=0)
    (hpage : owners s page=0)
    (htags : ∀ f,0<(Pi.single page 1+owners s : ℕ→ℕ) f → tags pt f=0) :
    Forking mode k q.pagetable pt (Pi.single page 1+outside s p q) (pageCount q.sz) 0 := by
  have how := owners_eq hp
  rw [how] at hinv htags hpage
  refine ⟨(h.space p q hp).reown (hinv.kmem.mono fun f => ?_) (fun v e hv he _ hz => ?_),
    hinv.reown (hinv.kmem.mono fun f => ?_) (fun v e hv he _ hz => ?_),
    fun hm => h.plain hm p q hp,fun v hv => absurd hv (Nat.not_lt_zero v)⟩
  · simp only [Pi.add_apply]
    omega
  · have hpos := leafs_pos hv he
    have hne : e.ppn≠page := by
      intro heq
      rw [← heq] at hpage
      simp only [Pi.add_apply] at hpage
      omega
    have htq := htags e.ppn (by simp only [Pi.add_apply]; omega)
    simp only [Pi.add_apply,hleafs,Pi.zero_apply,Pi.single_eq_of_ne hne]
    omega
  · simp only [Pi.add_apply]
    omega
  · simp only [Pi.add_apply] at hz ⊢
    omega

lemma fork_spec (h : VmInv mode s) (hp : s.proc p=some q) :
    ∃ t,fork mode s p q=.next t ∧ VmInv mode t ∧ ForkOutcome mode s p q t := by
  obtain ⟨htrap,hmax,_⟩ := trapframe_val
  have hspace := h.space p q hp
  cases hslot : freeSlot s with
  | none => exact ⟨s,by simp only [fork,hslot],h,.full hslot⟩
  | some np =>
    have hnp := freeSlot_none hslot
    have how := owners_eq hp
    obtain ⟨k1,r,halloc,hkeep1,hcase⟩ := allocproc_spec h.kmem
    have hkeepq : Keeps (leafs q.pagetable+outside s p q) s.kmem k1 := by
      refine hkeep1.mono fun f => ?_
      rw [how]
      simp only [Pi.add_apply]
      omega
    have hkeepo : Keeps (outside s p q) s.kmem k1 := by
      refine hkeepq.mono fun f => ?_
      simp only [Pi.add_apply]
      omega
    have hview1 : ∀ v,v<trapframe → view k1 q.pagetable v=view s.kmem q.pagetable v := by
      intro v hv
      refine view_eq rfl hkeepq fun e he => ?_
      have hpos := leafs_pos hv he
      simp only [Pi.add_apply]
      omega
    cases r with
    | none =>
      obtain ⟨hinv1,hoom1⟩ := hcase
      rw [how] at hinv1
      refine ⟨{s with kmem := k1},by simp only [fork,hslot,halloc,bind_next],?_,?_⟩
      · rw [← set_same hp]
        exact h.keep hp (hspace.reown hinv1 fun _ _ _ _ _ hz => hz) hkeepo
      · have hfail : ForkOutcome mode s p q (s.set k1 p (some {q with pagetable := q.pagetable})) :=
          .failed ⟨hkeepo,hview1,fun _ _ hc => hc,fun _ e he _ => ⟨e,he,id⟩,fun _ => rfl⟩ hoom1
        rw [← set_same hp]
        exact hfail
    | some r =>
      obtain ⟨page,pt⟩ := r
      obtain ⟨hinv1,htrapped1,hoom1,hleafs1,hpage,htags1⟩ := hcase
      have hstart := h.forking_start hp hinv1 hleafs1 hpage htags1
      rw [how] at htags1
      obtain ⟨k2,old,new,ok,hcopy,hstep,hsame,hok⟩ := uvmcopy_spec hstart (h.small p q hp)
      have hforked : Forked mode s p q k2 old := by
        refine ⟨hkeepo.trans (hstep.keeps.mono fun f => ?_),
          fun v hv => (hstep.seen v hv).trans (hview1 v hv),hstep.can,hstep.protect,hsame⟩
        simp only [Pi.add_apply]
        omega
      have hold : Trapped old :=
        (h.trapped p q hp).congr fun v hv hs => (hstep.system v hv hs).1
      have hnew : Trapped new := htrapped1.congr fun v hv hs => (hstep.system v hv hs).2
      cases ok with
      | true =>
        obtain ⟨hfork,hoom2⟩ := hok
        refine ⟨_,by simp only [fork,hslot,halloc,hcopy,bind_next],
          h.forked hp hnp hpage hfork hstep.tables hstep.frames (fun f hf hz => ?_) hold hnew,
          .done hslot hforked (Twin.of_forking hfork) (hoom2.trans hoom1)⟩
        refine hstep.apart f (by simp only [Pi.add_apply]; omega) hz ?_
        rw [hleafs1,htags1 f (by simp only [Pi.add_apply]; omega)]
        rfl
      | false =>
        obtain ⟨hfork,hoom2⟩ := hok
        have hchild : SpaceInv k2 new (Pi.single page 1+(tags old+(leafs old+outside s p q)))
            (pageCount 0) := by
          refine hfork.child.reown (hfork.child.kmem.mono fun f => ?_) (fun v e _ _ _ hz => ?_)
          · simp only [Pi.add_apply]
            omega
          · simp only [Pi.add_apply] at hz ⊢
            omega
        obtain ⟨k3,hfree,hinv3,hkeep3,hoom3⟩ := freeproc_spec hchild hnew
        have hkeep4 : Keeps (outside s p q) k2 k3 := by
          refine hkeep3.mono fun f => ?_
          simp only [Pi.add_apply]
          omega
        have hspace3 : SpaceInv k3 old (outside s p q) (pageCount q.sz) := by
          refine hfork.parent.reown hinv3 (fun v e _ _ _ hz => ?_)
          simp only [Pi.add_apply] at hz
          omega
        refine ⟨s.set k3 p (some {q with pagetable := old}),
          by simp only [fork,hslot,halloc,hcopy,hfree,bind_next],
          h.replace hp rfl hspace3 ⟨hforked.keeps.trans hkeep4,fun f _ => ?_⟩ (h.small p q hp) hold
            hfork.plain,
          .failed ⟨hforked.keeps.trans hkeep4,fun v hv => ?_,hforked.can,hforked.protect,
            hforked.eager⟩ (hoom3.trans hoom2)⟩
        · rw [hstep.tables,hstep.frames]
        · rw [← hforked.seen v hv]
          refine view_eq rfl hkeep3 fun e he => ?_
          have hpos := leafs_pos hv he
          simp only [Pi.add_apply]
          omega

end Fork

section Step

variable {mode : CopyMode} {s : VmSys} {p : Slot} {q : VmProc}

/-- The memory of all processes stays sound, and failures stay recorded. -/
structure Sound (mode : CopyMode) (s t : VmSys) : Prop where
  inv : VmInv mode t
  oom : t.kmem.oom=false → s.kmem.oom=false

lemma load_sound (h : VmInv mode s) (hp : s.proc p=some q) (va : ℕ) :
    Sound mode s (s.set s.kmem p (some (q.after (userLoad s.kmem q.pagetable va).isSome))) :=
  ⟨h.replace hp rfl (h.space p q hp) (Undisturbed.refl _ _ _) (h.small p q hp) (h.trapped p q hp)
    fun hm => h.plain hm p q hp,id⟩

lemma Repaired.plain {T : ℕ→Prop} {pt pt' : PageTable} (h : Repaired T pt pt')
    (hplain : ∀ v e,v<trapframe → lookup pt v=some e → e.cow=false) :
    ∀ v e,v<trapframe → lookup pt' v=some e → e.cow=false := by grind [h.write]

variable (h : VmInv mode s)

include h

lemma store_sound (hp : s.proc p=some q) (va : ℕ) (b : UInt8) :
    userStore s.kmem q.pagetable va b=.panic "kerneltrap" ∨
    ∃ k pt ok,userStore s.kmem q.pagetable va b=.next (k,pt,ok) ∧
      Sound mode s (s.set k p (some ({q with pagetable := pt}.after ok))) ∧
      Repaired (fun u => va≠0 ∧ u=va/pgsize) q.pagetable pt ∧
      Undisturbed (outside s p q) s.kmem q.pagetable k pt := by
  rcases userStore_spec (h.space p q hp) va b with hpanic|⟨k,pt,ok,hrun,hinv,hund,hrep⟩
  · exact Or.inl hpanic
  · exact Or.inr ⟨k,pt,ok,hrun,⟨h.replace hp rfl hinv hund (h.small p q hp)
      ((h.trapped p q hp).congr hrep.system) fun hm => Repaired.plain hrep (h.plain hm p q hp),
      hund.keeps.oom⟩,hrep,hund⟩

lemma copyout_sound (hp : s.proc p=some q) (dstva : ℕ) (src : List UInt8) :
    ∃ k pt r,copyout s.kmem q.pagetable dstva src=.next (k,pt,r) ∧
      Sound mode s (s.set k p (some ({q with pagetable := pt}.after (decide (r≠CopyResult.exited))))) ∧
      Repaired (Touches dstva src.length) q.pagetable pt ∧
      Undisturbed (outside s p q) s.kmem q.pagetable k pt := by
  obtain ⟨k,pt,r,hrun,hinv,hund,hrep,_⟩ := copyout_spec (h.space p q hp) dstva src
  exact ⟨k,pt,r,hrun,⟨h.replace hp rfl hinv hund (h.small p q hp)
    ((h.trapped p q hp).congr hrep.system) fun hm => Repaired.plain hrep (h.plain hm p q hp),
    hund.keeps.oom⟩,hrep,hund⟩

lemma sbrk_sound (hp : s.proc p=some q) (n : BitVec 32) {k : Kmem} {pt : PageTable} {sz : ℕ}
    (hrun : growproc s.kmem q.pagetable q.sz n=.next (k,pt,sz)) :
    Sound mode s (s.set k p (some {q with
      pagetable := pt
      sz := sz})) := by
  obtain ⟨htrap,_,_⟩ := trapframe_val
  have hspace := h.space p q hp
  obtain ⟨k',pt',sz',hrun',hinv,hund,hsmall,hsame,_,hnew,_⟩ :=
    growproc_spec hspace (h.small p q hp) n
  rw [hrun] at hrun'
  cases hrun'
  refine ⟨h.replace hp rfl hinv hund hsmall
    ((h.trapped p q hp).congr fun v hv hs => hsame v hv (Or.inr hs)) (fun hm v e hv he => ?_),
    hund.keeps.oom⟩
  grind [hinv.mapped,h.plain,userPerm]

def execState (s : VmSys) (p : Slot) (q : VmProc) (k : Kmem) : ExecResult→VmSys
  | .bad => {s with kmem := k}
  | .exited => s.set k p (some (q.after false))
  | .image pt sz _ _ => s.set k p (some ⟨pt,sz,q.trapframe,q.phase,readOnly pt⟩)

lemma exec_sound (hp : s.proc p=some q) (file : List UInt8) (argv : List (List UInt8)) :
    ∃ k r,exec s.kmem q.pagetable q.sz q.trapframe file argv=.next (k,r) ∧
      Sound mode s (execState s p q k r) ∧
      Replaced (outside s p q) s.kmem q.pagetable q.sz k (execSpace file argv) r := by
  obtain ⟨k,r,hrun,hrep⟩ := exec_spec q.trapframe file argv (h.space p q hp) (h.trapped p q hp)
  have hsub : ∀ f,outside s p q f≤(tags q.pagetable+(leafs q.pagetable+outside s p q) : ℕ→ℕ) f := by
    grind [Pi.add_apply]
  refine ⟨k,r,hrun,?_,hrep⟩
  cases r with
  | bad =>
    obtain ⟨hinv,hund,_⟩ := hrep
    refine ⟨?_,hund.keeps.oom⟩
    rw [execState,← set_same hp]
    exact h.keep hp hinv (hund.keeps.mono hsub)
  | exited =>
    obtain ⟨hinv,hund,_⟩ := hrep
    exact ⟨h.replace hp rfl hinv (hund.mono hsub) (h.small p q hp) (h.trapped p q hp)
      fun hm => h.plain hm p q hp,hund.keeps.oom⟩
  | image pt sz argc sp =>
    obtain ⟨himage,hund,_⟩ := hrep
    exact ⟨h.replace hp rfl himage.space hund himage.small himage.trapped fun _ => himage.plain,
      hund.keeps.oom⟩

lemma act_sound (hp : s.proc p=some q) {a : Action} (ha : actor a=some p) :
    (∃ t,act mode s p q a=.next t ∧ Sound mode s t) ∨
      (∃ va b,a=.store p va b ∧ userStore s.kmem q.pagetable va b=.panic "kerneltrap") ∧
        act mode s p q a=.panic "kerneltrap" := by
  cases a with
  | fork x =>
    obtain ⟨t,hrun,hinv,hout⟩ := fork_spec h hp
    refine Or.inl ⟨t,hrun,hinv,fun hno => ?_⟩
    cases hout with
    | full _ => exact hno
    | failed hfork _ | done _ hfork _ _ => exact hfork.keeps.oom hno
  | load x va => exact Or.inl ⟨_,rfl,load_sound h hp va⟩
  | store x va b =>
    cases ha
    rcases store_sound h hp va b with hpanic|⟨k,pt,ok,hrun,hsound,_⟩
    · exact Or.inr ⟨⟨va,b,rfl,hpanic⟩,by simp only [act,hpanic,bind_panic]⟩
    · exact Or.inl ⟨_,by simp only [act,hrun,bind_next],hsound⟩
  | copyout x dstva src =>
    obtain ⟨k,pt,r,hrun,hsound,_⟩ := copyout_sound h hp dstva src
    exact Or.inl ⟨_,by simp only [act,hrun,bind_next],hsound⟩
  | copyin x srcva len => exact Or.inl ⟨s,rfl,h,id⟩
  | sbrk x n =>
    obtain ⟨k,pt,sz,hrun,_⟩ := growproc_spec (h.space p q hp) (h.small p q hp) n
    refine Or.inl ⟨_,?_,sbrk_sound h hp n hrun⟩
    simp only [act,hrun,bind_next]
  | exec x file argv =>
    obtain ⟨k,r,hrun,hsound,_⟩ := exec_sound h hp file argv
    refine Or.inl ⟨execState s p q k r,?_,hsound⟩
    cases r with
    | bad | exited | image => simp only [act,hrun,bind_next,execState]
  | kernelAlloc | kernelFree | exit | teardown => cases ha

lemma kernelAlloc_sound : ∃ t,step mode s .kernelAlloc=.next t ∧ Sound mode s t ∧ t.proc=s.proc ∧
      Keeps (owners s) s.kmem t.kmem ∧
      (t.kmem.oom=false → t.kernel.length=s.kernel.length+1) := by
  rcases kalloc_spec h.kmem with ⟨k,hk,hinv,hkeep,hoom⟩|⟨page,k,hk,hfresh,hinv,hkeep,_⟩
  · refine ⟨{s with kmem := k},by simp only [step,hk],⟨h.kernel rfl hinv fun _ _ hz => hz,hkeep.oom⟩,
      rfl,hkeep,fun hno => ?_⟩
    grind
  · have hcount := kernelOwn_cons page s.kernel
    refine ⟨{s with
      kmem := k
      kernel := page::s.kernel},by simp only [step,hk],
      ⟨h.kernel rfl (hinv.mono fun f => ?_) (fun f hpos hz => ?_),hkeep.oom⟩,rfl,hkeep,
      fun _ => List.length_cons⟩
    · simp only [owners,hcount,Pi.add_apply]
      omega
    · have hne : f≠page := by
        grind
      rw [hcount,Pi.add_apply,Pi.single_eq_of_ne hne,hz]

lemma kernelFree_sound {i page : ℕ} (hi : s.kernel[i]?=some page) :
    ∃ k,step mode s (.kernelFree i)=.next {s with
        kmem := k
        kernel := s.kernel.eraseIdx i} ∧
      Sound mode s {s with
        kmem := k
        kernel := s.kernel.eraseIdx i} ∧
      ∀ x y,s.proc x=some y → Keeps (leafs y.pagetable) s.kmem k := by
  obtain ⟨hlt,hget⟩ := List.getElem?_eq_some_iff.mp hi
  have hperm := List.getElem_cons_eraseIdx_perm hlt
  rw [hget] at hperm
  have hcount : kernelOwn s.kernel=Pi.single page 1+kernelOwn (s.kernel.eraseIdx i) := by
    rw [← kernelOwn_cons]
    funext f
    exact (hperm.count_eq f).symm
  have hkmem : KmemInv s.kmem (Pi.single page 1+
      (kernelOwn (s.kernel.eraseIdx i)+∑ p,weight (s.proc p))) := by
    refine h.kmem.mono fun f => ?_
    simp only [owners,hcount,Pi.add_apply]
    omega
  obtain ⟨k,hfree,hinv,hkeep,_⟩ := kfree_spec hkmem
  refine ⟨k,by simp only [step,hi,hfree,bind_next],⟨h.kernel rfl hinv (fun f _ hz => ?_),hkeep.oom⟩,
    fun x y hy => hkeep.mono fun f => ?_⟩
  · rw [hcount,Pi.add_apply] at hz
    exact (Nat.add_eq_zero_iff.mp hz).2
  · have hsum := Finset.add_sum_erase Finset.univ (fun z => weight (s.proc z) f) (Finset.mem_univ x)
    rw [hy] at hsum
    simp only [weight,Pi.add_apply,Finset.sum_apply] at hsum ⊢
    omega

lemma teardown_sound (hp : s.proc p=some q) :
    ∃ k,freeproc s.kmem q.trapframe q.pagetable q.sz=.next k ∧ Sound mode s (s.set k p none) ∧
      ∀ x y,x≠p → s.proc x=some y → Keeps (leafs y.pagetable) s.kmem k := by
  obtain ⟨k,hfree,hinv,hkeep,_⟩ := freeproc_spec (h.space p q hp) (h.trapped p q hp)
  have hself : (s.set k p none).proc p=none := update_self ..
  refine ⟨k,hfree,⟨h.change (· = p) (fun x hx => update_of_ne hx _ _) (hinv.mono fun f => ?_)
    (fun x y f hx hy _ hz => ?_) (fun x y hx hy => ?_),hkeep.oom⟩,fun x y hx hy => hkeep.mono fun f => ?_⟩
  · have hset := owners_set s k p none f
    have how := congrFun (owners_eq hp) f
    rw [hp] at hset
    simp only [weight,outside,Pi.add_apply,Pi.zero_apply] at hset how ⊢
    omega
  · have hset := outside_set s k none y hx f
    rw [hp] at hset
    simp only [weight,Pi.add_apply,Pi.zero_apply] at hset
    omega
  · grind
  · have hmem : x∈Finset.univ.erase p := Finset.mem_erase.mpr ⟨hx,Finset.mem_univ x⟩
    have hsum := Finset.add_sum_erase _ (fun z => weight (s.proc z) f) hmem
    rw [hy] at hsum
    simp only [weight,Pi.add_apply,Finset.sum_apply] at hsum ⊢
    omega

/-- Every action keeps the invariant. The kernel stops only when init exits,
or in a store to a page without a page-table page. -/
lemma step_sound (a : Action) :
    (∃ t,step mode s a=.next t ∧ Sound mode s t) ∨ step mode s a=.blocked ∨
      (a=.exit 0 ∧ step mode s a=.panic "init exiting") ∨
      (∃ x va b,a=.store x va b) ∧ step mode s a=.panic "kerneltrap" := by
  have hact : ∀ x,actor a=some x → (step mode s a=match s.proc x with
      | none => .blocked
      | some y => if y.phase=.running then act mode s x y a else .blocked) →
      (∃ t,step mode s a=.next t ∧ Sound mode s t) ∨ step mode s a=.blocked ∨
      (a=.exit 0 ∧ step mode s a=.panic "init exiting") ∨
      (∃ x va b,a=.store x va b) ∧ step mode s a=.panic "kerneltrap" := by
    intro x ha hstep
    rw [hstep]
    cases hp : s.proc x with
    | none => exact Or.inr (Or.inl rfl)
    | some y =>
      dsimp only
      by_cases hrun : y.phase=.running
      · grind [act_sound]
      · grind
  cases a with
  | kernelAlloc =>
    obtain ⟨t,hrun,hsound,_⟩ := kernelAlloc_sound h
    exact Or.inl ⟨t,hrun,hsound⟩
  | kernelFree i =>
    cases hi : s.kernel[i]? with
    | none => exact Or.inr (Or.inl (by simp only [step,hi]))
    | some page =>
      obtain ⟨k,hrun,hsound,_⟩ := kernelFree_sound h hi
      exact Or.inl ⟨_,hrun,hsound⟩
  | exit x =>
    cases hp : s.proc x with
    | none => exact Or.inr (Or.inl (by simp only [step,hp]))
    | some y =>
      by_cases hz : y.phase=.zombie
      · exact Or.inr (Or.inl (by simp only [step,hp,if_pos hz]))
      · by_cases hx : x=0
        · refine Or.inr (Or.inr (Or.inl ⟨by rw [hx],?_⟩))
          simp only [step,hp,if_neg hz,if_pos hx]
        · refine Or.inl ⟨_,by simp only [step,hp,if_neg hz,if_neg hx]; rfl,?_⟩
          exact ⟨h.replace hp rfl (h.space x y hp) (Undisturbed.refl _ _ _) (h.small x y hp)
            (h.trapped x y hp) fun hm => h.plain hm x y hp,id⟩
  | teardown x =>
    cases hp : s.proc x with
    | none => exact Or.inr (Or.inl (by simp only [step,hp]))
    | some y =>
      by_cases hz : y.phase=.zombie
      · obtain ⟨k,hfree,hsound,_⟩ := teardown_sound h hp
        exact Or.inl ⟨_,by simp only [step,hp,if_pos hz,hfree,bind_next],hsound⟩
      · exact Or.inr (Or.inl (by simp only [step,hp,if_neg hz]))
  | fork x | load x va | store x va b | copyout x dstva src | copyin x srcva len | sbrk x n
  | exec x file argv => exact hact x rfl rfl

lemma sound_of_step {a : Action} {t : VmSys} (hstep : step mode s a=.next t) :
    Sound mode s t := by grind [step_sound]

lemma vmInv_run {as : List Action} {t : VmSys} (hrun : run (step mode) s as=.next t) :
    VmInv mode t :=
  run_invariant (fun _ _ _ hs hstep => (sound_of_step hs hstep).inv) h hrun

end Step

section Boot

variable {k : Kmem} {pt : PageTable} {own : ℕ→ℕ} {l : List ℕ}

lemma kernelPages_spec (n : ℕ) (h : KmemInv k (kernelOwn l)) :
    kernelPages k l n=.panic "kalloc" ∨ ∃ k' l',kernelPages k l n=.next (k',l') ∧
      KmemInv k' (kernelOwn l') ∧ l'.length=l.length+n := by
  induction n generalizing k l with
  | zero => exact Or.inr ⟨k,l,rfl,h,rfl⟩
  | succ n ih =>
    rcases kalloc_spec h with ⟨k1,hk,_⟩|⟨page,k1,hk,_,hinv,_⟩
    · exact Or.inl (by simp only [kernelPages,hk])
    · rw [← kernelOwn_cons] at hinv
      rcases ih hinv with hpanic|⟨k',l',hrun,hinv',hlen⟩
      · exact Or.inl (by simp only [kernelPages,hk,hpanic])
      · refine Or.inr ⟨k',l',by simp only [kernelPages,hk,hrun],hinv',?_⟩
        rw [hlen,List.length_cons]
        omega

def initPage : UserPage := ⟨writeBytes (fill 0) 0 initcode,true,true⟩

structure FirstImage (k : Kmem) (pt : PageTable) : Prop where
  page : ∀ v,v<trapframe → view k pt v=if v=0 then some initPage else none
  perm : ∀ v,v<trapframe → (lookup pt v).map Pte.toPerm=
    if v=0 then some ⟨true,true,true,true,false⟩ else none

lemma uvmfirst_spec (h : SpaceInv k pt own 0) (htrap : Trapped pt) :
    uvmfirst k pt=.panic "kerneltrap" ∨ ∃ k' pt',uvmfirst k pt=.next (k',pt') ∧
      (k'.oom=false → SpaceInv k' pt' own 1 ∧ Trapped pt' ∧ FirstImage k' pt') := by
  obtain ⟨htv,_,_⟩ := trapframe_val
  rcases alloc_next h ⟨true,true,true,true,false⟩ rfl rfl with ⟨k1,hk,_⟩|⟨p,k1,hk,_,hall⟩
  · exact Or.inl (by simp only [uvmfirst,hk])
  · obtain ⟨k2,pt2,ok,hmap,hok⟩ := hall (fill 0)
    rw [Nat.zero_mul] at hmap
    refine Or.inr ⟨k2.store p (writeBytes (k2.mem p) 0 initcode),pt2,
      by simp only [uvmfirst,hk,hmap,bind_next],fun hno => ?_⟩
    cases ok with
    | false =>
      have hno2 : k2.oom=false := hno
      rw [hok.1] at hno2
      cases hno2
    | true =>
      obtain ⟨hinv,_,_,_,hmem,hlook⟩ := hok
      have hself : lookup pt2 0=some ⟨⟨true,true,true,true,false⟩,p⟩ := by
        rw [hlook 0 (by omega),if_pos rfl]
      have hother : ∀ v,v<trapframe → v≠0 → lookup pt2 v=none := by
        intro v hv hne
        rw [hlook v (by omega),if_neg hne]
        cases he : lookup pt v with
        | none => rfl
        | some e => exact absurd ((h.mapped v hv).mp ⟨e,he⟩) (Nat.not_lt_zero v)
      obtain ⟨hinv2,_,hview⟩ := write_page hinv (by omega) hself rfl
        (writeBytes (k2.mem p) 0 initcode)
      refine ⟨hinv2,htrap.congr fun v hv hs => ?_,fun v hv => ?_,fun v hv => ?_⟩
      · rw [hlook v hv,if_neg (by omega)]
      · rw [hview v hv,hmem]
        by_cases hv0 : v=0
        · rw [if_pos hv0,if_pos hv0]
          rfl
        · rw [if_neg hv0,if_neg hv0,view,hother v hv hv0]
          rfl
      · by_cases hv0 : v=0
        · rw [hv0,hself,if_pos rfl]
          rfl
        · rw [hother v hv hv0,if_neg hv0]
          rfl

structure Booted (n : ℕ) (s : VmSys) : Prop where
  inv : ∀ mode,VmInv mode s
  kernel : s.kernel.length=n
  first : ∃ q,s.proc 0=some q ∧ q.sz=pgsize ∧ q.phase=.running ∧ (∀ v,q.ro v=false) ∧
    FirstImage s.kmem q.pagetable
  others : ∀ p,p≠0 → s.proc p=none

lemma userinit_spec {s : VmSys} (h : KmemInv k (kernelOwn l)) (hrun : userinit k l=.next s)
    (hoom : s.kmem.oom=false) : Booted l.length s := by
  obtain ⟨k1,r,halloc,_,hcase⟩ := allocproc_spec h
  cases r with
  | none =>
    simp only [userinit,halloc,bind_next,reduceCtorEq] at hrun
  | some r =>
    obtain ⟨page,pt⟩ := r
    obtain ⟨hinv1,htrap1,_⟩ := hcase
    rcases uvmfirst_spec hinv1 htrap1 with hpanic|⟨k2,pt2,hfirst,hok⟩
    · simp only [userinit,halloc,hpanic,bind_next,bind_panic,reduceCtorEq] at hrun
    · simp only [userinit,halloc,hfirst,bind_next,Outcome.next.injEq] at hrun
      subst hrun
      obtain ⟨hinv2,htrap2,himage⟩ := hok hoom
      have hsum : ∀ S : Finset Slot,0∉S → ∑ x ∈ S,weight (if x=0 then
          some ⟨pt2,pgsize,page,.running,fun _ => false⟩ else none)=0 := by
        intro S hS
        grind [Finset.sum_eq_zero,weight]
      have hout : outside ⟨k2,fun p => if p=0 then
          some ⟨pt2,pgsize,page,.running,fun _ => false⟩ else none,l⟩ 0
          ⟨pt2,pgsize,page,.running,fun _ => false⟩=Pi.single page 1+kernelOwn l := by
        unfold outside
        grind
      refine ⟨fun mode => ?_,rfl,⟨⟨pt2,pgsize,page,.running,fun _ => false⟩,rfl,rfl,rfl,
        fun _ => rfl,himage⟩,fun p hp => if_neg hp⟩
      have hcases : ∀ p q,(if p=(0 : Slot) then
          some (⟨pt2,pgsize,page,.running,fun _ => false⟩ : VmProc) else none)=some q →
          p=0 ∧ q=⟨pt2,pgsize,page,.running,fun _ => false⟩ := by
        intro p q hp
        grind
      refine ⟨?_,fun p q hp => ?_,fun p q hp => ?_,fun p q hp => ?_,fun _ p q hp v e hv he => ?_⟩
      · rw [owners_eq (p:=0) (q:=⟨pt2,pgsize,page,.running,fun _ => false⟩) rfl,hout]
        exact hinv2.kmem
      · have hcount : pageCount pgsize=1 := by decide
        grind
      · have hsmall : pgsize<2^63 := by decide
        grind
      · obtain ⟨rfl,rfl⟩ := hcases p q hp
        exact htrap2
      · obtain ⟨rfl,rfl⟩ := hcases p q hp
        have hperm := himage.perm v hv
        rw [he,Option.map_some] at hperm
        by_cases hv0 : v=0
        · rw [if_pos hv0] at hperm
          rw [Option.some.inj hperm]
        · rw [if_neg hv0] at hperm
          cases hperm

lemma boot_spec {first text n : ℕ} {s : VmSys} (hrun : boot first text n=.next s)
    (hoom : s.kmem.oom=false) : Booted n s := by
  obtain ⟨k,hk,hinv,_⟩ := kinit_spec first text
  have hstart : KmemInv k (kernelOwn []) := hinv.mono fun f => by
    rw [kernelOwn,List.count_nil]
    rfl
  rcases kernelPages_spec n hstart with hpanic|⟨k1,l,hpages,hinv1,hlen⟩
  · simp only [boot,hk,hpanic,bind_next,bind_panic,reduceCtorEq] at hrun
  · simp only [boot,hk,hpages,bind_next] at hrun
    have hboot := userinit_spec hinv1 hrun hoom
    rw [hlen,List.length_nil,Nat.zero_add] at hboot
    exact hboot

end Boot

end Xv6Riscv.VmInvariant
