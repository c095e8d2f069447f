import Xv6Riscv.VmInvariant

/-!
# A failed fork loses a reference

uvmcopy counts the reference of the current page before it maps the page. If
mappages then fails, the label err unmaps only the pages before it, and the
count of the current page stays one too high. The invariants of the other
modules say that counts cover the owners; to follow one count exactly, the
owners of its page are raised to the count first.
-/

namespace Xv6Riscv.ForkFailure

open Function
open Transition RadixTree PageAllocator PageTables AddressSpace SpaceOwnership CowSharing
open ForkCopy VmMachine VmInvariant
open ProcMachine (Slot)

/-- ref_cnt and the set of free pages are what they were. -/
def Restored (k k' : Kmem) : Prop :=
  (∀ p,k'.refCnt p=k.refCnt p) ∧ ∀ p,p∈k'.freelist ↔ p∈k.freelist

section Spares

variable {k k' k'' : Kmem} {pt : PageTable}

/-- The pages that are not free stay so and keep their counts. -/
def Spares (k k' : Kmem) : Prop :=
  ∀ p,p∉k.freelist → p∉k'.freelist ∧ k'.refCnt p=k.refCnt p

lemma Spares.refl (k : Kmem) : Spares k k := fun _ hp => ⟨hp,rfl⟩

lemma Spares.trans (h : Spares k k') (h' : Spares k' k'') : Spares k k'' := by
  intro p hp
  obtain ⟨hp',heq⟩ := h p hp
  obtain ⟨hp'',heq'⟩ := h' p hp'
  exact ⟨hp'',heq'.trans heq⟩

lemma kalloc_spares (k : Kmem) : Spares k (kalloc k).2 := by
  intro p hp
  unfold kalloc
  cases hfree : k.freelist with
  | nil => exact ⟨hp,rfl⟩
  | cons a rest =>
    rw [hfree,List.mem_cons,not_or] at hp
    exact ⟨hp.2,update_of_ne hp.1 ..⟩

lemma walkMid_spares (k : Kmem) (pt : PageTable) (i j : PtIndex) (m : Node ℕ PtIndex PtLeaf) :
    Spares k (walkMid k pt i j m).1 := by
  have hk := kalloc_spares k
  unfold walkMid
  cases m.entry j with
  | some leaf => exact Spares.refl k
  | none =>
    rcases hka : kalloc k with ⟨_|page,k1⟩ <;> rw [hka] at hk <;> exact hk

lemma walkAlloc_spares (k : Kmem) (pt : PageTable) (v : ℕ) : Spares k (walkAlloc k pt v).1 := by
  have hk := kalloc_spares k
  unfold walkAlloc
  cases pt.entry (px v).1 with
  | some m => exact walkMid_spares _ _ _ _ m
  | none =>
    rcases hka : kalloc k with ⟨_|page,k1⟩ <;> rw [hka] at hk
    · exact hk
    · exact hk.trans (walkMid_spares _ _ _ _ _)

lemma mapLoop_spares {perm : Perm} {a ppn n : ℕ} {r : Kmem×PageTable×Bool}
    (h : mapLoop k pt perm a ppn n=.next r) : Spares k r.1 := by
  induction n generalizing k pt a ppn with
  | zero =>
    cases h
    exact Spares.refl k
  | succ n ih =>
    have hwalk := walkAlloc_spares k pt a
    rw [mapLoop] at h
    split_ifs at h
    rcases hw : walkAlloc k pt a with ⟨k1,pt1,_|_⟩ <;> rw [hw] at h hwalk <;> dsimp only at h
    · cases h
      exact hwalk
    · cases hl : lookup pt1 a with
      | some e =>
        rw [hl] at h
        cases h
      | none =>
        rw [hl] at h
        exact hwalk.trans (ih h)

lemma mappages_spares {va size ppn : ℕ} {perm : Perm} {r : Kmem×PageTable×Bool}
    (h : mappages k pt va size ppn perm=.next r) : Spares k r.1 := by
  unfold mappages at h
  split_ifs at h
  exact mapLoop_spares h

lemma allocproc_spares {r : ℕ×PageTable} (h : allocproc k=.next (k',some r)) : Spares k k' := by
  have hk := kalloc_spares k
  unfold allocproc at h
  rcases hka : kalloc k with ⟨_|page,k1⟩ <;> rw [hka] at h hk <;> dsimp only at h hk
  · cases h
  have hk1 := kalloc_spares k1
  obtain ⟨⟨k2,o⟩,hpt,h⟩ := bind_eq_next.mp h
  cases o with
  | none =>
    obtain ⟨k3,-,h⟩ := bind_eq_next.mp h
    cases h
  | some pt =>
    cases h
    unfold procPagetable uvmcreate at hpt
    rcases hkb : kalloc k1 with ⟨_|root,k3⟩ <;> rw [hkb] at hpt hk1 <;> dsimp only at hpt hk1
    · cases hpt
    obtain ⟨⟨k4,pt4,ok4⟩,hmap,hpt⟩ := bind_eq_next.mp hpt
    cases ok4 with
    | false =>
      obtain ⟨k5,-,hpt⟩ := bind_eq_next.mp hpt
      cases hpt
    | true =>
      obtain ⟨⟨k5,pt5,ok5⟩,hmap5,hpt⟩ := bind_eq_next.mp hpt
      cases ok5 with
      | false =>
        obtain ⟨s6,-,hpt⟩ := bind_eq_next.mp hpt
        obtain ⟨k7,-,hpt⟩ := bind_eq_next.mp hpt
        cases hpt
      | true =>
        cases hpt
        exact hk.trans (hk1.trans ((mappages_spares hmap).trans (mappages_spares hmap5)))

end Spares

section Counts

variable {k k' : Kmem} {own : ℕ→ℕ} {p : ℕ}

lemma raise_owners (h : KmemInv k own) (hp : 0<own p) :
    ∃ c,KmemInv k (Pi.single p c+own) ∧ ((c+own p : ℕ) : ℤ)=k.refCnt p := by
  have hcover := h.owned p
  refine ⟨(k.refCnt p-own p).toNat,⟨h.nodup,h.free,h.freeRange,fun q => ?_,fun q hq => ?_⟩,by omega⟩
  · by_cases hqp : q=p
    · grind [Pi.add_apply]
    · simp only [Pi.add_apply,Pi.single_eq_of_ne hqp,Nat.zero_add]
      exact h.owned q
  · by_cases hqp : q=p
    · rw [hqp]
      exact h.ownedRange p hp
    · simp only [Pi.add_apply,Pi.single_eq_of_ne hqp,Nat.zero_add] at hq
      exact h.ownedRange q hq

lemma mappages_count {pt pt' : PageTable} {a ppn : ℕ} {perm : Perm} {ok : Bool}
    (h : KmemInv k (tags pt+own)) (htidy : Tidy pt) (ha : a< maxPages) (hnone : lookup pt a=none)
    (hp : 0<own p) (hrun : mappages k pt (a*pgsize) pgsize ppn perm=.next (k',pt',ok)) :
    k'.refCnt p=k.refCnt p ∧ tags pt' p=tags pt p := by
  have hpos : 0<(tags pt+own) p := by
    simp only [Pi.add_apply]
    omega
  obtain ⟨k1,pt1,ok1,hrun1,-,-,htags,-,-⟩ := mappages_spec ppn perm h htidy ha hnone
  rw [hrun] at hrun1
  cases hrun1
  exact ⟨(mappages_spares hrun p fun hfree => hpos.ne' (h.free_not_owned hfree)).2,htags p hp⟩

lemma allocproc_count {page : ℕ} {pt : PageTable} (h : KmemInv k own) (hp : 0<own p)
    (hrun : allocproc k=.next (k',some (page,pt))) : k'.refCnt p=k.refCnt p :=
  (allocproc_spares hrun p fun hfree => hp.ne' (h.free_not_owned hfree)).2

end Counts

section Copy

variable {k k' : Kmem} {old old' new new' : PageTable} {own : ℕ→ℕ} {n i : ℕ} {e : Pte}

variable (h : Forking .cow k old new own n i)

include h

lemma child_without {j : ℕ} (hij : i≤j) (hj : j<n) (he : lookup old j=some e) :
    leafs new e.ppn=0 := by
  have hbound := h.parent.bound
  by_contra hpos
  obtain ⟨v,hv,hframe⟩ := occurrences_pos.mp (Nat.pos_of_ne_zero hpos)
  obtain ⟨f,hf,hp⟩ := Option.map_eq_some_iff.mp hframe
  have hvi := (h.child.mapped v hv).mp ⟨f,hf⟩
  obtain ⟨e1,f1,he1,hf1,_,_,hcow⟩ := h.copied v hvi
  rw [hf] at hf1
  cases hf1
  have heq := h.parent.injective v j e1 e hv (by omega) he1 he (by rw [←(hcow rfl).1,hp])
  omega

/-- What a failed uvmcopy leaves of a page: the child is empty, and the owners of
the page other than the child are as many as its count was, and one more. -/
structure Leaks (k k' : Kmem) (old' new' : PageTable) (own : ℕ→ℕ) (p : ℕ) : Prop where
  raised : ∃ c,SpaceInv k' new' (Pi.single p c+(tags old'+(leafs old'+own))) 0 ∧
    k.refCnt p+1≤((c+(tags old' p+(leafs old' p+own p)) : ℕ) : ℤ)

lemma copyPage_leaks (hi : i<n) (hfresh : ∀ q,0<leafs old q→tags new q=0)
    (he : lookup old i=some e) (hrun : copyPage .cow k old new i e=.next (k',old',new',false)) :
    Leaks k k' old' new' own e.ppn := by
  obtain ⟨htrap,_,_⟩ := trapframe_val
  have hbound := h.parent.bound
  have hit : i<trapframe := by omega
  obtain ⟨-,hchild,htags,hleafs,-⟩ := declarations_spec h hit he
  have hpos := leafs_pos hit he
  have hnone := child_without h (Nat.le_refl i) hi he
  obtain ⟨c,hraised,hcount⟩ := raise_owners hchild.kmem (p:=e.ppn)
    (by simp only [Pi.add_apply,Pi.single_eq_same]; omega)
  have hspace : SpaceInv (declarations k old i e).1 new
      (Pi.single e.ppn 1+(Pi.single e.ppn c+(tags old+(leafs old+own)))) i := by
    refine hchild.reown (hraised.mono fun q => ?_) (fun v f _ _ _ hz => ?_)
    · simp only [Pi.add_apply]
      omega
    · have hne : f.ppn≠e.ppn := by
        intro heq
        rw [heq] at hz
        simp only [Pi.add_apply,Pi.single_eq_same] at hz
        omega
      simp only [Pi.add_apply,Pi.single_eq_of_ne hne] at hz ⊢
      omega
  have hshown : ∀ v f,v<trapframe → lookup new v=some f → f.ppn≠e.ppn := by
    intro v f hv hf hp
    have hleaf := leafs_pos hv hf
    rw [hp] at hleaf
    omega
  obtain ⟨k1,new1,ok,hmap,-,-,hok⟩ := map_next {e.toPerm with cow := true,w := false} hspace
    (h.parent.readable i e hit he) (fun _ => rfl)
    (by rintro ⟨⟩) hshown
  have hpage : mappages (declarations k old i e).1 new (i*pgsize) pgsize
      (declarations k old i e).2.2.ppn (declarations k old i e).2.2.toPerm=.next (k1,new1,ok) := hmap
  simp only [copyPage,hpage,bind_next] at hrun
  cases ok with
  | true => cases hrun
  | false =>
    obtain ⟨k2,new2,hunmap,hinv,-,-,-,-⟩ := unmap_tail hok.1 (Nat.zero_le i)
    rw [Nat.zero_mul,Nat.sub_zero] at hunmap
    simp only [copyUndo,hunmap,bind_next] at hrun
    cases hrun
    have hone : (declarations k old i e).1.refCnt e.ppn=k.refCnt e.ppn+1 := Function.update_self ..
    refine ⟨c+1,?_,?_⟩
    · have hsplit : (Pi.single e.ppn (c+1) : ℕ→ℕ)=Pi.single e.ppn 1+Pi.single e.ppn c := by
        rw [←Pi.single_add,add_comm]
      rw [htags,hleafs,hsplit,add_assoc]
      exact hinv
    · rw [htags,hleafs]
      rw [hone] at hcount
      simp only [Pi.add_apply,Pi.single_eq_same,hnone,hfresh e.ppn hpos] at hcount
      omega

/-- Page i is shared; the counts of the parent's other pages stay, and no page of
the parent becomes a table of the child. -/
lemma copyPage_counts (hi : i<n) (he : lookup old i=some e)
    (hrun : copyPage .cow k old new i e=.next (k',old',new',true)) :
    (∀ q,q≠e.ppn→0<leafs old q→k'.refCnt q=k.refCnt q) ∧
      (∀ q,0<leafs old q→tags new' q=tags new q) ∧ leafs old'=leafs old ∧
      ∀ v,v<2^27→v≠i→lookup old' v=lookup old v := by
  obtain ⟨htrap,hmax,_⟩ := trapframe_val
  have hbound := h.parent.bound
  have hit : i<trapframe := by omega
  obtain ⟨-,hchild,-,hleafs,hlook⟩ := declarations_spec h hit he
  have hnone : lookup new i=none := by
    cases hl : lookup new i with
    | none => rfl
    | some f => exact absurd ((h.child.mapped i hit).mp ⟨f,hl⟩) (Nat.lt_irrefl i)
  rw [copyPage] at hrun
  obtain ⟨⟨k1,new1,ok⟩,hmap,hnext⟩ := bind_eq_next.mp hrun
  cases ok with
  | false =>
    obtain ⟨_,_,hnext⟩ := bind_eq_next.mp hnext
    cases hnext
  | true =>
    cases hnext
    have hmapped := fun q (hq : 0<leafs old q) => mappages_count (p:=q) hchild.kmem hchild.tidy
      (by omega) hnone (by simp only [Pi.add_apply]; omega) hmap
    refine ⟨fun q hne hq => ?_,fun q hq => (hmapped q hq).2,hleafs,fun v hv hne => ?_⟩
    · have hsame : (declarations k old i e).1.refCnt q=k.refCnt q := Function.update_of_ne hne ..
      exact (hmapped q hq).1.trans hsame
    · rw [hlook v hv,if_neg hne]

lemma copyLoop_leaks {c : ℕ} (hc : i+c=n) (hfresh : ∀ q,0<leafs old q→tags new q=0)
    (hrun : copyLoop .cow k old new i c=.next (k',old',new',false)) :
    ∃ j e,i≤j ∧ j<n ∧ lookup old j=some e ∧ Leaks k k' old' new' own e.ppn := by
  induction c generalizing k old new i with
  | zero => cases hrun
  | succ c ih =>
    obtain ⟨htrap,hmax,_⟩ := trapframe_val
    have hbound := h.parent.bound
    have hi : i<n := by omega
    obtain ⟨e,he⟩ := h.parent.pte hi
    have hwalk : walk old i=.next (some (some e)) := by
      rw [walk,if_neg (by omega),cell_of_lookup he]
    obtain ⟨k1,old1,new1,ok,hpage,-,hok⟩ := copyPage_cow h hi he
    simp only [copyLoop,hwalk,hpage,bind_next] at hrun
    cases ok with
    | false =>
      cases hrun
      exact ⟨i,e,Nat.le_refl i,hi,he,copyPage_leaks h hi hfresh he hpage⟩
    | true =>
      obtain ⟨hcounts,htags,hleafs,hlook⟩ := copyPage_counts h hi he hpage
      obtain ⟨j,f,hij,hj,hf,c,hspace,hleak⟩ := ih hok.1 (by omega)
        (fun q hq => by rw [hleafs] at hq; rw [htags q hq]; exact hfresh q hq) hrun
      have hf' : lookup old j=some f := by rwa [hlook j (by omega) (by omega)] at hf
      have hne : f.ppn≠e.ppn := by
        intro heq
        have := h.parent.injective j i f e (by omega) (by omega) hf' he heq
        omega
      have heq := hcounts f.ppn hne (leafs_pos (by omega) hf')
      exact ⟨j,f,by omega,hj,hf',c,hspace,by omega⟩

end Copy

section Fork

variable {s : VmSys} {p : Slot} {q : VmProc}

lemma fork_leaks (h : VmInv .cow s) (hp : s.proc p=some q) {k1 k2 : Kmem} {page : ℕ}
    {pt old new : PageTable} (halloc : allocproc s.kmem=.next (k1,some (page,pt)))
    (hcopy : uvmcopy .cow k1 q.pagetable pt q.sz=.next (k2,old,new,false)) :
    ∃ k3 v e,freeproc k2 page new 0=.next k3 ∧ v<pageCount q.sz ∧
      lookup q.pagetable v=some e ∧ s.kmem.refCnt e.ppn<k3.refCnt e.ppn := by
  obtain ⟨htrap,_,_⟩ := trapframe_val
  have how := owners_eq hp
  obtain ⟨k,r,halloc',-,hcase⟩ := allocproc_spec h.kmem
  rw [halloc] at halloc'
  cases halloc'
  obtain ⟨hinv,htrapped,-,hleafs,hpage,htags⟩ := hcase
  have hstart := h.forking_start hp hinv hleafs hpage htags
  rw [how] at hpage htags
  have hfresh : ∀ f,0<leafs q.pagetable f→tags pt f=0 := by grind [Pi.add_apply]
  obtain ⟨_,_,_,_,hcopy',hstep,-,-⟩ := uvmcopy_spec hstart (h.small p q hp)
  rw [hcopy] at hcopy'
  cases hcopy'
  have hnew : Trapped new := htrapped.congr fun v hv hs => (hstep.system v hv hs).2
  have hbound := hstart.parent.bound
  rw [uvmcopy,pages_of_size (h.small p q hp)] at hcopy
  obtain ⟨v,e,-,hv,he,c,hspace,hleak⟩ := copyLoop_leaks hstart (Nat.zero_add _) hfresh hcopy
  have hchild : SpaceInv k2 new
      (Pi.single page 1+(Pi.single e.ppn c+(tags old+(leafs old+outside s p q)))) (pageCount 0) := by
    refine hspace.reown (hspace.kmem.mono fun f => ?_) (fun v e _ _ _ hz => ?_)
    · simp only [Pi.add_apply]
      omega
    · simp only [Pi.add_apply] at hz ⊢
      omega
  obtain ⟨k3,hfree,hinv,-,-⟩ := freeproc_spec hchild hnew
  have hpos := leafs_pos (v:=v) (by omega) he
  have hcount := allocproc_count h.kmem (p:=e.ppn) (by rw [how]; simp only [Pi.add_apply]; omega)
    halloc
  have hne : e.ppn≠page := by grind [Pi.add_apply]
  have hcover := hinv.owned e.ppn
  grind [Pi.add_apply]

/-- In no reachable state does a fork whose uvmcopy fails restore ref_cnt and the
free pages: a page of the parent keeps a reference that nobody holds. -/
theorem failed_fork_not_restored (first text n : ℕ) (as : List Action) {s0 s : VmSys}
    (hboot : boot first text n=.next s0) (hoom : s0.kmem.oom=false)
    (hrun : run (step .cow) s0 as=.next s) {p np : Slot} {q : VmProc} (hp : s.proc p=some q)
    (hslot : freeSlot s=some np) {k1 k2 : Kmem} {page : ℕ} {pt old new : PageTable}
    (halloc : allocproc s.kmem=.next (k1,some (page,pt)))
    (hcopy : uvmcopy .cow k1 q.pagetable pt q.sz=.next (k2,old,new,false)) :
    ∃ t,fork .cow s p q=.next t ∧ ¬Restored s.kmem t.kmem ∧
      ∃ v e,v<pageCount q.sz ∧ lookup q.pagetable v=some e ∧
        s.kmem.refCnt e.ppn<t.kmem.refCnt e.ppn := by
  have hinv := vmInv_run ((boot_spec hboot hoom).inv .cow) hrun
  obtain ⟨k3,v,e,hfree,hv,he,hlt⟩ := fork_leaks hinv hp halloc hcopy
  refine ⟨s.set k3 p (some {q with pagetable := old}),?_,fun hr => ?_,v,e,hv,he,hlt⟩
  · simp only [fork,hslot,halloc,hcopy,hfree,bind_next]
  · exact absurd (hr.1 e.ppn) (Int.ne_of_gt hlt)

/-- With eleven pages of memory the first process cannot fork: the child gets its
trapframe and page table, and the page table of the first page is missing. -/
theorem first_fork_not_restored : ∃ s q t,boot (physTop-11) 0 0=.next s ∧ s.proc 0=some q ∧
    fork .cow s 0 q=.next t ∧ ¬Restored s.kmem t.kmem := by
  obtain ⟨s,hboot,hobs⟩ := exists_of_state? (o:=boot (physTop-11) 0 0)
    (f:=fun s => (s.kmem.oom,freeSlot s)) (v:=(false,some 1)) (by decide +kernel)
  rw [Prod.mk.injEq] at hobs
  obtain ⟨q,hq,-⟩ := (boot_spec hboot hobs.1).first
  have halloc : (allocproc s.kmem).state?.map (fun r => r.2.isSome)=some true := by
    have hcase : ((boot (physTop-11) 0 0).bind fun s => allocproc s.kmem).state?.map
        (fun r => r.2.isSome)=some true := by decide +kernel
    rwa [hboot,bind_next] at hcase
  obtain ⟨⟨k1,r⟩,hk1,hr⟩ := exists_of_state? halloc
  obtain ⟨⟨page,pt⟩,rfl⟩ := Option.isSome_iff_exists.mp hr
  have hcopy : (uvmcopy .cow k1 q.pagetable pt q.sz).state?.map (fun r => r.2.2.2)=some false := by
    have hcase : ((boot (physTop-11) 0 0).bind fun s => (allocproc s.kmem).bind fun a =>
        (s.proc 0).elim .blocked fun q => a.2.elim .blocked fun x =>
          uvmcopy .cow a.1 q.pagetable x.2 q.sz).state?.map (fun r => r.2.2.2)=some false := by
      decide +kernel
    simp only [hboot,bind_next,hk1,hq,Option.elim_some] at hcase
    exact hcase
  obtain ⟨⟨k2,old,new,ok⟩,hk2,hok⟩ := exists_of_state? hcopy
  cases hok
  obtain ⟨t,ht,hnot,-⟩ := failed_fork_not_restored (physTop-11) 0 0 [] hboot hobs.1 rfl hq hobs.2
    hk1 hk2
  exact ⟨s,q,t,hboot,hq,ht,hnot⟩

/-- The count of the first page of that process goes from 1 to 2, and there is no
child. -/
theorem failed_fork_counts : ∃ s t,boot (physTop-11) 0 0=.next s ∧
    run (step .cow) s [.fork 0]=.next t ∧ s.proc 1=none ∧ t.proc 1=none ∧
      s.kmem.refCnt (physTop-5)=1 ∧ t.kmem.refCnt (physTop-5)=2 ∧ ¬Restored s.kmem t.kmem := by
  obtain ⟨s,hboot,hobs⟩ := exists_of_state? (o:=boot (physTop-11) 0 0)
    (f:=fun s => ((s.proc 1).isNone,s.kmem.refCnt (physTop-5))) (v:=(true,1)) (by decide +kernel)
  obtain ⟨t,hrun,hobs'⟩ := exists_of_state?
    (o:=(boot (physTop-11) 0 0).bind fun s => run (step .cow) s [.fork 0])
    (f:=fun s => ((s.proc 1).isNone,s.kmem.refCnt (physTop-5))) (v:=(true,2)) (by decide +kernel)
  rw [hboot,bind_next] at hrun
  rw [Prod.mk.injEq,Option.isNone_iff_eq_none] at hobs hobs'
  refine ⟨s,t,hboot,hrun,hobs.1,hobs'.1,hobs.2,hobs'.2,fun hr => ?_⟩
  have hsame := hr.1 (physTop-5)
  grind

end Fork

end Xv6Riscv.ForkFailure
