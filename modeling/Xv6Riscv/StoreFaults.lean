import Xv6Riscv.VmInvariant

/-!
# User store faults

The branch of usertrap for scause 15 ends the process above MAXVA and at address
0, and otherwise hands the PTE to handle_trap_cow, which repairs pages marked COW
and has no branch for anything else. The PTE pointer is not tested. Whether a
fault is resolved is decided by the PTE alone, apart from a process that has
been killed or that finds no free page.
-/

namespace Xv6Riscv.StoreFaults

open Transition RadixTree PageAllocator PageTables AddressSpace SpaceOwnership
open VmMachine VmInvariant
open ProcMachine (Slot)

/-- The branch of usertrap for a store fault at stval up to usertrapret, where
killed is the flag of the process: true if it returns to user mode, false if the
process exits. A null PTE pointer is read in handle_trap_cow. -/
def usertrapStore (k : Kmem) (pt : PageTable) (stval : ℕ) (killed : Bool) :
    Outcome (Kmem×PageTable×Bool) :=
  if maxPages*pgsize≤ stval then .next (k,pt,false)
  else
    (walk pt (stval/pgsize)).bind fun c =>
      if stval=0 then .next (k,pt,false)
      else
        match c with
        | none => .panic "kerneltrap"
        | some none => .next (k,pt,!killed)
        | some (some e) =>
          (handleTrapCow k pt (stval/pgsize) e).bind fun r => .next (r.1,r.2.1,r.2.2 && !killed)

/-- A store through the PTE of an address does not fault. -/
def Storable (pt : PageTable) (va : ℕ) : Prop :=
  ∃ e,lookup pt (va/pgsize)=some e ∧ e.u=true ∧ e.w=true

/-- The fault ends with the process exiting, or with a PTE that allows the store. -/
def Resolved (k : Kmem) (pt : PageTable) (stval : ℕ) (killed : Bool) : Prop :=
  ∃ k' pt' back,usertrapStore k pt stval killed=.next (k',pt',back) ∧
    (back=true→Storable pt' stval)

def Repairable (k : Kmem) (e : Pte) : Prop :=
  e.u=true ∧ (e.cow=true ∨ e.w=true) ∨ e.cow=true ∧ k.refCnt e.ppn≠1 ∧ k.freelist=[]

def Resolvable (k : Kmem) (pt : PageTable) (stval : ℕ) (killed : Bool) : Prop :=
  maxPages*pgsize≤ stval ∨ stval=0 ∨ ∃ c,cell pt (px (stval/pgsize))=some c ∧
    (killed=true ∨ ∃ e,c=some e ∧ Repairable k e)

section Trap

variable {k : Kmem} {pt : PageTable} {own : ℕ→ℕ} {n v : ℕ} {e : Pte}

lemma userStore_eq (k : Kmem) (pt : PageTable) (va : ℕ) (b : UInt8) :
    userStore k pt va b=
      match (if maxPages≤va/pgsize then none else lookup pt (va/pgsize)).bind
        (storeThrough k · va b) with
      | some k' => .next (k',pt,true)
      | none => (usertrapStore k pt va false).bind fun
        | (k',pt',false) => .next (k',pt',false)
        | (k',pt',true) =>
          match (lookup pt' (va/pgsize)).bind (storeThrough k' · va b) with
          | some k'' => .next (k'',pt',true)
          | none => .next (k',pt',true) := by
  have hmax : maxPages*pgsize≤va ↔ maxPages≤va/pgsize := by grind [pgsize]
  rw [userStore,usertrapStore]
  by_cases hva : maxPages≤va/pgsize
  · rw [if_pos hva,if_pos hva,if_pos (hmax.mpr hva)]
    rfl
  · rw [if_neg hva,if_neg hva,if_neg (mt hmax.mp hva),walk,if_neg hva,bind_next]
    cases hfirst : (lookup pt (va/pgsize)).bind (storeThrough k · va b) with
    | some k' => rfl
    | none =>
      dsimp only
      by_cases hzero : va=0
      · rw [if_pos hzero,if_pos hzero]
        rfl
      · rw [if_neg hzero,if_neg hzero]
        cases hcell : cell pt (px (va/pgsize)) with
        | none => rfl
        | some c =>
          cases c with
          | none => simp only [bind_next,Bool.not_false,hfirst]
          | some e =>
            dsimp only
            cases handleTrapCow k pt (va/pgsize) e with
            | next r =>
              obtain ⟨k',pt',ok⟩ := r
              cases ok <;> rfl
            | panic | blocked => rfl

lemma kfree_next {p : ℕ} (hp : k.first≤p ∧ p<physTop) : ∃ k',kfree k p=.next k' := by
  rw [kfree,if_neg (by omega)]
  split
  · exact ⟨_,rfl⟩
  · exact ⟨_,rfl⟩

/-- handle_trap_cow on a page of a sound address space: the process exits for want
of a page, or the PTE has been repaired if it was marked COW. -/
lemma handleTrapCow_cases (h : SpaceInv k pt own n) (hv : v< maxPages)
    (he : lookup pt v=some e) :
    (e.cow=true ∧ k.refCnt e.ppn≠1 ∧ k.freelist=[] ∧
      ∃ k',handleTrapCow k pt v e=.next (k',pt,false)) ∨
    (¬(e.cow=true ∧ k.refCnt e.ppn≠1 ∧ k.freelist=[]) ∧
      ∃ k' pt' e',handleTrapCow k pt v e=.next (k',pt',true) ∧ lookup pt' v=some e' ∧
        e'.u=e.u ∧ (e'.w=true ↔ e.cow=true ∨ e.w=true)) := by
  have hmax : maxPages=2^26 := rfl
  have hput : ∀ e',lookup (put pt (px v) (some e')) v=some e' := by
    intro e'
    rw [lookup_put hv (cell_of_lookup he) _ (by omega),if_pos rfl]
  cases hcow : e.cow with
  | false =>
    refine .inr ⟨by simp,k,pt,e,?_,he,rfl,by simp⟩
    simp only [handleTrapCow,hcow,Bool.false_eq_true,false_and,if_false]
  | true =>
    have hvt : v<trapframe := by
      by_contra hge
      have hsys := (h.system v e (by omega) hv he).2.2
      grind
    by_cases hone : k.refCnt e.ppn=1
    · refine .inr ⟨by simp [hone],k,_,{e with cow := false,w := true},?_,hput _,rfl,by simp⟩
      simp only [handleTrapCow,hcow,hone,ne_eq,not_true_eq_false,and_false,if_false,and_self,if_true]
    · have hbreak : handleTrapCow k pt v e=breakCow k pt v e := by
        simp only [handleTrapCow,hcow,hone,ne_eq,not_false_eq_true,and_self,if_true]
      rw [hbreak,breakCow,kalloc]
      cases hfree : k.freelist with
      | nil => exact .inl ⟨rfl,hone,rfl,_,rfl⟩
      | cons p rest =>
        have hrange : k.first≤e.ppn ∧ e.ppn<physTop := by
          have hpos := leafs_pos hvt he
          exact h.kmem.ownedRange e.ppn (by simp only [Pi.add_apply]; omega)
        obtain ⟨k',hk'⟩ := kfree_next (k:=(setCounter ({k with freelist := rest}.store p (fill 5)) p
          ).store p ((setCounter ({k with freelist := rest}.store p (fill 5)) p).mem e.ppn)) hrange
        refine .inr ⟨by simp,k',_,{e with w := true,cow := false,ppn := p},?_,hput _,rfl,by simp⟩
        simp only [hk',bind_next]

lemma resolved_iff (h : SpaceInv k pt own n) (stval : ℕ) (killed : Bool) :
    Resolved k pt stval killed ↔ Resolvable k pt stval killed := by
  have hmax : maxPages*pgsize≤ stval ↔ maxPages≤ stval/pgsize := by grind [pgsize]
  rw [Resolved,Resolvable,usertrapStore]
  by_cases hva : maxPages*pgsize≤ stval
  · rw [if_pos hva]
    exact iff_of_true ⟨k,pt,false,rfl,fun h => absurd h Bool.false_ne_true⟩ (.inl hva)
  rw [if_neg hva,walk,if_neg (mt hmax.mpr hva),bind_next]
  by_cases hzero : stval=0
  · rw [if_pos hzero]
    exact iff_of_true ⟨k,pt,false,rfl,fun h => absurd h Bool.false_ne_true⟩ (.inr (.inl hzero))
  rw [if_neg hzero]
  simp only [hva,hzero,false_or]
  cases hcell : cell pt (px (stval/pgsize)) with
  | none =>
    refine iff_of_false ?_ ?_
    · rintro ⟨_,_,_,hrun,-⟩
      cases hrun
    · rintro ⟨_,hc,-⟩
      cases hc
  | some c =>
    simp only [Option.some.injEq,exists_eq_left']
    cases c with
    | none =>
      have hlook : lookup pt (stval/pgsize)=none := by
        rw [lookup,RadixTree.get,hcell]
        rfl
      constructor
      · rintro ⟨_,_,_,hrun,hback⟩
        cases hrun
        cases killed with
        | true => exact .inl rfl
        | false =>
          obtain ⟨e,he,-⟩ := hback rfl
          rw [hlook] at he
          cases he
      · rintro (rfl|⟨e,hc,-⟩)
        · exact ⟨k,pt,false,rfl,fun h => absurd h Bool.false_ne_true⟩
        · cases hc
    | some e =>
      have he : lookup pt (stval/pgsize)=some e := by
        rw [lookup,RadixTree.get,hcell]
        rfl
      simp only [Option.some.injEq,exists_eq_left']
      rcases handleTrapCow_cases h (Nat.lt_of_not_ge (mt hmax.mpr hva)) he with
        ⟨hcow,hone,hfree,k',hrun⟩|⟨hmem,k',pt',e',hrun,he',hu,hw⟩
      · rw [hrun,bind_next]
        exact iff_of_true ⟨k',pt,false,rfl,fun h => absurd h Bool.false_ne_true⟩ (.inr (.inr ⟨hcow,hone,hfree⟩))
      · rw [hrun,bind_next]
        have hstore : Storable pt' stval ↔ e.u=true ∧ (e.cow=true ∨ e.w=true) := by
          rw [Storable,he',←hw,←hu]
          simp only [Option.some.injEq,exists_eq_left']
        simp only [Repairable,hmem,or_false,Bool.true_and]
        constructor
        · rintro ⟨_,_,_,hnext,hback⟩
          cases hnext
          cases killed with
          | true => exact .inl rfl
          | false => exact .inr (hstore.mp (hback rfl))
        · rintro (rfl|hok)
          · exact ⟨k',pt',false,rfl,fun h => absurd h Bool.false_ne_true⟩
          · exact ⟨k',pt',_,rfl,fun _ => hstore.mpr hok⟩

end Trap

/-- For every page table that the system reaches and every address, a store fault
is resolved exactly if the address is not below MAXVA or is 0, or its PTE exists
and the process has been killed, or the PTE is valid, accessible to the user and
writable or marked COW, or it is marked COW and shared and no page is free. -/
theorem store_fault_resolved_iff (mode : CopyMode) (first text n : ℕ) (as : List Action)
    {s0 s : VmSys} (hboot : boot first text n=.next s0) (hoom : s0.kmem.oom=false)
    (hrun : run (step mode) s0 as=.next s) {p : Slot} {q : VmProc} (hp : s.proc p=some q)
    (stval : ℕ) (killed : Bool) :
    Resolved s.kmem q.pagetable stval killed ↔ Resolvable s.kmem q.pagetable stval killed :=
  resolved_iff ((vmInv_run ((boot_spec hboot hoom).inv mode) hrun).space p q hp) stval killed

/-- The only page of the first process is shared with its child; a store to it is
resolved. -/
theorem shared_page_resolved : ∃ s0 s q,boot (physTop-40) 0 0=.next s0 ∧
    run (step .cow) s0 [.fork 0]=.next s ∧ s.proc 0=some q ∧
      Resolved s.kmem q.pagetable 8 false := by
  obtain ⟨s0,hboot,hoom⟩ := exists_of_state? (o:=boot (physTop-40) 0 0) (f:=fun s => s.kmem.oom)
    (v:=false) (by decide +kernel)
  obtain ⟨s,hrun,hobs⟩ := exists_of_state?
    (o:=(boot (physTop-40) 0 0).bind fun s => run (step .cow) s [.fork 0])
    (f:=fun s => (s.proc 0).bind fun q => (lookup q.pagetable 0).map fun e => (e.u,e.cow))
    (v:=some (true,true)) (by decide +kernel)
  rw [hboot,bind_next] at hrun
  obtain ⟨q,hq,hmap⟩ := Option.bind_eq_some_iff.mp hobs
  obtain ⟨e,he,hperm⟩ := Option.map_eq_some_iff.mp hmap
  rw [Prod.mk.injEq] at hperm
  refine ⟨s0,s,q,hboot,hrun,hq,?_⟩
  refine (store_fault_resolved_iff .cow _ _ _ _ hboot hoom hrun hq 8 false).mpr (.inr (.inr ?_))
  exact ⟨some e,cell_of_lookup he,.inr ⟨e,rfl,.inl ⟨hperm.1,.inl hperm.2⟩⟩⟩

/-- A store of the first process to the page behind its memory faults again for
ever, and one to an address without a page-table page makes the kernel read
through a null pointer. -/
theorem store_fault_unresolved : ∃ s q,boot (physTop-40) 0 0=.next s ∧ s.proc 0=some q ∧
    (∃ r,usertrapStore s.kmem q.pagetable 4096 false=.next r ∧ r.2.2=true ∧
      lookup r.2.1 (4096/pgsize)=none) ∧
    (usertrapStore s.kmem q.pagetable (2^30) false).message=some "kerneltrap" ∧
    ¬Resolved s.kmem q.pagetable 4096 false ∧ ¬Resolved s.kmem q.pagetable (2^30) false := by
  obtain ⟨s,hboot,hobs⟩ := exists_of_state? (o:=boot (physTop-40) 0 0)
    (f:=fun s => (s.proc 0).map fun q =>
      (((usertrapStore s.kmem q.pagetable 4096 false).state?.map fun r =>
        (r.2.2,lookup r.2.1 (4096/pgsize))),
      (usertrapStore s.kmem q.pagetable (2^30) false).message))
    (v:=some (some (true,none),some "kerneltrap")) (by decide +kernel)
  obtain ⟨q,hq,hpair⟩ := Option.map_eq_some_iff.mp hobs
  rw [Prod.mk.injEq] at hpair
  obtain ⟨r,hr,hback⟩ := exists_of_state? hpair.1
  rw [Prod.mk.injEq] at hback
  refine ⟨s,q,hboot,hq,⟨r,hr,hback⟩,hpair.2,?_,?_⟩
  · rintro ⟨k',pt',back,hrun,hstore⟩
    rw [hr] at hrun
    cases hrun
    obtain ⟨e,he,-⟩ := hstore hback.1
    rw [hback.2] at he
    cases he
  · rintro ⟨_,_,_,hrun,-⟩
    have hmsg := hpair.2
    rw [hrun] at hmsg
    cases hmsg

end Xv6Riscv.StoreFaults
