import Xv6Riscv.VmInvariant

/-!
# No page is freed while it is referenced

Where the invariant of the memory system holds, the free list has no duplicates,
free pages have the count 0, and ref_cnt of a page covers all user mappings and
kernel owners of it. A page that a process can write is its own.
-/

namespace Xv6Riscv.PageOwnership

open Transition RadixTree PageAllocator PageTables AddressSpace SpaceOwnership VmMachine VmInvariant
open ProcMachine (Slot nproc)

/-- The PTEs at user addresses below the size of a process that map a page. -/
def mappings (q : VmProc) (f : ℕ) : ℕ :=
  ((Finset.range maxPages).filter fun v => v*pgsize<q.sz ∧ frame q.pagetable v=some f).card

def userMappings (s : VmSys) (f : ℕ) : ℕ := ∑ p,(s.proc p).elim 0 fun q => mappings q f

/-- The page is a page-table page or the trapframe of a process. -/
def tablePages (q : VmProc) (f : ℕ) : ℕ := tags q.pagetable f+if f=q.trapframe then 1 else 0

/-- The kernel's owners of a page: page tables, trapframes, and the pages that
it holds itself, such as pipe buffers and exec arguments. -/
def kernelOwners (s : VmSys) (f : ℕ) : ℕ :=
  s.kernel.count f+∑ p,(s.proc p).elim 0 fun q => tablePages q f

lemma mappings_le {k : Kmem} {q : VmProc} {own : ℕ→ℕ}
    (h : SpaceInv k q.pagetable own (pageCount q.sz)) (hsz : q.sz<2^63) (f : ℕ) :
    mappings q f≤leafs q.pagetable f := by
  have hbound := h.bound
  unfold mappings leafs occurrences
  apply Finset.card_le_card
  intro v hv
  obtain ⟨_,hlt,hframe⟩ := Finset.mem_filter.mp hv
  have hcount : v<pageCount q.sz := by
    clear hv
    unfold pageCount pgRoundUp
    simp only [pgsize] at hlt ⊢
    omega
  exact Finset.mem_filter.mpr ⟨Finset.mem_range.mpr (hcount.trans_le hbound),hframe⟩

lemma owners_cover {mode : CopyMode} {s : VmSys} (h : VmInv mode s) (f : ℕ) :
    userMappings s f+kernelOwners s f≤owners s f := by
  have hterm : ∀ p,(s.proc p).elim 0 (fun q => mappings q f)+
      (s.proc p).elim 0 (fun q => tablePages q f)≤weight (s.proc p) f := by
    intro p
    cases hp : s.proc p with
    | none => exact Nat.le_refl 0
    | some q =>
      have hle := mappings_le (h.space p q hp) (h.small p q hp) f
      have hweight : weight (some q) f=leafs q.pagetable f+tablePages q f := by
        simp only [weight,tablePages,Pi.add_apply,Pi.single_apply]
        exact Nat.add_left_comm ..
      rw [hweight,Option.elim_some,Option.elim_some]
      exact Nat.add_le_add_right hle (tablePages q f)
  have hsum := Finset.sum_le_sum fun p (_ : p∈Finset.univ) => hterm p
  rw [Finset.sum_add_distrib] at hsum
  calc userMappings s f+kernelOwners s f
      =s.kernel.count f+(userMappings s f+∑ p,(s.proc p).elim 0 fun q => tablePages q f) :=
        Nat.add_left_comm ..
    _ ≤ s.kernel.count f+∑ p,weight (s.proc p) f := Nat.add_le_add_left hsum _
    _ =owners s f := by simp only [owners,kernelOwn,Pi.add_apply,Finset.sum_apply]

lemma outside_writable {mode : CopyMode} {s : VmSys} {p : Slot} {q : VmProc} {e : Pte} {v : ℕ}
    (h : VmInv mode s) (hp : s.proc p=some q) (hv : v<trapframe)
    (he : lookup q.pagetable v=some e) (hw : e.w=true) : outside s p q e.ppn=0 := by
  have hspace := h.space p q hp
  refine (hspace.exclusive v e hv he ?_).2
  by_contra hcow
  have hno := hspace.guarded v e hv he (Bool.eq_true_of_not_eq_false hcow)
  rw [hw] at hno
  cases hno

end Xv6Riscv.PageOwnership
