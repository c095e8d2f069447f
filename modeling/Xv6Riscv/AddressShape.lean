import Xv6Riscv.PageOwnership

/-!
# The shape of every address space

Between operations the valid leaf PTEs of a process are its user pages, which
are those below its size, and the kernel's two pages above them. Every
operation relies on this shape and restores it, also where an allocation fails
half way, so no operation stops the kernel.
-/

namespace Xv6Riscv.AddressShape

open Transition RadixTree PageAllocator PageTables AddressSpace SpaceOwnership CowSharing VmMachine
  VmInvariant PageOwnership
open ProcMachine (Slot nproc)

structure Shape (q : VmProc) : Prop where
  leaf : ∀ v,v<2^27 → ((∃ e,lookup q.pagetable v=some e) ↔
    v<pageCount q.sz ∨ v=trapframe ∨ v=trampoline)
  readable : ∀ v e,v<pageCount q.sz → lookup q.pagetable v=some e → e.r=true
  distinct : ∀ u v,u<pageCount q.sz → v<pageCount q.sz →
    frame q.pagetable u=frame q.pagetable v → u=v

/-- The process that an action needs is there, and a store that faults does so
on a page of its memory. -/
def Enabled (s : VmSys) : Action→Prop
  | .kernelAlloc => True
  | .kernelFree i => i<s.kernel.length
  | .exit p => p≠0 ∧ ∃ q,s.proc p=some q ∧ q.phase≠.zombie
  | .teardown p => ∃ q,s.proc p=some q ∧ q.phase=.zombie
  | .store p va _ => ∃ q,s.proc p=some q ∧ q.phase=.running ∧ va/pgsize<pageCount q.sz
  | a => ∃ p q,actor a=some p ∧ s.proc p=some q ∧ q.phase=.running

/-- A stop that is no fault of the address spaces: init exits, or a user store
misses the memory of its process. -/
inductive Excused (s : VmSys) : Action→String→Prop where
  | init : Excused s (.exit 0) "init exiting"
  | stray {p : Slot} {va : ℕ} {b : UInt8} {q : VmProc} (hp : s.proc p=some q)
      (hva : pageCount q.sz≤va/pgsize) : Excused s (.store p va b) "kerneltrap"

section Shape

variable {mode : CopyMode} {s : VmSys} {p : Slot} {q : VmProc} {a : Action}

lemma shape_of_space {k : Kmem} {own : ℕ→ℕ}
    (h : SpaceInv k q.pagetable own (pageCount q.sz)) (htrap : Trapped q.pagetable) : Shape q := by
  obtain ⟨htv,hmax,_⟩ := trapframe_val
  have htramp : trampoline=2^26-1 := by decide
  have hbound := h.bound
  refine ⟨fun v hv => ⟨?_,?_⟩,fun v e hv he => h.readable v e (by omega) he,
    fun u v hu hv huv => ?_⟩
  · rintro ⟨e,he⟩
    by_cases hlow : v<trapframe
    · exact Or.inl ((h.mapped v hlow).mp ⟨e,he⟩)
    · by_cases hhigh : maxPages≤v
      · rw [h.tidy v hhigh hv] at he
        cases he
      · omega
  · rintro (hlow|rfl|rfl)
    · exact h.pte hlow
    · exact htrap.2
    · exact htrap.1
  · obtain ⟨e,he⟩ := h.pte hu
    obtain ⟨e',he'⟩ := h.pte hv
    rw [frame,frame,he,he',Option.map_some,Option.map_some] at huv
    exact h.injective u v e e' (by omega) (by omega) he he' (Option.some.inj huv)

lemma userStore_mapped {k : Kmem} {pt : PageTable} {own : ℕ→ℕ} {n va : ℕ}
    (h : SpaceInv k pt own n) (hva : va/pgsize<n) (b : UInt8) :
    ∃ r,userStore k pt va b=.next r := by
  obtain ⟨htv,hmax,_⟩ := trapframe_val
  have hbound := h.bound
  obtain ⟨e,he⟩ := h.pte hva
  rcases userStore_spec h va b with hpanic|⟨k',pt',ok,hrun,_⟩
  · -- The PTE is there, so the walk of usertrap does not return a null pointer.
    exfalso
    unfold userStore at hpanic
    rw [if_neg (by omega),cell_of_lookup he] at hpanic
    split at hpanic
    · cases hpanic
    · split_ifs at hpanic
      obtain ⟨k',pt',ok,hrun,_⟩ := handleTrapCow_spec h (by omega) he
      dsimp only at hpanic
      rw [hrun,bind_next] at hpanic
      cases ok with
      | false => cases hpanic
      | true =>
        dsimp only at hpanic
        split at hpanic <;> cases hpanic
  · exact ⟨_,hrun⟩

lemma step_of_actor (ha : actor a=some p) (hp : s.proc p=some q) (hrun : q.phase=.running) :
    step mode s a=act mode s p q a := by
  cases a <;> cases ha <;> simp only [step,actor,hp,if_pos hrun]

lemma act_enabled (h : VmInv mode s) (ha : actor a=some p) (hp : s.proc p=some q)
    (hrun : q.phase=.running) (hstore : ∀ va b,a=.store p va b → va/pgsize<pageCount q.sz) :
    ∃ t,step mode s a=.next t := by
  rw [step_of_actor ha hp hrun]
  rcases act_sound h hp ha with ⟨t,ht,_⟩|⟨⟨va,b,rfl,hpanic⟩,_⟩
  · exact ⟨t,ht⟩
  · obtain ⟨r,hr⟩ := userStore_mapped (h.space p q hp) (hstore va b rfl) b
    rw [hr] at hpanic
    cases hpanic

lemma step_enabled (h : VmInv mode s) (ha : Enabled s a) : ∃ t,step mode s a=.next t := by
  cases a with
  | kernelAlloc =>
    obtain ⟨t,ht,_⟩ := kernelAlloc_sound h
    exact ⟨t,ht⟩
  | kernelFree i =>
    obtain ⟨k,hk,_⟩ := kernelFree_sound h (List.getElem?_eq_getElem ha)
    exact ⟨_,hk⟩
  | exit x =>
    obtain ⟨hx,y,hy,hz⟩ := ha
    exact ⟨_,by simp only [step,hy,if_neg hz,if_neg hx]; rfl⟩
  | teardown x =>
    obtain ⟨y,hy,hz⟩ := ha
    obtain ⟨k,hk,_⟩ := teardown_sound h hy
    exact ⟨_,by simp only [step,hy,if_pos hz,hk,bind_next]; rfl⟩
  | store x va b =>
    obtain ⟨y,hy,hrun,hva⟩ := ha
    refine act_enabled h rfl hy hrun fun va' b' heq => ?_
    cases heq
    exact hva
  | fork | load | copyout | copyin | sbrk | exec =>
    obtain ⟨_,y,hx,hy,hrun⟩ := ha
    exact act_enabled h hx hy hrun fun _ _ heq => by cases heq

lemma step_excused (h : VmInv mode s) {msg : String} (hstep : step mode s a=.panic msg) :
    Excused s a msg := by
  rcases step_sound h a with ⟨t,ht,_⟩|hblocked|⟨rfl,hpanic⟩|⟨⟨x,va,b,rfl⟩,hpanic⟩
  · rw [hstep] at ht
    cases ht
  · grind
  · rw [hstep] at hpanic
    cases hpanic
    exact .init
  · rw [hstep] at hpanic
    cases hpanic
    cases hp : s.proc x with
    | none => simp only [step,actor,hp,reduceCtorEq] at hstep
    | some y =>
      by_cases hrun : y.phase=.running
      · refine .stray hp (Nat.le_of_not_lt fun hva => ?_)
        obtain ⟨t,ht⟩ := step_enabled (a:=.store x va b) h ⟨y,hp,hrun,hva⟩
        rw [hstep] at ht
        cases ht
      · simp only [step,actor,hp,if_neg hrun,reduceCtorEq] at hstep

end Shape

end Xv6Riscv.AddressShape
