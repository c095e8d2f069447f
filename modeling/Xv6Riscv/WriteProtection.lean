import Xv6Riscv.VmInvariant

/-!
# Pages that exec mapped without PTE_W

uvmcopy marks every page of the parent COW, whatever its permissions, and both
routines that break the sharing give PTE_W. A program can therefore write to
its text after a fork. As long as no page that exec mapped without PTE_W is
stored to while it is marked COW, it stays without PTE_W, also in descendants.
-/

namespace Xv6Riscv.WriteProtection

open Function
open Transition RadixTree PageAllocator PageTables AddressSpace SpaceOwnership CowSharing CopyBytes
  ExecImage ExecReplace VmMachine VmInvariant
open ProcMachine (Slot nproc)

/-- Neither a store nor a copyout reaches a page that exec mapped without
PTE_W while it is marked COW, and no sbrk removes such a page. A store at address
0 is never repaired. -/
def SafeWrite (s : VmSys) : Action→Prop
  | .store p va _ => va=0 ∨ ∀ q e,s.proc p=some q → q.ro (va/pgsize)=true →
      lookup q.pagetable (va/pgsize)=some e → e.cow=false
  | .copyout p dstva src => ∀ q v e,s.proc p=some q → Touches dstva src.length v →
      q.ro v=true → lookup q.pagetable v=some e → e.cow=false
  | .sbrk p n => n.toInt<0 → ∀ q v,s.proc p=some q → v<trapframe → q.ro v=true →
      v<pageCount (addInt q.sz n)
  | _ => True

structure Protected (q : VmProc) : Prop where
  w : ∀ v e,v<trapframe → q.ro v=true → lookup q.pagetable v=some e → e.w=false
  bound : ∀ v,v<trapframe → q.ro v=true → v<pageCount q.sz

structure ProtInv (s : VmSys) : Prop where
  vm : VmInv .cow s
  proc : ∀ p q,s.proc p=some q → Protected q

section Step

variable {s t : VmSys} {p : Slot} {q q' : VmProc} {k : Kmem} {a : Action}

lemma ProtInv.replace (h : ProtInv s) (hinv : VmInv .cow (s.set k p (some q')))
    (hprot : Protected q') : ProtInv (s.set k p (some q')) := by
  refine ⟨hinv,fun x y hy => ?_⟩
  by_cases hx : x=p
  · subst hx
    have hself : (s.set k x (some q')).proc x=some q' := update_self ..
    grind
  · have hother : (s.set k p (some q')).proc x=s.proc x := update_of_ne hx ..
    grind [h.proc]

lemma Protected.repaired {T : ℕ→Prop} {pt : PageTable} {phase : Phase} (h : Protected q)
    (hrep : Repaired T q.pagetable pt)
    (hsafe : ∀ v e,T v → q.ro v=true → lookup q.pagetable v=some e → e.cow=false) :
    Protected {q with
      pagetable := pt
      phase := phase} := by
  refine ⟨fun v e' hv hro he' => ?_,h.bound⟩
  obtain ⟨e,he,hw,_⟩ := hrep.write v e' hv he'
  have hwe := h.w v e hv hro he
  cases hw' : e'.w with
  | false => rfl
  | true =>
    rcases hw hw' with hwt|⟨hct,hT⟩
    · rw [← hwt,hwe]
    · rw [← hct,hsafe v e hT hro he]

lemma Protected.parent {old : PageTable} (h : Protected q) (hfork : Forked .cow s p q k old) :
    Protected {q with pagetable := old} := by
  refine ⟨fun v e' hv hro he' => ?_,h.bound⟩
  obtain ⟨e,he,hw⟩ := hfork.protect v e' he' hv
  have hwe := h.w v e hv hro he
  cases hw' : e'.w with
  | false => rfl
  | true => rw [← hw hw',hwe]

lemma Protected.child {old new : PageTable} (h : Protected {q with pagetable := old})
    (htwin : Twin k old new) (page : ℕ) : Protected ⟨new,q.sz,page,.running,q.ro⟩ := by
  refine ⟨fun v f hv hro hf => ?_,h.bound⟩
  have hperm := (htwin v hv).2
  dsimp only at hf
  rw [hf,Option.map_some] at hperm
  cases he : lookup old v with
  | none =>
    rw [he] at hperm
    cases hperm
  | some e =>
    rw [he,Option.map_some,Option.some.injEq] at hperm
    rw [hperm]
    exact h.w v e hv hro he

lemma protected_image {pt : PageTable} {own : ℕ→ℕ} {sz page : ℕ} {phase : Phase}
    (himage : Image k pt own sz) : Protected ⟨pt,sz,page,phase,readOnly pt⟩ := by
  refine ⟨fun v e _ hro he => ?_,fun v hv hro => ?_⟩
  · grind [readOnly]
  · dsimp only at hro
    unfold readOnly at hro
    cases he : lookup pt v with
    | none =>
      rw [he,Option.any_none] at hro
      cases hro
    | some e => exact (himage.space.mapped v hv).mp ⟨e,he⟩

lemma below_of_least {v sz sz' : ℕ} {n : BitVec 32} (hsz : sz<2^63) (hsz' : sz'<2^63)
    (hleast : min sz (grown sz n)≤ sz') (hold : v<pageCount sz)
    (hnew : n.toInt<0 → v<pageCount (addInt sz n)) : v<pageCount sz' := by
  have hmono : ∀ a,a≤ sz' → pageCount a≤pageCount sz' := by
    intro a ha
    simp only [pageCount,pgRoundUp,pgsize]
    omega
  unfold grown addInt at *
  grind

lemma act_protInv (h : ProtInv s) (hp : s.proc p=some q) (ha : actor a=some p)
    (hsafe : SafeWrite s a) (hact : act .cow s p q a=.next t) (hinv : VmInv .cow t) :
    ProtInv t := by
  obtain ⟨htrap,_,_⟩ := trapframe_val
  have hprot := h.proc p q hp
  cases a with
  | fork y =>
    obtain ⟨u,hrun,_,hout⟩ := fork_spec h.vm hp
    have hu : u=t := Outcome.next.inj (hrun.symm.trans hact)
    subst hu
    cases hout with
    | full _ => exact h
    | failed hfork _ => exact h.replace hinv (hprot.parent hfork)
    | @done k old new np page hslot hfork htwin _ =>
      have hold := hprot.parent hfork
      refine ⟨hinv,fun x y hy => ?_⟩
      by_cases hx : x=np
      · subst hx
        have hself : ((s.set k p (some {q with pagetable := old})).set k x
            (some ⟨new,q.sz,page,.running,q.ro⟩)).proc x=some ⟨new,q.sz,page,.running,q.ro⟩ :=
          update_self ..
        rw [hself] at hy
        cases hy
        exact hold.child htwin page
      · have hother : ((s.set k p (some {q with pagetable := old})).set k np
            (some ⟨new,q.sz,page,.running,q.ro⟩)).proc x=
            (s.set k p (some {q with pagetable := old})).proc x := update_of_ne hx ..
        rw [hother] at hy
        by_cases hxp : x=p
        · subst hxp
          have hself : (s.set k x (some {q with pagetable := old})).proc x=
              some {q with pagetable := old} := update_self ..
          grind
        · have hsame : (s.set k p (some {q with pagetable := old})).proc x=s.proc x :=
            update_of_ne hxp ..
          rw [hsame] at hy
          exact h.proc x y hy
  | load y va =>
    cases hact
    exact h.replace hinv ⟨hprot.w,hprot.bound⟩
  | store y va b =>
    have hy : y=p := Option.some.inj ha
    subst hy
    rcases store_sound h.vm hp va b with hpanic|⟨k,pt,ok,hrun,_,hrep,_⟩
    · simp only [act,hpanic,bind_panic,reduceCtorEq] at hact
    · simp only [act,hrun,bind_next,Outcome.next.injEq] at hact
      subst hact
      refine h.replace hinv (hprot.repaired hrep fun v e hT hro he => ?_)
      obtain ⟨hzero,rfl⟩ := hT
      rcases hsafe with hva|hcow
      · exact absurd hva hzero
      · exact hcow q e hp hro he
  | copyout y dstva src =>
    have hy : y=p := Option.some.inj ha
    subst hy
    obtain ⟨k,pt,r,hrun,_,hrep,_⟩ := copyout_sound h.vm hp dstva src
    simp only [act,hrun,bind_next,Outcome.next.injEq] at hact
    subst hact
    exact h.replace hinv (hprot.repaired hrep fun v e hT hro he => hsafe q v e hp hT hro he)
  | copyin y srcva len =>
    cases hact
    exact h
  | sbrk y n =>
    obtain ⟨k,pt,sz,hrun,_,_,hsmall,hsame,_,_,_⟩ := growproc_spec (h.vm.space p q hp) (h.vm.small p q hp) n
    simp only [act,hrun,bind_next,Outcome.next.injEq] at hact
    subst hact
    have hy : y=p := Option.some.inj ha
    subst hy
    have hleast := growproc_least (h.vm.space y q hp) (h.vm.small y q hp) hrun
    have hkept : ∀ v,v<trapframe → q.ro v=true → v<pageCount sz := by
      intro v hv hro
      have hold := hprot.bound v hv hro
      have hnew := fun hneg => hsafe hneg q v hp hv hro
      exact below_of_least (h.vm.small y q hp) hsmall hleast hold hnew
    refine h.replace hinv ⟨fun v e hv hro he => ?_,hkept⟩
    exact hprot.w v e hv hro (by rw [← hsame v (by omega) (.inl ⟨hprot.bound v hv hro,hkept v hv hro⟩)]; exact he)
  | exec y file argv =>
    obtain ⟨k,r,hrun,_,hrep⟩ := exec_sound h.vm hp file argv
    cases r with
    | bad =>
      simp only [act,hrun,bind_next,Outcome.next.injEq] at hact
      subst hact
      exact ⟨hinv,h.proc⟩
    | exited =>
      simp only [act,hrun,bind_next,Outcome.next.injEq] at hact
      subst hact
      exact h.replace hinv ⟨hprot.w,hprot.bound⟩
    | image pt sz argc sp =>
      simp only [act,hrun,bind_next,Outcome.next.injEq] at hact
      subst hact
      exact h.replace hinv (protected_image hrep.1)
  | kernelAlloc | kernelFree | exit | teardown => cases hact

lemma acting_protInv (h : ProtInv s) (hsafe : SafeWrite s a) (hinv : VmInv .cow t) {x : Slot}
    (ha : actor a=some x) (hrun : (match s.proc x with
      | none => .blocked
      | some y => if y.phase=.running then act .cow s x y a else .blocked)=Outcome.next t) :
    ProtInv t := by
  cases hp : s.proc x with
  | none =>
    rw [hp] at hrun
    cases hrun
  | some y =>
    rw [hp] at hrun
    dsimp only at hrun
    by_cases hy : y.phase=.running
    · grind [act_protInv]
    · grind

lemma step_protInv (h : ProtInv s) (hsafe : SafeWrite s a) (hstep : step .cow s a=.next t) :
    ProtInv t := by
  have hinv := (sound_of_step h.vm hstep).inv
  cases a with
  | kernelAlloc =>
    obtain ⟨u,hrun,_,hproc,_⟩ := kernelAlloc_sound h.vm
    have hu : u=t := Outcome.next.inj (hrun.symm.trans hstep)
    subst hu
    refine ⟨hinv,fun x y hy => h.proc x y ?_⟩
    rw [← hproc]
    exact hy
  | kernelFree i =>
    cases hi : s.kernel[i]? with
    | none => simp only [step,hi,reduceCtorEq] at hstep
    | some page =>
      obtain ⟨k,hrun,_⟩ := kernelFree_sound h.vm hi
      have ht := Outcome.next.inj (hrun.symm.trans hstep)
      subst ht
      exact ⟨hinv,h.proc⟩
  | exit x =>
    cases hp : s.proc x with
    | none => simp only [step,hp,reduceCtorEq] at hstep
    | some y =>
      simp only [step,hp] at hstep
      by_cases hz : y.phase=.zombie
      · rw [if_pos hz] at hstep
        cases hstep
      · rw [if_neg hz] at hstep
        by_cases hx : x=0
        · grind
        · rw [if_neg hx] at hstep
          cases hstep
          have hprot := h.proc x y hp
          exact h.replace hinv ⟨hprot.w,hprot.bound⟩
  | teardown x =>
    cases hp : s.proc x with
    | none => simp only [step,hp,reduceCtorEq] at hstep
    | some y =>
      simp only [step,hp] at hstep
      by_cases hz : y.phase=.zombie
      · obtain ⟨k,hfree,_⟩ := teardown_sound h.vm hp
        rw [if_pos hz,hfree,bind_next] at hstep
        cases hstep
        refine ⟨hinv,fun x' y' hy' => ?_⟩
        by_cases hx : x'=x
        · subst hx
          have hself : (s.set k x' none).proc x'=none := update_self ..
          rw [hself] at hy'
          cases hy'
        · have hother : (s.set k x none).proc x'=s.proc x' := update_of_ne hx ..
          rw [hother] at hy'
          exact h.proc x' y' hy'
      · rw [if_neg hz] at hstep
        cases hstep
  | fork x | load x va | store x va b | copyout x dstva src | copyin x srcva len | sbrk x n
  | exec x file argv => exact acting_protInv h hsafe hinv rfl hstep

end Step

lemma boot_protInv {n : ℕ} {s : VmSys} (h : Booted n s) : ProtInv s := by
  obtain ⟨q,hq,_,_,hro,_⟩ := h.first
  refine ⟨h.inv .cow,fun p y hy => ?_⟩
  by_cases hp : p=0
  · rw [hp,hq] at hy
    cases hy
    refine ⟨fun v _ _ hv => ?_,fun v _ hv => ?_⟩ <;>
      exact absurd hv (by simp only [hro v,Bool.false_eq_true,not_false_eq_true])
  · rw [h.others p hp] at hy
    cases hy

/-- Executable form of SafeWrite for runs without copyout in which no memory
shrinks. -/
def safeWrite (s : VmSys) : Action→Bool
  | .store p va _ => va==0 || (s.proc p).all fun q => !q.ro (va/pgsize) ||
      (lookup q.pagetable (va/pgsize)).all fun e => !e.cow
  | .copyout _ _ _ => false
  | .sbrk _ n => decide (0≤n.toInt)
  | _ => true

lemma safeWrite_sound (s : VmSys) (a : Action) (h : safeWrite s a=true) : SafeWrite s a := by
  cases a with
  | store p va b =>
    simp only [safeWrite,Bool.or_eq_true,beq_iff_eq,Option.all_eq_true,Bool.not_eq_true'] at h
    refine h.imp id fun hall q e hp hro he => ?_
    grind
  | copyout p dstva src => exact absurd h (by simp only [safeWrite,Bool.false_eq_true,not_false_eq_true])
  | sbrk p n => exact fun hneg => absurd (of_decide_eq_true h) (by omega)
  | _ => trivial

/-- exec of a program with one page of text, a store to the text, fork, and
stores of both processes to their stacks. -/
def stackRun : List Action :=
  [.exec 0 textProgram [[97]],.store 0 4 9,.fork 0,.store 0 8196 5,.store 1 8197 6,.fork 1,.store 0 0 1]

end Xv6Riscv.WriteProtection
