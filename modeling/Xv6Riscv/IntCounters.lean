import Xv6Riscv.AddressShape
import Xv6Riscv.ForkFailure

/-!
# ref_cnt as an int

ref_cnt of kernel/kalloc.c is an array of int, and declarations adds one to an
entry without looking at it. A fork that runs out of memory takes the additions
back only for the pages it has mapped, so that each such fork may leave one count
too high, and after enough of them a count becomes negative. Then kfree puts a
page that is still mapped on the free list.

As long as no count of a page of the forking process is the largest int, memory
behaves as with counts that do not wrap, and all results about that machine hold.
-/

namespace Xv6Riscv.IntCounters

open Function
open Transition RadixTree PageAllocator PageTables AddressSpace SpaceOwnership ForkCopy VmMachine
  VmInvariant PageOwnership AddressShape ForkFailure
open ProcMachine (Slot nproc)

/-- The value of an int after the assignment of x. -/
def int (x : ℤ) : ℤ := x.bmod (2^32)

/-- declarations of kernel/vm.c: mark a PTE and add one to the int ref_cnt. -/
def declarations (k : Kmem) (old : PageTable) (i : ℕ) (e : Pte) : Kmem×PageTable×Pte :=
  let e' := {e with cow := true,w := false}
  ({k with refCnt := update k.refCnt e.ppn (int (k.refCnt e.ppn+1))},put old (px i) (some e'),e')

/-- The body of uvmcopy's loop for the valid PTE e of page i. -/
def copyPage (k : Kmem) (old new : PageTable) (i : ℕ) (e : Pte) :
    Outcome (Kmem×PageTable×PageTable×Bool) :=
  let d := declarations k old i e
  (mappages d.1 new (i*pgsize) pgsize d.2.2.ppn d.2.2.toPerm).bind fun
    | (k',new',true) => .next (k',d.2.1,new',true)
    | (k',new',false) => copyUndo k' d.2.1 new' i

/-- The loop of uvmcopy over n pages from page i on. -/
def copyLoop (k : Kmem) (old new : PageTable) (i : ℕ) :
    ℕ→Outcome (Kmem×PageTable×PageTable×Bool)
  | 0 => .next (k,old,new,true)
  | n+1 =>
    (walk old i).bind fun
      | none => .panic "uvmcopy: pte should exist"
      | some none => .panic "uvmcopy: page not present"
      | some (some e) =>
        (copyPage k old new i e).bind fun
          | (k',old',new',true) => copyLoop k' old' new' (i+1) n
          | (k',old',new',false) => .next (k',old',new',false)

/-- uvmcopy of kernel/vm.c; false stands for the result -1. -/
def uvmcopy (k : Kmem) (old new : PageTable) (sz : ℕ) : Outcome (Kmem×PageTable×PageTable×Bool) :=
  copyLoop k old new 0 ((sz+pgsize-1)/pgsize)

/-- The memory that fork of kernel/proc.c allocates, shares and gives back. -/
def fork (s : VmSys) (p : Slot) (q : VmProc) : Outcome VmSys :=
  match freeSlot s with
  | none => .next s
  | some np =>
    (allocproc s.kmem).bind fun
      | (k1,none) => .next {s with kmem := k1}
      | (k1,some (page,pt)) =>
        (uvmcopy k1 q.pagetable pt q.sz).bind fun
          | (k2,old,new,false) =>
            (freeproc k2 page new 0).bind fun k3 => .next (s.set k3 p (some {q with pagetable := old}))
          | (k2,old,new,true) =>
            .next ((s.set k2 p (some {q with pagetable := old})).set k2 np
              (some ⟨new,q.sz,page,.running,q.ro⟩))

/-- A step of the memory system. Only fork adds to a count. -/
def step (s : VmSys) : Action→Outcome VmSys
  | .fork p =>
    match s.proc p with
    | none => .blocked
    | some q => if q.phase=.running then fork s p q else .blocked
  | a => VmMachine.step .cow s a

/-- A process that forks maps no page whose count is the largest int. -/
def NoOverflow (s : VmSys) : Action→Prop
  | .fork p => ∀ q v e,s.proc p=some q → v<pageCount q.sz → lookup q.pagetable v=some e →
      s.kmem.refCnt e.ppn<2^31-1
  | _ => True

section Agreement

variable {k : Kmem} {old new : PageTable} {own : ℕ→ℕ} {n i : ℕ} {e : Pte} {s t : VmSys} {p : Slot}
  {q : VmProc}

lemma int_eq {x : ℤ} (hlo : 0≤x) (hhi : x<2^31) : int x=x :=
  Int.bmod_eq_of_le (by omega) (by omega)

lemma declarations_eq (hlo : 0≤k.refCnt e.ppn) (hhi : k.refCnt e.ppn<2^31-1) :
    declarations k old i e=AddressSpace.declarations k old i e := by
  rw [declarations,AddressSpace.declarations,int_eq (by omega) (by omega)]

lemma copyPage_eq (hlo : 0≤k.refCnt e.ppn) (hhi : k.refCnt e.ppn<2^31-1) :
    copyPage k old new i e=AddressSpace.copyPage .cow k old new i e := by
  rw [copyPage,declarations_eq hlo hhi]
  rfl

lemma counts_nonneg {own : ℕ→ℕ} (h : KmemInv k own) (f : ℕ) : 0≤k.refCnt f :=
  (Int.natCast_nonneg (own f)).trans (h.owned f)

/-- The loops agree if no count of the pages ahead is the largest int. -/
lemma copyLoop_eq {c : ℕ} (h : Forking .cow k old new own n i) (hc : i+c=n)
    (hlow : ∀ v e,i≤v → v<n → lookup old v=some e → k.refCnt e.ppn<2^31-1) :
    copyLoop k old new i c=AddressSpace.copyLoop .cow k old new i c := by
  obtain ⟨htrap,hmax,_⟩ := trapframe_val
  have hbound := h.parent.bound
  induction c generalizing k old new i with
  | zero => rfl
  | succ c ih =>
    obtain ⟨e,he⟩ := h.parent.pte (v:=i) (by omega)
    have hwalk : walk old i=.next (some (some e)) := by
      rw [walk,if_neg (by omega),cell_of_lookup he]
    obtain ⟨k1,old1,new1,ok,hrun,-,-,hok⟩ := copyPage_spec h (by omega) he
    have hpage : copyPage k old new i e=_ := copyPage_eq (counts_nonneg h.parent.kmem _)
      (hlow i e (Nat.le_refl i) (by omega) he)
    simp only [copyLoop,AddressSpace.copyLoop,hwalk,hpage,hrun,bind_next]
    cases ok with
    | false => rfl
    | true =>
      refine ih hok.1 (by omega) (fun v e' hv hvn he' => ?_)
      obtain ⟨hcount,-,-,hlook⟩ := copyPage_counts h (by omega) he hrun
      rw [hlook v (by omega) (by omega)] at he'
      have hne : e'.ppn≠e.ppn := by
        intro heq
        have hvi := h.parent.injective v i e' e (by omega) (by omega) he' he heq
        omega
      rw [hcount _ hne (leafs_pos (by omega) he')]
      exact hlow v e' (by omega) hvn he'

lemma fork_eq (h : VmInv .cow s) (hp : s.proc p=some q)
    (hlow : ∀ v e,v<pageCount q.sz → lookup q.pagetable v=some e → s.kmem.refCnt e.ppn<2^31-1) :
    fork s p q=VmMachine.fork .cow s p q := by
  have hbound := (h.space p q hp).bound
  rw [fork,VmMachine.fork]
  cases freeSlot s with
  | none => rfl
  | some np =>
    obtain ⟨k1,r,halloc,-,hcase⟩ := allocproc_spec h.kmem
    rw [halloc]
    dsimp only [bind_next]
    cases r with
    | none => rfl
    | some r =>
      obtain ⟨page,pt⟩ := r
      obtain ⟨hinv,-,-,hleafs,hpage,htags⟩ := hcase
      have hcopy : uvmcopy k1 q.pagetable pt q.sz=AddressSpace.uvmcopy .cow k1 q.pagetable pt q.sz := by
        rw [uvmcopy,AddressSpace.uvmcopy,pages_of_size (h.small p q hp)]
        refine copyLoop_eq (h.forking_start hp hinv hleafs hpage htags) (Nat.zero_add _)
          fun v e _ hv he => ?_
        have hpos := leafs_pos (v:=v) (by omega) he
        rw [allocproc_count (p:=e.ppn) h.kmem (by rw [owners_eq hp]; simp only [Pi.add_apply]; omega)
          halloc]
        exact hlow v e hv he
      exact congrArg (Outcome.bind · _) hcopy

/-- A step that meets the condition is a step with counts that do not wrap. -/
lemma step_eq {a : Action} (h : VmInv .cow s) (hok : NoOverflow s a) :
    step s a=VmMachine.step .cow s a := by
  cases a with
  | fork p =>
    simp only [step,VmMachine.step,actor]
    cases hp : s.proc p with
    | none => rfl
    | some q =>
      dsimp only
      split_ifs
      · exact fork_eq h hp fun v e hv he => hok q v e hp hv he
      · rfl
  | _ => rfl

/-- A run whose steps meet the condition is a run with counts that do not wrap. -/
lemma run_eq {as : List Action} (h : VmInv .cow s) (hg : Guarded step NoOverflow s as)
    (hrun : run step s as=.next t) : run (VmMachine.step .cow) s as=.next t := by
  induction as generalizing s with
  | nil => exact hrun
  | cons a as ih =>
    obtain ⟨u,hu,hrest⟩ := run_cons_next.mp hrun
    have hstep := hu
    rw [step_eq h hg.1] at hstep
    exact run_cons_next.mpr ⟨u,hstep,ih (sound_of_step h hstep).inv (hg.2 u hu) hrest⟩

lemma vmInv_of_run {first text n : ℕ} {as : List Action} (hboot : boot first text n=.next s)
    (hoom : s.kmem.oom=false) (hg : Guarded step NoOverflow s as) (hrun : run step s as=.next t) :
    VmInv .cow t := by
  have hinv := (boot_spec hboot hoom).inv .cow
  exact vmInv_run hinv (run_eq hinv hg hrun)

end Agreement

section Results

variable {s0 s : VmSys} {as : List Action}

/-- In every state that is reached without an overflow no page is on the free list
twice, a free page has the count 0, and the count of a page covers its user
mappings and its kernel owners. -/
theorem refCnt_covers_references (first text n : ℕ) (as : List Action)
    (hboot : boot first text n=.next s0) (hoom : s0.kmem.oom=false)
    (hg : Guarded step NoOverflow s0 as) (hrun : run step s0 as=.next s) :
    s.kmem.freelist.Nodup ∧ (∀ f,f∈s.kmem.freelist → s.kmem.refCnt f=0) ∧
      ∀ f,((userMappings s f+kernelOwners s f : ℕ) : ℤ)≤ s.kmem.refCnt f := by
  have hinv := vmInv_of_run hboot hoom hg hrun
  refine ⟨hinv.kmem.nodup,hinv.kmem.free,fun f => ?_⟩
  have hcover := owners_cover hinv f
  have howned := hinv.kmem.owned f
  omega

/-- In every state that is reached without an overflow by exec, fork, sbrk, stores
that fault, copies, exit and wait, whichever allocations fail, each process has the
shape above; every enabled operation runs to its end; and the kernel stops only
when init exits or a store misses the memory of its process. -/
theorem addressSpaces_keep_shape (first text n : ℕ) (as : List Action)
    (hboot : boot first text n=.next s0) (hoom : s0.kmem.oom=false)
    (hg : Guarded step NoOverflow s0 as) (hrun : run step s0 as=.next s) :
    (∀ p q,s.proc p=some q → Shape q) ∧
      (∀ a,Enabled s a → NoOverflow s a → ∃ t,step s a=.next t) ∧
      ∀ a msg,NoOverflow s a → step s a=.panic msg → Excused s a msg := by
  have hinv := vmInv_of_run hboot hoom hg hrun
  refine ⟨fun p q hp => shape_of_space (hinv.space p q hp) (hinv.trapped p q hp),
    fun a ha hok => ?_,fun a msg hok hstep => step_excused hinv ?_⟩
  · rw [step_eq hinv hok]
    exact step_enabled hinv ha
  · rw [← step_eq hinv hok]
    exact hstep

/-- Executable form of NoOverflow. -/
def noOverflow (s : VmSys) : Action→Bool
  | .fork p => (s.proc p).all fun q => (List.range (pageCount q.sz)).all fun v =>
      (lookup q.pagetable v).all fun e => decide (s.kmem.refCnt e.ppn<2^31-1)
  | _ => true

lemma noOverflow_sound (s : VmSys) (a : Action) (h : noOverflow s a=true) : NoOverflow s a := by
  cases a with
  | fork p =>
    intro q v e hp hv he
    simp only [noOverflow,hp,Option.all_some,List.all_eq_true,List.mem_range] at h
    have hv' := h v hv
    rw [he,Option.all_some,decide_eq_true_eq] at hv'
    exact hv'
  | _ => trivial

/-- A boot with n pages, and a run from there whose steps meet the condition. -/
lemma exists_guarded_run (n m : ℕ) (as : List Action) {α : Type*} {f : VmSys→α} {x : α}
    (h : ((boot (physTop-n) 0 m).bind fun s0 => (run step s0 as).bind fun s =>
      .next ((s0.kmem.oom,guardedCheck step noOverflow s0 as),f s)).state?=some ((false,true),x)) :
    ∃ s0 s,boot (physTop-n) 0 m=.next s0 ∧ s0.kmem.oom=false ∧ Guarded step NoOverflow s0 as ∧
      run step s0 as=.next s ∧ f s=x := by
  have hall := eq_next_of_state? h
  obtain ⟨s0,hboot,hall⟩ := bind_eq_next.mp hall
  obtain ⟨s,hrun,hall⟩ := bind_eq_next.mp hall
  simp only [Outcome.next.injEq,Prod.mk.injEq] at hall
  obtain ⟨⟨hoom,hcheck⟩,hx⟩ := hall
  exact ⟨s0,s,hboot,hoom,guarded_of_check noOverflow_sound hcheck,hrun,hx⟩

/-- A run in which two processes share pages, part with them and die. -/
def sharingRun : List Action :=
  [.kernelAlloc,.exec 0 ExecImage.textProgram [[97,98]],.fork 0,.store 1 8200 7,.copyout 0 8192 [1,2],
   .sbrk 1 4096,.fork 1,.exit 1,.teardown 1,.sbrk 2 (-8192),.kernelFree 0]

/-- The counts after this run. -/
theorem refCnt_covers_sharingRun :
    ∃ s0 s,boot (physTop-40) 0 1=.next s0 ∧ run step s0 sharingRun=.next s ∧
      s.kmem.freelist.Nodup ∧ (∀ f,f∈s.kmem.freelist → s.kmem.refCnt f=0) ∧
      ∀ f,((userMappings s f+kernelOwners s f : ℕ) : ℤ)≤ s.kmem.refCnt f := by
  obtain ⟨s0,s,hboot,hoom,hg,hrun,-⟩ := exists_guarded_run 40 1 sharingRun
    (f:=fun s => s.kmem.oom) (x:=false) (by decide +kernel)
  exact ⟨s0,s,hboot,hrun,refCnt_covers_references _ _ _ _ hboot hoom hg hrun⟩

/-- A run that shrinks memory to a size inside a page and then asks for more
than there is, in sbrk, exec and fork. -/
def scarceRun : List Action :=
  [.exec 0 ExecImage.textProgram [[97,98]],.fork 0,.store 1 8200 7,.sbrk 0 (-1),.sbrk 0 0x7fffffff,
   .exec 1 ExecImage.textProgram [[97]],.fork 1,.fork 0,.exit 1,.teardown 1]

/-- The shapes after this run, in which allocations fail. -/
theorem scarceRun_keeps_shape : ∃ s0 s,boot (physTop-22) 0 1=.next s0 ∧
    run step s0 scarceRun=.next s ∧ s.kmem.oom=true ∧ ∀ p q,s.proc p=some q → Shape q := by
  obtain ⟨s0,s,hboot,hoom,hg,hrun,hfull⟩ := exists_guarded_run 22 1 scarceRun
    (f:=fun s => s.kmem.oom) (x:=true) (by decide +kernel)
  exact ⟨s0,s,hboot,hrun,hfull,(addressSpaces_keep_shape _ _ _ _ hboot hoom hg hrun).1⟩

end Results

section Starved

/-- A page table with one page-table page on each level. -/
def path (b c d : ℕ) (i j : PtIndex) (leaf : PtIndex→Option Pte) : PageTable :=
  ⟨b,update (fun _ => none) i (some ⟨c,update (fun _ => none) j (some ⟨d,leaf⟩)⟩)⟩

variable {k : Kmem} {a b c d x : ℕ} {i j l : PtIndex} {leaf : PtIndex→Option Pte}

@[simp] lemma cell_path : cell (path b c d i j leaf) (i,j,l)=some (leaf l) := by
  simp only [cell,path,update_self,Option.bind_some,Option.map_some]

@[simp] lemma put_path (e : Option Pte) :
    put (path b c d i j leaf) (i,j,l) e=path b c d i j (update leaf l e) := by
  simp only [put,path,update_self,Node.set,update_idem]

lemma lookup_path {v : ℕ} (h : px v=(i,j,l)) : lookup (path b c d i j leaf) v=leaf l := by
  rw [lookup,RadixTree.get,h,cell_path,Option.join_some]

lemma freeEntries_none {α : Type*} (free : Kmem→α→Outcome Kmem) {entry : PtIndex→Option α}
    (k : Kmem) (l : List PtIndex) (h : ∀ i∈l,entry i=none) : freeEntries free entry k l=.next k := by
  induction l with
  | nil => rfl
  | cons i l ih =>
    rw [freeEntries,h i List.mem_cons_self,freeEntry,bind_next]
    exact ih fun j hj => h j (List.mem_cons_of_mem i hj)

lemma freeEntries_one {α : Type*} (free : Kmem→α→Outcome Kmem) (k : Kmem) (y : α)
    (l : List PtIndex) (hl : l.Nodup) (hi : i∈l) :
    freeEntries free (update (fun _ => none) i (some y)) k l=free k y := by
  induction l with
  | nil => exact absurd hi List.not_mem_nil
  | cons j l ih =>
    obtain ⟨hj,hrest⟩ := List.nodup_cons.mp hl
    rw [freeEntries]
    by_cases hij : i=j
    · subst hij
      rw [update_self,freeEntry]
      have hnone : ∀ k',freeEntries free (update (fun _ => none) i (some y)) k' l=.next k' := by
        intro k'
        refine freeEntries_none free k' l fun j' hj' => update_of_ne ?_ ..
        rintro rfl
        exact hj hj'
      cases hfree : free k y with
      | next k' => rw [bind_next,hnone]
      | panic | blocked => rfl
    · rw [update_of_ne (Ne.symm hij),freeEntry,bind_next]
      exact ih hrest ((List.mem_cons.mp hi).resolve_left hij)

/-- freewalk on such a table after its mappings are gone. -/
lemma freewalk_path : freewalk k (path b c d i j fun _ => none)=
    (kfree k d).bind fun k1 => (kfree k1 c).bind fun k2 => kfree k2 b := by
  have hone : ∀ {α : Type} (free : Kmem→α→Outcome Kmem) k tag i y,
      freeNode free k ⟨tag,update (fun _ => none) i (some y)⟩=(free k y).bind fun k' => kfree k' tag := by
    intro α free k tag i y
    rw [freeNode,freeEntries_one _ _ _ _ (List.nodup_finRange 512) (List.mem_finRange i)]
  have hleaf : freeNode freePte k ⟨d,fun _ => none⟩=kfree k d := by
    rw [freeNode,freeEntries_none _ _ _ fun _ _ => rfl,bind_next]
  rw [freewalk,path,hone,hone,hleaf]
  cases kfree k d <;> rfl

/-- kfree of a page in range that nobody shares. -/
lemma kfree_last (hlo : k.first≤x) (hhi : x<physTop) (hc : k.refCnt x≤1) :
    kfree k x=.next {k with
      refCnt := update k.refCnt x 0
      mem := update k.mem x (fill 1)
      freelist := x::k.freelist} := by
  rw [kfree,if_neg (by omega),if_pos hc]
  rfl

lemma kalloc_cons {l : List ℕ} (h : k.freelist=x::l) : kalloc k=(some x,{k with
    freelist := l
    refCnt := update k.refCnt x 1
    mem := update k.mem x (fill 5)}) := by
  rw [kalloc,h]
  rfl

section Walks

variable {pt pt' : PageTable} {k' : Kmem} {v ppn : ℕ} {perm : Perm}

lemma mappages_one (k : Kmem) (pt : PageTable) (v ppn : ℕ) (perm : Perm) :
    mappages k pt (v*pgsize) pgsize ppn perm=mapLoop k pt perm v ppn 1 := by
  have hdiv : v*pgsize/pgsize=v := Nat.mul_div_cancel v (by decide)
  have hone : (v*pgsize+pgsize-1)/pgsize-v*pgsize/pgsize+1=1 := by
    simp only [pgsize]
    omega
  rw [mappages,if_neg (by decide),hone,hdiv]

lemma mappages_page (hv : v< maxPages) (hw : walkAlloc k pt v=(k',pt',true))
    (hl : lookup pt' v=none) : mappages k pt (v*pgsize) pgsize ppn perm=
      .next (k',put pt' (px v) (some ⟨perm,ppn⟩),true) := by
  rw [mappages_one,mapLoop,if_neg (by omega),hw]
  simp only [hl,mapLoop]

lemma mappages_page_failed (hv : v< maxPages) (hw : walkAlloc k pt v=(k',pt',false)) :
    mappages k pt (v*pgsize) pgsize ppn perm=.next (k',pt',false) := by
  rw [mappages_one,mapLoop,if_neg (by omega),hw]

lemma walkAlloc_empty {l : List ℕ} (h : k.freelist=c::d::l) :
    walkAlloc k (.empty b) v=({k with
      freelist := l
      refCnt := update (update k.refCnt c 1) d 1
      mem := update (update k.mem c (fill 5)) d (fill 5)},
      path b c d (px v).1 (px v).2.1 fun _ => none,true) := by
  simp only [walkAlloc,Node.empty,walkMid,kalloc,h,setCounter,Kmem.store,addLeaf,addMid,Node.set,
    update_idem,path]

lemma walkAlloc_path (hi : (px v).1=i) (hj : (px v).2.1=j) :
    walkAlloc k (path b c d i j leaf) v=(k,path b c d i j leaf,true) := by
  simp only [walkAlloc,path,hi,hj,update_self,walkMid]

lemma walkAlloc_starved (hi : (px v).1≠i) (h : k.freelist=[]) :
    walkAlloc k (path b c d i j leaf) v=(k.failed,path b c d i j leaf,false) := by
  simp only [walkAlloc,path,update_of_ne hi,kalloc,h]

end Walks

/-- allocproc with exactly four free pages takes all of them. -/
lemma allocproc_four (h : k.freelist=[a,b,c,d]) : allocproc k=.next ({k with
    freelist := []
    refCnt := update (update (update (update k.refCnt a 1) b 1) c 1) d 1
    mem := update (update (update (update k.mem a (fill 5)) b (fill 5)) c (fill 5)) d (fill 5)},
    some (a,path b c d 255 511 (update (update (fun _ => none) 511
      (some ⟨⟨true,false,true,false,false⟩,k.text⟩)) 510
      (some ⟨⟨true,true,false,false,false⟩,a⟩)))) := by
  have htramp : px trampoline=(255,511,511) := by decide
  have htrap : px trapframe=(255,511,510) := by decide
  rw [allocproc,kalloc_cons h]
  dsimp only
  rw [procPagetable,uvmcreate,kalloc_cons rfl]
  dsimp only
  rw [mappages_page (by decide) (walkAlloc_empty rfl) (lookup_path htramp),
    bind_next,htramp]
  dsimp only
  rw [put_path,mappages_page (by decide) (walkAlloc_path (by rw [htrap]) (by rw [htrap]))
    (lookup_path htrap),bind_next,htrap,put_path]
  rfl

lemma unmap_path {v : ℕ} {e : Pte} (hv : v< maxPages) (h : px v=(i,j,l)) (he : leaf l=some e)
    (hbare : e.bare=false) : uvmunmap k (path b c d i j leaf) (v*pgsize) 1 false=
      .next (k,path b c d i j (update leaf l none)) := by
  have hdiv : v*pgsize/pgsize=v := Nat.mul_div_cancel v (by decide)
  have hmod : v*pgsize%pgsize=0 := Nat.mul_mod_left v pgsize
  rw [uvmunmap,if_neg (by simp [hmod]),hdiv,unmapLoop,walk,if_neg (by omega),h,cell_path,he,bind_next]
  simp only [hbare,Bool.false_eq_true,if_false,bind_next,put_path,unmapLoop]

lemma put_self {t : PageTable} {key : Key PtIndex} {o : Option Pte} (h : cell t key=some o) :
    put t key o=t := by
  unfold cell at h
  unfold put
  cases hm : t.entry key.1 with
  | none => rfl
  | some m =>
    cases hl : m.entry key.2.1 with
    | none => simp only [hl]
    | some leaf =>
      simp only [hm,hl,Option.bind_some,Option.map_some,Option.some.injEq] at h
      simp only [hl,←h,Node.set,update_eq_self]
      rw [show some (Node.mk leaf.tag leaf.entry)=m.entry key.2.1 from hl.symm,update_eq_self,
        show some (Node.mk m.tag m.entry)=t.entry key.1 from hm.symm,update_eq_self]

lemma marked_eq {e : Pte} (hc : e.cow=true) (hw : e.w=false) :
    {e with cow := true,w := false}=e := by
  obtain ⟨⟨r,w,x,u,cow⟩,ppn⟩ := e
  cases hc
  cases hw
  rfl

/-- freeproc of a process without memory gives four pages back. -/
lemma freeproc_path {x y : Pte} (hx : x.bare=false) (hy : y.bare=false)
    (hnd : [a,b,c,d].Nodup) (hrange : ∀ f∈[a,b,c,d],k.first≤f ∧ f<physTop)
    (hlast : ∀ f∈[a,b,c,d],k.refCnt f≤1) :
    freeproc k a (path b c d 255 511 (update (update (fun _ => none) 511 (some x)) 510 (some y))) 0=
      .next {k with
        freelist := b::c::d::a::k.freelist
        refCnt := update (update (update (update k.refCnt a 0) d 0) c 0) b 0
        mem := update (update (update (update k.mem a (fill 1)) d (fill 1)) c (fill 1)) b
          (fill 1)} := by
  have htramp : px trampoline=(255,511,511) := by decide
  have htrap : px trapframe=(255,511,510) := by decide
  have hgone : update (update (update (update (fun _ : PtIndex => none) 511 (some x)) 510 (some y))
      511 none) 510 none=fun _ => none := by
    funext l
    simp only [update_apply]
    grind
  simp only [List.nodup_cons,List.mem_cons,List.not_mem_nil,or_false,not_or,not_false_eq_true,
    List.nodup_nil,and_true] at hnd
  simp only [List.mem_cons,List.not_mem_nil,or_false,forall_eq_or_imp,forall_eq] at hrange hlast
  rw [freeproc,kfree_last hrange.1.1 hrange.1.2 hlast.1,bind_next,procFreepagetable,
    unmap_path (by decide) htramp (by rw [update_of_ne (by decide),update_self]) hx,bind_next,
    unmap_path (by decide) htrap (by rw [update_of_ne (by decide),update_self]) hy,bind_next,
    hgone,uvmfree,if_neg (Nat.lt_irrefl 0),bind_next,freewalk_path]
  rw [kfree_last (by exact hrange.2.2.2.1) hrange.2.2.2.2 (by grind [update_apply]),bind_next,
    kfree_last (by exact hrange.2.2.1.1) hrange.2.2.1.2 (by grind [update_apply]),bind_next,
    kfree_last (by exact hrange.2.1.1) hrange.2.1.2 (by grind [update_apply])]

/-- A process with one page, which is marked COW already, and four free pages. -/
structure Starved (s : VmSys) (p : Slot) (q : VmProc) (e : Pte) (l : List ℕ) : Prop where
  proc : s.proc p=some q
  running : q.phase=.running
  size : q.sz=pgsize
  slot : (freeSlot s).isSome
  page : cell q.pagetable (px 0)=some (some e)
  marked : e.cow=true ∧ e.w=false
  free : s.kmem.freelist=l
  nodup : l.Nodup
  apart : e.ppn∉l
  unused : ∀ x∈l,s.kmem.first≤x ∧ x<physTop ∧ s.kmem.refCnt x=0 ∧ s.kmem.mem x=fill 1
  oom : s.kmem.oom=true

/-- The state with another free list and another count of page f. -/
def recount (s : VmSys) (f : ℕ) (n : ℤ) (l : List ℕ) : VmSys :=
  {s with kmem := {s.kmem with
    freelist := l
    refCnt := update s.kmem.refCnt f n}}

variable {s : VmSys} {p : Slot} {q : VmProc} {e : Pte}

/-- fork without memory for the child's page: the count of the parent's page goes
up, and the free pages come back in another order. -/
lemma fork_starved (h : Starved s p q e [a,b,c,d]) :
    step s (.fork p)=.next (recount s e.ppn (int (s.kmem.refCnt e.ppn+1)) [b,c,d,a]) := by
  obtain ⟨np,hslot⟩ := Option.isSome_iff_exists.mp h.slot
  have hnd := h.nodup
  have hap := h.apart
  have hun := h.unused
  simp only [List.nodup_cons,List.mem_cons,List.not_mem_nil,or_false,not_or,not_false_eq_true,
    List.nodup_nil,and_true] at hnd hap
  simp only [List.mem_cons,List.not_mem_nil,or_false,forall_eq_or_imp,forall_eq] at hun
  simp only [step,h.proc,if_pos h.running,fork,hslot,allocproc_four h.free,bind_next]
  have hone : (q.sz+pgsize-1)/pgsize=0+1 := by
    rw [h.size]
    rfl
  have hwalk : walk q.pagetable 0=.next (some (some e)) := by
    rw [walk,if_neg (by decide),h.page]
  rw [uvmcopy,hone,copyLoop,hwalk,bind_next]
  dsimp only
  rw [copyPage,declarations]
  dsimp only
  rw [marked_eq h.marked.1 h.marked.2,put_self h.page,
    mappages_page_failed (v:=0) (by decide) (walkAlloc_starved (by decide) rfl),bind_next]
  simp only [copyUndo,uvmunmap,unmapLoop,Nat.zero_mod,ne_eq,not_true_eq_false,if_false,bind_next]
  rw [freeproc_path rfl rfl h.nodup (fun f hf => ?_) (fun f hf => ?_),bind_next]
  · change Outcome.next (s.set _ p (some q))=_
    rw [set_same h.proc]
    have hcounts : update (update (update (update (update (update (update (update (update
        s.kmem.refCnt a 1) b 1) c 1) d 1) e.ppn
        (int (update (update (update (update s.kmem.refCnt a 1) b 1) c 1) d 1 e.ppn+1)))
        a 0) d 0) c 0) b 0=update s.kmem.refCnt e.ppn (int (s.kmem.refCnt e.ppn+1)) := by
      funext f
      simp only [update_apply]
      grind
    have hmem : update (update (update (update (update (update (update (update
        s.kmem.mem a (fill 5)) b (fill 5)) c (fill 5)) d (fill 5))
        a (fill 1)) d (fill 1)) c (fill 1)) b (fill 1)=s.kmem.mem := by
      funext f
      simp only [update_apply]
      grind
    simp only [recount,Kmem.failed,hcounts,hmem,h.oom]
  · exact ⟨(h.unused f hf).1,(h.unused f hf).2.1⟩
  · simp only [Kmem.failed,update_apply]
    grind

lemma Starved.next (h : Starved s p q e [a,b,c,d]) (n : ℤ) :
    Starved (recount s e.ppn n [b,c,d,a]) p q e [b,c,d,a] := by
  have hperm : [b,c,d,a].Perm [a,b,c,d] := @List.perm_append_comm _ [b,c,d] [a]
  refine ⟨h.proc,h.running,h.size,h.slot,h.page,h.marked,rfl,hperm.nodup_iff.mpr h.nodup,
    fun hmem => h.apart (hperm.mem_iff.mp hmem),fun x hx => ?_,h.oom⟩
  have hx' := hperm.mem_iff.mp hx
  obtain ⟨hlo,hhi,hcount,hmem⟩ := h.unused x hx'
  refine ⟨hlo,hhi,?_,hmem⟩
  have hne : x≠e.ppn := fun heq => h.apart (heq ▸ hx')
  exact (update_of_ne hne ..).trans hcount

/-- n such forks add n to the count, modulo the width of an int. -/
lemma run_starved (n : ℕ) (h : Starved s p q e [a,b,c,d])
    (hint : int (s.kmem.refCnt e.ppn)=s.kmem.refCnt e.ppn) :
    run step s (List.replicate n (.fork p))=
      .next (recount s e.ppn (int (s.kmem.refCnt e.ppn+n)) ([a,b,c,d].rotate n)) := by
  induction n generalizing s a b c d with
  | zero =>
    rw [List.replicate_zero,run_nil,Int.natCast_zero,add_zero,hint,List.rotate_zero,recount,
      update_eq_self,←h.free]
  | succ n ih =>
    have hself : (recount s e.ppn (int (s.kmem.refCnt e.ppn+1)) [b,c,d,a]).kmem.refCnt e.ppn=
        int (s.kmem.refCnt e.ppn+1) := update_self ..
    rw [List.replicate_succ,run_cons,fork_starved h,bind_next,
      ih (h.next _) (by rw [hself]; exact Int.bmod_bmod),hself,List.rotate_cons_succ]
    simp only [recount,update_idem,int,Int.bmod_add_bmod,List.cons_append,List.nil_append]
    rw [add_assoc,add_comm (1 : ℤ),Int.natCast_succ]

end Starved

/-- The page that the first process maps at address 0. -/
def firstPage : ℕ := physTop-5

/-- The first process has a child, and then runs out of memory in a fork. -/
def crowding : List Action := [.fork 0,.fork 0]

/-- The free pages after that. -/
def spare : List ℕ := [physTop-15,physTop-16,physTop-17,physTop-14]

/-- As many more forks as an int can count, and then the actions as. -/
def overflowRun (as : List Action) : List Action :=
  crowding++(List.replicate (2^31-3) (.fork 0)++as)

/-- The child dies. -/
def childDies : List Action := [.exit 1,.teardown 1]

/-- Executable form of Starved for the first process and these pages. -/
def starves (s : VmSys) : Bool :=
  ((s.proc 0).any fun q => decide (q.phase=.running ∧ q.sz=pgsize ∧
    cell q.pagetable (px 0)=some (some ⟨⟨true,false,true,true,true⟩,firstPage⟩))) &&
  decide (s.kmem.freelist=spare ∧ (freeSlot s).isSome ∧ s.kmem.refCnt firstPage=3 ∧ s.kmem.oom=true) &&
  spare.all fun x => decide (s.kmem.first≤x ∧ s.kmem.refCnt x=0) &&
    (List.finRange pgsize).all fun i => s.kmem.mem x i==1

/-- With seventeen pages the forks after the second one find four pages free. -/
lemma crowding_starves : ∃ s0 s q e,boot (physTop-17) 0 0=.next s0 ∧ s0.kmem.oom=false ∧
    run step s0 crowding=.next s ∧ Starved s 0 q e spare ∧ e.ppn=firstPage ∧
    s.kmem.refCnt firstPage=3 := by
  obtain ⟨s0,s,hboot,hoom,-,hrun,hobs⟩ := exists_guarded_run 17 0 crowding
    (f:=starves) (x:=true) (by decide +kernel)
  simp only [starves,Bool.and_eq_true,decide_eq_true_eq,Option.any_eq_true] at hobs
  obtain ⟨⟨⟨q,hq,hq'⟩,hfree,hslot,hcount,hfull⟩,hunused⟩ := hobs
  refine ⟨s0,s,q,_,hboot,hoom,hrun,⟨hq,hq'.1,hq'.2.1,hslot,hq'.2.2,⟨rfl,rfl⟩,hfree,by decide,by decide,
    fun x hx => ?_,hfull⟩,rfl,hcount⟩
  have hx' := List.all_eq_true.mp hunused x hx
  rw [Bool.and_eq_true,decide_eq_true_eq,List.all_eq_true] at hx'
  have htop : ∀ x∈spare,x<physTop := by decide
  exact ⟨hx'.1.1,htop x hx,hx'.1.2,funext fun i => eq_of_beq (hx'.2 i (List.mem_finRange i))⟩

/-- What a run does after the overflow is what it does with the least int as the
count of the page. -/
lemma overflow_run (as : List Action) {α : Type*} {f : VmSys→α} {x : α}
    (h : ((boot (physTop-17) 0 0).bind fun s0 => (run step s0 crowding).bind fun s =>
      run step (recount s firstPage (-2^31) (spare.rotate 1)) as).state?.map f=some x) :
    ∃ s0 s,boot (physTop-17) 0 0=.next s0 ∧ s0.kmem.oom=false ∧
      run step s0 (overflowRun as)=.next s ∧ f s=x := by
  obtain ⟨s0,u,q,e,hboot,hoom,hrun,hstarved,hpage,hcount⟩ := crowding_starves
  obtain ⟨s,hs,hx⟩ := exists_of_state? h
  rw [hboot,bind_next,hrun,bind_next] at hs
  have hforks := run_starved (2^31-3) hstarved (by rw [hpage,hcount]; decide)
  have hlast : int (u.kmem.refCnt e.ppn+(2^31-3 : ℕ))=-2^31 := by
    rw [hpage,hcount]
    decide
  have hrotate : spare.rotate (2^31-3)=spare.rotate 1 := by
    rw [←List.rotate_mod]
    rfl
  rw [hlast,hpage] at hforks
  refine ⟨s0,s,hboot,hoom,?_,hx⟩
  rw [overflowRun,run_append,hrun,bind_next,run_append,hforks,bind_next]
  exact hrotate ▸ hs

/-- After the overflow kfree takes the page of a dying child for its last use: the
page is on the free list while the first process maps it. -/
theorem overflow_frees_mapped_page : ∃ s0 s q,boot (physTop-17) 0 0=.next s0 ∧
    s0.kmem.oom=false ∧ run step s0 (overflowRun childDies)=.next s ∧ s.proc 0=some q ∧
    frame q.pagetable 0=some firstPage ∧ firstPage∈s.kmem.freelist ∧
    s.kmem.refCnt firstPage=0 ∧ 0< userMappings s firstPage := by
  obtain ⟨s0,s,hboot,hoom,hrun,hobs⟩ := overflow_run childDies
    (f:=fun s => ((s.proc 0).map fun q => (q.sz,frame q.pagetable 0),
      decide (firstPage∈s.kmem.freelist),s.kmem.refCnt firstPage))
    (x:=(some (pgsize,some firstPage),true,0)) (by decide +kernel)
  simp only [Prod.mk.injEq,decide_eq_true_eq] at hobs
  obtain ⟨q,hq,hq'⟩ := Option.map_eq_some_iff.mp hobs.1
  simp only [Prod.mk.injEq] at hq'
  refine ⟨s0,s,q,hboot,hoom,hrun,hq,hq'.2,hobs.2.1,hobs.2.2,?_⟩
  have hmaps : 0< mappings q firstPage := by
    refine Finset.card_pos.mpr ⟨0,Finset.mem_filter.mpr ⟨Finset.mem_range.mpr (by decide),?_,hq'.2⟩⟩
    rw [hq'.1]
    decide
  have hle : (s.proc 0).elim 0 (fun q => mappings q firstPage)≤userMappings s firstPage :=
    Finset.single_le_sum (f:=fun p => (s.proc p).elim 0 fun q => mappings q firstPage)
      (fun _ _ => Nat.zero_le _) (Finset.mem_univ 0)
  rw [hq,Option.elim_some] at hle
  exact hmaps.trans_le hle

/-- When the first process grows then, it gets the page a second time. -/
theorem overflow_maps_page_twice : ∃ s0 s q,boot (physTop-17) 0 0=.next s0 ∧
    run step s0 (overflowRun (childDies++[.sbrk 0 24576]))=.next s ∧ s.proc 0=some q ∧
    6<pageCount q.sz ∧ frame q.pagetable 6=some firstPage ∧ frame q.pagetable 0=some firstPage ∧
    ¬Shape q := by
  obtain ⟨s0,s,hboot,-,hrun,hobs⟩ := overflow_run (childDies++[.sbrk 0 24576])
    (f:=fun s => (s.proc 0).map fun q => (q.sz,frame q.pagetable 6,frame q.pagetable 0))
    (x:=some (7*pgsize,some firstPage,some firstPage)) (by decide +kernel)
  obtain ⟨q,hq,hq'⟩ := Option.map_eq_some_iff.mp hobs
  simp only [Prod.mk.injEq] at hq'
  obtain ⟨hsz,hsix,hzero⟩ := hq'
  have hpages : pageCount q.sz=7 := by rw [hsz]; decide
  refine ⟨s0,s,q,hboot,hrun,hq,by omega,hsix,hzero,fun hshape => ?_⟩
  have heq := hshape.distinct 6 0 (by omega) (by omega) (hsix.trans hzero.symm)
  omega

end Xv6Riscv.IntCounters
