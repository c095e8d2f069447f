import Xv6Riscv.CopyBytes

/-!
# When copyout returns

copyout returns 0 or -1 unless handle_cowbit finds no free page for a COW page
that it has to copy; then the process exits inside it. Which of the three it is
can be read off before the call from the pages that the copy reaches, from their
COW marks and reference counts and from the number of free pages. Each copy of a
shared page uses up a page; the copy of a page whose count is 1 gives its old
page back.
-/

namespace Xv6Riscv.CopyReturns

open Function
open Transition RadixTree PageAllocator PageTables AddressSpace PrivateSpace SpaceOwnership
open CowSharing CopyBytes

def pagesOf (dstva len : ℕ) : List ℕ :=
  if len=0 then [] else List.range' (dstva/pgsize) ((dstva%pgsize+len-1)/pgsize+1)

/-- A page that copyout stores to: not page 0, user memory, with PTE_U. -/
def openPage (pt : PageTable) (v : ℕ) : Bool :=
  decide (v≠0 ∧ v<trapframe) && (lookup pt v).any fun e => e.u

def writable (pt : PageTable) (dstva len : ℕ) : Bool := (pagesOf dstva len).all (openPage pt)

def reached (pt : PageTable) (dstva len : ℕ) : List ℕ :=
  (pagesOf dstva len).takeWhile (openPage pt)

lemma pagesOf_cons {dstva len : ℕ} (hlen : 0<len) :
    pagesOf dstva len=dstva/pgsize::
      pagesOf ((dstva/pgsize+1)*pgsize) (len-min (pgsize-dstva%pgsize) len) := by
  have hpg : pgsize=4096 := rfl
  have hdiv : (dstva/pgsize+1)*pgsize/pgsize=dstva/pgsize+1 := Nat.mul_div_cancel _ (by omega)
  have hmod : (dstva/pgsize+1)*pgsize%pgsize=0 := Nat.mul_mod_left ..
  rw [pagesOf,if_neg (by omega),List.range'_succ,pagesOf,hdiv,hmod]
  by_cases hfit : len≤pgsize-dstva%pgsize
  · have hone : (dstva%pgsize+len-1)/pgsize=0 := by
      grind
    grind
  · have hrest : (0+(len-min (pgsize-dstva%pgsize) len)-1)/pgsize+1=
        (dstva%pgsize+len-1)/pgsize := by
      grind
    rw [if_neg (by omega),hrest]

section Budget

/-- What the copies of COW pages need and what there is. -/
@[ext]
structure Budget where
  uses : ℕ→Option Bool
  free : ℕ

/-- Copy one page if it is marked COW; none if there is no free page. -/
def Budget.breakPage (m : Budget) (v : ℕ) : Option Budget :=
  match m.uses v with
  | none => some m
  | some shared =>
    if m.free=0 then none
    else some ⟨update m.uses v none,m.free-if shared then 1 else 0⟩

def Budget.breakPages (m : Budget) : List ℕ→Option Budget
  | [] => some m
  | v::vs => (m.breakPage v).bind fun m' => m'.breakPages vs

def budget (k : Kmem) (pt : PageTable) : Budget where
  uses := fun v => if v<trapframe then
    (lookup pt v).bind fun e => if e.cow then some (decide (1<k.refCnt e.ppn)) else none
    else none
  free := k.freelist.length

variable {k k' : Kmem} {pt pt' : PageTable} {own : ℕ→ℕ} {n v : ℕ} {e : Pte} {ok : Bool}

lemma budget_store (k : Kmem) (pt : PageTable) (p : ℕ) (d : Page) :
    budget (k.store p d) pt=budget k pt := rfl

lemma uses_of_lookup (hv : v<trapframe) (he : lookup pt v=some e) :
    (budget k pt).uses v=if e.cow then some (decide (1<k.refCnt e.ppn)) else none := by
  grind [budget]

lemma uses_after (h : SpaceInv k pt own n) (hv : v<trapframe) (he : lookup pt v=some e)
    {p : ℕ} (hp : p∈k.freelist) {e' : Pte} (he' : e'.cow=false)
    (hcount : ∀ q,q≠p→q≠e.ppn→k'.refCnt q=k.refCnt q) :
    (budget k' (put pt (px v) (some e'))).uses=update (budget k pt).uses v none := by
  obtain ⟨htrap,hmax,_⟩ := trapframe_val
  have hlook : ∀ u,u<2^27→lookup (put pt (px v) (some e')) u=if u=v then some e' else lookup pt u :=
    fun u hu => lookup_put (by omega) (cell_of_lookup he) _ hu
  funext u
  by_cases huv : u=v
  · grind [uses_of_lookup]
  · rw [update_of_ne huv]
    by_cases hu : u<trapframe
    · have hsame : lookup (put pt (px v) (some e')) u=lookup pt u :=
        (hlook u (by omega)).trans (if_neg huv)
      cases hf : lookup pt u with
      | none => simp only [budget,if_pos hu,hsame,hf,Option.bind_none]
      | some f =>
        have hpos := leafs_pos hu hf
        have hfp : f.ppn≠p := by grind [h.kmem.free_not_owned,Pi.add_apply]
        have hfe : f.ppn≠e.ppn := fun heq => huv (h.injective u v f e hu hv hf he heq)
        rw [uses_of_lookup hu (hsame.trans hf),uses_of_lookup hu hf,hcount f.ppn hfp hfe]
    · simp only [budget,if_neg hu]

lemma handleCowbit_budget (h : SpaceInv k pt own n) (hv : v<trapframe)
    (he : lookup pt v=some e) (hrun : handleCowbit k pt v e=.next (k',pt',ok)) :
    (budget k pt).breakPage v=if ok then some (budget k' pt') else none := by
  rw [Budget.breakPage,uses_of_lookup hv he]
  rw [handleCowbit] at hrun
  cases hcow : e.cow with
  | false =>
    rw [hcow] at hrun
    cases hrun
    rfl
  | true =>
    rw [hcow,if_pos rfl,breakCow,kalloc] at hrun
    cases hfree : k.freelist with
    | nil =>
      rw [hfree] at hrun
      cases hrun
      simp [budget,hfree]
    | cons p rest =>
      have hmem : p∈k.freelist := by
        rw [hfree]
        exact List.mem_cons_self
      have hpos := leafs_pos hv he
      have hrange := h.kmem.ownedRange e.ppn (by simp only [Pi.add_apply]; omega)
      have hne : e.ppn≠p := by
        intro heq
        have hzero := h.kmem.free_not_owned hmem
        grind [Pi.add_apply]
      rw [hfree] at hrun
      dsimp only at hrun
      obtain ⟨k1,hk1,hnext⟩ := bind_eq_next.mp hrun
      cases hnext
      have hlen : (budget k pt).free≠0 := by
        simp [budget,hfree]
      have huses : ∀ k1 : Kmem,(∀ q,q≠p→q≠e.ppn→k1.refCnt q=k.refCnt q)→
          (budget k1 (put pt (px v) (some {e with w := true,cow := false,ppn := p}))).uses=
            update (budget k pt).uses v none :=
        fun _ hcount => uses_after h hv he hmem rfl hcount
      have hother : ∀ q,q≠p→
          (setCounter ({k with freelist := rest}.store p (fill 5)) p).refCnt q=k.refCnt q :=
        fun q hq => update_of_ne hq ..
      rw [kfree,if_neg (by simpa [Kmem.store,setCounter] using hrange)] at hk1
      simp only [if_true,if_neg hlen,Option.some.injEq]
      split at hk1
      · next hlast =>
        have hone : ¬1<k.refCnt e.ppn := by
          rw [←hother e.ppn hne]
          exact not_lt_of_ge hlast
        cases hk1
        refine Budget.ext ?_ ?_
        · refine (huses _ fun q hqp hqe => ?_).symm
          exact (update_of_ne hqe ..).trans (hother q hqp)
        · simp [budget,hfree,hone,setCounter,Kmem.store]
      · next hshared =>
        have hmany : 1<k.refCnt e.ppn := by
          rw [←hother e.ppn hne]
          exact lt_of_not_ge hshared
        cases hk1
        refine Budget.ext ?_ ?_
        · refine (huses _ fun q hqp hqe => ?_).symm
          exact (update_of_ne hqe ..).trans (hother q hqp)
        · simp [budget,hfree,hmany,setCounter,Kmem.store]

lemma openPage_eq (hview : ∀ u,u<trapframe→view k' pt' u=view k pt u) :
    openPage pt'=openPage pt := by
  funext u
  by_cases hu : u<trapframe
  · have hbit : ((lookup pt' u).any fun e => e.u)=(lookup pt u).any fun e => e.u := by
      have heq := hview u hu
      rw [view,view] at heq
      cases h1 : lookup pt' u with
      | none =>
        cases h2 : lookup pt u with
        | none => rfl
        | some f => rw [h1,h2] at heq; cases heq
      | some e =>
        cases h2 : lookup pt u with
        | none => rw [h1,h2] at heq; cases heq
        | some f =>
          rw [h1,h2,Option.map_some,Option.map_some,Option.some.injEq,UserPage.mk.injEq] at heq
          simp only [Option.any_some]
          exact heq.2.2
    rw [openPage,openPage,hbit]
  · simp only [openPage,hu,and_false,decide_false,Bool.false_and]

end Budget

section Loop

variable {k k' : Kmem} {pt pt' : PageTable} {own : ℕ→ℕ} {n : ℕ} {r : CopyResult}

def ending (pt : PageTable) (pages : List ℕ) : CopyResult :=
  if pages.all (openPage pt) then .done else .failed

lemma copyoutLoop_budget (h : SpaceInv k pt own n) (dstva : ℕ) (src : List UInt8) (fuel : ℕ)
    (hfuel : src.length≤fuel) (hrun : copyoutLoop k pt dstva src fuel=.next (k',pt',r)) :
    match (budget k pt).breakPages (reached pt dstva src.length) with
    | none => r=.exited
    | some m => budget k' pt'=m ∧ r=ending pt (pagesOf dstva src.length) := by
  obtain ⟨htrap,hmax,_⟩ := trapframe_val
  induction fuel generalizing k pt dstva src with
  | zero =>
    obtain rfl := List.eq_nil_of_length_eq_zero (Nat.le_zero.mp hfuel)
    cases hrun
    exact ⟨rfl,rfl⟩
  | succ fuel ih =>
    by_cases hsrc : src=[]
    · subst hsrc
      rw [copyoutLoop,if_pos rfl] at hrun
      cases hrun
      exact ⟨rfl,rfl⟩
    have hlen : 0<src.length := List.length_pos_iff.mpr hsrc
    -- a page that copyout does not accept ends the list of reached pages
    have hstop : openPage pt (dstva/pgsize)=false→k'=k ∧ pt'=pt ∧ r=.failed→
        match (budget k pt).breakPages (reached pt dstva src.length) with
        | none => r=.exited
        | some m => budget k' pt'=m ∧ r=ending pt (pagesOf dstva src.length) := by
      rintro hclosed ⟨rfl,rfl,rfl⟩
      rw [reached,pagesOf_cons hlen,List.takeWhile_cons_of_neg (by simp [hclosed]),
        Budget.breakPages,ending,List.all_cons,hclosed]
      exact ⟨rfl,rfl⟩
    rw [copyoutLoop,if_neg hsrc] at hrun
    dsimp only at hrun
    by_cases hbad : maxPages≤dstva/pgsize ∨ dstva/pgsize=0
    · rw [if_pos hbad] at hrun
      cases hrun
      refine hstop ?_ ⟨rfl,rfl,rfl⟩
      have hno : ¬(dstva/pgsize≠0 ∧ dstva/pgsize<trapframe) := by omega
      rw [openPage,decide_eq_false hno,Bool.false_and]
    rw [if_neg hbad] at hrun
    cases he : lookup pt (dstva/pgsize) with
    | none =>
      rw [he] at hrun
      cases hrun
      refine hstop ?_ ⟨rfl,rfl,rfl⟩
      rw [openPage,he,Option.any_none,Bool.and_false]
    | some e =>
      rw [he] at hrun
      dsimp only at hrun
      cases hu : e.u with
      | false =>
        rw [hu,if_pos rfl] at hrun
        cases hrun
        refine hstop ?_ ⟨rfl,rfl,rfl⟩
        rw [openPage,he,Option.any_some,hu,Bool.and_false]
      | true =>
        rw [hu,if_neg (by decide)] at hrun
        have hv : dstva/pgsize<trapframe := by
          by_contra hge
          have hsys := (h.system (dstva/pgsize) e (by omega) (by omega) he).1
          rw [hu] at hsys
          cases hsys
        have hopen : openPage pt (dstva/pgsize)=true := by
          rw [openPage,he,Option.any_some,hu,Bool.and_true]
          exact decide_eq_true ⟨by omega,hv⟩
        obtain ⟨k1,pt1,ok,hcow,hinv1,-,hview1,-,hok⟩ := handleCowbit_spec h hv he
        have hbudget := handleCowbit_budget h hv he hcow
        rw [hcow,bind_next] at hrun
        rw [reached,pagesOf_cons hlen,List.takeWhile_cons_of_pos hopen,Budget.breakPages,hbudget]
        cases ok with
        | false =>
          cases hrun
          rfl
        | true =>
          obtain ⟨-,e1,he1,hcow1,hu1⟩ := hok
          have hwalk : walkaddr pt1 (dstva/pgsize)=some e1.ppn := by grind [walkaddr]
          dsimp only at hrun
          rw [hwalk] at hrun
          dsimp only at hrun
          obtain ⟨hinv2,-,-⟩ := write_page hinv1 hv he1 hcow1
            (writeBytes (k1.mem e1.ppn) (dstva%pgsize)
              (src.take (min (pgsize-dstva%pgsize) src.length)))
          have hrest := ih hinv2 _ _ (by rw [List.length_drop,pgsize]; omega) hrun
          rw [List.length_drop,reached,ending,openPage_eq hview1,budget_store] at hrest
          rw [if_pos rfl,Option.bind_some,ending,List.all_cons,hopen,Bool.true_and]
          exact hrest

lemma copyout_exact (h : SpaceInv k pt own n) (dstva : ℕ) (src : List UInt8) :
    ∃ k' pt' r,copyout k pt dstva src=.next (k',pt',r) ∧ SpaceInv k' pt' own n ∧
      match (budget k pt).breakPages (reached pt dstva src.length) with
      | none => r=.exited
      | some m => budget k' pt'=m ∧ r=ending pt (pagesOf dstva src.length) := by
  obtain ⟨k',pt',r,hrun,hinv,_⟩ := copyoutLoop_spec h (A:=⟨view k pt,fun _ => false⟩)
    (fun _ _ => rfl) dstva src src.length
  have hbudget := copyoutLoop_budget h dstva src src.length (Nat.le_refl _) hrun
  exact ⟨k',pt',r,hrun,hinv,hbudget⟩

end Loop

end Xv6Riscv.CopyReturns
