import Xv6Riscv.CowSharing

/-!
# uvmcopy of kernel/vm.c

The parent's and the child's page table are two address spaces with one set of
owners outside. Whether the pages are shared or copied, the loop keeps both
invariants, does not panic, leaves what the parent sees alone and maps the
child's pages like the parent's. A page that the loop shares gets the mark COW
in both tables, so that neither is its only owner any more.
-/

namespace Xv6Riscv.ForkCopy

open Transition RadixTree PageAllocator PageTables AddressSpace SpaceOwnership CowSharing

section Loop

variable {mode : CopyMode} {k k' k'' : Kmem} {old old' old'' new new' new'' : PageTable}
  {own : ℕ→ℕ} {n i : ℕ} {e : Pte}

/-- The parent with n pages and the child with the first i of them. -/
structure Forking (mode : CopyMode) (k : Kmem) (old new : PageTable) (own : ℕ→ℕ) (n i : ℕ) :
    Prop where
  parent : SpaceInv k old (tags new+(leafs new+own)) n
  child : SpaceInv k new (tags old+(leafs old+own)) i
  plain : mode=.eager → ∀ v e,v<trapframe → lookup old v=some e → e.cow=false
  copied : ∀ v,v< i → ∃ e f,lookup old v=some e ∧ lookup new v=some f ∧ f.toPerm=e.toPerm ∧
    k.mem f.ppn=k.mem e.ppn ∧ (mode=.cow → f.ppn=e.ppn ∧ e.cow=true)

structure ForkStep (own : ℕ→ℕ) (k : Kmem) (old new : PageTable) (k' : Kmem)
    (old' new' : PageTable) : Prop where
  keeps : Keeps own k k'
  tables : tags old'=tags old
  frames : leafs old'=leafs old
  apart : ∀ q,0<own q → leafs old q=0 → tags new q+leafs new q=0 → tags new' q+leafs new' q=0
  system : ∀ v,v<2^27 → trapframe≤v → lookup old' v=lookup old v ∧ lookup new' v=lookup new v
  seen : ∀ v,v<trapframe → view k' old' v=view k old v
  can : ∀ v,v<trapframe → canWrite old v=true → canWrite old' v=true
  protect : ∀ v e',lookup old' v=some e' → v<trapframe → ∃ e,lookup old v=some e ∧
    (e'.w=true → e.w=true)

lemma ForkStep.refl (own : ℕ→ℕ) (k : Kmem) (old new : PageTable) :
    ForkStep own k old new k old new :=
  ⟨Keeps.refl own k,rfl,rfl,fun _ _ _ h => h,fun _ _ _ => ⟨rfl,rfl⟩,fun _ _ => rfl,
    fun _ _ h => h,fun _ e he _ => ⟨e,he,id⟩⟩

lemma ForkStep.trans (h : ForkStep own k old new k' old' new')
    (h' : ForkStep own k' old' new' k'' old'' new'') : ForkStep own k old new k'' old'' new'' := by
  refine ⟨h.keeps.trans h'.keeps,h'.tables.trans h.tables,h'.frames.trans h.frames,
    fun q hq ho hn => ?_,
    fun v hv hs => ⟨(h'.system v hv hs).1.trans (h.system v hv hs).1,
      (h'.system v hv hs).2.trans (h.system v hv hs).2⟩,
    fun v hv => (h'.seen v hv).trans (h.seen v hv),fun v hv hc => h'.can v hv (h.can v hv hc),
    fun v e'' he'' hv => ?_⟩
  · exact h'.apart q hq (by rw [h.frames]; exact ho) (h.apart q hq ho hn)
  · grind [h'.protect,h.protect]

lemma forkStep_of_undisturbed (hund : Undisturbed (tags old+(leafs old+own)) k new k' new')
    (hsys : ∀ v,v<2^27 → trapframe≤v → lookup new' v=lookup new v) :
    ForkStep own k old new k' old new' := by
  have hle : ∀ q,own q≤(tags old+(leafs old+own) : ℕ→ℕ) q := by grind [Pi.add_apply]
  refine ⟨hund.keeps.mono hle,rfl,rfl,fun q hq _ hz => ?_,fun v hv hs => ⟨rfl,hsys v hv hs⟩,
    fun v hv => ?_,fun _ _ hc => hc,fun _ e he _ => ⟨e,he,id⟩⟩
  · have hst := hund.stable q (hq.trans_le (hle q))
    omega
  · refine view_eq rfl hund.keeps fun e he => ?_
    have hpos := leafs_pos hv he
    simp only [Pi.add_apply]
    omega

lemma copyUndo_spec (h : Forking mode k old new own n i) :
    ∃ k' new',copyUndo k old new i=.next (k',old,new',false) ∧ Forking mode k' old new' own n 0 ∧
      ForkStep own k old new k' old new' ∧ k'.oom=k.oom := by
  obtain ⟨k',new',hrun,hinv,hund,hoom,hsame,_⟩ := unmap_tail h.child (Nat.zero_le i)
  rw [Nat.zero_mul,Nat.sub_zero] at hrun
  refine ⟨k',new',?_,⟨h.parent.undisturbed hinv hund,hinv,h.plain,fun v hv => ?_⟩,
    forkStep_of_undisturbed hund (fun v hv hs => hsame v hv (Or.inr hs)),hoom⟩
  · rw [copyUndo,hrun,bind_next]
  · exact absurd hv (Nat.not_lt_zero v)

lemma declarations_spec (h : Forking .cow k old new own n i) (hi : i<trapframe)
    (he : lookup old i=some e) :
    SpaceInv k (declarations k old i e).2.1 (tags new+(leafs new+own)) n ∧
    SpaceInv (declarations k old i e).1 new
      (Pi.single e.ppn 1+(tags old+(leafs old+own))) i ∧
    tags (declarations k old i e).2.1=tags old ∧ leafs (declarations k old i e).2.1=leafs old ∧
    ∀ v,v<2^27 → lookup (declarations k old i e).2.1 v=
      if v=i then some (declarations k old i e).2.2 else lookup old v := by
  obtain ⟨hparent,hleafs,hlook⟩ := reflag h.parent hi he {e with cow := true,w := false} rfl
    (h.parent.readable i e hi he) (fun _ => rfl) nofun
  have hpos := leafs_pos hi he
  have hshare := h.parent.kmem.share (p:=e.ppn) (by simp only [Pi.add_apply]; omega)
  refine ⟨hparent,?_,tags_put _ _ _,hleafs,hlook⟩
  refine h.child.reown (hshare.mono fun q => ?_) (fun v f hv hf _ hz => ?_)
  · simp only [Pi.add_apply]
    omega
  · grind [Pi.add_apply]

lemma declarations_step (h : Forking .cow k old new own n i) (hi : i<trapframe)
    (he : lookup old i=some e) :
    ForkStep own k old new (declarations k old i e).1 (declarations k old i e).2.1 new := by
  obtain ⟨htrap,_,_⟩ := trapframe_val
  obtain ⟨_,_,htags,hleafs,hlook⟩ := declarations_spec h hi he
  refine ⟨⟨rfl,id,fun _ _ => rfl⟩,htags,hleafs,fun _ _ _ hz => hz,fun v hv hs => ⟨?_,rfl⟩,
    fun v hv => ?_,fun v hv hc => ?_,fun v e' he' hv => ?_⟩
  · grind
  · unfold view
    rw [hlook v (by omega)]
    by_cases hvi : v=i
    · rw [if_pos hvi,hvi,he]
      rfl
    · rw [if_neg hvi]
      rfl
  · unfold canWrite at hc ⊢
    rw [hlook v (by omega)]
    by_cases hvi : v=i
    · rw [if_pos hvi]
      rfl
    · rw [if_neg hvi]
      exact hc
  · grind [declarations]

lemma parent_shared {m : ℕ} (hparent : SpaceInv k old (tags new+(leafs new+own)) n)
    (hchild : SpaceInv k' new' (tags old+(leafs old+own)) m) (hi : i<trapframe)
    (he : lookup old i=some e) (hcow : e.cow=true)
    (htags : ∀ q,0<leafs old q → tags new' q=tags new q)
    (hleafs : ∀ q,q≠e.ppn → leafs new' q=leafs new q) :
    SpaceInv k' old (tags new'+(leafs new'+own)) n := by
  grind [hparent.reown,hchild.kmem.mono,Pi.add_apply,hparent.injective,leafs_pos]

lemma shared_step {p : ℕ} (hpos : 0<leafs old p)
    (hkeep : Keeps (tags old+(leafs old+own)) k k')
    (htags : ∀ q,0<own q → tags new' q=tags new q)
    (hleafs : ∀ q,q≠p → leafs new' q=leafs new q)
    (hsys : ∀ v,v<2^27 → trapframe≤v → lookup new' v=lookup new v) :
    ForkStep own k old new k' old new' := by
  refine ⟨hkeep.mono fun q => ?_,rfl,rfl,fun q hq ho hn => ?_,fun v hv hs => ⟨rfl,hsys v hv hs⟩,
    fun v hv => view_eq rfl hkeep fun e he => ?_,fun _ _ hc => hc,fun _ e he _ => ⟨e,he,id⟩⟩
  · simp only [Pi.add_apply]
    omega
  · have hne : q≠p := by
      intro heq
      rw [heq] at ho
      omega
    have ht := htags q hq
    have hl := hleafs q hne
    omega
  · have hpos' := leafs_pos hv he
    simp only [Pi.add_apply]
    omega

lemma copyPage_cow (h : Forking .cow k old new own n i) (hi : i<n) (he : lookup old i=some e) :
    ∃ k' old' new' ok,copyPage .cow k old new i e=.next (k',old',new',ok) ∧
      ForkStep own k old new k' old' new' ∧
      (if ok then Forking .cow k' old' new' own n (i+1) ∧ k'.oom=k.oom
        else Forking .cow k' old' new' own n 0 ∧ k'.oom=true) := by
  obtain ⟨htrap,_,_⟩ := trapframe_val
  have hbound := h.parent.bound
  have hit : i<trapframe := by omega
  obtain ⟨hparent,hchild,htags,hleafs,hlook⟩ := declarations_spec h hit he
  have hstep := declarations_step h hit he
  have hshown : ∀ v f,v<trapframe → lookup new v=some f → f.ppn≠e.ppn := by
    intro v f hv hf hp
    have hvi := (h.child.mapped v hv).mp ⟨f,hf⟩
    obtain ⟨e1,f1,he1,hf1,_,_,hcow⟩ := h.copied v hvi
    grind [h.parent.injective]
  have hpos := leafs_pos hit he
  have hself : lookup (declarations k old i e).2.1 i=some (declarations k old i e).2.2 := by grind
  obtain ⟨k',new',ok,hmap,hkeep,htags',hok⟩ := map_next {e.toPerm with cow := true,w := false}
    hchild (h.parent.readable i e hit he) (fun _ => rfl)
    (by rintro ⟨⟩) hshown
  have hpage : mappages (declarations k old i e).1 new (i*pgsize) pgsize
      (declarations k old i e).2.2.ppn (declarations k old i e).2.2.toPerm=.next (k',new',ok) := hmap
  have hkeep' : Keeps (tags (declarations k old i e).2.1+(leafs (declarations k old i e).2.1+own))
      (declarations k old i e).1 k' := by
    grind [hkeep.mono,Pi.add_apply]
  have htags1 : ∀ q,0<own q → tags new' q=tags new q := by grind [Pi.add_apply]
  have htags2 : ∀ q,0<leafs (declarations k old i e).2.1 q → tags new' q=tags new q := by
    intro q hq
    rw [hleafs] at hq
    exact htags' q (by simp only [Pi.add_apply]; omega)
  have hcopied : ∀ v,v< i → lookup new' v=lookup new v → ∃ e1 f,
      lookup (declarations k old i e).2.1 v=some e1 ∧ lookup new' v=some f ∧ f.toPerm=e1.toPerm ∧
      k'.mem f.ppn=k'.mem e1.ppn ∧ (CopyMode.cow=.cow → f.ppn=e1.ppn ∧ e1.cow=true) := by
    grind [h.copied]
  have hplain : CopyMode.cow=.eager → ∀ v e1,v<trapframe →
      lookup (declarations k old i e).2.1 v=some e1 → e1.cow=false := by
    rintro ⟨⟩
  have hpos' : 0<leafs (declarations k old i e).2.1 e.ppn := by
    rw [hleafs]
    exact hpos
  cases ok with
  | true =>
    obtain ⟨hinv,hoom,hleafs',hlook'⟩ := hok
    have hother : ∀ q,q≠e.ppn → leafs new' q=leafs new q := by
      intro q hq
      rw [hleafs',Pi.add_apply,Pi.single_eq_of_ne hq,Nat.zero_add]
    have hsys : ∀ v,v<2^27 → trapframe≤v → lookup new' v=lookup new v := by
      intro v hv hs
      rw [hlook' v hv,if_neg (by omega)]
    rw [← htags,← hleafs] at hinv
    refine ⟨k',(declarations k old i e).2.1,new',true,?_,
      hstep.trans (shared_step hpos' hkeep' htags1 hother hsys),
      ⟨parent_shared hparent hinv hit hself rfl htags2 hother,hinv,hplain,fun v hv => ?_⟩,hoom⟩
    · simp only [copyPage,hpage,bind_next]
    · by_cases hvi : v=i
      · refine ⟨_,_,by rw [hvi]; exact hself,(hlook' v (by omega)).trans (if_pos hvi),rfl,rfl,?_⟩
        exact fun _ => ⟨rfl,rfl⟩
      · exact hcopied v (by omega) (by rw [hlook' v (by omega),if_neg hvi])
  | false =>
    obtain ⟨hinv,hoom,hleafs',hlook'⟩ := hok
    have hother : ∀ q,q≠e.ppn → leafs new' q=leafs new q := by
      intro q _
      rw [hleafs']
    have hinv' : SpaceInv k' new' (tags (declarations k old i e).2.1+
        (leafs (declarations k old i e).2.1+own)) i := by
      rw [htags,hleafs]
      refine hinv.reown (hinv.kmem.mono fun q => ?_) (fun v f _ _ _ hz => ?_)
      · simp only [Pi.add_apply]
        omega
      · grind [Pi.add_apply]
    have hstill : Forking .cow k' (declarations k old i e).2.1 new' own n i :=
      ⟨parent_shared hparent hinv' hit hself rfl htags2 hother,hinv',hplain,
        fun v hv => hcopied v hv (hlook' v)⟩
    obtain ⟨k2,new2,hundo,hfork,hback,hoom2⟩ := copyUndo_spec hstill
    refine ⟨k2,(declarations k old i e).2.1,new2,false,?_,
      (hstep.trans (shared_step hpos' hkeep' htags1 hother fun v _ _ => hlook' v)).trans hback,
      hfork,hoom2.trans hoom⟩
    grind [copyPage,bind_next]

lemma copyPage_eager (h : Forking .eager k old new own n i) (hi : i<n) (he : lookup old i=some e) :
    ∃ k' new' ok,copyPage .eager k old new i e=.next (k',old,new',ok) ∧
      ForkStep own k old new k' old new' ∧
      (if ok then Forking .eager k' old new' own n (i+1) ∧ k'.oom=k.oom
        else Forking .eager k' old new' own n 0 ∧ k'.oom=true) := by
  obtain ⟨htrap,_,_⟩ := trapframe_val
  have hbound := h.parent.bound
  have hit : i<trapframe := by omega
  have hpos := leafs_pos hit he
  have hcow := h.plain rfl i e hit he
  have hcopied : ∀ k1 new1,Keeps (leafs new+(tags old+(leafs old+own))) k k1 → ∀ v,v< i →
      lookup new1 v=lookup new v → ∃ e1 f,lookup old v=some e1 ∧ lookup new1 v=some f ∧
      f.toPerm=e1.toPerm ∧ k1.mem f.ppn=k1.mem e1.ppn ∧
      (CopyMode.eager=.cow → f.ppn=e1.ppn ∧ e1.cow=true) := by
    intro k1 new1 hkeep v hv hsame
    obtain ⟨e1,f1,he1,hf1,hperm,hmem,_⟩ := h.copied v hv
    have hpe := leafs_pos (v:=v) (by omega) he1
    have hpf := leafs_pos (v:=v) (by omega) hf1
    grind [hkeep.mem,Pi.add_apply]
  rcases alloc_next h.child e.toPerm (h.parent.readable i e hit he) hcow with
    ⟨k1,hk,hinv1,hkeep1,hoom1⟩|⟨p,k1,hk,hkeep1,hall⟩
  · have hund : Undisturbed (tags old+(leafs old+own)) k new k1 new := by
      refine ⟨hkeep1.mono fun q => ?_,fun _ _ => Nat.le_refl _⟩
      simp only [Pi.add_apply]
      omega
    have hstill : Forking .eager k1 old new own n i :=
      ⟨h.parent.undisturbed hinv1 hund,hinv1,h.plain,fun v hv => hcopied k1 new hkeep1 v hv rfl⟩
    obtain ⟨k2,new2,hundo,hfork,hback,hoom2⟩ := copyUndo_spec hstill
    refine ⟨k2,new2,false,?_,
      (forkStep_of_undisturbed hund fun _ _ _ => rfl).trans hback,hfork,hoom2.trans hoom1⟩
    rw [copyPage,hk]
    exact hundo
  · obtain ⟨k2,new2,ok,hmap,hok⟩ := hall (k1.mem e.ppn)
    cases ok with
    | true =>
      obtain ⟨hinv2,hund2,hkeep2,hoom2,hmem2,hlook2⟩ := hok
      refine ⟨k2,new2,true,?_,forkStep_of_undisturbed hund2 (fun v hv hs => ?_),
        ⟨h.parent.undisturbed hinv2 hund2,hinv2,h.plain,fun v hv => ?_⟩,hoom2⟩
      · simp only [copyPage,hk,hmap,bind_next]
      · rw [hlook2 v hv,if_neg (by omega)]
      · by_cases hvi : v=i
        · refine ⟨e,⟨e.toPerm,p⟩,by rw [hvi]; exact he,by rw [hlook2 v (by omega),if_pos hvi],rfl,
            ?_,by rintro ⟨⟩⟩
          grind [hkeep1.mem,Pi.add_apply,hkeep2.mem]
        · exact hcopied k2 new2 hkeep2 v (by omega) (by rw [hlook2 v (by omega),if_neg hvi])
    | false =>
      obtain ⟨_,k3,hk3,hinv3,hund3,hkeep3,hoom3,hlook3⟩ := hok
      have hstill : Forking .eager k3 old new2 own n i :=
        ⟨h.parent.undisturbed hinv3 hund3,hinv3,h.plain,
          fun v hv => hcopied k3 new2 hkeep3 v hv (hlook3 v)⟩
      obtain ⟨k4,new4,hundo,hfork,hback,hoom4⟩ := copyUndo_spec hstill
      refine ⟨k4,new4,false,?_,
        (forkStep_of_undisturbed hund3 fun v _ _ => hlook3 v).trans hback,hfork,hoom4.trans hoom3⟩
      grind [copyPage,bind_next]

lemma copyPage_spec (h : Forking mode k old new own n i) (hi : i<n) (he : lookup old i=some e) :
    ∃ k' old' new' ok,copyPage mode k old new i e=.next (k',old',new',ok) ∧
      ForkStep own k old new k' old' new' ∧ (mode=.eager → old'=old) ∧
      (if ok then Forking mode k' old' new' own n (i+1) ∧ k'.oom=k.oom
        else Forking mode k' old' new' own n 0 ∧ k'.oom=true) := by
  cases mode with
  | cow =>
    obtain ⟨k',old',new',ok,hrun,hstep,hok⟩ := copyPage_cow h hi he
    exact ⟨k',old',new',ok,hrun,hstep,
      nofun,hok⟩
  | eager =>
    obtain ⟨k',new',ok,hrun,hstep,hok⟩ := copyPage_eager h hi he
    exact ⟨k',old,new',ok,hrun,hstep,fun _ => rfl,hok⟩

lemma copyLoop_spec {c : ℕ} (h : Forking mode k old new own n i) (hc : i+c=n) :
    ∃ k' old' new' ok,copyLoop mode k old new i c=.next (k',old',new',ok) ∧
      ForkStep own k old new k' old' new' ∧ (mode=.eager → old'=old) ∧
      (if ok then Forking mode k' old' new' own n n ∧ k'.oom=k.oom
        else Forking mode k' old' new' own n 0 ∧ k'.oom=true) := by
  induction c generalizing k old new i with
  | zero =>
    rw [Nat.add_zero] at hc
    subst hc
    exact ⟨k,old,new,true,rfl,ForkStep.refl own k old new,fun _ => rfl,h,rfl⟩
  | succ c ih =>
    obtain ⟨htrap,hmax,_⟩ := trapframe_val
    have hbound := h.parent.bound
    obtain ⟨e,he⟩ := h.parent.pte (v:=i) (by omega)
    have hwalk : walk old i=.next (some (some e)) := by
      rw [walk,if_neg (by omega),cell_of_lookup he]
    obtain ⟨k1,old1,new1,ok,hrun,hstep,hsame,hok⟩ := copyPage_spec h (by omega) he
    cases ok with
    | false =>
      refine ⟨k1,old1,new1,false,?_,hstep,hsame,hok⟩
      simp only [copyLoop,hwalk,hrun,bind_next]
    | true =>
      obtain ⟨hfork,hoom⟩ := hok
      obtain ⟨k2,old2,new2,ok2,hrun2,hstep2,hsame2,hok2⟩ := ih hfork (by omega)
      rw [hoom] at hok2
      refine ⟨k2,old2,new2,ok2,?_,hstep.trans hstep2,fun hm => (hsame2 hm).trans (hsame hm),hok2⟩
      simp only [copyLoop,hwalk,hrun,bind_next]
      exact hrun2

lemma pages_of_size {sz : ℕ} (hsz : sz<2^63) : (sz+pgsize-1)/pgsize=pageCount sz := by
  unfold pageCount pgRoundUp
  simp only [pgsize]
  omega

lemma uvmcopy_spec {sz : ℕ} (h : Forking mode k old new own (pageCount sz) 0) (hsz : sz<2^63) :
    ∃ k' old' new' ok,uvmcopy mode k old new sz=.next (k',old',new',ok) ∧
      ForkStep own k old new k' old' new' ∧ (mode=.eager → old'=old) ∧
      (if ok then Forking mode k' old' new' own (pageCount sz) (pageCount sz) ∧ k'.oom=k.oom
        else Forking mode k' old' new' own (pageCount sz) 0 ∧ k'.oom=true) := by
  rw [uvmcopy,pages_of_size hsz]
  exact copyLoop_spec h (Nat.zero_add _)

end Loop

end Xv6Riscv.ForkCopy
