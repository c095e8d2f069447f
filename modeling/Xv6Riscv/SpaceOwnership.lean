import Xv6Riscv.PrivateSpace

/-!
# One address space and its owners

The invariant of a page table under construction or in use, relative to a
counter for all owners outside it. The first n pages are mapped and no other
user page is; each has PTE_R and its own frame; a page that is not marked COW
is owned by nobody else. Under this invariant the panics of mappages, uvmunmap
and freewalk are unreachable, because physical memory has fewer pages than lie
below TRAPFRAME.
-/

namespace Xv6Riscv.SpaceOwnership

open Transition RadixTree PageAllocator PageTables AddressSpace PrivateSpace

/-- The invariant of an address space with n user pages, where own counts the
owners outside its page table. -/
structure SpaceInv (k : Kmem) (pt : PageTable) (own : ℕ→ℕ) (n : ℕ) : Prop where
  kmem : KmemInv k (tags pt+(leafs pt+own))
  tidy : Tidy pt
  mapped : ∀ v,v<trapframe → ((∃ e,lookup pt v=some e) ↔ v<n)
  bound : n≤trapframe
  readable : ∀ v e,v<trapframe → lookup pt v=some e → e.r=true
  guarded : ∀ v e,v<trapframe → lookup pt v=some e → e.cow=true → e.w=false
  injective : ∀ u v e e',u<trapframe → v<trapframe → lookup pt u=some e → lookup pt v=some e' →
    e.ppn=e'.ppn → u=v
  exclusive : ∀ v e,v<trapframe → lookup pt v=some e → e.cow=false → tags pt e.ppn=0 ∧ own e.ppn=0
  system : ∀ v e,trapframe≤v → v< maxPages → lookup pt v=some e → e.u=false ∧ e.r=true ∧ e.cow=false

/-- What an operation on one address space leaves alone for everybody else:
contents of the pages they own, and the owners of those pages. -/
structure Undisturbed (own : ℕ→ℕ) (k : Kmem) (pt : PageTable) (k' : Kmem) (pt' : PageTable) :
    Prop where
  keeps : Keeps own k k'
  stable : ∀ q,0<own q → tags pt' q+leafs pt' q≤tags pt q+leafs pt q

lemma Undisturbed.refl (own : ℕ→ℕ) (k : Kmem) (pt : PageTable) : Undisturbed own k pt k pt :=
  ⟨Keeps.refl own k,fun _ _ => Nat.le_refl _⟩

lemma Undisturbed.trans {own : ℕ→ℕ} {k k' k'' : Kmem} {pt pt' pt'' : PageTable}
    (h : Undisturbed own k pt k' pt') (h' : Undisturbed own k' pt' k'' pt'') :
    Undisturbed own k pt k'' pt'' :=
  ⟨h.keeps.trans h'.keeps,fun q hq => (h'.stable q hq).trans (h.stable q hq)⟩

lemma Undisturbed.mono {own own' : ℕ→ℕ} {k k' : Kmem} {pt pt' : PageTable}
    (h : Undisturbed own k pt k' pt') (hle : ∀ q,own' q≤own q) : Undisturbed own' k pt k' pt' := by
  refine ⟨h.keeps.mono hle,fun q hq => h.stable q ?_⟩
  have hq' := hle q
  omega

lemma trapframe_val : trapframe=2^26-2 ∧ maxPages=2^26 ∧ physTop=0x88000 := by decide

section Facts

variable {k : Kmem} {pt : PageTable} {own : ℕ→ℕ} {n : ℕ} {e : Pte} {pt' : PageTable}

variable {v p a : ℕ}

lemma leafs_pos (hv : v<trapframe) (he : lookup pt v=some e) : 0<leafs pt e.ppn :=
  occurrences_pos.mpr ⟨v,hv,by rw [frame,he,Option.map_some]⟩

variable (h : SpaceInv k pt own n)

include h

lemma SpaceInv.pte (hv : v<n) : ∃ e,lookup pt v=some e := by
  grind [h.bound,h.mapped]

lemma SpaceInv.not_bare (hv : v<trapframe) (he : lookup pt v=some e) : e.bare=false := by
  have hr := h.readable v e hv he
  simp only [Perm.bare,hr,Bool.true_or,Bool.not_true]

lemma SpaceInv.frame_lt (hv : v<trapframe) (he : lookup pt v=some e) : e.ppn<physTop := by
  have hpos := leafs_pos hv he
  exact (h.kmem.ownedRange e.ppn (by simp only [Pi.add_apply]; omega)).2

lemma SpaceInv.le_physTop : n≤physTop := by
  have hb := h.bound
  have hchoose : ∀ v,∃ p,v<n → p<physTop ∧ ∃ e,lookup pt v=some e ∧ e.ppn=p := by
    intro v
    by_cases hv : v<n
    · obtain ⟨e,he⟩ := h.pte hv
      exact ⟨e.ppn,fun _ => ⟨h.frame_lt (by omega) he,e,he,rfl⟩⟩
    · exact ⟨0,fun hv' => absurd hv' hv⟩
  choose f hf using hchoose
  have hmaps : ∀ v,v∈Finset.range n → f v∈Finset.range physTop := by grind
  have hinj : Set.InjOn f (Finset.range n : Set ℕ) := by
    intro u hu v hv huv
    rw [Finset.coe_range,Set.mem_Iio] at hu hv
    obtain ⟨e,he,hep⟩ := (hf u hu).2
    obtain ⟨e',he',hep'⟩ := (hf v hv).2
    exact h.injective u v e e' (by omega) (by omega) he he' (by rw [hep,hep',huv])
  have hcard := Finset.card_le_card_of_injOn f hmaps hinj
  grind

lemma SpaceInv.lt_trapframe : n<trapframe := by
  have hle := h.le_physTop
  obtain ⟨h1,h2,h3⟩ := trapframe_val
  omega

omit h

variable {k' : Kmem}

lemma SpaceInv.reown (h : SpaceInv k pt own n) {own' : ℕ→ℕ}
    (hk : KmemInv k' (tags pt+(leafs pt+own')))
    (hzero : ∀ v e,v<trapframe → lookup pt v=some e → e.cow=false → own e.ppn=0 → own' e.ppn=0) :
    SpaceInv k' pt own' n := by
  refine ⟨hk,h.tidy,h.mapped,h.bound,h.readable,h.guarded,h.injective,fun v e hv he hc => ?_,
    h.system⟩
  grind [h.exclusive]

lemma SpaceInv.congr (h : SpaceInv k pt own n) (hk : KmemInv k' (tags pt'+(leafs pt'+own)))
    (hlook : ∀ v,lookup pt' v=lookup pt v) (htags : ∀ q,0<leafs pt q → tags pt' q=tags pt q) :
    SpaceInv k' pt' own n := by
  refine ⟨hk,h.tidy.congr hlook,fun v hv => ?_,h.bound,fun v e hv he => ?_,fun v e hv he => ?_,
    fun u v e e' hu hv he he' => ?_,fun v e hv he hc => ?_,fun v e hv hlt he => ?_⟩
  · rw [hlook]
    exact h.mapped v hv
  · exact h.readable v e hv (by rw [← hlook]; exact he)
  · exact h.guarded v e hv (by rw [← hlook]; exact he)
  · grind [h.injective]
  · grind [leafs_pos,h.exclusive]
  · grind [h.system]

lemma SpaceInv.alloc (h : SpaceInv k pt own n) (hfresh : (tags pt+(leafs pt+own)) p=0)
    (hk : KmemInv k' (Pi.single p 1+(tags pt+(leafs pt+own)))) :
    SpaceInv k' pt (Pi.single p 1+own) n := by
  refine h.reown (hk.mono fun q => ?_) (fun v e hv he _ hz => ?_)
  · simp only [Pi.add_apply]
    omega
  · have hpos := leafs_pos hv he
    have hne : e.ppn≠p := by
      rintro rfl
      simp only [Pi.add_apply] at hfresh
      omega
    simp only [Pi.add_apply,Pi.single_eq_of_ne hne,hz]

lemma SpaceInv.undisturbed {pt1 pt2 : PageTable} {m : ℕ}
    (h : SpaceInv k pt (tags pt1+(leafs pt1+own)) n)
    (h' : SpaceInv k' pt2 (tags pt+(leafs pt+own)) m)
    (hund : Undisturbed (tags pt+(leafs pt+own)) k pt1 k' pt2) :
    SpaceInv k' pt (tags pt2+(leafs pt2+own)) n := by
  refine h.reown (h'.kmem.mono fun q => ?_) (fun v e hv he _ hz => ?_)
  · simp only [Pi.add_apply]
    omega
  · have hpos := leafs_pos hv he
    have hq := hund.stable e.ppn (by simp only [Pi.add_apply]; omega)
    simp only [Pi.add_apply] at hz ⊢
    omega

lemma SpaceInv.store (h : SpaceInv k pt own n) (p : ℕ) (d : Page) :
    SpaceInv (k.store p d) pt own n := h.reown (h.kmem.store p d) (fun _ _ _ _ _ hz => hz)

lemma map_next (perm : Perm) (h : SpaceInv k pt (Pi.single p 1+own) n)
    (hr : perm.r=true) (hguard : perm.cow=true → perm.w=false)
    (hprivate : perm.cow=false → tags pt p=0 ∧ own p=0)
    (hnew : ∀ v e,v<trapframe → lookup pt v=some e → e.ppn≠p) :
    ∃ k' pt' ok,mappages k pt (n*pgsize) pgsize p perm=.next (k',pt',ok) ∧
      Keeps (leafs pt+(Pi.single p 1+own)) k k' ∧
      (∀ q,0<(leafs pt+(Pi.single p 1+own) : ℕ→ℕ) q → tags pt' q=tags pt q) ∧
      (if ok then SpaceInv k' pt' own (n+1) ∧ k'.oom=k.oom ∧ leafs pt'=Pi.single p 1+leafs pt ∧
          ∀ v,v<2^27 → lookup pt' v=if v=n then some ⟨perm,p⟩ else lookup pt v
        else SpaceInv k' pt' (Pi.single p 1+own) n ∧ k'.oom=true ∧ leafs pt'=leafs pt ∧
          ∀ v,lookup pt' v=lookup pt v) := by
  obtain ⟨htrap,hmax,_⟩ := trapframe_val
  have hn := h.lt_trapframe
  have hnone : lookup pt n=none := by
    cases hl : lookup pt n with
    | none => rfl
    | some e => exact absurd ((h.mapped n hn).mp ⟨e,hl⟩) (Nat.lt_irrefl n)
  obtain ⟨k',pt',ok,hmap,hinv,hkeep,htags,htidy,hok⟩ :=
    mappages_spec p perm h.kmem h.tidy (by omega) hnone
  refine ⟨k',pt',ok,hmap,hkeep,htags,?_⟩
  cases ok with
  | true =>
    obtain ⟨hoom,hlook⟩ := hok
    have hleafs := leafs_map hn hnone hlook
    have hother : ∀ v,v<2^27 → v≠n → lookup pt' v=lookup pt v := by
      intro v hv hvn
      rw [hlook v hv,if_neg hvn]
    have hself : lookup pt' n=some ⟨perm,p⟩ := by rw [hlook n (by omega),if_pos rfl]
    refine ⟨⟨?_,htidy,fun v hv => ?_,hn,fun v e hv he => ?_,fun v e hv he => ?_,
      fun u v e e' hu hv he he' hp => ?_,fun v e hv he hc => ?_,fun v e hv hlt he => ?_⟩,hoom,hleafs,
      hlook⟩
    · rw [hleafs]
      refine hinv.mono fun q => ?_
      simp only [Pi.add_apply]
      omega
    · by_cases hvn : v=n
      · rw [hvn,hself]
        exact ⟨fun _ => Nat.lt_succ_self n,fun _ => ⟨_,rfl⟩⟩
      · rw [hother v (by omega) hvn,h.mapped v hv]
        omega
    · by_cases hvn : v=n
      · rw [hvn,hself] at he
        cases he
        exact hr
      · exact h.readable v e hv (by rw [← hother v (by omega) hvn]; exact he)
    · by_cases hvn : v=n
      · rw [hvn,hself] at he
        cases he
        exact hguard
      · exact h.guarded v e hv (by rw [← hother v (by omega) hvn]; exact he)
    · by_cases hun : u=n
      · by_cases hvn : v=n
        · rw [hun,hvn]
        · rw [hun,hself] at he
          cases he
          rw [hother v (by omega) hvn] at he'
          exact absurd hp.symm (hnew v e' hv he')
      · rw [hother u (by omega) hun] at he
        by_cases hvn : v=n
        · rw [hvn,hself] at he'
          cases he'
          exact absurd hp (hnew u e hu he)
        · rw [hother v (by omega) hvn] at he'
          exact h.injective u v e e' hu hv he he' hp
    · by_cases hvn : v=n
      · rw [hvn,hself] at he
        cases he
        have hpos : 0<(leafs pt+(Pi.single p 1+own) : ℕ→ℕ) p := by
          simp only [Pi.add_apply,Pi.single_eq_same]
          omega
        rw [htags p hpos]
        exact hprivate hc
      · rw [hother v (by omega) hvn] at he
        have hpos := leafs_pos hv he
        have hx := h.exclusive v e hv he hc
        have hown : (Pi.single p 1+own : ℕ→ℕ) e.ppn=0 := hx.2
        rw [htags e.ppn (by simp only [Pi.add_apply]; omega)]
        refine ⟨hx.1,?_⟩
        simp only [Pi.add_apply] at hown
        omega
    · rw [hother v (by omega) (by omega)] at he
      exact h.system v e hv hlt he
  | false =>
    obtain ⟨hoom,hlook⟩ := hok
    have hleafs : leafs pt'=leafs pt := leafs_congr fun v _ => by rw [frame,frame,hlook]
    have htags' : ∀ q,0<leafs pt q → tags pt' q=tags pt q := by
      intro q hq
      exact htags q (by simp only [Pi.add_apply]; omega)
    exact ⟨h.congr (by rw [hleafs]; exact hinv) hlook htags',hoom,hleafs,hlook⟩

def view (k : Kmem) (pt : PageTable) (v : ℕ) : Option UserPage :=
  (lookup pt v).map fun e => ⟨k.mem e.ppn,e.x,e.u⟩

/-- The user pages below m and the kernel's pages above user memory are mapped
as before. -/
def SameBelow (pt pt' : PageTable) (m : ℕ) : Prop :=
  ∀ v,v<2^27 → v< m ∨ trapframe≤v → lookup pt' v=lookup pt v

lemma view_eq {own' : ℕ→ℕ} (hlook : lookup pt' v=lookup pt v) (hkeep : Keeps own' k k')
    (hown : ∀ e,lookup pt v=some e → 0<own' e.ppn) : view k' pt' v=view k pt v := by
  unfold view
  rw [hlook]
  cases he : lookup pt v with
  | none => rfl
  | some e => simp only [Option.map_some,hkeep.mem e.ppn (hown e he)]

lemma unmap_tail (h : SpaceInv k pt own n) (ha : a≤n) :
    ∃ k' pt',uvmunmap k pt (a*pgsize) (n-a) true=.next (k',pt') ∧ SpaceInv k' pt' own a ∧
      Undisturbed own k pt k' pt' ∧ k'.oom=k.oom ∧ SameBelow pt pt' a ∧
      ∀ v,v<a → view k' pt' v=view k pt v := by
  obtain ⟨htrap,hmax,_⟩ := trapframe_val
  have hbound := h.bound
  have hmapped : ∀ v,a≤v → v<a+(n-a) → ∃ e,lookup pt v=some e ∧ e.bare=false := by
    intro v _ hv
    obtain ⟨e,he⟩ := h.pte (v:=v) (by omega)
    exact ⟨e,he,h.not_bare (by omega) he⟩
  obtain ⟨k',pt',hrun,hinv,hkeep,htags,htidy,hoom,hlook⟩ :=
    uvmunmap_spec h.kmem h.tidy (by omega) hmapped
  have hsame : SameBelow pt pt' a := by
    intro v hv hcase
    grind
  have hsub : ∀ v e,v<trapframe → lookup pt' v=some e → v<a ∧ lookup pt v=some e := by
    intro v e hv he
    rw [hlook v (by omega)] at he
    split_ifs at he with hin
    have hvn := (h.mapped v hv).mp ⟨e,he⟩
    exact ⟨by omega,he⟩
  have hless : ∀ q,leafs pt' q≤leafs pt q := by
    apply leafs_le
    intro v hv
    grind
  have hinv' : SpaceInv k' pt' own a := by
    refine ⟨hinv,htidy,fun v hv => ⟨fun hx => hx.elim fun e he => (hsub v e hv he).1,fun hva => ?_⟩,by omega,
      fun v e hv he => h.readable v e hv (hsub v e hv he).2,
      fun v e hv he => h.guarded v e hv (hsub v e hv he).2,
      fun u v e e' hu hv he he' => h.injective u v e e' hu hv (hsub u e hu he).2 (hsub v e' hv he').2,
      fun v e hv he hc => ?_,fun v e hv hlt he => ?_⟩
    · rw [hsame v (by omega) (Or.inl hva)]
      exact h.pte (by omega)
    · rw [htags]
      exact h.exclusive v e hv (hsub v e hv he).2 hc
    · grind [h.system]
  have hund : Undisturbed own k pt k' pt' := by
    refine ⟨hkeep.mono fun q => ?_,fun q _ => ?_⟩
    · simp only [Pi.add_apply]
      omega
    · have hq := hless q
      rw [htags]
      omega
  refine ⟨k',pt',hrun,hinv',hund,hoom,hsame,fun v hv => ?_⟩
  have hsame' := hsame v (by omega) (Or.inl hv)
  refine view_eq hsame' hkeep (fun e he => ?_)
  have hpos := leafs_pos (v:=v) (by omega) (hsame'.trans he)
  simp only [Pi.add_apply]
  omega

lemma pgRoundUp_mul (ha : a≤ maxPages) : pgRoundUp (a*pgsize)=a*pgsize := by
  obtain ⟨_,hmax,_⟩ := trapframe_val
  simp only [pgRoundUp,pgsize]
  omega

lemma uvmdealloc_spec {oldsz : ℕ} (newsz : ℕ) (h : SpaceInv k pt own (pageCount oldsz))
    (hold : oldsz<2^63) :
    ∃ k' pt',uvmdealloc k pt oldsz newsz=.next (k',pt',min oldsz newsz) ∧
      SpaceInv k' pt' own (pageCount (min oldsz newsz)) ∧ Undisturbed own k pt k' pt' ∧
      k'.oom=k.oom ∧ SameBelow pt pt' (pageCount (min oldsz newsz)) ∧
      ∀ v,v<pageCount (min oldsz newsz) → view k' pt' v=view k pt v := by
  unfold uvmdealloc
  by_cases hge : newsz≥oldsz
  · rw [if_pos hge,Nat.min_eq_left hge]
    exact ⟨k,pt,rfl,h,Undisturbed.refl own k pt,rfl,fun _ _ _ => rfl,fun _ _ => rfl⟩
  · rw [if_neg hge,Nat.min_eq_right (by omega)]
    have hcount : ∀ sz,sz<2^63 → pgRoundUp sz=pageCount sz*pgsize := by
      grind [pageCount,pgRoundUp,pgsize]
    have hmono : pageCount newsz≤pageCount oldsz := by grind [pgRoundUp,pgsize]
    by_cases hlt : pgRoundUp newsz<pgRoundUp oldsz
    · obtain ⟨k',pt',hrun,hrest⟩ := unmap_tail h hmono
      have hpages : (pgRoundUp oldsz-pgRoundUp newsz)/pgsize=pageCount oldsz-pageCount newsz := by
        rw [hcount oldsz hold,hcount newsz (by omega),← Nat.sub_mul]
        exact Nat.mul_div_cancel _ (by decide)
      refine ⟨k',pt',?_,hrest⟩
      rw [if_pos hlt,hpages,hcount newsz (by omega),hrun,bind_next]
    · have hsame : pageCount newsz=pageCount oldsz := by
        have h1 := hcount oldsz hold
        have h2 := hcount newsz (by omega)
        grind [pgsize]
      rw [if_neg hlt,hsame]
      exact ⟨k,pt,rfl,h,Undisturbed.refl own k pt,rfl,fun _ _ _ => rfl,fun _ _ => rfl⟩

/-- Allocate a page, fill it and map it as the next user page, as uvmalloc
and the copying uvmcopy do; when mappages fails the page is given back. -/
lemma alloc_next (h : SpaceInv k pt own n) (perm : Perm) (hr : perm.r=true)
    (hcow : perm.cow=false) :
    (∃ k1,kalloc k=(none,k1) ∧ SpaceInv k1 pt own n ∧ Keeps (leafs pt+own) k k1 ∧ k1.oom=true) ∨
    ∃ p k1,kalloc k=(some p,k1) ∧ Keeps (leafs pt+own) k k1 ∧
      ∀ d,∃ k2 pt2 ok,mappages (k1.store p d) pt (n*pgsize) pgsize p perm=.next (k2,pt2,ok) ∧
        (if ok then SpaceInv k2 pt2 own (n+1) ∧ Undisturbed own k pt k2 pt2 ∧
            Keeps (leafs pt+own) k k2 ∧ k2.oom=k.oom ∧ k2.mem p=d ∧
            ∀ v,v<2^27 → lookup pt2 v=if v=n then some ⟨perm,p⟩ else lookup pt v
          else k2.oom=true ∧ ∃ k3,kfree k2 p=.next k3 ∧ SpaceInv k3 pt2 own n ∧
            Undisturbed own k pt k3 pt2 ∧ Keeps (leafs pt+own) k k3 ∧ k3.oom=true ∧
            ∀ v,lookup pt2 v=lookup pt v) := by
  have hle : ∀ q,(leafs pt+own) q≤(tags pt+(leafs pt+own)) q := fun q => Nat.le_add_left ..
  rcases kalloc_spec h.kmem with ⟨k1,hk,hinv,hkeep,hoom⟩|⟨p,k1,hk,hfresh,hinv,hkeep,hoom⟩
  · exact Or.inl ⟨k1,hk,h.reown hinv (fun _ _ _ _ _ hz => hz),hkeep.mono hle,hoom⟩
  · refine Or.inr ⟨p,k1,hk,hkeep.mono hle,fun d => ?_⟩
    have hzero : tags pt p=0 ∧ leafs pt p=0 ∧ own p=0 := by grind [Pi.add_apply]
    have hspace := (h.alloc hfresh hinv).store p d
    have hnew : ∀ v e,v<trapframe → lookup pt v=some e → e.ppn≠p := by
      intro v e hv he
      exact ne_of_owned hzero.2.1 (leafs_pos hv he)
    obtain ⟨k2,pt2,ok,hmap,hkeep2,htags2,hok⟩ := map_next perm hspace hr
      (fun hc => by rw [hcow] at hc; simp only [Bool.false_eq_true] at hc)
      (fun _ => ⟨hzero.1,hzero.2.2⟩) hnew
    have hstore : Keeps (leafs pt+own) k1 (k1.store p d) := by
      apply Keeps.store
      simp only [Pi.add_apply]
      omega
    have hkeep' : Keeps (leafs pt+own) k k2 := by
      refine ((hkeep.mono hle).trans hstore).trans (hkeep2.mono fun q => ?_)
      simp only [Pi.add_apply]
      omega
    refine ⟨k2,pt2,ok,hmap,?_⟩
    cases ok with
    | true =>
      obtain ⟨hinv2,hoom2,hleafs2,hlook2⟩ := hok
      refine ⟨hinv2,⟨hkeep'.mono fun q => Nat.le_add_left ..,fun q hq => ?_⟩,hkeep',
        hoom2.trans hoom,?_,hlook2⟩
      · have hqp : q≠p := ne_of_owned hzero.2.2 hq
        rw [hleafs2,htags2 q (by simp only [Pi.add_apply]; omega)]
        simp only [Pi.add_apply,Pi.single_eq_of_ne hqp]
        omega
      · have hmem := hkeep2.mem p (by simp only [Pi.add_apply,Pi.single_eq_same]; omega)
        rw [hmem]
        exact Function.update_self ..
    | false =>
      obtain ⟨hinv2,hoom2,hleafs2,hlook2⟩ := hok
      have hfree : KmemInv k2 (Pi.single p 1+(tags pt2+(leafs pt2+own))) := by
        refine hinv2.kmem.mono fun q => ?_
        simp only [Pi.add_apply]
        omega
      obtain ⟨k3,hk3,hinv3,hkeep3,hoom3⟩ := kfree_spec hfree
      have hkeep3' : Keeps (leafs pt+own) k2 k3 := by
        refine hkeep3.mono fun q => ?_
        rw [hleafs2]
        exact Nat.le_add_left ..
      refine ⟨hoom2,k3,hk3,hinv2.reown hinv3 (fun v e _ _ _ hz => ?_),
        ⟨(hkeep'.trans hkeep3').mono fun q => Nat.le_add_left ..,fun q hq => ?_⟩,
        hkeep'.trans hkeep3',hoom3.trans hoom2,hlook2⟩
      · simp only [Pi.add_apply] at hz
        omega
      · rw [hleafs2,htags2 q (by simp only [Pi.add_apply]; omega)]

lemma allocUndo_spec (h : SpaceInv k pt own n) {start : ℕ} (hstart : start≤n) :
    ∃ k' pt',allocUndo k pt n start=.next (k',pt',false) ∧ SpaceInv k' pt' own start ∧
      Undisturbed own k pt k' pt' ∧ k'.oom=k.oom ∧ SameBelow pt pt' start ∧
      ∀ v,v<start → view k' pt' v=view k pt v := by
  obtain ⟨htrap,hmax,_⟩ := trapframe_val
  have hbound := h.bound
  have hpages : ∀ a,a≤n → pageCount (a*pgsize)=a := by
    intro a ha
    rw [pageCount,pgRoundUp_mul (by omega)]
    exact Nat.mul_div_cancel a (by decide)
  have hmin : min (n*pgsize) (start*pgsize)=start*pgsize :=
    Nat.min_eq_right (Nat.mul_le_mul_right _ hstart)
  have hsize : n*pgsize<2^63 := by
    simp only [pgsize]
    omega
  have hspace : SpaceInv k pt own (pageCount (n*pgsize)) := by grind
  obtain ⟨k',pt',hrun,hinv,hund,hoom,hsame,hview⟩ :=
    uvmdealloc_spec (start*pgsize) hspace hsize
  rw [hmin,hpages start hstart] at hinv hsame hview
  grind [allocUndo,bind_next]

lemma allocLoop_spec (h : SpaceInv k pt own n) {start : ℕ} (hstart : start≤n) (w x : Bool)
    (c : ℕ) :
    ∃ k' pt' ok,allocLoop k pt (userPerm w x) start n c=.next (k',pt',ok) ∧
      Undisturbed own k pt k' pt' ∧
      (if ok then SpaceInv k' pt' own (n+c) ∧ k'.oom=k.oom ∧ SameBelow pt pt' n ∧
          (∀ v,v<n → view k' pt' v=view k pt v) ∧
          ∀ v,n≤v → v<n+c → view k' pt' v=some ⟨fill 0,x,true⟩ ∧
            ∃ e,lookup pt' v=some e ∧ e.toPerm=userPerm w x
        else SpaceInv k' pt' own start ∧ k'.oom=true ∧ SameBelow pt pt' start ∧
          ∀ v,v<start → view k' pt' v=view k pt v) := by
  obtain ⟨htrap,hmax,_⟩ := trapframe_val
  induction c generalizing k pt n with
  | zero =>
    refine ⟨k,pt,true,rfl,Undisturbed.refl own k pt,h,rfl,fun _ _ _ => rfl,fun _ _ => rfl,
      fun v hv hlt => ?_⟩
    omega
  | succ c ih =>
    have hbound := h.bound
    have hlt := h.lt_trapframe
    have hpos : ∀ v e,v<n → lookup pt v=some e → 0<(leafs pt+own) e.ppn := by
      intro v e hv he
      have hp := leafs_pos (v:=v) (by omega) he
      simp only [Pi.add_apply]
      omega
    rcases alloc_next h (userPerm w x) rfl rfl with
      ⟨k1,hk,hinv1,hkeep1,hoom1⟩|⟨p,k1,hk,hkeep1,hall⟩
    · obtain ⟨k2,pt2,hundo,hinv2,hund2,hoom2,hsame2,hview2⟩ := allocUndo_spec hinv1 hstart
      have hund1 : Undisturbed own k pt k1 pt :=
        ⟨hkeep1.mono fun q => Nat.le_add_left ..,fun _ _ => Nat.le_refl _⟩
      refine ⟨k2,pt2,false,?_,hund1.trans hund2,hinv2,hoom2.trans hoom1,hsame2,fun v hv => ?_⟩
      · rw [allocLoop,hk]
        exact hundo
      · rw [hview2 v hv]
        exact view_eq rfl hkeep1 (fun e he => hpos v e (by omega) he)
    · obtain ⟨k2,pt2,ok,hmap,hok⟩ := hall (fill 0)
      cases ok with
      | true =>
        obtain ⟨hinv2,hund2,hkeep2,hoom2,hmem2,hlook2⟩ := hok
        have hsame2 : SameBelow pt pt2 n := by
          intro v hv hcase
          rw [hlook2 v hv,if_neg (by omega)]
        have hview2 : ∀ v,v<n → view k2 pt2 v=view k pt v := by
          intro v hv
          exact view_eq (hsame2 v (by omega) (Or.inl hv)) hkeep2 (fun e he => hpos v e hv he)
        have hnew : lookup pt2 n=some ⟨userPerm w x,p⟩ := by grind
        have hviewn : view k2 pt2 n=some ⟨fill 0,x,true⟩ := by
          rw [view,hnew,Option.map_some,hmem2]
          rfl
        obtain ⟨k3,pt3,ok3,hloop,hund3,hok3⟩ := ih hinv2 (by omega)
        refine ⟨k3,pt3,ok3,?_,hund2.trans hund3,?_⟩
        · rw [allocLoop,hk]
          simp only [hmap,bind_next]
          exact hloop
        · cases ok3 with
          | true =>
            obtain ⟨hinv3,hoom3,hsame3,hview3,hnew3⟩ := hok3
            have hbound3 := hinv3.bound
            refine ⟨by rw [Nat.add_right_comm] at hinv3; exact hinv3,hoom3.trans hoom2,
              fun v hv hcase => ?_,fun v hv => ?_,fun v hv hvlt => ?_⟩
            · rw [hsame3 v hv (by omega),hsame2 v hv hcase]
            · rw [hview3 v (by omega),hview2 v hv]
            · by_cases hvn : v=n
              · subst hvn
                refine ⟨by rw [hview3 v (by omega),hviewn],⟨userPerm w x,p⟩,?_,rfl⟩
                rw [hsame3 v (by omega) (Or.inl (by omega)),hnew]
              · exact hnew3 v (by omega) (by omega)
          | false =>
            obtain ⟨hinv3,hoom3,hsame3,hview3⟩ := hok3
            refine ⟨hinv3,hoom3,fun v hv hcase => ?_,fun v hv => ?_⟩
            · rw [hsame3 v hv hcase,hsame2 v hv (by omega)]
            · rw [hview3 v hv,hview2 v (by omega)]
      | false =>
        obtain ⟨_,k3,hk3,hinv3,hund3,hkeep3,hoom3,hlook3⟩ := hok
        obtain ⟨k4,pt4,hundo,hinv4,hund4,hoom4,hsame4,hview4⟩ := allocUndo_spec hinv3 hstart
        refine ⟨k4,pt4,false,?_,hund3.trans hund4,hinv4,hoom4.trans hoom3,fun v hv hcase => ?_,
          fun v hv => ?_⟩
        · rw [allocLoop,hk]
          simp only [hmap,bind_next]
          rw [hk3,bind_next]
          exact hundo
        · rw [hsame4 v hv hcase,hlook3]
        · rw [hview4 v hv]
          exact view_eq (hlook3 v) hkeep3 (fun e he => hpos v e (by omega) he)

/-- uvmalloc reaches the new size with zeroed pages, leaves a larger size
alone, or reports that kalloc failed with the old pages as they were. -/
lemma uvmalloc_spec {oldsz : ℕ} (newsz : ℕ) (h : SpaceInv k pt own (pageCount oldsz))
    (hold : oldsz<2^63) (w x : Bool) :
    ∃ k' pt' r,uvmalloc k pt oldsz newsz w x=.next (k',pt',r) ∧ Undisturbed own k pt k' pt' ∧
      SameBelow pt pt' (pageCount oldsz) ∧
      (∀ v,v<pageCount oldsz → view k' pt' v=view k pt v) ∧
      (newsz<oldsz ∧ r=oldsz ∧ k'=k ∧ pt'=pt ∨
        oldsz≤newsz ∧ newsz<2^63 ∧ r=newsz ∧ SpaceInv k' pt' own (pageCount newsz) ∧
          k'.oom=k.oom ∧ pageCount oldsz≤pageCount newsz ∧
          (∀ v,pageCount oldsz≤v → v<pageCount newsz → view k' pt' v=some ⟨fill 0,x,true⟩ ∧
            ∃ e,lookup pt' v=some e ∧ e.toPerm=userPerm w x) ∨
        oldsz≤newsz ∧ r=0 ∧ SpaceInv k' pt' own (pageCount oldsz) ∧ k'.oom=true) := by
  obtain ⟨htrap,hmax,hphys⟩ := trapframe_val
  unfold uvmalloc
  by_cases hlt : newsz<oldsz
  · rw [if_pos hlt]
    exact ⟨k,pt,oldsz,rfl,Undisturbed.refl own k pt,fun _ _ _ => rfl,fun _ _ => rfl,
      Or.inl ⟨hlt,rfl,rfl,rfl⟩⟩
  · rw [if_neg hlt]
    obtain ⟨k',pt',ok,hrun,hund,hok⟩ := allocLoop_spec h (Nat.le_refl _) w x
      ((newsz-pgRoundUp oldsz+pgsize-1)/pgsize)
    rw [hrun,bind_next]
    cases ok with
    | true =>
      obtain ⟨hinv,hoom,hsame,hview,hnew⟩ := hok
      have htop := hinv.le_physTop
      have hpages : newsz<2^63 ∧ pageCount oldsz≤pageCount newsz ∧
          pageCount oldsz+(newsz-pgRoundUp oldsz+pgsize-1)/pgsize=pageCount newsz := by
        simp only [pageCount,pgRoundUp,pgsize] at htop ⊢
        omega
      refine ⟨k',pt',newsz,rfl,hund,hsame,hview,Or.inr (Or.inl ⟨by omega,hpages.1,rfl,?_,hoom,
        hpages.2.1,fun v hv hvlt => hnew v hv (by omega)⟩)⟩
      grind
    | false =>
      obtain ⟨hinv,hoom,hsame,hview⟩ := hok
      exact ⟨k',pt',0,rfl,hund,hsame,hview,Or.inr (Or.inr ⟨by omega,rfl,hinv,hoom⟩)⟩

lemma uvmfree_spec (sz : ℕ) (h : SpaceInv k pt own (pageCount sz))
    (hsystem : ∀ v,trapframe≤v → v< maxPages → lookup pt v=none) :
    ∃ k',uvmfree k pt sz=.next k' ∧ KmemInv k' own ∧ Keeps own k k' ∧ k'.oom=k.oom := by
  obtain ⟨htrap,hmax,_⟩ := trapframe_val
  have hbare : ∃ k1 pt1,(if 0<sz then uvmunmap k pt 0 (pageCount sz) true else .next (k,pt))=
      .next (k1,pt1) ∧ SpaceInv k1 pt1 own 0 ∧ Undisturbed own k pt k1 pt1 ∧ k1.oom=k.oom ∧
      SameBelow pt pt1 0 := by
    by_cases hsz : 0<sz
    · obtain ⟨k1,pt1,hrun,hinv,hund,hoom,hsame,_⟩ := unmap_tail h (Nat.zero_le _)
      rw [Nat.zero_mul,Nat.sub_zero] at hrun
      exact ⟨k1,pt1,by rw [if_pos hsz,hrun],hinv,hund,hoom,hsame⟩
    · have hzero : sz=0 := by omega
      have hcount : pageCount sz=0 := by
        rw [hzero]
        decide
      rw [hcount] at h
      exact ⟨k,pt,by rw [if_neg hsz],h,Undisturbed.refl own k pt,rfl,fun _ _ _ => rfl⟩
  obtain ⟨k1,pt1,hrun,hinv,hund,hoom,hsame⟩ := hbare
  have hempty : ∀ v,v<2^27 → lookup pt1 v=none := by
    intro v hv
    by_cases hvt : v<trapframe
    · cases hl : lookup pt1 v with
      | none => rfl
      | some e => exact absurd ((hinv.mapped v hvt).mp ⟨e,hl⟩) (Nat.not_lt_zero v)
    · by_cases hvm : v< maxPages
      · rw [hsame v hv (Or.inr (by omega))]
        exact hsystem v (by omega) hvm
      · exact hinv.tidy v (by omega) hv
  have htable : KmemInv k1 (tags pt1+own) := by grind [hinv.kmem.mono,Pi.add_apply]
  obtain ⟨k2,hk2,hinv2,hkeep2,hoom2⟩ := freewalk_spec htable hempty
  refine ⟨k2,?_,hinv2,hund.keeps.trans hkeep2,hoom2.trans hoom⟩
  rw [uvmfree,hrun,bind_next,hk2]

def Trapped (pt : PageTable) : Prop :=
  (∃ e,lookup pt trampoline=some e) ∧ ∃ e,lookup pt trapframe=some e

lemma Trapped.congr (h : Trapped pt) (hsys : ∀ v,v<2^27 → trapframe≤v → lookup pt' v=lookup pt v) :
    Trapped pt' := by
  obtain ⟨⟨e,he⟩,f,hf⟩ := h
  refine ⟨⟨e,?_⟩,f,?_⟩
  · rw [hsys trampoline (by decide) (by decide)]
    exact he
  · rw [hsys trapframe (by decide) (Nat.le_refl _)]
    exact hf

lemma SpaceInv.drop_system (h : SpaceInv k pt own n) (ha : trapframe≤a) (ham : a< maxPages)
    (he : lookup pt a=some e) : SpaceInv k (put pt (px a) none) own n ∧
      ∀ v,v<2^27 → lookup (put pt (px a) none) v=if v=a then none else lookup pt v := by
  obtain ⟨htrap,hmax,_⟩ := trapframe_val
  have hput : ∀ v,v<2^27 → lookup (put pt (px a) none) v=if v=a then none else lookup pt v :=
    fun v hv => lookup_put ham (cell_of_lookup he) none hv
  have huser : ∀ v,v<trapframe → lookup (put pt (px a) none) v=lookup pt v := by grind
  have hleafs : leafs (put pt (px a) none)=leafs pt :=
    leafs_congr fun v hv => by rw [frame,frame,huser v hv]
  refine ⟨⟨?_,h.tidy.put ham (cell_of_lookup he) none,fun v hv => ?_,h.bound,fun v e' hv he' => ?_,
    fun v e' hv he' => ?_,fun u v e1 e2 hu hv h1 h2 => ?_,fun v e' hv he' hc => ?_,
    fun v e' hv hlt he' => ?_⟩,hput⟩
  · rw [tags_put,hleafs]
    exact h.kmem
  · rw [huser v hv]
    exact h.mapped v hv
  · exact h.readable v e' hv (by rw [← huser v hv]; exact he')
  · exact h.guarded v e' hv (by rw [← huser v hv]; exact he')
  · grind [h.injective]
  · rw [tags_put]
    exact h.exclusive v e' hv (by rw [← huser v hv]; exact he') hc
  · grind [h.system]

lemma procFreepagetable_spec {sz : ℕ} (h : SpaceInv k pt own (pageCount sz))
    (htrapped : Trapped pt) :
    ∃ k',procFreepagetable k pt sz=.next k' ∧ KmemInv k' own ∧ Keeps own k k' ∧
      k'.oom=k.oom := by
  obtain ⟨htrap,hmax,_⟩ := trapframe_val
  have htramp : trampoline=2^26-1 := by decide
  obtain ⟨⟨e1,he1⟩,e2,he2⟩ := htrapped
  have hbare1 : e1.bare=false := by
    have hs := h.system trampoline e1 (by omega) (by omega) he1
    simp only [Perm.bare,hs.2.1,Bool.true_or,Bool.not_true]
  have hbare2 : e2.bare=false := by
    have hs := h.system trapframe e2 (by omega) (by omega) he2
    simp only [Perm.bare,hs.2.1,Bool.true_or,Bool.not_true]
  obtain ⟨hinv1,hlook1⟩ := h.drop_system (a:=trampoline) (by omega) (by omega) he1
  have he2' : lookup (put pt (px trampoline) none) trapframe=some e2 := by grind
  obtain ⟨hinv2,hlook2⟩ := hinv1.drop_system (a:=trapframe) (by omega) (by omega) he2'
  obtain ⟨k',hk',hrest⟩ := uvmfree_spec sz hinv2 (fun v hv hlt => by
    rw [hlook2 v (by omega)]
    split_ifs with hvt
    · rfl
    · rw [hlook1 v (by omega),if_pos (by omega)])
  refine ⟨k',?_,hrest⟩
  rw [procFreepagetable,uvmunmap_keep k (by omega) he1 hbare1,bind_next,
    uvmunmap_keep k (by omega) he2' hbare2,bind_next,hk']

lemma spaceInv_empty (h : KmemInv k (Pi.single p 1+own)) :
    SpaceInv k (.empty p) own 0 ∧ leafs (.empty p : PageTable)=0 ∧
      ∀ v,lookup (.empty p : PageTable) v=none := by
  have hnone : ∀ v,lookup (.empty p : PageTable) v=none := fun v => rfl
  have hleafs : leafs (.empty p : PageTable)=0 := by
    funext q
    by_contra hq
    obtain ⟨v,_,hv⟩ := occurrences_pos.mp (Nat.pos_of_ne_zero hq)
    rw [frame,hnone,Option.map_none] at hv
    simp only [reduceCtorEq] at hv
  refine ⟨⟨?_,fun v _ _ => hnone v,fun v _ => ?_,Nat.zero_le _,fun v e _ he => ?_,
    fun v e _ he => ?_,fun u v e e' _ _ he => ?_,fun v e _ he => ?_,fun v e _ _ he => ?_⟩,hleafs,
    hnone⟩
  · rw [tags_empty,hleafs,zero_add]
    exact h
  · simp only [hnone,reduceCtorEq,exists_false,Nat.not_lt_zero]
  all_goals
    rw [hnone] at he
    simp only [reduceCtorEq] at he

lemma map_system (h : SpaceInv k pt own n) (p : ℕ) (perm : Perm) (ha : trapframe≤a)
    (ham : a< maxPages) (hnone : lookup pt a=none) (hu : perm.u=false) (hr : perm.r=true)
    (hc : perm.cow=false) :
    ∃ k' pt' ok,mappages k pt (a*pgsize) pgsize p perm=.next (k',pt',ok) ∧
      SpaceInv k' pt' own n ∧ Undisturbed own k pt k' pt' ∧
      (if ok then k'.oom=k.oom ∧
          ∀ v,v<2^27 → lookup pt' v=if v=a then some ⟨perm,p⟩ else lookup pt v
        else k'.oom=true ∧ ∀ v,lookup pt' v=lookup pt v) := by
  obtain ⟨htrap,hmax,_⟩ := trapframe_val
  obtain ⟨k',pt',ok,hmap,hinv,hkeep,htags,htidy,hok⟩ := mappages_spec p perm h.kmem h.tidy ham hnone
  have huser : ∀ v,v<trapframe → lookup pt' v=lookup pt v := by
    intro v hv
    cases ok with
    | true => rw [hok.2 v (by omega),if_neg (by omega)]
    | false => exact hok.2 v
  have hleafs : leafs pt'=leafs pt := leafs_congr fun v hv => by rw [frame,frame,huser v hv]
  have hspace : SpaceInv k' pt' own n := by
    refine ⟨by rw [hleafs]; exact hinv,htidy,fun v hv => ?_,h.bound,fun v e hv he => ?_,
      fun v e hv he => ?_,fun u v e e' hu' hv he he' => ?_,fun v e hv he hcow => ?_,
      fun v e hv hlt he => ?_⟩
    · rw [huser v hv]
      exact h.mapped v hv
    · exact h.readable v e hv (by rw [← huser v hv]; exact he)
    · exact h.guarded v e hv (by rw [← huser v hv]; exact he)
    · rw [huser u hu'] at he
      rw [huser v hv] at he'
      exact h.injective u v e e' hu' hv he he'
    · rw [huser v hv] at he
      have hpos := leafs_pos hv he
      rw [htags e.ppn (by simp only [Pi.add_apply]; omega)]
      exact h.exclusive v e hv he hcow
    · cases ok with
      | true =>
        rw [hok.2 v (by omega)] at he
        split_ifs at he with hva
        · cases he
          exact ⟨hu,hr,hc⟩
        · exact h.system v e hv hlt he
      | false =>
        rw [hok.2 v] at he
        exact h.system v e hv hlt he
  refine ⟨k',pt',ok,hmap,hspace,⟨hkeep.mono fun q => Nat.le_add_left ..,fun q hq => ?_⟩,?_⟩
  · rw [hleafs,htags q (by simp only [Pi.add_apply]; omega)]
  · cases ok with
    | true | false => exact hok

lemma procPagetable_spec (h : KmemInv k own) (page : ℕ) :
    ∃ k' r,procPagetable k page=.next (k',r) ∧ Keeps own k k' ∧
      match r with
      | none => KmemInv k' own ∧ k'.oom=true
      | some pt => SpaceInv k' pt own 0 ∧ Trapped pt ∧ k'.oom=k.oom ∧ leafs pt=0 ∧
          ∀ q,0<own q → tags pt q=0 := by
  obtain ⟨htrap,hmax,_⟩ := trapframe_val
  have htramp : trampoline=2^26-1 := by decide
  have hzero : pageCount 0=0 := by decide
  unfold procPagetable uvmcreate
  rcases kalloc_spec h with ⟨k1,hk,hinv,hkeep,hoom⟩|⟨p,k1,hk,hfresh,hinv,hkeep,hoom⟩
  · rw [hk]
    exact ⟨k1,none,rfl,hkeep,hinv,hoom⟩
  · rw [hk]
    dsimp only
    obtain ⟨hinv1,hleafs1,hnone1⟩ := spaceInv_empty hinv
    have hclean : ∀ q,0<own q → tags (.empty p : PageTable) q=0 := by
      intro q hq
      rw [tags_empty,Pi.single_eq_of_ne (ne_of_owned hfresh hq)]
    obtain ⟨k2,pt2,ok2,hmap2,hinv2,hund2,hok2⟩ := map_system hinv1 (a:=trampoline) k.text
      ⟨true,false,true,false,false⟩ (by omega) (by omega) (hnone1 _) rfl rfl rfl
    rw [hmap2,bind_next]
    cases ok2 with
    | false =>
      obtain ⟨hoom2,hlook2⟩ := hok2
      obtain ⟨k3,hk3,hinv3,hkeep3,hoom3⟩ := uvmfree_spec 0 (by rw [hzero]; exact hinv2)
        (fun v _ _ => by rw [hlook2,hnone1])
      refine ⟨k3,none,?_,(hkeep.trans hund2.keeps).trans hkeep3,hinv3,hoom3.trans hoom2⟩
      dsimp only
      rw [hk3,bind_next]
    | true =>
      obtain ⟨hoom2,hlook2⟩ := hok2
      have hnone2 : lookup pt2 trapframe=none := by
        rw [hlook2 trapframe (by omega),if_neg (by omega),hnone1]
      obtain ⟨k3,pt3,ok3,hmap3,hinv3,hund3,hok3⟩ := map_system hinv2 (a:=trapframe) page
        ⟨true,true,false,false,false⟩ (by omega) (by omega) hnone2 rfl rfl rfl
      dsimp only
      rw [hmap3,bind_next]
      have hkeep3 := (hkeep.trans hund2.keeps).trans hund3.keeps
      cases ok3 with
      | false =>
        obtain ⟨hoom3,hlook3⟩ := hok3
        have he : lookup pt3 trampoline=some ⟨⟨true,false,true,false,false⟩,k.text⟩ := by
          rw [hlook3,hlook2 trampoline (by omega),if_pos rfl]
        obtain ⟨hinv4,hlook4⟩ := hinv3.drop_system (a:=trampoline) (by omega) (by omega) he
        obtain ⟨k4,hk4,hinv5,hkeep5,hoom5⟩ := uvmfree_spec 0 (by rw [hzero]; exact hinv4)
          (fun v hv hlt => by
            rw [hlook4 v (by omega)]
            split_ifs with hvt
            · rfl
            · rw [hlook3,hlook2 v (by omega),if_neg hvt,hnone1])
        refine ⟨k4,none,?_,hkeep3.trans hkeep5,hinv5,hoom5.trans hoom3⟩
        dsimp only
        rw [uvmunmap_keep k3 (by omega) he rfl,bind_next,hk4,bind_next]
      | true =>
        obtain ⟨hoom3,hlook3⟩ := hok3
        have hfinal : ∀ v,v<trapframe → lookup pt3 v=none := by
          intro v hv
          rw [hlook3 v (by omega),if_neg (by omega),hlook2 v (by omega),if_neg (by omega),hnone1]
        have hleafs3 : leafs pt3=0 := by
          rw [← hleafs1]
          exact leafs_congr fun v hv => by rw [frame,frame,hfinal v hv,hnone1]
        have htrapped : Trapped pt3 := by
          constructor
          · rw [hlook3 trampoline (by omega),if_neg (by omega),hlook2 trampoline (by omega),
              if_pos rfl]
            exact ⟨_,rfl⟩
          · rw [hlook3 trapframe (by omega),if_pos rfl]
            exact ⟨_,rfl⟩
        refine ⟨k3,some pt3,rfl,hkeep3,hinv3,htrapped,hoom3.trans (hoom2.trans hoom),hleafs3,
          fun q hq => ?_⟩
        · have hs2 := hund2.stable q hq
          have hs3 := hund3.stable q hq
          have hq0 := hclean q hq
          rw [hleafs1] at hs2
          simp only [Pi.zero_apply] at hs2
          omega

end Facts

end Xv6Riscv.SpaceOwnership
