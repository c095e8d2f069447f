import Xv6Riscv.SpaceOwnership

/-!
# Breaking copy-on-write sharing

handle_trap_cow reuses the frame of a COW page when it is the last reference
and copies the page otherwise; handle_cowbit always copies. Both leave what the
process sees as it was, and afterwards nobody else owns the frame, so that a
store or a copyout that follows is private.
-/

namespace Xv6Riscv.CowSharing

open Function
open Transition RadixTree PageAllocator PageTables AddressSpace PrivateSpace SpaceOwnership

section Facts

variable {k : Kmem} {pt : PageTable} {own : ℕ→ℕ} {n v : ℕ} {e : Pte}

lemma leafs_put (hv : v<trapframe) (he : lookup pt v=some e) (e' : Pte) :
    leafs (put pt (px v) (some e'))+Pi.single e.ppn 1=leafs pt+Pi.single e'.ppn 1 := by
  obtain ⟨htrap,hmax,_⟩ := trapframe_val
  have hput : ∀ u,u<2^27 → lookup (put pt (px v) (some e')) u=if u=v then some e' else lookup pt u :=
    fun u hu => lookup_put (by omega) (cell_of_lookup he) (some e') hu
  have hex := occurrences_exchange (f:=frame pt)
    (g:=update (frame pt) v (some e'.ppn)) (n:=trapframe) hv
    (fun u hu => update_of_ne hu ..)
  have hsame : occurrences (update (frame pt) v (some e'.ppn)) trapframe=
      leafs (put pt (px v) (some e')) := by
    apply occurrences_congr
    intro u hu
    by_cases huv : u=v
    · rw [huv,update_self,frame,hput v (by omega),if_pos rfl,Option.map_some]
    · rw [update_of_ne huv,frame,frame,hput u (by omega),if_neg huv]
  have hframe : frame pt v=some e.ppn := by rw [frame,he,Option.map_some]
  rw [hsame,hframe,weigh_some,update_self,weigh_some] at hex
  exact hex

lemma repte (h : SpaceInv k pt own n) (hv : v<trapframe) (he : lookup pt v=some e) {k' : Kmem}
    {e' : Pte} (hk : KmemInv k' (tags pt+(leafs (put pt (px v) (some e'))+own))) (hr : e'.r=true)
    (hguard : e'.cow=true → e'.w=false)
    (hnew : ∀ u f,u<trapframe → u≠v → lookup pt u=some f → f.ppn≠e'.ppn)
    (hprivate : e'.cow=false → tags pt e'.ppn=0 ∧ own e'.ppn=0) :
    SpaceInv k' (put pt (px v) (some e')) own n ∧
      ∀ u,u<2^27 → lookup (put pt (px v) (some e')) u=if u=v then some e' else lookup pt u := by
  obtain ⟨htrap,hmax,_⟩ := trapframe_val
  have hcell := cell_of_lookup he
  have hput : ∀ u,u<2^27 → lookup (put pt (px v) (some e')) u=if u=v then some e' else lookup pt u :=
    fun u hu => lookup_put (by omega) hcell (some e') hu
  have hself : lookup (put pt (px v) (some e')) v=some e' := by grind
  have hother : ∀ u,u<trapframe → u≠v → lookup (put pt (px v) (some e')) u=lookup pt u := by grind
  refine ⟨⟨by rw [tags_put]; exact hk,h.tidy.put (by omega) hcell _,fun u hu => ?_,h.bound,
    fun u f hu hf => ?_,fun u f hu hf => ?_,fun u u' f f' hu hu' hf hf' hp => ?_,
    fun u f hu hf hc => ?_,fun u f hu hlt hf => ?_⟩,hput⟩
  · by_cases huv : u=v
    · rw [huv,hself,← h.mapped v hv]
      exact ⟨fun _ => ⟨e,he⟩,fun _ => ⟨e',rfl⟩⟩
    · rw [hother u hu huv]
      exact h.mapped u hu
  · grind [h.readable]
  · grind [h.guarded]
  · by_cases huv : u=v
    · grind
    · grind [h.injective]
  · rw [tags_put]
    grind [h.exclusive]
  · grind [h.system]

lemma reflag (h : SpaceInv k pt own n) (hv : v<trapframe) (he : lookup pt v=some e) (e' : Pte)
    (hppn : e'.ppn=e.ppn) (hr : e'.r=true) (hguard : e'.cow=true → e'.w=false)
    (hprivate : e'.cow=false → tags pt e.ppn=0 ∧ own e.ppn=0) :
    SpaceInv k (put pt (px v) (some e')) own n ∧ leafs (put pt (px v) (some e'))=leafs pt ∧
      ∀ u,u<2^27 → lookup (put pt (px v) (some e')) u=if u=v then some e' else lookup pt u := by
  have hleafs : leafs (put pt (px v) (some e'))=leafs pt := by
    have hex := leafs_put hv he e'
    rw [hppn] at hex
    exact add_right_cancel hex
  have hkmem : KmemInv k (tags pt+(leafs (put pt (px v) (some e'))+own)) := by
    rw [hleafs]
    exact h.kmem
  obtain ⟨hinv,hlook⟩ := repte h hv he hkmem hr hguard
    (fun u f hu huv hf hp => huv (h.injective u v f e hu hv hf he (hp.trans hppn)))
    (by rw [hppn]; exact hprivate)
  exact ⟨hinv,hleafs,hlook⟩

/-- A page that the program can write, at once or after a fault. -/
def canWrite (pt : PageTable) (v : ℕ) : Bool := (lookup pt v).any fun e => e.w || e.cow

/-- How an operation may change PTEs: pages stay mapped as they are for
everybody but the writer, and PTE_W appears only on pages of T that were
marked COW. -/
structure Repaired (T : ℕ→Prop) (pt pt' : PageTable) : Prop where
  system : ∀ v,v<2^27 → trapframe≤v → lookup pt' v=lookup pt v
  mapped : ∀ v,v<trapframe → (lookup pt' v).isSome=(lookup pt v).isSome
  write : ∀ v e',v<trapframe → lookup pt' v=some e' → ∃ e,lookup pt v=some e ∧
    (e'.w=true → e.w=true ∨ e.cow=true ∧ T v) ∧ (e'.cow=true → e.cow=true)
  can : ∀ v,v<trapframe → canWrite pt v=true → canWrite pt' v=true

lemma Repaired.refl (T : ℕ→Prop) (pt : PageTable) : Repaired T pt pt :=
  ⟨fun _ _ _ => rfl,fun _ _ => rfl,fun _ e _ he => ⟨e,he,Or.inl,id⟩,fun _ _ h => h⟩

lemma Repaired.trans {T : ℕ→Prop} {pt' pt'' : PageTable} (h : Repaired T pt pt')
    (h' : Repaired T pt' pt'') : Repaired T pt pt'' := by
  refine ⟨fun u hu ht => (h'.system u hu ht).trans (h.system u hu ht),
    fun u hu => (h'.mapped u hu).trans (h.mapped u hu),fun u f hu hf => ?_,
    fun u hu hw => h'.can u hu (h.can u hu hw)⟩
  obtain ⟨f1,hf1,hw1,hc1⟩ := h'.write u f hu hf
  obtain ⟨f2,hf2,hw2,hc2⟩ := h.write u f1 hu hf1
  refine ⟨f2,hf2,fun hw => ?_,fun hc => hc2 (hc1 hc)⟩
  grind

lemma repaired_of_put {T : ℕ→Prop} {pt' : PageTable} {e' : Pte} (hv : v<trapframe)
    (he : lookup pt v=some e)
    (hlook : ∀ u,u<2^27 → lookup pt' u=if u=v then some e' else lookup pt u)
    (hwrite : e'.w=true → e.w=true ∨ e.cow=true ∧ T v) (hcow : e'.cow=true → e.cow=true)
    (hcan : e'.w=true ∨ e'.cow=true) : Repaired T pt pt' := by
  obtain ⟨htrap,hmax,_⟩ := trapframe_val
  have hself : lookup pt' v=some e' := by rw [hlook v (by omega),if_pos rfl]
  have hother : ∀ u,u<2^27 → u≠v → lookup pt' u=lookup pt u := by grind
  refine ⟨fun u hu ht => hother u hu (by omega),fun u hu => ?_,fun u f hu hf => ?_,fun u hu hw => ?_⟩
  · grind
  · grind
  · unfold canWrite at hw ⊢
    by_cases huv : u=v
    · rw [huv,hself,Option.any_some,Bool.or_eq_true]
      exact hcan
    · grind

variable (h : SpaceInv k pt own n)

include h

lemma breakCow_spec (hv : v<trapframe) (he : lookup pt v=some e) :
    ∃ k' pt' ok,breakCow k pt v e=.next (k',pt',ok) ∧ SpaceInv k' pt' own n ∧
      Undisturbed own k pt k' pt' ∧ (∀ u,u<trapframe → view k' pt' u=view k pt u) ∧
      (if ok then k'.oom=k.oom ∧ ∃ p,∀ u,u<2^27 →
          lookup pt' u=if u=v then some {e with w := true,cow := false,ppn := p} else lookup pt u
        else k'.oom=true ∧ pt'=pt) := by
  obtain ⟨htrap,hmax,_⟩ := trapframe_val
  unfold breakCow
  have hle : ∀ q,(leafs pt+own) q≤(tags pt+(leafs pt+own)) q := fun q => Nat.le_add_left ..
  have hcount : ∀ u f,u<trapframe → lookup pt u=some f → 0<(leafs pt+own) f.ppn := by
    intro u f hu hf
    have hp := leafs_pos hu hf
    simp only [Pi.add_apply]
    omega
  rcases kalloc_spec h.kmem with ⟨k1,hk,hinv,hkeep,hoom⟩|⟨p,k1,hk,hfresh,hinv,hkeep,hoom⟩
  · rw [hk]
    refine ⟨k1,pt,false,rfl,h.reown hinv (fun _ _ _ _ _ hz => hz),
      ⟨hkeep.mono fun q => ?_,fun _ _ => Nat.le_refl _⟩,fun u hu => ?_,hoom,rfl⟩
    · simp only [Pi.add_apply]
      omega
    · exact view_eq rfl (hkeep.mono hle) (fun f hf => hcount u f hu hf)
  · rw [hk]
    dsimp only
    have hzero : tags pt p=0 ∧ leafs pt p=0 ∧ own p=0 := by grind [Pi.add_apply]
    have hne : ∀ u f,u<trapframe → lookup pt u=some f → f.ppn≠p := by
      intro u f hu hf
      exact ne_of_owned hzero.2.1 (leafs_pos hu hf)
    have hex := leafs_put hv he {e with w := true,cow := false,ppn := p}
    have hfree : KmemInv (k1.store p (k1.mem e.ppn)) (Pi.single e.ppn 1+(tags pt+
        (leafs (put pt (px v) (some {e with w := true,cow := false,ppn := p}))+own))) := by
      refine (hinv.store p (k1.mem e.ppn)).mono fun q => ?_
      have hq := congrFun hex q
      grind [Pi.add_apply]
    obtain ⟨k2,hk2,hinv2,hkeep2,hoom2⟩ := kfree_spec hfree
    rw [hk2,bind_next]
    obtain ⟨hspace,hlook⟩ := repte h hv he hinv2 (h.readable v e hv he)
      (fun hc => by simp only [Bool.false_eq_true] at hc)
      (fun u f hu _ hf => hne u f hu hf) (fun _ => ⟨hzero.1,hzero.2.2⟩)
    have hstore : ∀ q,q≠p → (k1.store p (k1.mem e.ppn)).mem q=k1.mem q := fun q hq =>
      update_of_ne hq ..
    have hmem : ∀ u f,u<trapframe → lookup pt u=some f → k1.mem f.ppn=k.mem f.ppn := by
      intro u f hu hf
      exact (hkeep.mono hle).mem f.ppn (hcount u f hu hf)
    refine ⟨k2,_,true,rfl,hspace,⟨⟨?_,?_,fun q hq => ?_⟩,fun q hq => ?_⟩,fun u hu => ?_,
      hoom2.trans hoom,p,hlook⟩
    · exact hkeep2.first.trans hkeep.first
    · intro ho
      exact hkeep.oom (hkeep2.oom ho)
    · have hqp := ne_of_owned hzero.2.2 hq
      grind [hkeep2.mem,Pi.add_apply,hkeep.mem]
    · have hqp := ne_of_owned hzero.2.2 hq
      have hcnt := congrFun hex q
      rw [tags_put]
      grind [Pi.add_apply]
    · unfold view
      rw [hlook u (by omega)]
      split_ifs with huv
      · have hpos : 0<(tags pt+(leafs (put pt (px v)
            (some {e with w := true,cow := false,ppn := p}))+own)) p := by
          have hself := leafs_pos hv ((hlook v (by omega)).trans (if_pos rfl))
          grind [Pi.add_apply]
        have hcopy : k2.mem p=k.mem e.ppn := by
          have hset : (k1.store p (k1.mem e.ppn)).mem p=k1.mem e.ppn := update_self ..
          rw [hkeep2.mem p hpos,hset,hmem v e hv he]
        grind
      · cases hf : lookup pt u with
        | none => rfl
        | some f =>
          have hpos : 0<(tags pt+(leafs (put pt (px v)
              (some {e with w := true,cow := false,ppn := p}))+own)) f.ppn := by
            have hself := leafs_pos hu (((hlook u (by omega)).trans (if_neg huv)).trans hf)
            simp only [Pi.add_apply]
            omega
          rw [Option.map_some,Option.map_some,hkeep2.mem f.ppn hpos,
            hstore f.ppn (hne u f hu hf),hmem u f hu hf]

lemma handleCowbit_spec (hv : v<trapframe) (he : lookup pt v=some e) :
    ∃ k' pt' ok,handleCowbit k pt v e=.next (k',pt',ok) ∧ SpaceInv k' pt' own n ∧
      Undisturbed own k pt k' pt' ∧ (∀ u,u<trapframe → view k' pt' u=view k pt u) ∧
      Repaired (· = v) pt pt' ∧
      (if ok then k'.oom=k.oom ∧ ∃ e',lookup pt' v=some e' ∧ e'.cow=false ∧ e'.u=e.u
        else k'.oom=true) := by
  obtain ⟨htrap,hmax,_⟩ := trapframe_val
  unfold handleCowbit
  by_cases hcow : e.cow=true
  · rw [if_pos hcow]
    obtain ⟨k',pt',ok,hrun,hinv,hund,hview,hok⟩ := breakCow_spec h hv he
    refine ⟨k',pt',ok,hrun,hinv,hund,hview,?_,?_⟩
    · cases ok with
      | true =>
        obtain ⟨_,p,hlook⟩ := hok
        exact repaired_of_put hv he hlook (fun _ => Or.inr ⟨hcow,rfl⟩) (fun _ => hcow) (Or.inl rfl)
      | false =>
        rw [hok.2]
        exact Repaired.refl _ pt
    · cases ok with
      | true =>
        grind
      | false => exact hok.1
  · rw [if_neg hcow]
    refine ⟨k,pt,true,rfl,h,Undisturbed.refl own k pt,fun _ _ => rfl,Repaired.refl _ pt,rfl,e,he,?_,
      rfl⟩
    exact Bool.eq_false_iff.mpr hcow

lemma handleTrapCow_spec (hv : v<trapframe) (he : lookup pt v=some e) :
    ∃ k' pt' ok,handleTrapCow k pt v e=.next (k',pt',ok) ∧ SpaceInv k' pt' own n ∧
      Undisturbed own k pt k' pt' ∧ (∀ u,u<trapframe → view k' pt' u=view k pt u) ∧
      Repaired (· = v) pt pt' ∧
      (if ok then k'.oom=k.oom ∧ (e.cow=false → k'=k ∧ pt'=pt) ∧
          (e.cow=true → ∃ e',lookup pt' v=some e' ∧ e'.w=true ∧ e'.u=e.u)
        else k'.oom=true) := by
  obtain ⟨htrap,hmax,_⟩ := trapframe_val
  unfold handleTrapCow
  by_cases hcow : e.cow=true
  · by_cases hone : k.refCnt e.ppn=1
    · rw [if_neg (by simp only [hone,ne_eq,not_true_eq_false,and_false,not_false_eq_true]),
        if_pos ⟨hcow,hone⟩]
      have hlast : tags pt e.ppn=0 ∧ own e.ppn=0 := by
        have hcover := h.kmem.owned e.ppn
        have hpos := leafs_pos hv he
        simp only [Pi.add_apply,hone] at hcover
        omega
      obtain ⟨hinv,hleafs,hlook⟩ := reflag h hv he {e with cow := false,w := true} rfl
        (h.readable v e hv he) (fun hc => by simp only [Bool.false_eq_true] at hc) (fun _ => hlast)
      refine ⟨k,_,true,rfl,hinv,⟨Keeps.refl own k,fun q _ => ?_⟩,fun u hu => ?_,
        repaired_of_put hv he hlook (fun _ => Or.inr ⟨hcow,rfl⟩) (fun _ => hcow) (Or.inl rfl),rfl,
        fun hc => ?_,fun _ => ⟨{e with cow := false,w := true},?_,rfl,rfl⟩⟩
      · rw [tags_put,hleafs]
      · grind [view]
      · grind
      · grind
    · rw [if_pos ⟨hcow,hone⟩]
      obtain ⟨k',pt',ok,hrun,hinv,hund,hview,hok⟩ := breakCow_spec h hv he
      refine ⟨k',pt',ok,hrun,hinv,hund,hview,?_,?_⟩
      · cases ok with
        | true =>
          obtain ⟨_,p,hlook⟩ := hok
          exact repaired_of_put hv he hlook (fun _ => Or.inr ⟨hcow,rfl⟩) (fun _ => hcow)
            (Or.inl rfl)
        | false =>
          rw [hok.2]
          exact Repaired.refl _ pt
      · cases ok with
        | true =>
          grind
        | false => exact hok.1
  · rw [if_neg (fun hc => hcow hc.1),if_neg (fun hc => hcow hc.1)]
    refine ⟨k,pt,true,rfl,h,Undisturbed.refl own k pt,fun _ _ => rfl,Repaired.refl _ pt,rfl,
      fun _ => ⟨rfl,rfl⟩,fun hc => absurd hc hcow⟩

lemma write_page (hv : v<trapframe) (he : lookup pt v=some e) (hcow : e.cow=false) (d : Page) :
    SpaceInv (k.store e.ppn d) pt own n ∧ Undisturbed own k pt (k.store e.ppn d) pt ∧
      ∀ u,u<trapframe → view (k.store e.ppn d) pt u=
        if u=v then some ⟨d,e.x,e.u⟩ else view k pt u := by
  have hx := h.exclusive v e hv he hcow
  refine ⟨h.store e.ppn d,⟨Keeps.store k d hx.2,fun _ _ => Nat.le_refl _⟩,fun u hu => ?_⟩
  unfold view
  split_ifs with huv
  · have hset : (k.store e.ppn d).mem e.ppn=d := update_self ..
    grind
  · cases hf : lookup pt u with
    | none => rfl
    | some f =>
      have hne : f.ppn≠e.ppn := fun hp => huv (h.injective u v f e hu hv hf he hp)
      have hset : (k.store e.ppn d).mem f.ppn=k.mem f.ppn := update_of_ne hne ..
      grind

lemma not_cow_of_write (hv : v<trapframe) (he : lookup pt v=some e) (hw : e.w=true) :
    e.cow=false := by grind [h.guarded]

lemma storeThrough_spec {va : ℕ} {b : UInt8} {k' : Kmem} (hva : va/pgsize< maxPages)
    (hs : (lookup pt (va/pgsize)).bind (storeThrough k · va b)=some k') :
    SpaceInv k' pt own n ∧ Undisturbed own k pt k' pt ∧ k'.oom=k.oom ∧
      ∀ u,u<trapframe → view k' pt u=if u=va/pgsize then
        (view k pt u).map fun p => {p with data := writeBytes p.data (va%pgsize) [b]}
        else view k pt u := by
  cases he : lookup pt (va/pgsize) with
  | none => simp only [he,Option.bind_none,reduceCtorEq] at hs
  | some e =>
    rw [he,Option.bind_some,storeThrough] at hs
    split_ifs at hs with hperm
    rw [Option.some.injEq] at hs
    rw [Bool.and_eq_true] at hperm
    have hv : va/pgsize<trapframe := by
      by_contra hge
      have hsys := h.system (va/pgsize) e (by omega) hva he
      grind
    have hcow := not_cow_of_write h hv he hperm.2
    obtain ⟨hinv,hund,hview⟩ := write_page h hv he hcow
      (writeBytes (k.mem e.ppn) (va%pgsize) [b])
    subst hs
    refine ⟨hinv,hund,rfl,fun u hu => ?_⟩
    grind [view]

/-- A user store, with the fault it may cause, keeps the invariant and
disturbs nobody; or the kernel reads through a null PTE pointer. -/
lemma userStore_spec (va : ℕ) (b : UInt8) : userStore k pt va b=.panic "kerneltrap" ∨
    ∃ k' pt' ok,userStore k pt va b=.next (k',pt',ok) ∧ SpaceInv k' pt' own n ∧
      Undisturbed own k pt k' pt' ∧ Repaired (fun u => va≠0 ∧ u=va/pgsize) pt pt' := by
  obtain ⟨htrap,hmax,_⟩ := trapframe_val
  unfold userStore
  by_cases hva : maxPages≤va/pgsize
  · rw [if_pos hva]
    exact Or.inr ⟨k,pt,false,rfl,h,Undisturbed.refl own k pt,Repaired.refl _ pt⟩
  · rw [if_neg hva]
    cases hs : (lookup pt (va/pgsize)).bind (storeThrough k · va b) with
    | some k' =>
      obtain ⟨hinv,hund,_,_⟩ := storeThrough_spec h (by omega) hs
      exact Or.inr ⟨k',pt,true,rfl,hinv,hund,Repaired.refl _ pt⟩
    | none =>
      dsimp only
      by_cases hzero : va=0
      · rw [if_pos hzero]
        exact Or.inr ⟨k,pt,false,rfl,h,Undisturbed.refl own k pt,Repaired.refl _ pt⟩
      · rw [if_neg hzero]
        cases hcell : cell pt (px (va/pgsize)) with
        | none => exact Or.inl rfl
        | some c =>
          cases c with
          | none => exact Or.inr ⟨k,pt,true,rfl,h,Undisturbed.refl own k pt,Repaired.refl _ pt⟩
          | some e =>
            right
            have he : lookup pt (va/pgsize)=some e := by
              unfold lookup RadixTree.get
              rw [hcell,Option.join_some]
            have htrapcow : ∃ k1 pt1 ok,handleTrapCow k pt (va/pgsize) e=.next (k1,pt1,ok) ∧
                SpaceInv k1 pt1 own n ∧ Undisturbed own k pt k1 pt1 ∧
                Repaired (fun u => va≠0 ∧ u=va/pgsize) pt pt1 := by
              by_cases hv : va/pgsize<trapframe
              · obtain ⟨k1,pt1,ok,hrun,hinv,hund,_,hrep,_⟩ := handleTrapCow_spec h hv he
                refine ⟨k1,pt1,ok,hrun,hinv,hund,hrep.system,hrep.mapped,fun u f hu hf => ?_,
                  hrep.can⟩
                obtain ⟨f1,hf1,hw1,hc1⟩ := hrep.write u f hu hf
                grind
              · have hsys := (h.system (va/pgsize) e (by omega) (by omega) he).2.2
                refine ⟨k,pt,true,?_,h,Undisturbed.refl own k pt,Repaired.refl _ pt⟩
                rw [handleTrapCow,hsys]
                grind
            obtain ⟨k1,pt1,ok,hrun,hinv1,hund1,hrep1⟩ := htrapcow
            dsimp only
            rw [hrun,bind_next]
            cases ok with
            | false => exact ⟨k1,pt1,false,rfl,hinv1,hund1,hrep1⟩
            | true =>
              dsimp only
              cases hs1 : (lookup pt1 (va/pgsize)).bind (storeThrough k1 · va b) with
              | none => exact ⟨k1,pt1,true,rfl,hinv1,hund1,hrep1⟩
              | some k2 =>
                obtain ⟨hinv2,hund2,_,_⟩ := storeThrough_spec hinv1 (by omega) hs1
                exact ⟨k2,pt1,true,rfl,hinv2,hund1.trans hund2,hrep1⟩

lemma userStore_legal {va : ℕ} (b : UInt8) (hzero : va≠0) (hva : va/pgsize<trapframe)
    (hcan : canWrite pt (va/pgsize)=true) (hu : ∃ p,view k pt (va/pgsize)=some p ∧ p.u=true) :
    ∃ k' pt' ok,userStore k pt va b=.next (k',pt',ok) ∧
      (k'.oom=false → ok=true ∧ ∀ u,u<trapframe → view k' pt' u=if u=va/pgsize then
        (view k pt u).map fun p => {p with data := writeBytes p.data (va%pgsize) [b]}
        else view k pt u) := by
  obtain ⟨htrap,hmax,_⟩ := trapframe_val
  obtain ⟨p,hp,hpu⟩ := hu
  unfold canWrite at hcan
  unfold view at hp
  cases he : lookup pt (va/pgsize) with
  | none => simp only [he,Option.map_none,reduceCtorEq] at hp
  | some e =>
    rw [he,Option.map_some,Option.some.injEq] at hp
    rw [he,Option.any_some,Bool.or_eq_true] at hcan
    have heu : e.u=true := by
      rw [← hp] at hpu
      exact hpu
    unfold userStore
    rw [if_neg (by omega)]
    cases hs : (lookup pt (va/pgsize)).bind (storeThrough k · va b) with
    | some k' =>
      obtain ⟨_,_,_,hview⟩ := storeThrough_spec h (by omega) hs
      exact ⟨k',pt,true,rfl,fun _ => ⟨rfl,hview⟩⟩
    | none =>
      have hnotw : e.w=false := by
        rw [he,Option.bind_some,storeThrough,heu,Bool.true_and] at hs
        cases hw : e.w with
        | false => rfl
        | true => simp only [hw,if_true,reduceCtorEq] at hs
      have hcow : e.cow=true := by
        rcases hcan with hw|hc
        · rw [hnotw] at hw
          simp only [Bool.false_eq_true] at hw
        · exact hc
      obtain ⟨k1,pt1,ok,hrun,hinv,_,hview,_,hok⟩ := handleTrapCow_spec h hva he
      dsimp only
      rw [if_neg hzero,cell_of_lookup he]
      dsimp only
      rw [hrun,bind_next]
      cases ok with
      | false =>
        refine ⟨k1,pt1,false,rfl,fun ho => ?_⟩
        have hoom : k1.oom=true := hok
        rw [hoom] at ho
        simp only [Bool.true_eq_false] at ho
      | true =>
        obtain ⟨_,_,hwrite⟩ := hok
        obtain ⟨e',he',hw',hu'⟩ := hwrite hcow
        have hstore : (lookup pt1 (va/pgsize)).bind (storeThrough k1 · va b)=
            some (k1.store e'.ppn (writeBytes (k1.mem e'.ppn) (va%pgsize) [b])) := by
          rw [he',Option.bind_some,storeThrough,hw',hu',heu]
          rfl
        obtain ⟨_,_,_,hview2⟩ := storeThrough_spec hinv (by omega) hstore
        dsimp only
        rw [hstore]
        refine ⟨_,pt1,true,rfl,fun _ => ⟨rfl,fun u hu => ?_⟩⟩
        rw [hview2 u hu,hview u hu]

end Facts

end Xv6Riscv.CowSharing
