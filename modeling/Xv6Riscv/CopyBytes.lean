import Xv6Riscv.CowSharing

/-!
# copyout and copyin against private address spaces

copyout stores through frames and breaks sharing page by page; copyin reads
through frames. As long as kalloc does not fail, both do to the process's view
what they do to a private address space.
-/

namespace Xv6Riscv.CopyBytes

open Transition RadixTree PageAllocator PageTables AddressSpace PrivateSpace SpaceOwnership
open CowSharing

section Facts

variable {k : Kmem} {pt : PageTable} {own : ℕ→ℕ} {n : ℕ} {A : Space}

/-- The pages that a copy of len bytes to an address touches. -/
def Touches (dstva len : ℕ) (u : ℕ) : Prop := dstva/pgsize≤u ∧ u*pgsize<dstva+len

lemma repaired_mono {T T' : ℕ→Prop} {pt' : PageTable} (h : Repaired T pt pt')
    (hsub : ∀ u,T u → T' u) : Repaired T' pt pt' := by
  refine ⟨h.system,h.mapped,fun u f hu hf => ?_,h.can⟩
  obtain ⟨f1,hf1,hw1,hc1⟩ := h.write u f hu hf
  grind

lemma touches_rest {dstva len u : ℕ}
    (h : Touches ((dstva/pgsize+1)*pgsize) (len-min (pgsize-dstva%pgsize) len) u) :
    Touches dstva len u := by
  simp only [Touches,pgsize] at h ⊢
  omega

lemma touches_first {dstva len : ℕ} (hlen : 0<len) : Touches dstva len (dstva/pgsize) := by
  simp only [Touches,pgsize]
  omega

lemma access_eq (hA : ∀ v,v<trapframe → view k pt v=A.page v) {v : ℕ} {e : Pte}
    (hv : v<trapframe) (he : lookup pt v=some e) :
    A.access v=if e.u then some ⟨k.mem e.ppn,e.x,e.u⟩ else none := by
  grind [view,Space.access]

lemma access_none (hA : ∀ v,v<trapframe → view k pt v=A.page v) {v : ℕ}
    (hnone : lookup pt v=none) : A.access v=none := by
  grind [Space.access,view]

variable (h : SpaceInv k pt own n)

include h

/-- The loop of copyout keeps the invariant, disturbs nobody, and does what it
does to a private address space unless kalloc fails and the process exits. -/
lemma copyoutLoop_spec (hA : ∀ v,v<trapframe → view k pt v=A.page v) (dstva : ℕ)
    (src : List UInt8) (fuel : ℕ) :
    ∃ k' pt' r,copyoutLoop k pt dstva src fuel=.next (k',pt',r) ∧ SpaceInv k' pt' own n ∧
      Undisturbed own k pt k' pt' ∧ Repaired (Touches dstva src.length) pt pt' ∧
      (r=.exited ∧ k'.oom=true ∨ r=(A.copyoutLoop dstva src fuel).2 ∧
        ∀ v,v<trapframe → view k' pt' v=(A.copyoutLoop dstva src fuel).1.page v) := by
  obtain ⟨htrap,hmax,_⟩ := trapframe_val
  induction fuel generalizing k pt A dstva src with
  | zero =>
    exact ⟨k,pt,.done,rfl,h,Undisturbed.refl own k pt,Repaired.refl _ pt,Or.inr ⟨rfl,hA⟩⟩
  | succ fuel ih =>
    by_cases hsrc : src=[]
    · subst hsrc
      rw [Space.copyoutLoop_nil]
      refine ⟨k,pt,.done,?_,h,Undisturbed.refl own k pt,Repaired.refl _ pt,Or.inr ⟨rfl,hA⟩⟩
      rw [copyoutLoop,if_pos rfl]
    · have hlen : 0<src.length := List.length_pos_iff.mpr hsrc
      have hfailed : dstva/pgsize=0 ∨ A.access (dstva/pgsize)=none →
          Repaired (Touches dstva src.length) pt pt ∧
            (CopyResult.failed=.exited ∧ k.oom=true ∨
              CopyResult.failed=(A.copyoutLoop dstva src (fuel+1)).2 ∧
              ∀ v,v<trapframe → view k pt v=(A.copyoutLoop dstva src (fuel+1)).1.page v) := by
        intro hstop
        rw [Space.copyoutLoop_stop fuel hsrc hstop]
        exact ⟨Repaired.refl _ pt,Or.inr ⟨rfl,hA⟩⟩
      rw [copyoutLoop,if_neg hsrc]
      dsimp only
      by_cases hbad : maxPages≤dstva/pgsize ∨ dstva/pgsize=0
      · rw [if_pos hbad]
        refine ⟨k,pt,.failed,rfl,h,Undisturbed.refl own k pt,hfailed ?_⟩
        rcases hbad with hbig|hz
        · exact Or.inr (by rw [Space.access,if_pos (by omega)])
        · exact Or.inl hz
      · rw [if_neg hbad]
        cases he : lookup pt (dstva/pgsize) with
        | none =>
          exact ⟨k,pt,.failed,rfl,h,Undisturbed.refl own k pt,hfailed (Or.inr (access_none hA he))⟩
        | some e =>
          dsimp only
          by_cases hu : e.u=false
          · rw [if_pos hu]
            refine ⟨k,pt,.failed,rfl,h,Undisturbed.refl own k pt,hfailed (Or.inr ?_)⟩
            by_cases hv : dstva/pgsize<trapframe
            · rw [access_eq hA hv he,hu]
              rfl
            · rw [Space.access,if_pos (by omega)]
          · rw [if_neg hu]
            have hut : e.u=true := by
              cases heu : e.u with
              | true => rfl
              | false => exact absurd heu hu
            have hv : dstva/pgsize<trapframe := by
              by_contra hge
              have hsys := (h.system (dstva/pgsize) e (by omega) (by omega) he).1
              exact hu hsys
            obtain ⟨k1,pt1,ok,hrun,hinv1,hund1,hview1,hrep1,hok⟩ := handleCowbit_spec h hv he
            have hrep1' : Repaired (Touches dstva src.length) pt pt1 :=
              repaired_mono hrep1 (fun u hu' => by rw [hu']; exact touches_first hlen)
            rw [hrun,bind_next]
            cases ok with
            | false =>
              exact ⟨k1,pt1,.exited,rfl,hinv1,hund1,hrep1',Or.inl ⟨rfl,hok⟩⟩
            | true =>
              obtain ⟨hoom1,e1,he1,hcow1,hu1⟩ := hok
              have hwalk : walkaddr pt1 (dstva/pgsize)=some e1.ppn := by
                rw [walkaddr,if_neg (by omega),he1,Option.bind_some,hu1,hut]
                rfl
              dsimp only
              rw [hwalk]
              dsimp only
              obtain ⟨hinv2,hund2,hview2⟩ := write_page hinv1 hv he1 hcow1
                (writeBytes (k1.mem e1.ppn) (dstva%pgsize)
                  (src.take (min (pgsize-dstva%pgsize) src.length)))
              have hA2 : ∀ v,v<trapframe →
                  view (k1.store e1.ppn (writeBytes (k1.mem e1.ppn) (dstva%pgsize)
                    (src.take (min (pgsize-dstva%pgsize) src.length)))) pt1 v=
                  (A.edit (dstva/pgsize) fun d => writeBytes d (dstva%pgsize)
                    (src.take (min (pgsize-dstva%pgsize) src.length))).page v := by
                intro v hvt
                rw [hview2 v hvt]
                by_cases hvd : v=dstva/pgsize
                · have hpage : A.page v=some ⟨k1.mem e1.ppn,e1.x,e1.u⟩ := by
                    rw [← hA v hvt,← hview1 v hvt,hvd,view,he1,Option.map_some]
                  rw [if_pos hvd,Space.edit]
                  dsimp only
                  rw [if_pos hvd,hpage,Option.map_some]
                · rw [if_neg hvd,hview1 v hvt,hA v hvt,Space.edit]
                  dsimp only
                  rw [if_neg hvd]
              obtain ⟨k3,pt3,r,hloop,hinv3,hund3,hrep3,hres⟩ := ih hinv2 hA2
                ((dstva/pgsize+1)*pgsize) (src.drop (min (pgsize-dstva%pgsize) src.length))
              have hacc : A.access (dstva/pgsize)=some ⟨k.mem e.ppn,e.x,e.u⟩ := by
                rw [access_eq hA hv he,hut]
                rfl
              rw [Space.copyoutLoop_go fuel hsrc (fun hz => hbad (Or.inr hz)) hacc]
              refine ⟨k3,pt3,r,hloop,hinv3,(hund1.trans hund2).trans hund3,
                hrep1'.trans (repaired_mono hrep3 (fun u ht => ?_)),hres⟩
              rw [List.length_drop] at ht
              exact touches_rest ht

lemma copyout_spec (dstva : ℕ) (src : List UInt8) :
    ∃ k' pt' r,copyout k pt dstva src=.next (k',pt',r) ∧ SpaceInv k' pt' own n ∧
      Undisturbed own k pt k' pt' ∧ Repaired (Touches dstva src.length) pt pt' ∧
      ∀ A : Space,(∀ v,v<trapframe → view k pt v=A.page v) → k'.oom=false →
        r=(A.copyout dstva src).2 ∧
        ∀ v,v<trapframe → view k' pt' v=(A.copyout dstva src).1.page v := by
  obtain ⟨k',pt',r,hrun,hinv,hund,hrep,_⟩ := copyoutLoop_spec h (A:=⟨view k pt,fun _ => false⟩)
    (fun _ _ => rfl) dstva src src.length
  refine ⟨k',pt',r,hrun,hinv,hund,hrep,fun A hA hoom => ?_⟩
  obtain ⟨k1,pt1,r1,hrun1,_,_,_,hres⟩ := copyoutLoop_spec h hA dstva src src.length
  rw [hrun] at hrun1
  cases hrun1
  rcases hres with ⟨_,hfull⟩|hres
  · rw [hoom] at hfull
    cases hfull
  · exact hres

lemma copyinLoop_eq (hA : ∀ v,v<trapframe → view k pt v=A.page v) (srcva len fuel : ℕ) :
    copyinLoop k pt srcva len fuel=A.copyinLoop srcva len fuel := by
  obtain ⟨htrap,hmax,_⟩ := trapframe_val
  induction fuel generalizing srcva len with
  | zero => rfl
  | succ fuel ih =>
    rw [copyinLoop,Space.copyinLoop]
    by_cases hlen : len=0
    · rw [if_pos hlen,if_pos hlen]
    · rw [if_neg hlen,if_neg hlen]
      have haddr : walkaddr pt (srcva/pgsize)=none ∧ A.access (srcva/pgsize)=none ∨
          ∃ e : Pte,walkaddr pt (srcva/pgsize)=some e.ppn ∧
            A.access (srcva/pgsize)=some ⟨k.mem e.ppn,e.x,e.u⟩ := by
        unfold walkaddr
        by_cases hbig : maxPages≤ srcva/pgsize
        · grind [Space.access]
        · rw [if_neg hbig]
          cases he : lookup pt (srcva/pgsize) with
          | none => exact Or.inl ⟨rfl,access_none hA he⟩
          | some e =>
            rw [Option.bind_some]
            by_cases hv : srcva/pgsize<trapframe
            · rw [access_eq hA hv he]
              cases hu : e.u with
              | true => exact Or.inr ⟨e,rfl,by rw [if_pos rfl,hu]⟩
              | false => exact Or.inl ⟨rfl,rfl⟩
            · have hsys := (h.system (srcva/pgsize) e (by omega) (by omega) he).1
              have hfar : A.access (srcva/pgsize)=none := by rw [Space.access,if_pos (by omega)]
              rw [hsys,hfar]
              exact Or.inl ⟨rfl,rfl⟩
      rcases haddr with ⟨h1,h2⟩|⟨e,h1,h2⟩
      · rw [h1,h2]
      · rw [h1,h2]
        dsimp only
        rw [ih]

lemma userLoad_eq (hA : ∀ v,v<trapframe → view k pt v=A.page v) (va : ℕ) :
    userLoad k pt va=A.load va := by
  obtain ⟨htrap,hmax,_⟩ := trapframe_val
  unfold userLoad Space.load
  by_cases hbig : maxPages≤va/pgsize
  · grind [Space.access]
  · rw [if_neg hbig]
    cases he : lookup pt (va/pgsize) with
    | none => rw [access_none hA he,Option.bind_none,Option.map_none]
    | some e =>
      rw [Option.bind_some]
      by_cases hv : va/pgsize<trapframe
      · rw [access_eq hA hv he,h.readable _ e hv he,Bool.and_true]
        cases hu : e.u with
        | true | false => rfl
      · have hsys := (h.system (va/pgsize) e (by omega) (by omega) he).1
        have hfar : A.access (va/pgsize)=none := by rw [Space.access,if_pos (by omega)]
        rw [hsys,hfar]
        rfl

end Facts

end Xv6Riscv.CopyBytes
