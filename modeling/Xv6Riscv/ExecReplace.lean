import Xv6Riscv.CopyBytes
import Xv6Riscv.ExecImage

/-!
# exec keeps the allocator's invariant and builds the image it should

Each operation that exec uses keeps the invariant of the image under
construction and, unless memory runs out, does to it what it does to a private
address space. exec then never reaches the panic of loadseg, gives back
everything it took when it fails, and otherwise replaces the old image.
-/

namespace Xv6Riscv.ExecReplace

open Transition RadixTree PageAllocator PageTables AddressSpace PrivateSpace SpaceOwnership
  CowSharing CopyBytes ExecImage

section Image

variable {k : Kmem} {pt : PageTable} {own : ℕ→ℕ} {sz : ℕ}

structure Image (k : Kmem) (pt : PageTable) (own : ℕ→ℕ) (sz : ℕ) : Prop where
  space : SpaceInv k pt own (pageCount sz)
  small : sz<2^63
  trapped : Trapped pt
  plain : ∀ v e,v<trapframe → lookup pt v=some e → e.cow=false

/-- Every page of an image is the user's, as long as there is no guard page. -/
def Users (pt : PageTable) : Prop := ∀ v e,v<trapframe → lookup pt v=some e → e.u=true

structure Shown (k : Kmem) (pt : PageTable) (A : Space) : Prop where
  page : ∀ v,v<trapframe → view k pt v=A.page v
  w : ∀ v,v<trapframe → (lookup pt v).any (·.w)=A.w v

variable (h : Image k pt own sz)

include h

lemma alloc_image (newsz : ℕ) (w x : Bool) :
    ∃ k' pt' r,memoryOps.uvmalloc (k,pt) sz newsz w x=.next ((k',pt'),r) ∧
      Undisturbed own k pt k' pt' ∧ Image k' pt' own (if r=0 then sz else r) ∧
      (Users pt → Users pt') ∧ (r≠0 → newsz≤r) ∧
      ∀ A,Shown k pt A → k'.oom=false →
        ∃ A',spaceOps.uvmalloc A sz newsz w x=.next (A',r) ∧ Shown k' pt' A' := by
  obtain ⟨htrap,_,_⟩ := trapframe_val
  obtain ⟨k',pt',r,hrun,hund,hsame,hview,hcase⟩ := uvmalloc_spec newsz h.space h.small w x
  have hops : memoryOps.uvmalloc (k,pt) sz newsz w x=.next ((k',pt'),r) := by
    simp only [memoryOps,hrun,bind_next]
  have hsys : Trapped pt' := h.trapped.congr fun v hv hs => hsame v hv (Or.inr hs)
  refine ⟨k',pt',r,hops,hund,?_⟩
  rcases hcase with ⟨hlt,hr,hk,hpt⟩|⟨hle,hsmall,hr,hinv,hoom,hcount,hnew⟩|⟨hle,hr,hinv,hoom⟩
  · subst hr hk hpt
    have hr0 : r≠0 := by omega
    refine ⟨by rw [if_neg hr0]; exact h,id,fun _ => by omega,fun A hA _ => ⟨A,?_,hA⟩⟩
    simp only [spaceOps,if_pos hlt]
  · subst hr
    have hpages : ∀ v,v<trapframe → v<pageCount sz ∧ lookup pt' v=lookup pt v ∨
        pageCount sz≤v ∧ lookup pt v=none ∧ (v<pageCount r ∧
          (∃ e,lookup pt' v=some e ∧ e.toPerm=userPerm w x) ∨
          pageCount r≤v ∧ lookup pt' v=none) := by
      intro v hv
      by_cases hvs : v<pageCount sz
      · exact Or.inl ⟨hvs,hsame v (by omega) (Or.inl hvs)⟩
      · have hnone : lookup pt v=none := by
          cases hl : lookup pt v with
          | none => rfl
          | some e => exact absurd ((h.space.mapped v hv).mp ⟨e,hl⟩) hvs
        refine Or.inr ⟨by omega,hnone,?_⟩
        by_cases hvr : v<pageCount r
        · exact Or.inl ⟨hvr,(hnew v (by omega) hvr).2⟩
        · refine Or.inr ⟨by omega,?_⟩
          cases hl : lookup pt' v with
          | none => rfl
          | some e => exact absurd ((hinv.mapped v hv).mp ⟨e,hl⟩) hvr
    have hfresh : ∀ v e,v<trapframe → lookup pt' v=some e → lookup pt v=some e ∨
        e.toPerm=userPerm w x := by
      intro v e hv he
      rcases hpages v hv with ⟨_,hl⟩|⟨_,_,⟨_,e1,he1,hp⟩|⟨_,hn⟩⟩
      · exact Or.inl (hl.symm.trans he)
      · rw [he] at he1
        cases he1
        exact Or.inr hp
      · rw [he] at hn
        cases hn
    have himage : Image k' pt' own r := by
      refine ⟨hinv,hsmall,hsys,fun v e hv he => ?_⟩
      rcases hfresh v e hv he with hold|hp
      · exact h.plain v e hv hold
      · rw [hp,userPerm]
    refine ⟨?_,fun husers v e hv he => ?_,fun _ => Nat.le_refl _,fun A hA _ => ?_⟩
    · by_cases hr0 : r=0
      · have hsz : sz=r := by omega
        rw [if_pos hr0,hsz]
        exact himage
      · rw [if_neg hr0]
        exact himage
    · rcases hfresh v e hv he with hold|hp
      · exact husers v e hv hold
      · rw [hp,userPerm]
    · refine ⟨_,by simp only [spaceOps,if_neg (by omega : ¬ r<sz)]; rfl,fun v hv => ?_,fun v hv => ?_⟩
      · rcases hpages v hv with ⟨hvs,_⟩|⟨hvs,hnone,⟨hvr,_⟩|⟨hvr,hn⟩⟩
        · simp only [Space.alloc]
          rw [if_neg (by omega),← hA.page v hv]
          exact hview v hvs
        · simp only [Space.alloc]
          rw [if_pos (by omega)]
          exact (hnew v hvs hvr).1
        · simp only [Space.alloc]
          rw [if_neg (by omega),← hA.page v hv,view,view,hn,hnone]
          rfl
      · rcases hpages v hv with ⟨hvs,hl⟩|⟨hvs,hnone,⟨hvr,e,he,hp⟩|⟨hvr,hn⟩⟩
        · simp only [Space.alloc]
          rw [if_neg (by omega),← hA.w v hv,hl]
        · simp only [Space.alloc]
          rw [if_pos (by omega),he,Option.any_some,hp,userPerm]
        · simp only [Space.alloc]
          rw [if_neg (by omega),← hA.w v hv,hn,hnone]
  · subst hr
    have hfresh : ∀ v e,v<trapframe → lookup pt' v=some e → lookup pt v=some e := by
      intro v e hv he
      have hvs := (hinv.mapped v hv).mp ⟨e,he⟩
      rw [← hsame v (by omega) (Or.inl hvs)]
      exact he
    refine ⟨?_,fun husers v e hv he => husers v e hv (hfresh v e hv he),
      fun hr => absurd rfl hr,fun A _ hno => ?_⟩
    · rw [if_pos rfl]
      exact ⟨hinv,h.small,hsys,fun v e hv he => h.plain v e hv (hfresh v e hv he)⟩
    · rw [hoom] at hno
      cases hno

lemma write_image (hu : Users pt) {v : ℕ} (hv : v<pageCount sz) (bs : List UInt8) :
    memoryOps.mapped (k,pt) v=true ∧ ∃ k',memoryOps.write (k,pt) v bs=(k',pt) ∧
      Image k' pt own sz ∧ Undisturbed own k pt k' pt ∧ k'.oom=k.oom ∧
      ∀ A,Shown k pt A → spaceOps.mapped A v=true ∧ Shown k' pt (spaceOps.write A v bs) := by
  obtain ⟨htrap,hmax,_⟩ := trapframe_val
  have hbound := h.space.bound
  have hvt : v<trapframe := by omega
  obtain ⟨e,he⟩ := h.space.pte hv
  have haddr : walkaddr pt v=some e.ppn := by
    rw [walkaddr,if_neg (by omega),he,Option.bind_some,hu v e hvt he]
    rfl
  obtain ⟨hinv,hund,hview⟩ := write_page h.space hvt he (h.plain v e hvt he)
    (writeBytes (k.mem e.ppn) 0 bs)
  refine ⟨by simp only [memoryOps,haddr,Option.isSome_some],
    k.store e.ppn (writeBytes (k.mem e.ppn) 0 bs),by simp only [memoryOps,haddr],
    ⟨hinv,h.small,h.trapped,h.plain⟩,hund,rfl,fun A hA => ⟨?_,fun u hut => ?_,hA.w⟩⟩
  · have hacc := access_eq hA.page hvt he
    rw [hu v e hvt he,if_pos rfl] at hacc
    grind [spaceOps]
  · rw [hview u hut]
    simp only [spaceOps,Space.edit]
    by_cases huv : u=v
    · have hpage : A.page u=some ⟨k.mem e.ppn,e.x,e.u⟩ := by
        rw [← hA.page u hut,huv,view,he,Option.map_some]
      grind
    · rw [if_neg huv,if_neg huv,hA.page u hut]

lemma clear_image {v : ℕ} (hv : v<pageCount sz) :
    ∃ pt',memoryOps.uvmclear (k,pt) v=.next (k,pt') ∧ Image k pt' own sz ∧
      Undisturbed own k pt k pt' ∧
      ∀ A,Shown k pt A → ∃ A',spaceOps.uvmclear A v=.next A' ∧ Shown k pt' A' := by
  obtain ⟨htrap,hmax,_⟩ := trapframe_val
  have hbound := h.space.bound
  have hvt : v<trapframe := by omega
  obtain ⟨e,he⟩ := h.space.pte hv
  have hplain := h.plain v e hvt he
  obtain ⟨hinv,hleafs,hlook⟩ := reflag h.space hvt he {e with u := false} rfl
    (h.space.readable v e hvt he) (h.space.guarded v e hvt he)
    (fun _ => h.space.exclusive v e hvt he hplain)
  have hwalk : walk pt v=.next (some (some e)) := by
    rw [walk,if_neg (by omega),cell_of_lookup he]
  refine ⟨_,by simp only [memoryOps,uvmclear,hwalk,bind_next],
    ⟨hinv,h.small,h.trapped.congr fun u hu hs => ?_,fun u f hu hf => ?_⟩,
    ⟨Keeps.refl own k,fun q _ => ?_⟩,fun A hA => ⟨A.clear v,rfl,fun u hu => ?_,fun u hu => ?_⟩⟩
  · grind
  · grind [h.plain]
  · rw [hleafs,tags_put]
  · rw [view,hlook u (by omega)]
    simp only [Space.clear]
    by_cases huv : u=v
    · rw [if_pos huv,if_pos huv,← hA.page u hu,huv,view,he]
      rfl
    · rw [if_neg huv,if_neg huv,← hA.page u hu,view]
  · rw [hlook u (by omega)]
    by_cases huv : u=v
    · rw [if_pos huv,Option.any_some]
      simp only [Space.clear]
      rw [← hA.w u hu,huv,he,Option.any_some]
    · rw [if_neg huv,hA.w u hu]
      rfl

lemma copyout_image (dstva : ℕ) (src : List UInt8) :
    ∃ k' pt' r,memoryOps.copyout (k,pt) dstva src=.next ((k',pt'),r) ∧ Image k' pt' own sz ∧
      Undisturbed own k pt k' pt' ∧
      ∀ A,Shown k pt A → k'.oom=false →
        ∃ A',spaceOps.copyout A dstva src=.next (A',r) ∧ Shown k' pt' A' := by
  obtain ⟨htrap,hmax,_⟩ := trapframe_val
  obtain ⟨k',pt',r,hrun,hinv,hund,hrep,hres⟩ := copyout_spec h.space dstva src
  have hplain : ∀ v e',v<trapframe → lookup pt' v=some e' →
      ∃ e,lookup pt v=some e ∧ e.cow=false ∧ e'.cow=false ∧ (e'.w=true → e.w=true) := by
    intro v e' hv he'
    obtain ⟨e,he,hw,hc⟩ := hrep.write v e' hv he'
    have hcow := h.plain v e hv he
    grind
  have hwrite : ∀ v,v<trapframe → (lookup pt' v).any (·.w)=(lookup pt v).any (·.w) := by
    intro v hv
    cases he' : lookup pt' v with
    | none =>
      have hm := hrep.mapped v hv
      rw [he'] at hm
      cases he : lookup pt v with
      | none => rfl
      | some e =>
        rw [he,Option.isSome_none,Option.isSome_some] at hm
        cases hm
    | some e' =>
      obtain ⟨e,he,hce,hce',hw⟩ := hplain v e' hv he'
      have hcan := hrep.can v hv
      rw [canWrite,canWrite,he,he'] at hcan
      rw [he,Option.any_some,Option.any_some]
      cases hwe : e.w with
      | true =>
        simp only [Option.any_some,hwe,hce,hce',Bool.or_false,forall_const] at hcan
        exact hcan
      | false =>
        cases hwe' : e'.w with
        | false => rfl
        | true => exact absurd (hw hwe') (by simp only [hwe,Bool.false_eq_true,not_false_eq_true])
  refine ⟨k',pt',r,by simp only [memoryOps,hrun,bind_next],
    ⟨hinv,h.small,h.trapped.congr hrep.system,fun v e' hv he' => ?_⟩,hund,fun A hA hoom => ?_⟩
  · obtain ⟨_,_,_,hc,_⟩ := hplain v e' hv he'
    exact hc
  · obtain ⟨hr,hpage⟩ := hres A hA.page hoom
    refine ⟨(A.copyout dstva src).1,?_,hpage,fun v hv => ?_⟩
    · rw [hr]
      rfl
    · rw [hwrite v hv,hA.w v hv,Space.copyout,Space.copyoutLoop_w]

omit h

lemma loadLoop_spec (file : List UInt8) (va offset size : ℕ) {i c : ℕ} (h : Image k pt own sz)
    (hu : Users pt) (hrange : ∀ j,j<c → va/pgsize+i+j<pageCount sz) :
    ∃ k' ok,loadLoop memoryOps file va offset size (k,pt) i c=.next ((k',pt),ok) ∧
      Image k' pt own sz ∧ Undisturbed own k pt k' pt ∧ k'.oom=k.oom ∧
      ∀ A,Shown k pt A → ∃ A',loadLoop spaceOps file va offset size A i c=.next (A',ok) ∧
        Shown k' pt A' := by
  induction c generalizing k i with
  | zero => exact ⟨k,true,rfl,h,Undisturbed.refl own k pt,rfl,fun A hA => ⟨A,rfl,hA⟩⟩
  | succ c ih =>
    have hv : va/pgsize+i<pageCount sz := hrange 0 (Nat.succ_pos c)
    cases hread : readFull file ((offset+i*pgsize)%2^32) (min (size-i*pgsize) pgsize) with
    | none =>
      obtain ⟨hmapped,_,_,_,_,_,hshow⟩ := write_image h hu hv []
      refine ⟨k,false,?_,h,Undisturbed.refl own k pt,rfl,fun A hA => ⟨A,?_,hA⟩⟩
      · simp only [loadLoop,hmapped,hread,Bool.true_eq_false,if_false]
      · simp only [loadLoop,(hshow A hA).1,hread,Bool.true_eq_false,if_false]
    | some bs =>
      obtain ⟨hmapped,k1,hwrite,himage,hund,hoom,hshow⟩ := write_image h hu hv bs
      obtain ⟨k2,ok,hrun,himage2,hund2,hoom2,hshow2⟩ := ih himage (i:=i+1) (by
        intro j hj
        have hr := hrange (j+1) (by omega)
        omega)
      refine ⟨k2,ok,?_,himage2,hund.trans hund2,hoom2.trans hoom,fun A hA => ?_⟩
      · simp only [loadLoop,hmapped,hread,hwrite,Bool.true_eq_false,if_false]
        exact hrun
      · obtain ⟨hmap,hshown⟩ := hshow A hA
        obtain ⟨A',hrun',hshown'⟩ := hshow2 _ hshown
        grind [loadLoop]

lemma loadSegment_spec (file : List UInt8) (ph : ProgHdr) (h : Image k pt own sz)
    (hu : Users pt) :
    ∃ k' pt' sz' ok,loadSegment memoryOps file (k,pt) sz ph=.next ((k',pt'),sz',ok) ∧
      Image k' pt' own sz' ∧ Users pt' ∧ Undisturbed own k pt k' pt' ∧
      ∀ A,Shown k pt A → k'.oom=false →
        ∃ A',loadSegment spaceOps file A sz ph=.next (A',sz',ok) ∧ Shown k' pt' A' := by
  by_cases hsizes : ph.memsz<ph.filesz
  · refine ⟨k,pt,sz,false,?_,h,hu,Undisturbed.refl own k pt,fun A hA _ => ⟨A,?_,hA⟩⟩ <;>
      rw [loadSegment,if_pos hsizes]
  by_cases hwrap : (ph.vaddr+ph.memsz)%2^64<ph.vaddr
  · refine ⟨k,pt,sz,false,?_,h,hu,Undisturbed.refl own k pt,fun A hA _ => ⟨A,?_,hA⟩⟩ <;>
      rw [loadSegment,if_neg hsizes,if_pos hwrap]
  by_cases halign : ph.vaddr%pgsize≠0
  · refine ⟨k,pt,sz,false,?_,h,hu,Undisturbed.refl own k pt,fun A hA _ => ⟨A,?_,hA⟩⟩ <;>
      rw [loadSegment,if_neg hsizes,if_neg hwrap,if_pos halign]
  obtain ⟨k1,pt1,r,hrun,hund,himage,husers,hr,hshow⟩ := alloc_image h (ph.vaddr+ph.memsz)
    (flags2perm ph.flags).1 (flags2perm ph.flags).2
  by_cases hzero : r=0
  · rw [if_pos hzero] at himage
    refine ⟨k1,pt1,sz,false,?_,himage,husers hu,hund,fun A hA hoom => ?_⟩
    · grind [loadSegment,bind_next]
    · grind [loadSegment,bind_next]
  · rw [if_neg hzero] at himage
    have hle := hr hzero
    have hsmall := himage.small
    have hrange : ∀ j,j<(ph.filesz%2^32+pgsize-1)/pgsize →
        ph.vaddr/pgsize+0+j<pageCount r := by
      grind [pageCount,pgRoundUp,pgsize]
    obtain ⟨k2,ok,hload,himage2,hund2,hoom2,hshow2⟩ := loadLoop_spec file ph.vaddr (ph.off%2^32)
      (ph.filesz%2^32) himage (husers hu) hrange
    refine ⟨k2,pt1,r,ok,?_,himage2,husers hu,hund.trans hund2,fun A hA hoom => ?_⟩
    · grind [loadSegment,bind_next,loadseg]
    · grind [loadSegment,bind_next,loadseg]

lemma segmentLoop_spec (file : List UInt8) (off c : ℕ) (h : Image k pt own sz) (hu : Users pt) :
    ∃ k' pt' sz' ok,segmentLoop memoryOps file (k,pt) sz off c=.next ((k',pt'),sz',ok) ∧
      Image k' pt' own sz' ∧ Undisturbed own k pt k' pt' ∧
      ∀ A,Shown k pt A → k'.oom=false →
        ∃ A',segmentLoop spaceOps file A sz off c=.next (A',sz',ok) ∧ Shown k' pt' A' := by
  induction c generalizing k pt sz off with
  | zero => exact ⟨k,pt,sz,true,rfl,h,Undisturbed.refl own k pt,fun A hA _ => ⟨A,rfl,hA⟩⟩
  | succ c ih =>
    cases hread : readFull file (off%2^32) 56 with
    | none =>
      refine ⟨k,pt,sz,false,?_,h,Undisturbed.refl own k pt,fun A hA _ => ⟨A,?_,hA⟩⟩ <;>
        simp only [segmentLoop,hread]
    | some bs =>
      by_cases htype : (progHdr bs).type≠elfProgLoad
      · obtain ⟨k1,pt1,sz1,ok,hrun,himage,hund,hshow⟩ := ih (off+56) h hu
        refine ⟨k1,pt1,sz1,ok,?_,himage,hund,fun A hA hoom => ?_⟩
        · simp only [segmentLoop,hread]
          rw [if_pos htype,hrun]
        · obtain ⟨A1,hrun1,hshown1⟩ := hshow A hA hoom
          refine ⟨A1,?_,hshown1⟩
          simp only [segmentLoop,hread]
          rw [if_pos htype,hrun1]
      · obtain ⟨k1,pt1,sz1,ok1,hrun1,himage1,hu1,hund1,hshow1⟩ :=
          loadSegment_spec file (progHdr bs) h hu
        cases ok1 with
        | false =>
          grind [segmentLoop,bind_next]
        | true =>
          obtain ⟨k2,pt2,sz2,ok2,hrun2,himage2,hund2,hshow2⟩ := ih (off+56) himage1 hu1
          refine ⟨k2,pt2,sz2,ok2,?_,himage2,hund1.trans hund2,fun A hA hoom => ?_⟩
          · simp only [segmentLoop,hread]
            rw [if_neg htype,hrun1,bind_next]
            exact hrun2
          · obtain ⟨A1,hrunA,hshown1⟩ := hshow1 A hA (hund2.keeps.oom hoom)
            obtain ⟨A2,hrunB,hshown2⟩ := hshow2 A1 hshown1 hoom
            refine ⟨A2,?_,hshown2⟩
            simp only [segmentLoop,hread]
            rw [if_neg htype,hrunA,bind_next]
            exact hrunB

variable (h : Image k pt own sz)

include h

lemma push_spec (stackbase sp : ℕ) (bs : List UInt8) :
    ∃ k' pt' r,push memoryOps stackbase (k,pt) sp bs=.next ((k',pt'),r) ∧ Image k' pt' own sz ∧
      Undisturbed own k pt k' pt' ∧
      ∀ A,Shown k pt A → k'.oom=false →
        ∃ A',push spaceOps stackbase A sp bs=.next (A',r) ∧ Shown k' pt' A' := by
  by_cases hlow : sub64 sp bs.length-sub64 sp bs.length%16<stackbase
  · refine ⟨k,pt,.error .bad,?_,h,Undisturbed.refl own k pt,fun A hA _ => ⟨A,?_,hA⟩⟩ <;>
      simp only [push,if_pos hlow]
  · obtain ⟨k1,pt1,r,hrun,himage,hund,hshow⟩ := copyout_image h
      (sub64 sp bs.length-sub64 sp bs.length%16) bs
    cases r with
    | done =>
      refine ⟨k1,pt1,.ok (sub64 sp bs.length-sub64 sp bs.length%16),?_,himage,hund,
        fun A hA hoom => ?_⟩
      · simp only [push,if_neg hlow,hrun,bind_next]
      · obtain ⟨A1,hrunA,hshown⟩ := hshow A hA hoom
        exact ⟨A1,by simp only [push,if_neg hlow,hrunA,bind_next],hshown⟩
    | failed =>
      refine ⟨k1,pt1,.error .bad,?_,himage,hund,fun A hA hoom => ?_⟩
      · simp only [push,if_neg hlow,hrun,bind_next]
      · obtain ⟨A1,hrunA,hshown⟩ := hshow A hA hoom
        exact ⟨A1,by simp only [push,if_neg hlow,hrunA,bind_next],hshown⟩
    | exited =>
      refine ⟨k1,pt1,.error .exited,?_,himage,hund,fun A hA hoom => ?_⟩
      · simp only [push,if_neg hlow,hrun,bind_next]
      · obtain ⟨A1,hrunA,hshown⟩ := hshow A hA hoom
        exact ⟨A1,by simp only [push,if_neg hlow,hrunA,bind_next],hshown⟩

lemma pushArgs_spec (stackbase sp : ℕ) (ustack : List ℕ) (argv : List (List UInt8)) :
    ∃ k' pt' r,pushArgs memoryOps stackbase (k,pt) sp ustack argv=.next ((k',pt'),r) ∧
      Image k' pt' own sz ∧ Undisturbed own k pt k' pt' ∧
      ∀ A,Shown k pt A → k'.oom=false →
        ∃ A',pushArgs spaceOps stackbase A sp ustack argv=.next (A',r) ∧ Shown k' pt' A' := by
  induction argv generalizing k pt sp ustack with
  | nil =>
    exact ⟨k,pt,.ok (sp,ustack),rfl,h,Undisturbed.refl own k pt,fun A hA _ => ⟨A,rfl,hA⟩⟩
  | cons arg argv ih =>
    by_cases hmany : maxarg≤ustack.length
    · refine ⟨k,pt,.error .bad,?_,h,Undisturbed.refl own k pt,fun A hA _ => ⟨A,?_,hA⟩⟩ <;>
        rw [pushArgs,if_pos hmany]
    · obtain ⟨k1,pt1,r,hrun,himage,hund,hshow⟩ := push_spec h stackbase sp (arg++[0])
      cases r with
      | error e =>
        refine ⟨k1,pt1,.error e,?_,himage,hund,fun A hA hoom => ?_⟩
        · rw [pushArgs,if_neg hmany,hrun,bind_next]
        · obtain ⟨A1,hrunA,hshown⟩ := hshow A hA hoom
          exact ⟨A1,by rw [pushArgs,if_neg hmany,hrunA,bind_next],hshown⟩
      | ok sp1 =>
        obtain ⟨k2,pt2,r2,hrun2,himage2,hund2,hshow2⟩ := ih himage sp1 (ustack++[sp1])
        refine ⟨k2,pt2,r2,?_,himage2,hund.trans hund2,fun A hA hoom => ?_⟩
        · rw [pushArgs,if_neg hmany,hrun,bind_next]
          exact hrun2
        · obtain ⟨A1,hrunA,hshown⟩ := hshow A hA (hund2.keeps.oom hoom)
          obtain ⟨A2,hrunB,hshown2⟩ := hshow2 A1 hshown hoom
          refine ⟨A2,?_,hshown2⟩
          rw [pushArgs,if_neg hmany,hrunA,bind_next]
          exact hrunB

lemma pushAll_spec (stackbase sp : ℕ) (argv : List (List UInt8)) :
    ∃ k' pt' r,pushAll memoryOps stackbase (k,pt) sp argv=.next ((k',pt'),r) ∧
      Image k' pt' own sz ∧ Undisturbed own k pt k' pt' ∧
      ∀ A,Shown k pt A → k'.oom=false →
        ∃ A',pushAll spaceOps stackbase A sp argv=.next (A',r) ∧ Shown k' pt' A' := by
  obtain ⟨k1,pt1,r,hrun,himage,hund,hshow⟩ := pushArgs_spec h stackbase sp [] argv
  rcases r with e|⟨sp1,ustack⟩
  · refine ⟨k1,pt1,.error e,?_,himage,hund,fun A hA hoom => ?_⟩
    · simp only [pushAll,hrun,bind_next]
    · grind [pushAll,bind_next]
  · obtain ⟨k2,pt2,r2,hrun2,himage2,hund2,hshow2⟩ := push_spec himage stackbase sp1
      ((ustack++[0]).flatMap bytes64)
    have habs : ∀ A,Shown k pt A → k2.oom=false → ∃ A1 A2,
        pushArgs spaceOps stackbase A sp [] argv=.next (A1,.ok (sp1,ustack)) ∧
        push spaceOps stackbase A1 sp1 ((ustack++[0]).flatMap bytes64)=.next (A2,r2) ∧
        Shown k2 pt2 A2 := by
      grind [hund2.keeps.oom]
    cases r2 with
    | error e =>
      refine ⟨k2,pt2,.error e,?_,himage2,hund.trans hund2,fun A hA hoom => ?_⟩
      · simp only [pushAll,hrun,hrun2,bind_next]
      · grind [pushAll,bind_next]
    | ok sp2 =>
      refine ⟨k2,pt2,.ok (ustack.length,sp2),?_,himage2,hund.trans hund2,fun A hA hoom => ?_⟩
      · simp only [pushAll,hrun,hrun2,bind_next]
      · grind [pushAll,bind_next]

lemma Image.roundUp : Image k pt own (pgRoundUp sz) := by
  have hbound := h.space.le_physTop
  obtain ⟨_,_,hphys⟩ := trapframe_val
  have hsmall := h.small
  have hcount : pageCount (pgRoundUp sz)=pageCount sz := by grind [pageCount,pgRoundUp,pgsize]
  have hlt : pgRoundUp sz<2^63 := by grind [pageCount,pgsize]
  refine ⟨?_,hlt,h.trapped,h.plain⟩
  rw [hcount]
  exact h.space

omit h

lemma guard_lt {size : ℕ} (hpos : 0<size) (hsmall : size<2^63) :
    (size-2*pgsize)/pgsize<pageCount size := by
  unfold pageCount pgRoundUp
  simp only [pgsize]
  omega

lemma buildStack_spec (h : Image k pt own sz) (argv : List (List UInt8)) :
    ∃ k' pt' sz' r,buildStack memoryOps (k,pt) sz argv=.next ((k',pt'),sz',r) ∧
      Image k' pt' own sz' ∧ Undisturbed own k pt k' pt' ∧
      ∀ A,Shown k pt A → k'.oom=false →
        ∃ A',buildStack spaceOps A sz argv=.next (A',sz',r) ∧ Shown k' pt' A' := by
  obtain ⟨k1,pt1,r,hrun,hund,himage,_,_,hshow⟩ := alloc_image h.roundUp
    (pgRoundUp sz+2*pgsize) true false
  by_cases hzero : r=0
  · rw [if_pos hzero] at himage
    refine ⟨k1,pt1,pgRoundUp sz,.error .bad,?_,himage,hund,fun A hA hoom => ?_⟩
    · rw [buildStack,hrun,bind_next,if_pos hzero]
    · grind [buildStack,bind_next]
  · rw [if_neg hzero] at himage
    have hguard := guard_lt (Nat.pos_of_ne_zero hzero) himage.small
    obtain ⟨pt2,hclear,himage2,hund2,hshow2⟩ := clear_image himage hguard
    obtain ⟨k3,pt3,r3,hpush,himage3,hund3,hshow3⟩ := pushAll_spec himage2 (r-pgsize) r argv
    refine ⟨k3,pt3,r,r3,?_,himage3,(hund.trans hund2).trans hund3,fun A hA hoom => ?_⟩
    · grind [buildStack,bind_next]
    · grind [hund3.keeps.oom,buildStack,bind_next]

lemma buildImage_spec (file : List UInt8) (hdr : ElfHdr) (argv : List (List UInt8))
    (h : Image k pt own 0) (hu : Users pt) :
    ∃ k' pt' sz' r,buildImage memoryOps (k,pt) file hdr argv=.next ((k',pt'),sz',r) ∧
      Image k' pt' own sz' ∧ Undisturbed own k pt k' pt' ∧
      ∀ A,Shown k pt A → k'.oom=false →
        ∃ A',buildImage spaceOps A file hdr argv=.next (A',sz',r) ∧ Shown k' pt' A' := by
  obtain ⟨k1,pt1,sz1,ok,hrun,himage,hund,hshow⟩ := segmentLoop_spec file hdr.phoff hdr.phnum h hu
  cases ok with
  | false =>
    refine ⟨k1,pt1,sz1,.error .bad,?_,himage,hund,fun A hA hoom => ?_⟩
    · simp only [buildImage,hrun,bind_next]
    · grind [buildImage,bind_next]
  | true =>
    obtain ⟨k2,pt2,sz2,r,hrun2,himage2,hund2,hshow2⟩ := buildStack_spec himage argv
    refine ⟨k2,pt2,sz2,r,?_,himage2,hund.trans hund2,fun A hA hoom => ?_⟩
    · simp only [buildImage,hrun,hrun2,bind_next]
    · grind [hund2.keeps.oom,buildImage,bind_next]

lemma fresh_image (h : SpaceInv k pt own 0) (ht : Trapped pt) :
    Image k pt own 0 ∧ Users pt ∧ Shown k pt Space.empty := by
  have hnone : ∀ v,v<trapframe → lookup pt v=none := by
    intro v hv
    cases hl : lookup pt v with
    | none => rfl
    | some e => exact absurd ((h.mapped v hv).mp ⟨e,hl⟩) (Nat.not_lt_zero v)
  refine ⟨⟨h,by decide,ht,fun v e hv he => ?_⟩,fun v e hv he => ?_,fun v hv => ?_,fun v hv => ?_⟩
  · grind
  · grind
  · rw [view,hnone v hv]
    rfl
  · rw [hnone v hv]
    rfl

lemma Shown.keep {k' : Kmem} {A : Space} (h : Shown k pt A) {own' : ℕ→ℕ}
    (hkeep : Keeps own' k k') (hle : ∀ q,leafs pt q≤own' q) : Shown k' pt A := by
  refine ⟨fun v hv => ?_,h.w⟩
  rw [← h.page v hv]
  exact view_eq rfl hkeep fun e he => (leafs_pos hv he).trans_le (hle e.ppn)

def Replaced (own : ℕ→ℕ) (k : Kmem) (old : PageTable) (oldsz : ℕ) (k' : Kmem)
    (result : Except ExecError (Space×ℕ)) : ExecResult→Prop
  | .bad => SpaceInv k' old own (pageCount oldsz) ∧
      Undisturbed (tags old+(leafs old+own)) k old k' old ∧ (k'.oom=false → result=.error .bad)
  | .exited => SpaceInv k' old own (pageCount oldsz) ∧
      Undisturbed (tags old+(leafs old+own)) k old k' old ∧ (k'.oom=false → result=.error .exited)
  | .image pt sz _ _ => Image k' pt own sz ∧ Undisturbed own k old k' pt ∧
      (k'.oom=false → ∃ A,result=.ok (A,sz) ∧ Shown k' pt A)

lemma exec_spec {oldsz : ℕ} (page : ℕ) (file : List UInt8) (argv : List (List UInt8))
    (h : SpaceInv k pt own (pageCount oldsz)) (ht : Trapped pt) :
    ∃ k' r,exec k pt oldsz page file argv=.next (k',r) ∧
      Replaced own k pt oldsz k' (execSpace file argv) r := by
  have hkept : ∀ k',KmemInv k' (tags pt+(leafs pt+own)) → SpaceInv k' pt own (pageCount oldsz) :=
    fun k' hk => h.reown hk (fun _ _ _ _ _ hz => hz)
  cases hdr : checkHeader file with
  | none =>
    refine ⟨k,.bad,by simp only [exec,hdr],h,Undisturbed.refl _ k pt,fun _ => ?_⟩
    simp only [execSpace,hdr]
  | some hdr' =>
    obtain ⟨k1,new,hnew,hkeep1,hcase⟩ := procPagetable_spec h.kmem page
    cases new with
    | none =>
      obtain ⟨hinv1,hoom1⟩ := hcase
      refine ⟨k1,.bad,by simp only [exec,hdr,hnew,bind_next],hkept k1 hinv1,
        ⟨hkeep1,fun _ _ => Nat.le_refl _⟩,fun hno => ?_⟩
      grind
    | some new =>
      obtain ⟨hinv1,ht1,hoom1,hleafs1,htags1⟩ := hcase
      obtain ⟨himage1,husers1,hshown1⟩ := fresh_image hinv1 ht1
      obtain ⟨k2,new2,sz2,r,hbuild,himage2,hund2,hshow2⟩ :=
        buildImage_spec file hdr' argv himage1 husers1
      have hkeep2 : Keeps (tags pt+(leafs pt+own)) k k2 := hkeep1.trans hund2.keeps
      have hapart : ∀ q,0<(tags pt+(leafs pt+own) : ℕ→ℕ) q → tags new2 q+leafs new2 q=0 := by
        intro q hq
        have hst := hund2.stable q hq
        have htq := htags1 q hq
        rw [hleafs1,Pi.zero_apply,htq] at hst
        omega
      have hspace : k2.oom=false → ∃ A,buildImage spaceOps Space.empty file hdr' argv=
          .next (A,sz2,r) ∧ Shown k2 new2 A := hshow2 Space.empty hshown1
      rcases r with e|⟨argc,sp⟩
      · cases e with
        | bad =>
          obtain ⟨k3,hfree,hinv3,hkeep3,hoom3⟩ := procFreepagetable_spec himage2.space himage2.trapped
          refine ⟨k3,.bad,by simp only [exec,hdr,hnew,hbuild,hfree,bind_next],hkept k3 hinv3,
            ⟨hkeep2.trans hkeep3,fun _ _ => Nat.le_refl _⟩,fun hno => ?_⟩
          grind [execSpace]
        | exited =>
          have hinv2 : KmemInv k2 (tags pt+(leafs pt+own)) := by
            refine himage2.space.kmem.mono fun q => ?_
            simp only [Pi.add_apply]
            omega
          refine ⟨k2,.exited,by simp only [exec,hdr,hnew,hbuild,bind_next],hkept k2 hinv2,
            ⟨hkeep2,fun _ _ => Nat.le_refl _⟩,fun hno => ?_⟩
          grind [execSpace]
      · have hold : SpaceInv k2 pt (tags new2+(leafs new2+own)) (pageCount oldsz) := by
          refine h.reown (himage2.space.kmem.mono fun q => ?_) (fun v e hv he _ hz => ?_)
          · simp only [Pi.add_apply]
            omega
          · have hpos := leafs_pos hv he
            grind [Pi.add_apply]
        obtain ⟨k3,hfree,hinv3,hkeep3,hoom3⟩ := procFreepagetable_spec hold ht
        have himage3 : Image k3 new2 own sz2 := by
          refine ⟨himage2.space.reown hinv3 (fun v e _ _ _ hz => ?_),himage2.small,himage2.trapped,
            himage2.plain⟩
          simp only [Pi.add_apply] at hz
          omega
        refine ⟨k3,.image new2 sz2 argc sp,by simp only [exec,hdr,hnew,hbuild,hfree,bind_next],
          himage3,⟨(hkeep2.mono fun q => ?_).trans (hkeep3.mono fun q => ?_),fun q hq => ?_⟩,
          fun hno => ?_⟩
        · simp only [Pi.add_apply]
          omega
        · simp only [Pi.add_apply]
          omega
        · have hz := hapart q (by simp only [Pi.add_apply]; omega)
          omega
        · obtain ⟨A,hA,hshown⟩ := hspace (hoom3.symm.trans hno)
          refine ⟨A,by simp only [execSpace,hdr,hA],hshown.keep hkeep3 fun q => ?_⟩
          simp only [Pi.add_apply]
          omega

end Image

end Xv6Riscv.ExecReplace
