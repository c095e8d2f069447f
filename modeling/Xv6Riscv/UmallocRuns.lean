import Xv6Riscv.UmallocInvariant

/-!
# Runs of malloc and free

Every sequence of calls that frees only live blocks keeps the heap consistent, as
long as fewer than 2^32 headers come from sbrk: the loops end, malloc returns 0 or
a block of the requested size inside the memory of sbrk and apart from all live
blocks, and no header is lost. With more memory the size of a joined block
overflows its uint.
-/

namespace Xv6Riscv.UmallocRuns

open Function
open Transition Umalloc UmallocBlocks UmallocInvariant CircularList

section Malloc

variable {base bound n p prevp x : ℕ} {h : Heap} {live l : List ℕ}

lemma take_eq (h : Heap) (n prevp p : ℕ) : take h n prevp p=
    if unitsOf h p=n then ({h.setPtr prevp (ptrOf h p) with freep := prevp},p+16)
    else
      ({(h.setSize p (unitsOf h p-n)).setSize (p+16*(unitsOf h p-n)) n with freep := prevp},
        p+16*(unitsOf h p-n)+16) := by
  have hbehind : (h.setSize p (unitsOf h p-n)).behind p=p+16*(unitsOf h p-n) := by
    rw [behind_eq,unitsOf_setSize,update_self]
  rw [←hbehind]
  rfl

lemma take_spec (hinv : HeapInv base h live l) (hprev : prevp∈l) (hptr : ptrOf h prevp=p)
    (hn : 0<n) (hle : n≤unitsOf h p) :
    ∃ h' b l',take h n prevp p=(h',b+16) ∧ HeapInv base h' (b::live) l' ∧ unitsOf h' b=n ∧
      h'.regions=h.regions ∧ ∀ c∈live,unitsOf h' c=unitsOf h c := by
  have hmem : p∈l := hptr▸hinv.ring.next_mem hprev
  have hpb : p≠base := by grind [hinv.blocks.empty]
  have hdup := List.nodup_append.mp hinv.blocks.nodup
  rw [take_eq]
  by_cases hall : unitsOf h p=n
  · rw [if_pos hall]
    -- p is not the first block, and prevp stands before it
    obtain ⟨pre,suf,rfl⟩ := List.append_of_mem hmem
    have hpre : pre≠[] := by grind [hinv.blocks.head]
    obtain ⟨pre,y,rfl⟩ : ∃ pre' y,pre=pre'++[y] :=
      ⟨_,_,(List.dropLast_append_getLast hpre).symm⟩
    rw [List.append_assoc,List.singleton_append] at hinv hprev hdup
    have hy : y=prevp :=
      hinv.ring.injOn hdup.1 (by simp) hprev (hinv.ring.next_eq.trans hptr.symm)
    subst hy
    refine ⟨_,p,pre++y::suf,rfl,⟨?_,by simp,?_⟩,?_,rfl,fun c _ => ?_⟩
    · have hout : Ring (update (ptrOf h) y (ptrOf h p)) (pre++y::suf) := by
        refine hinv.ring.remove (update_self ..) fun a ha => ?_
        refine update_of_ne ?_ ..
        rintro rfl
        refine (List.nodup_middle.mp hdup.1).notMem ?_
        simp only [List.mem_append,List.mem_cons] at ha ⊢
        tauto
      rw [←ptrOf_setPtr] at hout
      exact hout
    · have hout := hinv.blocks.detach
      rw [←unitsOf_setPtr h y (ptrOf h p)] at hout
      exact hout
    · exact (congrFun (unitsOf_setPtr h y (ptrOf h p)) p).trans hall
    · exact congrFun (unitsOf_setPtr h y (ptrOf h p)) c
  · rw [if_neg hall]
    have hlt : n<unitsOf h p := lt_of_le_of_ne hle (Ne.symm hall)
    have hnot := hinv.blocks.notMem_inside (x:=p+16*(unitsOf h p-n))
      (List.mem_append_left _ hmem) (by omega) (by omega)
    have hsplit := hinv.blocks.split hmem hn hlt
    have hunits : unitsOf ((h.setSize p (unitsOf h p-n)).setSize (p+16*(unitsOf h p-n)) n)=
        update (update (unitsOf h) p (unitsOf h p-n)) (p+16*(unitsOf h p-n)) n := by
      rw [unitsOf_setSize,unitsOf_setSize]
    have hptrs : ptrOf ((h.setSize p (unitsOf h p-n)).setSize (p+16*(unitsOf h p-n)) n)=ptrOf h := by
      rw [ptrOf_setSize,ptrOf_setSize]
    rw [←hunits] at hsplit
    refine ⟨_,p+16*(unitsOf h p-n),l,rfl,⟨?_,hprev,hsplit⟩,?_,rfl,fun c hc => ?_⟩
    · have hring := hinv.ring
      rw [←hptrs] at hring
      exact hring
    · refine (congrFun hunits _).trans (update_self ..)
    · refine (congrFun hunits c).trans ?_
      have hcp : c≠p := by grind
      grind

lemma mallocLoop_succ (fuel : ℕ) (answers : List (Option ℕ)) :
    mallocLoop bound n (fuel+1) h answers prevp p=
      if n≤unitsOf h p then .next (take h n prevp p)
      else if p=h.freep then
        (morecore bound h n (answers.headD none)).bind fun
          | (h,0) => .next (h,0)
          | (h,p) => mallocLoop bound n fuel h answers.tail p (ptrOf h p)
      else mallocLoop bound n fuel h answers p (ptrOf h p) := rfl

lemma mallocLoop_walk (fuel : ℕ) (answers : List (Option ℕ)) (w : List ℕ)
    (hchain : List.IsChain (fun a b => ptrOf h a=b) (prevp::(w++[x])))
    (hw : ∀ y∈w,unitsOf h y<n ∧ y≠h.freep) :
    ∃ y∈prevp::w,ptrOf h y=x ∧
      mallocLoop bound n (w.length+fuel) h answers prevp (ptrOf h prevp)=
        mallocLoop bound n fuel h answers y x := by
  induction w generalizing prevp with
  | nil =>
    have hnext := (List.isChain_cons_cons.mp hchain).1
    refine ⟨prevp,List.mem_cons_self,hnext,?_⟩
    grind
  | cons z w ih =>
    obtain ⟨hnext,hrest⟩ := List.isChain_cons_cons.mp hchain
    obtain ⟨hsmall,hne⟩ := hw z List.mem_cons_self
    obtain ⟨y,hy,hyx,hrun⟩ := ih hrest fun y hy => hw y (List.mem_cons_of_mem _ hy)
    refine ⟨y,List.mem_cons_of_mem _ hy,hyx,?_⟩
    rw [List.length_cons,Nat.add_right_comm,hnext,mallocLoop_succ,if_neg (by omega),if_neg hne]
    exact hrun

lemma around (hinv : HeapInv base h live l) :
    ∃ t,(t++[h.freep]).Perm l ∧
      List.IsChain (fun a b => ptrOf h a=b) (h.freep::(t++[h.freep])) := by
  obtain ⟨u,v,hl⟩ := List.append_of_mem hinv.entry
  have hring := hinv.ring
  rw [hl] at hring
  grind [hring.from.chain]

lemma malloc_found (hinv : HeapInv base h live l) (hn : 0<n) (hx : x∈l) (hle : n≤unitsOf h x)
    {fuel : ℕ} (hfuel : l.length≤fuel) (answers : List (Option ℕ)) :
    ∃ h' b l',mallocLoop bound n fuel h answers h.freep (ptrOf h h.freep)=.next (h',b+16) ∧
      HeapInv base h' (b::live) l' ∧ unitsOf h' b=n ∧ h'.regions=h.regions ∧
      ∀ c∈live,unitsOf h' c=unitsOf h c := by
  obtain ⟨t,hperm,hchain⟩ := around hinv
  obtain ⟨y,hy⟩ : ∃ y,(t++[h.freep]).find? (fun y => decide (n≤unitsOf h y))=some y := by
    refine Option.isSome_iff_exists.mp (List.find?_isSome.mpr ⟨x,hperm.mem_iff.mpr hx,?_⟩)
    exact decide_eq_true hle
  obtain ⟨hfit,w,rest,hsplit,hw⟩ := List.find?_eq_some_iff_append.mp hy
  have hdup : (w++y::rest).Nodup := by grind [hinv.blocks.nodup]
  have hlast : h.freep∈y::rest := by grind [List.mem_of_getLast?]
  have hlen : w.length+1≤fuel := by grind [hperm.length_eq]
  obtain ⟨fuel,rfl⟩ := Nat.exists_eq_add_of_le hlen
  have hpart : List.IsChain (fun a b => ptrOf h a=b) (h.freep::(w++[y])) := by
    have happ : h.freep::(w++y::rest)=(h.freep::(w++[y]))++rest := by simp
    rw [hsplit,happ] at hchain
    exact hchain.left_of_append
  obtain ⟨prevp,hprev,hptr,hrun⟩ := @mallocLoop_walk bound n _ _ _ (1+fuel) answers w hpart
    fun z hz => ⟨by simpa using hw z hz,(List.nodup_append.mp hdup).2.2 z hz _ hlast⟩
  have hmem : prevp∈l := by grind
  have hbig : n≤unitsOf h y := of_decide_eq_true hfit
  obtain ⟨h',b,l',htake,hinv',hb,hreg,hlive⟩ := take_spec hinv hmem hptr hn hbig
  refine ⟨h',b,l',?_,hinv',hb,hreg,hlive⟩
  rw [Nat.add_assoc,hrun,Nat.add_comm 1 fuel,mallocLoop_succ,if_pos hbig,htake]

lemma morecore_spec {r nu : ℕ} (hinv : HeapInv base h live l)
    (hnu : nu=if n<4096 then 4096 else n) (hr : base+16≤r)
    (hfresh : ∀ g∈h.regions,g.1+16*g.2≤r) (hlimit : h.obtained+nu<2^32) (hfuel : l.length≤bound) :
    ∃ h' l',morecore bound h n (some r)=.next (h',h'.freep) ∧ HeapInv base h' live l' ∧
      l'.length≤l.length+1 ∧ (∃ x∈l',n≤unitsOf h' x) ∧
      (∀ c∈live,unitsOf h' c=unitsOf h c) ∧ h'.regions=(r,nu)::h.regions := by
  have hle : n≤nu ∧ 0<nu := by grind
  have hgrow := hinv.blocks.grow hr hfresh hle.2 hlimit
  rw [←unitsOf_setSize] at hgrow
  have hinv1 : HeapInv base ({h with regions := (r,nu)::h.regions}.setSize r nu) (r::live) l := by
    refine ⟨?_,hinv.entry,hgrow⟩
    have hring := hinv.ring
    rw [←ptrOf_setSize h r nu] at hring
    exact hring
  obtain ⟨h',l',hfree,hinv',hreg,hlen,⟨x,hx,hunits⟩,hlive⟩ := free_spec hinv1 hfuel
  refine ⟨h',l',?_,hinv',hlen,⟨x,hx,?_⟩,fun c hc => ?_,hreg⟩
  · rw [morecore,←hnu]
    exact congrArg (fun o => o.bind fun h => .next (h,h.freep)) hfree
  · refine hle.1.trans (le_trans ?_ hunits)
    exact (congrFun (unitsOf_setSize h r nu) r).trans (update_self ..)|>.ge
  · rw [hlive c hc]
    refine (congrFun (unitsOf_setSize h r nu) c).trans (update_of_ne ?_ ..)
    grind [hinv1.blocks.nodup]

/-- Without a free block that is large enough malloc asks for memory. -/
lemma mallocLoop_asks {fuel : ℕ} (hinv : HeapInv base h live l) (hfuel : 2*l.length+1≤fuel)
    (hsmall : ∀ x∈l,unitsOf h x<n) (answers : List (Option ℕ)) :
    ∃ k,l.length≤k ∧ mallocLoop bound n fuel h answers h.freep (ptrOf h h.freep)=
      (morecore bound h n (answers.headD none)).bind fun
        | (h,0) => .next (h,0)
        | (h,p) => mallocLoop bound n (k+1) h answers.tail p (ptrOf h p) := by
  obtain ⟨t,hperm,hchain⟩ := around hinv
  have hdup : (t++[h.freep]).Nodup :=
    hperm.nodup_iff.mpr (List.nodup_append.mp hinv.blocks.nodup).1
  have hlen := hperm.length_eq
  rw [List.length_append,List.length_singleton] at hlen
  obtain ⟨k,rfl⟩ : ∃ k,fuel=t.length+(k+2) := ⟨fuel-t.length-2,by omega⟩
  obtain ⟨y,-,-,hrun⟩ := @mallocLoop_walk bound n _ _ _ (k+2) answers t hchain
    fun z hz => ⟨hsmall z (hperm.mem_iff.mp (List.mem_append_left _ hz)),
      (List.nodup_append.mp hdup).2.2 z hz _ List.mem_cons_self⟩
  refine ⟨k,by omega,?_⟩
  rw [hrun,mallocLoop_succ,if_neg (by have := hsmall _ hinv.entry; omega),if_pos rfl]

/-- If sbrk fails the heap is as it was. -/
lemma mallocLoop_refused {fuel : ℕ} (hinv : HeapInv base h live l) (hfuel : 2*l.length+1≤fuel)
    (hsmall : ∀ x∈l,unitsOf h x<n) (rest : List (Option ℕ)) :
    mallocLoop bound n fuel h (none::rest) h.freep (ptrOf h h.freep)=.next (h,0) := by
  obtain ⟨k,-,hrun⟩ := @mallocLoop_asks _ bound _ _ _ _ _ hinv hfuel hsmall (none::rest)
  rw [hrun]
  rfl

/-- If sbrk returns memory, the block that is served lies in it or in what the
heap had. -/
lemma mallocLoop_grown {nu fuel r : ℕ} (hinv : HeapInv base h live l) (hbase : 0<base)
    (hn : 0<n) (hnu : nu=if n<4096 then 4096 else n) (hfuel : 2*l.length+1≤fuel)
    (hbound : l.length≤bound) (hsmall : ∀ x∈l,unitsOf h x<n) (hr : base+16≤r)
    (hfresh : ∀ g∈h.regions,g.1+16*g.2≤r) (hlimit : h.obtained+nu<2^32)
    (rest : List (Option ℕ)) :
    ∃ h' b l',mallocLoop bound n fuel h (some r::rest) h.freep (ptrOf h h.freep)=
        .next (h',b+16) ∧ HeapInv base h' (b::live) l' ∧ unitsOf h' b=n ∧
      h'.regions=(r,nu)::h.regions ∧ ∀ c∈live,unitsOf h' c=unitsOf h c := by
  obtain ⟨k,hk,hrun⟩ := @mallocLoop_asks _ bound _ _ _ _ _ hinv hfuel hsmall (some r::rest)
  obtain ⟨h1,l1,hmore,hinv1,hlen1,⟨x,hx,hle⟩,hlive1,hreg1⟩ :=
    @morecore_spec _ bound _ _ _ _ _ _ hinv hnu hr hfresh hlimit hbound
  obtain ⟨h2,b,l2,hfound,hinv2,hb,hreg2,hlive2⟩ :=
    @malloc_found _ bound _ _ _ _ _ hinv1 hn hx hle (k+1) (by omega) rest
  refine ⟨h2,b,l2,?_,hinv2,hb,hreg2.trans hreg1,fun c hc => (hlive2 c hc).trans (hlive1 c hc)⟩
  rw [hrun,List.headD_cons,hmore,bind_next]
  cases hfreep : h1.freep with
  | zero =>
    have hge := hinv1.blocks.base_le hinv1.entry
    omega
  | succ k =>
    rw [hfreep] at hfound
    exact hfound

lemma mallocLoop_spec {nu fuel : ℕ} (hinv : HeapInv base h live l) (hbase : 0<base) (hn : 0<n)
    (hnu : nu=if n<4096 then 4096 else n) (hfuel : 2*l.length+1≤fuel) (hbound : l.length≤bound)
    (answers : List (Option ℕ)) (hfresh : fresh base nu h.regions answers=true)
    (hlimit : h.obtained+nu*answers.countP Option.isSome<2^32) :
    ∃ h' ap,mallocLoop bound n fuel h answers h.freep (ptrOf h h.freep)=.next (h',ap) ∧
      (ap=0 ∧ h'=h ∨ ∃ b l',ap=b+16 ∧ HeapInv base h' (b::live) l' ∧ unitsOf h' b=n ∧
        ∀ c∈live,unitsOf h' c=unitsOf h c) := by
  by_cases hfit : ∃ x∈l,n≤unitsOf h x
  · obtain ⟨x,hx,hle⟩ := hfit
    obtain ⟨h',b,l',hrun,hinv',hb,-,hlive⟩ :=
      @malloc_found _ bound _ _ _ _ _ hinv hn hx hle fuel (by omega) answers
    exact ⟨h',b+16,hrun,.inr ⟨b,l',rfl,hinv',hb,hlive⟩⟩
  have hsmall : ∀ x∈l,unitsOf h x<n := fun x hx => lt_of_not_ge fun hle => hfit ⟨x,hx,hle⟩
  cases answers with
  | nil =>
    obtain ⟨k,-,hrun⟩ := @mallocLoop_asks _ bound _ _ _ _ _ hinv hfuel hsmall []
    exact ⟨h,0,hrun,.inl ⟨rfl,rfl⟩⟩
  | cons answer rest =>
    cases answer with
    | none => exact ⟨h,0,mallocLoop_refused hinv hfuel hsmall rest,.inl ⟨rfl,rfl⟩⟩
    | some r =>
      simp only [fresh,Bool.and_eq_true,decide_eq_true_eq,List.all_eq_true] at hfresh
      rw [List.countP_cons_of_pos rfl,Nat.mul_succ] at hlimit
      obtain ⟨h',b,l',hrun,hinv',hb,-,hlive⟩ := mallocLoop_grown hinv hbase hn hnu hfuel hbound
        hsmall hfresh.1.1 hfresh.1.2 (by omega) rest
      exact ⟨h',b+16,hrun,.inr ⟨b,l',rfl,hinv',hb,hlive⟩⟩

end Malloc

section Calls

variable {base : ℕ} {s : Sys}

/-- malloc has not been called yet, or the heap has its invariant. -/
def Inv (base : ℕ) (s : Sys) : Prop :=
  (s.heap.freep=0 ∧ s.live=[] ∧ s.heap.regions=[]) ∨ ∃ l,HeapInv base s.heap s.live l

lemma length_le {h : Heap} {live l : List ℕ} (hinv : HeapInv base h live l) :
    l.length≤h.obtained+1 := by
  have hhead := hinv.blocks.head
  cases l with
  | nil => cases hhead
  | cons a t =>
    cases hhead
    have hpos : ∀ n∈t.map (unitsOf h),1≤n := by
      intro n hn
      obtain ⟨x,hx,rfl⟩ := List.mem_map.mp hn
      refine hinv.blocks.pos x (List.mem_cons_of_mem _ hx) ?_
      grind [List.pairwise_cons,hinv.sorted]
    have hsum := List.length_le_sum_of_one_le _ hpos
    have hunits := hinv.blocks.units
    rw [List.map_cons,List.sum_cons] at hunits
    rw [List.length_map] at hsum
    rw [List.length_cons,Heap.obtained]
    omega

lemma start_inv (hbase : 0<base) (h : Inv base s) :
    ∃ l,HeapInv base (start base s.heap) s.live l ∧
      (start base s.heap).regions=s.heap.regions ∧
      ∀ c∈s.live,unitsOf (start base s.heap) c=unitsOf s.heap c := by
  rcases h with ⟨hfreep,hlive,hreg⟩|⟨l,hinv⟩
  · have hsize : unitsOf (start base s.heap) base=0 := by
      simp [start,hfreep,unitsOf]
    have hptr : ptrOf (start base s.heap) base=base := by
      simp [start,hfreep,ptrOf]
    have hregs : (start base s.heap).regions=[] := by
      rw [start,if_pos hfreep]
      exact hreg
    rw [hlive,hregs,hreg]
    refine ⟨[base],⟨ring_singleton.mpr hptr,?_,?_⟩,rfl,fun _ hc => absurd hc List.not_mem_nil⟩
    · rw [start,if_pos hfreep]
      exact List.mem_cons_self
    · rw [hregs]
      refine ⟨rfl,hsize,List.pairwise_singleton ..,?_,
        fun _ hb => absurd hb List.not_mem_nil,?_,fun _ hg => absurd hg List.not_mem_nil,by decide⟩
      · grind
      · rw [List.append_nil,List.map_singleton,part,hsize]
        refine ⟨List.pairwise_singleton ..,fun x => ?_,rfl⟩
        simp [Tiling.mem_interval,spans]
  · have hne : s.heap.freep≠0 := by
      have hle := hinv.blocks.base_le hinv.entry
      omega
    rw [start,if_neg hne]
    exact ⟨l,hinv,rfl,fun _ _ => rfl⟩

lemma malloc_spec (hbase : 0<base) (h : Inv base s) {nbytes : ℕ} {answers : List (Option ℕ)}
    (hok : allowed base s (.malloc nbytes answers)=true)
    (hwithin : within s (.malloc nbytes answers)=true) :
    ∃ h' ap,malloc base (searchBound s.heap) s.heap nbytes answers=.next (h',ap) ∧
      ((ap=0 ∧ ∃ l,HeapInv base h' s.live l) ∨
        ∃ b l,ap=b+16 ∧ HeapInv base h' (b::s.live) l ∧ unitsOf h' b=unitsFor nbytes ∧
          ∀ c∈s.live,unitsOf h' c=unitsOf s.heap c) := by
  obtain ⟨l,hinv,hreg,hunits⟩ := start_inv hbase h
  have hobt : (start base s.heap).obtained=s.heap.obtained := by
    rw [Heap.obtained,hreg,Heap.obtained]
  have hlen := length_le hinv
  rw [allowed,Bool.and_eq_true,←hreg] at hok
  rw [within,decide_eq_true_eq,←hobt] at hwithin
  rw [hobt] at hlen
  have hbound : 2*l.length+1≤ searchBound s.heap := by
    rw [searchBound]
    omega
  obtain ⟨h',ap,hrun,hres⟩ := mallocLoop_spec (n:=unitsFor nbytes) hinv hbase
    (by rw [unitsFor]; omega) rfl hbound (by omega : l.length≤ searchBound s.heap) answers hok.2
    hwithin
  refine ⟨h',ap,hrun,?_⟩
  grind

lemma step_inv (hbase : 0<base) (h : Inv base s) (c : Call) (hok : allowed base s c=true)
    (hwithin : within s c=true) : ∃ t,step base s c=.next t ∧ Inv base t := by
  cases c with
  | malloc nbytes answers =>
    obtain ⟨h',ap,hrun,hres⟩ := malloc_spec hbase h hok hwithin
    refine ⟨_,by rw [step,hrun,bind_next],?_⟩
    rcases hres with ⟨rfl,l,hinv⟩|⟨b,l,rfl,hinv,-,-⟩
    · exact .inr ⟨l,hinv⟩
    · exact .inr ⟨l,hinv⟩
  | free ap =>
    rw [allowed,List.any_eq_true] at hok
    obtain ⟨b,hb,hap⟩ := hok
    obtain rfl := of_decide_eq_true hap
    rcases h with ⟨-,hlive,-⟩|⟨l,hinv⟩
    · grind
    have hlen := length_le hinv
    have hloose : HeapInv base s.heap (b::s.live.erase b) l :=
      ⟨hinv.ring,hinv.entry,hinv.blocks.perm (List.perm_cons_erase hb)⟩
    obtain ⟨h',l',hrun,hinv',-,-,-,-⟩ := free_spec hloose
      (by rw [searchBound]; omega : l.length≤ searchBound s.heap)
    refine ⟨_,by rw [step,hrun,bind_next],.inr ⟨l',?_⟩⟩
    grind
  | store a x =>
    rw [allowed,List.any_eq_true] at hok
    obtain ⟨b,hb,hin⟩ := hok
    obtain ⟨hlt,hend⟩ := of_decide_eq_true hin
    rcases h with ⟨-,hlive,-⟩|⟨l,hinv⟩
    · grind
    have hnot := hinv.blocks.notMem_inside (List.mem_append_right _ hb) hlt hend
    have hsame : ∀ c∈l++s.live,update s.heap.hdr a x c=s.heap.hdr c := by grind
    refine ⟨_,rfl,.inr ⟨l,?_,hinv.entry,?_⟩⟩
    · refine hinv.ring.congr fun c hc => ?_
      exact congrArg Header.ptr (hsame c (List.mem_append_left _ hc))
    · refine hinv.blocks.congr fun c hc => ?_
      exact congrArg Header.size (hsame c hc)

end Calls

section Reachable

/-- The heap is consistent: l is the free list, read from base. -/
structure Consistent (base : ℕ) (s : Sys) (l : List ℕ) : Prop where
  circular : Ring (ptrOf s.heap) l
  ordered : l.Pairwise fun a b => a<b
  containsBase : l.head?=some base
  entered : s.heap.freep∈l
  separate : l.Pairwise fun a b => s.heap.behind a<b
  apart : ∀ a∈l,∀ b∈s.live,s.heap.behind a≤b ∨ s.heap.behind b≤a
  conserved : (l.map (unitsOf s.heap)).sum+(s.live.map (unitsOf s.heap)).sum=s.heap.obtained

lemma consistent_of_inv {base : ℕ} {s : Sys} {l : List ℕ} (h : HeapInv base s.heap s.live l) :
    Consistent base s l where
  circular := h.ring
  ordered := h.sorted
  containsBase := h.blocks.head
  entered := h.entry
  separate := h.blocks.gaps
  apart := fun _ ha _ hb => h.blocks.cross ha hb
  conserved := h.blocks.units

/-- The pointer r is to a block of nbytes bytes inside the memory from sbrk, which
overlaps no live block; the live blocks keep their sizes. -/
def Serves (s : Sys) (h' : Heap) (nbytes r : ℕ) : Prop :=
  ∃ b,r=b+16 ∧ r+nbytes≤h'.behind b ∧
    (∀ x,b≤x→x<h'.behind b→∃ g∈h'.regions,g.1≤x ∧ x<g.1+16*g.2) ∧
    ∀ c∈s.live,unitsOf h' c=unitsOf s.heap c ∧ (h'.behind b≤c ∨ h'.behind c≤b)

lemma serves_of_inv {base : ℕ} {s : Sys} {h' : Heap} {b nbytes : ℕ} {l : List ℕ}
    (hinv : HeapInv base h' (b::s.live) l) (hb : unitsOf h' b=unitsFor nbytes)
    (hlive : ∀ c∈s.live,unitsOf h' c=unitsOf s.heap c) : Serves s h' nbytes (b+16) := by
  refine ⟨b,rfl,?_,fun x hx hlt => ?_,fun c hc => ⟨hlive c hc,?_⟩⟩
  · rw [behind_eq,hb,unitsFor]
    omega
  · obtain ⟨r,hr,hmem⟩ := (hinv.blocks.tiles.cover x).mp
      ⟨part (unitsOf h') b,List.mem_map_of_mem (by simp),Tiling.mem_interval.mpr ⟨hx,hlt⟩⟩
    obtain ⟨g,hg,rfl⟩ := List.mem_map.mp hr
    exact ⟨g,hg,Tiling.mem_interval.mp hmem⟩
  · have hne : b≠c := by
      grind [hinv.blocks.nodup]
    exact hinv.blocks.apart (by simp) (by simp [hc]) hne
      (hinv.blocks.ne_base List.mem_cons_self) (hinv.blocks.ne_base (List.mem_cons_of_mem _ hc))

/-- In every sequence of calls with less than 2^32 headers from sbrk, all loops end,
the heap is consistent after each call, and malloc returns 0 or a block as
requested. -/
theorem heap_stays_consistent {base : ℕ} (hbase : 0<base) {calls : List Call}
    (hok : Guarded (step base) (fun s c => allowed base s c=true ∧ within s c=true) boot calls) :
    ∃ s,run (step base) boot calls=.next s ∧
      ((s.heap.freep=0 ∧ s.live=[] ∧ s.heap.obtained=0) ∨ ∃ l,Consistent base s l) ∧
      ∀ nbytes answers,allowed base s (.malloc nbytes answers)=true→
        within s (.malloc nbytes answers)=true→
        ∃ h' r,malloc base (searchBound s.heap) s.heap nbytes answers=.next (h',r) ∧
          (r=0 ∨ Serves s h' nbytes r) := by
  have htotal : ∃ s,run (step base) boot calls=.next s ∧ Inv base s :=
    run_total_guarded (fun s c hs hc => step_inv hbase hs c hc.1 hc.2) (.inl ⟨rfl,rfl,rfl⟩) hok
  obtain ⟨s,hrun,hinv⟩ := htotal
  refine ⟨s,hrun,?_,fun nbytes answers hallowed hwithin => ?_⟩
  · rcases hinv with ⟨hfreep,hlive,hreg⟩|⟨l,hinv⟩
    · grind [Heap.obtained]
    · exact .inr ⟨l,consistent_of_inv hinv⟩
  · obtain ⟨h',r,hmalloc,hres⟩ := malloc_spec hbase hinv hallowed hwithin
    refine ⟨h',r,hmalloc,?_⟩
    rcases hres with ⟨hzero,-⟩|⟨b,l,rfl,hinv',hb,hlive⟩
    · exact .inl hzero
    · exact .inr (serves_of_inv hinv' hb hlive)

/-- The second of three blocks is freed, then the first and the third; sbrk fails for
a block that is larger than the free one. -/
def threeBlocks : List Call :=
  [.malloc 16 [some 8192],.malloc 100 [],.malloc 0 [],.store 73600 ⟨1,2⟩,.free 73584,.free 73712,
    .free 73568,.malloc 70000 [none]]

theorem three_blocks_consistent : ∃ s,run (step 4096) boot threeBlocks=.next s ∧
    ((s.heap.freep=0 ∧ s.live=[] ∧ s.heap.obtained=0) ∨ ∃ l,Consistent 4096 s l) := by
  obtain ⟨s,hrun,hinv,-⟩ := @heap_stays_consistent 4096 (by decide) threeBlocks
    (guarded_of_check (k:=fun s c => allowed 4096 s c && within s c)
      (fun s c h => Bool.and_eq_true_iff.mp h) (by decide +kernel))
  exact ⟨s,hrun,hinv⟩

def largest : ℕ := 2^27-1

/-- 33 of the largest blocks, from adjacent regions, are allocated and then freed. -/
def greedy : List Call :=
  (List.range 33).map (fun i => .malloc (16*(largest-1)) [some (8192+16*largest*i)])++
    (List.range 33).map fun i => .free (8192+16*largest*i+16)

lemma list_of_two {base a : ℕ} {s : Sys} {l : List ℕ} (h : Consistent base s l) (hne : a≠base)
    (hbase : ptrOf s.heap base=a) (ha : ptrOf s.heap a=base) : l=[base,a] := by
  have hring := h.circular
  have hhead := h.containsBase
  have hsorted := h.ordered
  cases l with
  | nil => cases hhead
  | cons b t =>
    cases hhead
    cases t with
    | nil =>
      have hself := ring_singleton.mp hring
      exact absurd (hbase.symm.trans hself) hne
    | cons c t =>
      have hc : a=c := hbase.symm.trans (@Ring.next_eq _ _ [] _ _ _ hring)
      subst hc
      cases t with
      | nil => rfl
      | cons d t =>
        have hd : base=d := ha.symm.trans (@Ring.next_eq _ _ [base] _ _ _ hring)
        subst hd
        have hlt := (List.pairwise_cons.mp hsorted).1 base (by simp)
        omega

/-- The size of the joined block overflows: after 33 blocks of 2^27-1 headers have
been freed, one free block of 2^27-33 headers is left, and the rest is lost. -/
theorem joined_size_overflows :
    Guarded (step 4096) (fun s c => allowed 4096 s c=true) boot greedy ∧
    ∃ s,run (step 4096) boot greedy=.next s ∧ s.live=[] ∧ s.heap.freep≠0 ∧
      s.heap.obtained=33*(2^27-1) ∧ ∀ l,¬Consistent 4096 s l := by
  refine ⟨guarded_of_check (k:=allowed 4096) (fun s c h => h) (by decide +kernel),?_⟩
  obtain ⟨s,hrun,hobs⟩ := exists_of_state? (o:=run (step 4096) boot greedy)
    (f:=fun s => (s.live,s.heap.freep,s.heap.obtained,s.heap.hdr 4096,s.heap.hdr 8192))
    (v:=([],8192,33*(2^27-1),⟨8192,0⟩,⟨4096,2^27-33⟩)) (by decide +kernel)
  simp only [Prod.mk.injEq] at hobs
  obtain ⟨hlive,hfreep,hobt,hbase,hblock⟩ := hobs
  refine ⟨s,hrun,hlive,by omega,hobt,fun l h => ?_⟩
  have hl := list_of_two h (a:=8192) (by decide) (congrArg Header.ptr hbase)
    (congrArg Header.ptr hblock)
  have hsum := h.conserved
  have hzero : unitsOf s.heap 4096=0 := congrArg Header.size hbase
  have hunits : unitsOf s.heap 8192=2^27-33 := congrArg Header.size hblock
  grind

end Reachable

end Xv6Riscv.UmallocRuns
