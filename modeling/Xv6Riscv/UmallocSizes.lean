import Xv6Riscv.UmallocRuns

/-!
# Request sizes of malloc

malloc computes the number of headers of a request without overflow, because
sizeof is a 64-bit number. morecore multiplies it by the size of a header and
passes the product to sbrk, whose parameter is an int. The break of the process
moves by what sbrk receives. Physical memory bounds the break: room is the
largest one for which the kernel finds pages.
-/

namespace Xv6Riscv.UmallocSizes

open Transition Umalloc UmallocBlocks UmallocInvariant UmallocRuns Tiling

/-- nu*sizeof(Header) as the int parameter of sbrk. -/
def sbrkArgument (nu : ℕ) : ℤ := Int.bmod (nu*16) 4294967296

/-- sys_sbrk with growproc: the old break or -1, and the new break. Shrinking
below zero wraps around, and uvmdealloc then leaves the size as it is. -/
def sbrk (room brk : ℕ) (n : ℤ) : Option ℕ×ℕ :=
  if 0<n then if brk+n.toNat≤room then (some brk,brk+n.toNat) else (none,brk)
  else (some brk,if -n≤brk then brk-(-n).toNat else brk)

/-- malloc with the answer of sbrk to the request of morecore. -/
def mallocCall (base room : ℕ) (s : Sys) (brk nbytes : ℕ) : Outcome (Heap×ℕ) :=
  malloc base (searchBound s.heap) s.heap nbytes
    [(sbrk room brk (sbrkArgument (requested nbytes))).1]

/-- Whether malloc calls morecore: without an answer of sbrk it returns 0. -/
def asks (base : ℕ) (s : Sys) (nbytes : ℕ) : Bool :=
  match malloc base (searchBound s.heap) s.heap nbytes [] with
  | .next (_,0) => true
  | _ => false

/-- The break after the call. -/
def brkAfter (base room : ℕ) (s : Sys) (brk nbytes : ℕ) : ℕ :=
  if asks base s nbytes then (sbrk room brk (sbrkArgument (requested nbytes))).2 else brk

/-- The regions that the heap records are memory of the process. -/
structure Backed (base : ℕ) (h : Heap) (brk : ℕ) : Prop where
  /-- The data segment with base is below the break. -/
  low : base+16≤brk
  /-- Every region ends below the break. -/
  below : ∀ g∈h.regions,g.1+16*g.2≤brk
  /-- The regions are different parts of the memory. -/
  total : 16*h.obtained≤brk

/-- A call of malloc is safe: what morecore passes to sbrk is the size that it
records, and malloc returns 0 with the free list and the break unchanged or a
block whose whole extent is memory from sbrk below the break. -/
def Safe (base room : ℕ) (s : Sys) (brk nbytes : ℕ) : Prop :=
  (asks base s nbytes=true→
    sbrkArgument (requested nbytes)=16*(max (unitsFor nbytes) 4096 : ℕ)) ∧
  ∃ h' ap,mallocCall base room s brk nbytes=.next (h',ap) ∧
    (ap=0 ∧ h'=start base s.heap ∧ brkAfter base room s brk nbytes=brk ∨
      ∃ b,ap=b+16 ∧ unitsOf h' b=unitsFor nbytes ∧
        (∀ x,b≤x→x<b+16*unitsOf h' b→∃ g∈h'.regions,g.1≤x ∧ x<g.1+16*g.2) ∧
        ∀ g∈h'.regions,g.1+16*g.2≤brkAfter base room s brk nbytes)

variable {base room brk nbytes : ℕ} {s : Sys} {l : List ℕ}

lemma start_regions (base : ℕ) (h : Heap) : (start base h).regions=h.regions := by
  rw [start]
  split_ifs
  · rfl
  · rfl

/-- A live block lies in the regions. -/
lemma extent_covered {h : Heap} {live : List ℕ} {b : ℕ} (h' : HeapInv base h (b::live) l) (x : ℕ)
    (hle : b≤x) (hlt : x<b+16*unitsOf h b) : ∃ g∈h.regions,g.1≤x ∧ x<g.1+16*g.2 := by
  have hmem : part (unitsOf h) b∈(l++b::live).map (part (unitsOf h)) :=
    List.mem_map_of_mem (List.mem_append_right l List.mem_cons_self)
  obtain ⟨r,hr,hx⟩ := (h'.blocks.tiles.cover x).mp ⟨_,hmem,mem_interval.mpr ⟨hle,hlt⟩⟩
  obtain ⟨g,hg,rfl⟩ := List.mem_map.mp hr
  exact ⟨g,hg,mem_interval.mp hx⟩

lemma bmod_of_small {x : ℤ} {d : ℕ} (h0 : 0≤x) (h : 2*x<d) : Int.bmod x d=x :=
  Int.bmod_eq_of_le (by omega) (by omega)

lemma sbrkArgument_small {nu : ℕ} (h : 16*nu<2^31) : sbrkArgument nu=16*nu := by
  change Int.bmod (nu*16) 4294967296=16*nu
  rw [bmod_of_small (by omega) (by omega),Int.mul_comm]

lemma sbrkArgument_lt (nu : ℕ) : sbrkArgument nu<2^31 := by
  have hlt := @Int.bmod_lt (nu*16) 4294967296 (by omega)
  change Int.bmod (nu*16) 4294967296<2^31
  omega

lemma requested_eq (nbytes : ℕ) : requested nbytes=max (unitsFor nbytes) 4096 := by
  rw [requested]
  split_ifs
  · omega
  · omega

/-- The bounds for the loops of one call. -/
lemma bounds (nbytes : ℕ) (hl : HeapInv base (start base s.heap) s.live l) :
    2*l.length+1≤ searchBound s.heap ∧ 0<unitsFor nbytes := by
  have hlen := length_le hl
  rw [Heap.obtained,start_regions,←Heap.obtained] at hlen
  rw [searchBound,unitsFor]
  omega

/-- malloc calls morecore exactly if no free block is large enough. -/
lemma asks_iff (nbytes : ℕ) (hl : HeapInv base (start base s.heap) s.live l) :
    asks base s nbytes=true ↔ ∀ x∈l,unitsOf (start base s.heap) x<unitsFor nbytes := by
  obtain ⟨hfuel,hn⟩ := bounds nbytes hl
  by_cases hfit : ∃ x∈l,unitsFor nbytes≤unitsOf (start base s.heap) x
  · obtain ⟨x,hx,hle⟩ := hfit
    obtain ⟨h',b,l',hrun,-⟩ := @malloc_found _ (searchBound s.heap) _ _ _ _ _ hl hn hx hle
      (searchBound s.heap) (by omega) []
    have hmalloc : malloc base (searchBound s.heap) s.heap nbytes []=.next (h',b+16) := hrun
    have hno : asks base s nbytes=false := by simp [asks,hmalloc]
    rw [hno]
    exact iff_of_false nofun fun hall => absurd (hall x hx) (not_lt.mpr hle)
  · have hsmall : ∀ x∈l,unitsOf (start base s.heap) x<unitsFor nbytes :=
      fun x hx => lt_of_not_ge fun hle => hfit ⟨x,hx,hle⟩
    obtain ⟨k,-,hrun⟩ := @mallocLoop_asks _ (searchBound s.heap) _ _ _ _ _ hl hfuel hsmall []
    have hmalloc : malloc base (searchBound s.heap) s.heap nbytes []=.next (start base s.heap,0) :=
      hrun
    exact iff_of_true (by simp [asks,hmalloc]) hsmall

/-- malloc is safe for a request exactly if its size in bytes, with the header,
is below 2^31 or some free block is large enough for it. -/
theorem malloc_safe_iff (hbase : 0<base) (hl : HeapInv base (start base s.heap) s.live l)
    (hback : Backed base s.heap brk) (hbrk : brk≤room) (hroom : room≤128*2^20) :
    Safe base room s brk nbytes ↔
      16*unitsFor nbytes<2^31 ∨ ∃ x∈l,unitsFor nbytes≤unitsOf (start base s.heap) x := by
  obtain ⟨hfuel,hn⟩ := bounds nbytes hl
  have hreg := start_regions base s.heap
  have hasks := asks_iff nbytes hl
  by_cases hfit : ∃ x∈l,unitsFor nbytes≤unitsOf (start base s.heap) x
  · refine iff_of_true ?_ (.inr hfit)
    have hno : asks base s nbytes=false := by
      rw [←Bool.not_eq_true,hasks]
      obtain ⟨x,hx,hle⟩ := hfit
      exact fun hall => absurd (hall x hx) (not_lt.mpr hle)
    obtain ⟨x,hx,hle⟩ := hfit
    obtain ⟨h',b,l',hrun,hinv',hb,hregs,-⟩ := @malloc_found _ (searchBound s.heap) _ _ _ _ _ hl hn
      hx hle (searchBound s.heap) (by omega)
      [(sbrk room brk (sbrkArgument (requested nbytes))).1]
    refine ⟨fun h => absurd h (by rw [hno]; nofun),h',b+16,hrun,
      .inr ⟨b,rfl,hb,extent_covered hinv',?_⟩⟩
    rw [brkAfter,hno,hregs,hreg]
    exact hback.below
  have hsmall : ∀ x∈l,unitsOf (start base s.heap) x<unitsFor nbytes :=
    fun x hx => lt_of_not_ge fun hle => hfit ⟨x,hx,hle⟩
  have hyes := hasks.mpr hsmall
  by_cases hsize : 16*unitsFor nbytes<2^31
  · refine iff_of_true ?_ (.inl hsize)
    have hnu := requested_eq nbytes
    have harg : sbrkArgument (requested nbytes)=16*requested nbytes :=
      sbrkArgument_small (by omega)
    refine ⟨fun _ => by rw [harg,hnu],?_⟩
    by_cases hmem : brk+16*requested nbytes≤room
    · have hsbrk : sbrk room brk (sbrkArgument (requested nbytes))=
          (some brk,brk+16*requested nbytes) := by
        rw [harg,sbrk,if_pos (by omega),if_pos (by omega)]
        congr 1
      have htotal := hback.total
      obtain ⟨h',b,l',hrun,hinv',hb,hregs,-⟩ := @mallocLoop_grown _ (searchBound s.heap) _ _ _ _
        (requested nbytes) (searchBound s.heap) brk hl hbase hn rfl hfuel (by omega) hsmall
        hback.low (by rw [hreg]; exact hback.below)
        (by rw [Heap.obtained,hreg,←Heap.obtained]; omega) []
      refine ⟨h',b+16,?_,.inr ⟨b,rfl,hb,extent_covered hinv',?_⟩⟩
      · rw [mallocCall,hsbrk]
        exact hrun
      · rw [brkAfter,if_pos hyes,hsbrk,hregs,hreg]
        refine List.forall_mem_cons.mpr ⟨Nat.le_refl _,fun g hg => ?_⟩
        exact (hback.below g hg).trans (Nat.le_add_right ..)
    · have hsbrk : sbrk room brk (sbrkArgument (requested nbytes))=(none,brk) := by
        rw [harg,sbrk,if_pos (by omega),if_neg (by omega)]
      refine ⟨start base s.heap,0,?_,.inl ⟨rfl,rfl,?_⟩⟩
      · rw [mallocCall,hsbrk]
        exact mallocLoop_refused hl hfuel hsmall []
      · rw [brkAfter,if_pos hyes,hsbrk]
  · refine iff_of_false (fun hsafe => ?_) (not_or.mpr ⟨hsize,hfit⟩)
    have hpassed := hsafe.1 hyes
    have hlt := sbrkArgument_lt (requested nbytes)
    omega

/-- A process that has called malloc once with memory for it. -/
def small : Sys := ⟨⟨fun _ => ⟨4096,0⟩,4096,[]⟩,[]⟩

lemma small_inv : HeapInv 4096 (start 4096 small.heap) small.live [4096] := by
  refine ⟨CircularList.ring_singleton.mpr rfl,List.mem_cons_self,
    ⟨rfl,rfl,List.pairwise_singleton ..,?_,nofun,?_,nofun,by decide⟩⟩
  · intro a ha hne
    exact absurd (List.mem_singleton.mp ha) hne
  · refine ⟨List.pairwise_singleton ..,fun x => ⟨?_,nofun⟩,rfl⟩
    rintro ⟨p,hp,hx⟩
    rw [List.mem_singleton.mp hp] at hx
    obtain ⟨h1,h2⟩ := mem_interval.mp hx
    change 4096≤x at h1
    change x<4096+16*0 at h2
    omega

lemma small_backed : Backed 4096 small.heap 8192 := ⟨by decide,nofun,by decide⟩

/-- A request of 100 bytes in a heap without free blocks. -/
theorem small_request_safe : Safe 4096 (2^20) small 8192 100 :=
  (malloc_safe_iff (by decide) small_inv small_backed (by decide) (by decide)).mpr
    (.inl (by decide))

/-- A request of 2^31 bytes makes morecore pass a negative count. -/
theorem large_request_unsafe : ¬Safe 4096 (2^20) small 8192 (2^31) ∧
    sbrkArgument (requested (2^31))<0 := by
  refine ⟨fun hsafe => ?_,by decide⟩
  have hyes : asks 4096 small (2^31)=true := (asks_iff _ small_inv).mpr (by decide)
  exact absurd (hsafe.1 hyes) (by decide)

end Xv6Riscv.UmallocSizes
