import Xv6Riscv.CircularList
import Xv6Riscv.Tiling
import Xv6Riscv.Umalloc

/-!
# The blocks of the user-level heap

The free list, read from base, is in the order of addresses. Its blocks and the
live blocks tile the memory that sbrk has returned, and no free block touches the
next one. malloc and free only split blocks, join them and move them between the
two lists, so each step is a rule for tilings and a change of the ring at one
place. Sizes are of type uint; as long as fewer than 2^32 headers have been
obtained, no sum of sizes overflows.
-/

namespace Xv6Riscv.UmallocBlocks

open Function
open Transition Umalloc CircularList Tiling

section Headers

variable (h : Heap) (p a x n : ℕ)

def ptrOf (h : Heap) (a : ℕ) : ℕ := (h.hdr a).ptr

def unitsOf (h : Heap) (a : ℕ) : ℕ := (h.hdr a).size

@[simp]
lemma unitsOf_setPtr : unitsOf (h.setPtr p x)=unitsOf h := by
  funext a
  by_cases ha : a=p
  · simp [unitsOf,Heap.setPtr,ha]
  · simp [unitsOf,Heap.setPtr,ha]

@[simp]
lemma ptrOf_setSize : ptrOf (h.setSize p n)=ptrOf h := by
  funext a
  by_cases ha : a=p
  · simp [ptrOf,Heap.setSize,ha]
  · simp [ptrOf,Heap.setSize,ha]

@[simp]
lemma ptrOf_setPtr : ptrOf (h.setPtr p x)=update (ptrOf h) p x := by
  funext a
  by_cases ha : a=p
  · simp [ptrOf,Heap.setPtr,ha]
  · simp [ptrOf,Heap.setPtr,ha]

@[simp]
lemma unitsOf_setSize : unitsOf (h.setSize p n)=update (unitsOf h) p n := by
  funext a
  by_cases ha : a=p
  · simp [unitsOf,Heap.setSize,ha]
  · simp [unitsOf,Heap.setSize,ha]

lemma behind_eq : h.behind a=a+16*unitsOf h a := rfl

end Headers

section Blocks

def part (size : ℕ→ℕ) (a : ℕ) : ℕ×ℕ := (a,16*size a)

def spans (regions : List (ℕ×ℕ)) : List (ℕ×ℕ) := regions.map fun g => (g.1,16*g.2)

/-- The free blocks l, starting with base, and the live blocks, given the size of
each block. -/
structure Blocks (base : ℕ) (size : ℕ→ℕ) (regions : List (ℕ×ℕ)) (live l : List ℕ) : Prop where
  head : l.head?=some base
  empty : size base=0
  gaps : l.Pairwise fun a b => a+16*size a<b
  pos : ∀ a∈l,a≠base→0<size a
  livePos : ∀ b∈live,0<size b
  tiles : Tiles ((l++live).map (part size)) (spans regions)
  low : ∀ g∈regions,base+16≤g.1
  bound : (regions.map Prod.snd).sum<2^32

variable {base : ℕ} {size size' : ℕ→ℕ} {regions : List (ℕ×ℕ)} {live live' l pre suf : List ℕ}
  {a b p q r x bp n : ℕ}

lemma map_part (h : ∀ a∈l,size' a=size a) : l.map (part size')=l.map (part size) :=
  List.map_congr_left fun a ha => by rw [part,part,h a ha]

lemma sum_spans (regions : List (ℕ×ℕ)) :
    ((spans regions).map Prod.snd).sum=16*(regions.map Prod.snd).sum := by
  rw [spans,List.map_map,←List.sum_map_mul_left]
  rfl

variable (h : Blocks base size regions live l)

include h

lemma Blocks.base_mem : base∈l :=
  List.mem_of_mem_head? h.head

lemma Blocks.pos_of_ne (ha : a∈l++live) (hne : a≠base) : 0<size a := by
  rcases List.mem_append.mp ha with ha|ha
  · exact h.pos a ha hne
  · exact h.livePos a ha

lemma Blocks.start_mem (ha : a∈l++live) (hne : a≠base) : ∃ g∈regions,g.1≤a ∧ a<g.1+16*g.2 := by
  have hpos := h.pos_of_ne ha hne
  obtain ⟨r,hr,hmem⟩ := h.tiles.start (List.mem_map_of_mem ha) (by rw [part]; omega)
  obtain ⟨g,hg,rfl⟩ := List.mem_map.mp hr
  exact ⟨g,hg,mem_interval.mp hmem⟩

lemma Blocks.base_lt (ha : a∈l++live) (hne : a≠base) : base+16≤a := by
  obtain ⟨g,hg,hge,-⟩ := h.start_mem ha hne
  exact (h.low g hg).trans hge

lemma Blocks.base_le (ha : a∈l) : base≤a := by
  by_cases hne : a=base
  · exact hne.ge
  · have hlt := h.base_lt (List.mem_append_left _ ha) hne
    omega

lemma Blocks.ne_base (hb : b∈live) : b≠base := by
  rintro rfl
  have hpos := h.livePos b hb
  rw [h.empty] at hpos
  omega

lemma Blocks.nodup : (l++live).Nodup := by
  have hself : ∀ {a b},Disjoint (interval (part size a)) (interval (part size b))→0<size a→a≠b := by
    rintro a _ hdis hpos rfl
    have hmem : a∈interval (part size a) := Tiling.start_mem (by rw [part]; omega)
    exact Set.disjoint_left.mp hdis hmem hmem
  have hapart := h.tiles.apart
  rw [List.map_append,List.pairwise_append,List.pairwise_map,List.pairwise_map] at hapart
  refine List.nodup_append.mpr ⟨?_,?_,?_⟩
  · exact h.gaps.imp fun hab => by omega
  · exact hapart.2.1.imp_of_mem fun ha _ hdis => hself hdis (h.livePos _ ha)
  · intro a ha b hb
    by_cases hne : a=base
    · rw [hne]
      exact (h.ne_base hb).symm
    · exact hself (hapart.2.2 _ (List.mem_map_of_mem ha) _ (List.mem_map_of_mem hb)) (h.pos a ha hne)

lemma Blocks.apart (ha : a∈l++live) (hb : b∈l++live) (hne : a≠b) (hab : a≠base) (hbb : b≠base) :
    a+16*size a≤b ∨ b+16*size b≤a := by
  have hapart := List.pairwise_map.mp h.tiles.apart
  have : Std.Symm fun a b => Disjoint (interval (part size a)) (interval (part size b)) :=
    ⟨fun _ _ hdis => hdis.symm⟩
  have hdis := hapart.forall ha hb hne
  have hpa := h.pos_of_ne ha hab
  have hpb := h.pos_of_ne hb hbb
  exact le_or_le_of_disjoint hdis (by rw [part]; omega) (by rw [part]; omega)

lemma Blocks.cross (ha : a∈l) (hb : b∈live) : a+16*size a≤b ∨ b+16*size b≤a := by
  have hbb := h.ne_base hb
  by_cases hne : a=base
  · have hlt := h.base_lt (List.mem_append_right _ hb) hbb
    rw [hne,h.empty]
    omega
  · have hab : a≠b := by
      rintro rfl
      exact (List.nodup_append.mp h.nodup).2.2 a ha a hb rfl
    exact h.apart (List.mem_append_left _ ha) (List.mem_append_right _ hb) hab hne hbb

lemma Blocks.notMem_inside (ha : a∈l++live) (hax : a<x) (hx : x<a+16*size a) : x∉l++live := by
  intro hmem
  have hab : a≠base := by grind [h.empty]
  have hlt := h.base_lt ha hab
  rcases h.apart ha hmem (by omega) hab (by omega) with hle|hle
  · omega
  · omega

lemma Blocks.size_lt (ha : a∈l++live) : size a<2^32 := by
  have hle := h.tiles.length_le (List.mem_map_of_mem ha)
  rw [sum_spans,part] at hle
  have hbound := h.bound
  dsimp only at hle
  omega

lemma Blocks.units : (l.map size).sum+(live.map size).sum=(regions.map Prod.snd).sum := by
  have htotal := h.tiles.total
  rw [sum_spans,List.map_map,List.map_append,List.sum_append] at htotal
  have hsum : ∀ l : List ℕ,(l.map (Prod.snd∘part size)).sum=16*(l.map size).sum := by
    intro l
    rw [←List.sum_map_mul_left]
    rfl
  rw [hsum,hsum] at htotal
  omega

end Blocks

section Rules

variable {base : ℕ} {size size' : ℕ→ℕ} {regions : List (ℕ×ℕ)} {live live' l l' pre suf rest : List ℕ}
  {a b p q r bp n : ℕ}

lemma tiles_merge (rest : List ℕ) (hl : l.Perm (a::b::rest)) (hl' : l'.Perm (a::rest)) (hab : a+16*size a=b)
    (ha : size' a=size a+size b) (hrest : ∀ x∈rest,size' x=size x) {parts : List (ℕ×ℕ)} :
    Tiles (l.map (part size)) parts ↔ Tiles (l'.map (part size')) parts := by
  have hjoin : Tiles ((a::b::rest).map (part size)) parts ↔
      Tiles ((a::rest).map (part size')) parts := by
    rw [List.map_cons,List.map_cons,List.map_cons,map_part hrest]
    have hparts := @tiles_join (rest.map (part size)) parts a (16*size a) (16*size b)
    rw [hab,←Nat.mul_add,←ha] at hparts
    exact hparts
  constructor
  · intro h
    exact (hjoin.mp (h.perm (hl.map _))).perm (hl'.symm.map _)
  · intro h
    exact (hjoin.mpr (h.perm (hl'.map _))).perm (hl.symm.map _)

lemma Blocks.perm (h : Blocks base size regions live l) (hperm : live.Perm live') :
    Blocks base size regions live' l where
  head := h.head
  empty := h.empty
  gaps := h.gaps
  pos := h.pos
  livePos := fun b hb => h.livePos b (hperm.mem_iff.mpr hb)
  tiles := h.tiles.perm ((hperm.append_left l).map _)
  low := h.low
  bound := h.bound

lemma Blocks.congr (h : Blocks base size regions live l) (heq : ∀ a∈l++live,size' a=size a) :
    Blocks base size' regions live l := by
  have hl : ∀ a∈l,size' a=size a := fun a ha => heq a (List.mem_append_left _ ha)
  refine ⟨h.head,?_,?_,?_,?_,?_,h.low,h.bound⟩
  · rw [hl base h.base_mem]
    exact h.empty
  · grind [h.gaps.imp_of_mem]
  · intro a ha hne
    rw [hl a ha]
    exact h.pos a ha hne
  · intro b hb
    rw [heq b (List.mem_append_right _ hb)]
    exact h.livePos b hb
  · rw [map_part heq]
    exact h.tiles

lemma Blocks.detach (h : Blocks base size regions live (pre++p::q::suf)) :
    Blocks base size regions (q::live) (pre++p::suf) := by
  have hsub : (pre++p::suf).Sublist (pre++p::q::suf) :=
    ((List.sublist_cons_self q suf).cons_cons p).append_left pre
  have hlt : p+16*size p<q :=
    (List.pairwise_cons.mp (List.pairwise_append.mp h.gaps).2.1).1 q List.mem_cons_self
  have hq : q≠base := by
    have hle := h.base_le (a:=p) (by simp)
    omega
  refine ⟨?_,h.empty,h.gaps.sublist hsub,fun a ha => h.pos a (hsub.subset ha),?_,?_,h.low,h.bound⟩
  · grind [h.head]
  · intro b hb
    rcases List.mem_cons.mp hb with rfl|hb
    · exact h.pos b (by simp) hq
    · exact h.livePos b hb
  · refine h.tiles.perm (List.Perm.map _ ?_)
    rw [List.perm_iff_count]
    grind

lemma Blocks.upper (h : Blocks base size regions (bp::live) (pre++p::q::suf))
    (hq : bp+16*size bp=q) :
    Blocks base (update size bp (size bp+size q)) regions (bp::live) (pre++p::suf) := by
  have hsub : (pre++p::suf).Sublist (pre++p::q::suf) :=
    ((List.sublist_cons_self q suf).cons_cons p).append_left pre
  have hdup := List.nodup_append.mp h.nodup
  have hsize : ∀ a,a≠bp→update size bp (size bp+size q) a=size a :=
    fun a ha => update_of_ne ha ..
  have hbp : ∀ a∈pre++p::suf,update size bp (size bp+size q) a=size a := fun a ha =>
    hsize a (hdup.2.2 a (hsub.subset ha) bp List.mem_cons_self)
  have hlive : ∀ b∈live,update size bp (size bp+size q) b=size b := fun b hb =>
    hsize b fun heq => (List.nodup_cons.mp hdup.2.1).1 (heq▸hb)
  have hpos := h.livePos bp List.mem_cons_self
  refine ⟨?_,?_,?_,?_,?_,?_,h.low,h.bound⟩
  · grind [h.head]
  · rw [hsize base (h.ne_base List.mem_cons_self).symm]
    exact h.empty
  · refine (h.gaps.sublist hsub).imp_of_mem fun ha _ hab => ?_
    rw [hbp _ ha]
    exact hab
  · intro a ha hne
    rw [hbp a ha]
    exact h.pos a (hsub.subset ha) hne
  · intro b hb
    rcases List.mem_cons.mp hb with rfl|hb
    · rw [update_self]
      omega
    · rw [hlive b hb]
      exact h.livePos b (List.mem_cons_of_mem _ hb)
  · refine (tiles_merge (pre++p::suf++live) ?_ List.perm_middle hq
      (update_self ..) ?_).mp h.tiles
    · rw [List.perm_iff_count]
      intro a
      simp only [List.count_append,List.count_cons]
      omega
    · intro x hx
      rcases List.mem_append.mp hx with hx|hx
      · exact hbp x hx
      · exact hlive x hx

lemma Blocks.lower (h : Blocks base size regions (bp::live) (pre++p::suf))
    (hp : p+16*size p=bp) (habove : ∀ x∈suf,bp+16*size bp<x) :
    Blocks base (update size p (size p+size bp)) regions live (pre++p::suf) := by
  have hdup := List.nodup_append.mp h.nodup
  have hmem : p∈pre++p::suf := List.mem_append_right _ List.mem_cons_self
  have hpb : p≠base := by grind [h.empty]
  have hsize : ∀ a,a≠p→update size p (size p+size bp) a=size a :=
    fun a ha => update_of_ne ha ..
  have hpre : ∀ a∈pre,update size p (size p+size bp) a=size a := fun a ha =>
    hsize a ((List.nodup_append.mp hdup.1).2.2 a ha p List.mem_cons_self)
  have hsuf : ∀ a∈suf,update size p (size p+size bp) a=size a := fun a ha =>
    hsize a fun heq => (List.nodup_cons.mp (List.nodup_append.mp hdup.1).2.1).1 (heq▸ha)
  have hlive : ∀ b∈live,update size p (size p+size bp) b=size b := fun b hb =>
    hsize b fun heq => hdup.2.2 p hmem b (List.mem_cons_of_mem _ hb) heq.symm
  obtain ⟨hgpre,hgsuf,hgap⟩ := List.pairwise_append.mp h.gaps
  rw [List.pairwise_cons] at hgsuf
  refine ⟨h.head,?_,?_,?_,?_,?_,h.low,h.bound⟩
  · rw [hsize base hpb.symm]
    exact h.empty
  · refine List.pairwise_append.mpr ⟨?_,List.pairwise_cons.mpr ⟨?_,?_⟩,?_⟩
    · grind [hgpre.imp_of_mem]
    · grind
    · grind [hgsuf.2.imp_of_mem]
    · grind
  · intro a ha hne
    have hpos := h.pos a ha hne
    by_cases hap : a=p
    · rw [hap] at hpos ⊢
      rw [update_self]
      omega
    · rw [hsize a hap]
      exact hpos
  · intro b hb
    rw [hlive b hb]
    exact h.livePos b (List.mem_cons_of_mem _ hb)
  · refine (tiles_merge (pre++suf++live) ?_ ?_ hp (update_self ..) ?_).mp h.tiles
    · grind
    · grind
    · grind

lemma Blocks.insert (h : Blocks base size regions (bp::live) (pre++p::suf))
    (hp : p+16*size p<bp) (habove : ∀ x∈suf,bp+16*size bp<x) :
    Blocks base size regions live (pre++p::bp::suf) := by
  obtain ⟨hgpre,hgsuf,hgap⟩ := List.pairwise_append.mp h.gaps
  rw [List.pairwise_cons] at hgsuf
  refine ⟨?_,h.empty,?_,?_,fun b hb => h.livePos b (List.mem_cons_of_mem _ hb),?_,h.low,h.bound⟩
  · grind [h.head]
  · refine List.pairwise_append.mpr ⟨hgpre,List.pairwise_cons.mpr ⟨?_,
      List.pairwise_cons.mpr ⟨habove,hgsuf.2⟩⟩,?_⟩
    · grind
    · grind [List.mem_cons_self]
  · intro a ha hne
    simp only [List.mem_append,List.mem_cons] at ha
    rcases ha with ha|rfl|rfl|ha
    · exact h.pos a (by simp [ha]) hne
    · exact h.pos a (by simp) hne
    · exact h.livePos a List.mem_cons_self
    · exact h.pos a (by simp [ha]) hne
  · grind [h.tiles.perm]

lemma Blocks.split (h : Blocks base size regions live l) (hp : p∈l) (hn : 0<n)
    (hlt : n<size p) :
    Blocks base (update (update size p (size p-n)) (p+16*(size p-n)) n) regions
      ((p+16*(size p-n))::live) l := by
  set t := p+16*(size p-n) with ht
  set size' := update (update size p (size p-n)) t n with hsize'
  have hnot : t∉l++live := h.notMem_inside (List.mem_append_left _ hp) (by omega) (by omega)
  have htp : p≠t := by omega
  have hsp : size' p=size p-n := by rw [hsize',update_of_ne htp,update_self]
  have hst : size' t=n := update_self ..
  have hother : ∀ a∈l++live,a≠p→size' a=size a := by grind
  have hpb : p≠base := by grind [h.empty]
  have hlp : ∀ b∈live,b≠p := by grind [h.nodup]
  refine ⟨h.head,?_,?_,?_,?_,?_,h.low,h.bound⟩
  · rw [hother base (List.mem_append_left _ h.base_mem) hpb.symm]
    exact h.empty
  · grind [h.gaps.imp_of_mem]
  · intro a ha hne
    by_cases hap : a=p
    · rw [hap,hsp]
      omega
    · rw [hother a (List.mem_append_left _ ha) hap]
      exact h.pos a ha hne
  · intro b hb
    rcases List.mem_cons.mp hb with rfl|hb
    · rw [hst]
      exact hn
    · rw [hother b (List.mem_append_right _ hb) (hlp b hb)]
      exact h.livePos b hb
  · obtain ⟨pre,suf,rfl⟩ := List.append_of_mem hp
    have hdup := (List.nodup_append.mp h.nodup).1
    refine (tiles_merge (a:=p) (b:=t) (pre++suf++live)
      ?_ ?_ ?_ ?_ ?_).mpr h.tiles
    · grind
    · grind
    · rw [hsp]
    · rw [hsp,hst]
      omega
    · grind

lemma Blocks.grow (h : Blocks base size regions live l) (hr : base+16≤r)
    (hfresh : ∀ g∈regions,g.1+16*g.2≤r) (hn : 0<n)
    (hbound : (regions.map Prod.snd).sum+n<2^32) :
    Blocks base (update size r n) ((r,n)::regions) (r::live) l := by
  have hnot : ∀ a∈l++live,a≠r := by grind [h.start_mem]
  have hold : Blocks base (update size r n) regions live l :=
    h.congr fun a ha => update_of_ne (hnot a ha) ..
  refine ⟨h.head,hold.empty,hold.gaps,hold.pos,?_,?_,?_,?_⟩
  · intro b hb
    rcases List.mem_cons.mp hb with rfl|hb
    · rw [update_self]
      exact hn
    · exact hold.livePos b hb
  · have hgrow := hold.tiles.grow (r:=(r,16*n)) fun q hq => by
      obtain ⟨g,hg,rfl⟩ := List.mem_map.mp hq
      exact hfresh g hg
    have hpart : part (update size r n) r=(r,16*n) := by rw [part,update_self]
    rw [←hpart,←List.map_cons] at hgrow
    rw [hpart] at hgrow
    exact hgrow.perm (List.perm_middle.symm.map _)
  · intro g hg
    rcases List.mem_cons.mp hg with rfl|hg
    · exact hr
    · exact h.low g hg
  · grind

end Rules

end Xv6Riscv.UmallocBlocks
