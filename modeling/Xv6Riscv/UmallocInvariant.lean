import Xv6Riscv.UmallocBlocks

/-!
# The invariant of the user-level heap

free enters the ring of free blocks at freep and walks until it has found the
place of the freed block; malloc walks until it has found a block that is large
enough or is back at freep. Both walks end, because the ring is one. A freed
block is joined with its neighbours, so that no two free blocks touch, and after
morecore there is a block that is large enough.
-/

namespace Xv6Riscv.UmallocInvariant

open Function
open Transition Umalloc UmallocBlocks CircularList

section Search

/-- The ring of free blocks, entered at freep, and the live blocks. -/
structure HeapInv (base : ℕ) (h : Heap) (live l : List ℕ) : Prop where
  ring : Ring (ptrOf h) l
  entry : h.freep∈l
  blocks : Blocks base (unitsOf h) h.regions live l

variable {base bp a x p n : ℕ} {h : Heap} {live l pre suf : List ℕ}

variable (hinv : HeapInv base h live l)

include hinv

lemma HeapInv.sorted : l.Pairwise fun a b => a<b :=
  hinv.blocks.gaps.imp fun hab => by omega

lemma HeapInv.ptr_cases (ha : a∈l) :
    (ptrOf h a=base ∧ ∀ y∈l,y≤a) ∨ (a<ptrOf h a ∧ ∀ z∈l,z≤a ∨ ptrOf h a≤z) := by
  obtain ⟨pre,suf,rfl⟩ := List.append_of_mem ha
  obtain ⟨-,hsuf,hpre⟩ := List.pairwise_append.mp hinv.sorted
  cases suf with
  | nil =>
    left
    constructor
    · have hhead := hinv.blocks.head
      cases pre with
      | nil =>
        rw [List.nil_append,List.head?_cons,Option.some.injEq] at hhead
        rw [←hhead]
        exact ring_singleton.mp hinv.ring
      | cons c pre =>
        rw [List.cons_append,List.head?_cons,Option.some.injEq] at hhead
        rw [←hhead]
        exact hinv.ring.next_last
    · intro y hy
      rcases List.mem_append.mp hy with hy|hy
      · exact (hpre y hy a List.mem_cons_self).le
      · exact (List.mem_singleton.mp hy).le
  | cons q suf =>
    right
    rw [hinv.ring.next_eq]
    rw [List.pairwise_cons,List.pairwise_cons] at hsuf
    refine ⟨hsuf.1 q List.mem_cons_self,fun z hz => ?_⟩
    grind

def Stops (h : Heap) (bp p : ℕ) : Prop :=
  p<bp ∧ bp<ptrOf h p ∨ ptrOf h p≤p ∧ (p<bp ∨ bp<ptrOf h p)

lemma HeapInv.stops_iff (hx : x∈l) (hp : p∈l) (hlt : p<bp) (hnext : ∀ z∈l,z≤p ∨ bp<z) :
    Stops h bp x ↔ x=p := by
  have hbase := hinv.blocks.base_le hp
  have hbasex := hinv.blocks.base_le hx
  have hxp := hnext x hx
  rw [Stops]
  grind [hinv.ptr_cases,hinv.ring.next_mem]

omit hinv

lemma freeLoop_succ (fuel : ℕ) : freeLoop h bp (fuel+1) p=
    if p<bp ∧ bp<ptrOf h p then .next p
    else if ptrOf h p≤p ∧ (p<bp ∨ bp<ptrOf h p) then .next p
    else freeLoop h bp fuel (ptrOf h p) := rfl

lemma freeLoop_walk (hstop : Stops h bp p) (w t : List ℕ) (fuel : ℕ) (hsplit : x::t=w++[p])
    (hchain : List.IsChain (fun a b => ptrOf h a=b) (x::t)) (hw : ∀ y∈w,¬Stops h bp y)
    (hfuel : w.length<fuel) : freeLoop h bp fuel x=.next p := by
  induction w generalizing x t fuel with
  | nil =>
    obtain ⟨rfl,rfl⟩ := List.cons.inj hsplit
    obtain ⟨fuel,rfl⟩ := Nat.exists_eq_add_one.mpr hfuel
    rw [freeLoop_succ]
    rcases hstop with hstop|hstop
    · exact if_pos hstop
    · grind
  | cons y w ih =>
    obtain ⟨rfl,rfl⟩ := List.cons.inj hsplit
    obtain ⟨fuel,rfl⟩ := Nat.exists_eq_add_one.mpr (Nat.zero_lt_of_lt hfuel)
    have hno := hw x List.mem_cons_self
    rw [Stops,not_or] at hno
    rw [List.length_cons] at hfuel
    rw [freeLoop_succ,if_neg hno.1,if_neg hno.2]
    cases hwp : w++[p] with
    | nil => exact absurd hwp (by simp)
    | cons z t =>
      rw [List.append_eq,hwp,List.isChain_cons_cons] at hchain
      rw [hchain.1]
      exact ih t fuel hwp.symm hchain.2 (fun y hy => hw y (List.mem_cons_of_mem _ hy)) (by omega)

lemma HeapInv.freeLoop_finds (hinv : HeapInv base h live l) (hp : p∈l) (hlt : p<bp)
    (hnext : ∀ z∈l,z≤p ∨ bp<z) {fuel : ℕ} (hfuel : l.length≤fuel) :
    freeLoop h bp fuel h.freep=.next p := by
  obtain ⟨u,v,hl⟩ := List.append_of_mem hinv.entry
  have hring : Ring (ptrOf h) (h.freep::(v++u)) := by
    have hfrom := hinv.ring
    rw [hl] at hfrom
    exact hfrom.from
  have hperm : (h.freep::(v++u)).Perm l := by grind
  have hdup : (h.freep::(v++u)).Nodup :=
    hperm.nodup_iff.mpr (List.nodup_append.mp hinv.blocks.nodup).1
  obtain ⟨w,rest,hw⟩ := List.append_of_mem (hperm.mem_iff.mpr hp)
  rw [hw] at hdup hperm
  have hchain : List.IsChain (fun a b => ptrOf h a=b) (w++[p]) := by
    have hall := hring.chain
    have happ : w++p::rest++[h.freep]=(w++[p])++(rest++[h.freep]) := by simp
    rw [←List.cons_append,hw,happ] at hall
    exact hall.left_of_append
  have hnot : ∀ y∈w,¬Stops h bp y := by grind [hinv.stops_iff]
  have hlen : w.length<fuel := by grind [List.length_cons]
  have hstart : ∃ t,h.freep::t=w++[p] := by
    cases w with
    | nil => exact ⟨[],by rw [List.nil_append] at hw ⊢; rw [(List.cons.inj hw).1]⟩
    | cons c w => exact ⟨w++[p],by rw [(List.cons.inj hw).1]; rfl⟩
  obtain ⟨t,ht⟩ := hstart
  refine freeLoop_walk ((hinv.stops_iff hp hp hlt hnext).mpr rfl) w t fuel ht ?_ hnot hlen
  rw [ht]
  exact hchain

lemma exists_pred {b : ℕ} (l : List ℕ) (hl : l.Pairwise fun a b => a<b) (ha : a∈l.head?)
    (hab : a<b) (hb : b∉l) : ∃ pre p suf,l=pre++p::suf ∧ p<b ∧ ∀ x∈suf,b<x := by
  induction l generalizing a with
  | nil => cases ha
  | cons c t ih =>
    cases ha
    cases t with
    | nil => exact ⟨[],_,[],rfl,hab,nofun⟩
    | cons d t =>
      rw [List.pairwise_cons] at hl
      by_cases hd : d<b
      · grind
      · have hdb : b≠d := fun heq => hb (heq▸List.mem_cons_of_mem _ List.mem_cons_self)
        refine ⟨[],_,d::t,rfl,hab,fun x hx => ?_⟩
        grind [List.pairwise_cons]

end Search

section Free

variable {base bp p n : ℕ} {h : Heap} {live l pre suf : List ℕ}

lemma joinUpper_eq (h : Heap) (bp p : ℕ) : joinUpper h bp p=
    if bp+16*unitsOf h bp=ptrOf h p then
      (h.setSize bp ((unitsOf h bp+unitsOf h (ptrOf h p))%2^32)).setPtr bp (ptrOf h (ptrOf h p))
    else h.setPtr bp (ptrOf h p) := by
  have hread : ptrOf (h.setSize bp ((unitsOf h bp+unitsOf h (ptrOf h p))%2^32))
      (ptrOf (h.setSize bp ((unitsOf h bp+unitsOf h (ptrOf h p))%2^32)) p)=
      ptrOf h (ptrOf h p) := by rw [ptrOf_setSize]
  rw [←hread]
  rfl

lemma joinLower_eq (h : Heap) (bp p : ℕ) : joinLower h bp p=
    if p+16*unitsOf h p=bp then
      (h.setSize p ((unitsOf h p+unitsOf h bp)%2^32)).setPtr p (ptrOf h bp)
    else h.setPtr p bp := by
  rw [←congrFun (ptrOf_setSize h p ((unitsOf h p+unitsOf h bp)%2^32)) bp]
  rfl

/-- The block bp is linked to the blocks behind it and belongs behind p. -/
structure Placed (base : ℕ) (h : Heap) (live pre : List ℕ) (p bp : ℕ) (suf : List ℕ) : Prop where
  ring : Ring (update (ptrOf h) p bp) (pre++p::bp::suf)
  blocks : Blocks base (unitsOf h) h.regions (bp::live) (pre++p::suf)
  above : ∀ x∈suf,bp+16*unitsOf h bp<x
  below : p+16*unitsOf h p≤bp

lemma joinUpper_placed (hinv : HeapInv base h (bp::live) (pre++p::suf)) (hp : p<bp)
    (hsuf : ∀ x∈suf,bp<x) : ∃ suf',Placed base (joinUpper h bp p) live pre p bp suf' ∧
      (joinUpper h bp p).regions=h.regions ∧ suf'.length≤ suf.length ∧
      unitsOf h bp≤unitsOf (joinUpper h bp p) bp ∧
      ∀ b∈live,unitsOf (joinUpper h bp p) b=unitsOf h b := by
  have hdup := List.nodup_append.mp hinv.blocks.nodup
  have hbp : ∀ a∈pre++p::suf,a≠bp := fun a ha => hdup.2.2 a ha bp List.mem_cons_self
  have hlive : ∀ b∈live,b≠bp := fun b hb heq => (List.nodup_cons.mp hdup.2.1).1 (heq▸hb)
  have hpmem : p∈pre++p::suf := List.mem_append_right _ List.mem_cons_self
  have hpne : ∀ a∈pre++suf,a≠p := by grind
  have hcross := fun x hx => hinv.blocks.cross (a:=x) hx List.mem_cons_self
  have hbelow : p+16*unitsOf h p≤bp := by grind
  rw [joinUpper_eq]
  by_cases htouch : bp+16*unitsOf h bp=ptrOf h p
  · rw [if_pos htouch]
    cases suf with
    | nil =>
      -- p is the last block and leads back to base
      grind [hinv.ring.next_mem,hinv.sorted]
    | cons q suf =>
      have hq : ptrOf h p=q := hinv.ring.next_eq
      rw [hq] at htouch ⊢
      have hjoin := hinv.blocks.upper htouch
      have hfit : (unitsOf h bp+unitsOf h q)%2^32=unitsOf h bp+unitsOf h q := by
        have hlt := hjoin.size_lt (a:=bp) (by simp)
        grind
      rw [hfit]
      have hgaps := (List.pairwise_cons.mp
        (List.pairwise_cons.mp (List.pairwise_append.mp hinv.blocks.gaps).2.1).2).1
      refine ⟨suf,⟨?_,?_,?_,?_⟩,rfl,by simp,?_,?_⟩
      · have hout : Ring (update (ptrOf h) p (ptrOf h q)) (pre++p::suf) := by
          refine hinv.ring.remove (update_self ..) fun a ha => ?_
          grind
        rw [ptrOf_setPtr,ptrOf_setSize]
        refine hout.insert (update_self ..) ?_ fun a ha => ?_
        · grind
        · grind
      · rw [unitsOf_setPtr,unitsOf_setSize]
        exact hjoin
      · intro x hx
        have hlt := hgaps x hx
        rw [unitsOf_setPtr,unitsOf_setSize,update_self]
        omega
      · rw [unitsOf_setPtr,unitsOf_setSize,update_of_ne (hbp p hpmem)]
        exact hbelow
      · rw [unitsOf_setPtr,unitsOf_setSize,update_self]
        omega
      · intro b hb
        rw [unitsOf_setPtr,unitsOf_setSize,update_of_ne (hlive b hb)]
  · rw [if_neg htouch]
    refine ⟨suf,⟨?_,?_,?_,?_⟩,rfl,le_rfl,?_,?_⟩
    · rw [ptrOf_setPtr]
      refine hinv.ring.insert (update_self ..) ?_ fun a ha => ?_
      · grind
      · grind
    · rw [unitsOf_setPtr]
      exact hinv.blocks
    · intro x hx
      rw [unitsOf_setPtr]
      have hlt := hsuf x hx
      have hle : bp+16*unitsOf h bp≤x := by
        rcases hcross x (by simp [hx]) with hle|hle
        · omega
        · exact hle
      cases suf with
      | nil => cases hx
      | cons q suf =>
        have hq : ptrOf h p=q := hinv.ring.next_eq
        rcases List.mem_cons.mp hx with rfl|hx
        · omega
        · have hqx := (List.pairwise_cons.mp
            (List.pairwise_cons.mp (List.pairwise_append.mp hinv.blocks.gaps).2.1).2).1 x hx
          grind
    · rw [unitsOf_setPtr]
      exact hbelow
    · rw [unitsOf_setPtr]
    · intro b _
      rw [unitsOf_setPtr]

lemma joinLower_spec (hpl : Placed base h live pre p bp suf) :
    ∃ l,Ring (ptrOf (joinLower h bp p)) l ∧
      Blocks base (unitsOf (joinLower h bp p)) (joinLower h bp p).regions live l ∧
      (joinLower h bp p).regions=h.regions ∧ p∈l ∧ l.length≤pre.length+suf.length+2 ∧
      (∃ x∈l,unitsOf h bp≤unitsOf (joinLower h bp p) x) ∧
      ∀ b∈live,unitsOf (joinLower h bp p) b=unitsOf h b := by
  have hdup := List.nodup_append.mp hpl.blocks.nodup
  have hpmem : p∈pre++p::suf := List.mem_append_right _ List.mem_cons_self
  have hpbp : p≠bp := hdup.2.2 p hpmem bp List.mem_cons_self
  have hlive : ∀ b∈live,b≠p := fun b hb heq =>
    hdup.2.2 p hpmem b (List.mem_cons_of_mem _ hb) heq.symm
  rw [joinLower_eq]
  by_cases htouch : p+16*unitsOf h p=bp
  · rw [if_pos htouch]
    have hjoin := hpl.blocks.lower htouch hpl.above
    have hfit : (unitsOf h p+unitsOf h bp)%2^32=unitsOf h p+unitsOf h bp := by
      have hlt := hjoin.size_lt (a:=p) (List.mem_append_left _ hpmem)
      grind
    rw [hfit]
    refine ⟨pre++p::suf,?_,?_,rfl,hpmem,by simp; omega,⟨p,hpmem,?_⟩,?_⟩
    · rw [ptrOf_setPtr,ptrOf_setSize]
      refine hpl.ring.remove ?_ fun a ha => ?_
      · grind
      · have hap : a≠p := by
          rintro rfl
          exact (List.nodup_middle.mp hdup.1).notMem ha
        rw [update_of_ne hap,update_of_ne hap]
    · rw [unitsOf_setPtr,unitsOf_setSize]
      exact hjoin
    · rw [unitsOf_setPtr,unitsOf_setSize,update_self]
      omega
    · intro b hb
      rw [unitsOf_setPtr,unitsOf_setSize,update_of_ne (hlive b hb)]
  · rw [if_neg htouch]
    refine ⟨pre++p::bp::suf,?_,?_,rfl,by simp,by simp; omega,⟨bp,by simp,?_⟩,?_⟩
    · rw [ptrOf_setPtr]
      exact hpl.ring
    · rw [unitsOf_setPtr]
      exact hpl.blocks.insert (lt_of_le_of_ne hpl.below htouch) hpl.above
    · rw [unitsOf_setPtr]
    · intro b _
      rw [unitsOf_setPtr]

/-- free makes a live block a free one. It keeps the sizes of the other live blocks,
and there is a free block that is as large as the freed one. -/
lemma free_spec (hinv : HeapInv base h (bp::live) l) {fuel : ℕ} (hfuel : l.length≤fuel) :
    ∃ h' l',free fuel h (bp+16)=.next h' ∧ HeapInv base h' live l' ∧ h'.regions=h.regions ∧
      l'.length≤l.length+1 ∧ (∃ x∈l',unitsOf h bp≤unitsOf h' x) ∧
      ∀ b∈live,unitsOf h' b=unitsOf h b := by
  have hbase : base<bp := by
    have hlt := hinv.blocks.base_lt (a:=bp) (by simp) (hinv.blocks.ne_base List.mem_cons_self)
    omega
  have hnot : bp∉l := fun hmem =>
    (List.nodup_append.mp hinv.blocks.nodup).2.2 bp hmem bp List.mem_cons_self rfl
  obtain ⟨pre,p,suf,rfl,hp,hsuf⟩ := exists_pred l hinv.sorted hinv.blocks.head hbase hnot
  have hnext : ∀ z∈pre++p::suf,z≤p ∨ bp<z := by grind [hinv.sorted,List.mem_cons_self]
  have hfind := hinv.freeLoop_finds (p:=p) (by simp) hp hnext hfuel
  obtain ⟨suf',hpl,hreg1,hlen1,hunits1,hlive1⟩ := joinUpper_placed hinv hp hsuf
  obtain ⟨l',hring,hblocks,hreg2,hmem,hlen2,⟨x,hx,hunits2⟩,hlive2⟩ := joinLower_spec hpl
  refine ⟨{joinLower (joinUpper h bp p) bp p with freep := p},l',?_,⟨hring,hmem,hblocks⟩,
    hreg2.trans hreg1,?_,⟨x,hx,hunits1.trans hunits2⟩,fun b hb => ?_⟩
  · rw [free,Nat.add_sub_cancel,hfind,bind_next]
  · simp only [List.length_append,List.length_cons]
    omega
  · exact (hlive2 b hb).trans (hlive1 b hb)

end Free

end Xv6Riscv.UmallocInvariant
