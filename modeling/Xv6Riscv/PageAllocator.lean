import Xv6Riscv.Transition

/-!
# The physical page allocator of kernel/kalloc.c

Pages are named by their physical page number. The free list and ref_cnt are
two separate records of who uses a page; the owner counter that the results
below are about is a third one, which exists only in the specification. It
counts page-table entries and kernel pointers, and the allocator invariant
says that ref_cnt never falls below it and that a free page has count zero.

Every result about an operation on some pages is stated with an arbitrary
counter for all other owners, so that results for different data structures
compose.
-/

namespace Xv6Riscv.PageAllocator

open Function
open Transition

def pgsize : ℕ := 4096

def physTop : ℕ := 0x88000

abbrev Page := Fin pgsize→UInt8

def fill (b : UInt8) : Page := fun _ => b

/-- The allocator: ref_cnt, the free list and the memory of kernel/kalloc.c. -/
structure Kmem where
  first : ℕ
  text : ℕ
  freelist : List ℕ
  refCnt : ℕ→ℤ
  mem : ℕ→Page
  oom : Bool

def Kmem.store (k : Kmem) (p : ℕ) (d : Page) : Kmem := {k with mem := update k.mem p d}

def Kmem.failed (k : Kmem) : Kmem := {k with oom := true}

/-- set_counter: a page that is handed out has one reference. -/
def setCounter (k : Kmem) (p : ℕ) : Kmem := {k with refCnt := update k.refCnt p 1}

/-- kalloc takes the first free page, fills it with 5 and counts it once. -/
def kalloc (k : Kmem) : Option ℕ×Kmem :=
  match k.freelist with
  | [] => (none,k.failed)
  | p::rest => (some p,setCounter ({k with freelist := rest}.store p (fill 5)) p)

/-- kfree drops a reference; the last one puts the page on the free list. -/
def kfree (k : Kmem) (p : ℕ) : Outcome Kmem :=
  if p<k.first ∨ physTop≤p then .panic "kfree"
  else if k.refCnt p≤1 then
    .next {({k with refCnt := update k.refCnt p 0}.store p (fill 1)) with
      freelist := p::k.freelist}
  else .next {k with refCnt := update k.refCnt p (k.refCnt p-1)}

/-- freerange of kernel/kalloc.c on n pages from page p on. -/
def freerange (k : Kmem) (p : ℕ) : ℕ→Outcome Kmem
  | 0 => .next k
  | n+1 => (kfree (setCounter k p) p).bind fun k' => freerange k' (p+1) n

/-- Memory before kinit: nothing is free and every counter is zero. -/
def bareMemory (first text : ℕ) : Kmem := ⟨first,text,[],fun _ => 0,fun _ => fill 0,false⟩

def kinit (first text : ℕ) : Outcome Kmem :=
  freerange (bareMemory first text) first (physTop-first)

/-- The free pages are distinct and count 0; counts cover the owners own. -/
structure KmemInv (k : Kmem) (own : ℕ→ℕ) : Prop where
  nodup : k.freelist.Nodup
  free : ∀ p,p∈k.freelist → k.refCnt p=0
  freeRange : ∀ p,p∈k.freelist → k.first≤p ∧ p<physTop
  owned : ∀ p,(own p : ℤ)≤k.refCnt p
  ownedRange : ∀ p,0<own p → k.first≤p ∧ p<physTop

variable {k : Kmem} {p : ℕ}

lemma KmemInv.mono {own own' : ℕ→ℕ} (h : KmemInv k own)
    (hle : ∀ p,own' p≤own p) : KmemInv k own' := by
  refine ⟨h.nodup,h.free,h.freeRange,fun p => ?_,fun p hp => ?_⟩
  · have hcover := h.owned p
    have hless := hle p
    omega
  · have hless := hle p
    exact h.ownedRange p (by omega)

variable {own : ℕ→ℕ}

lemma KmemInv.free_not_owned (h : KmemInv k own) (hp : p∈k.freelist) : own p=0 := by
  have hcover := h.owned p
  have hzero := h.free p hp
  omega

lemma KmemInv.store (h : KmemInv k own) (p : ℕ) (d : Page) :
    KmemInv (k.store p d) own := ⟨h.nodup,h.free,h.freeRange,h.owned,h.ownedRange⟩

/-- What an operation leaves alone: the bounds of memory, and the contents of
the pages that are still owned. A failed kalloc stays recorded. -/
structure Keeps (own : ℕ→ℕ) (k k' : Kmem) : Prop where
  first : k'.first=k.first
  oom : k'.oom=false → k.oom=false
  mem : ∀ p,0<own p → k'.mem p=k.mem p

lemma Keeps.refl (own : ℕ→ℕ) (k : Kmem) : Keeps own k k := ⟨rfl,id,fun _ _ => rfl⟩

lemma Keeps.trans {k k' k'' : Kmem} (h : Keeps own k k') (h' : Keeps own k' k'') :
    Keeps own k k'' :=
  ⟨h'.first.trans h.first,fun ho => h.oom (h'.oom ho),fun p hp => (h'.mem p hp).trans (h.mem p hp)⟩

lemma Keeps.mono {own own' : ℕ→ℕ} {k k' : Kmem} (h : Keeps own k k')
    (hle : ∀ p,own' p≤own p) : Keeps own' k k' := by
  refine ⟨h.first,h.oom,fun p hp => h.mem p ?_⟩
  have hless := hle p
  omega

lemma Keeps.store (k : Kmem) (d : Page) (h : own p=0) : Keeps own k (k.store p d) := by
  refine ⟨rfl,id,fun q hq => ?_⟩
  have hne : q≠p := by
    rintro rfl
    omega
  exact update_of_ne hne d k.mem

lemma kalloc_spec (h : KmemInv k own) :
    (∃ k',kalloc k=(none,k') ∧ KmemInv k' own ∧ Keeps own k k' ∧ k'.oom=true) ∨
    ∃ p k',kalloc k=(some p,k') ∧ own p=0 ∧ KmemInv k' (Pi.single p 1+own) ∧ Keeps own k k' ∧
      k'.oom=k.oom := by
  unfold kalloc
  cases hfree : k.freelist with
  | nil =>
    left
    refine ⟨k.failed,rfl,⟨h.nodup,h.free,h.freeRange,h.owned,h.ownedRange⟩,
      ⟨rfl,fun ho => ?_,fun _ _ => rfl⟩,rfl⟩
    grind [Kmem.failed]
  | cons p rest =>
    right
    have hmem : p∈k.freelist := by
      rw [hfree]
      exact List.mem_cons_self
    have hrest : ∀ q,q∈rest → q∈k.freelist := by
      intro q hq
      grind
    have hnodup := h.nodup
    rw [hfree,List.nodup_cons] at hnodup
    have hzero := h.free_not_owned hmem
    refine ⟨p,_,rfl,hzero,⟨hnodup.2,fun q hq => ?_,fun q hq => h.freeRange q (hrest q hq),
      fun q => ?_,fun q hq => ?_⟩,?_,rfl⟩
    · have hne : q≠p := by
        rintro rfl
        exact hnodup.1 hq
      exact (update_of_ne hne _ _).trans (h.free q (hrest q hq))
    · by_cases hqp : q=p
      · subst hqp
        have hone : (Pi.single q 1+own : ℕ→ℕ) q=1 := by grind [Pi.add_apply]
        have hset : (setCounter ({k with freelist := rest}.store q (fill 5)) q).refCnt q=1 :=
          update_self ..
        rw [hone,hset]
        exact Int.le_refl 1
      · have hsame : (Pi.single p 1+own : ℕ→ℕ) q=own q := by
          grind [Pi.add_apply]
        have hset : (setCounter ({k with freelist := rest}.store p (fill 5)) p).refCnt q=
            k.refCnt q := update_of_ne hqp ..
        rw [hsame,hset]
        exact h.owned q
    · by_cases hqp : q=p
      · subst hqp
        exact h.freeRange q hmem
      · have hsame : (Pi.single p 1+own : ℕ→ℕ) q=own q := by
          grind [Pi.add_apply]
        rw [hsame] at hq
        exact h.ownedRange q hq
    · have hstore : Keeps own {k with freelist := rest} ({k with freelist := rest}.store p (fill 5)) :=
        Keeps.store _ (fill 5) hzero
      exact ⟨rfl,id,hstore.mem⟩

lemma kfree_spec (h : KmemInv k (Pi.single p 1+own)) :
    ∃ k',kfree k p=.next k' ∧ KmemInv k' own ∧ Keeps own k k' ∧ k'.oom=k.oom := by
  have hself : (Pi.single p 1+own : ℕ→ℕ) p=1+own p := by grind [Pi.add_apply]
  have hother : ∀ q,q≠p → (Pi.single p 1+own : ℕ→ℕ) q=own q := by grind [Pi.add_apply]
  have hrange := h.ownedRange p (by omega)
  have hcover := h.owned p
  rw [hself] at hcover
  have hle : ∀ q,own q≤(Pi.single p 1+own : ℕ→ℕ) q := by grind
  unfold kfree
  rw [if_neg (by omega)]
  by_cases hlast : k.refCnt p≤1
  · have hzero : own p=0 := by omega
    have hnotfree : p∉k.freelist := by grind [h.free]
    rw [if_pos hlast]
    refine ⟨_,rfl,⟨?_,fun q hq => ?_,fun q hq => ?_,fun q => ?_,fun q hq => ?_⟩,
      ⟨rfl,id,fun q hq => ?_⟩,rfl⟩
    · exact List.nodup_cons.mpr ⟨hnotfree,h.nodup⟩
    · by_cases hqp : q=p
      · rw [hqp]
        exact update_self ..
      · have hmem : q∈k.freelist := (List.mem_cons.mp hq).resolve_left hqp
        exact (update_of_ne hqp _ _).trans (h.free q hmem)
    · rcases List.mem_cons.mp hq with hqp|hmem
      · rw [hqp]
        exact hrange
      · exact h.freeRange q hmem
    · by_cases hqp : q=p
      · have hset : update k.refCnt p 0 p=0 := update_self ..
        rw [hqp,hzero]
        exact Int.le_of_eq hset.symm
      · have hset : update k.refCnt p 0 q=k.refCnt q := update_of_ne hqp ..
        have hq := h.owned q
        rw [hother q hqp] at hq
        exact hq.trans (Int.le_of_eq hset.symm)
    · exact h.ownedRange q (by have := hle q; omega)
    · have hqp : q≠p := by
        rintro rfl
        omega
      exact update_of_ne hqp _ k.mem
  · rw [if_neg hlast]
    refine ⟨_,rfl,⟨h.nodup,fun q hq => ?_,h.freeRange,fun q => ?_,fun q hq => ?_⟩,
      ⟨rfl,id,fun q _ => rfl⟩,rfl⟩
    · have hqp : q≠p := by
        grind [h.free]
      exact (update_of_ne hqp _ _).trans (h.free q hq)
    · by_cases hqp : q=p
      · grind [update_apply]
      · have hset : update k.refCnt p (k.refCnt p-1) q=k.refCnt q :=
          update_of_ne hqp ..
        have hq := h.owned q
        grind
    · exact h.ownedRange q (by have := hle q; omega)

lemma KmemInv.share (h : KmemInv k own) (hp : 0<own p) :
    KmemInv {k with refCnt := update k.refCnt p (k.refCnt p+1)} (Pi.single p 1+own) := by
  have hcover := h.owned p
  refine ⟨h.nodup,fun q hq => ?_,h.freeRange,fun q => ?_,fun q hq => ?_⟩
  · grind [h.free]
  · by_cases hqp : q=p
    · grind [Pi.add_apply]
    · have hset : update k.refCnt p (k.refCnt p+1) q=k.refCnt q :=
        update_of_ne hqp ..
      have hsame : (Pi.single p 1+own : ℕ→ℕ) q=own q := by grind [Pi.add_apply]
      rw [hsame]
      exact (h.owned q).trans (Int.le_of_eq hset.symm)
  · by_cases hqp : q=p
    · rw [hqp]
      exact h.ownedRange p hp
    · have hsame : (Pi.single p 1+own : ℕ→ℕ) q=own q := by
        grind [Pi.add_apply]
      rw [hsame] at hq
      exact h.ownedRange q hq

lemma release_list {γ : Type*} {weight : γ→ℕ→ℕ} {free : Kmem→γ→Outcome Kmem} (xs : List γ)
    (hfree : ∀ x,x∈xs → ∀ k own,KmemInv k (weight x+own) →
      ∃ k',free k x=.next k' ∧ KmemInv k' own ∧ Keeps own k k' ∧ k'.oom=k.oom)
    (loop : Kmem→List γ→Outcome Kmem) (hnil : ∀ k,loop k []=.next k)
    (hcons : ∀ k x rest,loop k (x::rest)=(free k x).bind fun k' => loop k' rest)
    (h : KmemInv k ((xs.map weight).sum+own)) :
    ∃ k',loop k xs=.next k' ∧ KmemInv k' own ∧ Keeps own k k' ∧ k'.oom=k.oom := by
  induction xs generalizing k with
  | nil =>
    refine ⟨k,hnil k,h.mono fun p => ?_,Keeps.refl own k,rfl⟩
    simp only [List.map_nil,List.sum_nil,zero_add,le_refl]
  | cons x rest ih =>
    rw [List.map_cons,List.sum_cons,add_assoc] at h
    obtain ⟨k1,hk1,hinv1,hkeep1,hoom1⟩ := hfree x List.mem_cons_self k _ h
    obtain ⟨k2,hk2,hinv2,hkeep2,hoom2⟩ := ih
      (fun y hy => hfree y (List.mem_cons_of_mem x hy)) hinv1
    have hkeep1' : Keeps own k k1 := by grind [hkeep1.mono,Pi.add_apply]
    refine ⟨k2,?_,hinv2,hkeep1'.trans hkeep2,hoom2.trans hoom1⟩
    rw [hcons,hk1,bind_next,hk2]

lemma freerange_spec {n : ℕ} (h : KmemInv k 0) (hfirst : k.first≤p) (htop : p+n≤physTop)
    (hnew : ∀ q,q∈k.freelist → q<p) (hoom : k.oom=false) :
    ∃ k',freerange k p n=.next k' ∧ KmemInv k' 0 ∧ k'.oom=false ∧ k'.first=k.first := by
  induction n generalizing k p with
  | zero => exact ⟨k,rfl,h,hoom,rfl⟩
  | succ n ih =>
    have hnot : p∉k.freelist := fun hp => Nat.lt_irrefl p (hnew p hp)
    have hcount : KmemInv (setCounter k p) (Pi.single p 1+0) := by
      refine ⟨h.nodup,fun q hq => ?_,h.freeRange,fun q => ?_,fun q hq => ?_⟩
      · have hqp : q≠p := by
          rintro rfl
          exact hnot hq
        exact (update_of_ne hqp _ _).trans (h.free q hq)
      · by_cases hqp : q=p
        · have hset : (setCounter k p).refCnt p=1 := update_self ..
          rw [hqp,hset,add_zero,Pi.single_eq_same]
          exact Int.le_refl 1
        · have hset : (setCounter k p).refCnt q=k.refCnt q := update_of_ne hqp ..
          rw [hset,add_zero,Pi.single_eq_of_ne hqp]
          exact h.owned q
      · by_cases hqp : q=p
        · rw [hqp]
          exact ⟨hfirst,by omega⟩
        · rw [add_zero,Pi.single_eq_of_ne hqp] at hq
          omega
    obtain ⟨k1,hk1,hinv1,hkeep1,hoom1⟩ := kfree_spec hcount
    have hlist : k1.freelist=p::k.freelist := by
      have hset : (setCounter k p).refCnt p=1 := update_self ..
      have hfirst' : (setCounter k p).first=k.first := rfl
      unfold kfree at hk1
      rw [if_neg (by omega),if_pos (by omega)] at hk1
      cases hk1
      rfl
    obtain ⟨k2,hk2,hinv2,hoom2,hfirst2⟩ := ih (p:=p+1) hinv1 (by rw [hkeep1.first]; exact Nat.le_succ_of_le hfirst)
      (by omega) (fun q hq => by
        rw [hlist,List.mem_cons] at hq
        rcases hq with rfl|hq
        · exact Nat.lt_succ_self _
        · exact Nat.lt_succ_of_lt (hnew q hq)) (by rw [hoom1]; exact hoom)
    refine ⟨k2,?_,hinv2,hoom2,hfirst2.trans hkeep1.first⟩
    rw [freerange,hk1,bind_next,hk2]

lemma kinit_spec (first text : ℕ) :
    ∃ k,kinit first text=.next k ∧ KmemInv k 0 ∧ k.oom=false := by
  have hbare : KmemInv (bareMemory first text) 0 := by
    refine ⟨List.nodup_nil,fun p hp => ?_,fun p hp => ?_,fun p => Int.le_refl 0,fun p hp => ?_⟩
    · exact absurd hp List.not_mem_nil
    · exact absurd hp List.not_mem_nil
    · exact absurd hp (Nat.lt_irrefl 0)
  by_cases hroom : first≤physTop
  · obtain ⟨k,hk,hinv,hoom,_⟩ := freerange_spec (n:=physTop-first) hbare (Nat.le_refl first)
      (by omega) (fun q hq => absurd hq List.not_mem_nil) rfl
    exact ⟨k,hk,hinv,hoom⟩
  · have hnone : physTop-first=0 := by omega
    refine ⟨bareMemory first text,?_,hbare,rfl⟩
    rw [kinit,hnone,freerange]

end Xv6Riscv.PageAllocator
