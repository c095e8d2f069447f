import Mathlib

/-!
# Tilings of memory

A list of intervals tiles a list of regions if the intervals are disjoint, cover
the same addresses as the regions and have the same total length. An allocator
that only splits, joins and renames intervals keeps a tiling.
-/

namespace Xv6Riscv.Tiling

/-- The addresses of an interval with this start and length. -/
def interval (p : ℕ×ℕ) : Set ℕ := Set.Ico p.1 (p.1+p.2)

structure Tiles (parts regions : List (ℕ×ℕ)) : Prop where
  apart : parts.Pairwise fun p q => Disjoint (interval p) (interval q)
  cover : ∀ x,(∃ p∈parts,x∈interval p) ↔ ∃ r∈regions,x∈interval r
  total : (parts.map Prod.snd).sum=(regions.map Prod.snd).sum

variable {parts parts' regions : List (ℕ×ℕ)} {p q r : ℕ×ℕ} {a m n : ℕ}

lemma mem_interval {x : ℕ} : x∈interval p ↔ p.1≤x ∧ x<p.1+p.2 := Set.mem_Ico

lemma start_mem (hp : 0<p.2) : p.1∈interval p := mem_interval.mpr ⟨Nat.le_refl _,by omega⟩

lemma le_or_le_of_disjoint (h : Disjoint (interval p) (interval q)) (hp : 0<p.2) (hq : 0<q.2) :
    p.1+p.2≤q.1 ∨ q.1+q.2≤p.1 := by
  by_contra hno
  have hmem : max p.1 q.1∈interval p ∧ max p.1 q.1∈interval q := by
    rw [mem_interval,mem_interval]
    omega
  exact Set.disjoint_left.mp h hmem.1 hmem.2

lemma disjoint_of_le (h : p.1+p.2≤q.1) : Disjoint (interval p) (interval q) := by
  refine Set.disjoint_left.mpr fun x hx hy => ?_
  rw [mem_interval] at hx hy
  omega

lemma interval_add : interval (a,m+n)=interval (a,m)∪interval (a+m,n) := by
  ext x
  rw [Set.mem_union,mem_interval,mem_interval,mem_interval]
  omega

lemma Tiles.perm (h : Tiles parts regions) (hperm : parts.Perm parts') : Tiles parts' regions := by
  refine ⟨?_,fun x => ?_,?_⟩
  · exact (hperm.pairwise_iff fun hpq => hpq.symm).mp h.apart
  · rw [←h.cover x]
    exact exists_congr fun p => and_congr_left' hperm.mem_iff.symm
  · rw [←h.total]
    exact ((hperm.map Prod.snd).sum_eq).symm

lemma tiles_join : Tiles ((a,m)::(a+m,n)::parts) regions ↔ Tiles ((a,m+n)::parts) regions := by
  have hmem : ∀ x,(∃ p∈(a,m)::(a+m,n)::parts,x∈interval p) ↔
      ∃ p∈(a,m+n)::parts,x∈interval p := by
    intro x
    simp only [List.mem_cons,exists_eq_or_imp,interval_add,Set.mem_union,or_assoc]
  have hsum : (((a,m)::(a+m,n)::parts).map Prod.snd).sum=
      (((a,m+n)::parts).map Prod.snd).sum := by
    grind
  have hsplit : Disjoint (interval (a,m)) (interval (a+m,n)) := disjoint_of_le (Nat.le_refl _)
  constructor
  · rintro ⟨hapart,hcover,htotal⟩
    refine ⟨?_,fun x => (hmem x).symm.trans (hcover x),hsum.symm.trans htotal⟩
    simp only [List.pairwise_cons,List.forall_mem_cons] at hapart
    refine List.pairwise_cons.mpr ⟨fun q hq => ?_,hapart.2.2⟩
    rw [interval_add]
    exact Set.disjoint_union_left.mpr ⟨hapart.1.2 q hq,hapart.2.1 q hq⟩
  · rintro ⟨hapart,hcover,htotal⟩
    refine ⟨?_,fun x => (hmem x).trans (hcover x),hsum.trans htotal⟩
    rw [List.pairwise_cons] at hapart
    have hboth : ∀ q∈parts,Disjoint (interval (a,m)) (interval q) ∧
        Disjoint (interval (a+m,n)) (interval q) := by
      intro q hq
      have hone := hapart.1 q hq
      rw [interval_add] at hone
      exact Set.disjoint_union_left.mp hone
    simp only [List.pairwise_cons,List.forall_mem_cons]
    exact ⟨⟨hsplit,fun q hq => (hboth q hq).1⟩,fun q hq => (hboth q hq).2,hapart.2⟩

variable (h : Tiles parts regions)

include h

lemma Tiles.grow (hfresh : ∀ q∈regions,q.1+q.2≤r.1) : Tiles (r::parts) (r::regions) := by
  refine ⟨List.pairwise_cons.mpr ⟨fun q hq => ?_,h.apart⟩,fun x => ?_,?_⟩
  · refine Set.disjoint_left.mpr fun x hx hxq => ?_
    obtain ⟨g,hg,hxg⟩ := (h.cover x).mp ⟨q,hq,hxq⟩
    have hend := hfresh g hg
    rw [mem_interval] at hx hxg
    omega
  · simp only [List.mem_cons,exists_eq_or_imp,h.cover x]
  · grind [h.total]

lemma Tiles.start (hp : p∈parts) (hpos : 0<p.2) :
    ∃ r∈regions,p.1∈interval r := (h.cover p.1).mp ⟨p,hp,start_mem hpos⟩

lemma Tiles.length_le (hp : p∈parts) : p.2≤(regions.map Prod.snd).sum := by
  rw [←h.total]
  exact List.le_sum_of_mem (List.mem_map_of_mem hp)

end Xv6Riscv.Tiling
