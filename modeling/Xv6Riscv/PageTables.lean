import Xv6Riscv.PageAllocator
import Xv6Riscv.RadixTree

/-!
# Page tables: walk, mappages, uvmunmap and freewalk of kernel/vm.c

A page table is a three-level tree whose nodes are pages from kalloc, tagged
with their page numbers. An absent entry stands for a PTE without PTE_V: fresh
page-table pages are zeroed and uvmunmap stores 0, so such a PTE has no other
bit. Addresses of pages are page numbers here; the bounds on virtual addresses
become bounds on page numbers.
-/

namespace Xv6Riscv.PageTables

open Function
open Transition RadixTree PageAllocator

structure Perm where
  r : Bool
  w : Bool
  x : Bool
  u : Bool
  cow : Bool
  deriving DecidableEq

/-- A page-table entry: its flags and its page. -/
structure Pte extends Perm where
  ppn : ℕ
  deriving DecidableEq

def Perm.bare (p : Perm) : Bool := !(p.r || p.w || p.x || p.u || p.cow)

abbrev PtIndex := Fin 512

abbrev PtLeaf := Node ℕ PtIndex Pte

/-- The three levels of a page table, as a tree. -/
abbrev PageTable := Tree ℕ PtIndex Pte

def maxPages : ℕ := 2^26

def trampoline : ℕ := maxPages-1

def trapframe : ℕ := maxPages-2

/-- The three indices of a page number. -/
def px (v : ℕ) : Key PtIndex :=
  (⟨v/2^18%512,Nat.mod_lt _ (by decide)⟩,⟨v/512%512,Nat.mod_lt _ (by decide)⟩,
    ⟨v%512,Nat.mod_lt _ (by decide)⟩)

/-- The valid entry for a page number. -/
def lookup (pt : PageTable) (v : ℕ) : Option Pte := get pt (px v)

def frame (pt : PageTable) (v : ℕ) : Option ℕ := (lookup pt v).map Pte.ppn

/-- walk without allocation: the PTE's place, absent for a null pointer. -/
def walk (pt : PageTable) (v : ℕ) : Outcome (Option (Option Pte)) :=
  if maxPages≤v then .panic "walk" else .next (cell pt (px v))

/-- The second round of walk's loop with allocation, in the node m. -/
def walkMid (k : Kmem) (pt : PageTable) (i j : PtIndex) (m : Node ℕ PtIndex PtLeaf) :
    Kmem×PageTable×Bool :=
  match m.entry j with
  | some _ => (k,pt,true)
  | none =>
    match kalloc k with
    | (none,k') => (k',pt,false)
    | (some p,k') => (k',addLeaf pt i j m p,true)

/-- walk with allocation; false stands for a null pointer. -/
def walkAlloc (k : Kmem) (pt : PageTable) (v : ℕ) : Kmem×PageTable×Bool :=
  match pt.entry (px v).1 with
  | some m => walkMid k pt (px v).1 (px v).2.1 m
  | none =>
    match kalloc k with
    | (none,k') => (k',pt,false)
    | (some p,k') => walkMid k' (addMid pt (px v).1 p) (px v).1 (px v).2.1 (.empty p)

/-- The loop of mappages over n pages; false stands for the result -1. -/
def mapLoop (k : Kmem) (pt : PageTable) (perm : Perm) (a ppn : ℕ) :
    ℕ→Outcome (Kmem×PageTable×Bool)
  | 0 => .next (k,pt,true)
  | n+1 =>
    if maxPages≤a then .panic "walk"
    else
      match walkAlloc k pt a with
      | (k',pt',false) => .next (k',pt',false)
      | (k',pt',true) =>
        match lookup pt' a with
        | some _ => .panic "mappages: remap"
        | none => mapLoop k' (put pt' (px a) (some ⟨perm,ppn⟩)) perm (a+1) (ppn+1) n

/-- mappages of kernel/vm.c; false stands for the result -1. -/
def mappages (k : Kmem) (pt : PageTable) (va size ppn : ℕ) (perm : Perm) :
    Outcome (Kmem×PageTable×Bool) :=
  if size=0 then .panic "mappages: size"
  else mapLoop k pt perm (va/pgsize) ppn ((va+size-1)/pgsize-va/pgsize+1)

def unmapLoop (k : Kmem) (pt : PageTable) (doFree : Bool) (a : ℕ) :
    ℕ→Outcome (Kmem×PageTable)
  | 0 => .next (k,pt)
  | n+1 =>
    (walk pt a).bind fun
      | none => .panic "uvmunmap: walk"
      | some none => .panic "uvmunmap: not mapped"
      | some (some e) =>
        if e.bare then .panic "uvmunmap: not a leaf"
        else
          (if doFree then kfree k e.ppn else .next k).bind fun k' =>
            unmapLoop k' (put pt (px a) none) doFree (a+1) n

/-- uvmunmap of kernel/vm.c, with or without kfree of the pages. -/
def uvmunmap (k : Kmem) (pt : PageTable) (va npages : ℕ) (doFree : Bool) :
    Outcome (Kmem×PageTable) :=
  if va%pgsize≠0 then .panic "uvmunmap: not aligned"
  else unmapLoop k pt doFree (va/pgsize) npages

def freeEntry {α : Type*} (free : Kmem→α→Outcome Kmem) (k : Kmem) : Option α→Outcome Kmem
  | none => .next k
  | some a => free k a

/-- freewalk's loop over the entries of one page-table page. -/
def freeEntries {α : Type*} (free : Kmem→α→Outcome Kmem) (entry : PtIndex→Option α) (k : Kmem) :
    List PtIndex→Outcome Kmem
  | [] => .next k
  | i::rest => (freeEntry free k (entry i)).bind fun k' => freeEntries free entry k' rest

/-- freewalk on one page-table page, given what it does with its entries. -/
def freeNode {α : Type*} (free : Kmem→α→Outcome Kmem) (k : Kmem) (n : Node ℕ PtIndex α) :
    Outcome Kmem :=
  (freeEntries free n.entry k (List.finRange 512)).bind fun k' => kfree k' n.tag

/-- freewalk at a valid PTE of the last level. A PTE without permissions would
be taken for a page-table page; mappages is never called without PTE_R. -/
def freePte (_ : Kmem) (e : Pte) : Outcome Kmem :=
  if e.r || e.w || e.x then .panic "freewalk: leaf" else .blocked

/-- freewalk gives back the pages of the table itself. -/
def freewalk (k : Kmem) (pt : PageTable) : Outcome Kmem :=
  freeNode (freeNode (freeNode freePte)) k pt

def uvmcreate (k : Kmem) : Option PageTable×Kmem :=
  match kalloc k with
  | (none,k') => (none,k')
  | (some p,k') => (some (.empty p),k')

variable {e : Pte}

lemma px_injective {u v : ℕ} (hu : u<2^27) (hv : v<2^27) (h : px u=px v) : u=v := by
  simp only [px,Prod.mk.injEq,Fin.mk.injEq] at h
  omega

lemma px_surjective (key : Key PtIndex) : ∃ v,v<2^27 ∧ px v=key := by
  obtain ⟨⟨a,ha⟩,⟨b,hb⟩,⟨c,hc⟩⟩ := key
  refine ⟨a*2^18+b*512+c,by omega,?_⟩
  simp only [px,Prod.mk.injEq,Fin.mk.injEq]
  omega

def Tidy (pt : PageTable) : Prop := ∀ v,maxPages≤v → v<2^27 → lookup pt v=none

variable {pt pt' : PageTable} {a v : ℕ}

lemma lookup_put {c : Option Pte} (ha : a< maxPages)
    (hcell : cell pt (px a)=some c) (e : Option Pte) (hv : v<2^27) :
    lookup (put pt (px a) e) v=if v=a then e else lookup pt v := by
  have hmax : maxPages=2^26 := rfl
  have hkey : px v=px a ↔ v=a := ⟨px_injective hv (by omega),fun h => by rw [h]⟩
  rw [lookup,get_put hcell,lookup]
  simp only [hkey]

lemma Tidy.put {c : Option Pte} (h : Tidy pt) (ha : a< maxPages)
    (hcell : cell pt (px a)=some c) (e : Option Pte) : Tidy (RadixTree.put pt (px a) e) := by
  intro v hv hlt
  rw [lookup_put ha hcell e hlt,if_neg (by omega)]
  exact h v hv hlt

lemma Tidy.congr (h : Tidy pt) (hsame : ∀ v,lookup pt' v=lookup pt v) :
    Tidy pt' := by
  intro v hv hlt
  rw [hsame]
  exact h v hv hlt

variable {own : ℕ→ℕ}

lemma ne_of_owned {p q : ℕ} (hp : own p=0) (hq : 0<own q) : q≠p := by
  rintro rfl
  omega

variable {k : Kmem}

lemma walkMid_spec {i j : PtIndex} {l : PtIndex}
    {m : Node ℕ PtIndex PtLeaf} (h : KmemInv k (tags pt+own)) (hm : pt.entry i=some m) :
    ∃ k' pt' ok,walkMid k pt i j m=(k',pt',ok) ∧ KmemInv k' (tags pt'+own) ∧ Keeps own k k' ∧
      (∀ q,0<own q → tags pt' q=tags pt q) ∧ (∀ key,get pt' key=get pt key) ∧
      (if ok then k'.oom=k.oom ∧ ∃ c,cell pt' (i,j,l)=some c else k'.oom=true) := by
  unfold walkMid
  have hle : ∀ p,own p≤(tags pt+own) p := fun p => Nat.le_add_left ..
  cases hj : m.entry j with
  | some leaf =>
    refine ⟨k,pt,true,rfl,h,Keeps.refl own k,fun _ _ => rfl,fun _ => rfl,rfl,leaf.entry l,?_⟩
    simp only [cell,hm,Option.bind_some,hj,Option.map_some]
  | none =>
    rcases kalloc_spec h with ⟨k',hk,hinv,hkeep,hoom⟩|⟨p,k',hk,hfresh,hinv,hkeep,hoom⟩
    · exact ⟨k',pt,false,by rw [hk],hinv,hkeep.mono hle,fun _ _ => rfl,fun _ => rfl,hoom⟩
    · refine ⟨k',addLeaf pt i j m p,true,by rw [hk],?_,hkeep.mono hle,fun q hq => ?_,
        get_addLeaf hm hj p,hoom,none,?_⟩
      · rw [tags_addLeaf hm hj,add_assoc]
        exact hinv
      · have hqp : q≠p := ne_of_owned hfresh (Nat.lt_of_lt_of_le hq (hle q))
        simp only [tags_addLeaf hm hj,Pi.add_apply,Pi.single_eq_of_ne hqp,Nat.zero_add]
      · simp only [cell,addLeaf,Node.set_entry_self,Option.bind_some,Option.map_some,Node.empty]

/-- walk with allocation keeps every lookup, owns the page-table pages it
allocates, and finds the PTE's place unless kalloc failed. -/
lemma walkAlloc_spec (v : ℕ) (h : KmemInv k (tags pt+own)) :
    ∃ k' pt' ok,walkAlloc k pt v=(k',pt',ok) ∧ KmemInv k' (tags pt'+own) ∧ Keeps own k k' ∧
      (∀ q,0<own q → tags pt' q=tags pt q) ∧ (∀ u,lookup pt' u=lookup pt u) ∧
      (if ok then k'.oom=k.oom ∧ ∃ c,cell pt' (px v)=some c else k'.oom=true) := by
  unfold walkAlloc
  have hle : ∀ p,own p≤(tags pt+own) p := fun p => Nat.le_add_left ..
  cases hm : pt.entry (px v).1 with
  | some m =>
    obtain ⟨k',pt',ok,hw,hinv,hkeep,htags,hget,hok⟩ := walkMid_spec (l:=(px v).2.2) h hm
    exact ⟨k',pt',ok,hw,hinv,hkeep,htags,fun u => hget (px u),hok⟩
  | none =>
    rcases kalloc_spec h with ⟨k1,hk,hinv,hkeep,hoom⟩|⟨p,k1,hk,hfresh,hinv,hkeep,hoom⟩
    · exact ⟨k1,pt,false,by rw [hk],hinv,hkeep.mono hle,fun _ _ => rfl,fun _ => rfl,hoom⟩
    · have hinv1 : KmemInv k1 (tags (addMid pt (px v).1 p)+own) := by
        rw [tags_addMid hm,add_assoc]
        exact hinv
      have hm1 : (addMid pt (px v).1 p).entry (px v).1=some (.empty p) := Node.set_entry_self ..
      obtain ⟨k',pt',ok,hw,hinv2,hkeep2,htags,hget,hok⟩ := walkMid_spec (j:=(px v).2.1)
        (l:=(px v).2.2) hinv1 hm1
      refine ⟨k',pt',ok,by rw [hk]; exact hw,hinv2,(hkeep.mono hle).trans hkeep2,fun q hq => ?_,
        fun u => ?_,?_⟩
      · have hqp : q≠p := ne_of_owned hfresh (Nat.lt_of_lt_of_le hq (hle q))
        rw [htags q hq,tags_addMid hm]
        grind [Pi.add_apply]
      · rw [lookup,hget,get_addMid hm]
        rfl
      · cases ok with
        | false => exact hok
        | true => exact ⟨hok.1.trans hoom,hok.2⟩

lemma mappages_spec (ppn : ℕ) (perm : Perm)
    (h : KmemInv k (tags pt+own)) (htidy : Tidy pt) (ha : a< maxPages) (hnone : lookup pt a=none) :
    ∃ k' pt' ok,mappages k pt (a*pgsize) pgsize ppn perm=.next (k',pt',ok) ∧
      KmemInv k' (tags pt'+own) ∧ Keeps own k k' ∧ (∀ q,0<own q → tags pt' q=tags pt q) ∧
      Tidy pt' ∧ (if ok then k'.oom=k.oom ∧
          ∀ v,v<2^27 → lookup pt' v=if v=a then some ⟨perm,ppn⟩ else lookup pt v
        else k'.oom=true ∧ ∀ v,lookup pt' v=lookup pt v) := by
  have hpg : ¬pgsize=0 := by decide
  have hfirst : a*pgsize/pgsize=a := by
    simp only [pgsize]
    omega
  have hcount : (a*pgsize+pgsize-1)/pgsize-a*pgsize/pgsize+1=1 := by
    simp only [pgsize]
    omega
  obtain ⟨k',pt',ok,hw,hinv,hkeep,htags,hlook,hok⟩ := walkAlloc_spec a h
  unfold mappages
  rw [if_neg hpg,hcount,hfirst,mapLoop,if_neg (by omega),hw]
  cases ok with
  | false =>
    exact ⟨k',pt',false,rfl,hinv,hkeep,htags,htidy.congr hlook,hok,hlook⟩
  | true =>
    obtain ⟨hoom,c,hcell⟩ := hok
    have hnone' : lookup pt' a=none := by rw [hlook,hnone]
    refine ⟨k',put pt' (px a) (some ⟨perm,ppn⟩),true,?_,?_,hkeep,fun q hq => ?_,
      (htidy.congr hlook).put ha hcell _,hoom,fun v hv => ?_⟩
    · simp only [hnone',mapLoop]
    · rw [tags_put]
      exact hinv
    · rw [tags_put]
      exact htags q hq
    · rw [lookup_put ha hcell _ hv,hlook]

lemma cell_of_lookup (h : lookup pt v=some e) : cell pt (px v)=some (some e) := by
  unfold lookup RadixTree.get at h
  exact Option.join_eq_some_iff.mp h

def leafs (pt : PageTable) : ℕ→ℕ := occurrences (frame pt) trapframe

lemma leafs_unmap (ha : a<trapframe) (he : lookup pt a=some e) :
    leafs pt=Pi.single e.ppn 1+leafs (put pt (px a) none) := by
  have hmax : maxPages=2^26 := rfl
  have htrap : trapframe=maxPages-2 := rfl
  have hput : ∀ u,u<2^27 → lookup (put pt (px a) none) u=if u=a then none else lookup pt u :=
    fun u hu => lookup_put (by omega) (cell_of_lookup he) none hu
  have hself : frame (put pt (px a) none) a=none := by
    rw [frame,hput a (by omega),if_pos rfl,Option.map_none]
  have hframe : frame pt a=some e.ppn := by
    rw [frame,he,Option.map_some]
  have hex := occurrences_exchange (f:=frame pt)
    (g:=update (frame pt) a none) (n:=trapframe) ha
    (fun u hu => update_of_ne hu ..)
  have hsame : occurrences (update (frame pt) a none) trapframe=
      leafs (put pt (px a) none) := by
    apply occurrences_congr
    intro u hu
    by_cases hua : u=a
    · rw [hua,update_self,hself]
    · rw [update_of_ne hua,frame,frame,hput u (by omega),if_neg hua]
  rw [hsame,hframe,weigh_some,update_self,weigh_none,add_zero] at hex
  rw [leafs,← hex,add_comm]

lemma leafs_map {a ppn : ℕ} {perm : Perm} (ha : a<trapframe) (hnone : lookup pt a=none)
    (hmap : ∀ v,v<2^27 → lookup pt' v=if v=a then some ⟨perm,ppn⟩ else lookup pt v) :
    leafs pt'=Pi.single ppn 1+leafs pt := by
  have hmax : maxPages=2^26 := rfl
  have htrap : trapframe=maxPages-2 := rfl
  have hex := occurrences_exchange (f:=frame pt)
    (g:=update (frame pt) a (some ppn)) (n:=trapframe) ha
    (fun u hu => update_of_ne hu ..)
  have hsame : occurrences (update (frame pt) a (some ppn)) trapframe=leafs pt' := by
    apply occurrences_congr
    intro u hu
    by_cases hua : u=a
    · rw [hua,update_self,frame,hmap a (by omega),if_pos rfl,Option.map_some]
    · rw [update_of_ne hua,frame,frame,hmap u (by omega),if_neg hua]
  have hframe : frame pt a=none := by rw [frame,hnone,Option.map_none]
  rw [hsame,hframe,weigh_none,add_zero,update_self,weigh_some,add_comm] at hex
  exact hex

lemma leafs_congr (h : ∀ v,v<trapframe → frame pt' v=frame pt v) :
    leafs pt'=leafs pt := occurrences_congr h

lemma leafs_le (h : ∀ v,v<trapframe → lookup pt' v=none ∨ lookup pt' v=lookup pt v) (q : ℕ) :
    leafs pt' q≤leafs pt q := by
  apply occurrences_le
  intro v hv
  rcases h v hv with hnone|hsame
  · left
    rw [frame,hnone,Option.map_none]
  · right
    rw [frame,frame,hsame]

lemma unmapLoop_spec {a n : ℕ}
    (h : KmemInv k (tags pt+(leafs pt+own))) (htidy : Tidy pt) (hbound : a+n≤trapframe)
    (hmapped : ∀ v,a≤v → v<a+n → ∃ e,lookup pt v=some e ∧ e.bare=false) :
    ∃ k' pt',unmapLoop k pt true a n=.next (k',pt') ∧ KmemInv k' (tags pt'+(leafs pt'+own)) ∧
      Keeps (leafs pt'+own) k k' ∧ tags pt'=tags pt ∧ Tidy pt' ∧ k'.oom=k.oom ∧
      ∀ v,v<2^27 → lookup pt' v=if a≤v ∧ v<a+n then none else lookup pt v := by
  have hmax : maxPages=2^26 := rfl
  have htrap : trapframe=maxPages-2 := rfl
  induction n generalizing k pt a with
  | zero =>
    refine ⟨k,pt,rfl,h,Keeps.refl _ k,rfl,htidy,rfl,fun v _ => ?_⟩
    rw [if_neg (by omega)]
  | succ n ih =>
    obtain ⟨e,he,hbare⟩ := hmapped a (Nat.le_refl a) (by omega)
    have hcell := cell_of_lookup he
    have hput : ∀ v,v<2^27 → lookup (put pt (px a) none) v=if v=a then none else lookup pt v :=
      fun v hv => lookup_put (by omega) hcell none hv
    have hfree : KmemInv k (Pi.single e.ppn 1+
        (tags (put pt (px a) none)+(leafs (put pt (px a) none)+own))) := by
      rw [tags_put]
      rw [leafs_unmap (by omega) he] at h
      refine h.mono fun q => ?_
      simp only [Pi.add_apply]
      omega
    obtain ⟨k1,hk1,hinv1,hkeep1,hoom1⟩ := kfree_spec hfree
    obtain ⟨k2,pt2,hrun,hinv2,hkeep2,htags2,htidy2,hoom2,hlook2⟩ := ih hinv1
      (htidy.put (by omega) hcell none) (a:=a+1) (by omega) (fun v hv hlt => by
        obtain ⟨e',he',hb'⟩ := hmapped v (by omega) (by omega)
        refine ⟨e',?_,hb'⟩
        rw [hput v (by omega),if_neg (by omega)]
        exact he')
    have hless : ∀ q,leafs pt2 q≤leafs (put pt (px a) none) q := by
      apply leafs_le
      intro v hv
      rw [hlook2 v (by omega)]
      split_ifs
      · exact Or.inl rfl
      · exact Or.inr rfl
    have hkeep1' : Keeps (leafs pt2+own) k k1 := by
      refine hkeep1.mono fun q => ?_
      have hq := hless q
      simp only [Pi.add_apply]
      omega
    refine ⟨k2,pt2,?_,hinv2,hkeep1'.trans hkeep2,htags2.trans (tags_put ..),htidy2,
      hoom2.trans hoom1,fun v hv => ?_⟩
    · rw [unmapLoop,walk,if_neg (by omega),bind_next,hcell]
      simp only [hbare,Bool.false_eq_true,if_false,if_true]
      rw [hk1,bind_next,hrun]
    · rw [hlook2 v hv,hput v hv]
      by_cases hva : v=a
      · rw [if_neg (by omega),if_pos hva,if_pos (by omega)]
      · rw [if_neg hva]
        grind

lemma uvmunmap_spec {a n : ℕ}
    (h : KmemInv k (tags pt+(leafs pt+own))) (htidy : Tidy pt) (hbound : a+n≤trapframe)
    (hmapped : ∀ v,a≤v → v<a+n → ∃ e,lookup pt v=some e ∧ e.bare=false) :
    ∃ k' pt',uvmunmap k pt (a*pgsize) n true=.next (k',pt') ∧
      KmemInv k' (tags pt'+(leafs pt'+own)) ∧ Keeps (leafs pt'+own) k k' ∧ tags pt'=tags pt ∧
      Tidy pt' ∧ k'.oom=k.oom ∧ ∀ v,v<2^27 → lookup pt' v=if a≤v ∧ v<a+n then none else lookup pt v := by
  grind [pgsize,uvmunmap,unmapLoop_spec]

lemma uvmunmap_keep (k : Kmem) (ha : a< maxPages) (he : lookup pt a=some e) (hbare : e.bare=false) :
    uvmunmap k pt (a*pgsize) 1 false=.next (k,put pt (px a) none) := by
  grind [pgsize,uvmunmap,unmapLoop,walk,bind_next,cell_of_lookup]

def Releases {α : Type*} (weight : α→ℕ→ℕ) (free : Kmem→α→Outcome Kmem) (a : α) : Prop :=
  ∀ k own,KmemInv k (weight a+own) →
    ∃ k',free k a=.next k' ∧ KmemInv k' own ∧ Keeps own k k' ∧ k'.oom=k.oom

lemma freeNode_releases {α : Type*} {weight : α→ℕ→ℕ} {free : Kmem→α→Outcome Kmem}
    (n : Node ℕ PtIndex α) (hentry : ∀ i a,n.entry i=some a → Releases weight free a) :
    Releases (Node.count weight) (freeNode free) n := by
  intro k own h
  have hsum : n.count weight+own=
      ((List.finRange 512).map fun i => weigh weight (n.entry i)).sum+(Pi.single n.tag 1+own) := by
    grind [Node.count,Fin.sum_univ_def]
  rw [hsum] at h
  have hone : ∀ i,i∈List.finRange 512 → ∀ k own,KmemInv k (weigh weight (n.entry i)+own) →
      ∃ k',freeEntry free k (n.entry i)=.next k' ∧ KmemInv k' own ∧ Keeps own k k' ∧
        k'.oom=k.oom := by
    intro i _ k own hk
    cases he : n.entry i with
    | none =>
      rw [he,weigh_none,zero_add] at hk
      exact ⟨k,rfl,hk,Keeps.refl own k,rfl⟩
    | some a =>
      rw [he,weigh_some] at hk
      exact hentry i a he k own hk
  obtain ⟨k1,hk1,hinv1,hkeep1,hoom1⟩ := release_list (List.finRange 512) hone
    (freeEntries free n.entry) (fun _ => rfl) (fun _ _ _ => rfl) h
  obtain ⟨k2,hk2,hinv2,hkeep2,hoom2⟩ := kfree_spec hinv1
  have hkeep1' : Keeps own k k1 := by grind [hkeep1.mono,Pi.add_apply]
  refine ⟨k2,?_,hinv2,hkeep1'.trans hkeep2,hoom2.trans hoom1⟩
  rw [freeNode,hk1,bind_next,hk2]

lemma freewalk_spec (h : KmemInv k (tags pt+own)) (hempty : ∀ v,v<2^27 → lookup pt v=none) :
    ∃ k',freewalk k pt=.next k' ∧ KmemInv k' own ∧ Keeps own k k' ∧ k'.oom=k.oom := by
  have hnone : ∀ key,get pt key=none := by
    intro key
    obtain ⟨v,hv,rfl⟩ := px_surjective key
    exact hempty v hv
  refine freeNode_releases pt (fun i m hm => ?_) k own h
  refine freeNode_releases m (fun j l hl k own hk => ?_)
  have hleaf : ∀ c,l.entry c=none := by
    intro c
    have hkey := hnone (i,j,c)
    grind [RadixTree.get,cell]
  have hcount : leafTags l=Node.count (fun (_ : Pte) => (0 : ℕ→ℕ)) l := by
    simp only [leafTags,Node.count,hleaf,weigh_none,Finset.sum_const_zero,add_zero]
  rw [hcount] at hk
  refine freeNode_releases l (fun c e he => ?_) k own hk
  grind

end Xv6Riscv.PageTables
