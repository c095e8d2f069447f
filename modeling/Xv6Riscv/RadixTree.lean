import Mathlib

/-!
# Three-level radix trees whose nodes carry a tag

A tree maps keys of three digits to values. Inner nodes are added on demand,
and every node carries a tag: where the tree lives in memory the tag is the
address of the node. The tag counter of a tree says how often each tag occurs,
so that the tags of several structures can be added up. Occurrence counters of
finite partial maps are added up in the same way.
-/

namespace Xv6Riscv.RadixTree

open Finset

variable {τ ι α β : Type*}

/-- A tagged node with one optional entry for each digit. -/
structure Node (τ ι α : Type*) where
  tag : τ
  entry : ι→Option α

def Node.empty (tag : τ) : Node τ ι α := ⟨tag,fun _ => none⟩

abbrev Tree (τ ι β : Type*) := Node τ ι (Node τ ι (Node τ ι β))

abbrev Key (ι : Type*) := ι×ι×ι

/-- The cell of a key: absent when an inner node is missing, otherwise what it
holds. -/
def cell (t : Tree τ ι β) (k : Key ι) : Option (Option β) :=
  (t.entry k.1).bind fun m => (m.entry k.2.1).map fun l => l.entry k.2.2

def get (t : Tree τ ι β) (k : Key ι) : Option β := (cell t k).join

variable [DecidableEq ι]

def Node.set (n : Node τ ι α) (i : ι) (e : Option α) : Node τ ι α :=
  {n with entry := Function.update n.entry i e}

@[simp] lemma Node.set_tag (n : Node τ ι α) (i : ι) (e : Option α) : (n.set i e).tag=n.tag := rfl

@[simp] lemma Node.set_entry_self (n : Node τ ι α) (i : ι) (e : Option α) :
    (n.set i e).entry i=e := Function.update_self ..

variable {j i : ι}

lemma Node.set_entry_of_ne (n : Node τ ι α) (e : Option α) (h : j≠i) :
    (n.set i e).entry j=n.entry j := Function.update_of_ne h ..

/-- Store in the cell of a key; nothing happens when the cell is absent. -/
def put (t : Tree τ ι β) (k : Key ι) (e : Option β) : Tree τ ι β :=
  match t.entry k.1 with
  | none => t
  | some m =>
    match m.entry k.2.1 with
    | none => t
    | some l => t.set k.1 (some (m.set k.2.1 (some (l.set k.2.2 e))))

def addMid (t : Tree τ ι β) (i : ι) (tag : τ) : Tree τ ι β := t.set i (some (.empty tag))

/-- Add an empty third-level node below an existing second-level node. -/
def addLeaf (t : Tree τ ι β) (i j : ι) (m : Node τ ι (Node τ ι β)) (tag : τ) : Tree τ ι β :=
  t.set i (some (m.set j (some (.empty tag))))

variable {t : Tree τ ι β}

lemma cell_put_self {k : Key ι} {c : Option β} (h : cell t k=some c)
    (e : Option β) : cell (put t k e) k=some e := by
  unfold cell at h
  cases hm : t.entry k.1 with
  | none => simp only [hm,Option.bind_none,reduceCtorEq] at h
  | some m =>
    cases hl : m.entry k.2.1 with
    | none => simp only [hm,hl,Option.bind_some,Option.map_none,reduceCtorEq] at h
    | some l =>
      simp only [put,hm,hl,cell,Node.set_entry_self,Option.bind_some,Option.map_some]

lemma cell_put_of_ne (t : Tree τ ι β) {k k' : Key ι} (e : Option β) (h : k'≠k) :
    cell (put t k e) k'=cell t k' := by
  unfold put
  cases hm : t.entry k.1 with
  | none => rfl
  | some m =>
    cases hl : m.entry k.2.1 with
    | none => simp only [hl]
    | some l =>
      simp only [hl,cell]
      by_cases h1 : k'.1=k.1
      · simp only [h1,Node.set_entry_self,hm,Option.bind_some]
        by_cases h2 : k'.2.1=k.2.1
        · have h3 : k'.2.2≠k.2.2 := by
            intro h3
            exact h (Prod.ext h1 (Prod.ext h2 h3))
          simp only [h2,Node.set_entry_self,hl,Option.map_some,Node.set_entry_of_ne _ _ h3]
        · simp only [Node.set_entry_of_ne _ _ h2]
      · simp only [Node.set_entry_of_ne _ _ h1]

lemma get_put {k : Key ι} {c : Option β} (h : cell t k=some c)
    (e : Option β) (k' : Key ι) : get (put t k e) k'=if k'=k then e else get t k' := by
  unfold get
  split_ifs with hk
  · subst hk
    simp only [cell_put_self h,Option.join_some]
  · rw [cell_put_of_ne t e hk]

lemma get_addMid (h : t.entry i=none) (tag : τ) (k : Key ι) :
    get (addMid t i tag) k=get t k := by
  unfold get cell addMid
  by_cases hk : k.1=i
  · simp only [hk,Node.set_entry_self,h,Node.empty,Option.bind_some,Option.map_none,
      Option.bind_none]
  · simp only [Node.set_entry_of_ne _ _ hk]

lemma get_addLeaf {m : Node τ ι (Node τ ι β)}
    (hm : t.entry i=some m) (h : m.entry j=none) (tag : τ) (k : Key ι) :
    get (addLeaf t i j m tag) k=get t k := by
  unfold get cell addLeaf
  by_cases hk : k.1=i
  · simp only [hk,Node.set_entry_self,hm,Option.bind_some]
    by_cases hk2 : k.2.1=j
    · simp only [hk2,Node.set_entry_self,h,Node.empty,Option.map_some,Option.map_none,
        Option.join_some,Option.join_none]
    · simp only [Node.set_entry_of_ne _ _ hk2]
  · simp only [Node.set_entry_of_ne _ _ hk]

def weigh (f : α→τ→ℕ) (e : Option α) : τ→ℕ := e.elim 0 f

@[simp] lemma weigh_none (f : α→τ→ℕ) : weigh f none=0 := rfl

@[simp] lemma weigh_some (f : α→τ→ℕ) (a : α) : weigh f (some a)=f a := rfl

variable [DecidableEq τ] [Fintype ι]

/-- The counter of a node: its tag and what its entries contribute. -/
def Node.count (f : α→τ→ℕ) (n : Node τ ι α) : τ→ℕ :=
  Pi.single n.tag 1+∑ i,weigh f (n.entry i)

lemma Node.count_set (f : α→τ→ℕ) (n : Node τ ι α) (i : ι) (e : Option α) :
    (n.set i e).count f+weigh f (n.entry i)=n.count f+weigh f e := by
  have hsplit : ∀ g : ι→τ→ℕ,∑ j,g j=g i+∑ j ∈ univ.erase i,g j := by grind [add_sum_erase]
  have hrest : ∑ j ∈ univ.erase i,weigh f ((n.set i e).entry j)=
      ∑ j ∈ univ.erase i,weigh f (n.entry j) := by
    apply sum_congr rfl
    intro j hj
    rw [Node.set_entry_of_ne n e (ne_of_mem_erase hj)]
  rw [Node.count,Node.count,hsplit (fun j => weigh f ((n.set i e).entry j)),
    hsplit (fun j => weigh f (n.entry j)),hrest,Node.set_entry_self,Node.set_tag]
  grind

def leafTags (l : Node τ ι β) : τ→ℕ := Pi.single l.tag 1

def midTags (m : Node τ ι (Node τ ι β)) : τ→ℕ := m.count leafTags

def tags (t : Tree τ ι β) : τ→ℕ := t.count midTags

omit [DecidableEq ι] in
lemma tags_empty (tag : τ) : tags (.empty tag : Tree τ ι β)=Pi.single tag 1 := by
  simp only [tags,Node.count,Node.empty,weigh_none,sum_const_zero,add_zero]

lemma Node.count_set_same {f : α→τ→ℕ} {n : Node τ ι α} {e : Option α}
    (h : weigh f (n.entry i)=weigh f e) : (n.set i e).count f=n.count f := by
  have hset := n.count_set f i e
  grind

lemma Node.count_set_fill {f : α→τ→ℕ} {n : Node τ ι α} {a : α}
    (h : n.entry i=none) : (n.set i (some a)).count f=f a+n.count f := by
  have hset := n.count_set f i (some a)
  grind [weigh_none,weigh_some]

lemma tags_put (t : Tree τ ι β) (k : Key ι) (e : Option β) : tags (put t k e)=tags t := by
  unfold put
  cases hm : t.entry k.1 with
  | none => rfl
  | some m =>
    cases hl : m.entry k.2.1 with
    | none => simp only [hl]
    | some l =>
      simp only [hl,tags]
      apply Node.count_set_same
      rw [hm,weigh_some,weigh_some,midTags,midTags]
      symm
      apply Node.count_set_same
      rw [hl,weigh_some,weigh_some,leafTags,leafTags,Node.set_tag]

lemma tags_addMid (h : t.entry i=none) (tag : τ) :
    tags (addMid t i tag)=Pi.single tag 1+tags t := by
  have hmid : midTags (.empty tag : Node τ ι (Node τ ι β))=Pi.single tag 1 := by
    simp only [midTags,Node.count,Node.empty,weigh_none,sum_const_zero,add_zero]
  rw [tags,addMid,Node.count_set_fill h,hmid,tags]

lemma tags_addLeaf {m : Node τ ι (Node τ ι β)}
    (hm : t.entry i=some m) (h : m.entry j=none) (tag : τ) :
    tags (addLeaf t i j m tag)=Pi.single tag 1+tags t := by
  have hleaf : midTags (m.set j (some (.empty tag)))=Pi.single tag 1+midTags m := by
    rw [midTags,Node.count_set_fill h,leafTags,midTags,Node.empty]
  have hset := t.count_set midTags i (some (m.set j (some (.empty tag))))
  rw [hm,weigh_some,weigh_some,hleaf] at hset
  grind [tags,addLeaf]

/-- How often each value occurs among the first n places of a partial map. -/
def occurrences (f : ℕ→Option τ) (n : ℕ) : τ→ℕ :=
  fun q => ((range n).filter fun v => f v=some q).card

lemma occurrences_eq_sum (f : ℕ→Option τ) (n : ℕ) (q : τ) :
    occurrences f n q=∑ v ∈ range n,if f v=some q then 1 else 0 := by
  rw [occurrences,card_filter]

variable {g f : ℕ→Option τ}

lemma occurrences_congr {n : ℕ} (h : ∀ v,v<n → f v=g v) :
    occurrences f n=occurrences g n := by
  funext q
  rw [occurrences_eq_sum,occurrences_eq_sum]
  apply sum_congr rfl
  intro v hv
  rw [h v (mem_range.mp hv)]

lemma occurrences_pos {n : ℕ} {q : τ} :
    0<occurrences f n q ↔ ∃ v,v<n ∧ f v=some q := by
  rw [occurrences,card_pos]
  constructor
  · grind
  · rintro ⟨v,hv⟩
    exact ⟨v,by simpa only [mem_filter,mem_range] using hv⟩

lemma occurrences_le {n : ℕ} (h : ∀ v,v<n → g v=none ∨ g v=f v) (q : τ) :
    occurrences g n q≤occurrences f n q := by
  apply card_le_card
  intro v hv
  grind

lemma occurrences_exchange {n v : ℕ} (hv : v<n) (h : ∀ u,u≠v → g u=f u) :
    occurrences g n+weigh (Pi.single · 1) (f v)=occurrences f n+weigh (Pi.single · 1) (g v) := by
  have hone : ∀ (e : Option τ) (q : τ),weigh (Pi.single · 1) e q=if e=some q then 1 else 0 := by
    intro e q
    cases e with
    | none => simp only [weigh_none,Pi.zero_apply,reduceCtorEq,if_false]
    | some p =>
      rw [weigh_some,Pi.single_apply]
      grind
  funext q
  simp only [Pi.add_apply]
  rw [occurrences_eq_sum,occurrences_eq_sum,hone,hone,
    ← add_sum_erase (range n) _ (mem_range.mpr hv),
    ← add_sum_erase (range n) (fun u => if f u=some q then 1 else 0) (mem_range.mpr hv)]
  grind [sum_congr]

end Xv6Riscv.RadixTree
