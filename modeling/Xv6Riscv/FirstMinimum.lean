import Mathlib

/-!
# The first least element of a list

A scan that keeps the best element so far, and replaces it only by one with a
smaller key, ends with the first element of least key. The elements and the
keys are arbitrary.
-/

namespace Xv6Riscv.FirstMinimum

variable {ι κ : Type*} [LinearOrder κ] (key : ι→κ)

/-- Keep the best element so far unless the next one is smaller. -/
def better (best : Option ι) (i : ι) : Option ι :=
  match best with
  | none => some i
  | some h => if key i<key h then some i else some h

def firstMin (l : List ι) : Option ι := l.foldl (better key) none

/-- The element is in the list, smaller than those before it and not larger than
those behind it. -/
def IsFirstMin (l : List ι) (h : ι) : Prop :=
  ∃ pre suf,l=pre++h::suf ∧ (∀ i∈pre,key h<key i) ∧ ∀ i∈suf,key h≤key i

variable {key} {l : List ι} {h h' : ι}

lemma IsFirstMin.mem (hmin : IsFirstMin key l h) : h∈l := by
  obtain ⟨pre,suf,rfl,-,-⟩ := hmin
  exact List.mem_append_right _ List.mem_cons_self

lemma IsFirstMin.le (hmin : IsFirstMin key l h) {i : ι} (hi : i∈l) : key h≤key i := by
  obtain ⟨pre,suf,rfl,hpre,hsuf⟩ := hmin
  grind

lemma IsFirstMin.eq_of_injOn (hmin : IsFirstMin key l h) (hmem : h'∈l)
    (hle : ∀ i∈l,key h'≤key i) (hinj : ∀ i∈l,∀ j∈l,key i=key j→i=j) : h=h' :=
  hinj h hmin.mem h' hmem (le_antisymm (hmin.le hmem) (hle h hmin.mem))

variable (key) in
lemma foldl_better (l : List ι) (h : ι) :
    ∃ m,l.foldl (better key) (some h)=some m ∧ IsFirstMin key (h::l) m := by
  induction l generalizing h with
  | nil => exact ⟨h,rfl,[],[],rfl,nofun,nofun⟩
  | cons i l ih =>
    by_cases hlt : key i<key h
    · obtain ⟨m,hm,pre,suf,hsplit,hpre,hsuf⟩ := ih i
      have hmi : key m≤key i := by grind [List.mem_cons_self]
      refine ⟨m,?_,h::pre,suf,?_,?_,hsuf⟩
      · rw [List.foldl_cons,better,if_pos hlt]
        exact hm
      · rw [hsplit]
        rfl
      · exact List.forall_mem_cons.mpr ⟨hmi.trans_lt hlt,hpre⟩
    · obtain ⟨m,hm,pre,suf,hsplit,hpre,hsuf⟩ := ih h
      refine ⟨m,?_,?_⟩
      · grind [better]
      · cases pre with
        | nil =>
          obtain ⟨rfl,rfl⟩ := List.cons.inj hsplit
          exact ⟨[],i::l,rfl,nofun,List.forall_mem_cons.mpr ⟨le_of_not_gt hlt,hsuf⟩⟩
        | cons j pre =>
          obtain ⟨rfl,hl⟩ := List.cons.inj hsplit
          have hh := hpre h List.mem_cons_self
          refine ⟨h::i::pre,suf,?_,?_,hsuf⟩
          · rw [hl]
            rfl
          · refine List.forall_mem_cons.mpr ⟨hh,List.forall_mem_cons.mpr ⟨?_,?_⟩⟩
            · exact hh.trans_le (le_of_not_gt hlt)
            · exact fun k hk => hpre k (List.mem_cons_of_mem _ hk)

lemma firstMin_eq_none : firstMin key l=none ↔ l=[] := by
  cases l with
  | nil => exact ⟨fun _ => rfl,fun _ => rfl⟩
  | cons i l =>
    obtain ⟨m,hm,-⟩ := foldl_better key l i
    have hsome : firstMin key (i::l)=some m := hm
    grind

lemma firstMin_eq_some (hm : firstMin key l=some h) : IsFirstMin key l h := by
  cases l with
  | nil => cases hm
  | cons i l =>
    obtain ⟨m,hm',hmin⟩ := foldl_better key l i
    have hsome : firstMin key (i::l)=some m := hm'
    grind

end Xv6Riscv.FirstMinimum
