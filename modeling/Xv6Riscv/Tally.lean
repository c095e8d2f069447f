import Mathlib

/-!
# Counting with one change

How a sum and a count in a list move when one summand or one element is
replaced. The statements are exchange equations, so that several of them can
be added up.
-/

namespace Xv6Riscv.Tally

lemma sum_exchange {ι : Type*} [DecidableEq ι] {S : Finset ι} {f g : ι→ℕ} {a : ι} (ha : a∈S)
    (h : ∀ x,x∈S → x≠a → g x=f x) : ∑ x ∈ S,g x+f a=∑ x ∈ S,f x+g a := by
  have hrest : ∑ x ∈ S.erase a,g x=∑ x ∈ S.erase a,f x :=
    Finset.sum_congr rfl fun x hx => h x (Finset.mem_of_mem_erase hx) (Finset.ne_of_mem_erase hx)
  grind [Finset.add_sum_erase]

lemma countP_exchange {α : Type*} {p : α→Bool} {l : List α} {k : ℕ} {a b : α}
    (h : l[k]?=some a) :
    (l.set k b).countP p+(if p a then 1 else 0)=l.countP p+(if p b then 1 else 0) := by
  grind

/-- What the elements of a table weigh together, by kind. -/
def total {α κ : Type*} (n : ℕ) (w : α→κ→ℕ) (g : ℕ→α) : κ→ℕ :=
  fun k => ∑ i ∈ Finset.range n,w (g i) k

section Total

variable {α κ : Type*} {n i : ℕ} (w : α→κ→ℕ) (g : ℕ→α)

lemma total_update (hi : i<n) (a : α) :
    total n w (Function.update g i a)+w (g i)=total n w g+w a := by
  funext k
  have hsum := sum_exchange (f := fun j => w (g j) k)
    (g := fun j => w (Function.update g i a j) k) (Finset.mem_range.mpr hi)
    fun j _ hj => by rw [Function.update_of_ne hj]
  simp only [Function.update_self] at hsum
  exact hsum

lemma le_total (hi : i<n) : w (g i)≤total n w g := fun k =>
  Finset.single_le_sum (f := fun j => w (g j) k) (fun _ _ => Nat.zero_le _)
    (Finset.mem_range.mpr hi)

lemma exists_of_total_pos {k : κ} (h : 0<total n w g k) : ∃ i,i<n ∧ 0<w (g i) k := by
  by_contra hc
  push Not at hc
  refine absurd (Finset.sum_eq_zero fun i hi => ?_) h.ne'
  exact Nat.le_zero.mp (hc i (Finset.mem_range.mp hi))

lemma total_eq_sum (k : κ) : total n w g k=((List.range n).map fun i => w (g i) k).sum := by
  rw [total,←List.sum_toFinset _ List.nodup_range]
  congr 1
  grind [List.mem_toFinset]

end Total

end Xv6Riscv.Tally
