import Mathlib

/-!
# Rings with free-running counters

A ring of n cells is addressed by counters that only grow. A window of the
ring holds a list from some position on; appending to the list writes the next
cell, and dropping its head moves the position. Counters are machine words,
which wrap around: two of them are compared and subtracted exactly as long as
they are less than a whole turn apart, and give the right cell if n divides the
range of the word.
-/

namespace Xv6Riscv.RingBuffer

variable {α : Type*} {n R : ℕ} {data : ℕ→α} {xs ys : List α} {x : α}

/-- A ring of n cells holds the list xs from position R on. -/
structure Window (n : ℕ) (data : ℕ→α) (R : ℕ) (xs : List α) : Prop where
  room : xs.length≤n
  cell : ∀ i (h : i<xs.length),data ((R+i)%n)=xs[i]

lemma index_ne {i j : ℕ} (hi : i<n) (hj : j<n) (hne : i≠j) : (R+i)%n≠(R+j)%n := by
  intro h
  have hij : i≡j [MOD n] := Nat.ModEq.add_left_cancel' R h
  grind [Nat.ModEq,Nat.mod_eq_of_lt]

lemma Window.nil (n : ℕ) (data : ℕ→α) (R : ℕ) : Window n data R [] :=
  ⟨Nat.zero_le n,fun _ h => absurd h (Nat.not_lt_zero _)⟩

lemma Window.spare (h : Window n data R xs) {i : ℕ} (hi : xs.length≤ i) (hin : i<n) (x : α) :
    Window n (Function.update data ((R+i)%n) x) R xs := by
  refine ⟨h.room,fun j hj => ?_⟩
  rw [Function.update_of_ne (index_ne (by omega) hin (by omega))]
  exact h.cell j hj

lemma Window.snoc (h : Window n data R xs) (hlt : xs.length<n)
    (hx : data ((R+xs.length)%n)=x) : Window n data R (xs++[x]) := by
  refine ⟨by rw [List.length_append]; exact hlt,fun i hi => ?_⟩
  grind [h.cell]

lemma Window.push (h : Window n data R xs) (hlt : xs.length<n) (x : α) :
    Window n (Function.update data ((R+xs.length)%n) x) R (xs++[x]) :=
  (h.spare (Nat.le_refl _) hlt x).snoc hlt (Function.update_self _ _ _)

lemma Window.head (h : Window n data R (x::xs)) : data (R%n)=x :=
  h.cell 0 (Nat.zero_lt_succ _)

lemma Window.tail (h : Window n data R (x::xs)) : Window n data (R+1) xs := by
  refine ⟨Nat.le_of_succ_le h.room,fun i hi => ?_⟩
  have hc := h.cell (i+1) (Nat.succ_lt_succ hi)
  grind

lemma Window.init (h : Window n data R (xs++ys)) : Window n data R xs := by
  refine ⟨?_,fun i hi => ?_⟩
  · grind [h.room]
  · grind [h.cell]

def Counts {b : ℕ} (c : BitVec b) (N : ℕ) : Prop := c=BitVec.ofNat b N

section Counters

variable {b N W : ℕ} {c w r : BitVec b}

lemma Counts.toNat (h : Counts c N) : c.toNat=N%2^b := by
  rw [h,BitVec.toNat_ofNat]

lemma Counts.succ (h : Counts c N) : Counts (c+1) (N+1) := by
  rw [Counts,h]
  exact (BitVec.ofNat_add N 1).symm

lemma Counts.add (h : Counts c N) (k : ℕ) : Counts (c+BitVec.ofNat b k) (N+k) := by
  rw [Counts,h]
  exact (BitVec.ofNat_add N k).symm

lemma Counts.pred (h : Counts c (N+1)) : Counts (c-1) N := by
  rw [Counts,h,BitVec.ofNat_add]
  exact BitVec.add_sub_cancel _ _

lemma Counts.eq_iff (hr : Counts r R) (hw : Counts w W) (hle : R≤W) (hlt : W<R+2^b) :
    w=r ↔ W=R := by
  constructor
  · intro h
    have hmod : W%2^b=R%2^b := by rw [←hw.toNat,←hr.toNat,h]
    have hsub : (W-R)%2^b=0 := Nat.sub_mod_eq_zero_of_mod_eq hmod
    rw [Nat.mod_eq_of_lt (by omega)] at hsub
    omega
  · rintro rfl
    exact hw.trans hr.symm

lemma Counts.sub (hr : Counts r R) (hw : Counts w W) (hle : R≤W) (hlt : W<R+2^b) :
    (w-r).toNat=W-R := by
  have h : w=r+BitVec.ofNat b (W-R) := by
    rw [hw,hr,←BitVec.ofNat_add]
    congr 1
    omega
  grind

lemma Counts.index (h : Counts c N) (hn : n∣2^b) : c.toNat%n=N%n := by
  rw [h.toNat,Nat.mod_mod_of_dvd N hn]

end Counters

end Xv6Riscv.RingBuffer
