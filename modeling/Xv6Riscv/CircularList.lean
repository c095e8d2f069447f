import Mathlib

/-!
# Circular lists

A list lists a ring of a successor function if the successors of its elements
are its rotation by one place. A ring can be read from any of its elements, and
an element can be put in or taken out behind its first one by a change of the
successor function at the place.
-/

namespace Xv6Riscv.CircularList

variable {α : Type*}

/-- Following next from an element of the list leads through the list and back. -/
def Ring (next : α→α) (l : List α) : Prop := l.map next=l.rotate 1

variable {next next' : α→α} {l pre suf t : List α} {a b p q : α}

lemma ring_singleton : Ring next [a] ↔ next a=a := by
  rw [Ring,List.map_singleton,List.rotate_singleton,List.singleton_inj]

lemma ring_cons : Ring next (p::t) ↔ next p::t.map next=t++[p] := by
  rw [Ring,List.map_cons,List.rotate_cons_succ,List.rotate_zero]

lemma Ring.append_comm (h : Ring next (pre++suf)) : Ring next (suf++pre) := by
  rw [Ring] at h ⊢
  grind [List.rotate_append_length_eq,List.rotate_rotate]

lemma Ring.from (h : Ring next (pre++p::suf)) : Ring next (p::(suf++pre)) := by
  rw [←List.cons_append]
  exact h.append_comm

lemma Ring.congr (h : Ring next l) (heq : ∀ a∈l,next' a=next a) : Ring next' l := by
  rw [Ring] at h ⊢
  rw [←h]
  exact List.map_congr_left heq

lemma Ring.next_mem (h : Ring next l) (ha : a∈l) : next a∈l := by
  have hmem : next a∈l.map next := List.mem_map_of_mem ha
  rw [Ring] at h
  rw [h] at hmem
  exact List.mem_rotate.mp hmem

lemma Ring.injOn (h : Ring next l) (hl : l.Nodup) (ha : a∈l) (hb : b∈l)
    (heq : next a=next b) : a=b := by
  have hmap : (l.map next).Nodup := by
    rw [Ring] at h
    rw [h]
    exact List.nodup_rotate.mpr hl
  exact List.inj_on_of_nodup_map hmap ha hb heq

lemma Ring.next_eq (h : Ring next (pre++p::q::suf)) : next p=q := by
  have hfrom := ring_cons.mp h.from
  rw [List.cons_append,List.cons_append] at hfrom
  exact (List.cons.inj hfrom).1

lemma Ring.next_last (h : Ring next (a::t++[p])) : next p=a := by
  have hfrom := ring_cons.mp (@Ring.from _ next (a::t) [] p h)
  exact (List.cons.inj hfrom).1

lemma chain_of_map (t : List α) (a b : α) (h : (a::t).map next=t++[b]) :
    List.IsChain (fun x y => next x=y) (a::(t++[b])) := by
  induction t generalizing a with
  | nil => exact List.isChain_cons_cons.mpr ⟨(List.cons.inj h).1,.singleton _⟩
  | cons z t ih =>
    grind

lemma Ring.chain (h : Ring next (p::t)) : List.IsChain (fun x y => next x=y) (p::(t++[p])) :=
  chain_of_map t p p (ring_cons.mp h)

lemma Ring.insert (h : Ring next (pre++p::suf)) (hp : next' p=b) (hb : next' b=next p)
    (heq : ∀ a∈pre++suf,next' a=next a) : Ring next' (pre++p::b::suf) := by
  have hfrom := ring_cons.mp h.from
  have hsame : (suf++pre).map next'=(suf++pre).map next :=
    List.map_congr_left fun a ha => heq a (List.perm_append_comm.mem_iff.mp ha)
  have hnew : Ring next' ((p::b::suf)++pre) := by
    rw [List.cons_append,List.cons_append,ring_cons,List.map_cons,hp,hb,hsame,hfrom]
    rfl
  exact hnew.append_comm

lemma Ring.remove (h : Ring next (pre++p::q::suf)) (hp : next' p=next q)
    (heq : ∀ a∈pre++suf,next' a=next a) : Ring next' (pre++p::suf) := by
  have hfrom := ring_cons.mp h.from
  have hsame : (suf++pre).map next'=(suf++pre).map next :=
    List.map_congr_left fun a ha => heq a (List.perm_append_comm.mem_iff.mp ha)
  rw [List.cons_append,List.map_cons,List.cons_append] at hfrom
  have hnew : Ring next' ((p::suf)++pre) := by
    rw [List.cons_append,ring_cons,hp,hsame]
    exact (List.cons.inj hfrom).2
  exact hnew.append_comm

end Xv6Riscv.CircularList
