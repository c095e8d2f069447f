import Xv6Riscv.CircularList

/-!
# Circular doubly linked lists

The two link fields of the nodes as functions, with the pointer assignments
that take a node out and that put a node behind another one. A list of nodes
is linked if following next leads through the list and back, and following
prev leads through its reverse and back.
-/

namespace Xv6Riscv.DoublyLinked

open CircularList Function

/-- The link fields of all nodes. -/
structure Links (α : Type*) where
  /-- The field next. -/
  next : α→α
  /-- The field prev. -/
  prev : α→α

variable {α : Type*} {s : Links α} {l u v t : List α} {b head : α}

/-- Following the links leads through the list and back, both ways. -/
def Linked (s : Links α) (l : List α) : Prop := Ring s.next l ∧ Ring s.prev l.reverse

/-- Any node of the cycle may be the first of the list. -/
lemma Linked.append_comm (h : Linked s (u++v)) : Linked s (v++u) := by
  refine ⟨h.1.append_comm,?_⟩
  have hprev := h.2
  rw [List.reverse_append] at hprev ⊢
  exact hprev.append_comm

variable [DecidableEq α]

/-- b->next->prev=b->prev, then b->prev->next=b->next. -/
def unlink (s : Links α) (b : α) : Links α :=
  let prev := update s.prev (s.next b) (s.prev b)
  ⟨update s.next (prev b) (s.next b),prev⟩

/-- b->next=head.next, b->prev=head, head.next->prev=b, then head.next=b. -/
def pushFront (s : Links α) (head b : α) : Links α :=
  let next := update s.next b (s.next head)
  let prev := update s.prev b head
  ⟨update next head b,update prev (next head) b⟩

/-- Taking the first node out leaves the others linked. -/
lemma Linked.unlink (h : Linked s (b::t)) (hne : t≠[]) (hl : (b::t).Nodup) :
    Linked (unlink s b) t := by
  obtain ⟨hb,ht⟩ := List.nodup_cons.mp hl
  obtain ⟨y,ty,hy⟩ := List.exists_cons_of_ne_nil hne
  obtain ⟨tx,x,hx⟩ := List.eq_nil_or_concat t |>.resolve_left hne
  rw [List.concat_eq_append] at hx
  have hnext : s.next b=y := by
    have h1 := h.1
    rw [hy] at h1
    exact @Ring.next_eq _ _ [] _ _ _ h1
  have hprev : s.prev b=x := by
    have h2 := h.2
    rw [hx,List.reverse_cons,List.reverse_append,List.reverse_singleton] at h2
    exact h2.next_last
  have hby : b≠y := fun heq => hb (by rw [hy,heq]; exact List.mem_cons_self)
  have hunlink : DoublyLinked.unlink s b=⟨update s.next x y,update s.prev y x⟩ := by
    rw [DoublyLinked.unlink,hnext,update_of_ne hby,hprev]
  rw [hunlink]
  constructor
  · have hring : Ring s.next (x::b::tx) := by
      have h1 := h.1
      rw [hx,←List.cons_append] at h1
      exact h1.append_comm
    have hout : Ring (update s.next x y) (x::tx) := by
      refine @Ring.remove _ _ _ [] tx x b hring (by rw [update_self,hnext]) fun a ha => ?_
      refine update_of_ne ?_ _ _
      rintro rfl
      rw [hx] at ht
      exact (List.nodup_append.mp ht).2.2 a ha a List.mem_cons_self rfl
    rw [hx]
    exact @Ring.append_comm _ _ [x] tx hout
  · have hring : Ring s.prev (ty.reverse++y::b::[]) := by
      have h2 := h.2
      rw [hy,List.reverse_cons,List.reverse_cons,List.append_assoc] at h2
      exact h2
    rw [hy,List.reverse_cons]
    change Ring (update s.prev y x) (ty.reverse++[y])
    refine @Ring.remove _ _ _ ty.reverse [] y b hring (by rw [update_self,hprev]) fun a ha => ?_
    refine update_of_ne ?_ _ _
    rintro rfl
    rw [List.append_nil,List.mem_reverse] at ha
    rw [hy] at ht
    exact (List.nodup_cons.mp ht).1 ha

/-- Putting a new node behind the first one. -/
lemma Linked.pushFront (h : Linked s (head::l)) (hl : (head::l).Nodup) (hb : b∉head::l) :
    Linked (pushFront s head b) (head::b::l) := by
  obtain ⟨hbh,hbl⟩ := not_or.mp (List.mem_cons.not.mp hb)
  obtain ⟨hhl,hnd⟩ := List.nodup_cons.mp hl
  constructor
  · refine @Ring.insert _ _ _ [] l b head h.1 (update_self ..) ?_ fun a ha => ?_
    · change update (update s.next b (s.next head)) head b b=s.next head
      rw [update_of_ne hbh,update_self]
    · change update (update s.next b (s.next head)) head b a=s.next a
      have hah : a≠head := fun heq => hhl (heq ▸ ha)
      have hab : a≠b := fun heq => hbl (heq ▸ ha)
      rw [update_of_ne hah,update_of_ne hab]
  · have hprev : (DoublyLinked.pushFront s head b).prev=
        update (update s.prev b head) (s.next head) b := by
      change update (update s.prev b head) (update s.next b (s.next head) head) b=_
      rw [update_of_ne (Ne.symm hbh)]
    rw [hprev]
    cases l with
    | nil =>
      have hnext : s.next head=head := ring_singleton.mp h.1
      have hself : s.prev head=head := ring_singleton.mp h.2
      rw [hnext]
      have hins : Ring (update (update s.prev b head) head b) [head,b] := by
        refine @Ring.insert _ _ _ [] [] b head (ring_singleton.mpr hself) (update_self ..) ?_ nofun
        rw [update_of_ne hbh,update_self,hself]
      exact @Ring.append_comm _ _ [head] [b] hins
    | cons c t =>
      have hnext : s.next head=c := @Ring.next_eq _ _ [] _ _ _ h.1
      have hring : Ring s.prev (t.reverse++c::[head]) := by
        have h2 := h.2
        rw [List.reverse_cons,List.reverse_cons,List.append_assoc] at h2
        exact h2
      have hbc : b≠c := fun heq => hbl (heq ▸ List.mem_cons_self)
      rw [hnext,List.reverse_cons,List.reverse_cons,List.reverse_cons,List.append_assoc,
        List.append_assoc]
      refine @Ring.insert _ _ _ t.reverse [head] b c hring (update_self ..) ?_ fun a ha => ?_
      · rw [update_of_ne hbc,update_self,hring.next_eq]
      · have hac : a≠c := by
          rintro rfl
          rcases List.mem_append.mp ha with hmem|hmem
          · exact (List.nodup_cons.mp hnd).1 (List.mem_reverse.mp hmem)
          · exact hhl (List.mem_singleton.mp hmem ▸ List.mem_cons_self)
        have hab : a≠b := by
          rintro rfl
          rcases List.mem_append.mp ha with hmem|hmem
          · exact hbl (List.mem_cons_of_mem c (List.mem_reverse.mp hmem))
          · exact hbh (List.mem_singleton.mp hmem)
        rw [update_of_ne hac,update_of_ne hab]

end Xv6Riscv.DoublyLinked
