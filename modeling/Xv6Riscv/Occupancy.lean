import Mathlib

/-!
# Numbered units held in places

A pool of units is numbered from lo up to hi. Places hold unit numbers, zero
being an empty place, and a used mark is kept for every number. The invariant
says that the marks tell exactly which units are held, that no unit is held
in two places, and that everything below lo is marked for good. Filling an
empty place with an unmarked unit and emptying a place are the two changes
that keep it.
-/

namespace Xv6Riscv.Occupancy

open Function

variable {κ : Type*} {lo hi b : ℕ} {occ : κ→ℕ} {used : ℕ→Bool} {p : κ}

/-- Every unit is held at most once, and a unit is marked exactly when it is
held. -/
structure Owns (lo hi : ℕ) (occ : κ→ℕ) (used : ℕ→Bool) : Prop where
  lo_pos : 0<lo
  inside : ∀ p,occ p≠0→lo≤occ p ∧ occ p<hi
  unique : ∀ p q,occ p≠0→ occ p=occ q→p=q
  used_iff : ∀ b,lo≤b→b<hi→(used b=true ↔ ∃ p,occ p=b)
  reserved : ∀ b,b<lo→used b=true

lemma Owns.fresh (h : Owns lo hi occ used) (hb : used b=false) (hlt : b<hi) :
    lo≤b ∧ ∀ p,occ p≠b := by
  have hlo : lo≤b := by
    by_contra hn
    grind [h.reserved]
  grind [h.used_iff]

lemma Owns.used_of_held (h : Owns lo hi occ used) (hp : occ p≠0) : used (occ p)=true := by
  grind [h.inside,h.used_iff]

variable [DecidableEq κ]

lemma Owns.fill (h : Owns lo hi occ used) (hb : used b=false) (hlt : b<hi) (hp : occ p=0) :
    Owns lo hi (update occ p b) (update used b true) := by
  obtain ⟨hlo,hnot⟩ := h.fresh hb hlt
  refine ⟨h.lo_pos,fun q hq => ?_,fun q r hq hqr => ?_,fun c hc hc' => ?_,fun c hc => ?_⟩
  · by_cases hqp : q=p
    · grind
    · rw [update_of_ne hqp] at hq ⊢
      exact h.inside q hq
  · by_cases hqp : q=p
    · grind
    · grind [h.unique]
  · by_cases hcb : c=b
    · subst hcb
      rw [update_self]
      exact ⟨fun _ => ⟨p,update_self p c occ⟩,fun _ => rfl⟩
    · rw [update_of_ne hcb,h.used_iff c hc hc']
      constructor
      · rintro ⟨q,hq⟩
        have hqp : q≠p := by grind [h.lo_pos]
        exact ⟨q,by rw [update_of_ne hqp,hq]⟩
      · grind
  · grind [h.reserved]

lemma Owns.clear (h : Owns lo hi occ used) (hp : occ p≠0) :
    Owns lo hi (update occ p 0) (update used (occ p) false) := by
  obtain ⟨hlo,hhi⟩ := h.inside p hp
  refine ⟨h.lo_pos,fun q hq => ?_,fun q r hq hqr => ?_,fun c hc hc' => ?_,fun c hc => ?_⟩
  · by_cases hqp : q=p
    · grind
    · rw [update_of_ne hqp] at hq ⊢
      exact h.inside q hq
  · grind [h.unique]
  · by_cases hcp : c=occ p
    · subst hcp
      rw [update_self]
      refine ⟨fun hf => absurd hf Bool.false_ne_true,?_⟩
      grind [h.unique]
    · rw [update_of_ne hcp,h.used_iff c hc hc']
      constructor
      · rintro ⟨q,hq⟩
        have hqp : q≠p := by grind
        exact ⟨q,by rw [update_of_ne hqp,hq]⟩
      · grind [h.lo_pos]
  · grind [h.reserved]

def wipe (occ : κ→ℕ) (ps : List κ) : κ→ℕ := fun q => if q∈ps then 0 else occ q

@[simp] lemma wipe_nil (occ : κ→ℕ) : wipe occ []=occ := by
  grind [wipe]

lemma wipe_cons (occ : κ→ℕ) (p : κ) (ps : List κ) :
    wipe occ (p::ps)=wipe (update occ p 0) ps := by
  grind [wipe]

lemma wipe_cons_last (occ : κ→ℕ) (p : κ) (ps : List κ) :
    wipe occ (p::ps)=update (wipe occ ps) p 0 := by
  grind [wipe]

lemma wipe_cons_of_empty {ps : List κ} (h : occ p=0) : wipe occ (p::ps)=wipe occ ps := by
  rw [wipe_cons,←h,update_eq_self]

lemma wipe_of_empty {ps : List κ} (h : ∀ p∈ps,occ p=0) : wipe occ ps=occ := by
  grind [wipe]

end Xv6Riscv.Occupancy
