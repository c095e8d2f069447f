import Xv6Riscv.SleepWakeup

/-!
# Invariants of data under a lock

What code under a lock keeps between its lock operations holds in every state,
wherever processes sleep. The invariant may speak about the local variables of
the processes that are in the code: view reads them off a place, and processes
elsewhere count with a default.
-/

namespace Xv6Riscv.MonitorInvariants

open Function
open Transition ProcMachine SleepWakeup

variable {κ χ ρ σ β : Type} [DecidableEq κ] [DecidableEq χ] {m : Client κ χ ρ σ}
  {s t : Threads κ χ ρ σ} {p : ℕ} {a : Act κ ρ}

/-- The place in the code of a process that holds no spinlock. -/
def restPlace : Rest κ ρ→Option (κ×ρ)
  | .user => none
  | .enter k l => some (k,l)

def place : Pc κ χ ρ→Option (κ×ρ)
  | .rest r | .yielding r | .yielded r | .resumed r => restPlace r
  | .inside k l | .drowsy k _ l | .falling k _ l | .asleep k _ l | .woken k l
  | .waking k _ _ l | .scanning k _ _ l => some (k,l)
  | .killing _ => none

def share (view : ρ→β) (away : β) (k : κ) : Option (κ×ρ)→β
  | some (k',l) => if k'=k then view l else away
  | none => away

def shares (view : ρ→β) (away : β) (s : Threads κ χ ρ σ) (k : κ) (p : ℕ) : β :=
  share view away k (place (s.pc p))

/-- Code under locks that keeps an invariant of the data and of what processes
count, if calls start at good places. -/
structure Monitored (m : Client κ χ ρ σ) (good : ρ→Prop) (view : ρ→β) (away : β)
    (inv : σ→(ℕ→β)→Prop) : Prop where
  entry : ∀ k l,m.entry k l=true→ good l→view l=away
  step : ∀ k p b l x y l' v,m.code k p b l x=.step y l'→ good l→ inv x v→v p=view l→
    good l' ∧ inv y (update v p (view l'))
  sleep : ∀ k p b l x c l',m.code k p b l x=.sleep c l'→ good l→ good l' ∧ view l'=view l
  wakeup : ∀ k p b l x c l',m.code k p b l x=.wakeup c l'→ good l→ good l' ∧ view l'=view l
  release : ∀ k p b l x,m.code k p b l x=.release→ good l→view l=away

def GoodCalls (good : ρ→Prop) (_ : Threads κ χ ρ σ) (a : ℕ×Act κ ρ) : Prop :=
  ∀ k l,a.2=.call k l→ good l

/-- The invariant of all locks, with every process at a good place. -/
structure Kept (good : ρ→Prop) (view : ρ→β) (away : β) (inv : σ→(ℕ→β)→Prop)
    (s : Threads κ χ ρ σ) : Prop where
  data : ∀ k,inv (s.data k) (shares view away s k)
  good : ∀ p k l,place (s.pc p)=some (k,l)→ good l

variable {good : ρ→Prop} {view : ρ→β} {away : β} {inv : σ→(ℕ→β)→Prop}

lemma Kept.move (h : Kept good view away inv s) (ht : Took m s p a t) (hdata : t.data=s.data)
    (hview : ∀ k,share view away k (place (t.pc p))=share view away k (place (s.pc p)))
    (hgood : ∀ k l,place (t.pc p)=some (k,l)→ good l) : Kept good view away inv t := by
  refine ⟨fun k => ?_,fun r k l hr => ?_⟩
  · have hs : shares view away t k=shares view away s k := by
      funext r
      by_cases hr : r=p
      · rw [hr]
        exact hview k
      · rw [shares,shares,pc_other ht hr]
    rw [hdata,hs]
    exact h.data k
  · by_cases hrp : r=p
    · grind
    · rw [pc_other ht hrp] at hr
      exact h.good r k l hr

lemma Kept.stay (h : Kept good view away inv s) (ht : Took m s p a t) (hdata : t.data=s.data)
    (hplace : place (t.pc p)=place (s.pc p)) : Kept good view away inv t :=
  h.move ht hdata (fun k => by rw [hplace]) fun k l hl => h.good p k l (by rw [←hplace]; exact hl)

lemma kept_took (hm : Monitored m good view away inv) (h : Kept good view away inv s)
    (ht : Took m s p a t) (hg : ∀ k l,a=.call k l→ good l) : Kept good view away inv t := by
  have hgp := h.good p
  have hstep := ht
  cases ht with
  | @call k l ha h1 _ he =>
    have hpc : place ((s.setPc p (.rest (.enter k l))).pc p)=some (k,l) := by
      simp [place,restPlace]
    have hl : good l := hg k l ha
    refine h.move hstep rfl (fun k' => ?_) fun k' l' hp => ?_
    · rw [hpc,h1]
      show (if k=k' then view l else away)=away
      rw [hm.entry k l he hl,ite_self]
    · rw [hpc] at hp
      cases hp
      exact hl
  | @compute k l l' y h1 _ hcode =>
    have hl : good l := hgp k l (by rw [h1]; rfl)
    have hv : shares view away s k p=view l := by
      rw [shares,h1]
      exact if_pos rfl
    obtain ⟨hl',hinv⟩ := hm.step _ _ _ _ _ _ _ _ hcode hl (h.data k) hv
    refine ⟨fun k' => ?_,fun r k' l₀ hr => ?_⟩
    · by_cases hk : k'=k
      · subst hk
        show inv (update s.data k' y k') _
        rw [update_self]
        convert hinv using 1
        funext r
        by_cases hr : r=p
        · rw [hr,update_self]
          simp [shares,place,share]
        · rw [update_of_ne hr,shares,shares,pc_other hstep hr]
      · show inv (update s.data k y k') _
        rw [update_of_ne hk]
        convert h.data k' using 1
        funext r
        by_cases hr : r=p
        · subst hr
          simp [shares,place,share,h1,Ne.symm hk]
        · rw [shares,shares,pc_other hstep hr]
    · by_cases hrp : r=p
      · subst hrp
        simp only [Threads.setPc,update_self,place,Option.some.injEq,Prod.mk.injEq] at hr
        rw [←hr.2]
        exact hl'
      · rw [pc_other hstep hrp] at hr
        exact h.good r k' l₀ hr
  | @sleep k c l l' h1 _ hcode _ =>
    have hl : good l := hgp k l (by rw [h1]; rfl)
    obtain ⟨hl',hv⟩ := hm.sleep _ _ _ _ _ _ _ hcode hl
    refine h.move hstep rfl (fun k' => ?_) fun k' l₀ hp => ?_
    · simp [place,share,h1,hv]
    · simp only [Threads.setPc,update_self,place,Option.some.injEq,Prod.mk.injEq] at hp
      rw [←hp.2]
      exact hl'
  | @wakeup k c l l' h1 _ hcode =>
    have hl : good l := hgp k l (by rw [h1]; rfl)
    obtain ⟨hl',hv⟩ := hm.wakeup _ _ _ _ _ _ _ hcode hl
    refine h.move hstep rfl (fun k' => ?_) fun k' l₀ hp => ?_
    · simp [place,share,h1,hv]
    · simp only [Threads.setPc,update_self,place,Option.some.injEq,Prod.mk.injEq] at hp
      rw [←hp.2]
      exact hl'
  | @release k l h1 _ hcode =>
    have hv := hm.release _ _ _ _ _ hcode (hgp k l (by rw [h1]; rfl))
    refine h.move hstep rfl (fun k' => ?_) fun k' l₀ hp => ?_
    · simp [place,restPlace,share,h1,hv]
    · simp [place,restPlace] at hp
  | grab _ | settle _ => exact h.stay hstep rfl rfl
  | acquire h1 _ _ | fall h1 _ | sched h1 _ | tidy h1 _ | skip h1 _ | scan h1 _ _ _ | woke h1 _ _
  | look h1 _ | yield h1 _ _ | yielded h1 _ | resumed h1 _ | kill h1 _ _ | killed _ h1 _
  | wake h1 _ _ | resume h1 _ _ =>
    exact h.stay hstep rfl (by simp [h1,place,restPlace])

omit [DecidableEq χ] in
lemma start_kept {data : κ→σ} (hstart : ∀ k,inv (data k) fun _ => away) :
    Kept good view away inv (startThreads data : Threads κ χ ρ σ) :=
  ⟨hstart,fun _ _ _ hp => by cases hp⟩

lemma run_kept (hm : Monitored m good view away inv) {data : κ→σ} {as : List (ℕ×Act κ ρ)}
    (hstart : ∀ k,inv (data k) fun _ => away)
    (hg : Guarded (threadStep m) (GoodCalls good) (startThreads data) as)
    (hrun : run (threadStep m) (startThreads data) as=.next s) : Kept good view away inv s :=
  run_invariant_guarded
    (fun _ _ _ h hok hstep => kept_took hm h (threadStep_took hstep).2 hok)
    (start_kept hstart) hg hrun

end Xv6Riscv.MonitorInvariants
