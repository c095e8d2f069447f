import Xv6Riscv.SleepWakeup

/-!
# No wakeup is lost

Code under a lock sleeps only when the condition that it waits for is false,
and calls wakeup after it has made a condition true, before it gives the lock
up. Then no process sleeps past its condition. A process that is about to
sleep holds its own p->lock from before lk is released until its state is
SLEEPING, so a wakeup that starts in between has to wait for it; and until
wakeup has looked at a sleeper, the lock lk is held.
-/

namespace Xv6Riscv.LostWakeups

open Function
open Transition ProcMachine SleepWakeup

variable {κ χ ρ σ : Type} [DecidableEq κ] [DecidableEq χ] {m : Client κ χ ρ σ}
  {s t : Threads κ χ ρ σ} {p : ℕ} {a : Act κ ρ}

def locks : Pc κ χ ρ→κ→Prop
  | .inside k _,k' => k=k'
  | .drowsy k _ _,k' => k=k'
  | .waking k _ _ _,k' => k=k'
  | .scanning k _ _ _,k' => k=k'
  | _,_ => False

def holdsOwn : Pc κ χ ρ→Prop
  | .drowsy _ _ _ | .falling _ _ _ | .woken _ _ | .yielding _ | .resumed _ => True
  | _ => False

def scans : Pc κ χ ρ→ℕ→Prop
  | .scanning _ _ j _,j' => j=j'
  | .killing q,j' => q=j'
  | _,_ => False

def parked : Pc κ χ ρ→Prop
  | .asleep _ _ _ => True
  | _ => False

def chanOk : Pc κ χ ρ→Option χ→Prop
  | .asleep _ c _,o => o=some c
  | .woken _ _,_ => True
  | _,o => o=none

/-- Locks, states and channels are as the places of the processes say. -/
structure Locked (s : Threads κ χ ρ σ) : Prop where
  lk : ∀ k w,s.lk k=some w ↔ locks (s.pc w) k
  own : ∀ p,holdsOwn (s.pc p)→s.plock p=some (.proc p)
  scan : ∀ p j,scans (s.pc p) j→s.plock j=some (.proc p)
  sleeping : ∀ p,s.state p=.sleeping→parked (s.pc p)
  chan : ∀ p,chanOk (s.pc p) (s.chan p)
  slots : ∀ p,nproc≤p→s.pc p=.yielded .user

lemma locked_step (h : Locked s) (hp : p<nproc) (ht : Took m s p a t) : Locked t := by
  have hlkp := fun k => h.lk k p
  have hown := h.own
  have hscan := h.scan
  have hsleep := h.sleeping
  have hchan := h.chan
  have hslots := h.slots
  refine ⟨fun k w => ?_,?_,?_,?_,?_,?_⟩
  · have hlk := h.lk k w
    cases ht <;> simp [update_apply] <;> grind [locks]
  · cases ht <;> simp [update_apply] <;> grind [holdsOwn,scans]
  · cases ht <;> simp [update_apply] <;> grind [holdsOwn,scans]
  · cases ht <;> simp [update_apply] <;> grind [wakeState,killState,parked]
  · cases ht <;> simp [update_apply] <;> grind [chanOk]
  · intro r hr
    rw [pc_other ht (by omega)]
    exact hslots r hr

structure Discipline (κ χ ρ σ : Type) where
  names : κ→χ→Prop
  asserts : κ→ρ→σ→Prop
  waits : κ→χ→ρ→σ→Prop
  debt : κ→ρ→χ→Prop
  safe : κ→ρ→Prop

variable {d : Discipline κ χ ρ σ} {r : ℕ}

structure Stands (d : Discipline κ χ ρ σ) (k : κ) (killed : Bool) (l : ρ) (x : σ) : Prop where
  asserts : d.asserts k l x
  safe : killed=true→d.safe k l

/-- Code that keeps to a discipline, as long as its process is not killed at other
places. -/
structure Follows (m : Client κ χ ρ σ) (d : Discipline κ χ ρ σ) : Prop where
  entry : ∀ k l,m.entry k l=true→d.safe k l ∧ (∀ c,¬d.debt k l c) ∧ ∀ x,d.asserts k l x
  step : ∀ k p b l x y l',m.code k p b l x=.step y l'→Stands d k b l x→
    (∀ c l₀,d.waits k c l₀ x ∨ d.debt k l c→d.waits k c l₀ y ∨ d.debt k l' c) ∧
      Stands d k b l' y
  sleep : ∀ k p b l x c l',m.code k p b l x=.sleep c l'→Stands d k b l x→
    d.names k c ∧ d.waits k c l' x ∧ (∀ c',¬d.debt k l c' ∧ ¬d.debt k l' c') ∧
      ∀ y,Stands d k b l' y
  wakeup : ∀ k p b l x c l',m.code k p b l x=.wakeup c l'→Stands d k b l x→
    (∀ c',d.debt k l c'→c'=c ∨ d.debt k l' c') ∧ Stands d k b l' x
  release : ∀ k p b l x,m.code k p b l x=.release→Stands d k b l x→∀ c,¬d.debt k l c

def waiting : Pc κ χ ρ→ProcState→Option (κ×χ×ρ)
  | .drowsy k c l,_ => some (k,c,l)
  | .falling k c l,_ => some (k,c,l)
  | .asleep k c l,.sleeping => some (k,c,l)
  | _,_ => none

/-- Whether the holder of a lock is going to look at slot p for channel c. -/
def owes (d : Discipline κ χ ρ σ) (p : ℕ) (c : χ) : Pc κ χ ρ→Prop
  | .inside k l => d.debt k l c
  | .waking k c' j l => (c'=c ∧ j≤p) ∨ d.debt k l c
  | .scanning k c' j l => (c'=c ∧ j≤p) ∨ d.debt k l c
  | _ => False

/-- A process that waits does so for a false condition, or is going to be woken
before the lock is free. -/
def Covered (d : Discipline κ χ ρ σ) (s : Threads κ χ ρ σ) (p : ℕ) : Prop :=
  ∀ k c l,waiting (s.pc p) (s.state p)=some (k,c,l)→
    d.waits k c l (s.data k) ∨ ∃ w,s.lk k=some w ∧ owes d p c (s.pc w)

structure Idles (d : Discipline κ χ ρ σ) (k : κ) (killed : Bool) (l : ρ) : Prop where
  debtless : ∀ c,¬d.debt k l c
  stands : ∀ x,Stands d k killed l x

def restAt (d : Discipline κ χ ρ σ) (killed : Bool) : Rest κ ρ→Prop
  | .user => True
  | .enter k l => Idles d k killed l

def standsAt (d : Discipline κ χ ρ σ) (data : κ→σ) (killed : Bool) : Pc κ χ ρ→Prop
  | .rest r | .yielding r | .yielded r | .resumed r => restAt d killed r
  | .drowsy k c l | .falling k c l | .asleep k c l => d.names k c ∧ Idles d k killed l
  | .woken k l => Idles d k killed l
  | .inside k l | .waking k _ _ l | .scanning k _ _ l => Stands d k killed l (data k)
  | .killing _ => True

/-- A place outside of the lock where the process may be killed. -/
def restSafe (d : Discipline κ χ ρ σ) : Rest κ ρ→Prop
  | .user => True
  | .enter k l => d.safe k l

def safeAt (d : Discipline κ χ ρ σ) : Pc κ χ ρ→Prop
  | .rest r | .yielding r | .yielded r | .resumed r => restSafe d r
  | .drowsy k _ l | .falling k _ l | .asleep k _ l | .woken k l | .inside k l
  | .waking k _ _ l | .scanning k _ _ l => d.safe k l
  | .killing _ => True

structure NoLost (d : Discipline κ χ ρ σ) (s : Threads κ χ ρ σ) : Prop extends Locked s where
  stands : ∀ p,standsAt d s.data (s.killed p) (s.pc p)
  covered : ∀ p,Covered d s p

def MildKill (d : Discipline κ χ ρ σ) (s : Threads κ χ ρ σ) (a : ℕ×Act κ ρ) : Prop :=
  a.2=.go→∀ q,s.pc a.1=.killing q→safeAt d (s.pc q)

omit [DecidableEq κ] [DecidableEq χ] in
lemma standsAt_killed {data : κ→σ} {b : Bool} {pc : Pc κ χ ρ} (h : standsAt d data b pc)
    (hs : safeAt d pc) : standsAt d data true pc := by
  have hrest : ∀ r,restAt d b r→ restSafe d r→ restAt d true r := by
    intro r hr hsr
    cases r with
    | user => trivial
    | enter k l => exact ⟨hr.debtless,fun x => ⟨(hr.stands x).asserts,fun _ => hsr⟩⟩
  cases pc with
  | rest r | yielding r | yielded r | resumed r => exact hrest r h hs
  | drowsy k c l | falling k c l | asleep k c l =>
    exact ⟨h.1,h.2.debtless,fun x => ⟨(h.2.stands x).asserts,fun _ => hs⟩⟩
  | woken k l => exact ⟨h.debtless,fun x => ⟨(h.stands x).asserts,fun _ => hs⟩⟩
  | inside k l | waking k c j l | scanning k c j l => exact ⟨h.asserts,fun _ => hs⟩
  | killing q => trivial

lemma stands_self (hm : Follows m d) (h : NoLost d s) (ht : Took m s p a t) :
    standsAt d t.data (t.killed p) (t.pc p) := by
  have hp := h.stands p
  cases ht with
  | @call k l _ h1 _ he =>
    obtain ⟨hsafe,hdebt,hass⟩ := hm.entry k l he
    simp only [Threads.setPc,update_self]
    exact ⟨hdebt,fun x => ⟨hass x,fun _ => hsafe⟩⟩
  | @acquire k l h1 _ _ =>
    rw [h1] at hp
    simp only [Threads.setPc,update_self]
    exact hp.stands (s.data k)
  | compute h1 _ hcode =>
    rw [h1] at hp
    simp only [Threads.setPc,update_self,standsAt]
    exact (hm.step _ _ _ _ _ _ _ hcode hp).2
  | sleep h1 _ hcode _ =>
    rw [h1] at hp
    obtain ⟨hn,-,hdebt,hst⟩ := hm.sleep _ _ _ _ _ _ _ hcode hp
    simp only [Threads.setPc,update_self]
    exact ⟨hn,fun c => (hdebt c).2,hst⟩
  | wakeup h1 _ hcode =>
    rw [h1] at hp
    simp only [Threads.setPc,update_self]
    exact (hm.wakeup _ _ _ _ _ _ _ hcode hp).2
  | killed _ h1 _ => simp [standsAt,restAt]
  | kill _ _ _ => simp [standsAt]
  | release h1 _ _ => simp [standsAt,restAt]
  | grab _ | settle _ => exact hp
  | tidy h1 _ | wake h1 _ _ | resume h1 _ _ | yield h1 _ _ | yielded h1 _ | resumed h1 _
  | fall h1 _ | sched h1 _ | skip h1 _ | scan h1 _ _ _ | woke h1 _ _ | look h1 _ =>
    rw [h1] at hp
    simp only [Threads.setPc,update_self]
    first | exact hp | exact hp.2

lemma stands_other (h : NoLost d s) (ht : Took m s p a t) (hg : MildKill d s (p,a))
    (hr : r≠p) : standsAt d t.data (t.killed r) (t.pc r) := by
  have hst := h.stands r
  rw [pc_other ht hr]
  cases ht with
  | @compute k l l' y h1 _ _ =>
    -- the data under k is that of the process inside, which is p
    have hk : ¬locks (s.pc r) k := fun hc => by
      have h2 := (h.lk k r).mpr hc
      rw [(h.lk k p).mpr (by rw [h1]; rfl)] at h2
      exact hr (Option.some.inj h2).symm
    have hdata : ∀ k',locks (s.pc r) k'→update s.data k y k'=s.data k' := by grind
    cases hpc : s.pc r with
    | inside k' l' | waking k' c j l' | scanning k' c j l' =>
      rw [hpc] at hst hdata
      show Stands d k' (s.killed r) l' (update s.data k y k')
      rw [hdata k' rfl]
      exact hst
    | _ =>
      rw [hpc] at hst
      exact hst
  | @killed q ha h1 _ =>
    show standsAt d s.data (update s.killed q true r) (s.pc r)
    by_cases hq : r=q
    · subst hq
      rw [update_self]
      exact standsAt_killed hst (hg ha r h1)
    · grind
  | _ => exact hst

omit [DecidableEq κ] [DecidableEq χ] in
lemma Locked.waiting_lt (h : Locked s) {x : κ×χ×ρ} (hw : waiting (s.pc r) (s.state r)=some x) :
    r<nproc := by
  by_contra hr
  rw [h.slots r (Nat.le_of_not_lt hr)] at hw
  cases hw

omit [DecidableEq κ] [DecidableEq χ] in
lemma Locked.waiting_scan (h : Locked s) (hr : r≠p) (hp : scans (s.pc p) r) {k : κ} {c : χ} {l : ρ}
    (hw : waiting (s.pc r) (s.state r)=some (k,c,l)) :
    s.pc r=.asleep k c l ∧ s.state r=.sleeping ∧ s.chan r=some c := by
  have hpl := h.scan p r hp
  have hown := h.own r
  have hchan := h.chan r
  cases hpc : s.pc r with
  | asleep k' c' l' =>
    rw [hpc] at hw hchan
    cases hst : s.state r with
    | sleeping =>
      rw [hst] at hw
      cases hw
      exact ⟨rfl,rfl,hchan⟩
    | _ => rw [hst] at hw; cases hw
  | drowsy | falling =>
    rw [hpc,hpl] at hown
    exact absurd (Holder.proc.inj (Option.some.inj (hown trivial))) hr.symm
  | _ => rw [hpc] at hw; cases hw

omit [DecidableEq κ] [DecidableEq χ] in
lemma waiting_runnable {pc : Pc κ χ ρ} {x : κ×χ×ρ} (st : ProcState)
    (hw : waiting pc .runnable=some x) : waiting pc st=some x := by
  cases pc <;> first | exact hw | cases hw

lemma waiting_other (ht : Took m s p a t) (hr : r≠p) {x : κ×χ×ρ}
    (hw : waiting (t.pc r) (t.state r)=some x) : waiting (s.pc r) (s.state r)=some x := by
  have hst : t.state r=s.state r ∨ t.state r=.runnable := by
    cases ht <;> simp [hr,wakeState,killState] <;> grind
  rw [pc_other ht hr] at hw
  rcases hst with hst | hst
  · rw [hst] at hw
    exact hw
  · rw [hst] at hw
    exact waiting_runnable _ hw

lemma Covered.move (h : Covered d s r) (ht : Took m s p a t) (hr : r≠p) (hlk : t.lk=s.lk)
    (hdata : t.data=s.data)
    (howes : ∀ k c l,waiting (t.pc r) (t.state r)=some (k,c,l)→ owes d r c (s.pc p)→
      owes d r c (t.pc p)) : Covered d t r := by
  intro k c l hw
  rw [hdata]
  refine (h k c l (waiting_other ht hr hw)).imp id ?_
  rintro ⟨w,hk,ho⟩
  refine ⟨w,by rw [hlk]; exact hk,?_⟩
  by_cases hwp : w=p
  · rw [hwp] at ho ⊢
    exact howes k c l hw ho
  · rw [pc_other ht hwp]
    exact ho

lemma Covered.lock (h : Covered d s r) (ht : Took m s p a t) (hr : r≠p) {k : κ}
    (hlk : ∀ k',k'≠k→t.lk k'=s.lk k') (hdata : t.data=s.data)
    (hdebt : ∀ w c,s.lk k=some w→¬owes d r c (s.pc w))
    (hp : ∀ k',k'≠k→s.lk k'≠some p) : Covered d t r := by
  intro k' c l hw
  rw [hdata]
  refine (h k' c l (waiting_other ht hr hw)).imp id ?_
  rintro ⟨w,hk,ho⟩
  by_cases hkk : k'=k
  · rw [hkk] at hk
    exact absurd ho (hdebt w c hk)
  · have hwp : w≠p := by
      rintro rfl
      exact hp k' hkk hk
    refine ⟨w,by rw [hlk k' hkk]; exact hk,?_⟩
    rw [pc_other ht hwp]
    exact ho

omit [DecidableEq κ] [DecidableEq χ] in
lemma Locked.holder (h : Locked s) {k : κ} {w : ℕ} (hp : locks (s.pc p) k)
    (hw : s.lk k=some w) : w=p := by
  rw [(h.lk k p).mpr hp] at hw
  exact (Option.some.inj hw).symm

lemma covered_other (hm : Follows m d) (h : NoLost d s) (ht : Took m s p a t) (hr : r≠p) :
    Covered d t r := by
  have hc := h.covered r
  have hst := h.stands p
  have hstep := ht
  cases ht with
  | call _ h1 _ _ | tidy h1 _ | yield h1 _ _ | yielded h1 _ | resumed h1 _ | sched h1 _
  | kill h1 _ _ | killed _ h1 _ | wake h1 _ _ | resume h1 _ _ =>
    refine hc.move hstep hr rfl rfl fun k c l _ ho => ?_
    rw [h1] at ho
    cases ho
  | grab _ | settle _ => exact hc.move hstep hr rfl rfl fun k c l _ ho => ho
  | acquire h1 _ hk =>
    refine hc.lock hstep hr (fun k' hk' => update_of_ne hk' _ _) rfl (fun w c hw => ?_)
      fun k' _ hk' => ?_
    · rw [hk] at hw
      cases hw
    · have hl := (h.lk k' p).mp hk'
      rw [h1] at hl
      cases hl
  | release h1 _ hcode =>
    rw [h1] at hst
    have hnone := hm.release _ _ _ _ _ hcode hst
    refine hc.lock hstep hr (fun k' hk' => update_of_ne hk' _ _) rfl (fun w c hw => ?_)
      fun k' hkk hk' => ?_
    · rw [h.holder (p:=p) (by rw [h1]; rfl) hw,h1]
      exact hnone c
    · have hl := (h.lk k' p).mp hk'
      rw [h1] at hl
      exact hkk hl.symm
  | fall h1 _ =>
    refine hc.lock hstep hr (fun k' hk' => update_of_ne hk' _ _) rfl (fun w c hw => ?_)
      fun k' hkk hk' => ?_
    · rw [h.holder (p:=p) (by rw [h1]; rfl) hw,h1]
      exact id
    · have hl := (h.lk k' p).mp hk'
      rw [h1] at hl
      exact hkk hl.symm
  | @compute k l l' y h1 _ hcode =>
    rw [h1] at hst
    obtain ⟨hkeep,-⟩ := hm.step _ _ _ _ _ _ _ hcode hst
    have hlk : s.lk k=some p := (h.lk k p).mpr (by rw [h1]; rfl)
    intro k' c l₀ hw
    have hcov := hc k' c l₀ (waiting_other hstep hr hw)
    by_cases hk : k'=k
    · subst hk
      have hcov' : d.waits k' c l₀ (s.data k') ∨ d.debt k' l c := by
        refine hcov.imp id ?_
        rintro ⟨w,hw,ho⟩
        rw [h.holder (p:=p) (by rw [h1]; rfl) hw,h1] at ho
        exact ho
      refine (hkeep c l₀ hcov').imp (fun hwt => ?_) fun hdebt => ⟨p,hlk,?_⟩
      · show d.waits k' c l₀ (update s.data k' y k')
        rw [update_self]
        exact hwt
      · show owes d r c (update s.pc p _ p)
        rw [update_self]
        exact hdebt
    · refine hcov.imp (fun hwt => ?_) ?_
      · show d.waits k' c l₀ (update s.data k y k')
        rw [update_of_ne hk]
        exact hwt
      · rintro ⟨w,hlw,ho⟩
        have hwp : w≠p := by
          rintro rfl
          have hl := (h.lk k' w).mp hlw
          rw [h1] at hl
          exact hk hl.symm
        exact ⟨w,hlw,by rw [pc_other hstep hwp]; exact ho⟩
  | sleep h1 _ hcode _ =>
    rw [h1] at hst
    obtain ⟨-,-,hnone,-⟩ := hm.sleep _ _ _ _ _ _ _ hcode hst
    refine hc.move hstep hr rfl rfl fun k c l _ ho => ?_
    rw [h1] at ho
    exact absurd ho (hnone c).1
  | wakeup h1 _ hcode =>
    rw [h1] at hst
    obtain ⟨hdebt,-⟩ := hm.wakeup _ _ _ _ _ _ _ hcode hst
    refine hc.move hstep hr rfl rfl fun k c l _ ho => ?_
    rw [h1] at ho
    show owes d r c (update s.pc p _ p)
    rw [update_self]
    rcases hdebt c ho with rfl | hd
    · exact .inl ⟨rfl,Nat.zero_le r⟩
    · exact .inr hd
  | skip h1 _ =>
    refine hc.move hstep hr rfl rfl fun k c l _ ho => ?_
    rw [h1] at ho
    show owes d r c (update s.pc p _ p)
    rw [update_self]
    exact ho.imp (fun hj => ⟨hj.1,by omega⟩) id
  | scan h1 _ _ _ =>
    refine hc.move hstep hr rfl rfl fun k c l _ ho => ?_
    rw [h1] at ho
    show owes d r c (update s.pc p _ p)
    rw [update_self]
    exact ho
  | woke h1 _ hj =>
    refine hc.move hstep hr rfl rfl fun k c l hw ho => ?_
    have hlt := h.waiting_lt (waiting_other hstep hr hw)
    rw [h1] at ho
    show owes d r c (update s.pc p _ p)
    rw [update_self]
    rcases ho with ⟨_,hle⟩ | hd
    · omega
    · exact hd
  | @look k' c' j l' h1 _ =>
    refine hc.move hstep hr rfl rfl fun k c l hw ho => ?_
    rw [h1] at ho
    show owes d r c (update s.pc p _ p)
    rw [update_self]
    refine ho.imp (fun hj => ⟨hj.1,?_⟩) id
    -- a sleeper on the channel that is looked at is RUNNABLE now
    by_contra hc'
    have hjr : j=r := by omega
    have hs : scans (s.pc p) r := by
      rw [h1]
      exact hjr
    obtain ⟨hpc,hst,hch⟩ := h.waiting_scan hr hs (waiting_other hstep hr hw)
    have hrun : waiting (s.pc r) .runnable=some (k,c,l) := by
      rw [←hw,pc_other hstep hr]
      congr 1
      show _=update s.state j (wakeState s c' j) r
      rw [hjr,update_self,wakeState,if_pos ⟨hst,by rw [hch,hj.1]⟩]
    rw [hpc] at hrun
    cases hrun

lemma covered_self (hm : Follows m d) (h : NoLost d s) (ht : Took m s p a t) :
    Covered d t p := by
  have hc := h.covered p
  have hst := h.stands p
  have hstep := ht
  have hpark := h.sleeping p
  cases ht with
  | grab _ | settle _ => exact hc
  | @sleep k c l l' h1 _ hcode _ =>
    rw [h1] at hst
    obtain ⟨-,hw,-⟩ := hm.sleep _ _ _ _ _ _ _ hcode hst
    intro k' c' l₀ hw'
    rw [Threads.setPc] at hw'
    dsimp only at hw'
    rw [update_self] at hw'
    cases hw'
    exact .inl hw
  | @fall k c l h1 _ =>
    intro k' c' l₀ hw'
    rw [Threads.setPc] at hw'
    dsimp only at hw'
    rw [update_self] at hw'
    cases hw'
    rcases hc k c l (by rw [h1]; rfl) with hw | ⟨w,hk,ho⟩
    · exact .inl hw
    · rw [h.holder (p:=p) (by rw [h1]; rfl) hk,h1] at ho
      cases ho
  | @sched k c l h1 _ =>
    intro k' c' l₀ hw'
    have hw : waiting (Pc.asleep k c l) .sleeping=some (k',c',l₀) := by
      rw [←hw']
      simp
    cases hw
    refine (hc k c l (by rw [h1]; rfl)).imp id ?_
    rintro ⟨w,hk,ho⟩
    have hwp : w≠p := by
      rintro rfl
      rw [h1] at ho
      cases ho
    exact ⟨w,hk,by rw [pc_other hstep hwp]; exact ho⟩
  | _ =>
    intro k' c' l₀ hw'
    simp [waiting] at hw'

lemma noLost_step (hm : Follows m d) (h : NoLost d s) {a : ℕ×Act κ ρ} (hg : MildKill d s a)
    (hstep : threadStep m s a=.next t) : NoLost d t := by
  obtain ⟨hp,ht⟩ := threadStep_took hstep
  refine ⟨locked_step h.toLocked hp ht,fun r => ?_,fun r => ?_⟩
  · by_cases hr : r=a.1
    · rw [hr]
      exact stands_self hm h ht
    · exact stands_other h ht hg hr
  · by_cases hr : r=a.1
    · rw [hr]
      exact covered_self hm h ht
    · exact covered_other hm h ht hr

omit [DecidableEq κ] [DecidableEq χ] in
lemma start_noLost (d : Discipline κ χ ρ σ) (data : κ→σ) :
    NoLost d (startThreads data : Threads κ χ ρ σ) := by
  refine ⟨⟨fun k w => ?_,?_,?_,?_,fun _ => rfl,fun _ _ => rfl⟩,fun _ => trivial,
    fun p k c l hw => ?_⟩
  · constructor <;> exact fun hc => by cases hc
  · exact fun _ hc => by cases hc
  · exact fun _ _ hc => by cases hc
  · exact fun _ hc => by cases hc
  · cases hw

lemma run_noLost (hm : Follows m d) {data : κ→σ} {as : List (ℕ×Act κ ρ)}
    (hg : Guarded (threadStep m) (MildKill d) (startThreads data) as)
    (hrun : run (threadStep m) (startThreads data) as=.next s) : NoLost d s :=
  run_invariant_guarded (fun _ _ _ h hok hstep => noLost_step hm h hok hstep)
    (start_noLost d data) hg hrun

omit [DecidableEq κ] [DecidableEq χ] in
lemma NoLost.sleeper (h : NoLost d s) (hs : s.state p=.sleeping) :
    ∃ k c l,s.pc p=.asleep k c l ∧ s.chan p=some c ∧ d.names k c ∧
      (s.lk k=none→d.waits k c l (s.data k)) := by
  have hpark := h.sleeping p hs
  have hchan := h.chan p
  cases hpc : s.pc p with
  | asleep k c l =>
    rw [hpc] at hchan
    have hst := h.stands p
    rw [hpc] at hst
    refine ⟨k,c,l,rfl,hchan,hst.1,fun hk => ?_⟩
    rcases h.covered p k c l (by rw [hpc,hs]; rfl) with hw | ⟨w,hlk,_⟩
    · exact hw
    · rw [hk] at hlk
      cases hlk
  | _ =>
    rw [hpc] at hpark
    cases hpark

section Claim

variable {asserts : κ→ρ→σ→Prop} {cond : κ→χ→ρ→σ→Prop} {debt : κ→ρ→χ→Prop}

/-- The discipline for conditions, where processes may be killed anywhere. -/
def conditions (asserts : κ→ρ→σ→Prop) (cond : κ→χ→ρ→σ→Prop) (debt : κ→ρ→χ→Prop) :
    Discipline κ χ ρ σ :=
  ⟨fun _ _ => True,asserts,fun k c l x => ¬cond k c l x,debt,fun _ _ => True⟩

omit [DecidableEq κ] [DecidableEq χ] in
lemma safeAt_conditions (pc : Pc κ χ ρ) : safeAt (conditions asserts cond debt) pc := by
  cases pc with
  | rest r | yielding r | yielded r | resumed r => cases r <;> trivial
  | _ => trivial

/-- For code that evaluates conditions under locks, calls sleep when the condition
is false, and wakeup after it has made one true and before it releases the lock:
in every run a SLEEPING process is in sleep on its channel, the condition that it
tested is false while the lock is free, and a process in the code, also one that
sleep has returned to, holds the lock and has no channel. -/
theorem no_wakeup_is_lost (h : Follows m (conditions asserts cond debt)) {data : κ→σ}
    {as : List (ℕ×Act κ ρ)} (hrun : run (threadStep m) (startThreads data) as=.next s) :
    (∀ p,s.state p=.sleeping→∃ k c l,s.pc p=.asleep k c l ∧ s.chan p=some c ∧
      (s.lk k=none→¬cond k c l (s.data k))) ∧
    ∀ p k l,s.pc p=.inside k l→s.lk k=some p ∧ s.chan p=none := by
  have hinv := run_noLost h (guarded_of_forall (fun _ _ _ _ _ => safeAt_conditions _) _ _) hrun
  refine ⟨fun p hs => ?_,fun p k l hpc => ⟨(hinv.lk k p).mpr ?_,?_⟩⟩
  · obtain ⟨k,c,l,hpc,hchan,-,hw⟩ := hinv.sleeper hs
    exact ⟨k,c,l,hpc,hchan,hw⟩
  · rw [hpc]
    rfl
  · have hchan := hinv.chan p
    rw [hpc] at hchan
    exact hchan

end Claim

structure SleepLock where
  locked : Bool
  pid : ℕ
  deriving DecidableEq

inductive SleepPlace where
  | test
  | clear
  | wake
  | done
  deriving DecidableEq

/-- acquiresleep and releasesleep. A sleep-lock is its own channel, and the slot
of a process stands for its pid. -/
def sleepLocks : Client ℕ ℕ SleepPlace SleepLock where
  entry _ l := l=.test || l=.clear
  code k p _ l x :=
    match l with
    | .test => if x.locked then .sleep k .test else .step ⟨true,p⟩ .done
    | .clear => .step ⟨false,0⟩ .wake
    | .wake => .wakeup k .done
    | .done => .release

def unlocked (k c : ℕ) (_ : SleepPlace) (x : SleepLock) : Prop := c=k ∧ x.locked=false

/-- releasesleep has a wakeup to come once the lock is free. -/
def wakesNext (k : ℕ) (l : SleepPlace) (c : ℕ) : Prop := l=.wake ∧ c=k

lemma sleepLocks_follow :
    Follows sleepLocks (conditions (fun _ _ _ => True) unlocked wakesNext) := by
  have hst : ∀ k b l x,Stands (conditions (fun _ _ _ => True) unlocked wakesNext) k b l x :=
    fun _ _ _ _ => ⟨trivial,fun _ => trivial⟩
  refine ⟨fun k l he => ⟨trivial,fun c hc => ?_,fun _ => trivial⟩,
    fun k p b l x y l' hc _ => ⟨fun c l₀ hw => ?_,hst k b l' y⟩,
    fun k p b l x c l' hc _ => ⟨trivial,?_,fun c' => ?_,hst k b l'⟩,
    fun k p b l x c l' hc _ => ⟨fun c' hd => ?_,hst k b l' x⟩,fun k p b l x hc _ c hd => ?_⟩
  · rw [hc.1] at he
    cases he
  · cases l with
    | test =>
      simp only [sleepLocks] at hc
      split at hc
      next => cases hc
      next =>
        cases hc
        exact .inl fun hu => by cases hu.2
    | clear =>
      cases hc
      by_cases hck : c=k
      · exact .inr ⟨rfl,hck⟩
      · exact .inl fun hu => hck hu.1
    | wake | done => cases hc
  · cases l with
    | test =>
      simp only [sleepLocks] at hc
      split at hc
      next hl =>
        cases hc
        rintro ⟨_,hu⟩
        rw [hl] at hu
        cases hu
      next => cases hc
    | clear | wake | done => cases hc
  · cases l with
    | test =>
      simp only [sleepLocks] at hc
      split at hc
      next =>
        cases hc
        constructor <;> exact fun hd => by cases hd.1
      next => cases hc
    | clear | wake | done => cases hc
  · rw [hd.1] at hc
    cases hc
    exact .inl hd.2
  · rw [hd.1] at hc
    cases hc

/-- Two processes take the same sleep-lock: the second one falls asleep. -/
def contended : List (ℕ×Act ℕ SleepPlace) :=
  let enter (p : ℕ) : List (ℕ×Act ℕ SleepPlace) :=
    [(p,.grab),(p,.dispatch),(p,.go),(p,.call 0 .test)]
  enter 0++enter 1++[(0,.go),(0,.go),(0,.go)]++[(1,.go),(1,.go),(1,.go),(1,.go),(1,.settle)]

theorem contended_sleeps : ∃ s,
    run (threadStep sleepLocks) (startThreads fun _ => ⟨false,0⟩) contended=.next s ∧
    s.state 1=.sleeping ∧ s.lk 0=none ∧ ∃ k c l,s.pc 1=.asleep k c l ∧ s.chan 1=some c ∧
      (s.lk k=none→¬unlocked k c l (s.data k)) := by
  obtain ⟨s,hrun,hobs⟩ := exists_of_state?
    (o:=run (threadStep sleepLocks) (startThreads fun _ => ⟨false,0⟩) contended)
    (f:=fun s => (s.state 1,s.lk 0)) (v:=(.sleeping,none)) (by decide +kernel)
  have hs : s.state 1=.sleeping := congrArg Prod.fst hobs
  exact ⟨s,hrun,hs,congrArg Prod.snd hobs,(no_wakeup_is_lost sleepLocks_follow hrun).1 1 hs⟩

end Xv6Riscv.LostWakeups
