import Xv6Riscv.ProcWait

/-!
# kill and the slots it may mark

kill compares the pid field of every slot, whatever the slot's state. Slots of
live and exited processes have positive pids, but UNUSED slots have pid 0, so
kill(0) finds the first UNUSED slot, marks it and returns 0. allocproc does not
clear the mark, and the next process created in that slot starts killed. The
results below say that this is the only way in which kill misses a live
target.
-/

namespace Xv6Riscv.ProcKill

open Function
open Transition ProcMachine ProcWait

/-- kill's loop over the slots from k on, with no other process in between. -/
def killLoop (tbl : Slot→Proc) (pid : ℤ) : ℕ→ℕ→(Slot→Proc)×ℤ
  | _,0 => (tbl,-1)
  | k,n+1 =>
    match slot? k with
    | none => (tbl,-1)
    | some i =>
      if (tbl i).pid=pid then (update tbl i (killProc (tbl i)),0)
      else killLoop tbl pid (k+1) n

/-- kill of kernel/proc.c on a table: the new table and the return value. -/
def kill (tbl : Slot→Proc) (pid : ℤ) : (Slot→Proc)×ℤ := killLoop tbl pid 0 nproc

/-- A call of kill(pid) hits a live target: it returns 0 only with a process
of that pid that is not UNUSED, and changes no other slot. -/
def HitsLive (tbl : Slot→Proc) (pid : ℤ) : Prop :=
  (∃ i,(kill tbl pid).2=0 ∧ (tbl i).state≠.unused ∧ (tbl i).pid=pid ∧
    ∀ j,j≠i → (kill tbl pid).1 j=tbl j) ∨
  (kill tbl pid).2=-1 ∧ (kill tbl pid).1=tbl

variable {p' : Proc} {pc' : Pc} {pid : ℤ}

lemma killLoop_cases (tbl : Slot→Proc) (pid : ℤ) (k n : ℕ) (hn : k+n=nproc) :
    (∃ i : Slot,k≤ i.val ∧ (tbl i).pid=pid ∧
      killLoop tbl pid k n=(update tbl i (killProc (tbl i)),0)) ∨
    (∀ i : Slot,k≤ i.val → (tbl i).pid≠pid) ∧ killLoop tbl pid k n=(tbl,-1) := by
  induction n generalizing k with
  | zero =>
    refine Or.inr ⟨fun i hi => ?_,rfl⟩
    have := i.isLt
    omega
  | succ n ih =>
    have hk : slot? k=some ⟨k,by omega⟩ := dif_pos (by omega)
    rw [killLoop,hk]
    dsimp only
    by_cases hp : (tbl ⟨k,by omega⟩).pid=pid
    · grind
    · grind

lemma kill_cases (tbl : Slot→Proc) (pid : ℤ) :
    (∃ i,(tbl i).pid=pid ∧ kill tbl pid=(update tbl i (killProc (tbl i)),0)) ∨
    (∀ i,(tbl i).pid≠pid) ∧ kill tbl pid=(tbl,-1) := by
  rcases killLoop_cases tbl pid 0 nproc (Nat.zero_add _) with ⟨i,_,hp,he⟩|⟨hnone,he⟩
  · exact Or.inl ⟨i,hp,he⟩
  · exact Or.inr ⟨fun i => hnone i (Nat.zero_le _),he⟩

def embryo : Pc→Option (Slot×ℤ)
  | .forkLink np pid => some (np,pid)
  | .forkReady np pid => some (np,pid)
  | _ => none

/-- A call of kill marked the process in slot i with this pid after the
process was created. -/
def killedSince (i : Slot) : List Event→Option ℤ
  | [] => none
  | .killReturned _ pid j::rest => if j=i then some pid else killedSince i rest
  | .created j _::rest => if j=i then none else killedSince i rest
  | _::rest => killedSince i rest

/-- Events that are neither a creation nor a successful kill. -/
def unrelated : Event→Bool
  | .killReturned _ _ _ => false
  | .created _ _ => false
  | _ => true

lemma killedSince_unrelated {e : Event} (he : unrelated e=true) (i : Slot)
    (tr : List Event) : killedSince i (e::tr)=killedSince i tr := by
  cases e <;> first | rfl | simp only [unrelated,Bool.false_eq_true] at he

def Unmarked (s t : ProcSys) : Prop :=
  t.trace=s.trace ∨ ∃ e,unrelated e=true ∧ t.trace=e::s.trace

variable {s t : ProcSys}

lemma Unmarked.killedSince (h : Unmarked s t) (i : Slot) :
    killedSince i t.trace=killedSince i s.trace := by
  rcases h with ht|⟨e,he,ht⟩
  · rw [ht]
  · rw [ht,killedSince_unrelated he]

lemma Unmarked.not_killReturned (h : Unmarked s t) (c i : Slot) (pid : ℤ) :
    t.trace≠.killReturned c pid i::s.trace := by
  intro htr
  rcases h with ht|⟨e,he,ht⟩
  · grind [List.cons_ne_self]
  · grind [unrelated]

/-- A change of one slot that keeps its pid, its mark and whether it is UNUSED. -/
def Calm (p p' : Proc) : Prop :=
  p'.pid=p.pid ∧ p'.killed=p.killed ∧ (p'.state=.unused ↔ p.state=.unused)

structure CalmStep (s t : ProcSys) : Prop where
  proc : ∀ i,Calm (s.proc i) (t.proc i)
  nextpid : t.nextpid=s.nextpid
  embryo : ∀ w,embryo (t.pc w)=none ∨ embryo (t.pc w)=embryo (s.pc w)
  trace : Unmarked s t

variable {w i : Slot}

lemma calmStep_of_update (hproc : t.proc=update s.proc i p') (hcalm : Calm (s.proc i) p')
    (hnext : t.nextpid=s.nextpid) (hpc : t.pc=update s.pc w pc')
    (hemb : embryo pc'=none ∨ embryo pc'=embryo (s.pc w)) (htrace : Unmarked s t) :
    CalmStep s t := by
  refine ⟨fun j => ?_,hnext,fun v => ?_,htrace⟩
  · by_cases hj : j=i
    · rw [hproc,hj,update_self]
      exact hcalm
    · rw [hproc,update_of_ne hj]
      exact ⟨rfl,rfl,Iff.rfl⟩
  · by_cases hv : v=w
    · rw [hpc,hv,update_self]
      exact hemb
    · rw [hpc,update_of_ne hv]
      exact Or.inr rfl

lemma calmStep_of_pc (hproc : t.proc=s.proc) (hnext : t.nextpid=s.nextpid)
    (hpc : t.pc=update s.pc w pc') (hemb : embryo pc'=none ∨ embryo pc'=embryo (s.pc w))
    (htrace : Unmarked s t) : CalmStep s t :=
  calmStep_of_update (i:=w) (by rw [hproc,update_eq_self]) ⟨rfl,rfl,Iff.rfl⟩ hnext hpc
    hemb htrace

lemma calmStep_of_setProc (hcalm : Calm (s.proc i) p') : CalmStep s (setProc s i p') :=
  calmStep_of_update (w:=i) rfl hcalm rfl (update_eq_self i s.pc).symm (Or.inr rfl)
    (Or.inl rfl)

lemma calm_wakeup (pbs : Bool) (ticks : UInt32) (chan : Option Chan) (p : Proc) :
    Calm p (wakeupProc pbs ticks chan p) := by
  unfold wakeupProc
  split
  · rename_i h
    exact ⟨rfl,rfl,by simp only [h.1,reduceCtorEq]⟩
  · exact ⟨rfl,rfl,Iff.rfl⟩

lemma calm_of_states {p : Proc} (hpid : p'.pid=p.pid) (hkilled : p'.killed=p.killed)
    (hp : p.state≠.unused) (hp' : p'.state≠.unused) : Calm p p' :=
  ⟨hpid,hkilled,iff_of_false hp' hp⟩

variable {pbs : Bool}

lemma calmStep_wakeup {chan : Option Chan} {j : ℕ}
    {again after : Pc} (hagain : embryo again=none) (hafter : embryo after=none) :
    CalmStep s (wakeupStep pbs s w chan j again after) := by
  unfold wakeupStep
  cases hj : slot? j with
  | none => exact calmStep_of_pc rfl rfl rfl (Or.inl hafter) (Or.inl rfl)
  | some i =>
    dsimp only
    split_ifs with hi
    · exact calmStep_of_pc rfl rfl rfl (Or.inl hagain) (Or.inl rfl)
    · exact calmStep_of_update rfl (calm_wakeup pbs s.ticks chan _) rfl rfl (Or.inl hagain)
        (Or.inl rfl)

/-- allocproc took slot np for a fork by w that keeps it. -/
structure Creates (s t : ProcSys) (w np : Slot) : Prop where
  unused : (s.proc np).state=.unused
  proc : t.proc=update s.proc np (allocFound (s.proc np) s.nextpid s.ticks)
  nextpid : t.nextpid=s.nextpid+1
  embryo : embryo (t.pc w)=some (np,s.nextpid) ∧
    ∀ v,v≠w → embryo (t.pc v)=none ∨ embryo (t.pc v)=embryo (s.pc v)
  trace : t.trace=.created np s.nextpid::s.trace

/-- A slot that was UNUSED or ZOMBIE is emptied by freeproc. -/
structure Frees (s t : ProcSys) (i : Slot) : Prop where
  dead : (s.proc i).state=.unused ∨ (s.proc i).state=.zombie
  proc : ∃ p,t.proc=update s.proc i (freeproc p)
  nextpid : s.nextpid≤t.nextpid
  embryo : ∀ w,ProcKill.embryo (t.pc w)=none ∨ ProcKill.embryo (t.pc w)=ProcKill.embryo (s.pc w)
  trace : Unmarked s t

structure Marks (s t : ProcSys) (w i : Slot) (pid : ℤ) : Prop where
  search : s.pc w=.killScan pid i.val
  found : (s.proc i).pid=pid
  proc : t.proc=update s.proc i (killProc (s.proc i))
  nextpid : t.nextpid=s.nextpid
  embryo : ∀ v,ProcKill.embryo (t.pc v)=none ∨ ProcKill.embryo (t.pc v)=ProcKill.embryo (s.pc v)
  trace : t.trace=.killReturned w pid i::s.trace

lemma embryo_of_update (hpc : t.pc=update s.pc w pc') (h : embryo pc'=none) (v : Slot) :
    embryo (t.pc v)=none ∨ embryo (t.pc v)=embryo (s.pc v) := by
  by_cases hv : v=w
  · left
    rw [hpc,hv,update_self]
    exact h
  · right
    rw [hpc,update_of_ne hv]

lemma advance_cases {memory : Bool} (h : FamilyInv s)
    (hrun : (s.proc w).state=.running) (hs : advanceStep pbs s w memory=.next t) :
    CalmStep s t ∨ (∃ np,Creates s t w np) ∨ (∃ i,Frees s t i) ∨ ∃ i pid,Marks s t w i pid := by
  have hstate : ∀ st,alive st=false → (s.proc w).state≠st := by grind [alive]
  unfold advanceStep at hs
  cases hpc : s.pc w with
  | user =>
    simp only [hpc,reduceCtorEq] at hs
  | forkScan k =>
    simp only [hpc,Outcome.next.injEq,forkScanStep] at hs
    cases hk : slot? k with
    | none =>
      simp only [hk] at hs
      subst hs
      exact Or.inl (calmStep_of_pc rfl rfl rfl (Or.inl rfl) (Or.inr ⟨_,rfl,rfl⟩))
    | some np =>
      simp only [hk] at hs
      split_ifs at hs with hunused hmem
      · subst hs
        refine Or.inr (Or.inl ⟨np,hunused,rfl,rfl,⟨?_,fun v hv => ?_⟩,rfl⟩)
        · simp only [setPc,update_self,embryo]
        · simp only [setPc,update_of_ne hv]
          by_cases hnp : v=np
          · left
            rw [hnp,update_self]
            rfl
          · right
            rw [update_of_ne hnp]
            rfl
      · subst hs
        refine Or.inr (Or.inr (Or.inl ⟨np,Or.inl hunused,⟨_,rfl⟩,?_,
          embryo_of_update rfl rfl,Or.inr ⟨_,rfl,rfl⟩⟩))
        show s.nextpid≤ s.nextpid+1
        omega
      · subst hs
        exact Or.inl (calmStep_of_pc rfl rfl rfl (Or.inl rfl) (Or.inl rfl))
  | forkLink np pid =>
    simp only [hpc] at hs
    split_ifs at hs with hfree
    cases hs
    exact Or.inl (calmStep_of_update (i:=np) (w:=w) rfl ⟨rfl,rfl,Iff.rfl⟩ rfl rfl
      (Or.inr (by rw [hpc]; rfl)) (Or.inl rfl))
  | forkReady np pid =>
    simp only [hpc,Outcome.next.injEq] at hs
    subst hs
    have hused := h.embryo w np (by rw [hpc]; rfl)
    refine Or.inl (calmStep_of_update (i:=np) (w:=w) rfl (calm_of_states rfl rfl ?_ ?_) rfl rfl
      (Or.inl rfl) (Or.inr ⟨_,rfl,rfl⟩))
    · grind
    · grind
  | exitLock | waitLock =>
    simp only [hpc] at hs
    split_ifs at hs with hfree
    cases hs
    exact Or.inl (calmStep_of_pc rfl rfl rfl (Or.inl rfl) (Or.inl rfl))
  | exitReparent status k =>
    simp only [hpc,Outcome.next.injEq,reparentStep] at hs
    cases hk : slot? k with
    | none =>
      simp only [hk] at hs
      subst hs
      exact Or.inl (calmStep_of_pc rfl rfl rfl (Or.inl rfl) (Or.inl rfl))
    | some i =>
      simp only [hk] at hs
      split_ifs at hs with hp
      · subst hs
        exact Or.inl (calmStep_of_update (i:=i) (w:=w) rfl ⟨rfl,rfl,Iff.rfl⟩ rfl rfl (Or.inl rfl)
          (Or.inl rfl))
      · subst hs
        exact Or.inl (calmStep_of_pc rfl rfl rfl (Or.inl rfl) (Or.inl rfl))
  | exitReparentWake | exitWake =>
    simp only [hpc,Outcome.next.injEq] at hs
    exact Or.inl (hs ▸ calmStep_wakeup rfl rfl)
  | exitFinish status =>
    simp only [hpc,Outcome.next.injEq] at hs
    subst hs
    refine Or.inl (calmStep_of_update (i:=w) (w:=w) rfl (calm_of_states rfl rfl (hstate _ rfl) ?_)
      rfl rfl (Or.inl rfl) (Or.inr ⟨_,rfl,rfl⟩))
    simp only [exitProc,ne_eq,reduceCtorEq,not_false_eq_true]
  | waitScan addr k havekids =>
    simp only [hpc,Outcome.next.injEq,waitScanStep] at hs
    cases hk : slot? k with
    | none =>
      simp only [hk] at hs
      subst hs
      exact Or.inl (calmStep_of_pc rfl rfl rfl (Or.inl rfl) (Or.inl rfl))
    | some i =>
      simp only [hk] at hs
      by_cases hp : (s.proc i).parent=some w
      · rw [if_pos hp] at hs
        by_cases hz : (s.proc i).state=.zombie
        · rw [if_pos hz] at hs
          by_cases hbad : addr=.bad
          · rw [if_pos hbad] at hs
            subst hs
            exact Or.inl (calmStep_of_pc rfl rfl rfl (Or.inl rfl) (Or.inr ⟨_,rfl,rfl⟩))
          · rw [if_neg hbad] at hs
            subst hs
            exact Or.inr (Or.inr (Or.inl ⟨i,Or.inr hz,⟨_,rfl⟩,Int.le_refl _,
              embryo_of_update rfl rfl,Or.inr ⟨_,rfl,rfl⟩⟩))
        · rw [if_neg hz] at hs
          subst hs
          exact Or.inl (calmStep_of_pc rfl rfl rfl (Or.inl rfl) (Or.inl rfl))
      · rw [if_neg hp] at hs
        subst hs
        exact Or.inl (calmStep_of_pc rfl rfl rfl (Or.inl rfl) (Or.inl rfl))
  | waitCheck addr havekids =>
    simp only [hpc] at hs
    split_ifs at hs with hc
    · cases hs
      exact Or.inl (calmStep_of_pc rfl rfl rfl (Or.inl rfl) (Or.inr ⟨_,rfl,rfl⟩))
    · cases hs
      exact Or.inl (calmStep_of_pc rfl rfl rfl (Or.inl rfl) (Or.inl rfl))
  | waitSleep addr =>
    simp only [hpc,Outcome.next.injEq] at hs
    subst hs
    refine Or.inl (calmStep_of_update (i:=w) (w:=w) rfl (calm_of_states rfl rfl (hstate _ rfl) ?_)
      rfl rfl (Or.inl rfl) (Or.inl rfl))
    simp only [sleepProc,ne_eq,reduceCtorEq,not_false_eq_true]
  | killScan pid k =>
    simp only [hpc,Outcome.next.injEq,killScanStep] at hs
    cases hk : slot? k with
    | none =>
      simp only [hk] at hs
      subst hs
      exact Or.inl (calmStep_of_pc rfl rfl rfl (Or.inl rfl) (Or.inr ⟨_,rfl,rfl⟩))
    | some i =>
      have hik := slot?_eq_some hk
      simp only [hk] at hs
      split_ifs at hs with hp
      · subst hs
        exact Or.inr (Or.inr (Or.inr ⟨i,pid,by rw [hpc,hik],hp,rfl,rfl,embryo_of_update rfl rfl,
          rfl⟩))
      · subst hs
        exact Or.inl (calmStep_of_pc rfl rfl rfl (Or.inl rfl) (Or.inl rfl))

variable {a : ProcAction}

lemma step_cases (h : FamilyInv s) (hs : procStep pbs s a=.next t) :
    CalmStep s t ∨ (∃ w np,Creates s t w np) ∨ (∃ i,Frees s t i) ∨
      ∃ w memory i pid,a=.advance w memory ∧ Marks s t w i pid := by
  cases a with
  | call w c =>
    left
    simp only [procStep] at hs
    split_ifs at hs with hc
    cases c with
    | fork | wait | kill =>
      cases hs
      exact calmStep_of_pc rfl rfl rfl (Or.inl rfl) (Or.inl rfl)
    | exit status =>
      simp only [callStep] at hs
      split_ifs at hs
      cases hs
      exact calmStep_of_pc rfl rfl rfl (Or.inl rfl) (Or.inl rfl)
  | advance w memory =>
    simp only [procStep] at hs
    split_ifs at hs with hrun
    rcases advance_cases h hrun hs with hc|⟨np,hc⟩|⟨i,hf⟩|⟨i,pid,hm⟩
    · exact Or.inl hc
    · exact Or.inr (Or.inl ⟨w,np,hc⟩)
    · exact Or.inr (Or.inr (Or.inl ⟨i,hf⟩))
    · exact Or.inr (Or.inr (Or.inr ⟨w,memory,i,pid,rfl,hm⟩))
  | schedule w =>
    simp only [procStep] at hs
    split_ifs at hs with hrun
    cases hs
    refine Or.inl (calmStep_of_setProc (calm_of_states rfl rfl ?_ ?_))
    · simp only [hrun,ne_eq,reduceCtorEq,not_false_eq_true]
    · simp only [runProc,ne_eq,reduceCtorEq,not_false_eq_true]
  | yield w =>
    simp only [procStep] at hs
    split_ifs at hs with hrun
    cases hs
    refine Or.inl (calmStep_of_setProc (calm_of_states rfl rfl ?_ ?_))
    · simp only [hrun.1,ne_eq,reduceCtorEq,not_false_eq_true]
    · simp only [ne_eq,reduceCtorEq,not_false_eq_true]
  | sleepOn w addr =>
    simp only [procStep] at hs
    split_ifs at hs with hrun
    cases hs
    refine Or.inl (calmStep_of_setProc (calm_of_states rfl rfl ?_ ?_))
    · simp only [hrun.1,ne_eq,reduceCtorEq,not_false_eq_true]
    · simp only [sleepProc,ne_eq,reduceCtorEq,not_false_eq_true]
  | wakeOther addr i =>
    cases hs
    exact Or.inl (calmStep_of_setProc (calm_wakeup pbs _ _ _))
  | tick =>
    cases hs
    exact Or.inl ⟨fun i => ⟨rfl,rfl,Iff.rfl⟩,rfl,fun w => Or.inr rfl,Or.inl rfl⟩

structure PidInv (s : ProcSys) : Prop where
  unused : ∀ i,(s.proc i).state=.unused → (s.proc i).pid=0
  used : ∀ i,(s.proc i).state≠.unused → 1≤(s.proc i).pid
  nextpid : 1≤ s.nextpid
  embryo : ∀ w np pid,embryo (s.pc w)=some (np,pid) → (s.proc np).pid=pid

lemma pidInv_boot : PidInv bootSys := by
  have hother : ∀ i,i≠initproc → bootSys.proc i=zeroProc := by
    intro i hi
    simp only [bootSys,update_of_ne hi]
  have hinit : bootSys.proc initproc=firstProc := by
    simp only [bootSys,update_self]
  refine ⟨fun i hi => ?_,fun i hi => ?_,by decide,fun w np pid he => ?_⟩
  · by_cases hii : i=initproc
    · grind [firstProc]
    · rw [hother i hii]
      rfl
  · by_cases hii : i=initproc
    · rw [hii,hinit]
      decide
    · rw [hother i hii] at hi
      exact absurd rfl hi
  · simp only [bootSys,ProcKill.embryo,reduceCtorEq] at he

lemma child_of_embryo {pc : Pc} {np : Slot} (h : embryo pc=some (np,pid)) : child pc=some np := by
  cases pc <;> simp only [embryo,reduceCtorEq,Option.some.injEq,Prod.mk.injEq] at h <;>
    simp only [child,h.1]

lemma pidInv_step (hf : FamilyInv s)
    (h : PidInv s) (hs : procStep pbs s a=.next t) : PidInv t := by
  rcases step_cases hf hs with hc|⟨w,np,hc⟩|⟨i,hc⟩|⟨w,memory,i,pid,_,hc⟩
  · refine ⟨fun i hi => ?_,fun i hi => ?_,?_,fun w np pid he => ?_⟩
    · rw [(hc.proc i).1]
      exact h.unused i ((hc.proc i).2.2.mp hi)
    · rw [(hc.proc i).1]
      exact h.used i (fun hu => hi ((hc.proc i).2.2.mpr hu))
    · rw [hc.nextpid]
      exact h.nextpid
    · rw [(hc.proc np).1]
      grind [hc.embryo,h.embryo]
  · refine ⟨fun i hi => ?_,fun i hi => ?_,?_,fun v np' pid he => ?_⟩
    · by_cases hin : i=np
      · rw [hc.proc,hin,update_self] at hi
        simp only [allocFound,reduceCtorEq] at hi
      · rw [hc.proc,update_of_ne hin] at hi ⊢
        exact h.unused i hi
    · by_cases hin : i=np
      · rw [hc.proc,hin,update_self]
        exact h.nextpid
      · rw [hc.proc,update_of_ne hin] at hi ⊢
        exact h.used i hi
    · rw [hc.nextpid]
      have := h.nextpid
      omega
    · by_cases hv : v=w
      · rw [hv,hc.embryo.1,Option.some.injEq,Prod.mk.injEq] at he
        rw [hc.proc,← he.1,← he.2,update_self]
        rfl
      · rcases hc.embryo.2 v hv with hn|hsame
        · grind
        · rw [hsame] at he
          have hne : np'≠np := by
            rintro rfl
            have hu := hf.embryo v np' (child_of_embryo he)
            grind [hc.unused]
          rw [hc.proc,update_of_ne hne]
          exact h.embryo v np' pid he
  · obtain ⟨p,hp⟩ := hc.proc
    refine ⟨fun j hj => ?_,fun j hj => ?_,h.nextpid.trans hc.nextpid,fun v np pid he => ?_⟩
    · by_cases hji : j=i
      · rw [hp,hji,update_self]
        rfl
      · rw [hp,update_of_ne hji] at hj ⊢
        exact h.unused j hj
    · by_cases hji : j=i
      · rw [hp,hji,update_self] at hj
        exact absurd rfl hj
      · rw [hp,update_of_ne hji] at hj ⊢
        exact h.used j hj
    · rcases hc.embryo v with hn|hsame
      · grind
      · rw [hsame] at he
        have hne : np≠i := by
          rintro rfl
          have hu := hf.embryo v np (child_of_embryo he)
          grind [hc.dead]
        rw [hp,update_of_ne hne]
        exact h.embryo v np pid he
  · have hpid : ∀ j,(t.proc j).pid=(s.proc j).pid ∧
        ((t.proc j).state=.unused ↔ (s.proc j).state=.unused) := by
      intro j
      by_cases hji : j=i
      · rw [hc.proc,hji,update_self]
        refine ⟨rfl,?_⟩
        by_cases hsl : (s.proc i).state=.sleeping
        · simp only [killProc,hsl,if_true,reduceCtorEq]
        · simp only [killProc,if_neg hsl]
      · rw [hc.proc,update_of_ne hji]
        exact ⟨rfl,Iff.rfl⟩
    refine ⟨fun j hj => ?_,fun j hj => ?_,?_,fun v np pid' he => ?_⟩
    · grind [h.unused]
    · rw [(hpid j).1]
      exact h.used j (fun hu => hj ((hpid j).2.mpr hu))
    · rw [hc.nextpid]
      exact h.nextpid
    · rw [(hpid np).1]
      rcases hc.embryo v with hn|hsame
      · grind
      · exact h.embryo v np pid' (hsame ▸ he)

/-- On a table whose pids tell UNUSED slots apart, kill hits a live target
unless it looks for pid 0 and there is an UNUSED slot. -/
lemma hitsLive_iff (h : PidInv s) (pid : ℤ) :
    HitsLive s.proc pid ↔ pid≠0 ∨ ∀ i,(s.proc i).state≠.unused := by
  constructor
  · rintro (⟨i,_,hi,hp,_⟩|⟨hr,_⟩)
    · left
      have := h.used i hi
      omega
    · rcases kill_cases s.proc pid with ⟨j,_,hk⟩|⟨hnone,_⟩
      · rw [hk] at hr
        simp only [Int.reduceNeg,reduceCtorEq] at hr
      · by_cases hp : pid=0
        · exact Or.inr (fun i hi => hnone i (by rw [h.unused i hi,hp]))
        · exact Or.inl hp
  · intro hc
    rcases kill_cases s.proc pid with ⟨i,hp,hk⟩|⟨_,hk⟩
    · refine Or.inl ⟨i,by rw [hk],fun hu => ?_,hp,fun j hj => ?_⟩
      · grind [h.unused]
      · rw [hk]
        exact update_of_ne hj _ _
    · exact Or.inr ⟨by rw [hk],by rw [hk]⟩

lemma killScan_run (pbs : Bool) (k n : ℕ) (hn : k+n=nproc) (hrun : (s.proc w).state=.running)
    (hpc : s.pc w=.killScan pid k) :
    ∃ m t,run (procStep pbs) s (List.replicate m (.advance w true))=.next t ∧
      t.proc=(killLoop s.proc pid k n).1 ∧ t.pc=update s.pc w .user ∧
      ((killLoop s.proc pid k n).2=0 ∧ (∃ i,t.trace=.killReturned w pid i::s.trace) ∨
        (killLoop s.proc pid k n).2=-1 ∧ t.trace=.killFailed w pid::s.trace) := by
  induction n generalizing k s with
  | zero =>
    have hk : slot? k=none := dif_neg (by omega)
    refine ⟨1,finish s w (.killFailed w pid),?_,rfl,rfl,Or.inr ⟨rfl,rfl⟩⟩
    grind [run_cons,procStep,advanceStep,killScanStep,bind_next,run_nil]
  | succ n ih =>
    have hk : slot? k=some ⟨k,by omega⟩ := dif_pos (by omega)
    by_cases hp : (s.proc ⟨k,by omega⟩).pid=pid
    · refine ⟨1,finish (setProc s ⟨k,by omega⟩ (killProc (s.proc ⟨k,by omega⟩))) w
        (.killReturned w pid ⟨k,by omega⟩),?_,?_,rfl,Or.inl ⟨?_,_,rfl⟩⟩
      · grind [run_cons,procStep,advanceStep,killScanStep,bind_next,run_nil]
      · simp only [killLoop,hk,if_pos hp,finish,setPc,setProc]
      · simp only [killLoop,hk,if_pos hp]
    · obtain ⟨m,t,ht,hproc,hpc',hret⟩ := ih (s:=setPc s w (.killScan pid (k+1))) (k+1) (by omega)
        hrun (by simp only [setPc,update_self])
      refine ⟨m+1,t,?_,?_,?_,?_⟩
      · simp only [List.replicate,run_cons,procStep,if_pos hrun,advanceStep,hpc,killScanStep,hk,
          if_neg hp,bind_next]
        exact ht
      · rw [hproc]
        simp only [killLoop,hk,if_neg hp,setPc]
      · rw [hpc']
        simp only [setPc,update_idem]
      · simpa only [killLoop,hk,if_neg hp,setPc] using hret

structure TableInv (s : ProcSys) : Prop where
  family : FamilyInv s
  pids : PidInv s

lemma tableInv_step (h : TableInv s) (hs : procStep pbs s a=.next t) : TableInv t :=
  ⟨familyInv_step h.family hs,pidInv_step h.family h.pids hs⟩

lemma tableInv_run {as : List ProcAction}
    (hrun : run (procStep pbs) bootSys as=.next s) : TableInv s :=
  run_invariant (fun _ _ _ => tableInv_step) ⟨familyInv_boot,pidInv_boot⟩ hrun

/-- The condition under which marks stay with live processes: a search for
pid 0 does not look at an UNUSED slot. -/
def SparesUnused (s : ProcSys) : ProcAction→Prop
  | .advance w _ => ∀ i : Slot,s.pc w=.killScan 0 i.val → (s.proc i).state≠.unused
  | _ => True

structure MarkInv (s : ProcSys) : Prop where
  table : TableInv s
  unused : ∀ i,(s.proc i).state=.unused → (s.proc i).killed=false
  marked : ∀ i,(s.proc i).killed=true → killedSince i s.trace=some (s.proc i).pid

lemma markInv_boot : MarkInv bootSys := by
  have hkilled : ∀ i,(bootSys.proc i).killed=false := by
    intro i
    by_cases hi : i=initproc
    · rw [hi]
      simp only [bootSys,update_self,firstProc,allocFound,zeroProc]
    · simp only [bootSys,update_of_ne hi,zeroProc]
  refine ⟨⟨familyInv_boot,pidInv_boot⟩,fun i _ => hkilled i,fun i hi => ?_⟩
  grind

lemma markInv_step (h : MarkInv s)
    (hok : SparesUnused s a) (hs : procStep pbs s a=.next t) : MarkInv t := by
  have htable := tableInv_step h.table hs
  rcases step_cases h.table.family hs with hc|⟨w,np,hc⟩|⟨i,hc⟩|⟨w,memory,i,pid,rfl,hc⟩
  · refine ⟨htable,fun i hi => ?_,fun i hi => ?_⟩
    · rw [(hc.proc i).2.1]
      exact h.unused i ((hc.proc i).2.2.mp hi)
    · rw [(hc.proc i).2.1] at hi
      rw [hc.trace.killedSince,(hc.proc i).1]
      exact h.marked i hi
  · refine ⟨htable,fun i hi => ?_,fun i hi => ?_⟩
    · by_cases hin : i=np
      · rw [hc.proc,hin,update_self] at hi
        simp only [allocFound,reduceCtorEq] at hi
      · rw [hc.proc,update_of_ne hin] at hi ⊢
        exact h.unused i hi
    · by_cases hin : i=np
      · rw [hc.proc,hin,update_self] at hi
        have hclear : (allocFound (s.proc np) s.nextpid s.ticks).killed=false :=
          h.unused np hc.unused
        grind
      · rw [hc.proc,update_of_ne hin] at hi ⊢
        rw [hc.trace]
        simp only [killedSince,if_neg (Ne.symm hin)]
        exact h.marked i hi
  · obtain ⟨p,hproc⟩ := hc.proc
    refine ⟨htable,fun j hj => ?_,fun j hj => ?_⟩
    · by_cases hji : j=i
      · rw [hproc,hji,update_self]
        rfl
      · rw [hproc,update_of_ne hji] at hj ⊢
        exact h.unused j hj
    · by_cases hji : j=i
      · rw [hproc,hji,update_self] at hj
        grind [freeproc]
      · rw [hproc,update_of_ne hji] at hj ⊢
        rw [hc.trace.killedSince]
        exact h.marked j hj
  · have hlive : (s.proc i).state≠.unused := by
      intro hu
      have hzero : pid=0 := by rw [← hc.found,h.table.pids.unused i hu]
      exact hok i (by rw [hc.search,hzero]) hu
    refine ⟨htable,fun j hj => ?_,fun j hj => ?_⟩
    · by_cases hji : j=i
      · rw [hc.proc,hji,update_self] at hj
        by_cases hsl : (s.proc i).state=.sleeping
        · simp only [killProc,hsl,if_true,reduceCtorEq] at hj
        · simp only [killProc,if_neg hsl] at hj
          exact absurd hj hlive
      · rw [hc.proc,update_of_ne hji] at hj ⊢
        exact h.unused j hj
    · rw [hc.trace]
      by_cases hji : j=i
      · rw [hc.proc,hji,update_self]
        simp only [killedSince,if_true,killProc,hc.found]
      · rw [hc.proc,update_of_ne hji] at hj ⊢
        simp only [killedSince,if_neg (Ne.symm hji)]
        exact h.marked j hj

theorem kill_run (pid : ℤ) (hrun : (s.proc w).state=.running) (hpc : s.pc w=.user) :
    ∃ m t,run (procStep pbs) s (.call w (.kill pid)::List.replicate m (.advance w true))=.next t ∧
      t.proc=(kill s.proc pid).1 ∧ t.pc=s.pc ∧
      ((kill s.proc pid).2=0 ∧ (∃ i,t.trace=.killReturned w pid i::s.trace) ∨
        (kill s.proc pid).2=-1 ∧ t.trace=.killFailed w pid::s.trace) := by
  have hstart : (setPc s w (.killScan pid 0)).pc w=.killScan pid 0 := by
    simp only [setPc,update_self]
  obtain ⟨m,t,ht,hproc,hpc',hret⟩ := killScan_run
    (s:=setPc s w (.killScan pid 0)) pbs 0 nproc (Nat.zero_add _) hrun hstart
  refine ⟨m,t,?_,hproc,?_,hret⟩
  · simp only [run_cons,procStep,hrun,hpc,and_self,if_true,callStep,bind_next]
    exact ht
  · rw [hpc']
    simp only [setPc,update_idem]
    rw [← hpc,update_eq_self]

/-- The first process runs and kills itself. -/
theorem kill_run_init : ∃ s t m,run (procStep true) bootSys [.schedule initproc]=.next s ∧
    run (procStep true) s (.call initproc (.kill 1)::List.replicate m (.advance initproc true))=
      .next t ∧ (t.proc initproc).killed=true := by
  obtain ⟨s,hs,hobs⟩ := exists_of_state? (o:=run (procStep true) bootSys [.schedule initproc])
    (f:=fun s => ((s.proc initproc).state,decide (s.pc initproc=.user),
      ((kill s.proc 1).1 initproc).killed)) (v:=(.running,true,true)) (by decide +kernel)
  simp only [Prod.mk.injEq,decide_eq_true_eq] at hobs
  obtain ⟨m,t,ht,hproc,-⟩ := @kill_run s initproc true 1 hobs.1 hobs.2.1
  exact ⟨s,t,m,hs,ht,hproc ▸ hobs.2.2⟩

lemma marks_of_killReturned {c i : Slot} (hf : FamilyInv s) (hs : procStep pbs s a=.next t)
    (htr : t.trace=.killReturned c pid i::s.trace) :
    (∃ memory,a=.advance c memory) ∧ Marks s t c i pid := by
  rcases step_cases hf hs with hc|⟨w,np,hc⟩|⟨j,hc⟩|⟨w,memory,j,pid',rfl,hc⟩
  · exact absurd htr (hc.trace.not_killReturned c i pid)
  · grind [hc.trace]
  · exact absurd htr (hc.trace.not_killReturned c i pid)
  · have hmark := hc.trace
    rw [htr,List.cons.injEq,Event.killReturned.injEq] at hmark
    obtain ⟨⟨rfl,rfl,rfl⟩,_⟩ := hmark
    exact ⟨⟨memory,rfl⟩,hc⟩

lemma markInv_run {as : List ProcAction} (hok : Guarded (procStep pbs) SparesUnused bootSys as)
    (hrun : run (procStep pbs) bootSys as=.next s) : MarkInv s :=
  run_invariant_guarded (fun _ _ _ => markInv_step) markInv_boot hok hrun

/-- Where kill affects only a live target. In every reachable table kill(pid)
hits a live target or fails, unless pid is 0 and there is an UNUSED slot; the
same holds for each step of the interleaving that reports a successful kill.
On every run in which searches for pid 0 spare UNUSED slots, a mark was set by
kill on the marked process's own pid after its creation, so a process that
fork returns is not marked unless that happened. -/
theorem kill_hits_live_target (pbs : Bool) (as : List ProcAction) (s : ProcSys)
    (hrun : run (procStep pbs) bootSys as=.next s) :
    (∀ pid,HitsLive s.proc pid ↔ pid≠0 ∨ ∀ i,(s.proc i).state≠.unused) ∧
    (∀ a t c pid i,SparesUnused s a → procStep pbs s a=.next t →
      t.trace=.killReturned c pid i::s.trace →
      (s.proc i).state≠.unused ∧ (s.proc i).pid=pid ∧ ∀ j,j≠i → t.proc j=s.proc j) ∧
    (Guarded (procStep pbs) SparesUnused bootSys as →
      (∀ i,(s.proc i).killed=true →
        (s.proc i).state≠.unused ∧ killedSince i s.trace=some (s.proc i).pid) ∧
      ∀ w memory np pid t,s.pc w=.forkReady np pid →
        procStep pbs s (.advance w memory)=.next t →
        t.trace=.forkReturned w np pid::s.trace ∧ (t.proc np).pid=pid ∧
        ((t.proc np).killed=true → killedSince np t.trace=some pid)) := by
  obtain ⟨hfam,hpid⟩ := tableInv_run hrun
  refine ⟨hitsLive_iff hpid,fun a t c pid i hok hs htr => ?_,fun hg => ?_⟩
  · obtain ⟨⟨memory,rfl⟩,hm⟩ := marks_of_killReturned hfam hs htr
    refine ⟨fun hu => ?_,hm.found,fun j hj => ?_⟩
    · have hzero : pid=0 := by rw [← hm.found,hpid.unused i hu]
      exact hok i (by rw [hm.search,hzero]) hu
    · rw [hm.proc,update_of_ne hj]
  · have hmark := markInv_run hg hrun
    refine ⟨fun i hi => ⟨fun hu => ?_,hmark.marked i hi⟩,fun w memory np pid t hpc hs => ?_⟩
    · grind [hmark.unused]
    · have hp := hpid.embryo w np pid (by rw [hpc]; rfl)
      simp only [procStep] at hs
      split_ifs at hs with hr
      simp only [advanceStep,hpc,Outcome.next.injEq] at hs
      subst hs
      refine ⟨rfl,?_,fun hk => ?_⟩
      · simp only [finish,setPc,setProc,update_self,hp]
      · simp only [finish,setPc,setProc,update_self] at hk
        rw [← hp]
        exact hmark.marked np hk

def killZeroFork : List ProcAction :=
  [.schedule 0,.call 0 (.kill 0),.advance 0 true,.advance 0 true,.call 0 .fork]++
  List.replicate 4 (.advance 0 true)

/-- kill(0) succeeds although no process has pid 0, and the process that fork
returns next is marked although nobody killed it. -/
theorem kill_zero_marks_next_child :
    ((kill bootSys.proc 0).2=0 ∧ ∀ i,(bootSys.proc i).state≠.unused → (bootSys.proc i).pid≠0) ∧
    ∃ s,run (procStep false) bootSys killZeroFork=.next s ∧
      s.trace=[.forkReturned 0 1 2,.created 1 2,.killReturned 0 0 1] ∧
      (s.proc 1).killed=true ∧ (s.proc 1).pid=2 ∧ killedSince 1 s.trace=none := by
  have hobs : (run (procStep false) bootSys killZeroFork).state?.map
      (fun s => (s.trace,(s.proc 1).killed,(s.proc 1).pid))=
      some ([.forkReturned 0 1 2,.created 1 2,.killReturned 0 0 1],true,2) := by decide +kernel
  obtain ⟨s,hs,ho⟩ := exists_of_state? hobs
  simp only [Prod.mk.injEq] at ho
  refine ⟨⟨by decide +kernel,by decide +kernel⟩,s,hs,ho.1,ho.2.1,ho.2.2,?_⟩
  rw [ho.1]
  decide

def forkKill : List ProcAction :=
  [.schedule 0,.call 0 .fork]++List.replicate 4 (.advance 0 true)++
  [.call 0 (.kill 2)]++List.replicate 2 (.advance 0 true)

/-- On that run no search is for pid 0, and the child's mark is its own. -/
theorem forkKill_marks_child : ∃ s,run (procStep false) bootSys forkKill=.next s ∧
    (s.proc 1).killed=true ∧ (s.proc 1).state≠.unused ∧
    killedSince 1 s.trace=some (s.proc 1).pid := by
  have hobs : (run (procStep false) bootSys forkKill).state?.map (fun s => (s.proc 1).killed)=
      some true := by decide +kernel
  obtain ⟨s,hs,hk⟩ := exists_of_state? hobs
  have hok : Guarded (procStep false) SparesUnused bootSys forkKill := by
    refine guarded_of_check (k:=fun s a => match a with
      | .advance w _ => decide (∀ i : Slot,s.pc w=.killScan 0 i.val → (s.proc i).state≠.unused)
      | _ => true) (fun s a h => ?_) (by decide +kernel)
    cases a with
    | advance w memory =>
      simp only [decide_eq_true_eq] at h
      exact h
    | _ => trivial
  exact ⟨s,hs,hk,((kill_hits_live_target false forkKill s hs).2.2 hok).1 1 hk⟩

end Xv6Riscv.ProcKill
