import Xv6Riscv.ProcTimes
import Xv6Riscv.ProcKill

/-!
# What set_priority reports

set_priority looks for the first slot with the given pid, whatever its state,
and returns the static priority that it finds there as an int, or -1. UNUSED
slots have pid 0, and a static priority of 0xffffffff is -1 as an int. The table
is any that the process table, earlier calls of set_priority and the clock can
produce.
-/

namespace Xv6Riscv.PriorityReports

open Function
open Transition ProcMachine ProcTimes ProcWait ProcKill

def setPriorityResult (s : ProcSys) (pid : ℤ) : Int32 :=
  match findPid s.proc pid with
  | none => -1
  | some i => (s.proc i).staticPriority.toInt32

/-- sys_set_priority by process w, with the int it returns. Both arguments are
ints that are widened to uint64; so is p->pid when it is compared. -/
def sysSetPriority (s : ProcSys) (w : Slot) (priority pid : Int32) : ProcSys×Int32 :=
  (setPriority s w priority.toInt64.toUInt64 pid.toInt,setPriorityResult s pid.toInt)

def Present (s : ProcSys) (pid : ℤ) (i : Slot) : Prop :=
  (s.proc i).state≠.unused ∧ (s.proc i).pid=pid

/-- The table after static_priority, rtime and stime of slot i have changed. -/
def withPriority (s : ProcSys) (i : Slot) (staticPriority rtime stime : UInt32) : ProcSys :=
  setProc s i {s.proc i with staticPriority := staticPriority,rtime := rtime,stime := stime}

/-- Nothing but static_priority, rtime and stime of slot i has changed, apart
from the caller yielding. -/
def OnlyPriority (s t : ProcSys) (w i : Slot) : Prop :=
  ∃ staticPriority rtime stime,
    let u := withPriority s i staticPriority rtime stime
    t=u ∨ t=setProc u w {u.proc w with state := .runnable}

structure Reports (s : ProcSys) (w : Slot) (priority pid : Int32) : Prop where
  absent : (sysSetPriority s w priority pid).2=-1 ↔ ∀ i,¬Present s pid.toInt i
  present : ∀ i,Present s pid.toInt i→
    (sysSetPriority s w priority pid).2=(s.proc i).staticPriority.toInt32 ∧
      OnlyPriority s (sysSetPriority s w priority pid).1 w i

/-- No process with this pid has the static priority that reads as -1. If the pid
is 0, the first UNUSED slot, if any, has it. -/
def Unambiguous (s : ProcSys) (pid : ℤ) : Prop :=
  (∀ i,Present s pid i→(s.proc i).staticPriority≠0xffffffff) ∧
    (pid=0→∀ i,(s.proc i).state=.unused→(∀ j< i,(s.proc j).state≠.unused)→
      (s.proc i).staticPriority=0xffffffff)

section Pids

variable {s t : ProcSys}

/-- Processes that are there have pids of their own, all given out before. -/
structure UniqueInv (s : ProcSys) : Prop where
  below : ∀ i,(s.proc i).state≠.unused→(s.proc i).pid<s.nextpid
  unique : ∀ i j,(s.proc i).state≠.unused→(s.proc j).state≠.unused→
    (s.proc i).pid=(s.proc j).pid→i=j

/-- A table in which every slot has kept its pid and whether it is UNUSED. -/
def SamePids (s t : ProcSys) : Prop :=
  ∀ i,(t.proc i).pid=(s.proc i).pid ∧ ((t.proc i).state=.unused ↔ (s.proc i).state=.unused)

lemma samePids_setProc {i : Slot} {p' : Proc} (hpid : p'.pid=(s.proc i).pid)
    (hstate : p'.state=.unused ↔ (s.proc i).state=.unused) : SamePids s (setProc s i p') := by
  intro j
  grind

lemma UniqueInv.same (h : UniqueInv s) (hsame : SamePids s t) (hnext : t.nextpid=s.nextpid) :
    UniqueInv t := by
  have hused : ∀ i,(t.proc i).state≠.unused→(s.proc i).state≠.unused :=
    fun i hi hs => hi ((hsame i).2.mpr hs)
  refine ⟨fun i hi => ?_,fun i j hi hj hij => ?_⟩
  · rw [(hsame i).1,hnext]
    exact h.below i (hused i hi)
  · rw [(hsame i).1,(hsame j).1] at hij
    exact h.unique i j (hused i hi) (hused j hj) hij

lemma pidInv_same (h : PidInv s) (hsame : SamePids s t) (hnext : t.nextpid=s.nextpid)
    (hpc : t.pc=s.pc) : PidInv t := by
  refine ⟨fun i hi => ?_,fun i hi => ?_,hnext ▸ h.nextpid,fun w np pid he => ?_⟩
  · rw [(hsame i).1]
    exact h.unused i ((hsame i).2.mp hi)
  · rw [(hsame i).1]
    exact h.used i fun hs => hi ((hsame i).2.mpr hs)
  · rw [(hsame np).1]
    exact h.embryo w np pid (hpc ▸ he)

lemma UniqueInv.free (h : UniqueInv s) {i : Slot} {p : Proc}
    (hproc : t.proc=update s.proc i (freeproc p)) (hnext : s.nextpid≤t.nextpid) :
    UniqueInv t := by
  have hused : ∀ j,(t.proc j).state≠.unused→
      t.proc j=s.proc j ∧ (s.proc j).state≠.unused := by
    intro j hj
    by_cases hji : j=i
    · rw [hproc,hji,update_self] at hj
      exact absurd rfl hj
    · rw [hproc,update_of_ne hji] at hj ⊢
      exact ⟨rfl,hj⟩
  refine ⟨fun j hj => ?_,fun j k hj hk hjk => ?_⟩
  · obtain ⟨heq,hs⟩ := hused j hj
    rw [heq]
    exact (h.below j hs).trans_le hnext
  · grind [h.unique]

lemma UniqueInv.create (h : UniqueInv s) {w np : Slot} (hc : Creates s t w np) :
    UniqueInv t := by
  have hpid : ∀ j,(t.proc j).state≠.unused→
      j=np ∧ (t.proc j).pid=s.nextpid ∨ j≠np ∧ t.proc j=s.proc j ∧ (s.proc j).state≠.unused := by
    intro j hj
    by_cases hjn : j=np
    · rw [hc.proc,hjn,update_self]
      exact .inl ⟨rfl,rfl⟩
    · rw [hc.proc,update_of_ne hjn] at hj ⊢
      exact .inr ⟨hjn,rfl,hj⟩
  refine ⟨fun j hj => ?_,fun j k hj hk hjk => ?_⟩
  · rw [hc.nextpid]
    rcases hpid j hj with ⟨-,hp⟩|⟨-,hp,hs⟩
    · omega
    · have := h.below j hs
      rw [hp]
      omega
  · rcases hpid j hj with ⟨rfl,hp⟩|⟨-,hp,hs⟩ <;> rcases hpid k hk with ⟨rfl,hq⟩|⟨-,hq,hs'⟩
    · rfl
    · have := h.below k hs'
      rw [hp,hq] at hjk
      omega
    · have := h.below j hs
      rw [hp,hq] at hjk
      omega
    · grind [h.unique]

lemma UniqueInv.step {pbs : Bool} {a : ProcAction} (h : UniqueInv s) (hf : FamilyInv s)
    (hs : procStep pbs s a=.next t) : UniqueInv t := by
  rcases step_cases hf hs with hc|⟨w,np,hc⟩|⟨i,hc⟩|⟨w,memory,i,pid,_,hc⟩
  · exact h.same (fun i => ⟨(hc.proc i).1,(hc.proc i).2.2⟩) hc.nextpid
  · exact h.create hc
  · grind [hc.proc,h.free,hc.nextpid]
  · refine h.same (fun j => ?_) hc.nextpid
    have hkill : (killProc (s.proc i)).state=.unused ↔ (s.proc i).state=.unused := by
      by_cases hsl : (s.proc i).state=.sleeping
      · simp only [killProc,hsl,if_true,reduceCtorEq]
      · simp only [killProc,if_neg hsl]
    have hsame : SamePids s (setProc s i (killProc (s.proc i))) := samePids_setProc rfl hkill
    rw [hc.proc]
    exact hsame j

lemma uniqueInv_boot : UniqueInv bootSys := by
  have hused : ∀ i,(bootSys.proc i).state≠.unused→i=initproc ∧ (bootSys.proc i).pid=1 := by
    intro i hi
    by_cases hii : i=initproc
    · rw [hii]
      exact ⟨rfl,rfl⟩
    · simp only [bootSys,update_of_ne hii] at hi
      exact absurd rfl hi
  refine ⟨fun i hi => ?_,fun i j hi hj _ => ?_⟩
  · rw [(hused i hi).2]
    decide
  · grind

end Pids

section Reachable

variable {pbs : Bool} {s t : Timed}

/-- What holds of the table on every run of the timed machine. -/
structure TimedInv (s : ProcSys) : Prop where
  table : TableInv s
  unique : UniqueInv s

lemma TimedInv.setProc {s : ProcSys} (h : TimedInv s) {i : Slot} {p' : Proc}
    (hq : Quiet (s.proc i) p') (hpid : p'.pid=(s.proc i).pid)
    (hstate : p'.state=.unused ↔ (s.proc i).state=.unused) :
    TimedInv (ProcMachine.setProc s i p') := by
  have hsame := samePids_setProc hpid hstate
  exact ⟨⟨h.table.family.quiet hq,pidInv_same h.table.pids hsame rfl rfl⟩,h.unique.same hsame rfl⟩

lemma TimedInv.step {pbs : Bool} {s t : ProcSys} {a : ProcAction} (h : TimedInv s)
    (hs : procStep pbs s a=.next t) : TimedInv t :=
  ⟨tableInv_step h.table hs,h.unique.step h.table.family hs⟩

lemma TimedInv.setPriority {s : ProcSys} (h : TimedInv s) {w : Slot}
    (hrun : (s.proc w).state=.running) (priority : UInt64) (pid : ℤ) :
    TimedInv (ProcTimes.setPriority s w priority pid) := by
  rw [ProcTimes.setPriority]
  split
  · exact h
  · next i _ =>
    have hset : TimedInv (ProcMachine.setProc s i (setPriorityProc priority (s.proc i))) :=
      h.setProc ⟨rfl,.inr rfl,fun _ => ⟨rfl,rfl⟩⟩ rfl .rfl
    dsimp only
    split
    · have hw : ((ProcMachine.setProc s i (setPriorityProc priority (s.proc i))).proc w).state=
          .running := by
        grind [setPriorityProc]
      refine hset.setProc ⟨rfl,.inl ⟨?_,rfl⟩,fun _ => ⟨rfl,rfl⟩⟩ rfl ?_
      · rw [hw]
        rfl
      · simp only [hw,reduceCtorEq]
    · exact hset

lemma TimedInv.clockPiece (h : TimedInv s.sys) : TimedInv (ProcTimes.clockPiece s).sys := by
  rw [ProcTimes.clockPiece]
  split
  · exact h.step (show procStep false s.sys .tick=_ from rfl)
  · split
    · exact h.setProc ⟨rfl,.inr rfl,fun _ => ⟨rfl,rfl⟩⟩ rfl .rfl
    · exact h

lemma tableStep_sys {a : ProcAction} (ht : tableStep pbs s a=.next t) :
    procStep pbs s.sys a=.next t.sys := by grind [tableStep.eq_def,bind_eq_next]

lemma timedInv_step {a : TimedAction} (h : TimedInv s.sys)
    (ht : timedStep pbs clockPiece s a=.next t) : TimedInv t.sys := by
  cases a with
  | proc a => exact h.step (tableStep_sys ht)
  | setPriority w priority pid =>
    rw [timedStep] at ht
    split at ht
    · next hw =>
      cases ht
      exact h.setPriority hw.1 priority pid
    · cases ht
  | clock =>
    cases ht
    exact h.clockPiece

lemma timedInv_run {as : List TimedAction}
    (hrun : run (timedStep pbs clockPiece) bootTimed as=.next s) : TimedInv s.sys := by
  have hstep : ∀ s a t,TimedInv s.sys→timedStep pbs clockPiece s a=.next t→TimedInv t.sys :=
    fun _ _ _ => timedInv_step
  have hboot : TimedInv bootTimed.sys := ⟨⟨familyInv_boot,pidInv_boot⟩,uniqueInv_boot⟩
  exact run_invariant hstep hboot hrun

end Reachable

section Report

variable {s : ProcSys} {w : Slot} {priority pid : Int32} {i : Slot}

lemma toInt32_eq_neg_one (x : UInt32) : x.toInt32=-1 ↔ x=0xffffffff := by
  constructor
  · intro h
    exact congrArg Int32.toUInt32 h
  · rintro rfl
    rfl

lemma findPid_none {pid : ℤ} (h : findPid s.proc pid=none) (i : Slot) : (s.proc i).pid≠pid := by
  have := List.find?_eq_none.mp h i (List.mem_finRange i)
  simpa using this

lemma findPid_some {pid : ℤ} (h : findPid s.proc pid=some i) :
    (s.proc i).pid=pid ∧ ∀ j< i,(s.proc j).pid≠pid := by
  obtain ⟨hp,pre,suf,hsplit,hpre⟩ := List.find?_eq_some_iff_append.mp h
  refine ⟨by simpa using hp,fun j hj => ?_⟩
  have hmem : j∈pre++i::suf := hsplit ▸ List.mem_finRange j
  have hsorted := List.pairwise_lt_finRange nproc
  rw [hsplit] at hsorted
  rcases List.mem_append.mp hmem with hmem|hmem
  · simpa using hpre j hmem
  · exfalso
    rcases List.mem_cons.mp hmem with rfl|hmem
    · exact lt_irrefl _ hj
    · have := (List.pairwise_cons.mp (List.pairwise_append.mp hsorted).2.1).1 j hmem
      exact lt_asymm hj this

lemma setPriority_only {priority : UInt64} {pid : ℤ} (h : findPid s.proc pid=some i) :
    OnlyPriority s (setPriority s w priority pid) w i := by
  refine ⟨priority.toUInt32,0,0,?_⟩
  simp only [setPriority,h]
  split
  · exact .inr rfl
  · exact .inl rfl

lemma reports_of_none (h : findPid s.proc pid.toInt=none) : Reports s w priority pid := by
  have habsent : ∀ i,¬Present s pid.toInt i := fun i hi => findPid_none h i hi.2
  refine ⟨?_,fun i hi => absurd hi (habsent i)⟩
  grind [sysSetPriority,setPriorityResult]

lemma reports_of_unused (hinv : TimedInv s) (h : findPid s.proc pid.toInt=some i)
    (hi : (s.proc i).state=.unused) :
    Reports s w priority pid ↔ (s.proc i).staticPriority=0xffffffff := by
  have hpid : (s.proc i).pid=pid.toInt := (findPid_some h).1
  have habsent : ∀ j,¬Present s pid.toInt j := by
    intro j hj
    have hpos := hinv.table.pids.used j hj.1
    rw [hj.2,←hpid,hinv.table.pids.unused i hi] at hpos
    omega
  have hresult : (sysSetPriority s w priority pid).2=(s.proc i).staticPriority.toInt32 := by
    simp only [sysSetPriority,setPriorityResult,h]
  rw [←toInt32_eq_neg_one,←hresult]
  exact ⟨fun hr => hr.absent.mpr habsent,
    fun hr => ⟨⟨fun _ => habsent,fun _ => hr⟩,fun j hj => absurd hj (habsent j)⟩⟩

lemma reports_of_used (hinv : TimedInv s) (h : findPid s.proc pid.toInt=some i)
    (hi : (s.proc i).state≠.unused) :
    Reports s w priority pid ↔ (s.proc i).staticPriority≠0xffffffff := by
  have hthere : Present s pid.toInt i := ⟨hi,(findPid_some h).1⟩
  have hresult : (sysSetPriority s w priority pid).2=(s.proc i).staticPriority.toInt32 := by
    simp only [sysSetPriority,setPriorityResult,h]
  have honly : ∀ j,Present s pid.toInt j→j=i :=
    fun j hj => hinv.unique.unique j i hj.1 hi (hj.2.trans hthere.2.symm)
  rw [ne_eq,←toInt32_eq_neg_one,←hresult]
  constructor
  · exact fun hr heq => hr.absent.mp heq i hthere
  · intro hne
    refine ⟨⟨fun heq => absurd heq hne,fun hall => absurd hthere (hall i)⟩,fun j hj => ?_⟩
    rw [honly j hj]
    exact ⟨hresult,setPriority_only h⟩

lemma TimedInv.reports_iff (hinv : TimedInv s) :
    Reports s w priority pid ↔ Unambiguous s pid.toInt := by
  cases hf : findPid s.proc pid.toInt with
  | none =>
    refine iff_of_true (reports_of_none hf) ⟨fun i hi => absurd hi.2 (findPid_none hf i),?_⟩
    intro hzero i hi
    exact absurd ((hinv.table.pids.unused i hi).trans hzero.symm) (findPid_none hf i)
  | some i =>
    obtain ⟨hpid,hfirst⟩ := findPid_some hf
    by_cases hi : (s.proc i).state=.unused
    · have hzero : pid.toInt=0 := hpid.symm.trans (hinv.table.pids.unused i hi)
      have hbefore : ∀ j< i,(s.proc j).state≠.unused :=
        fun j hj hu => hfirst j hj ((hinv.table.pids.unused j hu).trans hzero.symm)
      rw [reports_of_unused hinv hf hi]
      constructor
      · intro hsp
        refine ⟨fun j hj => ?_,fun _ j hj hbefore' => ?_⟩
        · have hpos := hinv.table.pids.used j hj.1
          rw [hj.2,hzero] at hpos
          omega
        · grind
      · exact fun hu => hu.2 hzero i hi hbefore
    · rw [reports_of_used hinv hf hi]
      constructor
      · intro hsp
        refine ⟨fun j hj => ?_,fun hzero => ?_⟩
        · rw [hinv.unique.unique j i hj.1 hi (hj.2.trans hpid.symm)]
          exact hsp
        · have hpos := hinv.table.pids.used i hi
          rw [hpid,hzero] at hpos
          omega
      · exact fun hu => hu.1 i ⟨hi,hpid⟩

/-- On every reachable table, for every caller, priority and pid, set_priority
reports absence exactly and changes only its target, if and only if no process
with that pid has the static priority 0xffffffff and, for pid 0, the first
UNUSED slot, if any, has it. -/
theorem set_priority_reports_iff (pbs : Bool) (as : List TimedAction) (s : Timed)
    (hrun : run (timedStep pbs clockPiece) bootTimed as=.next s) (w : Slot)
    (priority pid : Int32) : Reports s.sys w priority pid ↔ Unambiguous s.sys pid.toInt :=
  (timedInv_run hrun).reports_iff

/-- The first process raises its own priority as soon as it runs. -/
theorem first_process_reported : ∃ s,
    run (timedStep true clockPiece) bootTimed [.proc (.schedule 0)]=.next s ∧
      Reports s.sys 0 60 1 := by
  refine ⟨_,rfl,(set_priority_reports_iff true [.proc (.schedule 0)] _ rfl 0 60 1).mpr ⟨?_,?_⟩⟩
  · intro i hi
    by_cases hi0 : i=0
    · subst hi0
      decide
    · exact absurd (show zeroProc.state=.unused from rfl)
        (by simpa [bootTimed,bootSys,initproc,setProc,hi0] using hi.1)
  · exact fun h => absurd h (by decide)

/-- The first process sets its own priority to -1, which makes it yield. -/
def storesMinusOne : List TimedAction :=
  [.proc (.schedule 0),.setPriority 0 0xffffffffffffffff 1,.proc (.schedule 0)]

/-- From then on the call reports -1 for this process, which is there, and
reports 0 for pid 0, which no process has. -/
theorem set_priority_misreports : ∃ s,
    run (timedStep true clockPiece) bootTimed storesMinusOne=.next s ∧
      ((sysSetPriority s.sys 0 60 1).2=-1 ∧ Present s.sys 1 0 ∧ ¬Reports s.sys 0 60 1) ∧
      (sysSetPriority s.sys 0 60 0).2=0 ∧ ¬Reports s.sys 0 60 0 := by
  have hobs : (run (timedStep true clockPiece) bootTimed storesMinusOne).state?.map (fun s =>
      ((sysSetPriority s.sys 0 60 1).2,(s.sys.proc 0).state,(s.sys.proc 0).pid,
        (sysSetPriority s.sys 0 60 0).2))=some (-1,.running,1,0) := by
    decide +kernel
  obtain ⟨s,hs,hv⟩ := exists_of_state? hobs
  simp only [Prod.mk.injEq] at hv
  obtain ⟨hone,hstate,hpid,hzero⟩ := hv
  have hthere : Present s.sys 1 0 := ⟨by simp [hstate],hpid⟩
  refine ⟨s,hs,⟨hone,hthere,fun hr => hr.absent.mp hone 0 hthere⟩,hzero,fun hr => ?_⟩
  have habsent : ∀ i,¬Present s.sys 0 i := by
    intro i hi
    have hpos := (timedInv_run hs).table.pids.used i hi.1
    rw [hi.2] at hpos
    omega
  grind [hr.absent]

end Report

end Xv6Riscv.PriorityReports
