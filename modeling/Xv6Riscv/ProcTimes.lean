import Xv6Riscv.ProcMachine

/-!
# Run time and waiting time of processes

clockintr counts ticks and lets update_time charge one tick to every RUNNING
process. allocproc stamps a process with ticks, exit stamps it again, and
waitx hands out the charged ticks and the rest of the process's life. The
fields are also those of the priority formula: set_priority starts the charge
of its target anew.

The machine is the process table with a clock. wait and waitx run the same
scan; the values that waitx stores are recorded each time a scan meets a ZOMBIE
child. clockintr is taken as one step, or piece by piece with everything else
in between. The number of ticks that found the process in a slot RUNNING is
specification state.
-/

namespace Xv6Riscv.ProcTimes

open Function
open Transition ProcMachine

/-- What waitx stores for a ZOMBIE child, with the fields it reads. -/
structure Stored where
  slot : Slot
  ctime : UInt32
  etime : UInt32
  rtime : UInt32
  wtime : UInt32
  ran : ℕ
  deriving DecidableEq

structure Timed where
  sys : ProcSys
  clock : Option ℕ
  ran : Slot→ℕ
  stored : List Stored

/-- The table after userinit, before the first clock interrupt. -/
def bootTimed : Timed := ⟨bootSys,none,fun _ => 0,[]⟩

def updateTime (p : Proc) : Proc :=
  {p with
    rtime := if p.state=.running then p.rtime+1 else p.rtime
    wtime := if p.state=.runnable then p.wtime+1 else p.wtime}

def ticksChan : Chan := .other 0

def clockintr (pbs : Bool) (s : Timed) : Timed :=
  let ticks := s.sys.ticks+1
  {s with
    sys := {s.sys with
      ticks := ticks
      proc := fun i => wakeupProc pbs ticks (some ticksChan) (updateTime (s.sys.proc i))}
    ran := fun i => if (s.sys.proc i).state=.running then s.ran i+1 else s.ran i}

/-- The next piece of clockintr: the count, one slot of update_time, or the
return. Its wakeup looks at the slots like any other wakeup. -/
def clockPiece (s : Timed) : Timed :=
  match s.clock with
  | none => {s with sys := {s.sys with ticks := s.sys.ticks+1},clock := some 0}
  | some k =>
    match slot? k with
    | some i =>
      {s with
        sys := setProc s.sys i (updateTime (s.sys.proc i))
        clock := some (k+1)
        ran := if (s.sys.proc i).state=.running then update s.ran i (s.ran i+1) else s.ran}
    | none => {s with clock := none}

/-- The rbi that set_priority computes. The products and quotients are
unsigned; only the result is taken as an int. -/
def setPriorityRbi (p : Proc) : Int32 :=
  if p.rtime+p.stime≠0 then
    let val := (divu (3*p.rtime-p.stime-p.wtime) (p.rtime+p.stime+p.wtime+1)*
      defaultPriority).toInt32
    if 0<val then val else 0
  else 25

/-- set_priority's dynamic priority for the old static priority, an int. -/
def oldPriority (p : Proc) : Int32 :=
  let value := if p.staticPriority.toInt32+setPriorityRbi p<100 then
    p.staticPriority.toInt32+setPriorityRbi p else 100
  if 0<value then value else 0

/-- set_priority's dynamic priority for the new priority, a uint64. -/
def newPriority (priority : UInt64) (p : Proc) : Int32 :=
  let rbi := (setPriorityRbi p).toInt64.toUInt64
  let value := if priority+rbi<100 then (priority+rbi).toUInt32.toInt32 else 100
  if 0<value then value else 0

def setPriorityProc (priority : UInt64) (p : Proc) : Proc :=
  {p with staticPriority := priority.toUInt32,rtime := 0,stime := 0}

def findPid (tbl : Slot→Proc) (pid : ℤ) : Option Slot :=
  (List.finRange nproc).find? fun i => (tbl i).pid=pid

/-- set_priority by process w. The caller yields if its target's dynamic
priority has become smaller. -/
def setPriority (s : ProcSys) (w : Slot) (priority : UInt64) (pid : ℤ) : ProcSys :=
  match findPid s.proc pid with
  | none => s
  | some i =>
    let s' := setProc s i (setPriorityProc priority (s.proc i))
    if oldPriority (s.proc i)>newPriority priority (s.proc i) then
      setProc s' w {s'.proc w with state := .runnable}
    else s'

/-- The slot in which allocproc creates a process in this step. -/
def taken (s : ProcSys) : ProcAction→Option Slot
  | .advance w _ =>
    match s.pc w with
    | .forkScan k =>
      match slot? k with
      | some np => if (s.proc np).state=.unused then some np else none
      | none => none
    | _ => none
  | _ => none

/-- The ZOMBIE child that a scan of waitx meets in this step. -/
def met (s : ProcSys) : ProcAction→Option Slot
  | .advance w _ =>
    match s.pc w with
    | .waitScan _ k _ =>
      match slot? k with
      | some i => if (s.proc i).parent=some w ∧ (s.proc i).state=.zombie then some i else none
      | none => none
    | _ => none
  | _ => none

def waitxStores (s : Timed) (i : Slot) : Stored :=
  let p := s.sys.proc i
  ⟨i,p.ctime,p.etime,p.rtime,p.etime-p.ctime-p.rtime,s.ran i⟩

inductive TimedAction where
  | proc (a : ProcAction)
  | setPriority (w : Slot) (priority : UInt64) (pid : ℤ)
  | clock

/-- A step of the process table, with what waitx stores in it. -/
def tableStep (pbs : Bool) (s : Timed) (a : ProcAction) : Outcome Timed :=
  match a with
  | .tick => .blocked
  | a =>
    (procStep pbs s.sys a).bind fun sys => .next {s with
      sys := sys
      ran := match taken s.sys a with
        | some np => update s.ran np 0
        | none => s.ran
      stored := match met s.sys a with
        | some i => waitxStores s i::s.stored
        | none => s.stored}

/-- The machine whose clock interrupt is the function clock. -/
def timedStep (pbs : Bool) (clock : Timed→Timed) (s : Timed) : TimedAction→Outcome Timed
  | .proc a => tableStep pbs s a
  | .setPriority w priority pid =>
    if (s.sys.proc w).state=.running ∧ s.sys.pc w=.user then
      .next {s with sys := setPriority s.sys w priority pid}
    else .blocked
  | .clock => .next (clock s)

/-! ### What a step does to the times of a slot -/

/-- The times of a slot under a step of the process table. -/
inductive TimeMove (now : UInt32) (p p' : Proc) : Bool→Prop where
  | kept : p'.rtime=p.rtime→p'.ctime=p.ctime→p'.etime=p.etime→
      (p'.state=.zombie→p.state=.zombie)→TimeMove now p p' false
  | exited : p'.rtime=p.rtime→p'.ctime=p.ctime→p'.etime=now→TimeMove now p p' false
  | created : p'.rtime=0→p'.ctime=now→p'.state≠.zombie→TimeMove now p p' true

variable {pbs : Bool} {s : Timed}

lemma TimeMove.refl (now : UInt32) (p : Proc) : TimeMove now p p false :=
  .kept rfl rfl rfl id

lemma timeMove_update {now : UInt32} {proc : Slot→Proc} {i : Slot} {p' : Proc} {fresh : Bool}
    (h : TimeMove now (proc i) p' fresh) (j : Slot) :
    TimeMove now (proc j) (update proc i p' j) (fresh && decide (i=j)) := by
  by_cases hj : j=i
  · subst hj
    simpa only [decide_true,Bool.and_true,update_self] using h
  · have hne : i≠j := fun heq => hj heq.symm
    simp only [hne,decide_false,Bool.and_false,update_of_ne hj]
    exact .refl now (proc j)

def Moves (now : UInt32) (proc proc' : Slot→Proc) (taken : Option Slot) : Prop :=
  ∀ j,TimeMove now (proc j) (proc' j) (decide (taken=some j))

lemma moves_refl (now : UInt32) (proc : Slot→Proc) : Moves now proc proc none := by
  intro j
  exact .refl now (proc j)

lemma moves_update {now : UInt32} {proc : Slot→Proc} {i : Slot} {p' : Proc}
    (h : TimeMove now (proc i) p' false) : Moves now proc (update proc i p') none := by
  intro j
  exact timeMove_update h j

lemma timeMove_wakeup (pbs : Bool) (ticks now : UInt32) (chan : Option Chan) (p : Proc) :
    TimeMove now p (wakeupProc pbs ticks chan p) false := by
  unfold wakeupProc
  split
  · exact .kept rfl rfl rfl fun h => by simp only [reduceCtorEq] at h
  · exact .refl now p

lemma timeMove_kill (now : UInt32) (p : Proc) : TimeMove now p (killProc p) false := by
  refine .kept rfl rfl rfl fun h => ?_
  grind [killProc]

lemma moves_forkScan (s : ProcSys) (w : Slot) (k : ℕ) (memory : Bool) :
    Moves s.ticks s.proc (forkScanStep s w k memory).proc
      (match slot? k with
        | some np => if (s.proc np).state=.unused then some np else none
        | none => none) := by
  unfold forkScanStep
  cases slot? k with
  | none => exact moves_refl s.ticks s.proc
  | some np =>
    dsimp only
    split_ifs with hu hm
    · intro j
      have hnew : TimeMove s.ticks (s.proc np) (allocFound (s.proc np) s.nextpid s.ticks) true :=
        .created rfl rfl (by simp [allocFound])
      have hmove := timeMove_update hnew j
      simp only [Bool.true_and] at hmove
      simp only [Option.some.injEq]
      exact hmove
    · intro j
      have hnew : TimeMove s.ticks (s.proc np)
          (freeproc (allocFound (s.proc np) s.nextpid s.ticks)) true :=
        .created rfl rfl (by simp [freeproc])
      have hmove := timeMove_update hnew j
      simp only [Bool.true_and] at hmove
      simp only [Option.some.injEq]
      exact hmove
    · exact moves_refl s.ticks s.proc

lemma moves_wakeup (pbs : Bool) (s : ProcSys) (w : Slot) (chan : Option Chan) (j : ℕ)
    (again after : Pc) :
    Moves s.ticks s.proc (wakeupStep pbs s w chan j again after).proc none := by
  unfold wakeupStep
  cases slot? j with
  | none => exact moves_refl s.ticks s.proc
  | some i =>
    dsimp only
    split_ifs
    · exact moves_refl s.ticks s.proc
    · exact moves_update (timeMove_wakeup pbs s.ticks s.ticks chan (s.proc i))

lemma moves_advance {s t : ProcSys} {w : Slot} {memory : Bool}
    (ht : advanceStep pbs s w memory=.next t) :
    t.ticks=s.ticks ∧ Moves s.ticks s.proc t.proc (taken s (.advance w memory)) := by
  unfold advanceStep at ht
  split at ht <;> rename_i hpc <;> (try split_ifs at ht) <;>
    simp only [Outcome.next.injEq,reduceCtorEq] at ht <;> subst ht <;>
    simp only [taken,hpc]
  · refine ⟨?_,moves_forkScan s w _ memory⟩
    unfold forkScanStep
    split
    · rfl
    · dsimp only
      split_ifs <;> rfl
  · exact ⟨rfl,moves_update (.kept rfl rfl rfl id)⟩
  · exact ⟨rfl,moves_update (.kept rfl rfl rfl fun h => by simp only [reduceCtorEq] at h)⟩
  · exact ⟨rfl,moves_refl _ _⟩
  · unfold reparentStep
    split
    · exact ⟨rfl,moves_refl _ _⟩
    · split_ifs
      · exact ⟨rfl,moves_update (.kept rfl rfl rfl id)⟩
      · exact ⟨rfl,moves_refl _ _⟩
  · refine ⟨?_,moves_wakeup pbs s w _ _ _ _⟩
    unfold wakeupStep
    split
    · rfl
    · split_ifs <;> rfl
  · refine ⟨?_,moves_wakeup pbs s w _ _ _ _⟩
    unfold wakeupStep
    split
    · rfl
    · split_ifs <;> rfl
  · exact ⟨rfl,moves_update (.exited rfl rfl rfl)⟩
  · exact ⟨rfl,moves_refl _ _⟩
  · unfold waitScanStep
    split
    · exact ⟨rfl,moves_refl _ _⟩
    · split_ifs
      · exact ⟨rfl,moves_refl _ _⟩
      · exact ⟨rfl,moves_update (.kept rfl rfl rfl fun h => by simp only [freeproc,reduceCtorEq] at h)⟩
      · exact ⟨rfl,moves_update (.kept rfl rfl rfl fun h => by simp only [freeproc,reduceCtorEq] at h)⟩
      · exact ⟨rfl,moves_refl _ _⟩
      · exact ⟨rfl,moves_refl _ _⟩
  · exact ⟨rfl,moves_refl _ _⟩
  · exact ⟨rfl,moves_refl _ _⟩
  · exact ⟨rfl,moves_update (.kept rfl rfl rfl fun h => by simp only [sleepProc,reduceCtorEq] at h)⟩
  · unfold killScanStep
    split
    · exact ⟨rfl,moves_refl _ _⟩
    · split_ifs
      · exact ⟨rfl,moves_update (timeMove_kill s.ticks _)⟩
      · exact ⟨rfl,moves_refl _ _⟩

lemma moves_procStep {s t : ProcSys} {a : ProcAction} (ha : a≠.tick)
    (ht : procStep pbs s a=.next t) :
    t.ticks=s.ticks ∧ Moves s.ticks s.proc t.proc (taken s a) := by
  cases a with
  | call w c =>
    simp only [procStep] at ht
    split_ifs at ht
    unfold callStep at ht
    split at ht <;> (try split_ifs at ht) <;> cases ht <;>
      exact ⟨rfl,moves_refl _ _⟩
  | advance w memory =>
    simp only [procStep] at ht
    split_ifs at ht
    exact moves_advance ht
  | schedule w =>
    simp only [procStep] at ht
    split_ifs at ht
    cases ht
    exact ⟨rfl,moves_update (.kept rfl rfl rfl fun h => by simp only [runProc,reduceCtorEq] at h)⟩
  | yield w =>
    simp only [procStep] at ht
    split_ifs at ht
    cases ht
    exact ⟨rfl,moves_update (.kept rfl rfl rfl fun h => by simp only [reduceCtorEq] at h)⟩
  | sleepOn w addr =>
    simp only [procStep] at ht
    split_ifs at ht
    cases ht
    exact ⟨rfl,moves_update (.kept rfl rfl rfl fun h => by simp only [sleepProc,reduceCtorEq] at h)⟩
  | wakeOther addr i =>
    simp only [procStep,Outcome.next.injEq] at ht
    subst ht
    exact ⟨rfl,moves_update (timeMove_wakeup pbs s.ticks s.ticks _ _)⟩
  | tick => exact absurd rfl ha

lemma tableStep_spec {t : Timed} {a : ProcAction} (ht : tableStep pbs s a=.next t) :
    t.sys.ticks=s.sys.ticks ∧ Moves s.sys.ticks s.sys.proc t.sys.proc (taken s.sys a) ∧
    t.clock=s.clock ∧
    t.ran=(match taken s.sys a with
      | some np => update s.ran np 0
      | none => s.ran) ∧
    (t.stored=s.stored ∨ ∃ i,(s.sys.proc i).state=.zombie ∧
      t.stored=waitxStores s i::s.stored) := by
  have ha : a≠.tick := by grind [tableStep]
  have hbind : (procStep pbs s.sys a).bind (fun sys => .next {s with
      sys := sys
      ran := match taken s.sys a with
        | some np => update s.ran np 0
        | none => s.ran
      stored := match met s.sys a with
        | some i => waitxStores s i::s.stored
        | none => s.stored})=.next t := by
    cases a <;> first | exact ht | exact absurd rfl ha
  obtain ⟨sys,hsys,ht⟩ := bind_eq_next.mp hbind
  cases ht
  obtain ⟨hticks,hmoves⟩ := moves_procStep ha hsys
  refine ⟨hticks,hmoves,rfl,rfl,?_⟩
  dsimp only
  cases hm : met s.sys a with
  | none => exact Or.inl rfl
  | some i =>
    refine Or.inr ⟨i,?_,rfl⟩
    unfold met at hm
    split at hm
    · split at hm
      · split at hm
        · split_ifs at hm with hz
          exact Option.some.inj hm ▸ hz.2
        · simp only [reduceCtorEq] at hm
      · simp only [reduceCtorEq] at hm
    · simp only [reduceCtorEq] at hm

lemma setPriority_times (s : ProcSys) (w : Slot) (priority : UInt64) (pid : ℤ) (j : Slot) :
    (((setPriority s w priority pid).proc j).rtime=(s.proc j).rtime ∨
      findPid s.proc pid=some j ∧ ((setPriority s w priority pid).proc j).rtime=0) ∧
    ((setPriority s w priority pid).proc j).ctime=(s.proc j).ctime ∧
    ((setPriority s w priority pid).proc j).etime=(s.proc j).etime ∧
    (((setPriority s w priority pid).proc j).state=.zombie→(s.proc j).state=.zombie) ∧
    (setPriority s w priority pid).ticks=s.ticks := by
  unfold setPriority
  cases hf : findPid s.proc pid with
  | none => exact ⟨Or.inl rfl,rfl,rfl,id,rfl⟩
  | some i =>
    have hset : ∀ j,((update s.proc i (setPriorityProc priority (s.proc i)) j).rtime=
          (s.proc j).rtime ∨ some i=some j ∧
          (update s.proc i (setPriorityProc priority (s.proc i)) j).rtime=0) ∧
        (update s.proc i (setPriorityProc priority (s.proc i)) j).ctime=(s.proc j).ctime ∧
        (update s.proc i (setPriorityProc priority (s.proc i)) j).etime=(s.proc j).etime ∧
        (update s.proc i (setPriorityProc priority (s.proc i)) j).state=
          (s.proc j).state := by
      intro j
      by_cases hj : j=i
      · subst hj
        rw [update_self]
        exact ⟨Or.inr ⟨rfl,rfl⟩,rfl,rfl,rfl⟩
      · grind
    obtain ⟨hr,hc,he,hz⟩ := hset j
    dsimp only
    split_ifs
    · by_cases hw : j=w
      · subst hw
        simp only [setProc,update_self]
        exact ⟨hr,hc,he,fun h => by simp only [reduceCtorEq] at h,trivial⟩
      · simp only [setProc,update_of_ne hw]
        exact ⟨hr,hc,he,fun h => hz ▸ h,trivial⟩
    · exact ⟨hr,hc,he,fun h => hz ▸ h,rfl⟩

/-! ### Run time -/

/-- The charge of every slot is the number of ticks that found its process
RUNNING, and so is every charge that waitx has stored. -/
structure RanInv (s : Timed) : Prop where
  table : ∀ i,(s.sys.proc i).rtime.toNat=s.ran i
  stored : ∀ x∈s.stored,x.rtime.toNat=x.ran

/-- set_priority finds no slot or one without a charge, and the clock finds no
charge at its maximum. -/
def KeepsCharge (s : Timed) : TimedAction→Prop
  | .proc _ => True
  | .setPriority _ _ pid => ∀ i,findPid s.sys.proc pid=some i→(s.sys.proc i).rtime=0
  | .clock => ∀ i,(s.sys.proc i).state=.running→(s.sys.proc i).rtime.toNat+1<2^32

instance (s : Timed) (act : TimedAction) : Decidable (KeepsCharge s act) :=
  match act with
  | .proc _ => .isTrue trivial
  | .setPriority _ _ pid => inferInstanceAs
      (Decidable (∀ i∈findPid s.sys.proc pid,(s.sys.proc i).rtime=0))
  | .clock => inferInstanceAs
      (Decidable (∀ i,(s.sys.proc i).state=.running→(s.sys.proc i).rtime.toNat+1<2^32))

lemma toNat_add_one {x : UInt32} (h : x.toNat+1<2^32) : (x+1).toNat=x.toNat+1 := by
  rw [UInt32.toNat_add]
  exact Nat.mod_eq_of_lt h

lemma wakeupProc_rtime (pbs : Bool) (ticks : UInt32) (chan : Option Chan) (p : Proc) :
    (wakeupProc pbs ticks chan p).rtime=p.rtime := by
  unfold wakeupProc
  split <;> rfl

lemma boot_times (i : Slot) : (bootSys.proc i).rtime=0 ∧ (bootSys.proc i).ctime=0 ∧
    (bootSys.proc i).state≠.zombie := by
  simp only [bootSys,update_apply]
  split_ifs
  · exact ⟨rfl,rfl,by decide⟩
  · exact ⟨rfl,rfl,by decide⟩

lemma ranInv_step {t : Timed} {act : TimedAction} (h : RanInv s) (hok : KeepsCharge s act)
    (ht : timedStep pbs (clockintr pbs) s act=.next t) : RanInv t := by
  cases act with
  | proc a =>
    obtain ⟨_,hmoves,_,hran,hstored⟩ := tableStep_spec ht
    refine ⟨fun i => ?_,?_⟩
    · have hm := hmoves i
      rw [hran]
      cases htk : taken s.sys a with
      | none =>
        rw [htk] at hm
        cases hm with
        | kept hr _ _ _ | exited hr _ _ => rw [hr,h.table i]
      | some np =>
        rw [htk] at hm
        dsimp only
        by_cases hi : i=np
        · subst hi
          rw [update_self]
          simp only [decide_true] at hm
          cases hm with
          | created hr _ _ =>
            rw [hr]
            rfl
        · have hne : ¬np=i := fun heq => hi heq.symm
          simp only [Option.some.injEq,hne,decide_false] at hm
          rw [update_of_ne hi]
          cases hm with
          | kept hr _ _ _ | exited hr _ _ => rw [hr,h.table i]
    · rcases hstored with hs|⟨i,_,hs⟩
      · rw [hs]
        exact h.stored
      · rw [hs]
        intro x hx
        rcases List.mem_cons.mp hx with rfl|hx
        · exact h.table i
        · exact h.stored x hx
  | setPriority w priority pid =>
    simp only [timedStep] at ht
    split_ifs at ht
    cases ht
    refine ⟨fun i => ?_,h.stored⟩
    rw [←h.table i]
    rcases (setPriority_times s.sys w priority pid i).1 with hr|⟨hf,hr⟩
    · exact congrArg UInt32.toNat hr
    · exact congrArg UInt32.toNat (hr.trans (hok i hf).symm)
  | clock =>
    simp only [timedStep,Outcome.next.injEq] at ht
    subst ht
    refine ⟨fun i => ?_,h.stored⟩
    simp only [clockintr,wakeupProc_rtime,updateTime]
    split_ifs with hr
    · rw [toNat_add_one (hok i hr),h.table i]
    · exact h.table i

def forkAndRun : List TimedAction :=
  List.map TimedAction.proc
    ([.schedule 0,.call 0 .fork]++List.replicate 4 (.advance 0 true)++[.yield 0,.schedule 1])

def exitAndWait : List TimedAction :=
  List.map TimedAction.proc
    ([.call 1 (.exit 0)]++List.replicate 132 (.advance 1 true)++
      [.schedule 0,.call 0 (.wait .null)]++List.replicate 3 (.advance 0 true))

/-- The current clock interrupt has counted its tick and not yet looked at slot i. -/
def pending (clock : Option ℕ) (i : Slot) : ℕ :=
  match clock with
  | some k => if k≤ i.val then 1 else 0
  | none => 0

/-- A process is charged at most once for each tick since its creation, and a
tick that it can still be charged for is not among them. -/
structure LifeInv (s : Timed) : Prop where
  table : ∀ i,(s.sys.proc i).ctime.toNat+(s.sys.proc i).rtime.toNat+pending s.clock i≤
    s.sys.ticks.toNat
  zombie : ∀ i,(s.sys.proc i).state=.zombie→
    (s.sys.proc i).ctime.toNat+(s.sys.proc i).rtime.toNat≤(s.sys.proc i).etime.toNat
  stored : ∀ x∈s.stored,x.ctime.toNat+x.rtime.toNat≤x.etime.toNat ∧
    x.wtime=x.etime-x.ctime-x.rtime

/-- allocproc takes no slot that a clock interrupt in progress has yet to look
at, and ticks does not wrap. -/
def Orderly (s : Timed) : TimedAction→Prop
  | .proc a => ∀ np,taken s.sys a=some np→ pending s.clock np=0
  | .setPriority _ _ _ => True
  | .clock => s.clock=none→s.sys.ticks.toNat+1<2^32

instance (s : Timed) (act : TimedAction) : Decidable (Orderly s act) :=
  match act with
  | .proc a => inferInstanceAs (Decidable (∀ np∈taken s.sys a,pending s.clock np=0))
  | .setPriority _ _ _ => .isTrue trivial
  | .clock => inferInstanceAs (Decidable (s.clock=none→s.sys.ticks.toNat+1<2^32))

lemma updateTime_rtime {p : Proc} {now : UInt32}
    (h : p.ctime.toNat+p.rtime.toNat+1≤now.toNat) :
    p.ctime.toNat+(updateTime p).rtime.toNat≤now.toNat := by
  grind [updateTime,now.toNat_lt,toNat_add_one]

lemma lifeInv_clock (h : LifeInv s) (hok : Orderly s .clock) : LifeInv (clockPiece s) := by
  unfold clockPiece
  cases hc : s.clock with
  | none =>
    have hadd := toNat_add_one (hok hc)
    refine ⟨fun i => ?_,h.zombie,h.stored⟩
    have hi := h.table i
    simp only [hc,pending] at hi
    simp only [pending,Nat.zero_le,if_true,hadd]
    omega
  | some k =>
    dsimp only
    cases hk : slot? k with
    | none =>
      have hge : nproc≤k := by grind [slot?]
      refine ⟨fun i => ?_,h.zombie,h.stored⟩
      have hi := h.table i
      have := i.isLt
      rw [hc,pending,if_neg (by omega)] at hi
      exact hi
    | some i =>
      have hik : i.val=k := by
        unfold slot? at hk
        grind
      have hi := h.table i
      rw [hc,pending,if_pos (by omega)] at hi
      refine ⟨fun j => ?_,fun j hz => ?_,h.stored⟩
      · by_cases hj : j=i
        · subst hj
          simp only [setProc,update_self,pending]
          rw [if_neg (by omega)]
          exact updateTime_rtime hi
        · have hold := h.table j
          have hne : j.val≠k := fun heq => hj (Fin.ext (heq.trans hik.symm))
          simp only [hc,pending] at hold
          simp only [setProc,update_of_ne hj,pending]
          split_ifs at hold ⊢ <;> omega
      · by_cases hj : j=i
        · subst hj
          simp only [setProc,update_self] at hz ⊢
          have hold := h.zombie j hz
          have hnr : (s.sys.proc j).state≠.running := by
            rw [show (s.sys.proc j).state=.zombie from hz]
            decide
          simp only [updateTime,if_neg hnr]
          exact hold
        · simp only [setProc,update_of_ne hj] at hz ⊢
          exact h.zombie j hz

lemma lifeInv_step {t : Timed} {act : TimedAction} (h : LifeInv s) (hok : Orderly s act)
    (ht : timedStep pbs clockPiece s act=.next t) : LifeInv t := by
  cases act with
  | proc a =>
    obtain ⟨hticks,hmoves,hclock,_,hstored⟩ := tableStep_spec ht
    refine ⟨fun i => ?_,fun i hz => ?_,?_⟩
    · have hi := h.table i
      have hm := hmoves i
      rw [hticks,hclock]
      generalize hfresh : decide (taken s.sys a=some i)=fresh at hm
      cases hm with
      | kept hr hc _ _ | exited hr hc _ =>
        rw [hr,hc]
        exact hi
      | created hr hc _ =>
        rw [hr,hc,hok i (of_decide_eq_true hfresh)]
        exact Nat.le_refl _
    · have hi := h.table i
      have hm := hmoves i
      generalize decide (taken s.sys a=some i)=fresh at hm
      cases hm with
      | kept hr hc he hback =>
        rw [hr,hc,he]
        exact h.zombie i (hback hz)
      | exited hr hc he =>
        rw [hr,hc,he]
        omega
      | created _ _ hnz => exact absurd hz hnz
    · rcases hstored with hs|⟨i,hz,hs⟩
      · rw [hs]
        exact h.stored
      · rw [hs]
        intro x hx
        rcases List.mem_cons.mp hx with rfl|hx
        · exact ⟨h.zombie i hz,rfl⟩
        · exact h.stored x hx
  | setPriority w priority pid =>
    simp only [timedStep] at ht
    split_ifs at ht
    cases ht
    have hle : ∀ i,((setPriority s.sys w priority pid).proc i).rtime.toNat≤
        (s.sys.proc i).rtime.toNat := by
      intro i
      rcases (setPriority_times s.sys w priority pid i).1 with hr|⟨_,hr⟩
      · rw [hr]
      · rw [hr]
        exact Nat.zero_le _
    refine ⟨fun i => ?_,fun i hz => ?_,h.stored⟩
    · obtain ⟨_,hc,_,_,hticks⟩ := setPriority_times s.sys w priority pid i
      have hi := h.table i
      have hr := hle i
      dsimp only
      rw [hc,hticks]
      omega
    · obtain ⟨_,hc,he,hback,_⟩ := setPriority_times s.sys w priority pid i
      have hi := h.zombie i (hback hz)
      have hr := hle i
      dsimp only
      rw [hc,he]
      omega
  | clock =>
    simp only [timedStep,Outcome.next.injEq] at ht
    exact ht ▸ lifeInv_clock h hok

lemma toNat_sub_sub {e c r : UInt32} (h : c.toNat+r.toNat≤e.toNat) :
    (e-c-r).toNat=e.toNat-c.toNat-r.toNat := by
  grind [UInt32.le_iff_toNat_le,UInt32.toNat_sub_of_le]

/-- waitx's waiting time does not wrap as long as allocproc takes no slot that
a clock interrupt in progress has yet to look at: on every run of orderly
steps, with clockintr taken piece by piece, the charge of a child is at most
the length of its life, and the value stored through wtime is the difference. -/
theorem waitx_wtime_exact (pbs : Bool) (acts : List TimedAction) (s : Timed)
    (hok : Guarded (timedStep pbs clockPiece) Orderly bootTimed acts)
    (hrun : run (timedStep pbs clockPiece) bootTimed acts=.next s) :
    ∀ x∈s.stored,x.rtime.toNat≤x.etime.toNat-x.ctime.toNat ∧
      x.wtime.toNat=x.etime.toNat-x.ctime.toNat-x.rtime.toNat := by
  have h0 : LifeInv bootTimed := by
    refine ⟨fun i => ?_,fun i hz => absurd hz (boot_times i).2.2,
      fun x hx => absurd hx List.not_mem_nil⟩
    rw [show (bootTimed.sys.proc i).ctime=0 from (boot_times i).2.1,
      show (bootTimed.sys.proc i).rtime=0 from (boot_times i).1]
    exact Nat.le_refl _
  have h := run_invariant_guarded (fun s act t hs hok ht => lifeInv_step hs hok ht) h0 hok hrun
  intro x hx
  obtain ⟨hle,hw⟩ := h.stored x hx
  refine ⟨by omega,?_⟩
  rw [hw]
  exact toNat_sub_sub hle

def wholeClock : List TimedAction := List.replicate (nproc+2) .clock

/-- A child that is created between two clock interrupts, runs for one tick
and exits has no waiting time. -/
theorem oneTick_wtime : ∃ s,
    run (timedStep true clockPiece) bootTimed (forkAndRun++wholeClock++exitAndWait)=.next s ∧
    s.stored.map (fun x => (x.ctime,x.etime,x.rtime,x.wtime))=[(0,1,1,0)] ∧
    ∀ x∈s.stored,x.rtime.toNat≤x.etime.toNat-x.ctime.toNat ∧
      x.wtime.toNat=x.etime.toNat-x.ctime.toNat-x.rtime.toNat := by
  have hobs : (run (timedStep true clockPiece) bootTimed
      (forkAndRun++wholeClock++exitAndWait)).state?.map
        (fun s => s.stored.map (fun x => (x.ctime,x.etime,x.rtime,x.wtime)))=
          some [(0,1,1,0)] := by
    decide +kernel
  obtain ⟨s,hs,hv⟩ := exists_of_state? hobs
  refine ⟨s,hs,hv,waitx_wtime_exact true _ s ?_ hs⟩
  refine guarded_of_check (k:=fun s act => decide (Orderly s act))
    (fun s act h => of_decide_eq_true h) ?_
  decide +kernel

/-- The clock counts a tick and looks at slot 0. A child is then created in
slot 1 and runs, the clock looks at slot 1, and the child exits: it is charged
one tick of a life of none, and the waiting time wraps. -/
theorem wtime_wraps : ∃ s,
    run (timedStep true clockPiece) bootTimed
      ([.clock,.clock]++forkAndRun++[.clock]++exitAndWait)=.next s ∧
    s.stored.map (fun x => (x.ctime,x.etime,x.rtime,x.wtime))=[(1,1,1,4294967295)] := by
  have hobs : (run (timedStep true clockPiece) bootTimed
      ([.clock,.clock]++forkAndRun++[.clock]++exitAndWait)).state?.map
        (fun s => s.stored.map (fun x => (x.ctime,x.etime,x.rtime,x.wtime)))=
          some [(1,1,1,4294967295)] := by
    decide +kernel
  obtain ⟨s,hs,hv⟩ := exists_of_state? hobs
  exact ⟨s,hs,hv⟩

end Xv6Riscv.ProcTimes
