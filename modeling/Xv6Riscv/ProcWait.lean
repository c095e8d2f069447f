import Xv6Riscv.ProcMachine

/-!
# Exit statuses are neither lost nor duplicated

A process that becomes a ZOMBIE keeps its slot until one wait of its parent
returns its pid and status. The argument is a family invariant: every parent
pointer in the table points to a live process. It survives exit because
reparent clears, under wait_lock, every pointer to the exiting process before
that process becomes a ZOMBIE, and it covers fork's late assignment of
np->parent because np stays USED until its pointer is set.
-/

namespace Xv6Riscv.ProcWait

open Function
open Transition ProcMachine

/-- States of a process that has been made runnable and has not exited. -/
def alive : ProcState→Bool
  | .sleeping => true
  | .runnable => true
  | .running => true
  | _ => false

/-- The embryo that fork has allocated and not yet made RUNNABLE. -/
def child : Pc→Option Slot
  | .forkLink np _ => some np
  | .forkReady np _ => some np
  | _ => none

def holds : Pc→Bool
  | .exitReparent _ _ => true
  | .exitReparentWake _ _ _ => true
  | .exitWake _ _ _ => true
  | .exitFinish _ => true
  | .waitScan _ _ _ => true
  | .waitCheck _ _ => true
  | .waitSleep _ => true
  | _ => false

def exits : Pc→Bool
  | .exitLock _ => true
  | .exitReparent _ _ => true
  | .exitReparentWake _ _ _ => true
  | .exitWake _ _ _ => true
  | .exitFinish _ => true
  | _ => false

/-- How many slots reparent has cleared of pointers to the exiting process. -/
def cleared : Pc→ℕ
  | .exitReparent _ k => k
  | .exitReparentWake _ k _ => k+1
  | .exitWake _ _ _ => nproc
  | .exitFinish _ => nproc
  | _ => 0

/-- The pid and status of slot i's process that exited and was not yet
returned by wait, read off the trace. -/
def pendingExit (i : Slot) : List Event→Option (ℤ×Int32)
  | [] => none
  | .becameZombie j pid xstate::rest => if j=i then some (pid,xstate) else pendingExit i rest
  | .waitReturned _ j _ _::rest => if j=i then none else pendingExit i rest
  | _::rest => pendingExit i rest

/-- Every return of wait hands out a pending exit with its own pid and, when
asked for, its own status; no process exits over a pending exit. -/
def Matched : List Event→Prop
  | [] => True
  | .becameZombie i _ _::rest => pendingExit i rest=none ∧ Matched rest
  | .waitReturned _ i pid status::rest =>
    (∃ xstate,pendingExit i rest=some (pid,xstate) ∧ (status=none ∨ status=some xstate)) ∧
      Matched rest
  | _::rest => Matched rest

/-- Events that neither create nor use up a pending exit. -/
def neutral : Event→Bool
  | .becameZombie _ _ _ => false
  | .waitReturned _ _ _ _ => false
  | _ => true

variable {e : Event} {pc' : Pc} {pid : ℤ} {status : Option Int32} {older : List Event}

lemma pendingExit_neutral {e : Event} (he : neutral e=true) (i : Slot) (tr : List Event) :
    pendingExit i (e::tr)=pendingExit i tr := by
  cases e <;> first | rfl | simp only [neutral,Bool.false_eq_true] at he

lemma matched_neutral {e : Event} (he : neutral e=true) {tr : List Event} (h : Matched tr) :
    Matched (e::tr) := by
  cases e <;> first | exact h | simp only [neutral,Bool.false_eq_true] at he

def owed (p : Proc) : Option (ℤ×Int32) := if p.state=.zombie then some (p.pid,p.xstate) else none

structure FamilyInv (s : ProcSys) : Prop where
  init : alive (s.proc initproc).state=true
  busy : ∀ w,s.pc w≠.user → alive (s.proc w).state=true
  embryo : ∀ w np,child (s.pc w)=some np → (s.proc np).state=.used
  owner : ∀ v w np,child (s.pc v)=some np → child (s.pc w)=some np → v=w
  linked : ∀ w np pid,s.pc w=.forkReady np pid → (s.proc np).parent=some w
  parent : ∀ i q,(s.proc i).parent=some q → alive (s.proc q).state=true
  family : ∀ i,i≠initproc → alive (s.proc i).state=true ∨ (s.proc i).state=.zombie →
    (s.proc i).parent≠none
  lock : ∀ w,s.waitLock=some w ↔ holds (s.pc w)=true
  orphaned : ∀ w (i : Slot),i.val<cleared (s.pc w) → (s.proc i).parent≠some w
  stays : ∀ w,exits (s.pc w)=true → w≠initproc
  pending : ∀ i,pendingExit i s.trace=owed (s.proc i)
  matched : Matched s.trace

lemma familyInv_boot : FamilyInv bootSys := by
  have hat : ∀ i,bootSys.proc i=if i=initproc then firstProc else zeroProc :=
    fun i => update_apply (fun _ => zeroProc) initproc firstProc i
  have hparent : ∀ i,(bootSys.proc i).parent=none := fun i => by rw [hat]; split <;> rfl
  refine ⟨?_,fun w hw => absurd rfl hw,nofun,nofun,nofun,fun i q h => ?_,fun i hi h => ?_,
    fun w => ?_,fun w i h => ?_,nofun,fun i => ?_,trivial⟩
  · grind [firstProc,alive]
  · cases (hparent i).symm.trans h
  · grind [zeroProc,alive]
  · simp only [bootSys,holds,reduceCtorEq,Bool.false_eq_true]
  · exact absurd h (Nat.not_lt_zero _)
  · grind [firstProc,zeroProc,owed,bootSys,pendingExit]

/-- A change of one slot that the family does not notice. -/
structure Quiet (p p' : Proc) : Prop where
  parent : p'.parent=p.parent
  state : alive p.state=true ∧ alive p'.state=true ∨ p'.state=p.state
  owed : p.state=.zombie → p'.pid=p.pid ∧ p'.xstate=p.xstate

variable {p p' : Proc}

lemma Quiet.alive_eq (h : Quiet p p') : alive p'.state=alive p.state := by
  grind [h.state]

lemma Quiet.state_iff (h : Quiet p p') {st : ProcState} (hst : alive st=false) :
    p'.state=st ↔ p.state=st := by grind [h.state]

lemma Quiet.owed_eq (h : Quiet p p') : ProcWait.owed p'=ProcWait.owed p := by
  have hz : p'.state=.zombie ↔ p.state=.zombie := h.state_iff rfl
  unfold ProcWait.owed
  by_cases hp : p.state=.zombie
  · rw [if_pos hp,if_pos (hz.mpr hp),(h.owed hp).1,(h.owed hp).2]
  · rw [if_neg hp,if_neg (fun h' => hp (hz.mp h'))]

lemma quiet_changes (pbs : Bool) (ticks : UInt32) (p : Proc) :
    Quiet p (killProc p) ∧ (∀ chan,Quiet p (wakeupProc pbs ticks chan p)) ∧
    (alive p.state=true → (∀ chan,Quiet p (sleepProc pbs ticks chan p)) ∧
      Quiet p (runProc pbs p) ∧ Quiet p {p with state := .runnable}) := by
  refine ⟨⟨rfl,?_,fun _ => ⟨rfl,rfl⟩⟩,fun chan => ?_,fun hp => ⟨fun chan => ?_,?_,?_⟩⟩
  · grind [killProc,alive]
  · unfold wakeupProc
    split
    · rename_i hs
      exact ⟨rfl,Or.inl ⟨by rw [hs.1]; rfl,rfl⟩,fun _ => ⟨rfl,rfl⟩⟩
    · exact ⟨rfl,Or.inr rfl,fun _ => ⟨rfl,rfl⟩⟩
  all_goals exact ⟨rfl,Or.inl ⟨hp,rfl⟩,fun _ => ⟨rfl,rfl⟩⟩

@[grind =] lemma setProc_proc (s : ProcSys) (i j : Slot) (p : Proc) :
    (setProc s i p).proc j=if j=i then p else s.proc j := update_apply ..

variable {s t : ProcSys} {i w : Slot}

variable (h : FamilyInv s)

include h

lemma FamilyInv.quiet (hq : Quiet (s.proc i) p') : FamilyInv (setProc s i p') := by
  have halive : ∀ j,alive ((setProc s i p').proc j).state=alive (s.proc j).state := by
    grind [hq.alive_eq]
  have hparent : ∀ j,((setProc s i p').proc j).parent=(s.proc j).parent := by grind [hq.parent]
  have hstate : ∀ j st,alive st=false →
      (((setProc s i p').proc j).state=st ↔ (s.proc j).state=st) := by grind [hq.state_iff]
  refine ⟨?_,fun w hw => ?_,fun w np hc => ?_,h.owner,fun w np pid hp => ?_,fun j q hp => ?_,
    fun j hj hl => ?_,h.lock,fun w j hj => ?_,h.stays,fun j => ?_,h.matched⟩
  · rw [halive]
    exact h.init
  · rw [halive]
    exact h.busy w hw
  · rw [hstate np .used rfl]
    exact h.embryo w np hc
  · rw [hparent]
    exact h.linked w np pid hp
  · grind [h.parent]
  · rw [halive,hstate j .zombie rfl] at hl
    rw [hparent]
    exact h.family j hj hl
  · rw [hparent]
    exact h.orphaned w j hj
  · have hpend := h.pending j
    grind [hq.owed_eq,setProc]

lemma FamilyInv.move (hproc : t.proc=s.proc) (hpc : t.pc=update s.pc w pc')
    (hbusy : alive (s.proc w).state=true)
    (hchild : ∀ np,child pc'=some np → (s.proc np).state=.used ∧ ∀ v,child (s.pc v)=some np → v=w)
    (hlinked : ∀ np pid,pc'=.forkReady np pid → (s.proc np).parent=some w)
    (hlock : t.waitLock=some w ↔ holds pc'=true)
    (hothers : ∀ v,v≠w → (t.waitLock=some v ↔ s.waitLock=some v))
    (hclear : ∀ i : Slot,i.val<cleared pc' → (s.proc i).parent≠some w)
    (hstays : exits pc'=true → w≠initproc)
    (htrace : t.trace=s.trace ∨ ∃ e,neutral e=true ∧ t.trace=e::s.trace) : FamilyInv t := by
  have hat : ∀ v,t.pc v=if v=w then pc' else s.pc v := fun v => by rw [hpc,update_apply]
  refine ⟨hproc ▸ h.init,fun v hv => ?_,fun v np hc => ?_,fun u v np hu hv => ?_,
    fun v np pid hp => ?_,hproc ▸ h.parent,hproc ▸ h.family,fun v => ?_,fun v i hi => ?_,
    fun v hv => ?_,fun i => ?_,?_⟩
  · grind [h.busy v]
  · grind [h.embryo v np]
  · grind [h.owner u v np]
  · grind [h.linked v np pid]
  · grind [h.lock v]
  · grind [h.orphaned v i]
  · grind [h.stays v]
  · rw [hproc,←h.pending i]
    rcases htrace with ht|⟨e,he,ht⟩
    · rw [ht]
    · rw [ht,pendingExit_neutral he]
  · rcases htrace with ht|⟨e,he,ht⟩
    · exact ht ▸ h.matched
    · exact ht ▸ matched_neutral he h.matched

lemma FamilyInv.setPc (hbusy : alive (s.proc w).state=true) (hchild : child pc'=none)
    (hlock : holds pc'=holds (s.pc w))
    (hclear : ∀ i : Slot,i.val<cleared pc' → (s.proc i).parent≠some w)
    (hstays : exits pc'=true → w≠initproc) : FamilyInv (ProcMachine.setPc s w pc') := by
  refine h.move rfl rfl hbusy (by grind) ?_ (hlock ▸ h.lock w) (fun v _ => Iff.rfl) hclear hstays
    (Or.inl rfl)
  rintro np pid rfl
  cases hchild

lemma FamilyInv.finish (hbusy : alive (s.proc w).state=true) (hl : holds (s.pc w)=false)
    (he : neutral e=true) : FamilyInv (ProcMachine.finish s w e) := by
  refine h.move rfl rfl hbusy nofun nofun ?_ (fun v _ => Iff.rfl) nofun nofun (Or.inr ⟨e,he,rfl⟩)
  have hlock := h.lock w
  rwa [hl] at hlock

omit h

lemma holds_of_cleared {pc : Pc} {n : ℕ} (h : n<cleared pc) : holds pc=true := by
  cases pc <;> first | rfl | exact absurd h (Nat.not_lt_zero n)

lemma child_none_of_holds {pc : Pc} (h : holds pc=true) : child pc=none := by
  cases pc <;> first | rfl | simp only [holds,Bool.false_eq_true] at h

variable (h : FamilyInv s)

include h

lemma FamilyInv.acquire (hbusy : alive (s.proc w).state=true) (hfree : s.waitLock=none)
    (hh : holds pc'=true) (hclear : cleared pc'=0) (hstays : exits pc'=true → w≠initproc) :
    FamilyInv {ProcMachine.setPc s w pc' with waitLock := some w} := by
  refine h.move rfl rfl hbusy (fun np hc => ?_) ?_ (by simp only [hh]) (fun v hv => ?_)
    (by grind) hstays (Or.inl rfl)
  · rw [child_none_of_holds hh] at hc
    cases hc
  · rintro np pid rfl
    cases hh
  · grind

lemma FamilyInv.release (hl : holds (s.pc w)=true) (hproc : t.proc=s.proc)
    (hpc : t.pc=update s.pc w pc') (hfree : t.waitLock=none) (hh : holds pc'=false)
    (hc : child pc'=none) (hx : exits pc'=false)
    (htrace : t.trace=s.trace ∨ ∃ e,neutral e=true ∧ t.trace=e::s.trace) : FamilyInv t := by
  have hheld := (h.lock w).mpr hl
  have hbusy : alive (s.proc w).state=true := by
    apply h.busy w
    rintro he
    simp only [he,holds,Bool.false_eq_true] at hl
  refine h.move hproc hpc hbusy (by grind) ?_ (by grind) (by grind) (fun i hi => ?_) (by grind) htrace
  · rintro np pid rfl
    cases hc
  · rw [holds_of_cleared hi] at hh
    cases hh

/-- A slot that is neither live nor an embryo may be emptied or given to an
embryo, when the trace accounts for the exit it owed. -/
lemma FamilyInv.replace (hproc : t.proc=update s.proc i p') (hpc : t.pc=s.pc)
    (hlock : t.waitLock=s.waitLock) (hdead : alive (s.proc i).state=false)
    (hused : (s.proc i).state≠.used) (hnew : p'.state=.unused ∨ p'.state=.used)
    (hparent' : p'.parent=none ∨ p'.parent=(s.proc i).parent)
    (hpending : ∀ j,pendingExit j t.trace=if j=i then none else pendingExit j s.trace)
    (hmatched : Matched t.trace) : FamilyInv t := by
  have hat : ∀ j,t.proc j=if j=i then p' else s.proc j := fun j => by rw [hproc,update_apply]
  have hne : ∀ j,alive (s.proc j).state=true → j≠i := by grind
  have hparent : ∀ j q,(t.proc j).parent=some q → (s.proc j).parent=some q := by grind
  refine ⟨?_,fun w hw => ?_,fun w np hc => ?_,hpc ▸ h.owner,fun w np pid hp => ?_,
    fun j q hq => ?_,fun j hj hl => ?_,?_,fun w j hj hq => ?_,hpc ▸ h.stays,fun j => ?_,hmatched⟩
  · grind [h.init]
  · grind [h.busy w]
  · grind [h.embryo w np]
  · have hnp := h.embryo w np
    grind [h.linked w np pid,child]
  · grind [h.parent j q (hparent j q hq)]
  · grind [h.family j,alive]
  · rw [hpc,hlock]
    exact h.lock
  · grind [h.orphaned]
  · grind [h.pending j,owed]

lemma FamilyInv.replaceUnused (hproc : t.proc=update s.proc i p') (hpc : t.pc=s.pc)
    (hlock : t.waitLock=s.waitLock) (htrace : t.trace=s.trace) (hunused : (s.proc i).state=.unused)
    (hnew : p'.state=.unused ∨ p'.state=.used)
    (hparent' : p'.parent=none ∨ p'.parent=(s.proc i).parent) : FamilyInv t := by
  refine h.replace hproc hpc hlock (by rw [hunused]; rfl) (by simp [hunused]) hnew hparent'
    (fun j => ?_) (htrace ▸ h.matched)
  grind [h.pending i,owed]

lemma FamilyInv.adopt {i q : Slot} (hq : alive (s.proc q).state=true)
    (hready : ∀ v pid,s.pc v=.forkReady i pid → v=q) (hswept : ¬i.val<cleared (s.pc q)) :
    FamilyInv (setProc s i {s.proc i with parent := some q}) := by
  refine ⟨?_,fun w hw => ?_,fun w np hc => ?_,h.owner,fun w np pid hp => ?_,fun j r hr => ?_,
    fun j hj hl => ?_,h.lock,fun w j hj hr => ?_,h.stays,fun j => ?_,h.matched⟩
  · grind [h.init]
  · grind [h.busy w hw]
  · grind [h.embryo w np hc]
  · change s.pc w=.forkReady np pid at hp
    grind [h.linked w np pid,hready w pid]
  · grind [h.parent j r]
  · grind [h.family j hj]
  · grind [h.orphaned w j hj,setProc]
  · grind [h.pending j,owed,setProc]

lemma FamilyInv.rise (hused : (s.proc i).state=.used) (hfree : ∀ v,child (s.pc v)≠some i)
    (hparent : (s.proc i).parent≠none) :
    FamilyInv (setProc s i {s.proc i with state := .runnable}) := by
  refine ⟨?_,fun w hw => ?_,fun w np hc => ?_,h.owner,fun w np pid hp => ?_,fun j q hq => ?_,
    fun j hj hl => ?_,h.lock,fun w j hj => ?_,h.stays,fun j => ?_,h.matched⟩
  · grind [h.init,alive]
  · grind [h.busy w hw,alive]
  · grind [h.embryo w np hc,hfree w,setProc]
  · grind [h.linked w np pid hp]
  · grind [h.parent j q,alive]
  · grind [h.family j hj,alive]
  · grind [h.orphaned w j hj]
  · grind [h.pending j,owed,setProc]

omit h

lemma FamilyInv.die (status : Int32) (h : FamilyInv s)
    (hlive : alive (s.proc w).state=true) (hpc : s.pc w=.user) (hinit : w≠initproc)
    (horphans : ∀ i,(s.proc i).parent≠some w) :
    FamilyInv {setProc s w (exitProc status s.ticks (s.proc w)) with
      trace := .becameZombie w (s.proc w).pid status::s.trace} := by
  have hnot : ¬(s.proc w).state=.zombie := by grind [alive]
  refine ⟨?_,fun v hv => ?_,fun v np hc => ?_,h.owner,fun v np pid hp => ?_,fun j q hq => ?_,
    fun j hj hl => ?_,h.lock,fun v j hj => ?_,h.stays,fun j => ?_,?_⟩
  · grind [h.init]
  · grind [h.busy v hv,setProc]
  · grind [h.embryo v np hc,alive]
  · grind [h.linked v np pid hp,exitProc]
  · grind [h.parent j q,horphans j,exitProc]
  · grind [h.family j hj,exitProc]
  · grind [h.orphaned v j hj,exitProc]
  · grind [h.pending j,owed,exitProc,pendingExit]
  · exact ⟨by rw [h.pending w,owed,if_neg hnot],h.matched⟩

variable {k : ℕ}

lemma slot?_eq_some (h : slot? k=some i) : i.val=k := by grind [slot?]

lemma slot?_eq_none (h : slot? k=none) : nproc≤k := by grind [slot?]

variable {memory pbs : Bool}

variable (h : FamilyInv s)

include h

lemma familyInv_forkScan (hlive : alive (s.proc w).state=true) (hpc : s.pc w=.forkScan k) :
    FamilyInv (forkScanStep s w k memory) := by
  have hfree : holds (s.pc w)=false := by rw [hpc]; rfl
  unfold forkScanStep
  cases hk : slot? k with
  | none => exact h.finish hlive hfree rfl
  | some np =>
    dsimp only
    have hne : (s.proc np).state=.unused→w≠np := by grind [alive]
    split_ifs with hunused hmem
    · replace hne := hne hunused
      have huser : s.pc np=.user := by
        by_contra hbusy
        have hal := h.busy np hbusy
        rw [hunused] at hal
        cases hal
      have hsame : update s.pc np .user=s.pc := huser ▸ update_eq_self np s.pc
      have hused : FamilyInv {setProc s np (allocFound (s.proc np) s.nextpid s.ticks) with
          nextpid := s.nextpid+1} :=
        h.replaceUnused rfl rfl rfl rfl hunused (Or.inr rfl) (Or.inr rfl)
      refine hused.move (w:=w) rfl (congrArg (update · w _) hsame) ?_ (fun np' hc => ?_) nofun ?_
        (fun v _ => Iff.rfl) nofun nofun (Or.inr ⟨_,rfl,rfl⟩)
      · simpa only [setProc,update_of_ne hne] using hlive
      · cases hc
        refine ⟨by simp only [setProc,update_self,allocFound],fun v hv => ?_⟩
        cases hunused.symm.trans (h.embryo v np hv)
      · have hlock := h.lock w
        rwa [hfree] at hlock
    · have hfreed : FamilyInv (setProc {s with nextpid := s.nextpid+1} np
          (freeproc (allocFound (s.proc np) s.nextpid s.ticks))) :=
        h.replaceUnused rfl rfl rfl rfl hunused (Or.inl rfl) (Or.inl rfl)
      refine hfreed.finish ?_ hfree rfl
      grind
    · exact h.setPc hlive rfl (by rw [hfree]; rfl) nofun nofun

lemma familyInv_forkLink {w np : Slot} (hlive : alive (s.proc w).state=true)
    (hpc : s.pc w=.forkLink np pid) (hfree : s.waitLock=none) :
    FamilyInv (setPc (setProc s np {s.proc np with parent := some w}) w (.forkReady np pid)) := by
  have hchild : child (s.pc w)=some np := by rw [hpc]; rfl
  have hadopt := h.adopt (i:=np) (q:=w) hlive
    (fun v pid' hv => h.owner v w np (by rw [hv]; rfl) hchild) (by rw [hpc]; exact Nat.not_lt_zero _)
  refine hadopt.move (w:=w) rfl rfl (by grind) (fun np' hc => ?_) (fun np' pid' hp => ?_) ?_
    (fun v _ => Iff.rfl) nofun nofun (Or.inl rfl)
  · cases hc
    exact ⟨hadopt.embryo w np hchild,fun v hv => h.owner v w np hv hchild⟩
  · cases hp
    grind
  · simp only [setPc,setProc,hfree,holds,reduceCtorEq,Bool.false_eq_true]

lemma familyInv_forkReady {w np : Slot} (hlive : alive (s.proc w).state=true)
    (hpc : s.pc w=.forkReady np pid) :
    FamilyInv (finish (setProc s np {s.proc np with state := .runnable}) w
      (.forkReturned w np pid)) := by
  have hchild : child (s.pc w)=some np := by rw [hpc]; rfl
  have hdone : FamilyInv (finish s w (.forkReturned w np pid)) :=
    h.finish hlive (by rw [hpc]; rfl) rfl
  refine hdone.rise (i:=np) (h.embryo w np hchild) (fun v hv => ?_) ?_
  · simp only [finish,setPc] at hv
    grind [h.owner v w np,child,update_apply]
  · simp only [finish,setPc,h.linked w np pid hpc,ne_eq,reduceCtorEq,not_false_eq_true]

lemma familyInv_reparent {status : Int32} (hlive : alive (s.proc w).state=true)
    (hpc : s.pc w=.exitReparent status k) : FamilyInv (reparentStep s w status k) := by
  have hinit : w≠initproc := h.stays w (by rw [hpc]; rfl)
  have hswept : ∀ i : Slot,i.val<k → (s.proc i).parent≠some w := by
    intro i hi
    exact h.orphaned w i (by rw [hpc]; exact hi)
  have hnext : ∀ i : Slot,i.val=k → (s.proc i).parent≠some w →
      ∀ j : Slot,j.val<k+1 → (s.proc j).parent≠some w := by
    intro i hi hp j hj
    have hji : j.val<k ∨ j.val=i.val := by omega
    grind [Fin.ext_iff]
  unfold reparentStep
  cases hk : slot? k with
  | none =>
    refine h.setPc hlive rfl (by rw [hpc]; rfl) (fun i hi => ?_) (fun _ => hinit)
    exact hswept i (Nat.lt_of_lt_of_le hi (slot?_eq_none hk))
  | some i =>
    have hik := slot?_eq_some hk
    dsimp only
    split_ifs with hp
    · have hadopt := h.adopt (i:=i) (q:=initproc) h.init ?_ ?_
      · refine hadopt.setPc (by grind) rfl (by simp only [setProc,hpc,holds]) (fun j hj => ?_)
          (fun _ => hinit)
        have hji : j.val<k ∨ j.val=i.val := by
          have hj : j.val<k+1 := hj
          omega
        grind [Fin.ext_iff]
      · intro v pid hv
        grind [h.linked v i pid]
      · intro hlt
        refine h.stays initproc ?_ rfl
        revert hlt
        cases s.pc initproc <;> intro hlt <;> first | rfl | exact absurd hlt (Nat.not_lt_zero _)
    · exact h.setPc hlive rfl (by rw [hpc]; rfl) (hnext i hik hp) (fun _ => hinit)

lemma familyInv_wakeup {chan : Option Chan} {j : ℕ} {again after : Pc}
    (hlive : alive (s.proc w).state=true) (hheld : holds (s.pc w)=true) (hx : exits (s.pc w)=true)
    (hagain : holds again=true ∧ cleared again=cleared (s.pc w))
    (hafter : holds after=true ∧ cleared after=cleared (s.pc w)) :
    FamilyInv (wakeupStep pbs s w chan j again after) := by
  have hinit := h.stays w hx
  have hgo : ∀ pc',holds pc'=true ∧ cleared pc'=cleared (s.pc w) → FamilyInv (setPc s w pc') := by
    intro pc' hpc'
    refine h.setPc hlive (child_none_of_holds hpc'.1) (by rw [hpc'.1,hheld]) (fun i hi => ?_)
      (fun _ => hinit)
    exact h.orphaned w i (by rw [← hpc'.2]; exact hi)
  unfold wakeupStep
  cases hj : slot? j with
  | none => exact hgo after hafter
  | some i =>
    dsimp only
    split_ifs with hi
    · exact hgo again hagain
    · exact (hgo again hagain).quiet (i:=i) ((quiet_changes pbs s.ticks (s.proc i)).2.1 chan)

lemma familyInv_exitFinish {status : Int32} (hlive : alive (s.proc w).state=true)
    (hpc : s.pc w=.exitFinish status) :
    FamilyInv {finish (setProc s w (exitProc status s.ticks (s.proc w))) w
      (.becameZombie w (s.proc w).pid status) with waitLock := none} := by
  have hinit := h.stays w (by rw [hpc]; rfl)
  have horphans : ∀ i,(s.proc i).parent≠some w := fun i =>
    h.orphaned w i (by rw [hpc]; exact i.isLt)
  have hleft : FamilyInv {setPc s w .user with waitLock := none} :=
    h.release (by rw [hpc]; rfl) rfl rfl rfl rfl rfl rfl (Or.inl rfl)
  exact hleft.die status hlive (by simp only [setPc,update_self]) hinit horphans

lemma familyInv_reap (hheld : holds (s.pc w)=true) (hz : (s.proc i).state=.zombie)
    (hstatus : status=none ∨ status=some (s.proc i).xstate) :
    FamilyInv {finish (setProc s i (freeproc (s.proc i))) w
      (.waitReturned w i (s.proc i).pid status) with waitLock := none} := by
  have howed : pendingExit i s.trace=some ((s.proc i).pid,(s.proc i).xstate) := by
    rw [h.pending i,owed,if_pos hz]
  have hreaped : FamilyInv {setProc s i (freeproc (s.proc i)) with
      trace := .waitReturned w i (s.proc i).pid status::s.trace} := by
    refine h.replace rfl rfl rfl ?_ ?_ (Or.inl rfl) (Or.inl rfl) (fun j => ?_) ?_
    · rw [hz]
      rfl
    · grind
    · grind [pendingExit]
    · exact ⟨⟨(s.proc i).xstate,howed,hstatus⟩,h.matched⟩
  exact hreaped.release (w:=w) hheld rfl rfl rfl rfl rfl rfl (Or.inl rfl)

lemma familyInv_waitScan {addr : StatusAddr} {havekids : Bool}
    (hlive : alive (s.proc w).state=true) (hpc : s.pc w=.waitScan addr k havekids) :
    FamilyInv (waitScanStep s w addr k havekids) := by
  have hheld : holds (s.pc w)=true := by rw [hpc]; rfl
  have hgo : ∀ pc',holds pc'=true → cleared pc'=0 → exits pc'=false →
      FamilyInv (setPc s w pc') := by
    intro pc' hh hc hx
    exact h.setPc hlive (child_none_of_holds hh) (by rw [hh,hheld]) (by grind) (by grind)
  unfold waitScanStep
  cases hk : slot? k with
  | none => exact hgo _ rfl rfl rfl
  | some i =>
    dsimp only
    split_ifs with hp hz hbad hvalid
    · exact h.release hheld rfl rfl rfl rfl rfl rfl (Or.inr ⟨_,rfl,rfl⟩)
    · exact familyInv_reap h hheld hz (Or.inr rfl)
    · exact familyInv_reap h hheld hz (Or.inl rfl)
    · exact hgo _ rfl rfl rfl
    · exact hgo _ rfl rfl rfl

lemma familyInv_killScan (hlive : alive (s.proc w).state=true) (hpc : s.pc w=.killScan pid k) :
    FamilyInv (killScanStep s w pid k) := by
  have hfree : holds (s.pc w)=false := by rw [hpc]; rfl
  unfold killScanStep
  cases hk : slot? k with
  | none => exact h.finish hlive hfree rfl
  | some i =>
    dsimp only
    split_ifs with hp
    · exact (h.finish hlive hfree rfl).quiet (i:=i) (quiet_changes true s.ticks (s.proc i)).1
    · exact h.setPc hlive rfl (by rw [hfree]; rfl) nofun nofun

omit h

lemma alive_of_running (h : p.state=.running) : alive p.state=true := by
  rw [h]
  rfl

lemma familyInv_advance (h : FamilyInv s) (hrun : (s.proc w).state=.running)
    (hs : advanceStep pbs s w memory=.next t) : FamilyInv t := by
  have hlive := alive_of_running hrun
  unfold advanceStep at hs
  cases hpc : s.pc w with
  | user =>
    simp only [hpc,reduceCtorEq] at hs
  | forkScan k =>
    simp only [hpc,Outcome.next.injEq] at hs
    exact hs ▸ familyInv_forkScan h hlive hpc
  | forkLink np pid =>
    simp only [hpc] at hs
    split_ifs at hs with hfree
    cases hs
    exact familyInv_forkLink h hlive hpc hfree
  | forkReady np pid =>
    simp only [hpc,Outcome.next.injEq] at hs
    exact hs ▸ familyInv_forkReady h hlive hpc
  | exitLock status =>
    simp only [hpc] at hs
    split_ifs at hs with hfree
    cases hs
    exact h.acquire hlive hfree rfl rfl (fun _ => h.stays w (by rw [hpc]; rfl))
  | exitReparent status k =>
    simp only [hpc,Outcome.next.injEq] at hs
    exact hs ▸ familyInv_reparent h hlive hpc
  | exitReparentWake | exitWake =>
    simp only [hpc,Outcome.next.injEq] at hs
    refine hs ▸ familyInv_wakeup h hlive ?_ ?_ ?_ ?_ <;> simp only [hpc,holds,exits,cleared,and_self]
  | exitFinish status =>
    simp only [hpc,Outcome.next.injEq] at hs
    exact hs ▸ familyInv_exitFinish h hlive hpc
  | waitLock addr =>
    simp only [hpc] at hs
    split_ifs at hs with hfree
    cases hs
    exact h.acquire hlive hfree rfl rfl nofun
  | waitScan addr k havekids =>
    simp only [hpc,Outcome.next.injEq] at hs
    exact hs ▸ familyInv_waitScan h hlive hpc
  | waitCheck addr havekids =>
    simp only [hpc] at hs
    split_ifs at hs with hc
    · cases hs
      exact h.release (by rw [hpc]; rfl) rfl rfl rfl rfl rfl rfl (Or.inr ⟨_,rfl,rfl⟩)
    · cases hs
      exact h.setPc hlive rfl (by rw [hpc]; rfl) nofun nofun
  | waitSleep addr =>
    simp only [hpc,Outcome.next.injEq] at hs
    have hquiet := h.quiet (((quiet_changes pbs s.ticks (s.proc w)).2.2 hlive).1 (.proc w))
    have hheld : holds (s.pc w)=true := by rw [hpc]; rfl
    exact hs ▸ hquiet.release (w:=w) hheld rfl rfl rfl rfl rfl rfl (Or.inl rfl)
  | killScan pid k =>
    simp only [hpc,Outcome.next.injEq] at hs
    exact hs ▸ familyInv_killScan h hlive hpc

lemma familyInv_call {c : Call} (h : FamilyInv s)
    (hrun : (s.proc w).state=.running) (hpc : s.pc w=.user) (hs : callStep s w c=.next t) :
    FamilyInv t := by
  have hgo : ∀ pc',child pc'=none → holds pc'=false → cleared pc'=0 →
      (exits pc'=true → w≠initproc) → FamilyInv (setPc s w pc') := by
    intro pc' hc hh hz hx
    exact h.setPc (alive_of_running hrun) hc (by rw [hh,hpc]; rfl) (by grind) hx
  cases c with
  | fork | wait | kill =>
    cases hs
    exact hgo _ rfl rfl rfl nofun
  | exit status =>
    simp only [callStep] at hs
    split_ifs at hs with hinit
    cases hs
    exact hgo _ rfl rfl rfl (fun _ => hinit)

lemma familyInv_step {a : ProcAction} (h : FamilyInv s)
    (hs : procStep pbs s a=.next t) : FamilyInv t := by
  cases a with
  | call w c =>
    simp only [procStep] at hs
    split_ifs at hs with hc
    exact familyInv_call h hc.1 hc.2 hs
  | advance w memory =>
    simp only [procStep] at hs
    split_ifs at hs with hrun
    exact familyInv_advance h hrun hs
  | schedule w =>
    simp only [procStep] at hs
    split_ifs at hs with hrun
    cases hs
    exact h.quiet ((quiet_changes pbs s.ticks _).2.2 (by rw [hrun]; rfl)).2.1
  | yield w =>
    simp only [procStep] at hs
    split_ifs at hs with hrun
    cases hs
    exact h.quiet ((quiet_changes pbs s.ticks _).2.2 (alive_of_running hrun.1)).2.2
  | sleepOn w addr =>
    simp only [procStep] at hs
    split_ifs at hs with hrun
    cases hs
    exact h.quiet (((quiet_changes pbs s.ticks _).2.2 (alive_of_running hrun.1)).1 _)
  | wakeOther addr i =>
    cases hs
    exact h.quiet ((quiet_changes pbs s.ticks _).2.1 _)
  | tick =>
    cases hs
    exact ⟨h.init,h.busy,h.embryo,h.owner,h.linked,h.parent,h.family,h.lock,h.orphaned,h.stays,
      h.pending,h.matched⟩

def Kept (s t : ProcSys) (i : Slot) : Prop :=
  (t.proc i).state=(s.proc i).state ∧ (t.proc i).pid=(s.proc i).pid ∧
    (t.proc i).xstate=(s.proc i).xstate

lemma kept_of_update {i j : Slot} (ht : t.proc=update s.proc j p')
    (h : i=j → p'.state=(s.proc i).state ∧ p'.pid=(s.proc i).pid ∧ p'.xstate=(s.proc i).xstate) :
    Kept s t i := by
  rw [Kept,ht]
  grind [update_apply]

def returns : Event→Bool
  | .waitReturned _ _ _ _ => true
  | _ => false

def NoReturn (s t : ProcSys) : Prop :=
  ∀ w i pid status,t.trace≠.waitReturned w i pid status::s.trace

lemma noReturn_of_same (h : t.trace=s.trace) : NoReturn s t := by
  intro w i pid status he
  rw [h] at he
  exact List.cons_ne_self _ _ he.symm

lemma noReturn_of_event (h : t.trace=e::s.trace) (he : returns e=false) : NoReturn s t := by
  intro w i pid status htr
  rw [h,List.cons.injEq] at htr
  grind [returns]

/-- The step in which process w reaps slot i: the slot is w's ZOMBIE child,
it is emptied and its pid and status are returned. -/
def Reaps (s : ProcSys) (a : ProcAction) (t : ProcSys) (w i : Slot) : Prop :=
  (∃ memory addr k havekids,a=.advance w memory ∧ s.pc w=.waitScan addr k havekids) ∧
  (s.proc i).state=.zombie ∧ (s.proc i).parent=some w ∧
  t.proc=update s.proc i (freeproc (s.proc i)) ∧
  ∃ status,(status=none ∨ status=some (s.proc i).xstate) ∧
    t.trace=.waitReturned w i (s.proc i).pid status::s.trace

lemma kept_wakeup {chan : Option Chan} {j : ℕ} {again after : Pc} :
    NoReturn s (wakeupStep pbs s w chan j again after) ∧
      ∀ i,(s.proc i).state=.zombie → Kept s (wakeupStep pbs s w chan j again after) i := by
  unfold wakeupStep
  cases hj : slot? j with
  | none => exact ⟨noReturn_of_same rfl,fun i _ => ⟨rfl,rfl,rfl⟩⟩
  | some i =>
    dsimp only
    split_ifs with hi
    · exact ⟨noReturn_of_same rfl,fun i _ => ⟨rfl,rfl,rfl⟩⟩
    · refine ⟨noReturn_of_same rfl,fun i' hz => kept_of_update rfl (fun hii => ?_)⟩
      grind [wakeupProc]

lemma reaps_or_kept_advance (h : FamilyInv s) (hrun : (s.proc w).state=.running)
    (hs : advanceStep pbs s w memory=.next t) :
    (∃ i,Reaps s (.advance w memory) t w i) ∨
      (NoReturn s t ∧ ∀ i,(s.proc i).state=.zombie → Kept s t i) := by
  have hkept : t.proc=s.proc → ∀ i,(s.proc i).state=.zombie → Kept s t i := by
    intro hp i _
    rw [Kept,hp]
    exact ⟨rfl,rfl,rfl⟩
  have hother : ∀ j p',t.proc=update s.proc j p' → (s.proc j).state≠.zombie →
      ∀ i,(s.proc i).state=.zombie → Kept s t i :=
    fun j p' ht hj i hi => kept_of_update ht fun hij => absurd (hij ▸ hi) hj
  have hnotw : (s.proc w).state≠.zombie := by simp [hrun]
  have hembryo : ∀ np,child (s.pc w)=some np → (s.proc np).state≠.zombie := fun np hc => by
    simp [h.embryo w np hc]
  unfold advanceStep at hs
  cases hpc : s.pc w with
  | user => simp only [hpc,reduceCtorEq] at hs
  | forkScan k =>
    simp only [hpc,Outcome.next.injEq,forkScanStep] at hs
    split at hs
    · subst hs
      exact Or.inr ⟨noReturn_of_event rfl rfl,hkept rfl⟩
    · split_ifs at hs with hunused hmem <;> subst hs
      · exact Or.inr ⟨noReturn_of_event rfl rfl,hother _ _ rfl (by simp [hunused])⟩
      · exact Or.inr ⟨noReturn_of_event rfl rfl,hother _ _ rfl (by simp [hunused])⟩
      · exact Or.inr ⟨noReturn_of_same rfl,hkept rfl⟩
  | forkLink np pid =>
    simp only [hpc] at hs
    split_ifs at hs with hfree
    cases hs
    exact Or.inr ⟨noReturn_of_same rfl,hother np _ rfl (hembryo np (by rw [hpc]; rfl))⟩
  | forkReady np pid =>
    simp only [hpc,Outcome.next.injEq] at hs
    subst hs
    exact Or.inr ⟨noReturn_of_event rfl rfl,hother np _ rfl (hembryo np (by rw [hpc]; rfl))⟩
  | exitLock | waitLock =>
    simp only [hpc] at hs
    split_ifs at hs with hfree
    cases hs
    exact Or.inr ⟨noReturn_of_same rfl,hkept rfl⟩
  | exitReparent status k =>
    simp only [hpc,Outcome.next.injEq,reparentStep] at hs
    split at hs
    · subst hs
      exact Or.inr ⟨noReturn_of_same rfl,hkept rfl⟩
    · split_ifs at hs with hp <;> subst hs
      · exact Or.inr ⟨noReturn_of_same rfl,fun j _ => kept_of_update rfl (by rintro rfl; simp)⟩
      · exact Or.inr ⟨noReturn_of_same rfl,hkept rfl⟩
  | exitReparentWake | exitWake =>
    simp only [hpc,Outcome.next.injEq] at hs
    exact Or.inr (hs ▸ kept_wakeup)
  | exitFinish status =>
    simp only [hpc,Outcome.next.injEq] at hs
    subst hs
    exact Or.inr ⟨noReturn_of_event rfl rfl,hother w _ rfl hnotw⟩
  | waitScan addr k havekids =>
    simp only [hpc,Outcome.next.injEq,waitScanStep] at hs
    split at hs
    · subst hs
      exact Or.inr ⟨noReturn_of_same rfl,hkept rfl⟩
    · rename_i i hk
      split_ifs at hs with hp hz hbad hvalid <;> subst hs
      · exact Or.inr ⟨noReturn_of_event rfl rfl,hkept rfl⟩
      · exact Or.inl ⟨i,⟨memory,addr,k,havekids,rfl,hpc⟩,hz,hp,rfl,_,Or.inr rfl,rfl⟩
      · exact Or.inl ⟨i,⟨memory,addr,k,havekids,rfl,hpc⟩,hz,hp,rfl,_,Or.inl rfl,rfl⟩
      · exact Or.inr ⟨noReturn_of_same rfl,hkept rfl⟩
      · exact Or.inr ⟨noReturn_of_same rfl,hkept rfl⟩
  | waitCheck addr havekids =>
    simp only [hpc] at hs
    split_ifs at hs with hc <;> cases hs
    · exact Or.inr ⟨noReturn_of_event rfl rfl,hkept rfl⟩
    · exact Or.inr ⟨noReturn_of_same rfl,hkept rfl⟩
  | waitSleep addr =>
    simp only [hpc,Outcome.next.injEq] at hs
    subst hs
    exact Or.inr ⟨noReturn_of_same rfl,hother w _ rfl hnotw⟩
  | killScan pid k =>
    simp only [hpc,Outcome.next.injEq,killScanStep] at hs
    split at hs
    · subst hs
      exact Or.inr ⟨noReturn_of_event rfl rfl,hkept rfl⟩
    · split_ifs at hs with hp <;> subst hs
      · exact Or.inr ⟨noReturn_of_event rfl rfl,fun j hj => kept_of_update rfl fun hji => by
          simp [←hji,killProc,hj]⟩
      · exact Or.inr ⟨noReturn_of_same rfl,hkept rfl⟩

lemma reaps_or_kept {a : ProcAction} (h : FamilyInv s) (hs : procStep pbs s a=.next t) :
    (∃ w i,Reaps s a t w i) ∨ (NoReturn s t ∧ ∀ i,(s.proc i).state=.zombie → Kept s t i) := by
  have hother : ∀ j p',t=setProc s j p' → (s.proc j).state≠.zombie →
      NoReturn s t ∧ ∀ i,(s.proc i).state=.zombie → Kept s t i := by
    rintro j p' rfl hj
    exact ⟨noReturn_of_same rfl,fun i hi => kept_of_update rfl fun hij => absurd (hij ▸ hi) hj⟩
  cases a with
  | call w c =>
    right
    simp only [procStep] at hs
    split_ifs at hs with hc
    cases c with
    | fork | wait | kill =>
      cases hs
      exact ⟨noReturn_of_same rfl,fun i _ => ⟨rfl,rfl,rfl⟩⟩
    | exit status =>
      simp only [callStep] at hs
      split_ifs at hs
      cases hs
      exact ⟨noReturn_of_same rfl,fun i _ => ⟨rfl,rfl,rfl⟩⟩
  | advance w memory =>
    simp only [procStep] at hs
    split_ifs at hs with hrun
    rcases reaps_or_kept_advance h hrun hs with ⟨i,hi⟩|hk
    · exact Or.inl ⟨w,i,hi⟩
    · exact Or.inr hk
  | schedule w =>
    simp only [procStep] at hs
    split_ifs at hs with hrun
    grind
  | yield w | sleepOn w addr =>
    simp only [procStep] at hs
    split_ifs at hs with hrun
    grind
  | wakeOther addr i =>
    cases hs
    refine Or.inr ⟨noReturn_of_same rfl,fun j hj => kept_of_update rfl (fun hji => ?_)⟩
    rw [hji] at hj ⊢
    grind [wakeupProc]
  | tick =>
    cases hs
    exact Or.inr ⟨noReturn_of_same rfl,fun i _ => ⟨rfl,rfl,rfl⟩⟩

lemma pendingExit_after_return {mid : List Event}
    (hmid : ∀ pid' xstate,Event.becameZombie i pid' xstate∉mid) :
    pendingExit i (mid++.waitReturned w i pid status::older)=none := by
  induction mid with
  | nil => simp only [List.nil_append,pendingExit,if_true]
  | cons e mid ih =>
    have ih' := ih (fun pid' xstate hm => hmid pid' xstate (List.mem_cons_of_mem _ hm))
    cases e with
    | becameZombie j pid' xstate =>
      have hj : j≠i := by
        rintro rfl
        exact hmid pid' xstate (List.mem_cons_self ..)
      simp only [List.cons_append,pendingExit,if_neg hj,ih']
    | waitReturned _ j _ _ =>
      grind [pendingExit]
    | _ => exact ih'

lemma Matched.suffix {newer : List Event} (h : Matched (newer++older)) : Matched older := by
  induction newer with
  | nil => exact h
  | cons e newer ih =>
    apply ih
    cases e with
    | becameZombie | waitReturned => exact h.2
    | _ => exact h

lemma Matched.exit_between {i w w' : Slot} {pid' : ℤ} {status' : Option Int32}
    {newer mid : List Event}
    (h : Matched (newer++.waitReturned w i pid status::(mid++.waitReturned w' i pid' status'::older))) :
    ∃ pid'' xstate,Event.becameZombie i pid'' xstate∈mid := by
  by_contra hno
  obtain ⟨⟨xstate,hp,_⟩,_⟩ := h.suffix
  rw [pendingExit_after_return (fun pid'' xstate' hm => hno ⟨pid'',xstate',hm⟩)] at hp
  simp only [reduceCtorEq] at hp

/-- Exit statuses are neither lost nor duplicated. On every interleaving from
the table that userinit leaves:
* each successful wait returned a process that had become a ZOMBIE and was
  still pending, with its own pid and, if asked for, its own status;
* between two returns of one slot a new process exited in it;
* a step that returns slot i is taken by its parent at that moment, and it is
  the only kind of step that takes a ZOMBIE out of its slot;
* every ZOMBIE or live process but the first has a live parent. -/
theorem exit_status_returned_once (pbs : Bool) (as : List ProcAction) (s : ProcSys)
    (hrun : run (procStep pbs) bootSys as=.next s) :
    Matched s.trace ∧
    (∀ newer mid older i w w' pid pid' status status',
      s.trace=newer++.waitReturned w i pid status::(mid++.waitReturned w' i pid' status'::older) →
        ∃ pid'' xstate,Event.becameZombie i pid'' xstate∈mid) ∧
    (∀ a t,procStep pbs s a=.next t →
      (∀ w i pid status,t.trace=.waitReturned w i pid status::s.trace → Reaps s a t w i) ∧
      ∀ i,(s.proc i).state=.zombie → Kept s t i ∨ ∃ w,Reaps s a t w i) ∧
    ∀ i,i≠initproc → alive (s.proc i).state=true ∨ (s.proc i).state=.zombie →
      ∃ q,(s.proc i).parent=some q ∧ alive (s.proc q).state=true := by
  have hinv : FamilyInv s :=
    run_invariant (fun _ _ _ h hs => familyInv_step h hs) familyInv_boot hrun
  refine ⟨hinv.matched,?_,fun a t ht => ?_,fun i hi hl => ?_⟩
  · intro newer mid older i w w' pid pid' status status' htr
    have hm := hinv.matched
    rw [htr] at hm
    exact hm.exit_between
  · rcases reaps_or_kept hinv ht with ⟨w,i,hreap⟩|⟨hno,hkept⟩
    · have hcopy := hreap
      obtain ⟨_,hz,hp,hproc,status,hstatus,htr⟩ := hcopy
      constructor
      · intro w' i' pid' status' htr'
        rw [htr,List.cons.injEq,Event.waitReturned.injEq] at htr'
        obtain ⟨⟨rfl,rfl,_⟩,_⟩ := htr'
        exact hreap
      · intro j hj
        by_cases hji : j=i
        · exact Or.inr ⟨w,hji ▸ hreap⟩
        · exact Or.inl (kept_of_update hproc (fun he => absurd he hji))
    · exact ⟨fun w i pid status htr => absurd htr (hno w i pid status),
        fun i hi => Or.inl (hkept i hi)⟩
  · cases hp : (s.proc i).parent with
    | none => exact absurd hp (hinv.family i hi hl)
    | some q => exact ⟨q,rfl,hinv.parent i q hp⟩

/-- The first process forks once and waits; its child exits with status 7. -/
def forkExitWait : List ProcAction :=
  [.schedule 0,.call 0 .fork]++List.replicate 4 (.advance 0 true)++
  [.schedule 1,.call 1 (.exit 7)]++List.replicate 132 (.advance 1 true)++
  [.call 0 (.wait .valid)]++List.replicate 3 (.advance 0 true)

/-- That run ends with the child's status returned once, and the theorem
describes the state it reaches. -/
theorem forkExitWait_returned : ∃ s,run (procStep false) bootSys forkExitWait=.next s ∧
    s.trace=[.waitReturned 0 1 2 (some 7),.becameZombie 1 2 7,.forkReturned 0 1 2,.created 1 2] ∧
    Matched s.trace := by
  have htrace : (run (procStep false) bootSys forkExitWait).state?.map ProcSys.trace=
      some [.waitReturned 0 1 2 (some 7),.becameZombie 1 2 7,.forkReturned 0 1 2,.created 1 2] := by
    decide +kernel
  obtain ⟨s,hs,ht⟩ := exists_of_state? htrace
  exact ⟨s,hs,ht,(exit_status_returned_once false forkExitWait s hs).1⟩

end Xv6Riscv.ProcWait
