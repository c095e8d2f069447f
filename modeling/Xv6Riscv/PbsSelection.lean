import Xv6Riscv.FirstMinimum
import Xv6Riscv.OneCpu

/-!
# The process that the PBS scan selects

The scan of kernel/proc.c compares every RUNNABLE slot with the best one so far:
by the dynamic priority, whose value for the best slot is cached, then by the
number of times scheduled, then by the creation time, the last two read again
from the best slot. On a table that stays as it is this is the scan for the
first least element in one lexicographic order.
-/

namespace Xv6Riscv.PbsSelection

open Transition ProcMachine SchedMachine OneCpu FirstMinimum

section Scan

variable {h : Slot}

/-- What the scan does while it holds the lock of a slot. -/
def scanSlot (proc : Slot→Proc) (ch : Choice) (i : Slot) : Choice :=
  if (proc i).state=.runnable then ch.consider proc i else ch

def scanned (proc : Slot→Proc) (k : ℕ) : Choice :=
  ((List.finRange nproc).take k).foldl (scanSlot proc) .start

def scanAll (proc : Slot→Proc) : Choice := (List.finRange nproc).foldl (scanSlot proc) .start

/-- The order in which processes are preferred: low dynamic priority, then
scheduled often, then created early. -/
def rank (p : Proc) : ℕ ×ₗ ℕᵒᵈ ×ₗ ℕ :=
  toLex (dynamicPriority p,toLex (OrderDual.toDual p.noOfTimesScheduled.toNat,p.ctime.toNat))

lemma rank_lt {p q : Proc} : rank p<rank q ↔
    dynamicPriority p<dynamicPriority q ∨ dynamicPriority p=dynamicPriority q ∧
      (q.noOfTimesScheduled<p.noOfTimesScheduled ∨
        q.noOfTimesScheduled=p.noOfTimesScheduled ∧ p.ctime<q.ctime) := by
  simp only [rank,Prod.Lex.toLex_lt_toLex,OrderDual.toDual_lt_toDual,OrderDual.toDual_inj,
    UInt32.lt_iff_toNat_lt,←UInt32.toNat_inj,eq_comm]

/-- The cached minimum is the dynamic priority of the best slot. -/
def Cached (proc : Slot→Proc) (ch : Choice) : Prop :=
  ∀ h,ch.hp=some h→ch.min=dynamicPriority (proc h)

variable {proc : Slot→Proc}

lemma consider_hp {ch : Choice} (hc : Cached proc ch) (i : Slot) :
    (ch.consider proc i).hp=better (fun j => rank (proc j)) ch.hp i ∧
      Cached proc (ch.consider proc i) := by
  obtain ⟨hp,min⟩ := ch
  cases hp with
  | none =>
    refine ⟨rfl,fun h hh => ?_⟩
    cases hh
    rfl
  | some h =>
    obtain rfl : min=dynamicPriority (proc h) := hc h rfl
    have hlt := @rank_lt (proc i) (proc h)
    simp only [Choice.consider,better]
    split
    · next hdp =>
      rw [if_pos (hlt.mpr (.inl hdp))]
      refine ⟨rfl,fun j hj => ?_⟩
      cases hj
      rfl
    split
    · next hdp heq =>
      have hcached : ∀ j : Slot,dynamicPriority (proc j)=dynamicPriority (proc h)→
          Cached proc ⟨some j,dynamicPriority (proc h)⟩ := by
        intro j hj k hk
        cases hk
        exact hj.symm
      split
      · next hno =>
        grind
      split
      · next hno htie =>
        grind
      · next hno htie =>
        have hnot : ¬rank (proc i)<rank (proc h) := fun hr => by
          grind
        grind
    · next hdp hne =>
      have hnot : ¬rank (proc i)<rank (proc h) := fun hr => by
        grind
      grind

lemma foldl_scanSlot (l : List Slot) {ch : Choice} (hc : Cached proc ch) :
    (l.foldl (scanSlot proc) ch).hp=
      (l.filter fun i => (proc i).state=.runnable).foldl (better fun j => rank (proc j)) ch.hp := by
  induction l generalizing ch with
  | nil => rfl
  | cons i l ih =>
    rw [List.foldl_cons,scanSlot]
    by_cases hrun : (proc i).state=.runnable
    · grind [consider_hp]
    · grind

/-- The slots that the scan considers, in the order of the table. -/
def candidates (proc : Slot→Proc) : List Slot :=
  (List.finRange nproc).filter fun i => (proc i).state=.runnable

lemma mem_candidates {i : Slot} :
    i∈candidates proc ↔ (proc i).state=.runnable := by
  simp [candidates]

lemma scanAll_hp (proc : Slot→Proc) :
    (scanAll proc).hp=firstMin (fun j => rank (proc j)) (candidates proc) :=
  foldl_scanSlot _ nofun

lemma scanAll_eq_none (proc : Slot→Proc) :
    (scanAll proc).hp=none ↔ ∀ i,(proc i).state≠.runnable := by
  rw [scanAll_hp,firstMin_eq_none,List.eq_nil_iff_forall_not_mem]
  exact forall_congr' fun i => not_congr mem_candidates

lemma scanAll_isFirstMin (hh : (scanAll proc).hp=some h) :
    IsFirstMin (fun j => rank (proc j)) (candidates proc) h :=
  firstMin_eq_some (scanAll_hp proc ▸ hh)

lemma candidates_sorted (proc : Slot→Proc) : (candidates proc).Pairwise (·<·) :=
  (List.pairwise_lt_finRange nproc).filter _

lemma scanAll_least {i : Slot} (hh : (scanAll proc).hp=some h) (hi : (proc i).state=.runnable) :
    rank (proc h)<rank (proc i) ∨ rank (proc h)=rank (proc i) ∧ h≤ i := by
  obtain ⟨pre,suf,hsplit,hpre,hsuf⟩ := scanAll_isFirstMin hh
  have hmem : i∈pre++h::suf := hsplit ▸ mem_candidates.mpr hi
  have hsorted := candidates_sorted proc
  rw [hsplit] at hsorted
  rcases List.mem_append.mp hmem with hmem|hmem
  · exact .inl (hpre i hmem)
  · rcases List.mem_cons.mp hmem with rfl|hmem
    · exact .inr ⟨rfl,le_rfl⟩
    · have hlt : h< i := (List.pairwise_cons.mp (List.pairwise_append.mp hsorted).2.1).1 i hmem
      rcases (hsuf i hmem).lt_or_eq with hr|hr
      · exact .inl hr
      · exact .inr ⟨hr,hlt.le⟩

lemma scanAll_runnable {h : Slot} (hh : (scanAll proc).hp=some h) :
    (proc h).state=.runnable :=
  mem_candidates.mp (scanAll_isFirstMin hh).mem

lemma scanAll_permuted (σ : Equiv.Perm Slot)
    (hdistinct : ∀ i j,(proc i).state=.runnable→(proc j).state=.runnable→
      rank (proc i)=rank (proc j)→i=j) :
    (scanAll fun i => proc (σ i)).hp.map σ=(scanAll proc).hp := by
  cases hh : (scanAll proc).hp with
  | none =>
    rw [scanAll_eq_none] at hh
    rw [(scanAll_eq_none _).mpr fun i => hh (σ i)]
    rfl
  | some h =>
    cases hk : (scanAll fun i => proc (σ i)).hp with
    | none =>
      have hnone := (scanAll_eq_none _).mp hk (σ.symm h)
      rw [Equiv.apply_symm_apply] at hnone
      exact absurd (scanAll_runnable hh) hnone
    | some k =>
      rw [Option.map_some,Option.some.injEq]
      have hmin := scanAll_isFirstMin hk
      have hrun : (proc (σ k)).state=.runnable :=
        @scanAll_runnable (fun i => proc (σ i)) k hk
      refine ((scanAll_isFirstMin hh).eq_of_injOn (mem_candidates.mpr hrun) ?_ ?_).symm
      · intro i hi
        have hi' : (proc (σ (σ.symm i))).state=.runnable := by
          rw [Equiv.apply_symm_apply]
          exact mem_candidates.mp hi
        have hle := hmin.le (mem_candidates.mpr hi')
        simpa only [Equiv.apply_symm_apply] using hle
      · exact fun i hi j hj => hdistinct i j (mem_candidates.mp hi) (mem_candidates.mp hj)

/-- The scan ends with a null pointer if no process is RUNNABLE, else with the
first of the RUNNABLE processes that are least in the order. If no two of them
tie, the choice does not depend on the order of the slots. -/
theorem pbs_selects_least (proc : Slot→Proc) :
    ((scanAll proc).hp=none ↔ ∀ i,(proc i).state≠.runnable) ∧
      (∀ h,(scanAll proc).hp=some h→(proc h).state=.runnable ∧
        ∀ i,(proc i).state=.runnable→
          rank (proc h)<rank (proc i) ∨ rank (proc h)=rank (proc i) ∧ h≤ i) ∧
      ∀ σ : Equiv.Perm Slot,
        (∀ i j,(proc i).state=.runnable→(proc j).state=.runnable→
          rank (proc i)=rank (proc j)→i=j)→
        (scanAll fun i => proc (σ i)).hp.map σ=(scanAll proc).hp :=
  ⟨scanAll_eq_none proc,
    fun _ hh => ⟨scanAll_runnable hh,fun _ hi => scanAll_least hh hi⟩,
    fun σ hdistinct => scanAll_permuted σ hdistinct⟩

end Scan

section Machine

variable {s t : Cpus} {c : ℕ}

/-- How far the scheduler of a CPU has come on a table that stays as it is. -/
def Progress (proc : Slot→Proc) : Ctx→Prop
  | .scan k ch => ch=scanned proc k
  | .look i ch => ch=scanned proc i.val
  | .chosen hp => (scanAll proc).hp=some hp
  | .hold hp => (scanAll proc).hp=some hp
  | _ => True

lemma scanned_succ (proc : Slot→Proc) (i : Slot) :
    scanned proc (i.val+1)=scanSlot proc (scanned proc i.val) i := by
  have htake : (List.finRange nproc).take (i.val+1)=(List.finRange nproc).take i.val++[i] := by
    rw [List.take_add_one,List.getElem?_eq_getElem (by simp),List.getElem_finRange]
    rfl
  grind [scanned]

lemma scanned_of_le (proc : Slot→Proc) {k : ℕ} (hk : nproc≤k) : scanned proc k=scanAll proc := by
  rw [scanned,List.take_of_length_le (by simpa using hk)]
  rfl

lemma schedulerStep_progress {x : Ctx} (hx : Progress s.proc x)
    (ht : schedulerStep s c x=.next t) : Progress s.proc (t.ctx c) := by
  cases x with
  | loop =>
    cases ht
    simp [Progress,scanned]
  | scan k ch =>
    obtain rfl : ch=scanned s.proc k := hx
    rw [schedulerStep] at ht
    split at ht
    · next i hi =>
      obtain ⟨u,hu,hn⟩ := bind_eq_next.mp ht
      obtain ⟨-,rfl⟩ := acquire_next hu
      cases hn
      have hik : i.val=k := by
        rw [slot?] at hi
        split at hi
        · cases hi
          rfl
        · cases hi
      simp [Progress,hik]
    · next hi =>
      have hk : nproc≤k := by grind [slot?]
      rw [scanned_of_le _ hk] at ht
      split at ht
      · next hp hhp =>
        cases ht
        simpa [Progress] using hhp
      · cases ht
        simp [Progress]
  | look i ch =>
    obtain rfl : ch=scanned s.proc i.val := hx
    cases ht
    simp only [Cpus.setCtx,Cpus.setPlock,Function.update_self,Progress]
    exact (scanned_succ s.proc i).symm
  | chosen hp =>
    obtain ⟨u,hu,hn⟩ := bind_eq_next.mp ht
    obtain ⟨-,rfl⟩ := acquire_next hu
    cases hn
    simpa [Progress] using hx
  | hold hp =>
    rw [schedulerStep] at ht
    split at ht <;> cases ht <;> simp [Progress]
  | back hp =>
    cases ht
    simp [Progress]
  | run p => cases ht

lemma wakeupStep_ctx {w : Wakeup} (ht : wakeupStep s c w=.next t) : t.ctx=s.ctx := by
  cases w with
  | idle => cases ht
  | scan chan j =>
    rw [SchedMachine.wakeupStep] at ht
    split at ht
    · split at ht
      · cases ht
        rfl
      · obtain ⟨u,hu,hn⟩ := bind_eq_next.mp ht
        obtain ⟨-,rfl⟩ := acquire_next hu
        cases hn
        rfl
    · cases ht
      rfl
  | look chan i =>
    cases ht
    rfl

lemma startStep_refused (b : Act) (hx : entered (s.ctx c)=none) :
    (if s.wakeup c=.idle then
      match s.ctx c with
      | .run p => startStep s c p b
      | _ => .blocked
      else .blocked)≠.next t := by
  intro ht
  split at ht
  · split at ht
    · next p hctx =>
      rw [hctx] at hx
      cases hx
    · cases ht
  · cases ht

lemma cpuStep_scheduler {b : Act} (hx : entered (s.ctx c)=none)
    (ht : cpuStep s (c,b)=.next t) :
    t.ctx c=s.ctx c ∨ schedulerStep s c (s.ctx c)=.next t := by
  cases b with
  | tick | account =>
    cases ht
    exact .inl rfl
  | wakeup addr =>
    rw [cpuStep] at ht
    dsimp only at ht
    split at ht
    · cases ht
      exact .inl rfl
    · cases ht
  | go memory =>
    rw [cpuStep] at ht
    dsimp only at ht
    split at ht
    · split at ht
      · next p hctx =>
        rw [hctx] at hx
        cases hx
      · exact .inr ht
    · exact .inl (congrFun (wakeupStep_ctx ht) c)
  | timer => exact absurd ht (startStep_refused .timer hx)
  | call call => exact absurd ht (startStep_refused (.call call) hx)
  | sleepOn addr => exact absurd ht (startStep_refused (.sleepOn addr) hx)

lemma cpuStep_progress (h : Inv s) {a : ℕ×Act} (hx : Progress s.proc (s.ctx c))
    (ht : cpuStep s a=.next t) (hproc : t.proc=s.proc) : Progress t.proc (t.ctx c) := by
  obtain ⟨d,b⟩ := a
  have he : Effect s d t := cpuStep_effect h ht
  rw [hproc]
  by_cases hd : c=d
  · subst hd
    cases he.turn with
    | stay hctx => rwa [hctx]
    | move hs =>
      rcases cpuStep_scheduler hs ht with hctx|hstep
      · rwa [hctx]
      · exact schedulerStep_progress hx hstep
    | enter p _ hctx | leave p _ hctx | back p _ hctx =>
      rw [hctx]
      trivial
  · rwa [(he.others c hd).1]

lemma run_selects {as bs : List (ℕ×Act)} (hs : run cpuStep bootCpus as=.next s)
    (hloop : s.ctx c=.loop) {hp : Slot}
    (hsame : Guarded cpuStep (fun u a => ∀ v,cpuStep u a=.next v→v.proc=u.proc) s bs)
    (ht : run cpuStep s bs=.next t) (hchosen : t.ctx c=.chosen hp) :
    (scanAll t.proc).hp=some hp := by
  have hstep : ∀ u a v,Inv u ∧ Progress u.proc (u.ctx c)→(∀ w,cpuStep u a=.next w→w.proc=u.proc)→
      cpuStep u a=.next v→Inv v ∧ Progress v.proc (v.ctx c) := by
    intro u a v hu hok hv
    exact ⟨(cpuStep_effect hu.1 hv).inv hu.1,cpuStep_progress hu.1 hu.2 hv (hok v hv)⟩
  have hinit : Progress s.proc (s.ctx c) := by
    rw [hloop]
    trivial
  have hend := run_invariant_guarded hstep ⟨run_inv hs,hinit⟩ hsame ht
  have hprogress := hend.2
  rwa [hchosen] at hprogress

end Machine

end Xv6Riscv.PbsSelection
