import Xv6Riscv.LogRecovery

/-!
# Group commit by concurrent threads

The log machine has one position for the commit code, which already says
that commits do not overlap. Here every thread has a program counter of its
own, so two threads could be in commit at once, and a thread could call
begin_op or log_write while another one commits. The calls are those of the
log machine; the thread's own program counter decides where its commit goes
on. Nothing but the two tests on outstanding and committing keeps the
threads apart.

Operations are numbered in the order of their begin_op. Each log_write is
recorded under the number of its operation, and the header write of commit
closes the record of one transaction.
-/

namespace Xv6Riscv.GroupCommit

open Function
open Transition LogMachine LogReservation LogRecovery

inductive Pc where
  | outside
  | inside
  | commit (phase : Phase)
  deriving DecidableEq

structure Write where
  op : ℕ
  block : UInt32
  data : Block

structure Commit where
  txn : Txn
  writes : List Write

structure Threads where
  log : LogState
  pc : ℕ→Pc
  order : List ℕ
  number : ℕ→ℕ
  begun : ℕ
  all : List Write
  writes : List Write
  committed : List Commit

inductive ThreadAction where
  | beginOp
  | logWrite (b : UInt32) (data : Block)
  | endOp
  | commitStep

def Threads.write (s : Threads) (p : ℕ) (b : UInt32) (data : Block) : Write :=
  ⟨s.number p,b,data⟩

/-- Where the thread goes on after a step of the commit code. -/
def nextPc (phase : Phase) : Pc := if phase=.running then .outside else .commit phase

/-- The header write of commit closes the transaction's record. -/
def Threads.record (g : LogArea) (s : Threads) (phase : Phase) : Threads :=
  if phase=.writeHead then
    {s with writes := [],committed := s.committed++[⟨loggedTxn g s.log.lh s.log.disk,s.writes⟩]}
  else s

/-- One action of thread p. Operations bracket their writes: log_write and
end_op are called after begin_op only. -/
def threadStep (g : LogArea) (s : Threads) (act : ℕ×ThreadAction) : Outcome Threads :=
  let p := act.1
  match act.2 with
  | .beginOp =>
    if s.pc p=.outside then
      (beginOp s.log).bind fun log => .next {s with
        log := log,pc := update s.pc p .inside,order := s.order++[p]
        number := update s.number p s.begun,begun := s.begun+1}
    else .blocked
  | .logWrite b data =>
    if s.pc p=.inside then
      (logWrite g s.log (s.order.idxOf p) b data).bind fun log => .next {s with
        log := log,all := s.all++[s.write p b data],writes := s.writes++[s.write p b data]}
    else .blocked
  | .endOp =>
    if s.pc p=.inside then
      (endOp s.log (s.order.idxOf p)).bind fun log => .next {s with
        log := log,order := s.order.erase p
        pc := update s.pc p (if log.committing then .commit .commit else .outside)}
    else .blocked
  | .commitStep =>
    match s.pc p with
    | .commit phase =>
      (commitStep g {s.log with phase := phase}).bind fun log =>
        .next {s.record g phase with log := log,pc := update s.pc p (nextPc log.phase)}
    | _ => .blocked

/-- The log that initlog leaves on some disk: nothing is logged, and the
entries of the header are stale. -/
def initlog (disk : ℕ→Block) (block : Fin logSize→UInt32) : Threads where
  log := ⟨disk,disk,0,false,⟨0,block⟩,.running,[],[]⟩
  pc := fun _ => .outside
  order := []
  number := fun _ => 0
  begun := 0
  all := []
  writes := []
  committed := []

/-! ### Who may run -/

/-- Bookkeeping of the threads: the log's own bookkeeping, with the program
counters that stand behind it. -/
structure Control (s : Threads) : Prop where
  group : GroupInv s.log
  inside : ∀ p,p∈s.order ↔ s.pc p=.inside
  nodup : s.order.Nodup
  length : s.order.length=s.log.ops.length
  committer : ∀ p phase,s.pc p=.commit phase→phase=s.log.phase ∧ commits phase=true
  single : ∀ p q phase phase',s.pc p=.commit phase→s.pc q=.commit phase'→p=q
  busy : s.log.committing=true→∃ p,s.pc p=.commit s.log.phase
  up : s.log.phase.up=true

variable {s : Threads} {p : ℕ} {log : LogState} {g : LogArea} {writes : List Write}

lemma Control.window (h : Control s) {phase : Phase} (hp : s.pc p=.commit phase) :
    s.log.committing=true ∧ s.log.outstanding=0 ∧ s.order=[] := by
  obtain ⟨rfl,hc⟩ := h.committer p phase hp
  have hops : s.log.ops=[] := by
    apply h.group.quiet
    intro hrun
    rw [hrun] at hc
    exact absurd hc (by decide)
  grind [h.group.committing_eq,h.group.outstanding_eq,h.length]

lemma Control.not_inside (h : Control s) (hc : s.log.committing=true) (p : ℕ) :
    s.pc p≠.inside := by
  intro hp
  obtain ⟨q,hq⟩ := h.busy hc
  have hmem := (h.inside p).mpr hp
  grind [h.window]

lemma Control.place (h : Control s) (hp : s.pc p=.inside) :
    s.order.idxOf p<s.log.ops.length ∧ s.log.committing=false ∧ s.log.phase=.running := by
  grind [h.length,h.inside,h.group.running,h.not_inside]

lemma control_initlog (disk : ℕ→Block) (block : Fin logSize→UInt32) :
    Control (initlog disk block) where
  group := ⟨rfl,rfl,fun h => absurd rfl h⟩
  inside := fun p => by simp only [initlog,List.not_mem_nil,reduceCtorEq]
  nodup := List.nodup_nil
  length := rfl
  committer := fun p phase hp => by simp only [initlog,reduceCtorEq] at hp
  single := fun p q phase phase' hp => by simp only [initlog,reduceCtorEq] at hp
  busy := fun hc => by simp only [initlog,Bool.false_eq_true] at hc
  up := rfl

lemma no_committer {s : Threads} (h : Control s) (hc : s.log.committing=false) {p : ℕ}
    {pc : Pc} (hpc : ∀ phase,pc≠.commit phase) (q : ℕ) (phase : Phase) :
    update s.pc p pc q≠.commit phase := by grind [h.window]

lemma control_beginOp (h : Control s) (hp : s.pc p=.outside) (ht : beginOp s.log=.next log)
    (number : ℕ→ℕ) (begun : ℕ) : Control {s with
      log := log,pc := update s.pc p .inside,order := s.order++[p]
      number := number,begun := begun} := by
  have hgroup := groupInv_beginOp h.group h.up ht
  unfold beginOp at ht
  split_ifs at ht with hc hroom
  cases ht
  have hfalse : s.log.committing=false := Bool.eq_false_of_not_eq_true hc
  have hnone := @no_committer s h hfalse p .inside (fun phase => by simp)
  have hnot : p∉s.order := by grind [h.inside]
  refine ⟨hgroup,fun q => ?_,?_,?_,?_,?_,fun hb => absurd hb hc,h.up⟩
  · grind [h.inside]
  · grind [h.nodup]
  · grind [h.length]
  · exact fun q phase hq => absurd hq (hnone q phase)
  · exact fun q q' phase _ hq => absurd hq (hnone q phase)

lemma control_logWrite {b : UInt32} {data : Block} (h : Control s) (hp : s.pc p=.inside)
    (ht : logWrite g s.log (s.order.idxOf p) b data=.next log) (all writes : List Write) :
    Control {s with log := log,all := all,writes := writes} := by
  have hgroup := groupInv_logWrite h.group (h.place hp).1 ht
  unfold logWrite at ht
  split_ifs at ht with hfull hout
  cases ht
  refine ⟨hgroup,h.inside,h.nodup,?_,h.committer,h.single,h.busy,h.up⟩
  simp only [List.length_modify,h.length]

lemma control_endOp (h : Control s) (hp : s.pc p=.inside)
    (ht : endOp s.log (s.order.idxOf p)=.next log) : Control {s with
      log := log,order := s.order.erase p
      pc := update s.pc p (if log.committing then .commit .commit else .outside)} := by
  obtain ⟨hlt,hfalse,hrun⟩ := h.place hp
  have hgroup := groupInv_endOp h.group hlt ht
  have hmem := (h.inside p).mpr hp
  have hinside : ∀ pc : Pc,pc≠.inside→
      ∀ q,q∈s.order.erase p ↔ update s.pc p pc q=.inside := by
    grind [h.nodup.mem_erase_iff,h.inside]
  have hlen : (s.order.erase p).length=(s.log.ops.eraseIdx (s.order.idxOf p)).length := by
    grind [h.length]
  have hother : ∀ q phase,q≠p→s.pc q≠.commit phase := by
    intro q phase _ hq
    grind [h.window]
  unfold endOp at ht
  dsimp only at ht
  split_ifs at ht with hc hz
  · cases ht
    have honly : ∀ q phase,update s.pc p (.commit .commit) q=.commit phase→
        q=p ∧ phase=.commit := by
      grind
    refine ⟨hgroup,hinside _ (by simp),h.nodup.erase p,hlen,fun q phase hq => ?_,
      fun q q' phase phase' hq hq' => ?_,fun _ => ⟨p,update_self ..⟩,rfl⟩
    · rw [(honly q phase hq).2]
      exact ⟨rfl,rfl⟩
    · rw [(honly q phase hq).1,(honly q' phase' hq').1]
  · cases ht
    simp only [if_neg hc]
    have hnone := @no_committer s h hfalse p .outside (fun phase => by simp)
    exact ⟨hgroup,hinside _ (by simp),h.nodup.erase p,hlen,fun q phase hq => absurd hq (hnone q phase),
      fun q q' phase _ hq => absurd hq (hnone q phase),fun hb => absurd hb hc,h.up⟩

lemma commitStep_moves {s t : LogState} (ht : commitStep g s=.next t) :
    t.ops=s.ops ∧ t.phase.up=true ∧ (t.phase≠.running→commits t.phase=true) := by
  unfold commitStep at ht
  split at ht <;> (try split_ifs at ht) <;> simp only [Outcome.next.injEq,reduceCtorEq] at ht <;>
    subst ht
  case h_6 => exact ⟨rfl,rfl,fun hne => absurd rfl hne⟩
  all_goals exact ⟨rfl,rfl,fun _ => rfl⟩

lemma control_commitStep {t : Threads} {phase : Phase} (h : Control s) (hp : s.pc p=.commit phase)
    (ht : commitStep g {s.log with phase := phase}=.next log) (hlog : t.log=log)
    (horder : t.order=s.order) (hpc : t.pc=update s.pc p (nextPc log.phase)) : Control t := by
  obtain ⟨rfl,hcommits⟩ := h.committer p phase hp
  obtain ⟨_,_,hnil⟩ := h.window hp
  have hgroup : GroupInv log := groupInv_commitStep h.group ht
  obtain ⟨hops,hup,hphase⟩ := commitStep_moves ht
  have honly : ∀ q phase,t.pc q=.commit phase→q=p ∧ nextPc log.phase=.commit phase := by
    intro q phase hq
    rw [hpc] at hq
    by_cases hqp : q=p
    · grind
    · rw [update_of_ne hqp] at hq
      exact absurd (h.single q p phase _ hq hp) hqp
  have hnext : ∀ phase,nextPc log.phase=.commit phase→phase=log.phase ∧ commits phase=true := by
    intro phase hq
    unfold nextPc at hq
    grind
  refine ⟨hlog ▸ hgroup,fun q => ?_,horder ▸ h.nodup,?_,fun q phase hq => ?_,
    fun q q' phase phase' hq hq' => ?_,fun hb => ⟨p,?_⟩,hlog ▸ hup⟩
  · have hout : t.pc q≠.inside := by
      rw [hpc,update_apply]
      grind [nextPc,h.not_inside]
    grind
  · rw [horder,hlog,hops,h.length]
  · rw [hlog]
    exact hnext phase (honly q phase hq).2
  · rw [(honly q phase hq).1,(honly q' phase' hq').1]
  · have hne : log.phase≠.running := by
      intro hrun
      rw [hlog,hgroup.committing_eq,hrun] at hb
      exact absurd hb (by decide)
    rw [hpc,update_self,hlog,nextPc,if_neg hne]

lemma control_step {t : Threads} {act : ℕ×ThreadAction} (h : Control s)
    (ht : threadStep g s act=.next t) : Control t := by
  obtain ⟨p,act⟩ := act
  cases act with
  | beginOp =>
    simp only [threadStep] at ht
    split_ifs at ht with hp
    obtain ⟨log,hlog,ht⟩ := bind_eq_next.mp ht
    rw [Outcome.next.injEq] at ht
    exact ht ▸ control_beginOp h hp hlog _ _
  | logWrite b data =>
    simp only [threadStep] at ht
    split_ifs at ht with hp
    obtain ⟨log,hlog,ht⟩ := bind_eq_next.mp ht
    rw [Outcome.next.injEq] at ht
    exact ht ▸ control_logWrite h hp hlog _ _
  | endOp =>
    simp only [threadStep] at ht
    split_ifs at ht with hp
    obtain ⟨log,hlog,ht⟩ := bind_eq_next.mp ht
    rw [Outcome.next.injEq] at ht
    exact ht ▸ control_endOp h hp hlog
  | commitStep =>
    simp only [threadStep] at ht
    split at ht
    · rename_i phase hp
      obtain ⟨log,hlog,ht⟩ := bind_eq_next.mp ht
      cases ht
      refine control_commitStep h hp hlog rfl ?_ rfl
      unfold Threads.record
      split_ifs <;> rfl
    · cases ht

/-! ### What a transaction contains -/

/-- The contents that the last log_write of a block gave it. -/
def lastData (writes : List Write) (b : UInt32) : Option Block :=
  (writes.reverse.find? fun w => w.block=b).map Write.data

lemma lastData_append (writes : List Write) (w : Write) (b : UInt32) :
    lastData (writes++[w]) b=if w.block=b then some w.data else lastData writes b := by
  grind [lastData]

/-- The transaction has exactly the blocks of these log_writes, and for the
blocks outside the log area the contents of the last one. -/
structure Describes (g : LogArea) (txn : Txn) (writes : List Write) : Prop where
  blocks : ∀ b,(∃ data,(b,data)∈txn) ↔ ∃ w∈writes,w.block=b
  contents : ∀ e∈txn,g.Home e.1.toNat→lastData writes e.1=some e.2

structure Ended (s : Threads) (op : ℕ) : Prop where
  begun : op<s.begun
  left : ∀ p,s.pc p=.inside→s.number p≠op

/-- How the log_writes are divided among the transactions. -/
structure Grouped (g : LogArea) (s : Threads) : Prop where
  begun : ∀ p,s.pc p=.inside→s.number p<s.begun
  known : ∀ w∈s.all,w.op<s.begun
  open_sub : ∀ w∈s.writes,w∈s.all
  split : ∀ w∈s.all,w∈s.writes ∨ ∃ c∈s.committed,w∈c.writes
  ended : ∀ c∈s.committed,∀ w∈c.writes,Ended s w.op
  whole : ∀ c∈s.committed,∀ w∈c.writes,∀ w'∈s.all,w'.op=w.op→w'∈c.writes
  apart : ∀ c∈s.committed,∀ w∈c.writes,∀ w'∈s.writes,w'.op≠w.op
  described : ∀ c∈s.committed,Describes g c.txn c.writes

/-- The header in memory and the cache hold the open transaction. -/
structure Recorded (g : LogArea) (log : LogState) (writes : List Write) : Prop where
  blocks : ∀ b,Logged log.lh b ↔ ∃ w∈writes,w.block=b
  contents : ∀ b,Logged log.lh b→ g.Home b.toNat→lastData writes b=some (log.cache b.toNat)

def Copied (g : LogArea) (log : LogState) (tail : ℕ) : Prop :=
  ∀ i<tail,g.Home (log.lh.blockAt i).toNat→
    log.disk (g.start+i+1)=log.cache (log.lh.blockAt i).toNat

/-- What the commit code has done with the open transaction at each position. -/
def Position (g : LogArea) (log : LogState) (writes : List Write) : Prop :=
  match log.phase with
  | .running => Recorded g log writes
  | .commit => Recorded g log writes
  | .writeLog tail => Recorded g log writes ∧ tail≤log.lh.n ∧ Copied g log tail
  | .writeHead => Recorded g log writes ∧ Copied g log log.lh.n
  | .install _ => writes=[]
  | .eraseHead => writes=[] ∧ log.lh.n=0
  | .committed => writes=[] ∧ log.lh.n=0
  | _ => False

structure GroupCommitInv (g : LogArea) (s : Threads) : Prop where
  control : Control s
  grouped : Grouped g s
  position : Position g s.log s.writes
  area : s.log.lh.n<g.size

lemma recorded_nil (hn : log.lh.n=0) : Recorded g log [] := by
  have hnone : ∀ b,¬Logged log.lh b := by
    rintro b ⟨i,hi,_⟩
    omega
  refine ⟨fun b => ?_,fun b hb => absurd hb (hnone b)⟩
  simp only [hnone b,List.not_mem_nil,false_and,exists_false]

lemma Recorded.nil (h : Recorded g log writes) (hn : log.lh.n=0) : writes=[] := by
  apply List.eq_nil_iff_forall_not_mem.mpr
  intro w hw
  obtain ⟨i,hi,_⟩ := (h.blocks w.block).mpr ⟨w,hw,rfl⟩
  omega

lemma groupCommitInv_initlog (g : LogArea) (disk : ℕ→Block) (block : Fin logSize→UInt32) :
    GroupCommitInv g (initlog disk block) := by
  refine ⟨control_initlog disk block,?_,recorded_nil rfl,g.size_pos⟩
  constructor <;> simp [initlog]

lemma grouped_beginOp (h : Grouped g s) (log : LogState) (order : List ℕ) : Grouped g {s with
      log := log,pc := update s.pc p .inside,order := order
      number := update s.number p s.begun,begun := s.begun+1} := by
  refine ⟨fun q hq => ?_,fun w hw => ?_,h.open_sub,h.split,fun c hc w hw => ⟨?_,fun q hq => ?_⟩,
    h.whole,h.apart,h.described⟩
  · dsimp only at hq ⊢
    by_cases hqp : q=p
    · grind
    · rw [update_of_ne hqp] at hq ⊢
      have := h.begun q hq
      omega
  · have := h.known w hw
    dsimp only
    omega
  · have := (h.ended c hc w hw).begun
    dsimp only
    omega
  · have hold := (h.ended c hc w hw).begun
    dsimp only at hq ⊢
    by_cases hqp : q=p
    · grind
    · rw [update_of_ne hqp] at hq ⊢
      exact (h.ended c hc w hw).left q hq

lemma grouped_logWrite (h : Grouped g s) (hp : s.pc p=.inside) (log : LogState) (b : UInt32)
    (data : Block) : Grouped g {s with
      log := log,all := s.all++[s.write p b data],writes := s.writes++[s.write p b data]} := by
  have hop : ∀ c∈s.committed,∀ w∈c.writes,(s.write p b data).op≠w.op :=
    fun c hc w hw => (h.ended c hc w hw).left p hp
  refine ⟨h.begun,fun w hw => ?_,fun w hw => ?_,fun w hw => ?_,fun c hc w hw => ?_,
    fun c hc w hw w' hw' => ?_,fun c hc w hw w' hw' => ?_,h.described⟩
  · rcases List.mem_append.mp hw with hw|hw
    · exact h.known w hw
    · rw [List.mem_singleton.mp hw]
      exact h.begun p hp
  · grind [h.open_sub]
  · rcases List.mem_append.mp hw with hw|hw
    · exact (h.split w hw).imp_left (List.mem_append_left _)
    · exact Or.inl (List.mem_append_right _ hw)
  · exact ⟨(h.ended c hc w hw).begun,(h.ended c hc w hw).left⟩
  · grind [h.whole]
  · grind [h.apart]

lemma Grouped.of_pc (h : Grouped g s) (log : LogState) (order : List ℕ) {pc : ℕ→Pc}
    (hpc : ∀ q,pc q=.inside→s.pc q=.inside) :
    Grouped g {s with log := log,order := order,pc := pc} :=
  ⟨fun q hq => h.begun q (hpc q hq),h.known,h.open_sub,h.split,
    fun c hc w hw => ⟨(h.ended c hc w hw).begun,fun q hq => (h.ended c hc w hw).left q (hpc q hq)⟩,
    h.whole,h.apart,h.described⟩

lemma describes_of_copied (h : Recorded g log writes) (hc : Copied g log log.lh.n) :
    Describes g (loggedTxn g log.lh log.disk) writes := by
  constructor
  · intro b
    rw [←h.blocks b]
    constructor
    · rintro ⟨data,hmem⟩
      obtain ⟨i,hi,heq⟩ := mem_loggedTxn.mp hmem
      rw [Prod.mk.injEq] at heq
      exact ⟨i,hi,heq.1.symm⟩
    · rintro ⟨i,hi,rfl⟩
      exact ⟨_,mem_loggedTxn.mpr ⟨i,hi,rfl⟩⟩
  · intro e he hhome
    obtain ⟨i,hi,rfl⟩ := mem_loggedTxn.mp he
    rw [h.contents _ ⟨i,hi,rfl⟩ hhome,hc i hi hhome]

lemma grouped_record (h : Grouped g s) (hout : ∀ p,s.pc p≠.inside)
    (hd : Describes g (loggedTxn g s.log.lh s.log.disk) s.writes) :
    Grouped g (s.record g .writeHead) := by
  rw [Threads.record,if_pos rfl]
  have hended : ∀ w∈s.writes,Ended s w.op :=
    fun w hw => ⟨h.known w (h.open_sub w hw),fun p hp => absurd hp (hout p)⟩
  refine ⟨h.begun,h.known,fun w hw => absurd hw List.not_mem_nil,fun w hw => ?_,
    fun c hc w hw => ?_,fun c hc w hw w' hw' heq => ?_,
    fun c hc w hw w' hw' => absurd hw' List.not_mem_nil,fun c hc => ?_⟩
  · rcases h.split w hw with hw|⟨c,hc,hw⟩
    · exact Or.inr ⟨_,List.mem_append_right _ (List.mem_singleton_self _),hw⟩
    · exact Or.inr ⟨c,List.mem_append_left _ hc,hw⟩
  · rcases List.mem_append.mp hc with hc|hc
    · exact ⟨(h.ended c hc w hw).begun,(h.ended c hc w hw).left⟩
    · rw [List.mem_singleton.mp hc] at hw
      exact ⟨(hended w hw).begun,(hended w hw).left⟩
  · grind [h.whole,h.split,h.apart]
  · grind [h.described]

lemma recorded_logWrite {t : LogState} {op : ℕ} {b : UInt32} {data : Block} {w : Write}
    (h : Recorded g log writes) (hb : w.block=b) (hd : w.data=data)
    (ht : logWrite g log op b data=.next t) : Recorded g t (writes++[w]) := by
  unfold logWrite at ht
  split_ifs at ht with hfull hout
  have hn : log.lh.n<logSize := by omega
  cases ht
  constructor
  · intro c
    rw [logged_recordBlock hn,h.blocks c]
    constructor
    · rintro (⟨v,hv,hc⟩|rfl)
      · exact ⟨v,List.mem_append_left _ hv,hc⟩
      · exact ⟨w,List.mem_append_right _ (List.mem_singleton_self _),hb⟩
    · rintro ⟨v,hv,hc⟩
      rcases List.mem_append.mp hv with hv|hv
      · exact Or.inl ⟨v,hv,hc⟩
      · rw [List.mem_singleton.mp hv,hb] at hc
        exact Or.inr hc.symm
  · intro c hc hhome
    rw [lastData_append,hb,hd]
    dsimp only
    split_ifs with hbc
    · rw [hbc,update_self]
    · have hne : c.toNat≠b.toNat := fun heq => hbc (UInt32.toNat_inj.mp heq.symm)
      rw [update_of_ne hne]
      rcases (logged_recordBlock hn c).mp hc with hc|hc
      · exact h.contents c hc hhome
      · exact absurd hc.symm hbc

lemma recorded_bwrite {k : ℕ} (h : Recorded g log writes) (hk : k<g.size) (data : Block) :
    Recorded g (bwrite log (g.start+k) data) writes := by
  refine ⟨h.blocks,fun b hb hhome => ?_⟩
  have hne : b.toNat≠g.start+k := fun heq => not_home_area hk (heq ▸ hhome)
  simp only [bwrite,update_of_ne hne]
  exact h.contents b hb hhome

lemma copied_bwrite {tail : ℕ} (h : Copied g log tail) (hk : tail+1<g.size) :
    Copied g (bwrite log (g.start+tail+1) (log.cache (log.lh.blockAt tail).toNat)) (tail+1) := by
  intro i hi hhome
  simp only [bwrite] at hhome ⊢
  have hne : (log.lh.blockAt i).toNat≠g.start+tail+1 :=
    fun heq => not_home_area (k:=tail+1) hk (heq ▸ hhome)
  rw [update_of_ne hne]
  by_cases heq : i=tail
  · rw [heq,update_self]
  · rw [update_of_ne (by omega)]
    exact h i (by omega) hhome

lemma position_commitStep {t : LogState} (h : Position g log writes) (harea : log.lh.n<g.size)
    (ht : commitStep g log=.next t) :
    Position g t (if log.phase=.writeHead then [] else writes) ∧ t.lh.n<g.size := by
  unfold commitStep at ht
  unfold Position at h
  split at ht
  case h_7 => cases ht
  all_goals
    rename_i hp
    simp only [hp,reduceCtorEq,if_true,if_false] at h ⊢
  · split_ifs at ht with hn <;> cases ht
    · exact ⟨⟨⟨h.blocks,h.contents⟩,Nat.zero_le _,fun i hi => absurd hi (Nat.not_lt_zero i)⟩,harea⟩
    · exact ⟨⟨h.nil (by omega),by dsimp only; omega⟩,harea⟩
  · rename_i tail
    obtain ⟨hrec,hle,hcopied⟩ := h
    split_ifs at ht with hn <;> cases ht
    · have hrec' := recorded_bwrite (k:=tail+1) hrec (by omega)
        (log.cache (log.lh.blockAt tail).toNat)
      exact ⟨⟨⟨hrec'.blocks,hrec'.contents⟩,hn,copied_bwrite hcopied (by omega)⟩,harea⟩
    · have heq : tail=log.lh.n := by omega
      exact ⟨⟨⟨hrec.blocks,hrec.contents⟩,fun i hi => hcopied i (heq ▸ hi)⟩,harea⟩
  · cases ht
    exact ⟨rfl,harea⟩
  · split_ifs at ht with hn <;> cases ht
    · exact ⟨h,harea⟩
    · exact ⟨⟨h,rfl⟩,g.size_pos⟩
  · cases ht
    exact ⟨h,harea⟩
  · cases ht
    obtain ⟨rfl,hn⟩ := h
    exact ⟨recorded_nil hn,harea⟩

lemma groupCommitInv_step {t : Threads} {act : ℕ×ThreadAction} (h : GroupCommitInv g s)
    (ht : threadStep g s act=.next t) : GroupCommitInv g t := by
  have hcontrol := control_step h.control ht
  have hpos := h.position
  obtain ⟨p,act⟩ := act
  cases act with
  | beginOp =>
    simp only [threadStep] at ht
    split_ifs at ht with hp
    obtain ⟨log,hlog,ht⟩ := bind_eq_next.mp ht
    cases ht
    unfold beginOp at hlog
    split_ifs at hlog with hc hroom
    cases hlog
    have hrun : s.log.phase=.running := by
      apply running_of_up h.control.up
      rw [←h.control.group.committing_eq]
      exact Bool.eq_false_of_not_eq_true hc
    simp only [Position,hrun] at hpos
    refine ⟨hcontrol,grouped_beginOp h.grouped _ _,?_,h.area⟩
    simp only [Position,hrun]
    exact ⟨hpos.blocks,hpos.contents⟩
  | logWrite b data =>
    simp only [threadStep] at ht
    split_ifs at ht with hp
    obtain ⟨log,hlog,ht⟩ := bind_eq_next.mp ht
    cases ht
    have hrun := (h.control.place hp).2.2
    simp only [Position,hrun] at hpos
    have hrec := recorded_logWrite (w:=s.write p b data) hpos rfl rfl hlog
    have hgrouped := grouped_logWrite h.grouped hp log b data
    unfold logWrite at hlog
    split_ifs at hlog with hfull hout
    cases hlog
    refine ⟨hcontrol,hgrouped,?_,?_⟩
    · simp only [Position,hrun]
      exact ⟨hrec.blocks,hrec.contents⟩
    · have hn := recordBlock_n_le s.log.lh b
      dsimp only
      omega
  | endOp =>
    simp only [threadStep] at ht
    split_ifs at ht with hp
    obtain ⟨log,hlog,ht⟩ := bind_eq_next.mp ht
    cases ht
    have hrun := (h.control.place hp).2.2
    simp only [Position,hrun] at hpos
    have hinside : ∀ q,update s.pc p
        (if log.committing then .commit .commit else .outside) q=.inside→s.pc q=.inside := by
      intro q hq
      rw [update_apply] at hq
      split_ifs at hq
      exact hq
    have hgrouped := h.grouped.of_pc log (s.order.erase p) hinside
    unfold endOp at hlog
    dsimp only at hlog
    split_ifs at hlog with hc hz <;> cases hlog
    · exact ⟨hcontrol,hgrouped,⟨hpos.blocks,hpos.contents⟩,h.area⟩
    · refine ⟨hcontrol,hgrouped,?_,h.area⟩
      simp only [Position,hrun]
      exact ⟨hpos.blocks,hpos.contents⟩
  | commitStep =>
    simp only [threadStep] at ht
    split at ht
    · rename_i phase hp
      obtain ⟨log,hlog,ht⟩ := bind_eq_next.mp ht
      cases ht
      obtain ⟨rfl,_⟩ := h.control.committer p phase hp
      have hout := h.control.not_inside (h.control.window hp).1
      obtain ⟨hnext,harea⟩ := position_commitStep hpos h.area hlog
      have hpc : ∀ q,update s.pc p (nextPc log.phase) q=.inside→s.pc q=.inside := by
        intro q hq
        rw [update_apply,nextPc] at hq
        split_ifs at hq
        exact hq
      by_cases hw : s.log.phase=.writeHead
      · simp only [Position,hw] at hpos
        have hgrouped := grouped_record h.grouped hout (describes_of_copied hpos.1 hpos.2)
        rw [Threads.record,if_pos rfl] at hgrouped
        rw [if_pos hw] at hnext
        rw [Threads.record,if_pos hw] at hcontrol ⊢
        exact ⟨hcontrol,hgrouped.of_pc log s.order hpc,hnext,harea⟩
      · rw [if_neg hw] at hnext
        rw [Threads.record,if_neg hw] at hcontrol ⊢
        exact ⟨hcontrol,h.grouped.of_pc log s.order hpc,hnext,harea⟩
    · cases ht

lemma threadStep_message (h : Control s) (act : ℕ×ThreadAction) :
    threadStep g s act≠.panic "log.committing" ∧
    threadStep g s act≠.panic "log_write outside of trans" := by
  obtain ⟨p,act⟩ := act
  cases act with
  | beginOp =>
    simp only [threadStep,beginOp]
    grind [bind_next,bind_blocked]
  | logWrite b data =>
    simp only [threadStep]
    split_ifs with hp
    · have hlt := (h.place hp).1
      have hout : ¬s.log.outstanding<1 := by
        rw [h.group.outstanding_eq]
        omega
      grind [logWrite,bind_next,bind_panic]
    · grind
  | endOp =>
    simp only [threadStep]
    split_ifs with hp
    · have hc := (h.place hp).2.1
      grind [endOp,bind_next]
    · grind
  | commitStep =>
    simp only [threadStep]
    grind [commitStep,bind_next,bind_blocked]

lemma Control.closed (h : Control s) (g : LogArea) (hc : s.log.committing=true) (p : ℕ) :
    threadStep g s (p,.beginOp)=.blocked ∧
    ∀ b data,threadStep g s (p,.logWrite b data)=.blocked := by
  constructor
  · simp only [threadStep,beginOp,hc,if_true,bind_blocked,ite_self]
  · intro b data
    simp only [threadStep,if_neg (h.not_inside hc p)]

/-- What a state says about the commits in it: commit runs only with nothing
outstanding and committing set, by one thread; committing is set exactly as
long as a thread is in commit, and in that time no begin_op completes and no
log_write executes; and a committed transaction has all the log_writes of each
operation it has one of, with the contents of the last one of each block. -/
structure CommitsWhole (g : LogArea) (s : Threads) : Prop where
  quiet : ∀ p phase,s.pc p=.commit phase→s.log.outstanding=0 ∧ s.log.committing=true
  single : ∀ p q phase phase',s.pc p=.commit phase→s.pc q=.commit phase'→p=q
  busy : s.log.committing=true→∃ p phase,s.pc p=.commit phase
  closed : s.log.committing=true→∀ p,threadStep g s (p,.beginOp)=.blocked ∧
    ∀ b data,threadStep g s (p,.logWrite b data)=.blocked
  whole : ∀ c∈s.committed,∀ w∈c.writes,Ended s w.op ∧ ∀ w'∈s.all,w'.op=w.op→w'∈c.writes
  described : ∀ c∈s.committed,Describes g c.txn c.writes

/-- Group commit contains whole operations, for any log area, any disk, any
number of threads and any interleaving of their calls. -/
theorem group_commit_whole (g : LogArea) (disk : ℕ→Block) (block : Fin logSize→UInt32)
    (acts : List (ℕ×ThreadAction)) :
    run (threadStep g) (initlog disk block) acts≠.panic "log.committing" ∧
    run (threadStep g) (initlog disk block) acts≠.panic "log_write outside of trans" ∧
    ∀ s,run (threadStep g) (initlog disk block) acts=.next s→ CommitsWhole g s := by
  have h0 := groupCommitInv_initlog g disk block
  have hstep : ∀ s act t,GroupCommitInv g s→True→threadStep g s act=.next t→GroupCommitInv g t :=
    fun s act t hs _ ht => groupCommitInv_step hs ht
  have hguard : Guarded (threadStep g) (fun _ _ => True) (initlog disk block) acts :=
    guarded_of_forall (fun _ _ => trivial) _ acts
  refine ⟨?_,?_,fun s hs => ?_⟩
  · exact run_message_guarded hstep (fun s act hs _ => (threadStep_message hs.control act).1) h0 hguard
  · exact run_message_guarded hstep (fun s act hs _ => (threadStep_message hs.control act).2) h0 hguard
  · have h : GroupCommitInv g s := run_invariant_guarded hstep h0 hguard hs
    refine ⟨fun p phase hp => ?_,h.control.single,fun hc => ?_,h.control.closed g,
      fun c hc w hw => ⟨h.grouped.ended c hc w hw,h.grouped.whole c hc w hw⟩,h.grouped.described⟩
    · grind [h.control.window]
    · obtain ⟨p,hp⟩ := h.control.busy hc
      exact ⟨p,_,hp⟩

/-- Two threads write the same block in overlapping operations, and one of
them writes a second block after the other has ended; the last end_op commits
both operations. -/
def overlappingOperations : List (ℕ×ThreadAction) :=
  [(0,.beginOp),(1,.beginOp),(0,.logWrite 40 fun _ => 1),(1,.logWrite 40 fun _ => 2),(0,.endOp),
    (1,.logWrite 41 fun _ => 3),(1,.endOp)]++List.replicate 9 (1,.commitStep)

/-- The two operations are committed as one transaction. -/
theorem overlappingOperations_whole : ∃ s,
    run (threadStep mkfsArea) (initlog (fun _ _ => 0) fun _ => 0) overlappingOperations=.next s ∧
    CommitsWhole mkfsArea s ∧
    s.committed.map (fun c => c.txn.map Prod.fst)=[[40,41]] ∧
    s.committed.map (fun c => c.writes.map Write.op)=[[0,1,1]] := by
  have hobs : (run (threadStep mkfsArea) (initlog (fun _ _ => 0) fun _ => 0)
      overlappingOperations).state?.map (fun s => (s.committed.map fun c => c.txn.map Prod.fst,
        s.committed.map fun c => c.writes.map Write.op))=some ([[40,41]],[[0,1,1]]) := by
    decide +kernel
  obtain ⟨s,hs,hv⟩ := exists_of_state? hobs
  rw [Prod.mk.injEq] at hv
  exact ⟨s,hs,(group_commit_whole mkfsArea (fun _ _ => 0) (fun _ => 0) overlappingOperations).2.2 s hs,
    hv.1,hv.2⟩

end Xv6Riscv.GroupCommit
