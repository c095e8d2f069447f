import Xv6Riscv.FileRuns
import Xv6Riscv.InodeProtocol

/-!
# How long an inode lives

Every reference to an inode table entry is counted: those of open files, of
current directories and of the local variables of system calls. An inode that
an open file or a current directory refers to is neither freed nor allocated
again, and keeps its blocks. An inode without links is freed when its last
reference goes, once for each time it was allocated, provided that ialloc does
not run while iput is between freeing an inode and dropping its reference:
then it may hand out the same entry again, and the late drop takes the last
reference of another file without looking at its links.
-/

namespace Xv6Riscv.InodeLifetime

open Function
open Transition OutcomeLogic InodeLayer DirectoryLayer Occupancy BlockOwnership InodeTable FileView
  FileSyscalls PipeLifetime FileTable FileMachine FileRuns InodeProtocol

variable {s t : Kernel} {p ip fd f : ℕ} {q : Proc}

/-- The references in the local variables of all processes. -/
def hands (hand : ℕ→List ℕ) : ℕ→ℕ := Tally.total nproc (fun l ip => l.count ip) hand

/-- The references of open files and current directories. -/
def installed (s : Sys) : ℕ→ℕ := fileOwn s.ftable+cwds s.proc

def own (s : Kernel) : ℕ→ℕ := installed s.sys+hands s.hand

structure Counted (ftable : ℕ→File) (refs : ℕ→ℕ) : Prop where
  ref : ∀ f,(ftable f).ref=refs f
  slots : ∀ f,0<refs f→f<nfile
  unused : ∀ f,refs f=0→(ftable f).type=.none

def TaskOk (s : Kernel) (p : ℕ) : Task→Prop
  | .idle => True
  | .freeing ip => ip∈s.hand p ∧ s.holder ip=some p ∧ installed s.sys ip=0
  | .dropping ip => ip∈s.hand p ∧ s.holder ip≠some p
  | .claimed _ => True
  | .created ip => ip∈s.hand p

structure Inv (s : Kernel) : Prop where
  inode : InodeInv s.sys.fs (own s)
  files : Counted s.sys.ftable (fdRefs s.sys.proc)
  procs : ProcsOk s.sys.proc
  alive : ∀ ip,0< installed s.sys ip→(s.sys.fs.dinode (s.sys.fs.itable ip).inum).type≠.free
  lock : ∀ ip,(s.sys.fs.itable ip).locked=(s.holder ip).isSome
  held : ∀ ip p,s.holder ip=some p→
    p<nproc ∧ (s.sys.fs.itable ip).valid=true ∧ s.reaches p ip=true
  tasks : ∀ p,TaskOk s p (s.task p)

lemma hands_cons (hand : ℕ→List ℕ) (hp : p<nproc) (ip : ℕ) :
    hands (update hand p (ip::hand p))=Pi.single ip 1+hands hand := by
  have h := Tally.total_update (fun (l : List ℕ) ip => l.count ip) hand hp (ip::hand p)
  funext jp
  have hj := congrFun h jp
  simp only [Pi.add_apply,List.count_cons] at hj
  simp only [hands,Pi.add_apply,Pi.single_apply]
  by_cases hjp : jp=ip
  · simp only [hjp,beq_self_eq_true,if_true] at hj ⊢
    omega
  · grind

lemma hands_erase (hand : ℕ→List ℕ) (hp : p<nproc) (hm : ip∈hand p) :
    Pi.single ip 1+hands (update hand p ((hand p).erase ip))=hands hand := by
  have h := hands_cons (update hand p ((hand p).erase ip)) hp ip
  rw [update_self,update_idem] at h
  rw [← h]
  have hperm := List.perm_cons_erase hm
  have hu := Tally.total_update (fun (l : List ℕ) ip => l.count ip) hand hp
    (ip::(hand p).erase ip)
  have hc : (fun jp => (ip::(hand p).erase ip).count jp)=fun jp => (hand p).count jp :=
    funext fun jp => (hperm.count_eq jp).symm
  rw [hc] at hu
  exact add_right_cancel hu

lemma hands_pos {hand : ℕ→List ℕ} (hp : p<nproc) (hm : ip∈hand p) : 0<hands hand ip :=
  lt_of_lt_of_le (List.count_pos_iff.mpr hm)
    (Tally.le_total (fun (l : List ℕ) ip => l.count ip) hand hp ip)

lemma own_cons (s : Kernel) (hp : p<nproc) (ip : ℕ) (fs : Fs) :
    own ((s.setFs fs).setHand p (ip::s.hand p))=Pi.single ip 1+own s := by
  show installed s.sys+hands (update s.hand p (ip::s.hand p))=_
  rw [hands_cons s.hand hp,add_left_comm]
  rfl

lemma own_erase (s : Kernel) (hp : p<nproc) (hm : ip∈s.hand p) (fs : Fs) :
    own s=Pi.single ip 1+own ((s.setFs fs).setHand p ((s.hand p).erase ip)) := by
  show _=_+(installed s.sys+hands (update s.hand p ((s.hand p).erase ip)))
  rw [add_left_comm,hands_erase s.hand hp hm]
  rfl

lemma own_pos_of_installed (h : 0< installed s.sys ip) : 0<own s ip := Nat.add_pos_left h _

lemma own_pos_of_hand (hp : p<nproc) (h : ip∈s.hand p) : 0<own s ip :=
  Nat.add_pos_right _ (hands_pos hp h)

section Files

variable {ftable : ℕ→File} {refs refs' : ℕ→ℕ} {e : File}

lemma Counted.pos (h : Counted ftable refs) (hf : (ftable f).type≠.none) : 0<refs f := by
  by_contra hc
  exact hf (h.unused f (by omega))

lemma Counted.setFile (h : Counted ftable refs) (hf : f<nfile) (hrefs : ∀ g,g≠f→ refs' g=refs g)
    (href : e.ref=refs' f) (hnone : refs' f=0→ e.type=.none) :
    Counted (update ftable f e) refs' := by
  refine ⟨fun g => ?_,fun g hg => ?_,fun g hg => ?_⟩
  · grind [h.ref]
  · by_cases hgf : g=f
    · rw [hgf]
      exact hf
    · rw [hrefs g hgf] at hg
      exact h.slots g hg
  · grind [h.unused]

lemma fileOwn_setFile (hf : f<nfile) (e : File) :
    fileOwn (update ftable f e)+slotOwn (ftable f)=fileOwn ftable+slotOwn e :=
  Tally.total_update slotOwn ftable hf e

lemma isFor_iff : isFor e ip=true ↔ (e.type=.inode ∨ e.type=.device) ∧ e.ip=ip := by
  simp only [isFor,Bool.and_eq_true,Bool.or_eq_true,decide_eq_true_eq]

lemma Counted.held (h : Counted ftable refs) (hf : isFor (ftable f) ip=true) :
    0<fileOwn ftable ip := by
  obtain ⟨hty,rfl⟩ := isFor_iff.mp hf
  have hne : (ftable f).type≠.none := by grind
  exact lt_of_lt_of_le (slotOwn_pos hty) (Tally.le_total slotOwn ftable (h.slots f (h.pos hne)) _)

lemma opens_iff {s : Sys} : opens s p ip=true ↔ ∃ q fd f,s.proc p=some q ∧ fd<nofile ∧
    q.ofile fd=some f ∧ isFor (s.ftable f) ip=true := by grind [opens,Option.any_eq_true]

lemma reaches_iff : s.reaches p ip=true ↔ ip∈s.hand p ∨ opens s.sys p ip=true := by
  rw [Kernel.reaches,Bool.or_eq_true,decide_eq_true_eq]

lemma opens_mono {s s' : Sys} (h : opens s p ip=true)
    (hkeep : ∀ q fd f,s.proc p=some q→q.ofile fd=some f→
      ∃ q',s'.proc p=some q' ∧ q'.ofile fd=some f ∧ isFor (s'.ftable f) ip=isFor (s.ftable f) ip) :
    opens s' p ip=true := by grind [opens_iff]

end Files

lemma Inv.reach_pos (h : Inv s) (hp : p<nproc) (hr : s.reaches p ip=true) : 0<own s ip := by
  rcases reaches_iff.mp hr with hm | ho
  · exact own_pos_of_hand hp hm
  · obtain ⟨_,_,f,_,_,_,hi⟩ := opens_iff.mp ho
    exact own_pos_of_installed (Nat.add_pos_left (h.files.held hi) _)

lemma Inv.held_pos (h : Inv s) (hh : s.holder ip=some p) : 0<own s ip := by
  obtain ⟨hp,_,hr⟩ := h.held ip p hh
  exact h.reach_pos hp hr

lemma Inv.allocated (h : Inv s) (hip : 0<own s ip) (hv : (s.sys.fs.itable ip).valid=true) :
    (s.sys.fs.dinode (s.sys.fs.itable ip).inum).type≠.free := by
  obtain ⟨hc,ht⟩ := h.inode.loaded ip hip hv
  rw [← hc]
  exact ht

lemma Inv.free_iff (h : Inv s) (hf : s.free p=true) : ∀ ip,s.holder ip≠some p := by
  grind [h.inode.slots,h.held_pos,Kernel.free]

lemma TaskOk.mono {k : Task} (h : TaskOk s p k) (hhand : ∀ ip,ip∈s.hand p→ip∈t.hand p)
    (hholder : ∀ ip,t.holder ip=some p ↔ s.holder ip=some p)
    (hinst : ∀ ip,s.holder ip=some p→ installed s.sys ip=0→ installed t.sys ip=0) :
    TaskOk t p k := by
  cases k with
  | idle | claimed => trivial
  | freeing ip =>
    obtain ⟨h1,h2,h3⟩ := h
    exact ⟨hhand ip h1,(hholder ip).mpr h2,hinst ip h2 h3⟩
  | dropping ip => exact ⟨hhand ip h.1,fun hc => h.2 ((hholder ip).mp hc)⟩
  | created ip => exact hhand ip h

lemma Inv.setTask (h : Inv s) {k : Task} (hk : TaskOk s p k) : Inv (s.setTask p k) := by
  refine ⟨h.inode,h.files,h.procs,h.alive,h.lock,h.held,fun r => ?_⟩
  by_cases hr : r=p
  · subst hr
    show TaskOk _ _ (update s.task r k r)
    rw [update_self]
    exact hk
  · show TaskOk _ _ (update s.task p k r)
    rw [update_of_ne hr]
    exact h.tasks r

lemma Inv.setLog (h : Inv s) (l : List Event) : Inv {s with log := l} :=
  ⟨h.inode,h.files,h.procs,h.alive,h.lock,h.held,h.tasks⟩

lemma Inv.setFs (h : Inv s) {fs' : Fs} (hi : InodeInv fs' (own s))
    (hk : ∀ ip,0<own s ip→(s.sys.fs.dinode (s.sys.fs.itable ip).inum).type≠.free→
      Holds s.sys.fs fs' ip)
    (hl : locks fs'=locks s.sys.fs) : Inv (s.setFs fs') := by
  refine ⟨hi,h.files,h.procs,fun ip hip => ?_,fun ip => (congrFun hl ip).trans (h.lock ip),
    fun ip p hh => ?_,h.tasks⟩
  · have hh := hk ip (own_pos_of_installed hip) (h.alive ip hip)
    show (fs'.dinode (fs'.itable ip).inum).type≠.free
    rw [hh.inum,hh.type]
    exact h.alive ip hip
  · obtain ⟨hp,hv,hr⟩ := h.held ip p hh
    have hpos := h.reach_pos hp hr
    exact ⟨hp,(hk ip hpos (h.allocated hpos hv)).valid hv,hr⟩

/-- A step that changes nothing on disk and gives no reference up. -/
structure Calm (s t : Kernel) : Prop where
  disk : SameDisk s.sys.fs t.sys.fs
  kept : Kept (own s) s.sys.fs t.sys.fs
  own : ∀ ip,0<own s ip→0<own t ip
  log : t.log=s.log

structure Written (s t : Kernel) (ip : ℕ) : Prop where
  held : 0<own s ip
  valid : (s.sys.fs.itable ip).valid=true
  update : Updates s.sys.fs t.sys.fs ip
  kept : Kept (own s) s.sys.fs t.sys.fs
  places : ∀ r,occ s.sys.fs r≠0→ occ t.sys.fs r=occ s.sys.fs r
  own : own t=own s
  task : t.task=s.task
  log : t.log=s.log

structure Dropped (s t : Kernel) (p ip : ℕ) : Prop where
  disk : SameDisk s.sys.fs t.sys.fs
  entry : ∀ jp,(t.sys.fs.itable jp).inum=(s.sys.fs.itable jp).inum ∧
    (t.sys.fs.itable jp).valid=(s.sys.fs.itable jp).valid
  own : own s=Pi.single ip 1+own t
  last : s.task p=.dropping ip ∨ lastRef s.sys.fs ip=false
  task : ∀ r,t.task r=s.task r ∨ r=p ∧ s.task p=.dropping ip ∧ t.task p=.idle
  log : t.log=s.log

structure Erased (s t : Kernel) (p ip : ℕ) : Prop where
  held : 0<own s ip
  valid : (s.sys.fs.itable ip).valid=true
  alone : installed s.sys ip=0
  before : s.task p=.freeing ip
  frees : Frees s.sys.fs t.sys.fs (s.sys.fs.itable ip).inum
  others : ∀ jp,jp≠ip→t.sys.fs.itable jp=s.sys.fs.itable jp
  inum : (t.sys.fs.itable ip).inum=(s.sys.fs.itable ip).inum
  own : own t=own s
  task : t.task=update s.task p (.dropping ip)
  log : t.log=.freed (s.sys.fs.itable ip).inum::s.log

structure Claimed (s t : Kernel) (p i : ℕ) (type : FileType) : Prop where
  free : (s.sys.fs.dinode i).type=.free
  kind : type≠.free
  before : s.task p=.idle
  fs : t.sys.fs=claim s.sys.fs i type
  own : own t=own s
  task : t.task=update s.task p (.claimed i)
  log : t.log=.allocated i::s.log

inductive Effect (s t : Kernel) (p : ℕ) (a : Act) : Prop where
  | quiet (h : Calm s t)
      (htask : ∀ r,t.task r=s.task r ∨ s.task r=.idle ∧ ∃ ip,t.task r=.freeing ip)
  | got {i ip : ℕ} (h : Calm s t) (hs : s.task p=.claimed i)
      (ht : t.task=update s.task p (.created ip))
      (hi : (t.sys.fs.itable ip).inum=i)
  | loaded {ip : ℕ} (h : Calm s t) (hs : s.task p=.created ip)
      (ht : t.task=update s.task p .idle) (hip : 0<own s ip)
      (hv : (t.sys.fs.itable ip).valid=true)
  | written {ip : ℕ} (h : Written s t ip)
  | dropped {ip : ℕ} (h : Dropped s t p ip)
  | erased {ip : ℕ} (h : Erased s t p ip)
  | claimed {i : ℕ} {type : FileType} (h : Claimed s t p i type) (ha : a=.ialloc i type)

section Steps

variable {fs' : Fs}

lemma Inv.tasks_step (h : Inv s) (ht : ∀ r,r≠p→t.task r=s.task r) (hself : TaskOk t p (t.task p))
    (hhand : ∀ r,r≠p→t.hand r=s.hand r)
    (hholder : ∀ r jp,r≠p→(t.holder jp=some r ↔ s.holder jp=some r))
    (hinst : ∀ r jp,r≠p→s.holder jp=some r→ installed s.sys jp=0→ installed t.sys jp=0) :
    ∀ r,TaskOk t r (t.task r) := by
  intro r
  by_cases hr : r=p
  · rw [hr]
    exact hself
  · rw [ht r hr]
    exact (h.tasks r).mono (fun jp hj => by rw [hhand r hr]; exact hj) (fun jp => hholder r jp hr)
      fun jp => hinst r jp hr

/-- A process that is in the middle of nothing, or of create. -/
def Ready (s : Kernel) (p : ℕ) : Prop :=
  s.task p=.idle ∨ (∃ i,s.task p=.claimed i) ∨ ∃ ip,s.task p=.created ip

lemma Ready.taskOk (h : Ready s p) (hk : TaskOk s p (s.task p))
    (hhand : ∀ ip,ip∈s.hand p→ip∈t.hand p) : TaskOk t p (s.task p) := by
  rcases h with h | ⟨i,h⟩ | ⟨ip,h⟩
  · rw [h]
    trivial
  · rw [h]
    trivial
  · rw [h] at hk ⊢
    exact hhand ip hk

lemma holder_update {holder : ℕ→Option ℕ} {r jp : ℕ} {o o' : Option ℕ} (hs : holder ip=o)
    (hr : o'≠some r) (hr' : o≠some r) :
    update holder ip o' jp=some r ↔ holder jp=some r := by grind

variable (h : Inv s)

include h

lemma Inv.holder_none (hl : (s.sys.fs.itable ip).locked=false) : s.holder ip=none := by
  have hlk := h.lock ip
  rw [hl] at hlk
  cases hh : s.holder ip with
  | none => rfl
  | some r =>
    rw [hh] at hlk
    cases hlk

lemma Inv.lock_update {o : Option ℕ} (hl : locks fs'=update (locks s.sys.fs) ip o.isSome) (jp : ℕ) :
    (fs'.itable jp).locked=(update s.holder ip o jp).isSome := by
  show locks fs' jp=_
  rw [hl]
  by_cases hj : jp=ip
  · grind
  · rw [update_of_ne hj,update_of_ne hj]
    exact h.lock jp

lemma Inv.alive_kept (hk : Kept (own s) s.sys.fs t.sys.fs) (hip : 0< installed s.sys ip) :
    (t.sys.fs.dinode (t.sys.fs.itable ip).inum).type≠.free := by
  have hh := hk ip (own_pos_of_installed hip)
  rw [hh.inum,hh.type]
  exact h.alive ip hip

lemma lock_inv (hready : Ready s p) (hp : p<nproc) (hr : s.reaches p ip=true)
    (hrun : s.lock p ip=.next t) :
    Inv t ∧ Calm s t ∧ t.task=s.task ∧ (t.sys.fs.itable ip).valid=true := by
  have hpos := h.reach_pos hp hr
  obtain ⟨fs',hlock,ht⟩ := bind_eq_next.mp hrun
  cases ht
  have hspec : Ensures (fun _ => True) (ilock s.sys.fs ip) _ :=
    ilock_spec h.inode hpos fun _ => trivial
  obtain ⟨hi,hq,hv,hfree,hl⟩ := hspec.of_next hlock
  have hnone := h.holder_none hfree
  refine ⟨⟨hi,h.files,h.procs,fun jp hj => h.alive_kept hq.kept hj,h.lock_update hl,
    fun jp r hh => ?_,?_⟩,⟨hq.disk,hq.kept,fun _ hj => hj,rfl⟩,rfl,hv⟩
  · have hh' : update s.holder ip (some p) jp=some r := hh
    by_cases hj : jp=ip
    · rw [hj,update_self] at hh'
      cases hh'
      rw [hj]
      exact ⟨hp,hv,hr⟩
    · rw [update_of_ne hj] at hh'
      obtain ⟨hr1,hv1,hr2⟩ := h.held jp r hh'
      exact ⟨hr1,(hq.kept jp (h.reach_pos hr1 hr2)).valid hv1,hr2⟩
  · exact h.tasks_step (fun _ _ => rfl) (hready.taskOk (h.tasks p) fun _ hj => hj) (fun _ _ => rfl)
      (fun r jp hr' => holder_update hnone (fun hc => hr' (Option.some.inj hc).symm)
        (Option.some_ne_none r).symm) fun _ _ _ _ h0 => h0

lemma unlock_inv (hidle : s.task p=.idle) (hh : s.holder ip=some p)
    (hrun : iunlock s.sys.fs ip=.next fs') :
    Inv ((s.setFs fs').setHolder ip none) ∧ Calm s ((s.setFs fs').setHolder ip none) := by
  have hpos := h.held_pos hh
  have hspec : Ensures (fun _ => True) (iunlock s.sys.fs ip) _ :=
    iunlock_spec h.inode hpos trivial
  obtain ⟨hi,hq,hl,_⟩ := hspec.of_next hrun
  refine ⟨⟨hi,h.files,h.procs,fun jp hj => h.alive_kept hq.kept hj,h.lock_update hl,
    fun jp r hjr => ?_,?_⟩,⟨hq.disk,hq.kept,fun _ hj => hj,rfl⟩⟩
  · have hjr' : update s.holder ip none jp=some r := hjr
    by_cases hj : jp=ip
    · grind
    · rw [update_of_ne hj] at hjr'
      obtain ⟨hr1,hv1,hr2⟩ := h.held jp r hjr'
      exact ⟨hr1,(hq.kept jp (h.reach_pos hr1 hr2)).valid hv1,hr2⟩
  · refine h.tasks_step (p:=p) (fun _ _ => rfl) ?_ (fun _ _ => rfl)
      (fun r jp hr' => holder_update hh (Option.some_ne_none r).symm
        fun hc => hr' (Option.some.inj hc).symm) fun _ _ _ _ h0 => h0
    show TaskOk _ p (s.task p)
    rw [hidle]
    trivial

lemma hold_inv (hready : Ready s p) (hp : p<nproc) (hi : InodeInv fs' (Pi.single ip 1+own s))
    (hq : Quiet (own s) s.sys.fs fs') (hl : locks fs'=locks s.sys.fs) :
    Inv ((s.setFs fs').setHand p (ip::s.hand p)) ∧
      Calm s ((s.setFs fs').setHand p (ip::s.hand p)) := by
  have hown := own_cons s hp ip fs'
  have hmem : ∀ r jp,jp∈s.hand r→jp∈update s.hand p (ip::s.hand p) r := by grind
  refine ⟨⟨by rw [hown]; exact hi,h.files,h.procs,fun jp hj => h.alive_kept hq.kept hj,
    fun jp => (congrFun hl jp).trans (h.lock jp),fun jp r hjr => ?_,?_⟩,
    ⟨hq.disk,hq.kept,fun jp hj => by rw [hown]; exact single_add_pos hj,rfl⟩⟩
  · obtain ⟨hr1,hv1,hr2⟩ := h.held jp r hjr
    refine ⟨hr1,(hq.kept jp (h.reach_pos hr1 hr2)).valid hv1,reaches_iff.mpr ?_⟩
    exact (reaches_iff.mp hr2).imp (hmem r jp) id
  · exact h.tasks_step (fun _ _ => rfl) (hready.taskOk (h.tasks p) (hmem p))
      (fun r hr => update_of_ne hr _ _) (fun _ _ _ => Iff.rfl) fun _ _ _ _ h0 => h0

lemma get_inv (hready : Ready s p) (hp : p<nproc) {inum : ℕ} {r : Kernel×ℕ}
    (hrun : s.get p inum=.next r) :
    Inv r.1 ∧ Calm s r.1 ∧ r.1.task=s.task ∧ (r.1.sys.fs.itable r.2).inum=inum ∧
      r.2∈r.1.hand p := by
  obtain ⟨⟨fs',ip⟩,hget,ht⟩ := bind_eq_next.mp hrun
  cases ht
  have hspec : Ensures (fun _ => True) (iget s.sys.fs inum) _ := iget_spec h.inode inum trivial
  obtain ⟨hi,hq,hl,hin⟩ := hspec.of_next hget
  obtain ⟨h1,h2⟩ := hold_inv h hready hp hi hq hl
  refine ⟨h1,h2,rfl,hin,?_⟩
  show ip∈update s.hand p (ip::s.hand p) p
  grind

lemma drop_inv (hp : p<nproc) (hm : ip∈s.hand p) (hh : s.holder ip≠some p)
    (hlast : s.task p=.dropping ip ∨ s.task p=.idle ∧ lastRef s.sys.fs ip=false) :
    Inv ((s.drop p ip).setTask p .idle) ∧ Dropped s ((s.drop p ip).setTask p .idle) p ip := by
  have hown := own_erase s hp hm (dropRef s.sys.fs ip)
  have hinode := h.inode
  rw [hown] at hinode
  obtain ⟨hi,hq,hl⟩ := dropRef_spec hinode
  have hentry : ∀ jp,((dropRef s.sys.fs ip).itable jp).inum=(s.sys.fs.itable jp).inum ∧
      ((dropRef s.sys.fs ip).itable jp).valid=(s.sys.fs.itable jp).valid := by
    intro jp
    by_cases hj : jp=ip
    · rw [hj,dropRef,setInode_self]
      exact ⟨rfl,rfl⟩
    · rw [dropRef,setInode_of_ne _ hj]
      exact ⟨rfl,rfl⟩
  have hhand : ∀ r,r≠p→update s.hand p ((s.hand p).erase ip) r=s.hand r := fun r hr =>
    update_of_ne hr _ _
  refine ⟨⟨hi,h.files,h.procs,fun jp hj => ?_,fun jp => (congrFun hl jp).trans (h.lock jp),
    fun jp r hjr => ?_,?_⟩,⟨hq.disk,hentry,hown,hlast.imp id And.right,fun r => ?_,rfl⟩⟩
  · show ((dropRef s.sys.fs ip).dinode ((dropRef s.sys.fs ip).itable jp).inum).type≠.free
    rw [(hentry jp).1]
    exact h.alive jp hj
  · obtain ⟨hr1,hv1,hr2⟩ := h.held jp r hjr
    refine ⟨hr1,(hentry jp).2.trans hv1,reaches_iff.mpr ?_⟩
    refine (reaches_iff.mp hr2).imp (fun hj => ?_) id
    show jp∈update s.hand p ((s.hand p).erase ip) r
    by_cases hr : r=p
    · have hne : jp≠ip := by
        rintro rfl
        exact hh (hr ▸ hjr)
      grind
    · rw [hhand r hr]
      exact hj
  · refine h.tasks_step (fun r hr => update_of_ne hr _ _) ?_ hhand (fun _ _ _ => Iff.rfl)
      fun _ _ _ _ h0 => h0
    show TaskOk _ p (update s.task p .idle p)
    rw [update_self]
    trivial
  · show update s.task p .idle r=s.task r ∨ _
    by_cases hr : r=p
    · rcases hlast with hd | ⟨hd,_⟩
      · refine .inr ⟨hr,hd,?_⟩
        exact update_self _ _ _
      · grind
    · grind

lemma last_inv (hp : p<nproc) (hm : ip∈s.hand p) (hlast : lastRef s.sys.fs ip=true)
    (hfree : (s.sys.fs.itable ip).locked=false) :
    let t := ((s.setFs (lockInode s.sys.fs ip)).setHolder ip (some p)).setTask p (.freeing ip)
    Inv t ∧ Calm s t := by
  have hown := own_erase s hp hm s.sys.fs
  have hinode := h.inode
  rw [hown] at hinode
  obtain ⟨hzero,hv,_⟩ := (lastRef_iff hinode).mp hlast
  have hinst : installed s.sys ip=0 := (Nat.add_eq_zero_iff.mp hzero).1
  have hpos := own_pos_of_hand hp hm
  obtain ⟨hi,hq,hl⟩ := lockInode_spec h.inode hpos
  have hnone := h.holder_none hfree
  refine ⟨⟨hi,h.files,h.procs,fun jp hj => h.alive_kept hq.kept hj,h.lock_update hl,
    fun jp r hjr => ?_,?_⟩,⟨hq.disk,hq.kept,fun _ hj => hj,rfl⟩⟩
  · have hjr' : update s.holder ip (some p) jp=some r := hjr
    by_cases hj : jp=ip
    · rw [hj,update_self] at hjr'
      cases hjr'
      rw [hj]
      exact ⟨hp,(hq.kept ip hpos).valid hv,reaches_iff.mpr (.inl hm)⟩
    · rw [update_of_ne hj] at hjr'
      obtain ⟨hr1,hv1,hr2⟩ := h.held jp r hjr'
      exact ⟨hr1,(hq.kept jp (h.reach_pos hr1 hr2)).valid hv1,hr2⟩
  · refine h.tasks_step (fun r hr => update_of_ne hr _ _) ?_ (fun _ _ => rfl)
      (fun r jp hr' => holder_update hnone (fun hc => hr' (Option.some.inj hc).symm)
        (Option.some_ne_none r).symm) fun _ _ _ _ h0 => h0
    show TaskOk _ p (update s.task p (.freeing ip) p)
    rw [update_self]
    exact ⟨hm,update_self _ _ _,hinst⟩

lemma erase_inv (hp : p<nproc) (htask : s.task p=.freeing ip) (hrun : erase s.sys.fs ip=.next fs') :
    let t : Kernel := {((s.setFs fs').setHolder ip none).setTask p (.dropping ip) with
      log := .freed (s.sys.fs.itable ip).inum::s.log}
    Inv t ∧ Erased s t p ip := by
  have hok := h.tasks p
  rw [htask] at hok
  obtain ⟨hm,hh,hinst⟩ := hok
  have hpos := own_pos_of_hand hp hm
  have hv := (h.held ip p hh).2.1
  obtain ⟨fs1,d,hrun1,hi,hfrees,hothers,hself⟩ := erase_spec h.inode hpos hv
  rw [hrun] at hrun1
  cases hrun1
  have hin : (fs'.itable ip).inum=(s.sys.fs.itable ip).inum := by rw [hself]
  have hl : locks fs'=update (locks s.sys.fs) ip false := by
    funext jp
    by_cases hj : jp=ip
    · rw [hj,locks,hself,update_self]
    · rw [locks,hothers jp hj,update_of_ne hj]
      rfl
  refine ⟨⟨hi,h.files,h.procs,fun jp hj => ?_,h.lock_update hl,fun jp r hjr => ?_,?_⟩,
    ⟨hpos,hv,hinst,htask,hfrees,hothers,hin,rfl,rfl,rfl⟩⟩
  · have hne : jp≠ip := by
      rintro rfl
      have hj' : 0< installed s.sys jp := hj
      omega
    show (fs'.dinode (fs'.itable jp).inum).type≠.free
    rw [hothers jp hne,hfrees.dinode _ fun hc =>
      hne (h.inode.distinct jp ip (own_pos_of_installed hj) hpos hc)]
    exact h.alive jp hj
  · have hjr' : update s.holder ip none jp=some r := hjr
    by_cases hj : jp=ip
    · rw [hj,update_self] at hjr'
      cases hjr'
    · rw [update_of_ne hj] at hjr'
      obtain ⟨hr1,hv1,hr2⟩ := h.held jp r hjr'
      refine ⟨hr1,?_,hr2⟩
      show (fs'.itable jp).valid=true
      grind
  · refine h.tasks_step (fun r hr => update_of_ne hr _ _) ?_ (fun _ _ => rfl)
      (fun r jp hr' => holder_update hh (Option.some_ne_none r).symm
        fun hc => hr' (Option.some.inj hc).symm) fun _ _ _ _ h0 => h0
    show TaskOk _ p (update s.task p (.dropping ip) p)
    rw [update_self]
    refine ⟨hm,?_⟩
    show update s.holder ip none ip≠some p
    rw [update_self]
    exact fun hc => by cases hc

lemma claim_inv (hidle : s.task p=.idle) {i : ℕ} {type : FileType}
    (hi : 0< i ∧ i<s.sys.fs.sb.ninodes) (hfree : (s.sys.fs.dinode i).type=.free)
    (htype : type≠.free) :
    let t : Kernel := {(s.setFs (claim s.sys.fs i type)).setTask p (.claimed i) with
      log := .allocated i::s.log}
    Inv t ∧ Claimed s t p i type := by
  have hinv : InodeInv (claim s.sys.fs i type) _ := inodeInv_blank h.inode hfree hi
  have hfs : Inv (s.setFs (claim s.sys.fs i type)) := by
    refine h.setFs hinv (fun ip _ hne => ⟨rfl,id,?_⟩) rfl
    have hni : (s.sys.fs.itable ip).inum≠i := by grind
    exact congrArg Dinode.type (update_of_ne hni _ _)
  exact ⟨(hfs.setTask (k:=.claimed i) trivial).setLog _,hfree,htype,hidle,rfl,rfl,rfl,rfl⟩

omit h

lemma lockedOp_spec {fs : Fs} {refs : ℕ→ℕ} (h : InodeInv fs refs) (hip : 0<refs ip)
    (hv : (fs.itable ip).valid=true) (op : LockedOp) :
    ∃ fs',lockedOp fs ip op=.next fs' ∧ InodeInv fs' refs ∧ Updates fs fs' ip ∧
      Kept refs fs fs' ∧ ∀ r,occ fs r≠0→ occ fs' r=occ fs r := by
  have hmodify : ∀ f : Dinode→Dinode,(f (fs.itable ip).copy).type=(fs.itable ip).copy.type→
      (f (fs.itable ip).copy).addrs=(fs.itable ip).copy.addrs→
      (f (fs.itable ip).copy).size=(fs.itable ip).copy.size→
      InodeInv (iupdate (fs.edit ip f) ip) refs ∧ Updates fs (iupdate (fs.edit ip f) ip) ip ∧
      Kept refs fs (iupdate (fs.edit ip f) ip) ∧
      ∀ r,occ fs r≠0→ occ (iupdate (fs.edit ip f) ip) r=occ fs r := by
    intro f ht ha hs
    obtain ⟨h',hu,hocc⟩ := modify_spec h hip hv ht ha hs
    refine ⟨h',hu,kept_of_updates h hip hv hu h' ?_,fun r _ => by rw [hocc]⟩
    rw [iupdate_itable,edit_self]
    exact ht
  cases op with
  | readi room off n =>
    obtain ⟨r,hr⟩ := readi_spec h hip hv room off n
    exact ⟨fs,by rw [lockedOp,hr,bind_next],h,⟨rfl,fun _ _ => rfl,⟨_,rfl⟩,fun _ _ => rfl,
      fun _ _ _ _ => ⟨rfl,rfl⟩⟩,.refl refs fs,fun _ _ => rfl⟩
  | writei src off n =>
    obtain ⟨fs',r,hrun,h',hu,⟨a,size,hc⟩,hocc⟩ := writei_full h hip hv src off n
    exact ⟨fs',by rw [lockedOp,hrun,bind_next],h',hu,
      kept_of_updates h hip hv hu h' (by rw [hc]),hocc⟩
  | addLink | fill | unfill => exact ⟨_,rfl,hmodify _ rfl rfl rfl⟩

lemma lockedOp_inv (h : Inv s) (hh : s.holder ip=some p) (op : LockedOp)
    (hrun : lockedOp s.sys.fs ip op=.next fs') :
    Inv (s.setFs fs') ∧ Written s (s.setFs fs') ip := by
  have hpos := h.held_pos hh
  have hv := (h.held ip p hh).2.1
  obtain ⟨fs1,hrun1,hi,hu,hk,hocc⟩ := lockedOp_spec h.inode hpos hv op
  rw [hrun] at hrun1
  cases hrun1
  exact ⟨h.setFs hi (fun jp hj _ => hk jp hj) (locks_of_updates hu),hpos,hv,hu,hk,hocc,rfl,rfl,rfl⟩

end Steps

/-- A step of process p that hands references on between local variables,
files and current directories. -/
structure Moves (s t : Kernel) (p : ℕ) : Prop where
  inode : InodeInv t.sys.fs (own t)
  quiet : Quiet (own s) s.sys.fs t.sys.fs
  locks : locks t.sys.fs=locks s.sys.fs
  files : Counted t.sys.ftable (fdRefs t.sys.proc)
  procs : ProcsOk t.sys.proc
  own : ∀ ip,0<own s ip→0<own t ip
  fresh : ∀ ip,0< installed t.sys ip→0< installed s.sys ip ∨ s.holder ip=some p
  reach : ∀ ip r,s.holder ip=some r→s.reaches r ip=true→t.reaches r ip=true
  hand : ∀ r,r≠p→t.hand r=s.hand r
  holder : t.holder=s.holder
  task : t.task=s.task
  log : t.log=s.log

lemma Moves.inv (m : Moves s t p) (h : Inv s) (hidle : s.task p=.idle) : Inv t ∧ Calm s t := by
  have hkept := m.quiet.kept
  refine ⟨⟨m.inode,m.files,m.procs,fun ip hip => ?_,fun ip => ?_,fun ip r hh => ?_,?_⟩,
    m.quiet.disk,hkept,m.own,m.log⟩
  · rcases m.fresh ip hip with hold | hheld
    · exact h.alive_kept hkept hold
    · have hpos := h.held_pos hheld
      have hk := hkept ip hpos
      rw [hk.inum,hk.type]
      exact h.allocated hpos (h.held ip p hheld).2.1
  · rw [m.holder]
    exact (congrFun m.locks ip).trans (h.lock ip)
  · rw [m.holder] at hh
    obtain ⟨hr,hv,hreach⟩ := h.held ip r hh
    exact ⟨hr,(hkept ip (h.reach_pos hr hreach)).valid hv,m.reach ip r hh hreach⟩
  · refine h.tasks_step (fun r _ => congrFun m.task r) ?_ m.hand (fun r jp _ => by rw [m.holder])
      fun r jp hr hh h0 => ?_
    · rw [m.task,hidle]
      trivial
    · by_contra hc
      rcases m.fresh jp (Nat.pos_of_ne_zero hc) with hold | hheld
      · omega
      · grind

lemma Counted.filealloc {y : Sys} {refs : ℕ→ℕ} (h : Counted y.ftable refs) (hf : filealloc y=some f) :
    f<nfile ∧ refs f=0 ∧ (y.ftable f).type=.none := by
  obtain ⟨hr,hm,-⟩ := List.find?_range_eq_some.mp hf
  have href := h.ref f
  rw [decide_eq_true_iff] at hr
  have h0 : refs f=0 := by omega
  exact ⟨List.mem_range.mp hm,h0,h.unused f h0⟩

/-- Store a file in the file table and in a new descriptor. -/
def assign (y : Sys) (p : ℕ) (q : Proc) (fd f : ℕ) (e : File) : Sys :=
  (y.setFile f e).setProc p (some (q.setFd fd (some f)))

section Assign

variable {y : Sys} {e : File} {r : ℕ}

lemma installed_assign (hpr : ProcsOk y.proc) (hq : y.proc p=some q) (hf : f<nfile)
    (fd : ℕ) (e : File) :
    installed (assign y p q fd f e)+slotOwn (y.ftable f)=installed y+slotOwn e := by
  have hfile : fileOwn (update y.ftable f e)+slotOwn (y.ftable f)=
      fileOwn y.ftable+slotOwn e := fileOwn_setFile hf e
  have hcwd := cwds_setFd hpr hq fd (some f)
  show fileOwn (update y.ftable f e)+cwds (update y.proc p _)+_=_
  rw [hcwd,add_right_comm,hfile,add_right_comm]
  rfl

lemma Counted.assign (h : Counted y.ftable (fdRefs y.proc)) (hpr : ProcsOk y.proc)
    (hq : y.proc p=some q) (hfd : fdalloc q=some fd) (hf : f<nfile)
    (href : e.ref=fdRefs y.proc f+1) :
    Counted (assign y p q fd f e).ftable (fdRefs (assign y p q fd f e).proc) := by
  show Counted (update y.ftable f e) (fdRefs (update y.proc p _))
  rw [fdRefs_fdalloc hpr hq hfd]
  refine h.setFile hf (fun g hg => single_add_of_ne _ hg) ?_ fun hc => ?_
  · rw [single_add_self,href]
    push_cast
    rfl
  · rw [single_add_self] at hc
    omega

lemma opens_assign (hpr : ProcsOk y.proc) (hq : y.proc p=some q) (hfd : fdalloc q=some fd)
    (he : 0<fdRefs y.proc f→ isFor e ip=isFor (y.ftable f) ip) (h : opens y r ip=true) :
    opens (assign y p q fd f e) r ip=true := by
  have hnone := (fdalloc_some hfd).2
  refine opens_mono h fun q1 fd1 g hq1 hof => ?_
  have hfor : isFor (update y.ftable f e g) ip=isFor (y.ftable g) ip := by
    by_cases hg : g=f
    · rw [hg,update_self]
      rw [hg] at hof
      exact he (fdRefs_pos hpr hq1 hof)
    · rw [update_of_ne hg]
  by_cases hr : r=p
  · rw [hr,hq] at hq1
    cases hq1
    have hne : fd1≠fd := by grind
    refine ⟨q.setFd fd (some f),?_,(update_of_ne hne _ _).trans hof,hfor⟩
    rw [hr]
    exact update_self _ _ _
  · exact ⟨q1,(update_of_ne hr _ _).trans hq1,hof,hfor⟩

lemma opens_assign_self (hfd : fdalloc q=some fd) (he : isFor e ip=true) :
    opens (assign y p q fd f e) p ip=true := by
  refine opens_iff.mpr ⟨q.setFd fd (some f),fd,f,update_self _ _ _,(fdalloc_some hfd).1,
    update_self _ _ _,?_⟩
  show isFor (update y.ftable f e f) ip=true
  rw [update_self]
  exact he

end Assign

lemma openFile_for (d : Dinode) (ip omode : ℕ) (e : File) :
    isFor (openFile d ip omode e) ip=true ∧ slotOwn (openFile d ip omode e)=Pi.single ip 1 := by
  have hty : (openFile d ip omode e).type=.inode ∨ (openFile d ip omode e).type=.device := by
    grind [openFile]
  exact ⟨isFor_iff.mpr ⟨hty,rfl⟩,if_pos hty⟩

lemma install_moves (h : Inv s) (hq : s.sys.proc p=some q) (hm : ip∈s.hand p)
    (hh : s.holder ip=some p) (hf : filealloc s.sys=some f) (hfd : fdalloc q=some fd) {e : File}
    (href : e.ref=1) (hfor : isFor e ip=true) (hslot : slotOwn e=Pi.single ip 1) :
    Moves s {s.setHand p ((s.hand p).erase ip) with sys := assign s.sys p q fd f e} p := by
  obtain ⟨hlt,h0,hty⟩ := h.files.filealloc hf
  have hsys := installed_assign h.procs hq hlt fd e
  rw [slotOwn_other (.inl hty),hslot,add_zero] at hsys
  have hown : own {s.setHand p ((s.hand p).erase ip) with sys := assign s.sys p q fd f e}=own s := by
    rw [own,hsys,add_assoc]
    exact congrArg _ (hands_erase s.hand (h.procs p q hq).1 hm)
  refine ⟨by rw [hown]; exact h.inode,.refl (own s) s.sys.fs,rfl,?_,?_,
    by rw [hown]; exact fun _ hj => hj,fun jp hj => ?_,fun jp r hjr hreach => ?_,
    fun r hr => update_of_ne hr _ _,rfl,rfl,rfl⟩
  · exact h.files.assign h.procs hq hfd hlt (by rw [h0]; exact href)
  · exact h.procs.setFd hq (fdalloc_some hfd).1 _
  · rw [hsys] at hj
    grind [Pi.add_apply]
  · refine reaches_iff.mpr ?_
    by_cases hself : r=p ∧ jp=ip
    · rw [hself.1,hself.2]
      exact .inr (opens_assign_self hfd hfor)
    · refine (reaches_iff.mp hreach).imp (fun hmem => ?_) (opens_assign h.procs hq hfd fun hc => ?_)
      · show jp∈update s.hand p ((s.hand p).erase ip) r
        grind
      · omega

lemma open_moves (h : Inv s) (hq : s.sys.proc p=some q) (hm : ip∈s.hand p)
    (hh : s.holder ip=some p) {omode : ℕ} (hrun : openStep s p q ip omode=.next t) :
    Moves s t p := by
  rw [openStep] at hrun
  dsimp only at hrun
  split at hrun
  · cases hrun
  split at hrun
  next f fd hf hfd =>
    cases hrun
    obtain ⟨hfor,hslot⟩ := openFile_for (s.sys.fs.itable ip).copy ip omode
      {s.sys.ftable f with ref := 1}
    exact install_moves h hq hm hh hf hfd rfl hfor hslot
  next => cases hrun

lemma redup_moves (h : Inv s) (hq : s.sys.proc p=some q) (hpos : 0<fdRefs s.sys.proc f)
    (hfd : fdalloc q=some fd) :
    Moves s {s with sys := (assign s.sys p q fd f
      {s.sys.ftable f with ref := (s.sys.ftable f).ref+1})} p := by
  have hlt := h.files.slots f hpos
  have hinst : installed (assign s.sys p q fd f
      {s.sys.ftable f with ref := (s.sys.ftable f).ref+1})=installed s.sys :=
    add_right_cancel (installed_assign h.procs hq hlt fd
      {s.sys.ftable f with ref := (s.sys.ftable f).ref+1})
  have hown : own {s with sys := (assign s.sys p q fd f
      {s.sys.ftable f with ref := (s.sys.ftable f).ref+1})}=own s := congrArg (·+hands s.hand) hinst
  refine ⟨by rw [hown]; exact h.inode,.refl (own s) s.sys.fs,rfl,?_,
    h.procs.setFd hq (fdalloc_some hfd).1 _,by rw [hown]; exact fun _ hj => hj,fun jp hj => ?_,
    fun jp r hjr hreach => ?_,fun _ _ => rfl,rfl,rfl,rfl⟩
  · exact h.files.assign h.procs hq hfd hlt (congrArg (·+1) (h.files.ref f))
  · rw [hinst] at hj
    exact .inl hj
  · exact reaches_iff.mpr ((reaches_iff.mp hreach).imp id
      (opens_assign h.procs hq hfd fun _ => rfl))

lemma moves_refl (h : Inv s) (p : ℕ) : Moves s s p :=
  ⟨h.inode,.refl (own s) s.sys.fs,rfl,h.files,h.procs,fun _ hj => hj,fun _ hj => .inl hj,
    fun _ _ _ hj => hj,fun _ _ => rfl,rfl,rfl,rfl⟩

lemma dup_moves (h : Inv s) (hq : s.sys.proc p=some q) {r : Sys×ℤ}
    (hrun : sysDup s.sys p q fd=.next r) : Moves s {s with sys := r.1} p := by
  rw [sysDup] at hrun
  split at hrun
  next =>
    cases hrun
    exact moves_refl h p
  next f hf =>
    split at hrun
    next =>
      cases hrun
      exact moves_refl h p
    next fd1 hfd =>
      obtain ⟨y,hdup,hr⟩ := bind_eq_next.mp hrun
      cases hr
      rw [filedup] at hdup
      split at hdup
      · cases hdup
      · cases hdup
        exact redup_moves h hq (fdRefs_pos h.procs hq (argfd_some hf).2) hfd

lemma hands_option (hand : ℕ→List ℕ) (hp : p<nproc) (o : Option ℕ) :
    hands (update hand p (o.toList++hand p))=fdOwn o+hands hand := by
  cases o with
  | none =>
    grind [fdOwn_none,update_eq_self]
  | some ip =>
    rw [fdOwn_some]
    exact hands_cons hand hp ip

lemma release_moves (h : Inv s) (hq : s.sys.proc p=some q) (hfd : fd<nofile)
    (hof : q.ofile fd=some f) (hfree : ∀ ip,s.holder ip≠some p) {y : Sys} {e : File}
    {o : Option ℕ} (hfile : y.ftable=update s.sys.ftable f e) (hfs : y.fs=s.sys.fs)
    (hproc : y.proc=update s.sys.proc p (some (q.setFd fd none)))
    (href : (s.sys.ftable f).ref=e.ref+1) (hnone : e.ref=0→ e.type=.none)
    (hslot : slotOwn (s.sys.ftable f)=slotOwn e+fdOwn o)
    (hfor : e.ref≠0→∀ ip,isFor e ip=isFor (s.sys.ftable f) ip) :
    Moves s {s.setHand p (o.toList++s.hand p) with sys := y} p := by
  have hp := (h.procs p q hq).1
  have hx := fdRefs_setFd h.procs hq hfd none
  rw [hof,fdOwn_none,fdOwn_some,add_zero,add_comm] at hx
  have hprocs := h.procs.setFd hq hfd none
  have hrefs : e.ref=fdRefs (update s.sys.proc p (some (q.setFd fd none))) f := by
    have h1 := h.files.ref f
    rw [←hx,single_add_self,href] at h1
    push_cast at h1
    omega
  have hlt := h.files.slots f (fdRefs_pos h.procs hq hof)
  have hinst : installed s.sys=installed y+fdOwn o := by
    have h1 : installed y+slotOwn (s.sys.ftable f)=installed s.sys+slotOwn e := by
      rw [installed,hfile,hproc,cwds_setFd h.procs hq,add_right_comm,fileOwn_setFile hlt,
        add_right_comm]
      rfl
    rw [hslot,add_comm (slotOwn e),←add_assoc] at h1
    exact (add_right_cancel h1).symm
  have hown : own {s.setHand p (o.toList++s.hand p) with sys := y}=own s := by
    show installed y+hands (update s.hand p (o.toList++s.hand p))=
      installed s.sys+hands s.hand
    rw [hands_option s.hand hp o,hinst,add_assoc]
  refine ⟨by rw [hown,hfs]; exact h.inode,by rw [hfs]; exact .refl (own s) s.sys.fs,by rw [hfs],
    ?_,by rw [hproc]; exact hprocs,by rw [hown]; exact fun _ hj => hj,fun jp hj => .inl ?_,
    fun jp r hjr hreach => ?_,fun r hr => update_of_ne hr _ _,rfl,rfl,rfl⟩
  · rw [hfile,hproc]
    refine h.files.setFile hlt (fun g hg => ?_) hrefs fun h0 => hnone (by rw [hrefs,h0]; rfl)
    rw [←hx,single_add_of_ne _ hg]
  · rw [hinst]
    exact Nat.add_pos_left hj _
  · have hr : r≠p := by
      grind
    refine reaches_iff.mpr ((reaches_iff.mp hreach).imp (fun hmem => ?_) fun ho => ?_)
    · show jp∈update s.hand p _ r
      grind
    · refine opens_mono ho fun q1 fd1 g hq1 hof1 => ?_
      have hq2 := (update_of_ne hr (some (q.setFd fd none)) s.sys.proc).trans hq1
      refine ⟨q1,by rw [hproc]; exact hq2,hof1,?_⟩
      rw [hfile]
      by_cases hg : g=f
      · rw [hg] at hof1 ⊢
        rw [update_self]
        have hpos := fdRefs_pos hprocs hq2 hof1
        exact hfor (by omega) jp
      · rw [update_of_ne hg]

lemma close_moves (h : Inv s) (hq : s.sys.proc p=some q) (hfree : s.free p=true)
    (hrun : closeStep s p q fd=.next t) : Moves s t p := by
  rw [closeStep] at hrun
  split at hrun
  next =>
    cases hrun
    exact moves_refl h p
  next f hf =>
    obtain ⟨hfd,hof⟩ := argfd_some hf
    obtain ⟨⟨y,o⟩,hdrop,ht⟩ := bind_eq_next.mp hrun
    cases ht
    have hrel := fun e o => @release_moves s p fd f q h hq hfd hof (h.free_iff hfree) y e o
    have hun : slotOwn {s.sys.ftable f with ref := 0,type := .none}=0 := slotOwn_other (.inl rfl)
    rw [dropFile] at hdrop
    dsimp only at hdrop
    split at hdrop
    · cases hdrop
    next hpos =>
      have hpos' : ¬(s.sys.ftable f).ref<1 := hpos
      split at hdrop
      next hmore =>
        have hmore' : 0<(s.sys.ftable f).ref-1 := hmore
        cases hdrop
        refine hrel {s.sys.ftable f with ref := (s.sys.ftable f).ref-1} none rfl rfl rfl ?_
          (fun h0 => ?_) ?_ fun _ _ => rfl
        · show _=(s.sys.ftable f).ref-1+1
          omega
        · have h0' : (s.sys.ftable f).ref-1=0 := h0
          omega
        · rw [fdOwn_none,add_zero]
          rfl
      next hlast =>
        have hlast' : ¬0<(s.sys.ftable f).ref-1 := hlast
        have hone : (s.sys.ftable f).ref=0+1 := by omega
        have hrel' := hrel {s.sys.ftable f with ref := 0,type := .none}
        split at hdrop
        next hty =>
          have hty' : (s.sys.ftable f).type=.none := hty
          cases hdrop
          refine hrel' none rfl rfl rfl hone (fun _ => rfl) ?_ fun hc => absurd rfl hc
          rw [hun,slotOwn_other (.inl hty'),fdOwn_none,add_zero]
        next hty =>
          have hty' : (s.sys.ftable f).type=.pipe := hty
          cases hdrop
          refine hrel' none (pipeclose_ftable _) (pipeclose_fs _) (pipeclose_proc _) hone
            (fun _ => rfl) ?_ fun hc => absurd rfl hc
          rw [hun,slotOwn_other (.inr hty'),fdOwn_none,add_zero]
        next hty =>
          have hty' : (s.sys.ftable f).type=.inode := hty
          cases hdrop
          refine hrel' (some (s.sys.ftable f).ip) rfl rfl rfl hone (fun _ => rfl) ?_
            fun hc => absurd rfl hc
          rw [hun,zero_add,fdOwn_some,slotOwn,if_pos (.inl hty')]
        next hty =>
          have hty' : (s.sys.ftable f).type=.device := hty
          cases hdrop
          refine hrel' (some (s.sys.ftable f).ip) rfl rfl rfl hone (fun _ => rfl) ?_
            fun hc => absurd rfl hc
          rw [hun,zero_add,fdOwn_some,slotOwn,if_pos (.inr hty')]

def Alike (ftable ftable' : ℕ→File) : Prop :=
  ∀ g,(ftable' g).type=(ftable g).type ∧ (ftable' g).ip=(ftable g).ip

lemma Alike.isFor {ftable ftable' : ℕ→File} (h : Alike ftable ftable') (g ip : ℕ) :
    isFor (ftable' g) ip=isFor (ftable g) ip := by
  rw [InodeProtocol.isFor,InodeProtocol.isFor,(h g).1,(h g).2]

lemma Alike.fileOwn {ftable ftable' : ℕ→File} (h : Alike ftable ftable') :
    fileOwn ftable'=fileOwn ftable := by
  have hslot : ∀ g,slotOwn (ftable' g)=slotOwn (ftable g) := fun g => by
    rw [slotOwn,slotOwn,(h g).1,(h g).2]
  funext ip
  simp only [FileTable.fileOwn,Tally.total,hslot]

lemma filedup_counted {y : Sys} {ftable : ℕ→File} {refs : ℕ→ℕ}
    (h : Counted y.ftable refs ∧ Alike ftable y.ftable) (hf : 0<refs f) :
    ∃ y',filedup y f=.next y' ∧
      (Counted y'.ftable (Pi.single f 1+refs) ∧ Alike ftable y'.ftable) ∧ y'.fs=y.fs ∧
      y'.proc=y.proc := by
  obtain ⟨hc,ha⟩ := h
  have href := hc.ref f
  refine ⟨y.setFile f {y.ftable f with ref := (y.ftable f).ref+1},if_neg (by omega),⟨?_,?_⟩,rfl,rfl⟩
  · refine hc.setFile (hc.slots f hf) (fun g hg => single_add_of_ne refs hg) ?_ fun h0 => ?_
    · grind [single_add_self]
    · rw [single_add_self] at h0
      omega
  · intro g
    show (update y.ftable f _ g).type=_ ∧ (update y.ftable f _ g).ip=_
    by_cases hg : g=f
    · rw [hg,update_self]
      exact ha f
    · rw [update_of_ne hg]
      exact ha g

lemma fork_moves (h : Inv s) (hq : s.sys.proc p=some q) {child : ℕ} {r : Sys×ℤ}
    (hrun : fork s.sys q (some child)=.next r) : Moves s {s with sys := r.1} p := by
  rw [fork] at hrun
  split at hrun
  · next hc =>
    obtain ⟨hlt,hnone⟩ := hc
    rw [Option.isNone_iff_eq_none] at hnone
    obtain ⟨y,hdup,⟨hfiles,halike⟩,hfs,hpr⟩ := dupFiles_rule
      (P:=fun y refs => Counted y.ftable refs ∧ Alike s.sys.ftable y.ftable)
      (fun _ _ _ h hf => filedup_counted h hf) (List.range nofile)
      ⟨h.files,fun _ => ⟨rfl,rfl⟩⟩ fun fd _ f hf => fdRefs_pos h.procs hq hf
    rw [fdRefs_fork s.sys.proc hlt hnone] at hfiles
    rw [hdup] at hrun
    cases hrun
    have hcwd : 0<own s q.cwd :=
      own_pos_of_installed (Nat.add_pos_right _ (cwds_pos h.procs hq))
    obtain ⟨hi,hquiet,hl,_⟩ := idup_spec h.inode hcwd
    have hinst : installed ({y with fs := idup y.fs q.cwd}.setProc child (some q))=
        Pi.single q.cwd 1+installed s.sys := by
      show fileOwn y.ftable+cwds (update y.proc child (some q))=_
      rw [hpr,halike.fileOwn,cwds_fork s.sys.proc hlt hnone,add_left_comm]
      rfl
    have hown : own {s with sys := ({y with fs := idup y.fs q.cwd}.setProc child (some q))}=
        Pi.single q.cwd 1+own s := by
      rw [own,hinst,add_assoc]
      rfl
    refine ⟨?_,?_,?_,?_,?_,?_,fun jp hj => .inl ?_,fun jp r hjr hreach => ?_,fun _ _ => rfl,rfl,rfl,
      rfl⟩
    · rw [hown]
      show InodeInv (idup y.fs q.cwd) _
      rw [hfs]
      exact hi
    · show Quiet _ _ (idup y.fs q.cwd)
      rw [hfs]
      exact hquiet
    · show locks (idup y.fs q.cwd)=_
      rw [hfs]
      exact hl
    · show Counted y.ftable (fdRefs (update y.proc child (some q)))
      rw [hpr]
      exact hfiles
    · show ProcsOk (update y.proc child (some q))
      rw [hpr]
      exact h.procs.setProc hlt (h.procs p q hq).2
    · rw [hown]
      exact fun _ hj => single_add_pos hj
    · rw [hinst] at hj
      by_cases hjp : jp=q.cwd
      · rw [hjp]
        exact Nat.add_pos_right _ (cwds_pos h.procs hq)
      · grind [single_add_of_ne]
    · refine reaches_iff.mpr ((reaches_iff.mp hreach).imp id fun ho => ?_)
      refine opens_mono ho fun q1 fd1 g hq1 hof1 => ⟨q1,?_,hof1,halike.isFor g jp⟩
      have hne : r≠child := by grind
      show update y.proc child (some q) r=some q1
      grind
  · cases hrun

lemma leave_moves (h : Inv s) (hq : s.sys.proc p=some q) (hfree : s.free p=true)
    (hof : (List.range nofile).all (fun fd => (q.ofile fd).isNone)=true) :
    Moves s {s.setHand p (q.cwd::s.hand p) with sys := s.sys.setProc p none} p := by
  have hp := (h.procs p q hq).1
  have hof' : ∀ fd,q.ofile fd=none := by
    intro fd
    by_cases hfd : fd<nofile
    · grind [Option.isNone_iff_eq_none]
    · exact (h.procs p q hq).2 fd (by omega)
  obtain ⟨hrefs,hcwds⟩ := leave_spec h.procs hq hof'
  have hinst : installed s.sys=Pi.single q.cwd 1+installed (s.sys.setProc p none) := by
    show fileOwn s.sys.ftable+cwds s.sys.proc=
      _+(fileOwn s.sys.ftable+cwds (update s.sys.proc p none))
    rw [add_left_comm,hcwds]
  have hown : own {s.setHand p (q.cwd::s.hand p) with sys := s.sys.setProc p none}=own s := by
    show installed (s.sys.setProc p none)+hands (update s.hand p (q.cwd::s.hand p))=
      installed s.sys+hands s.hand
    rw [hands_cons s.hand hp,hinst,add_left_comm,add_assoc]
  refine ⟨by rw [hown]; exact h.inode,.refl (own s) s.sys.fs,rfl,?_,h.procs.setNone p,
    by rw [hown]; exact fun _ hj => hj,fun jp hj => .inl ?_,fun jp r hjr hreach => ?_,
    fun r hr => update_of_ne hr _ _,rfl,rfl,rfl⟩
  · show Counted s.sys.ftable (fdRefs (update s.sys.proc p none))
    rw [hrefs]
    exact h.files
  · rw [hinst]
    exact single_add_pos hj
  · have hr : r≠p := by
      grind [h.free_iff]
    refine reaches_iff.mpr ((reaches_iff.mp hreach).imp (fun hmem => ?_) fun ho => ?_)
    · show jp∈update s.hand p _ r
      grind
    · exact opens_mono ho fun q1 fd1 g hq1 hof1 =>
        ⟨q1,(update_of_ne hr _ _).trans hq1,hof1,rfl⟩

lemma idup_inv (h : Inv s) (hidle : s.task p=.idle) (hq : s.sys.proc p=some q) :
    let t := (s.setFs (idup s.sys.fs q.cwd)).setHand p (q.cwd::s.hand p)
    Inv t ∧ Calm s t := by
  have hpos : 0<own s q.cwd := own_pos_of_installed (Nat.add_pos_right _ (cwds_pos h.procs hq))
  obtain ⟨hi,hquiet,hl,_⟩ := idup_spec h.inode hpos
  exact hold_inv h (.inl hidle) (h.procs p q hq).1 hi hquiet hl

lemma Calm.effect {a : Act} (h : Inv t ∧ Calm s t) (htask : t.task=s.task) :
    Inv t ∧ Effect s t p a :=
  ⟨h.1,.quiet h.2 fun r => .inl (congrFun htask r)⟩

lemma act_effect (h : Inv s) (hp : p<nproc) (hidle : s.task p=.idle) {a : Act}
    (hrun : act s p a=.next t) : Inv t ∧ Effect s t p a := by
  have hready : Ready s p := .inl hidle
  have hmoves : Moves s t p→ Inv t ∧ Effect s t p a := fun m => Calm.effect (m.inv h hidle) m.task
  cases a with
  | iget inum =>
    obtain ⟨r,hget,ht⟩ := bind_eq_next.mp hrun
    cases ht
    obtain ⟨h1,h2,h3,_⟩ := get_inv h hready hp hget
    exact Calm.effect ⟨h1,h2⟩ h3
  | ilock ip =>
    simp only [act] at hrun
    split at hrun
    next hr =>
      obtain ⟨h1,h2,h3,_⟩ := lock_inv h hready hp hr hrun
      exact Calm.effect ⟨h1,h2⟩ h3
    next => cases hrun
  | iunlock ip =>
    simp only [act] at hrun
    split at hrun
    next => cases hrun
    next hh =>
      obtain ⟨fs,hun,ht⟩ := bind_eq_next.mp hrun
      cases ht
      exact Calm.effect (unlock_inv h hidle (not_not.mp hh) hun) rfl
  | locked ip op =>
    simp only [act] at hrun
    split at hrun
    next hh =>
      obtain ⟨fs,hop,ht⟩ := bind_eq_next.mp hrun
      cases ht
      exact (lockedOp_inv h hh op hop).imp id .written
    next => cases hrun
  | iput ip =>
    simp only [act] at hrun
    split at hrun
    next hc =>
      split at hrun
      next hlast =>
        split at hrun
        next => cases hrun
        next hl =>
          cases hrun
          obtain ⟨h1,h2⟩ := last_inv h hp hc.1 hlast (Bool.eq_false_iff.mpr hl)
          refine ⟨h1,.quiet h2 fun r => ?_⟩
          show update s.task p _ r=_ ∨ _ ∧ ∃ jp,update s.task p _ r=_
          grind
      next hlast =>
        cases hrun
        have hd := drop_inv h hp hc.1 hc.2 (.inr ⟨hidle,Bool.eq_false_iff.mpr hlast⟩)
        have hsame : (s.drop p ip).setTask p .idle=s.drop p ip := by
          have ht : update s.task p .idle=s.task := by grind
          show {s.drop p ip with task := update s.task p .idle}=_
          rw [ht]
          rfl
        rw [hsame] at hd
        exact hd.imp id .dropped
    next => cases hrun
  | ialloc inum type =>
    simp only [act] at hrun
    split at hrun
    next hc =>
      cases hrun
      exact (claim_inv h hidle ⟨hc.1,hc.2.1⟩ hc.2.2.1 hc.2.2.2).imp id fun hcl => .claimed hcl rfl
    next => cases hrun
  | go => cases hrun
  | idup =>
    simp only [act] at hrun
    split at hrun
    next => cases hrun
    next q hq =>
      cases hrun
      exact Calm.effect (idup_inv h hidle hq) rfl
  | openEnd ip omode =>
    simp only [act] at hrun
    split at hrun
    next => cases hrun
    next q hq =>
      split at hrun
      next hc => exact hmoves (open_moves h hq hc.1 hc.2 hrun)
      next => cases hrun
  | dup fd =>
    simp only [act] at hrun
    split at hrun
    next => cases hrun
    next q hq =>
      obtain ⟨r,hd,ht⟩ := bind_eq_next.mp hrun
      cases ht
      exact hmoves (dup_moves h hq hd)
  | close fd =>
    simp only [act] at hrun
    split at hrun
    next => cases hrun
    next q hq =>
      split at hrun
      next hc => exact hmoves (close_moves h hq hc hrun)
      next => cases hrun
  | fork child =>
    simp only [act] at hrun
    split at hrun
    next => cases hrun
    next q hq =>
      split at hrun
      next =>
        obtain ⟨r,hd,ht⟩ := bind_eq_next.mp hrun
        cases ht
        exact hmoves (fork_moves h hq hd)
      next => cases hrun
  | leave =>
    simp only [act] at hrun
    split at hrun
    next => cases hrun
    next q hq =>
      split at hrun
      next => cases hrun
      next =>
        split at hrun
        next hc =>
          cases hrun
          exact hmoves (leave_moves h hq hc.1 hc.2)
        next => cases hrun

lemma proceed_effect (h : Inv s) (hp : p<nproc) {a : Act}
    (hrun : proceed s p (s.task p)=.next t) : Inv t ∧ Effect s t p a := by
  have hok := h.tasks p
  cases htask : s.task p with
  | idle =>
    rw [htask] at hrun
    cases hrun
  | freeing ip =>
    rw [htask] at hrun
    obtain ⟨fs,her,ht⟩ := bind_eq_next.mp hrun
    cases ht
    exact (erase_inv h hp htask her).imp id .erased
  | dropping ip =>
    rw [htask] at hrun hok
    cases hrun
    exact (drop_inv h hp hok.1 hok.2 (.inl htask)).imp id .dropped
  | claimed i =>
    rw [htask] at hrun
    obtain ⟨r,hget,ht⟩ := bind_eq_next.mp hrun
    cases ht
    obtain ⟨h1,h2,h3,h4,h5⟩ := get_inv h (.inr (.inl ⟨i,htask⟩)) hp hget
    refine ⟨h1.setTask (k:=.created r.2) h5,.got ?_ htask ?_ h4⟩
    · exact ⟨h2.disk,h2.kept,h2.own,h2.log⟩
    · show update r.1.task p _=_
      rw [h3]
  | created ip =>
    rw [htask] at hrun hok
    obtain ⟨u,hlock,ht⟩ := bind_eq_next.mp hrun
    cases ht
    obtain ⟨h1,h2,h3,h4⟩ := lock_inv h (.inr (.inr ⟨ip,htask⟩)) hp (reaches_iff.mpr (.inl hok)) hlock
    refine ⟨h1.setTask (k:=.idle) trivial,.loaded ?_ htask ?_ (own_pos_of_hand hp hok) h4⟩
    · exact ⟨h2.disk,h2.kept,h2.own,h2.log⟩
    · show update u.task p _=_
      rw [h3]

lemma step_effect (h : Inv s) {a : ℕ×Act} (hrun : inodeStep s a=.next t) :
    Inv t ∧ Effect s t a.1 a.2 := by grind [inodeStep,act_effect,proceed_effect]

lemma start_inv {img : Image} (h : Consistent img) : Inv (start img) := by
  have hb := boot_inv h
  have hz : hands (fun _ => [])=0 := by
    funext ip
    rw [hands,Tally.total,Pi.zero_apply]
    exact Finset.sum_eq_zero fun _ _ => rfl
  have hown : own (start img)=fileOwn (boot img).ftable+cwds (boot img).proc := by
    show installed (boot img)+hands (fun _ => [])=_
    rw [hz,add_zero]
    rfl
  refine ⟨?_,⟨hb.files.ref,hb.files.slots,hb.files.unused⟩,hb.procs,fun ip hip => ?_,
    fun ip => congrFun hb.lock ip,fun ip p hc => ?_,fun _ => trivial⟩
  · rw [hown]
    exact hb.files.inode
  · exact hb.files.sound.lives.held ip hip
  · cases hc

lemma run_inv {img : Image} (h : Consistent img) {as : List (ℕ×Act)}
    (hrun : run inodeStep (start img) as=.next s) : Inv s :=
  run_invariant (fun _ _ _ h hstep => (step_effect h hstep).1) (start_inv h) hrun

end Xv6Riscv.InodeLifetime
