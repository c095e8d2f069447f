import Xv6Riscv.InodeLifetime

/-!
# Files without links

A file that has been unlinked lives as long as an open file or a current
directory refers to its inode: until then the inode is not freed, not allocated
again and keeps its blocks. With the last reference it goes, and its blocks
with it. The second half needs that ialloc does not run while some iput frees an
inode or has freed it and not yet dropped its reference.
-/

namespace Xv6Riscv.UnlinkedFiles

open Function
open Transition InodeLayer DirectoryLayer Occupancy BlockOwnership InodeTable FileSyscalls
  FileTable FileMachine FileRuns InodeProtocol InodeLifetime

variable {s t : Kernel} {img : Image} {p ip i : ℕ} {a : ℕ×Act} {as : List (ℕ×Act)} {r : ℕ}

/-- Some file table entry or current directory refers to an inode. -/
def Refers (s : Sys) (ip : ℕ) : Prop :=
  (∃ f,isFor (s.ftable f) ip=true) ∨ ∃ p q,s.proc p=some q ∧ q.cwd=ip

/-- An inode that a step neither frees nor allocates, and that keeps its blocks. -/
structure Survives (s t : Kernel) (i : ℕ) : Prop where
  alloc : (s.sys.fs.dinode i).type≠.free
  type : (t.sys.fs.dinode i).type=(s.sys.fs.dinode i).type
  blocks : ∀ pl,occ s.sys.fs (i,pl)≠0→
    occ t.sys.fs (i,pl)=occ s.sys.fs (i,pl) ∧ t.sys.fs.bitmap (occ s.sys.fs (i,pl))=true
  freed : t.log.count (.freed i)=s.log.count (.freed i)
  allocated : t.log.count (.allocated i)=s.log.count (.allocated i)

lemma Refers.installed (h : Inv s) (hr : Refers s.sys ip) : 0< installed s.sys ip := by
  rcases hr with ⟨f,hf⟩ | ⟨p,q,hq,rfl⟩
  · exact Nat.add_pos_left (h.files.held hf) _
  · exact Nat.add_pos_right _ (cwds_pos h.procs hq)

lemma occ_congr {fs fs' : Fs} (hd : fs'.dinode i=fs.dinode i) (hdata : fs'.data=fs.data)
    (pl : Place) : occ fs' (i,pl)=occ fs (i,pl) := by
  simp only [occ,hd,hdata]

lemma survives_of_same (hi : InodeInv t.sys.fs (own t)) (hal : (s.sys.fs.dinode i).type≠.free)
    (htype : (t.sys.fs.dinode i).type=(s.sys.fs.dinode i).type)
    (hocc : ∀ pl,occ s.sys.fs (i,pl)≠0→ occ t.sys.fs (i,pl)=occ s.sys.fs (i,pl))
    (hfreed : t.log.count (.freed i)=s.log.count (.freed i))
    (halloc : t.log.count (.allocated i)=s.log.count (.allocated i)) : Survives s t i := by
  refine ⟨hal,htype,fun pl hne => ⟨hocc pl hne,?_⟩,hfreed,halloc⟩
  grind [hi.owns.used_of_held]

lemma survives_of_disk (hi : InodeInv t.sys.fs (own t)) (hal : (s.sys.fs.dinode i).type≠.free)
    (hd : SameDisk s.sys.fs t.sys.fs) (hlog : t.log=s.log) : Survives s t i :=
  survives_of_same hi hal (by rw [hd.dinode]) (fun pl _ => occ_congr (by rw [hd.dinode]) hd.data pl)
    (by rw [hlog]) (by rw [hlog])

lemma referred_survives (h : Inv s) (hrun : inodeStep s a=.next t) (hr : Refers s.sys ip) :
    Survives s t (s.sys.fs.itable ip).inum := by
  have hinst := hr.installed h
  have hpos := own_pos_of_installed hinst
  have hal := h.alive ip hinst
  obtain ⟨ht,he⟩ := step_effect h hrun
  cases he with
  | quiet hc _ | got hc _ _ _ | loaded hc _ _ _ _ =>
    exact survives_of_disk ht.inode hal hc.disk hc.log
  | written hw =>
    exact survives_of_same ht.inode hal (hw.kept ip hpos).type (fun pl hne => hw.places _ hne)
      (by rw [hw.log]) (by rw [hw.log])
  | dropped hd => exact survives_of_disk ht.inode hal hd.disk hd.log
  | @erased jp he =>
    -- iput erases an entry that no file and no current directory refers to
    have hne : (s.sys.fs.itable ip).inum≠(s.sys.fs.itable jp).inum := by
      intro hc
      have hjp := h.inode.distinct ip jp hpos he.held hc
      rw [hjp,he.alone] at hinst
      exact absurd hinst (Nat.lt_irrefl 0)
    have hdin := he.frees.dinode _ hne
    refine survives_of_same ht.inode hal (by rw [hdin])
      (fun pl _ => occ_congr hdin he.frees.data pl) ?_ ?_
    · rw [he.log,List.count_cons_of_ne]
      exact fun hc => hne (Event.freed.inj hc).symm
    · rw [he.log,List.count_cons_of_ne]
      exact Event.noConfusion
  | @claimed j type hc _ =>
    have hne : (s.sys.fs.itable ip).inum≠j := by
      rintro rfl
      exact hal hc.free
    have hdin : t.sys.fs.dinode (s.sys.fs.itable ip).inum=
        s.sys.fs.dinode (s.sys.fs.itable ip).inum := by
      rw [hc.fs]
      exact update_of_ne hne _ _
    refine survives_of_same ht.inode hal (by rw [hdin])
      (fun pl _ => occ_congr hdin (by rw [hc.fs]; rfl) pl) ?_ ?_
    · rw [hc.log,List.count_cons_of_ne]
      exact Event.noConfusion
    · rw [hc.log,List.count_cons_of_ne]
      exact fun hc' => hne (Event.allocated.inj hc').symm

def alive (fs : Fs) (i : ℕ) : ℕ := (decide ((fs.dinode i).type≠.free)).toNat

lemma alive_congr {fs fs' : Fs} (h : (fs'.dinode i).type=(fs.dinode i).type) :
    alive fs' i=alive fs i := by
  simp only [alive,h]

/-- How often an inode has been freed, and whether it is allocated, against how
often it has been allocated. -/
def Balanced (img : Image) (s : Kernel) : Prop :=
  ∀ i,s.log.count (.freed i)+alive s.sys.fs i=
    s.log.count (.allocated i)+alive (start img).sys.fs i

lemma balanced_step (h : Inv s) (hb : Balanced img s) (hrun : inodeStep s a=.next t) :
    Balanced img t := by
  obtain ⟨ht,he⟩ := step_effect h hrun
  have hdisk : SameDisk s.sys.fs t.sys.fs→t.log=s.log→Balanced img t := by
    intro hd hlog i
    rw [hlog,alive_congr (congrArg Dinode.type (congrFun hd.dinode i))]
    exact hb i
  cases he with
  | quiet hc _ | got hc _ _ _ | loaded hc _ _ _ _ => exact hdisk hc.disk hc.log
  | dropped hd => exact hdisk hd.disk hd.log
  | @written jp hw =>
    intro i
    rw [hw.log]
    by_cases hi : i=(s.sys.fs.itable jp).inum
    · rw [hi,alive_congr (hw.kept jp hw.held).type]
      exact hb _
    · rw [alive_congr (congrArg Dinode.type (hw.update.dinode i hi))]
      exact hb i
  | @erased jp he =>
    intro i
    have hbi := hb i
    rw [he.log]
    by_cases hi : i=(s.sys.fs.itable jp).inum
    · have h0 : alive t.sys.fs i=0 := by
        rw [hi,alive,he.frees.free]
        rfl
      have h1 : alive s.sys.fs i=1 := by grind [alive,h.allocated,he.held,he.valid]
      rw [←hi,List.count_cons_self,List.count_cons_of_ne Event.noConfusion]
      omega
    · rw [alive_congr (congrArg Dinode.type (he.frees.dinode i hi)),
        List.count_cons_of_ne fun hc => hi (Event.freed.inj hc).symm,
        List.count_cons_of_ne Event.noConfusion]
      exact hbi
  | @claimed j type hc _ =>
    intro i
    have hbi := hb i
    rw [hc.log]
    by_cases hi : i=j
    · have h0 : alive s.sys.fs i=0 := by
        rw [hi,alive,hc.free]
        rfl
      have h1 : alive t.sys.fs i=1 := by
        have htype : (t.sys.fs.dinode i).type=type := by
          rw [hc.fs,hi]
          show (update s.sys.fs.dinode j (Dinode.blank type) j).type=type
          rw [update_self]
          rfl
        grind [alive,hc.kind]
      rw [←hi,List.count_cons_self,List.count_cons_of_ne Event.noConfusion]
      omega
    · have hdin : t.sys.fs.dinode i=s.sys.fs.dinode i := by
        rw [hc.fs]
        exact update_of_ne hi _ _
      rw [alive_congr (congrArg Dinode.type hdin),List.count_cons_of_ne Event.noConfusion,
        List.count_cons_of_ne fun hc' => hi (Event.allocated.inj hc').symm]
      exact hbi

/-- Somebody holds an inode that may have no links: it is loaded and referred to,
or create is about to load it. -/
inductive Held (s : Kernel) (i : ℕ) : Prop where
  | loaded {ip : ℕ} (hip : 0<own s ip) (hi : (s.sys.fs.itable ip).inum=i)
      (hv : (s.sys.fs.itable ip).valid=true)
  | claimed {r : ℕ} (hr : s.task r=.claimed i)
  | created {r ip : ℕ} (hlt : r<nproc) (hr : s.task r=.created ip)
      (hi : (s.sys.fs.itable ip).inum=i)

/-- What holds as long as ialloc keeps away from inodes that iput is dropping. -/
structure Live (s : Kernel) : Prop where
  dropping : ∀ r ip,r<nproc→s.task r=.dropping ip→
    (s.sys.fs.dinode (s.sys.fs.itable ip).inum).type=.free
  linked : ∀ i,(s.sys.fs.dinode i).type≠.free→(s.sys.fs.dinode i).nlink=0→Held s i

/-- Whether no iput is between taking the lock of an inode to free it and dropping
its reference when ialloc runs. ialloc needs no lock that such an iput holds. -/
def settled (s : Kernel) (a : ℕ×Act) : Bool :=
  match a.2 with
  | .ialloc _ _ => (List.range nproc).all fun r => match s.task r with
    | .freeing _ | .dropping _ => false
    | _ => true
  | _ => true

lemma settled_ialloc {type : FileType} (h : settled s a=true) (ha : a.2=.ialloc i type)
    (hr : r<nproc) : s.task r≠.dropping ip := by grind [settled]

lemma step_lt (hrun : inodeStep s a=.next t) : a.1<nproc := by grind [inodeStep]

lemma task_pos (h : Inv s) (hr : r<nproc) (htask : s.task r=.dropping ip ∨ s.task r=.created ip) :
    0<own s ip := by
  have hok := h.tasks r
  rcases htask with htask | htask <;> rw [htask] at hok
  · exact own_pos_of_hand hr hok.1
  · exact own_pos_of_hand hr hok

def creates (s : Kernel) (r i : ℕ) : Prop :=
  s.task r=.claimed i ∨ ∃ ip,s.task r=.created ip ∧ (s.sys.fs.itable ip).inum=i

lemma Held.mono (h : Inv s) (hh : Held s i)
    (hown : ∀ ip,(s.sys.fs.itable ip).inum=i→(s.sys.fs.itable ip).valid=true→0<own s ip→0<own t ip)
    (hentry : ∀ ip,(s.sys.fs.itable ip).inum=i→0<own s ip→
      (t.sys.fs.itable ip).inum=(s.sys.fs.itable ip).inum ∧
        ((s.sys.fs.itable ip).valid=true→(t.sys.fs.itable ip).valid=true))
    (htask : ∀ r,creates s r i→t.task r=s.task r ∨ Held t i) : Held t i := by
  cases hh with
  | loaded hip hi hv =>
    grind [loaded]
  | claimed hr =>
    rcases htask _ (.inl hr) with hs | hheld
    · exact .claimed (hs.trans hr)
    · exact hheld
  | created hlt hr hi =>
    rcases htask _ (.inr ⟨_,hr,hi⟩) with hs | hheld
    · have hin := (hentry _ hi (task_pos h hlt (.inr hr))).1
      exact .created hlt (hs.trans hr) (hin.trans hi)
    · exact hheld

lemma creates_update {k : Task} (ht : t.task=update s.task p k)
    (hp : creates s p i→Held t i) (r : ℕ) (hr : creates s r i) : t.task r=s.task r ∨ Held t i := by
  by_cases hrp : r=p
  · grind
  · rw [ht]
    exact .inl (update_of_ne hrp _ _)

lemma not_creates (hc : ∀ j,s.task p≠.claimed j) (hd : ∀ ip,s.task p≠.created ip) :
    ¬creates s p i := by
  rintro (hr | ⟨ip,hr,_⟩)
  · exact hc i hr
  · exact hd ip hr

lemma dropping_update {k : Task} {jp : ℕ} (ht : t.task=update s.task p k) (hk : k≠.dropping jp)
    (hr : t.task r=.dropping jp) : s.task r=.dropping jp := by
  rw [ht] at hr
  grind

variable (hl : Live s)

include hl

lemma Live.calm (h : Inv s) (hc : Calm s t)
    (hdrop : ∀ r jp,t.task r=.dropping jp→s.task r=.dropping jp)
    (htask : ∀ i r,creates s r i→t.task r=s.task r ∨ Held t i) : Live t := by
  refine ⟨fun r jp hr ht => ?_,fun i hty hn => ?_⟩
  · have hs := hdrop r jp ht
    have hk := hc.kept jp (task_pos h hr (.inl hs))
    rw [hk.inum,hc.disk.dinode]
    exact hl.dropping r jp hr hs
  · rw [hc.disk.dinode] at hty hn
    exact (hl.linked i hty hn).mono h (fun ip _ _ => hc.own ip)
      (fun ip _ hip => ⟨(hc.kept ip hip).inum,(hc.kept ip hip).valid⟩) (htask i)

lemma Live.written (h : Inv s) (hw : Written s t ip) : Live t := by
  refine ⟨fun r jp hr ht => ?_,fun i hty hn => ?_⟩
  · rw [hw.task] at ht
    have hk := hw.kept jp (task_pos h hr (.inl ht))
    rw [hk.inum,hk.type]
    exact hl.dropping r jp hr ht
  · by_cases hi : (s.sys.fs.itable ip).inum=i
    · have hk := hw.kept ip hw.held
      have hown : 0<own t ip := by
        rw [hw.own]
        exact hw.held
      exact .loaded hown (hk.inum.trans hi) (hk.valid hw.valid)
    · rw [hw.update.dinode i (Ne.symm hi)] at hty hn
      refine (hl.linked i hty hn).mono h (fun jp _ _ hj => ?_)
        (fun jp _ hj => ⟨(hw.kept jp hj).inum,(hw.kept jp hj).valid⟩)
        fun r _ => .inl (congrFun hw.task r)
      rw [hw.own]
      exact hj

/-- The last part of iput keeps hold of inodes without links: what it drops is
not the last reference, or is one to an inode with links, or iput has freed the
inode before. -/
lemma Live.dropped (h : Inv s) (hp : p<nproc) (hd : Dropped s t p ip) : Live t := by
  have hown : ∀ jp,jp≠ip→ own s jp=own t jp := fun jp hj => by
    rw [hd.own,single_add_of_ne _ hj]
  refine ⟨fun r jp hr ht => ?_,fun i hty hn => ?_⟩
  · grind [dropping,hd.task,hd.entry,hd.disk.dinode]
  · rw [hd.disk.dinode] at hty hn
    refine (hl.linked i hty hn).mono h (fun jp hi hv hj => ?_)
      (fun jp _ _ => ⟨(hd.entry jp).1,fun hv => (hd.entry jp).2.trans hv⟩) fun r hr => ?_
    · by_cases hjp : jp=ip
      · by_contra hc
        subst hjp
        rcases hd.last with htask | hlast
        · exact hty (hi ▸ hl.dropping p jp hp htask)
        · have hinv := h.inode
          rw [hd.own] at hinv
          have hlast' : lastRef s.sys.fs jp=true :=
            (lastRef_iff hinv).mpr ⟨Nat.eq_zero_of_not_pos hc,hv,hi ▸ hn⟩
          rw [hlast] at hlast'
          cases hlast'
      · rw [←hown jp hjp]
        exact hj
    · rcases hd.task r with hs | ⟨rfl,hdrop,_⟩
      · exact .inl hs
      · exact absurd hr (not_creates (fun j hc => by rw [hdrop] at hc; cases hc)
          fun jp hc => by rw [hdrop] at hc; cases hc)

lemma Live.erased (h : Inv s) (he : Erased s t p ip) : Live t := by
  refine ⟨fun r jp hr ht => ?_,fun i hty hn => ?_⟩
  · by_cases hjp : jp=ip
    · rw [hjp,he.inum]
      exact he.frees.free
    · have hs : s.task r=.dropping jp := dropping_update he.task
        (fun hc => hjp (Task.dropping.inj hc).symm) ht
      have hne : (s.sys.fs.itable jp).inum≠(s.sys.fs.itable ip).inum := fun hc =>
        hjp (h.inode.distinct jp ip (task_pos h hr (.inl hs)) he.held hc)
      rw [he.others jp hjp,he.frees.dinode _ hne]
      exact hl.dropping r jp hr hs
  · have hi : i≠(s.sys.fs.itable ip).inum := by
      rintro rfl
      exact hty he.frees.free
    rw [he.frees.dinode i hi] at hty hn
    refine (hl.linked i hty hn).mono h (fun jp _ _ hj => ?_) (fun jp hj _ => ?_)
      (creates_update he.task fun hc => ?_)
    · rw [he.own]
      exact hj
    · grind [he.others]
    · exact absurd hc (not_creates (fun j hc => by rw [he.before] at hc; cases hc)
        fun jp hc => by rw [he.before] at hc; cases hc)

lemma Live.claimed {type : FileType} (h : Inv s) (hc : Claimed s t p i type)
    (hnone : ∀ r jp,r<nproc→s.task r≠.dropping jp) : Live t := by
  refine ⟨fun r jp hr ht => ?_,fun j hty hn => ?_⟩
  · exact absurd (dropping_update hc.task (by simp) ht) (hnone r jp hr)
  · by_cases hj : j=i
    · refine .claimed (r:=p) ?_
      rw [hc.task,update_self,hj]
    · have hdin : t.sys.fs.dinode j=s.sys.fs.dinode j := by
        rw [hc.fs]
        exact update_of_ne hj _ _
      rw [hdin] at hty hn
      refine (hl.linked j hty hn).mono h (fun jp _ _ hj => ?_) (fun jp _ _ => ?_)
        (creates_update hc.task fun hcr => ?_)
      · rw [hc.own]
        exact hj
      · rw [hc.fs]
        exact ⟨rfl,id⟩
      · exact absurd hcr (not_creates (fun j h1 => by rw [hc.before] at h1; cases h1)
          fun jp h1 => by rw [hc.before] at h1; cases h1)

omit hl

lemma live_step (h : Inv s) (hl : Live s) (hok : settled s a=true)
    (hrun : inodeStep s a=.next t) : Live t := by
  have hp := step_lt hrun
  obtain ⟨ht,he⟩ := step_effect h hrun
  cases he with
  | quiet hc htask =>
    refine hl.calm h hc (fun r jp hr => ?_) fun i r hr => ?_
    · rcases htask r with hs | ⟨_,kp,hs⟩
      · exact hs.symm.trans hr
      · rw [hr] at hs
        cases hs
    · rcases htask r with hs | ⟨hi,_⟩
      · exact .inl hs
      · exact absurd hr (not_creates (fun j hc => by rw [hi] at hc; cases hc)
          fun jp hc => by rw [hi] at hc; cases hc)
  | @got j jp hc hs htask hin =>
    refine hl.calm h hc (fun r kp => dropping_update htask (by simp)) fun i =>
      creates_update htask fun hcr => ?_
    rcases hcr with hr | ⟨kp,hr,_⟩
    · rw [hs] at hr
      cases hr
      refine .created hp ?_ hin
      rw [htask,update_self]
    · rw [hs] at hr
      cases hr
  | @loaded jp hc hs htask hip hv =>
    refine hl.calm h hc (fun r kp => dropping_update htask (by simp)) fun i =>
      creates_update htask fun hcr => ?_
    rcases hcr with hr | ⟨kp,hr,hi⟩
    · rw [hs] at hr
      cases hr
    · rw [hs] at hr
      cases hr
      exact .loaded (hc.own jp hip) ((hc.kept jp hip).inum.trans hi) hv
  | written hw => exact hl.written h hw
  | dropped hd => exact hl.dropped h hp hd
  | erased he => exact hl.erased h he
  | claimed hc ha => exact hl.claimed h hc fun r jp hr => settled_ialloc hok ha hr

lemma start_live (h : Consistent img) : Live (start img) :=
  ⟨fun _ _ _ hc => (by cases hc),fun i hty hn => absurd hn (h.linked i hty)⟩

/-- A reference to an inode, or an ialloc that is about to get one. -/
def InUse (s : Kernel) (i : ℕ) : Prop :=
  (∃ ip,ip<ninode ∧ (s.sys.fs.itable ip).inum=i ∧ 0<(s.sys.fs.itable ip).ref) ∨
    ∃ p,s.task p=.claimed i

lemma Held.inUse (h : Inv s) (hh : Held s i) : InUse s i := by
  have href : ∀ ip,0<own s ip→(s.sys.fs.itable ip).inum=i→ InUse s i := fun ip hip hi => by
    refine .inl ⟨ip,h.inode.slots ip hip,hi,?_⟩
    rw [h.inode.refs ip]
    exact_mod_cast hip
  cases hh with
  | loaded hip hi hv => exact href _ hip hi
  | claimed hr => exact .inr ⟨_,hr⟩
  | created hlt hr hi => exact href _ (task_pos h hlt (.inr hr)) hi

/-- In every run in which ialloc does not come between the lock and the drop of an
iput that frees: inodes of open files and of current directories survive every step, with
or without links; an allocated inode without links has a reference; marked
blocks belong to allocated inodes; and inodes are freed once for each time that
they are allocated. -/
theorem unlinked_files_live_until_last_close (h : Consistent img)
    (hg : Guarded inodeStep (fun s a => settled s a=true) (start img) as)
    (hrun : run inodeStep (start img) as=.next s) :
    (∀ a t ip,inodeStep s a=.next t→Refers s.sys ip→Survives s t (s.sys.fs.itable ip).inum) ∧
    (∀ i,(s.sys.fs.dinode i).type≠.free→(s.sys.fs.dinode i).nlink=0→ InUse s i) ∧
    (∀ b,s.sys.fs.sb.dataStart≤b→b<s.sys.fs.sb.size→s.sys.fs.bitmap b=true→
      ∃ i pl,(s.sys.fs.dinode i).type≠.free ∧ occ s.sys.fs (i,pl)=b) ∧
    ∀ i,s.log.count (.freed i)+alive s.sys.fs i=
      s.log.count (.allocated i)+alive (start img).sys.fs i := by
  obtain ⟨⟨hinv,hbal⟩,hlive⟩ := run_invariant_guarded
    (fun s a t (hs : (Inv s ∧ Balanced img s) ∧ Live s) hok hstep =>
      ⟨⟨(step_effect hs.1.1 hstep).1,balanced_step hs.1.1 hs.1.2 hstep⟩,
        live_step hs.1.1 hs.2 hok hstep⟩)
    ⟨⟨start_inv h,fun _ => rfl⟩,start_live h⟩ hg hrun
  refine ⟨fun a t ip hstep hr => referred_survives hinv hstep hr,
    fun i hty hn => (hlive.linked i hty hn).inUse hinv,fun b hlo hhi hb => ?_,hbal⟩
  obtain ⟨⟨i,pl⟩,hocc⟩ := (hinv.inode.owns.used_iff b hlo hhi).mp hb
  refine ⟨i,pl,fun hfree => ?_,hocc⟩
  have hzero : occ s.sys.fs (i,pl)=0 := if_pos hfree
  have hpos := hinv.inode.owns.lo_pos
  omega

/-- The steps of nameiparent for a name in the current directory, up to the lock
of the directory. -/
def lockParent (p : ℕ) : List (ℕ×Act) :=
  [(p,.idup),(p,.ilock 0),(p,.iunlock 0),(p,.ilock 0)]

/-- The steps of dirlookup or dirlink over n entries of the root. -/
def scan (p n : ℕ) : List (ℕ×Act) :=
  (List.range n).map fun k => (p,.locked 0 (.readi none (direntSize*k) direntSize))

/-- The steps of open(name, O_CREATE|O_RDWR) for a new name in the third entry
of the root. -/
def creat (p n ip inum : ℕ) (name : List UInt8) : List (ℕ×Act) :=
  lockParent p++scan p n++
    [(p,.ialloc inum .file),(p,.go),(p,.go),(p,.locked ip (.fill 0 0))]++scan p n++scan p n++
    [(p,.locked 0 (.writei (Dirent.mk inum (strncpy name)).encode (direntSize*2) direntSize)),
      (p,.iunlock 0),(p,.iput 0),(p,.openEnd ip oRdwr),(p,.iunlock ip)]

/-- The steps of unlink of the name in the third entry of the root. -/
def unlink (p ip inum : ℕ) : List (ℕ×Act) :=
  lockParent p++scan p 3++
    [(p,.iget inum),(p,.ilock ip),
      (p,.locked 0 (.writei Dirent.zero.encode (direntSize*2) direntSize)),(p,.iunlock 0),
      (p,.iput 0),(p,.locked ip (.addLink (-1))),(p,.iunlock ip),(p,.iput ip)]

/-- Process 0 creates and unlinks a file and closes it, and a child does the same
after it. -/
def taskTurns : List (ℕ×Act) :=
  [(0,.fork 1)]++creat 0 2 1 2 [102]++unlink 0 1 2++[(0,.close 0),(0,.iput 1),(0,.go),(0,.go)]++
    creat 1 3 1 2 [103]++unlink 1 1 2++[(1,.close 0),(1,.iput 1),(1,.go),(1,.go)]

theorem taskTurns_freed : ∃ s,run inodeStep (start (rootImage 40)) taskTurns=.next s ∧
    (∀ i,(s.sys.fs.dinode i).type≠.free→(s.sys.fs.dinode i).nlink=0→ InUse s i) ∧
    s.log.count (.freed 2)=2 := by
  obtain ⟨s,hrun,hlog⟩ := exists_of_state? (o:=run inodeStep (start (rootImage 40)) taskTurns)
    (f:=fun s => s.log.count (.freed 2)) (v:=2) (by decide +kernel)
  have hall := unlinked_files_live_until_last_close (rootImage_consistent (by decide) (by decide))
    (guarded_of_check (k:=settled) (fun _ _ hk => hk) (by decide +kernel)) hrun
  exact ⟨s,hrun,hall.2.1,hlog⟩

/-- Process 0 creates and unlinks a file and closes it. Its iput is stopped before
it drops the reference, and a child creates a file in the same inode, writes to
it, unlinks it and closes it; then the iput goes on. -/
def lateDrop : List (ℕ×Act) :=
  [(0,.fork 1)]++creat 0 2 1 2 [102]++unlink 0 1 2++[(0,.close 0),(0,.iput 1),(0,.go)]++
    creat 1 3 1 2 [103]++[(1,.ilock 1),(1,.locked 1 (.writei [7] 0 1)),(1,.iunlock 1)]++
    unlink 1 1 2++[(1,.close 0),(1,.iput 1)]++[(0,.go)]

/-- The second file is left allocated without links and without references, and
so is its block. -/
theorem lateDrop_leaks_inode : ∃ s,run inodeStep (start (rootImage 40)) lateDrop=.next s ∧
    (s.sys.fs.dinode 2).type=.file ∧ (s.sys.fs.dinode 2).nlink=0 ∧
    (∀ ip∈List.range ninode,(s.sys.fs.itable ip).inum=2→(s.sys.fs.itable ip).ref=0) ∧
    (∀ p∈List.range nproc,s.task p=.idle) ∧
    occ s.sys.fs (2,placeOf 0)=11 ∧ s.sys.fs.bitmap 11=true := by
  obtain ⟨s,hrun,hobs⟩ := exists_of_state? (o:=run inodeStep (start (rootImage 40)) lateDrop)
    (f:=fun s => decide ((s.sys.fs.dinode 2).type=.file ∧ (s.sys.fs.dinode 2).nlink=0 ∧
      (∀ ip∈List.range ninode,(s.sys.fs.itable ip).inum=2→(s.sys.fs.itable ip).ref=0) ∧
      (∀ p∈List.range nproc,s.task p=.idle) ∧
      occ s.sys.fs (2,placeOf 0)=11 ∧ s.sys.fs.bitmap 11=true)) (v:=true) (by decide +kernel)
  exact ⟨s,hrun,of_decide_eq_true hobs⟩

end Xv6Riscv.UnlinkedFiles
