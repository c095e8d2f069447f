import Xv6Riscv.InodeLifetime

/-!
# Reference counts of files and inodes

Between two calls the count of a file table entry is the number of descriptors
that point to it, and the count of an inode table entry is the number of open
files and current directories that point to it.
-/

namespace Xv6Riscv.FileCounts

open Transition InodeLayer BlockOwnership InodeTable FileSyscalls PipeLifetime FileTable
  FileMachine FileRuns

variable {img : Image} {s : Sys}

/-- The number of descriptors of all processes that point to an entry. -/
def descriptors (s : Sys) (f : ℕ) : ℕ :=
  ((List.range nproc).map fun p =>
    (List.range nofile).countP fun fd => (s.proc p).bind (·.ofile fd)=some f).sum

def openFiles (s : Sys) (ip : ℕ) : ℕ :=
  (List.range nfile).countP fun f => 0<(s.ftable f).ref &&
    ((s.ftable f).type=.inode || (s.ftable f).type=.device) && (s.ftable f).ip=ip

def directories (s : Sys) (ip : ℕ) : ℕ :=
  (List.range nproc).countP fun p => (s.proc p).any fun q => q.cwd=ip

lemma countP_eq_sum {α : Type*} (l : List α) (t : α→Bool) :
    l.countP t=(l.map fun x => if t x then 1 else 0).sum := by
  induction l with
  | nil => rfl
  | cons a l ih =>
    grind

lemma descriptors_eq (s : Sys) (f : ℕ) : descriptors s f=fdRefs s.proc f := by
  rw [fdRefs,Tally.total_eq_sum,descriptors]
  congr 1
  refine List.map_congr_left fun p _ => ?_
  cases hq : s.proc p with
  | none => simp [procRefs]
  | some q =>
    rw [procRefs,Tally.total_eq_sum,countP_eq_sum]
    congr 1
    refine List.map_congr_left fun fd _ => ?_
    simp [fdOwn]

lemma directories_eq (s : Sys) (ip : ℕ) : directories s ip=cwds s.proc ip := by
  rw [cwds,Tally.total_eq_sum,directories,countP_eq_sum]
  congr 1
  refine List.map_congr_left fun p _ => ?_
  cases hq : s.proc p with
  | none => simp [cwdOwn]
  | some q => simp [cwdOwn_some,Pi.single_apply,@eq_comm _ ip]

lemma openFiles_eq {refs own : ℕ→ℕ} (h : TableInv s refs own) (ip : ℕ) :
    openFiles s ip=fileOwn s.ftable ip := by
  rw [fileOwn,Tally.total_eq_sum,openFiles,countP_eq_sum]
  congr 1
  refine List.map_congr_left fun f _ => ?_
  by_cases hty : (s.ftable f).type=.inode ∨ (s.ftable f).type=.device
  · have hpos : 0<refs f := h.pos (by rcases hty with hty | hty <;> rw [hty] <;> decide)
    have href : 0<(s.ftable f).ref := by
      rw [h.ref]
      exact_mod_cast hpos
    simp [slotOwn,hty,href,Pi.single_apply,@eq_comm _ ip]
  · simp [slotOwn,hty]

/-- Between two calls every inode table entry counts the open files and current
directories that point to it, no inode is in two used entries, and no lock is
held. -/
theorem inode_refs_balance (h : Consistent img) {as : List (ℕ×Call)}
    (hrun : run step (boot img) as=.next s) :
    (∀ ip,(s.fs.itable ip).ref=openFiles s ip+directories s ip) ∧
    (∀ ip jp,0<(s.fs.itable ip).ref→0<(s.fs.itable jp).ref→
      (s.fs.itable ip).inum=(s.fs.itable jp).inum→ip=jp) ∧
    ∀ ip,(s.fs.itable ip).locked=false := by
  have hs := (run_inv h hrun).1
  have hinv := hs.files.inode
  refine ⟨fun ip => ?_,fun ip jp hip hjp => hinv.distinct ip jp ?_ ?_,fun ip => congrFun hs.lock ip⟩
  · rw [hinv.refs,openFiles_eq hs.files.toTableInv,directories_eq]
    rfl
  · rw [hinv.refs] at hip
    exact_mod_cast hip
  · rw [hinv.refs] at hjp
    exact_mod_cast hjp

/-- Two processes use the same file and the same directory. -/
def sharingRun : List (ℕ×Call) :=
  [(0,.sysOpen [102] 0x202),(0,.sysDup 0),(0,.fork (some 1)),(1,.sysUnlink [102]),
    (1,.sysMkdir [97]),(1,.sysChdir [97]),(0,.sysOpen [120] 0)]

theorem sharingRun_balance : ∃ s,run step (boot (rootImage 40)) sharingRun=.next s ∧
    (s.fs.itable 0).ref=1 ∧ (∀ ip,(s.fs.itable ip).ref=openFiles s ip+directories s ip) := by
  have hrun : (run step (boot (rootImage 40)) sharingRun).state?.map
      (fun s => (s.fs.itable 0).ref)=some 1 := by decide +kernel
  obtain ⟨s,hs,href⟩ := exists_of_state? hrun
  exact ⟨s,hs,href,(inode_refs_balance (rootImage_consistent (by decide) (by decide)) hs).1⟩

/-- Between two calls every file table entry counts the descriptors that point to
it and is FD_NONE without any; filedup and fileclose never panic; pipeclose is
called at most once for each end of a pipe, and the page of a pipe is freed
once, when no FD_PIPE entry refers to it any more. -/
theorem files_and_pipes_counted (h : Consistent img) (as : List (ℕ×Call)) :
    (∀ s,run step (boot img) as=.next s→
      (∀ f,(s.ftable f).ref=descriptors s f) ∧
      (∀ f,(s.ftable f).ref=0→(s.ftable f).type=.none) ∧
      ∀ id,.created id∈s.history→
        (∀ w,s.history.count (.closed id w)≤1) ∧ s.history.count (.freed id)≤1 ∧
        (s.history.count (.freed id)=1 ↔
          ¬∃ f,(s.ftable f).type=.pipe ∧ (s.pipe (s.ftable f).pipe).id=id)) ∧
    run step (boot img) as≠.panic "filedup" ∧ run step (boot img) as≠.panic "fileclose" := by
  obtain ⟨hinv,hmsg⟩ := run_all h as
  refine ⟨fun s hrun => ?_,hmsg _ fun t hs => hs.never.2.1 rfl,hmsg _ fun t hs => hs.never.2.2 rfl⟩
  have hs := (hinv s hrun).files
  refine ⟨fun f => ?_,fun f h0 => hs.unused f ?_,fun id hcr => ?_⟩
  · rw [hs.ref,descriptors_eq]
  · rw [hs.ref] at h0
    exact_mod_cast h0
  · obtain ⟨h1,h2,h3,-⟩ := hs.pipes.freed_iff hcr
    exact ⟨h2,h1,h3⟩

/-- A pipe that a child shares, closed by both processes. -/
def pipeRun : List (ℕ×Call) :=
  [(0,.sysPipe (some 5) true),(0,.fork (some 1)),(0,.sysClose 1),(1,.sysClose 0),(1,.exit),
    (0,.sysClose 0),(0,.sysPipe (some 5) false)]

theorem pipeRun_counted : ∃ s,run step (boot (rootImage 40)) pipeRun=.next s ∧
    s.history.count (.freed 0)=1 ∧ ∀ f,(s.ftable f).ref=descriptors s f := by
  have hrun : (run step (boot (rootImage 40)) pipeRun).state?.map
      (fun s => s.history.count (.freed 0))=some 1 := by decide +kernel
  obtain ⟨s,hs,hfreed⟩ := exists_of_state? hrun
  exact ⟨s,hs,hfreed,((files_and_pipes_counted (rootImage_consistent (by decide) (by decide))
    pipeRun).1 s hs).1⟩

lemma ilock_load {fs : Fs} {ip : ℕ} (hr : 0<(fs.itable ip).ref)
    (hl : (fs.itable ip).locked=false) (hv : (fs.itable ip).valid=false)
    (ht : (fs.dinode (fs.itable ip).inum).type≠.free) :
    ilock fs ip=.next (fs.setInode ip {fs.itable ip with
      locked := true,valid := true,copy := fs.dinode (fs.itable ip).inum}) := by
  grind [ilock]

/-- A used entry that is valid and unlocked has the fields of its disk inode, so
that reading them again would find the same; and a used entry for a free inode is
not valid, so that the inode has no old fields when it is allocated again. -/
def WrittenBack (fs : Fs) (ip : ℕ) : Prop :=
  0<(fs.itable ip).ref→(fs.itable ip).locked=false→
    ((fs.itable ip).valid=true→(fs.itable ip).copy=fs.dinode (fs.itable ip).inum ∧
      ∃ fs',ilock (fs.setInode ip {fs.itable ip with valid := false}) ip=.next fs' ∧
        (fs'.itable ip).copy=(fs.itable ip).copy) ∧
    ((fs.dinode (fs.itable ip).inum).type=.free→(fs.itable ip).valid=false)

lemma writtenBack_of_inv {fs : Fs} {own : ℕ→ℕ} (hinv : InodeInv fs own) (ip : ℕ) :
    WrittenBack fs ip := by
  intro hip hfree
  have hown : 0<own ip := by grind [hinv.refs]
  refine ⟨fun hv => ?_,fun hf => ?_⟩
  · obtain ⟨hcopy,htype⟩ := hinv.loaded ip hown hv
    have hload := @ilock_load (fs.setInode ip {fs.itable ip with valid := false}) ip
      (by rw [setInode_self]; exact hip) (by rw [setInode_self]; exact hfree)
      (by rw [setInode_self]) (by rw [setInode_self,setInode_dinode,←hcopy]; exact htype)
    refine ⟨hcopy,_,hload,?_⟩
    rw [setInode_self,setInode_self,setInode_dinode]
    exact hcopy.symm
  · by_contra hv
    obtain ⟨hcopy,htype⟩ := hinv.loaded ip hown (Bool.not_eq_false _ ▸ hv)
    exact htype (by rw [hcopy]; exact hf)

/-- A file is opened in one entry, closed, and then written through another one. -/
def staleRun : List (ℕ×Call) :=
  [(0,.sysOpen [103] 0x202),(0,.sysOpen [102] 0x202),(0,.sysClose 1),(0,.sysClose 0),
    (0,.sysOpen [102] 2),(0,.sysWrite 0 3 [1,2,3])]

end Xv6Riscv.FileCounts
