import Xv6Riscv.FileTable

/-!
# Runs of system calls on files

The invariant of the machine whose processes perform one file system call
after the other: file table entries count descriptors, inode table entries
count open files and current directories, and no sleep-lock is held between
two calls. Every call keeps it and changes the directory tree by at most one
edit that the call permits, besides freeing inodes.
-/

namespace Xv6Riscv.FileMachine

open Function
open Transition OutcomeLogic InodeLayer DirectoryLayer BlockOwnership InodeTable FileTree FileView
  DirectorySpecs NamingSpecs LinkSpecs FileSyscalls PipeLifetime FileTable

variable {fs fs' : Fs} {own refs : ℕ→ℕ} {ip f fd p : ℕ} {s s' : Sys} {q : Proc}
  {proc : ℕ→Option Proc} {ok : Edit→Prop} {s1 : Sys}

def fdOwn (o : Option ℕ) : ℕ→ℕ := fun f => if o=some f then 1 else 0

/-- The entries that the descriptors of a process point to. -/
def procRefs : Option Proc→ℕ→ℕ
  | none => 0
  | some q => Tally.total nofile fdOwn q.ofile

def cwdOwn : Option Proc→ℕ→ℕ
  | none => 0
  | some q => Pi.single q.cwd 1

/-- The number of descriptors that point to each file table entry. -/
def fdRefs (proc : ℕ→Option Proc) : ℕ→ℕ := Tally.total nproc procRefs proc

/-- The number of processes that have each inode table entry as current directory. -/
def cwds (proc : ℕ→Option Proc) : ℕ→ℕ := Tally.total nproc cwdOwn proc

/-- Processes are in the table, and so are their descriptors. -/
def ProcsOk (proc : ℕ→Option Proc) : Prop :=
  ∀ p q,proc p=some q→p<nproc ∧ ∀ fd,nofile≤fd→q.ofile fd=none

structure SysInv (s : Sys) : Prop where
  files : FileInv s (fdRefs s.proc) (cwds s.proc)
  lock : locks s.fs=fun _ => false
  procs : ProcsOk s.proc

lemma cwdOwn_some (q : Proc) : cwdOwn (some q)=Pi.single q.cwd 1 := rfl

@[simp] lemma fdOwn_none : fdOwn none=0 := by
  funext f
  exact if_neg (by simp)

@[simp] lemma fdOwn_some (f : ℕ) : fdOwn (some f)=Pi.single f 1 := by
  grind [fdOwn]

lemma ProcsOk.setProc (h : ProcsOk proc) (hp : p<nproc)
    (hq : ∀ fd,nofile≤fd→q.ofile fd=none) : ProcsOk (update proc p (some q)) := by
  intro p' q' hq'
  by_cases hpp : p'=p
  · grind
  · rw [update_of_ne hpp] at hq'
    exact h p' q' hq'

lemma ProcsOk.setFd (h : ProcsOk proc) (hq : proc p=some q) (hfd : fd<nofile) (v : Option ℕ) :
    ProcsOk (update proc p (some (q.setFd fd v))) := by
  obtain ⟨hp,hof⟩ := h p q hq
  refine h.setProc hp fun fd' hfd' => ?_
  show update q.ofile fd v fd'=none
  grind

lemma ProcsOk.setNone (h : ProcsOk proc) (p : ℕ) : ProcsOk (update proc p none) := by
  intro p' q' hq'
  by_cases hpp : p'=p
  · grind
  · rw [update_of_ne hpp] at hq'
    exact h p' q' hq'

lemma fdRefs_update (proc : ℕ→Option Proc) (hp : p<nproc) (o : Option Proc) :
    fdRefs (update proc p o)+procRefs (proc p)=fdRefs proc+procRefs o :=
  Tally.total_update procRefs proc hp o

lemma cwds_update (proc : ℕ→Option Proc) (hp : p<nproc) (o : Option Proc) :
    cwds (update proc p o)+cwdOwn (proc p)=cwds proc+cwdOwn o :=
  Tally.total_update cwdOwn proc hp o

variable (h : ProcsOk proc)

include h

lemma fdRefs_setFd (hq : proc p=some q) (hfd : fd<nofile) (v : Option ℕ) :
    fdRefs (update proc p (some (q.setFd fd v)))+fdOwn (q.ofile fd)=
      fdRefs proc+fdOwn v := by
  have h1 := fdRefs_update proc (h p q hq).1 (some (q.setFd fd v))
  have h2 : procRefs (some (q.setFd fd v))+fdOwn (q.ofile fd)=procRefs (some q)+fdOwn v :=
    Tally.total_update fdOwn q.ofile hfd v
  rw [hq] at h1
  grind

lemma cwds_same (hq : proc p=some q) {q' : Proc} (hc : q'.cwd=q.cwd) :
    cwds (update proc p (some q'))=cwds proc := by
  have h1 := cwds_update proc (h p q hq).1 (some q')
  grind [cwdOwn]

lemma cwds_setFd (hq : proc p=some q) (fd : ℕ) (v : Option ℕ) :
    cwds (update proc p (some (q.setFd fd v)))=cwds proc := cwds_same h hq rfl

lemma fdRefs_pos (hq : proc p=some q) (hf : q.ofile fd=some f) : 0<fdRefs proc f := by
  obtain ⟨hp,hof⟩ := h p q hq
  have hfd : fd<nofile := by
    by_contra hc
    grind
  have h1 := Tally.le_total fdOwn q.ofile hfd f
  have h2 := Tally.le_total procRefs proc hp f
  rw [hf,fdOwn_some,Pi.single_eq_same] at h1
  rw [hq] at h2
  exact lt_of_lt_of_le Nat.one_pos (h1.trans h2)

lemma cwds_pos (hq : proc p=some q) : 0<cwds proc q.cwd := by
  have h1 := Tally.le_total cwdOwn proc (h p q hq).1 q.cwd
  rw [hq,cwdOwn,Pi.single_eq_same] at h1
  exact lt_of_lt_of_le Nat.one_pos h1

omit h

lemma fileInv_proc (h : FileInv s refs own) (hf : s'.ftable=s.ftable) (hfs : s'.fs=s.fs)
    (hp : s'.pipe=s.pipe) (hu : s'.used=s.used) (hh : s'.history=s.history) :
    FileInv s' refs own :=
  ⟨h.toTableInv.congr hf hfs,h.pipes.files hp hu hh fun g => by
    rw [hf]
    exact ⟨Iff.rfl,fun _ => ⟨rfl,rfl⟩⟩⟩

lemma fileInv_setProc (h : FileInv s refs own) (p : ℕ) (o : Option Proc) :
    FileInv (s.setProc p o) refs own := fileInv_proc h rfl rfl rfl rfl rfl

structure Served (s : Sys) (ok : Edit→Prop) (s' : Sys) : Prop where
  inv : SysInv s'
  sb : s'.fs.sb=s.fs.sb
  edited : Edited ok s.fs s'.fs

lemma served_of_trims (h : SysInv s) (ht : Trims s.fs s'.fs own)
    (hf : FileInv s' (fdRefs s'.proc) (cwds s'.proc)) (hp : ProcsOk s'.proc) : Served s ok s' :=
  ⟨⟨hf,by rw [ht.lock,h.lock],hp⟩,ht.sb,tree s.fs,.inl rfl,ht.freed⟩

lemma Served.refl (h : SysInv s) : Served s ok s :=
  served_of_trims h (.refl s.fs 0) h.files h.procs

lemma onFs_served {o : Outcome (Fs×ℤ)} {stop : String→Prop} (h : SysInv s)
    (ho : Ensures stop o (Leaves s.fs (fileOwn s.ftable+cwds s.proc) ok)) :
    Ensures stop (s.onFs o) fun r => Served s ok r.1 := by
  refine ho.bind ?_
  rintro ⟨fs1,n⟩ hr
  have hl : locks fs1=locks s.fs := hr.lock
  refine ⟨⟨h.files.setFs hr.inv hr.sound (hr.kept.mono fun _ hj => Nat.add_pos_left hj _),?_,
    h.procs⟩,hr.sb,hr.edited⟩
  show locks fs1=_
  rw [hl,h.lock]

lemma SysInv.cwd (h : SysInv s) (hq : s.proc p=some q) :
    0<(fileOwn s.ftable+cwds s.proc) q.cwd :=
  Nat.add_pos_right _ (cwds_pos h.procs hq)

lemma argfd_some (h : argfd q fd=some f) : fd<nofile ∧ q.ofile fd=some f := by grind [argfd]

lemma fdalloc_some (h : fdalloc q=some fd) : fd<nofile ∧ q.ofile fd=none := by
  obtain ⟨hn,hm,-⟩ := List.find?_range_eq_some.mp h
  exact ⟨List.mem_range.mp hm,Option.isNone_iff_eq_none.mp hn⟩

lemma clearFd (h : FileInv s (fdRefs proc) (cwds proc)) (hpr : ProcsOk proc)
    (hq : proc p=some q) (hfd : fd<nofile) (hf : q.ofile fd=some f) :
    FileInv s (Pi.single f 1+fdRefs (update proc p (some (q.setFd fd none))))
      (cwds (update proc p (some (q.setFd fd none)))) := by
  have hx := fdRefs_setFd hpr hq hfd none
  rw [hf,fdOwn_none,fdOwn_some,add_zero,add_comm] at hx
  rw [hx,cwds_setFd hpr hq]
  exact h

lemma sysClose_served (h : SysInv s) (hq : s.proc p=some q) (fd : ℕ) (t : Tree) :
    Ensures (Stops t) (sysClose s p q fd) fun r => Served s ok r.1 := by
  rw [sysClose]
  cases hf : argfd q fd with
  | none => exact .refl h
  | some f =>
    obtain ⟨hfd,hof⟩ := argfd_some hf
    have h1 := fileInv_setProc (clearFd h.files h.procs hq hfd hof) p (some (q.setFd fd none))
    refine (fileclose_spec h1).bind ?_
    rintro s1 ⟨h2,hd⟩
    refine served_of_trims h hd.toTrims ?_ ?_
    · show FileInv s1 (fdRefs s1.proc) (cwds s1.proc)
      rw [hd.proc]
      exact h2
    · show ProcsOk s1.proc
      rw [hd.proc]
      exact h.procs.setFd hq hfd none

lemma sysDup_served (h : SysInv s) (hq : s.proc p=some q) (fd : ℕ) (t : Tree) :
    Ensures (Stops t) (sysDup s p q fd) fun r => Served s ok r.1 := by
  rw [sysDup]
  cases hf : argfd q fd with
  | none => exact .refl h
  | some f =>
    simp only
    cases hfd : fdalloc q with
    | none => exact .refl h
    | some fd1 =>
      obtain ⟨-,hof⟩ := argfd_some hf
      obtain ⟨hlt,hnone⟩ := fdalloc_some hfd
      have hx := fdRefs_setFd h.procs hq hlt (some f)
      rw [hnone,fdOwn_none,fdOwn_some,add_zero,add_comm (fdRefs s.proc)] at hx
      obtain ⟨s1,hrun,h1,hfs,hpr⟩ := filedup_spec (fileInv_setProc h.files p
        (some (q.setFd fd1 (some f)))) (fdRefs_pos h.procs hq hof)
      simp only
      rw [hrun]
      refine served_of_trims h (Drops.of_fs 0 hfs hpr).toTrims ?_ ?_
      · show FileInv s1 (fdRefs s1.proc) (cwds s1.proc)
        rw [hpr]
        show FileInv s1 (fdRefs (update _ _ _)) (cwds (update _ _ _))
        rw [hx,cwds_setFd h.procs hq]
        exact h1
      · show ProcsOk s1.proc
        rw [hpr]
        exact h.procs.setFd hq hlt _

lemma withFile_served {k : ℕ→Outcome (Sys×ℤ)} {stop : String→Prop} (h : SysInv s) (fd : ℕ)
    (hk : ∀ f,Ensures stop (k f) fun r => FileInv r.1 (fdRefs s.proc) (cwds s.proc) ∧
      Drops s r.1 (cwds s.proc)) :
    Ensures stop (withFile s q fd k) fun r => Served s ok r.1 := by
  rw [withFile]
  cases argfd q fd with
  | none => exact .refl h
  | some f =>
    refine (hk f).imp ?_
    rintro ⟨s1,n⟩ ⟨h1,hd⟩
    have hpr : s1.proc=s.proc := hd.proc
    refine served_of_trims h hd.toTrims ?_ ?_
    · show FileInv s1 (fdRefs s1.proc) (cwds s1.proc)
      rw [hpr]
      exact h1
    · show ProcsOk s1.proc
      rw [hpr]
      exact h.procs

/-- Rule for the files of a new process: what filedup keeps for one reference
more holds with one more reference for each descriptor. -/
lemma dupFiles_rule {P : Sys→(ℕ→ℕ)→Prop}
    (hdup : ∀ s refs f,P s refs→0<refs f→∃ s',filedup s f=.next s' ∧ P s' (Pi.single f 1+refs) ∧
      s'.fs=s.fs ∧ s'.proc=s.proc)
    (fds : List ℕ) (h : P s refs) (hpos : ∀ fd∈fds,∀ f,q.ofile fd=some f→0<refs f) :
    ∃ s',dupFiles q fds s=.next s' ∧
      P s' (fun f => (fds.map fun fd => fdOwn (q.ofile fd) f).sum+refs f) ∧
      s'.fs=s.fs ∧ s'.proc=s.proc := by
  induction fds generalizing s refs with
  | nil =>
    refine ⟨s,rfl,?_,rfl,rfl⟩
    simpa only [List.map_nil,List.sum_nil,Nat.zero_add] using h
  | cons fd fds ih =>
    rw [dupFiles]
    cases hf : q.ofile fd with
    | none =>
      obtain ⟨s1,hrun,h1,hfs,hpr⟩ := ih h fun fd' hm => hpos fd' (List.mem_cons_of_mem fd hm)
      refine ⟨s1,hrun,?_,hfs,hpr⟩
      simpa only [List.map_cons,List.sum_cons,hf,fdOwn_none,Pi.zero_apply,Nat.zero_add] using h1
    | some f =>
      obtain ⟨s1,hrun,h1,hfs,hpr⟩ := hdup s refs f h (hpos fd (List.mem_cons_self) f hf)
      obtain ⟨s2,hrun2,h2,hfs2,hpr2⟩ := ih h1 fun fd' hm g hg =>
        single_add_pos (hpos fd' (List.mem_cons_of_mem fd hm) g hg)
      refine ⟨s2,?_,?_,hfs2.trans hfs,hpr2.trans hpr⟩
      · simp only
        rw [hrun]
        exact hrun2
      · have hsum : (fun g => (fds.map fun fd => fdOwn (q.ofile fd) g).sum+
            (Pi.single f 1+refs : ℕ→ℕ) g)=
            fun g => ((fd::fds).map fun fd => fdOwn (q.ofile fd) g).sum+refs g := by
          funext g
          rw [List.map_cons,List.sum_cons,hf,fdOwn_some,Pi.add_apply]
          omega
        rw [←hsum]
        exact h2

lemma fdRefs_fork (proc : ℕ→Option Proc) {child : ℕ} (hlt : child<nproc)
    (hnone : proc child=none) (q : Proc) :
    (fun f => ((List.range nofile).map fun fd => fdOwn (q.ofile fd) f).sum+fdRefs proc f)=
      fdRefs (update proc child (some q)) := by
  have hrefs := fdRefs_update proc hlt (some q)
  rw [hnone,procRefs,add_zero] at hrefs
  rw [hrefs]
  funext f
  rw [←Tally.total_eq_sum fdOwn q.ofile f,Nat.add_comm]
  rfl

lemma cwds_fork (proc : ℕ→Option Proc) {child : ℕ} (hlt : child<nproc) (hnone : proc child=none)
    (q : Proc) : cwds (update proc child (some q))=Pi.single q.cwd 1+cwds proc := by
  have hcs := cwds_update proc hlt (some q)
  rw [hnone,cwdOwn,add_zero,cwdOwn_some,add_comm (cwds proc)] at hcs
  exact hcs

lemma fork_served (h : SysInv s) (hq : s.proc p=some q) (child : Option ℕ) (t : Tree) :
    Ensures (Stops t) (fork s q child) fun r => Served s ok r.1 := by
  cases child with
  | none => exact .refl h
  | some child =>
    rw [fork]
    split_ifs with hc
    · obtain ⟨hlt,hnone⟩ := hc
      rw [Option.isNone_iff_eq_none] at hnone
      obtain ⟨s1,hrun,h1,hfs,hpr⟩ := dupFiles_rule
        (P:=fun s' refs => FileInv s' refs (cwds s.proc))
        (fun _ _ _ h hf => filedup_spec h hf) (List.range nofile) h.files fun fd _ f hf =>
        fdRefs_pos h.procs hq hf
      rw [hrun]
      have hown1 : 0<(fileOwn s1.ftable+cwds s.proc) q.cwd :=
        Nat.add_pos_right _ (cwds_pos h.procs hq)
      obtain ⟨h2,hq2,hl2,hin2⟩ := idup_spec h1.inode hown1
      have hs2 : Sound (idup s1.fs q.cwd) (Pi.single q.cwd 1+(fileOwn s1.ftable+cwds s.proc)) := by
        have hs := h1.sound.quiet hq2
        exact ⟨hs.formed,hs.lives.add (hs.lives.held _ hown1)⟩
      rw [add_left_comm] at h2 hs2
      have h3 := h1.setFs h2 hs2 (hq2.kept.mono fun _ hj => Nat.add_pos_left hj _)
      rw [fdRefs_fork s.proc hlt hnone,←cwds_fork s.proc hlt hnone] at h3
      rw [←hpr] at h3
      have hd : Drops s s1 (fileOwn s1.ftable+cwds s.proc) := .of_fs _ hfs hpr
      refine served_of_trims h (hd.toTrims.trans (trims_quiet h1.inode hq2 hl2)) (fileInv_setProc h3 child (some q)) ?_
      show ProcsOk (update s1.proc child (some q))
      rw [hpr]
      exact h.procs.setProc hlt (h.procs p q hq).2
    · trivial

lemma closeFiles_spec (fds : List ℕ) (hfds : ∀ fd∈fds,fd<nofile)
    (h : FileInv s (fdRefs s.proc) (cwds s.proc)) (hpr : ProcsOk s.proc) (hq : s.proc p=some q)
    (t : Tree) :
    Ensures (Stops t) (closeFiles p fds s q) fun s' =>
      ∃ q',s'.proc=update s.proc p (some q') ∧ q'.cwd=q.cwd ∧
        (∀ fd,q'.ofile fd=if fd∈fds then none else q.ofile fd) ∧
        FileInv s' (fdRefs s'.proc) (cwds s'.proc) ∧ Trims s.fs s'.fs (cwds s.proc) := by
  induction fds generalizing s q with
  | nil =>
    refine ⟨q,?_,rfl,fun fd => by simp,h,.refl s.fs _⟩
    rw [←hq,update_eq_self]
  | cons fd fds ih =>
    rw [closeFiles]
    have hrest : ∀ fd'∈fds,fd'<nofile := fun fd' hm => hfds fd' (List.mem_cons_of_mem fd hm)
    cases hf : q.ofile fd with
    | none =>
      grind
    | some f =>
      have hfd := hfds fd List.mem_cons_self
      refine (fileclose_spec (clearFd h hpr hq hfd hf)).bind ?_
      rintro s1 ⟨h1,hd1⟩
      have hproc : (s1.setProc p (some (q.setFd fd none))).proc=
          update s.proc p (some (q.setFd fd none)) := by
        show update s1.proc p _=_
        rw [hd1.proc]
      have h2 := fileInv_setProc h1 p (some (q.setFd fd none))
      rw [←hproc] at h2
      refine (ih hrest h2 (by rw [hproc]; exact hpr.setFd hq hfd none)
        (by rw [hproc,update_self])).imp ?_
      rintro s3 ⟨q3,hp3,hc3,hof3,h3,ht3⟩
      rw [hproc,cwds_setFd hpr hq] at ht3
      have ht1 := hd1.toTrims
      rw [cwds_setFd hpr hq] at ht1
      refine ⟨q3,?_,hc3,fun fd' => ?_,h3,ht1.trans ht3⟩
      · rw [hp3,hproc,update_idem]
      · rw [hof3]
        show (if fd'∈fds then none else update q.ofile fd none fd')=_
        by_cases hfd' : fd'=fd
        · rw [hfd',update_self]
          simp
        · rw [update_of_ne hfd']
          simp [hfd']

lemma leave_spec (hpr : ProcsOk proc) (hq : proc p=some q) (hof : ∀ fd,q.ofile fd=none) :
    fdRefs (update proc p none)=fdRefs proc ∧
      Pi.single q.cwd 1+cwds (update proc p none)=cwds proc := by
  have hp := (hpr p q hq).1
  have hrefs := fdRefs_update proc hp none
  have hcs := cwds_update proc hp none
  have hzero : procRefs (some q)=0 := by
    funext f
    rw [procRefs,Tally.total,Pi.zero_apply]
    exact Finset.sum_eq_zero fun fd _ => by rw [hof,fdOwn_none,Pi.zero_apply]
  grind [procRefs,cwdOwn]

lemma exit_served (h : SysInv s) (hq : s.proc p=some q) (t : Tree) :
    Ensures (Stops t) (exit s p q) fun r => Served s ok r.1 := by
  rw [FileSyscalls.exit]
  split_ifs with hp
  · exact stops_other t (by decide)
  · refine (closeFiles_spec (List.range nofile) (fun fd hm => List.mem_range.mp hm) h.files
      h.procs hq t).bind ?_
    rintro s1 ⟨q1,hp1,hc1,hof1,h1,ht1⟩
    have hof : ∀ fd,q1.ofile fd=none := by
      intro fd
      rw [hof1]
      split_ifs with hm
      · rfl
      · exact (h.procs p q hq).2 fd (by rw [List.mem_range] at hm; omega)
    have hq1 : s1.proc p=some q1 := by rw [hp1,update_self]
    have hpr1 : ProcsOk s1.proc := by
      rw [hp1]
      exact h.procs.setProc (h.procs p q hq).1 fun fd _ => hof fd
    obtain ⟨hrefs,hcs⟩ := leave_spec hpr1 hq1 hof
    rw [←hrefs,←hcs,hc1] at h1
    have hinv := h1.inode
    have hsound := h1.sound
    rw [add_left_comm] at hinv hsound
    refine (iput_lives hinv hsound.formed hsound.lives).bind ?_
    rintro fs2 ⟨h2,hk2,hl2,hs2,hsb2,hst2⟩
    have h3 := fileInv_setProc (h1.setFs h2 hs2 (hk2.mono fun _ hj => Nat.add_pos_left hj _)) p
      none
    have ht2 : Trims s1.fs fs2 0 := ⟨fun _ hj => absurd hj (by simp),hl2,hsb2,hst2⟩
    exact served_of_trims h ((ht1.mono fun _ hj => absurd hj (by simp)).trans ht2) h3
      (hpr1.setNone p)

lemma served_quiet (h : SysInv s) (h' : InodeInv fs' (fileOwn s.ftable+cwds s.proc))
    (hq : Quiet (fileOwn s.ftable+cwds s.proc) s.fs fs') (hl : locks fs'=locks s.fs) :
    Served s ok {s with fs := fs'} :=
  served_of_trims h (trims_quiet h.files.inode hq hl)
    (h.files.setFs h' (h.files.sound.quiet hq) (hq.kept.mono fun _ hj => Nat.add_pos_left hj _))
    h.procs

lemma cwds_move (hpr : ProcsOk proc) (hq : proc p=some q) (ip : ℕ) :
    Pi.single q.cwd 1+cwds (update proc p (some {q with cwd := ip}))=
      Pi.single ip 1+cwds proc := by
  have hcs := cwds_update proc (hpr p q hq).1 (some {q with cwd := ip})
  rw [hq,cwdOwn_some,cwdOwn_some,add_comm,add_comm (cwds proc)] at hcs
  exact hcs

lemma fdRefs_move (hpr : ProcsOk proc) (hq : proc p=some q) (ip : ℕ) :
    fdRefs (update proc p (some {q with cwd := ip}))=fdRefs proc := by
  have hrefs := fdRefs_update proc (hpr p q hq).1 (some {q with cwd := ip})
  rw [hq] at hrefs
  exact add_right_cancel hrefs

lemma sysChdir_served (h : SysInv s) (hq : s.proc p=some q) (path : List UInt8) :
    Ensures (Stops (tree s.fs)) (sysChdir s p q path) fun r => Served s ok r.1 := by
  have hinv := h.files.inode
  have hsound := h.files.sound
  refine (namei_spec path hinv hsound (h.cwd hq) (stops_namex _)).bind ?_
  rintro ⟨fs1,r⟩ ⟨hq1,hl1,hr⟩
  cases r with
  | none => exact served_quiet h hr hq1 hl1
  | some ip =>
    obtain ⟨h1,-,hlost⟩ := hr
    have hpos := single_pos (fileOwn s.ftable+cwds s.proc) ip
    refine (ilock_spec h1 hpos fun hf => stops_lost (hlost hf)).bind ?_
    rintro fs2 ⟨h2,hq2,hv2,hfl2,hl2⟩
    have hq2' := hq1.trans (hq2.mono fun jp hj => single_add_pos hj)
    have hs2 := hsound.quiet hq2'
    rw [show locks fs1=locks s.fs from hl1] at hfl2 hl2
    obtain ⟨hc2,ht2⟩ := h2.loaded ip hpos hv2
    rw [hc2] at ht2
    split_ifs with hdir
    · refine (iunlockput_quiet h2 hs2.lives le_rfl (stops_other _ (by decide))).bind ?_
      rintro fs3 ⟨h3,hq3,hl3⟩
      refine served_quiet h h3 (hq2'.trans hq3) ?_
      rw [hl3,hl2,relock hfl2]
    · refine (iunlock_spec h2 hpos (stops_other _ (by decide))).bind ?_
      rintro fs3 ⟨h3,hq3,hl3,-⟩
      have hs3 : Sound fs3 (Pi.single ip 1+(fileOwn s.ftable+cwds s.proc)) :=
        Sound.quiet ⟨hs2.formed,hs2.lives.add ht2⟩ hq3
      have hmove := cwds_move h.procs hq ip
      rw [add_left_comm,←hmove,add_left_comm] at h3 hs3
      refine (iput_lives h3 hs3.formed hs3.lives).bind ?_
      rintro fs4 ⟨h4,hk4,hl4,hs4,hsb4,hst4⟩
      have ht3 : Trims s.fs fs3 0 := by
        refine trims_quiet hinv ((hq2'.trans (hq3.mono fun jp hj => single_add_pos hj)).mono
          fun _ hj => absurd hj (by simp)) ?_
        rw [hl3,hl2,relock hfl2]
      have ht4 : Trims fs3 fs4 0 := ⟨fun _ hj => absurd hj (by simp),hl4,hsb4,hst4⟩
      have hkept : Kept (fileOwn s.ftable) s.fs fs4 := by
        have hk3 := (hq2'.trans (hq3.mono fun jp hj => single_add_pos hj)).kept
        exact (hk3.mono fun _ hj => Nat.add_pos_left hj _).trans
          (hk4.mono fun _ hj => Nat.add_pos_left hj _)
      have h5 := fileInv_setProc (h.files.setFs h4 hs4 hkept) p (some {q with cwd := ip})
      rw [←fdRefs_move h.procs hq ip] at h5
      exact served_of_trims h (ht3.trans ht4) h5
        (h.procs.setProc (h.procs p q hq).1 (h.procs p q hq).2)

lemma files_of_proc (h : FileInv s' (fdRefs proc) (cwds proc)) (hp : s'.proc=proc) :
    FileInv s' (fdRefs s'.proc) (cwds s'.proc) := by
  rw [hp]
  exact h

/-- The state in the middle of sys_open: a locked inode that is not in the file
table yet. -/
structure Opening (s : Sys) (ok : Edit→Prop) (ip : ℕ) (s1 : Sys) : Prop where
  files : FileInv s1 (fdRefs s.proc) (Pi.single ip 1+cwds s.proc)
  free : locks s.fs ip=false
  lock : locks s1.fs=update (locks s.fs) ip true
  sb : s1.fs.sb=s.fs.sb
  edited : Edited ok s.fs s1.fs
  proc : s1.proc=s.proc

lemma Opening.drops {s2 : Sys} (ho : Opening s ok ip s1) (hd : Drops s1 s2 own)
    (h2 : FileInv s2 (fdRefs s.proc) (Pi.single ip 1+cwds s.proc)) : Opening s ok ip s2 := by
  have hst := hd.freed
  rw [ho.sb] at hst
  exact ⟨h2,ho.free,hd.lock.trans ho.lock,hd.sb.trans ho.sb,ho.edited.trans_free hst,
    hd.proc.trans ho.proc⟩

lemma Opening.fail (h : SysInv s) (ho : Opening s ok ip s1) (t : Tree) : Ensures (Stops t) (do
      let fs ← iunlockput s1.fs ip
      pure (({s1 with fs := fs} : Sys),(-1 : ℤ))) fun r => Served s ok r.1 := by
  have hinv := ho.files.inode
  have hsound := ho.files.sound
  rw [add_left_comm] at hinv hsound
  refine (iunlockput_lives hinv hsound.formed hsound.lives (stops_other t (by decide))).bind ?_
  rintro fs2 ⟨h2,hk2,hl2,hs2,hsb2,hst2⟩
  have h3 := ho.files.setFs h2 hs2 (hk2.mono fun _ hj => Nat.add_pos_left hj _)
  rw [ho.sb] at hst2
  refine ⟨⟨?_,?_,?_⟩,hsb2.trans ho.sb,ho.edited.trans_free hst2⟩
  · exact files_of_proc h3 ho.proc
  · grind [ho.lock,relock,h.lock]
  · grind [ho.proc,h.procs]

lemma Opening.finish {omode : ℕ} (h : SysInv s) (hq : s.proc p=some q) (ho : Opening s ok ip s1)
    (hv : (s1.fs.itable ip).valid=true)
    (hd : omode=0 ∨ (s1.fs.dinode (s1.fs.itable ip).inum).type≠.dir) (hf : filealloc s1=some f)
    (hfd : fdalloc q=some fd) (t : Tree) :
    Ensures (Stops t) (openEnd s1 p q ip omode f fd) fun r => Served s ok r.1 := by
  have hopen := openFile_spec ho.files hf hd
  rw [openEnd]
  simp only
  generalize (openFile (s1.fs.itable ip).copy ip omode {s1.ftable f with ref := 1})=e at hopen ⊢
  have hpos : 0<(fileOwn (s1.setFile f e).ftable+cwds s.proc) ip := by
    have h1 := hopen.inode.refs ip
    have h2 := ho.files.inode.refs ip
    have h3 : (s1.fs.itable ip).ref=((s1.setFile f e).fs.itable ip).ref := rfl
    rw [add_left_comm,single_add_self] at h2
    omega
  refine (openTrunc_spec hopen.inode hopen.sound hpos hv omode).bind ?_
  rintro fs2 ⟨hr2,hl2⟩
  refine (iunlock_spec hr2.inv hpos (stops_other t (by decide))).bind ?_
  rintro fs3 ⟨h3,hq3,hl3,-⟩
  have hr3 := hr2.trans (.quiet hr2.inv hr2.sound h3 hq3)
  obtain ⟨hlt,hnone⟩ := fdalloc_some hfd
  have hx := fdRefs_setFd h.procs hq hlt (some f)
  rw [hnone,fdOwn_none,fdOwn_some,add_zero,add_comm (fdRefs s.proc)] at hx
  have h4 := fileInv_setProc (hopen.rewrite hr3) p (some (q.setFd fd (some f)))
  rw [←hx,←cwds_setFd h.procs hq fd (some f)] at h4
  have hproc : update s1.proc p (some (q.setFd fd (some f)))=
      update s.proc p (some (q.setFd fd (some f))) := by rw [ho.proc]
  have hlock : locks fs3=fun _ => false := by
    rw [hl3,hl2]
    show update (locks s1.fs) ip false=_
    rw [ho.lock,relock ho.free,h.lock]
  refine ⟨⟨files_of_proc h4 hproc,hlock,?_⟩,hr3.sb.trans ho.sb,ho.edited.trans_free ?_⟩
  · show ProcsOk (update s1.proc p _)
    rw [hproc]
    exact h.procs.setFd hq hlt _
  · show Steps s.fs.sb.ninodes OnlyFree (tree s1.fs) (tree fs3)
    rw [show tree fs3=tree s1.fs from hr3.tree]
    exact .refl _

lemma sysOpen_served (h : SysInv s) (hq : s.proc p=some q) (path : List UInt8) (omode : ℕ) :
    Ensures (Stops (tree s.fs)) (sysOpen s p q path omode) fun r =>
      Served s (fun e => omode&&&oCreate≠0 ∧
        Creates (tree s.fs) (s.fs.itable q.cwd).inum path false e) r.1 := by
  refine (openInode_spec h.files.inode h.files.sound (h.cwd hq) path omode).bind ?_
  rintro ⟨fs1,r⟩ ⟨hk1,hsb1,hr⟩
  cases r with
  | none =>
    obtain ⟨h1,hsame,hl1⟩ := hr
    have ht : Trims s.fs fs1 (fileOwn s.ftable+cwds s.proc) := by
      refine ⟨hk1,hl1,hsb1,?_⟩
      rw [show tree fs1=tree s.fs from hsame.tree h.files.inode]
      exact .refl _
    exact served_of_trims h ht (h.files.setFs h1 (h.files.sound.same hsame hk1)
      (hk1.mono fun _ hj => Nat.add_pos_left hj _)) h.procs
  | some ip =>
    obtain ⟨h1,hs1,hv1,hd1,hfl,hl1,hed⟩ := hr
    rw [add_left_comm] at h1 hs1
    have ho : Opening s _ ip {s with fs := fs1} :=
      ⟨h.files.setFs h1 hs1 (hk1.mono fun _ hj => Nat.add_pos_left hj _),hfl,hl1,hsb1,hed,rfl⟩
    simp only
    split_ifs
    · exact ho.fail h _
    · cases hf : filealloc ({s with fs := fs1} : Sys) with
      | none => exact ho.fail h _
      | some f =>
        simp only
        cases hfd : fdalloc q with
        | none =>
          simp only
          refine (fileclose_spec (takeFile_spec ho.files hf)).bind ?_
          rintro s2 ⟨h2,hd2⟩
          have ho2 := ho.drops ((drops_takeFile _ f _).trans hd2) h2
          exact ho2.fail h _
        | some fd => exact ho.finish h hq hv1 hd1 hf hfd _

lemma closeBoth_spec {f0 f1 : ℕ} (h : FileInv s (Pi.single f0 1+(Pi.single f1 1+refs)) own)
    (t : Tree) :
    Ensures (Stops t) (closeBoth s f0 f1) fun r => FileInv r.1 refs own ∧ Drops s r.1 own := by
  refine (fileclose_spec h).bind ?_
  rintro s1 ⟨h1,hd1⟩
  refine (fileclose_spec h1).bind ?_
  rintro s2 ⟨h2,hd2⟩
  exact ⟨h2,hd1.trans hd2⟩

lemma setFd_clear (hof : q.ofile fd=none) (v : Option ℕ) : (q.setFd fd v).setFd fd none=q := by
  obtain ⟨cwd,ofile⟩ := q
  grind [Proc.setFd,update_idem,update_eq_self]

lemma setFd_comm {fd0 fd1 : ℕ} (hne : fd0≠fd1) (v w : Option ℕ) :
    (q.setFd fd0 v).setFd fd1 w=(q.setFd fd1 w).setFd fd0 v := by
  simp only [Proc.setFd]
  rw [update_comm hne.symm]

lemma fdRefs_fdalloc (h : ProcsOk proc) (hq : proc p=some q) (hfd : fdalloc q=some fd) (f : ℕ) :
    fdRefs (update proc p (some (q.setFd fd (some f))))=Pi.single f 1+fdRefs proc := by
  obtain ⟨hlt,hnone⟩ := fdalloc_some hfd
  have hx := fdRefs_setFd h hq hlt (some f)
  rw [hnone,fdOwn_none,fdOwn_some,add_zero,add_comm (fdRefs proc)] at hx
  exact hx

lemma sysPipe_served (h : SysInv s) (hq : s.proc p=some q) (page : Option ℕ) (copied : Bool)
    (t : Tree) :
    Ensures (Stops t) (sysPipe s p q page copied) fun r => Served s ok r.1 := by
  refine (pipealloc_spec h.files page).bind ?_
  rintro ⟨s1,r⟩ hr
  -- what the failure exits leave, once the process has its old descriptors back
  have hfail : ∀ (s2 : Sys) f0 f1,FileInv s2 (Pi.single f0 1+(Pi.single f1 1+fdRefs s.proc))
      (cwds s.proc)→s2.fs=s.fs→s2.proc=s.proc→
      Ensures (Stops t) (closeBoth s2 f0 f1) fun r => Served s ok r.1 := by
    intro s2 f0 f1 h2 hfs2 hp2
    have hd0 : Drops s s2 (cwds s.proc) := .of_fs _ hfs2 hp2
    refine (closeBoth_spec h2 t).imp ?_
    rintro ⟨s3,n⟩ ⟨h3,hd3⟩
    have hp3 : s3.proc=s.proc := hd3.proc.trans hp2
    refine served_of_trims h (hd0.trans hd3).toTrims (files_of_proc h3 hp3) ?_
    show ProcsOk s3.proc
    rw [hp3]
    exact h.procs
  cases r with
  | none =>
    obtain ⟨h1,hd1⟩ := hr
    have hp1 : s1.proc=s.proc := hd1.proc
    refine served_of_trims h hd1.toTrims (files_of_proc h1 hp1) ?_
    grind [h.procs]
  | some ff =>
    obtain ⟨f0,f1⟩ := ff
    obtain ⟨h1,hfs1,hp1⟩ := hr
    have hback : ∀ q',q'=q→(s1.setProc p (some q')).proc=s.proc := by
      rintro q' rfl
      show update s1.proc p (some q')=s.proc
      rw [show s1.proc=s.proc from hp1,←hq,update_eq_self]
    simp only
    cases hfd0 : fdalloc q with
    | none => exact hfail s1 f0 f1 h1 hfs1 hp1
    | some fd0 =>
      obtain ⟨hlt0,hnone0⟩ := fdalloc_some hfd0
      simp only
      cases hfd1 : fdalloc (q.setFd fd0 (some f0)) with
      | none =>
        exact hfail _ f0 f1 (fileInv_setProc h1 p _) hfs1 (hback _ (setFd_clear hnone0 _))
      | some fd1 =>
        obtain ⟨hlt1,hnone1⟩ := fdalloc_some hfd1
        have hne : fd0≠fd1 := by
          rintro rfl
          rw [show (q.setFd fd0 (some f0)).ofile fd0=some f0 from update_self _ _ _]
            at hnone1
          cases hnone1
        simp only
        split_ifs
        · have hpr1 := h.procs.setFd hq hlt0 (some f0)
          have hq1 : update s.proc p (some (q.setFd fd0 (some f0))) p=
              some (q.setFd fd0 (some f0)) := update_self _ _ _
          have hx := fdRefs_fdalloc hpr1 hq1 hfd1 f1
          have hc := cwds_setFd hpr1 hq1 fd1 (some f1)
          have hpr2 := hpr1.setFd hq1 hlt1 (some f1)
          rw [update_idem] at hx hc hpr2
          rw [fdRefs_fdalloc h.procs hq hfd0 f0,add_left_comm] at hx
          rw [cwds_setFd h.procs hq] at hc
          have hproc : (s1.setProc p (some ((q.setFd fd0 (some f0)).setFd fd1 (some f1)))).proc=
              update s.proc p (some ((q.setFd fd0 (some f0)).setFd fd1 (some f1))) := by
            show update s1.proc p _=_
            rw [show s1.proc=s.proc from hp1]
          have h2 := fileInv_setProc h1 p (some ((q.setFd fd0 (some f0)).setFd fd1 (some f1)))
          rw [←hx,←hc] at h2
          have hd : Drops s s1 0 := .of_fs _ hfs1 hp1
          refine served_of_trims h hd.toTrims (files_of_proc h2 hproc) ?_
          show ProcsOk (s1.setProc p _).proc
          rw [hproc]
          exact hpr2
        · refine hfail _ f0 f1 (fileInv_setProc h1 p _) hfs1 (hback _ ?_)
          rw [setFd_comm hne none none,setFd_clear hnone1,setFd_clear hnone0]

/-- The edits that a call permits in a state with this tree. -/
def Allowed (t : Tree) (cwd : ℕ) : Call→Edit→Prop
  | .sysOpen path omode => fun e => omode&&&oCreate≠0 ∧ Creates t cwd path false e
  | .sysMkdir path => Creates t cwd path true
  | .sysMknod path _ _ => Creates t cwd path false
  | .sysLink old new => Links t cwd old new
  | .sysUnlink path => Unlinks t cwd path
  | _ => fun _ => False

lemma call_served (h : SysInv s) (hq : s.proc p=some q) (c : Call) :
    Ensures (Stops (tree s.fs)) (call s p q c) fun r =>
      Served s (Allowed (tree s.fs) (s.fs.itable q.cwd).inum c) r.1 := by
  have hinv := h.files.inode
  have hsound := h.files.sound
  have hcwd := h.cwd hq
  cases c with
  | sysOpen path omode => exact sysOpen_served h hq path omode
  | sysMkdir path => exact onFs_served h (makeNode_spec hinv hsound hcwd path (by decide) 0 0)
  | sysMknod path major minor =>
    exact onFs_served h (makeNode_spec hinv hsound hcwd path (by decide) major minor)
  | sysLink old new => exact onFs_served h (sysLink_spec hinv hsound hcwd old new)
  | sysUnlink path => exact onFs_served h (sysUnlink_spec hinv hsound hcwd path)
  | sysChdir path => exact sysChdir_served h hq path
  | sysClose fd => exact sysClose_served h hq fd _
  | sysDup fd => exact sysDup_served h hq fd _
  | sysRead fd n room => exact withFile_served h fd fun f => fileread_spec h.files n room _
  | sysWrite fd n src => exact withFile_served h fd fun f => filewrite_spec h.files src n _
  | writei fd off n src => exact withFile_served h fd fun f => writeiAny_spec h.files src off n _
  | fork child => exact fork_served h hq child _
  | exit => exact exit_served h hq _
  | exec path reads ret => exact onFs_served h (exec_spec hinv hsound hcwd path reads ret)
  | sysPipe page copied => exact sysPipe_served h hq page copied _

def permits (s : Sys) (a : ℕ×Call) (e : Edit) : Prop :=
  ∃ q,s.proc a.1=some q ∧ Allowed (tree s.fs) (s.fs.itable q.cwd).inum a.2 e

lemma step_served (h : SysInv s) (a : ℕ×Call) :
    Ensures (Stops (tree s.fs)) (step s a) fun s' => Served s (permits s a) s' := by
  rw [step]
  cases hq : s.proc a.1 with
  | none => trivial
  | some q =>
    refine (call_served h hq a.2).bind ?_
    rintro ⟨s1,n⟩ ⟨h1,hsb1,u,hu,hst⟩
    refine ⟨h1,hsb1,u,hu.imp_right ?_,hst⟩
    rintro ⟨e,he,hstep⟩
    exact ⟨e,⟨q,hq,he⟩,hstep⟩

end Xv6Riscv.FileMachine
