import Xv6Riscv.FileRuns

/-!
# Failed naming calls leave no trace

A call that creates, links or removes a name may fail half way, when the disk
or the inodes are used up or a name turns out to be taken. What it leaves then
has the same names, files and allocated inodes as before, and the references
and locks it took are given back. Blocks may have been added to a directory
behind its end; they hold no entry.
-/

namespace Xv6Riscv.NamingAtomicity

open Transition OutcomeLogic InodeLayer DirectoryLayer BlockOwnership InodeTable FileTree FileView
  DirectorySpecs NamingSpecs LinkSpecs FileSyscalls FileRuns

variable {fs fs' : Fs} {own : ℕ→ℕ} {cwd : ℕ}

def target (fs : Fs) (d : ℕ) (name : List UInt8) : Option ℕ :=
  ((tree fs d).bind fun n => lookup n.entries name).map (·.inum)

structure Unchanged (fs fs' : Fs) : Prop where
  names : ∀ d name,target fs' d name=target fs d name
  allocated : ∀ i,(fs'.dinode i).type=.free ↔ (fs.dinode i).type=.free
  fields : ∀ i,(fs.dinode i).type≠.free→fieldsOf (fs'.dinode i)=fieldsOf (fs.dinode i)
  contents : ∀ i off,(fs.dinode i).type≠.free→ off<(fs.dinode i).size→
    fileByte fs' i off=fileByte fs i off
  refs : ∀ ip,(fs'.itable ip).ref=(fs.itable ip).ref
  locked : ∀ ip,(fs'.itable ip).locked=(fs.itable ip).locked

lemma unchanged_of_same (h : InodeInv fs own) (h' : InodeInv fs' own) (hs : SameFiles fs fs')
    (hl : locks fs'=locks fs) : Unchanged fs fs' := by
  refine ⟨fun d name => ?_,fun i => ?_,fun i => (hs.file i).fields,fun i off ht hoff =>
    (hs.file i).byte h ht hoff,fun ip => ?_,fun ip => congrFun hl ip⟩
  · rw [target,target,hs.tree h]
  · rw [(hs.file i).type]
  · rw [h'.refs,h.refs]

lemma unchanged_of_leaves {ok : Edit→Prop} (h : InodeInv fs own)
    (hr : Leaves fs own ok (fs',-1)) : Unchanged fs fs' :=
  unchanged_of_same h hr.inv (hr.failed rfl) hr.lock

/-- create, mkdir, mknod, link and unlink change nothing when they fail, in every
file system with the inode invariant. -/
theorem failed_naming_leaves_no_trace (h : InodeInv fs own) (hs : Sound fs own)
    (hcwd : 0<own cwd) :
    (∀ path type major minor,type≠.free→
      create fs cwd path type major minor=.next (fs',none)→Unchanged fs fs') ∧
    (∀ path,sysMkdir fs cwd path=.next (fs',-1)→Unchanged fs fs') ∧
    (∀ path major minor,sysMknod fs cwd path major minor=.next (fs',-1)→Unchanged fs fs') ∧
    (∀ old new,sysLink fs cwd old new=.next (fs',-1)→Unchanged fs fs') ∧
    ∀ path,sysUnlink fs cwd path=.next (fs',-1)→Unchanged fs fs' := by
  refine ⟨fun path type major minor ht hrun => ?_,fun path hrun => ?_,
    fun path major minor hrun => ?_,fun old new hrun => ?_,fun path hrun => ?_⟩
  · obtain ⟨-,-,h',hsame,hl⟩ := (create_spec h hs hcwd path ht major minor).of_next hrun
    exact unchanged_of_same h h' hsame hl
  · exact unchanged_of_leaves h
      ((makeNode_spec h hs hcwd path (by decide) 0 0).of_next hrun)
  · exact unchanged_of_leaves h
      ((makeNode_spec h hs hcwd path (by decide) major minor).of_next hrun)
  · exact unchanged_of_leaves h ((sysLink_spec h hs hcwd old new).of_next hrun)
  · exact unchanged_of_leaves h ((sysUnlink_spec h hs hcwd path).of_next hrun)

/-- On a disk without a free block mkdir gets an inode but no block for its
entries, and fails. -/
theorem mkdir_on_full_disk : ∃ fs',sysMkdir (boot (rootImage 11)).fs 0 [97]=.next (fs',-1) ∧
    Unchanged (boot (rootImage 11)).fs fs' := by
  have hrun : (sysMkdir (boot (rootImage 11)).fs 0 [97]).state?.map (·.2)=some (-1) := by
    decide +kernel
  obtain ⟨⟨fs',n⟩,hs,hn⟩ := exists_of_state? hrun
  obtain rfl : n=-1 := hn
  have hboot := boot_inv (@rootImage_consistent 11 (by decide) (by decide))
  have hinv := hboot.files.inode
  have hsound := hboot.files.sound
  rw [boot_own] at hinv hsound
  exact ⟨fs',hs,(failed_naming_leaves_no_trace hinv hsound (by decide)).2.1 [97] hs⟩

end Xv6Riscv.NamingAtomicity
