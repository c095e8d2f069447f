import Xv6Riscv.FileRuns

/-!
# Room in the inode table

A path lookup takes an entry of the inode table for every directory that it
steps into, and iget stops the kernel when all of them are in use. Open files
and current directories keep their entries, and their limits allow more of
them than the table has. The accounting below follows the reference counts
through each call: a call that starts with as many unused entries as it can
hold at once never runs out.
-/

namespace Xv6Riscv.InodeBudget

open Transition OutcomeLogic InodeLayer DirectoryLayer FileSyscalls Occupancy BlockOwnership
  FileTable FileMachine FileRuns

variable {fs fs' : Fs} {own : ℕ→ℤ} {ip dp : ℕ} {s s' : Sys} {img : Image} {as : List (ℕ×Call)}

def Held (fs : Fs) (own : ℕ→ℤ) : Prop := ∀ ip,(fs.itable ip).ref=own ip

def busy (own : ℕ→ℤ) : ℕ := ((Finset.range ninode).filter fun ip => own ip≠0).card

def taken (r : Option ℕ) : ℕ→ℤ := r.elim 0 fun ip => Pi.single ip 1

abbrev other (msg : String) : Prop := msg≠"iget: no inodes"

lemma Held.miss (h : Held fs own) : Held fs (taken none+own) := by
  show Held fs (0+own)
  rwa [zero_add]

lemma Held.of_miss (h : Held fs (taken none+own)) : Held fs own := by
  have h' : Held fs (0+own) := h
  rwa [zero_add] at h'

lemma held_refs (fs : Fs) : Held fs fun ip => (fs.itable ip).ref := fun _ => rfl

lemma busy_single (ip : ℕ) (own : ℕ→ℤ) : busy (Pi.single ip 1+own)≤busy own+1 := by
  refine (Finset.card_le_card fun jp hjp => ?_).trans (Finset.card_insert_le ip _)
  rw [Finset.mem_filter] at hjp
  grind [Pi.add_apply]

lemma exists_free (h : Held fs own) (hroom : busy own<ninode) :
    ∃ ip∈List.range ninode,(fs.itable ip).ref=0 := by
  by_contra hc
  push Not at hc
  have hall : (Finset.range ninode).filter (fun ip => own ip≠0)=Finset.range ninode :=
    Finset.filter_true_of_mem fun ip hip => by
      rw [←h ip]
      exact hc ip (List.mem_range.mpr (Finset.mem_range.mp hip))
  grind [busy]

section Inodes

variable (h : Held fs own)

include h

lemma Held.setInode {e : Inode} (he : e.ref=own ip) : Held (fs.setInode ip e) own := by
  intro jp
  by_cases hj : jp=ip
  · rw [hj,setInode_self,he]
  · rw [setInode_of_ne fs hj,h jp]

lemma Held.edit (ip : ℕ) (f : Dinode→Dinode) : Held (fs.edit ip f) own :=
  h.setInode (h ip)

lemma Held.save (ip : ℕ) : Held (iupdate fs ip) own := h

lemma Held.count {e : Inode} (he : e.ref=own ip+1) :
    Held (fs.setInode ip e) (Pi.single ip 1+own) := by
  intro jp
  by_cases hj : jp=ip
  · grind [setInode_self,Pi.add_apply]
  · rw [setInode_of_ne fs hj,h jp,Pi.add_apply,Pi.single_eq_of_ne hj,zero_add]

lemma bfree_held (b : ℕ) : Ensures other (bfree fs b) (Held · own) := by
  rw [bfree]
  split
  · exact h
  · exact show other _ by decide

lemma freeDirect_held (ks : List ℕ) : Ensures other (freeDirect ip ks fs) (Held · own) := by
  induction ks generalizing fs with
  | nil => exact h
  | cons k ks ih =>
    rw [freeDirect]
    split
    · exact ih h
    · exact (bfree_held h _).bind fun fs' h' => ih (h'.edit ip _)

lemma freeEntries_held (a : Block) (js : List ℕ) :
    Ensures other (freeEntries a js fs) (Held · own) := by
  induction js generalizing fs with
  | nil => exact h
  | cons j js ih =>
    rw [freeEntries]
    split
    · exact ih h
    · exact (bfree_held h _).bind fun fs' h' => ih h'

lemma freeIndirect_held (ip : ℕ) : Ensures other (freeIndirect fs ip) (Held · own) := by
  rw [freeIndirect]
  split
  · exact h
  · refine (freeEntries_held h _ _).bind fun fs1 h1 => ?_
    exact (bfree_held h1 _).bind fun fs2 h2 => h2.edit ip _

lemma itrunc_held (ip : ℕ) : Ensures other (itrunc fs ip) (Held · own) := by
  refine (freeDirect_held h _).bind fun fs1 h1 => ?_
  exact (freeIndirect_held h1 ip).bind fun fs2 h2 => (h2.edit ip _).save ip

lemma ifree_held (ip : ℕ) : Ensures other (ifree fs ip) (Held · own) := by
  rw [ifree]
  split
  · trivial
  · have hlock : Held (fs.setInode ip {fs.itable ip with locked := true}) own := h.setInode (h ip)
    refine (itrunc_held hlock ip).bind fun fs1 h1 => ?_
    have hedit : Held (iupdate (fs1.edit ip fun d => {d with type := .free}) ip) own :=
      (h1.edit ip _).save ip
    exact hedit.setInode (hedit ip)

lemma ilock_held (ip : ℕ) : Ensures other (ilock fs ip) (Held · own) := by
  simp only [ilock]
  split_ifs
  · exact show other _ by decide
  · trivial
  · exact h.setInode (h ip)
  · exact show other _ by decide
  · exact h.setInode (h ip)

lemma iunlock_held (ip : ℕ) : Ensures other (iunlock fs ip) (Held · own) := by
  simp only [iunlock]
  split
  · exact show other _ by decide
  · exact h.setInode (h ip)

omit h

lemma Held.drop (h : Held fs (Pi.single ip 1+own)) :
    Held (fs.setInode ip {fs.itable ip with ref := (fs.itable ip).ref-1}) own := by
  intro jp
  by_cases hj : jp=ip
  · rw [hj,setInode_self]
    show (fs.itable ip).ref-1=own ip
    rw [h ip,Pi.add_apply,Pi.single_eq_same,add_sub_cancel_left]
  · rw [setInode_of_ne fs hj,h jp,Pi.add_apply,Pi.single_eq_of_ne hj,zero_add]

lemma iput_held (h : Held fs (Pi.single ip 1+own)) : Ensures other (iput fs ip) (Held · own) := by
  rw [iput]
  split
  · exact (ifree_held h ip).bind fun fs1 h1 => h1.drop
  · exact h.drop

lemma iunlockput_held (h : Held fs (Pi.single ip 1+own)) :
    Ensures other (iunlockput fs ip) (Held · own) :=
  (iunlock_held h ip).bind fun _ h1 => iput_held h1

lemma balloc_held (h : Held fs own) : Held (balloc fs).1 own := by
  rw [balloc]
  split
  · exact h
  · exact h

lemma addrAlloc_held (h : Held fs own) (ip k : ℕ) : Held (addrAlloc fs ip k).1 own := by
  simp only [addrAlloc]
  split_ifs
  · exact balloc_held h
  · exact (balloc_held h).edit ip fun d => d.setAddr k (balloc fs).2
  · exact h

lemma entryAlloc_held (h : Held fs own) (b j : ℕ) : Held (entryAlloc fs b j).1 own := by
  simp only [entryAlloc]
  split_ifs
  · exact balloc_held h
  · exact balloc_held h
  · exact h

lemma bmap_held (h : Held fs own) (ip bn : ℕ) :
    Ensures other (bmap fs ip bn) fun r => Held r.1 own := by
  simp only [bmap]
  split_ifs
  · exact addrAlloc_held h ip bn
  · exact addrAlloc_held h ip ndirect
  · exact entryAlloc_held (addrAlloc_held h ip ndirect) _ _
  · exact show other _ by decide

lemma readiLoop_held (h : Held fs own) (ip : ℕ) (room : Option ℕ) (fuel off left : ℕ)
    (got : List UInt8) :
    Ensures other (readiLoop ip room fuel fs off left got) fun r => Held r.1 own := by
  induction fuel generalizing fs off left got with
  | zero => exact h
  | succ fuel ih =>
    rw [readiLoop]
    split
    · exact h
    · refine (bmap_held h ip _).bind fun r h1 => ?_
      dsimp only
      split_ifs
      · exact h1
      · exact ih h1 _ _ _
      · exact h1

lemma readi_held (h : Held fs own) (ip : ℕ) (room : Option ℕ) (off n : ℕ) :
    Ensures other (readi fs ip room off n) fun r => Held r.1 own := by
  simp only [readi]
  split
  · exact h
  · exact readiLoop_held h ip room _ _ _ _

lemma writeiLoop_held (h : Held fs own) (ip fuel : ℕ) (src : List UInt8) (off left tot : ℕ) :
    Ensures other (writeiLoop ip fuel fs src off left tot) fun r => Held r.1 own := by
  induction fuel generalizing fs src off left tot with
  | zero => exact h
  | succ fuel ih =>
    rw [writeiLoop]
    split
    · exact h
    · refine (bmap_held h ip _).bind fun r h1 => ?_
      dsimp only
      split_ifs
      · exact h1
      · exact h1
      · exact ih (show Held (r.1.store _ _) own from h1) _ _ _ _

lemma writei_held (h : Held fs own) (ip : ℕ) (src : List UInt8) (off n : ℕ) :
    Ensures other (writei fs ip src off n) fun r => Held r.1 own := by
  simp only [writei]
  split_ifs
  · exact h
  · exact h
  · refine (writeiLoop_held h ip _ _ _ _ _).bind fun r h1 => ?_
    split
    · exact (h1.edit ip _).save ip
    · exact h1

end Inodes

section Lookups

lemma iget_held (h : Held fs own) (hroom : busy own<ninode) (inum : ℕ) :
    Ensures other (iget fs inum) fun r => Held r.1 (Pi.single r.2 1+own) := by
  rw [iget]
  split
  · exact h.count (by rw [h])
  · split
    · rename_i hnone
      obtain ⟨ip,hip,hfree⟩ := exists_free h hroom
      grind
    · rename_i jp hfind
      have hzero : (fs.itable jp).ref=0 := by simpa using List.find?_some hfind
      exact h.count (by rw [←h jp,hzero,zero_add])

lemma ialloc_held (h : Held fs own) (hroom : busy own<ninode) (type : FileType) :
    Ensures other (ialloc fs type) fun r => Held r.1 (taken r.2+own) := by
  rw [ialloc]
  split
  · rename_i inum _
    have h' : Held (fs.setDinode inum (.blank type)) own := h
    exact (iget_held h' hroom inum).bind fun r h1 => h1
  · exact h.miss

lemma scan_held (h : Held fs own) {msg : String} (hmsg : other msg) (dp : ℕ)
    (test : Dirent→Bool) (fuel off : ℕ) :
    Ensures other (scan msg dp test fuel fs off) fun r => Held r.1 own := by
  induction fuel generalizing fs off with
  | zero => exact h
  | succ fuel ih =>
    rw [scan]
    split
    · refine (readi_held h dp none _ _).bind fun r h1 => ?_
      dsimp only
      split_ifs
      · exact hmsg
      · exact h1
      · exact ih h1 _
    · exact h

lemma dirlookup_held (h : Held fs own) (hroom : busy own<ninode) (dp : ℕ) (name : List UInt8) :
    Ensures other (dirlookup fs dp name) fun r => Held r.1 (taken (r.2.map Prod.fst)+own) := by
  rw [dirlookup]
  split
  · exact show other _ by decide
  · refine (scan_held h (by decide) dp _ _ _).bind fun r h1 => ?_
    dsimp only
    split
    · exact h1.miss
    · exact (iget_held h1 hroom _).bind fun r h2 => h2

lemma dirlink_held (h : Held fs own) (hroom : busy own<ninode) (dp : ℕ) (name : List UInt8)
    (inum : ℕ) : Ensures other (dirlink fs dp name inum) fun r => Held r.1 own := by
  refine (dirlookup_held h hroom dp name).bind fun r h1 => ?_
  obtain ⟨fs1,r⟩ := r
  cases r with
  | some r => exact (iput_held h1).bind fun fs2 h2 => h2
  | none =>
    refine (scan_held h1.of_miss (by decide) dp _ _ _).bind fun r h2 => ?_
    exact (writei_held h2 dp _ _ _).bind fun r h3 => h3

lemma isdirempty_held (h : Held fs own) (dp : ℕ) :
    Ensures other (isdirempty fs dp) fun r => Held r.1 own :=
  (scan_held h (by decide) dp _ _ _).bind fun _ h1 => h1

lemma namexEnd_held (h : Held fs (Pi.single ip 1+own)) (parent : Bool) :
    Ensures other (namexEnd parent fs ip) fun r => Held r.1 (taken (r.2.map Prod.fst)+own) := by
  rw [namexEnd]
  split
  · exact (iput_held h).bind fun fs1 h1 => h1.miss
  · exact h

lemma namexLoop_held (h : Held fs (Pi.single ip 1+own)) (hroom : busy own+2≤ninode)
    (parent : Bool) (fuel : ℕ) (path : List UInt8) :
    Ensures other (namexLoop parent fuel fs ip path)
      fun r => Held r.1 (taken (r.2.map Prod.fst)+own) := by
  induction fuel generalizing fs ip path with
  | zero => exact namexEnd_held h parent
  | succ fuel ih =>
    rw [namexLoop]
    split
    · exact namexEnd_held h parent
    · refine (ilock_held h ip).bind fun fs1 h1 => ?_
      split_ifs
      · exact (iunlockput_held h1).bind fun fs2 h2 => h2.miss
      · exact (iunlock_held h1 ip).bind fun fs2 h2 => h2
      · have hmore : busy (Pi.single ip 1+own)<ninode := by
          have := busy_single ip own
          omega
        refine (dirlookup_held h1 hmore ip _).bind fun r h2 => ?_
        obtain ⟨fs2,r⟩ := r
        have hcomm : Held fs2 (Pi.single ip 1+(taken (r.map Prod.fst)+own)) := by
          rwa [add_left_comm]
        refine (iunlockput_held hcomm).bind fun fs3 h3 => ?_
        cases r with
        | none => exact h3
        | some r => exact ih h3 _

lemma namex_held (h : Held fs own) (hroom : busy own+2≤ninode) (cwd : ℕ) (path : List UInt8)
    (parent : Bool) :
    Ensures other (namex fs cwd path parent) fun r => Held r.1 (taken (r.2.map Prod.fst)+own) := by
  rw [namex]
  split
  · refine (iget_held h (by omega) rootino).bind fun r h1 => ?_
    exact namexLoop_held h1 hroom parent _ _
  · exact namexLoop_held (h.count (by rw [h])) hroom parent _ _

lemma namei_held (h : Held fs own) (hroom : busy own+2≤ninode) (cwd : ℕ) (path : List UInt8) :
    Ensures other (namei fs cwd path) fun r => Held r.1 (taken r.2+own) :=
  (namex_held h hroom cwd path false).bind fun _ h1 => h1

end Lookups

section Calls

variable {cwd : ℕ} {path : List UInt8}

lemma addLink_held (h : Held fs own) (ip : ℕ) (k : ℤ) : Held (addLink fs ip k) own :=
  (h.edit ip _).save ip

lemma dotEntries_held (h : Held fs own) (hroom : busy own<ninode) (dp ip : ℕ) (type : FileType) :
    Ensures other (dotEntries fs dp ip type) fun r => Held r.1 own := by
  rw [dotEntries]
  split
  · refine (dirlink_held h hroom ip dot _).bind fun r h1 => ?_
    dsimp only
    split
    · exact dirlink_held h1 hroom ip dotdot _
    · exact h1
  · exact h

lemma enter_held (h : Held fs own) (hroom : busy own<ninode) (dp ip : ℕ) (type : FileType)
    (name : List UInt8) : Ensures other (enter fs dp ip type name) fun r => Held r.1 own := by
  refine (dotEntries_held h hroom dp ip type).bind fun r h1 => ?_
  dsimp only
  split
  · exact dirlink_held h1 hroom dp name _
  · exact h1

lemma createNew_held (h : Held fs (Pi.single dp 1+own)) (hroom : busy own+3≤ninode)
    (name : List UInt8) (type : FileType) (major minor : ℤ) :
    Ensures other (createNew fs dp name type major minor) fun r => Held r.1 (taken r.2+own) := by
  have h1room := busy_single dp own
  refine (ialloc_held h (by omega) type).bind fun r h1 => ?_
  obtain ⟨fs1,r⟩ := r
  cases r with
  | none =>
    have h1' : Held fs1 (Pi.single dp 1+(taken none+own)) := by rwa [add_left_comm]
    exact (iunlockput_held h1').bind fun fs2 h2 => h2
  | some ip =>
    have h2room := busy_single ip (Pi.single dp 1+own)
    have h1' : Held fs1 (Pi.single ip 1+(Pi.single dp 1+own)) := h1
    refine (ilock_held h1' ip).bind fun fs2 h2 => ?_
    have hset : Held (iupdate (fs2.edit ip fun d =>
        {d with major := short major,minor := short minor,nlink := 1}) ip)
        (Pi.single ip 1+(Pi.single dp 1+own)) := (h2.edit ip _).save ip
    refine (enter_held hset (by omega) dp ip type name).bind fun r h3 => ?_
    dsimp only
    split
    · have hlink : Held (if type=.dir then addLink r.1 dp 1 else r.1)
          (Pi.single dp 1+(Pi.single ip 1+own)) := by
        rw [add_left_comm]
        split
        · exact addLink_held h3 dp 1
        · exact h3
      exact (iunlockput_held hlink).bind fun fs4 h4 => h4
    · have hclear : Held (iupdate (r.1.edit ip fun d => {d with nlink := 0}) ip)
          (Pi.single ip 1+(Pi.single dp 1+own)) := (h3.edit ip _).save ip
      refine (iunlockput_held hclear).bind fun fs4 h4 => ?_
      exact (iunlockput_held h4).bind fun fs5 h5 => h5.miss

lemma create_held (h : Held fs own) (hroom : busy own+3≤ninode) (cwd : ℕ) (path : List UInt8)
    (type : FileType) (major minor : ℤ) :
    Ensures other (create fs cwd path type major minor) fun r => Held r.1 (taken r.2+own) := by
  refine (namex_held h (by omega) cwd path true).bind fun r h1 => ?_
  obtain ⟨fs1,r⟩ := r
  cases r with
  | none => exact h1
  | some r =>
    obtain ⟨dp,name⟩ := r
    have h1room := busy_single dp own
    have h1' : Held fs1 (Pi.single dp 1+own) := h1
    refine (ilock_held h1' dp).bind fun fs2 h2 => ?_
    refine (dirlookup_held h2 (by omega) dp name).bind fun r h3 => ?_
    obtain ⟨fs3,r⟩ := r
    cases r with
    | none => exact createNew_held h3.of_miss hroom name type major minor
    | some r =>
      have h3' : Held fs3 (Pi.single dp 1+(Pi.single r.1 1+own)) := by
        rw [add_left_comm]
        exact h3
      refine (iunlockput_held h3').bind fun fs4 h4 => ?_
      refine (ilock_held h4 _).bind fun fs5 h5 => ?_
      split
      · exact h5
      · exact (iunlockput_held h5).bind fun fs6 h6 => h6.miss

lemma linkInto_held (h : Held fs own) (hroom : busy own+2≤ninode) (cwd : ℕ) (new : List UInt8)
    (ip : ℕ) : Ensures other (linkInto fs cwd new ip) fun r => Held r.1 own := by
  refine (namex_held h hroom cwd new true).bind fun r h1 => ?_
  obtain ⟨fs1,r⟩ := r
  cases r with
  | none => exact h1.of_miss
  | some r =>
    obtain ⟨dp,name⟩ := r
    have h1room := busy_single dp own
    have h1' : Held fs1 (Pi.single dp 1+own) := h1
    refine (ilock_held h1' dp).bind fun fs2 h2 => ?_
    refine (dirlink_held h2 (by omega) dp name _).bind fun r h3 => ?_
    exact (iunlockput_held h3).bind fun fs4 h4 => h4

lemma sysLink_held (h : Held fs own) (hroom : busy own+3≤ninode) (cwd : ℕ)
    (old new : List UInt8) : Ensures other (sysLink fs cwd old new) fun _ => True := by
  refine (namei_held h (by omega) cwd old).bind fun r h1 => ?_
  obtain ⟨fs1,r⟩ := r
  cases r with
  | none => trivial
  | some ip =>
    have h1room := busy_single ip own
    have h1' : Held fs1 (Pi.single ip 1+own) := h1
    refine (ilock_held h1' ip).bind fun fs2 h2 => ?_
    split
    · exact (iunlockput_held h2).bind fun _ _ => trivial
    · refine (iunlock_held (addLink_held h2 ip 1) ip).bind fun fs3 h3 => ?_
      refine (linkInto_held h3 (by omega) cwd new ip).bind fun r h4 => ?_
      dsimp only
      split
      · exact (iput_held h4).bind fun _ _ => trivial
      · refine (ilock_held h4 ip).bind fun fs5 h5 => ?_
        exact (iunlockput_held (addLink_held h5 ip (-1))).bind fun _ _ => trivial

lemma mayUnlink_held (h : Held fs own) (ip : ℕ) :
    Ensures other (mayUnlink fs ip) fun r => Held r.1 own := by
  rw [mayUnlink]
  split
  · exact isdirempty_held h ip
  · exact h

lemma unlinkEntry_held (h : Held fs (Pi.single ip 1+(Pi.single dp 1+own))) (off : ℕ) :
    Ensures other (unlinkEntry fs dp ip off) fun _ => True := by
  rw [unlinkEntry]
  split
  · exact show other _ by decide
  · refine (mayUnlink_held h ip).bind fun r h1 => ?_
    dsimp only
    split
    · refine (writei_held h1 dp _ off _).bind fun r h2 => ?_
      split
      · exact show other _ by decide
      · have hlink : Held (if (r.1.itable ip).copy.type=.dir then addLink r.1 dp (-1) else r.1)
            (Pi.single dp 1+(Pi.single ip 1+own)) := by
          rw [add_left_comm]
          split
          · exact addLink_held h2 dp (-1)
          · exact h2
        refine (iunlockput_held hlink).bind fun fs3 h3 => ?_
        exact (iunlockput_held (addLink_held h3 ip (-1))).bind fun _ _ => trivial
    · refine (iunlockput_held h1).bind fun fs2 h2 => ?_
      exact (iunlockput_held h2).bind fun _ _ => trivial

lemma sysUnlink_held (h : Held fs own) (hroom : busy own+2≤ninode) (cwd : ℕ)
    (path : List UInt8) : Ensures other (sysUnlink fs cwd path) fun _ => True := by
  refine (namex_held h hroom cwd path true).bind fun r h1 => ?_
  obtain ⟨fs1,r⟩ := r
  cases r with
  | none => trivial
  | some r =>
    obtain ⟨dp,name⟩ := r
    have h1room := busy_single dp own
    have h1' : Held fs1 (Pi.single dp 1+own) := h1
    refine (ilock_held h1' dp).bind fun fs2 h2 => ?_
    split
    · exact (iunlockput_held h2).bind fun _ _ => trivial
    · refine (dirlookup_held h2 (by omega) dp name).bind fun r h3 => ?_
      obtain ⟨fs3,r⟩ := r
      cases r with
      | none => exact (iunlockput_held h3.of_miss).bind fun _ _ => trivial
      | some r =>
        have h3' : Held fs3 (Pi.single r.1 1+(Pi.single dp 1+own)) := h3
        refine (ilock_held h3' _).bind fun fs4 h4 => ?_
        exact unlinkEntry_held h4 r.2

lemma makeNode_held (h : Held fs own) (hroom : busy own+3≤ninode) (cwd : ℕ) (path : List UInt8)
    (type : FileType) (major minor : ℤ) :
    Ensures other (makeNode fs cwd path type major minor) fun _ => True := by
  refine (create_held h hroom cwd path type major minor).bind fun r h1 => ?_
  obtain ⟨fs1,r⟩ := r
  cases r with
  | none => trivial
  | some ip =>
    have h1' : Held fs1 (Pi.single ip 1+own) := h1
    exact (iunlockput_held h1').bind fun _ _ => trivial

lemma execReads_held (h : Held fs own) (ip : ℕ) (reads : List (ℕ×ℕ)) :
    Ensures other (execReads ip reads fs) (Held · own) := by
  induction reads generalizing fs with
  | nil => exact h
  | cons r reads ih => exact (readi_held h ip none r.1 r.2).bind fun r h1 => ih h1

lemma exec_held (h : Held fs own) (hroom : busy own+2≤ninode) (cwd : ℕ) (path : List UInt8)
    (reads : List (ℕ×ℕ)) (ret : ℤ) :
    Ensures other (exec fs cwd path reads ret) fun _ => True := by
  refine (namei_held h hroom cwd path).bind fun r h1 => ?_
  obtain ⟨fs1,r⟩ := r
  cases r with
  | none => trivial
  | some ip =>
    have h1' : Held fs1 (Pi.single ip 1+own) := h1
    refine (ilock_held h1' ip).bind fun fs2 h2 => ?_
    refine (execReads_held h2 ip reads).bind fun fs3 h3 => ?_
    exact (iunlockput_held h3).bind fun _ _ => trivial

def openNeed (omode : ℕ) : ℕ := if omode&&&oCreate≠0 then 3 else 2

lemma openInode_held (h : Held fs own) {omode : ℕ} (hroom : busy own+openNeed omode≤ninode)
    (cwd : ℕ) (path : List UInt8) :
    Ensures other (openInode fs cwd path omode) fun r => Held r.1 (taken r.2+own) := by
  rw [openInode]
  split
  · rename_i hcreate
    rw [openNeed,if_pos hcreate] at hroom
    exact create_held h hroom cwd path .file 0 0
  · rename_i hcreate
    rw [openNeed,if_neg hcreate] at hroom
    refine (namei_held h hroom cwd path).bind fun r h1 => ?_
    obtain ⟨fs1,r⟩ := r
    cases r with
    | none => exact h1
    | some ip =>
      have h1' : Held fs1 (Pi.single ip 1+own) := h1
      refine (ilock_held h1' ip).bind fun fs2 h2 => ?_
      split
      · exact (iunlockput_held h2).bind fun fs3 h3 => h3.miss
      · exact h2

end Calls

section Descriptors

def Spared {α : Type} (o : Outcome α) : Prop := Ensures other o fun _ => True

lemma Spared.bind {α β : Type} {o : Outcome α} {f : α→Outcome β} (h : Spared o)
    (hf : ∀ x,Spared (f x)) : Spared (o>>=f) := Ensures.bind h fun x _ => hf x

lemma Spared.of_ensures {α : Type} {o : Outcome α} {post : α→Prop} (h : Ensures other o post) :
    Spared o := h.imp fun _ _ => trivial

lemma spared_next {α : Type} (x : α) : Spared (.next x) := trivial

lemma iput_spared (fs : Fs) (ip : ℕ) : Spared (iput fs ip) := by
  refine .of_ensures (@iput_held fs (fun jp => (fs.itable jp).ref-(Pi.single ip 1 : ℕ→ℤ) jp) ip
    fun jp => ?_)
  rw [Pi.add_apply]
  omega

lemma iunlock_spared (fs : Fs) (ip : ℕ) : Spared (iunlock fs ip) :=
  .of_ensures (iunlock_held (held_refs fs) ip)

lemma iunlockput_spared (fs : Fs) (ip : ℕ) : Spared (iunlockput fs ip) :=
  (iunlock_spared fs ip).bind fun fs' => iput_spared fs' ip

lemma fileclose_spared (s : Sys) (f : ℕ) : Spared (fileclose s f) := by
  simp only [fileclose]
  split_ifs
  · exact show other _ by decide
  · exact spared_next _
  · split
    · exact spared_next _
    · exact spared_next _
    · exact (iput_spared _ _).bind fun _ => spared_next _
    · exact (iput_spared _ _).bind fun _ => spared_next _

lemma filedup_spared (s : Sys) (f : ℕ) : Spared (filedup s f) := by
  simp only [filedup]
  split
  · exact show other _ by decide
  · exact spared_next _

lemma openEnd_spared (s : Sys) (p : ℕ) (q : Proc) (ip omode f fd : ℕ) :
    Spared (openEnd s p q ip omode f fd) := by
  have htrunc : ∀ fs,Spared (openTrunc fs ip omode) := by
    intro fs
    rw [openTrunc]
    split
    · exact .of_ensures (itrunc_held (held_refs fs) ip)
    · exact spared_next _
  exact (htrunc _).bind fun fs => (iunlock_spared fs ip).bind fun _ => spared_next _

lemma sysOpen_spared (h : Held s.fs own) {omode : ℕ} (hroom : busy own+openNeed omode≤ninode)
    (p : ℕ) (q : Proc) (path : List UInt8) : Spared (sysOpen s p q path omode) := by
  refine Spared.bind (.of_ensures (openInode_held h hroom q.cwd path)) fun r => ?_
  obtain ⟨fs1,r⟩ := r
  cases r with
  | none => exact spared_next _
  | some ip =>
    have hput : ∀ s1 : Sys,Spared (iunlockput s1.fs ip>>=fun fs =>
        pure ({s1 with fs := fs},(-1 : ℤ))) :=
      fun s1 => (iunlockput_spared s1.fs ip).bind fun _ => spared_next _
    dsimp only
    split
    · exact hput {s with fs := fs1}
    · split
      · exact hput {s with fs := fs1}
      · split
        · exact (fileclose_spared _ _).bind hput
        · exact openEnd_spared _ p q ip omode _ _

lemma sysChdir_spared (h : Held s.fs own) (hroom : busy own+2≤ninode) (p : ℕ) (q : Proc)
    (path : List UInt8) : Spared (sysChdir s p q path) := by
  refine Spared.bind (.of_ensures (namei_held h hroom q.cwd path)) fun r => ?_
  obtain ⟨fs1,r⟩ := r
  cases r with
  | none => exact spared_next _
  | some ip =>
    refine Spared.bind (.of_ensures (ilock_held (held_refs fs1) ip)) fun fs2 => ?_
    split
    · exact (iunlockput_spared fs2 ip).bind fun _ => spared_next _
    · refine (iunlock_spared fs2 ip).bind fun fs3 => ?_
      exact (iput_spared fs3 q.cwd).bind fun _ => spared_next _

lemma closeBoth_spared (s : Sys) (f0 f1 : ℕ) : Spared (closeBoth s f0 f1) :=
  (fileclose_spared s f0).bind fun s1 => (fileclose_spared s1 f1).bind fun _ => spared_next _

lemma pipealloc_spared (s : Sys) (page : Option ℕ) : Spared (pipealloc s page) := by
  rw [pipealloc]
  split
  · exact spared_next _
  · dsimp only
    split
    · exact (fileclose_spared _ _).bind fun _ => spared_next _
    · split
      · exact (fileclose_spared _ _).bind fun s1 =>
          (fileclose_spared s1 _).bind fun _ => spared_next _
      · split
        · trivial
        · exact spared_next _

lemma sysPipe_spared (s : Sys) (p : ℕ) (q : Proc) (page : Option ℕ) (copied : Bool) :
    Spared (sysPipe s p q page copied) := by
  refine (pipealloc_spared s page).bind fun r => ?_
  dsimp only
  split
  · exact spared_next _
  · split
    · exact closeBoth_spared _ _ _
    · split
      · exact closeBoth_spared _ _ _
      · split
        · exact spared_next _
        · exact closeBoth_spared _ _ _

lemma fileread_spared (s : Sys) (f n : ℕ) (room : Option ℕ) : Spared (fileread s f n room) := by
  simp only [fileread]
  split
  · exact spared_next _
  · split
    · exact spared_next _
    · exact spared_next _
    · exact show other _ by decide
    · refine Spared.bind (.of_ensures (ilock_held (held_refs s.fs) _)) fun fs1 => ?_
      refine Spared.bind (.of_ensures (readi_held (held_refs fs1) _ room _ n)) fun r => ?_
      exact (iunlock_spared r.1 _).bind fun _ => spared_next _

lemma writeAt_spared (fs : Fs) (ip : ℕ) (src : List UInt8) (off n : ℕ) :
    Spared (writeAt fs ip src off n) := by
  refine Spared.bind (.of_ensures (ilock_held (held_refs fs) ip)) fun fs1 => ?_
  refine Spared.bind (.of_ensures (writei_held (held_refs fs1) ip src off n)) fun r => ?_
  exact (iunlock_spared r.1 ip).bind fun _ => spared_next _

lemma filewriteLoop_spared (f fuel : ℕ) (s : Sys) (src : List UInt8) (left : ℕ) :
    Spared (filewriteLoop f fuel s src left) := by
  induction fuel generalizing s src left with
  | zero => exact spared_next _
  | succ fuel ih =>
    rw [filewriteLoop]
    split
    · exact spared_next _
    · refine (writeAt_spared _ _ _ _ _).bind fun r => ?_
      dsimp only
      split
      · exact spared_next _
      · exact ih _ _ _

lemma filewrite_spared (s : Sys) (f : ℕ) (src : List UInt8) (n : ℕ) :
    Spared (filewrite s f src n) := by
  simp only [filewrite]
  split
  · exact spared_next _
  · split
    · exact spared_next _
    · exact spared_next _
    · exact show other _ by decide
    · exact (filewriteLoop_spared f n s src n).bind fun _ => spared_next _

lemma writeiAny_spared (s : Sys) (f : ℕ) (src : List UInt8) (off n : ℕ) :
    Spared (writeiAny s f src off n) := by
  simp only [writeiAny]
  split
  · exact (writeAt_spared _ _ _ _ _).bind fun _ => spared_next _
  · exact spared_next _

lemma withFile_spared (s : Sys) (q : Proc) (fd : ℕ) {k : ℕ→Outcome (Sys×ℤ)}
    (hk : ∀ f,Spared (k f)) : Spared (withFile s q fd k) := by
  rw [withFile]
  split
  · exact spared_next _
  · exact hk _

lemma dupFiles_spared (q : Proc) (fds : List ℕ) (s : Sys) : Spared (dupFiles q fds s) := by
  induction fds generalizing s with
  | nil => exact spared_next _
  | cons fd fds ih =>
    rw [dupFiles]
    split
    · exact ih s
    · exact (filedup_spared s _).bind ih

lemma fork_spared (s : Sys) (q : Proc) (child : Option ℕ) : Spared (fork s q child) := by
  rw [fork.eq_def]
  split
  · exact spared_next _
  · split
    · exact (dupFiles_spared q _ s).bind fun _ => spared_next _
    · trivial

lemma closeFiles_spared (p : ℕ) (fds : List ℕ) (s : Sys) (q : Proc) :
    Spared (closeFiles p fds s q) := by
  induction fds generalizing s q with
  | nil => exact spared_next _
  | cons fd fds ih =>
    rw [closeFiles]
    split
    · exact ih s q
    · exact (fileclose_spared s _).bind fun _ => ih _ _

lemma exit_spared (s : Sys) (p : ℕ) (q : Proc) : Spared (exit s p q) := by
  rw [exit]
  split
  · exact show other _ by decide
  · refine (closeFiles_spared p _ s q).bind fun s1 => ?_
    exact (iput_spared s1.fs q.cwd).bind fun _ => spared_next _

lemma sysClose_spared (s : Sys) (p : ℕ) (q : Proc) (fd : ℕ) : Spared (sysClose s p q fd) := by
  rw [sysClose]
  split
  · exact spared_next _
  · exact (fileclose_spared _ _).bind fun _ => spared_next _

lemma sysDup_spared (s : Sys) (p : ℕ) (q : Proc) (fd : ℕ) : Spared (sysDup s p q fd) := by
  rw [sysDup]
  split
  · exact spared_next _
  · split
    · exact spared_next _
    · exact (filedup_spared _ _).bind fun _ => spared_next _

lemma onFs_spared (s : Sys) {o : Outcome (Fs×ℤ)} (h : Spared o) : Spared (s.onFs o) :=
  h.bind fun _ => spared_next _

/-- The entries of the inode table that a call may take at once. -/
def need : Call→ℕ
  | .sysOpen _ omode => openNeed omode
  | .sysMkdir _ | .sysMknod _ _ _ | .sysLink _ _ => 3
  | .sysUnlink _ | .sysChdir _ | .exec _ _ _ => 2
  | .sysClose _ | .sysDup _ | .sysRead _ _ _ | .sysWrite _ _ _ | .writei _ _ _ _ | .fork _ | .exit
  | .sysPipe _ _ => 0

lemma call_spared (h : Held s.fs own) (p : ℕ) (q : Proc) (c : Call)
    (hroom : busy own+need c≤ninode) : Spared (call s p q c) := by
  cases c with
  | sysOpen path omode => exact sysOpen_spared h hroom p q path
  | sysMkdir path | sysMknod path major minor =>
    exact onFs_spared s (makeNode_held h hroom q.cwd path _ _ _)
  | sysLink old new => exact onFs_spared s (sysLink_held h hroom q.cwd old new)
  | sysUnlink path => exact onFs_spared s (sysUnlink_held h hroom q.cwd path)
  | sysChdir path => exact sysChdir_spared h hroom p q path
  | sysClose fd => exact sysClose_spared s p q fd
  | sysDup fd => exact sysDup_spared s p q fd
  | sysRead fd n room => exact withFile_spared s q fd fun f => fileread_spared s f n room
  | sysWrite fd n src => exact withFile_spared s q fd fun f => filewrite_spared s f src n
  | writei fd off n src => exact withFile_spared s q fd fun f => writeiAny_spared s f src off n
  | fork child => exact fork_spared s q child
  | exit => exact exit_spared s p q
  | exec path reads ret => exact onFs_spared s (exec_held h hroom q.cwd path reads ret)
  | sysPipe page copied => exact sysPipe_spared s p q page copied

end Descriptors

/-- The entries that open files and current directories refer to. -/
def references (s : Sys) : List ℕ :=
  ((List.range nfile).filterMap fun f =>
    if (s.ftable f).type=.inode ∨ (s.ftable f).type=.device then some (s.ftable f).ip else none)++
  (List.range nproc).filterMap fun p => (s.proc p).map Proc.cwd

/-- Beside the inodes that are open or a current directory, the table has room
for those that the call takes. -/
def Roomy (s : Sys) (a : ℕ×Call) : Prop := (references s).dedup.length+need a.2≤ninode

instance (s : Sys) (a : ℕ×Call) : Decidable (Roomy s a) := Nat.decLe _ _

lemma mem_references_of_file {f : ℕ} (hf : f<nfile) (h : 0<slotOwn (s.ftable f) ip) :
    ip∈references s := by
  refine List.mem_append_left _ (List.mem_filterMap.mpr ⟨f,List.mem_range.mpr hf,?_⟩)
  rw [slotOwn] at h
  split at h
  · rename_i hty
    rw [if_pos hty,Option.some.injEq]
    by_contra hne
    rw [Pi.single_eq_of_ne (Ne.symm hne)] at h
    exact lt_irrefl _ h
  · exact absurd h (lt_irrefl _)

lemma mem_references_of_cwd {p : ℕ} (hp : p<nproc) (h : 0<cwdOwn (s.proc p) ip) :
    ip∈references s := by
  refine List.mem_append_right _ (List.mem_filterMap.mpr ⟨p,List.mem_range.mpr hp,?_⟩)
  cases hq : s.proc p with
  | none =>
    rw [hq] at h
    exact absurd h (lt_irrefl _)
  | some q =>
    rw [hq,cwdOwn_some] at h
    rw [Option.map_some,Option.some.injEq]
    by_contra hne
    rw [Pi.single_eq_of_ne (Ne.symm hne)] at h
    exact lt_irrefl _ h

lemma busy_le_references (hs : SysInv s) :
    busy (fun ip => (s.fs.itable ip).ref)≤(references s).dedup.length := by
  rw [←List.card_toFinset]
  refine Finset.card_le_card fun ip hip => List.mem_toFinset.mpr ?_
  have hne : (s.fs.itable ip).ref≠0 := (Finset.mem_filter.mp hip).2
  rw [hs.files.inode.refs ip] at hne
  have hpos : 0<fileOwn s.ftable ip ∨ 0<cwds s.proc ip := by
    have : fileOwn s.ftable ip+cwds s.proc ip≠0 := by exact_mod_cast hne
    omega
  rcases hpos with hpos | hpos
  · obtain ⟨f,hf,h⟩ := Tally.exists_of_total_pos _ _ hpos
    exact mem_references_of_file hf h
  · obtain ⟨p,hp,h⟩ := Tally.exists_of_total_pos _ _ hpos
    exact mem_references_of_cwd hp h

lemma step_spared (hs : SysInv s) {a : ℕ×Call} (ha : Roomy s a) :
    step s a≠.panic "iget: no inodes" := by
  intro hstep
  have hspared : Spared (step s a) := by
    rw [step]
    split
    · trivial
    · refine (call_spared (held_refs s.fs) a.1 _ a.2 ?_).bind fun _ => spared_next _
      exact (Nat.add_le_add_right (busy_le_references hs) _).trans ha
  exact hspared.of_panic hstep rfl

def Exhausted (s : Sys) (q : Proc) : Call→Prop
  | .sysOpen _ _ => filealloc s=none ∨ fdalloc q=none
  | .fork child => child=none
  | _ => False

lemma sysOpen_full {q : Proc} (hfull : filealloc s=none ∨ fdalloc q=none) (p : ℕ)
    (path : List UInt8) (omode : ℕ) :
    Ensures (fun _ => True) (sysOpen s p q path omode) fun r => r.2=-1 := by
  refine (ensures_trivial _).bind fun r _ => ?_
  obtain ⟨fs1,r⟩ := r
  cases r with
  | none => exact rfl
  | some ip =>
    have hput : ∀ s1 : Sys,Ensures (fun _ => True) (iunlockput s1.fs ip>>=fun fs =>
        pure ({s1 with fs := fs},(-1 : ℤ))) fun r => r.2=-1 :=
      fun s1 => (ensures_trivial _).bind fun _ _ => rfl
    dsimp only
    split
    · exact hput {s with fs := fs1}
    · split
      · exact hput {s with fs := fs1}
      · rename_i f hf
        have hf' : filealloc s=some f := hf
        split
        · exact (ensures_trivial _).bind fun s1 _ => hput s1
        · rename_i fd hfd
          rw [hf',hfd] at hfull
          exact absurd hfull (by simp)

/-- If open files and current directories leave enough of the inode table to
each call, no run stops for lack of an entry, and open and fork report full
tables with -1. -/
theorem inode_table_suffices (h : Consistent img) (hg : Guarded step Roomy (boot img) as) :
    run step (boot img) as≠.panic "iget: no inodes" ∧
    ∀ s,run step (boot img) as=.next s→∀ p q c s' r,s.proc p=some q→Exhausted s q c→
      call s p q c=.next (s',r)→ r=-1 := by
  refine ⟨?_,fun s _ p q c s' r _ hfull hcall => ?_⟩
  · exact @run_message_guarded _ _ step Roomy SysInv _
      (fun s a t hs _ hstep => ((step_served hs a).of_next hstep).inv)
      (fun s a hs ha => step_spared hs ha) _ _ (boot_inv h) hg
  · cases c with
    | sysOpen path omode => exact (sysOpen_full hfull p path omode).of_next hcall
    | fork child =>
      have hnone : child=none := hfull
      rw [hnone] at hcall
      have : (s,(-1 : ℤ))=(s',r) := Outcome.next.inj hcall
      exact (Prod.mk.inj this).2.symm
    | _ => exact hfull.elim

/-- A process opens a file, forks, and its child changes directory and runs it. -/
def lightRun : List (ℕ×Call) :=
  [(0,.sysOpen [102] 0x202),(0,.fork (some 1)),(1,.sysChdir [47]),(1,.exec [102] [(0,4)] 0),
    (1,.sysClose 0)]

theorem lightRun_suffices : run step (boot (rootImage 40)) lightRun≠.panic "iget: no inodes" := by
  have hcheck : guardedCheck step (fun s a => decide (Roomy s a)) (boot (rootImage 40))
      lightRun=true := by decide +kernel
  exact (inode_table_suffices (rootImage_consistent (by decide) (by decide))
    (guarded_of_check (fun s a hk => of_decide_eq_true hk) hcheck)).1

section Crowd

/-- An image with fifty empty files in its root directory. -/
def crowd : Image where
  sb := ⟨100,50,60⟩
  bitmap := fun b => b<51
  dinode := fun i =>
    if i=1 then ⟨.dir,0,0,1,832,fun k => if k=0 then 50 else 0⟩
    else if 1< i ∧ i<52 then ⟨.file,0,0,1,0,fun _ => 0⟩
    else .blank .free
  data := fun b i =>
    if b=50 then
      let e := i/16
      if i%16=0 then (if e<2 then 1 else UInt8.ofNat e)
      else if i%16=2 then (if e<2 then 46 else UInt8.ofNat (64+e))
      else if i=19 then 46
      else 0
    else 0

def opens : List (ℕ×Call) :=
  [(0,.fork (some 1)),(0,.fork (some 2)),(0,.fork (some 3))]++
  (List.range 50).map fun k => (k/16,.sysOpen [UInt8.ofNat (66+k)] 0)

lemma crowd_cases (i : ℕ) :
    i=1 ∧ crowd.dinode i=⟨.dir,0,0,1,832,fun k => if k=0 then 50 else 0⟩ ∨
    (1< i ∧ i<52) ∧ crowd.dinode i=⟨.file,0,0,1,0,fun _ => 0⟩ ∨
    i≠1 ∧ crowd.dinode i=.blank .free := by grind [crowd]

lemma crowd_occ (q : ℕ×Place) :
    occ (boot crowd).fs q=if q=(rootino,.addr 0) then 50 else 0 := by
  obtain ⟨i,p⟩ := q
  show (if (crowd.dinode i).type=.free then 0 else blockAt crowd.data (crowd.dinode i) p)=_
  rcases crowd_cases i with ⟨rfl,hd⟩ | ⟨hi,hd⟩ | ⟨hi,hd⟩
  · rw [hd,if_neg (by decide)]
    cases p with
    | addr k =>
      by_cases hk : k=0
      · subst hk
        rfl
      · have hne : ¬((1,Place.addr k)=(rootino,Place.addr 0)) := by simp [hk]
        rw [if_neg hne,blockAt]
        simp only [if_neg hk,ite_self]
    | entry j => rw [if_neg (by simp),blockAt,if_neg (by simp [ndirect])]
  · rw [hd,if_neg (by decide),if_neg (by simp [rootino]; omega)]
    cases p with
    | addr k => simp only [blockAt,ite_self]
    | entry j => rw [blockAt,if_neg (by simp)]
  · rw [hd,Dinode.blank,if_pos rfl,if_neg (by simp [rootino,hi])]

lemma crowd_consistent : Consistent crowd := by
  refine consistent_of_one (b:=50) (by decide) crowd_occ rfl (by decide) (fun x => ?_) (by decide)
    (fun i hi => ?_) (fun i hi => ?_) ⟨fun i hi => ?_,fun i hi => ?_,by decide⟩ (fun i hi => ?_)
    (by decide)
  · show decide (x<51)=true ↔ _
    rw [decide_eq_true_iff]
    omega
  · rcases crowd_cases i with ⟨rfl,hd⟩ | ⟨hi',hd⟩ | ⟨hi',hd⟩
    · rw [hd]
      decide
    · rw [hd]
      exact Nat.zero_le _
    · rw [hd] at hi
      exact absurd rfl hi
  · rcases crowd_cases i with ⟨rfl,hd⟩ | ⟨hi',hd⟩ | ⟨hi',hd⟩
    · decide
    · exact ⟨by omega,show i<60 by omega⟩
    · rw [hd] at hi
      exact absurd rfl hi
  · have hi : (crowd.dinode i).type=.dir := hi
    show (crowd.dinode i).size%direntSize=0
    rcases crowd_cases i with ⟨rfl,hd⟩ | ⟨hi',hd⟩ | ⟨hi',hd⟩
    · rw [hd]
      decide
    · rw [hd]
      decide
    · rw [hd] at hi
      exact FileType.noConfusion hi
  · have hi : (crowd.dinode i).type≠.free := hi
    show -2^15≤(crowd.dinode i).nlink ∧ (crowd.dinode i).nlink<2^15
    rcases crowd_cases i with ⟨rfl,hd⟩ | ⟨hi',hd⟩ | ⟨hi',hd⟩
    · rw [hd]
      decide
    · rw [hd]
      decide
    · rw [hd] at hi
      exact absurd rfl hi
  · rcases crowd_cases i with ⟨rfl,hd⟩ | ⟨hi',hd⟩ | ⟨hi',hd⟩
    · rw [hd]
      decide
    · rw [hd]
      decide
    · rw [hd] at hi
      exact absurd rfl hi

set_option maxRecDepth 100000 in
/-- The files that four processes open fill the inode table, though neither
their descriptors nor the file table are full. -/
theorem opens_exhausts : Consistent crowd ∧
    (run step (boot crowd) opens).message=some "iget: no inodes" :=
  ⟨crowd_consistent,by decide +kernel⟩

end Crowd

end Xv6Riscv.InodeBudget
