import Xv6Riscv.BlockOwnership

/-!
# References to inodes

Specifications of the functions that hand out, lock and drop entries of the
inode table. A reference is counted by the owner counter of the inode
invariant; what the other references may rely on is that their entry stays
with its inode. Dropping the last reference to an inode without links frees
it, and this is the only way in which an inode is freed.
-/

namespace Xv6Riscv.InodeTable

open Function
open Transition OutcomeLogic InodeLayer Occupancy BlockOwnership

variable {fs fs' : Fs} {own own' : ℕ→ℕ} {ip : ℕ} {stop : String→Prop} {fs1 fs2 : Fs} {e : Inode}

structure SameDisk (fs fs' : Fs) : Prop where
  sb : fs'.sb=fs.sb
  bitmap : fs'.bitmap=fs.bitmap
  dinode : fs'.dinode=fs.dinode
  data : fs'.data=fs.data

lemma SameDisk.refl (fs : Fs) : SameDisk fs fs := ⟨rfl,rfl,rfl,rfl⟩

lemma SameDisk.trans (h : SameDisk fs fs1) (h' : SameDisk fs1 fs2) : SameDisk fs fs2 :=
  ⟨h'.sb.trans h.sb,h'.bitmap.trans h.bitmap,h'.dinode.trans h.dinode,h'.data.trans h.data⟩

lemma sameDisk_setInode (fs : Fs) (ip : ℕ) (e : Inode) : SameDisk fs (fs.setInode ip e) :=
  ⟨rfl,rfl,rfl,rfl⟩

structure Holds (fs fs' : Fs) (ip : ℕ) : Prop where
  inum : (fs'.itable ip).inum=(fs.itable ip).inum
  valid : (fs.itable ip).valid=true→(fs'.itable ip).valid=true
  type : (fs'.dinode (fs.itable ip).inum).type=(fs.dinode (fs.itable ip).inum).type

lemma Holds.refl (fs : Fs) (ip : ℕ) : Holds fs fs ip := ⟨rfl,id,rfl⟩

lemma Holds.trans (h : Holds fs fs1 ip) (h' : Holds fs1 fs2 ip) : Holds fs fs2 ip := by
  refine ⟨h'.inum.trans h.inum,fun hv => h'.valid (h.valid hv),?_⟩
  have ht := h'.type
  rw [h.inum] at ht
  exact ht.trans h.type

def Kept (own : ℕ→ℕ) (fs fs' : Fs) : Prop := ∀ ip,0<own ip→Holds fs fs' ip

lemma Kept.refl (own : ℕ→ℕ) (fs : Fs) : Kept own fs fs := fun ip _ => .refl fs ip

lemma Kept.trans (h : Kept own fs fs1) (h' : Kept own fs1 fs2) :
    Kept own fs fs2 := fun ip hip => (h ip hip).trans (h' ip hip)

lemma Kept.mono (h : Kept own' fs fs') (hle : ∀ ip,0<own ip→0<own' ip) : Kept own fs fs' :=
  fun ip hip => h ip (hle ip hip)

/-- Only the inode table has changed, and no holder is disturbed. -/
structure Quiet (own : ℕ→ℕ) (fs fs' : Fs) : Prop where
  disk : SameDisk fs fs'
  kept : Kept own fs fs'

lemma Quiet.refl (own : ℕ→ℕ) (fs : Fs) : Quiet own fs fs := ⟨.refl fs,.refl own fs⟩

lemma Quiet.trans (h : Quiet own fs fs1) (h' : Quiet own fs1 fs2) :
    Quiet own fs fs2 := ⟨h.disk.trans h'.disk,h.kept.trans h'.kept⟩

lemma Quiet.mono (h : Quiet own' fs fs') (hle : ∀ ip,0<own ip→0<own' ip) : Quiet own fs fs' :=
  ⟨h.disk,h.kept.mono hle⟩

def locks (fs : Fs) : ℕ→Bool := fun ip => (fs.itable ip).locked

lemma locks_setInode (fs : Fs) (ip : ℕ) (e : Inode) :
    locks (fs.setInode ip e)=update (locks fs) ip e.locked := by
  grind [locks,setInode_self,setInode_of_ne]

lemma locks_setInode_same (fs : Fs) {ip : ℕ} (h : e.locked=(fs.itable ip).locked) :
    locks (fs.setInode ip e)=locks fs := by
  rw [locks_setInode,h]
  exact update_eq_self ip (locks fs)

lemma locks_of_updates (h : Updates fs fs' ip) : locks fs'=locks fs := by
  grind [h.self,locks,h.others]

lemma single_add_self (own : ℕ→ℕ) (ip : ℕ) : (Pi.single ip 1+own : ℕ→ℕ) ip=own ip+1 := by
  simp only [Pi.add_apply,Pi.single_eq_same,Nat.add_comm]

lemma single_pos (own : ℕ→ℕ) (ip : ℕ) : 0<(Pi.single ip 1+own : ℕ→ℕ) ip := by
  rw [single_add_self]
  omega

lemma single_add_of_ne (own : ℕ→ℕ) {ip jp : ℕ} (h : jp≠ip) :
    (Pi.single ip 1+own : ℕ→ℕ) jp=own jp := by
  simp only [Pi.add_apply,Pi.single_eq_of_ne h,Nat.zero_add]

lemma single_add_pos {jp : ℕ} (h : 0<own jp) : 0<(Pi.single ip 1+own : ℕ→ℕ) jp := by
  simp only [Pi.add_apply]
  omega

/-- Replacing one table entry keeps the invariant if the entry's count is
right, its inode is in no other entry, and it is valid only as a copy. -/
lemma inodeInv_setInode (h : InodeInv fs own) (hown : ∀ jp,jp≠ip→ own' jp=own jp)
    (href : e.ref=own' ip) (hslot : 0<own' ip→ip<ninode)
    (hdist : 0<own' ip→∀ jp,jp≠ip→0<own jp→(fs.itable jp).inum≠e.inum)
    (hload : 0<own' ip→e.valid=true→e.copy=fs.dinode e.inum ∧ e.copy.type≠.free) :
    InodeInv (fs.setInode ip e) own' := by
  refine ⟨fun jp => ?_,fun jp hj => ?_,fun jp kp hj hk hjk => ?_,fun jp hj hv => ?_,h.owns,h.small,
    h.mapped,h.range⟩
  · by_cases hjp : jp=ip
    · rw [hjp,setInode_self,href]
    · rw [setInode_of_ne fs hjp,hown jp hjp]
      exact h.refs jp
  · by_cases hjp : jp=ip
    · rw [hjp] at hj ⊢
      exact hslot hj
    · rw [hown jp hjp] at hj
      exact h.slots jp hj
  · by_cases hjp : jp=ip
    · by_cases hkp : kp=ip
      · rw [hjp,hkp]
      · rw [hjp,setInode_self,setInode_of_ne fs hkp] at hjk
        rw [hjp] at hj
        rw [hown kp hkp] at hk
        exact absurd hjk.symm (hdist hj kp hkp hk)
    · rw [setInode_of_ne fs hjp] at hjk
      by_cases hkp : kp=ip
      · rw [hkp,setInode_self] at hjk
        rw [hkp] at hk
        rw [hown jp hjp] at hj
        exact absurd hjk (hdist hk jp hjp hj)
      · rw [setInode_of_ne fs hkp] at hjk
        rw [hown jp hjp] at hj
        rw [hown kp hkp] at hk
        exact h.distinct jp kp hj hk hjk
  · by_cases hjp : jp=ip
    · rw [hjp,setInode_self] at hv ⊢
      rw [hjp] at hj
      exact hload hj hv
    · rw [setInode_of_ne fs hjp] at hv ⊢
      rw [hown jp hjp] at hj
      exact h.loaded jp hj hv

lemma quiet_setInode (own : ℕ→ℕ) (hi : 0<own ip→e.inum=(fs.itable ip).inum)
    (hv : 0<own ip→(fs.itable ip).valid=true→e.valid=true) : Quiet own fs (fs.setInode ip e) := by
  refine ⟨sameDisk_setInode fs ip e,fun jp hj => ?_⟩
  by_cases hjp : jp=ip
  · subst hjp
    refine ⟨?_,fun hval => ?_,rfl⟩
    · rw [setInode_self]
      exact hi hj
    · rw [setInode_self]
      exact hv hj hval
  · have hsame := setInode_of_ne fs hjp e
    exact ⟨by rw [hsame],fun hval => by rw [hsame]; exact hval,rfl⟩

variable (h : InodeInv fs own)

include h

lemma idup_spec (hip : 0<own ip) :
    InodeInv (idup fs ip) (Pi.single ip 1+own) ∧ Quiet own fs (idup fs ip) ∧
      locks (idup fs ip)=locks fs ∧ ((idup fs ip).itable ip).inum=(fs.itable ip).inum := by
  refine ⟨inodeInv_setInode h (fun jp hj => single_add_of_ne own hj) ?_ (fun _ => h.slots ip hip)
    (fun _ jp hj hjo he => hj (h.distinct jp ip hjo hip he)) (fun _ => h.loaded ip hip),
    quiet_setInode own (fun _ => rfl) (fun _ => id),locks_setInode_same fs rfl,?_⟩
  · rw [single_add_self,h.refs ip]
    push_cast
    rfl
  · rw [idup,setInode_self]

lemma iget_spec (inum : ℕ) (hstop : stop "iget: no inodes") : Ensures stop (iget fs inum) fun r =>
      InodeInv r.1 (Pi.single r.2 1+own) ∧ Quiet own fs r.1 ∧ locks r.1=locks fs ∧
        (r.1.itable r.2).inum=inum := by
  rw [iget]
  cases hf : (List.range ninode).find?
      (fun ip => 0<(fs.itable ip).ref && (fs.itable ip).inum=inum) with
  | some ip =>
    obtain ⟨hp,-,-⟩ := List.find?_range_eq_some.mp hf
    simp only [Bool.and_eq_true,decide_eq_true_eq] at hp
    have hip : 0<own ip := by
      have := h.refs ip
      omega
    obtain ⟨h1,h2,h3,h4⟩ := idup_spec h hip
    exact ⟨h1,h2,h3,h4.trans hp.2⟩
  | none =>
    have hnone := List.find?_range_eq_none.mp hf
    cases he : (List.range ninode).find? (fun ip => (fs.itable ip).ref=0) with
    | none => exact hstop
    | some ip =>
      obtain ⟨hp,hmem,-⟩ := List.find?_range_eq_some.mp he
      simp only [decide_eq_true_eq] at hp
      have hip : own ip=0 := by
        have := h.refs ip
        omega
      refine ⟨inodeInv_setInode h (fun jp hj => single_add_of_ne own hj) ?_
        (fun _ => List.mem_range.mp hmem) (fun _ jp hj hjo hin => ?_) (fun _ hv => ?_),
        quiet_setInode own (fun hc => ?_) (fun hc => ?_),locks_setInode_same fs rfl,?_⟩
      · rw [single_add_self,hip]
        rfl
      · have hn := hnone jp (h.slots jp hjo)
        have href := h.refs jp
        simp only [Bool.not_and,Bool.or_eq_true,Bool.not_eq_true',decide_eq_false_iff_not] at hn
        rcases hn with hn | hn
        · omega
        · exact hn hin
      · exact absurd hv Bool.false_ne_true
      · omega
      · omega
      · rw [setInode_self]

lemma ilock_spec (hip : 0<own ip)
    (htype : (fs.dinode (fs.itable ip).inum).type=.free→stop "ilock: no type") :
    Ensures stop (ilock fs ip) fun fs' =>
      InodeInv fs' own ∧ Quiet own fs fs' ∧ (fs'.itable ip).valid=true ∧ locks fs ip=false ∧
        locks fs'=update (locks fs) ip true := by
  have href := h.refs ip
  rw [ilock]
  split_ifs with h1 h2 h3 h4
  · omega
  · trivial
  · refine ⟨inodeInv_setInode h (fun _ _ => rfl) href (fun _ => h.slots ip hip)
      (fun _ jp hj hjo he => hj (h.distinct jp ip hjo hip he)) (fun _ => h.loaded ip hip),
      quiet_setInode own (fun _ => rfl) (fun _ => id),?_,Bool.eq_false_of_not_eq_true h2,
      locks_setInode fs ip _⟩
    rw [setInode_self]
    exact h3
  · exact htype h4
  · refine ⟨inodeInv_setInode h (fun _ _ => rfl) href (fun _ => h.slots ip hip)
      (fun _ jp hj hjo he => hj (h.distinct jp ip hjo hip he)) (fun _ _ => ⟨rfl,h4⟩),
      quiet_setInode own (fun _ => rfl) (fun _ _ => rfl),?_,Bool.eq_false_of_not_eq_true h2,
      locks_setInode fs ip _⟩
    rw [setInode_self]

lemma iunlock_spec (hip : 0<own ip) (hstop : stop "iunlock") :
    Ensures stop (iunlock fs ip) fun fs' =>
      InodeInv fs' own ∧ Quiet own fs fs' ∧ locks fs'=update (locks fs) ip false ∧
        (fs'.itable ip).valid=(fs.itable ip).valid := by
  rw [iunlock]
  split_ifs with h1
  · exact hstop
  · exact ⟨inodeInv_setInode h (fun _ _ => rfl) (h.refs ip) (fun _ => h.slots ip hip)
      (fun _ jp hj hjo he => hj (h.distinct jp ip hjo hip he)) (fun _ => h.loaded ip hip),
      quiet_setInode own (fun _ => rfl) (fun _ => id),locks_setInode fs ip _,
      by rw [setInode_self]⟩

structure Frees (fs fs' : Fs) (i : ℕ) : Prop where
  sb : fs'.sb=fs.sb
  data : fs'.data=fs.data
  dinode : ∀ j,j≠i→fs'.dinode j=fs.dinode j
  free : (fs'.dinode i).type=.free

lemma inodeInv_zero {d : Dinode} (hip : 0<own ip) (hz : ∀ p,occ fs ((fs.itable ip).inum,p)=0)
    (hf : Frees fs fs' (fs.itable ip).inum) (hbm : fs'.bitmap=fs.bitmap)
    (hothers : ∀ jp,jp≠ip→fs'.itable jp=fs.itable jp)
    (hself : fs'.itable ip={fs.itable ip with locked := false,valid := false,copy := d}) :
    InodeInv fs' own := by
  have hocc : occ fs'=occ fs := by
    funext q
    obtain ⟨j,p⟩ := q
    by_cases hj : j=(fs.itable ip).inum
    · rw [hj,hz,occ,if_pos hf.free]
    · rw [occ,occ,hf.dinode j hj,hf.data]
  have hne : ∀ j,(fs'.dinode j).type≠.free→j≠(fs.itable ip).inum := by
    rintro j hj rfl
    exact hj hf.free
  have hkeep : ∀ jp,(fs'.itable jp).inum=(fs.itable jp).inum ∧
      (fs'.itable jp).ref=(fs.itable jp).ref := by
    intro jp
    by_cases hjp : jp=ip
    · rw [hjp,hself]
      exact ⟨rfl,rfl⟩
    · rw [hothers jp hjp]
      exact ⟨rfl,rfl⟩
  refine ⟨fun jp => (hkeep jp).2.trans (h.refs jp),h.slots,fun jp kp hj hk hjk => ?_,
    fun jp hj hv => ?_,?_,?_,fun j hj bn hbn => ?_,fun j hj => ?_⟩
  · rw [(hkeep jp).1,(hkeep kp).1] at hjk
    exact h.distinct jp kp hj hk hjk
  · have hjp : jp≠ip := by
      rintro rfl
      rw [hself] at hv
      exact absurd hv Bool.false_ne_true
    rw [hothers jp hjp] at hv ⊢
    rw [hf.dinode _ fun hc => hjp (h.distinct jp ip hj hip hc)]
    exact h.loaded jp hj hv
  · rw [hocc,hf.sb,hbm]
    exact h.owns
  · rw [hf.sb]
    exact h.small
  · have hsame := hf.dinode j (hne j hj)
    rw [hsame] at hj hbn
    rw [hocc]
    exact h.mapped j hj bn hbn
  · have hsame := hf.dinode j (hne j hj)
    rw [hsame] at hj
    rw [hf.sb]
    exact h.range j hj

/-- iput between acquiresleep and releasesleep: free the inode and its blocks. -/
def erase (fs : Fs) (ip : ℕ) : Outcome Fs := do
  let fs ← itrunc fs ip
  let fs := iupdate (fs.edit ip fun d => {d with type := .free}) ip
  pure (fs.setInode ip {fs.itable ip with locked := false,valid := false})

lemma erase_spec (hip : 0<own ip) (hv : (fs.itable ip).valid=true) :
    ∃ fs' d,erase fs ip=.next fs' ∧ InodeInv fs' own ∧ Frees fs fs' (fs.itable ip).inum ∧
      (∀ jp,jp≠ip→fs'.itable jp=fs.itable jp) ∧
      fs'.itable ip={fs.itable ip with locked := false,valid := false,copy := d} := by
  obtain ⟨fs1,hrun,h1,hu,hdata,-,hz⟩ := itrunc_spec h hip hv
  obtain ⟨d1,hd1⟩ := hu.self
  have hi1 : (fs1.itable ip).inum=(fs.itable ip).inum := by rw [hd1]
  have hload1 := h1.loaded ip hip (by rw [hd1]; exact hv)
  have hzero : ∀ p,occ fs1 ((fs1.itable ip).inum,p)=0 := by
    intro p
    rw [occ,←hload1.1,if_neg hload1.2]
    exact hz p
  rw [erase,hrun]
  set fs2 := iupdate (fs1.edit ip fun d => {d with type := .free}) ip
  set fs3 := fs2.setInode ip {fs2.itable ip with locked := false,valid := false}
  have hself2 : fs2.itable ip={fs1.itable ip with
      copy := {(fs1.itable ip).copy with type := .free}} :=
    edit_self fs1 ip fun d => {d with type := .free}
  have hself3 : fs3.itable ip={fs2.itable ip with locked := false,valid := false} :=
    setInode_self _ _ _
  have hothers : ∀ jp,jp≠ip→fs3.itable jp=fs1.itable jp := fun jp hj =>
    (setInode_of_ne fs2 hj _).trans (edit_of_ne fs1 hj fun d => {d with type := .free})
  have hinum : ((fs1.edit ip fun d => {d with type := .free}).itable ip).inum=
      (fs1.itable ip).inum := by rw [edit_self]
  have hfrees : Frees fs1 fs3 (fs1.itable ip).inum := by
    refine ⟨rfl,rfl,fun j hj => ?_,?_⟩
    · exact iupdate_of_ne (fs1.edit ip fun d => {d with type := .free})
        (by rw [hinum]; exact hj)
    · have hd := iupdate_self (fs1.edit ip fun d => {d with type := .free}) ip
      rw [hinum,edit_self] at hd
      show (fs2.dinode _).type=_
      rw [hd]
  refine ⟨fs3,{(fs1.itable ip).copy with type := .free},rfl,
    inodeInv_zero h1 hip hzero hfrees rfl hothers (by rw [hself3,hself2]),?_,
    fun jp hj => (hothers jp hj).trans (hu.others jp hj),by rw [hself3,hself2,hd1]⟩
  rw [hi1] at hfrees
  exact ⟨hu.sb,hdata,fun j hj => (hfrees.dinode j hj).trans (hu.dinode j hj),hfrees.free⟩

def lockInode (fs : Fs) (ip : ℕ) : Fs := fs.setInode ip {fs.itable ip with locked := true}

lemma lockInode_spec (hip : 0<own ip) :
    InodeInv (lockInode fs ip) own ∧ Quiet own fs (lockInode fs ip) ∧
      locks (lockInode fs ip)=update (locks fs) ip true :=
  ⟨inodeInv_setInode h (fun _ _ => rfl) (h.refs ip) (fun _ => h.slots ip hip)
    (fun _ jp hj hjo he => hj (h.distinct jp ip hjo hip he)) (fun _ => h.loaded ip hip),
    quiet_setInode own (fun _ => rfl) (fun _ => id),locks_setInode fs ip _⟩

omit h

def dropRef (fs : Fs) (ip : ℕ) : Fs :=
  fs.setInode ip {fs.itable ip with ref := (fs.itable ip).ref-1}

lemma dropRef_spec (h : InodeInv fs (Pi.single ip 1+own)) :
    InodeInv (dropRef fs ip) own ∧ Quiet own fs (dropRef fs ip) ∧
      locks (dropRef fs ip)=locks fs := by
  have hpos := single_pos own ip
  have href := h.refs ip
  rw [single_add_self] at href
  refine ⟨inodeInv_setInode h (fun jp hj => (single_add_of_ne own hj).symm) ?_
    (fun _ => h.slots ip hpos) (fun _ jp hj hjo he => hj (h.distinct jp ip hjo hpos he))
    (fun _ => h.loaded ip hpos),quiet_setInode own (fun _ => rfl) (fun _ => id),
    locks_setInode_same fs rfl⟩
  show (fs.itable ip).ref-1=own ip
  push_cast at href
  omega

def lastRef (fs : Fs) (ip : ℕ) : Bool :=
  (fs.itable ip).ref=1 && (fs.itable ip).valid && (fs.itable ip).copy.nlink=0

lemma iput_pieces (fs : Fs) (ip : ℕ) : iput fs ip=
    if lastRef fs ip then
      if (fs.itable ip).locked then .blocked
      else (erase (lockInode fs ip) ip).bind fun fs => .next (dropRef fs ip)
    else .next (dropRef fs ip) := by
  by_cases hc : (fs.itable ip).ref=1 ∧ (fs.itable ip).valid=true ∧ (fs.itable ip).copy.nlink=0
  · have hlast : lastRef fs ip=true := by
      simp only [lastRef,Bool.and_eq_true,decide_eq_true_eq]
      exact ⟨⟨hc.1,hc.2.1⟩,hc.2.2⟩
    rw [iput,if_pos hc,if_pos hlast,ifree]
    split_ifs
    · rfl
    · rfl
  · have hlast : ¬lastRef fs ip=true := by
      simp only [lastRef,Bool.and_eq_true,decide_eq_true_eq]
      exact fun h => hc ⟨h.1.1,h.1.2,h.2⟩
    rw [iput,if_neg hc,if_neg hlast]
    rfl

def LastLink (fs : Fs) (own : ℕ→ℕ) (ip : ℕ) : Prop :=
  own ip=0 ∧ (fs.itable ip).valid=true ∧ (fs.dinode (fs.itable ip).inum).nlink=0

lemma lastRef_iff (h : InodeInv fs (Pi.single ip 1+own)) :
    lastRef fs ip=true ↔ LastLink fs own ip := by
  have hpos := single_pos own ip
  have href := h.refs ip
  rw [single_add_self] at href
  simp only [lastRef,LastLink,Bool.and_eq_true,decide_eq_true_eq]
  constructor
  · rintro ⟨⟨hr,hv⟩,hn⟩
    refine ⟨?_,hv,by rw [←(h.loaded ip hpos hv).1]; exact hn⟩
    push_cast at href
    omega
  · rintro ⟨h0,hv,hn⟩
    refine ⟨⟨?_,hv⟩,by rw [(h.loaded ip hpos hv).1]; exact hn⟩
    rw [h0] at href
    exact href

/-- iput drops one reference. If it was the last one to a loaded inode without
links, the inode and its blocks are free afterwards. -/
lemma iput_spec (h : InodeInv fs (Pi.single ip 1+own)) :
    Ensures stop (iput fs ip) fun fs' =>
      InodeInv fs' own ∧ Kept own fs fs' ∧ locks fs'=locks fs ∧
        (¬LastLink fs own ip ∧ SameDisk fs fs' ∨
          LastLink fs own ip ∧ Frees fs fs' (fs.itable ip).inum) := by
  have hpos := single_pos own ip
  rw [iput_pieces]
  by_cases hc : lastRef fs ip=true
  · have hlast := (lastRef_iff h).mp hc
    rw [if_pos hc]
    by_cases hlock : (fs.itable ip).locked=true
    · rw [if_pos hlock]
      trivial
    · rw [if_neg hlock]
      obtain ⟨h0,-,-⟩ := lockInode_spec h hpos
      have hself0 : (lockInode fs ip).itable ip={fs.itable ip with locked := true} :=
        setInode_self _ _ _
      obtain ⟨fs1,d,hrun,h1,hfrees,hothers,hself⟩ := erase_spec h0 hpos
        (by rw [hself0]; exact hlast.2.1)
      rw [hself0] at hfrees hself
      obtain ⟨h2,hq2,hl2⟩ := dropRef_spec h1
      rw [hrun]
      have hsame : ∀ jp,jp≠ip→(dropRef fs1 ip).itable jp=fs.itable jp := fun jp hjp =>
        ((setInode_of_ne fs1 hjp _).trans (hothers jp hjp)).trans (setInode_of_ne fs hjp _)
      refine ⟨h2,fun jp hj => ?_,?_,
        .inr ⟨hlast,hfrees.sb,hfrees.data,fun j hj => hfrees.dinode j hj,hfrees.free⟩⟩
      · have hjp : jp≠ip := by
          rintro rfl
          have h0 := hlast.1
          omega
        refine ⟨by rw [hsame jp hjp],fun hval => by rw [hsame jp hjp]; exact hval,?_⟩
        show ((fs1.dinode _).type=_)
        rw [hfrees.dinode _ fun he => hjp (h.distinct jp ip (single_add_pos hj) hpos he)]
        rfl
      · rw [hl2]
        funext jp
        by_cases hjp : jp=ip
        · rw [hjp,locks,hself]
          exact (Bool.eq_false_of_not_eq_true hlock).symm
        · rw [locks,hothers jp hjp,lockInode,setInode_of_ne fs hjp]
          rfl
  · rw [if_neg hc]
    obtain ⟨h1,hq1,hl1⟩ := dropRef_spec h
    exact ⟨h1,hq1.kept,hl1,.inl ⟨fun hl => hc ((lastRef_iff h).mpr hl),hq1.disk⟩⟩

variable (h : InodeInv fs own)

include h

lemma inodeInv_blank {i : ℕ} {type : FileType} (hfree : (fs.dinode i).type=.free)
    (hi : 0< i ∧ i<fs.sb.ninodes) : InodeInv (fs.setDinode i (.blank type)) own := by
  set fs' := fs.setDinode i (.blank type)
  have hself : fs'.dinode i=.blank type := update_self _ _ _
  have hother : ∀ j,j≠i→fs'.dinode j=fs.dinode j := fun j hj => update_of_ne hj _ _
  have hocc : occ fs'=occ fs := by
    funext q
    obtain ⟨j,p⟩ := q
    by_cases hj : j=i
    · subst hj
      rw [occ,occ,hself,if_pos hfree]
      split_ifs
      · rfl
      · cases p with
        | addr k => simp only [blockAt,Dinode.blank,ite_self]
        | entry e =>
          simp only [blockAt,Dinode.blank,ne_eq,not_true_eq_false,and_false,if_false]
    · rw [occ,occ,hother j hj]
      rfl
  refine ⟨h.refs,h.slots,h.distinct,fun jp hj hv => ?_,?_,h.small,fun j hj bn hbn => ?_,
    fun j hj => ?_⟩
  · obtain ⟨hc,htype⟩ := h.loaded jp hj hv
    refine ⟨?_,htype⟩
    rw [hother]
    · exact hc
    · rintro hin
      rw [hc] at htype
      exact htype (by rw [show (fs.itable jp).inum=i from hin]; exact hfree)
  · rw [hocc]
    exact h.owns
  · by_cases hji : j=i
    · rw [hji,hself] at hbn
      exact absurd hbn (Nat.not_lt_zero _)
    · rw [hother j hji] at hj hbn
      rw [hocc]
      exact h.mapped j hj bn hbn
  · by_cases hji : j=i
    · rw [hji]
      exact hi
    · rw [hother j hji] at hj
      exact h.range j hj

lemma ialloc_spec {type : FileType}
    (hheld : ∀ jp,0<own jp→(fs.dinode (fs.itable jp).inum).type≠.free)
    (hstop : stop "iget: no inodes") : Ensures stop (ialloc fs type) fun r =>
      match r.2 with
      | none => r.1=fs
      | some ip =>
        InodeInv r.1 (Pi.single ip 1+own) ∧ Kept own fs r.1 ∧ locks r.1=locks fs ∧
          (fs.dinode (r.1.itable ip).inum).type=.free ∧
          SameDisk (fs.setDinode (r.1.itable ip).inum (.blank type)) r.1 := by
  rw [ialloc]
  cases hf : (List.range' 1 (fs.sb.ninodes-1)).find? (fun i => (fs.dinode i).type=.free) with
  | none => exact rfl
  | some i =>
    have hfree : (fs.dinode i).type=.free := by
      have := List.find?_some hf
      simpa only [decide_eq_true_eq] using this
    have hmem := List.mem_of_find?_eq_some hf
    rw [List.mem_range'_1] at hmem
    have hrange : 0< i ∧ i<fs.sb.ninodes := by omega
    refine (iget_spec (inodeInv_blank h hfree hrange) i hstop).bind ?_
    rintro ⟨fs1,ip⟩ ⟨h1,hq1,hl1,hin1⟩
    have hi : (fs1.itable ip).inum=i := hin1
    refine ⟨h1,fun jp hj => ?_,hl1,by rw [hi]; exact hfree,by rw [hi]; exact hq1.disk⟩
    obtain ⟨ki,kv,kt⟩ := hq1.kept jp hj
    refine ⟨ki,kv,kt.trans ?_⟩
    have hne : (fs.itable jp).inum≠i := by
      intro hc
      exact hheld jp hj (by rw [hc]; exact hfree)
    exact congrArg Dinode.type (update_of_ne hne _ _)

lemma modify_spec (hip : 0<own ip) (hv : (fs.itable ip).valid=true) {f : Dinode→Dinode}
    (ht : (f (fs.itable ip).copy).type=(fs.itable ip).copy.type)
    (ha : (f (fs.itable ip).copy).addrs=(fs.itable ip).copy.addrs)
    (hs : (f (fs.itable ip).copy).size=(fs.itable ip).copy.size) :
    InodeInv (iupdate (fs.edit ip f) ip) own ∧ Updates fs (iupdate (fs.edit ip f) ip) ip ∧
      occ (iupdate (fs.edit ip f) ip)=occ fs := by
  have hp := h.pending hip hv
  have hclean := iupdate_eq_self (h.loaded ip hip hv).1
  obtain ⟨hp1,hocc⟩ := hp.edit (f:=f) (by rw [ht]; exact hp.allocated) ha
    (by rw [hs]; exact hp.covers)
  rw [hclean] at hocc
  have hr : Recopy fs (fs.edit ip f) ip :=
    ⟨rfl,rfl,fun jp hj => edit_of_ne fs hj f,⟨_,edit_self fs ip f⟩⟩
  exact ⟨hp1.inv,hr.updates fun j bn _ _ => ⟨by rw [hocc],rfl⟩,hocc⟩

lemma kept_of_updates (hip : 0<own ip) (hv : (fs.itable ip).valid=true) (hu : Updates fs fs' ip)
    (h' : InodeInv fs' own) (ht : (fs'.itable ip).copy.type=(fs.itable ip).copy.type) :
    Kept own fs fs' := by
  intro jp hj
  obtain ⟨d,hd⟩ := hu.self
  by_cases hjp : jp=ip
  · subst hjp
    have hin : (fs'.itable jp).inum=(fs.itable jp).inum := by rw [hd]
    have hv' : (fs'.itable jp).valid=true := by
      rw [hd]
      exact hv
    refine ⟨hin,fun _ => hv',?_⟩
    rw [←(h.loaded jp hj hv).1,←ht,(h'.loaded jp hj hv').1,hin]
  · have hsame := hu.others jp hjp
    refine ⟨by rw [hsame],fun hval => by rw [hsame]; exact hval,?_⟩
    rw [hu.dinode]
    exact fun hc => hjp (h.distinct jp ip hj hip hc)

end Xv6Riscv.InodeTable
