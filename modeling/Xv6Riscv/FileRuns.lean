import Xv6Riscv.FileMachine
import Xv6Riscv.ExactLinks

/-!
# Runs from a file system image

A consistent image boots into a state that satisfies the invariant, so that
every run of file system calls stays in it. Blocks then have one owner,
reference counts are exact and a pipe is freed once. Directory entries dangle
and link counts drift only after the edits that are excluded here: removing a
directory that another one still has as its parent, creating a name in a
directory without links, and exceeding the range of a link count.
-/

namespace Xv6Riscv.FileRuns

open Function
open Transition OutcomeLogic InodeLayer DirectoryLayer Occupancy BlockOwnership InodeTable FileTree
  LinkCounts ParentLinks ExactLinks FileView DirectorySpecs NamingSpecs LinkSpecs FileSyscalls
  PipeLifetime FileTable FileMachine

variable {img : Image} {s s' : Sys} {as : List (ℕ×Call)} {N : ℕ} {t t' : Tree}

/-- An image as mkfs writes it: blocks have one owner, files have no holes, and
every allocated inode has a link. -/
structure Consistent (img : Image) : Prop where
  owns : Owns img.sb.dataStart img.sb.size (occ (boot img).fs) img.bitmap
  small : img.sb.size≤2^32
  mapped : ∀ i,(img.dinode i).type≠.free→
    ∀ bn,bn*bsize<(img.dinode i).size→ occ (boot img).fs (i,placeOf bn)≠0
  range : ∀ i,(img.dinode i).type≠.free→0< i ∧ i< img.sb.ninodes
  formed : Formed (boot img).fs
  linked : ∀ i,(img.dinode i).type≠.free→(img.dinode i).nlink≠0
  root : (img.dinode rootino).type≠.free

lemma fdRefs_none : fdRefs (fun _ => none)=0 := by
  funext f
  rw [fdRefs,Tally.total,Pi.zero_apply]
  exact Finset.sum_eq_zero fun _ _ => rfl

lemma cwds_none : cwds (fun _ => none)=0 := by
  funext f
  rw [cwds,Tally.total,Pi.zero_apply]
  exact Finset.sum_eq_zero fun _ _ => rfl

lemma fileOwn_empty : fileOwn (fun _ => File.empty)=0 := by
  funext f
  rw [fileOwn,Tally.total,Pi.zero_apply]
  exact Finset.sum_eq_zero fun _ _ => rfl

lemma boot_fdRefs (img : Image) : fdRefs (boot img).proc=0 := by
  have h := fdRefs_update (fun _ => none) (p:=0) (by decide) (some ⟨0,fun _ => none⟩)
  rw [fdRefs_none,procRefs,add_zero,zero_add] at h
  refine h.trans ?_
  funext f
  rw [procRefs,Tally.total,Pi.zero_apply]
  exact Finset.sum_eq_zero fun fd _ => by rw [fdOwn_none,Pi.zero_apply]

lemma boot_cwds (img : Image) : cwds (boot img).proc=Pi.single 0 1 := by
  have h := cwds_update (fun _ => none) (p:=0) (by decide) (some ⟨0,fun _ => none⟩)
  rw [cwds_none,cwdOwn,add_zero,zero_add,cwdOwn_some] at h
  exact h

lemma boot_own (img : Image) : fileOwn (boot img).ftable+cwds (boot img).proc=Pi.single 0 1 := by
  rw [boot_cwds]
  show fileOwn (fun _ => File.empty)+_=_
  rw [fileOwn_empty,zero_add]

lemma boot_itable (img : Image) (ip : ℕ) : ((boot img).fs.itable ip).valid=false ∧
    ((boot img).fs.itable ip).locked=false ∧
    ((boot img).fs.itable ip).ref=(Pi.single 0 1 : ℕ→ℕ) ip ∧
    (0<(Pi.single 0 1 : ℕ→ℕ) ip→ip=0 ∧ ((boot img).fs.itable ip).inum=rootino) := by
  by_cases h : ip=0
  · subst h
    exact ⟨rfl,rfl,rfl,fun _ => ⟨rfl,rfl⟩⟩
  · have he : (boot img).fs.itable ip=Inode.empty := by
      simp only [boot,update_of_ne h]
    rw [he,Pi.single_eq_of_ne h]
    exact ⟨rfl,rfl,rfl,fun h0 => absurd h0 (by decide)⟩

lemma boot_pipes (img : Image) : PipeInv (boot img) := by
  have hf : ∀ f,((boot img).ftable f).type≠.pipe := fun _ hc => FdType.noConfusion hc
  have hu : ∀ pg,(boot img).used pg≠true := fun _ hc => Bool.noConfusion hc
  have hh : (boot img).history=[] := rfl
  refine ⟨fun f h => absurd h (hf f),fun f g h => absurd h (hf f),fun pg w h => absurd h (hu pg),
    fun pg h => absurd h (hu pg),fun pg pg' h => absurd h (hu pg),fun pg h => absurd h (hu pg),
    fun pg w h => absurd h (hu pg),fun id w h => ?_,fun pg h => absurd h (hu pg),fun id h => ?_,
    fun id _ => ?_,fun id h => ?_⟩
  · grind
  · grind
  · grind
  · grind

lemma boot_inv (h : Consistent img) : SysInv (boot img) := by
  have hinv : InodeInv (boot img).fs (Pi.single 0 1) := by
    refine ⟨fun ip => (boot_itable img ip).2.2.1,fun ip hip => ?_,fun ip jp hip hjp _ => ?_,
      fun ip hip hv => ?_,h.owns,h.small,h.mapped,h.range⟩
    · rw [((boot_itable img ip).2.2.2 hip).1]
      decide
    · rw [((boot_itable img ip).2.2.2 hip).1,((boot_itable img jp).2.2.2 hjp).1]
    · rw [(boot_itable img ip).1] at hv
      exact absurd hv (by decide)
  have hlives : Lives (boot img).fs (Pi.single 0 1) := by
    refine ⟨fun ip hip => ?_,fun i hi hn => absurd hn (h.linked i hi)⟩
    rw [((boot_itable img ip).2.2.2 hip).2]
    exact h.root
  have htable : TableInv (boot img) (fdRefs (boot img).proc) (cwds (boot img).proc) := by
    refine ⟨fun f => ?_,fun f hf => ?_,fun f _ => rfl,?_,?_,fun f hf => FdType.noConfusion hf⟩
    · rw [boot_fdRefs]
      rfl
    · rw [boot_fdRefs] at hf
      cases hf
    · rw [boot_own]
      exact hinv
    · rw [boot_own]
      exact ⟨h.formed,hlives⟩
  refine ⟨⟨htable,boot_pipes img⟩,funext fun ip => (boot_itable img ip).2.1,fun p q hq => ?_⟩
  by_cases hp : p=0
  · rw [hp] at hq ⊢
    have h0 : (boot img).proc 0=some ⟨0,fun _ => none⟩ := rfl
    rw [h0,Option.some.injEq] at hq
    rw [←hq]
    exact ⟨by decide,fun _ _ => rfl⟩
  · have h0 : (boot img).proc p=none := by simp only [boot,update_of_ne hp]
    rw [h0] at hq
    cases hq

lemma run_inv (h : Consistent img) (hrun : run step (boot img) as=.next s) :
    SysInv s ∧ s.fs.sb=img.sb := by
  refine @run_invariant _ _ step (fun s => SysInv s ∧ s.fs.sb=img.sb) ?_ _ _ _
    ⟨boot_inv h,rfl⟩ hrun
  rintro s a s' ⟨hs,hsb⟩ hstep
  have hserved := (step_served hs a).of_next hstep
  exact ⟨hserved.inv,hserved.sb.trans hsb⟩

lemma consistent_of_one {b : ℕ} (hpos : 0<b)
    (hocc : ∀ q,occ (boot img).fs q=if q=(rootino,.addr 0) then b else 0)
    (hstart : img.sb.dataStart=b) (hlt : b< img.sb.size) (hbit : ∀ x,img.bitmap x=true ↔ x≤b)
    (hsmall : img.sb.size≤2^32)
    (hsize : ∀ i,(img.dinode i).type≠.free→(img.dinode i).size≤ if i=rootino then bsize else 0)
    (hrange : ∀ i,(img.dinode i).type≠.free→0< i ∧ i< img.sb.ninodes)
    (hformed : Formed (boot img).fs) (hlinked : ∀ i,(img.dinode i).type≠.free→(img.dinode i).nlink≠0)
    (hroot : (img.dinode rootino).type≠.free) : Consistent img := by
  have hplace : ∀ q,occ (boot img).fs q≠0→q=(rootino,.addr 0) := by
    intro q hq
    rw [hocc] at hq
    by_contra hc
    exact hq (if_neg hc)
  refine ⟨⟨by omega,fun q hq => ?_,fun p q hp hpq => ?_,fun x hx _ => ?_,fun x hx => ?_⟩,
    hsmall,fun i hi bn hbn => ?_,hrange,hformed,hlinked,hroot⟩
  · grind
  · grind
  · rw [hbit]
    constructor
    · intro hx'
      refine ⟨(rootino,.addr 0),?_⟩
      rw [hocc,if_pos rfl]
      omega
    · grind
  · rw [hbit]
    omega
  · have hle := hsize i hi
    split_ifs at hle with hr
    · have h0 : bn=0 := by
        grind [bsize]
      rw [h0,hr,hocc]
      exact hpos.ne'
    · omega

/-- An image of so many blocks with an empty root directory. -/
def rootImage (size : ℕ) : Image where
  sb := ⟨size,size-10,8⟩
  bitmap := fun b => b<11
  dinode := update (fun _ => .blank .free) rootino
    ⟨.dir,0,0,1,2*direntSize,update (fun _ => 0) 0 10⟩
  data := update (fun _ => zeros) 10
    (writeBytes zeros 0 ((dotNode rootino rootino).flatMap Dirent.encode))

section RootImage

variable {size : ℕ}

lemma rootImage_type (size : ℕ) {i : ℕ} (h : ((rootImage size).dinode i).type≠.free) : i=rootino := by
  by_contra hi
  exact h (by simp only [rootImage,update_of_ne hi,Dinode.blank])

lemma rootImage_occ (q : ℕ×Place) :
    occ (boot (rootImage size)).fs q=if q=(rootino,.addr 0) then 10 else 0 := by
  obtain ⟨i,p⟩ := q
  have hroot : ((boot (rootImage size)).fs.dinode rootino).type≠.free :=
    fun hc => FileType.noConfusion hc
  have haddr : ((boot (rootImage size)).fs.dinode rootino).addrs=
      update (fun _ => 0) 0 10 := rfl
  by_cases hi : i=rootino
  · subst hi
    cases p with
    | addr k =>
      by_cases hk : k=0
      · rw [hk]
        rfl
      · rw [if_neg (by simpa using hk),occ,if_neg hroot,blockAt,haddr,update_of_ne hk,
          ite_self]
    | entry j =>
      rw [if_neg (by simp),occ,if_neg hroot,blockAt,if_neg]
      exact fun hc => hc.2 rfl
  · rw [if_neg (by simp [hi]),occ,if_pos]
    by_contra hc
    exact hi (rootImage_type size hc)

lemma rootImage_consistent (hlo : 11≤ size) (hhi : size≤2^32) : Consistent (rootImage size) := by
  have hstart : (rootImage size).sb.dataStart=10 := by
    show size-(size-10)=10
    omega
  refine consistent_of_one (b:=10) (by decide) rootImage_occ hstart (by show 10<size; omega)
    (fun x => ?_) hhi (fun i hi => ?_) (fun i hi => ?_) ⟨fun i hi => ?_,fun i hi => ?_,?_⟩
    (fun i hi => ?_) fun hc => FileType.noConfusion hc
  · show decide (x<11)=true ↔ _
    rw [decide_eq_true_iff]
    omega
  · rw [rootImage_type size hi]
    exact show 32≤1024 by decide
  · rw [rootImage_type size hi]
    exact ⟨by decide,show 1<8 by decide⟩
  · have hr := @rootImage_type size i (by
      rw [show ((rootImage size).dinode i).type=.dir from hi]
      decide)
    rw [hr]
    exact show 2*direntSize%direntSize=0 by decide
  · rw [show (boot (rootImage size)).fs.dinode i=(rootImage size).dinode i from rfl,
      rootImage_type size hi]
    exact ⟨show (-2^15 : ℤ)≤1 by decide,show (1 : ℤ)<2^15 by decide⟩
  · show 8≤65536
    decide
  · rw [rootImage_type size hi]
    exact show (1 : ℤ)≠0 by decide

end RootImage

lemma step_stops (hs : SysInv s) {a : ℕ×Call} {msg : String} (hstep : step s a=.panic msg) :
    Stops (tree s.fs) msg := (step_served hs a).of_panic hstep

/-- The edits that a step may make meet a condition in the tree before it. -/
def Calm (ok : Tree→Edit→Prop) (s : Sys) (a : ℕ×Call) : Prop :=
  ∀ e u,permits s a e→Step s.fs.sb.ninodes (tree s.fs) e u→ ok (tree s.fs) e

section Trees

variable {ok : Tree→Edit→Prop} {inv : Tree→Prop}

lemma step_tree (hfree : ∀ t i,ok t (.free i))
    (hinv : ∀ t e u,inv t→ ok t e→Step img.sb.ninodes t e u→inv u) {a : ℕ×Call}
    (hs : (SysInv s ∧ s.fs.sb=img.sb) ∧ inv (tree s.fs)) (hc : Calm ok s a)
    (hstep : step s a=.next s') : (SysInv s' ∧ s'.fs.sb=img.sb) ∧ inv (tree s'.fs) := by
  obtain ⟨⟨hs1,hsb⟩,ht⟩ := hs
  obtain ⟨h',hsb',u,hu,hst⟩ := (step_served hs1 a).of_next hstep
  refine ⟨⟨h',hsb'.trans hsb⟩,?_⟩
  have hmid : inv u := by
    rcases hu with rfl | ⟨e,he,hse⟩
    · exact ht
    · refine hinv _ e u ht (hc e u he hse) ?_
      rw [←hsb]
      exact hse
  rw [hsb] at hst
  refine hst.invariant (fun t e u ht hok hse => ?_) hmid
  cases e with
  | free i => exact hinv t _ u ht (hfree t i) hse
  | create | link | unlink => exact hok.elim

lemma run_tree (h : Consistent img) (hfree : ∀ t i,ok t (.free i))
    (hinv : ∀ t e u,inv t→ ok t e→Step img.sb.ninodes t e u→inv u)
    (h0 : inv (tree (boot img).fs)) (hg : Guarded step (Calm ok) (boot img) as) :
    (∀ s,run step (boot img) as=.next s→SysInv s ∧ inv (tree s.fs)) ∧
      ∀ msg,(∀ t,inv t→¬Stops t msg)→ run step (boot img) as≠.panic msg := by
  have hboot : (SysInv (boot img) ∧ (boot img).fs.sb=img.sb) ∧ inv (tree (boot img).fs) :=
    ⟨⟨boot_inv h,rfl⟩,h0⟩
  refine ⟨fun s hrun => ?_,fun msg hmsg => ?_⟩
  · have hs := run_invariant_guarded (fun _ _ _ => step_tree hfree hinv) hboot hg hrun
    exact ⟨hs.1.1,hs.2⟩
  · exact run_message_guarded (fun _ _ _ => step_tree hfree hinv)
      (fun s a hs _ hstep => hmsg _ hs.2 (step_stops hs.1.1 hstep)) hboot hg

end Trees

lemma run_all (h : Consistent img) (as : List (ℕ×Call)) :
    (∀ s,run step (boot img) as=.next s→SysInv s) ∧
      ∀ msg,(∀ t,¬Stops t msg)→ run step (boot img) as≠.panic msg := by
  have hg : Guarded step (Calm fun _ _ => True) (boot img) as :=
    guarded_of_forall (fun _ _ _ _ _ _ => trivial) _ as
  obtain ⟨h1,h2⟩ := @run_tree img as (fun _ _ => True) (fun _ => True) h (fun _ _ => trivial)
    (fun _ _ _ _ _ _ => trivial) trivial hg
  exact ⟨fun s hs => (h1 s hs).1,fun msg hm => h2 msg fun t _ => hm t⟩

/-- In every state of every run, each block is in at most one place, places hold
blocks of the data area, and the bitmap tells which blocks are in a place. No
block is freed twice. -/
theorem blocks_have_one_owner (h : Consistent img) (as : List (ℕ×Call)) :
    (∀ s,run step (boot img) as=.next s→
      (∀ p q,occ s.fs p≠0→ occ s.fs p=occ s.fs q→p=q) ∧
      (∀ p,occ s.fs p≠0→s.fs.sb.dataStart≤occ s.fs p ∧ occ s.fs p<s.fs.sb.size) ∧
      ∀ b,s.fs.sb.dataStart≤b→b<s.fs.sb.size→(s.fs.bitmap b=true ↔ ∃ p,occ s.fs p=b)) ∧
    run step (boot img) as≠.panic "freeing free block" := by
  obtain ⟨hinv,hmsg⟩ := run_all h as
  refine ⟨fun s hrun => ?_,hmsg _ fun t hs => hs.never.1 rfl⟩
  have howns := (hinv s hrun).files.inode.owns
  exact ⟨howns.unique,howns.inside,howns.used_iff⟩

/-- A process writes to a new file, truncates it and removes it. -/
def blockRun : List (ℕ×Call) :=
  [(0,.sysOpen [102] 0x202),(0,.sysWrite 0 3 [1,2,3]),(0,.sysOpen [102] 0x401),
    (0,.sysUnlink [102]),(0,.sysClose 0),(0,.sysClose 1)]

theorem blockRun_owned : ∃ s,run step (boot (rootImage 40)) blockRun=.next s ∧
    (∀ b,s.fs.sb.dataStart≤b→b<s.fs.sb.size→(s.fs.bitmap b=true ↔ ∃ p,occ s.fs p=b)) ∧
    s.fs.bitmap 11=false := by
  have hrun : (run step (boot (rootImage 40)) blockRun).state?.map (fun s => s.fs.bitmap 11)=
      some false := by decide +kernel
  obtain ⟨s,hs,hbit⟩ := exists_of_state? hrun
  exact ⟨s,hs,((blocks_have_one_owner (rootImage_consistent (by decide) (by decide)) blockRun).1 s hs).2.2,hbit⟩

def freshTree : Tree :=
  update (fun _ => none) rootino (some ⟨true,1,dotNode rootino rootino⟩)

lemma rootImage_tree (size : ℕ) : tree (boot (rootImage size)).fs=freshTree := by
  funext i
  by_cases hi : i=rootino
  · subst hi
    have h40 : tree (boot (rootImage size)).fs rootino=tree (boot (rootImage 40)).fs rootino := rfl
    rw [h40]
    rfl
  · rw [freshTree,update_of_ne hi]
    refine tree_none ?_
    by_contra hc
    exact hi (rootImage_type size hc)

lemma freshTree_some {i : ℕ} {n : Node} (h : freshTree i=some n) :
    i=rootino ∧ n=⟨true,1,dotNode rootino rootino⟩ := by
  by_cases hi : i=rootino
  · rw [freshTree,hi,update_self,Option.some.injEq] at h
    exact ⟨hi,h.symm⟩
  · rw [freshTree,update_of_ne hi] at h
    cases h

lemma freshTree_kids (d : ℕ) : kids freshTree d=[] := by
  by_cases hd : d=rootino
  · rw [hd]
    rfl
  · exact kids_none (by rw [freshTree,update_of_ne hd])

lemma freshTree_names (N i : ℕ) : names N freshTree i=0 := by
  rw [names]
  refine Finset.sum_eq_zero fun d _ => ?_
  rw [freshTree_kids]
  rfl

lemma freshTree_subdirs (d : ℕ) : subdirs freshTree d=0 := by
  rw [subdirs,freshTree_kids]
  rfl

lemma freshTree_linkInv : LinkInv 8 freshTree := by
  refine ⟨fun i n hi => ?_,fun i _ _ => freshTree_names 8 i,⟨_,update_self _ _ _⟩⟩
  obtain ⟨rfl,rfl⟩ := freshTree_some hi
  rw [freshTree_names,freshTree_subdirs]
  refine ⟨by decide,fun hc => absurd hc (by decide),fun _ => shape_dotNode (by decide),by decide,
    fun hc => absurd hc (by decide),fun _ hc => absurd rfl hc,fun _ => ⟨rfl,rfl,by decide⟩⟩

lemma freshTree_parents : Parents freshTree := by
  intro i n hi _
  obtain ⟨rfl,rfl⟩ := freshTree_some hi
  exact ⟨_,hi,rfl,by decide⟩

lemma freshTree_exact : Exact 8 freshTree := by
  refine ⟨fun i n hi hd => ?_,fun i n _ _ => ?_,fun i n hi _ hr => ?_,fun d e he => ?_,fun i hr => ?_⟩
  · rw [(freshTree_some hi).2] at hd
    exact absurd hd (by decide)
  · rw [freshTree_names]
    exact Nat.zero_le 1
  · exact absurd (freshTree_some hi).1 hr
  · rw [freshTree_kids] at he
    exact absurd he List.not_mem_nil
  · rw [freshTree_subdirs]
    refine Finset.sum_eq_zero fun j _ => if_neg fun hup => hr ?_
    rw [up] at hup
    obtain ⟨n,hn,hp⟩ := Option.bind_eq_some_iff.mp hup
    obtain ⟨-,rfl⟩ := freshTree_some hn
    have hp' : some rootino=some i := hp
    exact (Option.some.inj hp').symm

lemma not_uncounted (h : LinkInv N t) : ¬Uncounted t := by
  rintro ⟨d,n,e,m,hd,hdir,he,h0,hdot,hdotdot,hm,hlt⟩
  have hn := h.node d n hd
  have hd0 := hn.ne_zero
  obtain ⟨k,hk⟩ := List.getElem?_of_mem he
  obtain ⟨k',hk',-⟩ := set_drop (z := e) (hn.shape hdir) hd0 hk hdot hdotdot
  have hmem : e∈kids t d := by
    rw [kids_some hd]
    exact List.mem_of_getElem? hk'
  have hnames : names N t e.inum≠0 := fun hz => h.inum_ne hz hmem rfl
  have hcounts := (h.node e.inum m hm).counts
  by_cases hr : e.inum=rootino
  · exact hnames (hcounts.root hr).2.1
  · cases hmd : m.isDir with
    | false =>
      have := hcounts.file hmd
      omega
    | true =>
      have := hcounts.dir hmd hr
      omega

lemma not_lost (h : LinkInv N t) (hp : Parents t) : ¬Lost t := by
  rintro (hroot | hdang)
  · grind [h.root]
  · exact not_dangling h hp hdang

/-- If no step removes a directory that another one still has as its parent, or
whose own parent has lost its name, and no link count exceeds its range, then
every entry of every allocated directory names an allocated inode, and no path
leads to a free one. -/
theorem entries_name_allocated_inodes (h : Consistent img)
    (hl : LinkInv img.sb.ninodes (tree (boot img).fs)) (hp : Parents (tree (boot img).fs))
    (hg : Guarded step (Calm KeepsParents) (boot img) as) :
    (∀ s,run step (boot img) as=.next s→∀ d n e,tree s.fs d=some n→n.isDir=true→ e∈n.entries→
      e.inum≠0→(s.fs.dinode e.inum).type≠.free) ∧
    run step (boot img) as≠.panic "ilock: no type" := by
  obtain ⟨h1,h2⟩ := @run_tree img as KeepsParents
    (fun t => LinkInv img.sb.ninodes t ∧ Parents t) h (fun _ _ => ⟨trivial,trivial⟩)
    (fun t e u hi hok hs => ⟨linkInv_step hi.1 hok.1 hs,parents_step hi.1 hi.2 hok hs⟩) ⟨hl,hp⟩ hg
  refine ⟨fun s hrun d n e hd hdir he h0 hf => ?_,h2 _ fun t ht hs => ?_⟩
  · obtain ⟨-,hl',hp'⟩ := h1 s hrun
    exact not_dangling hl' hp' ⟨d,n,e,hd,hdir,he,h0,tree_none hf⟩
  · exact not_lost ht.1 ht.2 (hs.noType rfl)

/-- If no name is created in a directory without links and no link count exceeds
its range, then the link count of every inode but the root is the number of
entries for it, other than . entries, in directories with links; an inode
without a name is in use, and unlink finds no link count below one. -/
theorem nlink_counts_entries (h : Consistent img)
    (hl : LinkInv img.sb.ninodes (tree (boot img).fs))
    (hx : Exact img.sb.ninodes (tree (boot img).fs))
    (hg : Guarded step (Calm KeepsExact) (boot img) as) :
    (∀ s,run step (boot img) as=.next s→∀ i n,i≠rootino→tree s.fs i=some n→
      n.nlink=links img.sb.ninodes (tree s.fs) i ∧
      (links img.sb.ninodes (tree s.fs) i=0→
        ∃ ip,0<(s.fs.itable ip).ref ∧ (s.fs.itable ip).inum=i)) ∧
    run step (boot img) as≠.panic "unlink: nlink < 1" := by
  obtain ⟨h1,h2⟩ := @run_tree img as KeepsExact
    (fun t => LinkInv img.sb.ninodes t ∧ Exact img.sb.ninodes t) h (fun _ _ => ⟨trivial,trivial⟩)
    (fun t e u hi hok hs => ⟨linkInv_step hi.1 hok.1 hs,exact_step hi.1 hi.2 hok hs⟩) ⟨hl,hx⟩ hg
  refine ⟨fun s hrun i n hr hi => ?_,h2 _ fun t ht hs => not_uncounted ht.1 (hs.nlink rfl)⟩
  obtain ⟨hs,hl',hx'⟩ := h1 s hrun
  have heq := nlink_eq_links hl' hx' hi hr
  refine ⟨heq,fun h0 => ?_⟩
  obtain ⟨ht,hn⟩ := tree_isSome hi
  have hz : (s.fs.dinode i).nlink=0 := by
    have : n.nlink=(s.fs.dinode i).nlink := by rw [hn,node]
    rw [←this,heq,h0]
    rfl
  grind [hs.files.sound.lives.unlinked,hs.files.inode.refs]

/-- Whether the inode that a path leads to has room for one more link and has one. -/
def hasRoom (t : Tree) (r : Option (ℕ×List UInt8)) : Bool :=
  r.all fun r => (t r.1).all fun n => n.nlink≠0 && n.nlink≠32767

/-- An executable condition for both results above: names are created only in
directories with links, and no directory is removed. -/
def calmStep (s : Sys) (a : ℕ×Call) : Bool :=
  (s.proc a.1).all fun q =>
    let t := tree s.fs
    let cwd := (s.fs.itable q.cwd).inum
    match a.2 with
    | .sysOpen path _ | .sysMkdir path | .sysMknod path _ _ => hasRoom t (resolve true t cwd path)
    | .sysLink old new =>
      hasRoom t (resolve false t cwd old) && hasRoom t (resolve true t cwd new)
    | .sysUnlink path => (resolve true t cwd path).all fun r => (t r.1).all fun n =>
      (lookup n.entries r.2).all fun de => !isDirAt t de.inum
    | _ => true

lemma hasRoom_some {t : Tree} {d : ℕ} {name : List UInt8} {r : Option (ℕ×List UInt8)}
    (h : hasRoom t r=true) (hr : r=some (d,name)) {n : Node} (hd : t d=some n) :
    n.nlink≠0 ∧ n.nlink≠32767 := by
  rw [hasRoom,hr] at h
  simpa [hd] using h

lemma calmStep_cases {a : ℕ×Call} (h : calmStep s a=true) {e : Edit} (he : permits s a e) :
    (∃ d i isDir,e=.create d i isDir ∧ ∀ n,tree s.fs d=some n→n.nlink≠0 ∧ n.nlink≠32767) ∨
    (∃ d i,e=.link d i ∧ (∀ n,tree s.fs d=some n→n.nlink≠0) ∧
      ∀ n,tree s.fs i=some n→n.nlink≠32767) ∨
    ∃ d i,e=.unlink d i ∧ isDirAt (tree s.fs) i=false := by
  obtain ⟨p,c⟩ := a
  obtain ⟨q,hq,he⟩ := he
  rw [calmStep,hq] at h
  have hcreate : ∀ path isDir,
      hasRoom (tree s.fs) (resolve true (tree s.fs) (s.fs.itable q.cwd).inum path)=true→
      Creates (tree s.fs) (s.fs.itable q.cwd).inum path isDir e→
      ∃ d i isDir,e=.create d i isDir ∧ ∀ n,tree s.fs d=some n→n.nlink≠0 ∧ n.nlink≠32767 := by
    rintro path isDir hroom ⟨d,name,i,hres,rfl⟩
    exact ⟨d,i,isDir,rfl,fun n hd => hasRoom_some hroom hres hd⟩
  cases c with
  | sysOpen path omode => exact .inl (hcreate path false h he.2)
  | sysMkdir path => exact .inl (hcreate path true h he)
  | sysMknod path major minor => exact .inl (hcreate path false h he)
  | sysLink old new =>
    obtain ⟨d,i,name,last,hold,hnew,rfl⟩ := he
    obtain ⟨h1,h2⟩ := Bool.and_eq_true_iff.mp h
    exact .inr (.inl ⟨d,i,rfl,fun n hd => (hasRoom_some h2 hnew hd).1,fun n hi =>
      (hasRoom_some h1 hold hi).2⟩)
  | sysUnlink path =>
    obtain ⟨d,name,n,de,hres,hd,hlook,rfl⟩ := he
    refine .inr (.inr ⟨d,de.inum,rfl,?_⟩)
    simpa [hres,hd,hlook] using h
  | sysChdir | sysClose | sysDup | sysRead | sysWrite | writei | fork | exit | exec | sysPipe =>
    exact he.elim

lemma calmStep_parents (s : Sys) (a : ℕ×Call) (h : calmStep s a=true) :
    Calm KeepsParents s a := by
  intro e u he _
  rcases calmStep_cases h he with ⟨d,i,isDir,rfl,hn⟩ | ⟨d,i,rfl,-,hn⟩ | ⟨d,i,rfl,hdir⟩
  · cases isDir with
    | false => exact ⟨trivial,trivial⟩
    | true => exact ⟨fun n hd => (hn n hd).2,trivial⟩
  · exact ⟨hn,trivial⟩
  · exact ⟨trivial,fun hc => absurd (hdir.symm.trans hc) (by decide)⟩

lemma calmStep_exact (s : Sys) (a : ℕ×Call) (h : calmStep s a=true) :
    Calm KeepsExact s a := by
  intro e u he _
  rcases calmStep_cases h he with ⟨d,i,isDir,rfl,hn⟩ | ⟨d,i,rfl,hd,hn⟩ | ⟨d,i,rfl,-⟩
  · cases isDir with
    | false => exact ⟨trivial,fun n hd => (hn n hd).1⟩
    | true => exact ⟨fun n hd => (hn n hd).2,fun n hd => (hn n hd).1⟩
  · exact ⟨hn,hd⟩
  · exact ⟨trivial,trivial⟩

/-- A process makes directories and gives a file a second name. -/
def namingRun : List (ℕ×Call) :=
  [(0,.sysMkdir [97]),(0,.sysChdir [97]),(0,.sysMknod [98] 1 1),(0,.sysLink [98] [47,99]),
    (0,.sysUnlink [98]),(0,.sysChdir [46,46])]

theorem namingRun_entries : ∃ s,run step (boot (rootImage 40)) namingRun=.next s ∧
    (tree s.fs 2).isSome=true ∧
    ∀ d n e,tree s.fs d=some n→n.isDir=true→ e∈n.entries→ e.inum≠0→
      (s.fs.dinode e.inum).type≠.free := by
  have hrun : (run step (boot (rootImage 40)) namingRun).state?.map (fun s => (tree s.fs 2).isSome)=
      some true := by decide +kernel
  have hcheck : guardedCheck step calmStep (boot (rootImage 40)) namingRun=true := by decide +kernel
  obtain ⟨s,hs,hdir⟩ := exists_of_state? hrun
  exact ⟨s,hs,hdir,(entries_name_allocated_inodes (rootImage_consistent (by decide) (by decide))
    (by rw [rootImage_tree]; exact freshTree_linkInv)
    (by rw [rootImage_tree]; exact freshTree_parents)
    (guarded_of_check calmStep_parents hcheck)).1 s hs⟩

theorem namingRun_counts : ∃ s,run step (boot (rootImage 40)) namingRun=.next s ∧
    ∃ n,tree s.fs 3=some n ∧ n.nlink=1 ∧ n.nlink=links 8 (tree s.fs) 3 := by
  have hrun : (run step (boot (rootImage 40)) namingRun).state?.map
      (fun s => (tree s.fs 3).map (·.nlink))=some (some 1) := by decide +kernel
  have hcheck : guardedCheck step calmStep (boot (rootImage 40)) namingRun=true := by decide +kernel
  obtain ⟨s,hs,hnl⟩ := exists_of_state? hrun
  obtain ⟨n,hn,h1⟩ := Option.map_eq_some_iff.mp hnl
  exact ⟨s,hs,n,hn,h1,((nlink_counts_entries (rootImage_consistent (by decide) (by decide))
    (by rw [rootImage_tree]; exact freshTree_linkInv)
    (by rw [rootImage_tree]; exact freshTree_exact)
    (guarded_of_check calmStep_exact hcheck)).1 s hs 3 n (by decide) hn).1⟩

/-- A process removes the parent of its current directory and goes there. -/
def removedParentRun : List (ℕ×Call) :=
  [(0,.sysMkdir [97]),(0,.sysMkdir [97,47,98]),(0,.sysChdir [97,47,98]),
    (0,.sysUnlink [47,97,47,98]),(0,.sysUnlink [47,97]),(0,.sysChdir [46,46])]

theorem removedParent_entry_dangles :
    (run step (boot (rootImage 40)) (removedParentRun.take 5)).state?.map (fun s =>
      ((tree s.fs 3).map fun n => (n.isDir,n.entries.map (·.inum)),(s.fs.dinode 2).type))=
        some (some (true,[3,2]),.free) ∧
    (run step (boot (rootImage 40)) removedParentRun).message=some "ilock: no type" := by
  decide +kernel

/-- A process creates a name in its current directory after removing it. -/
def removedCwdRun : List (ℕ×Call) :=
  [(0,.sysMkdir [97]),(0,.sysChdir [97]),(0,.sysUnlink [47,97]),(0,.sysMknod [98] 1 1),
    (0,.sysChdir [47])]

theorem removedCwd_leaks_inode :
    (run step (boot (rootImage 40)) removedCwdRun).state?.map (fun s =>
      ((tree s.fs 3).map (·.nlink),links 8 (tree s.fs) 3,
        (List.range ninode).any fun ip => 0<(s.fs.itable ip).ref && (s.fs.itable ip).inum=3))=
      some (some 1,0,false) := by
  decide +kernel

end Xv6Riscv.FileRuns
