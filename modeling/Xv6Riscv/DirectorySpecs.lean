import Xv6Riscv.FileView
import Xv6Riscv.ParentLinks

/-!
# Specifications of the directory functions

What dirlookup, dirlink and namex do in terms of the directory tree. Looking
up a path changes nothing but the inode table: an inode without links that is
still allocated is held by a process, so that no reference that namex drops
can be the last one to it.
-/

namespace Xv6Riscv.DirectorySpecs

open Function
open Transition OutcomeLogic InodeLayer DirectoryLayer BlockOwnership InodeTable FileTree FileView
  ParentLinks

variable {fs fs' : Fs} {own own' : ℕ→ℕ} {ip dp i : ℕ} {stop : String→Prop}

/-- What holds of the disk inodes beyond the inode invariant. -/
structure Formed (fs : Fs) : Prop where
  aligned : ∀ i,(fs.dinode i).type=.dir→(fs.dinode i).size%direntSize=0
  shorts : ∀ i,(fs.dinode i).type≠.free→-2^15≤(fs.dinode i).nlink ∧ (fs.dinode i).nlink<2^15
  count : fs.sb.ninodes≤65536

/-- Inodes that are in use are allocated, and those without links are in use. -/
structure Lives (fs : Fs) (own : ℕ→ℕ) : Prop where
  held : ∀ ip,0<own ip→(fs.dinode (fs.itable ip).inum).type≠.free
  unlinked : ∀ i,(fs.dinode i).type≠.free→(fs.dinode i).nlink=0→
    ∃ ip,0<own ip ∧ (fs.itable ip).inum=i ∧ (fs.itable ip).valid=true

/-- The two together, for the references that are held outside of the call. -/
structure Sound (fs : Fs) (own : ℕ→ℕ) : Prop where
  formed : Formed fs
  lives : Lives fs own

lemma fields_eq {d d' : Dinode} (h : fieldsOf d'=fieldsOf d) :
    d'.type=d.type ∧ d'.nlink=d.nlink ∧ d'.size=d.size := by
  grind [fieldsOf]

lemma Formed.same (h : Formed fs) (hf : SameFiles fs fs') : Formed fs' := by
  refine ⟨fun i hi => ?_,fun i hi => ?_,by rw [hf.sb]; exact h.count⟩
  · rw [(hf.file i).type] at hi
    rw [(fields_eq ((hf.file i).fields (by rw [hi]; decide))).2.2]
    exact h.aligned i hi
  · rw [(hf.file i).type] at hi
    rw [(fields_eq ((hf.file i).fields hi)).2.1]
    exact h.shorts i hi

lemma Lives.same (h : Lives fs own) (hf : SameFiles fs fs') (hk : Kept own fs fs') :
    Lives fs' own := by
  refine ⟨fun ip hip => ?_,fun i hi hn => ?_⟩
  · rw [(hk ip hip).inum,(hk ip hip).type]
    exact h.held ip hip
  · rw [(hf.file i).type] at hi
    rw [(fields_eq ((hf.file i).fields hi)).2.1] at hn
    obtain ⟨ip,hip,hin,hv⟩ := h.unlinked i hi hn
    exact ⟨ip,hip,(hk ip hip).inum.trans hin,(hk ip hip).valid hv⟩

lemma Sound.same (h : Sound fs own) (hf : SameFiles fs fs') (hk : Kept own fs fs') :
    Sound fs' own := ⟨h.formed.same hf,h.lives.same hf hk⟩

lemma Sound.quiet (h : Sound fs own) (hq : Quiet own fs fs') : Sound fs' own :=
  h.same (sameFiles_of_disk hq.disk) hq.kept

lemma tree_quiet (h : InodeInv fs own') (hq : Quiet own fs fs') : tree fs'=tree fs :=
  (sameFiles_of_disk hq.disk).tree h

lemma Lives.not_last (h : Lives fs own) (hle : own≤own')
    (hinv : InodeInv fs (Pi.single ip 1+own')) : ¬LastLink fs own' ip := by
  rintro ⟨h0,hv,hn⟩
  have hpos := single_pos own' ip
  obtain ⟨hc,ht⟩ := hinv.loaded ip hpos hv
  rw [hc] at ht
  obtain ⟨jp,hj,hin,-⟩ := h.unlinked _ ht hn
  have hj' : 0<own' jp := lt_of_lt_of_le hj (hle jp)
  have := hinv.distinct jp ip (single_add_pos hj') hpos hin
  rw [this] at hj'
  omega

def Lost (t : Tree) : Prop := t rootino=none ∨ Dangling t

/-- A name is for an inode whose link count is not positive. -/
def Uncounted (t : Tree) : Prop :=
  ∃ d n e m,t d=some n ∧ n.isDir=true ∧ e∈n.entries ∧ e.inum≠0 ∧ namecmp dot e.name=false ∧
    namecmp dotdot e.name=false ∧ t e.inum=some m ∧ m.nlink<1

/-- With which messages the calls may stop in a state with this tree. -/
structure Stops (t : Tree) (msg : String) : Prop where
  noType : msg="ilock: no type"→Lost t
  nlink : msg="unlink: nlink < 1"→Uncounted t
  never : msg≠"freeing free block" ∧ msg≠"filedup" ∧ msg≠"fileclose"

lemma stops_other (t : Tree) {msg : String} (h : msg∉["ilock: no type","unlink: nlink < 1",
    "freeing free block","filedup","fileclose"]) : Stops t msg := by
  simp only [List.mem_cons,List.not_mem_nil,or_false,not_or] at h
  obtain ⟨h1,h2,h3⟩ := h
  exact ⟨fun hc => absurd hc h1,fun hc => absurd hc h2,h3⟩

lemma stops_lost {t : Tree} (h : Lost t) : Stops t "ilock: no type" :=
  ⟨fun _ => h,fun hc => absurd hc (by decide),by decide⟩

lemma iput_quiet (h : InodeInv fs (Pi.single ip 1+own')) (hl : Lives fs own) (hle : own≤own') :
    Ensures stop (iput fs ip) fun fs' => InodeInv fs' own' ∧ Quiet own' fs fs' ∧
      locks fs'=locks fs := by
  refine (iput_spec h).imp ?_
  rintro fs' ⟨h',hk,hlock,hcase⟩
  rcases hcase with ⟨-,hd⟩ | ⟨hlast,-⟩
  · exact ⟨h',⟨hd,hk⟩,hlock⟩
  · exact absurd hlast (hl.not_last hle h)

lemma iunlockput_spec (h : InodeInv fs (Pi.single ip 1+own)) (hstop : stop "iunlock") :
    Ensures stop (iunlockput fs ip) fun fs' =>
      InodeInv fs' own ∧ Kept own fs fs' ∧ locks fs'=update (locks fs) ip false ∧
        (¬LastLink fs own ip ∧ SameDisk fs fs' ∨
          LastLink fs own ip ∧ Frees fs fs' (fs.itable ip).inum) := by
  have hpos := single_pos own ip
  refine (iunlock_spec h hpos hstop).bind ?_
  rintro fs1 ⟨h1,hq1,hl1,hv1⟩
  refine (iput_spec h1).imp ?_
  rintro fs2 ⟨h2,hk2,hl2,hcase⟩
  have hin := (hq1.kept ip hpos).inum
  have hlast : LastLink fs1 own ip ↔ LastLink fs own ip := by
    rw [LastLink,LastLink,hv1,hin,hq1.disk.dinode]
  rw [hlast] at hcase
  refine ⟨h2,(hq1.kept.mono fun jp hj => single_add_pos hj).trans hk2,hl2.trans hl1,?_⟩
  rcases hcase with ⟨hn,hd⟩ | ⟨hl,hf⟩
  · exact .inl ⟨hn,hq1.disk.trans hd⟩
  · rw [hin] at hf
    refine .inr ⟨hl,hf.sb.trans hq1.disk.sb,hf.data.trans hq1.disk.data,fun j hj => ?_,hf.free⟩
    rw [hf.dinode j hj,hq1.disk.dinode]

lemma iunlockput_quiet (h : InodeInv fs (Pi.single ip 1+own')) (hl : Lives fs own)
    (hle : own≤own') (hstop : stop "iunlock") :
    Ensures stop (iunlockput fs ip) fun fs' => InodeInv fs' own' ∧ Quiet own' fs fs' ∧
      locks fs'=update (locks fs) ip false := by
  refine (iunlockput_spec h hstop).imp ?_
  rintro fs' ⟨h',hk,hlock,hcase⟩
  rcases hcase with ⟨-,hd⟩ | ⟨hlast,-⟩
  · exact ⟨h',⟨hd,hk⟩,hlock⟩
  · exact absurd hlast (hl.not_last hle h)

lemma relock {L : ℕ→Bool} (h : L ip=false) :
    update (update L ip true) ip false=L := by
  grind

section Scan

variable {es : List Dirent} {test : Dirent→Bool}

lemma scan_spec (h : InodeInv fs own) (hip : 0<own dp) (hv : (fs.itable dp).valid=true)
    (hmod : (fs.itable dp).copy.size%direntSize=0) (msg : String) (fuel k : ℕ)
    (hes : es=entries fs (fs.itable dp).inum) (hfuel : es.length<k+fuel) :
    ∃ m r,scan msg dp test fuel fs (direntSize*k)=.next (fs,direntSize*m,r) ∧
      (∀ j e,k≤j→j< m→es[j]?=some e→test e=false) ∧
      ((∃ e,r=some e ∧ es[m]?=some e ∧ test e=true) ∨
        r=none ∧ es.length≤ m ∧ (k≤es.length→m=es.length)) := by
  obtain ⟨hcopy,ht⟩ := h.loaded dp hip hv
  have hlen : es.length=(fs.itable dp).copy.size/direntSize := by grind [entries]
  have hsize : (fs.itable dp).copy.size<2^32 := by
    have := size_le h (by rw [←hcopy]; exact ht)
    rw [←hcopy] at this
    simp only [maxfile,ndirect,nindirect,bsize] at this
    omega
  induction fuel generalizing k with
  | zero => exact ⟨k,none,rfl,fun j _ h1 h2 => by omega,.inr ⟨rfl,by omega,fun _ => by omega⟩⟩
  | succ fuel ih =>
    rw [scan]
    by_cases hk : k<es.length
    · rw [hlen] at hk
      have hoff : direntSize*k<(fs.itable dp).copy.size := by
        have := Nat.div_mul_le_self (fs.itable dp).copy.size direntSize
        have : direntSize*(k+1)≤direntSize*((fs.itable dp).copy.size/direntSize) :=
          Nat.mul_le_mul_left _ hk
        simp only [direntSize] at *
        omega
      obtain ⟨bs,hread,hbs,hdec⟩ := readi_entry h hip hv hk hsize
      have hget : es[k]?=some (decode bs) := by grind [entries]
      simp only [if_pos hoff,hread,next_bind,Option.getD_some,hbs,ne_eq,not_true_eq_false,if_false]
      by_cases htest : test (decode bs)=true
      · rw [if_pos htest]
        exact ⟨k,some (decode bs),rfl,fun j _ h1 h2 => by omega,.inl ⟨_,rfl,hget,htest⟩⟩
      · rw [if_neg htest]
        obtain ⟨m,r,hrun,hfirst,hres⟩ := ih (k+1) (by omega)
        refine ⟨m,r,hrun,fun j e h1 h2 he => ?_,?_⟩
        · by_cases hjk : j=k
          · rw [hjk,hget,Option.some.injEq] at he
            rw [←he]
            exact Bool.eq_false_of_not_eq_true htest
          · exact hfirst j e (by omega) h2 he
        · grind
    · have hoff : ¬direntSize*k<(fs.itable dp).copy.size := by
        rw [hlen] at hk
        have := Nat.mul_le_mul_left direntSize (Nat.le_of_not_lt hk)
        rw [Nat.mul_div_cancel' (Nat.dvd_of_mod_eq_zero hmod)] at this
        omega
      rw [if_neg hoff]
      exact ⟨k,none,rfl,fun j _ h1 h2 => by omega,.inr ⟨rfl,by omega,fun _ => by omega⟩⟩

structure OpenDir (fs : Fs) (own : ℕ→ℕ) (dp : ℕ) : Prop where
  held : 0<own dp
  valid : (fs.itable dp).valid=true
  dir : (fs.dinode (fs.itable dp).inum).type=.dir

variable (h : OpenDir fs own dp)

include h

lemma OpenDir.kept (hk : Kept own fs fs') : OpenDir fs' own dp := by
  obtain ⟨hi,hv,ht⟩ := hk dp h.held
  exact ⟨h.held,hv h.valid,by rw [hi,ht]; exact h.dir⟩

lemma OpenDir.add (ip : ℕ) : OpenDir fs (Pi.single ip 1+own) dp :=
  ⟨single_add_pos h.held,h.valid,h.dir⟩

lemma OpenDir.copy (hinv : InodeInv fs own) (hf : Formed fs) :
    (fs.itable dp).copy.type=.dir ∧ (fs.itable dp).copy.size%direntSize=0 := by
  grind [hinv.loaded,h.held,h.valid,h.dir,hf.aligned]

lemma length_lt_rounds (hinv : InodeInv fs own) :
    (entries fs (fs.itable dp).inum).length<rounds fs dp := by
  grind [entries,rounds,hinv.loaded,h.held,h.valid]

omit h

lemma dirlookup_spec (h : InodeInv fs own) (hd : OpenDir fs own dp) (hf : Formed fs)
    (name : List UInt8) (hes : es=entries fs (fs.itable dp).inum)
    (hstop : stop "iget: no inodes") :
    Ensures stop (dirlookup fs dp name) fun r =>
      match r.2 with
      | none => r.1=fs ∧ Absent es name
      | some (ip,off) => InodeInv r.1 (Pi.single ip 1+own) ∧ Quiet own fs r.1 ∧
        locks r.1=locks fs ∧ ∃ m e,off=direntSize*m ∧ es[m]?=some e ∧ e.inum≠0 ∧
          namecmp name e.name=true ∧ lookup es name=some e ∧ (r.1.itable ip).inum=e.inum := by
  obtain ⟨ht,hmod⟩ := hd.copy h hf
  rw [dirlookup,if_neg (by rw [ht]; decide)]
  obtain ⟨m,r,hrun,hfirst,hres⟩ := @scan_spec fs own dp es
    (fun de => de.inum≠0 && namecmp name de.name) h hd.held hd.valid hmod "dirlookup read"
    (rounds fs dp) 0 hes (by rw [Nat.zero_add,hes]; exact length_lt_rounds hd h)
  rw [Nat.mul_zero] at hrun
  rw [hrun,next_bind]
  rcases hres with ⟨e,rfl,hget,htest⟩ | ⟨rfl,hle,-⟩
  · simp only
    refine (iget_spec h e.inum hstop).bind ?_
    rintro ⟨fs1,ip⟩ ⟨h1,hq1,hl1,hin1⟩
    have htest' := htest
    simp only [ne_eq,decide_not,Bool.and_eq_true,Bool.not_eq_true',decide_eq_false_iff_not]
      at htest
    refine ⟨h1,hq1,hl1,m,e,rfl,hget,htest.1,htest.2,?_,hin1⟩
    obtain ⟨hm,hget'⟩ := List.getElem?_eq_some_iff.mp hget
    refine List.find?_eq_some_iff_getElem.mpr ⟨htest',m,hm,hget',fun j hj => ?_⟩
    grind
  · refine ⟨rfl,fun e he h0 => ?_⟩
    obtain ⟨j,hj⟩ := List.mem_iff_getElem?.mp he
    grind

lemma Lives.add (h : Lives fs own) (ht : (fs.dinode (fs.itable ip).inum).type≠.free) :
    Lives fs (Pi.single ip 1+own) := by
  refine ⟨fun jp hj => ?_,fun i hi hn => ?_⟩
  · grind [single_add_of_ne,h.held]
  · obtain ⟨jp,hj,hin,hv⟩ := h.unlinked i hi hn
    exact ⟨jp,single_add_pos hj,hin,hv⟩

lemma strncpy_length (name : List UInt8) : (strncpy name).length=dirsiz := by
  grind [strncpy]

lemma dirlink_spec (h : InodeInv fs own) (hd : OpenDir fs own dp) (hf : Formed fs)
    (hl : Lives fs own) (name : List UInt8) {inum : ℕ} (hinum : inum<65536)
    (hes : es=entries fs (fs.itable dp).inum) (hstop : stop "iget: no inodes") :
    Ensures stop (dirlink fs dp name inum) fun r =>
      InodeInv r.1 own ∧ Kept own fs r.1 ∧ locks r.1=locks fs ∧
        (r.2=false ∧ SameFiles fs r.1 ∨ r.2=true ∧ r.1.sb=fs.sb ∧ Absent es name ∧
          ∃ k,Room es k ∧ Places fs r.1 (fs.itable dp).inum k ⟨inum,strncpy name⟩) := by
  refine (dirlookup_spec h hd hf name hes hstop).bind ?_
  rintro ⟨fs1,r⟩ hr
  cases r with
  | some q =>
    obtain ⟨ip,off⟩ := q
    obtain ⟨h1,hq1,hl1,-⟩ := hr
    refine (iput_quiet h1 (hl.same (sameFiles_of_disk hq1.disk) hq1.kept) le_rfl).bind ?_
    rintro fs2 ⟨h2,hq2,hl2⟩
    have hq := hq1.trans hq2
    exact ⟨h2,hq.kept,hl2.trans hl1,.inl ⟨rfl,sameFiles_of_disk hq.disk⟩⟩
  | none =>
    obtain ⟨hfs,habs⟩ := hr
    obtain rfl : fs1=fs := hfs
    obtain ⟨ht,hmod⟩ := hd.copy h hf
    obtain ⟨m,r,hrun,-,hres⟩ := @scan_spec fs1 own dp es (fun de => de.inum=0) h hd.held hd.valid
      hmod "dirlink read" (rounds fs1 dp) 0 hes
      (by rw [Nat.zero_add,hes]; exact length_lt_rounds hd h)
    rw [Nat.mul_zero] at hrun
    have hlen : es.length=(fs1.itable dp).copy.size/direntSize := by
      rw [hes,entries,List.length_map,List.length_range,(h.loaded dp hd.held hd.valid).1]
    have hroom : Room es m := by
      rcases hres with ⟨e,-,hget,htest⟩ | ⟨-,-,heq⟩
      · exact .inl ⟨e,hget,of_decide_eq_true htest⟩
      · exact .inr (heq (Nat.zero_le _))
    have hm : m≤(fs1.itable dp).copy.size/direntSize := by
      rw [←hlen]
      rcases hroom with ⟨e,hget,-⟩ | heq
      · exact Nat.le_of_lt (List.getElem?_eq_some_iff.mp hget).1
      · exact Nat.le_of_eq heq
    obtain ⟨fs2,n,hwrite,h2,hu,hk2,hcase⟩ := @writei_entry fs1 own dp h hd.held hd.valid m
      ⟨inum,strncpy name⟩ hm hmod hinum (strncpy_length name)
    simp only [hrun,hwrite,next_bind]
    refine ⟨h2,hk2,locks_of_updates hu,?_⟩
    grind [hu.sb]

lemma isdirempty_spec (h : InodeInv fs own) (hd : OpenDir fs own dp) (hf : Formed fs)
    (hes : es=entries fs (fs.itable dp).inum) :
    ∃ b,isdirempty fs dp=.next (fs,b) ∧ (b=true→∀ e∈es.drop 2,e.inum=0) := by
  obtain ⟨ht,hmod⟩ := hd.copy h hf
  have hrounds := length_lt_rounds hd h
  obtain ⟨m,r,hrun,hfirst,hres⟩ := @scan_spec fs own dp es (fun de => de.inum≠0) h hd.held hd.valid
    hmod "isdirempty: readi" (rounds fs dp) 2 hes (by rw [hes]; omega)
  rw [Nat.mul_comm] at hrun
  refine ⟨r.isNone,by rw [isdirempty,hrun]; rfl,fun hb e he => ?_⟩
  rcases hres with ⟨e,rfl,-⟩ | ⟨-,hle,-⟩
  · cases hb
  · obtain ⟨j,hj⟩ := List.mem_iff_getElem?.mp he
    rw [List.getElem?_drop] at hj
    have hlt := (List.getElem?_eq_some_iff.mp hj).1
    have := hfirst (2+j) e (by omega) (by omega) hj
    simpa using this

end Scan

/-- Following a path in the tree, as namex does: the inode, or its parent and
the last name. -/
def walk (parent : Bool) (t : Tree) : ℕ→ℕ→List UInt8→Option (ℕ×List UInt8)
  | 0,i,_ => if parent then none else some (i,[])
  | fuel+1,i,path =>
    match skipelem path with
    | none => if parent then none else some (i,[])
    | some (name,path) =>
      match t i with
      | none => none
      | some n =>
        if n.isDir then
          if parent && path.isEmpty then some (i,name)
          else
            match lookup n.entries name with
            | none => none
            | some e => walk parent t fuel e.inum path
        else none

def resolve (parent : Bool) (t : Tree) (cwd : ℕ) (path : List UInt8) : Option (ℕ×List UInt8) :=
  walk parent t path.length (if path.head?=some slash then rootino else cwd) path

/-- What namex returns: an inode on which the path ends, in the same tree. -/
structure Finds (fs fs' : Fs) (own : ℕ→ℕ) (parent : Bool) (found : Option (ℕ×List UInt8)) (ip : ℕ)
    (name : List UInt8) : Prop where
  inv : InodeInv fs' (Pi.single ip 1+own)
  found : found=some ((fs'.itable ip).inum,name)
  lost : (fs'.dinode (fs'.itable ip).inum).type=.free→Lost (tree fs)
  dir : parent=true→(fs'.dinode (fs'.itable ip).inum).type=.dir

lemma namexEnd_spec (parent : Bool) (h : InodeInv fs (Pi.single ip 1+own)) (hs : Sound fs own)
    (hlost : (fs.dinode (fs.itable ip).inum).type=.free→Lost (tree fs)) :
    Ensures stop (namexEnd parent fs ip) fun r =>
      Quiet own fs r.1 ∧ locks r.1=locks fs ∧ match r.2 with
        | none => InodeInv r.1 own
        | some (jp,name) => Finds fs r.1 own parent
          (if parent then none else some ((fs.itable ip).inum,[])) jp name := by
  rw [namexEnd]
  cases parent with
  | true =>
    refine (iput_quiet h hs.lives le_rfl).bind ?_
    rintro fs1 ⟨h1,hq1,hl1⟩
    exact ⟨hq1,hl1,h1⟩
  | false => exact ⟨.refl own fs,rfl,h,rfl,hlost,nofun⟩

structure NamexStops (t : Tree) (stop : String→Prop) : Prop where
  noType : Lost t→ stop "ilock: no type"
  noInodes : stop "iget: no inodes"
  iunlock : stop "iunlock"

lemma stops_namex (t : Tree) : NamexStops t (Stops t) :=
  ⟨stops_lost,stops_other t (by decide),stops_other t (by decide)⟩

lemma namexLoop_spec (parent : Bool) (fuel : ℕ) (path : List UInt8)
    (h : InodeInv fs (Pi.single ip 1+own)) (hs : Sound fs own)
    (hlost : (fs.dinode (fs.itable ip).inum).type=.free→Lost (tree fs))
    (hstop : NamexStops (tree fs) stop) :
    Ensures stop (namexLoop parent fuel fs ip path) fun r =>
      Quiet own fs r.1 ∧ locks r.1=locks fs ∧ match r.2 with
        | none => InodeInv r.1 own
        | some (jp,name) => Finds fs r.1 own parent
          (walk parent (tree fs) fuel (fs.itable ip).inum path) jp name := by
  induction fuel generalizing fs ip path with
  | zero => exact namexEnd_spec parent h hs hlost
  | succ fuel ih =>
    rw [namexLoop]
    simp only [walk]
    cases hskip : skipelem path with
    | none => exact namexEnd_spec parent h hs hlost
    | some q =>
      obtain ⟨name,rest⟩ := q
      simp only
      have hpos := single_pos own ip
      refine (ilock_spec h hpos fun ht => hstop.noType (hlost ht)).bind ?_
      rintro fs1 ⟨h1,hq1,hv1,hfree1,hl1⟩
      have hq1' := hq1.mono fun jp (hj : 0<own jp) => single_add_pos hj
      have hs1 := hs.quiet hq1'
      have ht1 := tree_quiet h hq1
      have hin1 := (hq1.kept ip hpos).inum
      obtain ⟨hcopy,htype⟩ := h1.loaded ip hpos hv1
      have htree : tree fs (fs.itable ip).inum=some (node fs1 (fs1.itable ip).inum) := by
        rw [←ht1,←hin1,tree_some (by rw [←hcopy]; exact htype)]
      have hrelock : update (locks fs1) ip false=locks fs := by
        rw [hl1]
        exact relock hfree1
      have hnode : (node fs1 (fs1.itable ip).inum).isDir=decide ((fs1.itable ip).copy.type=.dir) := by
        rw [node,hcopy]
      simp only [htree,hnode,decide_eq_true_eq]
      by_cases hdir : (fs1.itable ip).copy.type=.dir
      · rw [if_neg (not_not_intro hdir),if_pos hdir]
        have hdd : (fs1.dinode (fs1.itable ip).inum).type=.dir := by grind
        by_cases hlast : (parent && rest.isEmpty)=true
        · rw [if_pos hlast,if_pos hlast]
          refine (iunlock_spec h1 hpos hstop.iunlock).bind ?_
          rintro fs2 ⟨h2,hq2,hl2,-⟩
          have hin2 := (hq2.kept ip hpos).inum
          have hd2 : (fs2.dinode (fs2.itable ip).inum).type=.dir := by
            rw [hin2,hq2.disk.dinode]
            exact hdd
          refine ⟨hq1'.trans (hq2.mono fun jp hj => single_add_pos hj),hl2.trans hrelock,h2,?_,
            fun hf => ?_,fun _ => hd2⟩
          · rw [hin2,hin1]
          · rw [hd2] at hf
            exact absurd hf (by decide)
        · rw [if_neg hlast,if_neg hlast]
          have hopen : OpenDir fs1 (Pi.single ip 1+own) ip := ⟨hpos,hv1,hdd⟩
          refine (dirlookup_spec h1 hopen hs1.formed name rfl hstop.noInodes).bind ?_
          rintro ⟨fs2,r⟩ hr
          have hentries : (node fs1 (fs1.itable ip).inum).entries=
              entries fs1 (fs1.itable ip).inum := by
            rw [node]
            exact if_pos hdd
          rw [hentries]
          cases r with
          | none =>
            obtain ⟨hfs,-⟩ := hr
            obtain rfl : fs2=fs1 := hfs
            refine (iunlockput_quiet h1 hs1.lives le_rfl hstop.iunlock).bind ?_
            rintro fs3 ⟨h3,hq3,hl3⟩
            exact ⟨hq1'.trans hq3,hl3.trans hrelock,h3⟩
          | some q =>
            obtain ⟨next,off⟩ := q
            obtain ⟨h2,hq2,hl2,m,e,-,hget,h0,-,hlook,hin2⟩ := hr
            rw [add_left_comm] at h2
            have hq2' := hq2.mono fun jp (hj : 0<own jp) => single_add_pos hj
            have hs2 := hs1.quiet hq2'
            refine (iunlockput_quiet h2 hs2.lives (fun jp => Nat.le_add_left _ _)
              hstop.iunlock).bind ?_
            rintro fs3 ⟨h3,hq3,hl3⟩
            have hq3' := hq3.mono fun jp (hj : 0<own jp) => single_add_pos hj
            have hq : Quiet own fs fs3 := (hq1'.trans hq2').trans hq3'
            have ht3 : tree fs3=tree fs := tree_quiet h hq
            have hin3 : (fs3.itable next).inum=e.inum :=
              (hq3.kept next (single_pos ..)).inum.trans hin2
            have hl : locks fs3=locks fs := by grind
            have hlost3 : (fs3.dinode (fs3.itable next).inum).type=.free→Lost (tree fs3) := by
              intro hf
              refine .inr ⟨(fs.itable ip).inum,_,e,by rw [ht3]; exact htree,?_,?_,h0,?_⟩
              · rw [hnode]
                exact decide_eq_true hdir
              · rw [hentries]
                exact List.mem_of_getElem? hget
              · rw [←hin3]
                exact tree_none hf
            have hih := ih rest h3 (hs.quiet hq) hlost3 (by rw [ht3]; exact hstop)
            rw [ht3,hin3,hl] at hih
            simp only [hlook]
            refine hih.imp ?_
            rintro ⟨fs4,r⟩ ⟨hq4,hl4,hr⟩
            refine ⟨hq.trans hq4,hl4,?_⟩
            cases r with
            | none => exact hr
            | some q =>
              obtain ⟨hi,hfo,hlo,hd⟩ := hr
              exact ⟨hi,hfo,by rw [ht3] at hlo; exact hlo,hd⟩
      · rw [if_pos hdir]
        refine (iunlockput_quiet h1 hs1.lives le_rfl hstop.iunlock).bind ?_
        rintro fs2 ⟨h2,hq2,hl2⟩
        exact ⟨hq1'.trans hq2,hl2.trans hrelock,h2⟩

lemma namex_spec (parent : Bool) (path : List UInt8) {cwd : ℕ} (h : InodeInv fs own)
    (hs : Sound fs own) (hcwd : 0<own cwd) (hstop : NamexStops (tree fs) stop) :
    Ensures stop (namex fs cwd path parent) fun r =>
      Quiet own fs r.1 ∧ locks r.1=locks fs ∧ match r.2 with
        | none => InodeInv r.1 own
        | some (jp,name) => Finds fs r.1 own parent
          (resolve parent (tree fs) (fs.itable cwd).inum path) jp name := by
  have hstart : ∀ fs1 ip,InodeInv fs1 (Pi.single ip 1+own)→Quiet own fs fs1→locks fs1=locks fs→
      ((fs1.dinode (fs1.itable ip).inum).type=.free→Lost (tree fs))→
      (fs1.itable ip).inum=(if path.head?=some slash then rootino else (fs.itable cwd).inum)→
      Ensures stop (namexLoop parent path.length fs1 ip path) fun r =>
        Quiet own fs r.1 ∧ locks r.1=locks fs ∧ match r.2 with
          | none => InodeInv r.1 own
          | some (jp,name) => Finds fs r.1 own parent
            (resolve parent (tree fs) (fs.itable cwd).inum path) jp name := by
    intro fs1 ip h1 hq hl hlost hin
    have ht := tree_quiet h hq
    have hloop := namexLoop_spec parent path.length path h1 (hs.quiet hq) (by rw [ht]; exact hlost)
      (by rw [ht]; exact hstop)
    rw [ht,hl,hin] at hloop
    refine hloop.imp ?_
    rintro ⟨fs2,r⟩ ⟨hq2,hl2,hr⟩
    refine ⟨hq.trans hq2,hl2,?_⟩
    cases r with
    | none => exact hr
    | some q =>
      obtain ⟨hi,hfo,hlo,hd⟩ := hr
      exact ⟨hi,hfo,by rw [ht] at hlo; exact hlo,hd⟩
  rw [namex]
  split_ifs with habs
  · refine (iget_spec h rootino hstop.noInodes).bind ?_
    rintro ⟨fs1,ip⟩ ⟨h1,hq1,hl1,hin1⟩
    refine hstart fs1 ip h1 hq1 hl1 (fun hf => .inl ?_) (by rw [if_pos habs]; exact hin1)
    have hin : (fs1.itable ip).inum=rootino := hin1
    rw [hin,hq1.disk.dinode] at hf
    exact tree_none hf
  · obtain ⟨h1,hq1,hl1,hin1⟩ := idup_spec h hcwd
    refine hstart _ cwd h1 hq1 hl1 (fun hf => ?_) (by rw [if_neg habs]; exact hin1)
    rw [hin1,hq1.disk.dinode] at hf
    exact absurd hf (hs.lives.held cwd hcwd)

lemma namei_spec (path : List UInt8) {cwd : ℕ} (h : InodeInv fs own) (hs : Sound fs own)
    (hcwd : 0<own cwd) (hstop : NamexStops (tree fs) stop) :
    Ensures stop (namei fs cwd path) fun r =>
      Quiet own fs r.1 ∧ locks r.1=locks fs ∧ match r.2 with
        | none => InodeInv r.1 own
        | some ip => InodeInv r.1 (Pi.single ip 1+own) ∧
          (∃ name,resolve false (tree fs) (fs.itable cwd).inum path=
            some ((r.1.itable ip).inum,name)) ∧
          ((r.1.dinode (r.1.itable ip).inum).type=.free→Lost (tree fs)) := by
  refine (namex_spec false path h hs hcwd hstop).bind ?_
  rintro ⟨fs1,r⟩ ⟨hq1,hl1,hr⟩
  refine ⟨hq1,hl1,?_⟩
  cases r with
  | none => exact hr
  | some q =>
    obtain ⟨hi,hfo,hlo,-⟩ := hr
    exact ⟨hi,⟨q.2,hfo⟩,hlo⟩

end Xv6Riscv.DirectorySpecs
