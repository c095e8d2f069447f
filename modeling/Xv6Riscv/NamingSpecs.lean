import Xv6Riscv.DirectorySpecs
import Xv6Riscv.FileSyscalls

/-!
# Specifications of the naming calls

What create, link and unlink do to the directory tree. Each of them either
leaves every file as it was or makes one edit of the tree, after which inodes
that have lost their last link and their last reference are freed.
-/

namespace Xv6Riscv.NamingSpecs

open Function
open Transition OutcomeLogic InodeLayer DirectoryLayer FileSyscalls BlockOwnership InodeTable
  FileTree FileView ParentLinks DirectorySpecs

variable {fs fs' : Fs} {own own' : ℕ→ℕ} {ip dp i d : ℕ} {stop : String→Prop} {fs1 : Fs}
  {ok : Edit→Prop}

structure Beside (fs fs' : Fs) (i : ℕ) : Prop where
  sb : fs'.sb=fs.sb
  file : ∀ j,j≠i→SameFile fs fs' j

lemma Beside.trans {fs2 : Fs} (h : Beside fs fs1 i) (h' : Beside fs1 fs2 i) : Beside fs fs2 i :=
  ⟨h'.sb.trans h.sb,fun j hj => (h.file j hj).trans (h'.file j hj)⟩

lemma beside_of_same (h : SameFiles fs fs') (i : ℕ) : Beside fs fs' i :=
  ⟨h.sb,fun j _ => h.file j⟩

lemma beside_of_updates (h : Updates fs fs' ip) : Beside fs fs' (fs.itable ip).inum :=
  ⟨h.sb,fun _ hj => sameFile_of_updates h hj⟩

lemma beside_of_frees (h : Frees fs fs' i) : Beside fs fs' i :=
  ⟨h.sb,fun _ hj => sameFile_of_frees h hj⟩

lemma Beside.tree (h : Beside fs fs' i) (hinv : InodeInv fs own) :
    FileView.tree fs'=update (FileView.tree fs) i (FileView.tree fs' i) := by
  funext j
  by_cases hj : j=i
  · rw [hj,update_self]
  · rw [update_of_ne hj,(h.file j hj).tree hinv]

lemma Beside.files (h : Beside fs fs' i) (hf : (fs.dinode i).type=.free)
    (hf' : (fs'.dinode i).type=.free) : SameFiles fs fs' := by
  refine ⟨h.sb,fun j => ?_⟩
  by_cases hj : j=i
  · subst hj
    refine ⟨hf'.trans hf.symm,fun hc => absurd hf hc,fun bn hbn => ?_⟩
    rw [occ,if_pos hf] at hbn
    exact absurd rfl hbn
  · exact h.file j hj

lemma formed_of_beside (h : Formed fs) (hb : Beside fs fs' i)
    (ha : (fs'.dinode i).type=.dir→(fs'.dinode i).size%direntSize=0)
    (hn : (fs'.dinode i).type≠.free→-2^15≤(fs'.dinode i).nlink ∧ (fs'.dinode i).nlink<2^15) :
    Formed fs' := by
  refine ⟨fun j hj => ?_,fun j hj => ?_,by rw [hb.sb]; exact h.count⟩
  · by_cases hji : j=i
    · subst hji
      exact ha hj
    · have hs := hb.file j hji
      rw [hs.type] at hj
      rw [(fields_eq (hs.fields (by rw [hj]; decide))).2.2]
      exact h.aligned j hj
  · by_cases hji : j=i
    · subst hji
      exact hn hj
    · have hs := hb.file j hji
      rw [hs.type] at hj
      rw [(fields_eq (hs.fields hj)).2.1]
      exact h.shorts j hj

lemma lives_of_beside (h : Lives fs own) (hb : Beside fs fs' i) (hk : Kept own fs fs')
    (hi : (fs'.dinode i).type≠.free→(fs'.dinode i).nlink=0→
      ∃ ip,0<own ip ∧ (fs'.itable ip).inum=i ∧ (fs'.itable ip).valid=true) : Lives fs' own := by
  refine ⟨fun ip hip => ?_,fun j hj hn => ?_⟩
  · rw [(hk ip hip).inum,(hk ip hip).type]
    exact h.held ip hip
  · by_cases hji : j=i
    · subst hji
      exact hi hj hn
    · have hs := hb.file j hji
      rw [hs.type] at hj
      rw [(fields_eq (hs.fields hj)).2.1] at hn
      obtain ⟨ip,hip,hin,hv⟩ := h.unlinked j hj hn
      exact ⟨ip,hip,(hk ip hip).inum.trans hin,(hk ip hip).valid hv⟩

/-- Assigning fields of a loaded inode other than type, size and addresses, and
writing it back: what iupdate leaves. -/
structure Relinks (fs fs' : Fs) (i : ℕ) (f : Dinode→Dinode) : Prop where
  beside : Beside fs fs' i
  dinode : fs'.dinode i=f (fs.dinode i)
  occ : BlockOwnership.occ fs'=BlockOwnership.occ fs
  data : fs'.data=fs.data

lemma relink_spec (h : InodeInv fs own) (hip : 0<own ip) (hv : (fs.itable ip).valid=true)
    {f : Dinode→Dinode} (hf : ∀ d,(f d).type=d.type ∧ (f d).addrs=d.addrs ∧ (f d).size=d.size) :
    InodeInv (iupdate (fs.edit ip f) ip) own ∧ Kept own fs (iupdate (fs.edit ip f) ip) ∧
      locks (iupdate (fs.edit ip f) ip)=locks fs ∧
      Relinks fs (iupdate (fs.edit ip f) ip) (fs.itable ip).inum f := by
  obtain ⟨ht,ha,hs⟩ := hf (fs.itable ip).copy
  obtain ⟨h1,hu,hocc⟩ := modify_spec h hip hv ht ha hs
  have hcopy := (h.loaded ip hip hv).1
  refine ⟨h1,kept_of_updates h hip hv hu h1 ?_,locks_of_updates hu,beside_of_updates hu,?_,hocc,rfl⟩
  · rw [iupdate_itable,edit_self]
    exact ht
  · have hd := iupdate_self (fs.edit ip f) ip
    rw [edit_self] at hd
    rw [hd,hcopy]

lemma Relinks.node {f : Dinode→Dinode} (h : Relinks fs fs' i f)
    (ht : (f (fs.dinode i)).type=(fs.dinode i).type)
    (hs : (f (fs.dinode i)).size=(fs.dinode i).size) :
    FileView.node fs' i={FileView.node fs i with nlink := (f (fs.dinode i)).nlink} := by
  have he : entries fs' i=entries fs i := by
    rw [entries,entries,h.dinode,hs]
    refine List.map_congr_left fun k _ => ?_
    rw [entryAt,entryAt,h.occ,h.data]
  rw [FileView.node,FileView.node,he,h.dinode,ht]

lemma node_of_places {k : ℕ} {de : Dirent} (h : Places fs fs' i k de)
    (hd : (fs.dinode i).type=.dir) :
    FileView.node fs' i=
      {FileView.node fs i with entries := place (FileView.entries fs i) k de} := by
  obtain ⟨a,size,hdi,-⟩ := h.fields
  have ht : (fs'.dinode i).type=.dir := by
    rw [hdi]
    exact hd
  have hn : (fs'.dinode i).nlink=(fs.dinode i).nlink := by rw [hdi]
  grind [FileView.node,h.entries]

def OnlyFree (_ : Tree) : Edit→Prop
  | .free _ => True
  | _ => False

/-- The tree changes by at most one permitted edit, and then inodes are freed. -/
def Edited (ok : Edit→Prop) (fs fs' : Fs) : Prop :=
  ∃ u,(u=tree fs ∨ ∃ e,ok e ∧ Step fs.sb.ninodes (tree fs) e u) ∧
    Steps fs.sb.ninodes OnlyFree u (tree fs')

lemma Edited.of_same (h : SameFiles fs fs') (hinv : InodeInv fs own) :
    Edited ok fs fs' := ⟨tree fs,.inl rfl,by rw [h.tree hinv]; exact .refl _⟩

lemma Edited.trans_same (h : SameFiles fs fs1) (hinv : InodeInv fs own) (h' : Edited ok fs1 fs') :
    Edited ok fs fs' := by
  rw [Edited,h.tree hinv,h.sb] at h'
  exact h'

lemma Edited.trans_free (h : Edited ok fs fs1)
    (h' : Steps fs.sb.ninodes OnlyFree (tree fs1) (tree fs')) : Edited ok fs fs' := by
  obtain ⟨u,hu,hs⟩ := h
  exact ⟨u,hu,hs.trans h'⟩

variable (h : InodeInv fs (Pi.single ip 1+own))

include h

/-- Dropping a reference: either nothing on the disk changes or the inode is
freed, and the remaining references keep what they rely on. -/
lemma drop_lives (hf : Formed fs) (hl : Lives fs (Pi.single ip 1+own)) (hk : Kept own fs fs')
    (hcase : ¬LastLink fs own ip ∧ SameDisk fs fs' ∨
      LastLink fs own ip ∧ Frees fs fs' (fs.itable ip).inum) :
    Sound fs' own ∧ fs'.sb=fs.sb ∧ Steps fs.sb.ninodes OnlyFree (tree fs) (tree fs') := by
  have hpos := single_pos own ip
  rcases hcase with ⟨hlast,hd⟩ | ⟨⟨h0,hv,hn⟩,hfr⟩
  · have hsame := sameFiles_of_disk hd
    refine ⟨⟨hf.same hsame,?_⟩,hd.sb,by rw [hsame.tree h]; exact .refl _⟩
    refine Lives.same ⟨fun jp hj => hl.held jp (single_add_pos hj),fun i hi hn => ?_⟩ hsame hk
    obtain ⟨jp,hj,hin,hv⟩ := hl.unlinked i hi hn
    by_cases hown : 0<own jp
    · exact ⟨jp,hown,hin,hv⟩
    · have hjp : jp=ip := by
        by_contra hc
        grind [single_add_of_ne]
      subst hjp
      exact absurd ⟨by omega,hv,by rw [hin]; exact hn⟩ hlast
  · have hb := beside_of_frees hfr
    have ht := h.loaded ip hpos hv
    refine ⟨⟨formed_of_beside hf hb (fun hc => ?_) fun hc => absurd hfr.free hc,?_⟩,hfr.sb,?_⟩
    · grind [hfr.free]
    · refine ⟨fun jp hj => ?_,fun j hj hjn => ?_⟩
      · rw [(hk jp hj).inum,(hk jp hj).type]
        exact hl.held jp (single_add_pos hj)
      · have hji : j≠(fs.itable ip).inum := by
          rintro rfl
          exact hj hfr.free
        rw [hfr.dinode j hji] at hj hjn
        obtain ⟨jp,hjp,hin,hv'⟩ := hl.unlinked j hj hjn
        have hne : jp≠ip := by grind
        rw [single_add_of_ne own hne] at hjp
        exact ⟨jp,hjp,(hk jp hjp).inum.trans hin,(hk jp hjp).valid hv'⟩
    · rw [tree_of_frees hfr h]
      have hfree : Step fs.sb.ninodes (tree fs) (.free (fs.itable ip).inum) _ :=
        .free (tree_some (by rw [←ht.1]; exact ht.2)) hn
      refine Steps.single ?_ hfree
      trivial

lemma iput_lives (hf : Formed fs) (hl : Lives fs (Pi.single ip 1+own)) :
    Ensures stop (iput fs ip) fun fs' =>
      InodeInv fs' own ∧ Kept own fs fs' ∧ locks fs'=locks fs ∧ Sound fs' own ∧ fs'.sb=fs.sb ∧
        Steps fs.sb.ninodes OnlyFree (tree fs) (tree fs') := by
  refine (iput_spec h).imp ?_
  rintro fs' ⟨h',hk,hlock,hcase⟩
  exact ⟨h',hk,hlock,drop_lives h hf hl hk hcase⟩

lemma iunlockput_lives (hf : Formed fs) (hl : Lives fs (Pi.single ip 1+own))
    (hstop : stop "iunlock") : Ensures stop (iunlockput fs ip) fun fs' =>
      InodeInv fs' own ∧ Kept own fs fs' ∧ locks fs'=update (locks fs) ip false ∧
        Sound fs' own ∧ fs'.sb=fs.sb ∧ Steps fs.sb.ninodes OnlyFree (tree fs) (tree fs') := by
  refine (iunlockput_spec h hstop).imp ?_
  rintro fs' ⟨h',hk,hlock,hcase⟩
  exact ⟨h',hk,hlock,drop_lives h hf hl hk hcase⟩

omit h

section Create

variable {type : FileType} {fs2 : Fs} {name : List UInt8} {nlink : ℤ}

/-- A new inode on its way: allocated, locked and not yet entered, while every
other file is as it was. -/
structure Making (fs fs' : Fs) (own : ℕ→ℕ) (dp ip : ℕ) (type : FileType) : Prop where
  inv : InodeInv fs' (Pi.single ip 1+(Pi.single dp 1+own))
  kept : Kept (Pi.single dp 1+own) fs fs'
  beside : Beside fs fs' (fs'.itable ip).inum
  free : (fs.dinode (fs'.itable ip).inum).type=.free
  valid : (fs'.itable ip).valid=true
  type : (fs'.dinode (fs'.itable ip).inum).type=type
  nlink : (fs'.dinode (fs'.itable ip).inum).nlink=1
  aligned : (fs'.dinode (fs'.itable ip).inum).size%direntSize=0
  lock : locks fs'=update (locks fs) ip true

lemma Making.held : 0<(Pi.single ip 1+(Pi.single dp 1+own) : ℕ→ℕ) ip := by
  rw [single_add_self]
  omega

lemma Making.sound (h : Making fs fs' own dp ip type) (hs : Sound fs own)
    (hdp : (fs.dinode (fs.itable dp).inum).type=.dir) (ht : type≠.free) :
    Formed fs' ∧ Lives fs' (Pi.single ip 1+(Pi.single dp 1+own)) := by
  have hnl := h.nlink
  refine ⟨formed_of_beside hs.formed h.beside (fun _ => h.aligned) fun _ => by rw [hnl]; decide,?_⟩
  have hl : Lives fs' own := by
    refine lives_of_beside hs.lives h.beside (h.kept.mono fun jp hj => single_add_pos hj)
      fun _ hc => ?_
    rw [hnl] at hc
    exact absurd hc (by decide)
  obtain ⟨hin,-,hty⟩ := h.kept dp (single_pos ..)
  refine (hl.add ?_).add ?_
  · rw [hin,hty,hdp]
    decide
  · rw [h.type]
    exact ht

lemma Making.next {fs1 : Fs} (h : Making fs fs1 own dp ip type)
    (h2 : InodeInv fs2 (Pi.single ip 1+(Pi.single dp 1+own)))
    (hk : Kept (Pi.single ip 1+(Pi.single dp 1+own)) fs1 fs2) (hl : locks fs2=locks fs1)
    (hb : Beside fs1 fs2 (fs1.itable ip).inum) (hn : (fs2.dinode (fs1.itable ip).inum).nlink=1)
    (ha : (fs2.dinode (fs1.itable ip).inum).size%direntSize=0) : Making fs fs2 own dp ip type := by
  obtain ⟨hin,hv,ht⟩ := hk ip Making.held
  refine ⟨h2,h.kept.trans (hk.mono fun jp hj => single_add_pos hj),?_,?_,hv h.valid,?_,?_,?_,
    hl.trans h.lock⟩
  all_goals rw [hin]
  · exact h.beside.trans hb
  · exact h.free
  · exact ht.trans h.type
  · exact hn
  · exact ha

lemma Making.same {fs1 : Fs} (h : Making fs fs1 own dp ip type) (ht : type≠.free)
    (h2 : InodeInv fs2 (Pi.single ip 1+(Pi.single dp 1+own)))
    (hk : Kept (Pi.single ip 1+(Pi.single dp 1+own)) fs1 fs2) (hl : locks fs2=locks fs1)
    (hf : SameFiles fs1 fs2) : Making fs fs2 own dp ip type := by
  obtain ⟨-,hn,hsz⟩ := fields_eq ((hf.file (fs1.itable ip).inum).fields (by rw [h.type]; exact ht))
  refine h.next h2 hk hl (beside_of_same hf _) ?_ ?_
  · rw [hn]
    exact h.nlink
  · rw [hsz]
    exact h.aligned

lemma Making.places {fs1 : Fs} {k : ℕ} {de : Dirent} (h : Making fs fs1 own dp ip type)
    (h2 : InodeInv fs2 (Pi.single ip 1+(Pi.single dp 1+own)))
    (hk : Kept (Pi.single ip 1+(Pi.single dp 1+own)) fs1 fs2) (hl : locks fs2=locks fs1)
    (hsb : fs2.sb=fs1.sb) (hp : Places fs1 fs2 (fs1.itable ip).inum k de) :
    Making fs fs2 own dp ip type := by
  obtain ⟨a,size,hd,hsz⟩ := hp.fields
  refine h.next h2 hk hl ⟨hsb,hp.others⟩ ?_ ?_
  · rw [hd]
    exact h.nlink
  · rw [hd]
    exact hsz

lemma dotEntries_spec {fs1 : Fs} (h : Making fs fs1 own dp ip type) (hs : Sound fs own)
    (hdp : (fs.dinode (fs.itable dp).inum).type=.dir) (ht : type≠.free)
    (hempty : (fs1.dinode (fs1.itable ip).inum).size=0) (hstop : stop "iget: no inodes") :
    Ensures stop (dotEntries fs1 dp ip type) fun r =>
      Making fs r.1 own dp ip type ∧ (r.1.itable ip).inum=(fs1.itable ip).inum ∧
        (r.2=true→type=.dir→
          entries r.1 (fs1.itable ip).inum=dotNode (fs1.itable ip).inum (fs.itable dp).inum) := by
  rw [dotEntries]
  split_ifs with hdir
  · subst hdir
    obtain ⟨hf1,hl1⟩ := h.sound hs hdp ht
    have hrange : ∀ {fs2 : Fs},Making fs fs2 own dp ip .dir→(fs2.itable ip).inum<65536 := by
      intro fs2 h2
      obtain ⟨hf2,-⟩ := h2.sound hs hdp ht
      have := (h2.inv.range _ (by rw [h2.type]; exact ht)).2
      have := hf2.count
      omega
    have hopen : ∀ {fs2 : Fs},Making fs fs2 own dp ip .dir→
        OpenDir fs2 (Pi.single ip 1+(Pi.single dp 1+own)) ip :=
      fun h2 => ⟨Making.held,h2.valid,h2.type⟩
    have hes : ([] : List Dirent)=entries fs1 (fs1.itable ip).inum := by
      rw [entries,hempty]
      rfl
    refine (dirlink_spec h.inv (hopen h) hf1 hl1 dot (hrange h) hes hstop).bind ?_
    rintro ⟨fs2,ok⟩ ⟨h2,hk2,hlk2,hcase⟩
    have hin2 : (fs2.itable ip).inum=(fs1.itable ip).inum := (hk2 ip Making.held).inum
    rcases hcase with ⟨rfl,hsame⟩ | ⟨rfl,hsb,-,k,hroom,hp⟩
    · exact ⟨h.same ht h2 hk2 hlk2 hsame,hin2,fun h => absurd h Bool.false_ne_true⟩
    · have hm2 : Making fs fs2 own dp ip .dir := h.places h2 hk2 hlk2 hsb hp
      obtain ⟨hf2,hl2⟩ := hm2.sound hs hdp ht
      have hk0 : k=0 := by
        rcases hroom with ⟨e,he,-⟩ | hk
        · cases he
        · exact hk
      have hes2 : [⟨(fs1.itable ip).inum,strncpy dot⟩]=entries fs2 (fs2.itable ip).inum := by
        rw [hin2,hp.entries,←hes,hk0]
        rfl
      have hdin : (fs2.itable dp).inum=(fs.itable dp).inum :=
        (hm2.kept dp (single_pos ..)).inum
      have hdlt : (fs2.itable dp).inum<65536 := by
        have htd := hl2.held dp (single_add_pos (single_pos ..))
        have := (hm2.inv.range _ htd).2
        have := hf2.count
        omega
      simp only [if_true]
      refine (dirlink_spec h2 (hopen hm2) hf2 hl2 dotdot hdlt hes2 hstop).imp ?_
      rintro ⟨fs3,ok⟩ ⟨h3,hk3,hlk3,hcase⟩
      have hin3 := (hk3 ip Making.held).inum
      rcases hcase with ⟨rfl,hsame⟩ | ⟨rfl,hsb3,-,k3,hroom3,hp3⟩
      · exact ⟨hm2.same ht h3 hk3 hlk3 hsame,hin3.trans hin2,fun h => absurd h Bool.false_ne_true⟩
      · refine ⟨hm2.places h3 hk3 hlk3 hsb3 hp3,hin3.trans hin2,fun _ _ => ?_⟩
        have hk1 : k3=1 := by
          rcases hroom3 with ⟨e,he,h0⟩ | hk
          · have hpos := (h.inv.range _ (by rw [h.type]; exact ht)).1
            cases k3 with
            | zero =>
              simp only [List.getElem?_cons_zero,Option.some.injEq] at he
              rw [←he] at h0
              simp only at h0
              omega
            | succ k => exact absurd he (by simp)
          · exact hk
        have hent := hp3.entries
        rw [←hes2,hk1,hin2,hdin] at hent
        rw [hent]
        rfl
  · exact ⟨h,rfl,fun _ hc => absurd hc hdir⟩

/-- A new inode has been entered into its parent, whose link count is given. -/
structure Entered (fs fs' : Fs) (d i : ℕ) (name : List UInt8) (type : FileType) (nlink : ℤ) :
    Prop where
  sb : fs'.sb=fs.sb
  others : ∀ j,j≠d→j≠i→SameFile fs fs' j
  ne : i≠d
  free : (fs.dinode i).type=.free
  kind : (fs'.dinode i).type=type
  dir : (fs'.dinode d).type=.dir
  aligned : (fs'.dinode i).size%direntSize=0 ∧ (fs'.dinode d).size%direntSize=0
  new : node fs' i=⟨type=.dir,1,if type=.dir then dotNode i d else []⟩
  parent : ∃ k,Room (entries fs d) k ∧ Absent (entries fs d) name ∧
    node fs' d=⟨true,nlink,place (entries fs d) k ⟨i,strncpy name⟩⟩

lemma enter_spec {fs1 : Fs} (h : Making fs fs1 own dp ip type) (hinv : InodeInv fs own')
    (hs : Sound fs own) (hdp : OpenDir fs (Pi.single dp 1+own) dp) (ht : type≠.free)
    (hempty : (fs1.dinode (fs1.itable ip).inum).size=0) (hstop : stop "iget: no inodes") :
    Ensures stop (enter fs1 dp ip type name) fun r =>
      (r.2=false ∧ Making fs r.1 own dp ip type) ∨
      (r.2=true ∧ InodeInv r.1 (Pi.single ip 1+(Pi.single dp 1+own)) ∧
        Kept (Pi.single dp 1+own) fs r.1 ∧ locks r.1=update (locks fs) ip true ∧
        (r.1.itable ip).valid=true ∧
        Entered fs r.1 (fs.itable dp).inum (r.1.itable ip).inum name type
          (fs.dinode (fs.itable dp).inum).nlink) := by
  refine (dotEntries_spec h hs hdp.dir ht hempty hstop).bind ?_
  rintro ⟨fs2,ok⟩ ⟨hm2,hin2,hent⟩
  cases ok with
  | false => exact .inl ⟨rfl,hm2⟩
  | true =>
    have hm : Making fs fs2 own dp ip type := hm2
    have hin : (fs2.itable ip).inum=(fs1.itable ip).inum := hin2
    rw [←hin] at hent
    have hdpos : 0<(Pi.single ip 1+(Pi.single dp 1+own) : ℕ→ℕ) dp :=
      single_add_pos (single_pos ..)
    obtain ⟨hf2,hl2⟩ := hm.sound hs hdp.dir ht
    obtain ⟨hdin,hdv,hdt⟩ := hm.kept dp hdp.held
    have hdir2 : (fs2.dinode (fs2.itable dp).inum).type=.dir := by
      rw [hdin,hdt]
      exact hdp.dir
    have hopen : OpenDir fs2 (Pi.single ip 1+(Pi.single dp 1+own)) dp :=
      ⟨hdpos,hdv hdp.valid,hdir2⟩
    have hne : (fs2.itable ip).inum≠(fs.itable dp).inum := by
      intro hc
      have := hm.free
      rw [hc,hdp.dir] at this
      exact absurd this (by decide)
    have hlt : (fs2.itable ip).inum<65536 := by
      have := (hm.inv.range _ (by rw [hm.type]; exact ht)).2
      have := hf2.count
      omega
    have hsd := hm.beside.file _ (Ne.symm hne)
    have hnode := hsd.node hinv (by rw [hdp.dir]; decide)
    have hes : entries fs (fs.itable dp).inum=entries fs2 (fs2.itable dp).inum := by
      have := congrArg Node.entries hnode
      simp only [node,hdp.dir,hdin▸hdir2,if_true] at this
      rw [hdin,this]
    simp only [if_true]
    refine (dirlink_spec hm.inv hopen hf2 hl2 name hlt hes hstop).imp ?_
    rintro ⟨fs3,ok⟩ ⟨h3,hk3,hlk3,hcase⟩
    obtain ⟨hin3,hv3,ht3⟩ := hk3 ip Making.held
    rcases hcase with ⟨rfl,hsame⟩ | ⟨rfl,hsb,habs,k,hroom,hp⟩
    · exact .inl ⟨rfl,hm.same ht h3 hk3 hlk3 hsame⟩
    · refine .inr ⟨rfl,h3,hm.kept.trans (hk3.mono fun jp hj => single_add_pos hj),
        hlk3.trans hm.lock,hv3 hm.valid,?_⟩
      have hin3' : (fs3.itable ip).inum=(fs2.itable ip).inum := hin3
      rw [hdin] at hp hdir2
      rw [hin3']
      have hsi := hp.others _ hne
      have hti : (fs3.dinode (fs2.itable ip).inum).type=type := ht3.trans hm.type
      obtain ⟨a,size,hdi,hsz⟩ := hp.fields
      refine ⟨hsb.trans hm.beside.sb,fun j hj hji => ?_,hne,hm.free,hti,?_,⟨?_,?_⟩,?_,
        k,hroom,habs,?_⟩
      · exact (hm.beside.file j hji).trans (hp.others j hj)
      · rw [hdi]
        exact hdir2
      · rw [(fields_eq (hsi.fields (by rw [hm.type]; exact ht))).2.2]
        exact hm.aligned
      · rw [hdi]
        exact hsz
      · rw [hsi.node hm.inv (by rw [hm.type]; exact ht)]
        by_cases hdir : type=.dir
        · rw [node,hm.type,hm.nlink,if_pos hdir,if_pos hdir,hent rfl hdir]
        · rw [node,hm.type,hm.nlink,if_neg hdir,if_neg hdir]
      · rw [node_of_places hp hdir2,hnode]
        simp only [node,hdp.dir,decide_true]
        rw [hes,hdin]

lemma Entered.step (h : Entered fs fs' d i name type nlink) (hinv : InodeInv fs own)
    (hinv' : InodeInv fs' own') (hd : (fs.dinode d).type=.dir) (ht : type≠.free)
    (hn : nlink=if type=.dir then short ((fs.dinode d).nlink+1)
      else (fs.dinode d).nlink) :
    Step fs.sb.ninodes (tree fs) (.create d i (type=.dir)) (tree fs') := by
  obtain ⟨k,hroom,habs,hpar⟩ := h.parent
  have htd : tree fs d=some (node fs d) := tree_some (by rw [hd]; decide)
  have hent : (node fs d).entries=entries fs d := if_pos hd
  have htree : tree fs'=update (update (tree fs) d (some
      ⟨true,if decide (type=.dir) then short ((node fs d).nlink+1) else (node fs d).nlink,
        place (node fs d).entries k ⟨i,strncpy name⟩⟩)) i
      (some ⟨decide (type=.dir),1,if decide (type=.dir) then dotNode i d else []⟩) := by
    funext j
    by_cases hji : j=i
    · subst hji
      rw [update_self,tree_some (by rw [h.kind]; exact ht),h.new]
      simp only [decide_eq_true_eq]
    · rw [update_of_ne hji]
      by_cases hjd : j=d
      · subst hjd
        rw [update_self,tree_some (by rw [h.dir]; decide),hpar,hent,hn]
        simp only [decide_eq_true_eq]
        rfl
      · rw [update_of_ne hjd,(h.others j hjd hji).tree hinv]
  rw [htree]
  have hr := hinv'.range i (by rw [h.kind]; exact ht)
  rw [h.sb] at hr
  exact .create htd (decide_eq_true hd) (tree_none h.free) hr (by rw [hent]; exact hroom)
    (by rw [hent]; exact habs)

lemma Entered.relink {fs1 : Fs} {f : Dinode→Dinode} (h : Entered fs fs1 d i name type nlink)
    (hinv : InodeInv fs1 own) (ht : type≠.free) (hr : Relinks fs1 fs' d f)
    (hft : ∀ x,(f x).type=x.type ∧ (f x).addrs=x.addrs ∧
      (f x).size=x.size) : Entered fs fs' d i name type (f (fs1.dinode d)).nlink := by
  have hsi := hr.beside.file i h.ne
  have hti : (fs1.dinode i).type≠.free := by
    rw [h.kind]
    exact ht
  obtain ⟨h1,-,h3⟩ := hft (fs1.dinode d)
  obtain ⟨k,hroom,habs,hpar⟩ := h.parent
  refine ⟨hr.beside.sb.trans h.sb,fun j hj hji => (h.others j hj hji).trans (hr.beside.file j hj),
    h.ne,h.free,hsi.type.trans h.kind,?_,⟨?_,?_⟩,(hsi.node hinv hti).trans h.new,k,hroom,habs,?_⟩
  · rw [hr.dinode,h1]
    exact h.dir
  · rw [(fields_eq (hsi.fields hti)).2.2]
    exact h.aligned.1
  · rw [hr.dinode,h3]
    exact h.aligned.2
  · rw [hr.node h1 h3,hpar]

lemma Entered.sound (h : Entered fs fs' (fs.itable dp).inum (fs'.itable ip).inum name type nlink)
    (hs : Sound fs own) (hk : Kept (Pi.single dp 1+own) fs fs') (ht : type≠.free)
    (hdv : (fs.itable dp).valid=true) (hn : -2^15≤nlink ∧ nlink<2^15) :
    Formed fs' ∧ Lives fs' (Pi.single ip 1+(Pi.single dp 1+own)) := by
  have hdpos := single_pos own dp
  obtain ⟨k,-,-,hpar⟩ := h.parent
  have hni : (fs'.dinode (fs'.itable ip).inum).nlink=1 := congrArg Node.nlink h.new
  have hnd : (fs'.dinode (fs.itable dp).inum).nlink=nlink := congrArg Node.nlink hpar
  have hother : ∀ j,j≠(fs.itable dp).inum→j≠(fs'.itable ip).inum→(fs'.dinode j).type≠.free→
      (fs.dinode j).type=(fs'.dinode j).type ∧ (fs'.dinode j).nlink=(fs.dinode j).nlink ∧
        (fs'.dinode j).size=(fs.dinode j).size := by
    intro j hj hji htj
    have hsj := h.others j hj hji
    rw [hsj.type] at htj
    obtain ⟨h1,h2,h3⟩ := fields_eq (hsj.fields htj)
    exact ⟨h1.symm,h2,h3⟩
  refine ⟨⟨fun j hj => ?_,fun j hj => ?_,by rw [h.sb]; exact hs.formed.count⟩,
    ⟨fun jp hj => ?_,fun j hj hjn => ?_⟩⟩
  · by_cases hjd : j=(fs.itable dp).inum
    · rw [hjd]
      exact h.aligned.2
    · by_cases hji : j=(fs'.itable ip).inum
      · rw [hji]
        exact h.aligned.1
      · grind [hs.formed.aligned]
  · by_cases hjd : j=(fs.itable dp).inum
    · rw [hjd,hnd]
      exact hn
    · by_cases hji : j=(fs'.itable ip).inum
      · rw [hji,hni]
        decide
      · obtain ⟨h1,h2,-⟩ := hother j hjd hji hj
        rw [h2]
        exact hs.formed.shorts j (by rw [h1]; exact hj)
  · by_cases hjp : jp=ip
    · rw [hjp,h.kind]
      exact ht
    · rw [single_add_of_ne _ hjp] at hj
      rw [(hk jp hj).inum,(hk jp hj).type]
      by_cases hjd : jp=dp
      · have hd := h.dir
        obtain ⟨-,-,htd⟩ := hk dp hdpos
        grind
      · grind [single_add_of_ne,hs.lives.held]
  · by_cases hjd : j=(fs.itable dp).inum
    · obtain ⟨hin,hv,-⟩ := hk dp hdpos
      exact ⟨dp,single_add_pos hdpos,by rw [hin,hjd],hv hdv⟩
    · by_cases hji : j=(fs'.itable ip).inum
      · grind
      · obtain ⟨h1,h2,-⟩ := hother j hjd hji hj
        rw [h2] at hjn
        obtain ⟨jp,hjp,hin,hv⟩ := hs.lives.unlinked j (by rw [h1]; exact hj) hjn
        have hk' := hk jp (single_add_pos hjp)
        exact ⟨jp,single_add_pos (single_add_pos hjp),hk'.inum.trans hin,hk'.valid hv⟩

lemma beside_setDinode (fs : Fs) (i : ℕ) (x : Dinode) : Beside fs (fs.setDinode i x) i := by
  refine ⟨rfl,fun j hj => ?_⟩
  have hd : (fs.setDinode i x).dinode j=fs.dinode j := update_of_ne hj _ _
  refine ⟨by rw [hd],fun _ => by rw [hd],fun bn _ => ⟨?_,rfl⟩⟩
  rw [occ,occ,hd]
  rfl

lemma making_of_ialloc {fs1 fs2 : Fs} {major minor : ℤ}
    (hk1 : Kept (Pi.single dp 1+own) fs fs1) (hl1 : locks fs1=locks fs)
    (hfree : (fs.dinode (fs1.itable ip).inum).type=.free)
    (hd1 : SameDisk (fs.setDinode (fs1.itable ip).inum (.blank type)) fs1)
    (h2 : InodeInv fs2 (Pi.single ip 1+(Pi.single dp 1+own)))
    (hq2 : Quiet (Pi.single ip 1+(Pi.single dp 1+own)) fs1 fs2)
    (hv2 : (fs2.itable ip).valid=true) (hl2 : locks fs2=update (locks fs1) ip true) :
    Making fs (iupdate (fs2.edit ip fun x =>
      {x with major := major,minor := minor,nlink := 1}) ip) own dp ip type ∧
    ((iupdate (fs2.edit ip fun x =>
      {x with major := major,minor := minor,nlink := 1}) ip).dinode (fs1.itable ip).inum).size=0 ∧
    ((iupdate (fs2.edit ip fun x =>
      {x with major := major,minor := minor,nlink := 1}) ip).itable ip).inum=
        (fs1.itable ip).inum := by
  obtain ⟨h3,hk3,hl3,hr⟩ := relink_spec h2 Making.held hv2
    (f:=fun x => {x with major := major,minor := minor,nlink := 1}) fun _ => ⟨rfl,rfl,rfl⟩
  have hin2 := (hq2.kept ip Making.held).inum
  obtain ⟨hin3,hv3,-⟩ := hk3 ip Making.held
  have hin := hin3.trans hin2
  have hblank : fs2.dinode (fs1.itable ip).inum=.blank type := by
    rw [hq2.disk.dinode,hd1.dinode]
    exact update_self _ _ _
  have hdin := hr.dinode
  rw [hin2,hblank] at hdin
  rw [hin2] at hr
  refine ⟨⟨h3,?_,?_,?_,hv3 hv2,?_,?_,?_,hl3.trans (by rw [hl2,hl1])⟩,by rw [hdin]; rfl,hin⟩
  · exact (hk1.trans (hq2.kept.mono fun jp hj => single_add_pos hj)).trans
      (hk3.mono fun jp hj => single_add_pos hj)
  · rw [hin]
    exact ((beside_setDinode fs _ _).trans (beside_of_same ((sameFiles_of_disk hd1).trans
      (sameFiles_of_disk hq2.disk)) _)).trans hr.beside
  · rw [hin]
    exact hfree
  all_goals rw [hin,hdin]
  all_goals rfl

lemma giveUp_spec {fs1 : Fs} (h : Making fs fs1 own dp ip type) (hs : Sound fs own)
    (hdp : OpenDir fs (Pi.single dp 1+own) dp) (hunlocked : locks fs ip=false)
    (hstop : stop "iunlock") :
    Ensures stop (do
      let fs ← iunlockput (iupdate (fs1.edit ip fun x => {x with nlink := 0}) ip) ip
      let fs ← iunlockput fs dp
      pure (fs,(none : Option ℕ))) fun r =>
      r.2=none ∧ Kept own fs r.1 ∧ InodeInv r.1 own ∧ SameFiles fs r.1 ∧
        locks r.1=update (locks fs) dp false := by
  obtain ⟨h2,hk2,hl2,hr⟩ := relink_spec h.inv Making.held h.valid
    (f:=fun x => {x with nlink := 0}) fun _ => ⟨rfl,rfl,rfl⟩
  obtain ⟨hin2,hv2,-⟩ := hk2 ip Making.held
  refine (iunlockput_spec h2 hstop).bind ?_
  rintro fs3 ⟨h3,hk3,hl3,hcase⟩
  have hz : (Pi.single dp 1+own : ℕ→ℕ) ip=0 := by
    by_contra hc
    have hpos : 0<(Pi.single dp 1+own : ℕ→ℕ) ip := Nat.pos_of_ne_zero hc
    have hin := (h.kept ip hpos).inum
    have hfree := h.free
    rw [hin] at hfree
    have hlive := @Lives.add fs own dp hs.lives (by rw [hdp.dir]; decide)
    exact hlive.held ip hpos hfree
  have hdin := hr.dinode
  rcases hcase with ⟨hlast,-⟩ | ⟨-,hfr⟩
  · refine absurd ⟨hz,hv2 h.valid,?_⟩ hlast
    rw [hin2,hdin]
  · rw [hin2] at hfr
    have hsame : SameFiles fs fs3 :=
      ((h.beside.trans hr.beside).trans (beside_of_frees hfr)).files h.free hfr.free
    have hkept : Kept (Pi.single dp 1+own) fs fs3 :=
      (h.kept.trans (hk2.mono fun jp hj => single_add_pos hj)).trans hk3
    have hs3 := hs.same hsame (hkept.mono fun jp hj => single_add_pos hj)
    refine (iunlockput_quiet h3 hs3.lives le_rfl hstop).bind ?_
    rintro fs4 ⟨h4,hq4,hl4⟩
    refine ⟨rfl,(hkept.mono fun jp hj => single_add_pos hj).trans hq4.kept,h4,
      hsame.trans (sameFiles_of_disk hq4.disk),?_⟩
    show locks fs4=_
    rw [hl4,hl3,hl2,h.lock,relock hunlocked]

lemma short_range (x : ℤ) : -2^15≤ short x ∧ short x<2^15 := by
  rw [short]
  omega

lemma entered_spec {fs1 : Fs} (hinv : InodeInv fs own') (hs : Sound fs own)
    (hdp : OpenDir fs (Pi.single dp 1+own) dp) (ht : type≠.free)
    (h1 : InodeInv fs1 (Pi.single ip 1+(Pi.single dp 1+own)))
    (hk1 : Kept (Pi.single dp 1+own) fs fs1) (hl1 : locks fs1=update (locks fs) ip true)
    (hv1 : (fs1.itable ip).valid=true)
    (he : Entered fs fs1 (fs.itable dp).inum (fs1.itable ip).inum name type
      (fs.dinode (fs.itable dp).inum).nlink) (hstop : stop "iunlock") : Ensures stop (do
      let fs := if type=.dir then addLink fs1 dp 1 else fs1
      let fs ← iunlockput fs dp
      pure (fs,some ip)) fun r =>
      r.2=some ip ∧ Kept own fs r.1 ∧ r.1.sb=fs.sb ∧ InodeInv r.1 (Pi.single ip 1+own) ∧
        Sound r.1 (Pi.single ip 1+own) ∧ (r.1.itable ip).valid=true ∧
        (r.1.dinode (r.1.itable ip).inum).type=type ∧
        locks r.1=update (update (locks fs) ip true) dp false ∧
        Edited (fun e => ∃ i,e=.create (fs.itable dp).inum i (type=.dir)) fs r.1 := by
  have hdpos : 0<(Pi.single ip 1+(Pi.single dp 1+own) : ℕ→ℕ) dp :=
    single_add_pos (single_pos ..)
  obtain ⟨hdin,hdv,-⟩ := hk1 dp hdp.held
  obtain ⟨fs2,hfs2,h2,hk2,hl2,hv2,hin2,he2⟩ : ∃ fs2,
      (if type=.dir then addLink fs1 dp 1 else fs1)=fs2 ∧
      InodeInv fs2 (Pi.single ip 1+(Pi.single dp 1+own)) ∧
      Kept (Pi.single ip 1+(Pi.single dp 1+own)) fs1 fs2 ∧ locks fs2=locks fs1 ∧
      (fs2.itable ip).valid=true ∧ (fs2.itable ip).inum=(fs1.itable ip).inum ∧
      Entered fs fs2 (fs.itable dp).inum (fs1.itable ip).inum name type
        (if type=.dir then short ((fs.dinode (fs.itable dp).inum).nlink+1)
          else (fs.dinode (fs.itable dp).inum).nlink) := by
    by_cases hdir : type=.dir
    · obtain ⟨h2,hk2,hl2,hr⟩ := relink_spec h1 hdpos (hdv hdp.valid)
        (f:=fun x => {x with nlink := short (x.nlink+1)}) fun _ => ⟨rfl,rfl,rfl⟩
      rw [hdin] at hr
      have hnd : (fs1.dinode (fs.itable dp).inum).nlink=(fs.dinode (fs.itable dp).inum).nlink := by
        obtain ⟨k,-,-,hpar⟩ := he.parent
        exact congrArg Node.nlink hpar
      have he2 := he.relink h1 ht hr fun _ => ⟨rfl,rfl,rfl⟩
      simp only [hnd] at he2
      rw [if_pos hdir,if_pos hdir]
      exact ⟨_,rfl,h2,hk2,hl2,(hk2 ip Making.held).valid hv1,(hk2 ip Making.held).inum,he2⟩
    · rw [if_neg hdir,if_neg hdir]
      exact ⟨fs1,rfl,h1,.refl _ _,rfl,hv1,rfl,he⟩
  rw [←hin2] at he2
  have hkept : Kept (Pi.single dp 1+own) fs fs2 :=
    hk1.trans (hk2.mono fun jp hj => single_add_pos hj)
  have hrange : -2^15≤(if type=.dir then short ((fs.dinode (fs.itable dp).inum).nlink+1)
      else (fs.dinode (fs.itable dp).inum).nlink) ∧
      (if type=.dir then short ((fs.dinode (fs.itable dp).inum).nlink+1)
      else (fs.dinode (fs.itable dp).inum).nlink)<2^15 := by
    split_ifs
    · exact short_range _
    · exact hs.formed.shorts _ (by rw [hdp.dir]; decide)
  obtain ⟨hf2,hlv2⟩ := he2.sound hs hkept ht hdp.valid hrange
  have hstep := he2.step hinv h2 hdp.dir ht rfl
  rw [add_left_comm] at h2 hlv2
  simp only [hfs2]
  refine (iunlockput_lives h2 hf2 hlv2 hstop).bind ?_
  rintro fs3 ⟨h3,hk3,hl3,hs3,hsb3,hst3⟩
  have hkept3 : Kept own fs fs3 :=
    (hkept.mono fun jp hj => single_add_pos hj).trans (hk3.mono fun jp hj => single_add_pos hj)
  obtain ⟨hin3,hv3,ht3⟩ := hk3 ip (single_pos ..)
  refine ⟨rfl,hkept3,hsb3.trans he2.sb,h3,hs3,hv3 hv2,?_,?_,_,.inr ⟨_,⟨_,rfl⟩,hstep⟩,?_⟩
  · show (fs3.dinode (fs3.itable ip).inum).type=type
    rw [hin3,ht3]
    exact he2.kind
  · grind
  · rw [←he2.sb]
    exact hst3

lemma createNew_spec (h : InodeInv fs (Pi.single dp 1+own)) (hs : Sound fs own)
    (hdp : OpenDir fs (Pi.single dp 1+own) dp) (ht : type≠.free) (name : List UInt8)
    (major minor : ℤ) (hstop : stop "iget: no inodes") (hstop' : stop "iunlock") :
    Ensures stop (createNew fs dp name type major minor) fun r =>
      Kept own fs r.1 ∧ r.1.sb=fs.sb ∧ match r.2 with
        | none => InodeInv r.1 own ∧ SameFiles fs r.1 ∧
          locks r.1=update (locks fs) dp false
        | some ip => InodeInv r.1 (Pi.single ip 1+own) ∧ Sound r.1 (Pi.single ip 1+own) ∧
          (r.1.itable ip).valid=true ∧ (r.1.dinode (r.1.itable ip).inum).type=type ∧
          locks fs ip=false ∧
          locks r.1=update (update (locks fs) ip true) dp false ∧
          Edited (fun e => ∃ i,e=.create (fs.itable dp).inum i (type=.dir)) fs r.1 := by
  have hlive := @Lives.add fs own dp hs.lives (by rw [hdp.dir]; decide)
  refine (ialloc_spec h hlive.held hstop).bind ?_
  rintro ⟨fs1,r⟩ hr
  cases r with
  | none =>
    obtain rfl : fs1=fs := hr
    refine (iunlockput_quiet h hs.lives le_rfl hstop').bind ?_
    rintro fs2 ⟨h2,hq2,hl2⟩
    exact ⟨hq2.kept,hq2.disk.sb,h2,sameFiles_of_disk hq2.disk,hl2⟩
  | some ip =>
    obtain ⟨h1,hk1,hl1,hfree,hd1⟩ := hr
    have hblank : fs1.dinode (fs1.itable ip).inum=.blank type := by
      rw [show fs1.dinode=_ from hd1.dinode]
      exact update_self _ _ _
    have hty : (fs1.dinode (fs1.itable ip).inum).type=type := by
      rw [hblank]
      rfl
    refine (ilock_spec h1 Making.held fun hc => absurd (hty.symm.trans hc) ht).bind ?_
    rintro fs2 ⟨h2,hq2,hv2,hfl2,hl2⟩
    have hunlocked : locks fs ip=false := by
      rw [←hl1]
      exact hfl2
    obtain ⟨hm,hempty,hin⟩ := @making_of_ialloc fs own ip dp type fs1 fs2 (short major)
      (short minor) hk1 hl1 hfree hd1 h2 hq2 hv2 hl2
    rw [←hin] at hempty
    refine (enter_spec hm h hs hdp ht hempty hstop).bind ?_
    rintro ⟨fs4,ok⟩ hcase
    rcases hcase with ⟨rfl,hm4⟩ | ⟨rfl,h4,hk4,hl4,hv4,he4⟩
    · simp only [Bool.false_eq_true,if_false]
      refine (giveUp_spec hm4 hs hdp hunlocked hstop').imp ?_
      rintro ⟨fs5,r⟩ ⟨rfl,hk5,h5,hsame,hl5⟩
      exact ⟨hk5,hsame.sb,h5,hsame,hl5⟩
    · simp only [if_true]
      refine (entered_spec h hs hdp ht h4 hk4 hl4 hv4 he4 hstop').imp ?_
      grind

lemma lost_of_entry {e : Dirent} (hd : (fs.dinode d).type=.dir) (he : e∈entries fs d)
    (h0 : e.inum≠0) (hf : (fs.dinode e.inum).type=.free) : Lost (tree fs) := by
  refine .inr ⟨d,node fs d,e,tree_some (by rw [hd]; decide),decide_eq_true hd,?_,h0,tree_none hf⟩
  rw [node]
  simp only [hd,if_true]
  exact he

lemma relock_of_ne {L : ℕ→Bool} (hne : ip≠dp) (h : L dp=false) :
    update (update (update L dp true) ip true) dp false=
      update L ip true := by
  rw [update_comm hne,relock h]

/-- The edits that create may make: the path leads to the parent. -/
def Creates (t : Tree) (cwd : ℕ) (path : List UInt8) (isDir : Bool) (e : Edit) : Prop :=
  ∃ d name i,resolve true t cwd path=some (d,name) ∧ e=.create d i isDir

lemma create_spec {cwd : ℕ} (h : InodeInv fs own) (hs : Sound fs own) (hcwd : 0<own cwd)
    (path : List UInt8) (ht : type≠.free) (major minor : ℤ) :
    Ensures (Stops (tree fs)) (create fs cwd path type major minor) fun r =>
      Kept own fs r.1 ∧ r.1.sb=fs.sb ∧ match r.2 with
        | none => InodeInv r.1 own ∧ SameFiles fs r.1 ∧ locks r.1=locks fs
        | some ip => InodeInv r.1 (Pi.single ip 1+own) ∧ Sound r.1 (Pi.single ip 1+own) ∧
          (r.1.itable ip).valid=true ∧
          (type=.dir ∨ (r.1.dinode (r.1.itable ip).inum).type≠.dir) ∧ locks fs ip=false ∧
          locks r.1=update (locks fs) ip true ∧
          Edited (Creates (tree fs) (fs.itable cwd).inum path (type=.dir)) fs r.1 := by
  refine (namex_spec true path h hs hcwd (stops_namex _)).bind ?_
  rintro ⟨fs1,r⟩ ⟨hq1,hl1,hr⟩
  cases r with
  | none => exact ⟨hq1.kept,hq1.disk.sb,hr,sameFiles_of_disk hq1.disk,hl1⟩
  | some q =>
    obtain ⟨dp,name⟩ := q
    have hfind : Finds fs fs1 own true (resolve true (tree fs) (fs.itable cwd).inum path) dp name :=
      hr
    have hdpos := single_pos own dp
    have hdir1 := hfind.dir rfl
    refine (ilock_spec hfind.inv hdpos fun hc => absurd (hdir1.symm.trans hc) (by decide)).bind ?_
    rintro fs2 ⟨h2,hq2,hv2,hfl2,hl2⟩
    have hq2' : Quiet own fs fs2 := hq1.trans (hq2.mono fun jp hj => single_add_pos hj)
    have hsame2 := sameFiles_of_disk hq2'.disk
    have hs2 := hs.quiet hq2'
    have hin2 := (hq2.kept dp hdpos).inum
    have hL : locks fs2=update (locks fs) dp true := by
      rw [hl2]
      exact congrArg (fun L => update L dp true) hl1
    have hfl : locks fs dp=false := by
      rw [←hl1]
      exact hfl2
    have hopen : OpenDir fs2 (Pi.single dp 1+own) dp := by
      refine ⟨hdpos,hv2,?_⟩
      rw [hin2,(hq2.kept dp hdpos).type]
      exact hdir1
    refine (dirlookup_spec h2 hopen hs2.formed name rfl (stops_other _ (by decide))).bind ?_
    rintro ⟨fs3,r⟩ hr3
    cases r with
    | none =>
      obtain ⟨hfs,-⟩ := hr3
      obtain rfl : fs3=fs2 := hfs
      refine (createNew_spec h2 hs2 hopen ht name major minor (stops_other _ (by decide))
        (stops_other _ (by decide))).imp ?_
      rintro ⟨fs4,r⟩ ⟨hk4,hsb4,hr4⟩
      refine ⟨hq2'.kept.trans hk4,hsb4.trans hq2'.disk.sb,?_⟩
      cases r with
      | none =>
        obtain ⟨h4,hsame4,hl4⟩ := hr4
        refine ⟨h4,hsame2.trans hsame4,?_⟩
        rw [hl4,hL,relock hfl]
      | some ip =>
        obtain ⟨h4,hs4,hv4,ht4,hfi,hl4,hed⟩ := hr4
        have hne : ip≠dp := by
          rintro rfl
          rw [hL,update_self] at hfi
          exact absurd hfi (by decide)
        refine ⟨h4,hs4,hv4,?_,?_,?_,?_⟩
        · rw [ht4]
          exact em _
        · rw [hL,update_of_ne hne] at hfi
          exact hfi
        · rw [hl4,hL,relock_of_ne hne hfl]
        · refine Edited.trans_same hsame2 h ?_
          obtain ⟨u,hu,hst⟩ := hed
          refine ⟨u,hu.imp_right ?_,hst⟩
          rintro ⟨e,⟨i,rfl⟩,hstep⟩
          exact ⟨_,⟨_,name,i,hfind.found,by rw [hin2]⟩,hstep⟩
    | some q =>
      obtain ⟨ip,off⟩ := q
      obtain ⟨h3,hq3,hl3,m,e,-,hget,h0,-,-,hin3⟩ := hr3
      rw [add_left_comm] at h3
      have hq3' : Quiet own fs fs3 := hq2'.trans (hq3.mono fun jp hj => single_add_pos hj)
      have hs3 := hs.quiet hq3'
      refine (iunlockput_quiet h3 hs3.lives (fun jp => Nat.le_add_left _ _)
        (stops_other _ (by decide))).bind ?_
      rintro fs4 ⟨h4,hq4,hl4⟩
      have hipos := single_pos own ip
      have hq4' : Quiet own fs fs4 := hq3'.trans (hq4.mono fun jp hj => single_add_pos hj)
      have hs4 := hs.quiet hq4'
      have hL4 : locks fs4=locks fs := by
        rw [hl4,show locks fs3=locks fs2 from hl3,hL,relock hfl]
      have hin4 : (fs4.itable ip).inum=e.inum := (hq4.kept ip hipos).inum.trans hin3
      have hlost : (fs4.dinode (fs4.itable ip).inum).type=.free→Lost (tree fs) := by
        intro hf
        rw [hin4,hq4'.disk.dinode,←hq2'.disk.dinode] at hf
        rw [←tree_quiet h hq2']
        exact lost_of_entry hopen.dir (List.mem_of_getElem? hget) h0 hf
      refine (ilock_spec h4 hipos fun hf => stops_lost (hlost hf)).bind ?_
      rintro fs5 ⟨h5,hq5,hv5,hfl5,hl5⟩
      have hq5' : Quiet own fs fs5 := hq4'.trans (hq5.mono fun jp hj => single_add_pos hj)
      have hs5 := hs.quiet hq5'
      have hsame5 := sameFiles_of_disk hq5'.disk
      rw [hL4] at hfl5 hl5
      split_ifs with hty
      · obtain ⟨hc5,ht5⟩ := h5.loaded ip hipos hv5
        refine ⟨hq5'.kept,hq5'.disk.sb,h5,⟨hs5.formed,hs5.lives.add ?_⟩,hv5,.inr ?_,hfl5,hl5,
          Edited.of_same hsame5 h⟩
        · grind
        · show (fs5.dinode (fs5.itable ip).inum).type≠.dir
          rw [←hc5]
          rcases hty.2 with ht | ht
          all_goals rw [ht]
          all_goals decide
      · refine (iunlockput_quiet h5 hs5.lives le_rfl (stops_other _ (by decide))).bind ?_
        rintro fs6 ⟨h6,hq6,hl6⟩
        have hq6' := hq5'.trans hq6
        refine ⟨hq6'.kept,hq6'.disk.sb,h6,sameFiles_of_disk hq6'.disk,?_⟩
        show locks fs6=_
        rw [hl6,hl5,relock hfl5]

end Create

end Xv6Riscv.NamingSpecs
