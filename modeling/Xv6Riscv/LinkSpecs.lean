import Xv6Riscv.NamingSpecs

/-!
# Specifications of link, unlink and the calls around create

Each call keeps the references and the locks of all processes. If it fails,
every file is as it was, whatever it had done before it failed; if it
succeeds, it has made one edit of the directory tree.
-/

namespace Xv6Riscv.LinkSpecs

open Function
open Transition OutcomeLogic InodeLayer DirectoryLayer FileSyscalls BlockOwnership InodeTable
  FileTree FileView ParentLinks DirectorySpecs NamingSpecs

variable {fs fs' : Fs} {own own' : ℕ→ℕ} {ip dp i d cwd : ℕ} {stop : String→Prop}

structure Leaves (fs : Fs) (own : ℕ→ℕ) (ok : Edit→Prop) (r : Fs×ℤ) : Prop where
  inv : InodeInv r.1 own
  kept : Kept own fs r.1
  lock : locks r.1=locks fs
  sound : Sound r.1 own
  sb : r.1.sb=fs.sb
  failed : r.2=-1→SameFiles fs r.1
  edited : Edited ok fs r.1

lemma Leaves.quiet {ok : Edit→Prop} {n : ℤ} (h : InodeInv fs own) (hs : Sound fs own)
    (h' : InodeInv fs' own) (hq : Quiet own fs fs') (hl : locks fs'=locks fs) :
    Leaves fs own ok (fs',n) := by
  have hsame := sameFiles_of_disk hq.disk
  exact ⟨h',hq.kept,hl,hs.quiet hq,hq.disk.sb,fun _ => hsame,.of_same hsame h⟩

lemma Leaves.same {ok : Edit→Prop} {n : ℤ} (h : InodeInv fs own) (hs : Sound fs own)
    (h' : InodeInv fs' own) (hf : SameFiles fs fs') (hk : Kept own fs fs')
    (hl : locks fs'=locks fs) : Leaves fs own ok (fs',n) :=
  ⟨h',hk,hl,hs.same hf hk,hf.sb,fun _ => hf,.of_same hf h⟩

lemma makeNode_spec {type : FileType} (h : InodeInv fs own) (hs : Sound fs own)
    (hcwd : 0<own cwd) (path : List UInt8) (ht : type≠.free) (major minor : ℤ) :
    Ensures (Stops (tree fs)) (makeNode fs cwd path type major minor)
      (Leaves fs own (Creates (tree fs) (fs.itable cwd).inum path (type=.dir))) := by
  refine (create_spec h hs hcwd path ht major minor).bind ?_
  rintro ⟨fs1,r⟩ ⟨hk1,hsb1,hr⟩
  cases r with
  | none =>
    obtain ⟨h1,hsame,hl1⟩ := hr
    exact .same h hs h1 hsame hk1 hl1
  | some ip =>
    obtain ⟨h1,hs1,-,-,hfl,hl1,hed⟩ := hr
    refine (iunlockput_lives h1 hs1.formed hs1.lives (stops_other _ (by decide))).bind ?_
    rintro fs2 ⟨h2,hk2,hl2,hs2,hsb2,hst⟩
    rw [hsb1] at hst
    refine ⟨h2,hk1.trans hk2,?_,hs2,hsb2.trans hsb1,nofun,
      hed.trans_free hst⟩
    show locks fs2=_
    rw [hl2,hl1,relock hfl]

lemma openInode_spec (h : InodeInv fs own) (hs : Sound fs own) (hcwd : 0<own cwd)
    (path : List UInt8) (omode : ℕ) :
    Ensures (Stops (tree fs)) (openInode fs cwd path omode) fun r =>
      Kept own fs r.1 ∧ r.1.sb=fs.sb ∧ match r.2 with
        | none => InodeInv r.1 own ∧ SameFiles fs r.1 ∧ locks r.1=locks fs
        | some ip => InodeInv r.1 (Pi.single ip 1+own) ∧ Sound r.1 (Pi.single ip 1+own) ∧
          (r.1.itable ip).valid=true ∧
          (omode=0 ∨ (r.1.dinode (r.1.itable ip).inum).type≠.dir) ∧ locks fs ip=false ∧
          locks r.1=update (locks fs) ip true ∧
          Edited (fun e => omode&&&oCreate≠0 ∧
            Creates (tree fs) (fs.itable cwd).inum path false e) fs r.1 := by
  rw [openInode]
  split_ifs with hc
  · refine (create_spec h hs hcwd path (by decide) 0 0).imp ?_
    rintro ⟨fs1,r⟩ ⟨hk1,hsb1,hr⟩
    refine ⟨hk1,hsb1,?_⟩
    cases r with
    | none => exact hr
    | some ip =>
      obtain ⟨h1,hs1,hv1,ht1,hfl,hl1,u,hu,hst⟩ := hr
      refine ⟨h1,hs1,hv1,?_,hfl,hl1,u,hu.imp_right ?_,hst⟩
      · exact .inr (ht1.resolve_left (by decide))
      · rintro ⟨e,he,hstep⟩
        exact ⟨e,⟨hc,he⟩,hstep⟩
  · refine (namei_spec path h hs hcwd (stops_namex _)).bind ?_
    rintro ⟨fs1,r⟩ ⟨hq1,hl1,hr⟩
    cases r with
    | none => exact ⟨hq1.kept,hq1.disk.sb,hr,sameFiles_of_disk hq1.disk,hl1⟩
    | some ip =>
      obtain ⟨h1,-,hlost⟩ := hr
      have hpos := single_pos own ip
      refine (ilock_spec h1 hpos fun hf => stops_lost (hlost hf)).bind ?_
      rintro fs2 ⟨h2,hq2,hv2,hfl2,hl2⟩
      have hq2' : Quiet own fs fs2 := hq1.trans (hq2.mono fun jp hj => single_add_pos hj)
      have hs2 := hs.quiet hq2'
      have hsame2 := sameFiles_of_disk hq2'.disk
      rw [show locks fs1=locks fs from hl1] at hfl2 hl2
      obtain ⟨hc2,ht2⟩ := h2.loaded ip hpos hv2
      split_ifs with hdir
      · refine (iunlockput_quiet h2 hs2.lives le_rfl (stops_other _ (by decide))).bind ?_
        rintro fs3 ⟨h3,hq3,hl3⟩
        have hq3' := hq2'.trans hq3
        refine ⟨hq3'.kept,hq3'.disk.sb,h3,sameFiles_of_disk hq3'.disk,?_⟩
        show locks fs3=_
        rw [hl3,hl2,relock hfl2]
      · refine ⟨hq2'.kept,hq2'.disk.sb,h2,⟨hs2.formed,hs2.lives.add ?_⟩,hv2,?_,hfl2,hl2,
          Edited.of_same hsame2 h⟩
        · rw [←hc2]
          exact ht2
        · rw [←hc2]
          by_cases ho : omode=0
          · exact .inl ho
          · exact .inr fun ht => hdir ⟨ht,ho⟩

lemma execReads_spec (h : InodeInv fs own) (hip : 0<own ip) (hv : (fs.itable ip).valid=true)
    (reads : List (ℕ×ℕ)) : execReads ip reads fs=.next fs := by
  induction reads with
  | nil => rfl
  | cons q reads ih =>
    obtain ⟨off,n⟩ := q
    obtain ⟨r,hr⟩ := readi_spec h hip hv none off n
    rw [execReads,hr]
    exact ih

lemma exec_spec (h : InodeInv fs own) (hs : Sound fs own) (hcwd : 0<own cwd)
    (path : List UInt8) (reads : List (ℕ×ℕ)) (ret : ℤ) :
    Ensures (Stops (tree fs)) (FileSyscalls.exec fs cwd path reads ret)
      (Leaves fs own fun _ => False) := by
  refine (namei_spec path h hs hcwd (stops_namex _)).bind ?_
  rintro ⟨fs1,r⟩ ⟨hq1,hl1,hr⟩
  cases r with
  | none => exact .quiet h hs hr hq1 hl1
  | some ip =>
    obtain ⟨h1,-,hlost⟩ := hr
    have hpos := single_pos own ip
    refine (ilock_spec h1 hpos fun hf => stops_lost (hlost hf)).bind ?_
    rintro fs2 ⟨h2,hq2,hv2,hfl2,hl2⟩
    have hq2' : Quiet own fs fs2 := hq1.trans (hq2.mono fun jp hj => single_add_pos hj)
    have hs2 := hs.quiet hq2'
    rw [show locks fs1=locks fs from hl1] at hfl2 hl2
    rw [execReads_spec h2 hpos hv2,next_bind]
    refine (iunlockput_quiet h2 hs2.lives le_rfl (stops_other _ (by decide))).bind ?_
    rintro fs3 ⟨h3,hq3,hl3⟩
    refine .quiet h hs h3 (hq2'.trans hq3) ?_
    rw [hl3,hl2,relock hfl2]

def SameNames (t t' : Tree) : Prop :=
  ∀ i,(t' i).map (fun n => (n.isDir,n.entries))=(t i).map fun n => (n.isDir,n.entries)

lemma SameNames.some {t t' : Tree} {n : Node} (h : SameNames t t') (hi : t' i=some n) :
    ∃ m,t i=some m ∧ m.isDir=n.isDir ∧ m.entries=n.entries := by
  have := h i
  rw [hi] at this
  cases hm : t i with
  | none =>
    rw [hm] at this
    cases this
  | some m =>
    rw [hm] at this
    simp only [Option.map_some,Option.some.injEq,Prod.mk.injEq] at this
    exact ⟨m,rfl,this.1.symm,this.2.symm⟩

lemma SameNames.none {t t' : Tree} (h : SameNames t t') (hi : t' i=none) : t i=none := by
  have := h i
  rw [hi] at this
  exact Option.map_eq_none_iff.mp this.symm

lemma SameNames.walk {t t' : Tree} (h : SameNames t t') (parent : Bool) (fuel i : ℕ)
    (path : List UInt8) :
    DirectorySpecs.walk parent t' fuel i path=DirectorySpecs.walk parent t fuel i path := by
  induction fuel generalizing i path with
  | zero => rfl
  | succ fuel ih =>
    simp only [DirectorySpecs.walk]
    cases skipelem path with
    | none => rfl
    | some q =>
      cases hi : t' i with
      | none => rw [h.none hi]
      | some n =>
        grind [h.some]

lemma SameNames.resolve {t t' : Tree} (h : SameNames t t') (parent : Bool) (cwd : ℕ)
    (path : List UInt8) :
    DirectorySpecs.resolve parent t' cwd path=DirectorySpecs.resolve parent t cwd path :=
  h.walk parent _ _ path

lemma SameNames.lost {t t' : Tree} (h : SameNames t t') (hl : Lost t') : Lost t := by
  rcases hl with hr | ⟨d,n,e,hd,hdir,he,h0,hf⟩
  · exact .inl (h.none hr)
  · obtain ⟨m,hm,hmd,hme⟩ := h.some hd
    exact .inr ⟨d,m,e,hm,hmd.trans hdir,by rw [hme]; exact he,h0,h.none hf⟩

lemma sameNames_of_relinks {f : Dinode→Dinode} (h : Relinks fs fs' i f) (hinv : InodeInv fs own)
    (ht : (f (fs.dinode i)).type=(fs.dinode i).type)
    (hs : (f (fs.dinode i)).size=(fs.dinode i).size) : SameNames (tree fs) (tree fs') := by
  intro j
  by_cases hj : j=i
  · subst hj
    by_cases hf : (fs.dinode j).type=.free
    · rw [tree_none hf,tree_none (by rw [h.dinode,ht]; exact hf)]
    · rw [tree_some hf,tree_some (by rw [h.dinode,ht]; exact hf),h.node ht hs]
      rfl
  · rw [(h.beside.file j hj).tree hinv]

lemma sameFiles_of_undo {fs1 fs2 fs3 : Fs} {v w : Dinode→ℤ}
    (h : Relinks fs fs1 i fun x => {x with nlink := v x}) (hsame : SameFiles fs1 fs2)
    (h' : Relinks fs2 fs3 i fun x => {x with nlink := w x}) (ht : (fs.dinode i).type≠.free)
    (hback : w (fs2.dinode i)=(fs.dinode i).nlink) : SameFiles fs fs3 := by
  have hb := (h.beside.trans (beside_of_same hsame i)).trans h'.beside
  refine ⟨hb.sb,fun j => ?_⟩
  by_cases hj : j=i
  · subst hj
    have hs := hsame.file j
    have hf := hs.fields (by rw [h.dinode]; exact ht)
    simp only [fieldsOf,h.dinode,Prod.mk.injEq] at hf
    obtain ⟨f1,f2,f3,-,f5⟩ := hf
    refine ⟨?_,fun _ => ?_,fun bn hbn => ?_⟩
    · rw [h'.dinode]
      exact f1
    · simp only [fieldsOf,h'.dinode,f1,f2,f3,f5,hback]
    · rw [←h.occ] at hbn ⊢
      obtain ⟨ho,hd⟩ := hs.blocks bn hbn
      rw [h'.occ,h'.data,ho,hd,h.data]
      exact ⟨rfl,rfl⟩
  · exact hb.file j hj

lemma sound_of_places {k : ℕ} {de : Dirent} (hs : Sound fs own) (hk : Kept own fs fs')
    (hsb : fs'.sb=fs.sb) (hp : Places fs fs' d k de) (hd : (fs.dinode d).type=.dir) :
    Sound fs' own := by
  obtain ⟨a,size,hdi,hsz⟩ := hp.fields
  have hb : Beside fs fs' d := ⟨hsb,hp.others⟩
  have htd : (fs.dinode d).type≠.free := by
    rw [hd]
    decide
  refine ⟨formed_of_beside hs.formed hb (fun _ => ?_) fun _ => ?_,
    lives_of_beside hs.lives hb hk fun _ hn => ?_⟩
  · rw [hdi]
    exact hsz
  · rw [hdi]
    exact hs.formed.shorts d htd
  · rw [hdi] at hn
    obtain ⟨jp,hjp,hin,hv⟩ := hs.lives.unlinked d htd hn
    exact ⟨jp,hjp,(hk jp hjp).inum.trans hin,(hk jp hjp).valid hv⟩

lemma linkInto_spec (h : InodeInv fs own) (hs : Sound fs own) (hcwd : 0<own cwd)
    (new : List UInt8) (hip : 0<own ip) (hstop : NamexStops (tree fs) stop) :
    Ensures stop (linkInto fs cwd new ip) fun r =>
      InodeInv r.1 own ∧ Kept own fs r.1 ∧ locks r.1=locks fs ∧ Sound r.1 own ∧
        (r.2=false ∧ SameFiles fs r.1 ∨ r.2=true ∧ r.1.sb=fs.sb ∧ ∃ d name k,
          resolve true (tree fs) (fs.itable cwd).inum new=some (d,name) ∧
          (fs.dinode d).type=.dir ∧ Room (entries fs d) k ∧ Absent (entries fs d) name ∧
          Places fs r.1 d k ⟨(fs.itable ip).inum,strncpy name⟩) := by
  refine (namex_spec true new h hs hcwd hstop).bind ?_
  rintro ⟨fs1,r⟩ ⟨hq1,hl1,hr⟩
  cases r with
  | none =>
    exact ⟨hr,hq1.kept,hl1,hs.quiet hq1,.inl ⟨rfl,sameFiles_of_disk hq1.disk⟩⟩
  | some q =>
    obtain ⟨dp,name⟩ := q
    have hfind : Finds fs fs1 own true (resolve true (tree fs) (fs.itable cwd).inum new) dp name :=
      hr
    have hdpos := single_pos own dp
    have hdir1 := hfind.dir rfl
    refine (ilock_spec hfind.inv hdpos fun hc => absurd (hdir1.symm.trans hc) (by decide)).bind ?_
    rintro fs2 ⟨h2,hq2,hv2,hfl2,hl2⟩
    have hq2' : Quiet own fs fs2 := hq1.trans (hq2.mono fun jp hj => single_add_pos hj)
    have hsame2 := sameFiles_of_disk hq2'.disk
    have hs2 := hs.quiet hq2'
    have hin2 := (hq2.kept dp hdpos).inum
    rw [show locks fs1=locks fs from hl1] at hfl2 hl2
    have hopen : OpenDir fs2 (Pi.single dp 1+own) dp := by
      refine ⟨hdpos,hv2,?_⟩
      rw [hin2,(hq2.kept dp hdpos).type]
      exact hdir1
    have hdirfs : (fs.dinode (fs2.itable dp).inum).type=.dir := by
      rw [←hq2'.disk.dinode]
      exact hopen.dir
    have hlive2 : Lives fs2 (Pi.single dp 1+own) := hs2.lives.add (by rw [hopen.dir]; decide)
    have hini : (fs2.itable ip).inum=(fs.itable ip).inum := (hq2'.kept ip hip).inum
    have hlt : (fs2.itable ip).inum<65536 := by
      have := (h2.range _ (hs2.lives.held ip hip)).2
      have := hs2.formed.count
      omega
    have hes := (entries_of_disk hq2'.disk (fs2.itable dp).inum).symm
    refine (dirlink_spec h2 hopen hs2.formed hlive2 name hlt hes hstop.noInodes).bind ?_
    rintro ⟨fs3,ok⟩ ⟨h3,hk3,hl3,hcase⟩
    have hk3' : Kept own fs2 fs3 := hk3.mono fun jp hj => single_add_pos hj
    have hs3 : Sound fs3 own := by
      rcases hcase with ⟨-,hsame⟩ | ⟨-,hsb,-,k,-,hp⟩
      · exact hs2.same hsame hk3'
      · exact sound_of_places hs2 hk3' hsb hp hopen.dir
    refine (iunlockput_quiet h3 hs3.lives le_rfl hstop.iunlock).bind ?_
    rintro fs4 ⟨h4,hq4,hl4⟩
    have hl : locks fs4=locks fs := by
      rw [hl4,show locks fs3=locks fs2 from hl3,hl2,relock hfl2]
    have hk : Kept own fs fs4 := (hq2'.kept.trans hk3').trans hq4.kept
    refine ⟨h4,hk,hl,hs3.quiet hq4,?_⟩
    rcases hcase with ⟨rfl,hsame⟩ | ⟨rfl,hsb,habs,k,hroom,hp⟩
    · exact .inl ⟨rfl,(hsame2.trans hsame).trans (sameFiles_of_disk hq4.disk)⟩
    · refine .inr ⟨rfl,(hq4.disk.sb.trans hsb).trans hq2'.disk.sb,(fs2.itable dp).inum,name,k,
        ?_,hdirfs,hroom,habs,?_⟩
      · rw [hin2]
        exact hfind.found
      · have := Places.disk hq2'.disk hp hq4.disk
        rw [hini] at this
        exact this

/-- The edits that link may make: the paths lead to the inode and to the
directory for its new name. -/
def Links (t : Tree) (cwd : ℕ) (old new : List UInt8) (e : Edit) : Prop :=
  ∃ d i name last,resolve false t cwd old=some (i,last) ∧ resolve true t cwd new=some (d,name) ∧
    e=.link d i

lemma sound_of_relinks {v : Dinode→ℤ} (hs : Sound fs own) (hk : Kept own fs fs')
    (hip : 0<own ip) (hv : (fs'.itable ip).valid=true) (hi : (fs'.itable ip).inum=i)
    (hr : Relinks fs fs' i fun x => {x with nlink := short (v x)}) : Sound fs' own := by
  refine ⟨formed_of_beside hs.formed hr.beside (fun ht => ?_) fun _ => ?_,
    lives_of_beside hs.lives hr.beside hk fun _ _ => ⟨ip,hip,hi,hv⟩⟩
  · rw [hr.dinode] at ht ⊢
    exact hs.formed.aligned i ht
  · rw [hr.dinode]
    exact short_range _

lemma short_undo {x : ℤ} (h : -2^15≤x ∧ x<2^15) : short (short (x+1)+-1)=x := by
  simp only [short]
  omega

lemma link_step {fs1 fs2 : Fs} {k : ℕ} {name : List UInt8} (hinv : InodeInv fs own)
    (hinv1 : InodeInv fs1 own') (hr : Relinks fs fs1 i fun x => {x with nlink := short (x.nlink+1)})
    (hti : (fs.dinode i).type≠.free) (hplain : (fs.dinode i).type≠.dir)
    (hd : (fs1.dinode d).type=.dir) (hroom : Room (entries fs1 d) k)
    (habs : Absent (entries fs1 d) name) (hp : Places fs1 fs2 d k ⟨i,strncpy name⟩) :
    Step fs.sb.ninodes (tree fs) (.link d i) (tree fs2) := by
  have hne : i≠d := by grind [hr.dinode]
  have hsd := hr.beside.file d hne.symm
  have hdfs : (fs.dinode d).type=.dir := hsd.type.symm.trans hd
  have hnode : node fs1 d=node fs d := hsd.node hinv (by rw [hdfs]; decide)
  have hent : (node fs d).entries=entries fs1 d := by
    rw [←hnode]
    exact if_pos hd
  have hd2 : (fs2.dinode d).type=.dir := by
    obtain ⟨a,size,hdi,-⟩ := hp.fields
    rw [hdi]
    exact hd
  have hti2 : (fs2.dinode i).type=(fs.dinode i).type := by
    rw [(hp.others i hne).type,hr.dinode]
  have htree : tree fs2=update (update (tree fs) d (some
      ⟨true,(node fs d).nlink,place (node fs d).entries k ⟨i,strncpy name⟩⟩)) i
      (some ⟨false,short ((node fs i).nlink+1),(node fs i).entries⟩) := by
    funext j
    by_cases hji : j=i
    · subst hji
      rw [update_self,tree_some (by rw [hti2]; exact hti),
        (hp.others j hne).node hinv1 (by rw [hr.dinode]; exact hti),hr.node rfl rfl]
      simp only [node,hplain,decide_false]
    · rw [update_of_ne hji]
      by_cases hjd : j=d
      · subst hjd
        rw [update_self,tree_some (by rw [hd2]; decide),node_of_places hp hd,hnode,hent]
        simp only [node,hdfs,decide_true]
      · rw [update_of_ne hjd,(hp.others j hjd).tree hinv1,
          (hr.beside.file j hji).tree hinv]
  rw [htree]
  exact .link (tree_some (by rw [hdfs]; decide)) (decide_eq_true hdfs) (tree_some hti)
    (decide_eq_false hplain) (by rw [hent]; exact hroom) (by rw [hent]; exact habs)

lemma sysLink_spec (h : InodeInv fs own) (hs : Sound fs own) (hcwd : 0<own cwd)
    (old new : List UInt8) :
    Ensures (Stops (tree fs)) (sysLink fs cwd old new)
      (Leaves fs own (Links (tree fs) (fs.itable cwd).inum old new)) := by
  refine (namei_spec old h hs hcwd (stops_namex _)).bind ?_
  rintro ⟨fs1,r⟩ ⟨hq1,hl1,hr⟩
  cases r with
  | none => exact .quiet h hs hr hq1 hl1
  | some ip =>
    obtain ⟨h1,⟨last,hold⟩,hlost⟩ := hr
    have hpos := single_pos own ip
    refine (ilock_spec h1 hpos fun hf => stops_lost (hlost hf)).bind ?_
    rintro fs2 ⟨h2,hq2,hv2,hfl2,hl2⟩
    have hq2' : Quiet own fs fs2 := hq1.trans (hq2.mono fun jp hj => single_add_pos hj)
    have hs2 := hs.quiet hq2'
    rw [show locks fs1=locks fs from hl1] at hfl2 hl2
    obtain ⟨hc2,ht2⟩ := h2.loaded ip hpos hv2
    have hin2 : (fs2.itable ip).inum=(fs1.itable ip).inum := (hq2.kept ip hpos).inum
    split_ifs with hdir
    · refine (iunlockput_quiet h2 hs2.lives le_rfl (stops_other _ (by decide))).bind ?_
      rintro fs3 ⟨h3,hq3,hl3⟩
      refine .quiet h hs h3 (hq2'.trans hq3) ?_
      rw [hl3,hl2,relock hfl2]
    · obtain ⟨h3,hk3,hl3,hr3⟩ := relink_spec h2 hpos hv2
        (f:=fun x => {x with nlink := short (x.nlink+1)}) fun _ => ⟨rfl,rfl,rfl⟩
      have htype : (fs2.dinode (fs2.itable ip).inum).type≠.free := by
        rw [←hc2]
        exact ht2
      have hplain : (fs2.dinode (fs2.itable ip).inum).type≠.dir := by
        rw [←hc2]
        exact hdir
      have hsl2 : Sound fs2 (Pi.single ip 1+own) := ⟨hs2.formed,hs2.lives.add htype⟩
      obtain ⟨hin3,hv3,-⟩ := hk3 ip hpos
      have hs3 := sound_of_relinks hsl2 hk3 hpos (hv3 hv2) hin3 hr3
      refine (iunlock_spec h3 hpos (stops_other _ (by decide))).bind ?_
      rintro fs4 ⟨h4,hq4,hl4,-⟩
      have hs4 := hs3.quiet hq4
      have hL4 : locks fs4=locks fs := by
        rw [hl4,hl3,hl2,relock hfl2]
      have hr4 : Relinks fs2 fs4 (fs2.itable ip).inum
          (fun x => {x with nlink := short (x.nlink+1)}) := by
        refine ⟨hr3.beside.trans (beside_of_same (sameFiles_of_disk hq4.disk) _),?_,?_,?_⟩
        · rw [hq4.disk.dinode]
          exact hr3.dinode
        · rw [occ_of_disk hq4.disk]
          exact hr3.occ
        · rw [hq4.disk.data]
          exact hr3.data
      have hnames : SameNames (tree fs) (tree fs4) := by
        have := sameNames_of_relinks hr4 h2 rfl rfl
        rw [tree_quiet h hq2'] at this
        exact this
      have hk4 : Kept own fs fs4 := (hq2'.kept.trans (hk3.mono fun jp hj => single_add_pos hj)).trans
        (hq4.kept.mono fun jp hj => single_add_pos hj)
      have hin4 : (fs4.itable ip).inum=(fs2.itable ip).inum := (hq4.kept ip hpos).inum.trans hin3
      have hcwd4 : (fs4.itable cwd).inum=(fs.itable cwd).inum := (hk4 cwd hcwd).inum
      have hstop4 : NamexStops (tree fs4) (Stops (tree fs)) :=
        ⟨fun hl => stops_lost (hnames.lost hl),stops_other _ (by decide),
          stops_other _ (by decide)⟩
      refine (linkInto_spec h4 hs4 (single_add_pos hcwd) new hpos hstop4).bind ?_
      rintro ⟨fs5,ok⟩ ⟨h5,hk5,hl5,hs5,hcase⟩
      have hL5 : locks fs5=locks fs := hl5.trans hL4
      have hk5' : Kept own fs fs5 := hk4.trans (hk5.mono fun jp hj => single_add_pos hj)
      rcases hcase with ⟨rfl,hsame⟩ | ⟨rfl,hsb,d,name,k,hnew,hd,hroom,habs,hp⟩
      · simp only [Bool.false_eq_true,if_false]
        refine (ilock_spec h5 hpos fun hf => absurd hf (hs5.lives.held ip hpos)).bind ?_
        rintro fs6 ⟨h6,hq6,hv6,hfl6,hl6⟩
        obtain ⟨h7,hk7,hl7,hr7⟩ := relink_spec h6 hpos hv6
          (f:=fun x => {x with nlink := short (x.nlink+-1)}) fun _ => ⟨rfl,rfl,rfl⟩
        have hin6 : (fs6.itable ip).inum=(fs2.itable ip).inum :=
          ((hq6.kept ip hpos).inum.trans (hk5 ip hpos).inum).trans hin4
        rw [hin6] at hr7
        have hsame46 : SameFiles fs4 fs6 := hsame.trans (sameFiles_of_disk hq6.disk)
        have hback : short ((fs6.dinode (fs2.itable ip).inum).nlink+-1)=
            (fs2.dinode (fs2.itable ip).inum).nlink := by
          have hf := (hsame46.file (fs2.itable ip).inum).fields (by rw [hr4.dinode]; exact htype)
          rw [(fields_eq hf).2.1,hr4.dinode]
          exact short_undo (hs2.formed.shorts _ htype)
        have hfiles : SameFiles fs (addLink fs6 ip (-1)) :=
          (sameFiles_of_disk hq2'.disk).trans (sameFiles_of_undo hr4 hsame46 hr7 htype hback)
        have hkept : Kept own fs (addLink fs6 ip (-1)) :=
          (hk5'.trans (hq6.kept.mono fun jp hj => single_add_pos hj)).trans
            (hk7.mono fun jp hj => single_add_pos hj)
        have hs7 := hs.same hfiles hkept
        refine (iunlockput_quiet h7 hs7.lives le_rfl (stops_other _ (by decide))).bind ?_
        rintro fs8 ⟨h8,hq8,hl8⟩
        refine .same h hs h8 (hfiles.trans (sameFiles_of_disk hq8.disk))
          (hkept.trans hq8.kept) ?_
        grind
      · simp only [if_true]
        refine (iput_lives h5 hs5.formed hs5.lives).bind ?_
        rintro fs6 ⟨h6,hk6,hl6,hs6,hsb6,hst6⟩
        have hsb5 : fs5.sb=fs.sb := (hsb.trans hr4.beside.sb).trans hq2'.disk.sb
        have hstep : Step fs.sb.ninodes (tree fs) (.link d (fs2.itable ip).inum) (tree fs5) := by
          rw [hin4] at hp
          have := link_step h2 h4 hr4 htype hplain hd hroom habs hp
          rw [tree_quiet h hq2',hq2'.disk.sb] at this
          exact this
        refine ⟨h6,hk5'.trans hk6,hl6.trans hL5,hs6,hsb6.trans hsb5,
          nofun,tree fs5,.inr ⟨_,⟨d,_,name,last,?_,?_,rfl⟩,hstep⟩,?_⟩
        · rw [hin2]
          exact hold
        · rw [hnames.resolve,hcwd4] at hnew
          exact hnew
        · rw [hsb5] at hst6
          exact hst6

/-- The edits that unlink may make: the path leads to a directory that names
the inode. -/
def Unlinks (t : Tree) (cwd : ℕ) (path : List UInt8) (e : Edit) : Prop :=
  ∃ d name n de,resolve true t cwd path=some (d,name) ∧ t d=some n ∧
    lookup n.entries name=some de ∧ e=.unlink d de.inum

/-- The state of unlink once the entry has been found: both inodes are locked. -/
structure Unlinking (fs fs' : Fs) (own : ℕ→ℕ) (dp ip m : ℕ) (e : Dirent) : Prop where
  inv : InodeInv fs' (Pi.single ip 1+(Pi.single dp 1+own))
  quiet : Quiet own fs fs'
  lock : locks fs'=update (update (locks fs) dp true) ip true
  unlocked : locks fs dp=false ∧ locks fs ip=false ∧ ip≠dp
  openDir : OpenDir fs' (Pi.single ip 1+(Pi.single dp 1+own)) dp
  valid : (fs'.itable ip).valid=true
  get : (entries fs' (fs'.itable dp).inum)[m]?=some e
  inum : (fs'.itable ip).inum=e.inum
  used : e.inum≠0
  dots : namecmp dot e.name=false ∧ namecmp dotdot e.name=false

section Unlink

variable {m : ℕ} {e : Dirent} {ok : Edit→Prop}

lemma Unlinking.held : 0<(Pi.single ip 1+(Pi.single dp 1+own) : ℕ→ℕ) ip := by
  rw [single_add_self]
  omega

lemma Unlinking.ne (h : Unlinking fs fs' own dp ip m e) :
    (fs'.itable ip).inum≠(fs'.itable dp).inum := fun hc =>
  h.unlocked.2.2 (h.inv.distinct ip dp Unlinking.held h.openDir.held hc)

lemma Unlinking.giveUp (hu : Unlinking fs fs' own dp ip m e) (h : InodeInv fs own)
    (hs : Sound fs own) (hstop : stop "iunlock") :
    Ensures stop (do
      let fs ← iunlockput fs' ip
      let fs ← iunlockput fs dp
      pure (fs,(-1 : ℤ))) (Leaves fs own ok) := by
  have hs1 := hs.quiet hu.quiet
  refine (iunlockput_quiet hu.inv hs1.lives (fun jp => Nat.le_add_left _ _) hstop).bind ?_
  rintro fs2 ⟨h2,hq2,hl2⟩
  have hq2' : Quiet own fs fs2 := hu.quiet.trans (hq2.mono fun jp hj => single_add_pos hj)
  refine (iunlockput_quiet h2 (hs.quiet hq2').lives le_rfl hstop).bind ?_
  rintro fs3 ⟨h3,hq3,hl3⟩
  refine .quiet h hs h3 (hq2'.trans hq3) ?_
  obtain ⟨hfd,hfi,hne⟩ := hu.unlocked
  have hi : update (locks fs) dp true ip=false := by
    rw [update_of_ne hne]
    exact hfi
  rw [hl3,hl2,hu.lock,relock hi,relock hfd]

lemma unlink_step {fs2 fs3 : Fs} {own2 : ℕ→ℕ} {nl : ℤ} (h1 : InodeInv fs own)
    (h2 : InodeInv fs2 own2) (hd : (fs.dinode d).type=.dir) (hti : (fs.dinode i).type≠.free)
    (hne : i≠d) (hget : (entries fs d)[m]?=some e) (he : e.inum=i) (h0 : i≠0)
    (hdots : namecmp dot e.name=false ∧ namecmp dotdot e.name=false)
    (hpos : 1≤(fs.dinode i).nlink)
    (hempty : (fs.dinode i).type=.dir→∀ e∈(entries fs i).drop 2,e.inum=0)
    (hp : Places fs fs2 d m Dirent.zero) (hd3 : node fs3 d={node fs2 d with nlink := nl})
    (hnl : nl=if (fs.dinode i).type=.dir then short ((fs.dinode d).nlink+-1)
      else (fs.dinode d).nlink)
    (ht3 : (fs3.dinode d).type=.dir) (hb3 : Beside fs2 fs3 d) :
    Step fs.sb.ninodes (tree fs) (.unlink d i) (update (tree fs3) i
      (some ⟨(node fs3 i).isDir,short ((node fs3 i).nlink+-1),(node fs3 i).entries⟩)) := by
  have hent : (node fs d).entries=entries fs d := if_pos hd
  have hlt := (List.getElem?_eq_some_iff.mp hget).1
  have hnode : node fs3 d=⟨true,if (node fs i).isDir then short ((node fs d).nlink+-1)
      else (node fs d).nlink,(node fs d).entries.set m Dirent.zero⟩ := by
    rw [hd3,node_of_places hp hd,hnl,hent,place,if_pos hlt]
    simp only [node,hd,decide_true,decide_eq_true_eq]
  have hsi := hp.others i hne
  have hi3 : node fs3 i=node fs i := by
    rw [(hb3.file i hne).node h2 (by rw [hsi.type]; exact hti),hsi.node h1 hti]
  have htree : tree fs3=update (tree fs) d (some (node fs3 d)) := by
    funext j
    by_cases hjd : j=d
    · rw [hjd,update_self,tree_some (by rw [ht3]; decide)]
    · rw [update_of_ne hjd,(hb3.file j hjd).tree h2,(hp.others j hjd).tree h1]
  rw [htree,hi3,hnode]
  refine .unlink (tree_some (by rw [hd]; decide)) (decide_eq_true hd) (by rw [hent]; exact hget) he
    h0 hdots.1 hdots.2 (tree_some hti) hne hpos fun hdir => ?_
  have hdir' : (fs.dinode i).type=.dir := of_decide_eq_true hdir
  rw [show (node fs i).entries=entries fs i from if_pos hdir']
  exact hempty hdir'

lemma parentLink_spec {fs1 : Fs} {b : Prop} [Decidable b] (h : InodeInv fs1 own)
    (hd : OpenDir fs1 own dp) (hs : Sound fs1 own) :
    ∃ fs2,(if b then addLink fs1 dp (-1) else fs1)=fs2 ∧ InodeInv fs2 own ∧ Kept own fs1 fs2 ∧
      locks fs2=locks fs1 ∧ Sound fs2 own ∧ Beside fs1 fs2 (fs1.itable dp).inum ∧
      (fs2.dinode (fs1.itable dp).inum).type=.dir ∧
      node fs2 (fs1.itable dp).inum=⟨(node fs1 (fs1.itable dp).inum).isDir,
        if b then short ((fs1.dinode (fs1.itable dp).inum).nlink+-1)
          else (fs1.dinode (fs1.itable dp).inum).nlink,
        (node fs1 (fs1.itable dp).inum).entries⟩ := by
  split_ifs with hb
  · obtain ⟨h2,hk2,hl2,hr2⟩ := relink_spec h hd.held hd.valid
      (f:=fun x => {x with nlink := short (x.nlink+-1)}) fun _ => ⟨rfl,rfl,rfl⟩
    obtain ⟨hin2,hv2,-⟩ := hk2 dp hd.held
    refine ⟨_,rfl,h2,hk2,hl2,sound_of_relinks hs hk2 hd.held (hv2 hd.valid) hin2 hr2,hr2.beside,?_,
      hr2.node rfl rfl⟩
    show ((iupdate _ dp).dinode _).type=_
    rw [hr2.dinode]
    exact hd.dir
  · exact ⟨fs1,rfl,h,.refl _ _,rfl,hs,⟨rfl,fun j _ => .refl _ j⟩,hd.dir,rfl⟩

lemma tree_of_relinks {v : Dinode→ℤ} (hr : Relinks fs fs' i fun x => {x with nlink := v x})
    (h : InodeInv fs own) (ht : (fs.dinode i).type≠.free) :
    tree fs'=update (tree fs) i
      (some ⟨(node fs i).isDir,v (fs.dinode i),(node fs i).entries⟩) := by
  rw [hr.beside.tree h,tree_some (by rw [hr.dinode]; exact ht),hr.node rfl rfl]

lemma free_after {fs3 fs4 : Fs} {N : ℕ} (h3 : InodeInv fs3 (Pi.single dp 1+own))
    (hne : i≠(fs3.itable dp).inum) (hcase : ¬LastLink fs3 own dp ∧ SameDisk fs3 fs4 ∨
      LastLink fs3 own dp ∧ Frees fs3 fs4 (fs3.itable dp).inum)
    (htree : tree fs'=update (tree fs4) i
      (some ⟨(node fs4 i).isDir,short ((node fs4 i).nlink+-1),(node fs4 i).entries⟩)) :
    Steps N OnlyFree (update (tree fs3) i
      (some ⟨(node fs3 i).isDir,short ((node fs3 i).nlink+-1),(node fs3 i).entries⟩))
      (tree fs') := by
  rw [htree]
  rcases hcase with ⟨-,hd⟩ | ⟨⟨-,hv,hn⟩,hf⟩
  · have hnode : node fs4 i=node fs3 i := by
      rw [node,node,entries_of_disk hd,hd.dinode]
    rw [(sameFiles_of_disk hd).tree h3,hnode]
    exact .refl _
  · have hpos : 0<(Pi.single dp 1+own : ℕ→ℕ) dp := by
      rw [single_add_self]
      omega
    obtain ⟨hc,ht⟩ := h3.loaded dp hpos hv
    rw [hc] at ht
    have hnode : node fs4 i=node fs3 i := by
      have hoc : ∀ bn,occ fs4 (i,placeOf bn)=occ fs3 (i,placeOf bn) := by
        intro bn
        rw [occ,occ,hf.dinode i hne,hf.data]
      have he : entries fs4 i=entries fs3 i := by
        rw [entries,entries,hf.dinode i hne]
        refine List.map_congr_left fun k _ => ?_
        rw [entryAt,entryAt,hoc,hf.data]
      rw [node,node,he,hf.dinode i hne]
    rw [tree_of_frees hf h3,hnode,update_comm hne.symm]
    refine Steps.single ?_ (.free (n:=node fs3 (fs3.itable dp).inum) ?_ hn)
    · trivial
    · rw [update_of_ne hne.symm]
      exact tree_some ht

lemma Unlinking.finish (hu : Unlinking fs fs' own dp ip m e) (h : InodeInv fs own)
    (hs : Sound fs own) (hpos : 1≤(fs'.dinode (fs'.itable ip).inum).nlink)
    (hempty : (fs'.dinode (fs'.itable ip).inum).type=.dir→
      ∀ e∈(entries fs' (fs'.itable ip).inum).drop 2,e.inum=0)
    (hok : ok (.unlink (fs'.itable dp).inum e.inum)) (hstop : stop "iunlock")
    (hstop' : stop "unlink: writei") :
    Ensures stop (do
      let (fs,n) ← writei fs' dp Dirent.zero.encode (direntSize*m) direntSize
      if n≠direntSize then .panic "unlink: writei"
      else do
        let fs := if (fs.itable ip).copy.type=.dir then addLink fs dp (-1) else fs
        let fs ← iunlockput fs dp
        let fs ← iunlockput (addLink fs ip (-1)) ip
        pure (fs,(0 : ℤ))) (Leaves fs own ok) := by
  have hs1 := hs.quiet hu.quiet
  obtain ⟨hcp,hmod⟩ := hu.openDir.copy hu.inv hs1.formed
  have hlen : m<(fs'.itable dp).copy.size/direntSize := by
    have := (List.getElem?_eq_some_iff.mp hu.get).1
    rw [entries,List.length_map,List.length_range] at this
    rw [(hu.inv.loaded dp hu.openDir.held hu.openDir.valid).1]
    exact this
  obtain ⟨fs2,n,hwrite,h2,hup,hk2,hcase⟩ := @writei_entry fs' _ dp hu.inv hu.openDir.held
    hu.openDir.valid m Dirent.zero (Nat.le_of_lt hlen) hmod (by decide) (by decide)
  rw [hwrite,next_bind]
  rcases hcase with ⟨hn,-⟩ | ⟨hn,hp⟩
  · simp only [if_pos hn]
    exact hstop'
  have hipos := @Unlinking.held own ip dp
  obtain ⟨hci,hti⟩ := hu.inv.loaded ip hipos hu.valid
  rw [hci] at hti
  have hsl1 : Sound fs' (Pi.single ip 1+(Pi.single dp 1+own)) :=
    ⟨hs1.formed,(hs1.lives.add (by rw [hu.openDir.dir]; decide)).add hti⟩
  have hsl2 := sound_of_places hsl1 hk2 hup.sb hp hu.openDir.dir
  have hopen2 := hu.openDir.kept hk2
  have hdin2 := (hk2 dp hu.openDir.held).inum
  obtain ⟨hiin2,hiv2,hit2⟩ := hk2 ip hipos
  have hb : (fs2.itable ip).copy.type=(fs'.dinode (fs'.itable ip).inum).type := by
    grind [h2.loaded,hu.valid]
  obtain ⟨fs3,hfs3,h3,hk3,hl3,hsl3,hb3,ht3,hn3⟩ :=
    @parentLink_spec _ dp fs2 ((fs2.itable ip).copy.type=.dir) _ h2 hopen2 hsl2
  rw [hdin2] at hb3 ht3 hn3
  simp only [hn,ne_eq,not_true_eq_false,if_false,hfs3]
  obtain ⟨hiin3,hiv3,-⟩ := hk3 ip hipos
  have hdin3 := ((hk3 dp hu.openDir.held).inum.trans hdin2)
  have hsound3 := hsl3
  rw [add_left_comm] at h3 hsound3
  refine (iunlockput_spec h3 hstop).bind ?_
  rintro fs4 ⟨h4,hk4,hl4,hcase⟩
  obtain ⟨hs4,hsb4,-⟩ := drop_lives h3 hsound3.formed hsound3.lives hk4 hcase
  have hipos4 := single_pos own ip
  obtain ⟨hiin4,hiv4,-⟩ := hk4 ip hipos4
  have hin4 : (fs4.itable ip).inum=(fs'.itable ip).inum := (hiin4.trans hiin3).trans hiin2
  have hv4 := hiv4 (hiv3 (hiv2 hu.valid))
  obtain ⟨h5,hk5,hl5,hr5⟩ := relink_spec h4 hipos4 hv4
    (f:=fun x => {x with nlink := short (x.nlink+-1)}) fun _ => ⟨rfl,rfl,rfl⟩
  obtain ⟨hin5,hv5,-⟩ := hk5 ip hipos4
  have hs5 := sound_of_relinks hs4 hk5 hipos4 (hv5 hv4) hin5 hr5
  rw [hin4] at hr5
  refine (iunlockput_lives h5 hs5.formed hs5.lives hstop).bind ?_
  rintro fs6 ⟨h6,hk6,hl6,hs6,hsb6,hst6⟩
  have hsb5 : (addLink fs4 ip (-1)).sb=fs.sb :=
    (((hr5.beside.sb.trans hsb4).trans hb3.sb).trans hup.sb).trans hu.quiet.disk.sb
  have hkept : Kept own fs fs6 := by
    have h23 : Kept own fs' fs3 := (hk2.trans hk3).mono fun jp hj =>
      single_add_pos (single_add_pos hj)
    have h45 : Kept own fs3 (addLink fs4 ip (-1)) := (hk4.trans hk5).mono fun jp hj =>
      single_add_pos hj
    exact ((hu.quiet.kept.trans h23).trans h45).trans hk6
  have hstep := unlink_step hu.inv h2 hu.openDir.dir hti hu.ne hu.get hu.inum.symm
    (by rw [hu.inum]; exact hu.used) hu.dots hpos hempty hp hn3
    (by simp only [hb]; obtain ⟨a,size,hdi,-⟩ := hp.fields; rw [hdi]) ht3 hb3
  rw [tree_quiet h hu.quiet,hu.quiet.disk.sb,hu.inum] at hstep
  refine ⟨h6,hkept,?_,hs6,hsb6.trans hsb5,by rintro ⟨⟩,_,
    .inr ⟨_,hok,hstep⟩,?_⟩
  · obtain ⟨hfd,hfi,hne⟩ := hu.unlocked
    show locks fs6=_
    rw [hl6,hl5,hl4,hl3,locks_of_updates hup,hu.lock,relock_of_ne hne hfd,relock hfi]
  · change Steps (addLink fs4 ip (-1)).sb.ninodes OnlyFree _ _ at hst6
    rw [hsb5] at hst6
    refine Steps.trans ?_ hst6
    have hine : e.inum≠(fs3.itable dp).inum := by
      rw [hdin3,←hu.inum]
      exact hu.ne
    have hti4 : (fs4.dinode (fs'.itable ip).inum).type≠.free := by grind [hs4.lives.held]
    have htree5 := tree_of_relinks hr5 h4 hti4
    rw [hu.inum] at htree5
    exact free_after h3 hine hcase htree5

lemma unlinkEntry_spec (hu : Unlinking fs fs' own dp ip m e) (h : InodeInv fs own)
    (hs : Sound fs own) (hok : ok (.unlink (fs'.itable dp).inum e.inum)) :
    Ensures (Stops (tree fs)) (unlinkEntry fs' dp ip (direntSize*m)) (Leaves fs own ok) := by
  have hs1 := hs.quiet hu.quiet
  have hipos := @Unlinking.held own ip dp
  obtain ⟨hci,hti⟩ := hu.inv.loaded ip hipos hu.valid
  have hti' := hti
  rw [hci] at hti'
  rw [unlinkEntry]
  split_ifs with hn
  · refine ⟨fun hc => absurd hc (by decide),fun _ => ?_,by decide⟩
    rw [←tree_quiet h hu.quiet]
    refine ⟨_,_,e,node fs' e.inum,tree_some (by rw [hu.openDir.dir]; decide),
      decide_eq_true hu.openDir.dir,?_,hu.used,hu.dots.1,hu.dots.2,?_,?_⟩
    · rw [show (node fs' (fs'.itable dp).inum).entries=_ from if_pos hu.openDir.dir]
      exact List.mem_of_getElem? hu.get
    · rw [←hu.inum]
      exact tree_some hti'
    · rw [hci,hu.inum] at hn
      exact hn
  · have hpos : 1≤(fs'.dinode (fs'.itable ip).inum).nlink := by
      rw [←hci]
      omega
    obtain ⟨b,hrun,hempty⟩ : ∃ b,mayUnlink fs' ip=.next (fs',b) ∧ (b=true→
        (fs'.dinode (fs'.itable ip).inum).type=.dir→
          ∀ e∈(entries fs' (fs'.itable ip).inum).drop 2,e.inum=0) := by
      rw [mayUnlink]
      split_ifs with hdir
      · have hopen : OpenDir fs' (Pi.single ip 1+(Pi.single dp 1+own)) ip :=
          ⟨hipos,hu.valid,by rw [←hci]; exact hdir⟩
        obtain ⟨b,hrun,hb⟩ := isdirempty_spec hu.inv hopen hs1.formed rfl
        exact ⟨b,hrun,fun hb' _ => hb hb'⟩
      · refine ⟨true,rfl,fun _ hd => ?_⟩
        grind
    rw [hrun,next_bind]
    cases b with
    | false =>
      simp only [Bool.false_eq_true,if_false]
      exact hu.giveUp h hs (stops_other _ (by decide))
    | true =>
      simp only [if_true]
      exact hu.finish h hs hpos (hempty rfl) hok (stops_other _ (by decide))
        (stops_other _ (by decide))

lemma sysUnlink_spec (h : InodeInv fs own) (hs : Sound fs own) (hcwd : 0<own cwd)
    (path : List UInt8) :
    Ensures (Stops (tree fs)) (sysUnlink fs cwd path)
      (Leaves fs own (Unlinks (tree fs) (fs.itable cwd).inum path)) := by
  refine (namex_spec true path h hs hcwd (stops_namex _)).bind ?_
  rintro ⟨fs1,r⟩ ⟨hq1,hl1,hr⟩
  cases r with
  | none => exact .quiet h hs hr hq1 hl1
  | some q =>
    obtain ⟨dp,name⟩ := q
    have hfind : Finds fs fs1 own true (resolve true (tree fs) (fs.itable cwd).inum path) dp name :=
      hr
    have hdpos := single_pos own dp
    have hdir1 := hfind.dir rfl
    refine (ilock_spec hfind.inv hdpos fun hc => absurd (hdir1.symm.trans hc) (by decide)).bind ?_
    rintro fs2 ⟨h2,hq2,hv2,hfl2,hl2⟩
    have hq2' : Quiet own fs fs2 := hq1.trans (hq2.mono fun jp hj => single_add_pos hj)
    have hs2 := hs.quiet hq2'
    have hin2 := (hq2.kept dp hdpos).inum
    rw [show locks fs1=locks fs from hl1] at hfl2 hl2
    have hopen : OpenDir fs2 (Pi.single dp 1+own) dp := by
      refine ⟨hdpos,hv2,?_⟩
      rw [hin2,(hq2.kept dp hdpos).type]
      exact hdir1
    have hback : Ensures (Stops (tree fs)) (do
        let fs ← iunlockput fs2 dp
        pure (fs,(-1 : ℤ))) (Leaves fs own (Unlinks (tree fs) (fs.itable cwd).inum path)) := by
      refine (iunlockput_quiet h2 hs2.lives le_rfl (stops_other _ (by decide))).bind ?_
      rintro fs3 ⟨h3,hq3,hl3⟩
      refine .quiet h hs h3 (hq2'.trans hq3) ?_
      rw [hl3,hl2,relock hfl2]
    split_ifs with hdots
    · exact hback
    · refine (dirlookup_spec h2 hopen hs2.formed name rfl (stops_other _ (by decide))).bind ?_
      rintro ⟨fs3,r⟩ hr3
      cases r with
      | none =>
        obtain ⟨hfs,-⟩ := hr3
        obtain rfl : fs3=fs2 := hfs
        exact hback
      | some q =>
        obtain ⟨ip,off⟩ := q
        obtain ⟨h3,hq3,hl3,m,e,rfl,hget,h0,hname,hlook,hin3⟩ := hr3
        have hq3' : Quiet own fs fs3 := hq2'.trans (hq3.mono fun jp hj => single_add_pos hj)
        have hipos := @Unlinking.held own ip dp
        have hlost : (fs3.dinode (fs3.itable ip).inum).type=.free→Lost (tree fs) := by
          intro hf
          rw [show (fs3.itable ip).inum=e.inum from hin3,
            show fs3.dinode=fs2.dinode from hq3.disk.dinode] at hf
          rw [←tree_quiet h hq2']
          exact lost_of_entry hopen.dir (List.mem_of_getElem? hget) h0 hf
        refine (ilock_spec h3 hipos fun hf => stops_lost (hlost hf)).bind ?_
        rintro fs4 ⟨h4,hq4,hv4,hfl4,hl4⟩
        have hq4' : Quiet own fs fs4 := hq3'.trans
          (hq4.mono fun jp hj => single_add_pos (single_add_pos hj))
        have hk24 : Kept (Pi.single dp 1+own) fs2 fs4 :=
          hq3.kept.trans (hq4.kept.mono fun jp hj => single_add_pos hj)
        have hd24 : SameDisk fs2 fs4 := hq3.disk.trans hq4.disk
        have hopen4 := (hopen.kept hk24).add ip
        have hdin4 : (fs4.itable dp).inum=(fs2.itable dp).inum := (hk24 dp hdpos).inum
        rw [show locks fs3=locks fs2 from hl3,hl2] at hfl4 hl4
        have hne : ip≠dp := by
          rintro rfl
          rw [update_self] at hfl4
          exact absurd hfl4 (by decide)
        rw [update_of_ne hne] at hfl4
        have hnd : ∀ s,namecmp name s=false→namecmp s e.name=false := by
          intro s hs
          rw [Bool.eq_false_iff] at hs ⊢
          intro hc
          rw [namecmp_iff] at hname hc
          exact hs ((namecmp_iff _ _).mpr (hname.trans hc.symm))
        simp only [Bool.or_eq_true,not_or,Bool.not_eq_true] at hdots
        have hu : Unlinking fs fs4 own dp ip m e := by
          refine ⟨h4,hq4',hl4,⟨hfl2,hfl4,hne⟩,hopen4,hv4,?_,
            (hq4.kept ip hipos).inum.trans hin3,h0,hnd _ hdots.1,hnd _ hdots.2⟩
          rw [hdin4,entries_of_disk hd24]
          exact hget
        refine unlinkEntry_spec hu h hs ?_
        refine ⟨_,name,node fs2 (fs2.itable dp).inum,e,hfind.found,?_,?_,by rw [hdin4,hin2]⟩
        · rw [←tree_quiet h hq2',←hin2]
          exact tree_some (by rw [hopen.dir]; decide)
        · rw [show (node fs2 (fs2.itable dp).inum).entries=_ from if_pos hopen.dir]
          exact hlook

end Unlink

end Xv6Riscv.LinkSpecs
