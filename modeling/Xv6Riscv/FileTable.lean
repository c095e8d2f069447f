import Xv6Riscv.LinkSpecs
import Xv6Riscv.PipeLifetime

/-!
# The file table

An entry of ftable counts the descriptors that point to it, and an entry for
an inode holds one reference to it. The specifications take the counts as
parameters: the descriptors of all processes, and the references to inodes
that are held outside of the file table.
-/

namespace Xv6Riscv.FileTable

open Function
open Transition OutcomeLogic InodeLayer BlockOwnership InodeTable FileTree FileView DirectorySpecs
  NamingSpecs LinkSpecs FileSyscalls PipeLifetime

variable {fs fs' : Fs} {own own' refs refs' : ℕ→ℕ} {ip f : ℕ} {s s' : Sys} {e : File}
  {stop : String→Prop}

lemma sound_of_contents (h : InodeInv fs own) (hs : Sound fs own) (hip : 0<own ip)
    (hv : (fs.itable ip).valid=true) (hd : (fs.dinode (fs.itable ip).inum).type≠.dir)
    (h' : InodeInv fs' own) (hu : Updates fs fs' ip)
    (hc : ∃ a size,(fs'.itable ip).copy={(fs.itable ip).copy with addrs := a,size := size}) :
    Sound fs' own ∧ Kept own fs fs' ∧ tree fs'=tree fs := by
  obtain ⟨d,hself⟩ := hu.self
  obtain ⟨a,size,hcopy⟩ := hc
  have hv' : (fs'.itable ip).valid=true := by
    rw [hself]
    exact hv
  have hin : (fs'.itable ip).inum=(fs.itable ip).inum := by rw [hself]
  obtain ⟨hload,halloc⟩ := h.loaded ip hip hv
  have hload' := (h'.loaded ip hip hv').1
  rw [hin] at hload'
  have hdin : fs'.dinode (fs.itable ip).inum=
      {fs.dinode (fs.itable ip).inum with addrs := a,size := size} := by
    rw [←hload',hcopy,hload]
  rw [hload] at halloc
  have hkept := kept_of_updates h hip hv hu h' (by rw [hcopy])
  have hb := beside_of_updates hu
  refine ⟨⟨formed_of_beside hs.formed hb (fun ht => ?_) fun ht => ?_,
    lives_of_beside hs.lives hb hkept fun _ _ => ⟨ip,hip,hin,hv'⟩⟩,hkept,?_⟩
  · grind
  · rw [hdin]
    exact hs.formed.shorts _ halloc
  · rw [hb.tree h,tree_some (by rw [hdin]; exact halloc)]
    refine update_eq_self_iff.mpr ?_
    rw [tree_some halloc,node,node,hdin]
    simp only [if_neg hd]

def slotOwn (e : File) : ℕ→ℕ :=
  if e.type=.inode ∨ e.type=.device then Pi.single e.ip 1 else 0

def fileOwn (ftable : ℕ→File) : ℕ→ℕ := Tally.total nfile slotOwn ftable

lemma slotOwn_pos (h : e.type=.inode ∨ e.type=.device) : 0<slotOwn e e.ip := by
  rw [slotOwn,if_pos h,Pi.single_eq_same]
  exact Nat.one_pos

structure TableInv (s : Sys) (refs own : ℕ→ℕ) : Prop where
  ref : ∀ f,(s.ftable f).ref=refs f
  slots : ∀ f,0<refs f→f<nfile
  unused : ∀ f,refs f=0→(s.ftable f).type=.none
  inode : InodeInv s.fs (fileOwn s.ftable+own)
  sound : Sound s.fs (fileOwn s.ftable+own)
  writes : ∀ f,(s.ftable f).type=.inode→(s.ftable f).writable=true→
    (s.fs.dinode (s.fs.itable (s.ftable f).ip).inum).type≠.dir

structure FileInv (s : Sys) (refs own : ℕ→ℕ) : Prop extends TableInv s refs own where
  pipes : PipeInv s

variable (h : TableInv s refs own)

include h

lemma TableInv.pos (hf : (s.ftable f).type≠.none) : 0<refs f := by
  by_contra hc
  exact hf (h.unused f (by omega))

lemma TableInv.held (hf : (s.ftable f).type=.inode ∨ (s.ftable f).type=.device) :
    0<fileOwn s.ftable (s.ftable f).ip := by
  have hne : (s.ftable f).type≠.none := by grind
  exact lt_of_lt_of_le (slotOwn_pos hf) (Tally.le_total slotOwn s.ftable (h.slots f (h.pos hne)) _)

lemma TableInv.congr (hf : s'.ftable=s.ftable) (hfs : s'.fs=s.fs) : TableInv s' refs own := by
  obtain ⟨h1,h2,h3,h4,h5,h6⟩ := h
  exact ⟨by rw [hf]; exact h1,h2,by rw [hf]; exact h3,by rw [hf,hfs]; exact h4,
    by rw [hf,hfs]; exact h5,by rw [hf,hfs]; exact h6⟩

lemma TableInv.setFile (hf : f<nfile) (hrefs : ∀ g,g≠f→ refs' g=refs g) (href : e.ref=refs' f)
    (hnone : refs' f=0→ e.type=.none) (hown : slotOwn e+own'=slotOwn (s.ftable f)+own)
    (hw : e.type=.inode→e.writable=true→(s.fs.dinode (s.fs.itable e.ip).inum).type≠.dir) :
    TableInv (s.setFile f e) refs' own' := by
  have hsum : fileOwn (s.setFile f e).ftable+own'=fileOwn s.ftable+own := by
    have hx := Tally.total_update slotOwn s.ftable hf e
    funext ip
    have hx' := congrFun hx ip
    have ho' := congrFun hown ip
    simp only [Pi.add_apply] at hx' ho' ⊢
    show Tally.total nfile slotOwn (update s.ftable f e) ip+_=
      Tally.total nfile slotOwn s.ftable ip+_
    omega
  have hself : (s.setFile f e).ftable f=e := update_self _ _ _
  have hother : ∀ g,g≠f→(s.setFile f e).ftable g=s.ftable g := fun g hg =>
    update_of_ne hg _ _
  refine ⟨fun g => ?_,fun g hg => ?_,fun g hg => ?_,by rw [hsum]; exact h.inode,
    by rw [hsum]; exact h.sound,fun g hg hgw => ?_⟩
  · grind [h.ref]
  · by_cases hgf : g=f
    · rw [hgf]
      exact hf
    · rw [hrefs g hgf] at hg
      exact h.slots g hg
  · grind [h.unused]
  · by_cases hgf : g=f
    · rw [hgf,hself] at hg hgw ⊢
      exact hw hg hgw
    · rw [hother g hgf] at hg hgw ⊢
      exact h.writes g hg hgw

lemma TableInv.setFs (hi : InodeInv fs' (fileOwn s.ftable+own'))
    (hs : Sound fs' (fileOwn s.ftable+own')) (hk : Kept (fileOwn s.ftable) s.fs fs') :
    TableInv {s with fs := fs'} refs own' := by
  refine ⟨h.ref,h.slots,h.unused,hi,hs,fun f hf hw => ?_⟩
  have hh := hk _ (h.held (.inl hf))
  show (fs'.dinode (fs'.itable (s.ftable f).ip).inum).type≠.dir
  rw [hh.inum,hh.type]
  exact h.writes f hf hw

omit h

lemma FileInv.setFs (h : FileInv s refs own) (hi : InodeInv fs' (fileOwn s.ftable+own'))
    (hs : Sound fs' (fileOwn s.ftable+own')) (hk : Kept (fileOwn s.ftable) s.fs fs') :
    FileInv {s with fs := fs'} refs own' :=
  ⟨h.toTableInv.setFs hi hs hk,h.pipes.files rfl rfl rfl fun _ => ⟨Iff.rfl,fun _ => ⟨rfl,rfl⟩⟩⟩

lemma FileInv.setFile (h : FileInv s refs own) (hf : f<nfile)
    (hrefs : ∀ g,g≠f→ refs' g=refs g) (href : e.ref=refs' f) (hnone : refs' f=0→ e.type=.none)
    (hown : slotOwn e+own'=slotOwn (s.ftable f)+own)
    (hw : e.type=.inode→e.writable=true→(s.fs.dinode (s.fs.itable e.ip).inum).type≠.dir)
    (ht : e.type=.pipe ↔ (s.ftable f).type=.pipe)
    (he : (s.ftable f).type=.pipe→e.pipe=(s.ftable f).pipe ∧ e.writable=(s.ftable f).writable) :
    FileInv (s.setFile f e) refs' own' :=
  ⟨h.toTableInv.setFile hf hrefs href hnone hown hw,h.pipes.setFile ht he⟩

lemma FileInv.setRef (h : FileInv s refs own) (hf : f<nfile) {n : ℤ}
    (hrefs : ∀ g,g≠f→ refs' g=refs g) (href : n=refs' f)
    (hnone : refs' f=0→(s.ftable f).type=.none) :
    FileInv (s.setFile f {s.ftable f with ref := n}) refs' own :=
  h.setFile hf hrefs href hnone rfl (h.writes f) Iff.rfl fun _ => ⟨rfl,rfl⟩

/-- What dropping references leaves alone in a file system. -/
structure Trims (fs fs' : Fs) (own : ℕ→ℕ) : Prop where
  kept : Kept own fs fs'
  lock : locks fs'=locks fs
  sb : fs'.sb=fs.sb
  freed : Steps fs.sb.ninodes OnlyFree (tree fs) (tree fs')

lemma Trims.refl (fs : Fs) (own : ℕ→ℕ) : Trims fs fs own := ⟨.refl own fs,rfl,rfl,.refl _⟩

lemma Trims.trans {fs1 fs2 : Fs} (h : Trims fs fs1 own) (h' : Trims fs1 fs2 own) :
    Trims fs fs2 own := by
  have hfr := h'.freed
  rw [h.sb] at hfr
  exact ⟨h.kept.trans h'.kept,h'.lock.trans h.lock,h'.sb.trans h.sb,h.freed.trans hfr⟩

lemma Trims.mono (h : Trims fs fs' own') (hle : ∀ ip,0<own ip→0<own' ip) : Trims fs fs' own :=
  ⟨h.kept.mono hle,h.lock,h.sb,h.freed⟩

lemma trims_quiet (h : InodeInv fs own') (hq : Quiet own fs fs') (hl : locks fs'=locks fs) :
    Trims fs fs' own := by
  refine ⟨hq.kept,hl,hq.disk.sb,?_⟩
  rw [tree_quiet h hq]
  exact .refl _

structure Drops (s s' : Sys) (own : ℕ→ℕ) : Prop extends Trims s.fs s'.fs own where
  proc : s'.proc=s.proc

lemma Drops.of_fs (own : ℕ→ℕ) (hfs : s'.fs=s.fs) (hp : s'.proc=s.proc) : Drops s s' own := by
  refine ⟨?_,hp⟩
  rw [hfs]
  exact .refl s.fs own

lemma Drops.refl (s : Sys) (own : ℕ→ℕ) : Drops s s own := .of_fs own rfl rfl

lemma Drops.trans {s1 s2 : Sys} (h : Drops s s1 own) (h' : Drops s1 s2 own) :
    Drops s s2 own := ⟨h.toTrims.trans h'.toTrims,h'.proc.trans h.proc⟩

lemma filedup_spec (h : FileInv s refs own) (hf : 0<refs f) :
    ∃ s',filedup s f=.next s' ∧ FileInv s' (Pi.single f 1+refs) own ∧ s'.fs=s.fs ∧
      s'.proc=s.proc := by
  have href := h.ref f
  refine ⟨s.setFile f {s.ftable f with ref := (s.ftable f).ref+1},if_neg (by omega),
    h.setRef (h.slots f hf) (fun g hg => single_add_of_ne refs hg) ?_ fun h0 => ?_,rfl,rfl⟩
  · rw [single_add_self,href]
    push_cast
    rfl
  · rw [single_add_self] at h0
    omega

lemma dropInode_spec (h : FileInv s (Pi.single f 1+refs) own) (h0 : refs f=0)
    (hty : (s.ftable f).type=.inode ∨ (s.ftable f).type=.device) (hf : f<nfile) :
    Ensures stop (do
      let fs ← iput s.fs (s.ftable f).ip
      pure {s.setFile f {s.ftable f with ref := 0,type := .none} with fs := fs})
      fun s' => FileInv s' refs own ∧ Drops s s' own := by
  have h1 : FileInv (s.setFile f {s.ftable f with ref := 0,type := .none}) refs
      (Pi.single (s.ftable f).ip 1+own) := by
    refine h.setFile hf (fun g hg => (single_add_of_ne refs hg).symm) ?_ (fun _ => rfl) ?_
      nofun ⟨nofun,fun hc => ?_⟩ fun hc => ?_
    · rw [h0]
      rfl
    · grind [slotOwn]
    · grind
    · grind
  have hinv := h1.inode
  have hsound := h1.sound
  rw [add_left_comm] at hinv hsound
  refine (iput_lives hinv hsound.formed hsound.lives).bind ?_
  rintro fs' ⟨h2,hk2,hl2,hs2,hsb2,hst2⟩
  refine ⟨h1.setFs h2 hs2 (hk2.mono fun jp hj => ?_),⟨hk2.mono fun jp hj => ?_,hl2,hsb2,hst2⟩,
    rfl⟩
  · exact Nat.add_pos_left hj _
  · exact Nat.add_pos_right _ hj

lemma fileclose_spec (h : FileInv s (Pi.single f 1+refs) own) :
    Ensures stop (fileclose s f) fun s' => FileInv s' refs own ∧ Drops s s' own := by
  have href := h.ref f
  rw [single_add_self] at href
  have hf : f<nfile := h.slots f (single_pos ..)
  have hothers : ∀ g,g≠f→ refs g=(Pi.single f 1+refs : ℕ→ℕ) g := fun g hg =>
    (single_add_of_ne refs hg).symm
  rw [fileclose]
  simp only
  rw [if_neg (by omega)]
  split_ifs with hmore
  · have h1 := h.setRef (n := (s.ftable f).ref-1) hf hothers
      (by omega) fun h0 => by omega
    exact ⟨h1,.of_fs own rfl rfl⟩
  · have h0 : refs f=0 := by omega
    have hunused : slotOwn {s.ftable f with ref := 0,type := .none}=0 := if_neg (by simp)
    split
    next hty =>
      have h1 : FileInv (s.setFile f {s.ftable f with ref := 0,type := .none}) refs own :=
        h.setFile hf hothers (by rw [h0]; rfl) (fun _ => rfl)
          (by rw [hunused,slotOwn,if_neg (by rw [hty]; decide)])
          nofun (by rw [hty]) fun hc => absurd (hty.symm.trans hc) (by simp)
      exact ⟨h1,.of_fs own rfl rfl⟩
    next hty =>
      have h1 : TableInv (s.setFile f {s.ftable f with ref := 0,type := .none}) refs own :=
        h.toTableInv.setFile hf hothers (by rw [h0]; rfl) (fun _ => rfl)
          (by rw [hunused,slotOwn,if_neg (by rw [hty]; decide)]) nofun
      refine ⟨⟨h1.congr (pipeclose_ftable _) (pipeclose_fs _),
        h.pipes.closes hty (pipeclose_closes (by simp))⟩,
        .of_fs own (pipeclose_fs _) (pipeclose_proc _)⟩
    next hty => exact dropInode_spec h h0 (.inl hty) hf
    next hty => exact dropInode_spec h h0 (.inr hty) hf

lemma filealloc_spec (h : FileInv s refs own) (hf : filealloc s=some f) :
    f<nfile ∧ refs f=0 ∧ (s.ftable f).type=.none := by
  obtain ⟨hr,hm,-⟩ := List.find?_range_eq_some.mp hf
  have href := h.ref f
  rw [decide_eq_true_iff] at hr
  have h0 : refs f=0 := by omega
  exact ⟨List.mem_range.mp hm,h0,h.unused f h0⟩

lemma takeFile_spec (h : FileInv s refs own) (hf : filealloc s=some f) :
    FileInv (s.takeFile f) (Pi.single f 1+refs) own := by
  obtain ⟨hlt,h0,-⟩ := filealloc_spec h hf
  refine h.setRef hlt (fun g hg => single_add_of_ne refs hg) ?_ fun hc => ?_
  · rw [single_add_self,h0]
    rfl
  · rw [single_add_self] at hc
    omega

lemma takeFile_type (s : Sys) (f g : ℕ) :
    ((s.takeFile f).ftable g).type=(s.ftable g).type := by
  show (update s.ftable f _ g).type=_
  grind

lemma drops_takeFile (s : Sys) (f : ℕ) (own : ℕ→ℕ) : Drops s (s.takeFile f) own :=
  .of_fs own rfl rfl

lemma slotOwn_other (h : e.type=.none ∨ e.type=.pipe) : slotOwn e=0 := by
  refine if_neg fun hc => ?_
  grind

lemma TableInv.setPipe (h : TableInv s refs own) (hf : 0<refs f)
    (hty : (s.ftable f).type=.none) {r w : Bool} {pg : ℕ} :
    TableInv (s.setFile f {s.ftable f with
      type := .pipe,readable := r,writable := w,pipe := pg}) refs own := by
  refine h.setFile (h.slots f hf) (fun _ _ => rfl) (h.ref f) (fun h0 => by omega) ?_
    nofun
  rw [slotOwn_other (.inl hty),slotOwn_other (.inr rfl)]

lemma openPipe_spec {f0 f1 pg : ℕ} (h : FileInv s refs own) (hne : f0≠f1) (h0 : 0<refs f0)
    (h1 : 0<refs f1) (hty0 : (s.ftable f0).type=.none) (hty1 : (s.ftable f1).type=.none)
    (hpg : s.used pg=false) : FileInv (s.openPipe pg f0 f1) refs own := by
  refine ⟨?_,h.pipes.openPipe hne (by rw [hty0]; decide) (by rw [hty1]; decide) hpg⟩
  let s1 : Sys := {s with
    pipe := update s.pipe pg ⟨s.history.length,true,true⟩
    used := update s.used pg true
    history := .created s.history.length::s.history}
  have hs1 : TableInv s1 refs own := h.toTableInv.congr rfl rfl
  have hs2 : TableInv (s1.setFile f0 {s1.ftable f0 with
      type := .pipe,readable := true,writable := false,pipe := pg}) refs own :=
    hs1.setPipe h0 hty0
  refine hs2.setPipe h1 ?_
  show (update s.ftable f0 _ f1).type=.none
  rw [update_of_ne hne.symm]
  exact hty1

lemma pipealloc_spec (h : FileInv s refs own) (page : Option ℕ) :
    Ensures stop (pipealloc s page) fun r =>
      match r.2 with
      | none => FileInv r.1 refs own ∧ Drops s r.1 own
      | some (f0,f1) => FileInv r.1 (Pi.single f0 1+(Pi.single f1 1+refs)) own ∧ r.1.fs=s.fs ∧
        r.1.proc=s.proc := by
  rw [pipealloc]
  cases hf0 : filealloc s with
  | none => exact ⟨h,.refl s own⟩
  | some f0 =>
    obtain ⟨-,hz0,hty0⟩ := filealloc_spec h hf0
    have ht0 := takeFile_spec h hf0
    simp only
    cases hf1 : filealloc (s.takeFile f0) with
    | none =>
      refine (fileclose_spec ht0).bind ?_
      rintro s2 ⟨h2,hd2⟩
      exact ⟨h2,(drops_takeFile s f0 own).trans hd2⟩
    | some f1 =>
      obtain ⟨-,hz1,hty1⟩ := filealloc_spec ht0 hf1
      have hne : f0≠f1 := by
        rintro rfl
        rw [single_add_self] at hz1
        omega
      have ht1 := takeFile_spec ht0 hf1
      cases page with
      | none =>
        simp only
        rw [add_left_comm] at ht1
        refine (fileclose_spec ht1).bind ?_
        rintro s2 ⟨h2,hd2⟩
        refine (fileclose_spec h2).bind ?_
        rintro s3 ⟨h3,hd3⟩
        exact ⟨h3,((drops_takeFile s f0 own).trans (drops_takeFile _ f1 own)).trans
          (hd2.trans hd3)⟩
      | some pg =>
        simp only
        split_ifs with hu
        · trivial
        · rw [add_left_comm] at ht1
          refine ⟨openPipe_spec ht1 hne ?_ ?_ (by rw [takeFile_type,takeFile_type,hty0])
            (by rw [takeFile_type,hty1]) (eq_false_of_ne_true hu),rfl,rfl⟩
          · rw [single_add_self]
            omega
          · rw [single_add_of_ne _ hne.symm,single_add_self]
            omega

structure Rewrites (fs : Fs) (own : ℕ→ℕ) (fs' : Fs) : Prop where
  inv : InodeInv fs' own
  sound : Sound fs' own
  kept : Kept own fs fs'
  sb : fs'.sb=fs.sb
  tree : tree fs'=tree fs

lemma Rewrites.refl (h : InodeInv fs own) (hs : Sound fs own) : Rewrites fs own fs :=
  ⟨h,hs,.refl own fs,rfl,rfl⟩

lemma Rewrites.trans {fs1 fs2 : Fs} (h : Rewrites fs own fs1) (h' : Rewrites fs1 own fs2) :
    Rewrites fs own fs2 :=
  ⟨h'.inv,h'.sound,h.kept.trans h'.kept,h'.sb.trans h.sb,h'.tree.trans h.tree⟩

lemma Rewrites.quiet (h : InodeInv fs own) (hs : Sound fs own) (h' : InodeInv fs' own)
    (hq : Quiet own fs fs') : Rewrites fs own fs' :=
  ⟨h',hs.quiet hq,hq.kept,hq.disk.sb,tree_quiet h hq⟩

lemma openTrunc_spec (h : InodeInv fs own) (hs : Sound fs own) (hip : 0<own ip)
    (hv : (fs.itable ip).valid=true) (omode : ℕ) :
    Ensures stop (openTrunc fs ip omode) fun fs' =>
      Rewrites fs own fs' ∧ locks fs'=locks fs := by
  rw [openTrunc]
  split_ifs with hc
  · obtain ⟨fs',hrun,h',hu,-,⟨a,hcopy⟩,-⟩ := itrunc_spec h hip hv
    rw [hrun]
    have hd : (fs.dinode (fs.itable ip).inum).type≠.dir := by
      rw [←(h.loaded ip hip hv).1,hc.2]
      decide
    obtain ⟨hs',hk',ht'⟩ := sound_of_contents h hs hip hv hd h' hu ⟨a,0,hcopy⟩
    exact ⟨⟨h',hs',hk',hu.sb,ht'⟩,locks_of_updates hu⟩
  · exact ⟨.refl h hs,rfl⟩

lemma writeAt_spec (h : InodeInv fs own) (hs : Sound fs own) (hip : 0<own ip)
    (hd : (fs.dinode (fs.itable ip).inum).type≠.dir) (src : List UInt8) (off n : ℕ) (t : Tree) :
    Ensures (Stops t) (writeAt fs ip src off n) fun r =>
      Rewrites fs own r.1 ∧ locks r.1=locks fs := by
  have hheld := hs.lives.held ip hip
  refine (ilock_spec h hip fun hf => absurd hf hheld).bind ?_
  rintro fs1 ⟨h1,hq1,hv1,hfl1,hl1⟩
  have hr1 := Rewrites.quiet h hs h1 hq1
  have hh1 := hq1.kept ip hip
  obtain ⟨fs2,n2,hrun,h2,hu2,hcopy⟩ := writei_spec h1 hip hv1 src off n
  rw [hrun]
  obtain ⟨hs2,hk2,ht2⟩ := sound_of_contents h1 hr1.sound hip hv1
    (by rw [hh1.inum,hh1.type]; exact hd) h2 hu2 hcopy
  refine (iunlock_spec h2 hip (stops_other t (by decide))).bind ?_
  rintro fs3 ⟨h3,hq3,hl3,-⟩
  refine ⟨(hr1.trans ⟨h2,hs2,hk2,hu2.sb,ht2⟩).trans (.quiet h2 hs2 h3 hq3),?_⟩
  show locks fs3=locks fs
  rw [hl3,locks_of_updates hu2,hl1,relock hfl1]

lemma FileInv.rewrite (h : FileInv s refs own) (hr : Rewrites s.fs (fileOwn s.ftable+own) fs') :
    FileInv {s with fs := fs'} refs own :=
  h.setFs hr.inv hr.sound (hr.kept.mono fun _ hj => Nat.add_pos_left hj _)

lemma drops_rewrite (s : Sys) (hr : Rewrites s.fs (fileOwn s.ftable+own) fs')
    (hl : locks fs'=locks s.fs) (hfs : s'.fs=fs') (hp : s'.proc=s.proc) : Drops s s' own := by
  subst hfs
  refine ⟨⟨hr.kept.mono fun _ hj => Nat.add_pos_right _ hj,hl,hr.sb,?_⟩,hp⟩
  rw [hr.tree]
  exact .refl _

lemma FileInv.setOff (h : FileInv s refs own) (hf : 0<refs f) (off : ℕ) :
    FileInv (s.setFile f {s.ftable f with off := off}) refs own :=
  h.setFile (h.slots f hf) (fun _ _ => rfl) (h.ref f) (h.unused f) rfl (h.writes f) Iff.rfl
    fun _ => ⟨rfl,rfl⟩

lemma FileInv.moved (h : FileInv s refs own) (hf : 0<refs f)
    (hr : Rewrites s.fs (fileOwn s.ftable+own) fs') (hl : locks fs'=locks s.fs) (off : ℕ) :
    FileInv (({s with fs := fs'} : Sys).setFile f {s.ftable f with off := off}) refs own ∧
      Drops s (({s with fs := fs'} : Sys).setFile f {s.ftable f with off := off}) own :=
  ⟨(h.rewrite hr).setOff hf off,drops_rewrite s hr hl rfl rfl⟩

lemma fileread_spec (h : FileInv s refs own) (n : ℕ) (room : Option ℕ) (t : Tree) :
    Ensures (Stops t) (fileread s f n room) fun r => FileInv r.1 refs own ∧ Drops s r.1 own := by
  have hsame : FileInv s refs own ∧ Drops s s own := ⟨h,.refl s own⟩
  rw [fileread]
  simp only
  split_ifs
  · exact hsame
  · split
    next => exact hsame
    next => exact hsame
    next => exact stops_other t (by decide)
    next hty =>
      have hip : 0<(fileOwn s.ftable+own) (s.ftable f).ip :=
        Nat.add_pos_left (h.held (.inl hty)) _
      refine (ilock_spec h.inode hip fun hf => absurd hf (h.sound.lives.held _ hip)).bind ?_
      rintro fs1 ⟨h1,hq1,hv1,hfl1,hl1⟩
      have hr1 := Rewrites.quiet h.inode h.sound h1 hq1
      obtain ⟨r,hr⟩ := readi_spec h1 hip hv1 room (s.ftable f).off n
      rw [hr]
      refine (iunlock_spec hr1.inv hip (stops_other t (by decide))).bind ?_
      rintro fs2 ⟨h2,hq2,hl2,-⟩
      have hr2 := hr1.trans (.quiet hr1.inv hr1.sound h2 hq2)
      have hpos : 0<refs f := h.pos (by rw [hty]; decide)
      have hlock : locks fs2=locks s.fs := by rw [hl2,hl1,relock hfl1]
      exact h.moved hpos hr2 hlock _

lemma filewriteLoop_spec (fuel : ℕ) (h : FileInv s refs own) (hty : (s.ftable f).type=.inode)
    (hw : (s.ftable f).writable=true) (src : List UInt8) (left : ℕ) (t : Tree) :
    Ensures (Stops t) (filewriteLoop f fuel s src left) fun r =>
      FileInv r.1 refs own ∧ Drops s r.1 own := by
  induction fuel generalizing s src left with
  | zero => exact ⟨h,.refl s own⟩
  | succ fuel ih =>
    rw [filewriteLoop]
    split_ifs with hleft
    · exact ⟨h,.refl s own⟩
    · have hip : 0<(fileOwn s.ftable+own) (s.ftable f).ip :=
        Nat.add_pos_left (h.held (.inl hty)) _
      refine (writeAt_spec h.inode h.sound hip (h.writes f hty hw) src _ _ t).bind ?_
      rintro ⟨fs1,n1⟩ ⟨hr1,hl1⟩
      have hpos : 0<refs f := h.pos (by rw [hty]; decide)
      simp only
      generalize (if 0<n1 then (s.ftable f).off+n1.toNat else (s.ftable f).off)=off
      obtain ⟨h2,hd2⟩ := h.moved hpos hr1 hl1 off
      split_ifs with hall
      · exact ⟨h2,hd2⟩
      · have hself : (({s with fs := fs1} : Sys).setFile f {s.ftable f with off := off}).ftable f=
            {s.ftable f with off := off} := update_self _ _ _
        refine (ih h2 (by rw [hself]; exact hty) (by rw [hself]; exact hw) _ _).imp ?_
        rintro r ⟨h3,hd3⟩
        exact ⟨h3,hd2.trans hd3⟩

lemma filewrite_spec (h : FileInv s refs own) (src : List UInt8) (n : ℕ) (t : Tree) :
    Ensures (Stops t) (filewrite s f src n) fun r => FileInv r.1 refs own ∧ Drops s r.1 own := by
  have hsame : FileInv s refs own ∧ Drops s s own := ⟨h,.refl s own⟩
  rw [filewrite]
  simp only
  split_ifs with hw
  · exact hsame
  · have hw' : (s.ftable f).writable=true := by simpa using hw
    split
    next => exact hsame
    next => exact hsame
    next => exact stops_other t (by decide)
    next hty =>
      refine (filewriteLoop_spec n h hty hw' src n t).bind ?_
      rintro ⟨s1,left⟩ h1
      exact h1

lemma writeiAny_spec (h : FileInv s refs own) (src : List UInt8) (off n : ℕ) (t : Tree) :
    Ensures (Stops t) (writeiAny s f src off n) fun r =>
      FileInv r.1 refs own ∧ Drops s r.1 own := by
  rw [writeiAny]
  simp only [Bool.and_eq_true,decide_eq_true_eq]
  split_ifs with hc
  · have hip : 0<(fileOwn s.ftable+own) (s.ftable f).ip :=
      Nat.add_pos_left (h.held (.inl hc.2)) _
    refine (writeAt_spec h.inode h.sound hip (h.writes f hc.2 hc.1) src off n t).bind ?_
    rintro ⟨fs1,r⟩ ⟨hr1,hl1⟩
    exact ⟨h.rewrite hr1,drops_rewrite s hr1 hl1 rfl rfl⟩
  · exact ⟨h,.refl s own⟩

lemma openFile_spec (h : FileInv s refs (Pi.single ip 1+own)) (hf : filealloc s=some f)
    {omode : ℕ} (hd : omode=0 ∨ (s.fs.dinode (s.fs.itable ip).inum).type≠.dir) :
    FileInv (s.setFile f (openFile (s.fs.itable ip).copy ip omode {s.ftable f with ref := 1}))
      (Pi.single f 1+refs) own := by
  obtain ⟨hlt,h0,hty⟩ := filealloc_spec h hf
  have hkind : (openFile (s.fs.itable ip).copy ip omode {s.ftable f with ref := 1}).type=.inode ∨
      (openFile (s.fs.itable ip).copy ip omode {s.ftable f with ref := 1}).type=.device := by
    grind [openFile]
  refine h.setFile hlt (fun g hg => single_add_of_ne refs hg) ?_ (fun hc => ?_) ?_
    (fun _ hw => ?_) (iff_of_false (fun hc => ?_) ?_) fun hc => ?_
  · rw [single_add_self,h0]
    rfl
  · rw [single_add_self] at hc
    omega
  · rw [slotOwn_other (.inl hty),slotOwn,if_pos hkind,zero_add]
    rfl
  · grind [openFile]
  · grind
  · rw [hty]
    decide
  · rw [hty] at hc
    simp at hc

end Xv6Riscv.FileTable
