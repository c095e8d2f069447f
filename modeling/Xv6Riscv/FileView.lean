import Xv6Riscv.InodeTable
import Xv6Riscv.FileTree

/-!
# What a file system contains

The files and the directory tree that a file system state stands for. Reading
through a loaded inode finds what the view says and changes nothing, since no
file has a hole; a directory entry is written either completely or not at all.
-/

namespace Xv6Riscv.FileView

open Function
open Transition OutcomeLogic InodeLayer DirectoryLayer Occupancy BlockOwnership InodeTable FileTree

variable {fs fs' : Fs} {own : ℕ→ℕ} {ip i : ℕ} {stop : String→Prop}

def fileByte (fs : Fs) (i off : ℕ) : UInt8 :=
  fs.data (occ fs (i,placeOf (off/bsize))) (off%bsize)

def entryAt (fs : Fs) (i k : ℕ) : Dirent :=
  decode (readBytes (fs.data (occ fs (i,placeOf (direntSize*k/bsize)))) (direntSize*k%bsize)
    direntSize)

def entries (fs : Fs) (i : ℕ) : List Dirent :=
  (List.range ((fs.dinode i).size/direntSize)).map (entryAt fs i)

def node (fs : Fs) (i : ℕ) : Node :=
  ⟨(fs.dinode i).type=.dir,(fs.dinode i).nlink,
    if (fs.dinode i).type=.dir then entries fs i else []⟩

def tree (fs : Fs) : Tree := fun i => if (fs.dinode i).type=.free then none else some (node fs i)

lemma tree_some (h : (fs.dinode i).type≠.free) : tree fs i=some (node fs i) := if_neg h

lemma tree_none (h : (fs.dinode i).type=.free) : tree fs i=none := if_pos h

lemma tree_isSome {n : Node} (h : tree fs i=some n) :
    (fs.dinode i).type≠.free ∧ n=node fs i := by grind [tree]

def fieldsOf (d : Dinode) : FileType×ℤ×ℤ×ℤ×ℕ := (d.type,d.major,d.minor,d.nlink,d.size)

/-- An inode is allocated as before, and then has the same fields and the same
contents. -/
structure SameFile (fs fs' : Fs) (i : ℕ) : Prop where
  type : (fs'.dinode i).type=(fs.dinode i).type
  fields : (fs.dinode i).type≠.free→fieldsOf (fs'.dinode i)=fieldsOf (fs.dinode i)
  blocks : ∀ bn,occ fs (i,placeOf bn)≠0→ occ fs' (i,placeOf bn)=occ fs (i,placeOf bn) ∧
    fs'.data (occ fs (i,placeOf bn))=fs.data (occ fs (i,placeOf bn))

structure SameFiles (fs fs' : Fs) : Prop where
  sb : fs'.sb=fs.sb
  file : ∀ i,SameFile fs fs' i

lemma SameFile.refl (fs : Fs) (i : ℕ) : SameFile fs fs i :=
  ⟨rfl,fun _ => rfl,fun _ _ => ⟨rfl,rfl⟩⟩

lemma SameFile.trans {fs1 fs2 : Fs} (h : SameFile fs fs1 i) (h' : SameFile fs1 fs2 i) :
    SameFile fs fs2 i := by
  refine ⟨h'.type.trans h.type,fun ht => ?_,fun bn hbn => ?_⟩
  · exact (h'.fields (by rw [h.type]; exact ht)).trans (h.fields ht)
  · grind [h.blocks,h'.blocks]

lemma SameFiles.refl (fs : Fs) : SameFiles fs fs := ⟨rfl,fun i => .refl fs i⟩

lemma SameFiles.trans {fs1 fs2 : Fs} (h : SameFiles fs fs1) (h' : SameFiles fs1 fs2) :
    SameFiles fs fs2 := ⟨h'.sb.trans h.sb,fun i => (h.file i).trans (h'.file i)⟩

lemma occ_of_disk (h : SameDisk fs fs') : occ fs'=occ fs := by
  funext q
  rw [occ,occ,h.dinode,h.data]

lemma sameFiles_of_disk (h : SameDisk fs fs') : SameFiles fs fs' := by
  refine ⟨h.sb,fun i => ⟨by rw [h.dinode],fun _ => by rw [h.dinode],fun bn _ => ?_⟩⟩
  rw [occ_of_disk h,h.data]
  exact ⟨rfl,rfl⟩

lemma entries_of_disk (h : SameDisk fs fs') (i : ℕ) : entries fs' i=entries fs i := by
  rw [entries,entries,h.dinode]
  refine List.map_congr_left fun k _ => ?_
  rw [entryAt,entryAt,occ_of_disk h,h.data]

lemma SameFile.byte (h : SameFile fs fs' i) (hinv : InodeInv fs own)
    (ht : (fs.dinode i).type≠.free) {off : ℕ} (hoff : off<(fs.dinode i).size) :
    fileByte fs' i off=fileByte fs i off := by grind [hinv.mapped,bsize,h.blocks,fileByte]

lemma entry_lt {k size : ℕ} (hk : k<size/direntSize) : direntSize*k/bsize*bsize<size := by
  have h1 := Nat.div_mul_le_self (direntSize*k) bsize
  have h2 := Nat.div_mul_le_self size direntSize
  have h3 : direntSize*(k+1)≤direntSize*(size/direntSize) := Nat.mul_le_mul_left _ hk
  simp only [direntSize] at *
  omega

lemma SameFile.node (h : SameFile fs fs' i) (hinv : InodeInv fs own)
    (ht : (fs.dinode i).type≠.free) : FileView.node fs' i=FileView.node fs i := by
  have hf := h.fields ht
  simp only [fieldsOf,Prod.mk.injEq] at hf
  obtain ⟨h1,-,-,h4,h5⟩ := hf
  have he : entries fs' i=entries fs i := by
    rw [entries,entries,h5]
    refine List.map_congr_left fun k hk => ?_
    have hm := hinv.mapped i ht _ (entry_lt (List.mem_range.mp hk))
    obtain ⟨ho,hd⟩ := h.blocks _ hm
    rw [entryAt,entryAt,ho,hd]
  rw [FileView.node,FileView.node,h1,h4,he]

lemma SameFile.tree (h : SameFile fs fs' i) (hinv : InodeInv fs own) :
    FileView.tree fs' i=FileView.tree fs i := by
  by_cases ht : (fs.dinode i).type=.free
  · rw [tree_none ht,tree_none (by rw [h.type]; exact ht)]
  · rw [tree_some ht,tree_some (by rw [h.type]; exact ht),h.node hinv ht]

lemma SameFiles.tree (h : SameFiles fs fs') (hinv : InodeInv fs own) :
    FileView.tree fs'=FileView.tree fs := funext fun i => (h.file i).tree hinv

lemma sameFile_of_updates (h : Updates fs fs' ip) {j : ℕ} (hj : j≠(fs.itable ip).inum) :
    SameFile fs fs' j := by
  have hd := h.dinode j hj
  exact ⟨by rw [hd],fun _ => by rw [hd],fun bn hbn => h.kept j bn hj hbn⟩

lemma sameFile_of_frees (h : Frees fs fs' i) {j : ℕ} (hj : j≠i) : SameFile fs fs' j := by
  have hd := h.dinode j hj
  refine ⟨by rw [hd],fun _ => by rw [hd],fun bn _ => ?_⟩
  rw [h.data,occ,occ,hd,h.data]
  exact ⟨rfl,rfl⟩

lemma tree_of_frees (h : Frees fs fs' i) (hinv : InodeInv fs own) :
    tree fs'=update (tree fs) i none := by
  funext j
  by_cases hj : j=i
  · rw [hj,update_self,tree_none h.free]
  · rw [update_of_ne hj,(sameFile_of_frees h hj).tree hinv]

lemma readiLoop_spec (h : InodeInv fs own) (hip : 0<own ip) (hv : (fs.itable ip).valid=true)
    (room : Option ℕ) (fuel : ℕ) {off left : ℕ} (got : List UInt8)
    (hb : off+left≤(fs.itable ip).copy.size) :
    ∃ r,readiLoop ip room fuel fs off left got=.next (fs,r) := by
  have hp := h.pending hip hv
  induction fuel generalizing off left got with
  | zero => exact ⟨_,rfl⟩
  | succ fuel ih =>
    rw [readiLoop]
    by_cases h0 : left=0
    · exact ⟨_,if_pos h0⟩
    · rw [if_neg h0]
      have hm := hp.covers (off/bsize) (lt_of_le_of_lt (Nat.div_mul_le_self off bsize) (by omega))
      have hc : chunk off left≤left := Nat.min_le_left _ _
      simp only [bmap_mapped hp hm,next_bind,if_neg hm]
      split_ifs
      · exact ih _ (by omega)
      · exact ⟨_,rfl⟩

lemma readi_spec (h : InodeInv fs own) (hip : 0<own ip) (hv : (fs.itable ip).valid=true)
    (room : Option ℕ) (off n : ℕ) : ∃ r,readi fs ip room off n=.next (fs,r) := by
  rw [readi]
  split_ifs with h1 h2
  · exact ⟨_,rfl⟩
  · exact readiLoop_spec h hip hv room _ [] (by omega)
  · exact readiLoop_spec h hip hv room _ [] (by omega)

lemma readBytes_length (d : Block) (off n : ℕ) : (readBytes d off n).length=n := by
  grind [readBytes]

lemma entry_chunk (k : ℕ) : chunk (direntSize*k) direntSize=direntSize := by
  simp only [chunk,direntSize,bsize]
  omega

lemma readi_entry (h : InodeInv fs own) (hip : 0<own ip) (hv : (fs.itable ip).valid=true)
    {k : ℕ} (hk : k<(fs.itable ip).copy.size/direntSize)
    (hsize : (fs.itable ip).copy.size<2^32) :
    ∃ bs,readi fs ip none (direntSize*k) direntSize=.next (fs,some bs) ∧ bs.length=direntSize ∧
      decode bs=entryAt fs (fs.itable ip).inum k := by
  have hp := h.pending hip hv
  have hclean := iupdate_eq_self (h.loaded ip hip hv).1
  have hend : direntSize*k+direntSize≤(fs.itable ip).copy.size := by
    have h2 := Nat.div_mul_le_self (fs.itable ip).copy.size direntSize
    have h3 : direntSize*(k+1)≤direntSize*((fs.itable ip).copy.size/direntSize) :=
      Nat.mul_le_mul_left _ hk
    grind
  have hm := hp.covers _ (entry_lt hk)
  refine ⟨_,?_,readBytes_length _ _ _,rfl⟩
  have h1 : ¬((fs.itable ip).copy.size<direntSize*k ∨ 2^32≤direntSize*k+direntSize) := by omega
  have h2 : ¬(fs.itable ip).copy.size<direntSize*k+direntSize := by omega
  simp only [readi,if_neg h1,if_neg h2]
  rw [show readiLoop ip none direntSize=readiLoop ip none (15+1) from rfl,readiLoop,
    if_neg (by decide)]
  simp only [bmap_mapped hp hm,next_bind,if_neg hm,entry_chunk,fits,if_true,Nat.sub_self,
    List.nil_append]
  rw [readiLoop,if_pos rfl,hclean]
  rfl

section Write

variable {de : Dirent} {k : ℕ}

lemma size_le (h : InodeInv fs own) (ht : (fs.dinode i).type≠.free) :
    (fs.dinode i).size≤ maxfile*bsize := by
  by_contra hlt
  have hm := h.mapped i ht maxfile (by omega)
  refine hm ?_
  rw [occ,if_neg ht,placeOf,if_neg (by decide),blockAt,
    if_neg fun hc => absurd hc.1 (by decide)]

lemma readBytes_writeBytes (d : Block) (off : ℕ) (bs : List UInt8) :
    readBytes (writeBytes d off bs) off bs.length=bs := by
  grind [List.ext_getElem,readBytes_length,readBytes,writeBytes]

lemma readBytes_outside (d : Block) {off o n : ℕ} {bs : List UInt8}
    (h : o+n≤off ∨ off+bs.length≤o) : readBytes (writeBytes d off bs) o n=readBytes d o n := by
  refine List.map_congr_left fun k hk => ?_
  have := List.mem_range.mp hk
  exact writeBytes_outside d (by omega)

lemma decode_encode (h : de.inum<65536) : decode de.encode=de := by
  obtain ⟨inum,name⟩ := de
  grind [decode,Dirent.encode,UInt8.toNat_ofNat']

lemma map_range_place {f g : ℕ→Dirent} {n : ℕ} (hk : k≤n) (hself : g k=de)
    (hother : ∀ j,j<n→j≠k→ g j=f j) :
    (List.range (max n (k+1))).map g=place ((List.range n).map f) k de := by
  rw [place,List.length_map,List.length_range]
  split_ifs with hlt
  · rw [Nat.max_eq_left hlt]
    refine List.ext_getElem (by simp) fun j hj _ => ?_
    rw [List.length_map,List.length_range] at hj
    grind
  · have hkn : k=n := by omega
    subst hkn
    rw [Nat.max_eq_right (Nat.le_succ k),List.range_succ,List.map_append,List.map_singleton,hself]
    congr 1
    refine List.map_congr_left fun j hj => ?_
    have := List.mem_range.mp hj
    exact hother j this (by omega)

structure Places (fs fs' : Fs) (i k : ℕ) (de : Dirent) : Prop where
  others : ∀ j,j≠i→SameFile fs fs' j
  fields : ∃ a size,fs'.dinode i={fs.dinode i with addrs := a,size := size} ∧
    size%direntSize=0
  entries : entries fs' i=place (FileView.entries fs i) k de

lemma Places.disk {fs1 fs2 : Fs} (h : SameDisk fs fs1) (hp : Places fs1 fs2 i k de)
    (h' : SameDisk fs2 fs') : Places fs fs' i k de := by
  refine ⟨fun j hj => ?_,?_,?_⟩
  · exact (((sameFiles_of_disk h).file j).trans (hp.others j hj)).trans
      ((sameFiles_of_disk h').file j)
  · obtain ⟨a,size,hd,hsz⟩ := hp.fields
    exact ⟨a,size,by rw [h'.dinode,hd,h.dinode],hsz⟩
  · rw [entries_of_disk h',hp.entries,entries_of_disk h]

lemma entries_of_blocks {k addr : ℕ} {de : Dirent} {data : Block} (hinv : InodeInv fs own)
    (ht : (fs.dinode i).type≠.free) (hinv' : InodeInv fs' own)
    (hk : k≤(fs.dinode i).size/direntSize)
    (hkept : ∀ bn,occ fs (i,placeOf bn)≠0→ occ fs' (i,placeOf bn)=occ fs (i,placeOf bn))
    (haddr : occ fs' (i,placeOf (direntSize*k/bsize))=addr)
    (hdata : ∀ bn,occ fs (i,placeOf bn)≠0→ occ fs (i,placeOf bn)≠addr→
      fs'.data (occ fs (i,placeOf bn))=fs.data (occ fs (i,placeOf bn)))
    (hold : occ fs (i,placeOf (direntSize*k/bsize))≠0→data=fs.data addr)
    (hnew : fs'.data addr=writeBytes data (direntSize*k%bsize) de.encode)
    (hlen : de.encode.length=direntSize) (hde : decode de.encode=de)
    (hsize : (fs'.dinode i).size=max (fs.dinode i).size (direntSize*k+direntSize)) :
    entries fs' i=place (FileView.entries fs i) k de := by
  have hself : entryAt fs' i k=de := by
    rw [entryAt,haddr,hnew,←hlen,readBytes_writeBytes,hde]
  have hother : ∀ j,j<(fs.dinode i).size/direntSize→j≠k→entryAt fs' i j=entryAt fs i j := by
    intro j hj hjk
    have hm := hinv.mapped i ht _ (entry_lt hj)
    have hkj := hkept _ hm
    rw [entryAt,entryAt,hkj]
    by_cases hbn : direntSize*j/bsize=direntSize*k/bsize
    · have hocc : occ fs (i,placeOf (direntSize*j/bsize))=addr := by
        rw [←hkj,hbn,haddr]
      rw [hocc,hnew,hold (by rw [←hbn]; exact hm),readBytes_outside]
      rw [hlen]
      simp only [direntSize,bsize] at hbn ⊢
      omega
    · rw [hdata _ hm]
      intro hc
      rw [←haddr,←hkj] at hc
      have hq := hinv'.owns.unique _ _ (by rw [hkj]; exact hm) hc
      exact hbn (placeOf_injective (Prod.mk.inj hq).2)
  have hcount : (fs'.dinode i).size/direntSize=max ((fs.dinode i).size/direntSize) (k+1) := by
    rw [hsize]
    simp only [direntSize]
    omega
  rw [entries,hcount]
  exact map_range_place hk hself hother

lemma writei_entry_cases {src : List UInt8} (hlen : src.length=direntSize)
    (hoff : direntSize*k≤(fs.itable ip).copy.size) (hsmall : (fs.itable ip).copy.size<2^31)
    (hmax : ¬maxfile*bsize<direntSize*k+direntSize) {fs1 : Fs} {addr : ℕ}
    (hmap : bmap fs ip (direntSize*k/bsize)=.next (fs1,addr)) :
    writei fs ip src (direntSize*k) direntSize=
      if addr=0 then .next (iupdate fs1 ip,0)
      else
        let fs2 := fs1.store addr (writeBytes (fs1.data addr) (direntSize*k%bsize) src)
        .next (iupdate (if (fs.itable ip).copy.size<direntSize*k+direntSize then
          fs2.edit ip fun d => {d with size := direntSize*k+direntSize} else fs2) ip,
          (direntSize : ℤ)) := by
  have h1 : ¬((fs.itable ip).copy.size<direntSize*k ∨ 2^32≤direntSize*k+direntSize) := by
    simp only [direntSize] at *
    omega
  have hround : writeiLoop ip direntSize fs src (direntSize*k) direntSize 0=
      if addr=0 then .next (fs1,direntSize*k,0)
      else .next (fs1.store addr (writeBytes (fs1.data addr) (direntSize*k%bsize) src),
        direntSize*k+direntSize,direntSize) := by
    rw [show writeiLoop ip direntSize=writeiLoop ip (15+1) from rfl,writeiLoop,
      if_neg (by decide),hmap]
    simp only [next_bind,entry_chunk,hlen,lt_irrefl,if_false,Nat.sub_self,Nat.zero_add]
    rw [writeiLoop,if_pos rfl,List.take_of_length_le (by rw [hlen])]
    rfl
  simp only [writei,if_neg h1,if_neg hmax,hround]
  split_ifs with h3 h4
  · simp only [next_bind,if_neg (show ¬(fs.itable ip).copy.size<direntSize*k by omega)]
    rfl
  · simp only [next_bind,if_pos h4]
    rfl
  · simp only [next_bind,if_neg h4]
    rfl

lemma writei_entry (h : InodeInv fs own) (hip : 0<own ip) (hv : (fs.itable ip).valid=true)
    {k : ℕ} {de : Dirent} (hk : k≤(fs.itable ip).copy.size/direntSize)
    (hmod : (fs.itable ip).copy.size%direntSize=0) (hde : de.inum<65536)
    (hname : de.name.length=dirsiz) :
    ∃ fs' r,writei fs ip de.encode (direntSize*k) direntSize=.next (fs',r) ∧ InodeInv fs' own ∧
      Updates fs fs' ip ∧ Kept own fs fs' ∧ (r≠direntSize ∧ SameFiles fs fs' ∨
        r=direntSize ∧ Places fs fs' (fs.itable ip).inum k de) := by
  have hlen : de.encode.length=direntSize := by
    simp only [Dirent.encode,List.length_cons,hname]
    rfl
  obtain ⟨hcopy,ht⟩ := h.loaded ip hip hv
  have hdt : (fs.dinode (fs.itable ip).inum).type≠.free := by
    rw [←hcopy]
    exact ht
  have hsize := size_le h hdt
  rw [←hcopy] at hsize
  have hoff : direntSize*k≤(fs.itable ip).copy.size := by
    have := Nat.mul_le_mul_left direntSize hk
    rw [Nat.mul_div_cancel' (Nat.dvd_of_mod_eq_zero hmod)] at this
    exact this
  have hsmall : (fs.itable ip).copy.size<2^31 := by grind [maxfile,ndirect,nindirect,bsize]
  obtain ⟨fs',r,hrun,h',hu,a,sz,hfields⟩ := writei_spec h hip hv de.encode (direntSize*k) direntSize
  refine ⟨fs',r,hrun,h',hu,kept_of_updates h hip hv hu h' (by rw [hfields]),?_⟩
  by_cases hmax : maxfile*bsize<direntSize*k+direntSize
  · refine .inl ?_
    have h1 : ¬((fs.itable ip).copy.size<direntSize*k ∨ 2^32≤direntSize*k+direntSize) := by
      simp only [direntSize] at *
      omega
    simp only [writei,if_neg h1,if_pos hmax] at hrun
    cases hrun
    exact ⟨by decide,.refl fs⟩
  have hbn : direntSize*k/bsize< maxfile := by
    rw [Nat.div_lt_iff_lt_mul (by decide)]
    simp only [direntSize] at *
    omega
  have hp := h.pending hip hv
  have hclean := iupdate_eq_self hcopy
  obtain ⟨fs1,addr,hmap,hp1,hg1,hres⟩ := bmap_spec hp hbn
  have hkept := hg1.kept
  have hdata := hg1.data
  rw [hclean] at hkept hdata
  rw [writei_entry_cases hlen hoff hsmall hmax hmap] at hrun
  have hv' : (fs'.itable ip).valid=true := by grind [hu.self]
  have hinum : (fs'.itable ip).inum=(fs.itable ip).inum := by grind [hu.self]
  have hdinode : fs'.dinode (fs.itable ip).inum=
      {fs.dinode (fs.itable ip).inum with addrs := a,size := sz} := by
    grind [h'.loaded]
  by_cases hz : addr=0
  · rw [if_pos hz] at hrun
    cases hrun
    refine .inl ⟨by decide,hu.sb,fun j => ?_⟩
    by_cases hj : j=(fs.itable ip).inum
    · subst hj
      have hsz : sz=(fs.itable ip).copy.size := by
        have := congrArg Dinode.size hfields
        rw [iupdate_itable,hg1.size] at this
        exact this.symm
      refine ⟨by rw [hdinode],fun _ => ?_,fun bn hbn => ⟨hkept _ hbn,hdata _ bn hbn⟩⟩
      rw [hdinode,hsz,hcopy]
      rfl
    · exact sameFile_of_updates hu hj
  · rw [if_neg hz] at hrun
    simp only at hrun
    set fs2 := fs1.store addr (writeBytes (fs1.data addr) (direntSize*k%bsize) de.encode) with hfs2
    have haddr : addr=occ (iupdate fs1 ip) ((fs1.itable ip).inum,placeOf (direntSize*k/bsize)) := by
      rw [hg1.inum]
      exact (hres hz).symm
    have hne : occ (iupdate fs1 ip) ((fs1.itable ip).inum,placeOf (direntSize*k/bsize))≠0 := by
      rw [←haddr]
      exact hz
    have hp2 : Pending fs2 own ip := by grind [hp1.store]
    have hocc2 : occ (iupdate fs2 ip)=occ (iupdate fs1 ip) := by grind [hp1.occ_store]
    have hsz2 : (fs2.itable ip).copy.size=(fs.itable ip).copy.size := hg1.size
    obtain ⟨hocc,hdata',hsz,hr⟩ : occ fs'=occ (iupdate fs1 ip) ∧ fs'.data=fs2.data ∧
        sz=max (fs.itable ip).copy.size (direntSize*k+direntSize) ∧ r=direntSize := by
      split_ifs at hrun with hgrow
      · cases hrun
        refine ⟨(hp2.occ_edit hp2.allocated rfl).trans hocc2,rfl,?_,rfl⟩
        have := congrArg Dinode.size hfields
        rw [iupdate_itable,edit_self] at this
        grind
      · cases hrun
        refine ⟨hocc2,rfl,?_,rfl⟩
        have := congrArg Dinode.size hfields
        rw [iupdate_itable,hsz2] at this
        grind
    refine .inr ⟨hr,⟨fun j hj => sameFile_of_updates hu hj,⟨a,sz,hdinode,?_⟩,?_⟩⟩
    · grind [direntSize]
    · refine @entries_of_blocks fs fs' own (fs.itable ip).inum k addr de (fs1.data addr) h hdt h'
        (by rw [←hcopy]; exact hk) (fun bn hbn => ?_) ?_ (fun bn hbn hbne => ?_) (fun hold => ?_) ?_ hlen (decode_encode hde) ?_
      · rw [hocc]
        exact hkept _ hbn
      · rw [hocc]
        exact hres hz
      · rw [hdata']
        exact (update_of_ne hbne _ _).trans (hdata _ bn hbn)
      · grind
      · rw [hdata']
        exact update_self _ _ _
      · rw [hdinode,hsz,hcopy]

end Write

end Xv6Riscv.FileView
