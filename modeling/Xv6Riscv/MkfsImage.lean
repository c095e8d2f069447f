import Xv6Riscv.MkfsRun
import Xv6Riscv.FileRuns

/-!
# The kernel reads what mkfs wrote

The image that mkfs leaves, as the kernel finds it. A path lookup in the root
directory reads the entries that iappend has written and finds the inode of a
file, and readi returns the bytes of the input file. The image is consistent
in the sense of the kernel if the root directory does not end at a block
boundary and there are no more files than inodes.
-/

namespace Xv6Riscv.MkfsImage

open Function
open Transition OutcomeLogic InodeLayer DirectoryLayer Occupancy BlockOwnership FileTree FileView
  DirectorySpecs FileSyscalls FileRuns DiskFormat VolumeLayout Mkfs MkfsRun

variable {m : Maker} {c : ℕ→List UInt8} {fs : Fs} {ip : ℕ} {img : Image}

def byteAt (data : ℕ→Block) (d : Dinode) (k : ℕ) : UInt8 :=
  data (blockAt data d (placeOf (k/bsize))) (k%bsize)

lemma readBytes_chunk {data : ℕ→Block} {d : Dinode} {off left : ℕ} :
    readBytes (data (blockAt data d (placeOf (off/bsize)))) (off%bsize) (chunk off left)=
      (List.range (chunk off left)).map fun k => byteAt data d (off+k) := by
  refine List.map_congr_left fun k hk => ?_
  have hk' : k<chunk off left := List.mem_range.mp hk
  grind [bsize,chunk,byteAt]

lemma readiLoop_bytes {n : ℕ} (hm : ∀ bn,bn*bsize<n→
    blockAt fs.data (fs.itable ip).copy (placeOf bn)≠0) (fuel : ℕ) {off left : ℕ}
    (hfuel : left≤fuel) (hend : off+left≤n) (got : List UInt8) :
    readiLoop ip none fuel fs off left got=.next (fs,some (got++(List.range left).map
      fun k => byteAt fs.data (fs.itable ip).copy (off+k))) := by
  induction fuel generalizing off left got with
  | zero =>
    have h0 : left=0 := Nat.le_zero.mp hfuel
    rw [h0,List.range_zero,List.map_nil,List.append_nil]
    rfl
  | succ fuel ih =>
    rw [readiLoop]
    by_cases h0 : left=0
    · rw [if_pos h0,h0,List.range_zero,List.map_nil,List.append_nil]
      rfl
    · have hb : off/bsize*bsize<n := lt_of_le_of_lt (Nat.div_mul_le_self off bsize) (by omega)
      have hpos : 0<chunk off left := by grind [chunk,bsize]
      have hle : chunk off left≤left := Nat.min_le_left _ _
      rw [if_neg h0]
      simp only [bmap_found (hm _ hb),next_bind,if_neg (hm _ hb),fits,if_true]
      rw [ih (by omega) (by omega),readBytes_chunk,List.append_assoc]
      have hsplit : List.range left=List.range (chunk off left)++
          (List.range (left-chunk off left)).map (chunk off left+·) := by
        rw [←List.range_add]
        congr 1
        omega
      conv_rhs => rw [hsplit,List.map_append,List.map_map]
      refine congrArg (fun l => Outcome.next (fs,some (got++(_++l)))) ?_
      refine List.map_congr_left fun k _ => ?_
      rw [comp_apply,add_assoc]

lemma readi_bytes {off n : ℕ} (hm : ∀ bn,bn*bsize<off+n→
    blockAt fs.data (fs.itable ip).copy (placeOf bn)≠0) (hsize : off+n≤(fs.itable ip).copy.size)
    (hsmall : off+n<2^32) :
    readi fs ip none off n=.next (fs,some ((List.range n).map
      fun k => byteAt fs.data (fs.itable ip).copy (off+k))) := by
  have h1 : ¬((fs.itable ip).copy.size<off ∨ 2^32≤off+n) := by omega
  have h2 : ¬(fs.itable ip).copy.size<off+n := by omega
  simp only [readi,if_neg h1,if_neg h2]
  rw [readiLoop_bytes hm n le_rfl le_rfl,List.nil_append]

lemma readi_whole {bs : List UInt8} (hsize : (fs.itable ip).copy.size=bs.length)
    (hsmall : bs.length<2^32) (hm : ∀ bn,bn*bsize<bs.length→
      blockAt fs.data (fs.itable ip).copy (placeOf bn)≠0)
    (hbytes : ∀ k<bs.length,byteAt fs.data (fs.itable ip).copy k=bs.getD k 0) :
    readi fs ip none 0 (fs.itable ip).copy.size=.next (fs,some bs) := by
  grind [readi_bytes,List.ext_getElem,List.length_map]

lemma scan_found {msg : String} {dp : ℕ} {test : Dirent→Bool} {l : List Dirent} {k0 : ℕ}
    {de : Dirent} (hread : ∀ k e,l[k]?=some e→
      readi fs dp none (direntSize*k) direntSize=.next (fs,some e.encode))
    (hlen : ∀ e∈l,e.encode.length=direntSize) (hinum : ∀ e∈l,e.inum<65536)
    (hsize : direntSize*l.length≤(fs.itable dp).copy.size) (hde : l[k0]?=some de)
    (htest : test de=true) (hfirst : ∀ k e,k<k0→l[k]?=some e→test e=false) (fuel : ℕ) {k : ℕ}
    (hk : k≤k0) (hfuel : k0<k+fuel) :
    scan msg dp test fuel fs (direntSize*k)=.next (fs,direntSize*k0,some de) := by
  induction fuel generalizing k with
  | zero => omega
  | succ fuel ih =>
    have hk0 : k0<l.length := (List.getElem?_eq_some_iff.mp hde).1
    obtain ⟨e,he⟩ : ∃ e,l[k]?=some e := ⟨l.get ⟨k,by omega⟩,List.getElem?_eq_getElem (by omega)⟩
    have hmem : e∈l := List.mem_of_getElem? he
    have hin : direntSize*k<(fs.itable dp).copy.size := by grind [direntSize]
    simp only [scan,if_pos hin,hread k e he,next_bind,Option.getD_some,hlen e hmem,ne_eq,
      not_true_eq_false,if_false,decode_encode (hinum e hmem)]
    by_cases hlt : k<k0
    · grind
    · have heq : k=k0 := by omega
      rw [heq,hde,Option.some.injEq] at he
      rw [←he,htest,heq]
      rfl

lemma skipelem_name {name : List UInt8} (hne : name≠[]) (hslash : slash∉name) :
    skipelem name=some (name.take dirsiz,[]) := by
  have hall : ∀ x∈name,decide (x≠slash)=true := fun x hx => by
    rw [decide_eq_true_iff]
    rintro rfl
    exact hslash hx
  cases name with
  | nil => exact absurd rfl hne
  | cons a s =>
    have ha : ¬a=slash := fun hc => hslash (hc ▸ List.mem_cons_self)
    have hdrop : (a::s).dropWhile (·=slash)=a::s := List.dropWhile_cons_of_neg (by simpa using ha)
    have htake : (a::s).takeWhile (·≠slash)=a::s := List.takeWhile_eq_self_iff.mpr hall
    have hrest : (a::s).dropWhile (·≠slash)=[] := List.dropWhile_eq_nil_iff.mpr hall
    rw [skipelem,hdrop]
    dsimp only
    rw [htake,hrest]
    rfl

structure Listed (data : ℕ→Block) (d : Dinode) (l : List Dirent) : Prop where
  dir : d.type=.dir
  size : direntSize*l.length≤d.size
  small : direntSize*l.length<2^32
  mapped : ∀ bn,bn*bsize<direntSize*l.length→blockAt data d (placeOf bn)≠0
  bytes : ∀ k<direntSize*l.length,byteAt data d k=(l.flatMap Dirent.encode).getD k 0
  encoded : ∀ e∈l,e.encode.length=direntSize
  inum : ∀ e∈l,e.inum<65536

lemma getD_encode {l : List Dirent} (hlen : ∀ e∈l,e.encode.length=direntSize) {k j : ℕ}
    {e : Dirent} (he : l[k]?=some e) (hj : j<direntSize) :
    (l.flatMap Dirent.encode).getD (direntSize*k+j) 0=e.encode.getD j 0 := by
  induction l generalizing k with
  | nil => cases he
  | cons a l ih =>
    have ha : a.encode.length=direntSize := hlen a List.mem_cons_self
    rw [List.flatMap_cons]
    cases k with
    | zero =>
      rw [List.getElem?_cons_zero,Option.some.injEq] at he
      subst he
      rw [Nat.mul_zero,Nat.zero_add,List.getD_append _ _ _ _ (by omega)]
    | succ k =>
      rw [List.getElem?_cons_succ] at he
      rw [List.getD_append_right _ _ _ _ (by rw [ha]; simp only [direntSize]; omega),
        ←ih (fun e he => hlen e (List.mem_cons_of_mem _ he)) he,ha]
      congr 1
      simp only [direntSize]
      omega

lemma Listed.read {l : List Dirent} (h : Listed fs.data (fs.itable ip).copy l) {k : ℕ}
    {e : Dirent} (he : l[k]?=some e) :
    readi fs ip none (direntSize*k) direntSize=.next (fs,some e.encode) := by
  have hk : k<l.length := (List.getElem?_eq_some_iff.mp he).1
  have hend : direntSize*k+direntSize≤direntSize*l.length := by
    simp only [direntSize]
    omega
  rw [readi_bytes (fun bn hbn => h.mapped bn (lt_of_lt_of_le hbn hend)) (hend.trans h.size)
    (lt_of_le_of_lt hend h.small)]
  congr 3
  refine List.ext_getElem ?_ fun j hj hj' => ?_
  · grind [h.encoded]
  · rw [List.length_map,List.length_range] at hj
    rw [List.getElem_map,List.getElem_range,h.bytes _ (by omega),getD_encode h.encoded he hj,
      List.getD_eq_getElem _ _ hj']

/-- The state in which only the root is in the inode table. -/
def rootOnly (img : Image) (e : Inode) : Fs :=
  {(boot img).fs with itable := update (fun _ => Inode.empty) 0 e}

lemma rootOnly_zero (img : Image) (e : Inode) : (rootOnly img e).itable 0=e := by
  simp only [rootOnly,update_self]

lemma rootOnly_succ (img : Image) (e : Inode) {ip : ℕ} (h : ip≠0) :
    (rootOnly img e).itable ip=Inode.empty := by
  simp only [rootOnly,update_of_ne h]

lemma rootOnly_set (img : Image) (e e' : Inode) : (rootOnly img e).setInode 0 e'=rootOnly img e' := by
  grind [Fs.setInode,rootOnly,update_idem]

lemma rootOnly_iget {e : Inode} (hpos : 0<e.ref) {inum : ℕ} (hne : e.inum≠inum) :
    iget (rootOnly img e) inum=.next ((rootOnly img e).setInode 1
      {Inode.empty with inum := inum,ref := 1},1) := by
  have hnone : (List.range ninode).find? (fun ip => 0<((rootOnly img e).itable ip).ref &&
      ((rootOnly img e).itable ip).inum=inum)=none := by
    grind [rootOnly_zero,rootOnly_succ,Inode.empty]
  have hfree : (List.range ninode).find? (fun ip => ((rootOnly img e).itable ip).ref=0)=some 1 := by
    have hrange : List.range ninode=0::1::List.range' 2 48 := rfl
    have hne0 : ¬e.ref=0 := by omega
    rw [hrange,List.find?_cons_of_neg (by simpa only [rootOnly_zero,decide_eq_true_eq] using hne0),
      List.find?_cons_of_pos (by rw [rootOnly_succ img e (by decide)]; rfl)]
  rw [iget,hnone]
  dsimp only
  rw [hfree]
  dsimp only
  rw [rootOnly_succ img e (by decide)]
  rfl

lemma iunlockput_shared (hl : (fs.itable ip).locked=true) (hr : 1<(fs.itable ip).ref) :
    ∃ e,iunlockput fs ip=.next (fs.setInode ip e) := by
  have hlock : iunlock fs ip=.next (fs.setInode ip {fs.itable ip with locked := false}) := by
    simp only [iunlock,hl]
    refine if_neg ?_
    simp only [Bool.not_true,Bool.false_or,decide_eq_true_eq]
    omega
  rw [iunlockput,hlock,next_bind,iput]
  simp only [setInode_self]
  rw [if_neg fun hc => absurd hc.1 (by omega)]
  refine ⟨{fs.itable ip with locked := false,ref := (fs.itable ip).ref-1},?_⟩
  show Outcome.next (Fs.setInode (fs.setInode ip _) ip _)=_
  simp only [Fs.setInode,update_idem,update_self]

lemma namei_found {l : List Dirent} {k0 : ℕ} {de : Dirent} {name : List UInt8}
    (h : Listed img.data (img.dinode rootino) l) (hne : name≠[]) (hslash : slash∉name)
    (hde : l[k0]?=some de) (hnum : de.inum≠0 ∧ de.inum≠rootino)
    (hmatch : namecmp (name.take dirsiz) de.name=true)
    (hfirst : ∀ k e,k<k0→l[k]?=some e→namecmp (name.take dirsiz) e.name=false) :
    ∃ fs',namei (boot img).fs 0 name=.next (fs',some 1) ∧ fs'.data=img.data ∧
      fs'.dinode=img.dinode ∧ fs'.itable 1={Inode.empty with inum := de.inum,ref := 1} := by
  have hidup : idup (boot img).fs 0=rootOnly img {Inode.empty with inum := rootino,ref := 2} :=
    rootOnly_set img {Inode.empty with inum := rootino,ref := 1} _
  have hlock : ilock (rootOnly img {Inode.empty with inum := rootino,ref := 2}) 0=
      .next (rootOnly img ⟨rootino,2,true,true,img.dinode rootino⟩) := by
    have hfree : ¬(img.dinode rootino).type=.free := by
      rw [h.dir]
      decide
    simp only [ilock,rootOnly_zero,rootOnly_set]
    rw [if_neg (by decide),if_neg (by decide),if_neg (by decide)]
    exact if_neg hfree
  have hlisted : Listed (rootOnly img ⟨rootino,2,true,true,img.dinode rootino⟩).data
      ((rootOnly img ⟨rootino,2,true,true,img.dinode rootino⟩).itable 0).copy l := by
    rw [rootOnly_zero]
    exact h
  have hlookup : dirlookup (rootOnly img ⟨rootino,2,true,true,img.dinode rootino⟩) 0
      (name.take dirsiz)=.next ((rootOnly img ⟨rootino,2,true,true,img.dinode rootino⟩).setInode 1
        {Inode.empty with inum := de.inum,ref := 1},some (1,direntSize*k0)) := by
    have hk0 : k0<l.length := (List.getElem?_eq_some_iff.mp hde).1
    have hrounds : k0<0+rounds (rootOnly img ⟨rootino,2,true,true,img.dinode rootino⟩) 0 := by
      grind [hlisted.size,rounds,direntSize]
    have hscan : scan "dirlookup read" 0 (fun e => e.inum≠0 && namecmp (name.take dirsiz) e.name)
        (rounds (rootOnly img ⟨rootino,2,true,true,img.dinode rootino⟩) 0)
        (rootOnly img ⟨rootino,2,true,true,img.dinode rootino⟩) (direntSize*0)=
        .next (rootOnly img ⟨rootino,2,true,true,img.dinode rootino⟩,direntSize*k0,some de) :=
      scan_found (fun k e => hlisted.read) h.encoded h.inum hlisted.size hde
        (by rw [hmatch]; simpa using hnum.1)
        (fun k e hk he => by rw [hfirst k e hk he,Bool.and_false]) _ (Nat.zero_le k0) hrounds
    rw [dirlookup,rootOnly_zero,if_neg (not_not.mpr h.dir)]
    rw [Nat.mul_zero] at hscan
    rw [hscan,next_bind]
    dsimp only
    rw [rootOnly_iget (show (0 : ℤ)<2 by decide) (Ne.symm hnum.2)]
    rfl
  obtain ⟨e,hput⟩ := @iunlockput_shared ((rootOnly img ⟨rootino,2,true,true,img.dinode rootino⟩).setInode
    1 {Inode.empty with inum := de.inum,ref := 1}) 0
    (by rw [setInode_of_ne _ (by decide),rootOnly_zero])
    (by rw [setInode_of_ne _ (by decide),rootOnly_zero]; exact show (1 : ℤ)<2 by decide)
  have hend : ∀ n fs1,namexLoop false n fs1 1 []=.next (fs1,some (1,[])) := by
    intro n fs1
    cases n with
    | zero | succ => rfl
  have hhead : ¬name.head?=some slash := fun hc => hslash (List.mem_of_mem_head? hc)
  obtain ⟨n,hn⟩ : ∃ n,name.length=n+1 :=
    Nat.exists_eq_succ_of_ne_zero fun hc => hne (List.length_eq_zero_iff.mp hc)
  have hdir : ¬((rootOnly img ⟨rootino,2,true,true,img.dinode rootino⟩).itable 0).copy.type≠.dir := by
    rw [rootOnly_zero]
    exact not_not.mpr h.dir
  refine ⟨((rootOnly img ⟨rootino,2,true,true,img.dinode rootino⟩).setInode 1
    {Inode.empty with inum := de.inum,ref := 1}).setInode 0 e,?_,rfl,rfl,?_⟩
  · rw [namei,namex,if_neg hhead,hn,namexLoop,skipelem_name hne hslash]
    dsimp only
    rw [hidup,hlock,next_bind,if_neg hdir,Bool.false_and,if_neg Bool.false_ne_true,hlookup,next_bind]
    dsimp only
    rw [hput,next_bind]
    dsimp only
    rw [hend,next_bind]
    rfl
  · rw [setInode_of_ne _ (by decide),setInode_self]

section Image

/-- The image that the kernel finds on a disk that mkfs has written. -/
def image (m : Maker) : Image where
  sb := ⟨fssize,nblocks,ninodes⟩
  bitmap := fun b => bitAt (m.disk (b/bpb+bmapstart)) (b%bpb)
  dinode := dinodes m.disk
  data := m.disk

lemma fsinit_image (h : m.disk 1=format.disk 1) : fsinit m.disk=.next (image m) := by
  have hsuper : format.disk 1=writeBytes zeros 0 (superblock.flatMap xint) := rfl
  have h0 : word (format.disk 1) 0=fsmagic := by
    rw [hsuper]
    decide
  have h1 : word (format.disk 1) 1=fssize := by
    rw [hsuper]
    decide
  have h2 : word (format.disk 1) 2=nblocks := by
    rw [hsuper]
    decide
  have h3 : word (format.disk 1) 3=ninodes := by
    rw [hsuper]
    decide
  have h6 : word (format.disk 1) 6=inodestart := by
    rw [hsuper]
    decide
  have h7 : word (format.disk 1) 7=bmapstart := by
    rw [hsuper]
    decide
  have hin : ∀ i,i/ipb+inodestart<bmapstart ↔ i<slots := by
    intro i
    show i/16+32<45 ↔ i<208
    omega
  simp only [fsinit,h,h0,h1,h2,h3,h6,h7,hin]
  rfl

variable {files : List Input}

lemma built_occ (h : Built m (contents files)) (hn : m.freeinode=files.length+2) (q : ℕ×Place) :
    occ (boot (image m)).fs q=(volume m).own q := by
  obtain ⟨i,p⟩ := q
  show (if (dinodes m.disk i).type=.free then 0 else (volume m).own (i,p))=_
  split
  · rename_i hfree
    rw [(h.kind i).1,hn] at hfree
    have hempty := h.files.own_empty (contents_free files hfree) p
    rw [own_resize] at hempty
    exact hempty.symm
  · rfl

lemma length_encode_dirent {e : Dirent} (he : e.name.length=dirsiz) : e.encode.length=direntSize := by
  rw [Dirent.encode,List.length_cons,List.length_cons,he]
  rfl

lemma rootEntries_encoded (files : List Input) : ∀ e∈rootEntries files,e.encode.length=direntSize := by
  grind [length_encode_dirent,rootEntries,dotNode,strncpy_length,List.getElem?_of_mem,fileEntries_get]

lemma rootEntries_inum (files : List Input) : ∀ e∈rootEntries files,e.inum<files.length+2 := by
  intro e he
  rw [rootEntries,dotNode] at he
  rcases List.mem_append.mp he with he | he
  · rcases List.mem_cons.mp he with rfl | he
    · exact show 1<files.length+2 by omega
    · rw [List.mem_singleton.mp he]
      exact show 1<files.length+2 by omega
  · obtain ⟨k,hk⟩ := List.getElem?_of_mem he
    have hlt : k<files.length := by
      rw [←length_fileEntries files 2]
      exact (List.getElem?_eq_some_iff.mp hk).1
    rw [fileEntries_get] at hk
    obtain ⟨f,_,rfl⟩ := Option.map_eq_some_iff.mp hk
    exact show 2+k<files.length+2 by omega

lemma length_rootEntries (files : List Input) : (rootEntries files).length=files.length+2 := by
  rw [rootEntries,List.length_append,length_fileEntries,add_comm]
  rfl

lemma length_flatMap_encode {l : List Dirent} (h : ∀ e∈l,e.encode.length=direntSize) :
    (l.flatMap Dirent.encode).length=direntSize*l.length := by
  induction l with
  | nil => rfl
  | cons e l ih =>
    grind

lemma length_contents_root (files : List Input) :
    (contents files rootino).length=direntSize*(files.length+2) := by
  rw [contents_root,length_flatMap_encode (rootEntries_encoded files),length_rootEntries]

lemma built_listed (h : Built m (contents files)) (hn : m.freeinode=files.length+2)
    (hlt : files.length+2≤ slots) : Listed m.disk (dinodes m.disk rootino) (rootEntries files) := by
  have hlen : direntSize*(rootEntries files).length=(contents files rootino).length := by
    rw [length_rootEntries,length_contents_root]
  refine ⟨?_,?_,?_,fun bn hbn => ?_,fun k hk => ?_,rootEntries_encoded files,fun e he => ?_⟩
  · rw [(h.kind rootino).1,hn,kindOf,if_neg,if_pos rfl]
    show ¬(1=0 ∨ files.length+2≤1)
    omega
  · grind [h.root,bsize]
  · rw [hlen]
    exact lt_of_le_of_lt (h.files.length_le rootino) (by decide)
  · rw [hlen] at hbn
    have hm := (h.files.mapped rootino bn).mpr hbn
    rwa [own_resize] at hm
  · rw [hlen] at hk
    have hb := h.files.bytes rootino k hk
    rw [own_resize,contents_root] at hb
    exact hb
  · have hinum := rootEntries_inum files e he
    have hlt' : files.length+2≤208 := hlt
    omega

end Image

section Files

variable {files : List Input} {f : Input}

/-- Files that fit into an image, under names that the kernel can tell apart. -/
structure Fitting (files : List Input) : Prop where
  named : ∀ f∈files,f.name≠[] ∧ f.name≠dot ∧ f.name≠dotdot
  distinct : (files.map fun f => f.name.take dirsiz).Nodup
  short : ∀ f∈files,f.bytes.length≤ maxfile*bsize
  inodes : files.length+2≤ninodes
  blocks : nmeta+blocksFor (direntSize*(files.length+2))+
    (files.map fun f => blocksFor f.bytes.length).sum≤fssize

lemma Fitting.slots (h : Fitting files) : files.length+2≤ slots := h.inodes.trans (by decide)

lemma contents_cases (files : List Input) (i : ℕ) :
    i=rootino ∨ (∃ f∈files,contents files i=f.bytes) ∨ contents files i=[] := by
  by_cases hr : i=rootino
  · exact .inl hr
  · refine .inr ?_
    by_cases hfree : kindOf (files.length+2) i=.free
    · exact .inr (contents_free files hfree)
    · have hi : ¬(i=0 ∨ files.length+2≤ i) := fun hc => hfree (if_pos hc)
      have hr' : i≠1 := hr
      obtain ⟨k,rfl⟩ : ∃ k,i=2+k := ⟨i-2,by omega⟩
      have hk : k<files.length := by omega
      have hget : files[k]?=some (files.get ⟨k,hk⟩) := List.getElem?_eq_getElem hk
      exact .inl ⟨files.get ⟨k,hk⟩,List.mem_of_getElem? hget,contents_get hget⟩

lemma not_overflow (hslots : files.length+2≤ slots) (hshort : ∀ f∈files,f.bytes.length≤ maxfile*bsize)
    (hblocks : nmeta+blocksFor (direntSize*(files.length+2))+
      (files.map fun f => blocksFor f.bytes.length).sum≤fssize) :
    ¬Overflow fun i => (contents files i).length := by
  rintro (hlt | ⟨i,hi⟩)
  · have hsum := blocksUsed_contents files hslots
    rw [length_contents_root] at hsum
    have hlt' : fssize<blocksUsed (contents files) := hlt
    omega
  · have hi : maxfile*bsize<(contents files i).length := hi
    rcases contents_cases files i with rfl | ⟨f,hf,hc⟩ | hc
    · have hslots' : files.length+2≤208 := hslots
      rw [length_contents_root] at hi
      have hi' : 274432<16*(files.length+2) := hi
      omega
    · grind
    · grind

lemma main_succeeds (hslots : files.length+2≤ slots) (hfit : ¬Unfit files) :
    ∃ m,main files=.next m ∧ Built m (contents files) ∧ m.freeinode=files.length+2 := by
  obtain ⟨m,hm,hb,hn,-⟩ := (main_spec files hslots fun hu (_ : String) => hfit hu).exists_next
    (main_prompt files)
  exact ⟨m,hm,hb,hn⟩

lemma mem_skipUnderscore {name : List UInt8} {b : UInt8} (h : b∈skipUnderscore name) : b∈name := by
  grind [skipUnderscore]

lemma mem_arg_of_name {b : UInt8} (h : b∈f.name) : b∈f.arg := by
  have hs := mem_skipUnderscore h
  grind [shortname]

lemma clip_of_text {s : List UInt8} (h : ∀ b∈s,b≠0) : clip s=s.take dirsiz := by
  grind [clip,List.takeWhile_eq_self_iff]

lemma clip_name (f : Input) : clip f.name=f.name.take dirsiz :=
  clip_of_text fun b hb => f.text b (mem_arg_of_name hb)

lemma clip_take_name (f : Input) : clip (f.name.take dirsiz)=f.name.take dirsiz := by
  rw [clip_of_text fun b hb => f.text b (mem_arg_of_name (List.mem_of_mem_take hb)),List.take_take,
    Nat.min_self]

lemma namecmp_name (f : Input) (s : List UInt8) :
    namecmp (f.name.take dirsiz) (strncpy s)=true ↔ f.name.take dirsiz=clip s := by
  rw [namecmp_iff,clip_take_name,clip_strncpy]

lemma take_dirsiz_ne {s t : List UInt8} (ht : t.length<dirsiz) (h : s≠t) : s.take dirsiz≠t := by
  intro hc
  have hlen : (s.take dirsiz).length=t.length := by rw [hc]
  grind [List.take_of_length_le]

lemma Fitting.first (h : Fitting files) {k : ℕ} (hf : files[k]?=some f) :
    ∀ j e,j<k+2→(rootEntries files)[j]?=some e→namecmp (f.name.take dirsiz) e.name=false := by
  intro j e hj he
  rw [Bool.eq_false_iff]
  have hname := h.named f (List.mem_of_getElem? hf)
  match j,hj,he with
  | 0,_,he =>
    have he' : some (⟨rootino,strncpy dot⟩ : Dirent)=some e := he
    cases he'
    rw [ne_eq,namecmp_name]
    exact take_dirsiz_ne (by decide) hname.2.1
  | 1,_,he =>
    have he' : some (⟨rootino,strncpy dotdot⟩ : Dirent)=some e := he
    cases he'
    rw [ne_eq,namecmp_name]
    exact take_dirsiz_ne (by decide) hname.2.2
  | j+2,hj,he =>
    have he' : (fileEntries files 2)[j]?=some e := he
    rw [fileEntries_get] at he'
    obtain ⟨g,hg,rfl⟩ := Option.map_eq_some_iff.mp he'
    rw [ne_eq,namecmp_name,clip_name]
    intro heq
    have hjk : j≠k := by omega
    have hnodup := h.distinct
    have hgj : (files.map fun f => f.name.take dirsiz)[j]?=some (g.name.take dirsiz) := by
      rw [List.getElem?_map,hg]
      rfl
    have hfk : (files.map fun f => f.name.take dirsiz)[k]?=some (g.name.take dirsiz) := by
      rw [List.getElem?_map,hf,←heq]
      rfl
    obtain ⟨hj1,hj2⟩ := List.getElem?_eq_some_iff.mp hgj
    grind [hnodup.getElem_inj_iff]

lemma built_readable (h : Built m (contents files)) (hn : m.freeinode=files.length+2)
    (hfit : Fitting files) (hok : ∀ f∈files,¬Refused f) {k : ℕ} (hf : files[k]?=some f) :
    ∃ fs1 ip fs2 fs3,namei (boot (image m)).fs 0 f.name=.next (fs1,some ip) ∧
      ilock fs1 ip=.next fs2 ∧
      readi fs2 ip none 0 (fs2.itable ip).copy.size=.next (fs3,some f.bytes) := by
  have hmem : f∈files := List.mem_of_getElem? hf
  have hk : k<files.length := (List.getElem?_eq_some_iff.mp hf).1
  have hslash : slash∉f.name := by
    intro hc
    exact hok f hmem (.inl (mem_skipUnderscore hc))
  have hentry : (rootEntries files)[k+2]?=some ⟨2+k,strncpy f.name⟩ := by
    show (fileEntries files 2)[k]?=_
    rw [fileEntries_get,hf]
    rfl
  have hmatch : namecmp (f.name.take dirsiz) (strncpy f.name)=true := by
    rw [namecmp_name,clip_name]
  have hlisted : Listed (image m).data ((image m).dinode rootino) (rootEntries files) :=
    built_listed h hn hfit.slots
  obtain ⟨fs1,hnamei,hdata,hdin,hip⟩ := namei_found hlisted (hfit.named f hmem).1 hslash hentry
    ⟨show 2+k≠0 by omega,show 2+k≠1 by omega⟩ hmatch (hfit.first hf)
  have hdin' : fs1.dinode (2+k)=dinodes m.disk (2+k) := congrFun hdin _
  have hfree : ¬(dinodes m.disk (2+k)).type=.free := by grind [h.kind,kindOf]
  have hlock : ilock fs1 1=.next (fs1.setInode 1 ⟨2+k,1,true,true,dinodes m.disk (2+k)⟩) := by
    grind [ilock,Inode.empty]
  have hne : 2+k≠rootino := by
    show 2+k≠1
    omega
  have hbytes : contents files (2+k)=f.bytes := contents_get hf
  have hvol : ∀ p,((volume m).resize rootino (contents files rootino).length).own (2+k,p)=
      blockAt m.disk (dinodes m.disk (2+k)) p := by
    intro p
    rw [own_resize]
    rfl
  have hsize : (dinodes m.disk (2+k)).size=f.bytes.length := by
    have hs := h.files.size (2+k)
    rw [hbytes] at hs
    rw [←hs]
    show _=(update (dinodes m.disk) rootino _ (2+k)).size
    rw [update_of_ne hne]
  have hlen : f.bytes.length<2^32 :=
    lt_of_le_of_lt (hfit.short f hmem) (by decide)
  refine ⟨fs1,1,_,_,hnamei,hlock,readi_whole ?_ hlen (fun bn hbn => ?_) fun j hj => ?_⟩
  · rw [setInode_self]
    exact hsize
  · rw [setInode_self,setInode_data,hdata]
    rw [←hbytes] at hbn
    have hmap := (h.files.mapped (2+k) bn).mpr hbn
    rwa [hvol] at hmap
  · rw [setInode_self,setInode_data,hdata]
    have hb := h.files.bytes (2+k) j (by rwa [hbytes])
    rw [hvol,hbytes] at hb
    exact hb

/-- mkfs succeeds on files that fit and that it can open, and the kernel finds
each of them under its name in the image and reads the bytes of the input
file, in whatever pieces mkfs has read them. No block is used twice. -/
theorem kernel_reads_mkfs_files (h : Fitting files) :
    ((∀ f∈files,slash∉shortname f.arg ∧ f.file≠none)→∃ m,main files=.next m) ∧
    ∀ m,main files=.next m→∃ img,fsinit m.disk=.next img ∧
      (∀ f∈files,∃ fs1 ip fs2 fs3,namei (boot img).fs 0 f.name=.next (fs1,some ip) ∧
        ilock fs1 ip=.next fs2 ∧
        readi fs2 ip none 0 (fs2.itable ip).copy.size=.next (fs3,some f.bytes)) ∧
      ∀ p q,occ (boot img).fs p≠0→ occ (boot img).fs p=occ (boot img).fs q→p=q := by
  refine ⟨fun hok => ?_,fun m hm => ?_⟩
  · have hfit : ¬Unfit files := by
      rintro (ho | ⟨f,hf,hr⟩)
      · exact not_overflow h.slots h.short h.blocks ho
      · exact hr.elim (hok f hf).1 (hok f hf).2
    obtain ⟨m,hm,-⟩ := main_succeeds h.slots hfit
    exact ⟨m,hm⟩
  · obtain ⟨hb,hn,hok⟩ := (main_spec files h.slots fun _ (_ : String) => trivial).of_next hm
    refine ⟨image m,fsinit_image hb.super,fun f hf => ?_,fun p q hp hpq => ?_⟩
    · obtain ⟨k,hk⟩ := List.getElem?_of_mem hf
      exact built_readable hb hn h hok hk
    · have howns := hb.files.owns
      rw [own_resize] at howns
      rw [built_occ hb hn] at hp hpq
      rw [built_occ hb hn] at hpq
      exact howns.unique p q hp hpq

/-- A program that mkfs reads in two pieces, and an empty file. -/
def sample : List Input :=
  [⟨[117,115,101,114,47,95,99,97,116],by decide +kernel,some ⟨[[1,2],[3]],by decide +kernel⟩⟩,
    ⟨[82],by decide +kernel,some ⟨[],by decide +kernel⟩⟩]

theorem sample_readable : ∃ m img fs1 ip fs2 fs3,main sample=.next m ∧ fsinit m.disk=.next img ∧
    namei (boot img).fs 0 [99,97,116]=.next (fs1,some ip) ∧ ilock fs1 ip=.next fs2 ∧
    readi fs2 ip none 0 (fs2.itable ip).copy.size=.next (fs3,some [1,2,3]) := by
  have hfit : Fitting sample := ⟨by decide,by decide,by decide,by decide,by decide⟩
  obtain ⟨hrun,hread⟩ := kernel_reads_mkfs_files hfit
  obtain ⟨m,hm⟩ := hrun (by decide)
  obtain ⟨img,himg,hfiles,-⟩ := hread m hm
  obtain ⟨fs1,ip,fs2,fs3,h1,h2,h3⟩ := hfiles _ List.mem_cons_self
  exact ⟨m,img,fs1,ip,fs2,fs3,hm,himg,h1,h2,h3⟩

end Files

section WellFormed

variable {files : List Input}

structure WellFormed (m : Maker) : Prop where
  numbers : m.freeinode≤ninodes
  inodes : ∀ i,(dinodes m.disk i).type≠.free→i<ninodes
  blocks : ∀ i p,blockAt m.disk (dinodes m.disk i) p≠0→
    nmeta≤blockAt m.disk (dinodes m.disk i) p ∧ blockAt m.disk (dinodes m.disk i) p<fssize
  mapped : ∀ i bn,bn*bsize<(dinodes m.disk i).size→
    blockAt m.disk (dinodes m.disk i) (placeOf bn)≠0
  distinct : ∀ i j p q,blockAt m.disk (dinodes m.disk i) p≠0→
    blockAt m.disk (dinodes m.disk i) p=blockAt m.disk (dinodes m.disk j) q→i=j ∧ p=q
  bitmap : ∀ b,bitAt (m.disk bmapstart) b=true ↔ b< m.freeblock

variable (h : Built m (contents files))

include h

lemma built_mapped {i bn : ℕ} (hi : i≠rootino) :
    bn*bsize<(dinodes m.disk i).size ↔ blockAt m.disk (dinodes m.disk i) (placeOf bn)≠0 := by
  have hs := h.files.size i
  have hm := h.files.mapped i bn
  rw [own_resize,←hs] at hm
  have hd : ((volume m).resize rootino (contents files rootino).length).dinode i=dinodes m.disk i :=
    update_of_ne hi _ _
  rw [hd] at hm
  exact hm.symm

lemma built_root (bn : ℕ) : blockAt m.disk (dinodes m.disk rootino) (placeOf bn)≠0 ↔
      bn*bsize<direntSize*(files.length+2) := by
  have hm := h.files.mapped rootino bn
  rw [own_resize,length_contents_root] at hm
  exact hm

lemma built_root_size :
    (dinodes m.disk rootino).size=(direntSize*(files.length+2)/bsize+1)*bsize := by
  rw [h.root,length_contents_root]

lemma built_root_mapped (hroot : direntSize*(files.length+2)%bsize≠0) {bn : ℕ}
    (hbn : bn*bsize<(dinodes m.disk rootino).size) :
    blockAt m.disk (dinodes m.disk rootino) (placeOf bn)≠0 := by
  rw [built_root h]
  rw [built_root_size h] at hbn
  simp only [bsize,direntSize] at hroot hbn ⊢
  omega

lemma built_inodes {i : ℕ} (hi : (dinodes m.disk i).type≠.free) : 0< i ∧ i< m.freeinode := by
  rw [(h.kind i).1] at hi
  have : ¬(i=0 ∨ m.freeinode≤ i) := fun hc => hi (if_pos hc)
  omega

omit h

/-- If the code ends, it has handed out the inode numbers below n. -/
def Numbered (n : ℕ) (o : Outcome Maker) : Prop :=
  Ensures (fun _ => True) o fun t => t.freeinode=n

lemma winode_numbered (m : Maker) (inum : ℕ) (din : Dinode) :
    Numbered m.freeinode (winode m inum din) := (ensures_trivial _).bind fun _ _ => rfl

lemma addrFor_number (m : Maker) (din : Dinode) (k : ℕ) :
    (addrFor m din k).1.freeinode=m.freeinode := by grind [addrFor]

lemma entryFor_number (m : Maker) (din : Dinode) (j : ℕ) :
    Ensures (fun _ => True) (entryFor m din j) fun r => r.1.freeinode=m.freeinode := by
  refine (ensures_trivial _).bind fun indirect _ => ?_
  split_ifs <;> rfl

lemma blockFor_number (m : Maker) (din : Dinode) (fbn : ℕ) :
    Ensures (fun _ => True) (blockFor m din fbn) fun r => r.1.freeinode=m.freeinode := by
  rw [blockFor]
  split_ifs
  · exact addrFor_number m din fbn
  · exact (entryFor_number _ _ _).bind fun r hr => hr.trans (addrFor_number m din ndirect)

lemma iappendLoop_number (fuel off : ℕ) (m : Maker) (din : Dinode) (p : List UInt8) :
    Ensures (fun _ => True) (iappendLoop fuel m din off p) fun r => r.1.freeinode=m.freeinode := by
  induction fuel generalizing m din off p with
  | zero => rfl
  | succ fuel ih =>
    rw [iappendLoop]
    dsimp only
    split_ifs
    · rfl
    · refine (blockFor_number m din _).bind fun r hr => ?_
      refine (ensures_trivial _).bind fun buf _ => ?_
      rw [←hr]
      exact ih ..
    · trivial

lemma iappend_numbered (m : Maker) (inum : ℕ) (p : List UInt8) :
    Numbered m.freeinode (iappend m inum p) := by
  refine (ensures_trivial _).bind fun din _ => ?_
  refine (iappendLoop_number _ _ m din p).bind fun r hr => ?_
  rw [←hr]
  exact winode_numbered ..

lemma appendAll_numbered (m : Maker) (inum : ℕ) (chunks : List (List UInt8)) :
    Numbered m.freeinode (appendAll inum chunks m) := by
  induction chunks generalizing m with
  | nil => rfl
  | cons c chunks ih =>
    refine (iappend_numbered m inum c).bind fun m1 hm1 => ?_
    rw [←hm1]
    exact ih m1

lemma ialloc_number (m : Maker) (type : FileType) :
    Ensures (fun _ => True) (Mkfs.ialloc m type) fun r => r.1.freeinode=m.freeinode+1 :=
  (winode_numbered {m with freeinode := m.freeinode+1} _ _).bind fun _ hm => hm

lemma addFile_numbered (m : Maker) (f : Input) : Numbered (m.freeinode+1) (addFile m f) := by
  rw [addFile]
  split_ifs
  · trivial
  · cases f.file with
    | none => trivial
    | some file =>
      refine (ialloc_number m .file).bind fun r hr => ?_
      refine (iappend_numbered r.1 rootino _).bind fun m1 hm1 => ?_
      rw [←hr,←hm1]
      exact appendAll_numbered ..

lemma addFiles_numbered (files : List Input) (m : Maker) :
    Numbered (m.freeinode+files.length) (addFiles files m) := by
  induction files generalizing m with
  | nil => rfl
  | cons f files ih =>
    refine (addFile_numbered m f).bind fun m1 hm1 => ?_
    have hrest := ih m1
    rw [hm1,Nat.add_assoc,Nat.add_comm 1] at hrest
    exact hrest

lemma makeRoot_numbered : Numbered 2 (makeRoot format) := by
  refine (ialloc_number format .dir).bind fun r hr => ?_
  dsimp only
  split_ifs
  · refine (iappend_numbered r.1 r.2 _).bind fun m1 hm1 => ?_
    rw [show 2=m1.freeinode from (hm1.trans hr).symm]
    exact iappend_numbered ..
  · trivial

/-- However many files there are, each gets an inode number. -/
lemma main_numbered (files : List Input) : Numbered (files.length+2) (main files) := by
  refine makeRoot_numbered.bind fun m1 hm1 => ?_
  refine (addFiles_numbered files m1).bind fun m2 hm2 => ?_
  have hfix : Numbered m2.freeinode (fixRoot m2) :=
    (ensures_trivial _).bind fun din _ => winode_numbered ..
  refine hfix.bind fun m3 hm3 => ?_
  rw [Mkfs.balloc]
  split_ifs
  · exact hm3.trans (hm2.trans (by rw [hm1,Nat.add_comm]))
  · trivial

lemma well_formed_of_fits (hinodes : files.length+2≤ninodes)
    (hroot : direntSize*(files.length+2)%bsize≠0) (hm : main files=.next m) : WellFormed m := by
  have hslots : files.length+2≤ slots := hinodes.trans (by decide)
  obtain ⟨hb,hn,-⟩ := (main_spec files hslots fun _ (_ : String) => trivial).of_next hm
  have howned := hb.files.toOwned
  have hown : ∀ i p,((volume m).resize rootino (contents files rootino).length).own (i,p)=
      blockAt m.disk (dinodes m.disk i) p := by
    intro i p
    rw [own_resize]
    rfl
  refine ⟨?_,fun i hi => ?_,fun i p hp => ?_,fun i bn hbn => ?_,fun i j p q hp hpq => ?_,fun b => ?_⟩
  · rw [hn]
    exact hinodes
  · have := (built_inodes hb hi).2
    omega
  · rw [←hown] at hp ⊢
    have hlt : _< m.freeblock := howned.lt_next hp
    exact ⟨(howned.owns.inside _ hp).1,lt_of_lt_of_le hlt hb.room⟩
  · grind [built_root_mapped,built_mapped]
  · grind [howned.owns.unique]
  · rw [hb.bitmap,decide_eq_true_iff]

/-- An image that mkfs writes is well-formed if and only if there are inodes for
the files and the entries of the root directory do not end at a block
boundary. -/
theorem mkfs_image_well_formed_iff (hm : main files=.next m) :
    WellFormed m ↔ files.length+2≤ninodes ∧ direntSize*(files.length+2)%bsize≠0 := by
  refine ⟨fun h => ?_,fun h => well_formed_of_fits h.1 h.2 hm⟩
  have hn : m.freeinode=files.length+2 := (main_numbered files).of_next hm
  have hinodes : files.length+2≤ninodes := hn ▸ h.numbers
  have hslots : files.length+2≤ slots := hinodes.trans (by decide)
  obtain ⟨hb,-,-⟩ := (main_spec files hslots fun _ (_ : String) => trivial).of_next hm
  refine ⟨hinodes,fun hfull => ?_⟩
  -- the size claims the block behind the entries, which nothing was written to
  have hmapped := h.mapped rootino (direntSize*(files.length+2)/bsize)
  rw [built_root_size hb,built_root hb] at hmapped
  simp only [bsize,direntSize] at hfull hmapped
  omega

/-- mkfs succeeds on the sample files. -/
lemma main_sample : ∃ m,main sample=.next m := by
  have hslots : sample.length+2≤ slots := by decide
  have hfit : ¬Unfit sample := by
    have hok : ∀ f∈sample,slash∉shortname f.arg ∧ f.file≠none := by decide
    rintro (ho | ⟨f,hf,hr⟩)
    · exact not_overflow hslots (by decide) (by decide) ho
    · exact hr.elim (hok f hf).1 (hok f hf).2
  obtain ⟨m,hm,-⟩ := main_succeeds hslots hfit
  exact ⟨m,hm⟩

/-- The sample files give a well-formed image. -/
theorem sample_well_formed : ∃ m,main sample=.next m ∧ WellFormed m := by
  obtain ⟨m,hm⟩ := main_sample
  exact ⟨m,hm,(mkfs_image_well_formed_iff hm).mpr (by decide)⟩

def emptyName (k : ℕ) : List UInt8 := [UInt8.ofNat (65+k%26),UInt8.ofNat (97+k/26%26)]

lemma emptyName_text (k : ℕ) : ∀ b∈emptyName k,b≠0 ∧ b≠slash := by
  have hbyte : ∀ x,64<x→x<256→UInt8.ofNat x≠0 ∧ UInt8.ofNat x≠slash := by
    intro x hlo hhi
    have htoNat : (UInt8.ofNat x).toNat=x := by
      rw [UInt8.toNat_ofNat',Nat.mod_eq_of_lt hhi]
    constructor
    · intro hc
      rw [hc] at htoNat
      grind
    · intro hc
      rw [hc] at htoNat
      have hs : slash.toNat=47 := rfl
      omega
  grind [emptyName]

def empties (n : ℕ) : List Input := (List.range n).map fun k =>
  ⟨emptyName k,fun b hb => (emptyName_text k b hb).1,some ⟨[],fun _ hc => absurd hc List.not_mem_nil⟩⟩

lemma empties_bytes {n : ℕ} {f : Input} (hf : f∈empties n) : f.bytes=[] ∧ ¬Refused f := by
  obtain ⟨k,_,rfl⟩ := List.mem_map.mp hf
  refine ⟨rfl,?_⟩
  rintro (hs | hnone)
  · have hshort : shortname (emptyName k)=emptyName k := if_neg fun hc => by
      have hlen : ((emptyName k).take 5).length=userSlash.length := by rw [hc]
      exact absurd hlen (by simp [emptyName,userSlash])
    have hs' : slash∈shortname (emptyName k) := hs
    rw [hshort] at hs'
    exact (emptyName_text k slash hs').2 rfl
  · cases hnone

lemma empties_built {n : ℕ} (hn : n+2≤ slots) :
    ∃ m,main (empties n)=.next m ∧ Built m (contents (empties n)) ∧ m.freeinode=n+2 := by
  have hlen : (empties n).length=n := by rw [empties,List.length_map,List.length_range]
  have hsum : ((empties n).map fun f => blocksFor f.bytes.length).sum=0 := by
    refine List.sum_eq_zero fun x hx => ?_
    obtain ⟨f,hf,rfl⟩ := List.mem_map.mp hx
    rw [(empties_bytes hf).1]
    rfl
  have hfit : ¬Unfit (empties n) := by
    rintro (ho | ⟨f,hf,hr⟩)
    · refine not_overflow (by rwa [hlen]) (fun f hf => ?_) ?_ ho
      · rw [(empties_bytes hf).1]
        exact Nat.zero_le _
      · have hn' : n+2≤208 := hn
        have hle := blocksFor_mono (show direntSize*(n+2)≤3328 by simp only [direntSize]; omega)
        have hb : blocksFor 3328=4 := rfl
        rw [hsum,hlen]
        show 46+blocksFor (direntSize*(n+2))+0≤2000
        omega
    · exact (empties_bytes hf).2 hr
  obtain ⟨m,hm,hb,hfree⟩ := main_succeeds (by rwa [hlen]) hfit
  rw [hlen] at hfree
  exact ⟨m,hm,hb,hfree⟩

/-- With sixty-two files the root directory fills a block and its size claims
another one, which is not there. With one hundred and ninety-nine files the
last one gets an inode number that the superblock does not have. -/
theorem mkfs_image_ill_formed :
    (∃ m,main (empties 62)=.next m ∧ 1*bsize<(dinodes m.disk rootino).size ∧
      blockAt m.disk (dinodes m.disk rootino) (placeOf 1)=0) ∧
    ∃ m,main (empties 199)=.next m ∧ (dinodes m.disk 200).type=.file ∧ ninodes≤200 := by
  constructor
  · obtain ⟨m,hm,hb,-⟩ := empties_built (show 62+2≤ slots by decide)
    refine ⟨m,hm,?_,?_⟩
    · rw [built_root_size hb]
      decide
    · by_contra hc
      rw [←ne_eq,built_root hb] at hc
      exact absurd hc (by decide)
  · obtain ⟨m,hm,hb,hn⟩ := empties_built (show 199+2≤ slots by decide)
    refine ⟨m,hm,?_,by decide⟩
    rw [(hb.kind 200).1,hn]
    rfl

theorem mkfs_image_consistent (hinodes : files.length+2≤ninodes)
    (hroot : direntSize*(files.length+2)%bsize≠0) (hm : main files=.next m) :
    fsinit m.disk=.next (image m) ∧ Consistent (image m) := by
  have hslots : files.length+2≤ slots := hinodes.trans (by decide)
  obtain ⟨hb,hn,-⟩ := (main_spec files hslots fun _ (_ : String) => trivial).of_next hm
  have hocc : occ (boot (image m)).fs=(volume m).own := funext (built_occ hb hn)
  have howned := hb.files.toOwned
  have howns := howned.owns
  rw [own_resize,←hocc] at howns
  have hstart : (image m).sb.dataStart=nmeta := show fssize-nblocks=nmeta by decide
  have hfree : nmeta≤ m.freeblock := howned.lo_le
  have hbit : ∀ b,b<fssize→(image m).bitmap b=decide (b< m.freeblock) := by
    intro b hlt
    have hdiv : b/bpb=0 := Nat.div_eq_of_lt (lt_trans hlt (by decide))
    have hmod : b%bpb=b := Nat.mod_eq_of_lt (lt_trans hlt (by decide))
    show bitAt (m.disk (b/bpb+bmapstart)) (b%bpb)=_
    rw [hdiv,hmod,Nat.zero_add,hb.bitmap]
  have hkind : ∀ i,(dinodes m.disk i).type≠.free→(dinodes m.disk i).nlink=1 := by grind [hb.kind]
  have hblocks : Owns nmeta fssize (occ (boot (image m)).fs) (image m).bitmap := by
    refine ⟨by decide,fun q hq => ?_,howns.unique,fun b hlo hhi => ?_,fun b hlt => ?_⟩
    · have hlt : _< m.freeblock := of_decide_eq_true (howns.used_of_held hq)
      exact ⟨(howns.inside q hq).1,lt_of_lt_of_le hlt hb.room⟩
    · rw [hbit b hhi]
      exact howns.used_iff b hlo (lt_trans hhi (by decide))
    · rw [hbit b (lt_trans hlt (by decide)),decide_eq_true_iff]
      omega
  refine ⟨fsinit_image hb.super,⟨by rw [hstart]; exact hblocks,show fssize≤2^32 by decide,
    fun i hi bn hbn => ?_,fun i hi => ?_,⟨fun i hi => ?_,fun i hi => ?_,show ninodes≤65536 by decide⟩,
    fun i hi => ?_,?_⟩⟩
  · rw [hocc]
    by_cases hr : i=rootino
    · subst hr
      exact built_root_mapped hb hroot hbn
    · exact (built_mapped hb hr).mp hbn
  · have hrange := built_inodes hb hi
    exact ⟨hrange.1,lt_of_lt_of_le hrange.2 (hn.le.trans hinodes)⟩
  · have hi' : kindOf m.freeinode i=.dir := (hb.kind i).1.symm.trans hi
    have hr : i=rootino := by
      by_contra hne
      grind [kindOf]
    show (dinodes m.disk i).size%direntSize=0
    rw [hr,built_root_size hb]
    simp only [bsize,direntSize]
    omega
  · have hlink : ((boot (image m)).fs.dinode i).nlink=1 := hkind i hi
    rw [hlink]
    decide
  · have hlink : ((image m).dinode i).nlink=1 := hkind i hi
    rw [hlink]
    decide
  · show (dinodes m.disk rootino).type≠.free
    have hne : ¬(rootino=0 ∨ files.length+2≤rootino) := by
      show ¬(1=0 ∨ files.length+2≤1)
      omega
    grind [hb.kind,kindOf]

/-- The image of the sample files is one that the kernel can start from. -/
theorem sample_consistent : ∃ m,main sample=.next m ∧ Consistent (image m) := by
  obtain ⟨m,hm⟩ := main_sample
  exact ⟨m,hm,(mkfs_image_consistent (by decide) (by decide) hm).2⟩

end WellFormed

end Xv6Riscv.MkfsImage
