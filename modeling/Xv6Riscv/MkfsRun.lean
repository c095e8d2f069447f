import Xv6Riscv.Mkfs
import Xv6Riscv.VolumeLayout

/-!
# What mkfs writes

The sectors that mkfs has written so far are a volume: its inodes are those of
the inode blocks, with the one that iappend works on in its local copy. Every
round of iappend reserves and writes one block of this volume. Unless the disk
or a file overflows, each call of iappend appends its bytes to the contents of
its file and leaves the other files alone.
-/

namespace Xv6Riscv.MkfsRun

open Function
open Transition OutcomeLogic InodeLayer DirectoryLayer Occupancy BlockOwnership FileTree FileView
  DiskFormat VolumeLayout Mkfs

variable {m m' : Maker} {i j x : ℕ} {din d : Dinode} {c : ℕ→List UInt8} {top : ℕ→ℕ}
  {stop : String→Prop}

def slots : ℕ := ninodeblocks*ipb

def dinodes (disk : ℕ→Block) : ℕ→Dinode := fun i =>
  if i<slots then dinodeIn (disk (iblock i)) (i%ipb) else .blank .free

def volume (m : Maker) : Volume := ⟨dinodes m.disk,m.disk,m.freeblock⟩

def editing (m : Maker) (i : ℕ) (din : Dinode) : Volume :=
  ⟨update (dinodes m.disk) i din,m.disk,m.freeblock⟩

lemma iblock_range (hi : i<slots) : inodestart≤ iblock i ∧ iblock i<bmapstart := by
  have hi' : i<208 := hi
  show 32≤ i/16+32 ∧ i/16+32<45
  omega

lemma iblock_lt (hi : i<slots) : iblock i<nmeta := (iblock_range hi).2.trans (by decide)

lemma dinodes_update (disk : ℕ→Block) (hx : bmapstart≤x) (buf : Block) :
    dinodes (update disk x buf)=dinodes disk := by grind [dinodes,iblock_range]

lemma dinodes_put (disk : ℕ→Block) (hi : i<slots) (h : Fits d) :
    dinodes (update disk (iblock i) (putDinode (disk (iblock i)) (i%ipb) d))=
      update (dinodes disk) i d := by
  funext j
  by_cases hj : j=i
  · subst hj
    rw [update_self,dinodes,if_pos hi,update_self,dinodeIn_put _ _ h]
  · rw [update_of_ne hj]
    simp only [dinodes]
    split
    · by_cases hb : iblock j=iblock i
      · have hs : j%ipb≠i%ipb := by
          have hb' : j/16+32=i/16+32 := hb
          show j%16≠i%16
          omega
        rw [hb,update_self,dinodeIn_put_of_ne _ hs]
      · rw [update_of_ne hb]
    · rfl

lemma fits_dinodes (disk : ℕ→Block) (i : ℕ) : Fits (dinodes disk i) := by
  simp only [dinodes]
  split
  · exact fits_decode _
  · exact ⟨by decide,by decide,by decide,by decide,fun _ => Nat.two_pow_pos 32,fun _ _ => rfl⟩

lemma wsect_sectors (m : Maker) (hx : x< m.sectors) (buf : Block) :
    (wsect m x buf).sectors=m.sectors := by
  show max m.sectors (x+1)=m.sectors
  omega

/-- The lengths that files may reach exceed the disk or the largest file. -/
def Overflow (top : ℕ→ℕ) : Prop :=
  fssize<nmeta+∑ i ∈ Finset.range slots,blocksFor (top i) ∨ ∃ i,maxfile*bsize<top i

/-- The number of blocks up to the last one of files with these contents. -/
def blocksUsed (c : ℕ→List UInt8) : ℕ := nmeta+∑ i ∈ Finset.range slots,blocksFor (c i).length

lemma blocksFor_mono {a b : ℕ} (h : a≤b) : blocksFor a≤blocksFor b := by
  have hdef : ∀ len,blocksFor len=(len+1023)/1024+if 12288<len then 1 else 0 := fun _ => rfl
  grind

lemma blocksUsed_le (h : ∀ i,(c i).length≤top i) :
    blocksUsed c≤nmeta+∑ i ∈ Finset.range slots,blocksFor (top i) :=
  Nat.add_le_add_left (Finset.sum_le_sum fun i _ => blocksFor_mono (h i)) _

structure Filling (m : Maker) (i : ℕ) (din : Dinode) (c : ℕ→List UInt8) : Prop where
  sectors : m.sectors=fssize
  files : Files nmeta (editing m i {din with size := (c i).length}) c
  room : m.freeblock≤fssize
  count : m.freeblock=blocksUsed c
  fits : Fits din

structure Steady (m m' : Maker) : Prop where
  freeinode : m'.freeinode=m.freeinode
  front : ∀ b,b<nmeta→m'.disk b=m.disk b

lemma Steady.refl (m : Maker) : Steady m m := ⟨rfl,fun _ _ => rfl⟩

lemma Steady.trans {m1 m2 : Maker} (h : Steady m m1) (h' : Steady m1 m2) : Steady m m2 :=
  ⟨h'.freeinode.trans h.freeinode,fun b hb => (h'.front b hb).trans (h.front b hb)⟩

lemma steady_wsect (m : Maker) (hx : nmeta≤x) (buf : Block) : Steady m (wsect m x buf) :=
  ⟨rfl,fun b hb => update_of_ne (by omega) _ _⟩

lemma editing_wsect (m : Maker) (hx : nmeta≤x) (i : ℕ) (din : Dinode) (buf : Block) :
    editing (wsect m x buf) i din=(editing m i din).put x buf := by
  have hd : dinodes (wsect m x buf).disk=dinodes m.disk :=
    dinodes_update _ (le_trans (by decide) hx) _
  show (⟨update (dinodes (wsect m x buf).disk) i din,_,_⟩ : Volume)=_
  rw [hd]
  rfl

lemma editing_self (m : Maker) (i : ℕ) (din : Dinode) : (editing m i din).dinode i=din :=
  update_self _ _ _

lemma addrFor_editing (m : Maker) (din : Dinode) (k n i : ℕ) :
    editing (addrFor m din k).1 i {(addrFor m din k).2 with size := n}=
      (editing m i {din with size := n}).ensureAddr i k := by
  rw [Volume.ensureAddr,editing_self,addrFor]
  by_cases hk : din.addrs k=0
  · rw [if_pos hk,if_pos hk,Volume.takeAddr,editing_self]
    simp only [editing,update_idem]
    rfl
  · rw [if_neg hk,if_neg hk]

lemma addrFor_steady (m : Maker) (din : Dinode) (k : ℕ) :
    Steady m (addrFor m din k).1 ∧ (addrFor m din k).1.sectors=m.sectors ∧
      (addrFor m din k).1.disk=m.disk := by
  rw [addrFor]
  split
  · exact ⟨⟨rfl,fun _ _ => rfl⟩,rfl,rfl⟩
  · exact ⟨.refl m,rfl,rfl⟩

lemma addrFor_fields (m : Maker) {k : ℕ} (hk : k≤ndirect) (h : Fits din)
    (hn : m.freeblock<2^32) :
    Fits (addrFor m din k).2 ∧ ∃ a,(addrFor m din k).2={din with addrs := a} := by
  rw [addrFor]
  split
  · refine ⟨⟨h.major,h.minor,h.nlink,h.size,fun e => ?_,fun e he => ?_⟩,⟨_,rfl⟩⟩
    · show update din.addrs k m.freeblock e<2^32
      by_cases hek : e=k
      · rw [hek,update_self]
        exact hn
      · rw [update_of_ne hek]
        exact h.addrs e
    · show update din.addrs k m.freeblock e=0
      rw [update_of_ne (by omega)]
      exact h.range e he
  · exact ⟨h,⟨din.addrs,rfl⟩⟩

/-- What blockFor returns: the reserved volume and its block. -/
structure Chosen (m m' : Maker) (i : ℕ) (din din' : Dinode) (n bn x : ℕ) : Prop where
  volume : editing m' i {din' with size := n}=(editing m i {din with size := n}).reserve i bn
  block : x=(editing m' i {din' with size := n}).own (i,placeOf bn)
  steady : Steady m m'
  sectors : m'.sectors=m.sectors
  fits : Fits din'
  fields : ∃ a,din'={din with addrs := a}

lemma blockFor_direct {n bn : ℕ} (hbn : bn<ndirect) (hf : Fits din) (hn : m.freeblock<2^32) (i : ℕ) :
    Chosen m (addrFor m din bn).1 i din (addrFor m din bn).2 n bn ((addrFor m din bn).2.addrs bn) := by
  obtain ⟨hfit,hfields⟩ := addrFor_fields m hbn.le hf hn
  refine ⟨?_,?_,(addrFor_steady m din bn).1,(addrFor_steady m din bn).2.1,hfit,hfields⟩
  · rw [addrFor_editing,Volume.reserve,if_pos hbn]
  · rw [placeOf,if_pos hbn,own_addr _ i hbn.le,editing_self]

lemma entryFor_spec {n : ℕ} (h : Owned nmeta (editing m i {din with size := n}))
    (hs : m.sectors=fssize) (ha : din.addrs ndirect≠0) (hj : j<nindirect)
    (hstop : fssize< m.freeblock→∀ msg,stop msg) :
    Ensures stop (entryFor m din j) fun r =>
      editing r.1 i {din with size := n}=(editing m i {din with size := n}).ensureEntry i j ∧
      r.2=(editing r.1 i {din with size := n}).own (i,.entry j) ∧ Steady m r.1 ∧
      r.1.sectors=m.sectors := by
  have haddr : ((editing m i {din with size := n}).dinode i).addrs ndirect=din.addrs ndirect := by
    rw [editing_self]
  have hown := own_addr (editing m i {din with size := n}) i (le_refl ndirect)
  rw [haddr] at hown
  have hheld : (editing m i {din with size := n}).own (i,.addr ndirect)≠0 := by rwa [hown]
  have hlo : nmeta≤din.addrs ndirect := by
    rw [←hown]
    exact (h.owns.inside _ hheld).1
  have hlt : din.addrs ndirect< m.freeblock := by
    rw [←hown]
    exact h.lt_next hheld
  have hentry : ∀ v : Volume,(v.dinode i).addrs ndirect=din.addrs ndirect→
      v.own (i,.entry j)=word (v.data (din.addrs ndirect)) j := by
    intro v hv
    rw [own_entry v hj (by rwa [hv]),hv]
  rw [entryFor,rsect]
  by_cases hin : din.addrs ndirect< m.sectors
  · rw [if_pos hin]
    rw [Volume.ensureEntry,haddr]
    show Ensures stop (if word (m.disk (din.addrs ndirect)) j=0 then _ else _) _
    by_cases h0 : word (m.disk (din.addrs ndirect)) j=0
    · have h0' : word ((editing m i {din with size := n}).data (din.addrs ndirect)) j=0 := h0
      rw [if_pos h0,if_pos h0']
      have hwrite := editing_wsect {m with freeblock := m.freeblock+1} hlo i {din with size := n}
        (setWord (m.disk (din.addrs ndirect)) j m.freeblock)
      refine ⟨?_,?_,⟨rfl,fun b hb => update_of_ne (by omega) _ _⟩,
        wsect_sectors {m with freeblock := m.freeblock+1} hin _⟩
      · rw [hwrite,Volume.takeEntry,haddr]
        rfl
      · rw [hentry _ (by rw [editing_self])]
        show _=word (update m.disk _ _ (din.addrs ndirect)) j
        rw [update_self]
    · have h0' : ¬word ((editing m i {din with size := n}).data (din.addrs ndirect)) j=0 := h0
      rw [if_neg h0,if_neg h0']
      exact ⟨rfl,(hentry _ haddr).symm,.refl m,rfl⟩
  · rw [if_neg hin]
    exact hstop (by omega) "read"

lemma blockFor_spec {n bn : ℕ} (h : Owned nmeta (editing m i {din with size := n}))
    (hs : m.sectors=fssize) (hroom : m.freeblock≤fssize) (hf : Fits din) (hbn : bn< maxfile)
    (hstop : fssize<((editing m i {din with size := n}).reserve i bn).next→∀ msg,stop msg) :
    Ensures stop (blockFor m din bn) fun r => Chosen m r.1 i din r.2.1 n bn r.2.2 := by
  have hn : m.freeblock+1<2^32 := lt_of_le_of_lt (Nat.succ_le_succ hroom) (by decide)
  rw [blockFor]
  split
  · rename_i hd
    exact blockFor_direct hd hf (by omega) i
  · rename_i hd
    have hfill := ensureAddr_fills h (by decide) (le_refl ndirect)
      (show (editing m i {din with size := n}).next<2^32 by exact Nat.lt_of_succ_lt hn) i
    have hvol := addrFor_editing m din ndirect n i
    obtain ⟨hsteady,hsec,hdisk⟩ := addrFor_steady m din ndirect
    obtain ⟨hfit,hfields⟩ := addrFor_fields m (le_refl ndirect) hf (by omega)
    have hreserve : (editing m i {din with size := n}).reserve i bn=
        (editing (addrFor m din ndirect).1 i {(addrFor m din ndirect).2 with size := n}).ensureEntry i
          (bn-ndirect) := by
      rw [Volume.reserve,if_neg hd,hvol]
    rw [←hvol] at hfill
    have hj : bn-ndirect<nindirect := by grind [maxfile]
    have ha : (addrFor m din ndirect).2.addrs ndirect≠0 := by
      have := hfill.held
      rwa [own_addr _ i le_rfl,editing_self] at this
    have hn1 : (addrFor m din ndirect).1.freeblock<2^32 := by
      have hnext : (addrFor m din ndirect).1.freeblock=m.freeblock+_ := hfill.next
      rw [hnext]
      split
      · omega
      · omega
    have hmore := (ensureEntry_fills hfill.owned (by decide) hj (by rw [editing_self]; exact ha)
      (show (editing _ i _).next<2^32 from hn1)).next
    refine (entryFor_spec hfill.owned (hsec.trans hs) ha hj fun hlt => hstop ?_).bind
      fun r hr => ?_
    · rw [hreserve,hmore]
      exact Nat.lt_add_right _ hlt
    · obtain ⟨hr1,hr2,hr3,hr4⟩ := hr
      refine ⟨hr1.trans hreserve.symm,?_,hsteady.trans hr3,hr4.trans hsec,hfit,hfields⟩
      rw [placeOf,if_neg hd]
      exact hr2

lemma blocksUsed_update (hi : i<slots) (c : ℕ→List UInt8) (bs : List UInt8) :
    blocksUsed (update c i bs)+blocksFor (c i).length=
      blocksUsed c+blocksFor bs.length := by
  have hsum := Tally.sum_exchange (f := fun j => blocksFor (c j).length)
    (g := fun j => blocksFor (update c i bs j).length) (Finset.mem_range.mpr hi)
    fun j _ hj => by rw [update_of_ne hj]
  simp only [update_self] at hsum
  rw [blocksUsed,blocksUsed]
  omega

lemma Filling.reserved (h : Filling m i din c) (hbn : (c i).length/bsize< maxfile) :
    Reserved nmeta (editing m i {din with size := (c i).length})
      ((editing m i {din with size := (c i).length}).reserve i ((c i).length/bsize)) i
      ((c i).length/bsize) := by
  refine reserve_reserved h.files.toOwned (by decide) hbn ?_ i
  have hroom : (editing m i {din with size := (c i).length}).next≤fssize := h.room
  exact lt_of_le_of_lt (Nat.succ_le_succ hroom) (by decide)

lemma Filling.next_used (h : Filling m i din c) (hi : i<slots) {v : Volume} {bs : List UInt8}
    (hne : bs≠[]) (hfit : (c i).length%bsize+bs.length≤bsize)
    (hr : Reserved nmeta (editing m i {din with size := (c i).length}) v i ((c i).length/bsize)) :
    v.next=blocksUsed (update c i (c i++bs)) := by
  have hnext : v.next+blocksFor (c i).length=m.freeblock+blocksFor ((c i).length+bs.length) :=
    hr.next_blocks h.files (List.length_pos_iff.mpr hne) hfit
  have hsum := blocksUsed_update hi c (c i++bs)
  have hcount := h.count
  rw [List.length_append] at hsum
  omega

lemma Filling.round (h : Filling m i din c) (hi : i<slots) {m1 : Maker} {din1 : Dinode}
    {bs : List UInt8} (hne : bs≠[]) (hfit : (c i).length%bsize+bs.length≤bsize)
    (hbn : (c i).length/bsize< maxfile)
    (hc : Chosen m m1 i din din1 (c i).length ((c i).length/bsize) x) (hx : x<fssize) :
    Filling (wsect m1 x (writeBytes (m1.disk x) ((c i).length%bsize) bs)) i din1
        (update c i (c i++bs)) ∧
      Steady m (wsect m1 x (writeBytes (m1.disk x) ((c i).length%bsize) bs)) := by
  have hr := h.reserved hbn
  rw [←hc.volume] at hr
  have hheld := hr.held
  rw [←hc.block] at hheld
  have hlo : nmeta≤x := by
    have := (hr.owned.owns.inside _ hr.held).1
    rwa [←hc.block] at this
  have hsec : m1.sectors=fssize := hc.sectors.trans h.sectors
  have hlen : (c i++bs).length=(c i).length+bs.length := List.length_append
  have hvol : editing (wsect m1 x (writeBytes (m1.disk x) ((c i).length%bsize) bs)) i
      {din1 with size := (update c i (c i++bs) i).length}=
      (editing m1 i {din1 with size := (c i).length}).append i (c i).length bs := by
    rw [update_self,hlen,editing_wsect m1 hlo,Volume.append,←hc.block]
    simp only [Volume.resize,Volume.put,editing,update_idem,update_self]
  refine ⟨⟨?_,?_,?_,?_,hc.fits⟩,hc.steady.trans (steady_wsect m1 hlo _)⟩
  · rw [wsect_sectors m1 (by omega),hsec]
  · rw [hvol]
    exact h.files.append hne hfit hr
  · exact hr.next_le h.room (by rwa [←hc.block])
  · exact h.next_used hi hne hfit hr

lemma round_length {off n : ℕ} : min n ((off/bsize+1)*bsize-off)=min n (bsize-off%bsize) := by
  simp only [bsize]
  omega

lemma iappendLoop_spec (fuel : ℕ) {p : List UInt8} (hi : i<slots) (h : Filling m i din c)
    (hfuel : p.length≤fuel) (htop : ∀ j,(update c i (c i++p) j).length≤top j)
    (hstop : Overflow top→∀ msg,stop msg) :
    Ensures stop (iappendLoop fuel m din (c i).length p) fun r =>
      Filling r.1 i r.2.1 (update c i (c i++p)) ∧ r.2.2=(c i++p).length ∧
      Steady m r.1 ∧ ∃ a,r.2.1={din with addrs := a} := by
  induction fuel generalizing m din c p with
  | zero =>
    have hp : p=[] := List.length_eq_zero_iff.mp (Nat.le_zero.mp hfuel)
    rw [hp,List.append_nil,update_eq_self]
    exact ⟨h,rfl,.refl m,⟨din.addrs,rfl⟩⟩
  | succ fuel ih =>
    rw [iappendLoop]
    split
    · rename_i hp
      rw [hp,List.append_nil,update_eq_self]
      exact ⟨h,rfl,.refl m,⟨din.addrs,rfl⟩⟩
    · rename_i hp
      have hpos : 0<p.length := List.length_pos_iff.mpr hp
      dsimp only
      split
      · rename_i hbn
        -- the bytes of this round and the files after it
        generalize hn1 : min p.length (((c i).length/bsize+1)*bsize-(c i).length)=n1
        have hn1' : n1=min p.length (bsize-(c i).length%bsize) := by rw [←hn1,round_length]
        have htake : (p.take n1).length=n1 := by grind
        have hmod : (c i).length%bsize<bsize := Nat.mod_lt _ (by decide)
        have hne : p.take n1≠[] := by grind
        have hfit : (c i).length%bsize+(p.take n1).length≤bsize := by grind
        have hsplit : c i++p.take n1++p.drop n1=c i++p := by
          rw [List.append_assoc,List.take_append_drop]
        have hmore : update (update c i (c i++p.take n1)) i
            (update c i (c i++p.take n1) i++p.drop n1)=update c i (c i++p) := by
          grind
        have hr := h.reserved hbn
        have hover : fssize<((editing m i {din with size := (c i).length}).reserve i
            ((c i).length/bsize)).next→∀ msg,stop msg := by
          intro hlt
          rw [h.next_used hi hne hfit hr] at hlt
          refine hstop (.inl (lt_of_lt_of_le hlt (blocksUsed_le fun j => le_trans ?_ (htop j))))
          by_cases hj : j=i
          · rw [hj,update_self,update_self,List.length_append,List.length_append,
              htake]
            omega
          · rw [update_of_ne hj,update_of_ne hj]
        refine (blockFor_spec h.files.toOwned h.sectors h.room h.fits hbn hover).bind fun r hc => ?_
        obtain ⟨m1,din1,x⟩ := r
        dsimp only at hc ⊢
        have hsec : m1.sectors=fssize := hc.sectors.trans h.sectors
        rw [rsect]
        by_cases hx : x< m1.sectors
        · rw [if_pos hx]
          have hoff : (c i).length-(c i).length/bsize*bsize=(c i).length%bsize := by grind [bsize]
          show Ensures stop (iappendLoop fuel (wsect m1 x (writeBytes (m1.disk x)
            ((c i).length-(c i).length/bsize*bsize) (p.take n1))) din1 ((c i).length+n1) (p.drop n1)) _
          rw [hoff]
          obtain ⟨hfill,hsteady⟩ := h.round hi hne hfit hbn hc (by rwa [hsec] at hx)
          have hlen : (update c i (c i++p.take n1) i).length=(c i).length+n1 := by grind
          have hdrop : (p.drop n1).length≤fuel := by grind
          have hrest := ih hfill hdrop (by rw [hmore]; exact htop)
          rw [hlen,hmore] at hrest
          refine hrest.imp fun r hr => ?_
          obtain ⟨hr1,hr2,hr3,a,hr4⟩ := hr
          obtain ⟨a1,ha1⟩ := hc.fields
          refine ⟨hr1,?_,hsteady.trans hr3,⟨a,?_⟩⟩
          · rw [hr2,update_self,hsplit]
          · rw [hr4,ha1]
        · rw [if_neg hx]
          refine hover ?_ "read"
          have hlt := hr.owned.lt_next hr.held
          rw [←hc.volume,←hc.block,hc.volume] at hlt
          omega
      · rename_i hbn
        refine hstop (.inr ⟨i,lt_of_lt_of_le ?_ (htop i)⟩) "assert"
        rw [update_self,List.length_append]
        have hbn' : ¬(c i).length/1024<268 := hbn
        show 274432<(c i).length+p.length
        omega

/-- The type of an inode when the next inode number is n. -/
def kindOf (n i : ℕ) : FileType :=
  if i=0 ∨ n≤ i then .free else if i=rootino then .dir else .file

structure Laid (m : Maker) (c : ℕ→List UInt8) : Prop where
  sectors : m.sectors=fssize
  files : Files nmeta (volume m) c
  room : m.freeblock≤fssize
  count : m.freeblock=blocksUsed c
  super : m.disk 1=format.disk 1
  kind : ∀ i,(dinodes m.disk i).type=kindOf m.freeinode i ∧
    (dinodes m.disk i).nlink=if kindOf m.freeinode i=.free then 0 else 1
  unused : ∀ i,m.freeinode≤ i→c i=[]

lemma dinodes_front {disk disk' : ℕ→Block} (h : ∀ b,b<nmeta→disk' b=disk b) :
    dinodes disk'=dinodes disk := by grind [dinodes,iblock_lt]

lemma rinode_eq (hs : m.sectors=fssize) (hi : i<slots) : rinode m i=.next (dinodes m.disk i) := by
  have hlt : iblock i< m.sectors := by
    rw [hs]
    exact (iblock_lt hi).trans (by decide)
  rw [rinode,rsect,if_pos hlt,dinodes,if_pos hi]
  rfl

def wrote (m : Maker) (i : ℕ) (din : Dinode) : Maker :=
  wsect m (iblock i) (putDinode (m.disk (iblock i)) (i%ipb) din)

lemma winode_eq (hs : m.sectors=fssize) (hi : i<slots) (din : Dinode) :
    winode m i din=.next (wrote m i din) := by
  have hlt : iblock i< m.sectors := by
    rw [hs]
    exact (iblock_lt hi).trans (by decide)
  rw [winode,rsect,if_pos hlt]
  rfl

lemma wrote_sectors (hs : m.sectors=fssize) (hi : i<slots) (din : Dinode) :
    (wrote m i din).sectors=fssize := by
  rw [wrote,wsect_sectors m (by rw [hs]; exact (iblock_lt hi).trans (by decide)),hs]

lemma wrote_disk (hi : i<slots) (din : Dinode) {b : ℕ} (hb : b< inodestart ∨ bmapstart≤b) :
    (wrote m i din).disk b=m.disk b := by
  have := iblock_range hi
  exact update_of_ne (by omega) _ _

lemma wrote_dinodes (hi : i<slots) (h : Fits din) :
    dinodes (wrote m i din).disk=update (dinodes m.disk) i din := dinodes_put m.disk hi h

lemma wrote_files (hi : i<slots) (hf : Fits din) (h : Files nmeta (editing m i din) c) :
    Files nmeta (volume (wrote m i din)) c := by
  refine h.congr ?_ rfl fun b hb => ?_
  · exact wrote_dinodes hi hf
  · exact wrote_disk hi din (.inr (le_trans (by decide) hb))

lemma Laid.fillings (h : Laid m c) (i : ℕ) : Filling m i (dinodes m.disk i) c := by
  have hsize : (dinodes m.disk i).size=(c i).length := h.files.size i
  refine ⟨h.sectors,?_,h.room,h.count,fits_dinodes _ _⟩
  rw [←hsize]
  have hvol : editing m i (dinodes m.disk i)=volume m := by
    rw [editing,update_eq_self]
    rfl
  show Files nmeta (editing m i (dinodes m.disk i)) c
  rw [hvol]
  exact h.files

lemma iappend_spec {p : List UInt8} (h : Laid m c) (hi : i<slots) (hfree : i< m.freeinode)
    (htop : ∀ j,(update c i (c i++p) j).length≤top j)
    (hstop : Overflow top→∀ msg,stop msg) :
    Ensures stop (iappend m i p) fun m' =>
      Laid m' (update c i (c i++p)) ∧ m'.freeinode=m.freeinode := by
  have hsize : (dinodes m.disk i).size=(c i).length := h.files.size i
  rw [iappend,rinode_eq h.sectors hi,next_bind,hsize]
  refine (iappendLoop_spec p.length hi (h.fillings i) le_rfl htop hstop).bind fun r hr => ?_
  obtain ⟨m1,din1,off⟩ := r
  obtain ⟨hfill,hoff,hsteady,a,hdin⟩ := hr
  dsimp only at hfill hoff hsteady hdin ⊢
  have hself : (update c i (c i++p) i).length=(c i++p).length := by
    rw [update_self]
  have hfits : Fits {din1 with size := (c i++p).length} := by
    refine ⟨hfill.fits.major,hfill.fits.minor,hfill.fits.nlink,?_,hfill.fits.addrs,hfill.fits.range⟩
    have hle := hfill.files.length_le i
    rw [hself] at hle
    exact lt_of_le_of_lt hle (by decide)
  rw [hoff,winode_eq hfill.sectors hi]
  have hfront := dinodes_front hsteady.front
  refine ⟨⟨wrote_sectors hfill.sectors hi _,?_,hfill.room,hfill.count,?_,fun j => ?_,fun j hj => ?_⟩,
    hsteady.freeinode⟩
  · have hfiles := hfill.files
    rw [hself] at hfiles
    exact wrote_files hi hfits hfiles
  · rw [wrote_disk hi _ (.inl (by decide)),hsteady.front 1 (by decide)]
    exact h.super
  · have hkind := h.kind j
    have hn : (wrote m1 i {din1 with size := (c i++p).length}).freeinode=m.freeinode :=
      hsteady.freeinode
    rw [wrote_dinodes hi hfits,hfront,hn]
    by_cases hj : j=i
    · rw [hj,update_self,hdin,←hj]
      exact hkind
    · rw [update_of_ne hj]
      exact hkind
  · have hj' : m.freeinode≤j := by
      have hn : (wrote m1 i {din1 with size := (c i++p).length}).freeinode=m.freeinode :=
        hsteady.freeinode
      rwa [hn] at hj
    grind [h.unused]

lemma ialloc_spec (h : Laid m c) (hpos : 0< m.freeinode) (hlt : m.freeinode<slots)
    {type : FileType} (htype : type=if m.freeinode=rootino then .dir else .file) :
    Ensures stop (ialloc m type) fun r =>
      Laid r.1 c ∧ r.1.freeinode=m.freeinode+1 ∧ r.2=m.freeinode := by
  have hs : ({m with freeinode := m.freeinode+1} : Maker).sectors=fssize := h.sectors
  have hfits : Fits {Dinode.blank type with nlink := 1} :=
    ⟨show (-2^15 : ℤ)≤0 ∧ (0 : ℤ)<2^15 by decide,show (-2^15 : ℤ)≤0 ∧ (0 : ℤ)<2^15 by decide,
      show (-2^15 : ℤ)≤1 ∧ (1 : ℤ)<2^15 by decide,Nat.two_pow_pos 32,fun _ => Nat.two_pow_pos 32,
      fun _ _ => rfl⟩
  rw [Mkfs.ialloc]
  dsimp only
  rw [winode_eq hs hlt,next_bind]
  refine ⟨⟨wrote_sectors hs hlt _,?_,h.room,h.count,?_,fun j => ?_,fun j hj => ?_⟩,rfl,rfl⟩
  · have hblank := h.files.blank (h.unused _ le_rfl) (d := {Dinode.blank type with nlink := 1}) rfl
      fun _ => rfl
    exact wrote_files hlt hfits hblank
  · rw [wrote_disk hlt _ (.inl (by decide))]
    exact h.super
  · rw [wrote_dinodes hlt hfits]
    show (update (dinodes m.disk) m.freeinode _ j).type=kindOf (m.freeinode+1) j ∧
      (update (dinodes m.disk) m.freeinode _ j).nlink=
        if kindOf (m.freeinode+1) j=.free then 0 else 1
    by_cases hj : j=m.freeinode
    · have hkind : kindOf (m.freeinode+1) j=type := by
        rw [kindOf,if_neg (by omega),htype,hj]
      have hne : type≠.free := by
        rw [htype]
        split
        · decide
        · decide
      rw [hkind,if_neg hne,hj,update_self]
      exact ⟨rfl,rfl⟩
    · have hsame : kindOf (m.freeinode+1) j=kindOf m.freeinode j := by
        rw [kindOf,kindOf]
        have : (j=0 ∨ m.freeinode+1≤j) ↔ (j=0 ∨ m.freeinode≤j) := by omega
        simp only [this]
      rw [hsame,update_of_ne hj]
      exact h.kind j
  · exact h.unused j (Nat.le_of_succ_le hj)

lemma appendAll_spec (chunks : List (List UInt8)) (h : Laid m c) (hi : i<slots)
    (hfree : i< m.freeinode) (htop : ∀ j,(update c i (c i++chunks.flatten) j).length≤top j)
    (hstop : Overflow top→∀ msg,stop msg) :
    Ensures stop (appendAll i chunks m) fun m' =>
      Laid m' (update c i (c i++chunks.flatten)) ∧ m'.freeinode=m.freeinode := by
  induction chunks generalizing m c with
  | nil =>
    rw [List.flatten_nil,List.append_nil,update_eq_self]
    exact ⟨h,rfl⟩
  | cons p chunks ih =>
    have hall : update (update c i (c i++p)) i
        (update c i (c i++p) i++chunks.flatten)=
        update c i (c i++(p::chunks).flatten) := by
      grind
    have hfirst : ∀ j,(update c i (c i++p) j).length≤top j := by grind
    refine (iappend_spec h hi hfree hfirst hstop).bind fun m1 hm1 => ?_
    obtain ⟨h1,hfree1⟩ := hm1
    grind

def direntOf (n : ℕ) (f : Input) : List UInt8 := Dirent.encode ⟨n,strncpy f.name⟩

def added (n : ℕ) (f : Input) (c : ℕ→List UInt8) : ℕ→List UInt8 :=
  update (update c rootino (c rootino++direntOf n f)) n f.bytes

/-- The contents after more files with numbers from n on. -/
def filled : List Input→ℕ→(ℕ→List UInt8)→(ℕ→List UInt8)
  | [],_,c => c
  | f::files,n,c => filled files (n+1) (added n f c)

def Within (c c' : ℕ→List UInt8) : Prop := ∀ j,(c j).length≤(c' j).length

def Refused (f : Input) : Prop := slash∈shortname f.arg ∨ f.file=none

lemma addFile_spec {f : Input} (h : Laid m c) (hroot : rootino< m.freeinode)
    (hlt : m.freeinode<slots) (htop : ∀ j,(added m.freeinode f c j).length≤top j)
    (hstop : Overflow top ∨ Refused f→∀ msg,stop msg) :
    Ensures stop (addFile m f) fun m' =>
      Laid m' (added m.freeinode f c) ∧ m'.freeinode=m.freeinode+1 ∧ ¬Refused f := by
  rw [addFile]
  split
  · rename_i hslash
    exact hstop (.inr (.inl hslash)) "assert"
  · split
    · rename_i hnone
      exact hstop (.inr (.inr hnone)) "open"
    · rename_i file hfile
      have hbytes : f.bytes=file.chunks.flatten := by
        rw [Input.bytes,hfile]
        rfl
      have hne : m.freeinode≠rootino := by omega
      refine (ialloc_spec h (by omega) hlt (if_neg hne).symm).bind fun r hr => ?_
      obtain ⟨m1,inum⟩ := r
      obtain ⟨h1,hfree1,hinum⟩ := hr
      dsimp only at h1 hfree1 hinum ⊢
      subst hinum
      have hempty : update c rootino (c rootino++direntOf m.freeinode f) m.freeinode=[] := by
        rw [update_of_ne hne]
        exact h.unused _ le_rfl
      have hadded : added m.freeinode f c=update
          (update c rootino (c rootino++direntOf m.freeinode f)) m.freeinode
          (update c rootino (c rootino++direntOf m.freeinode f) m.freeinode++
            file.chunks.flatten) := by
        rw [hempty,List.nil_append,added,hbytes]
      have hentry : ∀ j,(update c rootino (c rootino++direntOf m.freeinode f) j).length≤
          top j := by
        intro j
        refine le_trans ?_ (htop j)
        by_cases hj : j=m.freeinode
        · rw [hj,hempty]
          exact Nat.zero_le _
        · rw [added,update_of_ne hj]
      refine (iappend_spec h1 (show rootino<slots by decide) (by omega) hentry
        fun ho => hstop (.inl ho)).bind fun m2 hm2 => ?_
      obtain ⟨h2,hfree2⟩ := hm2
      rw [hadded]
      refine (appendAll_spec file.chunks h2 hlt (by omega) (by rw [←hadded]; exact htop)
        fun ho => hstop (.inl ho)).imp fun m3 hm3 => ?_
      refine ⟨hm3.1,hm3.2.trans (hfree2.trans hfree1),?_⟩
      rintro (hc | hc)
      · exact absurd hc ‹_›
      · rw [hfile] at hc
        cases hc

lemma within_added {n : ℕ} (f : Input) (hc : c n=[]) : Within c (added n f c) := by
  intro j
  by_cases hj : j=n
  · rw [hj,hc]
    exact Nat.zero_le _
  · rw [added,update_of_ne hj]
    by_cases hr : j=rootino
    · rw [hr,update_self]
      exact (List.prefix_append _ _).length_le
    · rw [update_of_ne hr]

lemma added_unused {n : ℕ} (f : Input) (hroot : rootino<n) (hc : ∀ j,n≤j→c j=[]) :
    ∀ j,n+1≤j→ added n f c j=[] := by
  intro j hj
  rw [added,update_of_ne (by omega),update_of_ne (by omega)]
  exact hc j (by omega)

lemma within_filled (files : List Input) {n : ℕ} (hroot : rootino<n) (hc : ∀ j,n≤j→c j=[]) :
    Within c (filled files n c) := by
  induction files generalizing n c with
  | nil => exact fun _ => le_rfl
  | cons f files ih =>
    intro j
    exact (within_added f (hc n le_rfl) j).trans
      (ih (Nat.lt_succ_of_lt hroot) (added_unused f hroot hc) j)

lemma addFiles_spec (files : List Input) (h : Laid m c) (hroot : rootino< m.freeinode)
    (hlt : m.freeinode+files.length≤ slots)
    (htop : ∀ j,(filled files m.freeinode c j).length≤top j)
    (hstop : (Overflow top ∨ ∃ f∈files,Refused f)→∀ msg,stop msg) :
    Ensures stop (addFiles files m) fun m' =>
      Laid m' (filled files m.freeinode c) ∧ m'.freeinode=m.freeinode+files.length ∧
      ∀ f∈files,¬Refused f := by
  induction files generalizing m c with
  | nil => exact ⟨h,rfl,fun f hf => absurd hf List.not_mem_nil⟩
  | cons f files ih =>
    rw [List.length_cons] at hlt
    have hunused := added_unused f hroot h.unused
    have hone : ∀ j,(added m.freeinode f c j).length≤top j := fun j =>
      (within_filled files (Nat.lt_succ_of_lt hroot) hunused j).trans (htop j)
    refine (addFile_spec h hroot (by omega) hone fun hbad => hstop ?_).bind fun m1 hm1 => ?_
    · exact hbad.imp id fun hr => ⟨f,List.mem_cons_self,hr⟩
    · obtain ⟨h1,hfree1,hok⟩ := hm1
      have hrest := ih h1 (by omega) (by omega) (by rw [hfree1]; exact htop) fun hbad =>
        hstop (hbad.imp id fun hr => hr.imp fun g hg => ⟨List.mem_cons_of_mem _ hg.1,hg.2⟩)
      refine hrest.imp fun m2 hm2 => ?_
      obtain ⟨h2,hfree2,hall⟩ := hm2
      rw [hfree1] at h2 hfree2
      refine ⟨h2,?_,?_⟩
      · rw [hfree2,List.length_cons]
        omega
      · exact List.forall_mem_cons.mpr ⟨hok,hall⟩

lemma format_disk {b : ℕ} (hb : b≠1) : format.disk b=zeros := update_of_ne hb _ _

lemma format_dinodes (i : ℕ) : dinodes format.disk i=.blank .free := by
  rw [dinodes]
  split
  · rename_i hi
    have hge : 32≤ iblock i := (iblock_range hi).1
    rw [format_disk (by omega),dinodeIn_zeros]
  · rfl

lemma format_laid : Laid format fun _ => [] := by
  have hown : ∀ q,(volume format).own q=0 := by
    rintro ⟨i,p⟩
    show blockAt format.disk (dinodes format.disk i) p=0
    rw [format_dinodes]
    cases p with
    | addr k => exact ite_self _
    | entry j => exact if_neg fun hc => hc.2 rfl
  have hnot : ∀ q,¬(volume format).own q≠0 := fun q hq => hq (hown q)
  have howns : Owns nmeta (2^32) (volume format).own fun b => b<(volume format).next := by
    refine ⟨by decide,fun q hq => absurd hq (hnot q),fun q _ hq => absurd hq (hnot q),
      fun b hb _ => ?_,fun b hb => decide_eq_true hb⟩
    have hb0 : ¬b<(volume format).next := Nat.not_lt.mpr hb
    simp only [hb0,decide_false,Bool.false_eq_true,false_iff,not_exists,hown]
    have : 0<nmeta := by decide
    omega
  refine ⟨rfl,⟨⟨howns,fun b hb => ?_⟩,fun i => ?_,fun i bn => ?_,fun i => ?_,fun i k hk => ?_⟩,
    by decide,?_,rfl,fun i => ?_,fun _ _ => rfl⟩
  · have hb' : 46≤b := hb
    exact format_disk (by omega)
  · show (dinodes format.disk i).size=_
    rw [format_dinodes]
    rfl
  · exact ⟨fun hc => absurd hc (hnot _),fun hc => absurd hc (Nat.not_lt_zero _)⟩
  · exact ⟨fun hc => absurd hc (hnot _),fun hc => absurd hc (Nat.not_lt_zero _)⟩
  · exact absurd hk (Nat.not_lt_zero _)
  · have hzero : ∑ i ∈ Finset.range slots,blocksFor ([] : List UInt8).length=0 :=
      Finset.sum_eq_zero fun _ _ => rfl
    rw [blocksUsed,hzero]
    rfl
  · have hkind : kindOf format.freeinode i=.free := by
      have h1 : format.freeinode=1 := rfl
      rw [kindOf,h1,if_pos (by omega)]
    rw [format_dinodes,hkind]
    exact ⟨rfl,rfl⟩

def dots : List UInt8 :=
  Dirent.encode ⟨rootino,strncpy dot⟩++Dirent.encode ⟨rootino,strncpy dotdot⟩

/-- The contents of the image: the root directory and the files. -/
def contents (files : List Input) : ℕ→List UInt8 :=
  filled files 2 (update (fun _ => []) rootino dots)

/-- The directory entries of files with numbers from n on. -/
def fileEntries : List Input→ℕ→List Dirent
  | [],_ => []
  | f::files,n => ⟨n,strncpy f.name⟩::fileEntries files (n+1)

def rootEntries (files : List Input) : List Dirent := dotNode rootino rootino++fileEntries files 2

lemma length_fileEntries (files : List Input) (n : ℕ) :
    (fileEntries files n).length=files.length := by
  induction files generalizing n with
  | nil => rfl
  | cons f files ih => rw [fileEntries,List.length_cons,List.length_cons,ih]

lemma fileEntries_get (files : List Input) (n k : ℕ) :
    (fileEntries files n)[k]?=files[k]?.map fun f => ⟨n+k,strncpy f.name⟩ := by
  induction files generalizing n k with
  | nil => rfl
  | cons f files ih =>
    cases k with
    | zero => rfl
    | succ k =>
      grind [fileEntries]

section Filled

variable {n : ℕ} (files : List Input) (c : ℕ→List UInt8)

lemma filled_root (hroot : rootino<n) :
    filled files n c rootino=c rootino++(fileEntries files n).flatMap Dirent.encode := by
  induction files generalizing n c with
  | nil => rw [filled,fileEntries,List.flatMap_nil,List.append_nil]
  | cons f files ih =>
    rw [filled,ih _ (Nat.lt_succ_of_lt hroot),added,update_of_ne hroot.ne,
      update_self,List.append_assoc,fileEntries,List.flatMap_cons]
    rfl

lemma filled_of_lt {j : ℕ} (hj : j<n) (hroot : j≠rootino) : filled files n c j=c j := by
  induction files generalizing n c with
  | nil => rfl
  | cons f files ih =>
    rw [filled,ih _ (Nat.lt_succ_of_lt hj),added,update_of_ne hj.ne,
      update_of_ne hroot]

lemma filled_of_ge {j : ℕ} (hj : n+files.length≤j) (hroot : rootino<n) : filled files n c j=c j := by
  induction files generalizing n c with
  | nil => rfl
  | cons f files ih =>
    rw [List.length_cons] at hj
    rw [filled,ih _ (by omega) (Nat.lt_succ_of_lt hroot),added,update_of_ne (by omega),
      update_of_ne (by omega)]

lemma filled_get {k : ℕ} {f : Input} (hroot : rootino<n) (hf : files[k]?=some f) :
    filled files n c (n+k)=f.bytes := by
  induction files generalizing n c k with
  | nil => cases hf
  | cons g files ih =>
    cases k with
    | zero =>
      rw [List.getElem?_cons_zero,Option.some.injEq] at hf
      rw [filled,filled_of_lt _ _ (by omega) (by omega),added,Nat.add_zero,update_self,hf]
    | succ k =>
      rw [List.getElem?_cons_succ] at hf
      rw [filled,←ih (added n g c) (Nat.lt_succ_of_lt hroot) hf,Nat.add_right_comm n 1 k,
        Nat.add_assoc]

lemma blocksUsed_filled (hroot : rootino<n) (hlt : n+files.length≤ slots) (hc : ∀ j,n≤j→c j=[]) :
    blocksUsed (filled files n c)+blocksFor (c rootino).length=
      blocksUsed c+blocksFor (filled files n c rootino).length+
        (files.map fun f => blocksFor f.bytes.length).sum := by
  induction files generalizing n c with
  | nil => rw [filled,List.map_nil,List.sum_nil,add_zero]
  | cons f files ih =>
    rw [List.length_cons] at hlt
    have hrest := ih (n:=n+1) (added n f c) (Nat.lt_succ_of_lt hroot) (by omega)
      (added_unused f hroot hc)
    have hentry := blocksUsed_update (show rootino<slots by decide) c (c rootino++direntOf n f)
    have hfile := blocksUsed_update (show n<slots by omega)
      (update c rootino (c rootino++direntOf n f)) f.bytes
    have hempty : update c rootino (c rootino++direntOf n f) n=[] := by grind
    have hzero : blocksFor ([] : List UInt8).length=0 := rfl
    have hadded : added n f c rootino=c rootino++direntOf n f := by
      rw [added,update_of_ne hroot.ne,update_self]
    rw [hempty,hzero] at hfile
    rw [hadded] at hrest
    rw [filled,List.map_cons,List.sum_cons]
    have hfile' : blocksUsed (added n f c)+0=_ := hfile
    omega

end Filled

lemma dots_eq : dots=(dotNode rootino rootino).flatMap Dirent.encode := by
  grind [dots,dotNode]

lemma contents_root (files : List Input) :
    contents files rootino=(rootEntries files).flatMap Dirent.encode := by
  rw [contents,filled_root _ _ (by decide),update_self,dots_eq,rootEntries,
    List.flatMap_append]

lemma contents_get {files : List Input} {k : ℕ} {f : Input} (hf : files[k]?=some f) :
    contents files (2+k)=f.bytes := filled_get files _ (by decide) hf

lemma blocksUsed_contents (files : List Input) (hlt : files.length+2≤ slots) :
    blocksUsed (contents files)=nmeta+blocksFor (contents files rootino).length+
      (files.map fun f => blocksFor f.bytes.length).sum := by
  have hempty : blocksUsed (fun _ => [])=nmeta := format_laid.count.symm
  have hroot := blocksUsed_update (show rootino<slots by decide) (fun _ => []) dots
  have hzero : blocksFor ([] : List UInt8).length=0 := rfl
  have hunused : ∀ j,2≤j→update (fun _ => ([] : List UInt8)) rootino dots j=[] := by grind [rootino]
  have hfill := blocksUsed_filled (n:=2) files (update (fun _ => []) rootino dots)
    (by decide) (by omega) hunused
  rw [update_self] at hfill
  rw [hempty,hzero] at hroot
  rw [contents]
  omega

lemma contents_free (files : List Input) {i : ℕ} (hi : kindOf (files.length+2) i=.free) :
    contents files i=[] := by
  have hi' : i=0 ∨ files.length+2≤ i := by
    by_contra hc
    rw [kindOf,if_neg hc] at hi
    split_ifs at hi
  rcases hi' with h0 | hge
  · rw [h0,contents,filled_of_lt _ _ (by decide) (by decide),update_of_ne (by decide)]
  · have hne : i≠rootino := by
      show i≠1
      omega
    rw [contents,filled_of_ge _ _ (by omega) (by decide),update_of_ne hne]

lemma makeRoot_spec (htop : ∀ j,(update (fun _ => []) rootino dots j).length≤top j)
    (hstop : Overflow top→∀ msg,stop msg) :
    Ensures stop (makeRoot format) fun m =>
      Laid m (update (fun _ => []) rootino dots) ∧ m.freeinode=2 := by
  have hfree : format.freeinode=rootino := rfl
  refine (ialloc_spec format_laid (by decide) (by decide) (if_pos hfree).symm).bind fun r hr => ?_
  obtain ⟨m1,inum⟩ := r
  obtain ⟨h1,hfree1,hinum⟩ := hr
  dsimp only at h1 hfree1 hinum ⊢
  rw [hfree] at hfree1 hinum
  subst hinum
  rw [if_pos rfl]
  have hslot : rootino<slots := by decide
  have hfirst : ∀ j,(update (fun _ => []) rootino
      ([]++Dirent.encode ⟨rootino,strncpy dot⟩) j).length≤top j := by
    intro j
    refine le_trans ?_ (htop j)
    by_cases hj : j=rootino
    · rw [hj,update_self,update_self]
      exact (List.prefix_append _ _).length_le
    · rw [update_of_ne hj,update_of_ne hj]
  refine (iappend_spec h1 hslot (by omega) hfirst hstop).bind fun m2 hm2 => ?_
  obtain ⟨h2,hfree2⟩ := hm2
  have hboth : update (update (fun _ => []) rootino
      ([]++Dirent.encode ⟨rootino,strncpy dot⟩)) rootino
      (update (fun _ => []) rootino ([]++Dirent.encode ⟨rootino,strncpy dot⟩) rootino++
        Dirent.encode ⟨rootino,strncpy dotdot⟩)=update (fun _ => []) rootino dots := by
    rw [update_self,update_idem,List.nil_append]
    rfl
  have hrest := iappend_spec h2 hslot (by omega) (by rw [hboth]; exact htop) hstop
  rw [hboth] at hrest
  exact hrest.imp fun m3 hm3 => ⟨hm3.1,hm3.2.trans (hfree2.trans hfree1)⟩

structure Built (m : Maker) (c : ℕ→List UInt8) : Prop where
  sectors : m.sectors=fssize
  files : Files nmeta ((volume m).resize rootino (c rootino).length) c
  root : (dinodes m.disk rootino).size=((c rootino).length/bsize+1)*bsize
  room : m.freeblock≤fssize
  count : m.freeblock=blocksUsed c
  super : m.disk 1=format.disk 1
  kind : ∀ i,(dinodes m.disk i).type=kindOf m.freeinode i ∧
    (dinodes m.disk i).nlink=if kindOf m.freeinode i=.free then 0 else 1
  bitmap : ∀ b,bitAt (m.disk bmapstart) b=decide (b< m.freeblock)

lemma bitAt_used (used b : ℕ) : bitAt ((List.range used).foldl setBit zeros) b=decide (b<used) := by
  induction used with
  | zero => exact bitAt_zeros b
  | succ used ih =>
    rw [List.range_succ,List.foldl_append,List.foldl_cons,List.foldl_nil,bitAt_setBit,ih,
      ←Bool.decide_or,decide_eq_decide]
    omega

def rounded (m : Maker) (c : ℕ→List UInt8) : Dinode :=
  {dinodes m.disk rootino with size := ((c rootino).length/bsize+1)*bsize}

lemma Laid.built (h : Laid m c) (hsmall : (c rootino).length+bsize<2^32) {buf : Block}
    (hbuf : ∀ b,bitAt buf b=decide (b< m.freeblock)) :
    Built (wsect (wrote m rootino (rounded m c)) bmapstart buf) c := by
  have hslot : rootino<slots := by decide
  have hsize : (dinodes m.disk rootino).size=(c rootino).length := h.files.size rootino
  have hold := fits_dinodes m.disk rootino
  have hfits : Fits (rounded m c) := by
    refine ⟨hold.major,hold.minor,hold.nlink,?_,hold.addrs,hold.range⟩
    show ((c rootino).length/bsize+1)*bsize<2^32
    simp only [bsize] at hsmall ⊢
    omega
  have hdin : dinodes (wsect (wrote m rootino (rounded m c)) bmapstart buf).disk=
      update (dinodes m.disk) rootino (rounded m c) := by
    rw [←wrote_dinodes hslot hfits]
    exact dinodes_update _ le_rfl _
  have hself : {rounded m c with size := (c rootino).length}=dinodes m.disk rootino := by
    rw [←hsize]
    rfl
  refine ⟨?_,?_,?_,h.room,h.count,?_,fun i => ?_,fun b => ?_⟩
  · have hs := wrote_sectors h.sectors hslot (rounded m c)
    rw [wsect_sectors _ (by rw [hs]; decide),hs]
  · refine h.files.congr ?_ rfl fun b hb => ?_
    · show update (dinodes _) rootino {dinodes _ rootino with size := _}=dinodes m.disk
      rw [hdin,update_self,update_idem,hself,update_eq_self]
    · have hb' : bmapstart<b := lt_of_lt_of_le (by decide) hb
      show update (wrote m rootino (rounded m c)).disk bmapstart buf b=m.disk b
      rw [update_of_ne hb'.ne',wrote_disk hslot _ (.inr hb'.le)]
  · rw [hdin,update_self]
    rfl
  · show update (wrote m rootino (rounded m c)).disk bmapstart buf 1=_
    rw [update_of_ne (by decide),wrote_disk hslot _ (.inl (by decide))]
    exact h.super
  · have hkind := h.kind i
    rw [hdin]
    by_cases hi : i=rootino
    · rw [hi,update_self]
      rw [hi] at hkind
      exact hkind
    · rw [update_of_ne hi]
      exact hkind
  · rw [wsect]
    dsimp only
    rw [update_self]
    exact hbuf b

def Unfit (files : List Input) : Prop :=
  Overflow (fun i => (contents files i).length) ∨ ∃ f∈files,Refused f

lemma main_spec (files : List Input) (hlt : files.length+2≤ slots)
    (hstop : Unfit files→∀ msg,stop msg) :
    Ensures stop (main files) fun m =>
      Built m (contents files) ∧ m.freeinode=files.length+2 ∧ ∀ f∈files,¬Refused f := by
  have hc : ∀ j,2≤j→update (fun _ => []) rootino dots j=[] := by grind [rootino]
  have hroot : rootino<2 := by decide
  refine (makeRoot_spec (within_filled files hroot hc) fun ho => hstop (.inl ho)).bind
    fun m1 hm1 => ?_
  obtain ⟨h1,hfree1⟩ := hm1
  have hadd := addFiles_spec files h1 (by rw [hfree1]; exact hroot) (by omega)
    (fun j => by rw [hfree1]; exact le_refl (contents files j).length) hstop
  refine hadd.bind fun m2 hm2 => ?_
  obtain ⟨h2,hfree2,hall⟩ := hm2
  rw [hfree1] at h2 hfree2
  have hslot : rootino<slots := by decide
  have hsize : (dinodes m2.disk rootino).size=(contents files rootino).length :=
    h2.files.size rootino
  have hsmall : (contents files rootino).length+bsize<2^32 :=
    lt_of_le_of_lt (Nat.add_le_add_right (h2.files.length_le rootino) _) (by decide)
  have hroom : m2.freeblock≤2000 := h2.room
  have hused : m2.freeblock<bsize*8 := lt_of_le_of_lt hroom (by decide)
  have hfix : fixRoot m2=.next (wrote m2 rootino (rounded m2 (contents files))) := by
    rw [fixRoot,rinode_eq h2.sectors hslot,next_bind,hsize,winode_eq h2.sectors hslot]
    rfl
  rw [hfix,next_bind,Mkfs.balloc]
  have hused' : (wrote m2 rootino (rounded m2 (contents files))).freeblock<bsize*8 := hused
  rw [if_pos hused']
  refine ⟨h2.built hsmall (bitAt_used m2.freeblock),?_,hall⟩
  show m2.freeinode=_
  rw [hfree2,add_comm]

lemma rsect_prompt (m : Maker) (sec : ℕ) : Prompt (rsect m sec) := by
  rw [rsect]
  split
  · exact prompt_next _
  · exact prompt_panic _

lemma winode_prompt (m : Maker) (i : ℕ) (din : Dinode) : Prompt (winode m i din) :=
  (rsect_prompt m _).bind fun _ => prompt_next _

lemma rinode_prompt (m : Maker) (i : ℕ) : Prompt (rinode m i) :=
  (rsect_prompt m _).bind fun _ => prompt_next _

lemma ialloc_prompt (m : Maker) (type : FileType) : Prompt (Mkfs.ialloc m type) :=
  (winode_prompt _ _ _).bind fun _ => prompt_next _

lemma blockFor_prompt (m : Maker) (din : Dinode) (fbn : ℕ) : Prompt (blockFor m din fbn) := by
  rw [blockFor]
  split
  · exact prompt_next _
  · have hentry : ∀ m din j,Prompt (entryFor m din j) := by
      intro m din j
      refine (rsect_prompt m _).bind fun indirect => ?_
      split
      · exact prompt_next _
      · exact prompt_next _
    exact (hentry _ _ _).bind fun _ => prompt_next _

lemma iappendLoop_prompt (fuel : ℕ) (m : Maker) (din : Dinode) (off : ℕ) (p : List UInt8) :
    Prompt (iappendLoop fuel m din off p) := by
  induction fuel generalizing m din off p with
  | zero => exact prompt_next _
  | succ fuel ih =>
    rw [iappendLoop]
    split
    · exact prompt_next _
    · dsimp only
      split
      · exact (blockFor_prompt m din _).bind fun r => (rsect_prompt r.1 _).bind fun _ => ih _ _ _ _
      · exact prompt_panic _

lemma iappend_prompt (m : Maker) (i : ℕ) (p : List UInt8) : Prompt (iappend m i p) :=
  (rinode_prompt m i).bind fun _ => (iappendLoop_prompt _ _ _ _ _).bind fun _ => winode_prompt _ _ _

lemma appendAll_prompt (i : ℕ) (chunks : List (List UInt8)) (m : Maker) :
    Prompt (appendAll i chunks m) := by
  induction chunks generalizing m with
  | nil => exact prompt_next _
  | cons p chunks ih => exact (iappend_prompt m i p).bind ih

lemma addFiles_prompt (files : List Input) (m : Maker) : Prompt (addFiles files m) := by
  induction files generalizing m with
  | nil => exact prompt_next _
  | cons f files ih =>
    refine Prompt.bind ?_ ih
    rw [addFile]
    split
    · exact prompt_panic _
    · split
      · exact prompt_panic _
      · exact (ialloc_prompt m _).bind fun _ => (iappend_prompt _ _ _).bind fun _ =>
          appendAll_prompt _ _ _

lemma makeRoot_prompt (m : Maker) : Prompt (makeRoot m) := by
  refine (ialloc_prompt m .dir).bind fun r => ?_
  dsimp only
  split
  · exact (iappend_prompt _ _ _).bind fun _ => iappend_prompt _ _ _
  · exact prompt_panic _

lemma main_prompt (files : List Input) : Prompt (main files) := by
  refine (makeRoot_prompt format).bind fun m1 => (addFiles_prompt files m1).bind fun m2 => ?_
  refine Prompt.bind ((rinode_prompt m2 _).bind fun _ => winode_prompt _ _ _) fun m3 => ?_
  rw [Mkfs.balloc]
  split
  · exact prompt_next _
  · exact prompt_panic _

end Xv6Riscv.MkfsRun
