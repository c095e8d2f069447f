import Xv6Riscv.DiskFormat

/-!
# Files laid out in numbered blocks

A volume is a set of inodes over numbered blocks, filled in one direction: the
blocks from lo up to next are in use, each in one place of one inode, and the
ones from next on are zero. Appending to a file reserves the place for its last
block, which may take the indirect block with it, and writes into that block.
The invariant says which bytes each file contains and that exactly the blocks
of its bytes are there, so that next is determined by the lengths of the files.
-/

namespace Xv6Riscv.VolumeLayout

open Function
open InodeLayer Occupancy BlockOwnership FileView

structure Volume where
  dinode : ℕ→Dinode
  data : ℕ→Block
  next : ℕ

def Volume.own (v : Volume) (q : ℕ×Place) : ℕ := blockAt v.data (v.dinode q.1) q.2

def Volume.takeAddr (v : Volume) (i k : ℕ) : Volume :=
  {v with
    dinode := update v.dinode i ((v.dinode i).setAddr k v.next)
    next := v.next+1}

/-- Use the next block for an entry of an indirect block. -/
def Volume.takeEntry (v : Volume) (i j : ℕ) : Volume :=
  let a := (v.dinode i).addrs ndirect
  {v with
    data := update v.data a (setWord (v.data a) j v.next)
    next := v.next+1}

def Volume.put (v : Volume) (b : ℕ) (d : Block) : Volume := {v with data := update v.data b d}

def Volume.resize (v : Volume) (i n : ℕ) : Volume :=
  {v with dinode := update v.dinode i {v.dinode i with size := n}}

def Volume.ensureAddr (v : Volume) (i k : ℕ) : Volume :=
  if (v.dinode i).addrs k=0 then v.takeAddr i k else v

def Volume.ensureEntry (v : Volume) (i j : ℕ) : Volume :=
  if word (v.data ((v.dinode i).addrs ndirect)) j=0 then v.takeEntry i j else v

def Volume.reserve (v : Volume) (i bn : ℕ) : Volume :=
  if bn<ndirect then v.ensureAddr i bn
  else (v.ensureAddr i ndirect).ensureEntry i (bn-ndirect)

/-- The number of blocks that a file of so many bytes takes, with its indirect
block. -/
def blocksFor (len : ℕ) : ℕ :=
  (len+bsize-1)/bsize+if ndirect*bsize<len then 1 else 0

variable {lo : ℕ} {v : Volume} {i j k bn : ℕ} {c : ℕ→List UInt8}

section Blocks

variable {q : ℕ×Place}

lemma own_addr (v : Volume) (i : ℕ) (hk : k≤ndirect) :
    v.own (i,.addr k)=(v.dinode i).addrs k := by rw [Volume.own,blockAt,if_pos hk]

lemma own_entry (v : Volume) (hj : j<nindirect) (ha : (v.dinode i).addrs ndirect≠0) :
    v.own (i,.entry j)=word (v.data ((v.dinode i).addrs ndirect)) j := by
  rw [Volume.own,blockAt,if_pos ⟨hj,ha⟩]

lemma addrs_setAddr (d : Dinode) (k b : ℕ) : (d.setAddr k b).addrs=update d.addrs k b := rfl

/-- The blocks in use are in one place each, and the others are zero. -/
structure Owned (lo : ℕ) (v : Volume) : Prop where
  owns : Owns lo (2^32) v.own fun b => b<v.next
  fresh : ∀ b,v.next≤b→v.data b=zeros

lemma Owned.lt_next (h : Owned lo v) (hq : v.own q≠0) : v.own q<v.next :=
  of_decide_eq_true (h.owns.used_of_held hq)

lemma Owned.lo_le (h : Owned lo v) : lo≤v.next := by
  by_contra hc
  have hlt : v.next<v.next := of_decide_eq_true (h.owns.reserved v.next (by omega))
  exact lt_irrefl _ hlt

lemma used_succ (n : ℕ) : (fun b => decide (b<n+1))=update (fun b => decide (b<n)) n true := by
  grind

variable (h : Owned lo v)

include h

lemma Owned.fill (hq : v.own q=0) (hn : v.next<2^32) :
    Owns lo (2^32) (update v.own q v.next) fun b => b<v.next+1 := by
  rw [used_succ]
  exact h.owns.fill (decide_eq_false (lt_irrefl _)) hn hq

lemma own_takeAddr (hk : k≤ndirect) (h0 : v.own (i,.addr k)=0) :
    (v.takeAddr i k).own=update v.own (i,.addr k) v.next := by
  have h0' : (v.dinode i).addrs k=0 := by rwa [own_addr v i hk] at h0
  funext q
  obtain ⟨j,p⟩ := q
  by_cases hj : j=i
  · subst hj
    have hd : (v.takeAddr j k).dinode j=(v.dinode j).setAddr k v.next := update_self _ _ _
    rw [Volume.own,hd]
    cases p with
    | addr e =>
      by_cases he : e=k
      · rw [he,update_self,blockAt,if_pos hk]
        exact update_self _ _ _
      · rw [update_of_ne (by simpa using he),Volume.own,blockAt,blockAt,addrs_setAddr,
          update_of_ne he]
    | entry e =>
      rw [update_of_ne (by simp),blockAt,addrs_setAddr]
      by_cases hi : k=ndirect
      · subst hi
        have hold : v.own (j,.entry e)=0 := if_neg fun hc => hc.2 h0'
        rw [hold,update_self]
        split
        · show word (v.data v.next) e=0
          rw [h.fresh v.next le_rfl]
          rfl
        · rfl
      · rw [update_of_ne (Ne.symm hi)]
        rfl
  · have hd : (v.takeAddr i k).dinode j=v.dinode j := update_of_ne hj _ _
    rw [update_of_ne (by simp [hj]),Volume.own,Volume.own,hd]
    rfl

lemma Owned.takeAddr (hk : k≤ndirect) (h0 : v.own (i,.addr k)=0) (hn : v.next<2^32) :
    Owned lo (v.takeAddr i k) := by
  refine ⟨?_,fun b hb => h.fresh b (Nat.le_of_succ_le hb)⟩
  rw [own_takeAddr h hk h0]
  exact h.fill h0 hn

lemma Owned.indirect_ne (ha : (v.dinode i).addrs ndirect≠0) (hj : j≠i) :
    (v.dinode j).addrs ndirect≠(v.dinode i).addrs ndirect := by
  intro heq
  have hq := h.owns.unique (i,.addr ndirect) (j,.addr ndirect)
    (by rw [own_addr v i le_rfl]; exact ha) (by rw [own_addr v i le_rfl,own_addr v j le_rfl,heq])
  exact hj (Prod.mk.inj hq).1.symm

lemma own_takeEntry (hj : j<nindirect) (ha : (v.dinode i).addrs ndirect≠0) (hn : v.next<2^32) :
    (v.takeEntry i j).own=update v.own (i,.entry j) v.next := by
  have hdata : ∀ b,b≠(v.dinode i).addrs ndirect→(v.takeEntry i j).data b=v.data b :=
    fun b hb => update_of_ne hb _ _
  have hself : (v.takeEntry i j).data ((v.dinode i).addrs ndirect)=
      setWord (v.data ((v.dinode i).addrs ndirect)) j v.next := update_self _ _ _
  funext q
  obtain ⟨l,p⟩ := q
  show blockAt (v.takeEntry i j).data (v.dinode l) p=_
  cases p with
  | addr e =>
    rw [update_of_ne (by simp)]
    rfl
  | entry e =>
    by_cases hl : l=i
    · subst hl
      rw [blockAt,hself]
      by_cases he : e=j
      · rw [he,update_self,if_pos ⟨hj,ha⟩,word_setWord_self _ _ hn]
      · rw [update_of_ne (by simpa using he),word_setWord_of_ne _ he]
        rfl
    · rw [update_of_ne (by simp [hl]),blockAt,hdata _ (h.indirect_ne ha hl)]
      rfl

lemma Owned.takeEntry (hj : j<nindirect) (ha : (v.dinode i).addrs ndirect≠0)
    (h0 : v.own (i,.entry j)=0) (hn : v.next<2^32) : Owned lo (v.takeEntry i j) := by
  refine ⟨?_,fun b hb => ?_⟩
  · rw [own_takeEntry h hj ha hn]
    exact h.fill h0 hn
  · have hown := own_addr v i (le_refl ndirect)
    have hlt := h.lt_next (q := (i,.addr ndirect)) (by rw [hown]; exact ha)
    have hb' : v.next+1≤b := hb
    rw [hown] at hlt
    show update v.data _ _ b=zeros
    grind [h.fresh]

lemma own_put (hq : v.own q≠0) (hp : q.2≠.addr ndirect) (d : Block) :
    (v.put (v.own q) d).own=v.own := by
  funext r
  obtain ⟨l,p⟩ := r
  show blockAt (update v.data (v.own q) d) (v.dinode l) p=blockAt v.data (v.dinode l) p
  refine blockAt_congr (fun ha => update_of_ne (fun heq => hp ?_) _ _) p
  have := h.owns.unique q (l,.addr ndirect) hq (by rw [own_addr v l le_rfl,heq])
  rw [this]

lemma Owned.put (hq : v.own q≠0) (hp : q.2≠.addr ndirect) (d : Block) :
    Owned lo (v.put (v.own q) d) := by
  refine ⟨?_,fun b hb => ?_⟩
  · rw [own_put h hq hp]
    exact h.owns
  · have hlt := h.lt_next hq
    have hb' : v.next≤b := hb
    show update v.data _ _ b=zeros
    grind [h.fresh]

omit h

lemma own_resize (v : Volume) (i n : ℕ) : (v.resize i n).own=v.own := by
  funext r
  obtain ⟨l,p⟩ := r
  show blockAt v.data _ p=blockAt v.data (v.dinode l) p
  refine blockAt_addrs ?_ p
  by_cases hl : l=i
  · rw [hl]
    show (update v.dinode i _ i).addrs=_
    rw [update_self]
  · show (update v.dinode i _ l).addrs=_
    rw [update_of_ne hl]

lemma Owned.resize (h : Owned lo v) (i n : ℕ) : Owned lo (v.resize i n) := by
  refine ⟨?_,h.fresh⟩
  rw [own_resize]
  exact h.owns

end Blocks

section Reservation

variable {v' : Volume} {p : Place}

/-- A place of an inode has a block, which is the next one if it had none. -/
structure Fills (lo : ℕ) (v v' : Volume) (i : ℕ) (p : Place) : Prop where
  owned : Owned lo v'
  held : v'.own (i,p)≠0
  own : ∀ q,q≠(i,p)→v'.own q=v.own q
  keep : v.own (i,p)≠0→v'.own (i,p)=v.own (i,p)
  next : v'.next=v.next+if v.own (i,p)=0 then 1 else 0
  last : v.own (i,p)=0→v'.own (i,p)+1=v'.next
  fields : ∃ a,v'.dinode=update v.dinode i {v.dinode i with addrs := a}
  data : ∀ b,b≠(v'.dinode i).addrs ndirect→v'.data b=v.data b

lemma Fills.refl (h : Owned lo v) (hp : v.own (i,p)≠0) : Fills lo v v i p := by
  refine ⟨h,hp,fun _ _ => rfl,fun _ => rfl,?_,fun hc => absurd hc hp,⟨(v.dinode i).addrs,?_⟩,
    fun _ _ => rfl⟩
  · rw [if_neg hp,add_zero]
  · exact (update_eq_self i v.dinode).symm

lemma ensureAddr_fills (h : Owned lo v) (hlo : 0<lo) (hk : k≤ndirect) (hn : v.next<2^32) (i : ℕ) :
    Fills lo v (v.ensureAddr i k) i (.addr k) := by
  rw [Volume.ensureAddr]
  split
  · rename_i h0
    have h0' : v.own (i,.addr k)=0 := by rw [own_addr v i hk,h0]
    have hown := own_takeAddr h hk h0'
    refine ⟨h.takeAddr hk h0' hn,?_,fun q hq => ?_,fun hc => absurd h0' hc,?_,fun _ => ?_,⟨_,rfl⟩,
      fun _ _ => rfl⟩
    · rw [hown,update_self]
      have := h.lo_le
      omega
    · rw [hown,update_of_ne hq]
    · rw [if_pos h0']
      rfl
    · rw [hown,update_self]
      rfl
  · rename_i h0
    exact .refl h (by rwa [own_addr v i hk])

lemma ensureEntry_fills (h : Owned lo v) (hlo : 0<lo) (hj : j<nindirect)
    (ha : (v.dinode i).addrs ndirect≠0) (hn : v.next<2^32) :
    Fills lo v (v.ensureEntry i j) i (.entry j) := by
  rw [Volume.ensureEntry]
  split
  · rename_i h0
    have h0' : v.own (i,.entry j)=0 := by rw [own_entry v hj ha,h0]
    have hown := own_takeEntry h hj ha hn
    refine ⟨h.takeEntry hj ha h0' hn,?_,fun q hq => ?_,fun hc => absurd h0' hc,?_,fun _ => ?_,
      ⟨(v.dinode i).addrs,?_⟩,fun b hb => update_of_ne hb _ _⟩
    · rw [hown,update_self]
      have := h.lo_le
      omega
    · rw [hown,update_of_ne hq]
    · rw [if_pos h0']
      rfl
    · rw [hown,update_self]
      rfl
    · exact (update_eq_self i v.dinode).symm
  · rename_i h0
    exact .refl h (by rwa [own_entry v hj ha])

/-- Block bn of a file is there, with the indirect block if it needs one. -/
structure Reserved (lo : ℕ) (v v' : Volume) (i bn : ℕ) : Prop where
  owned : Owned lo v'
  held : v'.own (i,placeOf bn)≠0
  own : ∀ q,q≠(i,placeOf bn)→q≠(i,.addr ndirect)→v'.own q=v.own q
  keep : v.own (i,placeOf bn)≠0→v'.own (i,placeOf bn)=v.own (i,placeOf bn)
  indirect : v'.own (i,.addr ndirect)≠0 ↔ v.own (i,.addr ndirect)≠0 ∨ ndirect≤bn
  next : v'.next=v.next+(if v.own (i,placeOf bn)=0 then 1 else 0)+
    if ndirect≤bn ∧ v.own (i,.addr ndirect)=0 then 1 else 0
  last : v.own (i,placeOf bn)=0→v'.own (i,placeOf bn)+1=v'.next
  fields : ∃ a,v'.dinode=update v.dinode i {v.dinode i with addrs := a}
  data : ∀ b,b≠(v'.dinode i).addrs ndirect→v'.data b=v.data b

lemma reserve_reserved (h : Owned lo v) (hlo : 0<lo) (hbn : bn< maxfile) (hn : v.next+1<2^32)
    (i : ℕ) : Reserved lo v (v.reserve i bn) i bn := by
  rw [Volume.reserve]
  split
  · rename_i hd
    have hf := ensureAddr_fills h hlo hd.le (by omega) i
    have hp : placeOf bn=.addr bn := if_pos hd
    have hne : ((i,.addr ndirect) : ℕ×Place)≠(i,.addr bn) := by grind
    refine ⟨hf.owned,by rw [hp]; exact hf.held,fun q hq _ => hf.own q (by rwa [hp] at hq),
      by rw [hp]; exact hf.keep,?_,?_,by rw [hp]; exact hf.last,hf.fields,hf.data⟩
    · grind [hf.own]
    · grind [hf.next]
  · rename_i hd
    have hf := ensureAddr_fills h hlo (le_refl ndirect) (by omega) i
    have ha : ((v.ensureAddr i ndirect).dinode i).addrs ndirect≠0 := by grind [own_addr,hf.held]
    have hn1 : (v.ensureAddr i ndirect).next<2^32 := by grind [hf.next]
    have hj : bn-ndirect<nindirect := by grind [maxfile]
    have hg := ensureEntry_fills hf.owned hlo hj ha hn1
    have hp : placeOf bn=.entry (bn-ndirect) := if_neg hd
    have hentry : (v.ensureAddr i ndirect).own (i,.entry (bn-ndirect))=v.own (i,.entry (bn-ndirect)) :=
      hf.own _ (by simp)
    have hind : ((v.ensureAddr i ndirect).ensureEntry i (bn-ndirect)).own (i,.addr ndirect)=
        (v.ensureAddr i ndirect).own (i,.addr ndirect) := hg.own _ (by simp)
    obtain ⟨a,hfa⟩ := hf.fields
    obtain ⟨b,hgb⟩ := hg.fields
    refine ⟨hg.owned,by rw [hp]; exact hg.held,fun q hq hq' => ?_,?_,?_,?_,?_,⟨b,?_⟩,fun x hx => ?_⟩
    · rw [hg.own q (by rwa [hp] at hq),hf.own q hq']
    · grind [hg.keep]
    · grind [hf.held]
    · grind [hg.next,hf.next]
    · rw [hp,←hentry]
      exact hg.last
    · rw [hgb,hfa]
      grind
    · rw [hg.data x hx,Volume.ensureAddr]
      split
      · rfl
      · rfl

lemma own_indirect (hp : v.own (i,placeOf bn)≠0) (hbn : ndirect≤bn) : v.own (i,.addr ndirect)≠0 := by
  rw [own_addr v i le_rfl]
  intro h0
  have hplace : placeOf bn=.entry (bn-ndirect) := if_neg (by omega)
  rw [hplace] at hp
  exact hp (if_neg fun hc => hc.2 h0)

lemma Reserved.next_le (hr : Reserved lo v v' i bn) {n : ℕ} (hn : v.next≤n)
    (hx : v'.own (i,placeOf bn)<n) : v'.next≤n := by
  by_cases h0 : v.own (i,placeOf bn)=0
  · have := hr.last h0
    omega
  · have hind : ¬(ndirect≤bn ∧ v.own (i,.addr ndirect)=0) := fun hc => own_indirect h0 hc.1 hc.2
    grind [hr.next]

end Reservation

section Contents

/-- The volume holds files with the given bytes and nothing else. -/
structure Files (lo : ℕ) (v : Volume) (c : ℕ→List UInt8) : Prop extends Owned lo v where
  size : ∀ i,(v.dinode i).size=(c i).length
  mapped : ∀ i bn,v.own (i,placeOf bn)≠0 ↔ bn*bsize<(c i).length
  indirect : ∀ i,v.own (i,.addr ndirect)≠0 ↔ ndirect*bsize<(c i).length
  bytes : ∀ i k,k<(c i).length→v.data (v.own (i,placeOf (k/bsize))) (k%bsize)=(c i).getD k 0

lemma Files.length_le (h : Files lo v c) (i : ℕ) : (c i).length≤ maxfile*bsize := by
  by_contra hc
  refine (h.mapped i maxfile).mpr (by omega) ?_
  have hp : placeOf maxfile=.entry nindirect := rfl
  grind [Volume.own,blockAt]

/-- A block that is reserved for a file's bytes, and the bytes written into it. -/
def Volume.append (v : Volume) (i off : ℕ) (bs : List UInt8) : Volume :=
  let x := v.own (i,placeOf (off/bsize))
  (v.put x (writeBytes (v.data x) (off%bsize) bs)).resize i (off+bs.length)

lemma writeBytes_inside (d : Block) {off k : ℕ} {bs : List UInt8} (hk : k<bs.length) :
    writeBytes d off bs (off+k)=bs.getD k 0 := by
  grind [writeBytes]

variable {v' : Volume}

variable (h : Files lo v c)

include h

lemma Files.append {bs : List UInt8} (hne : bs≠[]) (hfit : (c i).length%bsize+bs.length≤bsize)
    (hr : Reserved lo v v' i ((c i).length/bsize)) :
    Files lo (v'.append i (c i).length bs) (update c i (c i++bs)) := by
  have hpos : 0<bs.length := List.length_pos_iff.mpr hne
  have hnd : (placeOf ((c i).length/bsize))≠.addr ndirect := placeOf_ne_indirect _
  have hown : (v'.append i (c i).length bs).own=v'.own := by
    rw [Volume.append,own_resize,own_put hr.owned hr.held hnd]
  have howned : Owned lo (v'.append i (c i).length bs) := (hr.owned.put hr.held hnd _).resize _ _
  obtain ⟨a,ha⟩ := hr.fields
  have hself : ∀ l,l=i→update c i (c i++bs) l=c i++bs := by grind
  have hother : ∀ l,l≠i→update c i (c i++bs) l=c l := fun l hl => update_of_ne hl _ _
  have hplaces : ∀ l bn,l≠i→v'.own (l,placeOf bn)=v.own (l,placeOf bn) := by
    intro l bn hl
    exact hr.own _ (by simp [hl]) (by simp [hl])
  -- a data block other than the one that is written keeps its bytes
  have hdata : ∀ q,v'.own q≠0→q≠(i,placeOf ((c i).length/bsize))→q.2≠.addr ndirect→
      (v'.append i (c i).length bs).data (v'.own q)=v.data (v.own q) := by
    intro q hq hne' hq2
    have hne1 : v'.own q≠v'.own (i,placeOf ((c i).length/bsize)) :=
      fun heq => hne' (hr.owned.owns.unique _ _ hq heq)
    have hne2 : v'.own q≠(v'.dinode i).addrs ndirect := by
      rw [←own_addr v' i le_rfl]
      intro heq
      have := hr.owned.owns.unique _ _ hq heq
      exact hq2 (by rw [this])
    have hq' : q≠(i,.addr ndirect) := fun hc => hq2 (by rw [hc])
    show update v'.data _ _ (v'.own q)=_
    grind [hr.data,hr.own]
  refine ⟨howned,fun l => ?_,fun l bn => ?_,fun l => ?_,fun l k hk => ?_⟩
  · by_cases hl : l=i
    · rw [hself l hl,hl,List.length_append]
      show (update v'.dinode i {v'.dinode i with size := _} i).size=_
      rw [update_self]
    · rw [hother l hl,←h.size l]
      show (update v'.dinode i {v'.dinode i with size := _} l).size=_
      rw [update_of_ne hl,ha,update_of_ne hl]
  · rw [hown]
    by_cases hl : l=i
    · rw [hself l hl,hl,List.length_append]
      by_cases hbn : bn=(c i).length/bsize
      · grind [hr.held,bsize]
      · grind [hr.own,placeOf_injective,Prod.mk.inj,placeOf_ne_indirect,h.mapped,bsize]
    · grind [h.mapped]
  · rw [hown]
    by_cases hl : l=i
    · grind [hr.indirect,h.indirect,bsize]
    · rw [hother l hl,hr.own _ (by simp [hl]) (by simp [hl]),h.indirect l]
  · rw [hown]
    by_cases hl : l=i
    · rw [hself l hl,List.length_append] at hk
      rw [hself l hl,hl]
      by_cases hb : k/bsize=(c i).length/bsize
      · rw [hb]
        have hx : (v'.append i (c i).length bs).data (v'.own (i,placeOf ((c i).length/bsize)))=
            writeBytes (v'.data (v'.own (i,placeOf ((c i).length/bsize)))) ((c i).length%bsize) bs :=
          update_self _ _ _
        rw [hx]
        by_cases hold : k<(c i).length
        · -- the first bytes of the block were there before
          have hkept : v.own (i,placeOf ((c i).length/bsize))≠0 := by grind [h.mapped,bsize]
          have hne2 : v'.own (i,placeOf ((c i).length/bsize))≠(v'.dinode i).addrs ndirect := by
            rw [←own_addr v' i le_rfl]
            intro heq
            have := hr.owned.owns.unique _ _ hr.held heq
            exact hnd (Prod.mk.inj this).2
          rw [writeBytes_outside _ (.inl (by simp only [bsize] at hb ⊢; omega)),hr.data _ hne2,
            hr.keep hkept,List.getD_append _ _ _ _ hold,←h.bytes i k hold,hb]
        · have hkoff : k%bsize=(c i).length%bsize+(k-(c i).length) := by
            simp only [bsize] at hb hfit ⊢
            omega
          rw [hkoff,writeBytes_inside _ (by omega),List.getD_append_right _ _ _ _ (by omega)]
      · have hold : k<(c i).length := by
          grind [bsize]
        have hheld : v.own (i,placeOf (k/bsize))≠0 := by grind [h.mapped,bsize]
        have hq : ((i,placeOf (k/bsize)) : ℕ×Place)≠(i,placeOf ((c i).length/bsize)) :=
          fun hc => hb (placeOf_injective (Prod.mk.inj hc).2)
        have hsame := hr.own _ hq fun hc => placeOf_ne_indirect _ (Prod.mk.inj hc).2
        rw [hdata _ (by rw [hsame]; exact hheld) hq (placeOf_ne_indirect _),h.bytes i k hold,
          List.getD_append _ _ _ _ hold]
    · rw [hother l hl] at hk ⊢
      have hheld : v'.own (l,placeOf (k/bsize))≠0 := by grind [h.mapped,bsize]
      rw [hdata _ hheld (by simp [hl]) (placeOf_ne_indirect _),h.bytes l k hk]

lemma Files.congr (hd : v'.dinode=v.dinode) (hn : v'.next=v.next)
    (hdata : ∀ b,lo≤b→v'.data b=v.data b) : Files lo v' c := by
  have hown : v'.own=v.own := by
    funext q
    obtain ⟨l,p⟩ := q
    rw [Volume.own,Volume.own,hd]
    refine blockAt_congr (fun ha => hdata _ ?_) p
    have hq := own_addr v l (le_refl ndirect)
    have := (h.owns.inside (l,.addr ndirect) (by rwa [hq])).1
    rwa [hq] at this
  refine ⟨⟨?_,fun b hb => ?_⟩,fun l => ?_,fun l bn => ?_,fun l => ?_,fun l k hk => ?_⟩
  · rw [hown,hn]
    exact h.owns
  · grind [h.lo_le,h.fresh]
  · rw [hd]
    exact h.size l
  · rw [hown]
    exact h.mapped l bn
  · rw [hown]
    exact h.indirect l
  · have hheld : v.own (l,placeOf (k/bsize))≠0 := by
      grind [h.mapped,bsize]
    rw [hown,hdata _ (h.owns.inside _ hheld).1]
    exact h.bytes l k hk

lemma Files.own_empty (hc : c i=[]) (p : Place) : v.own (i,p)=0 := by
  have hnil : ∀ n,¬n<(c i).length := by grind
  have hind : v.own (i,.addr ndirect)=0 := by
    by_contra h0
    exact hnil _ ((h.indirect i).mp h0)
  cases p with
  | addr k =>
    rcases Nat.lt_trichotomy k ndirect with hk | hk | hk
    · by_contra h0
      have hp : placeOf k=.addr k := if_pos hk
      rw [←hp] at h0
      exact hnil _ ((h.mapped i k).mp h0)
    · rw [hk]
      exact hind
    · exact if_neg (by omega)
  | entry j =>
    rw [own_addr v i le_rfl] at hind
    exact if_neg fun hc => hc.2 hind

lemma Files.blank (hc : c i=[]) {d : Dinode} (hs : d.size=0) (ha : ∀ k,d.addrs k=0) :
    Files lo {v with dinode := update v.dinode i d} c := by
  have hown : Volume.own {v with dinode := update v.dinode i d}=v.own := by
    funext q
    obtain ⟨l,p⟩ := q
    show blockAt v.data (update v.dinode i d l) p=blockAt v.data (v.dinode l) p
    by_cases hl : l=i
    · have hold : blockAt v.data (v.dinode i) p=0 := h.own_empty hc p
      rw [hl,update_self,hold]
      cases p with
      | addr k => rw [blockAt,ha,ite_self]
      | entry j => exact if_neg fun hc => hc.2 (ha _)
    · rw [update_of_ne hl]
  refine ⟨⟨by rw [hown]; exact h.owns,h.fresh⟩,fun l => ?_,by rw [hown]; exact h.mapped,
    by rw [hown]; exact h.indirect,by rw [hown]; exact h.bytes⟩
  show (update v.dinode i d l).size=_
  by_cases hl : l=i
  · rw [hl,update_self,hs,hc]
    rfl
  · rw [update_of_ne hl]
    exact h.size l

omit h

/-- A file that grows within its last block needs a new one at a boundary, and
the indirect block with the first one after the direct blocks. -/
lemma blocksFor_add {off n : ℕ} (hpos : 0<n) (hfit : off%bsize+n≤bsize) :
    blocksFor (off+n)=blocksFor off+(if off%bsize=0 then 1 else 0)+
      if off=ndirect*bsize then 1 else 0 := by grind [blocksFor,bsize]

lemma Reserved.next_blocks (h : Files lo v c) {n : ℕ} (hpos : 0<n)
    (hfit : (c i).length%bsize+n≤bsize) (hr : Reserved lo v v' i ((c i).length/bsize)) :
    v'.next+blocksFor (c i).length=v.next+blocksFor ((c i).length+n) := by
  have hblock : v.own (i,placeOf ((c i).length/bsize))=0 ↔ (c i).length%bsize=0 := by
    rw [←not_iff_not,←ne_eq,h.mapped]
    simp only [bsize]
    omega
  have hind : (ndirect≤(c i).length/bsize ∧ v.own (i,.addr ndirect)=0) ↔
      (c i).length=ndirect*bsize := by
    have hz : v.own (i,.addr ndirect)=0 ↔ ¬ndirect*bsize<(c i).length := by
      rw [←h.indirect i,not_not]
    grind [bsize]
  rw [hr.next,blocksFor_add hpos hfit]
  grind

end Contents

end Xv6Riscv.VolumeLayout
