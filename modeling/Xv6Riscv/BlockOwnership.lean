import Xv6Riscv.InodeLayer
import Xv6Riscv.Occupancy

/-!
# Which inode owns which block

Block numbers stand in the address arrays of allocated inodes and in their
indirect blocks. The inode invariant says that these places own blocks of the
data area as the bitmap tells, that the table's copies agree with the disk,
and that no block is missing below the end of a file. It is stated for a
counter of references to the table entries, so that the references held by
processes and those held by the call in progress can be told apart.

While a function changes the addresses of an inode in memory, the invariant
holds of the state that iupdate would leave.
-/

namespace Xv6Riscv.BlockOwnership

open Function
open Transition OutcomeLogic InodeLayer Occupancy

inductive Place where
  | addr (k : ℕ)
  | entry (j : ℕ)
deriving DecidableEq

/-- The block number in a place of an inode, 0 if there is none. -/
def blockAt (data : ℕ→Block) (d : Dinode) : Place→ℕ
  | .addr k => if k≤ndirect then d.addrs k else 0
  | .entry j => if j<nindirect ∧ d.addrs ndirect≠0 then word (data (d.addrs ndirect)) j else 0

def placeOf (bn : ℕ) : Place := if bn<ndirect then .addr bn else .entry (bn-ndirect)

/-- The block numbers in the places of all allocated inodes. -/
def occ (fs : Fs) (q : ℕ×Place) : ℕ :=
  if (fs.dinode q.1).type=.free then 0 else blockAt fs.data (fs.dinode q.1) q.2

/-- The invariant of the disk and of the inode table, for a counter of the
references to the table's entries. -/
structure InodeInv (fs : Fs) (own : ℕ→ℕ) : Prop where
  refs : ∀ ip,(fs.itable ip).ref=own ip
  slots : ∀ ip,0<own ip→ip<ninode
  distinct : ∀ ip jp,0<own ip→0<own jp→(fs.itable ip).inum=(fs.itable jp).inum→ip=jp
  loaded : ∀ ip,0<own ip→(fs.itable ip).valid=true→
    (fs.itable ip).copy=fs.dinode (fs.itable ip).inum ∧ (fs.itable ip).copy.type≠.free
  owns : Owns fs.sb.dataStart fs.sb.size (occ fs) fs.bitmap
  small : fs.sb.size≤2^32
  mapped : ∀ i,(fs.dinode i).type≠.free→
    ∀ bn,bn*bsize<(fs.dinode i).size→ occ fs (i,placeOf bn)≠0
  range : ∀ i,(fs.dinode i).type≠.free→0< i ∧ i<fs.sb.ninodes

@[simp] lemma word_zeros (i : ℕ) : word zeros i=0 := rfl

lemma word_setWord_self (d : Block) (i : ℕ) {v : ℕ} (hv : v<2^32) : word (setWord d i v) i=v := by
  have h0 : (4*i≤4*i ∧ 4*i<4*i+4) := by omega
  have h1 : (4*i≤4*i+1 ∧ 4*i+1<4*i+4) := by omega
  have h2 : (4*i≤4*i+2 ∧ 4*i+2<4*i+4) := by omega
  have h3 : (4*i≤4*i+3 ∧ 4*i+3<4*i+4) := by omega
  simp only [word,setWord,writeBytes,List.length_cons,List.length_nil,Nat.zero_add,
    Nat.reduceAdd,if_pos h0,if_pos h1,if_pos h2,if_pos h3,Nat.sub_self,Nat.add_sub_cancel_left,
    List.getD_cons_zero,List.getD_cons_succ,UInt8.toNat_ofNat']
  omega

lemma writeBytes_outside (d : Block) {off i : ℕ} {bs : List UInt8}
    (h : i<off ∨ off+bs.length≤ i) : writeBytes d off bs i=d i := by
  grind [writeBytes]

lemma word_setWord_of_ne (d : Block) {i j : ℕ} (hij : j≠i) (v : ℕ) :
    word (setWord d i v) j=word d j := by
  have hout : ∀ k,k<4→setWord d i v (4*j+k)=d (4*j+k) := by
    intro k hk
    refine writeBytes_outside d ?_
    grind
  have h0 := hout 0 (by omega)
  grind [word]

/-- A table entry is loaded, and the invariant holds once it is written back. -/
structure Pending (fs : Fs) (own : ℕ→ℕ) (ip : ℕ) : Prop where
  inv : InodeInv (iupdate fs ip) own
  held : 0<own ip
  valid : (fs.itable ip).valid=true

/-- Nothing but one inode in memory, the bitmap and the blocks has changed. -/
structure Recopy (fs fs' : Fs) (ip : ℕ) : Prop where
  sb : fs'.sb=fs.sb
  dinode : fs'.dinode=fs.dinode
  others : ∀ jp,jp≠ip→fs'.itable jp=fs.itable jp
  self : ∃ d,fs'.itable ip={fs.itable ip with copy := d}

structure Reshape (fs fs' : Fs) (ip : ℕ) : Prop extends Recopy fs fs' ip where
  fields : ∃ a,(fs'.itable ip).copy={(fs.itable ip).copy with addrs := a}

lemma Reshape.refl (fs : Fs) (ip : ℕ) : Reshape fs fs ip :=
  ⟨⟨rfl,rfl,fun _ _ => rfl,⟨_,rfl⟩⟩,⟨_,rfl⟩⟩

lemma Reshape.trans {fs fs1 fs2 : Fs} {ip : ℕ} (h : Reshape fs fs1 ip)
    (h' : Reshape fs1 fs2 ip) : Reshape fs fs2 ip := by
  obtain ⟨d,hd⟩ := h.self
  obtain ⟨d',hd'⟩ := h'.self
  obtain ⟨a,ha⟩ := h.fields
  obtain ⟨a',ha'⟩ := h'.fields
  refine ⟨⟨h'.sb.trans h.sb,h'.dinode.trans h.dinode,
    fun jp hj => (h'.others jp hj).trans (h.others jp hj),⟨d',?_⟩⟩,⟨a',?_⟩⟩
  · rw [hd',hd]
  · rw [ha',ha]

section Recopied

variable {fs fs' : Fs} {ip : ℕ}

variable (h : Recopy fs fs' ip)

include h

lemma Recopy.keeps (jp : ℕ) : ∃ d,fs'.itable jp={fs.itable jp with copy := d} := by
  by_cases hj : jp=ip
  · rw [hj]
    exact h.self
  · exact ⟨_,h.others jp hj⟩

lemma Recopy.inum (jp : ℕ) : (fs'.itable jp).inum=(fs.itable jp).inum := by
  obtain ⟨d,hd⟩ := h.keeps jp
  rw [hd]

lemma Recopy.ref (jp : ℕ) : (fs'.itable jp).ref=(fs.itable jp).ref := by
  obtain ⟨d,hd⟩ := h.keeps jp
  rw [hd]

lemma Recopy.valid (jp : ℕ) : (fs'.itable jp).valid=(fs.itable jp).valid := by
  obtain ⟨d,hd⟩ := h.keeps jp
  rw [hd]

omit h

lemma Reshape.type (h : Reshape fs fs' ip) :
    (fs'.itable ip).copy.type=(fs.itable ip).copy.type := by
  obtain ⟨a,ha⟩ := h.fields
  rw [ha]

lemma Reshape.size (h : Reshape fs fs' ip) :
    (fs'.itable ip).copy.size=(fs.itable ip).copy.size := by
  obtain ⟨a,ha⟩ := h.fields
  rw [ha]

end Recopied

lemma iupdate_eq_self {fs : Fs} {ip : ℕ}
    (h : (fs.itable ip).copy=fs.dinode (fs.itable ip).inum) : iupdate fs ip=fs := by
  rw [iupdate,h,Fs.setDinode,update_eq_self]

section PendingFacts

variable {fs fs' : Fs} {own : ℕ→ℕ} {ip : ℕ} {j b bn off lo hi : ℕ} {O : ℕ×Place→ℕ}

lemma InodeInv.pending (h : InodeInv fs own) (hip : 0<own ip)
    (hv : (fs.itable ip).valid=true) : Pending fs own ip :=
  ⟨by rw [iupdate_eq_self (h.loaded ip hip hv).1]; exact h,hip,hv⟩

lemma Pending.allocated (h : Pending fs own ip) : (fs.itable ip).copy.type≠.free :=
  (h.inv.loaded ip h.held h.valid).2

lemma occ_self (fs : Fs) (ip : ℕ) (h : (fs.itable ip).copy.type≠.free) (p : Place) :
    occ (iupdate fs ip) ((fs.itable ip).inum,p)=blockAt fs.data (fs.itable ip).copy p := by
  rw [occ,iupdate_self,if_neg h,iupdate_data]

lemma occ_of_ne (fs : Fs) {ip : ℕ} (hj : j≠(fs.itable ip).inum) (p : Place) :
    occ (iupdate fs ip) (j,p)=occ fs (j,p) := by
  rw [occ,occ,iupdate_of_ne fs hj,iupdate_data]

def Covers (fs : Fs) (ip off : ℕ) : Prop :=
  ∀ bn,bn*bsize<off→ occ (iupdate fs ip) ((fs.itable ip).inum,placeOf bn)≠0

lemma Pending.covers (h : Pending fs own ip) : Covers fs ip (fs.itable ip).copy.size := by
  intro bn hbn
  refine h.inv.mapped _ ?_ bn ?_
  · rw [iupdate_self]
    exact h.allocated
  · rwa [iupdate_self]

/-- The invariant after a change of one inode in memory, of the blocks and of
the bitmap that keeps ownership and maps every block below the end of a file. -/
lemma Pending.recopy (h : Pending fs own ip) (hr : Recopy fs fs' ip)
    (ht : (fs'.itable ip).copy.type≠.free)
    (howns : Owns fs.sb.dataStart fs.sb.size (occ (iupdate fs' ip)) fs'.bitmap)
    (hmap : ∀ j bn,j≠(fs.itable ip).inum→ occ (iupdate fs ip) (j,placeOf bn)≠0→
      occ (iupdate fs' ip) (j,placeOf bn)≠0)
    (hcov : Covers fs' ip (fs'.itable ip).copy.size) : Pending fs' own ip := by
  have hinum : (fs'.itable ip).inum=(fs.itable ip).inum := hr.inum ip
  have hother : ∀ j,j≠(fs.itable ip).inum→(iupdate fs' ip).dinode j=(iupdate fs ip).dinode j := by
    intro j hj
    rw [iupdate_of_ne fs hj,iupdate_of_ne fs' (by rw [hinum]; exact hj),hr.dinode]
  refine ⟨⟨fun jp => ?_,h.inv.slots,fun jp kp hj hk hjk => ?_,fun jp hj hv => ?_,?_,?_,
    fun j hj bn hbn => ?_,fun j hj => ?_⟩,h.held,(hr.valid ip).trans h.valid⟩
  · exact (hr.ref jp).trans (h.inv.refs jp)
  · refine h.inv.distinct jp kp hj hk ?_
    rwa [iupdate_itable,hr.inum,hr.inum] at hjk
  · by_cases hjp : jp=ip
    · subst hjp
      exact ⟨(iupdate_self fs' jp).symm,ht⟩
    · have hne : (fs.itable jp).inum≠(fs.itable ip).inum :=
        fun he => hjp (h.inv.distinct jp ip hj h.held he)
      have hloaded := h.inv.loaded jp hj ((hr.valid jp).symm.trans hv)
      rwa [iupdate_itable,hr.others jp hjp,hother _ hne]
  · rw [iupdate_sb,hr.sb]
    exact howns
  · rw [iupdate_sb,hr.sb]
    exact h.inv.small
  · by_cases hji : j=(fs.itable ip).inum
    · rw [hji,←hinum] at hbn ⊢
      rw [iupdate_self] at hbn
      exact hcov bn hbn
    · grind [h.inv.mapped]
  · rw [iupdate_sb,hr.sb]
    by_cases hji : j=(fs.itable ip).inum
    · rw [hji]
      refine h.inv.range _ ?_
      rw [iupdate_self]
      exact h.allocated
    · rw [hother j hji] at hj
      exact h.inv.range j hj

lemma Pending.reshape (h : Pending fs own ip) (hr : Reshape fs fs' ip)
    (howns : Owns fs.sb.dataStart fs.sb.size (occ (iupdate fs' ip)) fs'.bitmap)
    (hmap : ∀ q,occ (iupdate fs ip) q≠0→ occ (iupdate fs' ip) q≠0) : Pending fs' own ip := by
  refine h.recopy hr.toRecopy ?_ howns (fun j bn _ => hmap _) fun bn hbn => ?_
  · rw [hr.type]
    exact h.allocated
  · rw [hr.inum]
    rw [hr.size] at hbn
    exact hmap _ (h.covers bn hbn)

structure Grows (fs fs' : Fs) (ip : ℕ) : Prop extends Reshape fs fs' ip where
  kept : ∀ q,occ (iupdate fs ip) q≠0→ occ (iupdate fs' ip) q=occ (iupdate fs ip) q
  data : ∀ j bn,occ (iupdate fs ip) (j,placeOf bn)≠0→
    fs'.data (occ (iupdate fs ip) (j,placeOf bn))=fs.data (occ (iupdate fs ip) (j,placeOf bn))

lemma Grows.refl (fs : Fs) (ip : ℕ) : Grows fs fs ip :=
  ⟨.refl fs ip,fun _ _ => rfl,fun _ _ _ => rfl⟩

lemma Grows.trans {fs1 fs2 : Fs} (h : Grows fs fs1 ip) (h' : Grows fs1 fs2 ip) :
    Grows fs fs2 ip := by
  refine ⟨h.toReshape.trans h'.toReshape,fun q hq => ?_,fun j bn hq => ?_⟩
  · grind [h.kept,h'.kept]
  · have hq1 := h.kept _ hq
    grind [h'.data,h.data]

lemma Pending.grow (h : Pending fs own ip) (hr : Reshape fs fs' ip) {q : ℕ×Place}
    (hb : fs.bitmap b=false) (hlt : b<fs.sb.size) (hbm : fs'.bitmap=update fs.bitmap b true)
    (hq : occ (iupdate fs ip) q=0) (hocc : occ (iupdate fs' ip)=update (occ (iupdate fs ip)) q b)
    (hdata : ∀ j bn,occ (iupdate fs ip) (j,placeOf bn)≠0→
      fs'.data (occ (iupdate fs ip) (j,placeOf bn))=
        fs.data (occ (iupdate fs ip) (j,placeOf bn))) : Pending fs' own ip ∧ Grows fs fs' ip := by
  have hkept : ∀ r,occ (iupdate fs ip) r≠0→ occ (iupdate fs' ip) r=occ (iupdate fs ip) r := by
    intro r hne
    have hrq : r≠q := by grind
    rw [hocc,update_of_ne hrq]
  refine ⟨h.reshape hr ?_ fun r hne => ?_,hr,hkept,hdata⟩
  · rw [hocc,hbm]
    exact h.inv.owns.fill hb hlt hq
  · rw [hkept r hne]
    exact hne

lemma blockAt_congr {data data' : ℕ→Block} {d : Dinode}
    (h : d.addrs ndirect≠0→data' (d.addrs ndirect)=data (d.addrs ndirect)) (p : Place) :
    blockAt data' d p=blockAt data d p := by
  cases p with
  | addr k => rfl
  | entry j =>
    grind [blockAt]

lemma occ_indirect {fs : Fs} (hj : (fs.dinode j).type≠.free) :
    occ fs (j,.addr ndirect)=(fs.dinode j).addrs ndirect := by
  rw [occ,if_neg hj]
  simp only [blockAt,le_refl,if_true]

lemma occ_store_of_ne {fs fs' : Fs} (hd : fs'.dinode=fs.dinode)
    (hdata : ∀ j,(fs.dinode j).type≠.free→(fs.dinode j).addrs ndirect≠0→
      fs'.data ((fs.dinode j).addrs ndirect)=fs.data ((fs.dinode j).addrs ndirect)) :
    occ fs'=occ fs := by
  funext q
  rw [occ,occ,hd]
  split_ifs with hq
  · rfl
  · exact blockAt_congr (hdata q.1 hq) q.2

lemma balloc_cases (fs : Fs) : balloc fs=(fs,0) ∨
    ∃ b,fs.bitmap b=false ∧ b<fs.sb.size ∧ balloc fs=(fs.mark b,b) := by
  rw [balloc]
  cases hf : (List.range fs.sb.size).find? (fun b => !fs.bitmap b) with
  | none => exact .inl rfl
  | some b =>
    obtain ⟨hb,hm,-⟩ := List.find?_range_eq_some.mp hf
    refine .inr ⟨b,?_,List.mem_range.mp hm,rfl⟩
    simpa only [Bool.not_eq_true'] using hb

lemma InodeInv.not_indirect (h : InodeInv fs own) (hb : fs.bitmap b=false) (hlt : b<fs.sb.size)
    (hj : (fs.dinode j).type≠.free) : (fs.dinode j).addrs ndirect≠b := by
  rw [←occ_indirect hj]
  exact (h.owns.fresh hb hlt).2 _

lemma occ_other (hd : fs'.dinode=fs.dinode) (hinum : (fs'.itable ip).inum=(fs.itable ip).inum)
    (hj : j≠(fs.itable ip).inum) (hdata : (fs.dinode j).type≠.free→(fs.dinode j).addrs ndirect≠0→
      fs'.data ((fs.dinode j).addrs ndirect)=fs.data ((fs.dinode j).addrs ndirect)) (p : Place) :
    occ (iupdate fs' ip) (j,p)=occ (iupdate fs ip) (j,p) := by
  rw [occ_of_ne fs' (by rw [hinum]; exact hj),occ_of_ne fs hj,occ,occ,hd]
  split_ifs with ht
  · rfl
  · exact blockAt_congr (hdata ht) p

variable (h : Pending fs own ip)

include h

lemma Pending.occ_addr {k : ℕ} (hk : k≤ndirect) (hz : (fs.itable ip).copy.addrs k=0)
    (hb : fs.bitmap b=false) (hlt : b<fs.sb.size) :
    occ (iupdate ((fs.mark b).edit ip fun d => d.setAddr k b) ip)=
      update (occ (iupdate fs ip)) ((fs.itable ip).inum,.addr k) b := by
  set fs' := (fs.mark b).edit ip fun d => d.setAddr k b with hfs'
  have hself : fs'.itable ip={fs.itable ip with copy := (fs.itable ip).copy.setAddr k b} := by
    rw [hfs',edit_self]
    rfl
  have hinum : (fs'.itable ip).inum=(fs.itable ip).inum := by rw [hself]
  have hcopy : (fs'.itable ip).copy=(fs.itable ip).copy.setAddr k b := by rw [hself]
  have hdata : ∀ c,c≠b→fs'.data c=fs.data c := fun c hc => update_of_ne hc _ _
  have hfresh := (h.inv.owns.fresh hb hlt).2
  funext q
  obtain ⟨j,p⟩ := q
  by_cases hj : j=(fs.itable ip).inum
  · subst hj
    have hnew := occ_self fs' ip (by rw [hcopy]; exact h.allocated) p
    rw [hinum,hcopy] at hnew
    rw [hnew]
    cases p with
    | addr k' =>
      by_cases hk' : k'=k
      · subst hk'
        rw [update_self,blockAt,if_pos hk]
        exact update_self _ _ _
      · have hne : ((fs.itable ip).inum,Place.addr k')≠((fs.itable ip).inum,Place.addr k) := by
          simp only [ne_eq,Prod.mk.injEq,Place.addr.injEq,true_and]
          exact hk'
        rw [update_of_ne hne,occ_self fs ip h.allocated]
        simp only [blockAt,Dinode.setAddr,update_of_ne hk']
    | entry e =>
      have hne : ((fs.itable ip).inum,Place.entry e)≠((fs.itable ip).inum,Place.addr k) := by
        simp only [ne_eq,Prod.mk.injEq,reduceCtorEq,and_false,not_false_eq_true]
      rw [update_of_ne hne,occ_self fs ip h.allocated]
      by_cases hkd : k=ndirect
      · subst hkd
        have hword : word (fs'.data b) e=0 := by
          rw [show fs'.data b=zeros from update_self _ _ _,word_zeros]
        simp only [blockAt,Dinode.setAddr,update_self,hword,hz,ne_eq,not_true_eq_false,
          and_false,if_false,ite_self]
      · have haddr : ((fs.itable ip).copy.setAddr k b).addrs ndirect=
            (fs.itable ip).copy.addrs ndirect :=
          update_of_ne (fun he => hkd he.symm) _ _
        simp only [blockAt,haddr]
        split_ifs with he
        · rw [hdata]
          have hplace := hfresh ((fs.itable ip).inum,.addr ndirect)
          rwa [occ_self fs ip h.allocated,blockAt,if_pos le_rfl] at hplace
        · rfl
  · have hne : (j,p)≠((fs.itable ip).inum,Place.addr k) := by
      simp only [ne_eq,Prod.mk.injEq,not_and]
      exact fun he => absurd he hj
    rw [update_of_ne hne]
    have hd : fs'.dinode=fs.dinode := rfl
    refine occ_other hd hinum hj (fun ht _ => hdata _ ?_) p
    have hnot := h.inv.not_indirect (j:=j) hb hlt (by rw [iupdate_of_ne fs hj]; exact ht)
    rwa [iupdate_of_ne fs hj] at hnot

lemma Pending.occ_entry {e a : ℕ} (he : e<nindirect) (ha : a=(fs.itable ip).copy.addrs ndirect)
    (ha0 : a≠0) (hb : fs.bitmap b=false) (hlt : b<fs.sb.size) :
    occ (iupdate ((fs.mark b).store a (setWord ((fs.mark b).data a) e b)) ip)=
      update (occ (iupdate fs ip)) ((fs.itable ip).inum,.entry e) b := by
  have hfresh := (h.inv.owns.fresh hb hlt).2
  have hplace : occ (iupdate fs ip) ((fs.itable ip).inum,.addr ndirect)=a := by
    rw [occ_self fs ip h.allocated,blockAt,if_pos le_rfl,ha]
  have hab : a≠b := by grind
  have hold : (fs.mark b).data a=fs.data a := update_of_ne hab _ _
  set fs' := (fs.mark b).store a (setWord ((fs.mark b).data a) e b) with hfs'
  have hself : fs'.data a=setWord (fs.data a) e b := by
    rw [hfs',hold]
    exact update_self _ _ _
  have hdata : ∀ c,c≠a→c≠b→fs'.data c=fs.data c := by
    intro c hca hcb
    exact (update_of_ne hca _ _).trans (update_of_ne hcb _ _)
  funext q
  obtain ⟨j,p⟩ := q
  by_cases hj : j=(fs.itable ip).inum
  · subst hj
    have hnew := occ_self fs' ip h.allocated p
    rw [show fs'.itable=fs.itable from rfl] at hnew
    rw [hnew]
    cases p with
    | addr k =>
      have hne : ((fs.itable ip).inum,Place.addr k)≠((fs.itable ip).inum,Place.entry e) := by
        simp only [ne_eq,Prod.mk.injEq,reduceCtorEq,and_false,not_false_eq_true]
      rw [update_of_ne hne,occ_self fs ip h.allocated]
      rfl
    | entry e' =>
      by_cases hee : e'=e
      · subst hee
        rw [update_self,blockAt,←ha,if_pos ⟨he,ha0⟩,hself,
          word_setWord_self _ _ (Nat.lt_of_lt_of_le hlt h.inv.small)]
      · have hne : ((fs.itable ip).inum,Place.entry e')≠
            ((fs.itable ip).inum,Place.entry e) := by
          simp only [ne_eq,Prod.mk.injEq,Place.entry.injEq,true_and]
          exact hee
        rw [update_of_ne hne,occ_self fs ip h.allocated,blockAt,blockAt,←ha,hself,
          word_setWord_of_ne _ hee]
  · have hne : (j,p)≠((fs.itable ip).inum,Place.entry e) := by
      simp only [ne_eq,Prod.mk.injEq,not_and]
      exact fun hc => absurd hc hj
    have hd : fs'.dinode=fs.dinode := rfl
    rw [update_of_ne hne]
    refine occ_other hd rfl hj (fun ht h0 => hdata _ ?_ ?_) p
    · have hj2 : occ (iupdate fs ip) (j,.addr ndirect)=(fs.dinode j).addrs ndirect := by
        rw [occ_indirect (by rw [iupdate_of_ne fs hj]; exact ht),iupdate_of_ne fs hj]
      intro hc
      have hq := h.inv.owns.unique (j,.addr ndirect) ((fs.itable ip).inum,.addr ndirect)
        (by rw [hj2]; exact h0) (by rw [hj2,hplace,hc])
      exact hj (Prod.mk.inj hq).1
    · have hnot := h.inv.not_indirect (j:=j) hb hlt (by rw [iupdate_of_ne fs hj]; exact ht)
      rwa [iupdate_of_ne fs hj] at hnot

lemma Pending.mark_data (hb : fs.bitmap b=false) (hlt : b<fs.sb.size) (q : ℕ×Place) :
    (fs.mark b).data (occ (iupdate fs ip) q)=fs.data (occ (iupdate fs ip) q) :=
  update_of_ne ((h.inv.owns.fresh hb hlt).2 q) _ _

lemma addrAlloc_spec {k : ℕ} (hk : k≤ndirect) :
    Pending (addrAlloc fs ip k).1 own ip ∧ Grows fs (addrAlloc fs ip k).1 ip ∧
      ((addrAlloc fs ip k).2≠0→
        ((addrAlloc fs ip k).1.itable ip).copy.addrs k=(addrAlloc fs ip k).2) := by
  rw [addrAlloc]
  by_cases hz : (fs.itable ip).copy.addrs k=0
  · rw [if_pos hz]
    rcases balloc_cases fs with hnone | ⟨b,hb,hlt,hsome⟩
    · simp only [hnone,if_true]
      exact ⟨h,.refl fs ip,fun h0 => absurd rfl h0⟩
    · have hb0 : b≠0 := by
        have := (h.inv.owns.fresh hb hlt).1
        have := h.inv.owns.lo_pos
        omega
      simp only [hsome,if_neg hb0]
      have hr : Reshape fs ((fs.mark b).edit ip fun d => d.setAddr k b) ip :=
        ⟨⟨rfl,rfl,fun jp hj => edit_of_ne _ hj _,⟨_,edit_self _ _ _⟩⟩,
          ⟨update (fs.itable ip).copy.addrs k b,by rw [edit_self]; rfl⟩⟩
      have hq : occ (iupdate fs ip) ((fs.itable ip).inum,.addr k)=0 := by
        rw [occ_self fs ip h.allocated,blockAt,if_pos hk,hz]
      obtain ⟨hp,hg⟩ := h.grow hr hb hlt rfl hq (h.occ_addr hk hz hb hlt)
        fun j bn _ => h.mark_data hb hlt _
      refine ⟨hp,hg,fun _ => ?_⟩
      rw [edit_self]
      exact update_self _ _ _
  · rw [if_neg hz]
    exact ⟨h,.refl fs ip,fun _ => rfl⟩

lemma entryAlloc_spec {a e : ℕ} (he : e<nindirect) (ha : a=(fs.itable ip).copy.addrs ndirect)
    (ha0 : a≠0) : Pending (entryAlloc fs a e).1 own ip ∧ Grows fs (entryAlloc fs a e).1 ip ∧
      ((entryAlloc fs a e).2≠0→
        occ (iupdate (entryAlloc fs a e).1 ip) ((fs.itable ip).inum,.entry e)=
          (entryAlloc fs a e).2) := by
  have hocc : occ (iupdate fs ip) ((fs.itable ip).inum,.entry e)=word (fs.data a) e := by
    rw [occ_self fs ip h.allocated,blockAt,←ha,if_pos ⟨he,ha0⟩]
  rw [entryAlloc]
  by_cases hz : word (fs.data a) e=0
  · rw [if_pos hz]
    rcases balloc_cases fs with hnone | ⟨b,hb,hlt,hsome⟩
    · simp only [hnone,if_true]
      exact ⟨h,.refl fs ip,fun h0 => absurd rfl h0⟩
    · have hb0 : b≠0 := by
        have := (h.inv.owns.fresh hb hlt).1
        have := h.inv.owns.lo_pos
        omega
      simp only [hsome,if_neg hb0]
      have hr : Reshape fs ((fs.mark b).store a (setWord ((fs.mark b).data a) e b)) ip :=
        ⟨⟨rfl,rfl,fun _ _ => rfl,⟨_,rfl⟩⟩,⟨_,rfl⟩⟩
      have hnew := h.occ_entry he ha ha0 hb hlt
      obtain ⟨hp,hg⟩ := h.grow hr hb hlt rfl (hocc.trans hz) hnew fun j bn hne => by
        have hna : occ (iupdate fs ip) (j,placeOf bn)≠a := by
          intro hc
          have hself : occ (iupdate fs ip) ((fs.itable ip).inum,.addr ndirect)=a := by
            rw [occ_self fs ip h.allocated,blockAt,if_pos le_rfl,ha]
          grind [h.inv.owns.unique,placeOf]
        exact (update_of_ne hna _ _).trans (h.mark_data hb hlt _)
      refine ⟨hp,hg,fun _ => ?_⟩
      rw [hnew,update_self]
  · rw [if_neg hz]
    exact ⟨h,.refl fs ip,fun _ => hocc⟩

lemma bmap_spec (hbn : bn< maxfile) :
    ∃ fs' addr,bmap fs ip bn=.next (fs',addr) ∧ Pending fs' own ip ∧ Grows fs fs' ip ∧
      (addr≠0→ occ (iupdate fs' ip) ((fs.itable ip).inum,placeOf bn)=addr) := by
  rw [bmap]
  by_cases hd : bn<ndirect
  · rw [if_pos hd]
    obtain ⟨hp,hg,hres⟩ := addrAlloc_spec h (k:=bn) (by omega)
    refine ⟨(addrAlloc fs ip bn).1,(addrAlloc fs ip bn).2,rfl,hp,hg,fun h0 => ?_⟩
    rw [←hg.inum ip,occ_self _ ip hp.allocated,placeOf,if_pos hd,blockAt,if_pos (by omega),hres h0]
  · have hi : bn-ndirect<nindirect := by
      simp only [maxfile] at hbn
      omega
    rw [if_neg hd,if_pos hi]
    obtain ⟨hp,hg,hres⟩ := addrAlloc_spec h (k:=ndirect) le_rfl
    by_cases h0 : (addrAlloc fs ip ndirect).2=0
    · exact ⟨_,0,if_pos h0,hp,hg,fun hc => absurd rfl hc⟩
    · obtain ⟨hp',hg',hres'⟩ := entryAlloc_spec hp hi (hres h0).symm h0
      refine ⟨_,_,if_neg h0,hp',hg.trans hg',fun hne => ?_⟩
      rw [placeOf,if_neg hd,←hg.inum ip]
      exact hres' hne

omit h

lemma bmap_found (hm : blockAt fs.data (fs.itable ip).copy (placeOf bn)≠0) :
    bmap fs ip bn=.next (fs,blockAt fs.data (fs.itable ip).copy (placeOf bn)) := by
  rw [placeOf] at hm ⊢
  rw [bmap]
  split_ifs at hm ⊢ with hd hi
  · grind [blockAt,addrAlloc]
  · have ha : (fs.itable ip).copy.addrs ndirect≠0 := by
      grind [blockAt]
    grind [blockAt,addrAlloc,entryAlloc]
  · grind [blockAt]

lemma bmap_mapped (h : Pending fs own ip)
    (hm : occ (iupdate fs ip) ((fs.itable ip).inum,placeOf bn)≠0) :
    bmap fs ip bn=.next (fs,occ (iupdate fs ip) ((fs.itable ip).inum,placeOf bn)) := by
  rw [occ_self fs ip h.allocated] at hm ⊢
  exact bmap_found hm

lemma placeOf_ne_indirect (bn : ℕ) : placeOf bn≠.addr ndirect := by
  rw [placeOf]
  split_ifs with h
  · exact fun hc => absurd (Place.addr.inj hc) (by omega)
  · exact Place.noConfusion

lemma placeOf_injective {bn' : ℕ} (h : placeOf bn=placeOf bn') : bn=bn' := by grind [placeOf]

lemma Pending.occ_store (h : Pending fs own ip) (d : Block)
    (hne : occ (iupdate fs ip) (j,placeOf bn)≠0) :
    occ (iupdate (fs.store (occ (iupdate fs ip) (j,placeOf bn)) d) ip)=occ (iupdate fs ip) := by
  refine occ_store_of_ne rfl fun k hk _ => ?_
  refine update_of_ne (fun hc => ?_) _ _
  rw [←occ_indirect hk] at hc
  have hq := h.inv.owns.unique _ _ hne hc.symm
  exact placeOf_ne_indirect bn (Prod.mk.inj hq).2

lemma Pending.store (h : Pending fs own ip) (d : Block)
    (hne : occ (iupdate fs ip) (j,placeOf bn)≠0) :
    Pending (fs.store (occ (iupdate fs ip) (j,placeOf bn)) d) own ip := by
  refine h.reshape ⟨⟨rfl,rfl,fun _ _ => rfl,⟨_,rfl⟩⟩,⟨_,rfl⟩⟩ ?_ fun q hq => ?_
  · rw [h.occ_store d hne]
    exact h.inv.owns
  · rw [h.occ_store d hne]
    exact hq

structure Writes (fs fs' : Fs) (ip : ℕ) : Prop extends Reshape fs fs' ip where
  kept : ∀ q,occ (iupdate fs ip) q≠0→ occ (iupdate fs' ip) q=occ (iupdate fs ip) q
  data : ∀ j bn,j≠(fs.itable ip).inum→ occ (iupdate fs ip) (j,placeOf bn)≠0→
    fs'.data (occ (iupdate fs ip) (j,placeOf bn))=fs.data (occ (iupdate fs ip) (j,placeOf bn))

lemma Grows.writes (h : Grows fs fs' ip) : Writes fs fs' ip :=
  ⟨h.toReshape,h.kept,fun j bn _ => h.data j bn⟩

lemma Writes.trans {fs1 fs2 : Fs} (h : Writes fs fs1 ip) (h' : Writes fs1 fs2 ip) :
    Writes fs fs2 ip := by
  refine ⟨h.toReshape.trans h'.toReshape,fun q hq => ?_,fun j bn hj hq => ?_⟩
  · grind [h.kept,h'.kept]
  · have hq1 := h.kept _ hq
    grind [h'.data,h.inum,h.data]

lemma Pending.writes_store (h : Pending fs own ip) (d : Block)
    (hne : occ (iupdate fs ip) ((fs.itable ip).inum,placeOf bn)≠0) :
    Writes fs (fs.store (occ (iupdate fs ip) ((fs.itable ip).inum,placeOf bn)) d) ip := by
  refine ⟨⟨⟨rfl,rfl,fun _ _ => rfl,⟨_,rfl⟩⟩,⟨_,rfl⟩⟩,fun q _ => ?_,fun j bn' hj hq => ?_⟩
  · rw [h.occ_store d hne]
  · refine update_of_ne (fun hc => hj ?_) _ _
    exact (Prod.mk.inj (h.inv.owns.unique _ _ hq hc)).1

lemma Covers.writes (h : Covers fs ip off) (hw : Writes fs fs' ip) : Covers fs' ip off := by
  intro bn hbn
  rw [hw.inum,hw.kept _ (h bn hbn)]
  exact h bn hbn

lemma chunk_block {m : ℕ} (hm : m≤bsize-off%bsize) (hlo : ¬bn*bsize<off) (hhi : bn*bsize<off+m) :
    bn=off/bsize := by
  grind [bsize]

lemma writeiLoop_spec (fuel : ℕ) (h : Pending fs own ip) (src : List UInt8) {left : ℕ} (tot : ℕ)
    (hb : off+left≤ maxfile*bsize) (hc : Covers fs ip off) :
    ∃ fs' off' tot',writeiLoop ip fuel fs src off left tot=.next (fs',off',tot') ∧
      Pending fs' own ip ∧ Writes fs fs' ip ∧ Covers fs' ip off' := by
  induction fuel generalizing fs src off left tot with
  | zero => exact ⟨fs,off,tot,rfl,h,(Grows.refl fs ip).writes,hc⟩
  | succ fuel ih =>
    rw [writeiLoop]
    by_cases h0 : left=0
    · exact ⟨fs,off,tot,if_pos h0,h,(Grows.refl fs ip).writes,hc⟩
    · rw [if_neg h0]
      have hbn : off/bsize< maxfile := by
        rw [Nat.div_lt_iff_lt_mul (by decide)]
        omega
      obtain ⟨fs1,addr,hmap,hp1,hg1,hres⟩ := bmap_spec h hbn
      have hc1 := hc.writes hg1.writes
      rw [hmap]
      by_cases ha : addr=0
      · exact ⟨fs1,off,tot,if_pos ha,hp1,hg1.writes,hc1⟩
      · have hocc : addr=occ (iupdate fs1 ip) ((fs1.itable ip).inum,placeOf (off/bsize)) := by
          grind [hg1.inum]
        have hne : occ (iupdate fs1 ip) ((fs1.itable ip).inum,placeOf (off/bsize))≠0 := by grind
        set fs2 := fs1.store addr (writeBytes (fs1.data addr) (off%bsize)
          (src.take (chunk off left))) with hfs2
        have hp2 : Pending fs2 own ip := by grind [hp1.store]
        have hw2 : Writes fs1 fs2 ip := by grind [hp1.writes_store]
        have hw := hg1.writes.trans hw2
        have hc2 := hc.writes hw
        by_cases hs : src.length<chunk off left
        · exact ⟨fs2,off,tot,(if_neg ha).trans (if_pos hs),hp2,hw,hc2⟩
        · have hm : chunk off left≤left ∧ chunk off left≤bsize-off%bsize :=
            ⟨Nat.min_le_left _ _,Nat.min_le_right _ _⟩
          have hleft : off+chunk off left+(left-chunk off left)≤ maxfile*bsize := by omega
          have hc3 : Covers fs2 ip (off+chunk off left) := by
            intro bn hbn'
            by_cases hlo : bn*bsize<off
            · exact hc2 bn hlo
            · have hbe : bn=off/bsize := chunk_block hm.2 hlo hbn'
              rw [hbe,hw2.inum,hw2.kept _ hne]
              exact hne
          obtain ⟨fs3,off',tot',hloop,hp3,hw3,hcov⟩ :=
            ih hp2 (src.drop (chunk off left)) (tot+chunk off left) hleft hc3
          exact ⟨fs3,off',tot',((if_neg ha).trans (if_neg hs)).trans hloop,hp3,hw.trans hw3,hcov⟩

lemma blockAt_addrs {data : ℕ→Block} {d d' : Dinode} (h : d'.addrs=d.addrs) (p : Place) :
    blockAt data d' p=blockAt data d p := by
  cases p with
  | addr | entry => simp only [blockAt,h]

lemma Pending.occ_edit (h : Pending fs own ip) {f : Dinode→Dinode}
    (ht : (f (fs.itable ip).copy).type≠.free)
    (ha : (f (fs.itable ip).copy).addrs=(fs.itable ip).copy.addrs) :
    occ (iupdate (fs.edit ip f) ip)=occ (iupdate fs ip) := by
  have hcopy : ((fs.edit ip f).itable ip).copy=f (fs.itable ip).copy := by rw [edit_self]
  have hinum : ((fs.edit ip f).itable ip).inum=(fs.itable ip).inum := by rw [edit_self]
  funext q
  obtain ⟨j,p⟩ := q
  by_cases hj : j=(fs.itable ip).inum
  · have hnew := occ_self (fs.edit ip f) ip (by rw [hcopy]; exact ht) p
    rw [hinum,hcopy] at hnew
    rw [hj,hnew,occ_self fs ip h.allocated]
    exact blockAt_addrs ha p
  · have hd : (fs.edit ip f).dinode=fs.dinode := rfl
    exact occ_other hd hinum hj (fun _ _ => rfl) p

lemma Pending.edit (h : Pending fs own ip) {f : Dinode→Dinode}
    (ht : (f (fs.itable ip).copy).type≠.free)
    (ha : (f (fs.itable ip).copy).addrs=(fs.itable ip).copy.addrs)
    (hcov : Covers fs ip (f (fs.itable ip).copy).size) :
    Pending (fs.edit ip f) own ip ∧ occ (iupdate (fs.edit ip f) ip)=occ (iupdate fs ip) := by
  have hr : Recopy fs (fs.edit ip f) ip :=
    ⟨rfl,rfl,fun jp hj => edit_of_ne fs hj f,⟨_,edit_self fs ip f⟩⟩
  have hcopy : ((fs.edit ip f).itable ip).copy=f (fs.itable ip).copy := by rw [edit_self]
  have hocc := h.occ_edit ht ha
  refine ⟨h.recopy hr (by rw [hcopy]; exact ht) ?_ (fun j bn _ hne => ?_) fun bn hbn => ?_,hocc⟩
  · rw [hocc]
    exact h.inv.owns
  · rw [hocc]
    exact hne
  · rw [hocc,hr.inum]
    rw [hcopy] at hbn
    exact hcov bn hbn

structure Updates (fs fs' : Fs) (ip : ℕ) : Prop where
  sb : fs'.sb=fs.sb
  others : ∀ jp,jp≠ip→fs'.itable jp=fs.itable jp
  self : ∃ d,fs'.itable ip={fs.itable ip with copy := d}
  dinode : ∀ j,j≠(fs.itable ip).inum→fs'.dinode j=fs.dinode j
  kept : ∀ j bn,j≠(fs.itable ip).inum→ occ fs (j,placeOf bn)≠0→
    occ fs' (j,placeOf bn)=occ fs (j,placeOf bn) ∧
      fs'.data (occ fs (j,placeOf bn))=fs.data (occ fs (j,placeOf bn))

lemma Recopy.updates (h : Recopy fs fs' ip)
    (hkept : ∀ j bn,j≠(fs.itable ip).inum→ occ fs (j,placeOf bn)≠0→
      occ (iupdate fs' ip) (j,placeOf bn)=occ fs (j,placeOf bn) ∧
        fs'.data (occ fs (j,placeOf bn))=fs.data (occ fs (j,placeOf bn))) :
    Updates fs (iupdate fs' ip) ip := by
  refine ⟨h.sb,h.others,h.self,fun j hj => ?_,hkept⟩
  rw [iupdate_of_ne fs' (by rw [h.inum]; exact hj),h.dinode]

lemma writei_full (h : InodeInv fs own) (hip : 0<own ip) (hv : (fs.itable ip).valid=true)
    (src : List UInt8) (off n : ℕ) :
    ∃ fs' r,writei fs ip src off n=.next (fs',r) ∧ InodeInv fs' own ∧ Updates fs fs' ip ∧
      (∃ a size,(fs'.itable ip).copy={(fs.itable ip).copy with addrs := a,size := size}) ∧
      ∀ q,occ fs q≠0→ occ fs' q=occ fs q := by
  have hclean := iupdate_eq_self (h.loaded ip hip hv).1
  have hsame : Updates fs fs ip :=
    ⟨rfl,fun _ _ => rfl,⟨_,rfl⟩,fun _ _ => rfl,fun _ _ _ _ => ⟨rfl,rfl⟩⟩
  rw [writei]
  split_ifs with h1 h2
  · exact ⟨fs,-1,rfl,h,hsame,⟨_,_,rfl⟩,fun _ _ => rfl⟩
  · exact ⟨fs,-1,rfl,h,hsame,⟨_,_,rfl⟩,fun _ _ => rfl⟩
  · have hp := h.pending hip hv
    have hcov : Covers fs ip off := fun bn hbn => hp.covers bn (by omega)
    have hb : off+n≤ maxfile*bsize := by omega
    obtain ⟨fs1,off',tot,hloop,hp1,hw1,hc1⟩ := writeiLoop_spec n hp src 0 hb hcov
    obtain ⟨a,ha⟩ := hw1.fields
    have hkept := hw1.kept
    have hdata := hw1.data
    rw [hclean] at hkept hdata
    rw [hloop]
    by_cases hs : (fs.itable ip).copy.size<off'
    · obtain ⟨hp2,hocc⟩ := hp1.edit (f:=fun d => {d with size := off'}) hp1.allocated rfl hc1
      refine ⟨_,tot,rfl,?_,?_,⟨a,off',?_⟩,?_⟩
      · rw [if_pos hs]
        exact hp2.inv
      · rw [if_pos hs]
        refine Recopy.updates ⟨hw1.sb,hw1.dinode,fun jp hj => ?_,?_⟩ fun j bn hj hne => ⟨?_,?_⟩
        · rw [edit_of_ne fs1 hj,hw1.others jp hj]
        · obtain ⟨d,hd⟩ := hw1.self
          exact ⟨{d with size := off'},by rw [edit_self,hd]⟩
        · rw [hocc]
          exact hkept _ hne
        · exact hdata j bn hj hne
      · rw [if_pos hs,iupdate_itable,edit_self,ha]
      · rw [if_pos hs,hocc]
        exact hkept
    · refine ⟨_,tot,rfl,?_,?_,⟨a,(fs.itable ip).copy.size,?_⟩,?_⟩
      · rw [if_neg hs]
        exact hp1.inv
      · grind [hw1.toRecopy.updates]
      · rw [if_neg hs,iupdate_itable,ha]
      · grind

lemma writei_spec (h : InodeInv fs own) (hip : 0<own ip) (hv : (fs.itable ip).valid=true)
    (src : List UInt8) (off n : ℕ) :
    ∃ fs' r,writei fs ip src off n=.next (fs',r) ∧ InodeInv fs' own ∧ Updates fs fs' ip ∧
      ∃ a size,(fs'.itable ip).copy={(fs.itable ip).copy with addrs := a,size := size} := by
  obtain ⟨fs',r,hrun,h',hu,hc,-⟩ := writei_full h hip hv src off n
  exact ⟨fs',r,hrun,h',hu,hc⟩

lemma bfree_held (hO : Owns lo hi O fs.bitmap) {q : ℕ×Place} (hq : O q≠0) :
    bfree fs (O q)=.next (fs.unmark (O q)) := by
  rw [bfree,if_pos (hO.used_of_held hq)]

lemma freeDirect_spec (ks : List ℕ) (hks : ks.Nodup) (hO : Owns lo hi O fs.bitmap)
    (hk : ∀ k∈ks,O ((fs.itable ip).inum,.addr k)=(fs.itable ip).copy.addrs k) :
    ∃ fs',freeDirect ip ks fs=.next fs' ∧ Reshape fs fs' ip ∧ fs'.data=fs.data ∧
      Owns lo hi (wipe O (ks.map fun k => ((fs.itable ip).inum,.addr k))) fs'.bitmap ∧
      ∀ k,(fs'.itable ip).copy.addrs k=if k∈ks then 0 else (fs.itable ip).copy.addrs k := by
  induction ks generalizing fs O with
  | nil =>
    refine ⟨fs,rfl,.refl fs ip,rfl,?_,fun k => ?_⟩
    · rw [List.map_nil,wipe_nil]
      exact hO
    · rw [if_neg List.not_mem_nil]
  | cons k ks ih =>
    obtain ⟨hnot,hnd⟩ := List.nodup_cons.mp hks
    have hhead := hk k List.mem_cons_self
    rw [freeDirect]
    by_cases hz : (fs.itable ip).copy.addrs k=0
    · obtain ⟨fs',hrun,hr,hdata,hown,haddr⟩ := ih hnd hO fun k' hk' =>
        hk k' (List.mem_cons_of_mem _ hk')
      refine ⟨fs',by simpa only [if_pos hz] using hrun,hr,hdata,?_,fun k' => ?_⟩
      · rw [List.map_cons,wipe_cons_of_empty (hhead.trans hz)]
        exact hown
      · rw [haddr]
        by_cases hkk : k'=k
        · rw [hkk,hz,ite_self,ite_self]
        · simp only [List.mem_cons,hkk,false_or]
    · have hne : O ((fs.itable ip).inum,.addr k)≠0 := by
        rw [hhead]
        exact hz
      have hbf := bfree_held hO hne
      rw [hhead] at hbf
      set fs1 := fs.unmark ((fs.itable ip).copy.addrs k)
      have hr1 : Reshape fs (fs1.edit ip fun d => d.setAddr k 0) ip :=
        ⟨⟨rfl,rfl,fun jp hj => edit_of_ne _ hj _,⟨_,edit_self _ _ _⟩⟩,
          ⟨update (fs.itable ip).copy.addrs k 0,by rw [edit_self]; rfl⟩⟩
      have haddr1 : ((fs1.edit ip fun d => d.setAddr k 0).itable ip).copy.addrs=
          update (fs.itable ip).copy.addrs k 0 := by
        rw [edit_self]
        rfl
      have hO1 := hO.clear hne
      rw [hhead] at hO1
      obtain ⟨fs',hrun,hr,hdata,hown,haddr⟩ := @ih (fs1.edit ip fun d => d.setAddr k 0) _ hnd hO1
        fun k' hk' => by
          have hkk : k'≠k := by grind
          rw [hr1.inum,haddr1,update_of_ne hkk,update_of_ne]
          · exact hk k' (List.mem_cons_of_mem _ hk')
          · grind
      refine ⟨fs',?_,hr1.trans hr,hdata,?_,fun k' => ?_⟩
      · simp only [if_neg hz,hbf]
        exact hrun
      · rw [hr1.inum] at hown
        rw [List.map_cons,wipe_cons]
        exact hown
      · rw [haddr,haddr1]
        grind

lemma freeEntries_spec (a : Block) (i : ℕ) (js : List ℕ) (hjs : js.Nodup)
    (hO : Owns lo hi O fs.bitmap) (hj : ∀ j∈js,O (i,.entry j)=word a j) :
    ∃ bm,freeEntries a js fs=.next {fs with bitmap := bm} ∧
      Owns lo hi (wipe O (js.map fun j => (i,.entry j))) bm := by
  induction js generalizing fs O with
  | nil =>
    refine ⟨fs.bitmap,rfl,?_⟩
    rw [List.map_nil,wipe_nil]
    exact hO
  | cons j js ih =>
    obtain ⟨hnot,hnd⟩ := List.nodup_cons.mp hjs
    have hhead := hj j List.mem_cons_self
    rw [freeEntries]
    by_cases hz : word a j=0
    · obtain ⟨bm,hrun,hown⟩ := ih hnd hO fun k hk => hj k (List.mem_cons_of_mem _ hk)
      refine ⟨bm,by rw [if_pos hz,hrun],?_⟩
      rw [List.map_cons,wipe_cons_of_empty (hhead.trans hz)]
      exact hown
    · have hne : O (i,.entry j)≠0 := by
        rw [hhead]
        exact hz
      have hbf := bfree_held hO hne
      have hO1 := hO.clear hne
      rw [hhead] at hbf hO1
      obtain ⟨bm,hrun,hown⟩ := @ih (fs.unmark (word a j)) _ hnd hO1 fun k hk => by
        grind
      refine ⟨bm,?_,?_⟩
      · rw [if_neg hz,hbf]
        exact hrun
      · rw [List.map_cons,wipe_cons]
        exact hown

/-- The places that belong to the indirect block: its entries and its address. -/
def indirectPlaces (i : ℕ) : List (ℕ×Place) :=
  (i,.addr ndirect)::(List.range nindirect).map fun j => (i,.entry j)

lemma freeIndirect_spec (hO : Owns lo hi O fs.bitmap)
    (hq : ∀ q∈indirectPlaces (fs.itable ip).inum,O q=blockAt fs.data (fs.itable ip).copy q.2) :
    ∃ fs',freeIndirect fs ip=.next fs' ∧ Reshape fs fs' ip ∧ fs'.data=fs.data ∧
      Owns lo hi (wipe O (indirectPlaces (fs.itable ip).inum)) fs'.bitmap ∧
      ∀ k,(fs'.itable ip).copy.addrs k=if k=ndirect then 0 else (fs.itable ip).copy.addrs k := by
  have haddr : O ((fs.itable ip).inum,.addr ndirect)=(fs.itable ip).copy.addrs ndirect := by
    rw [hq _ List.mem_cons_self,blockAt,if_pos le_rfl]
  rw [freeIndirect]
  by_cases hz : (fs.itable ip).copy.addrs ndirect=0
  · rw [if_pos hz]
    refine ⟨fs,rfl,.refl fs ip,rfl,?_,fun k => ?_⟩
    · rw [wipe_of_empty]
      · exact hO
      · intro q hmem
        rw [hq q hmem]
        rcases List.mem_cons.mp hmem with rfl | hmem
        · rw [blockAt,if_pos le_rfl,hz]
        · grind [blockAt]
    · grind
  · rw [if_neg hz]
    have hne : O ((fs.itable ip).inum,.addr ndirect)≠0 := by grind
    obtain ⟨bm,hrun,hown⟩ := freeEntries_spec (fs.data ((fs.itable ip).copy.addrs ndirect))
      (fs.itable ip).inum (List.range nindirect) List.nodup_range hO fun j hj => by
        rw [hq _ (List.mem_cons_of_mem _ (List.mem_map_of_mem hj)),blockAt,
          if_pos ⟨List.mem_range.mp hj,hz⟩]
    have hlast : wipe O ((List.range nindirect).map fun j => ((fs.itable ip).inum,.entry j))
        ((fs.itable ip).inum,.addr ndirect)=(fs.itable ip).copy.addrs ndirect := by
      rw [wipe,if_neg,haddr]
      simp only [List.mem_map,Prod.mk.injEq,reduceCtorEq,and_false,exists_false,not_false_eq_true]
    have hbf := @bfree_held {fs with bitmap := bm} _ _ _ hown
      ((fs.itable ip).inum,.addr ndirect) (by rw [hlast]; exact hz)
    have hclear := hown.clear (p:=((fs.itable ip).inum,.addr ndirect)) (by rw [hlast]; exact hz)
    rw [hlast] at hbf hclear
    set fs1 := Fs.unmark {fs with bitmap := bm} ((fs.itable ip).copy.addrs ndirect)
    refine ⟨fs1.edit ip fun d => d.setAddr ndirect 0,?_,
      ⟨⟨rfl,rfl,fun jp hj => edit_of_ne fs1 hj _,⟨_,edit_self fs1 ip _⟩⟩,
        ⟨update (fs.itable ip).copy.addrs ndirect 0,by rw [edit_self]; rfl⟩⟩,rfl,?_,
      fun k => ?_⟩
    · rw [hrun,next_bind,hbf,next_bind]
      rfl
    · rw [indirectPlaces,wipe_cons_last]
      exact hclear
    · rw [edit_self]
      simp only [Dinode.setAddr]
      by_cases hk : k=ndirect
      · rw [hk,update_self,if_pos rfl]
      · rw [update_of_ne hk,if_neg hk]
        rfl

lemma itrunc_spec (h : InodeInv fs own) (hip : 0<own ip) (hv : (fs.itable ip).valid=true) :
    ∃ fs',itrunc fs ip=.next fs' ∧ InodeInv fs' own ∧ Updates fs fs' ip ∧ fs'.data=fs.data ∧
      (∃ a,(fs'.itable ip).copy={(fs.itable ip).copy with addrs := a,size := 0}) ∧
      ∀ p,blockAt fs'.data (fs'.itable ip).copy p=0 := by
  have hp := h.pending hip hv
  have hclean := iupdate_eq_self (h.loaded ip hip hv).1
  have hocc : ∀ p,occ fs ((fs.itable ip).inum,p)=blockAt fs.data (fs.itable ip).copy p := by
    intro p
    rw [←occ_self fs ip hp.allocated,hclean]
  obtain ⟨fs1,hrun1,hr1,hdata1,hown1,haddr1⟩ := freeDirect_spec (List.range ndirect)
    List.nodup_range h.owns fun k hk => by
      have hk' := List.mem_range.mp hk
      rw [hocc,blockAt,if_pos (by omega)]
  have hind : (fs1.itable ip).copy.addrs ndirect=(fs.itable ip).copy.addrs ndirect := by grind
  obtain ⟨fs2,hrun2,hr2,hdata2,hown2,haddr2⟩ := @freeIndirect_spec fs1 ip _ _ _ hown1
    fun q hq => by
      rw [hr1.inum] at hq
      have hnot : q∉(List.range ndirect).map fun k => ((fs.itable ip).inum,Place.addr k) := by
        intro hc
        obtain ⟨k,hk,rfl⟩ := List.mem_map.mp hc
        have hk' := List.mem_range.mp hk
        simp only [indirectPlaces,List.mem_cons,Prod.mk.injEq,Place.addr.injEq,true_and,
          List.mem_map,reduceCtorEq,and_false,exists_false,or_false] at hq
        omega
      rw [wipe,if_neg hnot,hdata1]
      rcases List.mem_cons.mp hq with rfl | hmem
      · rw [hocc,blockAt,blockAt,hind]
      · obtain ⟨j,-,rfl⟩ := List.mem_map.mp hmem
        rw [hocc,blockAt,blockAt,hind]
  have hr := hr1.trans hr2
  have hzero : ∀ k,k≤ndirect→(fs2.itable ip).copy.addrs k=0 := by grind
  have hblock : ∀ p,blockAt fs2.data {(fs2.itable ip).copy with size := 0} p=0 := by
    intro p
    cases p with
    | addr k =>
      grind [blockAt]
    | entry j =>
      grind [blockAt]
  obtain ⟨a,ha⟩ := hr.fields
  have hrc : Recopy fs (fs2.edit ip fun d => {d with size := 0}) ip := by
    obtain ⟨d,hd⟩ := hr.self
    exact ⟨hr.sb,hr.dinode,fun jp hj => (edit_of_ne fs2 hj _).trans (hr.others jp hj),
      ⟨{d with size := 0},by rw [edit_self,hd]⟩⟩
  have hdata : fs2.data=fs.data := hdata2.trans hdata1
  have hother : ∀ j p,j≠(fs.itable ip).inum→
      occ (iupdate (fs2.edit ip fun d => {d with size := 0}) ip) (j,p)=occ fs (j,p) := by
    intro j p hj
    rw [occ_other hrc.dinode (hrc.inum ip) hj (fun _ _ => by rw [edit_data,hdata]) p,hclean]
  have hself : ∀ p,occ (iupdate (fs2.edit ip fun d => {d with size := 0}) ip)
      ((fs.itable ip).inum,p)=0 := by
    intro p
    have hnew := occ_self (fs2.edit ip fun d => {d with size := 0}) ip
      (by rw [edit_self]; show (fs2.itable ip).copy.type≠_; rw [hr.type]; exact hp.allocated) p
    rw [hrc.inum,edit_self] at hnew
    exact hnew.trans (hblock p)
  refine ⟨iupdate (fs2.edit ip fun d => {d with size := 0}) ip,?_,
    (hp.recopy hrc ?_ ?_ (fun j bn hj hne => ?_) fun bn hbn => ?_).inv,
    hrc.updates fun j bn hj hne => ⟨hother j _ hj,congrFun hdata _⟩,hdata,⟨a,?_⟩,fun p => ?_⟩
  · rw [itrunc,hrun1,next_bind,hrun2,next_bind]
    rfl
  · rw [edit_self]
    show (fs2.itable ip).copy.type≠_
    rw [hr.type]
    exact hp.allocated
  · have hfinal : occ (iupdate (fs2.edit ip fun d => {d with size := 0}) ip)=
        wipe (wipe (occ fs) ((List.range ndirect).map fun k => ((fs.itable ip).inum,.addr k)))
          (indirectPlaces (fs.itable ip).inum) := by
      funext q
      obtain ⟨j,p⟩ := q
      by_cases hj : j=(fs.itable ip).inum
      · subst hj
        rw [hself,wipe]
        split_ifs with h1
        · rfl
        · rw [wipe]
          split_ifs with h2
          · rfl
          · rw [hocc]
            cases p with
            | addr k =>
              rw [blockAt,if_neg]
              intro hk
              by_cases hkd : k=ndirect
              · exact h1 (by rw [hkd]; exact List.mem_cons_self)
              · exact h2 (List.mem_map.mpr ⟨k,List.mem_range.mpr (by omega),rfl⟩)
            | entry e =>
              rw [blockAt,if_neg]
              rintro ⟨he,-⟩
              exact h1 (List.mem_cons_of_mem _ (List.mem_map.mpr ⟨e,List.mem_range.mpr he,rfl⟩))
      · have h1 : (j,p)∉indirectPlaces (fs.itable ip).inum := by
          simp only [indirectPlaces,List.mem_cons,Prod.mk.injEq,List.mem_map,not_or,not_and,
            not_exists]
          exact ⟨fun hc => absurd hc hj,fun _ _ hc => absurd hc.symm hj⟩
        have h2 : (j,p)∉(List.range ndirect).map fun k => ((fs.itable ip).inum,Place.addr k) := by
          simp only [List.mem_map,Prod.mk.injEq,not_and,not_exists]
          exact fun _ _ hc => absurd hc.symm hj
        rw [hother j p hj,wipe,if_neg h1,wipe,if_neg h2]
    rw [hfinal]
    rw [hr1.inum] at hown2
    exact hown2
  · rw [hclean] at hne
    rw [hother j _ hj]
    exact hne
  · rw [edit_self] at hbn
    exact absurd hbn (Nat.not_lt_zero _)
  · rw [iupdate_itable,edit_self,ha]
  · rw [iupdate_data,edit_data,iupdate_itable,edit_self]
    exact hblock p

end PendingFacts

end Xv6Riscv.BlockOwnership
