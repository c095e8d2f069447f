import Xv6Riscv.FileView
import Xv6Riscv.FileSyscalls

/-!
# The on-disk format of kernel/fs.h

How the structures of the file system lie in the bytes of a disk: integers
with their low byte first, sixteen inodes to a block, one bit for every block.
mkfs writes these bytes and the kernel reads them; what one of them encodes the
other one decodes. The functions of kernel/fs.c that find a structure on the
disk make up fsinit, which takes a disk to the image that the kernel works on.
-/

namespace Xv6Riscv.DiskFormat

open Transition InodeLayer BlockOwnership FileView FileSyscalls

def fsmagic : ℕ := 0x10203040

def dinodeSize : ℕ := 64

def ipb : ℕ := bsize/dinodeSize

def bpb : ℕ := bsize*8

def xshort (x : ℕ) : List UInt8 := [UInt8.ofNat x,UInt8.ofNat (x/256)]

def xint (x : ℕ) : List UInt8 :=
  [UInt8.ofNat x,UInt8.ofNat (x/256),UInt8.ofNat (x/256/256),UInt8.ofNat (x/256/256/256)]

def shortAt (bs : List UInt8) (o : ℕ) : ℕ := (bs.getD o 0).toNat+256*(bs.getD (o+1) 0).toNat

def intAt (bs : List UInt8) (o : ℕ) : ℕ :=
  (bs.getD o 0).toNat+256*((bs.getD (o+1) 0).toNat+256*((bs.getD (o+2) 0).toNat+
    256*(bs.getD (o+3) 0).toNat))

def typeNumber : FileType→ℕ
  | .free => 0
  | .dir => 1
  | .file => 2
  | .device => 3

/-- The type with a number. Other numbers are not written by anyone. -/
def typeOf (n : ℕ) : FileType :=
  if n=0 then .free else if n=1 then .dir else if n=2 then .file else .device

def unsigned (x : ℤ) : ℕ := (x%2^16).toNat

def Dinode.encode (d : Dinode) : List UInt8 :=
  xshort (typeNumber d.type)++xshort (unsigned d.major)++xshort (unsigned d.minor)++
    xshort (unsigned d.nlink)++xint d.size++(List.range (ndirect+1)).flatMap fun k => xint (d.addrs k)

def decodeDinode (bs : List UInt8) : Dinode where
  type := typeOf (shortAt bs 0)
  major := short (shortAt bs 2)
  minor := short (shortAt bs 4)
  nlink := short (shortAt bs 6)
  size := intAt bs 8
  addrs := fun k => if k≤ndirect then intAt bs (12+4*k) else 0

def dinodeIn (d : Block) (s : ℕ) : Dinode := decodeDinode (readBytes d (dinodeSize*s) dinodeSize)

def putDinode (d : Block) (s : ℕ) (din : Dinode) : Block :=
  writeBytes d (dinodeSize*s) (Dinode.encode din)

def bitAt (d : Block) (i : ℕ) : Bool := (d (i/8)).toNat&&&1<<<(i%8)≠0

def setBit (d : Block) (i : ℕ) : Block :=
  Function.update d (i/8) (UInt8.ofNat ((d (i/8)).toNat|||1<<<(i%8)))

/-- fsinit: the superblock is in block 1 and says where the inodes and the
bitmap are. -/
def fsinit (disk : ℕ→Block) : Outcome Image :=
  let sb := disk 1
  let inodestart := word sb 6
  let bmapstart := word sb 7
  if word sb 0≠fsmagic then .panic "invalid file system"
  else .next {
    sb := ⟨word sb 1,word sb 2,word sb 3⟩
    bitmap := fun b => bitAt (disk (b/bpb+bmapstart)) (b%bpb)
    dinode := fun i =>
      -- inode numbers whose block is not an inode block are not used
      if i/ipb+inodestart<bmapstart then dinodeIn (disk (i/ipb+inodestart)) (i%ipb)
      else .blank .free
    data := disk}

section RoundTrips

variable {d : Dinode}

/-- The fields of an inode have the width of their C types. -/
structure Fits (d : Dinode) : Prop where
  major : -2^15≤d.major ∧ d.major<2^15
  minor : -2^15≤d.minor ∧ d.minor<2^15
  nlink : -2^15≤d.nlink ∧ d.nlink<2^15
  size : d.size<2^32
  addrs : ∀ k,d.addrs k<2^32
  range : ∀ k,ndirect<k→d.addrs k=0

lemma typeOf_typeNumber (t : FileType) : typeOf (typeNumber t)=t := by
  cases t with
  | free | dir | file | device => rfl

lemma typeNumber_lt (t : FileType) : typeNumber t<65536 := by
  cases t with
  | free | dir | file | device => decide

lemma short_unsigned {x : ℤ} (h : -2^15≤x ∧ x<2^15) : short (unsigned x)=x := by
  grind [short,unsigned]

lemma unsigned_lt (x : ℤ) : unsigned x<65536 := by
  grind [unsigned]

lemma bytes_short {x : ℕ} (hx : x<65536) :
    (UInt8.ofNat x).toNat+256*(UInt8.ofNat (x/256)).toNat=x := by
  simp only [UInt8.toNat_ofNat']
  omega

lemma bytes_int {x : ℕ} (hx : x<2^32) :
    (UInt8.ofNat x).toNat+256*((UInt8.ofNat (x/256)).toNat+256*((UInt8.ofNat (x/256/256)).toNat+
      256*(UInt8.ofNat (x/256/256/256)).toNat))=x := by
  simp only [UInt8.toNat_ofNat']
  omega

lemma length_encode (d : Dinode) : (Dinode.encode d).length=dinodeSize := rfl

lemma intAt_encode (d : Dinode) {k : ℕ} (hk : k≤ndirect) (h : d.addrs k<2^32) :
    intAt (Dinode.encode d) (12+4*k)=d.addrs k := by
  rw [ndirect] at hk
  refine Eq.trans ?_ (bytes_int h)
  interval_cases k <;> rfl

lemma decode_encode_dinode (h : Fits d) : decodeDinode (Dinode.encode d)=d := by
  have htype : shortAt (Dinode.encode d) 0=typeNumber d.type := bytes_short (typeNumber_lt _)
  have hmajor : shortAt (Dinode.encode d) 2=unsigned d.major := bytes_short (unsigned_lt _)
  have hminor : shortAt (Dinode.encode d) 4=unsigned d.minor := bytes_short (unsigned_lt _)
  have hnlink : shortAt (Dinode.encode d) 6=unsigned d.nlink := bytes_short (unsigned_lt _)
  have hsize : intAt (Dinode.encode d) 8=d.size := bytes_int h.size
  have haddrs : (fun k => if k≤ndirect then intAt (Dinode.encode d) (12+4*k) else 0)=d.addrs := by
    funext k
    split
    · rename_i hk
      exact intAt_encode d hk (h.addrs k)
    · rename_i hk
      exact (h.range k (by omega)).symm
  rw [decodeDinode,htype,hmajor,hminor,hnlink,hsize,haddrs,typeOf_typeNumber,
    short_unsigned h.major,short_unsigned h.minor,short_unsigned h.nlink]

lemma intAt_lt (bs : List UInt8) (o : ℕ) : intAt bs o<2^32 := by
  have h0 := (bs.getD o 0).toNat_lt
  have h1 := (bs.getD (o+1) 0).toNat_lt
  have h2 := (bs.getD (o+2) 0).toNat_lt
  have h3 := (bs.getD (o+3) 0).toNat_lt
  simp only [intAt]
  omega

lemma short_range (x : ℤ) : -2^15≤ short x ∧ short x<2^15 := by
  rw [short]
  omega

lemma fits_decode (bs : List UInt8) : Fits (decodeDinode bs) := by
  refine ⟨short_range _,short_range _,short_range _,intAt_lt _ _,fun k => ?_,fun k hk => ?_⟩
  · grind [decodeDinode,intAt_lt]
  · grind [decodeDinode]

lemma dinodeIn_put (b : Block) (s : ℕ) (h : Fits d) : dinodeIn (putDinode b s d) s=d := by
  rw [dinodeIn,putDinode,←length_encode d,readBytes_writeBytes,decode_encode_dinode h]

lemma dinodeIn_put_of_ne (b : Block) {s t : ℕ} (hst : t≠s) (d : Dinode) :
    dinodeIn (putDinode b s d) t=dinodeIn b t := by
  rw [dinodeIn,putDinode,readBytes_outside,dinodeIn]
  rw [length_encode,dinodeSize]
  omega

lemma dinodeIn_zeros (s : ℕ) : dinodeIn zeros s=.blank .free := by
  have hbytes : readBytes zeros (dinodeSize*s) dinodeSize=List.replicate dinodeSize 0 := rfl
  have hzero : ∀ o,(List.replicate dinodeSize (0 : UInt8)).getD o 0=0 := by grind
  have hshort : ∀ o,shortAt (List.replicate dinodeSize 0) o=0 := by
    intro o
    rw [shortAt,hzero,hzero]
    rfl
  have hint : ∀ o,intAt (List.replicate dinodeSize 0) o=0 := by
    intro o
    rw [intAt,hzero,hzero,hzero,hzero]
    rfl
  rw [dinodeIn,hbytes]
  simp only [decodeDinode,hshort,hint,ite_self]
  rfl

end RoundTrips

lemma bitAt_iff (d : Block) (i : ℕ) : bitAt d i=(d (i/8)).toNat.testBit (i%8) := by
  rw [bitAt,Nat.one_shiftLeft,Nat.and_two_pow]
  cases (d (i/8)).toNat.testBit (i%8) with
  | false | true => simp

lemma bitAt_setBit (d : Block) (i j : ℕ) : bitAt (setBit d i) j=(decide (j=i) || bitAt d j) := by
  rw [bitAt_iff,bitAt_iff,setBit]
  by_cases hb : j/8=i/8
  · have hlt : (d (i/8)).toNat|||1<<<(i%8)<2^8 := by
      refine Nat.or_lt_two_pow (d (i/8)).toNat_lt ?_
      rw [Nat.one_shiftLeft]
      exact Nat.pow_lt_pow_right (by decide) (Nat.mod_lt i (by decide))
    rw [hb,Function.update_self,UInt8.toNat_ofNat',Nat.mod_eq_of_lt hlt,Nat.testBit_or,
      Nat.one_shiftLeft,Nat.testBit_two_pow,Bool.or_comm]
    congr 1
    rw [decide_eq_decide]
    omega
  · rw [Function.update_of_ne hb]
    have hne : j≠i := fun h => hb (by rw [h])
    simp only [hne,decide_false,Bool.false_or]

lemma bitAt_zeros (i : ℕ) : bitAt zeros i=false := by
  rw [bitAt_iff]
  exact Nat.zero_testBit _

end Xv6Riscv.DiskFormat
