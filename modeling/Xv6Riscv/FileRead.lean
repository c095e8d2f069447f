import Xv6Riscv.ReadLoss
import Xv6Riscv.InodeLayer

/-!
# The count of a read

fileread of kernel/file.c over its three kinds of files. The count is an int in
sys_read, piperead and consoleread and an unsigned int in readi, so that a
negative count reaches readi as a large one. As in the copy loops, ok a says
whether copyout stores a byte at the user address a; mapped b says whether bmap
finds block b of the file.
-/

namespace Xv6Riscv.FileRead

open ReadLoss PipeMachine InodeLayer

/-- copyout of some bytes: it stores them in order and fails at the first
address where it cannot. -/
def copyout (ok : BitVec 64→Bool) : BitVec 64→List UInt8→List (BitVec 64×UInt8)×Bool
  | _,[] => ([],true)
  | dst,c::cs =>
    if ok dst then
      let r := copyout ok (dst+1) cs
      ((dst,c)::r.1,r.2)
    else ([],false)

/-- An inode with the offset of the open file. -/
structure OpenInode where
  /-- ip->size. -/
  size : BitVec 32
  /-- f->off. -/
  off : BitVec 32
  /-- The bytes of the file. -/
  content : ℕ→UInt8
  /-- Whether bmap finds the block. -/
  mapped : ℕ→Bool

/-- The loop of readi. -/
def readiLoop (f : OpenInode) (ok : BitVec 64→Bool) (n tot off : ℕ) (dst : BitVec 64) : Delivery :=
  if _h : tot<n then
    if f.mapped (off/bsize) then
      let m := min (n-tot) (bsize-off%bsize)
      let c := copyout ok dst ((List.range m).map fun k => f.content (off+k))
      if c.2 then
        let r := readiLoop f ok n (tot+m) (off+m) (dst+BitVec.ofNat 64 m)
        ⟨r.advance,c.1++r.stored,r.ret⟩
      else ⟨0,c.1,-1⟩
    else ⟨tot,[],tot⟩
  else ⟨tot,[],tot⟩
termination_by n-tot
decreasing_by
  have hmod := Nat.mod_lt off (by decide : 0<bsize)
  omega

/-- readi to a user address, with the count as an unsigned int. -/
def readi (f : OpenInode) (ok : BitVec 64→Bool) (dst : BitVec 64) (n : BitVec 32) : Delivery :=
  if f.size<f.off ∨ f.off+n<f.off then ⟨0,[],0⟩
  else
    let n := if f.size<f.off+n then f.size-f.off else n
    readiLoop f ok n.toNat 0 f.off.toNat dst

/-- The readable files. A device is the console, with the bytes that it finds. -/
inductive Readable where
  /-- FD_PIPE. -/
  | pipe (pi : Pipe)
  /-- FD_DEVICE. -/
  | device (bytes : List UInt8)
  /-- FD_INODE. -/
  | inode (f : OpenInode)

/-- fileread of a readable file. -/
def fileread (f : Readable) (ok : BitVec 64→Bool) (addr : BitVec 64) (n : BitVec 32) : Delivery :=
  match f with
  | .pipe pi => piperead pi ok addr n.toInt
  | .device bytes => consoleread ok addr n.toInt bytes
  | .inode f => readi f ok addr n

/-- The stores of a call are among the first count addresses of the range. -/
def Inside (addr : BitVec 64) (count : ℕ) (stored : List (BitVec 64×UInt8)) : Prop :=
  ∀ st∈stored,∃ k<count,st.1=addr+BitVec.ofNat 64 k

/-- The call returns -1 or at most the count, and stores only inside the count. -/
def Bounded (addr : BitVec 64) (n : ℤ) (o : Delivery) : Prop :=
  (o.ret=-1 ∨ 0≤o.ret ∧ o.ret≤ max n 0) ∧ Inside addr n.toNat o.stored

/-- A range that starts later and ends earlier. -/
lemma Inside.shift {addr : BitVec 64} {m count count' : ℕ} {stored : List (BitVec 64×UInt8)}
    (h : Inside (addr+BitVec.ofNat 64 m) count stored) (hle : m+count≤count') :
    Inside addr count' stored := by
  intro st hst
  obtain ⟨k,hk,heq⟩ := h st hst
  exact ⟨m+k,by omega,by rw [heq,BitVec.add_assoc,BitVec.ofNat_add]⟩

lemma copyout_inside (ok : BitVec 64→Bool) (dst : BitVec 64) (cs : List UInt8) :
    Inside dst cs.length (copyout ok dst cs).1 := by
  induction cs generalizing dst with
  | nil => exact nofun
  | cons c cs ih =>
    rw [copyout]
    dsimp only
    split_ifs
    · intro st hst
      rcases List.mem_cons.mp hst with rfl|hst
      · exact ⟨0,Nat.succ_pos _,by simp⟩
      · exact Inside.shift (m:=1) (ih (dst+1)) (by rw [List.length_cons]; omega) st hst
    · exact nofun

lemma readiLoop_bounded (f : OpenInode) (ok : BitVec 64→Bool) (n tot off : ℕ) (htot : tot≤n)
    (dst : BitVec 64) : ((readiLoop f ok n tot off dst).ret=-1 ∨
      0≤(readiLoop f ok n tot off dst).ret ∧ (readiLoop f ok n tot off dst).ret≤n) ∧
      Inside dst (n-tot) (readiLoop f ok n tot off dst).stored := by
  rw [readiLoop]
  split_ifs with hlt hmap
  · dsimp only
    have hmod := Nat.mod_lt off (by decide : 0<bsize)
    have hcopy := copyout_inside ok dst ((List.range (min (n-tot) (bsize-off%bsize))).map fun k =>
      f.content (off+k))
    rw [List.length_map,List.length_range] at hcopy
    split_ifs with hok
    · obtain ⟨hret,hin⟩ := readiLoop_bounded f ok n (tot+min (n-tot) (bsize-off%bsize))
        (off+min (n-tot) (bsize-off%bsize)) (by omega)
        (dst+BitVec.ofNat 64 (min (n-tot) (bsize-off%bsize)))
      refine ⟨hret,fun st hst => ?_⟩
      rcases List.mem_append.mp hst with hst|hst
      · obtain ⟨k,hk,heq⟩ := hcopy st hst
        exact ⟨k,by omega,heq⟩
      · exact hin.shift (by omega) st hst
    · refine ⟨.inl rfl,fun st hst => ?_⟩
      obtain ⟨k,hk,heq⟩ := hcopy st hst
      exact ⟨k,by omega,heq⟩
  · exact ⟨.inr ⟨Int.natCast_nonneg tot,Int.ofNat_le.mpr htot⟩,nofun⟩
  · exact ⟨.inr ⟨Int.natCast_nonneg tot,Int.ofNat_le.mpr htot⟩,nofun⟩
termination_by n-tot
decreasing_by omega

/-- If the first block is found and the first address can be stored to, the
loop stores there. -/
lemma readiLoop_stores (f : OpenInode) (ok : BitVec 64→Bool) (n off : ℕ) (hn : 0<n)
    (dst : BitVec 64) (hmap : f.mapped (off/bsize)=true) (hok : ok dst=true) :
    (dst,f.content off)∈(readiLoop f ok n 0 off dst).stored := by
  have hmod := Nat.mod_lt off (by decide : 0<bsize)
  obtain ⟨m,hm⟩ : ∃ m,min (n-0) (bsize-off%bsize)=m+1 :=
    Nat.exists_eq_add_one.mpr (by omega)
  have hfirst : (dst,f.content off)∈
      (copyout ok dst ((List.range (m+1)).map fun k => f.content (off+k))).1 := by
    rw [List.range_succ_eq_map,List.map_cons,copyout]
    dsimp only
    rw [if_pos hok]
    exact List.mem_cons_self
  rw [readiLoop,dif_pos hn,if_pos hmap]
  dsimp only
  rw [hm]
  split_ifs
  · exact List.mem_append_left _ hfirst
  · exact hfirst

/-- If it fails at the first address, or bmap finds no block, nothing is stored. -/
lemma readiLoop_nothing (f : OpenInode) (ok : BitVec 64→Bool) (n off : ℕ) (dst : BitVec 64)
    (h : f.mapped (off/bsize)=false ∨ ok dst=false) :
    ((readiLoop f ok n 0 off dst).ret=-1 ∨ (readiLoop f ok n 0 off dst).ret=0) ∧
      (readiLoop f ok n 0 off dst).stored=[] := by
  rw [readiLoop]
  split_ifs with hn hmap
  · have hok : ok dst=false := h.resolve_left (by rw [hmap]; nofun)
    have hmod := Nat.mod_lt off (by decide : 0<bsize)
    obtain ⟨m,hm⟩ : ∃ m,min (n-0) (bsize-off%bsize)=m+1 :=
      Nat.exists_eq_add_one.mpr (by omega)
    have hfail : copyout ok dst ((List.range (m+1)).map fun k => f.content (off+k))=([],false) := by
      rw [List.range_succ_eq_map,List.map_cons,copyout]
      dsimp only
      rw [hok]
      rfl
    dsimp only
    rw [hm,hfail]
    exact ⟨.inl rfl,rfl⟩
  · exact ⟨.inr rfl,rfl⟩
  · exact ⟨.inr rfl,rfl⟩

lemma pipereadLoop_inside (pi : Pipe) (ok : BitVec 64→Bool) (addr : BitVec 64) (left i : ℕ)
    (nread : BitVec 32) :
    Inside addr (i+left) (pipereadLoop pi ok addr left i nread).stored ∧
      (pipereadLoop pi ok addr left i nread).stored.length≤left := by
  induction left generalizing i nread with
  | zero => exact ⟨fun _ hst => absurd hst List.not_mem_nil,Nat.le_refl 0⟩
  | succ left ih =>
    rw [pipereadLoop]
    dsimp only
    split_ifs
    · exact ⟨fun _ hst => absurd hst List.not_mem_nil,Nat.zero_le _⟩
    · obtain ⟨hin,hlen⟩ := ih (i+1) (nread+1)
      refine ⟨fun st hst => ?_,Nat.succ_le_succ hlen⟩
      rcases List.mem_cons.mp hst with rfl|hst
      · exact ⟨i,by omega,rfl⟩
      · obtain ⟨k,hk,heq⟩ := hin st hst
        exact ⟨k,by omega,heq⟩
    · exact ⟨fun _ hst => absurd hst List.not_mem_nil,Nat.zero_le _⟩

lemma piperead_bounded (pi : Pipe) (ok : BitVec 64→Bool) (addr : BitVec 64) (n : ℤ) :
    Bounded addr n (piperead pi ok addr n) := by
  obtain ⟨hin,hlen⟩ := pipereadLoop_inside pi ok addr n.toNat 0 pi.nread
  have hret := pipereadLoop_ret pi ok addr n.toNat 0 pi.nread
  rw [Nat.zero_add] at hin
  refine ⟨.inr ?_,hin⟩
  rw [piperead,hret]
  omega

lemma consolereadLoop_inside (ok : BitVec 64→Bool) (target n : ℕ) (hn : n≤target)
    (dst : BitVec 64) (bytes : List UInt8) :
    ((consolereadLoop ok target n dst bytes).ret=-1 ∨
      0≤(consolereadLoop ok target n dst bytes).ret ∧
        (consolereadLoop ok target n dst bytes).ret≤target) ∧
      Inside dst n (consolereadLoop ok target n dst bytes).stored := by
  induction n generalizing dst bytes with
  | zero => exact ⟨.inr ⟨Int.natCast_nonneg _,Int.le_refl _⟩,fun _ hst => absurd hst List.not_mem_nil⟩
  | succ n ih =>
    cases bytes with
    | nil => exact ⟨.inl rfl,fun _ hst => absurd hst List.not_mem_nil⟩
    | cons c cs =>
      rw [consolereadLoop]
      split_ifs
      · exact ⟨.inr (by dsimp only; omega),fun _ hst => absurd hst List.not_mem_nil⟩
      · exact ⟨.inr (by dsimp only; omega),fun _ hst => absurd hst List.not_mem_nil⟩
      · refine ⟨.inr (by dsimp only; omega),fun st hst => ?_⟩
        rw [List.mem_singleton.mp hst]
        exact ⟨0,Nat.succ_pos n,by simp⟩
      · obtain ⟨hret,hin⟩ := ih (by omega) (dst+1) cs
        refine ⟨hret,fun st hst => ?_⟩
        rcases List.mem_cons.mp hst with rfl|hst
        · exact ⟨0,Nat.succ_pos n,by simp⟩
        · exact Inside.shift (m:=1) hin (by omega) st hst
      · exact ⟨.inr (by dsimp only; omega),fun _ hst => absurd hst List.not_mem_nil⟩

lemma consoleread_bounded (ok : BitVec 64→Bool) (dst : BitVec 64) (n : ℤ)
    (bytes : List UInt8) : Bounded dst n (consoleread ok dst n bytes) := by
  obtain ⟨hret,hin⟩ := consolereadLoop_inside ok n.toNat n.toNat (Nat.le_refl _) dst bytes
  exact ⟨hret.imp id fun h => ⟨h.1,h.2.trans (by omega)⟩,hin⟩

/-- When the count of a read is respected: always for pipes and the console;
for a file unless the count is negative, reaches below the start of the file
and finds a byte at the offset that can be stored. -/
def Respected (f : Readable) (ok : BitVec 64→Bool) (addr : BitVec 64) (n : ℤ) : Prop :=
  match f with
  | .pipe _ => True
  | .device _ => True
  | .inode f => 0≤n ∨ f.size≤f.off ∨ -n≤f.off.toNat ∨ f.mapped (f.off.toNat/bsize)=false ∨
      ok addr=false

lemma readi_bounded_iff (f : OpenInode) (ok : BitVec 64→Bool) (addr : BitVec 64)
    (n : BitVec 32) : Bounded addr n.toInt (readi f ok addr n) ↔
      Respected (.inode f) ok addr n.toInt := by
  have hoff := f.off.isLt
  have hsize := f.size.isLt
  have hn := n.isLt
  have hint : 2*n.toNat<2^32 ∧ n.toInt=n.toNat ∨ 2^32≤2*n.toNat ∧ n.toInt=n.toNat-2^32 := by
    have hcond := BitVec.toInt_eq_toNat_cond n
    split_ifs at hcond with hlt
    · exact .inl ⟨hlt,hcond⟩
    · exact .inr ⟨not_lt.mp hlt,hcond⟩
  have hadd : (f.off+n).toNat=(f.off.toNat+n.toNat)%2^32 := BitVec.toNat_add ..
  have hresp : Respected (.inode f) ok addr n.toInt ↔ 0≤n.toInt ∨ f.size.toNat≤f.off.toNat ∨
      -n.toInt≤f.off.toNat ∨ f.mapped (f.off.toNat/bsize)=false ∨ ok addr=false := Iff.rfl
  rw [hresp,readi]
  by_cases hearly : f.size<f.off ∨ f.off+n<f.off
  · rw [if_pos hearly]
    refine iff_of_true ⟨.inr ⟨le_refl _,le_max_right ..⟩,nofun⟩ ?_
    rw [BitVec.lt_def,BitVec.lt_def,hadd] at hearly
    omega
  rw [if_neg hearly]
  dsimp only
  rw [BitVec.lt_def,BitVec.lt_def,hadd,not_or,not_lt,not_lt] at hearly
  -- The count that the loop works with.
  generalize hclip : (if f.size<f.off+n then f.size-f.off else n)=k
  have hk : f.size.toNat<(f.off+n).toNat ∧ k.toNat=f.size.toNat-f.off.toNat ∨
      (f.off+n).toNat≤f.size.toNat ∧ k=n := by
    split_ifs at hclip with hlt
    · rw [←hclip]
      exact .inl ⟨hlt,BitVec.toNat_sub_of_le hearly.1⟩
    · exact .inr ⟨not_lt.mp hlt,hclip.symm⟩
  rw [hadd] at hk
  obtain ⟨hret,hin⟩ := readiLoop_bounded f ok k.toNat 0 f.off.toNat (Nat.zero_le _) addr
  have hsmall : k.toNat≤n.toInt.toNat→
      Bounded addr n.toInt (readiLoop f ok k.toNat 0 f.off.toNat addr) := by
    intro hle
    refine ⟨hret.imp id fun h => ⟨h.1,h.2.trans (by omega)⟩,fun st hst => ?_⟩
    obtain ⟨j,hj,heq⟩ := hin st hst
    exact ⟨j,by omega,heq⟩
  by_cases hpos : 0≤n.toInt
  · refine iff_of_true (hsmall ?_) (.inl hpos)
    rcases hk with ⟨hlt,hk⟩|⟨-,rfl⟩
    · omega
    · omega
  by_cases hend : f.size.toNat≤f.off.toNat
  · refine iff_of_true (hsmall ?_) (.inr (.inl hend))
    rcases hk with ⟨-,hk⟩|⟨hle,rfl⟩
    · omega
    · omega
  by_cases hstop : f.mapped (f.off.toNat/bsize)=false ∨ ok addr=false
  · obtain ⟨hret,hnone⟩ := readiLoop_nothing f ok k.toNat f.off.toNat addr hstop
    refine iff_of_true ⟨hret.imp id fun h => ?_,by rw [hnone]; nofun⟩ (.inr (.inr (.inr hstop)))
    rw [h]
    exact ⟨le_refl _,le_max_right ..⟩
  obtain ⟨hmap,hok⟩ := not_or.mp hstop
  have hk0 : 0<k.toNat := by
    rcases hk with ⟨-,hk⟩|⟨hle,rfl⟩
    · omega
    · omega
  have hmem := readiLoop_stores f ok k.toNat f.off.toNat hk0 addr
    (Bool.eq_true_of_not_eq_false hmap) (Bool.eq_true_of_not_eq_false hok)
  refine iff_of_false (fun hb => ?_) ?_
  · obtain ⟨j,hj,-⟩ := hb.2 _ hmem
    omega
  · rintro (h|h|h|h)
    · exact hpos h
    · exact hend h
    · rcases hint with hint|hint
      · omega
      · omega
    · exact hstop h

/-- A read respects its count exactly if the file is a pipe or the console, or
the count is not negative, or no byte of the file is delivered: the offset is
not below the size, the count does not reach below the start of the file, bmap
finds no block, or the first address cannot be stored to. -/
theorem fileread_bounded_iff (f : Readable) (ok : BitVec 64→Bool) (addr : BitVec 64)
    (n : BitVec 32) : Bounded addr n.toInt (fileread f ok addr n) ↔
      Respected f ok addr n.toInt := by
  cases f with
  | pipe pi => exact iff_of_true (piperead_bounded pi ok addr n.toInt) trivial
  | device bytes => exact iff_of_true (consoleread_bounded ok addr n.toInt bytes) trivial
  | inode f => exact readi_bounded_iff f ok addr n

/-- read(fd,addr,-1) at the start of a file of one byte returns 1 and stores
the byte. -/
theorem negative_count_reads_file :
    ¬Bounded 4096 (-1) (fileread (.inode ⟨1,0,fun _ => 7,fun _ => true⟩) (fun _ => true) 4096
      (-1)) := by
  have hmem := readiLoop_stores ⟨1,0,fun _ => 7,fun _ => true⟩ (fun _ => true) 1 0 Nat.one_pos 4096
    rfl rfl
  rintro ⟨-,hin⟩
  obtain ⟨k,hk,-⟩ := hin (4096,7) hmem
  exact absurd hk (Nat.not_lt_zero k)

end Xv6Riscv.FileRead
