import Xv6Riscv.Console
import Xv6Riscv.PipeMachine

/-!
# Bytes that a read consumes and bytes that it delivers

The copy loops of piperead and consoleread. Both take the byte out of the
buffer before they copy it to the user, and the copy can fail at any byte. The
outcome of each copy is an input: ok a says whether copyout stores a byte at
the user address a. consoleread may sleep between two bytes, so its input is
the sequence of bytes that it finds, one for each time it looks.
-/

namespace Xv6Riscv.ReadLoss

open Console PipeMachine

/-- What a call takes from the buffer, stores in user memory and returns. -/
structure Delivery where
  /-- By how much the read index advances. -/
  advance : ℕ
  /-- The stores, in order. -/
  stored : List (BitVec 64×UInt8)
  /-- The return value. -/
  ret : ℤ
  deriving DecidableEq

/-- The loop piperead-copy from index i on, with left=n-i. -/
def pipereadLoop (pi : Pipe) (ok : BitVec 64→Bool) (addr : BitVec 64) :
    ℕ→ℕ→BitVec 32→Delivery
  | 0,i,_ => ⟨0,[],i⟩
  | left+1,i,nread =>
    if nread=pi.nwrite then ⟨0,[],i⟩
    else
      let ch := pi.data (nread.toNat%pipesize)
      let a := addr+BitVec.ofNat 64 i
      if ok a then
        let r := pipereadLoop pi ok addr left (i+1) (nread+1)
        ⟨r.advance+1,(a,ch)::r.stored,r.ret⟩
      else ⟨1,[],i⟩

/-- piperead once the pipe is not empty or has no writer; n<0 copies nothing. -/
def piperead (pi : Pipe) (ok : BitVec 64→Bool) (addr : BitVec 64) (n : ℤ) : Delivery :=
  pipereadLoop pi ok addr n.toNat 0 pi.nread

/-- The loop of consoleread with n bytes to go, for the bytes that it finds. If
there is no further byte the process has been killed while it waited. -/
def consolereadLoop (ok : BitVec 64→Bool) (target : ℕ) : ℕ→BitVec 64→List UInt8→Delivery
  | 0,_,_ => ⟨0,[],target⟩
  | _+1,_,[] => ⟨0,[],-1⟩
  | n+1,dst,c::cs =>
    if c=ctrlD then
      -- cons.r-- undoes the step over the end of file unless the result is 0.
      if n+1<target then ⟨0,[],target-(n+1)⟩ else ⟨1,[],target-(n+1)⟩
    else if ok dst then
      if c=newline then ⟨1,[(dst,c)],target-n⟩
      else
        let r := consolereadLoop ok target n (dst+1) cs
        ⟨r.advance+1,(dst,c)::r.stored,r.ret⟩
    else ⟨1,[],target-(n+1)⟩

/-- consoleread; n≤0 reads nothing. -/
def consoleread (ok : BitVec 64→Bool) (dst : BitVec 64) (n : ℤ) (bytes : List UInt8) : Delivery :=
  consolereadLoop ok n.toNat n.toNat dst bytes

/-- The index advances by what is stored and returned. -/
def Lossless (o : Delivery) : Prop := o.advance=o.stored.length ∧ o.ret=o.stored.length

/-- The index advances by what is stored, or by one byte more for an end of
file with the result 0. -/
def ConsoleLossless (bytes : List UInt8) (o : Delivery) : Prop :=
  o.advance=o.stored.length ∨
    o.advance=o.stored.length+1 ∧ o.ret=0 ∧ bytes[o.stored.length]?=some ctrlD

/-- The number of bytes that the console has for the call: up to n, up to the
end of file, and up to the end of the line. -/
def available : ℕ→List UInt8→ℕ
  | 0,_ => 0
  | _+1,[] => 0
  | n+1,c::cs => if c=ctrlD then 0 else if c=newline then 1 else available n cs+1

/-- The first count bytes of the range can be stored. -/
def Storable (ok : BitVec 64→Bool) (addr : BitVec 64) (count : ℕ) : Prop :=
  ∀ k<count,ok (addr+BitVec.ofNat 64 k)=true

/-- The number of bytes in the pipe drops by one when the index advances. -/
lemma sub_succ {r w : BitVec 32} (h : r≠w) : (w-r).toNat=(w-(r+1)).toNat+1 := by
  have hne : r.toNat≠w.toNat := fun heq => h (BitVec.eq_of_toNat_eq heq)
  bv_omega

lemma pipereadLoop_ret (pi : Pipe) (ok : BitVec 64→Bool) (addr : BitVec 64) (left i : ℕ)
    (nread : BitVec 32) : (pipereadLoop pi ok addr left i nread).ret=
      i+(pipereadLoop pi ok addr left i nread).stored.length := by
  induction left generalizing i nread with
  | zero => simp [pipereadLoop]
  | succ left ih =>
    rw [pipereadLoop]
    dsimp only
    split_ifs
    · simp
    · rw [ih,List.length_cons]
      omega
    · simp

/-- The index advances by the stored bytes exactly if no copy fails. -/
lemma pipereadLoop_advance (pi : Pipe) (ok : BitVec 64→Bool) (addr : BitVec 64) (left i : ℕ)
    (nread : BitVec 32) :
    (pipereadLoop pi ok addr left i nread).advance=
        (pipereadLoop pi ok addr left i nread).stored.length ↔
      ∀ k< min left (pi.nwrite-nread).toNat,ok (addr+BitVec.ofNat 64 (i+k))=true := by
  induction left generalizing i nread with
  | zero => simp [pipereadLoop]
  | succ left ih =>
    rw [pipereadLoop]
    dsimp only
    split_ifs with hempty hok
    · simp [hempty]
    · rw [List.length_cons,Nat.add_right_cancel_iff,ih,sub_succ hempty,
        Nat.add_min_add_right,Nat.forall_lt_succ_left]
      simp only [Nat.add_zero,hok,true_and]
      refine forall₂_congr fun k _ => ?_
      rw [Nat.add_right_comm,Nat.add_assoc]
    · constructor
      · nofun
      · intro h
        have h0 := h 0 (by rw [sub_succ hempty]; omega)
        rw [Nat.add_zero] at h0
        exact absurd h0 hok

lemma piperead_lossless_iff (pi : Pipe) (ok : BitVec 64→Bool) (addr : BitVec 64) (n : ℤ) :
    Lossless (piperead pi ok addr n) ↔
      Storable ok addr (min n.toNat (pi.nwrite-pi.nread).toNat) := by
  have hret := pipereadLoop_ret pi ok addr n.toNat 0 pi.nread
  have hadv := pipereadLoop_advance pi ok addr n.toNat 0 pi.nread
  simp only [Nat.zero_add] at hadv
  rw [Lossless,Storable,piperead,hret,hadv]
  simp

lemma consolereadLoop_iff (ok : BitVec 64→Bool) (target n : ℕ) (hn : n≤target)
    (dst : BitVec 64) (bytes : List UInt8) :
    ConsoleLossless bytes (consolereadLoop ok target n dst bytes) ↔
      Storable ok dst (available n bytes) := by
  induction n generalizing dst bytes with
  | zero => simp [consolereadLoop,ConsoleLossless,available,Storable]
  | succ n ih =>
    cases bytes with
    | nil => simp [consolereadLoop,ConsoleLossless,available,Storable]
    | cons c cs =>
      rw [consolereadLoop,available]
      split_ifs with hd hlt hok hnl hnl
      · simp [ConsoleLossless,Storable]
      · have htarget : target=n+1 := by omega
        simp [ConsoleLossless,Storable,hd,htarget]
      · have hself : Storable ok dst 1 := by
          intro k hk
          obtain rfl : k=0 := by omega
          simpa using hok
        simp [ConsoleLossless,hself]
      · have hrest := ih (by omega) (dst+1) cs
        have hshift : Storable ok dst (available n cs+1) ↔ Storable ok (dst+1) (available n cs) := by
          rw [Storable,Storable,Nat.forall_lt_succ_left]
          simp only [BitVec.ofNat_eq_ofNat,BitVec.add_zero,hok,true_and]
          refine forall₂_congr fun k _ => ?_
          rw [Nat.add_comm k 1,BitVec.ofNat_add,BitVec.add_assoc]
        rw [hshift,←hrest]
        simp [ConsoleLossless]
      · have hone : ¬Storable ok dst 1 := fun h => hok (by simpa using h 0 Nat.one_pos)
        have hstart : (c::cs)[0]?≠some ctrlD := fun h => hd (Option.some.inj h)
        simp [ConsoleLossless,hone,hd]
      · have hone : ¬Storable ok dst (available n cs+1) :=
          fun h => hok (by simpa using h 0 (Nat.succ_pos _))
        simp [ConsoleLossless,hone,hd]

/-- A read loses nothing exactly if every byte that it would deliver can be
stored in user memory: for piperead the bytes of the pipe up to the count, for
consoleread the bytes up to the count, the end of the line or the end of file. -/
theorem read_lossless_iff_storable (pi : Pipe) (ok : BitVec 64→Bool) (addr : BitVec 64) (n : ℤ)
    (bytes : List UInt8) :
    (Lossless (piperead pi ok addr n) ↔
      Storable ok addr (min n.toNat (pi.nwrite-pi.nread).toNat)) ∧
    (ConsoleLossless bytes (consoleread ok addr n bytes) ↔
      Storable ok addr (available n.toNat bytes)) :=
  ⟨piperead_lossless_iff pi ok addr n,
    consolereadLoop_iff ok n.toNat n.toNat (Nat.le_refl _) addr bytes⟩

/-- A pipe that holds one byte and a read to an unmapped address: the byte is
gone, nothing is stored and the call returns 0. The console loses its byte in
the same way. -/
theorem read_to_unmapped_loses_byte :
    ¬Lossless (piperead {newPipe (fun _ => 0) with nwrite := 1} (fun _ => false) 0 1) ∧
    ¬ConsoleLossless [97] (consoleread (fun _ => false) 0 1 [97]) := by
  constructor
  · rintro ⟨hadvance,-⟩
    exact absurd hadvance (by decide)
  · rintro (hadvance|⟨-,-,hbyte⟩)
    · exact absurd hadvance (by decide)
    · exact absurd hbyte (by decide)

end Xv6Riscv.ReadLoss
