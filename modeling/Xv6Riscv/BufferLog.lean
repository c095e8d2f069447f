import Xv6Riscv.CacheCoherence
import Xv6Riscv.LogReservation

/-!
# The log on top of the buffer cache

Processes call bread, bwrite, brelse, bpin and bunpin as they like, change
the buffers they hold, and log_write them inside an operation. The last
end_op makes its process run commit, which is taken call by call: write_log,
write_head, install_trans and the second write_head are the same bread, bwrite
and brelse as everybody else's. Group commit lets no operation begin or write
in the meantime, so the log has one position here.

A process that has changed a buffer calls bwrite or log_write on it before
brelse, and undoes only bpins of its own.
-/

namespace Xv6Riscv.BufferLog

open Function
open Transition BufferCache CacheCoherence LogReservation
open LogMachine (Block LogHeader LogArea logSize maxOpBlocks absorbIndex recordBlock putHeader
  mkfsArea)

/-- Where the committing process is, with the buffers in its local variables. -/
inductive CommitPc where
  | start
  | logTo (tail : ℕ)
  | logFrom (tail dst : ℕ)
  | logCopy (tail dst src : ℕ)
  | logWrite (tail dst src : ℕ)
  | logRelFrom (tail dst src : ℕ)
  | logRelTo (tail dst : ℕ)
  | head (erase : Bool)
  | headFill (erase : Bool) (i : ℕ)
  | headWrite (erase : Bool) (i : ℕ)
  | headRel (erase : Bool) (i : ℕ)
  | insLog (tail : ℕ)
  | insHome (tail src : ℕ)
  | insCopy (tail src dst : ℕ)
  | insWrite (tail src dst : ℕ)
  | insUnpin (tail src dst : ℕ)
  | insRelLog (tail src dst : ℕ)
  | insRelHome (tail dst : ℕ)
  | finish
  deriving DecidableEq

/-- A bread of the committing process has returned this buffer. -/
def CommitPc.returned (i : ℕ) : CommitPc→ CommitPc
  | .logTo tail => .logFrom tail i
  | .logFrom tail dst => .logCopy tail dst i
  | .head erase => .headFill erase i
  | .insLog tail => .insHome tail i
  | .insHome tail src => .insCopy tail src i
  | pc => pc

/-- The number of entries that install_trans has unpinned. -/
def CommitPc.unpinned : CommitPc→ℕ
  | .insLog tail => tail
  | .insHome tail _ => tail
  | .insCopy tail _ _ => tail
  | .insWrite tail _ _ => tail
  | .insUnpin tail _ _ => tail
  | .insRelLog tail _ _ => tail+1
  | .insRelHome tail _ => tail+1
  | _ => 0

structure Sys where
  cache : Cache
  ops : List ℕ
  lh : LogHeader
  commit : Option (ℕ×CommitPc)

/-- The system after binit and initlog: nothing is logged. -/
def boot (disk : ℕ→Block) (block : Fin logSize→UInt32) : Sys :=
  ⟨binit disk,[],⟨0,block⟩,none⟩

def Sys.atPc (s : Sys) (q : ℕ) (c : Cache) (pc : CommitPc) : Sys :=
  {s with cache := c,commit := some (q,pc)}

def logBlock (g : LogArea) (tail : ℕ) : UInt32 := UInt32.ofNat (g.start+tail+1)

def commitCall (g : LogArea) (dev : UInt32) (s : Sys) (q : ℕ) : CommitPc→Outcome Sys
  | .start => .next (s.atPc q s.cache (if 0<s.lh.n then .logTo 0 else .finish))
  | .logTo tail =>
    if tail<s.lh.n then
      (bget s.cache q dev (logBlock g tail)).bind fun c => .next {s with cache := c}
    else .next (s.atPc q s.cache (.head false))
  | .logFrom tail _ =>
    (bget s.cache q dev (s.lh.blockAt tail)).bind fun c => .next {s with cache := c}
  | .logCopy tail dst src =>
    .next (s.atPc q (setData s.cache dst (s.cache.buf src).data) (.logWrite tail dst src))
  | .logWrite tail dst src =>
    (bwrite s.cache q dst).bind fun c => .next (s.atPc q c (.logRelFrom tail dst src))
  | .logRelFrom tail dst src =>
    (brelse s.cache q src).bind fun c => .next (s.atPc q c (.logRelTo tail dst))
  | .logRelTo tail dst =>
    (brelse s.cache q dst).bind fun c => .next (s.atPc q c (.logTo (tail+1)))
  | .head _ =>
    (bget s.cache q dev (UInt32.ofNat g.start)).bind fun c => .next {s with cache := c}
  | .headFill erase i =>
    .next (s.atPc q (setData s.cache i (putHeader (s.cache.buf i).data s.lh)) (.headWrite erase i))
  | .headWrite erase i =>
    (bwrite s.cache q i).bind fun c => .next (s.atPc q c (.headRel erase i))
  | .headRel erase i =>
    (brelse s.cache q i).bind fun c =>
      .next (s.atPc q c (if erase then .finish else .insLog 0))
  | .insLog tail =>
    if tail<s.lh.n then
      (bget s.cache q dev (logBlock g tail)).bind fun c => .next {s with cache := c}
    else .next {s with lh := {s.lh with n := 0},commit := some (q,.head true)}
  | .insHome tail _ =>
    (bget s.cache q dev (s.lh.blockAt tail)).bind fun c => .next {s with cache := c}
  | .insCopy tail src dst =>
    .next (s.atPc q (setData s.cache dst (s.cache.buf src).data) (.insWrite tail src dst))
  | .insWrite tail src dst =>
    (bwrite s.cache q dst).bind fun c => .next (s.atPc q c (.insUnpin tail src dst))
  | .insUnpin tail src dst => .next (s.atPc q (bunpin s.cache dst) (.insRelLog tail src dst))
  | .insRelLog tail src dst =>
    (brelse s.cache q src).bind fun c => .next (s.atPc q c (.insRelHome tail dst))
  | .insRelHome tail dst =>
    (brelse s.cache q dst).bind fun c => .next (s.atPc q c (.insLog (tail+1)))
  | .finish => .next {s with commit := none}

inductive BufAction where
  | go
  | bread (dev blockno : UInt32)
  | modify (i : ℕ) (data : Block)
  | bwrite (i : ℕ)
  | brelse (i : ℕ)
  | bpin (i : ℕ)
  | bunpin (i : ℕ)
  | beginOp
  | logWrite (i : ℕ)
  | endOp
  | commit

def Sys.committing (s : Sys) (p : ℕ) : Bool :=
  match s.commit with
  | some (q,_) => q=p
  | none => false

def Sys.free (s : Sys) (p : ℕ) : Bool :=
  p<nproc && s.cache.task p==.idle && !s.committing p

/-- log_write of buffer i: the header takes its block, and a block that was
not listed pins the buffer. -/
def logWrite (g : LogArea) (s : Sys) (i : ℕ) : Outcome Sys :=
  let b := (s.cache.buf i).blockno
  if s.lh.n≥logSize ∨ s.lh.n+1≥g.size then .panic "too big a transaction"
  else if s.ops.length<1 then .panic "log_write outside of trans"
  else
    let c := if absorbIndex s.lh b s.lh.n 0=s.lh.n then bpin s.cache i else s.cache
    .next {s with cache := {c with dirty := update c.dirty i false}
                  lh := recordBlock s.lh b}

/-- Where the commit code is after a process went on inside bread. -/
def Sys.advance (s : Sys) (p : ℕ) : Option (ℕ×CommitPc) :=
  match s.commit,s.cache.task p with
  | some (q,pc),.locked i => if q=p then some (q,pc.returned i) else some (q,pc)
  | commit,_ => commit

def bufStep (g : LogArea) (dev : UInt32) (s : Sys) (act : ℕ×BufAction) : Outcome Sys :=
  let p := act.1
  match act.2 with
  | .go => (go s.cache p).bind fun c => .next {s with cache := c,commit := s.advance p}
  | .bread d b =>
    if s.free p then (bget s.cache p d b).bind fun c => .next {s with cache := c} else .blocked
  | .modify i data =>
    if s.free p ∧ s.cache.holder i=some p then .next {s with cache := setData s.cache i data}
    else .blocked
  | .bwrite i =>
    if s.free p then (bwrite s.cache p i).bind fun c => .next {s with cache := c} else .blocked
  | .brelse i =>
    if s.free p ∧ ¬(s.cache.holder i=some p ∧ s.cache.dirty i=true) then
      (brelse s.cache p i).bind fun c => .next {s with cache := c}
    else .blocked
  | .bpin i =>
    if s.free p ∧ s.cache.holder i=some p then
      .next {s with cache := {bpin s.cache i with
        pins := update s.cache.pins p
          (update (s.cache.pins p) i (s.cache.pins p i+1))}}
    else .blocked
  | .bunpin i =>
    if s.free p ∧ i<nbuf ∧ 0<s.cache.pins p i then
      .next {s with cache := {bunpin s.cache i with
        pins := update s.cache.pins p
          (update (s.cache.pins p) i (s.cache.pins p i-1))}}
    else .blocked
  | .beginOp =>
    if s.free p ∧ p∉s.ops then
      if s.commit.isSome then .blocked
      else if s.lh.n+(s.ops.length+1)*maxOpBlocks>logSize then .blocked
      else .next {s with ops := p::s.ops}
    else .blocked
  | .logWrite i =>
    if s.free p ∧ p∈s.ops ∧ s.cache.holder i=some p then logWrite g s i else .blocked
  | .endOp =>
    if s.free p ∧ p∈s.ops then
      let ops := s.ops.erase p
      if s.commit.isSome then .panic "log.committing"
      else if ops.length=0 then .next {s with ops := ops,commit := some (p,.start)}
      else .next {s with ops := ops}
    else .blocked
  | .commit =>
    match s.commit with
    | some (q,pc) =>
      if q=p ∧ s.cache.task p=.idle then commitCall g dev s p pc else .blocked
    | none => .blocked

/-! ### Any devices -/

inductive Touches (c : Cache) : Cache→Prop where
  | bget {c' : Cache} {p : ℕ} {dev b : UInt32} : bget c p dev b=.next c'→ Touches c c'
  | go {c' : Cache} {p : ℕ} : go c p=.next c'→ Touches c c'
  | data (i : ℕ) (data : Block) : Touches c (setData c i data)
  | disk (disk : ℕ→Block) (dirty : ℕ→Bool) : Touches c {c with disk := disk,dirty := dirty}
  | release {c' : Cache} {p i : ℕ} : brelse c p i=.next c'→ Touches c c'
  | count (i n : ℕ) (pins : ℕ→ℕ→ℕ) (dirty : ℕ→Bool) :
      Touches c {c with buf := update c.buf i {c.buf i with refcnt := n}
                        pins := pins,dirty := dirty}

lemma Touches.refl (c : Cache) : Touches c c := .disk c.disk c.dirty

lemma Touches.bwrite {c c' : Cache} {p i : ℕ} (ht : BufferCache.bwrite c p i=.next c') :
    Touches c c' := by
  unfold BufferCache.bwrite at ht
  split_ifs at ht
  rw [Outcome.next.injEq] at ht
  exact ht ▸ .disk _ _

lemma touches_logWrite {g : LogArea} {s t : Sys} {i : ℕ} (ht : logWrite g s i=.next t) :
    Touches s.cache t.cache := by
  unfold logWrite at ht
  dsimp only at ht
  split_ifs at ht <;> rw [Outcome.next.injEq] at ht <;> rw [←ht]
  · exact .count i _ s.cache.pins _
  · exact .disk s.cache.disk _

lemma touches_commitCall {g : LogArea} {dev : UInt32} {s t : Sys} {q : ℕ} {pc : CommitPc}
    (ht : commitCall g dev s q pc=.next t) : Touches s.cache t.cache := by
  unfold commitCall at ht
  split at ht
  case h_1 => rw [Outcome.next.injEq] at ht; exact ht ▸ .refl _
  case h_19 => rw [Outcome.next.injEq] at ht; exact ht ▸ .refl _
  case h_4 | h_9 | h_14 => rw [Outcome.next.injEq] at ht; exact ht ▸ .data _ _
  case h_16 => rw [Outcome.next.injEq] at ht; exact ht ▸ .count _ _ _ _
  case h_2 | h_12 =>
    split_ifs at ht
    · obtain ⟨c,hc,ht⟩ := bind_eq_next.mp ht
      rw [Outcome.next.injEq] at ht
      exact ht ▸ .bget hc
    · rw [Outcome.next.injEq] at ht
      exact ht ▸ .refl _
  case h_3 | h_8 | h_13 =>
    obtain ⟨c,hc,ht⟩ := bind_eq_next.mp ht
    rw [Outcome.next.injEq] at ht
    exact ht ▸ .bget hc
  case h_5 | h_10 | h_15 =>
    obtain ⟨c,hc,ht⟩ := bind_eq_next.mp ht
    rw [Outcome.next.injEq] at ht
    exact ht ▸ .bwrite hc
  all_goals
    obtain ⟨c,hc,ht⟩ := bind_eq_next.mp ht
    rw [Outcome.next.injEq] at ht
    exact ht ▸ .release hc

lemma touches_step {g : LogArea} {dev : UInt32} {s t : Sys} {act : ℕ×BufAction}
    (ht : bufStep g dev s act=.next t) : Touches s.cache t.cache := by
  obtain ⟨p,act⟩ := act
  cases act with
  | go =>
    obtain ⟨c,hc,ht⟩ := bind_eq_next.mp ht
    rw [Outcome.next.injEq] at ht
    exact ht ▸ .go hc
  | bread d b =>
    simp only [bufStep] at ht
    split_ifs at ht
    obtain ⟨c,hc,ht⟩ := bind_eq_next.mp ht
    rw [Outcome.next.injEq] at ht
    exact ht ▸ .bget hc
  | modify i data =>
    simp only [bufStep] at ht
    split_ifs at ht
    rw [Outcome.next.injEq] at ht
    exact ht ▸ .data i data
  | bwrite i =>
    simp only [bufStep] at ht
    split_ifs at ht
    obtain ⟨c,hc,ht⟩ := bind_eq_next.mp ht
    rw [Outcome.next.injEq] at ht
    exact ht ▸ .bwrite hc
  | brelse i =>
    simp only [bufStep] at ht
    split_ifs at ht
    obtain ⟨c,hc,ht⟩ := bind_eq_next.mp ht
    rw [Outcome.next.injEq] at ht
    exact ht ▸ .release hc
  | bpin i | bunpin i =>
    simp only [bufStep] at ht
    split_ifs at ht
    rw [Outcome.next.injEq] at ht
    exact ht ▸ .count i _ _ _
  | beginOp =>
    simp only [bufStep] at ht
    split_ifs at ht
    rw [Outcome.next.injEq] at ht
    exact ht ▸ .refl _
  | logWrite i =>
    simp only [bufStep] at ht
    split_ifs at ht
    exact touches_logWrite ht
  | endOp =>
    simp only [bufStep] at ht
    split_ifs at ht <;> rw [Outcome.next.injEq] at ht <;> exact ht ▸ .refl _
  | commit =>
    simp only [bufStep] at ht
    split at ht
    · split_ifs at ht
      exact touches_commitCall ht
    · cases ht

lemma singleCopy_touches {c c' : Cache} (h : SingleCopy c) (ht : Touches c c') :
    SingleCopy c' := by
  cases ht with
  | bget hb => exact singleCopy_bget h hb
  | go hg => exact singleCopy_go h hg
  | data i data =>
    refine ⟨h.order,single_congr h.single fun j => key_update c.buf (i:=i) _ ?_ j,h.tasks,h.held⟩
    simp only [Buf.key]
  | disk disk dirty => exact ⟨h.order,h.single,h.tasks,h.held⟩
  | release hr => exact singleCopy_brelse h hr
  | count i n pins dirty => exact singleCopy_recount h n pins dirty

lemma touches_key {c c' : Cache} (ht : Touches c c') {i : ℕ} (hi : (c.buf i).refcnt≠0) :
    (c'.buf i).key=(c.buf i).key := by
  cases ht with
  | bget hb => exact bget_key hb hi
  | go hg => exact go_key hg i
  | data j data =>
    refine key_update c.buf (i:=j) _ ?_ i
    simp only [Buf.key]
  | disk disk dirty => rfl
  | release hr => exact congrArg Buf.key (congrFun (brelse_buf hr) i)
  | count j n pins dirty => exact (recount_fields c.buf j n i).1

end Xv6Riscv.BufferLog
