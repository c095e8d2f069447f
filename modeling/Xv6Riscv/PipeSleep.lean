import Xv6Riscv.LostWakeups
import Xv6Riscv.PipeMachine

/-!
# Who sleeps on a pipe

A reader sleeps while its pipe is empty and somebody may still write, and a
writer while it is full and somebody may still read. This fails in one way: a
writer that is killed after it has put bytes returns without waking readers.
If kill does not reach a writer there, no process sleeps past its condition.
-/

namespace Xv6Riscv.PipeSleep

open Transition SleepWakeup MonitorInvariants LostWakeups PipeMachine

/-- Readers wait for an empty pipe with a writer, writers for a full one with a
reader. -/
def pipeWaits (k : ℕ) (c : Chan) (x : Pipe) : Prop :=
  c=.nread k ∧ x.isEmpty=true ∧ x.writeopen=true ∨ c=.nwrite k ∧ x.isFull=true ∧ x.readopen=true

def pipeAsserts (x : Pipe) : Place→Prop
  | .writeLoop _ i mark => mark≤ i ∧ (mark< i→x.readopen=true)
  | .writePut _ i mark => mark≤ i ∧ x.readopen=true
  | .writeSleep _ _ => x.isFull=true ∧ x.readopen=true
  | .readEmpty _ => x.isEmpty=true ∧ x.writeopen=true
  | _ => True

def pipeDebt (k : ℕ) (c : Chan) : Place→Prop
  | .writeLoop _ i mark => mark< i ∧ c=.nread k
  | .writePut _ i mark => mark< i ∧ c=.nread k
  | .writeEnd _ _ => c=.nread k
  | .readLoop _ _ => c=.nwrite k
  | .readEnd _ => c=.nwrite k
  | .closeWake w => c=closeChan k w
  | _ => False

/-- Where a killed process does no harm: not in pipewrite if it may test killed
again, having put bytes since it last woke readers. After the last byte there is
no such test. -/
def harmless : Place→Bool
  | .writeLoop b i mark => mark< i→b.n≤ i
  | .writePut b i _ => b.n≤ i+1
  | _ => true

def pipeDiscipline : Discipline ℕ Chan Place Pipe where
  names k c := c=.nread k ∨ c=.nwrite k
  asserts _ l x := pipeAsserts x l
  waits k c _ x := pipeWaits k c x
  debt k l c := pipeDebt k c l
  safe _ l := harmless l=true

variable {x : Pipe} {k : ℕ} {c : Chan}

lemma harmless_loop {b : WriteArgs} {i mark : ℕ} (h : ¬mark< i) :
    harmless (.writeLoop b i mark)=true := decide_eq_true fun hc => absurd hc h

lemma pipeWaits_put (hf : x.isFull=false) (h : pipeWaits k c x) : c=.nread k := by
  rcases h with ⟨hc,_⟩ | ⟨_,hfull,_⟩
  · exact hc
  · grind

lemma pipeWaits_take (he : x.isEmpty=false) (h : pipeWaits k c x) : c=.nwrite k := by
  rcases h with ⟨_,hempty,_⟩ | ⟨hc,_⟩
  · grind
  · exact hc

lemma pipeWaits_close (w : Bool) (h : pipeWaits k c x) :
    pipeWaits k c (x.close w) ∨ c=closeChan k w := by
  rcases h with ⟨hc,hrest⟩ | ⟨hc,hrest⟩
  · cases w with
    | true => exact .inr hc
    | false => exact .inl (.inl ⟨hc,hrest⟩)
  · cases w with
    | true => exact .inl (.inr ⟨hc,hrest⟩)
    | false => exact .inr hc

lemma pipes_follow : Follows pipes pipeDiscipline := by
  refine ⟨fun k l he => ?_,fun k p b l x y l' hc hst => ?_,fun k p b l x c l' hc hst => ?_,
    fun k p b l x c l' hc hst => ?_,fun k p b l x hc hst c => ?_⟩
  · cases l with
    | writeLoop b i mark =>
      obtain ⟨rfl,rfl⟩ := of_decide_eq_true he
      exact ⟨harmless_loop (Nat.lt_irrefl 0),fun c hd => absurd hd.1 (Nat.lt_irrefl 0),
        fun x => ⟨Nat.le_refl 0,fun h0 => absurd h0 (Nat.lt_irrefl 0)⟩⟩
    | readWait _ | close _ => exact ⟨rfl,fun _ => id,fun _ => trivial⟩
    | _ => cases he
  · have hd := does_of_code hc
    have hass : pipeAsserts x l := hst.asserts
    have hsafe : b=true→harmless l=true := hst.safe
    cases hd with
    | @writeStop b' i mark hn hstop =>
      -- with a debt the pipe has a reader, and a killed process is not here
      have hno : ¬mark< i := by
        intro hlt
        rcases hstop with hro | hk
        · rw [hass.2 hlt] at hro
          cases hro
        · have hle := of_decide_eq_true (hsafe hk) hlt
          omega
      exact ⟨fun c l₀ hw => hw.imp id fun hdebt => absurd hdebt.1 hno,trivial,fun _ => rfl⟩
    | writeOn hn ho hk =>
      refine ⟨fun c l₀ hw => hw,⟨hass.1,ho⟩,fun hb => ?_⟩
      rw [hk] at hb
      cases hb
    | writeOut | writeFault => exact ⟨fun c l₀ hw => hw.imp id And.right,trivial,fun _ => rfl⟩
    | writeByte hf hs =>
      refine ⟨fun c l₀ hw => .inr ⟨Nat.lt_succ_of_le hass.1,?_⟩,
        ⟨Nat.le_succ_of_le hass.1,fun _ => hass.2⟩,
        fun hb => decide_eq_true fun _ => of_decide_eq_true (hsafe hb)⟩
      rcases hw with hw | hdebt
      · exact pipeWaits_put hf hw
      · exact hdebt.2
    | writeDone | readStart | readKilled =>
      exact ⟨fun c l₀ hw => hw.imp id False.elim,trivial,fun _ => rfl⟩
    | readWait he ho => exact ⟨fun c l₀ hw => hw.imp id False.elim,⟨he,ho⟩,fun _ => rfl⟩
    | readByte he | readFault hn he hr =>
      exact ⟨fun c l₀ hw => .inr (hw.elim (pipeWaits_take he) id),trivial,fun _ => rfl⟩
    | readStop => exact ⟨fun c l₀ hw => hw,trivial,fun _ => rfl⟩
    | close =>
      exact ⟨fun c l₀ hw => hw.elim (pipeWaits_close _) False.elim,trivial,fun _ => rfl⟩
  · have hd := does_of_code hc
    have hass : pipeAsserts x l := hst.asserts
    cases hd with
    | writeSleep =>
      exact ⟨.inr rfl,.inr ⟨rfl,hass⟩,fun c' => ⟨id,fun hc => absurd hc.1 (Nat.lt_irrefl _)⟩,
        fun y => ⟨⟨Nat.le_refl _,fun hc => absurd hc (Nat.lt_irrefl _)⟩,
          fun _ => harmless_loop (Nat.lt_irrefl _)⟩⟩
    | readSleep =>
      exact ⟨.inl rfl,.inl ⟨rfl,hass⟩,fun c' => ⟨id,id⟩,fun y => ⟨trivial,fun _ => rfl⟩⟩
  · have hd := does_of_code hc
    have hass : pipeAsserts x l := hst.asserts
    cases hd with
    | writeFull hf => exact ⟨fun c' hc => .inl hc.2,⟨hf,hass.2⟩,fun _ => rfl⟩
    | writeEnd | readEnd | closeWake => exact ⟨fun c' hc => .inl hc,trivial,fun _ => rfl⟩
  · have hd := does_of_code hc
    cases hd with
    | leave => exact id

variable {s : Threads ℕ Chan Place Pipe} {as : List (ℕ×Act ℕ Place)}

/-- kill does not mark a writer that has put bytes, or is about to put one, since it
last woke readers, and has more to put after that. -/
def mildKill (s : Threads ℕ Chan Place Pipe) (a : ℕ×Act ℕ Place) : Bool :=
  match s.pc a.1 with
  | .killing q => (place (s.pc q)).all fun e => harmless e.2
  | _ => true

lemma safeAt_of_harmless {pc : Pc ℕ Chan Place}
    (h : ((place pc).all fun e => harmless e.2)=true) : safeAt pipeDiscipline pc := by
  have hrest : ∀ r : Rest ℕ Place,((restPlace r).all fun e => harmless e.2)=true→
      restSafe pipeDiscipline r := by
    intro r hr
    cases r with
    | user => trivial
    | enter k l => exact hr
  cases pc with
  | rest r | yielding r | yielded r | resumed r => exact hrest r h
  | killing q => trivial
  | _ => exact h

lemma mildKill_guards (s : Threads ℕ Chan Place Pipe) (a : ℕ×Act ℕ Place)
    (h : mildKill s a=true) : MildKill pipeDiscipline s a := by
  intro _ q hq
  rw [mildKill,hq] at h
  exact safeAt_of_harmless h

/-- In every run in which kill does not mark a writer that has put bytes, has more to
put and has not woken readers yet: while pi->lock is free, a process that is SLEEPING on
&pi->nread has an empty pipe with a writer, and one on &pi->nwrite a full pipe
with a reader. -/
theorem pipe_sleepers_wait {junk : ℕ→ℕ→UInt8}
    (hg : Guarded (threadStep pipes) (fun s a => mildKill s a=true)
      (startThreads fun k => newPipe (junk k)) as)
    (hrun : run (threadStep pipes) (startThreads fun k => newPipe (junk k)) as=.next s) {k p : ℕ}
    (hlk : s.lk k=none) (hs : s.state p=.sleeping) :
    (s.chan p=some (.nread k)→(s.data k).nread=(s.data k).nwrite ∧ (s.data k).writeopen=true) ∧
    (s.chan p=some (.nwrite k)→
      (s.data k).nwrite=(s.data k).nread+BitVec.ofNat 32 pipesize ∧
        (s.data k).readopen=true) := by
  obtain ⟨k',c,l,-,hchan,hname,hw⟩ := 
    (run_noLost pipes_follow (hg.mono mildKill_guards) hrun).sleeper hs
  refine ⟨fun hc => ?_,fun hc => ?_⟩
  · rw [hchan] at hc
    cases hc
    have hk : k'=k := by
      rcases hname with h | h
      · exact (Chan.nread.inj h).symm
      · cases h
    rcases hw (by rw [hk]; exact hlk) with ⟨_,he,ho⟩ | ⟨h,_⟩
    · rw [hk] at he ho
      exact ⟨of_decide_eq_true he,ho⟩
    · cases h
  · rw [hchan] at hc
    cases hc
    have hk : k'=k := by
      rcases hname with h | h
      · cases h
      · exact (Chan.nwrite.inj h).symm
    rcases hw (by rw [hk]; exact hlk) with ⟨h,_⟩ | ⟨_,hf,ho⟩
    · cases h
    · rw [hk] at hf ho
      exact ⟨of_decide_eq_true hf,ho⟩

/-- A reader sleeps on an empty pipe, and a writer is killed before it has put a
byte. -/
def earlyKill : List (ℕ×Act ℕ Place) :=
  enter 1++[(1,.call 0 (.readWait ⟨1,1⟩))]++steps 1 5++[(1,.settle)]++
    enter 0++[(0,.call 0 (.writeLoop ⟨[7,8],2⟩ 0 0))]++steps 0 1++
    enter 2++[(2,.kill 0)]++steps 2 1++steps 0 2

theorem earlyKill_waits : ∃ s,
    run (threadStep pipes) (startThreads fun _ => newPipe fun _ => 0) earlyKill=.next s ∧
    s.lk 0=none ∧ s.state 1=.sleeping ∧ s.chan 1=some (.nread 0) ∧
    (s.data 0).nread=(s.data 0).nwrite := by
  obtain ⟨s,hrun,hobs⟩ := exists_of_state?
    (o:=run (threadStep pipes) (startThreads fun _ => newPipe fun _ => 0) earlyKill)
    (f:=fun s => (s.lk 0,s.state 1,s.chan 1)) (v:=(none,.sleeping,some (.nread 0)))
    (by decide +kernel)
  rw [Prod.mk.injEq,Prod.mk.injEq] at hobs
  obtain ⟨hlk,hst,hch⟩ := hobs
  have hwait := pipe_sleepers_wait
    (guarded_of_check (k:=mildKill) (fun _ _ h => h) (by decide +kernel)) hrun hlk hst
  exact ⟨s,hrun,hlk,hst,hch,(hwait.1 hch).1⟩

/-- A reader sleeps on an empty pipe. A writer puts the first of two bytes, is
killed, and returns -1. -/
def lateKill : List (ℕ×Act ℕ Place) :=
  enter 1++[(1,.call 0 (.readWait ⟨1,1⟩))]++steps 1 5++[(1,.settle)]++
    enter 0++[(0,.call 0 (.writeLoop ⟨[7,8],2⟩ 0 0))]++steps 0 3++
    enter 2++[(2,.kill 0)]++steps 2 1++steps 0 2

/-- The reader sleeps on, with a byte in the pipe and the lock free. -/
theorem lateKill_oversleeps : ∃ s,
    run (threadStep pipes) (startThreads fun _ => newPipe fun _ => 0) lateKill=.next s ∧
    s.lk 0=none ∧ s.state 1=.sleeping ∧ s.chan 1=some (.nread 0) ∧
    (s.data 0).nwrite-(s.data 0).nread=1 := by
  obtain ⟨s,hrun,hobs⟩ := exists_of_state?
    (o:=run (threadStep pipes) (startThreads fun _ => newPipe fun _ => 0) lateKill)
    (f:=fun s => (s.lk 0,s.state 1,s.chan 1,(s.data 0).nwrite-(s.data 0).nread))
    (v:=(none,.sleeping,some (.nread 0),1)) (by decide +kernel)
  grind

end Xv6Riscv.PipeSleep
