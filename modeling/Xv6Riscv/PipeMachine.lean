import Xv6Riscv.MonitorInvariants
import Xv6Riscv.RingBuffer

/-!
# The pipes of kernel/pipe.c

pipewrite, piperead and pipeclose are code under pi->lock that sleeps and
wakes others up, for any number of pipes. A user buffer is given by how much of
it copyin can read, or copyout can write. Besides the fields of struct pipe
there is specification state that no branch reads: the bytes accepted, taken
and delivered so far, and for each process the bytes that its finished calls of
pipewrite have put into the pipe.

A pipe is a FIFO: with valid buffers the bytes delivered are a prefix of those
accepted, in spite of counters that wrap around.
-/

namespace Xv6Riscv.PipeMachine

open Function
open Transition SleepWakeup MonitorInvariants RingBuffer

def pipesize : ℕ := 512

/-- struct pipe without its lock. -/
structure Pipe where
  data : ℕ→UInt8
  nread : BitVec 32
  nwrite : BitVec 32
  readopen : Bool
  writeopen : Bool
  accepted : List (ℕ×UInt8)
  taken : List UInt8
  delivered : List UInt8
  given : ℕ→List UInt8

def newPipe (junk : ℕ→UInt8) : Pipe := ⟨junk,0,0,true,true,[],[],[],fun _ => []⟩

inductive Chan where
  | nread (k : ℕ)
  | nwrite (k : ℕ)
  deriving DecidableEq

structure WriteArgs where
  src : List UInt8
  n : ℤ

structure ReadArgs where
  room : ℕ
  n : ℤ

/-- Places in the code. In pipewrite mark is the value of i when readers were last
woken, which no branch reads. -/
inductive Place where
  | writeLoop (b : WriteArgs) (i mark : ℕ)
  | writePut (b : WriteArgs) (i mark : ℕ)
  | writeSleep (b : WriteArgs) (i : ℕ)
  | writeEnd (b : WriteArgs) (i : ℕ)
  | writeDone (b : WriteArgs) (i : ℕ)
  | readWait (b : ReadArgs)
  | readEmpty (b : ReadArgs)
  | readLoop (b : ReadArgs) (i : ℕ)
  | readEnd (i : ℕ)
  | close (writable : Bool)
  | closeWake (writable : Bool)
  | leave (r : ℤ)

def Pipe.isEmpty (x : Pipe) : Bool := x.nread=x.nwrite

def Pipe.isFull (x : Pipe) : Bool := x.nwrite=x.nread+BitVec.ofNat 32 pipesize

def Pipe.put (x : Pipe) (p : ℕ) (ch : UInt8) : Pipe :=
  {x with
    data := update x.data (x.nwrite.toNat%pipesize) ch
    nwrite := x.nwrite+1
    accepted := x.accepted++[(p,ch)]}

def Pipe.next (x : Pipe) : UInt8 := x.data (x.nread.toNat%pipesize)

def Pipe.take (x : Pipe) (copied : Bool) : Pipe :=
  {x with
    nread := x.nread+1
    taken := x.taken++[x.next]
    delivered := x.delivered++(if copied then [x.next] else [])}

def Pipe.finish (x : Pipe) (p : ℕ) (b : WriteArgs) (i : ℕ) : Pipe :=
  {x with given := update x.given p (x.given p++b.src.take i)}

def Pipe.close (x : Pipe) (writable : Bool) : Pipe :=
  if writable then {x with writeopen := false} else {x with readopen := false}

def closeChan (k : ℕ) (writable : Bool) : Chan := if writable then .nread k else .nwrite k

/-- The code of pipewrite, piperead and pipeclose under pi->lock. -/
def pipeCode (k p : ℕ) (killed : Bool) (l : Place) (x : Pipe) : Cmd Chan Place Pipe :=
  match l with
  | .writeLoop b i mark =>
    if (i : ℤ)<b.n then
      if x.readopen=false ∨ killed then .step (x.finish p b i) (.leave (-1))
      else .step x (.writePut b i mark)
    else .step x (.writeEnd b i)
  | .writePut b i mark =>
    if x.isFull then .wakeup (.nread k) (.writeSleep b i)
    else
      match b.src[i]? with
      | none => .step x (.writeEnd b i)
      | some ch => .step (x.put p ch) (.writeLoop b (i+1) mark)
  | .writeSleep b i => .sleep (.nwrite k) (.writeLoop b i i)
  | .writeEnd b i => .wakeup (.nread k) (.writeDone b i)
  | .writeDone b i => .step (x.finish p b i) (.leave i)
  | .readWait b => .step x (if x.isEmpty ∧ x.writeopen then .readEmpty b else .readLoop b 0)
  | .readEmpty b =>
    if killed then .step x (.leave (-1)) else .sleep (.nread k) (.readWait b)
  | .readLoop b i =>
    if (i : ℤ)<b.n ∧ x.isEmpty=false then
      if i<b.room then .step (x.take true) (.readLoop b (i+1)) else .step (x.take false) (.readEnd i)
    else .step x (.readEnd i)
  | .readEnd i => .wakeup (.nwrite k) (.leave i)
  | .close writable => .step (x.close writable) (.closeWake writable)
  | .closeWake writable => .wakeup (closeChan k writable) (.leave 0)
  | .leave _ => .release

def pipeEntry : Place→Bool
  | .writeLoop _ i mark => i=0 ∧ mark=0
  | .readWait _ => true
  | .close _ => true
  | _ => false

/-- The pipe code as a client of sleep and wakeup. -/
def pipes : Client ℕ Chan Place Pipe := ⟨fun _ => pipeEntry,pipeCode⟩

/-- What a place of the pipe code can do. -/
inductive Does (k p : ℕ) (killed : Bool) (x : Pipe) : Place→Cmd Chan Place Pipe→Prop where
  | writeStop {b : WriteArgs} {i mark : ℕ} (hn : (i : ℤ)<b.n) (h : x.readopen=false ∨ killed) :
      Does k p killed x (.writeLoop b i mark) (.step (x.finish p b i) (.leave (-1)))
  | writeOn {b : WriteArgs} {i mark : ℕ} (hn : (i : ℤ)<b.n) (ho : x.readopen=true)
      (hk : killed=false) : Does k p killed x (.writeLoop b i mark) (.step x (.writePut b i mark))
  | writeOut {b : WriteArgs} {i mark : ℕ} (hn : ¬(i : ℤ)<b.n) :
      Does k p killed x (.writeLoop b i mark) (.step x (.writeEnd b i))
  | writeFull {b : WriteArgs} {i mark : ℕ} (hf : x.isFull=true) :
      Does k p killed x (.writePut b i mark) (.wakeup (.nread k) (.writeSleep b i))
  | writeFault {b : WriteArgs} {i mark : ℕ} (hf : x.isFull=false) (hs : b.src[i]?=none) :
      Does k p killed x (.writePut b i mark) (.step x (.writeEnd b i))
  | writeByte {b : WriteArgs} {i mark : ℕ} {ch : UInt8} (hf : x.isFull=false)
      (hs : b.src[i]?=some ch) :
      Does k p killed x (.writePut b i mark) (.step (x.put p ch) (.writeLoop b (i+1) mark))
  | writeSleep {b : WriteArgs} {i : ℕ} :
      Does k p killed x (.writeSleep b i) (.sleep (.nwrite k) (.writeLoop b i i))
  | writeEnd {b : WriteArgs} {i : ℕ} :
      Does k p killed x (.writeEnd b i) (.wakeup (.nread k) (.writeDone b i))
  | writeDone {b : WriteArgs} {i : ℕ} :
      Does k p killed x (.writeDone b i) (.step (x.finish p b i) (.leave i))
  | readWait {b : ReadArgs} (he : x.isEmpty=true) (ho : x.writeopen=true) :
      Does k p killed x (.readWait b) (.step x (.readEmpty b))
  | readStart {b : ReadArgs} : Does k p killed x (.readWait b) (.step x (.readLoop b 0))
  | readKilled {b : ReadArgs} : Does k p killed x (.readEmpty b) (.step x (.leave (-1)))
  | readSleep {b : ReadArgs} : Does k p killed x (.readEmpty b) (.sleep (.nread k) (.readWait b))
  | readByte {b : ReadArgs} {i : ℕ} (he : x.isEmpty=false) :
      Does k p killed x (.readLoop b i) (.step (x.take true) (.readLoop b (i+1)))
  | readFault {b : ReadArgs} {i : ℕ} (hn : (i : ℤ)<b.n) (he : x.isEmpty=false)
      (hr : b.room≤ i) : Does k p killed x (.readLoop b i) (.step (x.take false) (.readEnd i))
  | readStop {b : ReadArgs} {i : ℕ} : Does k p killed x (.readLoop b i) (.step x (.readEnd i))
  | readEnd {i : ℕ} : Does k p killed x (.readEnd i) (.wakeup (.nwrite k) (.leave i))
  | close {w : Bool} : Does k p killed x (.close w) (.step (x.close w) (.closeWake w))
  | closeWake {w : Bool} : Does k p killed x (.closeWake w) (.wakeup (closeChan k w) (.leave 0))
  | leave {r : ℤ} : Does k p killed x (.leave r) .release

lemma pipeCode_does (k p : ℕ) (killed : Bool) (l : Place) (x : Pipe) :
    Does k p killed x l (pipeCode k p killed l x) := by
  cases l with
  | writeLoop b i mark =>
    simp only [pipeCode]
    split
    next hn =>
      split
      next h => exact .writeStop hn h
      next h =>
        push Not at h
        exact .writeOn hn (Bool.eq_true_of_not_eq_false h.1) (Bool.eq_false_of_not_eq_true h.2)
    next hn => exact .writeOut hn
  | writePut b i mark =>
    simp only [pipeCode]
    split
    next hf => exact .writeFull hf
    next hf =>
      split
      next hs => exact .writeFault (Bool.eq_false_of_not_eq_true hf) hs
      next ch hs => exact .writeByte (Bool.eq_false_of_not_eq_true hf) hs
  | writeSleep b i => exact .writeSleep
  | writeEnd b i => exact .writeEnd
  | writeDone b i => exact .writeDone
  | readWait b =>
    simp only [pipeCode]
    split
    next h => exact .readWait h.1 h.2
    next => exact .readStart
  | readEmpty b =>
    simp only [pipeCode]
    split
    next => exact .readKilled
    next => exact .readSleep
  | readLoop b i =>
    simp only [pipeCode]
    split
    next h =>
      split
      next => exact .readByte h.2
      next hr => exact .readFault h.1 h.2 (Nat.le_of_not_lt hr)
    next => exact .readStop
  | readEnd i => exact .readEnd
  | close w => exact .close
  | closeWake w => exact .closeWake
  | leave r => exact .leave

lemma does_of_code {k p : ℕ} {killed : Bool} {l : Place} {x : Pipe} {e : Cmd Chan Place Pipe}
    (h : pipeCode k p killed l x=e) : Does k p killed x l e :=
  h ▸ pipeCode_does k p killed l x

section Fifo

variable {x : Pipe} {p k : ℕ} {ch : UInt8}

/-- The ring holds the bytes accepted and not yet taken, and the counters have
counted them. -/
structure Ring (x : Pipe) (rest : List UInt8) : Prop where
  window : Window pipesize x.data x.taken.length rest
  order : x.accepted.map Prod.snd=x.taken++rest
  nread : Counts x.nread x.taken.length
  nwrite : Counts x.nwrite x.accepted.length

variable {rest : List UInt8}

variable (h : Ring x rest)

include h

lemma Ring.length :
    x.accepted.length=x.taken.length+rest.length := by grind [h.order,List.length_append]

lemma Ring.count : (x.nwrite-x.nread).toNat=rest.length := by
  have hroom : rest.length≤512 := h.window.room
  grind [h.length,h.nread.sub,h.nwrite]

lemma Ring.isEmpty_iff : x.isEmpty=true ↔ rest=[] := by
  have hroom : rest.length≤512 := h.window.room
  have hlen := h.length
  rw [Pipe.isEmpty,decide_eq_true_iff,eq_comm,h.nread.eq_iff h.nwrite (by omega) (by omega),
    ←List.length_eq_zero_iff]
  omega

lemma Ring.isFull_iff : x.isFull=true ↔ rest.length=pipesize := by
  have hroom : rest.length≤512 := h.window.room
  have hlen := h.length
  have hsize : pipesize=512 := rfl
  have hfull := h.nread.add pipesize
  rw [Pipe.isFull,decide_eq_true_iff,eq_comm,h.nwrite.eq_iff hfull (by omega) (by omega)]
  omega

lemma Ring.put (hfull : x.isFull=false) (p : ℕ) (ch : UInt8) :
    Ring (x.put p ch) (rest++[ch]) := by
  have hlen := h.length
  have hlt : rest.length<pipesize := by
    have hroom := h.window.room
    have hne : rest.length≠pipesize := fun hc => by
      grind [h.isFull_iff]
    omega
  have hindex : x.nwrite.toNat%pipesize=(x.taken.length+rest.length)%pipesize := by
    rw [←hlen]
    exact h.nwrite.index (by decide)
  refine ⟨?_,?_,h.nread,?_⟩
  · show Window pipesize (update x.data (x.nwrite.toNat%pipesize) ch) _ _
    rw [hindex]
    exact h.window.push hlt ch
  · show (x.accepted++[(p,ch)]).map Prod.snd=_
    rw [List.map_append,h.order,List.append_assoc]
    rfl
  · show Counts (x.nwrite+1) (x.accepted++[(p,ch)]).length
    grind [h.nwrite.succ]

lemma Ring.take (hne : x.isEmpty=false) (copied : Bool) :
    ∃ rest',rest=x.next::rest' ∧ Ring (x.take copied) rest' := by
  cases rest with
  | nil =>
    grind [h.isEmpty_iff]
  | cons ch rest =>
    have hnext : x.next=ch := by
      rw [Pipe.next,h.nread.index (by decide)]
      exact h.window.head
    refine ⟨rest,by rw [hnext],?_,?_,?_,h.nwrite⟩
    · show Window pipesize x.data (x.taken++[x.next]).length rest
      grind [h.window.tail]
    · show x.accepted.map Prod.snd=x.taken++[x.next]++rest
      grind [h.order]
    · show Counts (x.nread+1) (x.taken++[x.next]).length
      grind [h.nread.succ]

omit h

def sentBy (accepted : List (ℕ×UInt8)) (p : ℕ) : List UInt8 :=
  (accepted.filter fun e => e.1=p).map Prod.snd

lemma sentBy_append (l l' : List (ℕ×UInt8)) (p : ℕ) : sentBy (l++l') p=sentBy l p++sentBy l' p := by
  grind [sentBy]

lemma sentBy_self (p : ℕ) (ch : UInt8) : sentBy [(p,ch)] p=[ch] := by
  simp [sentBy]

lemma sentBy_other {r : ℕ} (hr : r≠p) (ch : UInt8) : sentBy [(p,ch)] r=[] := by
  simp [sentBy,Ne.symm hr]

/-- The bytes that the current call of pipewrite has put. -/
def sent : Place→List UInt8
  | .writeLoop b i _ => b.src.take i
  | .writePut b i _ => b.src.take i
  | .writeSleep b i => b.src.take i
  | .writeEnd b i => b.src.take i
  | .writeDone b i => b.src.take i
  | _ => []

/-- Readers have valid buffers; a writer with an invalid one only stops early. -/
def validArgs : Place→Bool
  | .readWait b => b.n≤b.room
  | .readEmpty b => b.n≤b.room
  | .readLoop b _ => b.n≤b.room
  | _ => true

/-- The invariant of a pipe, given what the current calls have put. -/
structure Fifo (x : Pipe) (v : ℕ→List UInt8) : Prop where
  ring : ∃ rest,Ring x rest
  writers : ∀ p,sentBy x.accepted p=x.given p++v p
  delivered : x.delivered=x.taken

variable {v : ℕ→List UInt8}

lemma Fifo.finish (h : Fifo x v) {b : WriteArgs} {i : ℕ} (hv : v p=b.src.take i) :
    Fifo (x.finish p b i) (update v p []) := by
  obtain ⟨rest,hr⟩ := h.ring
  refine ⟨⟨rest,hr.window,hr.order,hr.nread,hr.nwrite⟩,fun r => ?_,h.delivered⟩
  show sentBy x.accepted r=update x.given p (x.given p++b.src.take i) r++_
  grind [h.writers]

lemma Fifo.put (h : Fifo x v) (hfull : x.isFull=false) {b : WriteArgs} {i : ℕ}
    (hv : v p=b.src.take i) (hch : b.src[i]?=some ch) : Fifo (x.put p ch) (update v p (b.src.take (i+1))) := by
  obtain ⟨rest,hr⟩ := h.ring
  refine ⟨⟨_,hr.put hfull p ch⟩,fun r => ?_,h.delivered⟩
  show sentBy (x.accepted++[(p,ch)]) r=x.given r++_
  rw [sentBy_append]
  by_cases hrp : r=p
  · rw [hrp,update_self,sentBy_self,h.writers p,hv,List.take_add_one,hch,List.append_assoc]
    rfl
  · rw [update_of_ne hrp,sentBy_other hrp,List.append_nil]
    exact h.writers r

lemma Fifo.take (h : Fifo x v) (hne : x.isEmpty=false) : Fifo (x.take true) v := by
  obtain ⟨rest,hr⟩ := h.ring
  obtain ⟨rest',-,hr'⟩ := hr.take hne true
  refine ⟨⟨rest',hr'⟩,h.writers,?_⟩
  show x.delivered++[x.next]=x.taken++[x.next]
  rw [h.delivered]

lemma Fifo.stay (h : Fifo x v) {l : List UInt8} (hv : v p=l) : Fifo x (update v p l) := by
  rw [←hv,update_eq_self]
  exact h

lemma Fifo.close (h : Fifo x v) (w : Bool) : Fifo (x.close w) v := by
  obtain ⟨rest,hr⟩ := h.ring
  cases w <;>
    exact ⟨⟨rest,hr.window,hr.order,hr.nread,hr.nwrite⟩,h.writers,h.delivered⟩

lemma pipes_monitored : Monitored pipes (fun l => validArgs l=true) sent [] Fifo := by
  refine ⟨fun k l he _ => ?_,fun k p b l x y l' v hc hgood h hv => ?_,
    fun k p b l x c l' hc hgood => ?_,fun k p b l x c l' hc hgood => ?_,fun k p b l x hc _ => ?_⟩
  · cases l with
    | writeLoop b i mark =>
      have hi : i=0 := (of_decide_eq_true he).1
      rw [hi,sent,List.take_zero]
    | readWait _ | close _ => rfl
    | _ => cases he
  · have hd := does_of_code hc
    cases hd with
    | writeStop _ _ | writeDone => exact ⟨rfl,h.finish hv⟩
    | writeOn _ _ _ | writeOut _ | writeFault _ _ | readKilled | readStop => exact ⟨rfl,h.stay hv⟩
    | writeByte hf hs => exact ⟨rfl,h.put hf hv hs⟩
    | readWait _ _ | readStart => exact ⟨hgood,h.stay hv⟩
    | readByte he => exact ⟨hgood,(h.take he).stay hv⟩
    | @readFault b i hn _ hr =>
      have hroom : b.n≤b.room := of_decide_eq_true hgood
      omega
    | close => exact ⟨rfl,(h.close _).stay hv⟩
  · have hd := does_of_code hc
    cases hd with
    | writeSleep => exact ⟨rfl,rfl⟩
    | readSleep => exact ⟨hgood,rfl⟩
  · have hd := does_of_code hc
    cases hd with
    | writeFull _ | writeEnd | readEnd | closeWake => exact ⟨rfl,rfl⟩
  · have hd := does_of_code hc
    cases hd with
    | leave => rfl

variable {s : Threads ℕ Chan Place Pipe} {as : List (ℕ×Act ℕ Place)}

/-- A call of piperead with a valid buffer, or anything else. -/
def validCall (_ : Threads ℕ Chan Place Pipe) (a : ℕ×Act ℕ Place) : Bool :=
  match a.2 with
  | .call _ l => validArgs l
  | _ => true

lemma goodCalls_of_valid (s : Threads ℕ Chan Place Pipe) (a : ℕ×Act ℕ Place)
    (h : validCall s a=true) : GoodCalls (fun l => validArgs l=true) s a := by
  intro k l ha
  rw [validCall,ha] at h
  exact h

/-- Every pipe is a FIFO in every run whose readers have valid buffers: the
counters are at most PIPESIZE apart, what is delivered is a prefix of what is
accepted, the rest is in the ring, and each writer's bytes are those of its calls
in order. -/
theorem pipe_is_fifo {junk : ℕ→ℕ→UInt8}
    (hg : Guarded (threadStep pipes) (fun s a => validCall s a=true)
      (startThreads fun k => newPipe (junk k)) as)
    (hrun : run (threadStep pipes) (startThreads fun k => newPipe (junk k)) as=.next s) (k : ℕ) :
    ((s.data k).nwrite-(s.data k).nread).toNat≤pipesize ∧
    (s.data k).delivered<+:(s.data k).accepted.map Prod.snd ∧
    (∃ rest,(s.data k).accepted.map Prod.snd=(s.data k).delivered++rest ∧
      rest.length=((s.data k).nwrite-(s.data k).nread).toNat ∧
      ∀ i (h : i<rest.length),
        (s.data k).data (((s.data k).nread+BitVec.ofNat 32 i).toNat%pipesize)=rest[i]) ∧
    ∀ p,sentBy (s.data k).accepted p=(s.data k).given p++shares sent [] s k p := by
  have hstart : ∀ k,Fifo (newPipe (junk k)) fun _ => [] := fun k =>
    ⟨⟨[],.nil _ _ _,rfl,rfl,rfl⟩,fun _ => rfl,rfl⟩
  have hkept := run_kept pipes_monitored hstart (hg.mono goodCalls_of_valid) hrun
  obtain ⟨⟨rest,hr⟩,hw,hd⟩ := hkept.data k
  refine ⟨?_,?_,⟨rest,?_,hr.count.symm,fun i hi => ?_⟩,hw⟩
  · rw [hr.count]
    exact hr.window.room
  · grind [hr.order]
  · rw [hd]
    exact hr.order
  · rw [(hr.nread.add i).index (by decide)]
    exact hr.window.cell i hi

def steps (p n : ℕ) : List (ℕ×Act ℕ Place) := List.replicate n (p,.go)

def enter (p : ℕ) : List (ℕ×Act ℕ Place) := [(p,.grab),(p,.dispatch),(p,.go)]

/-- A reader sleeps, a writer puts three bytes and wakes it, and the reader takes
two of them. -/
def handOver : List (ℕ×Act ℕ Place) :=
  enter 1++[(1,.call 0 (.readWait ⟨2,2⟩))]++steps 1 5++[(1,.settle)]++
    enter 0++[(0,.call 0 (.writeLoop ⟨[7,8,9],3⟩ 0 0))]++steps 0 (8+1+128+2)++
    enter 1++steps 1 4

theorem handOver_fifo : ∃ s,
    run (threadStep pipes) (startThreads fun _ => newPipe fun _ => 0) handOver=.next s ∧
    (s.data 0).delivered=[7,8] ∧ (s.data 0).delivered<+:(s.data 0).accepted.map Prod.snd := by
  obtain ⟨s,hrun,hobs⟩ := exists_of_state?
    (o:=run (threadStep pipes) (startThreads fun _ => newPipe fun _ => 0) handOver)
    (f:=fun s => (s.data 0).delivered) (v:=[7,8]) (by decide +kernel)
  have hfifo := pipe_is_fifo
    (guarded_of_check (k:=validCall) (fun _ _ h => h) (by decide +kernel)) hrun 0
  exact ⟨s,hrun,hobs,hfifo.2.1⟩

end Fifo

end Xv6Riscv.PipeMachine
