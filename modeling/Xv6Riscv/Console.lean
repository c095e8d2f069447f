import Xv6Riscv.Transition

/-!
# Console input

consoleintr and consoleread of kernel/console.c run under cons.lock, which only
the sleep in consoleread gives up. So one call of consoleintr is a step, and so
is what a reader does from acquiring the lock to its sleep or its return.

The readers and the input device are separate, so that the same readers can run
on another description of the device. Echo and procdump are left out. A reader's
user buffer has room for some number of bytes, after which either_copyout fails.
-/

namespace Xv6Riscv.Console

open Function
open Transition

def inputBufSize : ℕ := 128

def ctrlP : UInt8 := 16

def ctrlU : UInt8 := 21

def ctrlH : UInt8 := 8

def del : UInt8 := 0x7f

def ctrlD : UInt8 := 4

def newline : UInt8 := 10

def carriageReturn : UInt8 := 13

/-- How far one turn of a reader came: n bytes are still wanted, got has been
copied out. -/
inductive ReadResult where
  | wait (n : ℕ) (got : List UInt8)
  | done (n : ℕ) (got : List UInt8)
  deriving DecidableEq

/-- struct cons. -/
structure Cons where
  buf : ℕ→UInt8
  r : BitVec 32
  w : BitVec 32
  e : BitVec 32

/-- The loop of consoleintr for control-U. It ends when e reaches w at the latest. -/
def killLoop : ℕ→ Cons→ Cons
  | 0,s => s
  | k+1,s =>
    if s.e≠s.w ∧ s.buf ((s.e-1).toNat%inputBufSize)≠newline then killLoop k {s with e := s.e-1}
    else s

/-- consoleintr; the second component says whether it calls wakeup(&cons.r). -/
def consoleintr (c : UInt8) (s : Cons) : Cons×Bool :=
  if c=ctrlP then (s,false)
  else if c=ctrlU then (killLoop (s.e-s.w).toNat s,false)
  else if c=ctrlH ∨ c=del then (if s.e≠s.w then {s with e := s.e-1} else s,false)
  else if c≠0 ∧ (s.e-s.r).toNat< inputBufSize then
    let c := if c=carriageReturn then newline else c
    let s := {s with buf := update s.buf (s.e.toNat%inputBufSize) c,e := s.e+1}
    if c=newline ∨ c=ctrlD ∨ (s.e-s.r).toNat=inputBufSize then ({s with w := s.e},true)
    else (s,false)
  else (s,false)

/-- The loop of consoleread, up to its sleep or its end. target is the length at
the call, room the number of bytes that can be copied out. -/
def consoleread (target room : ℕ) : ℕ→List UInt8→ Cons→ Cons×ReadResult
  | 0,got,s => (s,.done 0 got)
  | n+1,got,s =>
    if s.r=s.w then (s,.wait (n+1) got)
    else
      let c := s.buf (s.r.toNat%inputBufSize)
      let s := {s with r := s.r+1}
      if c=ctrlD then
        -- save ^D for next time if this call has read something
        (if n+1<target then {s with r := s.r-1} else s,.done (n+1) got)
      else if room≤got.length then (s,.done (n+1) got)
      else if c=newline then (s,.done n (got++[c]))
      else consoleread target room n (got++[c]) s

section Readers

/-- An input device: what a key does, with whether it wakes the readers, and what
a turn of a reader does. -/
structure Device (D : Type*) where
  key : UInt8→D→D×Bool
  read : ℕ→ℕ→ℕ→List UInt8→D→D×ReadResult

inductive Pc where
  | out
  | asleep (target room n : ℕ) (got : List UInt8) (awake : Bool)
  deriving DecidableEq

structure Event (P : Type*) where
  proc : P
  ret : ℤ
  data : List UInt8
  deriving DecidableEq

structure Tty (P D : Type*) where
  dev : D
  pc : P→Pc
  killed : P→Bool
  trace : List (Event P)

def wake : Pc→Pc
  | .asleep target room n got _ => .asleep target room n got true
  | pc => pc

inductive Act (P : Type*) where
  | key (c : UInt8)
  | call (p : P) (n : ℤ) (room : ℕ)
  | resume (p : P)
  | kill (p : P)
  deriving DecidableEq

variable {P D : Type*} [DecidableEq P]

/-- What a reader does from acquiring the lock to its sleep or its return. -/
def readTurn (d : Device D) (s : Tty P D) (p : P) (target room n : ℕ) (got : List UInt8) : Tty P D :=
  let (dev,result) := d.read target room n got s.dev
  match result with
  | .wait n got =>
    if s.killed p then
      {s with dev := dev,pc := update s.pc p .out,trace := s.trace++[⟨p,-1,got⟩]}
    else {s with dev := dev,pc := update s.pc p (.asleep target room n got false)}
  | .done n got =>
    {s with
      dev := dev,pc := update s.pc p .out,trace := s.trace++[⟨p,(target : ℤ)-n,got⟩]}

/-- A step of a reader or of the interrupt handler. -/
def ttyStep (d : Device D) (s : Tty P D) : Act P→Outcome (Tty P D)
  | .key c =>
    let (dev,woken) := d.key c s.dev
    .next {s with dev := dev,pc := if woken then fun p => wake (s.pc p) else s.pc}
  | .call p n room =>
    if s.pc p=.out then .next (readTurn d s p n.toNat room n.toNat []) else .blocked
  | .resume p =>
    match s.pc p with
    | .asleep target room n got true => .next (readTurn d s p target room n got)
    | _ => .blocked
  | .kill p =>
    .next {s with
      killed := update s.killed p true,pc := update s.pc p (wake (s.pc p))}

def startTty (P : Type*) (dev : D) : Tty P D := ⟨dev,fun _ => .out,fun _ => false,[]⟩

end Readers

def console : Device Cons := ⟨consoleintr,consoleread⟩

def initCons : Cons := ⟨fun _ => 0,0,0,0⟩

end Xv6Riscv.Console
