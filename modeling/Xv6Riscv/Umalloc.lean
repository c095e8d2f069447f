import Xv6Riscv.Transition

/-!
# The user-level allocator

malloc and free of user/umalloc.c. Memory is a header for each address; the heap
has one at the start of each block, and what other addresses hold is never read.
A header has 16 bytes, so that the block p is followed by the address
p+16*p->s.size. Sizes are of type uint. What sbrk returns is an input of malloc.
A loop that does not end within its fuel blocks the run.
-/

namespace Xv6Riscv.Umalloc

open Transition

/-- A header: the next free block and the size in headers. -/
structure Header where
  ptr : ℕ
  size : ℕ
  deriving DecidableEq, Repr

/-- The blocks with their headers, and freep. -/
structure Heap where
  hdr : ℕ→Header
  freep : ℕ
  regions : List (ℕ×ℕ)

def Heap.setPtr (h : Heap) (p x : ℕ) : Heap :=
  {h with hdr := Function.update h.hdr p {h.hdr p with ptr := x}}

def Heap.setSize (h : Heap) (p n : ℕ) : Heap :=
  {h with hdr := Function.update h.hdr p {h.hdr p with size := n}}

def Heap.behind (h : Heap) (p : ℕ) : ℕ := p+16*(h.hdr p).size

def Heap.obtained (h : Heap) : ℕ := (h.regions.map Prod.snd).sum

/-- The search of free for the block behind which bp belongs. -/
def freeLoop (h : Heap) (bp : ℕ) : ℕ→ℕ→Outcome ℕ
  | 0,_ => .blocked
  | fuel+1,p =>
    if p<bp ∧ bp<(h.hdr p).ptr then .next p
    else if (h.hdr p).ptr≤p ∧ (p<bp ∨ bp<(h.hdr p).ptr) then .next p
    else freeLoop h bp fuel (h.hdr p).ptr

/-- Join bp with the free block behind it, or link it to that block. -/
def joinUpper (h : Heap) (bp p : ℕ) : Heap :=
  if h.behind bp=(h.hdr p).ptr then
    let h := h.setSize bp (((h.hdr bp).size+(h.hdr (h.hdr p).ptr).size)%2^32)
    h.setPtr bp (h.hdr (h.hdr p).ptr).ptr
  else h.setPtr bp (h.hdr p).ptr

/-- Join bp with the free block before it, or link that block to bp. -/
def joinLower (h : Heap) (bp p : ℕ) : Heap :=
  if h.behind p=bp then
    let h := h.setSize p (((h.hdr p).size+(h.hdr bp).size)%2^32)
    h.setPtr p (h.hdr bp).ptr
  else h.setPtr p bp

/-- free of user/umalloc.c. -/
def free (fuel : ℕ) (h : Heap) (ap : ℕ) : Outcome Heap :=
  let bp := ap-16
  (freeLoop h bp fuel h.freep).bind fun p =>
    .next {joinLower (joinUpper h bp p) bp p with freep := p}

/-- morecore of user/umalloc.c. -/
def morecore (fuel : ℕ) (h : Heap) (nu : ℕ) (answer : Option ℕ) : Outcome (Heap×ℕ) :=
  let nu := if nu<4096 then 4096 else nu
  match answer with
  | none => .next (h,0)
  | some p =>
    let h := {h with regions := (p,nu)::h.regions}
    (free fuel (h.setSize p nu) (p+16)).bind fun h => .next (h,h.freep)

/-- The end of malloc with a block p that is large enough: all of it, or its tail. -/
def take (h : Heap) (nunits prevp p : ℕ) : Heap×ℕ :=
  if (h.hdr p).size=nunits then ({h.setPtr prevp (h.hdr p).ptr with freep := prevp},p+16)
  else
    let h := h.setSize p ((h.hdr p).size-nunits)
    let p := h.behind p
    ({h.setSize p nunits with freep := prevp},p+16)

/-- The loop of malloc, given what each sbrk returns; bound is the fuel of free. -/
def mallocLoop (bound nunits : ℕ) : ℕ→Heap→List (Option ℕ)→ℕ→ℕ→Outcome (Heap×ℕ)
  | 0,_,_,_,_ => .blocked
  | fuel+1,h,answers,prevp,p =>
    if nunits≤(h.hdr p).size then .next (take h nunits prevp p)
    else if p=h.freep then
      (morecore bound h nunits (answers.headD none)).bind fun
        | (h,0) => .next (h,0)
        | (h,p) => mallocLoop bound nunits fuel h answers.tail p (h.hdr p).ptr
    else mallocLoop bound nunits fuel h answers p (h.hdr p).ptr

/-- The number of headers for a block of nbytes bytes and its header. -/
def unitsFor (nbytes : ℕ) : ℕ := (nbytes+16-1)/16+1

/-- The first call of malloc makes base the only free block. -/
def start (base : ℕ) (h : Heap) : Heap :=
  if h.freep=0 then {h with hdr := Function.update h.hdr base ⟨base,0⟩,freep := base} else h

/-- malloc of user/umalloc.c. -/
def malloc (base bound : ℕ) (h : Heap) (nbytes : ℕ) (answers : List (Option ℕ)) :
    Outcome (Heap×ℕ) :=
  let h := start base h
  mallocLoop bound (unitsFor nbytes) bound h answers h.freep (h.hdr h.freep).ptr

structure Sys where
  heap : Heap
  live : List ℕ

inductive Call where
  | malloc (nbytes : ℕ) (answers : List (Option ℕ))
  | free (ap : ℕ)
  | store (a : ℕ) (x : Header)

def boot : Sys := ⟨⟨fun _ => ⟨0,0⟩,0,[]⟩,[]⟩

def searchBound (h : Heap) : ℕ := 2*h.obtained+4

def step (base : ℕ) (s : Sys) : Call→Outcome Sys
  | .malloc nbytes answers =>
    (malloc base (searchBound s.heap) s.heap nbytes answers).bind fun (h,ap) =>
      .next ⟨h,if ap=0 then s.live else (ap-16)::s.live⟩
  | .free ap =>
    (free (searchBound s.heap) s.heap ap).bind fun h => .next ⟨h,s.live.erase (ap-16)⟩
  | .store a x => .next {s with heap := {s.heap with hdr := Function.update s.heap.hdr a x}}

def requested (nbytes : ℕ) : ℕ := if unitsFor nbytes<4096 then 4096 else unitsFor nbytes

/-- sbrk returns regions above base, each behind all earlier ones. -/
def fresh (base nu : ℕ) : List (ℕ×ℕ)→List (Option ℕ)→Bool
  | _,[] => true
  | regions,none::answers => fresh base nu regions answers
  | regions,some r::answers =>
    decide (base+16≤r) && regions.all (fun g => g.1+16*g.2≤r) &&
      fresh base nu ((r,nu)::regions) answers

/-- The calls of the program: sizes below 2^31 bytes, fresh memory from sbrk, only
live blocks are freed, and stores only inside live blocks. -/
def allowed (base : ℕ) (s : Sys) : Call→Bool
  | .malloc nbytes answers =>
    decide (16*unitsFor nbytes<2^31) && fresh base (requested nbytes) s.heap.regions answers
  | .free ap => s.live.any fun b => ap=b+16
  | .store a _ => s.live.any fun b => decide (b<a ∧ a<s.heap.behind b)

/-- The number of headers obtained from sbrk stays below 2^32. -/
def within (s : Sys) : Call→Bool
  | .malloc nbytes answers =>
    decide (s.heap.obtained+requested nbytes*answers.countP Option.isSome<2^32)
  | _ => true

end Xv6Riscv.Umalloc
