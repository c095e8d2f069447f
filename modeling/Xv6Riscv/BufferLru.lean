import Xv6Riscv.BufferCache
import Xv6Riscv.DoublyLinked

/-!
# The list of buffers in order of use

The links of bcache in kernel/bio.c at the level of the pointer assignments,
with the reference counts and the keys that bget looks at. The head of the
list is none. The times of the moves to the front are specification state.
-/

namespace Xv6Riscv.BufferLru

open Transition Function DoublyLinked CircularList BufferCache

/-- The fields of a buffer that the list operations use. -/
structure LruBuf where
  /-- b->dev. -/
  dev : UInt32
  /-- b->blockno. -/
  blockno : UInt32
  /-- b->refcnt. -/
  refcnt : UInt32

/-- bcache. -/
structure Bcache where
  /-- The link fields of the buffers and of the head. -/
  links : Links (Option (Fin nbuf))
  /-- The buffers. -/
  buf : Fin nbuf→LruBuf
  /-- Specification state: when the buffer was last moved to the front. -/
  moved : Fin nbuf→ℕ
  /-- Specification state: the number of moves so far. -/
  clock : ℕ

/-- The assignments of binit and of brelse that put b behind the head. -/
def front (s : Bcache) (b : Fin nbuf) : Bcache :=
  {s with
    links := pushFront s.links none (some b)
    moved := update s.moved b s.clock
    clock := s.clock+1}

/-- The cache before binit's loop: the head points to itself. -/
def unlinked : Bcache := ⟨⟨fun _ => none,fun _ => none⟩,fun _ => ⟨0,0,0⟩,fun _ => 0,0⟩

/-- binit. -/
def binit : Bcache := (List.finRange nbuf).foldl front unlinked

/-- A loop of bget: follow the links until a buffer passes the test or the
head comes back. -/
def walk (link : Option (Fin nbuf)→Option (Fin nbuf)) (p : Fin nbuf→Bool) :
    ℕ→Option (Fin nbuf)→Option (Fin nbuf)
  | 0,_ => none
  | _+1,none => none
  | fuel+1,some b => if p b then some b else walk link p fuel (link (some b))

/-- Whether b caches the block. -/
def caches (s : Bcache) (dev blockno : UInt32) (b : Fin nbuf) : Bool :=
  (s.buf b).dev=dev && (s.buf b).blockno=blockno

/-- bget up to the sleep lock, with the buffer that it returns. -/
def bget (s : Bcache) (dev blockno : UInt32) : Outcome (Bcache×Fin nbuf) :=
  match walk s.links.next (caches s dev blockno) (nbuf+1) (s.links.next none) with
  | some b => .next ({s with
      buf := update s.buf b {s.buf b with refcnt := (s.buf b).refcnt+1}},b)
  | none =>
    match walk s.links.prev (fun b => (s.buf b).refcnt=0) (nbuf+1) (s.links.prev none) with
    | some b => .next ({s with buf := update s.buf b ⟨dev,blockno,1⟩},b)
    | none => .panic "bget: no buffers"

/-- b->refcnt--. -/
def bunpin (s : Bcache) (b : Fin nbuf) : Bcache :=
  {s with buf := update s.buf b {s.buf b with refcnt := (s.buf b).refcnt-1}}

/-- b->refcnt++. -/
def bpin (s : Bcache) (b : Fin nbuf) : Bcache :=
  {s with buf := update s.buf b {s.buf b with refcnt := (s.buf b).refcnt+1}}

/-- brelse after releasesleep. -/
def brelse (s : Bcache) (b : Fin nbuf) : Bcache :=
  let s1 := bunpin s b
  if (s1.buf b).refcnt=0 then front {s1 with links := unlink s1.links (some b)} b else s1

/-- The calls that use the list. -/
inductive Op where
  /-- bget, for a hit or a recycled buffer. -/
  | bget (dev blockno : UInt32)
  /-- brelse. -/
  | brelse (b : Fin nbuf)
  /-- bpin. -/
  | bpin (b : Fin nbuf)
  /-- bunpin. -/
  | bunpin (b : Fin nbuf)

/-- One call. -/
def step (s : Bcache) : Op→Outcome Bcache
  | .bget dev blockno => (bget s dev blockno).bind fun r => .next r.1
  | .brelse b => .next (brelse s b)
  | .bpin b => .next (bpin s b)
  | .bunpin b => .next (bunpin s b)

/-- The buffers l are linked behind the head, the last moved first. -/
structure Ordered (s : Bcache) (l : List (Fin nbuf)) : Prop where
  /-- The links lead through the head and l, and back. -/
  linked : Linked s.links (none::l.map some)
  /-- No buffer is there twice. -/
  nodup : l.Nodup
  /-- Later buffers were moved earlier. -/
  sorted : l.Pairwise fun a b => s.moved b<s.moved a
  /-- The moves have happened. -/
  past : ∀ b∈l,s.moved b<s.clock

lemma nodup_nodes {l : List (Fin nbuf)} (h : l.Nodup) : (none::l.map some).Nodup := by
  refine List.nodup_cons.mpr ⟨fun hmem => ?_,h.map (Option.some_injective _)⟩
  obtain ⟨b,-,hb⟩ := List.mem_map.mp hmem
  cases hb

variable {s : Bcache} {l pre suf : List (Fin nbuf)} {b : Fin nbuf}

lemma Ordered.front (h : Ordered s l) (hb : b∉l) : Ordered (front s b) (b::l) := by
  have hsame : ∀ c∈l,(BufferLru.front s b).moved c=s.moved c := by
    intro c hc
    have hcb : c≠b := fun heq => hb (heq ▸ hc)
    exact update_of_ne hcb ..
  have hself : (BufferLru.front s b).moved b=s.clock := update_self ..
  refine ⟨?_,List.nodup_cons.mpr ⟨hb,h.nodup⟩,List.pairwise_cons.mpr ⟨fun c hc => ?_,?_⟩,
    fun c hc => ?_⟩
  · refine h.linked.pushFront (nodup_nodes h.nodup) fun hmem => ?_
    rcases List.mem_cons.mp hmem with hnone|hmem
    · cases hnone
    · obtain ⟨c,hc,hcb⟩ := List.mem_map.mp hmem
      exact hb (Option.some.inj hcb ▸ hc)
  · rw [hsame c hc,hself]
    exact h.past c hc
  · refine h.sorted.imp_of_mem fun {c d} hc hd hlt => ?_
    rw [hsame c hc,hsame d hd]
    exact hlt
  · change (BufferLru.front s b).moved c<s.clock+1
    rcases List.mem_cons.mp hc with rfl|hc
    · rw [hself]
      exact Nat.lt_succ_self _
    · rw [hsame c hc]
      exact Nat.lt_succ_of_lt (h.past c hc)

/-- Taking b out keeps the order of the others. -/
lemma Ordered.unlink (h : Ordered s (pre++b::suf)) :
    Ordered {s with links := unlink s.links (some b)} (pre++suf) := by
  have hperm : (pre++b::suf).Perm (b::(pre++suf)) := List.perm_middle
  have hsub : (pre++suf).Sublist (pre++b::suf) :=
    List.append_sublist_append_left pre |>.mpr (List.sublist_cons_self b suf)
  have hnodes : (some b::(suf.map some++none::pre.map some)).Nodup := by
    have hall := nodup_nodes h.nodup
    rw [List.map_append,List.map_cons,←List.cons_append] at hall
    exact (List.perm_append_comm.nodup_iff).mp hall
  refine ⟨?_,h.nodup.sublist hsub,h.sorted.sublist hsub,fun c hc => h.past c (hsub.subset hc)⟩
  have hrot : Linked s.links (some b::(suf.map some++none::pre.map some)) := by
    have hl := h.linked
    rw [List.map_append,List.map_cons,←List.cons_append] at hl
    exact hl.append_comm
  have hout := hrot.unlink (by simp) hnodes
  rw [List.map_append,←List.cons_append]
  exact hout.append_comm

/-- The two kinds of updates of a buffer's own fields do not touch the list. -/
lemma Ordered.congr (h : Ordered s l) {t : Bcache} (hlinks : t.links=s.links)
    (hmoved : t.moved=s.moved) (hclock : t.clock=s.clock) : Ordered t l := by
  refine ⟨?_,h.nodup,?_,?_⟩
  · rw [hlinks]
    exact h.linked
  · rw [hmoved]
    exact h.sorted
  · rw [hmoved,hclock]
    exact h.past

/-- All buffers are in the list. -/
def Full (s : Bcache) : Prop := ∃ l,Ordered s l ∧ ∀ b,b∈l

lemma foldl_front (bs : List (Fin nbuf)) (h : Ordered s l) (hnd : (bs++l).Nodup) :
    Ordered (bs.foldl BufferLru.front s) (bs.reverse++l) := by
  induction bs generalizing s l with
  | nil => exact h
  | cons b bs ih =>
    obtain ⟨hb,hrest⟩ := List.nodup_cons.mp hnd
    rw [List.foldl_cons,List.reverse_cons,List.append_assoc]
    refine ih (h.front fun hmem => hb (List.mem_append_right bs hmem)) ?_
    exact List.perm_middle.nodup_iff.mpr hnd

lemma full_binit : Full binit := by
  have hstart : Ordered unlinked [] := by
    refine ⟨⟨ring_singleton.mpr rfl,ring_singleton.mpr rfl⟩,.nil,.nil,nofun⟩
  have hnd : (List.finRange nbuf++[]).Nodup := by
    rw [List.append_nil]
    exact List.nodup_finRange nbuf
  refine ⟨_,foldl_front (List.finRange nbuf) hstart hnd,fun b => ?_⟩
  rw [List.append_nil]
  exact List.mem_reverse.mpr (List.mem_finRange b)

/-- brelse moves the buffer to the front if nobody holds it any more, and leaves
the list alone otherwise. -/
lemma Ordered.brelse (h : Ordered s l) (hb : b∈l) :
    Ordered (brelse s b) (if (s.buf b).refcnt-1=0 then b::l.erase b else l) := by
  have hpin : Ordered (bunpin s b) l := h.congr rfl rfl rfl
  have hself : ((bunpin s b).buf b).refcnt=(s.buf b).refcnt-1 := by
    simp only [bunpin,update_self]
  rw [BufferLru.brelse,hself]
  split_ifs
  · obtain ⟨pre,suf,rfl⟩ := List.append_of_mem hb
    have hnot : b∉pre++suf := (List.nodup_middle.mp h.nodup |> List.nodup_cons.mp).1
    have hpre : b∉pre := fun hmem => hnot (List.mem_append_left suf hmem)
    rw [List.erase_append_right _ hpre,List.erase_cons_head]
    exact hpin.unlink.front hnot
  · exact hpin

lemma full_brelse (h : Full s) (b : Fin nbuf) : Full (brelse s b) := by
  obtain ⟨l,h,hall⟩ := h
  refine ⟨_,h.brelse (hall b),fun c => ?_⟩
  split_ifs
  · exact (List.perm_cons_erase (hall b)).mem_iff.mp (hall c)
  · exact hall c

/-- Every call keeps all buffers in the list. -/
lemma full_step (h : Full s) (a : Op) {t : Bcache} (ht : step s a=.next t) : Full t := by
  cases a with
  | bget dev blockno =>
    obtain ⟨r,hr,hrt⟩ := bind_eq_next.mp ht
    cases hrt
    obtain ⟨l,h,hall⟩ := h
    rw [bget] at hr
    split at hr
    · cases hr
      exact ⟨l,h.congr rfl rfl rfl,hall⟩
    · split at hr
      · cases hr
        exact ⟨l,h.congr rfl rfl rfl,hall⟩
      · cases hr
  | brelse b =>
    cases ht
    exact full_brelse h b
  | bpin b | bunpin b =>
    cases ht
    obtain ⟨l,h,hall⟩ := h
    exact ⟨l,h.congr rfl rfl rfl,hall⟩

/-- A loop along a chain that comes back to the head finds the first buffer
that passes the test. -/
lemma walk_chain {link : Option (Fin nbuf)→Option (Fin nbuf)} (p : Fin nbuf→Bool)
    (l : List (Fin nbuf)) (x : Option (Fin nbuf))
    (h : List.IsChain (fun x y => link x=y) (x::(l.map some++[none]))) :
    walk link p (l.length+1) (link x)=l.find? p := by
  induction l generalizing x with
  | nil =>
    rw [(List.isChain_cons_cons.mp h).1]
    rfl
  | cons b l ih =>
    obtain ⟨hx,hrest⟩ := List.isChain_cons_cons.mp h
    rw [hx,List.length_cons,walk,List.find?_cons]
    cases hp : p b with
    | true => rfl
    | false => exact ih (some b) hrest

variable (h : Ordered s l)

include h

lemma Ordered.next_chain :
    List.IsChain (fun x y => s.links.next x=y) (none::(l.map some++[none])) := h.linked.1.chain

lemma Ordered.prev_chain :
    List.IsChain (fun x y => s.links.prev x=y) (none::(l.reverse.map some++[none])) := by
  have hprev := h.linked.2
  rw [List.reverse_cons] at hprev
  rw [List.map_reverse]
  exact (@Ring.append_comm _ _ _ [none] hprev).chain

/-- Among the buffers of the list that pass a test, the last one was moved
first. -/
lemma Ordered.oldest {p : Fin nbuf→Bool} (hf : l.reverse.find? p=some b) :
    p b=true ∧ ∀ c∈l,p c=true→c≠b→s.moved b<s.moved c := by
  obtain ⟨hp,us,vs,hsplit,hus⟩ := List.find?_eq_some_iff_append.mp hf
  refine ⟨hp,fun c hc hpc hne => ?_⟩
  have hl : l=vs.reverse++b::us.reverse := by
    rw [←List.reverse_reverse l,hsplit,List.reverse_append,List.reverse_cons,List.append_assoc]
    rfl
  have hsorted := h.sorted
  rw [hl] at hc hsorted
  rcases List.mem_append.mp hc with hc|hc
  · exact (List.pairwise_append.mp hsorted).2.2 c hc b List.mem_cons_self
  · rcases List.mem_cons.mp hc with rfl|hc
    · exact absurd rfl hne
    · have hcp := hus c (List.mem_reverse.mp hc)
      rw [hpc] at hcp
      cases hcp

lemma Ordered.length (hall : ∀ b,b∈l) : l.length=nbuf := by
  have hperm : l.Perm (List.finRange nbuf) := (List.perm_ext_iff_of_nodup h.nodup
    (List.nodup_finRange nbuf)).mpr fun b => ⟨fun _ => List.mem_finRange b,fun _ => hall b⟩
  rw [hperm.length_eq,List.length_finRange]

/-- The two loops of bget as searches of the list and of its reverse. -/
lemma bget_eq (hall : ∀ b,b∈l) (dev blockno : UInt32) :
    bget s dev blockno=match l.find? (caches s dev blockno) with
      | some b => .next ({s with
          buf := update s.buf b {s.buf b with refcnt := (s.buf b).refcnt+1}},b)
      | none => match l.reverse.find? (fun b => (s.buf b).refcnt=0) with
        | some b => .next ({s with buf := update s.buf b ⟨dev,blockno,1⟩},b)
        | none => .panic "bget: no buffers" := by
  have hnext := walk_chain (caches s dev blockno) l none h.next_chain
  have hprev := walk_chain (fun b => decide ((s.buf b).refcnt=0)) l.reverse none h.prev_chain
  rw [h.length hall] at hnext
  rw [List.length_reverse,h.length hall] at hprev
  rw [bget,hnext,hprev]

/-- A block that some buffer caches: bget counts one more user of such a buffer. -/
lemma bget_hit (hall : ∀ b,b∈l) {dev blockno : UInt32} (hit : ∃ c,caches s dev blockno c=true) :
    ∃ b,caches s dev blockno b=true ∧ bget s dev blockno=.next ({s with
      buf := update s.buf b {s.buf b with refcnt := (s.buf b).refcnt+1}},b) := by
  obtain ⟨c,hc⟩ := hit
  obtain ⟨b,hb⟩ := Option.isSome_iff_exists.mp (List.find?_isSome.mpr ⟨c,hall c,hc⟩)
  exact ⟨b,List.find?_some hb,by rw [bget_eq h hall,hb]⟩

/-- A block that no buffer caches: bget recycles the unused buffer that was moved
to the front first, and gives up only if there is none. -/
lemma bget_miss (hall : ∀ b,b∈l) {dev blockno : UInt32} (hmiss : ∀ c,caches s dev blockno c=false) :
    (∃ b,bget s dev blockno=.next ({s with buf := update s.buf b ⟨dev,blockno,1⟩},b) ∧
      (s.buf b).refcnt=0 ∧ ∀ c,(s.buf c).refcnt=0→c≠b→s.moved b<s.moved c) ∨
    bget s dev blockno=.panic "bget: no buffers" ∧ ∀ c,(s.buf c).refcnt≠0 := by
  have hnone : l.find? (caches s dev blockno)=none :=
    List.find?_eq_none.mpr fun c _ hc => by simp [hmiss c] at hc
  rw [bget_eq h hall,hnone]
  cases hfind : l.reverse.find? (fun b => decide ((s.buf b).refcnt=0)) with
  | some b =>
    obtain ⟨hzero,hold⟩ := h.oldest hfind
    exact .inl ⟨b,rfl,of_decide_eq_true hzero,fun c hc => hold c (hall c) (decide_eq_true hc)⟩
  | none =>
    refine .inr ⟨rfl,fun c hc => ?_⟩
    exact List.find?_eq_none.mp hfind c (List.mem_reverse.mpr (hall c)) (decide_eq_true hc)

omit h

/-- The LRU list. After binit and any sequence of calls, following next from
the head visits each buffer exactly once before the head comes back, and
following prev visits them in the reverse order. brelse moves a buffer that
nobody holds any more to the front and leaves the list alone otherwise. bget
returns a buffer of the block if there is one; if not, it gives the block to the
buffer that was moved to the front longest ago among those with reference count
0, and panics only if there is none. -/
theorem lru_list_of_all_buffers (ops : List Op) (s : Bcache) (hrun : run step binit ops=.next s) :
    ∃ l : List (Fin nbuf),l.Nodup ∧ (∀ b,b∈l) ∧
      List.IsChain (fun x y => s.links.next x=y) (none::(l.map some++[none])) ∧
      List.IsChain (fun x y => s.links.prev x=y) (none::(l.reverse.map some++[none])) ∧
      (∀ b,List.IsChain (fun x y => (brelse s b).links.next x=y)
        (none::((if (s.buf b).refcnt-1=0 then b::l.erase b else l).map some++[none]))) ∧
      ∀ dev blockno,
        ((∃ c,caches s dev blockno c=true)→
          ∃ b,caches s dev blockno b=true ∧ bget s dev blockno=.next ({s with
            buf := update s.buf b {s.buf b with refcnt := (s.buf b).refcnt+1}},b)) ∧
        ((∀ c,caches s dev blockno c=false)→
          (∃ b,bget s dev blockno=.next ({s with buf := update s.buf b ⟨dev,blockno,1⟩},b) ∧
            (s.buf b).refcnt=0 ∧ ∀ c,(s.buf c).refcnt=0→c≠b→s.moved b<s.moved c) ∨
          bget s dev blockno=.panic "bget: no buffers" ∧ ∀ c,(s.buf c).refcnt≠0) := by
  obtain ⟨l,h,hall⟩ : Full s :=
    run_invariant (fun s a t hs ht => full_step hs a ht) full_binit hrun
  exact ⟨l,h.nodup,hall,h.next_chain,h.prev_chain,fun b => (h.brelse (hall b)).next_chain,
    fun dev blockno => ⟨fun hit => bget_hit h hall hit,fun hmiss => bget_miss h hall hmiss⟩⟩

/-- Two buffers are recycled, one of them is given back, and a third one is
pinned and unpinned where it is. -/
def recycling : List Op :=
  [.bget 1 5,.brelse ⟨0,by decide⟩,.bget 1 6,.bpin ⟨2,by decide⟩,.bunpin ⟨2,by decide⟩]

/-- The next block then goes to the unpinned buffer, which was moved first. -/
theorem recycling_takes_oldest : ∃ s t b,run step binit recycling=.next s ∧
    bget s 1 7=.next (t,b) ∧ b.val=2 ∧ (t.buf b).blockno=7 ∧ (s.buf b).refcnt=0 ∧
    ∀ c,(s.buf c).refcnt=0→c≠b→s.moved b<s.moved c := by
  obtain ⟨s,hs,hobs⟩ := exists_of_state? (o:=run step binit recycling)
    (f:=fun s => (decide (∀ c,caches s 1 7 c=false),decide (∀ c,(s.buf c).refcnt≠0),
      (bget s 1 7).state?.map fun r => r.2.val)) (v:=(true,false,some 2)) (by decide +kernel)
  simp only [Prod.mk.injEq,decide_eq_true_eq,decide_eq_false_iff_not] at hobs
  obtain ⟨hmiss,hroom,hget⟩ := hobs
  obtain ⟨-,-,-,-,-,-,hall⟩ := lru_list_of_all_buffers recycling s hs
  rcases (hall 1 7).2 hmiss with ⟨b,hb,hzero,hold⟩|⟨-,hfull⟩
  · rw [hb] at hget
    exact ⟨s,_,b,hs,hb,Option.some.inj hget,by simp only [update_self],hzero,hold⟩
  · exact absurd hfull hroom

end Xv6Riscv.BufferLru
