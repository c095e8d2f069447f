import Xv6Riscv.GrepMatcher

/-!
# The buffer loop of grep

grep of user/grep.c reads into the free part of a buffer of 1024 bytes, prints
the matching lines that are complete and moves the unfinished rest to the
front. The buffer is the list of its first m bytes. What read delivers at each
call is the environment's choice, up to the room in the buffer and to the end
of the input.
-/

namespace Xv6Riscv.GrepLines

open GrepMatcher

/-- The byte that ends a line. -/
def newline : UInt8 := 10

/-- sizeof(buf). -/
def bufSize : ℕ := 1024

/-- strchr: the place of the first c before the NUL that ends the string. -/
def strchr (c : UInt8) : List UInt8→Option ℕ
  | [] => none
  | x::xs => if x=0 then none else if x=c then some 0 else (strchr c xs).map (·+1)

variable {l : List UInt8}

/-- The place that strchr finds is in the string. -/
lemma strchr_lt {c : UInt8} {q : ℕ} (h : strchr c l=some q) : q<l.length := by
  induction l generalizing q with
  | nil => cases h
  | cons x xs ih =>
    rw [strchr] at h
    split_ifs at h
    · cases h
      exact Nat.succ_pos _
    · obtain ⟨k,hk,rfl⟩ := Option.map_eq_some_iff.mp h
      exact Nat.succ_lt_succ (ih hk)

/-- The string that starts at a pointer. -/
def cstring (bytes : List UInt8) : List UInt8 := bytes.takeWhile (·≠0)

/-- The loop over the complete lines of the buffer from p on: what it writes, and
what memmove moves to the front. A line ends with a NUL while match looks at it. -/
def scan (pattern buf : List UInt8) : List UInt8×List UInt8 :=
  match _h : strchr newline buf with
  | none => ([],buf)
  | some q =>
    let ended := buf.set q 0
    let r := scan pattern (buf.drop (q+1))
    if matchText pattern (cstring ended) then ((ended.set q newline).take (q+1)++r.1,r.2) else r
termination_by buf.length
decreasing_by
  have hlt := strchr_lt _h
  rw [List.length_drop]
  omega

/-- The loop of grep: the i-th read is willing to deliver sizes i bytes. -/
def grepLoop (pattern : List UInt8) (sizes : ℕ→ℕ) (i : ℕ) (buf input : List UInt8) : List UInt8 :=
  let n := min (sizes i) (min (bufSize-buf.length-1) input.length)
  if _h : n=0 then []
  else
    let r := scan pattern (buf++input.take n)
    r.1++grepLoop pattern sizes (i+1) r.2 (input.drop n)
termination_by input.length
decreasing_by
  rw [List.length_drop]
  omega

/-- grep on a file descriptor: the bytes that it writes to the output. -/
def grep (pattern : List UInt8) (sizes : ℕ→ℕ) (input : List UInt8) : List UInt8 :=
  grepLoop pattern sizes 0 [] input

/-- The lines of a text that end with a newline, without it; cur is what has
been seen of the first one. -/
def lines (cur : List UInt8) : List UInt8→List (List UInt8)
  | [] => []
  | c::cs => if c=newline then cur::lines [] cs else lines (cur++[c]) cs

/-- The lines that match, each with its newline. -/
def selected (pattern : List UInt8) (ls : List (List UInt8)) : List UInt8 :=
  (ls.filter (matchText pattern)).flatMap (·++[newline])

/-- The place that strchr finds splits a line off. -/
lemma strchr_some {q : ℕ} (h : strchr newline l=some q) :
    l=l.take q++newline::l.drop (q+1) ∧ newline∉l.take q := by
  induction l generalizing q with
  | nil => cases h
  | cons x xs ih =>
    rw [strchr] at h
    split_ifs at h with h0 hx
    · cases h
      exact ⟨by rw [hx]; rfl,nofun⟩
    · obtain ⟨k,hk,rfl⟩ := Option.map_eq_some_iff.mp h
      obtain ⟨hsplit,hnot⟩ := ih hk
      refine ⟨congrArg (x::·) hsplit,?_⟩
      rw [List.take_succ_cons]
      exact fun hmem => (List.mem_cons.mp hmem).elim (fun heq => hx heq.symm) hnot

/-- The NUL ends the line, and the newline put back restores the buffer. -/
lemma ended_eq {q : ℕ} (h0 : 0∉l) (h : strchr newline l=some q) :
    cstring (l.set q 0)=l.take q ∧ (l.set q 0).set q newline=l := by
  have hset : ∀ c,l.set q c=l.take q++c::l.drop (q+1) := by
    intro c
    rw [List.set_eq_take_append_cons_drop,if_pos (strchr_lt h)]
  constructor
  · rw [hset,cstring,List.takeWhile_append_of_pos]
    · exact List.append_nil _
    · intro c hc
      exact decide_eq_true fun hz => h0 (hz ▸ List.mem_of_mem_take hc)
  · rw [List.set_set,hset]
    exact (strchr_some h).1.symm

/-- Without NUL bytes strchr misses only if there is no newline. -/
lemma strchr_none (h0 : 0∉l) (h : strchr newline l=none) : newline∉l := by
  induction l with
  | nil => exact nofun
  | cons x xs ih =>
    obtain ⟨hx0,h0⟩ := not_or.mp (List.mem_cons.not.mp h0)
    rw [strchr,if_neg (Ne.symm hx0)] at h
    split_ifs at h with hx
    intro hmem
    rcases List.mem_cons.mp hmem with heq|hmem
    · exact hx heq.symm
    · exact ih h0 (Option.map_eq_none_iff.mp h) hmem

/-- A text without a newline has no complete line. -/
lemma lines_of_notMem (h : newline∉l) (cur : List UInt8) : lines cur l=[] := by
  induction l generalizing cur with
  | nil => rfl
  | cons c cs ih =>
    obtain ⟨hc,hcs⟩ := not_or.mp (List.mem_cons.not.mp h)
    rw [lines,if_neg (Ne.symm hc)]
    exact ih hcs (cur++[c])

/-- The first line ends at the first newline. -/
lemma lines_append (h : newline∉l) (cur rest : List UInt8) :
    lines cur (l++newline::rest)=(cur++l)::lines [] rest := by
  induction l generalizing cur with
  | nil => rw [List.nil_append,lines,if_pos rfl,List.append_nil]
  | cons c cs ih =>
    obtain ⟨hc,hcs⟩ := not_or.mp (List.mem_cons.not.mp h)
    rw [List.cons_append,lines,if_neg (Ne.symm hc),ih hcs,List.append_assoc,List.singleton_append]

/-- The scan of a buffer writes the matching lines that are complete in it.
The rest starts the remaining lines, whatever is read next. -/
lemma scan_spec (pattern buf : List UInt8) (h0 : 0∉buf) :
    newline∉(scan pattern buf).2 ∧ 0∉(scan pattern buf).2 ∧
      ∃ ls,(scan pattern buf).1=selected pattern ls ∧
        ∀ more,lines [] (buf++more)=ls++lines [] ((scan pattern buf).2++more) := by
  rw [scan]
  split
  next hnone => exact ⟨strchr_none h0 hnone,h0,[],rfl,fun more => rfl⟩
  next q hsome =>
    have hlt := strchr_lt hsome
    obtain ⟨hsplit,hnot⟩ := strchr_some hsome
    have hrest : 0∉buf.drop (q+1) := fun hmem => h0 (List.mem_of_mem_drop hmem)
    obtain ⟨hn,hz,ls,hout,hlines⟩ := scan_spec pattern (buf.drop (q+1)) hrest
    have hfirst : ∀ more,lines [] (buf++more)=
        buf.take q::ls++lines [] ((scan pattern (buf.drop (q+1))).2++more) := by
      intro more
      conv_lhs => rw [hsplit]
      rw [List.append_assoc,List.cons_append,lines_append hnot,List.nil_append,hlines]
      rfl
    have htake : buf.take (q+1)=buf.take q++[newline] := by
      conv_lhs => rw [hsplit]
      have hlen : (buf.take q).length=q := List.length_take_of_le (Nat.le_of_lt hlt)
      rw [List.take_append,hlen,List.take_of_length_le (by omega),Nat.add_sub_cancel_left]
      rfl
    dsimp only
    rw [(ended_eq h0 hsome).1,(ended_eq h0 hsome).2]
    split_ifs with hm
    · refine ⟨hn,hz,buf.take q::ls,?_,hfirst⟩
      rw [selected,List.filter_cons_of_pos hm,List.flatMap_cons,htake,hout]
      rfl
    · refine ⟨hn,hz,buf.take q::ls,?_,hfirst⟩
      rw [selected,List.filter_cons_of_neg hm]
      exact hout
termination_by buf.length
decreasing_by
  rw [List.length_drop]
  omega

/-- From any unfinished rest the loop writes the matching lines among those
still to come. The room for another read only runs out in a line that does not
fit into the buffer. -/
lemma grepLoop_eq (pattern : List UInt8) (sizes : ℕ→ℕ) (hsizes : ∀ i,0<sizes i) (i : ℕ)
    (buf input : List UInt8) (hbuf : newline∉buf) (hb0 : 0∉buf) (h0 : 0∉input)
    (hshort : ∀ l∈lines [] (buf++input),l.length+1≤bufSize-1) :
    grepLoop pattern sizes i buf input=selected pattern (lines [] (buf++input)) := by
  rw [grepLoop]
  dsimp only
  have hpos := hsizes i
  split_ifs with hn
  · have hnone : newline∉buf++input := by
      intro hmem
      have hin : newline∈input := (List.mem_append.mp hmem).resolve_left hbuf
      have hfull : bufSize-1≤buf.length := by
        have hlen := List.length_pos_of_mem hin
        omega
      obtain ⟨u,v,rfl,hu⟩ := List.eq_append_cons_of_mem hin
      have hnot : newline∉buf++u := fun hm => (List.mem_append.mp hm).elim hbuf hu
      have hline := hshort (buf++u) (by
        rw [←List.append_assoc,lines_append hnot]
        exact List.mem_cons_self)
      rw [List.length_append] at hline
      omega
    rw [lines_of_notMem hnone]
    rfl
  · have htake : 0∉buf++input.take (min (sizes i) (min (bufSize-buf.length-1) input.length)) :=
      fun hm => (List.mem_append.mp hm).elim hb0 fun hm => h0 (List.mem_of_mem_take hm)
    obtain ⟨hnl,hz,ls,hout,hlines⟩ := scan_spec pattern _ htake
    have hall := hlines (input.drop (min (sizes i) (min (bufSize-buf.length-1) input.length)))
    rw [List.append_assoc,List.take_append_drop] at hall
    rw [hall] at hshort
    rw [grepLoop_eq pattern sizes hsizes (i+1) _ _ hnl hz (fun hm => h0 (List.mem_of_mem_drop hm))
        fun l hl => hshort l (List.mem_append_right _ hl),hout,hall,selected,selected,selected,
      List.filter_append,List.flatMap_append]
termination_by input.length
decreasing_by
  rw [List.length_drop]
  omega

/-- The output of grep does not depend on how read splits the input. If the
input has no NUL bytes and each of its lines fits with its newline into 1023
bytes, grep writes exactly the newline-terminated lines that match, unmodified,
once each and in order, for every choice of the sizes that the reads deliver. -/
theorem grep_writes_matching_lines (pattern input : List UInt8) (h0 : 0∉input)
    (hshort : ∀ l∈lines [] input,l.length+1≤1023) (sizes : ℕ→ℕ) (hsizes : ∀ i,0<sizes i) :
    grep pattern sizes input=selected pattern (lines [] input) :=
  grepLoop_eq pattern sizes hsizes 0 [] input nofun nofun h0 hshort

/-- Two lines, read two bytes at a time, with the pattern b. -/
theorem grep_two_lines :
    grep [98] (fun _ => 2) [97,10,98,99,10]=selected [98] (lines [] [97,10,98,99,10]) :=
  grep_writes_matching_lines [98] [97,10,98,99,10] (by decide) (by decide) (fun _ => 2)
    fun _ => Nat.succ_pos 1

end Xv6Riscv.GrepLines
