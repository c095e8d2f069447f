import Xv6Riscv.Console
import Xv6Riscv.RingBuffer

/-!
# The console as a line editor

The reference is a line editor without a ring: a list of characters that are
committed and not read yet, and the line that is being edited. The console does
what the editor does for every interleaving of keys and reads. The three indices
count how many characters have been read, committed and stored; they are words
that wrap around, but never more than a buffer apart.
-/

namespace Xv6Riscv.LineDiscipline

open Function
open Transition Console RingBuffer

structure Editor where
  committed : List UInt8
  line : List UInt8
  output : List UInt8

/-- A key, and whether it commits the line. Characters are dropped when 128 are
unread, and the line is committed when they become so many. -/
def Editor.key (c : UInt8) (ed : Editor) : Editor×Bool :=
  if c=ctrlP then (ed,false)
  else if c=ctrlU then ({ed with line := []},false)
  else if c=ctrlH ∨ c=del then ({ed with line := ed.line.dropLast},false)
  else if c≠0 ∧ ed.committed.length+ed.line.length< inputBufSize then
    let c := if c=carriageReturn then newline else c
    let line := ed.line++[c]
    if c=newline ∨ c=ctrlD ∨ ed.committed.length+line.length=inputBufSize then
      ({ed with committed := ed.committed++line,line := []},true)
    else ({ed with line := line},false)
  else (ed,false)

/-- A reader takes committed characters up to a line feed. An end of file is taken
only by a read that has nothing else. -/
def Editor.read (target : ℕ) : ℕ→List UInt8→Editor→Editor×ReadResult
  | 0,got,ed => (ed,.done 0 got)
  | n+1,got,ed =>
    match ed.committed with
    | [] => (ed,.wait (n+1) got)
    | c::rest =>
      if c=ctrlD then (if n+1<target then ed else {ed with committed := rest},.done (n+1) got)
      else
        let ed := {ed with committed := rest,output := ed.output++[c]}
        if c=newline then (ed,.done n (got++[c])) else Editor.read target n (got++[c]) ed

/-- The editor as an input device. Its readers have valid buffers. -/
def editor : Device Editor := ⟨Editor.key,fun target _ n got ed => ed.read target n got⟩

def initEditor : Editor := ⟨[],[],[]⟩

section Ring

/-- The console's ring holds what the editor has, from count R on. -/
structure Tracks (s : Cons) (ed : Editor) (R : ℕ) : Prop where
  window : Window inputBufSize s.buf R (ed.committed++ed.line)
  read : Counts s.r R
  write : Counts s.w (R+ed.committed.length)
  edit : Counts s.e (R+ed.committed.length+ed.line.length)
  line : ∀ c∈ed.line,c≠newline ∧ c≠ctrlD

variable {s : Cons} {ed : Editor} {R : ℕ}

variable (h : Tracks s ed R)

include h

lemma Tracks.room : ed.committed.length+ed.line.length≤ inputBufSize := by
  grind [h.window.room]

lemma Tracks.unread : (s.e-s.r).toNat=ed.committed.length+ed.line.length := by
  grind [h.room,h.read.sub,h.edit,inputBufSize]

lemma Tracks.editing : (s.e-s.w).toNat=ed.line.length := by
  grind [h.room,h.write.sub,h.edit,inputBufSize]

lemma Tracks.line_nil : s.e=s.w ↔ ed.line=[] := by
  grind [h.room,h.write.eq_iff,h.edit,inputBufSize]

lemma Tracks.committed_nil : s.r=s.w ↔ ed.committed=[] := by
  grind [h.room,h.read.eq_iff,h.write,inputBufSize]

lemma Tracks.last {init : List UInt8} {c : UInt8} (hl : ed.line=init++[c]) :
    s.buf ((s.e-1).toNat%inputBufSize)=c ∧
      Tracks {s with e := s.e-1} {ed with line := init} R := by
  have he := h.edit
  rw [hl,List.length_append,List.length_singleton,←Nat.add_assoc] at he
  have hp := he.pred
  have hw := h.window
  rw [hl,←List.append_assoc] at hw
  refine ⟨?_,⟨hw.init,h.read,h.write,hp,fun d hd => h.line d (by simp [hl,hd])⟩⟩
  have hc := hw.cell (ed.committed++init).length (by simp)
  rw [List.getElem_concat_length rfl] at hc
  rw [hp.index (by decide),Nat.add_assoc,←List.length_append,hc]

omit h

lemma killLoop_tracks (k : ℕ) (h : Tracks s ed R) (hk : ed.line.length=k) :
    Tracks (killLoop k s) {ed with line := []} R := by
  induction k generalizing s ed with
  | zero =>
    rw [List.length_eq_zero_iff] at hk
    rw [←hk]
    exact h
  | succ k ih =>
    have hne : ed.line≠[] := by grind
    have hsplit := List.dropLast_append_getLast hne
    obtain ⟨hc,hinit⟩ := h.last hsplit.symm
    have hcond : s.e≠s.w ∧ s.buf ((s.e-1).toNat%inputBufSize)≠newline :=
      ⟨fun heq => hne (h.line_nil.mp heq),by
        rw [hc]
        exact (h.line _ (List.getLast_mem hne)).1⟩
    rw [killLoop,if_pos hcond]
    grind

lemma key_tracks (h : Tracks s ed R) (c : UInt8) :
    Tracks (consoleintr c s).1 (ed.key c).1 R ∧ (consoleintr c s).2=(ed.key c).2 := by
  rw [consoleintr,Editor.key]
  by_cases hP : c=ctrlP
  · grind
  rw [if_neg hP,if_neg hP]
  by_cases hU : c=ctrlU
  · rw [if_pos hU,if_pos hU]
    exact ⟨killLoop_tracks _ h h.editing.symm,rfl⟩
  rw [if_neg hU,if_neg hU]
  by_cases hH : c=ctrlH ∨ c=del
  · rw [if_pos hH,if_pos hH]
    refine ⟨?_,rfl⟩
    by_cases hl : ed.line=[]
    · have hew := h.line_nil.mpr hl
      simp only [hew,ne_eq,not_true_eq_false,if_false,hl,List.dropLast_nil]
      rw [←hl]
      exact h
    · grind [h.line_nil,h.last,List.dropLast_append_getLast]
  rw [if_neg hH,if_neg hH]
  by_cases hroom : c≠0 ∧ ed.committed.length+ed.line.length< inputBufSize
  · rw [if_pos hroom,if_pos (by rw [h.unread]; exact hroom)]
    dsimp only
    generalize (if c=carriageReturn then newline else c)=c
    -- the character is stored behind the edit line
    have hlen : (ed.committed++ed.line).length=ed.committed.length+ed.line.length :=
      List.length_append
    have hpush := h.window.push (by rw [hlen]; exact hroom.2) c
    rw [hlen,←Nat.add_assoc,←h.edit.index (n := inputBufSize) (by decide)] at hpush
    rw [List.append_assoc] at hpush
    have hsucc := h.edit.succ
    have hunread : (s.e+1-s.r).toNat=ed.committed.length+(ed.line.length+1) := by
      grind [h.read.sub,inputBufSize]
    have hiff : (c=newline ∨ c=ctrlD ∨ (s.e+1-s.r).toNat=inputBufSize) ↔
        (c=newline ∨ c=ctrlD ∨ ed.committed.length+(ed.line++[c]).length=inputBufSize) := by
      grind
    by_cases hend : c=newline ∨ c=ctrlD ∨ (s.e+1-s.r).toNat=inputBufSize
    · rw [if_pos hend,if_pos (hiff.mp hend)]
      refine ⟨⟨?_,h.read,?_,?_,by simp⟩,rfl⟩
      · simpa using hpush
      · grind
      · grind
    · rw [if_neg hend,if_neg (fun hn => hend (hiff.mpr hn))]
      refine ⟨⟨hpush,h.read,h.write,?_,?_⟩,rfl⟩
      · grind
      · grind [h.line]
  · grind [h.unread]

lemma read_tracks (target n : ℕ) {room : ℕ} {got : List UInt8} (h : Tracks s ed R)
    (hroom : got.length+n≤room) :
    (consoleread target room n got s).2=(ed.read target n got).2 ∧
    ∃ taken,ed.committed=taken++(ed.read target n got).1.committed ∧
      Tracks (consoleread target room n got s).1 (ed.read target n got).1 (R+taken.length) := by
  induction n generalizing s ed R got with
  | zero => exact ⟨rfl,[],rfl,h⟩
  | succ n ih =>
    rw [consoleread,Editor.read]
    cases hcom : ed.committed with
    | nil =>
      grind [h.committed_nil]
    | cons c rest =>
      have hne : s.r≠s.w := fun heq => by simp [h.committed_nil.mp heq] at hcom
      have hw := h.window
      rw [hcom,List.cons_append] at hw
      have hc : s.buf (s.r.toNat%inputBufSize)=c := by
        rw [h.read.index (by decide)]
        exact hw.head
      -- the ring after the character is taken
      have htail : ∀ out,Tracks {s with r := s.r+1} ⟨rest,ed.line,out⟩ (R+1) := by
        intro out
        have h1 := h.write
        have h2 := h.edit
        rw [hcom,List.length_cons] at h1 h2
        exact ⟨hw.tail,h.read.succ,by rwa [Nat.add_assoc,Nat.add_comm 1],
          by rwa [Nat.add_right_comm R 1,Nat.add_assoc R],h.line⟩
      rw [if_neg hne]
      dsimp only
      rw [hc]
      by_cases hD : c=ctrlD
      · rw [if_pos hD,if_pos hD]
        refine ⟨rfl,?_⟩
        by_cases hlt : n+1<target
        · rw [if_pos hlt,if_pos hlt]
          refine ⟨[],by simp [hcom],?_⟩
          have hr : s.r+1-1=s.r := BitVec.add_sub_cancel _ _
          simp only [hr]
          exact h
        · rw [if_neg hlt,if_neg hlt]
          exact ⟨[c],rfl,htail _⟩
      rw [if_neg hD,if_neg hD,if_neg (by omega)]
      by_cases hN : c=newline
      · rw [if_pos hN,if_pos hN]
        exact ⟨rfl,[c],rfl,htail _⟩
      · rw [if_neg hN,if_neg hN]
        have hlen : (got++[c]).length+n≤room := by
          rw [List.length_append,List.length_singleton]
          omega
        obtain ⟨hres,taken,heq,htr⟩ := ih (htail (ed.output++[c])) hlen
        refine ⟨hres,c::taken,by rw [List.cons_append,←heq],?_⟩
        rwa [List.length_cons,Nat.add_comm taken.length,←Nat.add_assoc]

lemma read_room {target n m room : ℕ} {got got' : List UInt8} (hroom : got.length+n≤room)
    (h : (ed.read target n got).2=.wait m got') : got'.length+m≤room := by
  induction n generalizing ed got with
  | zero => simp [Editor.read] at h
  | succ n ih =>
    rw [Editor.read] at h
    grind

end Ring

section Simulation

variable {P : Type*}

/-- The readers on the console are where those on the editor are. -/
structure Simulates (s : Tty P Cons) (t : Tty P Editor) (R : ℕ) : Prop where
  dev : Tracks s.dev t.dev R
  pc : s.pc=t.pc
  killed : s.killed=t.killed
  trace : s.trace=t.trace
  room : ∀ p target room n got awake,s.pc p=.asleep target room n got awake→ got.length+n≤room

def validCall {D : Type*} (_ : Tty P D) : Act P→Prop
  | .call _ n room => n≤room
  | _ => True

/-- The committed characters of the editor after a step start with those before,
less the ones that were read. -/
def Keeps (t t' : Editor) (k : ℕ) : Prop := t.committed.drop k<+:t'.committed ∧ k≤t.committed.length

lemma wake_room {p : Pc} {target room n : ℕ} {got : List UInt8} {awake : Bool}
    (h : wake p=.asleep target room n got awake) :
    ∃ awake',p=.asleep target room n got awake' := by
  cases p with
  | out => simp [wake] at h
  | asleep target' room' n' got' awake' =>
    simp only [wake,Pc.asleep.injEq] at h
    obtain ⟨rfl,rfl,rfl,rfl,-⟩ := h
    exact ⟨awake',rfl⟩

lemma key_committed (c : UInt8) (ed : Editor) : ed.committed<+:(ed.key c).1.committed := by
  grind [Editor.key]

variable [DecidableEq P]

lemma ttyStep_key {D : Type*} (d : Device D) (s : Tty P D) (c : UInt8) :
    ttyStep d s (.key c)=.next {s with
      dev := (d.key c s.dev).1
      pc := if (d.key c s.dev).2 then fun p => wake (s.pc p) else s.pc} := rfl

lemma readTurn_simulates {s : Tty P Cons} {t : Tty P Editor} {R : ℕ} (h : Simulates s t R) (p : P)
    (target : ℕ) {room n : ℕ} {got : List UInt8} (hroom : got.length+n≤room) :
    ∃ k,Simulates (readTurn console s p target room n got) (readTurn editor t p target room n got)
        (R+k) ∧
      Keeps t.dev (readTurn editor t p target room n got).dev k := by
  obtain ⟨hres,taken,hcom,htr⟩ := read_tracks target n h.dev hroom
  have hkeep : Keeps t.dev (t.dev.read target n got).1 taken.length := by
    rw [Keeps,hcom,List.drop_left,List.length_append]
    exact ⟨List.prefix_rfl,by omega⟩
  refine ⟨taken.length,?_⟩
  simp only [readTurn,console,editor,hres]
  cases hr : (t.dev.read target n got).2 with
  | wait m got' =>
    have hm := read_room hroom hr
    simp only [h.killed]
    split
    · refine ⟨⟨htr,by simp [h.pc],rfl,by simp [h.trace],fun q t' r' n' g' a' hq => ?_⟩,hkeep⟩
      by_cases hqp : q=p
      · simp [hqp] at hq
      · simp only [update_of_ne hqp] at hq
        exact h.room q t' r' n' g' a' hq
    · refine ⟨⟨htr,by simp [h.pc],rfl,h.trace,fun q t' r' n' g' a' hq => ?_⟩,hkeep⟩
      by_cases hqp : q=p
      · simp only [hqp,update_self,Pc.asleep.injEq] at hq
        obtain ⟨-,rfl,rfl,rfl,-⟩ := hq
        exact hm
      · simp only [update_of_ne hqp] at hq
        exact h.room q t' r' n' g' a' hq
  | done m got' =>
    refine ⟨⟨htr,by simp [h.pc],h.killed,by simp [h.trace],fun q t' r' n' g' a' hq => ?_⟩,hkeep⟩
    by_cases hqp : q=p
    · simp [hqp] at hq
    · simp only [update_of_ne hqp] at hq
      exact h.room q t' r' n' g' a' hq

lemma ttyStep_simulates {s s' : Tty P Cons} {t : Tty P Editor} {R : ℕ} (h : Simulates s t R)
    {a : Act P} (hok : validCall s a) (hs : ttyStep console s a=.next s') :
    ∃ t' k,ttyStep editor t a=.next t' ∧ Simulates s' t' (R+k) ∧ Keeps t.dev t'.dev k := by
  cases a with
  | key c =>
    rw [ttyStep_key,Outcome.next.injEq] at hs
    subst hs
    obtain ⟨htr,hwake⟩ := key_tracks h.dev c
    refine ⟨_,0,ttyStep_key _ _ _,⟨htr,?_,h.killed,h.trace,fun p t' r' n' g' a' hp => ?_⟩,?_,
      Nat.zero_le _⟩
    · show (if (consoleintr c s.dev).2 then fun p => wake (s.pc p) else s.pc)=
        if (t.dev.key c).2 then fun p => wake (t.pc p) else t.pc
      rw [hwake,h.pc]
    · dsimp only at hp
      split at hp
      · obtain ⟨a'',ha⟩ := wake_room hp
        exact h.room p t' r' n' g' a'' ha
      · exact h.room p t' r' n' g' a' hp
    · exact key_committed c t.dev
  | call p n room =>
    rw [ttyStep] at hs
    split at hs
    · next hout =>
      cases hs
      have hn : ([] : List UInt8).length+n.toNat≤room := by
        have := hok
        rw [validCall] at this
        grind
      obtain ⟨k,hsim,hkeep⟩ := readTurn_simulates h p n.toNat hn
      grind [ttyStep,h.pc]
    · cases hs
  | resume p =>
    rw [ttyStep] at hs
    split at hs
    · next target room n got hp =>
      cases hs
      obtain ⟨k,hsim,hkeep⟩ := readTurn_simulates h p target
        (h.room p target room n got true hp)
      refine ⟨_,k,?_,hsim,hkeep⟩
      rw [ttyStep,←h.pc,hp]
    · cases hs
  | kill p =>
    cases hs
    refine ⟨_,0,rfl,⟨h.dev,by simp [h.pc],by simp [h.killed],h.trace,fun q t' r' n' g' a' hq => ?_⟩,
      List.prefix_rfl,Nat.zero_le _⟩
    by_cases hqp : q=p
    · subst hqp
      simp only [update_self] at hq
      obtain ⟨a'',ha⟩ := wake_room hq
      exact h.room q t' r' n' g' a'' ha
    · simp only [update_of_ne hqp] at hq
      exact h.room q t' r' n' g' a' hq

end Simulation

section Concatenation

variable {P : Type*} {t : Tty P Editor}

def alone {D : Type*} (s : Tty P D) : Act P→Prop
  | .call _ _ _ => ∀ q,s.pc q=.out
  | .kill _ => False
  | _ => True

/-- What reads have returned, followed by what the current one has, is the output of
the editor. -/
structure Collected (t : Tty P Editor) : Prop where
  killed : ∀ p,t.killed p=false
  output : ∃ got,(t.trace.map Event.data).flatten++got=t.dev.output ∧
    ((∀ p,t.pc p=.out) ∧ got=[] ∨
      ∃ p target room n awake,t.pc p=.asleep target room n got awake ∧ ∀ q,q≠p→t.pc q=.out)

lemma read_output (target n : ℕ) (got : List UInt8) (ed : Editor) : ∃ new,
    (ed.read target n got).1.output=ed.output++new ∧
    ∃ m,(ed.read target n got).2=.wait m (got++new) ∨ (ed.read target n got).2=.done m (got++new) := by
  induction n generalizing ed got with
  | zero => exact ⟨[],by simp [Editor.read],0,by simp [Editor.read]⟩
  | succ n ih =>
    rw [Editor.read]
    split
    · exact ⟨[],by simp,n+1,Or.inl (by simp)⟩
    · next c rest _ =>
      split
      · refine ⟨[],?_,n+1,Or.inr (by simp)⟩
        split <;> simp
      · dsimp only
        split
        · exact ⟨[c],rfl,n,Or.inr rfl⟩
        · obtain ⟨new,hout,m,hres⟩ := ih (got++[c])
            {ed with committed := rest,output := ed.output++[c]}
          refine ⟨c::new,by simp [hout],m,?_⟩
          simpa using hres

lemma key_output (c : UInt8) (ed : Editor) : (ed.key c).1.output=ed.output := by
  grind [Editor.key]

lemma wake_out {p : Pc} (h : p=.out) : wake p=.out := by
  rw [h]
  rfl

variable [DecidableEq P]

lemma readTurn_collected {p : P} {target room n : ℕ} {got : List UInt8}
    (hk : ∀ q,t.killed q=false) (hout : ∀ q,q≠p→t.pc q=.out)
    (hgot : (t.trace.map Event.data).flatten++got=t.dev.output) :
    Collected (readTurn editor t p target room n got) := by
  obtain ⟨new,hnew,m,hres⟩ := read_output target n got t.dev
  simp only [readTurn,editor]
  rcases hres with hres | hres
  · simp only [hres,hk p,Bool.false_eq_true,if_false]
    refine ⟨hk,got++new,?_,Or.inr ⟨p,target,room,m,false,by simp,fun q hq => ?_⟩⟩
    · grind
    · simp [hq,hout q hq]
  · simp only [hres]
    refine ⟨hk,[],?_,Or.inl ⟨fun q => ?_,rfl⟩⟩
    · rw [hnew,←hgot]
      simp
    · grind

lemma ttyStep_collected {t' : Tty P Editor} (h : Collected t) {a : Act P} (hok : alone t a)
    (ht : ttyStep editor t a=.next t') : Collected t' := by
  obtain ⟨hk,got,hgot,hpc⟩ := h
  cases a with
  | key c =>
    rw [ttyStep_key,Outcome.next.injEq] at ht
    subst ht
    have hcol : ∀ pc' : P→Pc,(∀ p,pc' p=t.pc p ∨ pc' p=wake (t.pc p))→
        (∀ p,pc' p=.out) ∧ got=[] ∨
          ∃ p target room n awake,pc' p=.asleep target room n got awake ∧ ∀ q,q≠p→pc' q=.out := by
      intro pc' hpc'
      have hstay : ∀ q,t.pc q=.out→pc' q=.out := by
        intro q hq
        rcases hpc' q with hq' | hq'
        · rw [hq',hq]
        · rw [hq',wake_out hq]
      rcases hpc with ⟨hall,hnil⟩ | ⟨p,target,room,n,awake,hp,hout⟩
      · exact Or.inl ⟨fun p => hstay p (hall p),hnil⟩
      · refine Or.inr ⟨p,target,room,n,?_⟩
        rcases hpc' p with hq' | hq'
        · exact ⟨awake,by rw [hq',hp],fun q hq => hstay q (hout q hq)⟩
        · exact ⟨true,by rw [hq',hp]; rfl,fun q hq => hstay q (hout q hq)⟩
    refine ⟨hk,got,?_,hcol _ fun p => ?_⟩
    · exact hgot.trans (key_output c t.dev).symm
    · dsimp only
      split
      · exact Or.inr rfl
      · exact Or.inl rfl
  | call p n room =>
    rw [ttyStep] at ht
    split at ht
    · cases ht
      have hnil : got=[] := by
        rcases hpc with ⟨-,hnil⟩ | ⟨q,_,_,_,_,hq,-⟩
        · exact hnil
        · have hqo := hok q
          grind
      subst hnil
      exact readTurn_collected hk (fun q _ => hok q) hgot
    · cases ht
  | resume p =>
    rw [ttyStep] at ht
    split at ht
    · next target room n got' hp =>
      cases ht
      rcases hpc with ⟨hall,-⟩ | ⟨q,target',room',n',awake,hq,hout⟩
      · simp [hall p] at hp
      · have hpq : p=q := by
          by_contra hne
          simp [hout p hne] at hp
        subst hpq
        rw [hp,Pc.asleep.injEq] at hq
        obtain ⟨-,-,-,rfl,-⟩ := hq
        exact readTurn_collected hk hout hgot
    · cases ht
  | kill p => exact absurd hok id

lemma run_simulates {as : List (Act P)} {s s' : Tty P Cons} {R : ℕ} (h : Simulates s t R)
    (hok : Guarded (ttyStep console) validCall s as) (hrun : run (ttyStep console) s as=.next s') :
    ∃ t' R',run (ttyStep editor) t as=.next t' ∧ Simulates s' t' R' ∧
      (Collected t→Guarded (ttyStep console) alone s as→ Collected t') := by
  induction as generalizing s t R with
  | nil =>
    cases hrun
    exact ⟨t,R,rfl,h,fun hc _ => hc⟩
  | cons a as ih =>
    obtain ⟨u,hu,hrest⟩ := run_cons_next.mp hrun
    obtain ⟨v,k,hv,hsim,-⟩ := ttyStep_simulates h hok.1 hu
    obtain ⟨t',R',ht',hsim',hcol⟩ := ih hsim (hok.2 u hu) hrest
    refine ⟨t',R',run_cons_next.mpr ⟨v,hv,ht'⟩,hsim',fun hc ha => hcol ?_ (ha.2 u hu)⟩
    refine ttyStep_collected hc ?_ hv
    have hal := ha.1
    revert hal
    cases a <;> simp only [alone,h.pc,imp_self]

end Concatenation

section Theorem

variable {P : Type*}

lemma start_simulates : Simulates (startTty P initCons) (startTty P initEditor) 0 where
  dev := ⟨Window.nil _ _ _,rfl,rfl,rfl,by simp [startTty,initEditor]⟩
  pc := rfl
  killed := rfl
  trace := rfl
  room p target room n got awake hp := by simp [startTty] at hp

lemma start_collected : Collected (startTty P initEditor) :=
  ⟨fun _ => rfl,[],rfl,Or.inl ⟨fun _ => rfl,rfl⟩⟩

lemma Simulates.committed_kept {s s' : Tty P Cons} {t t' : Tty P Editor} {R k : ℕ}
    (h : Simulates s t R) (h' : Simulates s' t' (R+k)) (hk : Keeps t.dev t'.dev k) (i : ℕ)
    (hi : R+k≤ i) (hi' : i<R+t.dev.committed.length) :
    s'.dev.buf (i%inputBufSize)=s.dev.buf (i%inputBufSize) := by
  obtain ⟨⟨more,hmore⟩,hle⟩ := hk
  obtain ⟨j,rfl⟩ := Nat.exists_eq_add_of_le hi
  have hj : k+j<t.dev.committed.length := by omega
  have hj' : j<(t.dev.committed.drop k).length := by rw [List.length_drop]; omega
  have h1 := h.dev.window.cell (k+j) (by rw [List.length_append]; omega)
  grind [h'.dev.window.cell]

variable [DecidableEq P]

/-- For every interleaving of keys and reads with valid buffers: the indices are in
order and at most a buffer apart, up to wrap-around; a step leaves every
character that stays committed in its cell; and every read returns what it
returns on the line editor. If calls do not overlap, what they return is together
the output of the editor. -/
theorem console_is_line_editor {as : List (Act P)} {s : Tty P Cons}
    (hok : Guarded (ttyStep console) validCall (startTty P initCons) as)
    (hrun : run (ttyStep console) (startTty P initCons) as=.next s) :
    (∃ R W E,Counts s.dev.r R ∧ Counts s.dev.w W ∧ Counts s.dev.e E ∧
      R≤W ∧ W≤E ∧ E≤R+inputBufSize) ∧
    (∀ a s',validCall s a→ttyStep console s a=.next s'→∃ R W R' W',
      Counts s.dev.r R ∧ Counts s.dev.w W ∧ Counts s'.dev.r R' ∧ Counts s'.dev.w W' ∧
      R≤R' ∧ R'≤W ∧ W≤W' ∧ W'≤R'+inputBufSize ∧
      ∀ k,R'≤k→k<W→s'.dev.buf (k%inputBufSize)=s.dev.buf (k%inputBufSize)) ∧
    ∃ t,run (ttyStep editor) (startTty P initEditor) as=.next t ∧ t.trace=s.trace ∧
      (Guarded (ttyStep console) alone (startTty P initCons) as→(∀ p,s.pc p=.out)→
        (s.trace.map Event.data).flatten=t.dev.output) := by
  obtain ⟨t,R,ht,hsim,hcol⟩ := run_simulates start_simulates hok hrun
  have hroom := hsim.dev.room
  refine ⟨⟨R,_,_,hsim.dev.read,hsim.dev.write,hsim.dev.edit,by omega,by omega,by omega⟩,?_,
    t,ht,hsim.trace.symm,?_⟩
  · intro a s' ha hs'
    obtain ⟨t',k,-,hsim',hkeep⟩ := ttyStep_simulates hsim ha hs'
    have hroom' := hsim'.dev.room
    have hlen := hkeep.1.length_le
    rw [List.length_drop] at hlen
    have hle := hkeep.2
    exact ⟨R,_,_,_,hsim.dev.read,hsim.dev.write,hsim'.dev.read,hsim'.dev.write,by omega,by omega,
      by omega,by omega,fun i hi hi' => hsim.committed_kept hsim' hkeep i hi hi'⟩
  · intro halone hout
    obtain ⟨-,got,hgot,hpc⟩ := hcol start_collected halone
    rw [hsim.trace,←hgot]
    rcases hpc with ⟨-,rfl⟩ | ⟨p,_,_,_,_,hp,-⟩
    · rw [List.append_nil]
    · have hpo := hout p
      rw [hsim.pc,hp] at hpo
      cases hpo

/-- A read that waits, and a line that is edited before it ends. -/
def typing : List (Act Unit) :=
  [.key 97,.call () 10 10,.key 98,.key ctrlH,.key 99,.key carriageReturn,.resume (),.key ctrlD,
    .call () 10 10]

theorem typing_read : ∃ s,run (ttyStep console) (startTty Unit initCons) typing=.next s ∧
    s.trace=[⟨(),3,[97,99,10]⟩,⟨(),0,[]⟩] ∧
    ∃ t,run (ttyStep editor) (startTty Unit initEditor) typing=.next t ∧ t.trace=s.trace := by
  obtain ⟨s,hs,hobs⟩ := exists_of_state? (o := run (ttyStep console) (startTty Unit initCons) typing)
    (f := fun s => s.trace) (v := [⟨(),3,[97,99,10]⟩,⟨(),0,[]⟩]) (by decide +kernel)
  have hok : Guarded (ttyStep console) validCall (startTty Unit initCons) typing := by
    refine guarded_of_check (k := fun _ a => match a with | .call _ n room => n≤room | _ => true)
      (fun s a ha => ?_) (by decide +kernel)
    cases a with
    | call p n room => simpa [validCall] using ha
    | _ => trivial
  obtain ⟨-,-,t,ht,htrace,-⟩ := console_is_line_editor hok hs
  exact ⟨s,hs,hobs,t,ht,htrace⟩

end Theorem

end Xv6Riscv.LineDiscipline
