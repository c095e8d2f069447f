import Xv6Riscv.LogReservation

/-!
# Crash atomicity of the log

The home blocks that a recovery would leave are a function of the disk alone:
the disk with the transaction named by its header installed. Every block
write of commit and of recover_from_log either keeps that function's value
or, at the commit point, moves it by exactly the committing transaction. This
single fact covers every crash point and any number of repeated crashes.
-/

namespace Xv6Riscv.LogRecovery

open Function
open Transition LogMachine LogReservation

def applyTxn (d : ℕ→Block) (t : Txn) : ℕ→Block :=
  t.foldl (fun d e => update d e.1.toNat e.2) d

def applyTxns (d : ℕ→Block) (ts : List Txn) : ℕ→Block := ts.foldl applyTxn d

/-- The applied transactions of a history: every transaction whose commit
returned, and of those a crash interrupted each one wholly or not at all. -/
inductive Selected : List (Txn×Bool)→List Txn→Prop where
  | nil : Selected [] []
  | keep {h ts} (t : Txn) (returned : Bool) :
      Selected h ts→Selected (h++[(t,returned)]) (ts++[t])
  | drop {h ts} (t : Txn) : Selected h ts→Selected (h++[(t,false)]) ts

variable {b k tail : ℕ}

lemma applyTxn_congr {d d' : ℕ→Block} {t : Txn}
    (h : d b=d' b ∨ ∃ e∈t,e.1.toNat=b) : applyTxn d t b=applyTxn d' t b := by
  induction t generalizing d d' with
  | nil =>
    rcases h with h|⟨e,he,_⟩
    · exact h
    · exact absurd he List.not_mem_nil
  | cons e t ih =>
    apply ih
    grind

variable {d disk : ℕ→Block}

lemma applyTxn_of_installed {t : Txn} (h : ∀ e∈t,d e.1.toNat=e.2) : applyTxn d t=d := by
  induction t with
  | nil => rfl
  | cons e t ih =>
    grind [update_eq_self,applyTxn]

/-- The transaction that a header and the log blocks after it describe. -/
def loggedTxn (g : LogArea) (h : LogHeader) (disk : ℕ→Block) : Txn :=
  (List.range h.n).map fun i => (h.blockAt i,disk (g.start+i+1))

/-- The home blocks that recover_from_log would leave on this disk. -/
def replay (g : LogArea) (disk : ℕ→Block) : ℕ→Block :=
  applyTxn disk (loggedTxn g (getHeader (disk g.start)) disk)

/-- Two headers name the same blocks; stale entries may differ. -/
def SameHeader (h h' : LogHeader) : Prop := h.n=h'.n ∧ ∀ i<h.n,h.blockAt i=h'.blockAt i

/-- A header the log code can have built: it fits the area and names distinct
home blocks. -/
structure WfHeader (g : LogArea) (h : LogHeader) : Prop where
  fits : h.n≤logSize
  area : h.n+1≤g.size
  home : ∀ i<h.n,g.Home (h.blockAt i).toNat
  distinct : ∀ i<h.n,∀ j<h.n,h.blockAt i=h.blockAt j→i=j

variable {h lh : LogHeader}

lemma wfHeader_of_zero (g : LogArea) (hn : h.n=0) : WfHeader g h := by
  have hs := g.size_pos
  refine ⟨?_,?_,?_,?_⟩
  · omega
  · omega
  · intro i hi
    omega
  · intro i hi
    omega

lemma sameHeader_put (b : Block) (hn : lh.n≤logSize) :
    SameHeader (getHeader (putHeader b lh)) lh := by
  have hsize : lh.n<2^32 := by simp only [logSize,maxOpBlocks] at hn; omega
  have hcount : (getHeader (putHeader b lh)).n=lh.n := by
    grind [getHeader,putHeader,UInt32.toNat_ofNat']
  refine ⟨hcount,fun i hi => ?_⟩
  rw [hcount] at hi
  have hlt : i<logSize := by omega
  have hne : i+1≠0 := by omega
  have hle : i+1≤lh.n := by omega
  simp only [LogHeader.blockAt,dif_pos hlt,getHeader,putHeader,if_neg hne,if_pos hle,
    Nat.add_sub_cancel]

variable {g : LogArea}

lemma SameHeader.wf {h h' : LogHeader} (hs : SameHeader h h')
    (hw : WfHeader g h') : WfHeader g h := by
  obtain ⟨hn,hb⟩ := hs
  refine ⟨?_,?_,fun i hi => ?_,fun i hi j hj hij => ?_⟩
  · rw [hn]
    exact hw.fits
  · rw [hn]
    exact hw.area
  · grind [hw.home]
  · grind [hw.distinct]

lemma SameHeader.loggedTxn {h h' : LogHeader} (hs : SameHeader h h')
    (disk : ℕ→Block) : loggedTxn g h disk=LogRecovery.loggedTxn g h' disk := by
  obtain ⟨hn,hb⟩ := hs
  simp only [LogRecovery.loggedTxn,←hn]
  grind [List.map_congr_left]

lemma replay_of_zero (h : (getHeader (disk g.start)).n=0) : replay g disk=disk := by
  simp only [replay,loggedTxn,h,List.range_zero,List.map_nil,applyTxn,List.foldl_nil]

lemma mem_loggedTxn {e : UInt32×Block} :
    e∈loggedTxn g h disk ↔ ∃ i<h.n,e=(h.blockAt i,disk (g.start+i+1)) := by grind [loggedTxn]

lemma not_home_area (hk : k<g.size) : ¬g.Home (g.start+k) := by
  unfold LogArea.Home
  omega

variable {data : Block}

lemma replay_write_log
    (hz : (getHeader (disk g.start)).n=0) (hk : 0<k) (hks : k<g.size) (hb : g.Home b) :
    replay g (update disk (g.start+k) data) b=replay g disk b := by
  have hne : g.start≠g.start+k := by omega
  have hz' : (getHeader (update disk (g.start+k) data g.start)).n=0 := by grind
  rw [replay_of_zero hz,replay_of_zero hz']
  apply update_of_ne
  rintro rfl
  exact not_home_area hks hb

/-- The commit point: with an empty header on disk and the log blocks filled,
storing the header moves the home blocks by exactly the logged transaction. -/
lemma replay_write_head
    {t : Txn} (hz : (getHeader (disk g.start)).n=0) (hs : SameHeader (getHeader data) lh)
    (ht : loggedTxn g lh disk=t) (hb : g.Home b) :
    replay g (update disk g.start data) b=applyTxn (replay g disk) t b := by
  have hlogged : loggedTxn g lh (update disk g.start data)=loggedTxn g lh disk := by
    simp only [loggedTxn]
    apply List.map_congr_left
    intro i _
    rw [update_of_ne (by omega)]
  have hne : b≠g.start := by
    rintro rfl
    exact not_home_area (k:=0) g.size_pos hb
  rw [replay_of_zero hz,replay,update_self,hs.loggedTxn,hlogged,ht]
  apply applyTxn_congr
  left
  exact update_of_ne hne _ _

lemma replay_install {i : ℕ}
    (hw : WfHeader g (getHeader (disk g.start))) (hi : i<(getHeader (disk g.start)).n) (b : ℕ) :
    replay g (update disk ((getHeader (disk g.start)).blockAt i).toNat
      (disk (g.start+i+1))) b=replay g disk b := by
  have hhome := hw.home i hi
  have harea := hw.area
  have hout : ∀ k<g.size,g.start+k≠((getHeader (disk g.start)).blockAt i).toNat := by
    intro k hk heq
    exact not_home_area hk (heq ▸ hhome)
  have hstart : g.start≠((getHeader (disk g.start)).blockAt i).toNat :=
    hout 0 g.size_pos
  have hlogged : loggedTxn g (getHeader (disk g.start))
      (update disk ((getHeader (disk g.start)).blockAt i).toNat (disk (g.start+i+1)))=
      loggedTxn g (getHeader (disk g.start)) disk := by
    simp only [loggedTxn]
    apply List.map_congr_left
    intro j hj
    have hjn := List.mem_range.mp hj
    have hne : g.start+j+1≠((getHeader (disk g.start)).blockAt i).toNat := hout (j+1) (by omega)
    rw [update_of_ne hne]
  rw [replay,update_of_ne hstart,hlogged,replay]
  apply applyTxn_congr
  by_cases hb : ((getHeader (disk g.start)).blockAt i).toNat=b
  · exact Or.inr ⟨_,mem_loggedTxn.mpr ⟨i,hi,rfl⟩,hb⟩
  · exact Or.inl (update_of_ne (Ne.symm hb) _ _)

def Installed (g : LogArea) (disk : ℕ→Block) (h : LogHeader) (tail : ℕ) : Prop :=
  ∀ i<tail,i<h.n→disk (h.blockAt i).toNat=disk (g.start+i+1)

/-- Installing entry tail extends the installed entries: the blocks are
distinct home blocks, so no earlier entry and no log block is overwritten. -/
lemma installed_succ (hw : WfHeader g h) (ht : tail<h.n) (hi : Installed g disk h tail) :
    Installed g (update disk (h.blockAt tail).toNat (disk (g.start+tail+1))) h
      (tail+1) := by
  have harea := hw.area
  have hout : ∀ k<g.size,g.start+k≠(h.blockAt tail).toNat := by
    intro k hk heq
    exact not_home_area hk (heq ▸ hw.home tail ht)
  intro i hlt hn
  have hlog : update disk (h.blockAt tail).toNat (disk (g.start+tail+1)) (g.start+i+1)=
      disk (g.start+i+1) := update_of_ne (hout (i+1) (by omega)) _ _
  by_cases heq : i=tail
  · grind
  · have hne : (h.blockAt i).toNat≠(h.blockAt tail).toNat := by
      intro hb
      exact heq (hw.distinct i hn tail ht (UInt32.toNat_inj.mp hb))
    rw [hlog,update_of_ne hne]
    exact hi i (by omega) hn

lemma replay_of_installed (hi : Installed g disk (getHeader (disk g.start)) tail)
    (ht : (getHeader (disk g.start)).n≤tail) : replay g disk=disk := by
  apply applyTxn_of_installed
  intro e he
  obtain ⟨i,hn,rfl⟩ := mem_loggedTxn.mp he
  exact hi i (by omega) hn

lemma replay_erase (hr : ∀ b,g.Home b→ replay g disk b=disk b) (hd : (getHeader data).n=0)
    (hb : g.Home b) :
    replay g (update disk g.start data) b=replay g disk b := by
  have hz : (getHeader (update disk g.start data g.start)).n=0 := by grind
  have hne : b≠g.start := by
    rintro rfl
    exact not_home_area (k:=0) g.size_pos hb
  rw [replay_of_zero hz,update_of_ne hne,hr b hb]

/-- Which transactions count as applied, by position of the code. -/
def AppliedAt (s : LogState) (sel : List Txn) : Prop :=
  match s.phase with
  | .writeLog _ => ∃ h,s.history=h++[(pendingTxn s,false)] ∧ Selected h sel
  | .writeHead => ∃ h,s.history=h++[(pendingTxn s,false)] ∧ Selected h sel
  | .install _ => ∃ h t sel',s.history=h++[(t,false)] ∧ Selected h sel' ∧ sel=sel'++[t]
  | .eraseHead => ∃ h t sel',s.history=h++[(t,false)] ∧ Selected h sel' ∧ sel=sel'++[t]
  | _ => Selected s.history sel

variable {s t : LogState}

lemma AppliedAt.selected {sel : List Txn} (h : AppliedAt s sel) :
    Selected s.history sel := by
  unfold AppliedAt at h
  split at h
  · obtain ⟨h',heq,hsel⟩ := h
    rw [heq]
    exact .drop _ hsel
  · obtain ⟨h',heq,hsel⟩ := h
    rw [heq]
    exact .drop _ hsel
  · obtain ⟨h',t,sel',heq,hsel,rfl⟩ := h
    rw [heq]
    exact .keep t false hsel
  · obtain ⟨h',t,sel',heq,hsel,rfl⟩ := h
    rw [heq]
    exact .keep t false hsel
  · exact h

def PhaseDisk (g : LogArea) (s : LogState) : Prop :=
  match s.phase with
  | .running => (getHeader (s.disk g.start)).n=0
  | .commit => (getHeader (s.disk g.start)).n=0
  | .writeLog tail => (getHeader (s.disk g.start)).n=0 ∧
      ∀ i<tail,i<s.lh.n→s.disk (g.start+i+1)=s.cache (s.lh.blockAt i).toNat
  | .writeHead => (getHeader (s.disk g.start)).n=0 ∧
      ∀ i<s.lh.n,s.disk (g.start+i+1)=s.cache (s.lh.blockAt i).toNat
  | .install tail => SameHeader (getHeader (s.disk g.start)) s.lh ∧ Installed g s.disk s.lh tail
  | .eraseHead => s.lh.n=0 ∧ ∀ b,g.Home b→ replay g s.disk b=s.disk b
  | .committed => (getHeader (s.disk g.start)).n=0 ∧ s.lh.n=0
  | .crashed => True
  | .recoverInstall tail =>
      SameHeader (getHeader (s.disk g.start)) s.lh ∧ Installed g s.disk s.lh tail
  | .recoverErase => s.lh.n=0 ∧ ∀ b,g.Home b→ replay g s.disk b=s.disk b

structure CrashInv (g : LogArea) (d : ℕ→Block) (s : LogState) : Prop where
  group : GroupInv s
  memory : WfHeader g s.lh
  stored : WfHeader g (getHeader (s.disk g.start))
  coherent : ∀ k<g.size,s.cache (g.start+k)=s.disk (g.start+k)
  atomic : ∃ sel,AppliedAt s sel ∧ ∀ b,g.Home b→ replay g s.disk b=applyTxns d sel b
  position : PhaseDisk g s

lemma crashInv_powerOn (h0 : (getHeader (d g.start)).n=0) :
    CrashInv g d (powerOn d) := by
  refine ⟨groupInv_powerOn d,wfHeader_of_zero g rfl,wfHeader_of_zero g h0,fun k _ => rfl,?_,trivial⟩
  refine ⟨[],Selected.nil,fun b _ => ?_⟩
  rw [show (powerOn d).disk=d from rfl,replay_of_zero h0]
  rfl

lemma crashInv_crash (h : CrashInv g d s) :
    CrashInv g d (crash s) := by
  obtain ⟨sel,hsel,hreplay⟩ := h.atomic
  exact ⟨⟨rfl,rfl,fun _ => rfl⟩,wfHeader_of_zero g rfl,h.stored,h.coherent,
    ⟨sel,hsel.selected,hreplay⟩,trivial⟩

lemma crashInv_reboot (h : CrashInv g d s) (ht : reboot g s=.next t) : CrashInv g d t := by
  have hg := groupInv_recover h.group (Or.inr ht)
  unfold reboot at ht
  split_ifs at ht with hp
  cases ht
  obtain ⟨sel,hsel,hreplay⟩ := h.atomic
  exact ⟨hg,h.stored,h.stored,fun k _ => rfl,⟨sel,hsel.selected,hreplay⟩,
    ⟨rfl,fun i _ => rfl⟩,fun i hi => absurd hi (Nat.not_lt_zero i)⟩

lemma wfHeader_recordBlock {b : UInt32} (h : WfHeader g lh)
    (hn : lh.n<logSize) (hs : lh.n+1<g.size) (hb : g.Home b.toNat) :
    WfHeader g (recordBlock lh b) := by
  by_cases hl : Logged lh b
  · rw [recordBlock_of_logged hl]
    exact h
  · rw [recordBlock_of_not_logged hl]
    have hold : ∀ i,i<lh.n+1→i≠lh.n→i<lh.n := fun i hi hne => by omega
    refine ⟨?_,?_,fun i hi => ?_,fun i hi j hj hij => ?_⟩
    · dsimp only
      omega
    · dsimp only
      omega
    · rw [blockAt_append hn]
      split
      · exact hb
      · rename_i hne
        exact h.home i (hold i hi hne)
    · rw [blockAt_append hn,blockAt_append hn] at hij
      split at hij <;> split at hij
      · omega
      · rename_i hne
        exact absurd ⟨j,hold j hj hne,hij.symm⟩ hl
      · rename_i hne _
        exact absurd ⟨i,hold i hi hne,hij⟩ hl
      · grind [h.distinct]

lemma crashInv_calls (h : CrashInv g d s) (hg : GroupInv t) :
    (beginOp s=.next t → CrashInv g d t) ∧
    (∀ op b data,op<s.ops.length → g.Home b.toNat → logWrite g s op b data=.next t →
      CrashInv g d t) ∧
    (∀ op,op<s.ops.length → endOp s op=.next t → CrashInv g d t) := by
  obtain ⟨sel,hsel,hreplay⟩ := h.atomic
  have hpos := h.position
  refine ⟨fun ht => ?_,fun op b data hop hb ht => ?_,fun op hop ht => ?_⟩
  · unfold beginOp at ht
    split_ifs at ht
    cases ht
    exact ⟨hg,h.memory,h.stored,h.coherent,h.atomic,h.position⟩
  · have hrun := h.group.running hop
    unfold logWrite at ht
    split_ifs at ht with hfull hout
    cases ht
    have hmem := wfHeader_recordBlock h.memory (by omega) (by omega) hb
    refine ⟨hg,hmem,h.stored,fun k hk => ?_,⟨sel,?_,hreplay⟩,?_⟩
    · dsimp only
      rw [update_of_ne]
      · exact h.coherent k hk
      · intro heq
        exact not_home_area hk (heq ▸ hb)
    · simp only [AppliedAt,hrun] at hsel ⊢
      exact hsel
    · simp only [PhaseDisk,hrun] at hpos ⊢
      exact hpos
  · have hrun := h.group.running hop
    simp only [AppliedAt,hrun] at hsel
    simp only [PhaseDisk,hrun] at hpos
    unfold endOp at ht
    dsimp only at ht
    split_ifs at ht
    · cases ht
      exact ⟨hg,h.memory,h.stored,h.coherent,⟨sel,hsel,hreplay⟩,hpos⟩
    · cases ht
      refine ⟨hg,h.memory,h.stored,h.coherent,⟨sel,?_,hreplay⟩,?_⟩
      · simp only [AppliedAt,hrun]
        exact hsel
      · simp only [PhaseDisk,hrun]
        exact hpos

lemma pendingTxn_bwrite (hw : WfHeader g s.lh) (hk : k<g.size) (data : Block) :
    pendingTxn (bwrite s (g.start+k) data)=pendingTxn s := by
  simp only [pendingTxn,bwrite]
  apply List.map_congr_left
  intro i hi
  have hne : (s.lh.blockAt i).toNat≠g.start+k := by
    intro heq
    exact not_home_area hk (heq ▸ hw.home i (List.mem_range.mp hi))
  rw [update_of_ne hne]

lemma coherent_bwrite (h : ∀ k<g.size,s.cache (g.start+k)=s.disk (g.start+k)) :
    ∀ k<g.size,(bwrite s b data).cache (g.start+k)=(bwrite s b data).disk (g.start+k) := by
  intro k hk
  simp only [bwrite,update_apply,h k hk]

lemma crashInv_writeLog
    (h : CrashInv g d s) (hp : s.phase=.writeLog tail) (hlt : tail<s.lh.n) (hg : GroupInv t)
    (ht : t={bwrite s (g.start+tail+1) (s.cache (s.lh.blockAt tail).toNat) with
      phase := .writeLog (tail+1)}) : CrashInv g d t := by
  subst ht
  have harea := h.memory.area
  have hpos := h.position
  simp only [PhaseDisk,hp] at hpos
  obtain ⟨hz,hfilled⟩ := hpos
  obtain ⟨sel,hsel,hreplay⟩ := h.atomic
  simp only [AppliedAt,hp] at hsel
  have hstart : (update s.disk (g.start+tail+1) (s.cache (s.lh.blockAt tail).toNat))
      g.start=s.disk g.start := update_of_ne (by omega) _ _
  have hhome : ∀ i<s.lh.n,(s.lh.blockAt i).toNat≠g.start+tail+1 := by
    intro i hi heq
    exact not_home_area (k:=tail+1) (by omega) (heq ▸ h.memory.home i hi)
  refine ⟨hg,h.memory,?_,coherent_bwrite h.coherent,⟨sel,?_,fun b hb => ?_⟩,?_,
    fun i hi hn => ?_⟩
  · simp only [bwrite]
    rw [hstart]
    exact h.stored
  · have hpend := pendingTxn_bwrite (k:=tail+1) h.memory (by omega)
      (s.cache (s.lh.blockAt tail).toNat)
    simp only [AppliedAt]
    change ∃ h,s.history=h++[(pendingTxn (bwrite s (g.start+(tail+1))
      (s.cache (s.lh.blockAt tail).toNat)),false)] ∧ Selected h sel
    rw [hpend]
    exact hsel
  · rw [←hreplay b hb]
    exact replay_write_log (k:=tail+1) hz (by omega) (by omega) hb
  · simp only [bwrite]
    rw [hstart]
    exact hz
  · simp only [bwrite] at hn ⊢
    rw [update_of_ne (hhome i hn)]
    by_cases heq : i=tail
    · grind
    · grind

lemma crashInv_writeHead (h : CrashInv g d s) (hp : s.phase=.writeHead) (hg : GroupInv t)
    (ht : t={writeHeadBlock g s with phase := .install 0}) : CrashInv g d t := by
  subst ht
  have hpos := h.position
  simp only [PhaseDisk,hp] at hpos
  obtain ⟨hz,hfilled⟩ := hpos
  obtain ⟨sel,hsel,hreplay⟩ := h.atomic
  simp only [AppliedAt,hp] at hsel
  obtain ⟨hist,hhist,hsel⟩ := hsel
  have hsame := sameHeader_put (s.cache g.start) h.memory.fits
  have hlogged : loggedTxn g s.lh s.disk=pendingTxn s := by
    simp only [loggedTxn,pendingTxn]
    apply List.map_congr_left
    intro i hi
    rw [hfilled i (List.mem_range.mp hi)]
  have hstored : (writeHeadBlock g s).disk g.start=putHeader (s.cache g.start) s.lh := by
    simp only [writeHeadBlock,bwrite,update_self]
  refine ⟨hg,h.memory,?_,coherent_bwrite h.coherent,
    ⟨sel++[pendingTxn s],⟨hist,pendingTxn s,sel,hhist,hsel,rfl⟩,fun b hb => ?_⟩,?_,
    fun i hi => absurd hi (Nat.not_lt_zero i)⟩
  · grind [hsame.wf,h.memory]
  · have hmove := replay_write_head hz hsame hlogged hb
    simp only [writeHeadBlock,bwrite]
    rw [hmove,applyTxns,List.foldl_append,List.foldl_cons,List.foldl_nil]
    exact applyTxn_congr (Or.inl (hreplay b hb))
  · dsimp only
    rw [hstored]
    exact hsame

lemma install_disk (h : CrashInv g d s) (hsame : SameHeader (getHeader (s.disk g.start)) s.lh)
    (hlt : tail<s.lh.n) (hi : Installed g s.disk s.lh tail) :
    (installBlock g s tail).disk g.start=s.disk g.start ∧
      (∀ b,replay g (installBlock g s tail).disk b=replay g s.disk b) ∧
      Installed g (installBlock g s tail).disk s.lh (tail+1) := by
  have harea := h.memory.area
  have hcache : s.cache (g.start+tail+1)=s.disk (g.start+tail+1) :=
    h.coherent (tail+1) (by omega)
  have hout : g.start≠(s.lh.blockAt tail).toNat := by
    intro heq
    exact not_home_area (k:=0) g.size_pos (heq ▸ h.memory.home tail hlt)
  have hn : tail<(getHeader (s.disk g.start)).n := by rw [hsame.1]; exact hlt
  simp only [installBlock,bwrite,hcache]
  refine ⟨update_of_ne hout _ _,fun b => ?_,installed_succ h.memory hlt hi⟩
  rw [←hsame.2 tail hn]
  exact replay_install h.stored hn b

lemma erase_disk (hz : s.lh.n=0) (hr : ∀ b,g.Home b → replay g s.disk b=s.disk b) :
    (getHeader ((writeHeadBlock g s).disk g.start)).n=0 ∧
      ∀ b,g.Home b → replay g (writeHeadBlock g s).disk b=replay g s.disk b := by
  have hput : (getHeader (putHeader (s.cache g.start) s.lh)).n=0 := by
    rw [(sameHeader_put (s.cache g.start) (by omega)).1,hz]
  simp only [writeHeadBlock,bwrite,update_self]
  exact ⟨hput,fun b hb => replay_erase hr hput hb⟩

lemma crashInv_commitStep
    (h : CrashInv g d s) (ht : commitStep g s=.next t) : CrashInv g d t := by
  have hg := groupInv_commitStep h.group ht
  have hpos := h.position
  obtain ⟨sel,hsel,hreplay⟩ := h.atomic
  unfold commitStep at ht
  split at ht
  · rename_i hp
    simp only [PhaseDisk,hp] at hpos
    simp only [AppliedAt,hp] at hsel
    split_ifs at ht with hn <;> cases ht
    · exact ⟨hg,h.memory,h.stored,h.coherent,⟨sel,⟨s.history,rfl,hsel⟩,hreplay⟩,hpos,
        fun i hi => absurd hi (Nat.not_lt_zero i)⟩
    · exact ⟨hg,h.memory,h.stored,h.coherent,⟨sel,hsel,hreplay⟩,hpos,by dsimp only; omega⟩
  · rename_i tail hp
    split_ifs at ht with hlt <;> simp only [Outcome.next.injEq] at ht
    · exact crashInv_writeLog h hp hlt hg ht.symm
    · simp only [PhaseDisk,hp] at hpos
      simp only [AppliedAt,hp] at hsel
      subst ht
      exact ⟨hg,h.memory,h.stored,h.coherent,⟨sel,hsel,hreplay⟩,hpos.1,
        fun i hi => hpos.2 i (by dsimp only at hi; omega) hi⟩
  · rename_i hp
    simp only [Outcome.next.injEq] at ht
    exact crashInv_writeHead h hp hg ht.symm
  · rename_i tail hp
    simp only [PhaseDisk,hp] at hpos
    simp only [AppliedAt,hp] at hsel
    split_ifs at ht with hlt <;> cases ht
    · obtain ⟨hstart,hsame,hinst⟩ := install_disk h hpos.1 hlt hpos.2
      refine ⟨hg,h.memory,?_,coherent_bwrite h.coherent,
        ⟨sel,hsel,fun b hb => (hsame b).trans (hreplay b hb)⟩,?_,hinst⟩
      · grind [h.stored]
      · dsimp only
        rw [hstart]
        exact hpos.1
    · refine ⟨hg,wfHeader_of_zero g rfl,h.stored,h.coherent,⟨sel,hsel,hreplay⟩,rfl,
        fun b _ => ?_⟩
      have hinst : Installed g s.disk (getHeader (s.disk g.start)) tail := by
        intro i hi hn
        rw [hpos.1.2 i hn]
        exact hpos.2 i hi (hpos.1.1 ▸ hn)
      exact congrFun (replay_of_installed hinst (by rw [hpos.1.1]; omega)) b
  · rename_i hp
    simp only [PhaseDisk,hp] at hpos
    simp only [AppliedAt,hp] at hsel
    cases ht
    obtain ⟨hz,hsame⟩ := erase_disk hpos.1 hpos.2
    obtain ⟨hist,txn,sel',hhist,hsel',rfl⟩ := hsel
    refine ⟨hg,h.memory,wfHeader_of_zero g hz,coherent_bwrite h.coherent,
      ⟨sel'++[txn],?_,fun b hb => (hsame b hb).trans (hreplay b hb)⟩,hz,hpos.1⟩
    simp only [AppliedAt,hhist,finishLast,List.getLast?_append,List.getLast?_singleton,
      Option.some_or,List.dropLast_concat]
    exact .keep txn true hsel'
  · rename_i hp
    simp only [PhaseDisk,hp] at hpos
    simp only [AppliedAt,hp] at hsel
    cases ht
    exact ⟨hg,h.memory,h.stored,h.coherent,⟨sel,hsel,hreplay⟩,hpos.1⟩
  · simp only [reduceCtorEq] at ht

lemma crashInv_recoverStep
    (h : CrashInv g d s) (ht : recoverStep g s=.next t) : CrashInv g d t := by
  have hg := groupInv_recover h.group (Or.inl ht)
  have hpos := h.position
  obtain ⟨sel,hsel,hreplay⟩ := h.atomic
  unfold recoverStep at ht
  split at ht
  · rename_i tail hp
    simp only [PhaseDisk,hp] at hpos
    simp only [AppliedAt,hp] at hsel
    split_ifs at ht with hlt <;> cases ht
    · obtain ⟨hstart,hsame,hinst⟩ := install_disk h hpos.1 hlt hpos.2
      refine ⟨hg,h.memory,?_,coherent_bwrite h.coherent,
        ⟨sel,hsel,fun b hb => (hsame b).trans (hreplay b hb)⟩,?_,hinst⟩
      · grind [h.stored]
      · dsimp only
        rw [hstart]
        exact hpos.1
    · refine ⟨hg,wfHeader_of_zero g rfl,h.stored,h.coherent,⟨sel,hsel,hreplay⟩,rfl,
        fun b _ => ?_⟩
      have hinst : Installed g s.disk (getHeader (s.disk g.start)) tail := by
        intro i hi hn
        rw [hpos.1.2 i hn]
        exact hpos.2 i hi (hpos.1.1 ▸ hn)
      exact congrFun (replay_of_installed hinst (by rw [hpos.1.1]; omega)) b
  · rename_i hp
    simp only [PhaseDisk,hp] at hpos
    simp only [AppliedAt,hp] at hsel
    cases ht
    obtain ⟨hz,hsame⟩ := erase_disk hpos.1 hpos.2
    exact ⟨hg,h.memory,wfHeader_of_zero g hz,coherent_bwrite h.coherent,
      ⟨sel,hsel,fun b hb => (hsame b hb).trans (hreplay b hb)⟩,hz⟩
  · simp only [reduceCtorEq] at ht

lemma crashInv_step {a : LogAction}
    (h : CrashInv g d s) (ht : logStep g s a=.next t) : CrashInv g d t := by
  have hg := groupInv_step h.group ht
  obtain ⟨hbegin,hwrite,hend⟩ := crashInv_calls h hg
  cases a with
  | beginOp =>
    simp only [logStep] at ht
    split_ifs at ht
    exact hbegin ht
  | logWrite op b data =>
    simp only [logStep] at ht
    split_ifs at ht with hu
    exact hwrite op b data hu.2.1 hu.2.2 ht
  | endOp op =>
    simp only [logStep] at ht
    split_ifs at ht with hu
    exact hend op hu.2 ht
  | commitStep => exact crashInv_commitStep h ht
  | crash =>
    simp only [logStep,Outcome.next.injEq] at ht
    exact ht ▸ crashInv_crash h
  | reboot => exact crashInv_reboot h ht
  | recoverStep => exact crashInv_recoverStep h ht

lemma recover_completes (g : LogArea) (k : ℕ) (s : LogState) (tail : ℕ)
    (hp : s.phase=.recoverInstall tail) (hk : s.lh.n-tail=k) :
    ∃ t,run (logStep g) s (List.replicate (k+2) .recoverStep)=.next t ∧ t.phase=.running := by
  induction k generalizing s tail with
  | zero =>
    have hlt : ¬tail<s.lh.n := by omega
    let erasing : LogState := {s with lh := {s.lh with n := 0},phase := .recoverErase}
    refine ⟨{writeHeadBlock g erasing with phase := .running},?_,rfl⟩
    simp only [List.replicate,run_cons,logStep,recoverStep,hp,if_neg hlt,bind_next,run_nil,
      erasing]
  | succ k ih =>
    have hlt : tail<s.lh.n := by omega
    obtain ⟨t,ht,hr⟩ := ih {installBlock g s tail with phase := .recoverInstall (tail+1)}
      (tail+1) rfl (by simp only [installBlock,bwrite]; omega)
    grind [run_cons,logStep,recoverStep,bind_next]

/-- Crash atomicity. In every run of transactions, crashes at any block write
and recoveries, themselves interrupted any number of times: whenever the log
code is not in the middle of a commit or a recovery, in particular when
recover_from_log has completed, the on-disk header is empty and the home
blocks are the initial ones with whole transactions applied in order, all
those whose commit returned and each interrupted one entirely or not at all.
From every crashed state, recover_from_log does complete if left alone. -/
theorem recovery_leaves_whole_transactions (g : LogArea) (d : ℕ→Block)
    (h0 : (getHeader (d g.start)).n=0) (as : List LogAction) (s : LogState)
    (hrun : run (logStep g) (powerOn d) as=.next s) :
    (s.phase=.running → (getHeader (s.disk g.start)).n=0 ∧
      ∃ sel,Selected s.history sel ∧ ∀ b,g.Home b → s.disk b=applyTxns d sel b) ∧
    (s.phase=.crashed → ∃ k t,
      run (logStep g) s (.reboot::List.replicate k .recoverStep)=.next t ∧ t.phase=.running) := by
  have hinv : CrashInv g d s := run_invariant
    (fun s a t hs ht => crashInv_step hs ht) (crashInv_powerOn h0) hrun
  constructor
  · intro hp
    have hz := hinv.position
    simp only [PhaseDisk,hp] at hz
    obtain ⟨sel,hsel,hreplay⟩ := hinv.atomic
    refine ⟨hz,sel,hsel.selected,fun b hb => ?_⟩
    rw [←hreplay b hb,replay_of_zero hz]
  · intro hp
    obtain ⟨t,ht,hr⟩ := recover_completes g (getHeader (s.disk g.start)).n
      {s with cache := s.disk,lh := getHeader (s.disk g.start),phase := .recoverInstall 0} 0 rfl rfl
    grind [run_cons,logStep,reboot,bind_next]

/-- One operation writes block 100 and commits; power fails right after the
header write, and once more in the middle of the recovery. -/
def crashedCommit : List LogAction :=
  [.reboot,.recoverStep,.recoverStep,.beginOp,.logWrite 0 100 fun _ => 7,.endOp 0]++
  List.replicate 4 .commitStep++[.crash,.reboot,.recoverStep,.crash,.reboot]++
  List.replicate 3 .recoverStep

/-- The twice interrupted run recovers to a state that the theorem describes. -/
theorem crashedCommit_recovers : ∃ s,
    run (logStep mkfsArea) (powerOn fun _ _ => 0) crashedCommit=.next s ∧
    (getHeader (s.disk mkfsArea.start)).n=0 ∧
    ∃ sel,Selected s.history sel ∧
      ∀ b,mkfsArea.Home b → s.disk b=applyTxns (fun _ _ => 0) sel b := by
  have hphase : (run (logStep mkfsArea) (powerOn fun _ _ => 0) crashedCommit).state?.map
      LogState.phase=some .running := by decide +kernel
  obtain ⟨s,hs,hp⟩ := exists_of_state? hphase
  exact ⟨s,hs,(recovery_leaves_whole_transactions mkfsArea (fun _ _ => 0) rfl
    crashedCommit s hs).1 hp⟩

end Xv6Riscv.LogRecovery
