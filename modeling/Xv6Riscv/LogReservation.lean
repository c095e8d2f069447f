import Xv6Riscv.LogMachine

/-!
# Space reservation of the log

begin_op admits an operation when the logged blocks and a full budget for
every operation, the new one included, fit LOGSIZE. log_write stops the
system once log.size-1 blocks are logged, and it does so before it looks
for a block to absorb. On the image of mkfs both bounds come from the same
LOGSIZE, so the two tests disagree by two blocks.
-/

namespace Xv6Riscv.LogReservation

open Transition LogMachine

def Logged (lh : LogHeader) (b : UInt32) : Prop := ∃ i<lh.n,lh.blockAt i=b

variable {data : Block}

lemma absorbIndex_spec (lh : LogHeader) (b : UInt32) (left i : ℕ) :
    (absorbIndex lh b left i< i+left ∧ lh.blockAt (absorbIndex lh b left i)=b) ∨
    (absorbIndex lh b left i=i+left ∧ ∀ j,i≤j→j< i+left→lh.blockAt j≠b) := by
  induction left generalizing i with
  | zero =>
    right
    exact ⟨rfl,fun j hj hlt => by omega⟩
  | succ left ih =>
    rw [absorbIndex]
    split
    · grind
    · grind

variable {b : UInt32} {lh : LogHeader}

lemma recordBlock_of_logged (h : Logged lh b) :
    recordBlock lh b=lh := by
  obtain ⟨i,hi,hb⟩ := h
  rcases absorbIndex_spec lh b lh.n 0 with ⟨hlt,heq⟩|⟨_,hall⟩
  · have hne : absorbIndex lh b lh.n 0≠lh.n := by omega
    simp only [recordBlock,if_neg hne,setEntry]
    congr 1
    funext j
    split
    · rename_i hj
      rw [←hj,LogHeader.blockAt,dif_pos j.isLt] at heq
      exact heq.symm
    · rfl
  · exact absurd hb (hall i (Nat.zero_le i) (by omega))

lemma recordBlock_of_not_logged (h : ¬Logged lh b) :
    recordBlock lh b={n := lh.n+1,block := (setEntry lh lh.n b).block} := by
  rcases absorbIndex_spec lh b lh.n 0 with ⟨hlt,heq⟩|⟨hend,_⟩
  · exact absurd ⟨_,by omega,heq⟩ h
  · grind [recordBlock]

lemma blockAt_append (hn : lh.n<logSize) (i : ℕ) :
    (LogHeader.mk (lh.n+1) (setEntry lh lh.n b).block).blockAt i=
      if i=lh.n then b else lh.blockAt i := by
  by_cases hi : i<logSize
  · simp only [LogHeader.blockAt,setEntry,dif_pos hi]
  · have hne : i≠lh.n := by omega
    simp only [LogHeader.blockAt,dif_neg hi,if_neg hne]

lemma recordBlock_n_le (lh : LogHeader) (b : UInt32) : (recordBlock lh b).n≤lh.n+1 := by
  by_cases h : Logged lh b
  · rw [recordBlock_of_logged h]
    omega
  · rw [recordBlock_of_not_logged h]

lemma logged_recordBlock (hn : lh.n<logSize) (c : UInt32) :
    Logged (recordBlock lh b) c ↔ Logged lh c ∨ c=b := by
  by_cases h : Logged lh b
  · rw [recordBlock_of_logged h]
    constructor
    · exact Or.inl
    · rintro (hc|rfl)
      · exact hc
      · exact h
  · rw [recordBlock_of_not_logged h]
    constructor
    · rintro ⟨i,hi,hc⟩
      rw [blockAt_append hn] at hc
      split at hc
      · exact Or.inr hc.symm
      · rename_i hne
        exact Or.inl ⟨i,by dsimp only at hi; omega,hc⟩
    · rintro (⟨i,hi,hc⟩|rfl)
      · refine ⟨i,by dsimp only; omega,?_⟩
        rw [blockAt_append hn,if_neg (by omega),hc]
      · refine ⟨lh.n,by dsimp only; omega,?_⟩
        rw [blockAt_append hn,if_pos rfl]

def commits : Phase→Bool
  | .running => false
  | .crashed => false
  | .recoverInstall _ => false
  | .recoverErase => false
  | _ => true

/-- Bookkeeping of operations: outstanding counts them, committing is set
exactly during a commit, and neither a commit nor a boot overlaps one. -/
structure GroupInv (s : LogState) : Prop where
  outstanding_eq : s.outstanding=s.ops.length
  committing_eq : s.committing=commits s.phase
  quiet : s.phase≠.running→s.ops=[]

lemma groupInv_powerOn (disk : ℕ→Block) : GroupInv (powerOn disk) :=
  ⟨rfl,rfl,fun _ => rfl⟩

variable {s t : LogState} {op : ℕ}

lemma GroupInv.running (h : GroupInv s) (hop : op<s.ops.length) :
    s.phase=.running := by grind [h.quiet]

lemma running_of_up {p : Phase} (hu : p.up=true) (hc : commits p=false) : p=.running := by
  cases p <;> simp only [Phase.up,commits,Bool.false_eq_true,Bool.true_eq_false] at hu hc ⊢

lemma groupInv_beginOp (h : GroupInv s) (hu : s.phase.up=true)
    (ht : beginOp s=.next t) : GroupInv t := by
  unfold beginOp at ht
  split_ifs at ht with hc hroom
  have hrun : s.phase=.running := by
    apply running_of_up hu
    rw [←h.committing_eq]
    exact Bool.eq_false_of_not_eq_true hc
  cases ht
  refine ⟨?_,h.committing_eq,fun hne => absurd hrun hne⟩
  grind [h.outstanding_eq]

variable {g : LogArea}

lemma groupInv_logWrite (h : GroupInv s) (hop : op<s.ops.length)
    (ht : logWrite g s op b data=.next t) : GroupInv t := by
  have hrun := h.running hop
  unfold logWrite at ht
  split_ifs at ht with hfull hout
  cases ht
  refine ⟨?_,h.committing_eq,fun hne => absurd hrun hne⟩
  simp only [h.outstanding_eq,List.length_modify]

lemma groupInv_endOp (h : GroupInv s) (hop : op<s.ops.length)
    (ht : endOp s op=.next t) : GroupInv t := by
  have hrun := h.running hop
  have hout := h.outstanding_eq
  have hlen : (s.ops.eraseIdx op).length=s.ops.length-1 := List.length_eraseIdx_of_lt hop
  unfold endOp at ht
  dsimp only at ht
  split_ifs at ht with hc hz
  · cases ht
    refine ⟨?_,rfl,fun _ => ?_⟩
    · dsimp only
      omega
    · apply List.eq_nil_of_length_eq_zero
      dsimp only
      omega
  · cases ht
    refine ⟨?_,h.committing_eq,fun hne => absurd hrun hne⟩
    dsimp only
    omega

lemma groupInv_commitStep (h : GroupInv s) (ht : commitStep g s=.next t) : GroupInv t := by
  have hout := h.outstanding_eq
  have hq := h.quiet
  have hc := h.committing_eq
  unfold commitStep at ht
  split at ht
  case h_7 => cases ht
  all_goals
    rename_i hp
    rw [hp] at hc hq
    have hnil := hq nofun
    first
      | (split_ifs at ht <;> cases ht <;>
          exact ⟨hout,hc,fun _ => hnil⟩)
      | (simp only [Outcome.next.injEq] at ht; subst ht; exact ⟨hout,by first | exact hc | rfl,fun _ => hnil⟩)

lemma groupInv_recover (h : GroupInv s)
    (ht : recoverStep g s=.next t ∨ reboot g s=.next t) : GroupInv t := by
  have hout := h.outstanding_eq
  have hc := h.committing_eq
  have hq := h.quiet
  rcases ht with ht|ht
  · unfold recoverStep at ht
    split at ht
    case h_3 => cases ht
    all_goals
      rename_i hp
      rw [hp] at hc hq
      have hnil := hq nofun
      first
        | (split_ifs at ht <;> cases ht <;>
            exact ⟨hout,hc,fun _ => hnil⟩)
        | (simp only [Outcome.next.injEq] at ht; subst ht; exact ⟨hout,hc,fun _ => hnil⟩)
  · unfold reboot at ht
    split_ifs at ht with hp
    rw [hp] at hc hq
    cases ht
    exact ⟨hout,hc,fun _ => hq nofun⟩

variable {a : LogAction}

lemma groupInv_step (h : GroupInv s) (ht : logStep g s a=.next t) : GroupInv t := by
  cases a with
  | beginOp =>
    simp only [logStep] at ht
    split_ifs at ht with hu
    exact groupInv_beginOp h hu ht
  | logWrite op b data =>
    simp only [logStep] at ht
    split_ifs at ht with hu
    exact groupInv_logWrite h hu.2.1 ht
  | endOp op =>
    simp only [logStep] at ht
    split_ifs at ht with hu
    exact groupInv_endOp h hu.2 ht
  | commitStep => exact groupInv_commitStep h ht
  | crash =>
    simp only [logStep,Outcome.next.injEq] at ht
    subst ht
    exact ⟨rfl,rfl,fun _ => rfl⟩
  | reboot => exact groupInv_recover h (Or.inr ht)
  | recoverStep => exact groupInv_recover h (Or.inl ht)

/-- Budget that the operations in progress have not used yet. -/
def reserve (ops : List (Finset UInt32)) : ℕ := (ops.map fun op => maxOpBlocks-op.card).sum

lemma reserve_begin (ops : List (Finset UInt32)) :
    reserve (ops++[∅])=reserve ops+maxOpBlocks := by
  simp only [reserve,List.map_append,List.sum_append,List.map_cons,List.map_nil,
    List.sum_cons,List.sum_nil,Finset.card_empty,Nat.sub_zero,Nat.add_zero]

lemma reserve_eraseIdx (ops : List (Finset UInt32)) (op : ℕ) :
    reserve (ops.eraseIdx op)≤reserve ops := by
  induction ops generalizing op with
  | nil => simp only [List.eraseIdx_nil,le_refl]
  | cons w ops ih =>
    cases op with
    | zero =>
      grind [reserve]
    | succ op =>
      grind [reserve]

variable {ops : List (Finset UInt32)} {w : Finset UInt32}

lemma reserve_insert (hw : ops[op]?=some w) (hb : b∉w) (hc : w.card< maxOpBlocks) :
    reserve (ops.modify op (insert b))+1=reserve ops := by
  induction ops generalizing op with
  | nil => simp only [List.getElem?_nil,reduceCtorEq] at hw
  | cons v ops ih =>
    cases op with
    | zero =>
      grind [reserve]
    | succ op =>
      grind [reserve]

lemma modify_insert_of_mem (hw : ops[op]?=some w) (hb : b∈w) : ops.modify op (insert b)=ops := by
  induction ops generalizing op with
  | nil => rw [List.modify_nil]
  | cons v ops ih =>
    cases op with
    | zero =>
      grind
    | succ op =>
      grind

lemma mem_modify_insert {v : Finset UInt32} (hv : v∈ops.modify op (insert b)) :
    v∈ops ∨ ∃ w,ops[op]?=some w ∧ v=insert b w := by
  induction ops generalizing op with
  | nil => simp only [List.modify_nil,List.not_mem_nil] at hv
  | cons u ops ih =>
    cases op with
    | zero =>
      grind
    | succ op =>
      grind

/-- Each operation names at most MAXOPBLOCKS distinct blocks, repeats allowed. -/
def Budgeted (s : LogState) : LogAction→Prop
  | .logWrite op b _ => ∀ w,s.ops[op]?=some w→(insert b w).card≤ maxOpBlocks
  | _ => True

instance (s : LogState) (a : LogAction) : Decidable (Budgeted s a) :=
  match a with
  | .logWrite op b _ =>
    match h : s.ops[op]? with
    | none => .isTrue fun _ hw => nomatch h.symm.trans hw
    | some w => decidable_of_iff ((insert b w).card≤ maxOpBlocks)
        ⟨fun hc _ hw => Option.some.inj (h.symm.trans hw) ▸ hc,fun hc => hc w h⟩
  | .beginOp => .isTrue trivial
  | .endOp _ => .isTrue trivial
  | .commitStep => .isTrue trivial
  | .crash => .isTrue trivial
  | .reboot => .isTrue trivial
  | .recoverStep => .isTrue trivial

/-- When an operation is admitted, the logged blocks, the unused budgets and
its own budget stay two blocks below the size of the log area. -/
def RoomAtBegin (g : LogArea) (s : LogState) : LogAction→Prop
  | .beginOp => s.lh.n+reserve s.ops+maxOpBlocks+1<g.size
  | _ => True

instance (g : LogArea) (s : LogState) (a : LogAction) : Decidable (RoomAtBegin g s a) :=
  match a with
  | .beginOp => inferInstanceAs (Decidable (_<_))
  | .logWrite _ _ _ => .isTrue trivial
  | .endOp _ => .isTrue trivial
  | .commitStep => .isTrue trivial
  | .crash => .isTrue trivial
  | .reboot => .isTrue trivial
  | .recoverStep => .isTrue trivial

/-- What every run within budget keeps, with or without room. -/
structure UseInv (g : LogArea) (s : LogState) : Prop where
  group : GroupInv s
  logged : ∀ op∈s.ops,∀ b∈op,Logged s.lh b
  home : ∀ op∈s.ops,∀ b∈op,g.Home b.toNat
  budget : ∀ op∈s.ops,op.card≤ maxOpBlocks

lemma useInv_powerOn (g : LogArea) (disk : ℕ→Block) : UseInv g (powerOn disk) := by
  refine ⟨groupInv_powerOn disk,?_,?_,?_⟩ <;>
    simp only [powerOn,crash,List.not_mem_nil,false_implies,implies_true]

lemma useInv_of_nil (h : GroupInv s) (hn : s.ops=[]) :
    UseInv g s := by
  refine ⟨h,?_,?_,?_⟩ <;> simp only [hn,List.not_mem_nil,false_implies,implies_true]

lemma useInv_logWrite (h : UseInv g s) (hop : op<s.ops.length) (hb : g.Home b.toNat)
    (hbud : Budgeted s (.logWrite op b data)) (ht : logWrite g s op b data=.next t) :
    UseInv g t := by
  have hgroup := groupInv_logWrite h.group hop ht
  unfold logWrite at ht
  split_ifs at ht with hfull hout
  have hn : s.lh.n<logSize := by omega
  cases ht
  refine ⟨hgroup,fun v hv c hc => ?_,fun v hv c hc => ?_,fun v hv => ?_⟩
  · apply (logged_recordBlock hn c).mpr
    rcases mem_modify_insert hv with hv|⟨w,hw,rfl⟩
    · exact Or.inl (h.logged v hv c hc)
    · rcases Finset.mem_insert.mp hc with rfl|hc
      · exact Or.inr rfl
      · exact Or.inl (h.logged w (List.mem_of_getElem? hw) c hc)
  · rcases mem_modify_insert hv with hv|⟨w,hw,rfl⟩
    · exact h.home v hv c hc
    · rcases Finset.mem_insert.mp hc with rfl|hc
      · exact hb
      · exact h.home w (List.mem_of_getElem? hw) c hc
  · rcases mem_modify_insert hv with hv|⟨w,hw,rfl⟩
    · exact h.budget v hv
    · exact hbud w hw

lemma code_step_ops (h : GroupInv s)
    (ht : commitStep g s=.next t ∨ recoverStep g s=.next t ∨ reboot g s=.next t) :
    t.ops=[] := by
  have hout : s.phase≠.running ∧ t.ops=s.ops := by
    rcases ht with ht|ht|ht
    · unfold commitStep at ht
      split at ht <;> rename_i hp <;> (try split_ifs at ht) <;>
        simp only [Outcome.next.injEq,reduceCtorEq] at ht <;> subst ht <;>
        exact ⟨by simp only [hp,ne_eq,reduceCtorEq,not_false_eq_true],rfl⟩
    · unfold recoverStep at ht
      split at ht <;> rename_i hp <;> (try split_ifs at ht) <;>
        simp only [Outcome.next.injEq,reduceCtorEq] at ht <;> subst ht <;>
        exact ⟨by simp only [hp,ne_eq,reduceCtorEq,not_false_eq_true],rfl⟩
    · grind [reboot]
  rw [hout.2]
  exact h.quiet hout.1

lemma useInv_step (h : UseInv g s)
    (hbud : Budgeted s a) (ht : logStep g s a=.next t) : UseInv g t := by
  have hgroup := groupInv_step h.group ht
  cases a with
  | beginOp =>
    simp only [logStep,beginOp] at ht
    split_ifs at ht
    cases ht
    refine ⟨hgroup,fun v hv c hc => ?_,fun v hv c hc => ?_,fun v hv => ?_⟩ <;>
      rcases List.mem_append.mp hv with hv|hv
    · exact h.logged v hv c hc
    · rw [List.mem_singleton.mp hv] at hc
      exact absurd hc (Finset.notMem_empty c)
    · exact h.home v hv c hc
    · rw [List.mem_singleton.mp hv] at hc
      exact absurd hc (Finset.notMem_empty c)
    · exact h.budget v hv
    · rw [List.mem_singleton.mp hv,Finset.card_empty]
      exact Nat.zero_le _
  | logWrite op b data =>
    simp only [logStep] at ht
    split_ifs at ht with hu
    exact useInv_logWrite h hu.2.1 hu.2.2 hbud ht
  | endOp op =>
    simp only [logStep] at ht
    split_ifs at ht with hu
    unfold endOp at ht
    dsimp only at ht
    split_ifs at ht <;> cases ht <;>
      exact ⟨hgroup,fun v hv => h.logged v (List.mem_of_mem_eraseIdx hv),
        fun v hv => h.home v (List.mem_of_mem_eraseIdx hv),
        fun v hv => h.budget v (List.mem_of_mem_eraseIdx hv)⟩
  | commitStep => exact useInv_of_nil hgroup (code_step_ops h.group (Or.inl ht))
  | crash =>
    simp only [logStep,Outcome.next.injEq] at ht
    exact useInv_of_nil hgroup (ht ▸ rfl)
  | reboot => exact useInv_of_nil hgroup (code_step_ops h.group (Or.inr (Or.inr ht)))
  | recoverStep => exact useInv_of_nil hgroup (code_step_ops h.group (Or.inr (Or.inl ht)))

/-- The log has room for every unused budget, with one block to spare. -/
structure RoomInv (g : LogArea) (s : LogState) : Prop where
  use : UseInv g s
  room : s.ops≠[]→s.lh.n+reserve s.ops+1<g.size

lemma room_logWrite (h : RoomInv g s) (hop : op<s.ops.length)
    (hbud : Budgeted s (.logWrite op b data)) (ht : logWrite g s op b data=.next t) :
    t.lh.n+reserve t.ops+1<g.size := by
  have hne : s.ops≠[] := List.ne_nil_of_length_pos (by omega)
  have hroom := h.room hne
  obtain ⟨w,hw⟩ : ∃ w,s.ops[op]?=some w := ⟨s.ops[op],List.getElem?_eq_getElem hop⟩
  unfold logWrite at ht
  split_ifs at ht with hfull hout
  cases ht
  by_cases hb : b∈w
  · dsimp only
    rw [modify_insert_of_mem hw hb,
      recordBlock_of_logged (h.use.logged w (List.mem_of_getElem? hw) b hb)]
    exact hroom
  · have hcard : w.card< maxOpBlocks := by
      have hle := hbud w hw
      rw [Finset.card_insert_of_notMem hb] at hle
      exact hle
    have hres := reserve_insert hw hb hcard
    have hn := recordBlock_n_le s.lh b
    dsimp only
    omega

lemma roomInv_step (h : RoomInv g s)
    (hbud : Budgeted s a) (hroom : RoomAtBegin g s a) (ht : logStep g s a=.next t) :
    RoomInv g t := by
  have huse := useInv_step h.use hbud ht
  refine ⟨huse,fun hne => ?_⟩
  cases a with
  | beginOp =>
    simp only [logStep,beginOp] at ht
    split_ifs at ht
    cases ht
    simp only [RoomAtBegin] at hroom
    simp only [reserve_begin]
    omega
  | logWrite op b data =>
    simp only [logStep] at ht
    split_ifs at ht with hu
    exact room_logWrite h hu.2.1 hbud ht
  | endOp op =>
    simp only [logStep] at ht
    split_ifs at ht with hu
    have hres := reserve_eraseIdx s.ops op
    have hold := h.room (List.ne_nil_of_length_pos (by omega))
    unfold endOp at ht
    grind
  | commitStep => exact absurd (code_step_ops h.use.group (Or.inl ht)) hne
  | crash =>
    simp only [logStep,Outcome.next.injEq] at ht
    exact absurd (ht ▸ rfl) hne
  | reboot => exact absurd (code_step_ops h.use.group (Or.inr (Or.inr ht))) hne
  | recoverStep => exact absurd (code_step_ops h.use.group (Or.inr (Or.inl ht))) hne

lemma too_big_from_logWrite (h : logStep g s a=.panic "too big a transaction") :
    ∃ op b data,a=.logWrite op b data ∧ op<s.ops.length ∧
      (s.lh.n≥logSize ∨ s.lh.n+1≥g.size) := by
  cases a with
  | beginOp =>
    grind [logStep,beginOp]
  | logWrite op b data =>
    simp only [logStep] at h
    split_ifs at h with hu
    unfold logWrite at h
    split_ifs at h with hfull hout
    · exact ⟨op,b,data,rfl,hu.2.1,hfull⟩
    · grind
  | endOp op =>
    grind [logStep,endOp]
  | commitStep =>
    grind [logStep,commitStep]
  | crash => simp only [logStep,reduceCtorEq] at h
  | reboot =>
    grind [logStep,reboot]
  | recoverStep =>
    grind [logStep,recoverStep]

lemma no_too_big (hg : g.size≤logSize)
    (h : RoomInv g s) : logStep g s a≠.panic "too big a transaction" := by
  intro hp
  obtain ⟨op,_,_,_,hop,hfull⟩ := too_big_from_logWrite hp
  have hroom := h.room (List.ne_nil_of_length_pos (by omega))
  omega

lemma exists_of_reserve_pos (ops : List (Finset UInt32)) (h : 0<reserve ops) :
    ∃ (op : ℕ) (w : Finset UInt32),ops[op]?=some w ∧ w.card< maxOpBlocks := by
  induction ops with
  | nil => exact absurd h (by decide)
  | cons v ops ih =>
    by_cases hv : v.card< maxOpBlocks
    · exact ⟨0,v,rfl,hv⟩
    · simp only [reserve,List.map_cons,List.sum_cons] at h
      obtain ⟨op,w,hw,hc⟩ := ih (by simp only [reserve]; omega)
      exact ⟨op+1,w,by rw [List.getElem?_cons_succ,hw],hc⟩

lemma exists_fresh_home (lh : LogHeader) (hn : lh.n≤logSize) :
    ∃ b : UInt32,mkfsArea.Home b.toNat ∧ ¬Logged lh b := by
  let homes : Finset UInt32 := (Finset.range 31).image fun i => UInt32.ofNat (32+i)
  let named : Finset UInt32 := (Finset.range lh.n).image lh.blockAt
  have hnat : ∀ i<31,(UInt32.ofNat (32+i)).toNat=32+i := by
    intro i hi
    rw [UInt32.toNat_ofNat']
    omega
  have hhomes : homes.card=31 := by
    refine (Finset.card_image_of_injOn fun i hi j hj hij => ?_).trans (Finset.card_range 31)
    have hval := congrArg UInt32.toNat hij
    rw [hnat i (by simpa using hi),hnat j (by simpa using hj)] at hval
    omega
  have hnamed : named.card≤lh.n := by grind
  have hlt : named.card<homes.card := by
    simp only [logSize,maxOpBlocks] at hn
    omega
  obtain ⟨b,hb,hfresh⟩ := Finset.exists_mem_notMem_of_card_lt_card hlt
  refine ⟨b,?_,?_⟩
  · obtain ⟨i,hi,rfl⟩ := Finset.mem_image.mp hb
    simp only [LogArea.Home,mkfsArea,logSize,maxOpBlocks,hnat i (Finset.mem_range.mp hi)]
    omega
  · rintro ⟨i,hi,hbi⟩
    exact hfresh (Finset.mem_image.mpr ⟨i,Finset.mem_range.mpr hi,hbi⟩)

lemma exists_budgeted_block (h : UseInv mkfsArea s) (hw : s.ops[0]?=some w) :
    ∃ b : UInt32,mkfsArea.Home b.toNat ∧ (insert b w).card≤ maxOpBlocks := by
  rcases w.eq_empty_or_nonempty with rfl|⟨b,hb⟩
  · exact ⟨32,by decide,by decide⟩
  · have hmem := List.mem_of_getElem? hw
    refine ⟨b,h.home w hmem b hb,?_⟩
    rw [Finset.insert_eq_of_mem hb]
    exact h.budget w hmem

/-- Once the logged blocks and the unused budgets reach log.size-1, the
operations in progress can stop the system by log_writes within budget. -/
lemma exists_too_big (h : UseInv mkfsArea s) (hne : s.ops≠[])
    (hfull : mkfsArea.size≤ s.lh.n+reserve s.ops+1) :
    ∃ as,Guarded (logStep mkfsArea) Budgeted s as ∧
      run (logStep mkfsArea) s as=.panic "too big a transaction" := by
  have hlen : 0<s.ops.length := List.length_pos_of_ne_nil hne
  have hrun : s.phase=.running := h.group.running hlen
  have hout : ¬s.outstanding<1 := by
    have hcount := h.group.outstanding_eq
    omega
  generalize hk : mkfsArea.size-(s.lh.n+1)=k
  induction k generalizing s with
  | zero =>
    obtain ⟨b,hb,hcard⟩ := exists_budgeted_block h (List.getElem?_eq_getElem hlen)
    refine ⟨[.logWrite 0 b fun _ => 0],⟨?_,fun t ht => ?_⟩,?_⟩
    · intro w hw
      grind
    · trivial
    · have hcond : s.phase.up=true ∧ 0<s.ops.length ∧ mkfsArea.Home b.toNat :=
        ⟨by rw [hrun]; rfl,hlen,hb⟩
      have hbig : s.lh.n≥logSize ∨ s.lh.n+1≥mkfsArea.size := Or.inr (by omega)
      grind [run_cons,logStep,logWrite,bind_panic]
  | succ k ih =>
    obtain ⟨op,w,hw,hcard⟩ := exists_of_reserve_pos s.ops (by omega)
    have hop : op<s.ops.length := (List.getElem?_eq_some_iff.mp hw).1
    have hsize : mkfsArea.size=logSize := rfl
    obtain ⟨b,hb,hfresh⟩ := exists_fresh_home s.lh (by omega)
    have hbw : b∉w := fun hmem => hfresh (h.logged w (List.mem_of_getElem? hw) b hmem)
    have hbud : Budgeted s (.logWrite op b fun _ => 0) := by
      intro v hv
      grind
    have hcond : s.phase.up=true ∧ op<s.ops.length ∧ mkfsArea.Home b.toNat :=
      ⟨by rw [hrun]; rfl,hop,hb⟩
    have hsmall : ¬(s.lh.n≥logSize ∨ s.lh.n+1≥mkfsArea.size) := by omega
    have hstep : logStep mkfsArea s (.logWrite op b fun _ => 0)=.next {s with
        cache := Function.update s.cache b.toNat fun _ => 0
        lh := recordBlock s.lh b
        ops := s.ops.modify op (insert b)} := by
      grind [logStep,logWrite]
    have hres := reserve_insert hw hbw hcard
    have hn : (recordBlock s.lh b).n=s.lh.n+1 := by rw [recordBlock_of_not_logged hfresh]
    obtain ⟨as,hg,has⟩ := ih (useInv_step h hbud hstep)
      (List.ne_nil_of_length_pos (by simpa only [List.length_modify] using hlen))
      (by dsimp only; omega) (by simpa only [List.length_modify] using hlen)
      hrun hout (by dsimp only; omega)
    refine ⟨.logWrite op b (fun _ => 0)::as,⟨hbud,fun t ht => ?_⟩,?_⟩
    · grind
    · rw [run_cons,hstep,bind_next]
      exact has

/-- Space reservation on the image of mkfs. Runs within budget whose
operations all begin with room never stop in log_write with "too big a
transaction". The condition is sharp: whenever a run within budget admits an
operation without room, log_writes within budget lead from there to the stop. -/
theorem log_write_fits_iff_room (disk : ℕ→Block) :
    (∀ as,Guarded (logStep mkfsArea) (fun s a => Budgeted s a ∧ RoomAtBegin mkfsArea s a)
        (powerOn disk) as→
      run (logStep mkfsArea) (powerOn disk) as≠.panic "too big a transaction") ∧
    ∀ as s t,Guarded (logStep mkfsArea) Budgeted (powerOn disk) as→
      run (logStep mkfsArea) (powerOn disk) as=.next s→
      logStep mkfsArea s .beginOp=.next t→¬RoomAtBegin mkfsArea s .beginOp→
      ∃ bs,Guarded (logStep mkfsArea) Budgeted t bs ∧
        run (logStep mkfsArea) t bs=.panic "too big a transaction" := by
  constructor
  · intro as hg
    have h0 : RoomInv mkfsArea (powerOn disk) :=
      ⟨useInv_powerOn mkfsArea disk,fun hne => absurd rfl hne⟩
    exact run_message_guarded (fun s a t hs hok => roomInv_step hs hok.1 hok.2)
      (fun s a hs _ => no_too_big (le_refl _) hs) h0 hg
  · intro as s t hg hrun hstep hroom
    have hs : UseInv mkfsArea s := run_invariant_guarded
      (fun s a t hs hok => useInv_step hs hok) (useInv_powerOn mkfsArea disk) hg hrun
    have ht : UseInv mkfsArea t := useInv_step (a:=.beginOp) hs trivial hstep
    simp only [logStep,beginOp] at hstep
    split_ifs at hstep
    cases hstep
    apply exists_too_big ht
    · exact List.append_ne_nil_of_right_ne_nil _ (by decide)
    · simp only [RoomAtBegin] at hroom
      simp only [reserve_begin]
      omega

/-- The log_writes of one operation on ten consecutive home blocks. -/
def fullOperation (op first : ℕ) : List LogAction :=
  (List.range maxOpBlocks).map fun i => .logWrite op (UInt32.ofNat (first+i)) fun _ => 0

/-- Boot of a zeroed disk and k operations that begin one after the other. -/
def bootAndBegin (k : ℕ) : List LogAction :=
  [.reboot,.recoverStep,.recoverStep]++List.replicate k .beginOp

/-- Three operations that each use their whole budget of ten distinct blocks
are admitted together, and the thirtieth log_write stops the system. -/
theorem three_full_operations_too_big :
    Guarded (logStep mkfsArea) Budgeted (powerOn fun _ _ => 0)
      (bootAndBegin 3++fullOperation 0 100++fullOperation 1 200++fullOperation 2 300) ∧
    (run (logStep mkfsArea) (powerOn fun _ _ => 0)
      (bootAndBegin 3++fullOperation 0 100++fullOperation 1 200++fullOperation 2 300)).message=
        some "too big a transaction" := by
  constructor
  · refine guarded_of_check (k:=fun s a => decide (Budgeted s a))
      (fun s a h => of_decide_eq_true h) ?_
    decide +kernel
  · decide +kernel

/-- Two operations with full budgets begin with room, and do not stop the system. -/
theorem two_full_operations_fit :
    Guarded (logStep mkfsArea) (fun s a => Budgeted s a ∧ RoomAtBegin mkfsArea s a)
      (powerOn fun _ _ => 0) (bootAndBegin 2++fullOperation 0 100++fullOperation 1 200) ∧
    run (logStep mkfsArea) (powerOn fun _ _ => 0)
      (bootAndBegin 2++fullOperation 0 100++fullOperation 1 200)≠
        .panic "too big a transaction" := by
  have hg : Guarded (logStep mkfsArea) (fun s a => Budgeted s a ∧ RoomAtBegin mkfsArea s a)
      (powerOn fun _ _ => 0) (bootAndBegin 2++fullOperation 0 100++fullOperation 1 200) := by
    refine guarded_of_check (k:=fun s a => decide (Budgeted s a ∧ RoomAtBegin mkfsArea s a))
      (fun s a h => of_decide_eq_true h) ?_
    decide +kernel
  exact ⟨hg,(log_write_fits_iff_room fun _ _ => 0).1 _ hg⟩

end Xv6Riscv.LogReservation
