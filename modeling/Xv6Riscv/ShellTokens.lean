import Xv6Riscv.ShellGrammar

/-!
# The cursor of the shell parser stands before a sequence of tokens

Every position that the parser reaches is before some tokens of the line. One
lemma for `peek` and two for `gettoken` say what the calls do in terms of
those tokens; the results on the parser use nothing else about characters.
-/

namespace Xv6Riscv.ShellTokens

open ShellParser ShellGrammar

variable {line : List UInt8} {s : ℕ} {ts : List Token} {t : Token}

def At (line : List UInt8) (s : ℕ) (ts : List Token) : Prop :=
  s≤line.length ∧ tokens (line.drop s)=ts

def Token.mark : Token→Option UInt8
  | .less => some '<'.toUInt8
  | .great => some '>'.toUInt8
  | .append => some '>'.toUInt8
  | .bar => some '|'.toUInt8
  | .amp => some '&'.toUInt8
  | .semi => some ';'.toUInt8
  | .lpar => some '('.toUInt8
  | .rpar => some ')'.toUInt8
  | .word _ => none

def Token.code : Token→UInt8
  | .less => '<'.toUInt8
  | .great => '>'.toUInt8
  | .append => '+'.toUInt8
  | .bar => '|'.toUInt8
  | .amp => '&'.toUInt8
  | .semi => ';'.toUInt8
  | .lpar => '('.toUInt8
  | .rpar => ')'.toUInt8
  | .word _ => 'a'.toUInt8

def starts (toks : List Char) (ts : List Token) : Bool :=
  match ts.head?.bind Token.mark with
  | some c => decide (c∈toks.map Char.toUInt8)
  | none => false

def spelling (line : List UInt8) (p : Span) : Text := (line.drop p.q).take (p.eq-p.q)

/-- The pointers enclose a word: it ends where the line does, or at a character
that belongs to no word. -/
structure Spelled (line : List UInt8) (p : Span) : Prop where
  le : p.q≤p.eq
  bound : p.eq≤line.length
  chars : ∀ c∈spelling line p,WordChar c
  ends : ∀ c,(line)[p.eq]?=some c→¬WordChar c

/-! ## Pointers and the rest of the line -/

lemma charAt_eq (line : List UInt8) (s : ℕ) : charAt line s=(line.drop s).headD 0 := by
  grind [charAt,List.head?_drop]

lemma drop_past (line : List UInt8) (s : ℕ) (p : UInt8→Bool) :
    line.drop (s+((line.drop s).takeWhile p).length)=(line.drop s).dropWhile p := by
  have hsplit := List.takeWhile_append_dropWhile (p:=p) (l:=line.drop s)
  calc line.drop (s+((line.drop s).takeWhile p).length)
      =(line.drop s).drop ((line.drop s).takeWhile p).length := by rw [List.drop_drop]
    _=((line.drop s).takeWhile p++(line.drop s).dropWhile p).drop
        ((line.drop s).takeWhile p).length := by rw [hsplit]
    _=(line.drop s).dropWhile p := List.drop_left

lemma past_le (hs : s≤line.length) (p : UInt8→Bool) :
    s+((line.drop s).takeWhile p).length≤line.length := by
  have hle : ((line.drop s).takeWhile p).length≤(line.drop s).length :=
    (List.takeWhile_sublist p).length_le
  grind

variable {c : UInt8} {cs : List UInt8}

lemma lt_of_drop_cons (h : line.drop s=c::cs) :
    s<line.length := by
  by_contra hge
  grind [List.drop_eq_nil_of_le]

lemma drop_succ_of_drop (h : line.drop s=c::cs) :
    line.drop (s+1)=cs := by
  rw [←List.tail_drop,h,List.tail_cons]

/-! ## The tokens of a line -/

lemma tokens_space (hc : c∈whitespace) (cs : List UInt8) :
    tokens (c::cs)=tokens cs := by
  rw [tokens,if_pos hc]

lemma tokens_dropSpace (cs : List UInt8) :
    tokens (cs.dropWhile fun c => decide (c∈whitespace))=tokens cs := by
  induction cs with
  | nil => rfl
  | cons c cs ih =>
    by_cases hc : c∈whitespace
    · simp only [List.dropWhile_cons,hc,decide_true,if_true,ih,tokens_space hc]
    · simp only [List.dropWhile_cons,hc,decide_false,Bool.false_eq_true,if_false]

lemma symbolOf_none (hc : c∉symbols) : symbolOf c=none := by
  simp only [symbols,List.map_cons,List.map_nil,List.mem_cons,List.not_mem_nil,or_false,
    not_or] at hc
  grind [symbolOf]

lemma tokens_word (hc : WordChar c) (cs : List UInt8) :
    tokens (c::cs)=.word ((c::cs).takeWhile fun d => decide (WordChar d))::
      tokens ((c::cs).dropWhile fun d => decide (WordChar d)) := by
  have hgreat : ¬(c= '>'.toUInt8 ∧ cs.head?=some '>'.toUInt8) := by
    rintro ⟨rfl,_⟩
    exact hc.2 (by decide)
  rw [tokens,if_neg hc.1,if_neg hgreat,symbolOf_none hc.2]
  grind [List.takeWhile_cons,List.dropWhile_cons]

lemma tokens_symbol (hc : c∉whitespace) (ht : symbolOf c=some t)
    (hone : ¬(c= '>'.toUInt8 ∧ cs.head?=some '>'.toUInt8)) : tokens (c::cs)=t::tokens cs := by
  rw [tokens,if_neg hc,if_neg hone,ht]

lemma tokens_append (cs : List UInt8) :
    tokens ('>'.toUInt8:: '>'.toUInt8::cs)=.append::tokens cs := by
  rw [tokens,if_neg (by decide),if_pos ⟨rfl,rfl⟩,List.tail_cons]

lemma single_symbol (hc : c∈['|','(',')',';','&','<'].map Char.toUInt8) :
    ∃ t,symbolOf c=some t ∧ Token.code t=c ∧ Token.mark t=some c ∧ c≠ '>'.toUInt8 := by
  simp only [List.map_cons,List.map_nil,List.mem_cons,List.not_mem_nil,or_false] at hc
  rcases hc with rfl|rfl|rfl|rfl|rfl|rfl
  · exact ⟨.bar,by decide,rfl,rfl,by decide⟩
  · exact ⟨.lpar,by decide,rfl,rfl,by decide⟩
  · exact ⟨.rpar,by decide,rfl,rfl,by decide⟩
  · exact ⟨.semi,by decide,rfl,rfl,by decide⟩
  · exact ⟨.amp,by decide,rfl,rfl,by decide⟩
  · exact ⟨.less,by decide,rfl,rfl,by decide⟩

lemma tokens_length (cs : List UInt8) : (tokens cs).length≤cs.length := by
  fun_induction tokens cs with
  | case1 => exact le_rfl
  | case2 c cs hc ih => exact ih.trans (Nat.le_succ _)
  | case3 c cs hc h ih =>
    grind
  | case4 c cs hc h t ht ih =>
    grind
  | case5 c cs hc h ht ih =>
    have hle : (cs.dropWhile fun d => decide (WordChar d)).length≤cs.length :=
      (List.dropWhile_sublist _).length_le
    grind

/-! ## The calls that read tokens -/

lemma at_skipSpace (h : At line s ts) : At line (skipSpace line s) ts := by
  refine ⟨past_le h.1 _,?_⟩
  rw [skipSpace,drop_past,tokens_dropSpace]
  exact h.2

lemma skipSpace_stop (line : List UInt8) (s : ℕ) :
    line.drop (skipSpace line s)=[] ∨
      ∃ c cs,line.drop (skipSpace line s)=c::cs ∧ c∉whitespace := by
  rw [skipSpace,drop_past]
  cases h : (line.drop s).dropWhile fun c => decide (c∈whitespace) with
  | nil => exact Or.inl rfl
  | cons c cs =>
    refine Or.inr ⟨c,cs,rfl,?_⟩
    have hc := List.head?_dropWhile_not (fun c => decide (c∈whitespace)) (line.drop s)
    rw [h] at hc
    grind

lemma skipWord_spelled {q : ℕ} (hq : q≤line.length) :
    Spelled line ⟨q,skipWord line q⟩ ∧
      spelling line ⟨q,skipWord line q⟩=(line.drop q).takeWhile fun c => decide (WordChar c) := by
  have htext : spelling line ⟨q,skipWord line q⟩=
      (line.drop q).takeWhile fun c => decide (WordChar c) := by
    simp only [spelling,skipWord,Nat.add_sub_cancel_left]
    exact (List.prefix_iff_eq_take.mp (List.takeWhile_prefix _)).symm
  refine ⟨⟨Nat.le_add_right _ _,past_le hq _,?_,?_⟩,htext⟩
  · grind [List.mem_takeWhile_imp]
  · intro c hc
    have hstop := List.head?_dropWhile_not (fun c => decide (WordChar c)) (line.drop q)
    rw [←drop_past,List.head?_drop] at hstop
    have hc' : (line)[q+((line.drop q).takeWhile fun c => decide (WordChar c)).length]?=some c := hc
    grind

lemma scan_spec {q : ℕ} (hdrop : line.drop q=c::cs) (hc : c∉whitespace) (h0 : c≠0) :
    ∃ t,tokens (c::cs)=t::tokens (line.drop (scan line q).2) ∧ (scan line q).1=Token.code t ∧
      (scan line q).2≤line.length ∧
      (∀ w,t=.word w→Spelled line ⟨q,(scan line q).2⟩ ∧ spelling line ⟨q,(scan line q).2⟩=w) ∧
      (Token.mark t=some c ∨ Token.mark t=none ∧ c∉symbols) := by
  have hchar : charAt line q=c := by rw [charAt_eq,hdrop,List.headD_cons]
  have hlt := lt_of_drop_cons hdrop
  have hsucc := drop_succ_of_drop hdrop
  simp only [scan,hchar,if_neg h0]
  split
  · next hsym =>
    obtain ⟨t,ht,hcode,hmark,hne⟩ := single_symbol hsym
    refine ⟨t,?_,hcode.symm,hlt,?_,Or.inl hmark⟩
    · rw [hsucc]
      exact tokens_symbol hc ht fun h => hne h.1
    · rintro w rfl
      cases hmark
  · next hsym =>
    by_cases hgreat : c= '>'.toUInt8
    · subst hgreat
      rw [if_pos rfl]
      have hnext : charAt line (q+1)=cs.headD 0 := by rw [charAt_eq,hsucc]
      by_cases htwo : charAt line (q+1)= '>'.toUInt8
      · rw [if_pos htwo]
        cases cs with
        | nil =>
          rw [hnext] at htwo
          exact absurd htwo (by decide)
        | cons d ds =>
          have hd : d= '>'.toUInt8 := by rw [←htwo,hnext,List.headD_cons]
          subst hd
          refine ⟨.append,?_,rfl,lt_of_drop_cons hsucc,nofun,Or.inl rfl⟩
          rw [tokens_append,drop_succ_of_drop hsucc]
      · rw [if_neg htwo]
        refine ⟨.great,?_,rfl,hlt,nofun,Or.inl rfl⟩
        rw [hsucc]
        refine tokens_symbol hc (by decide) fun h => htwo ?_
        grind
    · rw [if_neg hgreat]
      have hword : WordChar c := by
        refine ⟨hc,fun hmem => ?_⟩
        simp only [symbols,List.map_cons,List.map_nil,List.mem_cons,List.not_mem_nil,
          or_false] at hmem hsym
        tauto
      have hspell := skipWord_spelled hlt.le
      refine ⟨.word ((c::cs).takeWhile fun d => decide (WordChar d)),?_,rfl,past_le hlt.le _,?_,
        Or.inr ⟨rfl,hword.2⟩⟩
      · have hrest : line.drop (skipWord line q)=
            (line.drop q).dropWhile fun d => decide (WordChar d) := drop_past line q _
        rw [tokens_word hword,hrest,hdrop]
      · grind

variable (hline : ∀ c∈line,c≠0)

include hline

lemma gettoken_nil (h : At line s []) :
    (gettoken line s).ret=0 ∧ At line (gettoken line s).s [] := by
  have hq := at_skipSpace h
  rcases skipSpace_stop line s with hnil|⟨c,cs,hdrop,hc⟩
  · have hscan : scan line (skipSpace line s)=(0,skipSpace line s) := by
      simp only [scan,charAt_eq,hnil,List.headD_nil,if_true]
    simp only [gettoken,hscan]
    exact ⟨trivial,at_skipSpace hq⟩
  · have h0 : c≠0 := hline c (List.mem_of_mem_drop (hdrop ▸ List.mem_cons_self))
    obtain ⟨t,ht,-⟩ := scan_spec hdrop hc h0
    rw [←hdrop,hq.2] at ht
    cases ht

lemma gettoken_cons (h : At line s (t::ts)) :
    (gettoken line s).ret=Token.code t ∧ At line (gettoken line s).s ts ∧
      ∀ w,t=.word w→
        Spelled line (gettoken line s).span ∧ spelling line (gettoken line s).span=w := by
  have hq := at_skipSpace h
  rcases skipSpace_stop line s with hnil|⟨c,cs,hdrop,hc⟩
  · have htokens := hq.2
    grind [tokens]
  · have h0 : c≠0 := hline c (List.mem_of_mem_drop (hdrop ▸ List.mem_cons_self))
    obtain ⟨u,hu,hcode,hle,hword,-⟩ := scan_spec hdrop hc h0
    rw [←hdrop,hq.2,List.cons.injEq] at hu
    obtain ⟨rfl,hts⟩ := hu
    exact ⟨hcode,at_skipSpace ⟨hle,hts.symm⟩,hword⟩

lemma peek_spec (h : At line s ts) {toks : List Char}
    (htoks : ∀ c∈toks.map Char.toUInt8,c∈symbols) :
    (peek line s toks).1=starts toks ts ∧ At line (peek line s toks).2 ts := by
  have hq := at_skipSpace h
  refine ⟨?_,hq⟩
  simp only [peek]
  rcases skipSpace_stop line s with hnil|⟨c,cs,hdrop,hc⟩
  · have hts : ts=[] := by rw [←hq.2,hnil,tokens]
    subst hts
    simp only [charAt_eq,hnil,List.headD_nil,ne_eq,not_true,false_and,decide_false]
    rfl
  · have h0 : c≠0 := hline c (List.mem_of_mem_drop (hdrop ▸ List.mem_cons_self))
    obtain ⟨t,ht,-,-,-,hmark⟩ := scan_spec hdrop hc h0
    have hts : ts=t::tokens (line.drop (scan line (skipSpace line s)).2) := by
      rw [←hq.2,hdrop,ht]
    subst hts
    simp only [charAt_eq,hdrop,List.headD_cons,ne_eq,h0,not_false_eq_true,true_and,starts,
      List.head?_cons,Option.bind_some]
    rcases hmark with hmark|⟨hmark,hsym⟩
    · rw [hmark]
    · rw [hmark]
      exact decide_eq_false fun hmem => hsym (htoks c hmem)

end Xv6Riscv.ShellTokens
