import Xv6Riscv.ShellTokens

/-!
# The shell parser accepts its grammar

Soundness and termination come from one induction on the fuel: with four calls
for each token that is left, every function settles, and what it returns is
derived from the tokens that it consumed. Completeness is the other induction:
where the grammar derives a tree and the tokens behind the derivation cannot
continue it, the function returns this tree. A word ends at a character that
is in no word, so terminating the words of the tree spoils none of them.
-/

namespace Xv6Riscv.ShellAccepts

open Transition OutcomeLogic ShellParser ShellGrammar ShellTokens

variable {line : List UInt8} {s : ℕ} {ts us rest : List Token} {t : Token} {set : List Token}
  {ps : List Span}

abbrev readRedirect (line : List UInt8) : Redirect Span→Redirect Text :=
  Redirect.map (spelling line)

/-- What a parsing function has returned: it consumed tokens from which the
rule of the grammar derives the tree, and the tree points at words. -/
def Parsed (rule : List Token→Cmd Text→Prop) (line : List UInt8) (ts : List Token)
    (r : Cmd Span×ℕ) : Prop :=
  ∃ us rest,ts=us++rest ∧ At line r.2 rest ∧ rule us (r.1.map (spelling line)) ∧
    ∀ p∈r.1.words,Spelled line p

/-! ## Trees -/

lemma map_wrap {α β : Type} (f : α→β) (cmd : Cmd α) (rs : List (Redirect α)) :
    (wrap cmd rs).map f=wrap (cmd.map f) (rs.map (Redirect.map f)) := by
  induction rs generalizing cmd with
  | nil => rfl
  | cons r rs ih => exact ih (.redir cmd r)

lemma words_wrap {α : Type} (cmd : Cmd α) (rs : List (Redirect α)) :
    (wrap cmd rs).words=cmd.words++rs.map Redirect.file := by
  induction rs generalizing cmd with
  | nil => exact (List.append_nil _).symm
  | cons r rs ih =>
    have h := ih (.redir cmd r)
    rw [Cmd.words,List.append_assoc] at h
    exact h

lemma map_back {α β : Type} (f : α→β) (marks : ℕ) (cmd : Cmd α) :
    (Cmd.back^[marks] cmd).map f=Cmd.back^[marks] (cmd.map f) := by
  induction marks generalizing cmd with
  | zero => rfl
  | succ marks ih => exact ih (.back cmd)

lemma words_back {α : Type} (marks : ℕ) (cmd : Cmd α) :
    (Cmd.back^[marks] cmd).words=cmd.words := by
  induction marks generalizing cmd with
  | zero => rfl
  | succ marks ih => exact ih (.back cmd)

/-! ## Tokens and the calls on them -/

lemma code_word (w : Text) : Token.code (.word w)= 'a'.toUInt8 := rfl

lemma code_eq_word : Token.code t= 'a'.toUInt8 ↔ ∃ w,t=.word w := by
  constructor
  · intro h
    cases t with
    | word w => exact ⟨w,rfl⟩
    | _ => exact absurd h (by decide)
  · rintro ⟨w,rfl⟩
    rfl

lemma code_ne_zero (t : Token) : Token.code t≠0 := by
  cases t with
  | word w => exact (by decide : 'a'.toUInt8≠0)
  | _ => decide

lemma redirects_symbols : ∀ c∈['<','>'].map Char.toUInt8,c∈symbols := by decide +kernel

lemma enders_symbols : ∀ c∈['|',')','&',';'].map Char.toUInt8,c∈symbols := by decide +kernel

lemma amp_symbol : ∀ c∈['&'].map Char.toUInt8,c∈symbols := by decide +kernel

lemma semi_symbol : ∀ c∈[';'].map Char.toUInt8,c∈symbols := by decide +kernel

lemma bar_symbol : ∀ c∈['|'].map Char.toUInt8,c∈symbols := by decide +kernel

lemma open_symbol : ∀ c∈['('].map Char.toUInt8,c∈symbols := by decide +kernel

lemma close_symbol : ∀ c∈[')'].map Char.toUInt8,c∈symbols := by decide +kernel

lemma starts_redir : starts ['<','>'] ts=true ↔
    ∃ t us mode fd,ts=t::us ∧ redirection t=some (mode,fd) := by
  constructor
  · intro h
    match ts,h with
    | .less::us,_ => exact ⟨_,us,_,_,rfl,rfl⟩
    | .great::us,_ => exact ⟨_,us,_,_,rfl,rfl⟩
    | .append::us,_ => exact ⟨_,us,_,_,rfl,rfl⟩
  · rintro ⟨t,us,mode,fd,rfl,ht⟩
    cases t with
    | less | great | append => rfl
    | _ => cases ht

lemma mark_of_symbolOf {c : UInt8} (h : symbolOf c=some t) : Token.mark t=some c := by
  revert h
  rw [symbolOf]
  split_ifs with h1 h2 h3 h4 h5 h6 h7
  · rintro ⟨⟩
    rw [h1]
    rfl
  · rintro ⟨⟩
    rw [h2]
    rfl
  · rintro ⟨⟩
    rw [h3]
    rfl
  · rintro ⟨⟩
    rw [h4]
    rfl
  · rintro ⟨⟩
    rw [h5]
    rfl
  · rintro ⟨⟩
    rw [h6]
    rfl
  · rintro ⟨⟩
    rw [h7]
    rfl
  · rintro ⟨⟩

lemma symbolOf_of_mark {c : UInt8} (h : Token.mark t=some c) :
    symbolOf c=some t ∨ t=.append := by
  cases t with
  | append => exact Or.inr rfl
  | word w => cases h
  | _ =>
    cases h
    exact Or.inl (by decide)

lemma starts_symbol {c : Char} (ht : symbolOf c.toUInt8=some t) (hone : t≠.great) :
    starts [c] ts=true ↔ ∃ us,ts=t::us := by
  constructor
  · intro h
    cases ts with
    | nil => cases h
    | cons u us =>
      refine ⟨us,congrArg (·::us) ?_⟩
      simp only [starts,List.head?_cons,Option.bind_some,List.map_cons,List.map_nil,
        List.mem_singleton] at h
      split at h
      · next d hd =>
        rw [of_decide_eq_true h] at hd
        rcases symbolOf_of_mark hd with hu|rfl
        · exact Option.some.inj (hu.symm.trans ht)
        · have hc : c.toUInt8= '>'.toUInt8 := (Option.some.inj hd).symm
          rw [hc,show symbolOf '>'.toUInt8=some .great by decide] at ht
          exact absurd (Option.some.inj ht).symm hone
      · cases h
  · rintro ⟨us,rfl⟩
    simp only [starts,List.head?_cons,Option.bind_some,mark_of_symbolOf ht,List.map_cons,
      List.map_nil,List.mem_singleton,decide_true]

lemma starts_stop : starts ['|',')','&',';'] ts=true ↔
    ∃ t us,ts=t::us ∧ t∈[Token.bar,.rpar,.amp,.semi] := by
  constructor
  · intro h
    match ts,h with
    | .bar::us,_ => exact ⟨_,us,rfl,by decide⟩
    | .rpar::us,_ => exact ⟨_,us,rfl,by decide⟩
    | .amp::us,_ => exact ⟨_,us,rfl,by decide⟩
    | .semi::us,_ => exact ⟨_,us,rfl,by decide⟩
  · rintro ⟨t,us,rfl,ht⟩
    simp only [List.mem_cons,List.not_mem_nil,or_false] at ht
    rcases ht with rfl|rfl|rfl|rfl <;> rfl

lemma redircmd_code {mode fd : ℕ} (ht : redirection t=some (mode,fd)) (p : Span) :
    redircmd (Token.code t) p=⟨p,mode,fd⟩ := by
  cases t with
  | less | great | append => cases ht; rfl
  | _ => cases ht

/-! ## What is returned is derived -/

section Sound

variable (hline : ∀ c∈line,c≠0) {fuel : ℕ}

include hline

lemma parseredirs_settles (fuel : ℕ) (h : At line s ts) (hfuel : ts.length<fuel) :
    Settles (parseredirs line fuel s) fun r => ∃ us rest,ts=us++rest ∧ At line r.2 rest ∧
      Redirs us (r.1.map (readRedirect line)) ∧ ∀ x∈r.1,Spelled line x.file := by
  induction fuel generalizing s ts with
  | zero => exact absurd hfuel (Nat.not_lt_zero _)
  | succ fuel ih =>
    obtain ⟨hpeek,hat⟩ := peek_spec hline h redirects_symbols
    rw [parseredirs]
    dsimp only
    rw [hpeek]
    by_cases hmore : starts ['<','>'] ts=true
    · rw [if_pos hmore]
      obtain ⟨t,us,mode,fd,rfl,ht⟩ := starts_redir.mp hmore
      obtain ⟨hcode,hop,-⟩ := gettoken_cons hline hat
      rw [hcode]
      cases us with
      | nil =>
        obtain ⟨hret,-⟩ := gettoken_nil hline hop
        rw [hret,if_pos (by decide)]
        trivial
      | cons u us =>
        obtain ⟨hret,hfile,hword⟩ := gettoken_cons hline hop
        rw [hret]
        by_cases hu : Token.code u= 'a'.toUInt8
        · rw [if_neg (not_not.mpr hu)]
          obtain ⟨w,rfl⟩ := code_eq_word.mp hu
          obtain ⟨hspell,hw⟩ := hword w rfl
          simp only [List.length_cons] at hfuel
          refine (ih hfile (by omega)).bind ?_
          rintro ⟨rs,s'⟩ ⟨vs,rest,rfl,hend,hder,hall⟩
          refine ⟨t::.word w::vs,rest,rfl,hend,?_,?_⟩
          · simp only [redircmd_code ht,List.map_cons,readRedirect,Redirect.map,hw]
            exact hder.cons ht
          · rw [redircmd_code ht]
            exact List.forall_mem_cons.mpr ⟨hspell,hall⟩
        · rw [if_pos hu]
          trivial
    · rw [if_neg hmore]
      exact ⟨[],ts,rfl,hat,.nil,nofun⟩

lemma parseargs_settles (fuel : ℕ) {argv : List Span} {rs : List (Redirect Span)}
    (h : At line s ts) (hfuel : ts.length<fuel) (hargs : argv.length< maxargs) :
    Settles (parseargs line fuel argv rs s) fun r => ∃ us rest more qs,ts=us++rest ∧
      At line r.2 rest ∧ r.1=wrap (.exec (argv++more)) (rs++qs) ∧
      Words us (more.map (spelling line)) (qs.map (readRedirect line)) ∧
      (argv++more).length< maxargs ∧ (∀ p∈more,Spelled line p) ∧ ∀ x∈qs,Spelled line x.file := by
  induction fuel generalizing s ts argv rs with
  | zero => exact absurd hfuel (Nat.not_lt_zero _)
  | succ fuel ih =>
    obtain ⟨hpeek,hat⟩ := peek_spec hline h enders_symbols
    rw [parseargs]
    dsimp only
    rw [hpeek]
    by_cases hstop : starts ['|',')','&',';'] ts=true
    · rw [if_pos hstop]
      exact ⟨[],ts,[],[],rfl,hat,by simp only [List.append_nil],.nil,
        by simpa only [List.append_nil] using hargs,nofun,nofun⟩
    · rw [if_neg hstop]
      cases ts with
      | nil =>
        obtain ⟨hret,hend⟩ := gettoken_nil hline hat
        rw [hret,if_pos rfl]
        exact ⟨[],[],[],[],rfl,hend,by simp only [List.append_nil],.nil,
          by simpa only [List.append_nil] using hargs,nofun,nofun⟩
      | cons t ts =>
        obtain ⟨hret,htok,hword⟩ := gettoken_cons hline hat
        rw [hret,if_neg (code_ne_zero t)]
        by_cases ht : Token.code t= 'a'.toUInt8
        · rw [if_neg (not_not.mpr ht)]
          obtain ⟨w,rfl⟩ := code_eq_word.mp ht
          obtain ⟨hspell,hw⟩ := hword w rfl
          split
          · trivial
          · next hroom =>
            simp only [List.length_cons] at hfuel
            refine (parseredirs_settles hline fuel htok (by omega)).bind ?_
            rintro ⟨qs,s1⟩ ⟨us,mid,rfl,hmid,hredirs,hqs⟩
            simp only [List.length_append] at hfuel
            have hlen : (argv++[(gettoken line (peek line s ['|',')','&',';']).2).span]).length<
                maxargs := by
              grind
            refine (ih hmid (by omega) hlen).imp ?_
            rintro r ⟨vs,rest,more,qs',rfl,hend,hcmd,hwords,hfew,hmore,hqs'⟩
            refine ⟨.word w::(us++vs),rest,_::more,qs++qs',?_,hend,?_,?_,?_,
              List.forall_mem_cons.mpr ⟨hspell,hmore⟩,List.forall_mem_append.mpr ⟨hqs,hqs'⟩⟩
            · simp only [List.cons_append,List.append_assoc]
            · simp only [hcmd,List.append_assoc,List.singleton_append]
            · simp only [List.map_cons,List.map_append,hw]
              exact .cons hredirs hwords
            · simpa only [List.append_assoc,List.singleton_append] using hfew
        · rw [if_pos ht]
          trivial

lemma parseback_settles (fuel : ℕ) {cmd : Cmd Span} (h : At line s ts)
    (hfuel : ts.length<fuel) :
    Settles (parseback line fuel cmd s) fun r => ∃ marks rest,
      ts=List.replicate marks .amp++rest ∧ At line r.2 rest ∧ r.1=Cmd.back^[marks] cmd := by
  induction fuel generalizing s ts cmd with
  | zero => exact absurd hfuel (Nat.not_lt_zero _)
  | succ fuel ih =>
    obtain ⟨hpeek,hat⟩ := peek_spec hline h amp_symbol
    rw [parseback,hpeek]
    by_cases hamp : starts ['&'] ts=true
    · rw [if_pos hamp]
      obtain ⟨us,rfl⟩ := (starts_symbol (t:=.amp) (by decide) (by decide)).mp hamp
      obtain ⟨-,htok,-⟩ := gettoken_cons hline hat
      simp only [List.length_cons] at hfuel
      refine (ih htok (by omega)).imp ?_
      rintro r ⟨marks,rest,rfl,hend,hcmd⟩
      exact ⟨marks+1,rest,rfl,hend,hcmd⟩
    · rw [if_neg hamp]
      exact ⟨0,ts,rfl,hat,rfl⟩

/-- What the four functions that call each other settle with this much fuel. -/
structure Settling (line : List UInt8) (fuel : ℕ) : Prop where
  ofLine : ∀ s ts,At line s ts→4*ts.length+4≤fuel→
    Settles (parseline line fuel s) (Parsed Line line ts)
  ofPipe : ∀ s ts,At line s ts→4*ts.length+3≤fuel→
    Settles (parsepipe line fuel s) (Parsed Pipe line ts)
  ofExec : ∀ s ts,At line s ts→4*ts.length+2≤fuel→
    Settles (parseexec line fuel s) (Parsed Exec line ts)
  ofBlock : ∀ s ts,At line s (.lpar::ts)→4*ts.length+5≤fuel→
    Settles (parseblock line fuel s) (Parsed Exec line (.lpar::ts))

variable (ih : Settling line fuel)

include ih

lemma settling_line (h : At line s ts) (hfuel : 4*ts.length+4≤fuel+1) :
    Settles (parseline line (fuel+1) s) (Parsed Line line ts) := by
  rw [parseline]
  refine (ih.ofPipe s ts h (by omega)).bind ?_
  rintro ⟨cmd,s1⟩ ⟨us,ts1,rfl,hat1,hpipe,hwords⟩
  simp only [List.length_append] at hfuel
  refine (parseback_settles hline fuel hat1 (by omega)).bind ?_
  rintro ⟨_,s2⟩ ⟨marks,ts2,rfl,hat2,rfl⟩
  obtain ⟨hpeek,hat3⟩ := peek_spec hline hat2 semi_symbol
  dsimp only
  rw [hpeek]
  simp only [List.length_append,List.length_replicate] at hfuel
  by_cases hsemi : starts [';'] ts2=true
  · rw [if_pos hsemi]
    obtain ⟨ts3,rfl⟩ := (starts_symbol (t:=.semi) (by decide) (by decide)).mp hsemi
    obtain ⟨-,hat4,-⟩ := gettoken_cons hline hat3
    simp only [List.length_cons] at hfuel
    refine (ih.ofLine _ _ hat4 (by omega)).bind ?_
    rintro ⟨right,s4⟩ ⟨vs,rest,rfl,hend,hright,hwords'⟩
    refine ⟨us++List.replicate marks .amp++.semi::vs,rest,?_,hend,?_,?_⟩
    · grind
    · rw [Cmd.map,map_back]
      exact .list marks hpipe hright
    · rw [Cmd.words,words_back]
      exact List.forall_mem_append.mpr ⟨hwords,hwords'⟩
  · rw [if_neg hsemi]
    refine ⟨us++List.replicate marks .amp,ts2,?_,hat3,?_,?_⟩
    · rw [List.append_assoc]
    · rw [map_back]
      exact .last marks hpipe
    · rw [words_back]
      exact hwords

lemma settling_pipe (h : At line s ts) (hfuel : 4*ts.length+3≤fuel+1) :
    Settles (parsepipe line (fuel+1) s) (Parsed Pipe line ts) := by
  rw [parsepipe]
  refine (ih.ofExec s ts h (by omega)).bind ?_
  rintro ⟨cmd,s1⟩ ⟨us,ts1,rfl,hat1,hexec,hwords⟩
  obtain ⟨hpeek,hat2⟩ := peek_spec hline hat1 bar_symbol
  dsimp only
  rw [hpeek]
  simp only [List.length_append] at hfuel
  by_cases hbar : starts ['|'] ts1=true
  · rw [if_pos hbar]
    obtain ⟨ts2,rfl⟩ := (starts_symbol (t:=.bar) (by decide) (by decide)).mp hbar
    obtain ⟨-,hat3,-⟩ := gettoken_cons hline hat2
    simp only [List.length_cons] at hfuel
    refine (ih.ofPipe _ _ hat3 (by omega)).bind ?_
    rintro ⟨right,s3⟩ ⟨vs,rest,rfl,hend,hright,hwords'⟩
    refine ⟨us++.bar::vs,rest,?_,hend,.pipe hexec hright,?_⟩
    · grind
    · exact List.forall_mem_append.mpr ⟨hwords,hwords'⟩
  · rw [if_neg hbar]
    exact ⟨us,ts1,rfl,hat2,.last hexec,hwords⟩

lemma settling_block (h : At line s (.lpar::ts)) (hfuel : 4*ts.length+5≤fuel+1) :
    Settles (parseblock line (fuel+1) s) (Parsed Exec line (.lpar::ts)) := by
  obtain ⟨hpeek,hat⟩ := peek_spec hline h open_symbol
  rw [parseblock]
  dsimp only
  rw [hpeek,if_neg (not_not.mpr (show starts ['('] (.lpar::ts)=true from rfl))]
  obtain ⟨-,hat1,-⟩ := gettoken_cons hline hat
  refine (ih.ofLine _ _ hat1 (by omega)).bind ?_
  rintro ⟨cmd,s1⟩ ⟨us,ts1,rfl,hat2,hinner,hwords⟩
  obtain ⟨hpeek',hat3⟩ := peek_spec hline hat2 close_symbol
  dsimp only
  rw [hpeek']
  by_cases hrpar : starts [')'] ts1=true
  · rw [if_neg (not_not.mpr hrpar)]
    obtain ⟨ts2,rfl⟩ := (starts_symbol (t:=.rpar) (by decide) (by decide)).mp hrpar
    obtain ⟨-,hat4,-⟩ := gettoken_cons hline hat3
    simp only [List.length_append,List.length_cons] at hfuel
    refine (parseredirs_settles hline fuel hat4 (by omega)).bind ?_
    rintro ⟨rs,s2⟩ ⟨vs,rest,rfl,hend,hredirs,hrs⟩
    refine ⟨.lpar::(us++.rpar::vs),rest,?_,hend,?_,?_⟩
    · grind
    · rw [map_wrap]
      exact .block hinner hredirs
    · rw [words_wrap]
      exact List.forall_mem_append.mpr ⟨hwords,List.forall_mem_map.mpr hrs⟩
  · rw [if_pos hrpar]
    trivial

lemma settling_exec (h : At line s ts) (hfuel : 4*ts.length+2≤fuel+1) :
    Settles (parseexec line (fuel+1) s) (Parsed Exec line ts) := by
  obtain ⟨hpeek,hat⟩ := peek_spec hline h open_symbol
  rw [parseexec,hpeek]
  by_cases hlpar : starts ['('] ts=true
  · rw [if_pos hlpar]
    obtain ⟨ts1,rfl⟩ := (starts_symbol (t:=.lpar) (by decide) (by decide)).mp hlpar
    grind [ih.ofBlock]
  · rw [if_neg hlpar]
    refine (parseredirs_settles hline fuel hat (by omega)).bind ?_
    rintro ⟨rs,s1⟩ ⟨us,ts1,rfl,hat1,hredirs,hrs⟩
    simp only [List.length_append] at hfuel
    refine (parseargs_settles hline fuel hat1 (by omega) (by decide)).imp ?_
    rintro ⟨cmd,s2⟩ ⟨vs,rest,argv,qs,rfl,hend,rfl,hargs,hfew,hargv,hqs⟩
    refine ⟨us++vs,rest,?_,hend,?_,?_⟩
    · rw [List.append_assoc]
    · rw [map_wrap,List.map_append]
      exact .program hredirs hargs (by simpa only [List.length_map] using hfew)
    · rw [words_wrap,List.map_append]
      exact List.forall_mem_append.mpr ⟨hargv,List.forall_mem_append.mpr
        ⟨List.forall_mem_map.mpr hrs,List.forall_mem_map.mpr hqs⟩⟩

omit ih

lemma settling (fuel : ℕ) : Settling line fuel := by
  induction fuel with
  | zero => exact ⟨fun _ _ _ => nofun,fun _ _ _ => nofun,fun _ _ _ => nofun,fun _ _ _ => nofun⟩
  | succ fuel ih =>
    exact ⟨fun _ _ => settling_line hline ih,fun _ _ => settling_pipe hline ih,
      fun _ _ => settling_exec hline ih,fun _ _ => settling_block hline ih⟩

end Sound

/-! ## What is derived is returned -/

/-- The tokens behind a derivation: none, or one of these first. -/
def Ends (set rest : List Token) : Prop := ∀ t∈rest.head?,t∈set

lemma ends_cons (ht : t∈set) (ts : List Token) : Ends set (t::ts) := by
  intro u hu
  cases hu
  exact ht

lemma Ends.mono {set' : List Token} (h : Ends set rest) (hset : set⊆set') :
    Ends set' rest := fun t ht => hset (h t ht)

lemma Ends.not_starts (h : Ends set rest) {toks : List Char}
    (hset : ∀ t∈set,starts toks [t]=false) : starts toks rest=false := by
  cases rest with
  | nil => rfl
  | cons t ts => exact hset t (h t rfl)

lemma Ends.replicate (h : Ends set rest) (hamp : .amp∈set) (marks : ℕ) :
    Ends set (List.replicate marks .amp++rest) := by
  cases marks with
  | zero => exact h
  | succ marks => exact ends_cons hamp _

lemma words_not_starts {argv : List Text} {qs : List (Redirect Text)} (h : Words us argv qs)
    {toks : List Char} (hrest : starts toks rest=false) : starts toks (us++rest)=false := by
  cases h with
  | nil => exact hrest
  | cons hr h => rfl

lemma redirs_not_lpar {rs : List (Redirect Text)} (h : Redirs us rs)
    (hrest : starts ['('] rest=false) : starts ['('] (us++rest)=false := by
  cases h with
  | nil => exact hrest
  | @cons op _ _ _ _ _ hop h =>
    cases op with
    | less | great | append => rfl
    | _ => cases hop

/-- The function returned with this tree, read from the line, before the rest. -/
def Returns (line : List UInt8) (rest : List Token) (tree : Cmd Text)
    (o : Outcome (Cmd Span×ℕ)) : Prop :=
  ∃ r,o=.next r ∧ At line r.2 rest ∧ r.1.map (spelling line)=tree

section Complete

variable (hline : ∀ c∈line,c≠0) {fuel : ℕ} {tree : Cmd Text}

include hline

lemma parseredirs_complete {rs : List (Redirect Text)} (hder : Redirs us rs)
    (h : At line s (us++rest)) (hrest : starts ['<','>'] rest=false) (hfuel : us.length<fuel) :
    ∃ r,parseredirs line fuel s=.next r ∧ At line r.2 rest ∧
      r.1.map (readRedirect line)=rs := by
  induction hder generalizing s fuel with
  | nil =>
    obtain ⟨fuel,rfl⟩ := Nat.exists_eq_add_of_lt hfuel
    obtain ⟨hpeek,hat⟩ := peek_spec hline h redirects_symbols
    refine ⟨([],_),?_,hat,rfl⟩
    simp only [List.nil_append] at hpeek
    simp only [parseredirs,hpeek,hrest,Bool.false_eq_true,if_false]
    rfl
  | @cons op file mode fd us rs hop hder ih =>
    obtain ⟨fuel,rfl⟩ := Nat.exists_eq_add_of_lt hfuel
    obtain ⟨hpeek,hat⟩ := peek_spec hline h redirects_symbols
    obtain ⟨hcode,hat1,-⟩ := gettoken_cons hline hat
    obtain ⟨hret,hat2,hword⟩ := gettoken_cons hline hat1
    obtain ⟨-,hw⟩ := hword file rfl
    have hstart : starts ['<','>'] (op::.word file::us++rest)=true :=
      starts_redir.mpr ⟨op,_,mode,fd,rfl,hop⟩
    have hless : us.length<(op::Token.word file::us).length+fuel := by grind
    obtain ⟨r,hr,hend,hmap⟩ := ih hat2 hless
    rw [parseredirs]
    dsimp only
    rw [hpeek,hstart,if_pos rfl,hret,if_neg (not_not.mpr (code_word file)),hr,hcode,
      redircmd_code hop]
    refine ⟨_,rfl,hend,?_⟩
    simp only [List.map_cons,hmap,readRedirect,Redirect.map,hw]

lemma parseargs_complete {argv : List Text} {qs : List (Redirect Text)}
    (hder : Words us argv qs) {fuel : ℕ} {args : List Span} {rs : List (Redirect Span)}
    (h : At line s (us++rest)) (hrest : Ends [.bar,.rpar,.amp,.semi] rest)
    (hfuel : us.length<fuel) (hargs : args.length+argv.length< maxargs) :
    Returns line rest
      (wrap (.exec (args.map (spelling line)++argv)) (rs.map (readRedirect line)++qs))
      (parseargs line fuel args rs s) := by
  induction hder generalizing s fuel args rs with
  | nil =>
    obtain ⟨fuel,rfl⟩ := Nat.exists_eq_add_of_lt hfuel
    obtain ⟨hpeek,hat⟩ := peek_spec hline h enders_symbols
    rw [parseargs]
    dsimp only
    rw [hpeek,List.append_nil,List.append_nil,List.nil_append]
    cases rest with
    | nil =>
      obtain ⟨hret,hend⟩ := gettoken_nil hline hat
      rw [if_neg (by decide),hret,if_pos rfl]
      exact ⟨_,rfl,hend,map_wrap _ _ _⟩
    | cons t rest =>
      rw [if_pos (starts_stop.mpr ⟨t,rest,rfl,hrest t rfl⟩)]
      exact ⟨_,rfl,hat,map_wrap _ _ _⟩
  | @cons w us vs argv rs' qs hredirs hder ih =>
    obtain ⟨fuel,rfl⟩ := Nat.exists_eq_add_of_lt hfuel
    obtain ⟨hpeek,hat⟩ := peek_spec hline h enders_symbols
    obtain ⟨hret,hat1,hword⟩ := gettoken_cons hline hat
    obtain ⟨-,hw⟩ := hword w rfl
    have hat2 : At line (gettoken line (peek line s ['|',')','&',';']).2).s (us++(vs++rest)) := by
      rw [←List.append_assoc]
      exact hat1
    have hstop : starts ['|',')','&',';'] (.word w::(us++vs)++rest)=false := rfl
    simp only [List.length_cons,List.length_append] at hargs hfuel ⊢
    have hroom : ¬maxargs≤args.length+1 := by omega
    obtain ⟨r,hr,hat3,hmap⟩ := parseredirs_complete hline hredirs hat2
      (words_not_starts hder (hrest.not_starts (by decide)))
      (show us.length<us.length+vs.length+1+fuel by omega)
    rw [parseargs]
    dsimp only
    rw [hpeek,hstop,if_neg Bool.false_ne_true,hret,if_neg (code_ne_zero _),
      if_neg (not_not.mpr (code_word w)),if_neg hroom,hr,next_bind]
    have hfew : (args++[(gettoken line (peek line s ['|',')','&',';']).2).span]).length+
        argv.length< maxargs := by
      simp only [List.length_append,List.length_singleton]
      omega
    have hih := @ih r.2 _ _ (rs++r.1) hat3 (show vs.length<us.length+vs.length+1+fuel by omega) hfew
    simpa only [List.map_append,List.map_cons,List.map_nil,hw,hmap,List.append_assoc,
      List.singleton_append] using hih

lemma parseback_complete (marks : ℕ) (cmd : Cmd Span)
    (h : At line s (List.replicate marks .amp++rest)) (hrest : starts ['&'] rest=false)
    (hfuel : marks<fuel) :
    ∃ s',parseback line fuel cmd s=.next (Cmd.back^[marks] cmd,s') ∧ At line s' rest := by
  induction marks generalizing s fuel cmd with
  | zero =>
    obtain ⟨fuel,rfl⟩ := Nat.exists_eq_add_of_lt hfuel
    obtain ⟨hpeek,hat⟩ := peek_spec hline h amp_symbol
    rw [List.replicate_zero,List.nil_append] at hpeek
    rw [parseback,hpeek,hrest]
    exact ⟨_,rfl,hat⟩
  | succ marks ih =>
    obtain ⟨fuel,rfl⟩ := Nat.exists_eq_add_of_lt hfuel
    obtain ⟨hpeek,hat⟩ := peek_spec hline h amp_symbol
    obtain ⟨-,hat1,-⟩ := gettoken_cons hline hat
    have hamp : starts ['&'] (List.replicate (marks+1) .amp++rest)=true := rfl
    rw [parseback,hpeek,hamp,if_pos rfl,Function.iterate_succ_apply]
    exact ih (.back cmd) hat1 (by omega)

/-- What the four functions that call each other return with this much fuel. -/
structure Completing (line : List UInt8) (fuel : ℕ) : Prop where
  ofLine : ∀ {s us rest tree},Line us tree→At line s (us++rest)→Ends [.rpar] rest→
    4*us.length+4≤fuel→Returns line rest tree (parseline line fuel s)
  ofPipe : ∀ {s us rest tree},Pipe us tree→At line s (us++rest)→Ends [.rpar,.amp,.semi] rest→
    4*us.length+3≤fuel→Returns line rest tree (parsepipe line fuel s)
  ofExec : ∀ {s us rest tree},Exec us tree→At line s (us++rest)→
    Ends [.bar,.rpar,.amp,.semi] rest→4*us.length+2≤fuel→
    Returns line rest tree (parseexec line fuel s)
  ofBlock : ∀ {s us vs rest cmd rs},Line us cmd→Redirs vs rs→
    At line s (.lpar::(us++.rpar::(vs++rest)))→Ends [.bar,.rpar,.amp,.semi] rest→
    4*(us.length+vs.length)+9≤fuel→Returns line rest (wrap cmd rs) (parseblock line fuel s)

variable (ih : Completing line fuel)

include ih

lemma completing_marks {marks : ℕ} (hpipe : Pipe us tree)
    (h : At line s (us++(List.replicate marks .amp++rest))) (hrest : Ends [.rpar,.semi] rest)
    (hfuel : 4*us.length+3≤fuel) (hmarks : marks<fuel) : ∃ r s',parsepipe line fuel s=.next r ∧
      parseback line fuel r.1 r.2=.next (Cmd.back^[marks] r.1,s') ∧ At line s' rest ∧
      r.1.map (spelling line)=tree := by
  obtain ⟨r,hr,hat,hmap⟩ := ih.ofPipe hpipe h
    ((hrest.mono (by decide)).replicate (by decide) marks) hfuel
  obtain ⟨s',hs',hat'⟩ :=
    parseback_complete hline marks r.1 hat (hrest.not_starts (by decide)) hmarks
  exact ⟨r,s',hr,hs',hat',hmap⟩

lemma completing_line (hder : Line us tree) (h : At line s (us++rest)) (hrest : Ends [.rpar] rest)
    (hfuel : 4*us.length+4≤fuel+1) : Returns line rest tree (parseline line (fuel+1) s) := by
  cases hder with
  | @last us cmd marks hpipe =>
    simp only [List.length_append,List.length_replicate] at hfuel
    rw [List.append_assoc] at h
    obtain ⟨r,s',hr,hs',hat,hmap⟩ := completing_marks hline ih hpipe h (hrest.mono (by decide))
      (by omega) (by omega)
    obtain ⟨hpeek,hend⟩ := peek_spec hline hat semi_symbol
    rw [parseline,hr,next_bind,hs',next_bind]
    dsimp only
    rw [hpeek,hrest.not_starts (by decide),if_neg Bool.false_ne_true]
    exact ⟨_,rfl,hend,by rw [map_back,hmap]⟩
  | @list us vs cmd right marks hpipe hright =>
    simp only [List.length_append,List.length_replicate,List.length_cons] at hfuel
    rw [List.append_assoc,List.append_assoc,List.cons_append] at h
    obtain ⟨r,s',hr,hs',hat,hmap⟩ := completing_marks hline ih hpipe h (ends_cons (by decide) _)
      (by omega) (by omega)
    obtain ⟨hpeek,hat1⟩ := peek_spec hline hat semi_symbol
    obtain ⟨-,hat2,-⟩ := gettoken_cons hline hat1
    obtain ⟨q,hq,hend,hmap'⟩ := ih.ofLine hright hat2 hrest (by omega)
    have hsemi : starts [';'] (.semi::(vs++rest))=true := rfl
    rw [parseline,hr,next_bind,hs',next_bind]
    dsimp only
    rw [hpeek,hsemi,if_pos rfl,hq,next_bind]
    exact ⟨_,rfl,hend,by rw [Cmd.map,map_back,hmap,hmap']⟩

lemma completing_pipe (hder : Pipe us tree) (h : At line s (us++rest))
    (hrest : Ends [.rpar,.amp,.semi] rest) (hfuel : 4*us.length+3≤fuel+1) :
    Returns line rest tree (parsepipe line (fuel+1) s) := by
  cases hder with
  | last hexec =>
    obtain ⟨r,hr,hat,hmap⟩ := ih.ofExec hexec h (hrest.mono (by decide)) (by omega)
    obtain ⟨hpeek,hend⟩ := peek_spec hline hat bar_symbol
    rw [parsepipe,hr,next_bind]
    dsimp only
    rw [hpeek,hrest.not_starts (by decide),if_neg Bool.false_ne_true]
    exact ⟨_,rfl,hend,hmap⟩
  | @pipe us vs cmd right hexec hright =>
    simp only [List.length_append,List.length_cons] at hfuel
    rw [List.append_assoc,List.cons_append] at h
    obtain ⟨r,hr,hat,hmap⟩ := ih.ofExec hexec h (ends_cons (by decide) _) (by omega)
    obtain ⟨hpeek,hat1⟩ := peek_spec hline hat bar_symbol
    obtain ⟨-,hat2,-⟩ := gettoken_cons hline hat1
    obtain ⟨q,hq,hend,hmap'⟩ := ih.ofPipe hright hat2 hrest (by omega)
    have hbar : starts ['|'] (.bar::(vs++rest))=true := rfl
    rw [parsepipe,hr,next_bind]
    dsimp only
    rw [hpeek,hbar,if_pos rfl,hq,next_bind]
    exact ⟨_,rfl,hend,by rw [Cmd.map,hmap,hmap']⟩

lemma completing_exec (hder : Exec us tree) (h : At line s (us++rest))
    (hrest : Ends [.bar,.rpar,.amp,.semi] rest) (hfuel : 4*us.length+2≤fuel+1) :
    Returns line rest tree (parseexec line (fuel+1) s) := by
  obtain ⟨hpeek,hat⟩ := peek_spec hline h open_symbol
  rw [parseexec,hpeek]
  cases hder with
  | @block us vs cmd rs hinner hredirs =>
    have hlpar : starts ['('] (.lpar::(us++.rpar::vs)++rest)=true := rfl
    simp only [List.length_append,List.length_cons] at hfuel
    rw [List.cons_append,List.append_assoc,List.cons_append] at hat
    grind [ih.ofBlock]
  | @program us vs argv rs qs hredirs hwords hargs =>
    simp only [List.length_append] at hfuel
    rw [List.append_assoc] at hat ⊢
    have hlpar : starts ['('] (us++(vs++rest))=false :=
      redirs_not_lpar hredirs (words_not_starts hwords (hrest.not_starts (by decide)))
    obtain ⟨r,hr,hat1,hmap⟩ := parseredirs_complete hline hredirs hat
      (words_not_starts hwords (hrest.not_starts (by decide))) (show us.length<fuel by omega)
    rw [hlpar,if_neg Bool.false_ne_true,hr,next_bind]
    have hprogram := @parseargs_complete line _ _ _ hline _ _ hwords fuel [] r.1 hat1 hrest
      (by omega) (by simpa only [List.length_nil,Nat.zero_add] using hargs)
    grind

lemma completing_block {vs : List Token} {cmd : Cmd Text} {rs : List (Redirect Text)}
    (hinner : Line us cmd) (hredirs : Redirs vs rs) (h : At line s (.lpar::(us++.rpar::(vs++rest))))
    (hrest : Ends [.bar,.rpar,.amp,.semi] rest) (hfuel : 4*(us.length+vs.length)+9≤fuel+1) :
    Returns line rest (wrap cmd rs) (parseblock line (fuel+1) s) := by
  obtain ⟨hpeek,hat⟩ := peek_spec hline h open_symbol
  obtain ⟨-,hat1,-⟩ := gettoken_cons hline hat
  obtain ⟨r,hr,hat2,hmap⟩ := ih.ofLine hinner hat1 (ends_cons (by decide) _) (by omega)
  obtain ⟨hpeek',hat3⟩ := peek_spec hline hat2 close_symbol
  obtain ⟨-,hat4,-⟩ := gettoken_cons hline hat3
  obtain ⟨q,hq,hend,hmap'⟩ := parseredirs_complete hline hredirs hat4
    (hrest.not_starts (by decide)) (show vs.length<fuel by omega)
  have hlpar : starts ['('] (.lpar::(us++.rpar::(vs++rest)))=true := rfl
  have hrpar : starts [')'] (.rpar::(vs++rest))=true := rfl
  rw [parseblock]
  dsimp only
  rw [hpeek,hlpar,if_neg (not_not.mpr rfl),hr,next_bind,hpeek',hrpar,if_neg (not_not.mpr rfl),hq,next_bind]
  exact ⟨_,rfl,hend,by rw [map_wrap,hmap,hmap']⟩

omit ih

lemma completing (fuel : ℕ) : Completing line fuel := by
  induction fuel with
  | zero => exact ⟨fun _ _ _ => nofun,fun _ _ _ => nofun,fun _ _ _ => nofun,fun _ _ _ _ => nofun⟩
  | succ fuel ih =>
    exact ⟨completing_line hline ih,completing_pipe hline ih,completing_exec hline ih,
      completing_block hline ih⟩

end Complete

/-! ## Terminating the words -/

/-- At this position of the buffer a C string with these characters starts. -/
def CString (buf : List UInt8) (q : ℕ) (text : Text) : Prop :=
  ∃ rest,buf.drop q=text++0::rest ∧ ∀ c∈text,c≠0

def endWords (buf : List UInt8) (ps : List Span) : List UInt8 :=
  ps.foldl (fun buf p => buf.set p.eq 0) buf

lemma endWords_append (buf : List UInt8) (ps qs : List Span) :
    endWords buf (ps++qs)=endWords (endWords buf ps) qs := List.foldl_append

lemma nulterminate_eq (buf : List UInt8) (cmd : Cmd Span) :
    nulterminate buf cmd=endWords buf cmd.words := by
  induction cmd generalizing buf with
  | exec argv => rfl
  | redir cmd target ih => rw [nulterminate,ih,Cmd.words,endWords_append]; rfl
  | pipe left right ihl ihr => rw [nulterminate,ihl,ihr,Cmd.words,endWords_append]
  | list left right ihl ihr => rw [nulterminate,ihl,ihr,Cmd.words,endWords_append]
  | back cmd ih => rw [nulterminate,ih,Cmd.words]

lemma endWords_other {i : ℕ} (buf : List UInt8) (h : ∀ p∈ps,p.eq≠i) :
    (endWords buf ps)[i]?=buf[i]? := by
  induction ps generalizing buf with
  | nil => rfl
  | cons p ps ih =>
    obtain ⟨hp,hps⟩ := List.forall_mem_cons.mp h
    exact (ih (buf.set p.eq 0) hps).trans (List.getElem?_set_ne hp)

lemma endWords_zero {i : ℕ} {buf : List UInt8} (h : buf[i]?=some 0) (ps : List Span) :
    (endWords buf ps)[i]?=some 0 := by
  induction ps generalizing buf with
  | nil => exact h
  | cons p ps ih =>
    refine @ih (buf.set p.eq 0) ?_
    grind

lemma endWords_end {buf : List UInt8} {p : Span} (hp : p∈ps) (hlen : p.eq<buf.length) :
    (endWords buf ps)[p.eq]?=some 0 := by
  induction ps generalizing buf with
  | nil => cases hp
  | cons q ps ih =>
    rcases List.mem_cons.mp hp with rfl|hp
    · exact endWords_zero (List.getElem?_set_self hlen) ps
    · exact ih hp (by rwa [List.length_set])

lemma endWords_cstring {p : Span} (hline : ∀ c∈line,c≠0) (hall : ∀ q∈ps,Spelled line q)
    (hp : p∈ps) : CString (endWords (line++[0]) ps) p.q (spelling line p) := by
  have hspell := hall p hp
  have hle := hspell.le
  have hbound := hspell.bound
  have hend : (endWords (line++[0]) ps)[p.eq]?=some 0 := by
    refine endWords_end hp ?_
    rw [List.length_append,List.length_singleton]
    omega
  -- A position inside the word holds a character of words, and no word ends at one.
  have hkeep : ∀ k,k<p.eq-p.q→(endWords (line++[0]) ps)[p.q+k]?=(line)[p.q+k]? := by
    intro k hk
    have hlt : p.q+k<line.length := by omega
    have hmem : (line)[p.q+k]∈spelling line p := by
      refine List.mem_iff_getElem?.mpr ⟨k,?_⟩
      grind [spelling]
    rw [endWords_other,List.getElem?_append_left hlt]
    intro q hq heq
    refine (hall q hq).ends _ ?_ (hspell.chars _ hmem)
    grind
  have htext : ((endWords (line++[0]) ps).drop p.q).take (p.eq-p.q)=spelling line p := by
    refine List.ext_getElem? fun k => ?_
    grind [spelling]
  obtain ⟨rest,hrest⟩ : ∃ rest,(endWords (line++[0]) ps).drop p.eq=0::rest := by
    grind [List.head?_drop,List.head?_eq_some_iff]
  refine ⟨rest,?_,?_⟩
  · rw [←htext,←hrest]
    have hdrop : (endWords (line++[0]) ps).drop p.eq=
        ((endWords (line++[0]) ps).drop p.q).drop (p.eq-p.q) := by
      rw [List.drop_drop,Nat.add_sub_cancel' hle]
    rw [hdrop,List.take_append_drop]
  · intro c hc
    exact hline c (List.mem_of_mem_drop (List.mem_of_mem_take hc))

/-! ## The whole line -/

lemma at_start (line : List UInt8) : At line 0 (tokens line) := ⟨Nat.zero_le _,rfl⟩

lemma leftovers_iff (hline : ∀ c∈line,c≠0) (h : At line s ts) :
    (peek line s []).2=line.length ↔ ts=[] := by
  have hat := at_skipSpace h
  constructor
  · intro hs
    rw [←hat.2,show skipSpace line s=line.length from hs,List.drop_length,tokens]
  · rintro rfl
    rcases skipSpace_stop line s with hnil|⟨c,cs,hdrop,hc⟩
    · exact Nat.le_antisymm hat.1 (List.drop_eq_nil_iff.mp hnil)
    · have h0 : c≠0 := hline c (List.mem_of_mem_drop (hdrop ▸ List.mem_cons_self))
      obtain ⟨t,ht,-⟩ := scan_spec hdrop hc h0
      rw [←hdrop,hat.2] at ht
      cases ht

lemma lineFuel_enough (line : List UInt8) : 4*(tokens line).length+4≤lineFuel line := by
  have hle := tokens_length line
  rw [lineFuel]
  omega

lemma parsecmd_settles (line : CommandLine) : Settles (parsecmd line) fun r =>
    Line (tokens line.bytes) (r.1.map (spelling line.bytes)) ∧
      ∀ p∈r.1.words,CString r.2 p.q (spelling line.bytes p) := by
  rw [parsecmd]
  refine ((settling line.text _).ofLine _ _ (at_start line.bytes)
    (lineFuel_enough line.bytes)).bind ?_
  rintro ⟨cmd,s⟩ ⟨us,rest,htokens,hat,hder,hwords⟩
  dsimp only
  split
  · trivial
  · next hs =>
    have hrest := (leftovers_iff line.text hat).mp (not_not.mp hs)
    rw [hrest,List.append_nil] at htokens
    refine ⟨htokens ▸ hder,fun p hp => ?_⟩
    dsimp only at hp ⊢
    rw [nulterminate_eq]
    exact endWords_cstring line.text hwords hp

lemma parsecmd_complete (line : CommandLine) {tree : Cmd Text}
    (hder : Line (tokens line.bytes) tree) :
    ∃ cmd buf,parsecmd line=.next (cmd,buf) ∧ cmd.map (spelling line.bytes)=tree := by
  have hat := at_start line.bytes
  rw [←List.append_nil (tokens line.bytes)] at hat
  obtain ⟨r,hr,hend,hmap⟩ := (completing line.text _).ofLine hder hat nofun
    (lineFuel_enough line.bytes)
  refine ⟨r.1,nulterminate (line.bytes++[0]) r.1,?_,hmap⟩
  rw [parsecmd,hr,next_bind,if_neg (not_not.mpr ((leftovers_iff line.text hend).mpr rfl))]
  rfl

/-- The shell parser accepts exactly its grammar. Every line is parsed or
refused with a message. A tree is derived from the tokens of the line exactly
when `parsecmd` returns it, and in the buffer that it leaves every argv and
file pointer of the tree is a C string with the characters of its token. -/
theorem parsecmd_accepts_grammar (line : CommandLine) :
    ((∃ msg,parsecmd line=.panic msg) ∨ ∃ cmd buf,parsecmd line=.next (cmd,buf)) ∧
    (∀ tree,Line (tokens line.bytes) tree ↔
      ∃ cmd buf,parsecmd line=.next (cmd,buf) ∧ cmd.map (spelling line.bytes)=tree) ∧
    ∀ cmd buf,parsecmd line=.next (cmd,buf)→
      ∀ p∈cmd.words,CString buf p.q (spelling line.bytes p) := by
  have hsettles := parsecmd_settles line
  refine ⟨?_,fun tree => ⟨parsecmd_complete line,?_⟩,?_⟩
  · grind [hsettles.stops_or_returns]
  · rintro ⟨cmd,buf,hret,rfl⟩
    exact (hsettles.of_next hret).1
  · intro cmd buf hret
    exact (hsettles.of_next hret).2

example : (parsecmd ⟨['(','a',';','b',')','>','c','&'].map Char.toUInt8,by decide +kernel⟩).state?.map
    Prod.fst=some (.back (.redir (.list (.exec [⟨1,2⟩]) (.exec [⟨3,4⟩])) ⟨⟨6,7⟩,0x601,1⟩)) := by
  decide +kernel

end Xv6Riscv.ShellAccepts
