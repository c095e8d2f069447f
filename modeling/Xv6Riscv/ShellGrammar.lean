import Xv6Riscv.ShellParser

/-!
# The grammar of command lines

What a command line means, said without a cursor. The characters of the line
form a sequence of tokens: a symbol is a token by itself, except that two
adjacent '>' are one, and a longest run of other characters is a word. The
grammar derives a tree from a sequence of tokens:

    line  := pipe '&'* [';' line]
    pipe  := exec ['|' pipe]
    exec  := '(' line ')' redir* | redir* (word redir*)*
    redir := ('<' | '>' | '>>') word

where the second form of `exec` has fewer than MAXARGS words.
-/

namespace Xv6Riscv.ShellGrammar

open ShellParser

inductive Token where
  | less
  | great
  | append
  | bar
  | amp
  | semi
  | lpar
  | rpar
  | word (text : List UInt8)
deriving DecidableEq, Repr

def symbolOf (c : UInt8) : Option Token :=
  if c= '<'.toUInt8 then some .less
  else if c= '>'.toUInt8 then some .great
  else if c= '|'.toUInt8 then some .bar
  else if c= '&'.toUInt8 then some .amp
  else if c= ';'.toUInt8 then some .semi
  else if c= '('.toUInt8 then some .lpar
  else if c= ')'.toUInt8 then some .rpar
  else none

def WordChar (c : UInt8) : Prop := c∉whitespace ∧ c∉symbols

instance : DecidablePred WordChar := fun _ => inferInstanceAs (Decidable (_ ∧ _))

def tokens : List UInt8→List Token
  | [] => []
  | c::cs =>
    if c∈whitespace then tokens cs
    else if c= '>'.toUInt8 ∧ cs.head?=some '>'.toUInt8 then .append::tokens cs.tail
    else match symbolOf c with
      | some t => t::tokens cs
      | none => .word (c::cs.takeWhile fun d => decide (WordChar d))::
          tokens (cs.dropWhile fun d => decide (WordChar d))
termination_by line => line.length
decreasing_by
  · simp only [List.length_cons,Nat.lt_add_one]
  · simp only [List.length_cons,List.length_tail]
    omega
  · simp only [List.length_cons,Nat.lt_add_one]
  · have hle : (cs.dropWhile fun d => decide (WordChar d)).length≤cs.length :=
      (List.dropWhile_sublist _).length_le
    simp only [List.length_cons]
    omega

/-- The mode and the descriptor of a redirection operator. -/
def redirection : Token→Option (ℕ×ℕ)
  | .less => some (0,0)
  | .great => some (FileSyscalls.oWronly+FileSyscalls.oCreate+FileSyscalls.oTrunc,1)
  | .append => some (FileSyscalls.oWronly+FileSyscalls.oCreate,1)
  | _ => none

abbrev Text := List UInt8

/-- `redir*`: the redirections that the tokens name, in order. -/
inductive Redirs : List Token→List (Redirect Text)→Prop
  | nil : Redirs [] []
  | cons {op : Token} {file : Text} {mode fd : ℕ} {ts : List Token} {rs : List (Redirect Text)}
      (hop : redirection op=some (mode,fd)) (h : Redirs ts rs) :
      Redirs (op::.word file::ts) (⟨file,mode,fd⟩::rs)

/-- `(word redir*)*`: the words and the redirections between them. -/
inductive Words : List Token→List Text→List (Redirect Text)→Prop
  | nil : Words [] [] []
  | cons {w : Text} {us vs : List Token} {argv : List Text} {rs qs : List (Redirect Text)}
      (hr : Redirs us rs) (h : Words vs argv qs) :
      Words (.word w::(us++vs)) (w::argv) (rs++qs)

mutual

/-- `line`: marks wrap the pipeline, and the list goes on to the right. -/
inductive Line : List Token→Cmd Text→Prop
  | last {us : List Token} {cmd : Cmd Text} (marks : ℕ) (h : Pipe us cmd) :
      Line (us++List.replicate marks .amp) (Cmd.back^[marks] cmd)
  | list {us vs : List Token} {cmd rest : Cmd Text} (marks : ℕ) (h : Pipe us cmd)
      (hrest : Line vs rest) :
      Line (us++List.replicate marks .amp++.semi::vs) (.list (Cmd.back^[marks] cmd) rest)

inductive Pipe : List Token→Cmd Text→Prop
  | last {us : List Token} {cmd : Cmd Text} (h : Exec us cmd) : Pipe us cmd
  | pipe {us vs : List Token} {cmd rest : Cmd Text} (h : Exec us cmd) (hrest : Pipe vs rest) :
      Pipe (us++.bar::vs) (.pipe cmd rest)

/-- `exec`: a block or a program, wrapped in its redirections. -/
inductive Exec : List Token→Cmd Text→Prop
  | block {us vs : List Token} {cmd : Cmd Text} {rs : List (Redirect Text)} (h : Line us cmd)
      (hr : Redirs vs rs) : Exec (.lpar::(us++.rpar::vs)) (wrap cmd rs)
  | program {us vs : List Token} {argv : List Text} {rs qs : List (Redirect Text)}
      (hr : Redirs us rs) (h : Words vs argv qs) (hargs : argv.length< maxargs) :
      Exec (us++vs) (wrap (.exec argv) (rs++qs))

end

end Xv6Riscv.ShellGrammar
