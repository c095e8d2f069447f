import Xv6Riscv.FileSyscalls

/-!
# The command parser of the shell

`parsecmd` reads a command line by recursive descent. Its functions share a
cursor into the line, which `peek` and `gettoken` move, and they panic on a
line that they cannot parse. The tree that they build points into the line;
`nulterminate` then ends each word there by storing a NUL behind it.

Pointers are positions in the line. The C functions recurse and loop without a
bound, so the model gives each of them fuel, and running out of it is the
outcome `blocked`, which the termination result rules out. Allocation of the
nodes succeeds, and the user stack holds every call.
-/

namespace Xv6Riscv.ShellParser

open Transition OutcomeLogic

def maxargs : ℕ := 10

def whitespace : List UInt8 := [' ','\t','\r','\n','\x0b'].map Char.toUInt8

def symbols : List UInt8 := ['<','|','>','&',';','(',')'].map Char.toUInt8

/-- A command line: the characters before the NUL that ends it. -/
structure CommandLine where
  bytes : List UInt8
  text : ∀ c∈bytes,c≠0

/-- The pointers to the first character of a word and behind its last one. -/
structure Span where
  q : ℕ
  eq : ℕ
deriving DecidableEq, Repr

structure Redirect (α : Type) where
  file : α
  mode : ℕ
  fd : ℕ
deriving DecidableEq, Repr

/-- A parsed command. -/
inductive Cmd (α : Type) where
  | exec (argv : List α)
  | redir (cmd : Cmd α) (target : Redirect α)
  | pipe (left right : Cmd α)
  | list (left right : Cmd α)
  | back (cmd : Cmd α)
deriving DecidableEq, Repr

variable {α β : Type}

/-- Replace what stands for a word by what it is read as. -/
def Redirect.map (f : α→β) (r : Redirect α) : Redirect β := ⟨f r.file,r.mode,r.fd⟩

def Cmd.map (f : α→β) : Cmd α→Cmd β
  | .exec argv => .exec (argv.map f)
  | .redir cmd target => .redir (cmd.map f) (target.map f)
  | .pipe left right => .pipe (left.map f) (right.map f)
  | .list left right => .list (left.map f) (right.map f)
  | .back cmd => .back (cmd.map f)

def Cmd.words : Cmd α→List α
  | .exec argv => argv
  | .redir cmd target => cmd.words++[target.file]
  | .pipe left right => left.words++right.words
  | .list left right => left.words++right.words
  | .back cmd => cmd.words

/-- Redirections wrap a command in the order in which they were read. -/
def wrap (cmd : Cmd α) (rs : List (Redirect α)) : Cmd α := rs.foldl .redir cmd

/-- The character under a pointer; behind the line stands its NUL. -/
def charAt (line : List UInt8) (s : ℕ) : UInt8 := line.getD s 0

def skipSpace (line : List UInt8) (s : ℕ) : ℕ :=
  s+((line.drop s).takeWhile fun c => decide (c∈whitespace)).length

/-- The loop that moves a pointer past the characters of a word. -/
def skipWord (line : List UInt8) (s : ℕ) : ℕ :=
  s+((line.drop s).takeWhile fun c => decide (c∉whitespace ∧ c∉symbols)).length

structure Gotten where
  ret : UInt8
  span : Span
  s : ℕ
deriving DecidableEq, Repr

/-- The switch of `gettoken`: the return value and the pointer behind the token. -/
def scan (line : List UInt8) (q : ℕ) : UInt8×ℕ :=
  let c := charAt line q
  if c=0 then (0,q)
  else if c∈['|','(',')',';','&','<'].map Char.toUInt8 then (c,q+1)
  else if c= '>'.toUInt8 then
    if charAt line (q+1)= '>'.toUInt8 then ('+'.toUInt8,q+2) else (c,q+1)
  else ('a'.toUInt8,skipWord line q)

/-- Take the next token and the white space on both sides of it. -/
def gettoken (line : List UInt8) (s : ℕ) : Gotten :=
  let q := skipSpace line s
  let t := scan line q
  ⟨t.1,⟨q,t.2⟩,skipSpace line t.2⟩

/-- Skip white space and test whether one of the characters comes next. -/
def peek (line : List UInt8) (s : ℕ) (toks : List Char) : Bool×ℕ :=
  let s := skipSpace line s
  (decide (charAt line s≠0 ∧ charAt line s∈toks.map Char.toUInt8),s)

def redircmd (tok : UInt8) (file : α) : Redirect α :=
  if tok= '<'.toUInt8 then ⟨file,0,0⟩
  else if tok= '>'.toUInt8 then
    ⟨file,FileSyscalls.oWronly+FileSyscalls.oCreate+FileSyscalls.oTrunc,1⟩
  else ⟨file,FileSyscalls.oWronly+FileSyscalls.oCreate,1⟩

/-- The loop of `parseredirs`: the redirections in order, and the cursor. The
caller wraps its command in them. -/
def parseredirs (line : List UInt8) : ℕ→ℕ→Outcome (List (Redirect Span)×ℕ)
  | 0,_ => .blocked
  | fuel+1,s =>
    let more := peek line s ['<','>']
    if more.1 then
      let tok := gettoken line more.2
      let file := gettoken line tok.s
      if file.ret≠ 'a'.toUInt8 then .panic "missing file for redirection"
      else do
        let rest ← parseredirs line fuel file.s
        pure (redircmd tok.ret file.span::rest.1,rest.2)
    else pure ([],more.2)

/-- The loop of `parseexec`: it stores arguments behind those that it has, and
the redirections between them wrap the node in the order of reading. -/
def parseargs (line : List UInt8) :
    ℕ→List Span→List (Redirect Span)→ℕ→Outcome (Cmd Span×ℕ)
  | 0,_,_,_ => .blocked
  | fuel+1,argv,rs,s =>
    let stop := peek line s ['|',')','&',';']
    if stop.1 then pure (wrap (.exec argv) rs,stop.2)
    else
      let tok := gettoken line stop.2
      if tok.ret=0 then pure (wrap (.exec argv) rs,tok.s)
      else if tok.ret≠ 'a'.toUInt8 then .panic "syntax"
      else if maxargs≤argv.length+1 then .panic "too many args"
      else do
        let more ← parseredirs line fuel tok.s
        parseargs line fuel (argv++[tok.span]) (rs++more.1) more.2

def parseback (line : List UInt8) : ℕ→Cmd Span→ℕ→Outcome (Cmd Span×ℕ)
  | 0,_,_ => .blocked
  | fuel+1,cmd,s =>
    let amp := peek line s ['&']
    if amp.1 then parseback line fuel (.back cmd) (gettoken line amp.2).s
    else pure (cmd,amp.2)

mutual

/-- A pipeline, its background marks, and the list that goes on behind it. -/
def parseline (line : List UInt8) : ℕ→ℕ→Outcome (Cmd Span×ℕ)
  | 0,_ => .blocked
  | fuel+1,s => do
    let first ← parsepipe line fuel s
    let cmd ← parseback line fuel first.1 first.2
    let semi := peek line cmd.2 [';']
    if semi.1 then do
      let rest ← parseline line fuel (gettoken line semi.2).s
      pure (.list cmd.1 rest.1,rest.2)
    else pure (cmd.1,semi.2)

def parsepipe (line : List UInt8) : ℕ→ℕ→Outcome (Cmd Span×ℕ)
  | 0,_ => .blocked
  | fuel+1,s => do
    let cmd ← parseexec line fuel s
    let bar := peek line cmd.2 ['|']
    if bar.1 then do
      let rest ← parsepipe line fuel (gettoken line bar.2).s
      pure (.pipe cmd.1 rest.1,rest.2)
    else pure (cmd.1,bar.2)

/-- parseblock of user/sh.c. -/
def parseblock (line : List UInt8) : ℕ→ℕ→Outcome (Cmd Span×ℕ)
  | 0,_ => .blocked
  | fuel+1,s =>
    let lpar := peek line s ['(']
    if ¬lpar.1 then .panic "parseblock"
    else do
      let cmd ← parseline line fuel (gettoken line lpar.2).s
      let rpar := peek line cmd.2 [')']
      if ¬rpar.1 then .panic "syntax - missing )"
      else do
        let rs ← parseredirs line fuel (gettoken line rpar.2).s
        pure (wrap cmd.1 rs.1,rs.2)

/-- A block, or a program with its arguments and redirections. -/
def parseexec (line : List UInt8) : ℕ→ℕ→Outcome (Cmd Span×ℕ)
  | 0,_ => .blocked
  | fuel+1,s =>
    let lpar := peek line s ['(']
    if lpar.1 then parseblock line fuel lpar.2
    else do
      let rs ← parseredirs line fuel lpar.2
      parseargs line fuel [] rs.1 rs.2

end

/-- nulterminate of user/sh.c. -/
def nulterminate (buf : List UInt8) : Cmd Span→List UInt8
  | .exec argv => argv.foldl (fun buf arg => buf.set arg.eq 0) buf
  | .redir cmd target => (nulterminate buf cmd).set target.file.eq 0
  | .pipe left right => nulterminate (nulterminate buf left) right
  | .list left right => nulterminate (nulterminate buf left) right
  | .back cmd => nulterminate buf cmd

/-- Fuel that lasts for a line: four calls for each character, and one round
of every function at the end. -/
def lineFuel (line : List UInt8) : ℕ := 4*line.length+4

/-- Parse a whole line: the tree, and the buffer with its words terminated. -/
def parsecmd (line : CommandLine) : Outcome (Cmd Span×List UInt8) := do
  let cmd ← parseline line.bytes (lineFuel line.bytes) 0
  if (peek line.bytes cmd.2 []).2≠line.bytes.length then .panic "syntax"
  else pure (cmd.1,nulterminate (line.bytes++[0]) cmd.1)

end Xv6Riscv.ShellParser
