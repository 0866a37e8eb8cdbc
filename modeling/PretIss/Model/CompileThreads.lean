import PretIss.Library.Hexadecimal

/-! The script that compiles the programs of the threads, each for a region of its own. It
checks in the file that the compiler leaves that a program stays in its region. -/

namespace PretIss

open Hexadecimal

namespace CompileThreads

inductive Failure
  | indexError
  | valueError
  | assertionError (thread : Nat)
  deriving DecidableEq

def threadStart : Nat := 0x40000000

def threadSpacing : Nat := 0x00100000

/-- The lines of a file, each with its end. -/
def lines : List Char → List (List Char)
  | [] => []
  | c :: rest =>
    if c = '\n' then [c] :: lines rest
    else
      match lines rest with
      | [] => [[c]]
      | line :: more => (c :: line) :: more

/-- The conversion `int(text, 16)`. Blanks may stand around the number. -/
def intOfHex (text : List Char) : Except Failure Int :=
  match scan (skipBlanks text) with
  | none => .error .valueError
  | some found =>
    if found.rest.all isBlank then .ok (if found.negative then -found.value else found.value)
    else .error .valueError

/-- The number of digits of the address of a record of this type. -/
def addrLen (sType : Char) : Nat := 2 + 2 * digitValue sType

/-- One line of the file, with the greatest address so far. -/
def readLine (maxAddr : Int) (line : List Char) : Except Failure Int :=
  match (line)[1]? with
  | none => .error .indexError
  | some sType =>
    if '1' ≤ sType ∧ sType ≤ '3' then do
      let currentAddr ← intOfHex ((line.drop 4).take (addrLen sType))
      let currentAddr := currentAddr + 2 * addrLen sType
      return if currentAddr > maxAddr then currentAddr else maxAddr
    else .ok maxAddr

def getMaxAddress (srecFile : List Char) : Except Failure Int :=
  (lines srecFile).foldlM readLine 0

/-- The addresses of text and data that the compiler is told. -/
def startAt (addr : Nat) : Nat × Nat := (addr, addr + threadSpacing / 2)

def align (addr : Nat) : Nat := (addr + 31) / 32 * 32

/-- The loop over the threads, from one thread and its address on. The compiler makes the file
of a thread from the number of the thread and its two addresses. -/
def compileFrom (makeCFile : Nat → Nat × Nat → List Char) (thread progAddr : Nat) :
    Nat → Except Failure Unit
  | 0 => .ok ()
  | remaining + 1 => do
    let srecFile := makeCFile thread (startAt progAddr)
    let progAddr := align (progAddr + threadSpacing)
    let maxAddr ← getMaxAddress srecFile
    if maxAddr < progAddr then compileFrom makeCFile (thread + 1) progAddr remaining
    else .error (.assertionError thread)

def compileThreads (makeCFile : Nat → Nat × Nat → List Char) (numThreads : Nat) :
    Except Failure Unit :=
  compileFrom makeCFile 0 threadStart numThreads

end CompileThreads

end PretIss
