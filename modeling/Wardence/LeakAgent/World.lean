import Mathlib.Data.Int.Order.Basic
import Wardence.Lib.Passes
import Wardence.Lib.Python
/-!
# The leak agent's fields

The static fields of `LeakAgent.java` that its loops share, and the command file. Each
statement is one volatile access, or one synchronized step. Lists of held memory are
kept by their sizes. Status output, the garbage-collection figures and the content of
what is allocated are left out.
-/
namespace Wardence.LeakAgent

open Threads Code

/-- What a command can ask for. -/
inductive Target where
  | targetMb
  | nativeTargetBytes
  | refLeakTarget
  | codeLeakTarget
  | churnTargetBytes
  | graphSlots
  deriving DecidableEq, Repr

/-- The other numbers. -/
inductive Num where
  | allocatedBytes
  | cmdMtimeAtRead
  | cmdTtlS
  | lastFailedTargetMb
  | lastReleaseCmdMtime
  | governorCeilingMb
  | governorLastReleaseAt
  | governorStableLowSinceMs
  | govPrevStwSampledAt
  | heartbeatAt
  | controlLastRunAt
  | workerLastProgressAt
  | churnHoldMs
  | graphWritesPerSec
  | graphEdges
  /-- `lastTick` of the graph loop. -/
  | graphLastTick
  deriving DecidableEq, Repr

inductive Flag where
  | nativeAllocFailed
  | codeLeakFailed
  | churnDense
  | ioStuck
  | workerStuck
  | controlStuck
  deriving DecidableEq, Repr

/-- `currentState`. -/
inductive Phase where
  | ready
  | allocating
  | growing
  | allocated
  | governedHold
  | releasing
  | idle
  | errorOom
  | watchdogRelease
  deriving DecidableEq, Repr

/-- `lastError`, where a release sets it. -/
inductive Reason where
  | noCommandFile
  | emptyCommandFile
  | releaseCommand
  | workerStalled
  | controlStalled
  /-- `TTL expired`, of the control or of the watchdog loop. -/
  | ttlExpired
  | other
  deriving DecidableEq, Repr

/-- The lists of held memory whose sizes the targets steer. -/
inductive Held where
  | nativeChunks
  | refLeakList
  | codeLeakHold
  deriving DecidableEq, Repr

/-- `CMD_FILE`. -/
structure CmdFile where
  lines : List String
  mtime : Int
  deriving DecidableEq, Repr

structure World where
  now : Int
  file : Option CmdFile
  target : Target → Int
  num : Num → Int
  flag : Flag → Bool
  abortAllocation : Bool
  currentState : Phase
  lastError : Option Reason
  /-- `CHUNKS`. -/
  chunks : Nat
  held : Held → Nat
  /-- When each chunk of `CHURN_RING` was made, oldest first. -/
  churnRing : List Int
  /-- The length of `graphBackbone`. -/
  graphBackbone : Option Nat

/-- Where memory is allocated that stays reachable. -/
inductive Site where
  | chunk
  | held (h : Held)
  | churn
  | backbone (slots : Nat)
  | graphNode
  deriving DecidableEq, Repr

inductive Stmt where
  /-- Reads of fields, of the clock or of the file. -/
  | read
  | setTarget (t : Target) (x : Int)
  | setNum (n : Num) (x : Int)
  | setFlag (f : Flag) (b : Bool)
  | setAbort (b : Bool)
  | setState (s : Phase)
  | setError (r : Reason)
  | allocate (s : Site)
  | clearChunks
  | drop (h : Held)
  | dropAll (h : Held)
  | evict
  | dropBackbone
  | deleteFile
  deriving DecidableEq, Repr

def Site.effect : Site → World → World
  | .chunk, w => { w with chunks := w.chunks + 1 }
  | .held h, w => { w with held := Function.update w.held h (w.held h + 1) }
  | .churn, w => { w with churnRing := w.churnRing ++ [w.now] }
  | .backbone slots, w => { w with graphBackbone := some slots }
  | .graphNode, w => w

def Stmt.effect : Stmt → World → World
  | .read, w => w
  | .setTarget t x, w => { w with target := Function.update w.target t x }
  | .setNum n x, w => { w with num := Function.update w.num n x }
  | .setFlag f b, w => { w with flag := Function.update w.flag f b }
  | .setAbort b, w => { w with abortAllocation := b }
  | .setState s, w => { w with currentState := s }
  | .setError r, w => { w with lastError := some r }
  | .allocate s, w => s.effect w
  | .clearChunks, w => { w with chunks := 0 }
  | .drop h, w => { w with held := Function.update w.held h (w.held h - 1) }
  | .dropAll h, w => { w with held := Function.update w.held h 0 }
  | .evict, w => { w with churnRing := w.churnRing.tail }
  | .dropBackbone, w => { w with graphBackbone := none }
  | .deleteFile, w => { w with file := none }

/-! ## Commands -/

/-- The first line of the command file. -/
inductive Command where
  | empty
  | release
  | allocate (reqMb ttlS : Int)
  | native (mb ttlS : Int)
  | refLeak (count ttlS : Int)
  | codeLeak (count ttlS : Int)
  | churn (mb holdMs ttlS staticMb : Int) (dense : Bool)
  | graph (slotsK writesKPerSec edges ttlS staticMb : Int)
  | ignored
  deriving DecidableEq, Repr

/-- `String.trim`. -/
def trim (s : String) : List Char := ((s.toList.dropWhile (· ≤ ' ')).reverse.dropWhile (· ≤ ' ')).reverse

/-- `split("\\s+")` of what is trimmed. -/
def fields (cs : List Char) : List (List Char) :=
  (cs.splitOnP fun c => c ∈ [' ', '\t', '\n', '\x0b', '\x0c', '\r']).filter (· ≠ [])

/-- The upper case of a character where it is ASCII letters. -/
def upper (c : Char) : List Char :=
  match c with
  | 'ı' => ['I']
  | 'ſ' => ['S']
  | 'ß' => ['S', 'S']
  | 'ﬀ' => ['F', 'F']
  | 'ﬁ' => ['F', 'I']
  | 'ﬂ' => ['F', 'L']
  | 'ﬃ' => ['F', 'F', 'I']
  | 'ﬄ' => ['F', 'F', 'L']
  | 'ﬅ' | 'ﬆ' => ['S', 'T']
  | c => [c.toUpper]

/-- `parseLong` and `parseInt`, of a number below `2 ^ bits`. -/
def parse (bits : Nat) (cs : List Char) : Option Int :=
  let (negative, ds) := match cs with
    | '-' :: ds => (true, ds)
    | '+' :: ds => (false, ds)
    | ds => (false, ds)
  match ds.mapM Py.digit? with
  | some (d :: ds) =>
    let n : Int := if negative then -(Py.ofDigits (d :: ds) : Int) else Py.ofDigits (d :: ds)
    if -2 ^ bits ≤ n ∧ n < 2 ^ bits then some n else none
  | _ => none

def parseLong : List Char → Option Int := parse 63

/-- The value of the last option `key=...`; `none`: one of them is no number. -/
def option (key : String) (default : Int) (parts : List (List Char)) : Option Int :=
  parts.foldlM (fun x p => if key.toList.isPrefixOf p then parseLong (p.drop key.length) else some x) default

def ttl (parts : List (List Char)) : Option Int := option "ttl=" 60 parts

/-- `(int) x`. -/
def toInt (x : Int) : Int := (x + 2 ^ 31) % 2 ^ 32 - 2 ^ 31

/-- What a product of `long`s comes to. -/
def toLong (x : Int) : Int := (x + 2 ^ 63) % 2 ^ 64 - 2 ^ 63

/-- What the command's handler makes of its fields; `none`: it returns at once. -/
def parseFields (cs : List Char) : Option Command :=
  let parts := fields cs
  let name := (cs.flatMap upper)
  if "ALLOCATE".toList.isPrefixOf name then do
    let reqMb ← parts[1]? >>= parse 31
    some (.allocate reqMb (← ttl (parts.drop 2)))
  else if "NATIVE".toList.isPrefixOf name then do
    let mb ← parts[1]? >>= parseLong
    some (.native mb (← ttl (parts.drop 2)))
  else if "REFLEAK".toList.isPrefixOf name then do
    let count ← parts[1]? >>= parseLong
    some (.refLeak count (← ttl (parts.drop 2)))
  else if "CODELEAK".toList.isPrefixOf name then do
    let count ← parts[1]? >>= parseLong
    some (.codeLeak count (← ttl (parts.drop 2)))
  else if "CHURN".toList.isPrefixOf name then do
    let mb ← parts[1]? >>= parseLong
    let holdMs ← parts[2]? >>= parseLong
    let rest := parts.drop 3
    some (.churn mb holdMs (← ttl rest) (← option "static=" (-1) rest) (rest.any fun p => p.flatMap upper = "DENSE".toList))
  else if "GRAPH".toList.isPrefixOf name then do
    let slotsK ← parts[1]? >>= parseLong
    let writesKPerSec ← parts[2]? >>= parseLong
    let edges ← parts[3]? >>= parseLong
    let rest := parts.drop 4
    some (.graph slotsK writesKPerSec edges (← ttl rest) (← option "static=" (-1) rest))
  else none

def CmdFile.command (f : CmdFile) : Command :=
  let line := trim (f.lines.headD "")
  if line = [] then .empty
  else if line.flatMap upper = "RELEASE".toList then .release
  else (parseFields line).getD .ignored

/-- `ageS`. -/
def ageS (now mtime : Int) : Int := (now - mtime).tdiv 1000

end Wardence.LeakAgent
