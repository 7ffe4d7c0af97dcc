import Mathlib.Algebra.Group.Int.Defs
import InternetApplications.Library.Memory
import InternetApplications.Library.Execution

namespace InternetApplications.FileTransfer

open ByteMemory Executions

/-- Where the C programs have no defined result, or never return. -/
inductive Fault
  | outOfBounds
  | overflow
  | noReturn
deriving DecidableEq, Repr

def fileNameSize : ℕ := 20

def chunkSize : ℕ := 50

structure Chunk where
  bytes : List UInt8
  nonempty : bytes ≠ []
  small : bytes.length ≤ chunkSize

inductive Received
  | data (chunk : Chunk)
  | endOfFile
  | error

namespace Received

def value : Received → ℤ
  | data chunk => chunk.bytes.length
  | endOfFile => 0
  | error => -1

def bytes : Received → List UInt8
  | data chunk => chunk.bytes
  | endOfFile | error => []

end Received

def addInt (a b : ℤ) : Except Fault ℤ :=
  if -2 ^ 31 ≤ a + b ∧ a + b < 2 ^ 31 then .ok (a + b) else .error .overflow

/-- `while ((n = ..) != 0) { ..; transferSize += n; }`. It has not returned when the results run
out. -/
def copyLoop {α : Type} (pass : α → Received → α) :
    α → ℤ → List Received → Except Fault (α × ℤ)
  | _, _, [] => .error .noReturn
  | a, transferSize, r :: results =>
    if r.value = 0 then .ok (a, transferSize)
    else do
      let transferSize ← addInt transferSize r.value
      copyLoop pass (pass a r) transferSize results

structure SendCall where
  length : ℤ
  bytes : List UInt8
deriving DecidableEq, Repr

namespace Server

def send (calls : List SendCall) (r : Received) : List SendCall := calls ++ [⟨r.value, r.bytes⟩]

def transfer (results : List Received) : Except Fault (List SendCall × ℤ) :=
  copyLoop send [] 0 results

def strlen (fileName : Memory) : Except Fault ℕ :=
  match (List.range fileNameSize).find? fun i ↦ fileName i = 0 with
  | some n => .ok n
  | none => .error .outOfBounds

def receiveName (fileName : Memory) (received : List UInt8) : Memory :=
  write fileName 0 (received.take fileNameSize)

def terminate (fileName : Memory) : Except Fault Memory := do
  let n ← strlen fileName
  return write fileName n [0]

def openedName (fileName : Memory) : Except Fault (List UInt8) := do
  let n ← strlen fileName
  return read fileName 0 n

/-- From `recv` to `open`. The array is not cleared between two connections. -/
def request (fileName : Memory) (received : List UInt8) : Except Fault (Memory × List UInt8) := do
  let fileName ← terminate (receiveName fileName received)
  let name ← openedName fileName
  return (fileName, name)

end Server

/-- What the server takes from outside in one pass: the bytes of the name (none after an error), whether
`open` succeeds, and what `read` returns if it does. -/
structure Connection where
  received : Option (List UInt8)
  opened : Bool
  results : List Received

/-- Reading from a descriptor that `open` has not given fails. -/
def Connection.reads (c : Connection) : List Received :=
  if c.opened then c.results else c.results.map fun _ ↦ .error

structure Served where
  name : List UInt8
  calls : List SendCall
  transferSize : ℤ
deriving DecidableEq, Repr

/-- One pass of the server's loop, from `accept` to `close(clientSock)`. Between two passes only the
array of the name is kept. -/
def serve (fileName : Memory) (c : Connection) : Except Fault (Memory × Option Served) :=
  if c.received = some [] then .ok (fileName, none)
  else do
    let (fileName, name) ← Server.request fileName (c.received.getD [])
    let (calls, transferSize) ← Server.transfer c.reads
    return (fileName, some ⟨name, calls, transferSize⟩)

structure OpenFile where
  content : List UInt8
  position : ℕ
deriving DecidableEq, Repr

namespace Client

/-- `open(fileName, O_RDWR | O_CREAT)` on a file that holds something, or is not there. -/
def openBackup (previous : Option (List UInt8)) : OpenFile := ⟨previous.getD [], 0⟩

def write (file : OpenFile) (r : Received) : OpenFile where
  content := file.content.take file.position ++ r.bytes ++
    file.content.drop (file.position + r.bytes.length)
  position := file.position + r.bytes.length

def receive (previous : Option (List UInt8)) (results : List Received) :
    Except Fault (OpenFile × ℤ) :=
  copyLoop write (openBackup previous) 0 results

end Client

end InternetApplications.FileTransfer
