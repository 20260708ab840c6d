import Whippet.Worklist.Deque

/-!
The worklist of the serial tracer (`simple-worklist.h`).

References are pushed at `write` and popped at `read`. Both indices only grow, and wrap around as
values of type `size_t`; an index selects an entry of the buffer by its low bits. When the buffer is
full, the entries from `read` to `write` are copied to one of twice its size.

Owns: the worklist with its growth and its four operations, runs of them beside a queue, and what
each operation does to the references in the worklist. Does not own: which runs keep the queue.
-/

namespace Whippet.Worklist

open Function

/-- `struct simple_worklist`. -/
structure SimpleWorklist where
  size : Word
  read : Word
  write : Word
  buf : ℕ → Word

/-- `GC_CRASH` after a growth that failed, or an initialization that did. -/
inductive SimpleFailure where
  | growFailed
  | initFailed
  deriving DecidableEq, Repr

def simpleWorklistMaxSize : Word := (1 <<< 63) / 8

def simpleWorklistReleaseByteThreshold : Word := 1 * 1024 * 1024

namespace SimpleWorklist

variable (worklist : SimpleWorklist)

/-- `simple_worklist_init` where a page has `2 ^ pageSizeLog2` bytes. -/
def init (acquire : ℕ → Bool) (pageSizeLog2 : ℕ) : Outcome SimpleFailure SimpleWorklist := do
  let size : Word := BitVec.ofNat 64 (2 ^ pageSizeLog2) / 8
  Outcome.check (acquire (size * 8).toNat = true) .initFailed
  pure { size := size, read := 0, write := 0, buf := fun _ => 0 }

/-- `simple_worklist_get`. -/
def get (idx : Word) : Word := worklist.buf (idx &&& (worklist.size - 1)).toNat

/-- `simple_worklist_put`. -/
def put (idx x : Word) : SimpleWorklist :=
  { worklist with buf := update worklist.buf (idx &&& (worklist.size - 1)).toNat x }

/-- `for (size_t i = q->read; i < q->write; i++)`, with as many turns as are left before `i` is
`write`. -/
def copyLoop (oldBuf : ℕ → Word) (oldMask newMask write : Word) :
    ℕ → Word → (ℕ → Word) → ℕ → Word
  | 0, _, newBuf => newBuf
  | turns + 1, i, newBuf =>
      if i < write then
        copyLoop oldBuf oldMask newMask write turns (i + 1)
          (update newBuf (i &&& newMask).toNat (oldBuf (i &&& oldMask).toNat))
      else newBuf

/-- `simple_worklist_grow`, of which no caller goes on after a failure. -/
def grow (acquire : ℕ → Bool) : Outcome SimpleFailure SimpleWorklist := do
  Outcome.check (worklist.size < simpleWorklistMaxSize) .growFailed
  let newSize := worklist.size * 2
  Outcome.check (acquire (newSize * 8).toNat = true) .growFailed
  pure { worklist with
    size := newSize
    buf := copyLoop worklist.buf (worklist.size - 1) (newSize - 1) worklist.write
      (worklist.write.toNat - worklist.read.toNat) worklist.read fun _ => 0 }

/-- `simple_worklist_put (q, q->write++, p)`. -/
def putNext (p : Word) : SimpleWorklist :=
  { worklist.put worklist.write p with write := worklist.write + 1 }

/-- `simple_worklist_push`. -/
def push (acquire : ℕ → Bool) (p : Word) : Outcome SimpleFailure SimpleWorklist := do
  let grown ←
    if worklist.write - worklist.read = worklist.size then worklist.grow acquire
    else pure worklist
  pure (grown.putNext p)

/-- `while (q->size - (q->write - q->read) < count)`, with a number of turns. -/
def growUntil (acquire : ℕ → Bool) (count : Word) :
    ℕ → SimpleWorklist → Outcome SimpleFailure SimpleWorklist
  | 0, _ => .disabled
  | turns + 1, worklist =>
      if worklist.size - (worklist.write - worklist.read) < count then do
        let grown ← worklist.grow acquire
        growUntil acquire count turns grown
      else pure worklist

/-- `for (size_t i = 0; i < count; i++)`, after `count` turns. -/
def putMany (pv : ℕ → Word) : ℕ → SimpleWorklist
  | 0 => worklist
  | count + 1 => (putMany pv count).putNext (pv count)

/-- `simple_worklist_push_many`. The loop grows the buffer at most to its greatest size. -/
def pushMany (acquire : ℕ → Bool) (pv : ℕ → Word) (count : Word) :
    Outcome SimpleFailure SimpleWorklist := do
  let grown ← growUntil acquire count 62 worklist
  pure (grown.putMany pv count.toNat)

/-- `simple_worklist_pop`, with what it returns. -/
def pop : Word × SimpleWorklist :=
  if worklist.read = worklist.write then (0, worklist)
  else (worklist.get worklist.read, { worklist with read := worklist.read + 1 })

/-- `simple_worklist_release`. Memory that is advised away reads as zero. -/
def release : SimpleWorklist :=
  { worklist with
    read := 0
    write := 0
    buf := if simpleWorklistReleaseByteThreshold ≤ worklist.size * 8 then fun _ => 0
      else worklist.buf }

end SimpleWorklist

/-! ## Runs beside a queue -/

inductive WorklistAction where
  | push (acquire : ℕ → Bool) (p : Word)
  | pushMany (acquire : ℕ → Bool) (pv : ℕ → Word) (count : Word)
  | pop
  | release

/-- A worklist, and the queue that the same operations make of the empty one. -/
structure SimpleRun where
  worklist : SimpleWorklist
  queue : List Word
  /-- What the pops returned. -/
  returned : List Word
  /-- The first reference of the queue at each pop, and null where there was none. -/
  expected : List Word

namespace SimpleRun

variable (run : SimpleRun)

def step : WorklistAction → Outcome SimpleFailure SimpleRun
  | .push acquire p => do
      let after ← run.worklist.push acquire p
      pure { run with worklist := after, queue := run.queue ++ [p] }
  | .pushMany acquire pv count => do
      let after ← run.worklist.pushMany acquire pv count
      pure { run with
        worklist := after, queue := run.queue ++ (List.range count.toNat).map pv }
  | .pop =>
      pure { worklist := run.worklist.pop.2
             queue := run.queue.tail
             returned := run.returned ++ [run.worklist.pop.1]
             expected := run.expected ++ [run.queue.head?.getD 0] }
  | .release => pure { run with worklist := run.worklist.release, queue := [] }

/-- Runs of a worklist that was just initialized, where pages have `2 ^ pageSizeLog2` bytes. -/
def system (pageSizeLog2 : ℕ) : System SimpleRun WorklistAction SimpleFailure where
  initial run := ∃ acquire worklist, SimpleWorklist.init acquire pageSizeLog2 = .next worklist ∧
    run = { worklist := worklist, queue := [], returned := [], expected := [] }
  step run action := run.step action

end SimpleRun

end Whippet.Worklist
