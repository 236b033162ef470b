import PerfAgent.Debuginfod.Paths
import PerfAgent.Lib.AssocMap
import PerfAgent.Lib.Machine

/-!
# The artifact cache

`Cache` of `symbolize/debuginfod/cache/cache.go` over the index of `index_sqlite.go`.  The
directory and the table are two maps, changed in separate steps: a call in flight is an `Op` that
says what it has left to do, and every step is one operation on a file or one statement of the
database.  The pool has one connection, so a statement with its rows is one step too.

The temporary file of a write is created and filled in one step, under a name that is the
environment's, like the clock, the files that a walk meets and the order of rows with equal times.
No operation fails but for a file that is not there.
-/

namespace PerfAgent.Debuginfod

/-- The columns `size` and `last_access`. -/
structure Access where
  size : Nat
  lastAccess : Nat
deriving DecidableEq

structure Entry where
  artifact : Artifact
  size : Nat
  lastAccess : Nat
deriving DecidableEq

inductive Op where
  | /-- `WriteAtomic`, before its temporary file. -/ write (a : Artifact) (size : Nat)
  | /-- `WriteAtomic`, before the rename. -/ rename (a : Artifact) (size : Nat) (tmp : Path)
  | /-- `Has`, before `os.Stat`. -/ stat (a : Artifact)
  | /-- The `Touch` after a rename, a `Stat` or an `Info`; `Prewarm` goes on after it. -/
    touch (a : Artifact) (size : Nat) (walks : Bool)
  | /-- `Prewarm`, between two files. -/ walk
  | /-- `EvictTo`, before `TotalBytes`. -/ total
  | /-- `EvictTo`, before the rows are read. -/ rows (excess : Nat)
  | /-- `EvictTo`, with the rows of `left` still to delete. -/ delete (evicted left : List Entry)
  | /-- `Evict`, with the files of `left` still to remove. -/ remove (left : List Entry)
deriving DecidableEq

structure Cache where
  maxBytes : Int
  /-- The size of each file below `Dir`. -/
  files : AssocMap Path Nat := ∅
  index : AssocMap Artifact Access := ∅
  ops : List Op := []

/-- `fetch-*.tmp`, with a number for the star. -/
def tempName (star : Name) : Name :=
  [0x66, 0x65, 0x74, 0x63, 0x68, 0x2D] ++ star ++ [0x2E, 0x74, 0x6D, 0x70]

def isDigit (c : UInt8) : Bool := 0x30 ≤ c && c ≤ 0x39

def tempPath (p : Path) (star : Name) : Path := p.dropLast ++ [tempName star]

/-- The rows that `EvictTo` takes, of those in order. -/
def evictRows (excess : Nat) : Nat → List Entry → List Entry
  | _, [] => []
  | freed, e :: es => if freed < excess then e :: evictRows excess (freed + e.size) es else []

/-- `Evict` with these files left: it ends when there are none. -/
def removing : List Entry → Option Op
  | [] => none
  | left => some (.remove left)

def deleting (evicted : List Entry) : List Entry → Option Op
  | [] => removing evicted
  | left => some (.delete evicted left)

namespace Cache

def table (c : Cache) : List Entry := c.index.entries.map fun e => ⟨e.1, e.2.size, e.2.lastAccess⟩

def totalBytes (c : Cache) : Nat := c.index.sum Access.size

def diskBytes (c : Cache) : Nat := c.files.sum id

section

variable (c : Cache)

def call (op : Op) : Cache := { c with ops := c.ops ++ [op] }

/-- The call at `i` goes on with `op`, or has returned. -/
def goOn (i : Nat) (next : Option Op) : Cache :=
  { c with
    ops :=
      match next with
      | some op => c.ops.set i op
      | none => c.ops.eraseIdx i }

/-- A rename of a file that is not there fails, and the write with it. -/
def renamed (i : Nat) (a : Artifact) (size : Nat) (tmp : Path) : Cache :=
  match c.files.find? tmp, pathFor a with
  | some n, some p =>
    ({ c with files := (c.files.del tmp).put p n }).goOn i (some (.touch a size false))
  | _, _ => c.goOn i none

def statted (i : Nat) (a : Artifact) : Cache :=
  c.goOn i (((pathFor a).bind c.files.find?).map fun size => .touch a size false)

def touched (i : Nat) (a : Artifact) (size now : Nat) (walks : Bool) : Cache :=
  ({ c with index := c.index.put a ⟨size, now⟩ }).goOn i (if walks then some .walk else none)

/-- `Prewarm` meets a file; one that has gone, or that is not in the layout, is passed over. -/
def visited (i : Nat) (p : Path) : Cache :=
  match parsePath p, c.files.find? p with
  | some a, some size => c.goOn i (some (.touch a size true))
  | _, _ => c

def totalled (i : Nat) : Cache :=
  c.goOn i (if (c.totalBytes : Int) ≤ c.maxBytes then none else some (.rows ((c.totalBytes : Int) - c.maxBytes).toNat))

def selected (i excess : Nat) (order : List Entry) : Cache :=
  let evicted := evictRows excess 0 order
  c.goOn i (deleting evicted evicted)

def deleted (i : Nat) (evicted : List Entry) (e : Entry) (left : List Entry) : Cache :=
  ({ c with index := c.index.del e.artifact }).goOn i (deleting evicted left)

def removed (i : Nat) (e : Entry) (left : List Entry) : Cache :=
  match pathFor e.artifact with
  | some p => ({ c with files := c.files.del p }).goOn i (removing left)
  | none => c.goOn i (removing left)

end

inductive Act where
  | writeAtomic (a : Artifact) (size : Nat)
  | has (a : Artifact)
  | evict
  | prewarm
  | /-- `CreateTemp` and `Copy`. -/ create (i : Nat) (star : Name)
  | rename (i : Nat)
  | stat (i : Nat)
  | touch (i now : Nat)
  | visit (i : Nat) (p : Path)
  | endWalk (i : Nat)
  | totalBytes (i : Nat)
  | rows (i : Nat) (order : List Entry)
  | delete (i : Nat)
  | remove (i : Nat)
deriving DecidableEq

def Act.isCall : Act → Bool
  | writeAtomic _ _ | has _ | evict | prewarm => true
  | _ => false

def step (c : Cache) : Act → Option Cache
  | .writeAtomic a size => some (if (pathFor a).isSome then c.call (.write a size) else c)
  | .has a => some (if (pathFor a).isSome then c.call (.stat a) else c)
  | .evict => some (if c.maxBytes ≤ 0 then c else c.call .total)
  | .prewarm => some (c.call .walk)
  | .create i star =>
    match c.ops[i]? with
    | some (.write a size) =>
      (pathFor a).bind fun p =>
        -- a name that is taken is not used
        if star.all isDigit ∧ c.files.find? (tempPath p star) = none then
          some (({ c with files := c.files.put (tempPath p star) size }).goOn i
            (some (.rename a size (tempPath p star))))
        else none
    | _ => none
  | .rename i =>
    match c.ops[i]? with
    | some (.rename a size tmp) => some (c.renamed i a size tmp)
    | _ => none
  | .stat i =>
    match c.ops[i]? with
    | some (.stat a) => some (c.statted i a)
    | _ => none
  | .touch i now =>
    match c.ops[i]? with
    | some (.touch a size walks) => some (c.touched i a size now walks)
    | _ => none
  | .visit i p =>
    match c.ops[i]? with
    | some .walk => some (c.visited i p)
    | _ => none
  | .endWalk i =>
    match c.ops[i]? with
    | some .walk => some (c.goOn i none)
    | _ => none
  | .totalBytes i =>
    match c.ops[i]? with
    | some .total => some (c.totalled i)
    | _ => none
  | .rows i order =>
    match c.ops[i]? with
    | some (.rows excess) =>
      if order.Perm c.table ∧ order.Pairwise fun e e' => e.lastAccess ≤ e'.lastAccess then
        some (c.selected i excess order)
      else none
    | _ => none
  | .delete i =>
    match c.ops[i]? with
    | some (.delete evicted (e :: left)) => some (c.deleted i evicted e left)
    | _ => none
  | .remove i =>
    match c.ops[i]? with
    | some (.remove (e :: left)) => some (c.removed i e left)
    | _ => none

def Step (c : Cache) (act : Act) (c' : Cache) : Prop := c.step act = some c'

end Cache

end PerfAgent.Debuginfod
