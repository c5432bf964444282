import MiniScheme.Symbol
/-! # Symbol table

Open addressing with linear probing. A search starts at the name's hash modulo the capacity and
moves on by one slot, wrapping, until it meets the name or an empty slot. When an insertion leaves
more than three quarters of the slots in use, every symbol moves to a table of `2 * (n + 1) - 1`
slots; if the table may not grow that far, the insertion is undone and fails.
-/
namespace MiniScheme

/-- Next table size in the series `2 * (n + 1) - 1`, while it fits a 64-bit word. -/
def nextCapacity (n : Nat) : Option Nat :=
  if 2 * (n + 1) < 0x10000000000000000 then some (2 * (n + 1) - 1) else none

inductive SymbolTableError where
  /-- The search came back to its first slot. -/
  | noFreeSlot (name : String) (capacity : Nat)
  /-- The next capacity does not fit a word or exceeds the maximum. -/
  | capacityExceeded (capacity : Nat)
deriving DecidableEq, Repr

namespace SymbolTableError

def message : SymbolTableError → String
  | noFreeSlot name capacity =>
    "symbol table problem: no free slot for `" ++ name ++ "` (capacity " ++ toString capacity ++ ")"
  | capacityExceeded capacity =>
    "symbol table problem: cannot grow beyond capacity " ++ toString capacity

end SymbolTableError

/-- Hash of a name, used only to choose the slot where its search starts. -/
abbrev NameHash := String → UInt64

/-- Polynomial hash over the UTF-8 bytes of a name. -/
def NameHash.polynomial : NameHash := fun name =>
  name.toUTF8.foldl (fun h b => h * 1099511628211 + b.toUInt64 + 1) 14695981039346656037

structure SymbolTable where
  slots : Array (Option Symbol)
  /-- Number of filled slots. -/
  occupied : Nat
  /-- Largest capacity the table may grow to; `none` for no limit. -/
  maxCapacity : Option Nat
  hash : NameHash

namespace SymbolTable

/-- Initial slot count of a table made without a request for another one. -/
def defaultCapacity : Nat := 511

/-- An empty table of `capacity` slots, at least one. -/
def withCapacity (capacity : Nat) (maxCapacity : Option Nat) (hash : NameHash) : SymbolTable where
  slots := Array.replicate (max capacity 1) none
  occupied := 0
  maxCapacity := maxCapacity
  hash := hash

def empty : SymbolTable := withCapacity defaultCapacity none NameHash.polynomial

instance : Inhabited SymbolTable := ⟨empty⟩

def capacity (t : SymbolTable) : Nat := t.slots.size

def size (t : SymbolTable) : Nat := t.occupied

def isEmpty (t : SymbolTable) : Bool := t.occupied == 0

/-- Interned symbols in slot order. -/
def toList (t : SymbolTable) : List Symbol := t.slots.toList.filterMap id

/-- Where a search for a name ends. -/
inductive Probe where
  | hit (symbol : Symbol)
  | free (index : Nat)
  | exhausted

/-- Search for `name` from `index` on, looking at no more than `steps` slots. -/
def probe (slots : Array (Option Symbol)) (name : String) : (steps index : Nat) → Probe
  | 0, _ => .exhausted
  | steps + 1, index =>
    match slots.getD index none with
    | none => .free index
    | some symbol =>
      if symbol.name = name then .hit symbol
      else probe slots name steps ((index + 1) % slots.size)

/-- Slot where the search for `name` starts among `capacity` slots. -/
def startIndex (hash : NameHash) (capacity : Nat) (name : String) : Nat :=
  (hash name).toNat % capacity

def search (hash : NameHash) (slots : Array (Option Symbol)) (name : String) : Probe :=
  probe slots name slots.size (startIndex hash slots.size name)

def lookup (t : SymbolTable) (name : String) : Option Symbol :=
  match search t.hash t.slots name with
  | .hit symbol => some symbol
  | _ => none

/-- Whether more than three quarters of `capacity` slots are in use. -/
def isCrowded (occupied capacity : Nat) : Bool := 4 * occupied > 3 * capacity

/-- First empty slot from `index` on, looking at no more than `steps` slots. -/
def firstFree (slots : Array (Option Symbol)) : (steps index : Nat) → Option Nat
  | 0, _ => none
  | steps + 1, index =>
    match slots.getD index none with
    | none => some index
    | some _ => firstFree slots steps ((index + 1) % slots.size)

/-- Put `symbols` one after the other into `slots`, which hold none of their names. -/
def placeAll (hash : NameHash) : List Symbol → Array (Option Symbol) →
    Except SymbolTableError (Array (Option Symbol))
  | [], slots => .ok slots
  | symbol :: symbols, slots =>
    match firstFree slots slots.size (startIndex hash slots.size symbol.name) with
    | some index => placeAll hash symbols (slots.setIfInBounds index (some symbol))
    | none => .error (.noFreeSlot symbol.name slots.size)

/-- The slots of the table moved to the next capacity. -/
def grownSlots (t : SymbolTable) (slots : Array (Option Symbol)) :
    Except SymbolTableError (Array (Option Symbol)) :=
  match nextCapacity slots.size with
  | none => .error (.capacityExceeded slots.size)
  | some larger =>
    if t.maxCapacity.any (fun limit => limit < larger) then .error (.capacityExceeded slots.size)
    else placeAll t.hash (slots.toList.filterMap id) (Array.replicate larger none)

/-- The symbol of `name`, made on first use. On failure the table stays as it was. -/
def intern (t : SymbolTable) (name : String) : Except SymbolTableError Symbol × SymbolTable :=
  match search t.hash t.slots name with
  | .hit symbol => (.ok symbol, t)
  | .exhausted => (.error (.noFreeSlot name t.slots.size), t)
  | .free index =>
    let symbol : Symbol := ⟨t.occupied, name⟩
    if isCrowded (t.occupied + 1) t.slots.size then
      match t.grownSlots (t.slots.setIfInBounds index (some symbol)) with
      | .ok slots => (.ok symbol, { t with slots := slots, occupied := t.occupied + 1 })
      | .error e => (.error e, t)
    else
      (.ok symbol,
        { t with slots := t.slots.setIfInBounds index (some symbol), occupied := t.occupied + 1 })

def describe (t : SymbolTable) : String :=
  "SymbolTable \x7b len: " ++ toString t.size ++ ", capacity: " ++ toString t.capacity ++ ", .. \x7d"

end SymbolTable
end MiniScheme
