/-
  LuaRtos.Net.Select

  `select` on the sockets of the virtual file system: `__wrap_lwip_select` of lwip/socket.c,
  with USE_NET_VFS.

  A descriptor is a prefix, the number of the file system in the bits above
  CONFIG_MAX_FD_BITS, and the number of lwip below.  The sets are translated in place, from the
  one numbering to the other and back.  The three sets of a call are distinct.
-/

import LuaRtos.CLib.Basic
import Mathlib.Data.Finset.Filter
import Mathlib.Data.Finset.Erase
import Mathlib.Data.Finset.Insert

namespace LuaRtos.Net

open LuaRtos.CLib

/-! ## Sets of descriptors -/

/-- An `fd_set`: the numbers whose bits are set. -/
abbrev FdSet := Finset Nat

variable (size : Nat)

/-- `FD_ISSET`; `size` is FD_SETSIZE. -/
def fdIsset (i : Nat) (s : FdSet) : Result Bool :=
  if i < size then pure (decide (i ∈ s)) else throw .outOfBounds

/-- `FD_SET`. -/
def fdSet (i : Nat) (s : FdSet) : Result FdSet :=
  if i < size then pure (insert i s) else throw .outOfBounds

/-- `FD_CLR`. -/
def fdClr (i : Nat) (s : FdSet) : Result FdSet :=
  if i < size then pure (s.erase i) else throw .outOfBounds

/-- `if (FD_ISSET(src, s)) FD_SET(dst, s); else FD_CLR(dst, s);` -/
def copyBit (src dst : Nat) (s : FdSet) : Result FdSet := do
  let b ← fdIsset size src s
  if b then fdSet size dst s else fdClr size dst s

/-- The sets of a call, none for NULL. -/
structure FdSets where
  readset : Option FdSet
  writeset : Option FdSet
  exceptset : Option FdSet
  deriving DecidableEq

/-- What is done with each set that is given. -/
def FdSets.each (f : FdSet → Result FdSet) (sets : FdSets) : Result FdSets := do
  let readset ← sets.readset.mapM f
  let writeset ← sets.writeset.mapM f
  let exceptset ← sets.exceptset.mapM f
  pure ⟨readset, writeset, exceptset⟩

/-- `for (i = 0; i < n; i++)`. -/
def forUpTo {σ : Type} (step : Nat → σ → Result σ) : Nat → σ → Result σ
  | 0, s => pure s
  | n + 1, s => do
    let s ← forUpTo step n s
    step n s

/-! ## Descriptors -/

/-- CONFIG_MAX_FD_BITS. -/
def maxFdBits : Nat := 4

def fdToSocket (fd : Nat) : Nat := fd &&& ((1 <<< maxFdBits) - 1)

def socketToFd (vfs fd : Nat) : Nat := vfs ||| fd

/-- The prefix, taken from the bound of the call. -/
def vfsOf (maxfdp1 : Nat) : Nat :=
  maxfdp1 &&& (((1 <<< (16 - maxFdBits - 1)) - 1) <<< maxFdBits)

/-! ## `select` -/

/-- What the real `select` answers: its result, and which sockets are ready. -/
structure SelectAnswer where
  ret : Int
  readable : Nat → Bool
  writable : Nat → Bool
  exceptional : Nat → Bool

/-- `__real_lwip_select`: of each set it leaves the sockets below its bound that are ready. -/
def realLwipSelect (answer : SelectAnswer) (maxfdp1 : Nat) (sets : FdSets) : Int × FdSets :=
  (answer.ret,
    { readset := sets.readset.map fun s => s.filter fun i => i < maxfdp1 ∧ answer.readable i
      writeset := sets.writeset.map fun s => s.filter fun i => i < maxfdp1 ∧ answer.writable i
      exceptset := sets.exceptset.map fun s =>
        s.filter fun i => i < maxfdp1 ∧ answer.exceptional i })

/-- `__wrap_lwip_select`. -/
def wrapLwipSelect (answer : SelectAnswer) (maxfdp1 : Nat) (sets : FdSets) :
    Result (Int × FdSets) := do
  let vfs := vfsOf maxfdp1
  let maxfdp := (1 <<< maxFdBits) - 1
  -- Convert input fd sets to internal lwip sets
  let sets ← forUpTo (fun i => FdSets.each (copyBit size i (fdToSocket i))) maxfdp1 sets
  let r := realLwipSelect answer maxfdp sets
  -- We need to convert lwip sets to newlib sets
  let sets ← forUpTo (fun i => FdSets.each (copyBit size i (socketToFd vfs i))) maxfdp r.2
  pure (r.1, sets)

end LuaRtos.Net
