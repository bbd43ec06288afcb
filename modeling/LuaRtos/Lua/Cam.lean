/-
  LuaRtos.Lua.Cam

  `cam_get_image` of Lua/modules/cam.c: the JPEG image in the FIFO of the camera, into memory
  or into a file.

  A burst transfer takes the bytes of the FIFO one after the other, and goes on past its size
  where more are asked for.  The file's copy of the scan asks for two more than the other, for
  the two dummy bytes.  Both scans leave a block at its last byte before they look at it.
-/

import LuaRtos.CLib.While
import LuaRtos.CLib.File

namespace LuaRtos.Lua
namespace Cam

open CLib

/-- The size of the buffer that the file is written from. -/
def READ_BUF_LEN : Nat := 1002

/-- The FIFO: its size, as the registers of the camera say it, and what a burst transfer
    returns. -/
structure Fifo where
  size : Nat
  data : Nat → Byte

/-- The camera: whether it is set up, the FIFO as it stands, and after `cam_capture`, which
    returns a size of zero when it fails. -/
structure Camera where
  initialized : Bool
  held : Fifo
  captured : Fifo

/-- `arducam_burst_read_fifo`: `n` bytes, after those that the transfer has taken. -/
def burst (data : Nat → Byte) : Nat → Nat → List Byte
  | _, 0 => []
  | pos, n + 1 => data pos :: burst data (pos + 1) n

/-- Where a scan has stopped: the last byte, the index after it, and `endID`. -/
structure Scanned where
  temp : Byte
  bufIdx : Nat
  endID : Bool
deriving DecidableEq, Repr

/-- The scan for the end marker, over the bytes from `bufIdx` on.  The loop is left after the
    last one, whatever it is. -/
def scan : List Byte → Byte → Nat → Scanned
  | [], temp, bufIdx => ⟨temp, bufIdx, false⟩
  | b :: rest, temp, bufIdx =>
    if rest = [] then ⟨b, bufIdx + 1, false⟩
    else if b = 0xD9 ∧ temp = 0xFF then ⟨b, bufIdx + 1, true⟩
    else scan rest b (bufIdx + 1)

/-- What a call leaves: `*err`, `*bytes_read` where it is written, the buffer that is
    returned, and the file. -/
structure Got where
  err : Int
  bytesRead : Option Nat
  outbuf : Option (List Byte)
  file : List Byte
deriving DecidableEq, Repr

/-- The image to a buffer. -/
def toMemory (heap : Bool) (fifo : Fifo) (file : List Byte) : Got :=
  if !heap then ⟨-2, some 0, none, file⟩
  else
    let outbuf := burst fifo.data 0 fifo.size ++ List.replicate 8 0
    if outbuf[2]? ≠ some 0xFF ∨ outbuf[3]? ≠ some 0xD8 then ⟨-4, some 0, none, file⟩
    else
      let s := scan ((outbuf.take fifo.size).drop 4) 0xD8 4
      if !s.endID then ⟨-9, some 0, none, file⟩
      else ⟨0, some (s.bufIdx - 2), some outbuf, file⟩

/-- The loop of the copy to a file: `*bytes_read`, the bytes taken from the FIFO, the last of
    them, the file, `*err`, and whether the loop is left. -/
structure Copy where
  bytesRead : Nat
  pos : Nat
  temp : Byte
  endID : Bool
  err : Int
  file : List Byte
  stop : Bool
deriving DecidableEq, Repr

section File

variable (room : List Byte → List Byte → Nat) (fifo : Fifo)

/-- The scan of a buffer from `bufIdx` on, and the write of its bytes from `bufStart` up to
    where the scan has stopped. -/
def scanAndWrite (buf : List Byte) (bufIdx bufStart : Nat) (s : Copy) : Copy :=
  let found := scan (buf.drop bufIdx) s.temp bufIdx
  let n := found.bufIdx - bufStart
  let (file, count) := fwrite room s.file ((buf.drop bufStart).take n)
  let s := { s with temp := found.temp, endID := found.endID, file := file }
  if count ≠ n then { s with err := -6, stop := true }
  else { s with bytesRead := s.bytesRead + n, stop := found.endID }

/-- A round of the loop. -/
def readChunk (s : Copy) : Copy :=
  if s.bytesRead = 0 then
    let len := if fifo.size < READ_BUF_LEN - 2 then fifo.size + 2 else READ_BUF_LEN
    let buf := burst fifo.data 0 len
    let s := { s with pos := len }
    if buf[2]? ≠ some 0xFF ∨ buf[3]? ≠ some 0xD8 then { s with err := -4, stop := true }
    else scanAndWrite room buf 4 2 { s with temp := 0xD8 }
  else
    let len : Int := fifo.size - s.bytesRead
    if len = 0 then { s with stop := true }
    else if len < 0 then { s with err := -7, stop := true }
    else
      let len := if len > READ_BUF_LEN then READ_BUF_LEN else len.toNat
      scanAndWrite room (burst fifo.data s.pos len) 0 0 { s with pos := s.pos + len }

/-- A round of the loop reads and writes inside its buffer. -/
def readRound (s : Copy) : Result Copy := .ok (readChunk room fifo s)

/-- The loop goes on. -/
def unread (s : Copy) : Bool := !s.stop && decide (s.bytesRead < fifo.size)

/-- The image to a file.  Every round but the last reads a byte or more. -/
def toFile (heap : Bool) (file : List Byte) : Result Got :=
  if !heap then pure ⟨-3, some 0, none, file⟩
  else do
    let s ← whileLoop (unread fifo) (readRound room fifo) (fifo.size + 1)
      ⟨0, 0, 0, false, 0, file, false⟩
    let err := if !s.endID then -9 else s.err
    pure ⟨err, some (if err ≠ 0 then 0 else s.bytesRead), none, s.file⟩

end File

/-- `cam_get_image`, to a file with some contents or to memory. -/
def cam_get_image (room : List Byte → List Byte → Nat) (heap : Bool) (cam : Camera)
    (fhndl : Option (List Byte)) (capture : Bool) : Result Got :=
  let fifo := if capture then cam.captured else cam.held
  let file := fhndl.getD []
  if !cam.initialized then pure ⟨-8, none, none, file⟩
  else if fifo.size < 256 ∨ fifo.size > 384 * 1024 then pure ⟨-10, none, none, file⟩
  else if fhndl.isNone ∧ fifo.size > 64 * 1024 then pure ⟨-1, none, none, file⟩
  else if fhndl.isNone then pure (toMemory heap fifo file)
  else toFile room fifo heap file

/-! ## Bursts -/

section Burst

variable (data : Nat → Byte)

@[simp] theorem length_burst (pos n : Nat) : (burst data pos n).length = n := by
  induction n generalizing pos with
  | zero => rfl
  | succ n ih => rw [burst, List.length_cons, ih]

theorem drop_burst (pos n m : Nat) : (burst data pos n).drop m = burst data (pos + m) (n - m) := by
  induction m generalizing pos n with
  | zero => rfl
  | succ m ih =>
    cases n with
    | zero => rw [Nat.zero_sub, burst, burst, List.drop_nil]
    | succ n => rw [burst, List.drop_succ_cons, ih, Nat.succ_sub_succ, Nat.add_right_comm]; rfl

theorem take_burst {pos n m : Nat} (h : m ≤ n) : (burst data pos n).take m = burst data pos m := by
  induction m generalizing pos n with
  | zero => rfl
  | succ m ih =>
    obtain ⟨n, rfl⟩ := Nat.exists_eq_add_one_of_ne_zero (show n ≠ 0 by omega)
    rw [burst, burst, List.take_succ_cons, ih (by omega)]

theorem burst_append (pos n m : Nat) :
    burst data pos n ++ burst data (pos + n) m = burst data pos (n + m) := by
  induction n generalizing pos with
  | zero => rw [Nat.zero_add, Nat.add_zero]; rfl
  | succ n ih =>
    have hstep := ih (pos + 1)
    rw [show pos + 1 + n = pos + (n + 1) by omega] at hstep
    rw [show n + 1 + m = n + m + 1 by omega, burst, burst, List.cons_append, hstep]

theorem getElem?_burst {pos n i : Nat} (h : i < n) :
    (burst data pos n)[i]? = some (data (pos + i)) := by
  rw [← List.head?_drop, drop_burst]
  obtain ⟨m, hm⟩ := Nat.exists_eq_add_one_of_ne_zero (show n - i ≠ 0 by omega)
  rw [hm, burst, List.head?_cons]

end Burst

/-! ## The scan -/

/-- The end marker stands at `k`. -/
def EndMarker (data : Nat → Byte) (k : Nat) : Prop := data k = 0xFF ∧ data (k + 1) = 0xD9

section Scan

variable {data : Nat → Byte} {pos k n i : Nat}

/-- A marker that ends before the last byte of the block stops the scan. -/
theorem scan_found (hfirst : ∀ j, pos ≤ j → j < k → ¬ EndMarker data j) (hk : EndMarker data k)
    (hpos : pos ≤ k) (hlast : k + 1 < pos + n) :
    scan (burst data (pos + 1) n) (data pos) i = ⟨data (k + 1), i + (k + 1 - pos), true⟩ := by
  induction n generalizing pos i with
  | zero => omega
  | succ n ih =>
    have hrest : burst data (pos + 1 + 1) n ≠ [] := by
      apply List.ne_nil_of_length_pos
      rw [length_burst]
      omega
    rw [burst, scan, if_neg hrest]
    by_cases hmark : EndMarker data pos
    · obtain rfl : pos = k := by
        by_contra hne
        exact hfirst pos (Nat.le_refl pos) (by omega) hmark
      rw [if_pos hmark.symm, show pos + 1 - pos = 1 by omega]
    · have hne : pos ≠ k := by
        rintro rfl
        exact hmark hk
      rw [if_neg fun h => hmark h.symm,
        ih (fun j hj => hfirst j (by omega)) (by omega) (by omega)]
      congr 1
      omega

/-- With no such marker the scan goes through the block. -/
theorem scan_through (hn : 0 < n) (hnone : ∀ j, pos ≤ j → j + 1 < pos + n → ¬ EndMarker data j) :
    scan (burst data (pos + 1) n) (data pos) i = ⟨data (pos + n), i + n, false⟩ := by
  induction n generalizing pos i with
  | zero => omega
  | succ n ih =>
    rw [burst, scan]
    by_cases hzero : n = 0
    · rw [hzero, burst, if_pos rfl]
    · have hrest : burst data (pos + 1 + 1) n ≠ [] := by
        apply List.ne_nil_of_length_pos
        rw [length_burst]
        omega
      have hmark : ¬ EndMarker data pos := hnone pos (Nat.le_refl pos) (by omega)
      rw [if_neg hrest, if_neg fun h => hmark h.symm,
        ih (by omega) fun j hj hlt => hnone j (by omega) (by omega),
        show pos + 1 + n = pos + (n + 1) by omega, show i + 1 + n = i + (n + 1) by omega]

end Scan

/-! ## The image in memory -/

/-- The FIFO starts with two bytes of whatever kind and the start marker of a JPEG image. -/
structure Fifo.Starts (fifo : Fifo) : Prop where
  first : fifo.data 2 = 0xFF
  second : fifo.data 3 = 0xD8

/-- An end marker after the start marker. -/
def Fifo.EndsAt (fifo : Fifo) (k : Nat) : Prop := 4 ≤ k ∧ EndMarker fifo.data k

/-- No end marker stands on the start marker. -/
theorem Fifo.Starts.not_endMarker {fifo : Fifo} (h : fifo.Starts) : ¬ EndMarker fifo.data 3 := by
  rintro ⟨hff, -⟩
  rw [h.second] at hff
  exact absurd hff (by decide)

theorem Fifo.Starts.endsAt {fifo : Fifo} (h : fifo.Starts) {j : Nat} (hj : 3 ≤ j)
    (hmark : EndMarker fifo.data j) : fifo.EndsAt j := by
  refine ⟨?_, hmark⟩
  by_contra hlt
  obtain rfl : j = 3 := by omega
  exact h.not_endMarker hmark

section Memory

variable {fifo : Fifo} {file : List Byte}

/-- The buffer, as it is returned. -/
def Fifo.outbuf (fifo : Fifo) : List Byte := burst fifo.data 0 fifo.size ++ List.replicate 8 0

/-- The call to memory comes down to one scan. -/
theorem toMemory_scan (hstart : fifo.Starts) (hsize : 4 ≤ fifo.size) :
    toMemory true fifo file =
      if !(scan (burst fifo.data (3 + 1) (fifo.size - 4)) (fifo.data 3) 4).endID then
        ⟨-9, some 0, none, file⟩
      else ⟨0, some ((scan (burst fifo.data (3 + 1) (fifo.size - 4)) (fifo.data 3) 4).bufIdx - 2),
        some fifo.outbuf, file⟩ := by
  have hlen : (burst fifo.data 0 fifo.size).length = fifo.size := length_burst _ _ _
  have htwo : fifo.outbuf[2]? = some 0xFF := by
    rw [Fifo.outbuf, List.getElem?_append_left (by omega), getElem?_burst _ (by omega),
      hstart.first]
  have hthree : fifo.outbuf[3]? = some 0xD8 := by
    rw [Fifo.outbuf, List.getElem?_append_left (by omega), getElem?_burst _ (by omega),
      hstart.second]
  have hscan : (fifo.outbuf.take fifo.size).drop 4 =
      burst fifo.data (3 + 1) (fifo.size - 4) := by
    rw [Fifo.outbuf, List.take_left' hlen, drop_burst]
  have hid : ¬ (fifo.outbuf[2]? ≠ some 0xFF ∨ fifo.outbuf[3]? ≠ some 0xD8) := by
    rintro (h | h)
    · exact h htwo
    · exact h hthree
  show (if _ then _ else if _ then _ else _) = _
  rw [if_neg (show ¬ (!true) = true by decide), ← Fifo.outbuf, if_neg hid, hscan, hstart.second]

/-- The first end marker is found where it ends before the last byte. -/
theorem toMemory_found (hstart : fifo.Starts) {k : Nat} (hk : fifo.EndsAt k)
    (hfirst : ∀ j < k, ¬ fifo.EndsAt j) (hlast : k + 2 < fifo.size) :
    toMemory true fifo file = ⟨0, some k, some fifo.outbuf, file⟩ := by
  obtain ⟨hk4, hmark⟩ := hk
  rw [toMemory_scan hstart (by omega),
    scan_found (fun j hj hlt h => hfirst j hlt (hstart.endsAt hj h)) hmark (by omega) (by omega),
    show 4 + (k + 1 - 3) - 2 = k by omega]
  rfl

theorem toMemory_none (hstart : fifo.Starts) (hsize : 4 < fifo.size)
    (hnone : ∀ j, j + 2 < fifo.size → ¬ fifo.EndsAt j) :
    toMemory true fifo file = ⟨-9, some 0, none, file⟩ := by
  rw [toMemory_scan hstart (by omega),
    scan_through (by omega) fun j hj hlt h => hnone j (by omega) (hstart.endsAt hj h)]
  rfl

end Memory

/-! ## The image in a file -/

/-- The end markers that the copy to a file finds: one that ends with a block does not count.
    The blocks reach two bytes past the size. -/
def Fifo.SeenAt (fifo : Fifo) (k : Nat) : Prop :=
  fifo.EndsAt k ∧ ¬ READ_BUF_LEN ∣ k + 2 ∧ k < fifo.size

section Write

variable {room : List Byte → List Byte → Nat} {data : Nat → Byte} {s : Copy}
  {pos len bufIdx bufStart k : Nat}

/-- A part of a block. -/
theorem block_burst {n : Nat} (h : bufStart + n ≤ len) :
    ((burst data pos len).drop bufStart).take n = burst data (pos + bufStart) n := by
  rw [drop_burst, take_burst _ (by omega)]

theorem scanAndWrite_found (hroom : Roomy room) (htemp : s.temp = data (pos + bufIdx - 1))
    (hidx : 1 ≤ pos + bufIdx) (hstart : bufStart ≤ bufIdx)
    (hfirst : ∀ j, pos + bufIdx - 1 ≤ j → j < k → ¬ EndMarker data j) (hk : EndMarker data k)
    (hpos : pos + bufIdx - 1 ≤ k) (hlast : k + 2 < pos + len) :
    scanAndWrite room (burst data pos len) bufIdx bufStart s =
      { s with
        bytesRead := s.bytesRead + (k + 2 - pos - bufStart), temp := data (k + 1), endID := true,
        file := s.file ++ burst data (pos + bufStart) (k + 2 - pos - bufStart), stop := true } := by
  have hscan : scan ((burst data pos len).drop bufIdx) s.temp bufIdx =
      ⟨data (k + 1), k + 2 - pos, true⟩ := by
    have hfound := scan_found (i := bufIdx) (n := len - bufIdx) hfirst hk hpos (by omega)
    rw [show pos + bufIdx - 1 + 1 = pos + bufIdx by omega] at hfound
    rw [drop_burst, htemp, hfound]
    congr 1
    omega
  rw [scanAndWrite, hscan]
  dsimp only
  rw [block_burst (by omega), fwrite_of_le (hroom _ _), length_burst]
  exact if_neg fun h => h rfl

theorem scanAndWrite_through (hroom : Roomy room) (htemp : s.temp = data (pos + bufIdx - 1))
    (hidx : 1 ≤ pos + bufIdx) (hstart : bufStart ≤ bufIdx) (hlen : bufIdx < len)
    (hnone : ∀ j, pos + bufIdx - 1 ≤ j → j + 2 < pos + len → ¬ EndMarker data j) :
    scanAndWrite room (burst data pos len) bufIdx bufStart s =
      { s with
        bytesRead := s.bytesRead + (len - bufStart), temp := data (pos + len - 1),
        endID := false, file := s.file ++ burst data (pos + bufStart) (len - bufStart),
        stop := false } := by
  have hscan : scan ((burst data pos len).drop bufIdx) s.temp bufIdx =
      ⟨data (pos + len - 1), len, false⟩ := by
    have hthrough : scan (burst data (pos + bufIdx - 1 + 1) (len - bufIdx))
        (data (pos + bufIdx - 1)) bufIdx =
          ⟨data (pos + bufIdx - 1 + (len - bufIdx)), bufIdx + (len - bufIdx), false⟩ :=
      scan_through (by omega) fun j hj hlt => hnone j hj (by omega)
    rw [show pos + bufIdx - 1 + 1 = pos + bufIdx by omega,
      show pos + bufIdx - 1 + (len - bufIdx) = pos + len - 1 by omega,
      show bufIdx + (len - bufIdx) = len by omega] at hthrough
    rw [drop_burst, htemp, hthrough]
  rw [scanAndWrite, hscan]
  dsimp only
  rw [block_burst (by omega), fwrite_of_le (hroom _ _), length_burst]
  exact if_neg fun h => h rfl

end Write

section ToFile

variable {room : List Byte → List Byte → Nat} {fifo : Fifo} {file : List Byte} {pos e k fuel : Nat}

/-- The loop before a block, with the image up to there in the file. -/
def copyAt (fifo : Fifo) (file : List Byte) (pos : Nat) : Copy :=
  ⟨pos - 2, pos, fifo.data (pos - 1), false, 0, file ++ burst fifo.data 2 (pos - 2), false⟩

/-- The loop as it is left at the end marker at `k`, in a block that ends at `e`. -/
def copyDone (fifo : Fifo) (file : List Byte) (k e : Nat) : Copy :=
  ⟨k, e, fifo.data (k + 1), true, 0, file ++ burst fifo.data 2 k, true⟩

/-- A block runs from `pos` to `e`: it is full, or it ends two bytes past the size. -/
structure Block (fifo : Fifo) (pos e : Nat) : Prop where
  start : READ_BUF_LEN ∣ pos
  nonempty : pos < e
  within : e ≤ fifo.size + 2
  full : e = pos + READ_BUF_LEN ∨ e = fifo.size + 2 ∧ e < pos + READ_BUF_LEN

/-- An end marker that ends inside the block is seen. -/
theorem Block.seen (h : Block fifo pos e) (hk : fifo.EndsAt k) (hpos : pos ≤ k + 1)
    (hlt : k + 2 < e) : fifo.SeenAt k := by
  obtain ⟨hstart, -, hwithin, hfull⟩ := h
  refine ⟨hk, ?_, by omega⟩
  intro hdvd
  unfold READ_BUF_LEN at *
  omega

/-- One that is seen and begins before the end of the block ends inside. -/
theorem Block.inside (h : Block fifo pos e) (hk : fifo.SeenAt k) (hlt : k + 1 < e) :
    k + 2 < e := by
  obtain ⟨hstart, -, hwithin, hfull⟩ := h
  obtain ⟨-, hdvd, hsize⟩ := hk
  unfold READ_BUF_LEN at *
  omega

/-- What one block does, by the first end marker that is seen. -/
structure Reads (fifo : Fifo) (file : List Byte) (pos e : Nat) (s' : Copy) : Prop where
  found : ∀ k, fifo.SeenAt k → pos ≤ k + 1 → k + 1 < e →
    (∀ j, pos ≤ j + 1 → j < k → ¬ fifo.SeenAt j) → s' = copyDone fifo file k e
  through : (∀ j, pos ≤ j + 1 → j + 1 < e → ¬ fifo.SeenAt j) → s' = copyAt fifo file e

/-- The first block starts after the start marker. -/
theorem readChunk_first (hroom : Roomy room) (hstart : fifo.Starts) (hsize : 256 ≤ fifo.size) :
    ∃ e, Block fifo 0 e ∧
      Reads fifo file 0 e (readChunk room fifo ⟨0, 0, 0, false, 0, file, false⟩) := by
  obtain ⟨e, he⟩ : ∃ e, e = if fifo.size < READ_BUF_LEN - 2 then fifo.size + 2 else READ_BUF_LEN :=
    ⟨_, rfl⟩
  have hbuf : READ_BUF_LEN = 1002 := rfl
  have hblock : Block fifo 0 e := by
    refine ⟨Nat.dvd_zero _, ?_, ?_, ?_⟩ <;> split at he <;> omega
  have he4 : 4 < e := by
    split at he <;> omega
  refine ⟨e, hblock, ?_⟩
  have hid : ¬ ((burst fifo.data 0 e)[2]? ≠ some 0xFF ∨ (burst fifo.data 0 e)[3]? ≠ some 0xD8) := by
    rw [getElem?_burst _ (by omega), getElem?_burst _ (by omega), hstart.first, hstart.second]
    rintro (h | h) <;> exact h rfl
  have hround : readChunk room fifo ⟨0, 0, 0, false, 0, file, false⟩ =
      scanAndWrite room (burst fifo.data 0 e) 4 2 ⟨0, e, 0xD8, false, 0, file, false⟩ := by
    show (if (0 : Nat) = 0 then _ else _) = _
    rw [if_pos rfl, ← he]
    exact if_neg hid
  rw [hround]
  constructor
  · intro k hk hpos hlt hfirst
    rw [scanAndWrite_found hroom hstart.second.symm (by omega) (by omega)
      (fun j hj hjk h => hfirst j (by omega) hjk
        (hblock.seen (hstart.endsAt (by omega) h) (by omega) (by omega)))
      hk.1.2 (by have := hk.1.1; omega) (by have := hblock.inside hk hlt; omega)]
    show (⟨0 + _, _, _, _, _, _, _⟩ : Copy) = _
    rw [show 0 + (k + 2 - 0 - 2) = k by omega]
    rfl
  · intro hnone
    rw [scanAndWrite_through hroom hstart.second.symm (by omega) (by omega) he4
      fun j hj hlt h => hnone j (by omega) (by omega)
        (hblock.seen (hstart.endsAt (by omega) h) (by omega) (by omega))]
    show (⟨0 + _, _, _, _, _, _, _⟩ : Copy) = _
    rw [Nat.zero_add, Nat.zero_add]
    rfl

/-- A later block goes on with the last byte of the one before. -/
theorem readChunk_next (hroom : Roomy room) (hpos : READ_BUF_LEN ∣ pos) (hpos0 : 0 < pos)
    (hsize : pos < fifo.size + 2) :
    ∃ e, Block fifo pos e ∧ Reads fifo file pos e (readChunk room fifo (copyAt fifo file pos)) := by
  have hbuf : READ_BUF_LEN = 1002 := rfl
  have hle : READ_BUF_LEN ≤ pos := Nat.le_of_dvd hpos0 hpos
  obtain ⟨len, hlen⟩ : ∃ len, len =
      if ((fifo.size : Int) - (pos - 2 : Nat)) > READ_BUF_LEN then READ_BUF_LEN
      else ((fifo.size : Int) - (pos - 2 : Nat)).toNat := ⟨_, rfl⟩
  have hlen' : len = min READ_BUF_LEN (fifo.size + 2 - pos) := by
    split at hlen <;> omega
  have hblock : Block fifo pos (pos + len) := by
    refine ⟨hpos, ?_, ?_, ?_⟩ <;> omega
  refine ⟨pos + len, hblock, ?_⟩
  have hround : readChunk room fifo (copyAt fifo file pos) =
      scanAndWrite room (burst fifo.data pos len) 0 0
        { copyAt fifo file pos with pos := pos + len } := by
    show (if pos - 2 = 0 then _ else if ((fifo.size : Int) - (pos - 2 : Nat)) = 0 then _
      else if ((fifo.size : Int) - (pos - 2 : Nat)) < 0 then _ else _) = _
    rw [if_neg (by omega), if_neg (by omega), if_neg (by omega), hlen]
    rfl
  have hend : ∀ j, pos ≤ j + 1 → EndMarker fifo.data j → fifo.EndsAt j := fun j hj h =>
    ⟨by omega, h⟩
  have hfile : ∀ n, file ++ burst fifo.data 2 (pos - 2) ++ burst fifo.data (pos + 0) n =
      file ++ burst fifo.data 2 (pos - 2 + n) := by
    intro n
    rw [List.append_assoc, ← burst_append, show 2 + (pos - 2) = pos + 0 by omega]
  rw [hround]
  constructor
  · intro k hk hkpos hlt hfirst
    have hinside := hblock.inside hk hlt
    rw [scanAndWrite_found hroom rfl (by omega) (Nat.le_refl 0)
      (fun j hj hjk h => hfirst j (by omega) hjk
        (hblock.seen (hend j (by omega) h) (by omega) (by omega)))
      hk.1.2 (by omega) (by omega)]
    show (⟨pos - 2 + _, _, _, _, _, file ++ burst fifo.data 2 (pos - 2) ++ _, _⟩ : Copy) = _
    rw [hfile, show pos - 2 + (k + 2 - pos - 0) = k by omega]
    rfl
  · intro hnone
    rw [scanAndWrite_through hroom rfl (by omega) (Nat.le_refl 0) (by omega)
      fun j hj hjlt h => hnone j (by omega) (by omega)
        (hblock.seen (hend j (by omega) h) (by omega) (by omega))]
    show (⟨pos - 2 + _, _, _, _, _, file ++ burst fifo.data 2 (pos - 2) ++ _, _⟩ : Copy) = _
    rw [hfile, show pos - 2 + (len - 0) = pos + len - 2 by omega]
    rfl

/-- The loop goes on from a block that does not reach past the FIFO. -/
theorem unread_copyAt (hpos : 0 < pos) (hsize : 0 < fifo.size) :
    unread fifo (copyAt fifo file pos) = decide (pos < fifo.size + 2) := by
  show (true && decide (pos - 2 < fifo.size)) = _
  rw [Bool.true_and]
  exact decide_eq_decide.mpr (by omega)

theorem readRound_eq (s : Copy) : readRound room fifo s = .ok (readChunk room fifo s) := rfl

/-- The rounds up to the first end marker that is seen. -/
theorem readFile_found (hroom : Roomy room) (hpos : READ_BUF_LEN ∣ pos) (hpos0 : 0 < pos)
    (hfuel : fifo.size + 2 < fuel + pos) (hk : fifo.SeenAt k) (hle : pos ≤ k + 1)
    (hfirst : ∀ j, pos ≤ j + 1 → j < k → ¬ fifo.SeenAt j) :
    ∃ e, whileLoop (unread fifo) (readRound room fifo) fuel
      (copyAt fifo file pos) = .ok (copyDone fifo file k e) := by
  have hksize := hk.2.2
  induction fuel generalizing pos with
  | zero => omega
  | succ fuel ih =>
    have hcond : unread fifo (copyAt fifo file pos) = true := by
      rw [unread_copyAt hpos0 (by omega)]
      exact decide_eq_true (by omega)
    obtain ⟨e, hblock, hreads⟩ : ∃ e, Block fifo pos e ∧
        Reads fifo file pos e (readChunk room fifo (copyAt fifo file pos)) :=
      readChunk_next hroom hpos hpos0 (by omega)
    rw [whileLoop_round hcond (readRound_eq _)]
    by_cases hin : k + 1 < e
    · rw [hreads.found k hk hle hin hfirst]
      obtain ⟨n, rfl⟩ := Nat.exists_eq_add_one_of_ne_zero (show fuel ≠ 0 by omega)
      exact ⟨e, whileLoop_done rfl n⟩
    · rw [hreads.through fun j hj hlt => hfirst j hj (by omega)]
      have hnonempty := hblock.nonempty
      have hdvd : READ_BUF_LEN ∣ e := by
        rcases hblock.full with rfl | ⟨rfl, -⟩
        · exact Nat.dvd_add hpos (Nat.dvd_refl _)
        · omega
      exact ih hdvd (by omega) (by omega) (by omega) fun j hj => hfirst j (by omega)

/-- With none the rounds go through the FIFO. -/
theorem readFile_none (hroom : Roomy room) (hpos : READ_BUF_LEN ∣ pos ∨ pos = fifo.size + 2)
    (hpos0 : 0 < pos) (hsize : 0 < fifo.size) (hle : pos ≤ fifo.size + 2)
    (hfuel : fifo.size + 2 < fuel + pos) (hnone : ∀ j, pos ≤ j + 1 → ¬ fifo.SeenAt j) :
    whileLoop (unread fifo) (readRound room fifo) fuel (copyAt fifo file pos) =
      .ok (copyAt fifo file (fifo.size + 2)) := by
  induction fuel generalizing pos with
  | zero => omega
  | succ fuel ih =>
    by_cases hend : pos = fifo.size + 2
    · subst hend
      apply whileLoop_done
      rw [unread_copyAt hpos0 hsize]
      exact decide_eq_false (by omega)
    · have hcond : unread fifo (copyAt fifo file pos) = true := by
        rw [unread_copyAt hpos0 hsize]
        exact decide_eq_true (by omega)
      have hdvd : READ_BUF_LEN ∣ pos := hpos.resolve_right hend
      obtain ⟨e, hblock, hreads⟩ : ∃ e, Block fifo pos e ∧
          Reads fifo file pos e (readChunk room fifo (copyAt fifo file pos)) :=
        readChunk_next hroom hdvd hpos0 (by omega)
      have hnonempty := hblock.nonempty
      rw [whileLoop_round hcond (readRound_eq _), hreads.through fun j hj _ => hnone j hj]
      refine ih ?_ (by omega) hblock.within (by omega) fun j hj => hnone j (by omega)
      rcases hblock.full with rfl | ⟨rfl, -⟩
      · exact .inl (Nat.dvd_add hdvd (Nat.dvd_refl _))
      · exact .inr rfl

/-- The first end marker that is seen ends the image in the file. -/
theorem toFile_found (hroom : Roomy room) (hstart : fifo.Starts) (hsize : 256 ≤ fifo.size)
    (hk : fifo.SeenAt k) (hfirst : ∀ j < k, ¬ fifo.SeenAt j) :
    toFile room fifo true file = .ok ⟨0, some k, none, file ++ burst fifo.data 2 k⟩ := by
  have hbuf : READ_BUF_LEN = 1002 := rfl
  obtain ⟨e, hblock, hreads⟩ : ∃ e, Block fifo 0 e ∧
      Reads fifo file 0 e (readChunk room fifo ⟨0, 0, 0, false, 0, file, false⟩) :=
    readChunk_first hroom hstart hsize
  have hcond : unread fifo ⟨0, 0, 0, false, 0, file, false⟩ = true := by
    show decide (0 < fifo.size) = true
    exact decide_eq_true (by omega)
  have hksize := hk.2.2
  obtain ⟨e', hloop⟩ : ∃ e', whileLoop (unread fifo) (readRound room fifo)
      (fifo.size + 1) ⟨0, 0, 0, false, 0, file, false⟩ = .ok (copyDone fifo file k e') := by
    rw [whileLoop_round hcond (readRound_eq _)]
    by_cases hin : k + 1 < e
    · rw [hreads.found k hk (by omega) hin fun j _ => hfirst j]
      obtain ⟨n, hn⟩ := Nat.exists_eq_add_one_of_ne_zero (show fifo.size ≠ 0 by omega)
      rw [hn]
      exact ⟨e, whileLoop_done rfl n⟩
    · rw [hreads.through fun j _ hlt => hfirst j (by omega)]
      have hdvd : e = READ_BUF_LEN := by
        rcases hblock.full with h | ⟨rfl, -⟩ <;> omega
      exact readFile_found hroom (hdvd ▸ Nat.dvd_refl _) (by omega) (by omega) hk (by omega)
        fun j _ => hfirst j
  show (whileLoop (unread fifo) _ (fifo.size + 1) _ >>= _) = _
  rw [hloop]
  rfl

theorem toFile_none (hroom : Roomy room) (hstart : fifo.Starts) (hsize : 256 ≤ fifo.size)
    (hnone : ∀ j, ¬ fifo.SeenAt j) :
    toFile room fifo true file =
      .ok ⟨-9, some 0, none, file ++ burst fifo.data 2 fifo.size⟩ := by
  have hbuf : READ_BUF_LEN = 1002 := rfl
  obtain ⟨e, hblock, hreads⟩ : ∃ e, Block fifo 0 e ∧
      Reads fifo file 0 e (readChunk room fifo ⟨0, 0, 0, false, 0, file, false⟩) :=
    readChunk_first hroom hstart hsize
  have hcond : unread fifo ⟨0, 0, 0, false, 0, file, false⟩ = true := by
    show decide (0 < fifo.size) = true
    exact decide_eq_true (by omega)
  have hloop : whileLoop (unread fifo) (readRound room fifo) (fifo.size + 1)
      ⟨0, 0, 0, false, 0, file, false⟩ = .ok (copyAt fifo file (fifo.size + 2)) := by
    rw [whileLoop_round hcond (readRound_eq _), hreads.through fun j _ _ => hnone j]
    refine readFile_none hroom ?_ hblock.nonempty (by omega) hblock.within ?_ fun j _ => hnone j
    · rcases hblock.full with h | ⟨rfl, -⟩
      · exact .inl ((show e = READ_BUF_LEN by omega) ▸ Nat.dvd_refl _)
      · exact .inr rfl
    · rcases hblock.full with h | ⟨rfl, -⟩ <;> omega
  show (whileLoop (unread fifo) _ (fifo.size + 1) _ >>= _) = _
  rw [hloop]
  rfl

end ToFile

/-! ## Both destinations -/

section Both

variable {room : List Byte → List Byte → Nat} {cam : Camera} {capture : Bool}

/-- The FIFO that a call reads. -/
def Camera.fifo (cam : Camera) (capture : Bool) : Fifo :=
  if capture then cam.captured else cam.held

/-- A size that both destinations take. -/
def Fifo.Admitted (fifo : Fifo) : Prop := 256 ≤ fifo.size ∧ fifo.size ≤ 64 * 1024

/-- Both calls succeed with the image: in the buffer from offset two on, and in the file. -/
structure Yields (image file : List Byte) (toMem toFile : Result Got) : Prop where
  memory : ∃ buf, toMem = .ok ⟨0, some image.length, some buf, []⟩ ∧
    (buf.drop 2).take image.length = image
  file : toFile = .ok ⟨0, some image.length, none, file ++ image⟩

/-- The call returns an error. -/
def Fails (r : Result Got) : Prop := ∃ got, r = .ok got ∧ got.err ≠ 0

/-- The calls to memory and to a file give the bytes from the start marker through the first
    end marker, and fail where the content has none. -/
structure Extracts (room : List Byte → List Byte → Nat) (cam : Camera) (capture : Bool) :
    Prop where
  found : ∀ k, (cam.fifo capture).EndsAt k → (∀ j < k, ¬ (cam.fifo capture).EndsAt j) →
    k + 1 < (cam.fifo capture).size → ∀ file, Yields (burst (cam.fifo capture).data 2 k) file
      (cam_get_image room true cam none capture) (cam_get_image room true cam (some file) capture)
  none : (∀ k, k + 1 < (cam.fifo capture).size → ¬ (cam.fifo capture).EndsAt k) → ∀ file,
    Fails (cam_get_image room true cam none capture) ∧
      Fails (cam_get_image room true cam (some file) capture)

/-- The first end marker ends neither with the content nor with a block of the copy to a file;
    and where the content has none, the next byte does not complete one, unless a block ends
    there. -/
structure Fifo.Clear (fifo : Fifo) : Prop where
  content : ∀ k, fifo.EndsAt k → (∀ j < k, ¬ fifo.EndsAt j) → k + 1 < fifo.size →
    k + 2 ≠ fifo.size ∧ ¬ READ_BUF_LEN ∣ k + 2
  past : (∀ k, k + 1 < fifo.size → ¬ fifo.EndsAt k) → fifo.EndsAt (fifo.size - 1) →
    READ_BUF_LEN ∣ fifo.size + 1

theorem cam_get_image_memory (room : List Byte → List Byte → Nat) (hinit : cam.initialized = true)
    (hsize : (cam.fifo capture).Admitted) :
    cam_get_image room true cam none capture =
      .ok (toMemory true (cam.fifo capture) []) := by
  obtain ⟨hlow, hhigh⟩ := hsize
  unfold cam_get_image
  rw [← Camera.fifo, hinit]
  show (if _ then _ else if _ then _ else if _ then _ else _) = _
  rw [if_neg (by decide), if_neg (by omega), if_neg (by omega)]
  rfl

theorem cam_get_image_file (room : List Byte → List Byte → Nat)
    (hinit : cam.initialized = true) (hsize : (cam.fifo capture).Admitted) (file : List Byte) :
    cam_get_image room true cam (some file) capture =
      toFile room (cam.fifo capture) true file := by
  obtain ⟨hlow, hhigh⟩ := hsize
  unfold cam_get_image
  rw [← Camera.fifo, hinit]
  show (if _ then _ else if _ then _ else if _ then _ else _) = _
  rw [if_neg (by decide), if_neg (by omega), if_neg fun h => Bool.false_ne_true h.1]
  rfl

/-- The least place with some property, where there is one. -/
theorem exists_first {p : Nat → Prop} {k : Nat} (hk : p k) :
    ∃ m ≤ k, p m ∧ ∀ j < m, ¬ p j := by
  induction k using Nat.strongRecOn with
  | ind k ih =>
    by_cases h : ∃ j < k, p j
    · obtain ⟨j, hlt, hj⟩ := h
      obtain ⟨m, hm, hpm, hfirst⟩ := ih j hlt hj
      exact ⟨m, by omega, hpm, hfirst⟩
    · exact ⟨k, Nat.le_refl k, hk, fun j hlt hj => h ⟨j, hlt, hj⟩⟩

section Fifo

variable {fifo : Fifo} {file : List Byte} {k : Nat}

theorem yields_of_clear (hroom : Roomy room) (hstart : fifo.Starts) (hlow : 256 ≤ fifo.size)
    (hclear : fifo.Clear) (hk : fifo.EndsAt k) (hfirst : ∀ j < k, ¬ fifo.EndsAt j)
    (hin : k + 1 < fifo.size) :
    Yields (burst fifo.data 2 k) file (.ok (toMemory true fifo []))
      (toFile room fifo true file) := by
  obtain ⟨hne, hdvd⟩ := hclear.content k hk hfirst hin
  have hlen : (burst fifo.data 2 k).length = k := length_burst _ _ _
  constructor
  · refine ⟨fifo.outbuf, ?_, ?_⟩
    · rw [toMemory_found hstart hk hfirst (by omega), hlen]
    · rw [hlen, Fifo.outbuf, List.drop_append_of_le_length (by rw [length_burst]; omega),
        List.take_append_of_le_length (by rw [List.length_drop, length_burst]; omega),
        block_burst (by omega)]
  · rw [toFile_found hroom hstart hlow ⟨hk, hdvd, by omega⟩ fun j hj h => hfirst j hj h.1, hlen]

/-- A marker that ends with the content is not found in memory. -/
theorem not_yields_last (hstart : fifo.Starts) (hlow : 256 ≤ fifo.size) {image : List Byte}
    {r : Result Got} (hfirst : ∀ j < k, ¬ fifo.EndsAt j) (hlast : k + 2 = fifo.size) :
    ¬ Yields image file (.ok (toMemory true fifo [])) r := by
  rintro ⟨⟨buf, hmem, -⟩, -⟩
  rw [toMemory_none hstart (by omega) fun j hj => hfirst j (by omega)] at hmem
  have herr : (-9 : Int) = 0 := congrArg Got.err (Except.ok.inj hmem)
  omega

/-- One that ends with a block is not the end of the image in the file. -/
theorem not_yields_block (hroom : Roomy room) (hstart : fifo.Starts) (hlow : 256 ≤ fifo.size)
    {r : Result Got} (hdvd : READ_BUF_LEN ∣ k + 2) :
    ¬ Yields (burst fifo.data 2 k) file r (toFile room fifo true file) := by
  rintro ⟨-, hfile⟩
  rw [length_burst] at hfile
  by_cases hseen : ∃ j, fifo.SeenAt j
  · obtain ⟨j, hj⟩ := hseen
    obtain ⟨m, -, hm, hfirst⟩ := exists_first hj
    rw [toFile_found hroom hstart hlow hm hfirst] at hfile
    obtain rfl : m = k := Option.some.inj (congrArg Got.bytesRead (Except.ok.inj hfile))
    exact hm.2.1 hdvd
  · rw [toFile_none hroom hstart hlow fun j hj => hseen ⟨j, hj⟩] at hfile
    have herr : (-9 : Int) = 0 := congrArg Got.err (Except.ok.inj hfile)
    omega

theorem fails_memory (hstart : fifo.Starts) (hlow : 256 ≤ fifo.size)
    (hnone : ∀ k, k + 1 < fifo.size → ¬ fifo.EndsAt k) :
    Fails (.ok (toMemory true fifo [])) := by
  rw [toMemory_none hstart (by omega) fun j hj => hnone j (by omega)]
  exact ⟨_, rfl, by decide⟩

/-- With no marker in the content, the copy to a file can only find one that the next byte
    completes. -/
theorem fails_file_iff (hroom : Roomy room) (hstart : fifo.Starts) (hlow : 256 ≤ fifo.size)
    (hnone : ∀ k, k + 1 < fifo.size → ¬ fifo.EndsAt k) :
    Fails (toFile room fifo true file) ↔
      (fifo.EndsAt (fifo.size - 1) → READ_BUF_LEN ∣ fifo.size + 1) := by
  have hlast : fifo.size - 1 + 2 = fifo.size + 1 := by omega
  constructor
  · rintro ⟨got, hgot, herr⟩ hend
    by_contra hdvd
    rw [toFile_found hroom hstart hlow ⟨hend, by rwa [hlast], by omega⟩
      fun j hj h => hnone j (by omega) h.1] at hgot
    obtain rfl := Except.ok.inj hgot
    exact herr rfl
  · intro hpast
    rw [toFile_none hroom hstart hlow]
    · exact ⟨_, rfl, show (-9 : Int) ≠ 0 by decide⟩
    · rintro j ⟨hend, hdvd, hsize⟩
      obtain rfl : j = fifo.size - 1 := by
        by_contra hne
        exact hnone j (by omega) hend
      exact hdvd (hlast ▸ hpast hend)

end Fifo

/-- Both calls give the image just where no end of a block or of the content hides the first
    end marker, and the two bytes past the content do not make one up. -/
theorem cam_get_image_iff (hroom : Roomy room) (cam : Camera) (capture : Bool)
    (hinit : cam.initialized = true) (hstart : (cam.fifo capture).Starts)
    (hsize : (cam.fifo capture).Admitted) :
    Extracts room cam capture ↔ (cam.fifo capture).Clear := by
  have hlow := hsize.1
  have hmem := cam_get_image_memory room hinit hsize
  have hfile := cam_get_image_file room hinit hsize
  constructor
  · intro hext
    refine ⟨fun k hk hfirst hin => ⟨?_, ?_⟩, fun hnone => ?_⟩
    · intro hlast
      have hyields := hext.found k hk hfirst hin []
      rw [hmem, hfile] at hyields
      exact not_yields_last hstart hlow hfirst hlast hyields
    · intro hdvd
      have hyields := hext.found k hk hfirst hin []
      rw [hmem, hfile] at hyields
      exact not_yields_block hroom hstart hlow hdvd hyields
    · have hfails := (hext.none hnone []).2
      rw [hfile] at hfails
      exact (fails_file_iff hroom hstart hlow hnone).mp hfails
  · intro hclear
    refine ⟨fun k hk hfirst hin file => ?_, fun hnone file => ⟨?_, ?_⟩⟩
    · rw [hmem, hfile]
      exact yields_of_clear hroom hstart hlow hclear hk hfirst hin
    · rw [hmem]
      exact fails_memory hstart hlow hnone
    · rw [hfile]
      exact (fails_file_iff hroom hstart hlow hnone).mpr (hclear.past hnone)

/-- An image that ends where `last` says, in a FIFO of this size. -/
def imageFifo (size last : Nat) : Fifo :=
  ⟨size, fun i => if i = 2 ∨ i + 1 = last then 0xFF else if i = 3 then 0xD8
    else if i = last then 0xD9 else 0⟩

def imageCamera (size last : Nat) : Camera :=
  ⟨true, imageFifo size last, imageFifo size last⟩

theorem imageFifo_starts {size last : Nat} (h : 4 < last) : (imageFifo size last).Starts := by
  constructor
  · dsimp only [imageFifo]
    rw [if_pos (Or.inl rfl)]
  · show (if (3 = 2 ∨ 3 + 1 = last) then (0xFF : Byte) else _) = _
    rw [if_neg (by omega), if_pos rfl]

theorem imageFifo_endsAt_iff {size last k : Nat} (h : 4 < last) :
    (imageFifo size last).EndsAt k ↔ k + 1 = last ∧ 4 ≤ k := by
  have hd9 : ∀ i, (imageFifo size last).data i = 0xD9 → i = last := by
    intro i hi
    by_contra hne
    dsimp only [imageFifo] at hi
    split at hi
    · exact absurd hi (by decide)
    · split at hi
      · exact absurd hi (by decide)
      · exact absurd hi (by decide)
  constructor
  · rintro ⟨hk, -, hend⟩
    exact ⟨hd9 _ hend, hk⟩
  · rintro ⟨rfl, hk⟩
    refine ⟨hk, if_pos (Or.inr rfl), ?_⟩
    show (if (k + 1 = 2 ∨ k + 1 + 1 = k + 1) then (0xFF : Byte) else _) = _
    rw [if_neg (by omega), if_neg (by omega), if_pos rfl]

/-- A disk without end. -/
def unlimited (_ block : List Byte) : Nat := block.length

theorem roomy_unlimited : Roomy unlimited := fun _ _ => Nat.le_refl _

theorem cam_get_image_iff_image :
    Extracts unlimited (imageCamera 300 200) false ↔ (imageFifo 300 200).Clear :=
  cam_get_image_iff roomy_unlimited (imageCamera 300 200) false rfl
    (imageFifo_starts (by decide)) ⟨by decide, by decide⟩

/-- The image that fills its FIFO is not found in memory. -/
theorem not_extracts_full : ¬ Extracts unlimited (imageCamera 256 255) false := by
  intro hext
  have hstarts : (imageFifo 256 255).Starts := imageFifo_starts (by decide)
  have hyields := hext.found 254 ((imageFifo_endsAt_iff (by decide)).mpr ⟨rfl, by decide⟩)
    (fun j hj h => by have := (imageFifo_endsAt_iff (by decide)).mp h; omega) (by decide) []
  have hmem : cam_get_image unlimited true (imageCamera 256 255) none false =
      .ok (toMemory true (imageFifo 256 255) []) :=
    cam_get_image_memory unlimited rfl ⟨by decide, by decide⟩
  rw [hmem] at hyields
  exact not_yields_last hstarts (by decide)
    (fun j hj h => by have := (imageFifo_endsAt_iff (by decide)).mp h; omega) rfl hyields

end Both

end Cam
end LuaRtos.Lua
