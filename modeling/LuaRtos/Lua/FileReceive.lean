/-
  LuaRtos.Lua.FileReceive

  `f_receive` against any stream of bytes and time-outs: what the file holds
  when it reports success, and when that is what was received.
-/

import LuaRtos.Lua.FileTransfer

namespace LuaRtos.Lua
namespace FileTransfer

open CLib Link

/-! ## The chunks of a stream -/

/-- A chunk as it is received: the length announced, and the bytes that came before a time-out
    or the end of the chunk. -/
structure Chunk where
  size : Nat
  bytes : List Byte
deriving DecidableEq, Repr

/-- The chunks that are received in up to `fuel` rounds. -/
def chunksIn : Nat → List (Option Byte) → List Chunk
  | fuel + 1, some chunk_size :: rs =>
    if chunk_size = 0 then []
    else ⟨chunk_size.toNat, (Proc.taken chunk_size.toNat rs).1⟩ ::
      chunksIn fuel (Proc.taken chunk_size.toNat rs).2
  | _, _ => []

/-- The bytes of the chunks. -/
def received (cs : List Chunk) : List Byte := (cs.map Chunk.bytes).flatten

/-- No chunk is cut by a time-out. -/
def Uncut (cs : List Chunk) : Prop := ∀ c ∈ cs, c.bytes.length = c.size

/-- The buffer after a chunk. -/
def Receiving.filled (s : Receiving) (c : Chunk) : List Byte :=
  c.bytes ++ s.chunk.drop c.bytes.length

/-- The bytes that are written for a chunk. -/
def Receiving.block (s : Receiving) (c : Chunk) : List Byte := (s.filled c).take c.size

/-- A chunk has at most the bytes that it announces, and they are at most 255. -/
def Chunk.Sound (c : Chunk) : Prop := c.bytes.length ≤ c.size ∧ c.size ≤ 255

/-- The lengths that the chunks announce. -/
def announced (cs : List Chunk) : Nat := cs.foldr (fun c n => c.size + n) 0

section Filled

variable {s : Receiving} {c : Chunk}

theorem length_filled (hchunk : s.chunk.length = 255) (hc : c.Sound) :
    (s.filled c).length = 255 := by
  obtain ⟨hbytes, hsize⟩ := hc
  rw [Receiving.filled, List.length_append, List.length_drop]
  omega

/-- A chunk is written with the length that it announces. -/
theorem length_block (hchunk : s.chunk.length = 255) (hc : c.Sound) :
    (s.block c).length = c.size := by
  rw [Receiving.block, List.length_take, length_filled hchunk hc]
  exact Nat.min_eq_left hc.2

/-- A chunk that is not cut is written as it is. -/
theorem block_of_uncut (hc : c.bytes.length = c.size) : s.block c = c.bytes := by
  rw [Receiving.block, Receiving.filled, ← hc, List.take_left]

theorem sound_chunksIn (fuel : Nat) (rs : List (Option Byte)) :
    ∀ c ∈ chunksIn fuel rs, c.Sound := by
  induction fuel generalizing rs with
  | zero => exact fun c hc => absurd hc List.not_mem_nil
  | succ fuel ih =>
    intro c hc
    rcases rs with _ | ⟨_ | n, rs⟩
    · exact absurd hc List.not_mem_nil
    · exact absurd hc List.not_mem_nil
    · rw [chunksIn] at hc
      by_cases hn : n = 0
      · rw [if_pos hn] at hc
        exact absurd hc List.not_mem_nil
      · rw [if_neg hn] at hc
        rcases List.mem_cons.mp hc with rfl | hc
        · exact ⟨Proc.length_taken n.toNat rs, Nat.le_of_lt_succ n.isLt⟩
        · exact ih _ c hc

end Filled

section Written

variable (room : List Byte → List Byte → Nat)

/-- A round with a chunk. -/
def Receiving.after (s : Receiving) (c : Chunk) : Receiving :=
  ⟨(fwrite room s.file (s.block c)).1, s.filled c⟩

/-- The disk takes all that is written for the chunks. -/
def Written : Receiving → List Chunk → Prop
  | _, [] => True
  | s, c :: cs => (s.block c).length ≤ room s.file (s.block c) ∧ Written (s.after room c) cs

/-! ## The run of the loop -/

/-- A round reads the end of the file, a time-out, or a chunk. -/
theorem receiveRound_run {s : Receiving} (hchunk : s.chunk.length = 255)
    {rs rs' : List (Option Byte)} {out : Receiving ⊕ List Byte × Bool}
    (h : (receiveRound room s).run rs = some (out, rs')) :
    (∃ rs₁, rs = none :: rs₁ ∧ out = .inr (s.file, false)) ∨
    (∃ rs₁, rs = some 0 :: rs₁ ∧ out = .inr (s.file, true)) ∨
    ∃ n rs₁, n ≠ 0 ∧ rs = some n :: rs₁ ∧ rs' = (Proc.taken n.toNat rs₁).2 ∧
      out = .inl (s.after room ⟨n.toNat, (Proc.taken n.toNat rs₁).1⟩) := by
  unfold receiveRound at h
  cases rs with
  | nil =>
    rw [Proc.get_bind] at h
    unfold Proc.run at h
    cases h
  | cons o rs =>
    rw [Proc.get_bind, Proc.run_read_cons] at h
    cases o with
    | none =>
      cases h
      exact .inl ⟨_, rfl, rfl⟩
    | some n =>
      dsimp only at h
      by_cases hn : n = 0
      · subst hn
        cases h
        exact .inr (.inl ⟨_, rfl, rfl⟩)
      · rw [if_neg hn] at h
        obtain ⟨r, rs₁, hfill, h⟩ := Proc.run_bind_eq_some.mp h
        have hroom : n.toNat ≤ s.chunk.length := by
          have hlt := n.isLt
          omega
        have hfill' : (Proc.fill ([] ++ s.chunk) ([] : List Byte).length n.toNat).run rs =
            some (r, rs₁) := hfill
        obtain ⟨hbuf, hrest⟩ := Proc.run_fill hroom hfill'
        obtain ⟨chunk, full⟩ := r
        cases h
        refine .inr (.inr ⟨n, _, hn, rfl, hrest, ?_⟩)
        dsimp only at hbuf
        rw [hbuf]
        rfl

/-- What a successful run of the loop leaves in the file. -/
theorem receiveLoop_run {fuel : Nat} {s : Receiving} (hchunk : s.chunk.length = 255)
    {rs rs' : List (Option Byte)} {file : List Byte}
    (h : (Proc.loop (receiveRound room) fuel s).run rs = some ((file, true), rs')) :
    file = ((chunksIn fuel rs).foldl (Receiving.after room) s).file := by
  induction fuel generalizing s rs with
  | zero => cases h
  | succ fuel ih =>
    rw [Proc.loop_succ] at h
    obtain ⟨out, rs₁, hround, h⟩ := Proc.run_bind_eq_some.mp h
    rcases receiveRound_run room hchunk hround with
      ⟨rs₂, rfl, rfl⟩ | ⟨rs₂, rfl, rfl⟩ | ⟨n, rs₂, hn, rfl, rfl, rfl⟩
    · cases h
    · cases h
      rfl
    · have hn255 : n.toNat ≤ 255 := Nat.le_of_lt_succ n.isLt
      have hlen := Proc.length_taken n.toNat rs₂
      rw [ih (length_filled hchunk ⟨hlen, hn255⟩) h, chunksIn, if_neg hn]
      rfl

/-! ## What is written -/

/-- The chunks announce at least what is received, and just that if none is cut. -/
theorem length_received {cs : List Chunk} (hcs : ∀ c ∈ cs, c.Sound) :
    (received cs).length ≤ announced cs ∧ ((received cs).length = announced cs ↔ Uncut cs) := by
  induction cs with
  | nil => exact ⟨Nat.le_refl 0, iff_of_true rfl fun c hc => absurd hc List.not_mem_nil⟩
  | cons c cs ih =>
    obtain ⟨hbytes, -⟩ := hcs c List.mem_cons_self
    obtain ⟨hle, hiff⟩ := ih fun d hd => hcs d (List.mem_cons_of_mem c hd)
    have hreceived : (received (c :: cs)).length = c.bytes.length + (received cs).length :=
      List.length_append
    have hannounced : announced (c :: cs) = c.size + announced cs := List.foldr_cons
    have huncut : Uncut (c :: cs) ↔ c.bytes.length = c.size ∧ Uncut cs := List.forall_mem_cons
    rw [hreceived, hannounced, huncut, ← hiff]
    omega

/-- The file grows by at most what the chunks announce, and just by that if the disk takes it. -/
theorem length_written {cs : List Chunk} (hcs : ∀ c ∈ cs, c.Sound) {s : Receiving}
    (hchunk : s.chunk.length = 255) :
    (cs.foldl (Receiving.after room) s).file.length ≤ s.file.length + announced cs ∧
      ((cs.foldl (Receiving.after room) s).file.length = s.file.length + announced cs ↔
        Written room s cs) := by
  induction cs generalizing s with
  | nil => exact ⟨Nat.le_refl _, iff_of_true rfl trivial⟩
  | cons c cs ih =>
    have hc := hcs c List.mem_cons_self
    obtain ⟨hle, hiff⟩ := ih (fun d hd => hcs d (List.mem_cons_of_mem c hd))
      (s := s.after room c) (length_filled hchunk hc)
    have hblock := length_block hchunk hc
    have hfile : (s.after room c).file.length =
        s.file.length + min (room s.file (s.block c)) c.size := by
      show (s.file ++ (s.block c).take _).length = _
      rw [List.length_append, List.length_take, hblock]
    have hannounced : announced (c :: cs) = c.size + announced cs := List.foldr_cons
    have hwritten : Written room s (c :: cs) ↔
        c.size ≤ room s.file (s.block c) ∧ Written room (s.after room c) cs := by
      rw [Written, hblock]
    rw [List.foldl_cons, hannounced, hwritten, ← hiff]
    omega

/-- Chunks that are not cut, on a disk that takes them. -/
theorem written_eq {cs : List Chunk} (huncut : Uncut cs) {s : Receiving}
    (hwritten : Written room s cs) :
    (cs.foldl (Receiving.after room) s).file = s.file ++ received cs := by
  induction cs generalizing s with
  | nil => exact (List.append_nil _).symm
  | cons c cs ih =>
    obtain ⟨hroom, hwritten⟩ := hwritten
    have hblock := block_of_uncut (s := s) (huncut c List.mem_cons_self)
    have hfile : (s.after room c).file = s.file ++ c.bytes := by
      show (fwrite room s.file (s.block c)).1 = _
      rw [fwrite_of_le hroom, hblock]
    rw [List.foldl_cons, ih (fun d hd => huncut d (List.mem_cons_of_mem c hd)) hwritten, hfile,
      List.append_assoc]
    rfl

/-! ## The whole call -/

/-- The chunks that a call receives, and the state of its loop before them. -/
theorem f_receive_run {fuel : Nat} {chunk : Block 255} {filename : List Byte}
    {fopen : Option String} {rs rs' : List (Option Byte)} {file : List Byte}
    (h : (f_receive fuel room chunk filename fopen).run rs =
      some (⟨.values 1, some file⟩, rs')) :
    file = ((chunksIn fuel rs).foldl (Receiving.after room) ⟨[], chunk.bytes⟩).file := by
  unfold f_receive at h
  by_cases hname : filename.length = 0
  · rw [if_pos hname] at h
    cases h
  · rw [if_neg hname] at h
    cases fopen with
    | some err => cases h
    | none =>
      dsimp only at h
      rw [Proc.consume_bind, Proc.run_discard, Proc.put_bind, Proc.run_write, Proc.put_bind,
        Proc.run_write] at h
      obtain ⟨⟨file', done⟩, rs₁, hloop, h⟩ := Proc.run_bind_eq_some.mp h
      cases done with
      | false => cases h
      | true =>
        cases h
        exact receiveLoop_run room chunk.size hloop

/-- A call that reports success, where no chunk is cut or the disk takes all that is written: the
    file holds what was received in the chunks exactly when both are so. -/
theorem f_receive_right {fuel : Nat} {chunk : Block 255} {filename : List Byte}
    {fopen : Option String} {rs rs' : List (Option Byte)} {file : List Byte}
    (h : (f_receive fuel room chunk filename fopen).run rs =
      some (⟨.values 1, some file⟩, rs'))
    (hone : Uncut (chunksIn fuel rs) ∨ Written room ⟨[], chunk.bytes⟩ (chunksIn fuel rs)) :
    file = received (chunksIn fuel rs) ↔
      Uncut (chunksIn fuel rs) ∧ Written room ⟨[], chunk.bytes⟩ (chunksIn fuel rs) := by
  have hsound := sound_chunksIn fuel rs
  obtain ⟨-, huncut⟩ := length_received hsound
  obtain ⟨-, hwritten⟩ := length_written room hsound (s := ⟨[], chunk.bytes⟩) chunk.size
  rw [f_receive_run room h]
  constructor
  · intro heq
    -- the lengths tell the one that fails from the one that does not
    have hlen := congrArg List.length heq
    rw [← huncut, ← hwritten] at hone ⊢
    simp only [List.length_nil, Nat.zero_add] at hone ⊢
    omega
  · rintro ⟨huncut, hwritten⟩
    exact written_eq room huncut hwritten

end Written

/-- One chunk with one byte. -/
theorem f_receive_right_one : [7] = received (chunksIn 2 [some 1, some 7, some 0]) ↔
    Uncut (chunksIn 2 [some 1, some 7, some 0]) ∧
      Written (fun _ block => block.length) ⟨[], (freshBlock 255).bytes⟩
        (chunksIn 2 [some 1, some 7, some 0]) :=
  f_receive_right (fun _ block => block.length)
    (by rfl : (f_receive 2 _ (freshBlock 255) (chars "a.lua") none).run
      [some 1, some 7, some 0] = some (⟨.values 1, some [7]⟩, []))
    (.inl (by unfold Uncut; decide))

/-- A chunk of two bytes of which one comes: the other is what the buffer held. -/
theorem f_receive_cut : ∃ file,
    (f_receive 3 (fun _ block => block.length) (freshBlock 255) (chars "a.lua") none).run
      [some 2, some 7, none, some 0] = some (⟨.values 1, some file⟩, []) ∧
    file ≠ received (chunksIn 3 [some 2, some 7, none, some 0]) := by
  refine ⟨[7, 0xa5], by rfl, ?_⟩
  decide

end FileTransfer
end LuaRtos.Lua
