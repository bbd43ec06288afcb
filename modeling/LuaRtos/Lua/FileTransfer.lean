/-
  LuaRtos.Lua.FileTransfer

  `f_receive` and `f_send` of liolib_adds.inc: a file sent over the console
  UART in chunks of at most 255 bytes.

  The receiver asks for each chunk with "C\n"; a chunk is a byte with its
  length and then its bytes, and a length of zero ends the file.  `fuel` bounds
  the rounds of the loops, `room` is the disk of the receiver.
-/

import LuaRtos.CLib.File
import LuaRtos.CLib.Str
import LuaRtos.Link.Script

namespace LuaRtos.Lua
namespace FileTransfer

open CLib Link

/-- How a function called from Lua ends: with a number of results, or an error. -/
inductive LuaReturn where
  | values (n : Nat)
  | error (msg : String)
deriving DecidableEq, Repr

/-- What a receiving call leaves: its return, and the contents of the file if
    it was opened. -/
structure Received where
  ret : LuaReturn
  file : Option (List Byte)
deriving DecidableEq, Repr

/-! ## The receiver -/

/-- What the loop of `f_receive` carries: the file written so far and the buffer. -/
structure Receiving where
  file : List Byte
  chunk : List Byte

/-- One round of `f_receive`.  It leaves with the file and `done`. -/
def receiveRound (room : List Byte → List Byte → Nat) (s : Receiving) :
    Proc Byte (Receiving ⊕ List Byte × Bool) := do
  -- Wait for chunk size
  match ← Proc.get with
  | none => return .inr (s.file, false)
  | some chunk_size =>
    -- More chunks?
    if chunk_size = 0 then return .inr (s.file, true)
    else do
      -- Read chunk.  A time-out ends this loop only, and goes unnoticed.
      let (chunk, _) ← Proc.fill s.chunk 0 chunk_size.toNat
      let file := (fwrite room s.file (chunk.take chunk_size.toNat)).1
      Proc.put 0x43
      Proc.put 0x0a
      return .inl ⟨file, chunk⟩

/-- `f_receive`, for a `fopen` that fails with a message or opens an empty file.
    `chunk` is the contents of the stack buffer. -/
def f_receive (fuel : Nat) (room : List Byte → List Byte → Nat) (chunk : Block 255)
    (filename : List Byte) (fopen : Option String) : Proc Byte Received :=
  if filename.length = 0 then return ⟨.values 0, none⟩
  else match fopen with
    | some err => return ⟨.error err, none⟩
    | none => do
      -- Clear received buffer
      Proc.consume
      -- Send 'C' for start
      Proc.put 0x43
      Proc.put 0x0a
      let (file, done) ← Proc.loop (receiveRound room) fuel ⟨[], chunk.bytes⟩
      if done then return ⟨.values 1, some file⟩
      else return ⟨.error "timeout", some file⟩

/-! ## The sender -/

/-- The loop that fills a chunk with `n` reads of one byte. -/
def fillChunk : Nat → InFile → List Byte × InFile
  | 0, f => ([], f)
  | n + 1, f =>
    let r := fread f 1
    let s := fillChunk n r.2
    (r.1 ++ s.1, s.2)

/-- Why a wait for "C\n" fails. -/
inductive Wrong where
  | timeout
  | unexpected
deriving DecidableEq, Repr

/-- The error that is raised for it. -/
def Wrong.msg : Wrong → String
  | timeout => "timeout"
  | unexpected => "unnexpected input"

/-- The two reads that wait for "C\n". -/
def waitStart : Proc Byte (Option Wrong) := do
  match ← Proc.get with
  | none => return some .timeout
  | some c =>
    if c ≠ 0x43 then return some .unexpected
    else do
      match ← Proc.get with
      | none => return some .timeout
      | some c => if c ≠ 0x0a then return some .unexpected else return none

/-- One round of `f_send`: a chunk is read from the file before the receiver
    asks for it.  The loop leaves at the end of the file or with an error. -/
def sendRound (f : InFile) : Proc Byte (InFile ⊕ Option Wrong) :=
  if feof f then return .inr none
  else do
    let (chunk, f) := fillChunk 255 f
    match ← waitStart with
    | some e => return .inr (some e)
    | none => do
      Proc.put (BitVec.ofNat 8 chunk.length)
      Proc.puts chunk
      return .inl f

/-- `f_send`, for a `fopen` that fails with a message or opens the file. -/
def f_send (fuel : Nat) (filename : List Byte) (fopen : Except String InFile) :
    Proc Byte LuaReturn :=
  if filename.length = 0 then return .values 0
  else match fopen with
    | .error err => return .error err
    | .ok f => do
      match ← Proc.loop sendRound fuel f with
      | some e => return .error e.msg
      | none =>
        -- Send last chunk with size 0
        match ← waitStart with
        | some e => return .error e.msg
        | none => do
          Proc.put 0
          return .values 0

/-! ## The script of a transfer

The events are those of the sender: it is asked for a chunk, and sends it. -/

/-- "C\n". -/
def ask : List (Event Byte) := [.recv 0x43, .recv 0x0a]

/-- A chunk with its length. -/
def chunkEvents (c : List Byte) : List (Event Byte) :=
  .send (BitVec.ofNat 8 c.length) :: c.map .send

/-- A transfer in chunks. -/
def script (cs : List (List Byte)) : List (Event Byte) :=
  (cs.flatMap fun c => ask ++ chunkEvents c) ++ (ask ++ chunkEvents [])

/-- The same script by what the receiver does in a round: a chunk, and asking
    for the next one. -/
theorem script_eq (cs : List (List Byte)) :
    script cs = ask ++ ((cs.flatMap fun c => chunkEvents c ++ ask) ++ chunkEvents []) := by
  induction cs with
  | nil => rfl
  | cons c cs ih =>
    have ih' : (cs.flatMap fun c => ask ++ chunkEvents c) ++ (ask ++ chunkEvents []) =
        ask ++ ((cs.flatMap fun c => chunkEvents c ++ ask) ++ chunkEvents []) := ih
    rw [script, List.flatMap_cons, List.append_assoc, ih', List.flatMap_cons]
    simp only [List.append_assoc]

/-! ## The sender plays the script -/

theorem waitStart_plays : Plays waitStart ask (.ret none) :=
  .read (.read (.done _))

theorem fillChunk_eq (n : Nat) (f : InFile) : fillChunk n f = fread f n := by
  induction n generalizing f with
  | zero => simp [fillChunk, fread]
  | succ n ih =>
    obtain ⟨rest, eof⟩ := f
    rw [fillChunk, ih]
    cases rest with
    | nil => simp [fread]
    | cons b rest => simp [fread]

/-- A round that is not at the end of the file sends the next chunk. -/
theorem sendRound_plays (rest : List Byte) :
    Plays (sendRound ⟨rest, false⟩) (ask ++ chunkEvents (rest.take 255))
      (.ret (.inl ⟨rest.drop 255, rest.length < 255⟩)) := by
  have hputs := (Plays.puts (rest.take 255)).bind_ret (f := fun _ =>
    (Proc.ret (.inl ⟨rest.drop 255, rest.length < 255⟩) : Proc Byte (InFile ⊕ Option Wrong)))
    (.done _)
  rw [List.append_nil] at hputs
  rw [sendRound, if_neg (show ¬ feof ⟨rest, false⟩ = true from Bool.false_ne_true), fillChunk_eq]
  exact waitStart_plays.bind_ret (.write hputs)

theorem sendLoop_blocks {blocks : List (List Byte)} (h : ∀ c ∈ blocks, c.length = 255)
    (n : Nat) (last : List Byte) :
    Plays (.loop sendRound (blocks.length + n) ⟨blocks.flatten ++ last, false⟩)
      (blocks.flatMap fun c => ask ++ chunkEvents c) (.loop sendRound n ⟨last, false⟩) := by
  induction blocks with
  | nil =>
    rw [List.length_nil, Nat.zero_add]
    exact .done _
  | cons c blocks ih =>
    have hc := h c List.mem_cons_self
    have hround := sendRound_plays (c ++ (blocks.flatten ++ last))
    have hlen : ¬ (c ++ (blocks.flatten ++ last)).length < 255 := by
      rw [List.length_append]
      omega
    rw [List.take_left' hc, List.drop_left' hc, decide_eq_false hlen] at hround
    rw [List.length_cons, Nat.succ_add, List.flatten_cons, List.append_assoc]
    exact hround.loop_inl (ih fun d hd => h d (List.mem_cons_of_mem c hd))

/-- The last round sends what is left, be it nothing, and finds the end of the
    file. -/
theorem sendLoop_last {last : List Byte} (h : last.length < 255) (n : Nat) :
    Plays (.loop sendRound (n + 2) ⟨last, false⟩) (ask ++ chunkEvents last) (.ret none) := by
  have hround := sendRound_plays last
  rw [List.take_of_length_le (by omega), decide_eq_true h] at hround
  have hend : Plays (.loop sendRound (n + 1) ⟨last.drop 255, true⟩) [] (.ret none) :=
    Plays.loop_inr (.done _)
  have hplays := hround.loop_inl hend
  rwa [List.append_nil] at hplays

theorem sendLoop_plays {blocks : List (List Byte)} (hblocks : ∀ c ∈ blocks, c.length = 255)
    {last : List Byte} (hlast : last.length < 255) (n : Nat) :
    Plays (.loop sendRound (blocks.length + (n + 2)) (.opened (blocks.flatten ++ last)))
      ((blocks.flatMap fun c => ask ++ chunkEvents c) ++ (ask ++ chunkEvents last)) (.ret none) :=
  (sendLoop_blocks hblocks (n + 2) last).trans (sendLoop_last hlast n)

/-! ## The receiver plays the script -/

section Receive

variable {room : List Byte → List Byte → Nat}

/-- A round with a chunk appends it to the file and asks for the next one. -/
theorem receiveRound_plays (hroom : Roomy room) (file : List Byte) (chunk : Block 255)
    {c : List Byte} (hne : c ≠ []) (hc : c.length ≤ 255) :
    ∃ chunk' : Block 255, Plays (receiveRound room ⟨file, chunk.bytes⟩)
      ((chunkEvents c ++ ask).map .dual) (.ret (.inl ⟨file ++ c, chunk'.bytes⟩)) := by
  have hpos : 0 < c.length := List.length_pos_iff.mpr hne
  have htoNat : (BitVec.ofNat 8 c.length).toNat = c.length := by
    rw [BitVec.toNat_ofNat]
    omega
  have hsize : BitVec.ofNat 8 c.length ≠ 0 := by
    intro h
    have := congrArg BitVec.toNat h
    rw [htoNat] at this
    exact absurd this (by simpa using hne)
  have hlen : c.length ≤ chunk.bytes.length := by
    rw [chunk.size]
    exact hc
  refine ⟨⟨c ++ chunk.bytes.drop c.length, ?_⟩, ?_⟩
  · rw [List.length_append, List.length_drop, chunk.size]
    omega
  · rw [List.map_append]
    refine .read ?_
    show Plays (if BitVec.ofNat 8 c.length = 0 then _ else _) _ _
    rw [if_neg hsize, htoNat, List.map_map]
    refine Plays.bind_ret (Plays.fill [] chunk.bytes c hlen) ?_
    have hfile : (fwrite room file (([] ++ c ++ chunk.bytes.drop c.length).take c.length)).1 =
        file ++ c := by
      rw [List.nil_append, List.take_left, fwrite_of_le (hroom ..)]
    rw [← hfile]
    exact .write (.write (.done _))

theorem receiveLoop_plays (hroom : Roomy room) {cs : List (List Byte)}
    (hcs : ∀ c ∈ cs, c ≠ [] ∧ c.length ≤ 255) (n : Nat) (file : List Byte) (chunk : Block 255) :
    Plays (.loop (receiveRound room) (cs.length + (n + 1)) ⟨file, chunk.bytes⟩)
      (((cs.flatMap fun c => chunkEvents c ++ ask) ++ chunkEvents []).map .dual)
      (.ret (file ++ cs.flatten, true)) := by
  induction cs generalizing file chunk with
  | nil =>
    rw [List.length_nil, Nat.zero_add, List.flatten_nil, List.append_nil]
    exact Plays.loop_inr (.read (.done _))
  | cons c cs ih =>
    obtain ⟨hne, hc⟩ := hcs c List.mem_cons_self
    obtain ⟨chunk', hround⟩ := receiveRound_plays hroom file chunk hne hc
    have hrest := ih (fun d hd => hcs d (List.mem_cons_of_mem c hd)) (file ++ c) chunk'
    rw [List.length_cons, Nat.succ_add, List.flatMap_cons, List.append_assoc, List.map_append,
      List.flatten_cons, ← List.append_assoc]
    exact hround.loop_inl hrest

end Receive

/-! ## The two together -/

/-- The sender with a file of whole chunks does not wait for its own last chunk:
    the one that it sent at the end of the file was empty and has ended the
    transfer for the receiver. -/
def sendReturn (last : List Byte) : LuaReturn :=
  if last = [] then .error "timeout" else .values 0

/-- The chunks that are sent before the empty one. -/
def chunksOf (blocks : List (List Byte)) (last : List Byte) : List (List Byte) :=
  if last = [] then blocks else blocks ++ [last]

section Transfer

variable {blocks : List (List Byte)} {last : List Byte}

theorem flatten_chunksOf : (chunksOf blocks last).flatten = blocks.flatten ++ last := by
  unfold chunksOf
  split
  · next h => rw [h, List.append_nil]
  · rw [List.flatten_append, List.flatten_singleton]

theorem mem_chunksOf (hblocks : ∀ c ∈ blocks, c.length = 255) (hlast : last.length < 255) :
    ∀ c ∈ chunksOf blocks last, c ≠ [] ∧ c.length ≤ 255 := by
  have hblock : ∀ c ∈ blocks, c ≠ [] ∧ c.length ≤ 255 := by
    intro c hc
    have hlen := hblocks c hc
    refine ⟨?_, by omega⟩
    rintro rfl
    cases hlen
  intro c hc
  unfold chunksOf at hc
  split at hc
  · exact hblock c hc
  · next hne =>
    rcases List.mem_append.mp hc with hc | hc
    · exact hblock c hc
    · obtain rfl := List.mem_singleton.mp hc
      exact ⟨hne, by omega⟩

theorem f_send_follows (hblocks : ∀ c ∈ blocks, c.length = 255) (hlast : last.length < 255)
    {filename : List Byte} (hname : filename.length ≠ 0) (n : Nat) :
    ∃ k, Follows k
      (f_send (blocks.length + (n + 2)) filename (.ok (.opened (blocks.flatten ++ last))))
      (script (chunksOf blocks last)) (sendReturn last) := by
  have hloop := sendLoop_plays hblocks hlast n
  rw [f_send, if_neg hname]
  by_cases hl : last = []
  · subst hl
    have hscript : script (chunksOf blocks []) =
        ((blocks.flatMap fun c => ask ++ chunkEvents c) ++ (ask ++ chunkEvents [])) ++ [] := by
      rw [List.append_nil]
      rfl
    rw [hscript]
    exact (hloop.bind _).follows (.timeout (.ret _))
  · have hscript : script (chunksOf blocks last) =
        ((blocks.flatMap fun c => ask ++ chunkEvents c) ++ (ask ++ chunkEvents last)) ++
          (ask ++ [.send 0]) := by
      rw [chunksOf, if_neg hl, script, List.flatMap_append, List.flatMap_singleton]
      rfl
    rw [hscript, sendReturn, if_neg hl]
    exact (hloop.bind _).follows (.read (.read (.write (.ret _))))

theorem f_receive_follows {room : List Byte → List Byte → Nat} (hroom : Roomy room)
    (chunk : Block 255) {filename : List Byte} (hname : filename.length ≠ 0)
    {cs : List (List Byte)} (hcs : ∀ c ∈ cs, c ≠ [] ∧ c.length ≤ 255) (n : Nat) :
    ∃ k, Follows k (f_receive (cs.length + (n + 1)) room chunk filename none)
      ((script cs).map .dual) ⟨.values 1, some cs.flatten⟩ := by
  have hloop := receiveLoop_plays hroom hcs n [] chunk
  rw [f_receive, if_neg hname, script_eq, List.map_append]
  have hplays := (hloop.bind_ret (f := fun r : List Byte × Bool =>
    (if r.2 then pure ⟨.values 1, some r.1⟩ else pure ⟨.error "timeout", some r.1⟩ :
      Proc Byte Received)) (.done _))
  obtain ⟨k, hk⟩ := hplays.follows (.ret _)
  rw [List.append_nil, List.append_nil] at hk
  exact ⟨_, .discard (.write (.write hk))⟩

/-- With enough rounds for their loops, `f_send` and `f_receive` come to these
    ends, in every run in which each answers within the time-outs of the other. -/
def Ends (room : List Byte → List Byte → Nat) (chunk : Block 255) (sname rname : List Byte)
    (content : List Byte) (sent : LuaReturn) (received : Received) : Prop :=
  ∃ fuel, ∀ m ≥ fuel, ∀ n ≥ fuel,
    (Wire.runs (f_send m sname (.ok (.opened content)))
      (f_receive n room chunk rname none)).Inevitably Wire.Prompt
      (fun w => w.Finished sent received)
      (.start (f_send m sname (.ok (.opened content))) (f_receive n room chunk rname none))

/-- The transfer of a file: both calls succeed, the file received is the one
    sent, and nothing is left on the line. -/
def Transfers (room : List Byte → List Byte → Nat) (chunk : Block 255)
    (sname rname content : List Byte) : Prop :=
  Ends room chunk sname rname content (.values 0) ⟨.values 1, some content⟩

variable {room : List Byte → List Byte → Nat} {sname rname : List Byte}

/-- What `f_send` and `f_receive` come to, for every file. -/
theorem transfer_ends (hroom : Roomy room) (hs : sname.length ≠ 0) (hr : rname.length ≠ 0)
    (chunk : Block 255) (content : List Byte) :
    Ends room chunk sname rname content
      (if content.length % 255 = 0 then .error "timeout" else .values 0)
      ⟨.values 1, some content⟩ := by
  obtain ⟨blocks, last, rfl, hblocks, hlast⟩ := exists_blocks (by decide : 0 < 255) content
  have hlen := length_blocks hblocks
  have hret : (if (blocks.flatten ++ last).length % 255 = 0 then LuaReturn.error "timeout"
      else .values 0) = sendReturn last := by
    rw [List.length_append, hlen, Nat.mul_add_mod, Nat.mod_eq_of_lt hlast]
    simp only [sendReturn, List.length_eq_zero_iff]
  have hcs : (chunksOf blocks last).length ≤ blocks.length + 1 := by
    unfold chunksOf
    split
    · omega
    · exact Nat.le_of_eq List.length_append
  rw [hret]
  refine ⟨blocks.length + 2, fun m hm n hn => ?_⟩
  obtain ⟨m, rfl⟩ := Nat.exists_eq_add_of_le hm
  obtain ⟨n, rfl⟩ := Nat.exists_eq_add_of_le
    (show (chunksOf blocks last).length + 1 ≤ n by omega)
  obtain ⟨i, hsend⟩ := f_send_follows hblocks hlast hs m
  obtain ⟨j, hreceive⟩ := f_receive_follows hroom chunk hr (mem_chunksOf hblocks hlast) n
  rw [flatten_chunksOf] at hreceive
  rw [show blocks.length + 2 + m = blocks.length + (m + 2) by omega,
    show (chunksOf blocks last).length + 1 + n = (chunksOf blocks last).length + (n + 1) by omega]
  exact follows_inevitably hsend hreceive

/-- Two answers to what the calls come to are the same. -/
theorem Ends.unique {chunk : Block 255} {content : List Byte} {sent sent' : LuaReturn}
    {received received' : Received} (h : Ends room chunk sname rname content sent received)
    (h' : Ends room chunk sname rname content sent' received') :
    sent = sent' ∧ received = received' := by
  obtain ⟨fuel, h⟩ := h
  obtain ⟨fuel', h'⟩ := h'
  have hl := Nat.le_max_left fuel fuel'
  have hr := Nat.le_max_right fuel fuel'
  obtain ⟨w, hw, hw'⟩ := (h _ hl _ hl).common (fun w a w' hw => hw.no_step)
    (fun w a w' hw => hw.no_step) (h' _ hr _ hr)
  rw [Wire.Finished.eq_1, hw] at hw'
  simpa using hw'

/-- A file is transferred exactly when it is not made of whole chunks: at the
    end of such a file, an empty one among them, `f_send` has not met the end
    of the file yet, sends an empty chunk for it and waits in vain for the
    receiver to ask for the last one. -/
theorem transfers_iff (hroom : Roomy room) (hs : sname.length ≠ 0) (hr : rname.length ≠ 0)
    (chunk : Block 255) (content : List Byte) :
    Transfers room chunk sname rname content ↔ content.length % 255 ≠ 0 := by
  have hends := transfer_ends hroom hs hr chunk content
  by_cases h : content.length % 255 = 0
  · rw [if_pos h] at hends
    refine ⟨fun htransfers => ?_, fun hne => absurd h hne⟩
    cases (hends.unique htransfers).1
  · rw [if_neg h] at hends
    exact ⟨fun _ => h, fun _ => hends⟩

/-- Three bytes arrive. -/
theorem transfers_three_bytes :
    Transfers (fun _ block => block.length) (freshBlock 255) (chars "a.lua") (chars "b.lua")
      [1, 0, 3] :=
  (transfers_iff (fun _ _ => Nat.le_refl _) (by decide) (by decide) _ _).mpr (by decide)

/-- A file of 255 bytes is received, but its sender ends with an error. -/
theorem not_transfers_whole_chunk :
    ¬ Transfers (fun _ block => block.length) (freshBlock 255) (chars "a.lua") (chars "b.lua")
      (List.replicate 255 7) := by
  intro h
  have hends : Ends (fun _ block => block.length) (freshBlock 255) (chars "a.lua") (chars "b.lua")
      (List.replicate 255 7) _ _ :=
    transfer_ends (fun _ _ => Nat.le_refl _) (by decide) (by decide) _ _
  rw [List.length_replicate] at hends
  cases (hends.unique h).1

end Transfer

end FileTransfer
end LuaRtos.Lua
