/-
  LuaRtos.Ymodem.Start

  The start of a session of `Ymodem_Transmit` and `Ymodem_Receive`.

  The two are parties of the handshake: where no step is hurried the header is
  accepted.  A receiver that has called before the sender starts makes it fail,
  because the sender does not throw away what it has received and calls first
  itself.
-/

import LuaRtos.Ymodem.Handshake

namespace LuaRtos.Ymodem

open CLib Link

/-! ## The sender -/

section Sender

variable (fuel : Nat) (packet_data : PacketData) (sendFileName : List Byte) (sizeFile : Nat)
  (ffd : InFile)

/-- `Ymodem_Transmit` after its wait for a receiver. -/
def heardFrom (r : Nat × Option Byte) : Proc Byte Int :=
  if r.1 ≥ 45 ∨ r.2 ≠ some CRC16 then do
    send_CA
    return -1
  else transmitHeader fuel packet_data sendFileName sizeFile ffd

/-- The sender about to call, after `i` time-outs. -/
def calls (i : Nat) : Proc Byte Int :=
  Proc.loop waitReceiver (46 - i) i >>= heardFrom fuel packet_data sendFileName sizeFile ffd

/-- The sender listening after a call. -/
def listens (i : Nat) : Proc Byte Int :=
  .read fun
    | some receivedC => heardFrom fuel packet_data sendFileName sizeFile ffd (i, some receivedC)
    | none => calls fuel packet_data sendFileName sizeFile ffd (i + 1)

/-- The first 'C' that is read is taken. -/
theorem heardFrom_eq {i : Nat} (hi : i < 45) :
    heardFrom fuel packet_data sendFileName sizeFile ffd (i, some CRC16) =
      transmitHeader fuel packet_data sendFileName sizeFile ffd := by
  apply if_neg
  rintro (hlimit | hne)
  · exact absurd hlimit (Nat.not_le.mpr hi)
  · exact hne rfl

theorem transmit_eq_calls : Ymodem_Transmit fuel packet_data sendFileName sizeFile ffd =
    calls fuel packet_data sendFileName sizeFile ffd 0 := rfl

theorem calls_eq {i : Nat} (hi : i < 45) : calls fuel packet_data sendFileName sizeFile ffd i =
    .write CRC16 (listens fuel packet_data sendFileName sizeFile ffd i) := by
  have hrounds : 46 - i = (46 - (i + 1)) + 1 := by omega
  unfold calls
  rw [hrounds, Proc.loop_succ]
  show Proc.write CRC16 (.read _) = Proc.write CRC16 (.read _)
  congr 2
  funext b
  cases b with
  | some c => rfl
  | none =>
    show ((if i < 45 then _ else _ : Proc Byte _) >>= _) >>= _ = _
    rw [if_pos hi]
    rfl

/-- The header packet, and the wait for its acknowledgement. -/
theorem transmitHeader_eq {name : List Byte} (hname : nul ∉ name) (post : List Byte)
    (hsize : sizeFile < 2147483648) (hfits : HeaderFits name sizeFile) :
    ∃ F : Response → Proc Byte Int,
      F .ok = transmitFile (fuel + 1)
        (packetOf SOH 0 (headerBlock name sizeFile) ++ packet_data.bytes.drop 133) sizeFile ffd ∧
      F .wrong = (send_CA >>= fun _ => .ret (-2)) ∧
      transmitHeader (fuel + 1) packet_data (name ++ nul :: post) sizeFile ffd =
        Proc.puts (packetOf SOH 0 (headerBlock name sizeFile)) >>= fun _ =>
          Ymodem_WaitResponse ACK 10 >>= F := by
  unfold transmitHeader
  rw [prepareIntialPacket_eq packet_data hname post hsize hfits]
  dsimp only
  rw [take_packetOf SOH 0 (length_headerBlock hfits), sendUntilAck]
  simp only [Proc.bind_bind]
  exact ⟨_, rfl, rfl, rfl⟩

/-- The sender that waits for the acknowledgement goes on with it, takes a 'C'
    for a wrong answer, or waits for one time-out less. -/
theorem waitResponse_eq (F : Response → Proc Byte Int) (t : Nat) :
    ∃ k, Ymodem_WaitResponse ACK (t + 1) >>= F = .read k ∧ k (some ACK) = F .ok ∧
      k (some CRC16) = F .wrong ∧ k none = Ymodem_WaitResponse ACK t >>= F :=
  ⟨_, rfl, rfl, rfl, rfl⟩

end Sender

/-! ## The receiver -/

section Receiver

variable (room : List Byte → List Byte → Nat) (maxsize : Nat) (getname : Option Nat)

/-- A round of the receiver that has received nothing of a packet, and the
    `n` rounds after it. -/
def unheard (n : Nat) (s : Receiver) : Proc Byte SessionEnd :=
  countError s MAX_ERRORS (-8) send_CRC16 id >>=
    Sum.elim (Proc.loop (sessionRound room maxsize getname) n) .ret

theorem unheard_eq (n : Nat) {s : Receiver} (herrors : s.errors + 1 ≤ MAX_ERRORS) :
    unheard room maxsize getname n s =
      .write CRC16 (Proc.loop (sessionRound room maxsize getname) n
        { s with errors := s.errors + 1 }) := by
  unfold unheard countError
  dsimp only
  rw [if_neg (Nat.not_lt.mpr herrors)]
  rfl

/-- The receiver that waits for a packet: a time-out makes it call, and so does a
    call of the sender, after what was received is thrown away. -/
theorem sessionLoop_eq (n : Nat) {s : Receiver} (heof : s.eof_cnt = 0) :
    ∃ k, Proc.loop (sessionRound room maxsize getname) (n + 1) s = .read k ∧
      k none = unheard room maxsize getname n s ∧
      k (some CRC16) = .discard (unheard room maxsize getname n s) := by
  have hcall : ¬ s.eof_cnt > 1 := by
    rw [heof]
    decide
  refine ⟨_, rfl, ?_, ?_⟩
  · show ((if s.eof_cnt > 1 then _ else _ : Proc Byte (Receiver ⊕ SessionEnd)) >>= _) = _
    rw [if_neg hcall]
    rfl
  · show Proc.discard
      ((if s.eof_cnt > 1 then _ else _ : Proc Byte (Receiver ⊕ SessionEnd)) >>= _) = _
    rw [if_neg hcall]
    rfl

end Receiver

/-! ## The handshake of the two -/

section Session

variable (room : List Byte → List Byte → Nat) (maxsize : Nat) (packet_data : PacketData)
  (data : PacketData) (name post : List Byte) (size : Nat) (ffd : InFile) (r m n : Nat)

/-- The receiver has accepted the header packet: it has the name and the size, and
    waits for the first packet of the file. -/
structure Accepted (s : Receiver) : Prop where
  packets : s.packets_received = 1
  name : s.name = name
  size : s.size = size
  errors : s.errors = 0

/-- The receiver has accepted the header packet, of which it hears nothing more, and
    the sender has read the acknowledgement: the 'C' that comes with it is about to
    be written, or first on the line. -/
def HeaderAccepted (p : Wire Byte Int SessionEnd × Tally) : Prop :=
  ∃ s, Accepted name size s ∧
    p.1.left.proc = transmitFile m
      (packetOf SOH 0 (headerBlock name size) ++ packet_data.bytes.drop 133) size ffd ∧
    p.1.right.pending = [] ∧
    (p.1.right.proc = .write CRC16 (Proc.loop (sessionRound room maxsize (some r)) n s) ∧
        p.1.left.pending = [] ∨
      (Proc.loop (sessionRound room maxsize (some r)) n s).Unanswered p.1.right.proc ∧
        ∃ bs, p.1.left.pending = CRC16 :: bs)

/-- The program of the sender, with a name of the file system. -/
abbrev sending : Proc Byte Int :=
  Ymodem_Transmit (m + 1) packet_data (name ++ nul :: post) size ffd

/-- The program of the receiver. -/
abbrev receiving : Proc Byte SessionEnd :=
  Ymodem_Receive room maxsize (some r) (n + 2) data

variable {maxsize name size r}

/-- The round of the receiver that accepts the header packet. -/
theorem sessionLoop_header {s : Receiver} (hdata : s.packet_data = data.bytes)
    (hfirst : s.packets_received = 0) (heof : s.eof_cnt = 0) (hnone : s.name = [])
    (hname : nul ∉ name) (hne : name ≠ []) (hr : name.length < r) (hpos : 0 < size)
    (hmax : size ≤ maxsize) (hsize : size < 2147483648) (hfits : HeaderFits name size) :
    ∃ s', Accepted name size s' ∧
      Plays (.loop (sessionRound room maxsize (some r)) (n + 1) s)
        ((packetOf SOH 0 (headerBlock name size)).map .recv ++ [.send ACK, .send CRC16])
        (.loop (sessionRound room maxsize (some r)) n s') := by
  obtain ⟨data', hplays⟩ := sessionRound_header room maxsize hdata hfirst heof hnone hname hne hr
    hpos hmax hsize hfits
  have hscript : (acked (packetOf SOH 0 (headerBlock name size)) ++ [Event.recv CRC16]).map
        Event.dual =
      (packetOf SOH 0 (headerBlock name size)).map Event.recv ++
        [Event.send ACK, Event.send CRC16] := by
    simp [acked]
  rw [hscript] at hplays
  have hround := hplays.loop_inl (.done (.loop (sessionRound room maxsize (some r)) n _))
  rw [List.append_nil] at hround
  exact ⟨_, ⟨rfl, rfl, rfl, rfl⟩, hround⟩

/-- A receiver that waits for a packet, or has no rounds left, neither writes nor
    throws anything away. -/
theorem sessionLoop_rests (s : Receiver) :
    (Proc.loop (sessionRound room maxsize (some r)) n s).writes = false ∧
      (Proc.loop (sessionRound room maxsize (some r)) n s).discards = false := by
  cases n with
  | zero => exact ⟨rfl, rfl⟩
  | succ n => exact ⟨rfl, rfl⟩

/-- The variables of the receiver after its first call. -/
def called : Receiver := { Receiver.start data with errors := 1 }

/-- The two programs are parties of the handshake. -/
theorem exists_parties (hname : nul ∉ name) (hne : name ≠ []) (hr : name.length < r)
    (hpos : 0 < size) (hmax : size ≤ maxsize) (hsize : size < 2147483648)
    (hfits : HeaderFits name size) : ∃ P : Parties,
      P.calls 0 = sending packet_data name post size ffd m ∧
      P.waits = receiving room maxsize data r n ∧
      ∀ p, P.Shaken p → HeaderAccepted room maxsize packet_data name size ffd r (m + 1) n p := by
  obtain ⟨F, hok, -, hheader⟩ := transmitHeader_eq m packet_data size ffd hname post hsize hfits
  obtain ⟨s', haccepted, hplays⟩ := sessionLoop_header room data n (s := called data) rfl rfl rfl
    rfl hname hne hr hpos hmax hsize hfits
  obtain ⟨k₀, hwaits, hnone, hcall⟩ := sessionLoop_eq room maxsize (some r) (n + 1)
    (s := .start data) rfl
  obtain ⟨k₁, hcalled, -⟩ := sessionLoop_eq room maxsize (some r) n (s := called data) rfl
  refine ⟨{
    packet := packetOf SOH 0 (headerBlock name size)
    calls := calls (m + 1) packet_data (name ++ nul :: post) size ffd
    listens := listens (m + 1) packet_data (name ++ nul :: post) size ffd
    waiting := fun t => Ymodem_WaitResponse ACK t >>= F
    accepted := F .ok
    waits := receiving room maxsize data r n
    unheard := unheard room maxsize (some r) (n + 1) (.start data)
    called := .loop (sessionRound room maxsize (some r)) (n + 1) (called data)
    taken := .loop (sessionRound room maxsize (some r)) n s'
    calls_eq := fun i hi => calls_eq _ _ _ _ _ hi
    listens_eq := fun i hi => ⟨_, rfl, rfl, (heardFrom_eq _ _ _ _ _ hi).trans hheader⟩
    waiting_eq := fun t => ?_
    waits_eq := ⟨k₀, hwaits, hnone, hcall⟩
    unheard_eq := unheard_eq room maxsize (some r) (n + 1) (Nat.one_le_of_lt (Nat.zero_lt_succ 44))
    called_eq := ⟨k₁, hcalled⟩
    header := hplays
    taken_rests := sessionLoop_rests room n s' }, rfl, rfl, ?_⟩
  · obtain ⟨k, hk, hack, -, htimeout⟩ := waitResponse_eq F t
    exact ⟨k, hk, hack, htimeout⟩
  · rintro p ⟨hleft, hline⟩
    exact ⟨s', haccepted, hleft.trans hok, hline⟩

/-- Whichever of the two starts first, and however often the sender times out
    first: where no step brings about a second 'C', the receiver accepts the header
    packet and the sender its acknowledgement. -/
theorem header_accepted (hname : nul ∉ name) (hne : name ≠ []) (hr : name.length < r)
    (hpos : 0 < size) (hmax : size ≤ maxsize) (hsize : size < 2147483648)
    (hfits : HeaderFits name size) :
    (startRuns (sending packet_data name post size ffd m)
      (receiving room maxsize data r n)).Inevitably Unhurried
      (HeaderAccepted room maxsize packet_data name size ffd r (m + 1) n)
      (.start (sending packet_data name post size ffd m) (receiving room maxsize data r n),
        ⟨false, 0, 0, 0⟩) := by
  obtain ⟨P, hcalls, hwaits, hshaken⟩ := exists_parties room packet_data data post ffd m n hname
    hne hr hpos hmax hsize hfits
  rw [← hcalls, ← hwaits]
  exact P.shaken_inevitably.mono hshaken

/-! ## A receiver that has called before the sender starts -/

section Hurried

variable {p : Wire Byte Int SessionEnd × Tally} {P : Proc Byte Int} {Q : Proc Byte SessionEnd}
  {e : End Byte Int} {f : End Byte SessionEnd} {bs : List Byte} {t : Tally}

theorem reach_left (mv : Move) (h : (startRuns P Q).Reach WithinLimits p)
    (hok : WithinLimits p (.left mv)) (hmove : p.1.left.move mv = some (e, bs)) :
    (startRuns P Q).Reach WithinLimits (⟨e, p.1.right.post bs⟩, Tally.next p.1 (.left mv) p.2) :=
  .step h hok (step_left hmove)

theorem reach_right (mv : Move) (h : (startRuns P Q).Reach WithinLimits p)
    (hok : WithinLimits p (.right mv)) (hmove : p.1.right.move mv = some (f, bs)) :
    (startRuns P Q).Reach WithinLimits (⟨p.1.left.post bs, f⟩, Tally.next p.1 (.right mv) p.2) :=
  .step h hok (step_right hmove)

/-- The sender writes a packet. -/
theorem reach_puts {P' : Proc Byte Int} {queue flight : List Byte} (ht : t.heard = true)
    (h : (startRuns P Q).Reach WithinLimits
      (⟨⟨Proc.puts bs >>= fun _ => P', queue, flight⟩, f⟩, t)) :
    (startRuns P Q).Reach WithinLimits (⟨⟨P', queue, flight⟩, f.post bs⟩, t) := by
  induction bs generalizing f with
  | nil =>
    rw [End.post_nil]
    exact h
  | cons b bs ih =>
    have hwrite := reach_left .act h trivial (End.move_write rfl)
    have hnext : Tally.next ⟨⟨Proc.puts (b :: bs) >>= fun _ => P', queue, flight⟩, f⟩
        (.left .act) t = t := by
      obtain ⟨heard, early, late, errors⟩ := t
      cases ht
      rfl
    rw [hnext] at hwrite
    have hpost : f.post (b :: bs) = (f.post [b]).post bs := by
      simp [End.post]
    rw [hpost]
    exact ih hwrite

/-- A receiver that has called once when the sender starts: the sender calls, takes
    the old 'C' and sends its header, the receiver throws the call away and calls
    again, and the sender gives up at the second 'C'. -/
theorem reach_aborts {packet : List Byte} {k k' : Option Byte → Proc Byte Int}
    {l l' : Option Byte → Proc Byte SessionEnd} {Q : Proc Byte SessionEnd}
    (hheader : k (some CRC16) = Proc.puts packet >>= fun _ => .read k')
    (hbad : k' (some CRC16) = send_CA >>= fun _ => .ret (-2))
    (hcall : l none = .write CRC16 (.read l'))
    (hagain : l' (some CRC16) = .discard (.write CRC16 Q)) :
    ∃ p, (startRuns (.write CRC16 (.read k)) (.read l)).Reach WithinLimits p ∧
      p.1.left.proc = .ret (-2) := by
  -- the receiver calls
  have h₁ := reach_right (P := .write CRC16 (.read k)) (Q := .read l) .timeout (.init rfl)
    (show 0 + 1 ≤ MAX_ERRORS by decide) (End.move_timeout rfl rfl)
  rw [hcall] at h₁
  have h₂ := reach_right .act h₁ nofun (End.move_write rfl)
  have h₃ : (startRuns _ _).Reach WithinLimits
      (⟨⟨.write CRC16 (.read k), [CRC16], []⟩, ⟨.read l', [], []⟩⟩, ⟨false, 0, 0, 1⟩) :=
    reach_left .arrive h₂ trivial (End.move_arrive rfl)
  -- the sender calls, and takes the 'C' that has come
  have h₄ := reach_left .act h₃ trivial (End.move_write rfl)
  have h₅ : (startRuns _ _).Reach WithinLimits
      (⟨⟨k (some CRC16), [], []⟩, ⟨.read l', [], [CRC16]⟩⟩, ⟨true, 0, 0, 1⟩) :=
    reach_left .act h₄ trivial (End.move_read rfl rfl)
  rw [hheader] at h₅
  have h₆ := reach_puts rfl h₅
  -- the receiver takes the sender's 'C', and calls again
  have h₇ := reach_right .arrive h₆ trivial (End.move_arrive rfl)
  have h₈ : (startRuns _ _).Reach WithinLimits
      (⟨⟨.read k', [], []⟩, ⟨l' (some CRC16), [], packet⟩⟩, ⟨true, 0, 0, 1⟩) :=
    reach_right .act h₇ nofun (End.move_read rfl rfl)
  rw [hagain] at h₈
  have h₉ := reach_right .act h₈ (fun _ => show 1 + 1 ≤ MAX_ERRORS by decide)
    (End.move_discard rfl)
  have h₁₀ : (startRuns _ _).Reach WithinLimits
      (⟨⟨.read k', [], [CRC16]⟩, ⟨Q, [], packet⟩⟩, ⟨true, 0, 0, 2⟩) :=
    reach_right .act h₉ nofun (End.move_write rfl)
  -- which the sender takes for a wrong answer
  have h₁₁ := reach_left .arrive h₁₀ trivial (End.move_arrive rfl)
  have h₁₂ := reach_left .act h₁₁ trivial (End.move_read rfl rfl)
  rw [hbad] at h₁₂
  exact ⟨_, reach_puts rfl h₁₂, rfl⟩

end Hurried

/-- So no file is sent to a receiver that has called before. -/
theorem sender_aborts (hname : nul ∉ name) (hsize : size < 2147483648)
    (hfits : HeaderFits name size) :
    ∃ p, (startRuns (sending packet_data name post size ffd m)
        (receiving room maxsize data r n)).Reach WithinLimits p ∧
      p.1.left.proc = .ret (-2) := by
  obtain ⟨F, -, hwrong, hheader⟩ := transmitHeader_eq m packet_data size ffd hname post hsize hfits
  obtain ⟨k₀, hwaits, hnone, -⟩ := sessionLoop_eq room maxsize (some r) (n + 1)
    (s := .start data) rfl
  obtain ⟨k₁, hcalled, -, hcall⟩ := sessionLoop_eq room maxsize (some r) n (s := called data) rfl
  have hfirst := unheard_eq room maxsize (some r) (n + 1) (s := .start data)
    (show 0 + 1 ≤ MAX_ERRORS by decide)
  have hsecond := unheard_eq room maxsize (some r) n (s := called data)
    (show 1 + 1 ≤ MAX_ERRORS by decide)
  have hcalls := calls_eq (m + 1) packet_data (name ++ nul :: post) size ffd
    (show 0 < 45 by decide)
  obtain ⟨k₂, hwaiting, -, hbad, -⟩ := waitResponse_eq F 9
  have hsend : sending packet_data name post size ffd m = .write CRC16 (.read _) := hcalls
  have hreceive : receiving room maxsize data r n = .read k₀ := hwaits
  rw [hsend, hreceive]
  rw [hwaiting] at hheader
  exact reach_aborts ((heardFrom_eq _ _ _ _ _ (show 0 < 45 by decide)).trans hheader)
    (hbad.trans hwrong) (hnone.trans (hfirst.trans (congrArg _ hcalled)))
    (hcall.trans (congrArg _ hsecond))

end Session

/-- One byte under the name "a", with the buffers of the callers. -/
theorem header_accepted_one_byte :
    (startRuns (sending (freshBlock 1029) (chars "a") [] 1 (.opened [7]) 4)
      (receiving (fun _ block => block.length) (10 * 1024 * 1024) (freshBlock 1029) 128
        4)).Inevitably
      Unhurried
      (HeaderAccepted (fun _ block => block.length) (10 * 1024 * 1024) (freshBlock 1029)
        (chars "a") 1 (.opened [7]) 128 5 4)
      (.start (sending (freshBlock 1029) (chars "a") [] 1 (.opened [7]) 4)
        (receiving (fun _ block => block.length) (10 * 1024 * 1024) (freshBlock 1029) 128 4),
        ⟨false, 0, 0, 0⟩) := by
  have hlen : (formatD (1 : Nat)).length ≤ 1 := length_formatD_le (by decide) (by decide)
  have hfits : HeaderFits (chars "a") 1 := by
    show 1 + 1 + (formatD (1 : Nat)).length + 1 ≤ 128
    omega
  exact header_accepted _ _ _ _ _ _ _ (by decide) (by decide) (by decide) (by decide) (by decide)
    (by decide) hfits

/-- The sender of the same byte gives up when the receiver has called before. -/
theorem sender_aborts_one_byte :
    ∃ p, (startRuns (sending (freshBlock 1029) (chars "a") [] 1 (.opened [7]) 4)
        (receiving (fun _ block => block.length) (10 * 1024 * 1024) (freshBlock 1029) 128 4)).Reach
        WithinLimits p ∧
      p.1.left.proc = .ret (-2) := by
  have hlen : (formatD (1 : Nat)).length ≤ 1 := length_formatD_le (by decide) (by decide)
  have hfits : HeaderFits (chars "a") 1 := by
    show 1 + 1 + (formatD (1 : Nat)).length + 1 ≤ 128
    omega
  exact sender_aborts _ _ _ _ _ _ _ (by decide) (by decide) hfits

end LuaRtos.Ymodem
