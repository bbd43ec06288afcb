/-
  LuaRtos.Ymodem.Written

  What `Ymodem_Receive` has written when it returns a size, against every
  stream of bytes and pauses.

  `Delivery` says what the packets of a stream amount to, without the receiver:
  the size that the header announces, and the bytes of the data packets that
  come in sequence before the end of the file is told twice.  The receiver
  returns the size announced and has written the bytes, cut to that size.  It
  does not ask whether all of them have come.
-/

import LuaRtos.Ymodem.Transfer

namespace LuaRtos.Ymodem

open CLib Link

/-- The packets that a stream of outcomes of reads is cut into, with the buffer
    after each. -/
def packets : Nat → List Byte → List (Option Byte) → List (Packet × List Byte)
  | 0, _, _ => []
  | n + 1, data, reads =>
    match (Receive_Packet data).run reads with
    | none => []
    | some ((packet, data'), rest) => (packet, data') :: packets n data' rest

/-- What the packets of a session amount to: how many were accepted, how often
    the end of the file was told, the size announced, and the bytes of the data
    packets accepted. -/
structure Delivery where
  count : Nat
  eofs : Nat
  size : Nat
  payload : List Byte
deriving DecidableEq, Repr

namespace Delivery

/-- Nothing yet. -/
def empty : Delivery := ⟨0, 0, 0, []⟩

/-- The size that a header packet announces, which is none where its name is
    empty. -/
def announced (data : List Byte) : Nat :=
  if data.getD PACKET_HEADER 0 ≠ 0 then (headerSize data).toOption.getD 0 else 0

theorem announced_lt (data : List Byte) : announced data < 4294967296 := by
  unfold announced
  split
  · cases h : headerSize data with
    | error e => exact Nat.zero_lt_succ _
    | ok size =>
      obtain ⟨name, -, h⟩ := bind_eq_ok.mp h
      obtain ⟨field, -, h⟩ := bind_eq_ok.mp h
      obtain ⟨file_size, -, h⟩ := bind_eq_ok.mp h
      cases h
      show (if _ then _ else _) < _
      split
      · exact BitVec.isLt _
      · exact Nat.zero_lt_succ _
  · exact Nat.zero_lt_succ _

/-- One more packet.  It is accepted if its number is the next one and the file
    has not ended; the first one is the header. -/
def next (d : Delivery) : Packet × List Byte → Delivery
  | (.eot, _) => { d with eofs := d.eofs + 1 }
  | (.packet len, data) =>
    if d.eofs > 1 ∨ (data.getD 1 0).toNat ≠ d.count % 256 then d
    else if d.count = 0 then { d with count := 1, size := announced data }
    else { d with
      count := d.count + 1
      payload := d.payload ++ (data.drop PACKET_HEADER).take len }
  | _ => d

/-- The packets of a stream, the buffer of the receiver being `data` before. -/
def ofStream (data : List Byte) (reads : List (Option Byte)) : Delivery :=
  (packets reads.length data reads).foldl next empty

/-- After the end of the file nothing is accepted. -/
theorem foldl_of_eofs {d : Delivery} (h : d.eofs > 1) (ps : List (Packet × List Byte)) :
    (ps.foldl next d).count = d.count ∧ (ps.foldl next d).size = d.size ∧
      (ps.foldl next d).payload = d.payload := by
  induction ps generalizing d with
  | nil => exact ⟨rfl, rfl, rfl⟩
  | cons p ps ih =>
    obtain ⟨packet, data⟩ := p
    have hstep : (d.next (packet, data)).eofs > 1 ∧ (d.next (packet, data)).count = d.count ∧
        (d.next (packet, data)).size = d.size ∧ (d.next (packet, data)).payload = d.payload := by
      cases packet with
      | eot => exact ⟨Nat.lt_succ_of_lt h, rfl, rfl, rfl⟩
      | packet len =>
        dsimp only [next]
        rw [if_pos (.inl h)]
        exact ⟨h, rfl, rfl, rfl⟩
      | _ => exact ⟨h, rfl, rfl, rfl⟩
    obtain ⟨heofs, hcount, hsize, hpayload⟩ := hstep
    obtain ⟨hcount', hsize', hpayload'⟩ := ih heofs
    exact ⟨hcount'.trans hcount, hsize'.trans hsize, hpayload'.trans hpayload⟩

theorem le_count_next (d : Delivery) (p : Packet × List Byte) : d.count ≤ (d.next p).count := by
  obtain ⟨packet, data⟩ := p
  cases packet with
  | packet len =>
    dsimp only [next]
    split
    · exact Nat.le_refl _
    · split
      · next h => exact h ▸ Nat.zero_le 1
      · exact Nat.le_succ _
  | _ => exact Nat.le_refl _

theorem le_count_foldl (d : Delivery) (ps : List (Packet × List Byte)) :
    d.count ≤ (ps.foldl next d).count := by
  induction ps generalizing d with
  | nil => exact Nat.le_refl _
  | cons p ps ih => exact Nat.le_trans (le_count_next d p) (ih _)

theorem count_next_le (d : Delivery) (p : Packet × List Byte) : (d.next p).count ≤ d.count + 1 := by
  obtain ⟨packet, data⟩ := p
  cases packet with
  | packet len =>
    dsimp only [next]
    split
    · exact Nat.le_succ _
    · split
      · exact Nat.le_add_left ..
      · exact Nat.le_refl _
  | _ => exact Nat.le_succ _

theorem length_packets_le (n : Nat) (data : List Byte) (reads : List (Option Byte)) :
    (packets n data reads).length ≤ n := by
  induction n generalizing data reads with
  | zero => exact Nat.le_refl 0
  | succ n ih =>
    unfold packets
    split
    · exact Nat.zero_le _
    · exact Nat.succ_le_succ (ih ..)

/-- No more packets are accepted than there are outcomes of reads. -/
theorem count_ofStream_le (data : List Byte) (reads : List (Option Byte)) :
    (ofStream data reads).count ≤ reads.length := by
  have hfold : ∀ (ps : List (Packet × List Byte)) (d : Delivery),
      (ps.foldl next d).count ≤ d.count + ps.length := by
    intro ps
    induction ps with
    | nil => exact fun d => Nat.le_refl _
    | cons p ps ih =>
      intro d
      have hnext := count_next_le d p
      have hrest := ih (d.next p)
      rw [List.foldl_cons, List.length_cons]
      omega
  have hlen := length_packets_le reads.length data reads
  have hcount := hfold (packets reads.length data reads) empty
  rw [show (empty : Delivery).count = 0 from rfl, Nat.zero_add] at hcount
  exact Nat.le_trans hcount hlen

end Delivery

/-! ## The receiver keeps to the delivery -/

/-- The variables of the receiver for what was delivered so far.  The file is
    the payload cut to the size, for a size that an `int` can return. -/
structure Receiver.Keeps (s : Receiver) (d : Delivery) : Prop where
  count : s.packets_received = d.count
  eofs : s.eof_cnt = d.eofs
  size : s.size = d.size
  bound : d.size < 4294967296
  fresh : d.count = 0 → d.size = 0 ∧ d.payload = []
  file : d.size < 2147483648 →
    s.file = d.payload.take d.size ∧ s.file_len = min d.size d.payload.length

section Rounds

variable {room : List Byte → List Byte → Nat} {maxsize : Nat} {getname : Option Nat}
  {s : Receiver} {d : Delivery} {rs rs' : List (Option Byte)} {r : Receiver ⊕ SessionEnd}

theorem Receiver.Keeps.start (packet_data : PacketData) :
    (Receiver.start packet_data).Keeps .empty :=
  ⟨rfl, rfl, rfl, by decide, fun _ => ⟨rfl, rfl⟩, fun _ => ⟨rfl, rfl⟩⟩

/-- The number of errors and the buffer do not matter. -/
theorem Receiver.Keeps.congr {s' : Receiver} (h : s.Keeps d)
    (hs : s' = { s with errors := s'.errors, packet_data := s'.packet_data }) : s'.Keeps d := by
  rw [hs]
  exact ⟨h.count, h.eofs, h.size, h.bound, h.fresh, h.file⟩

/-- An error ends the session with its value or is counted. -/
theorem countError_run {limit : Nat} {ret : Int} {answer : Proc Byte Unit}
    {next : Receiver → Receiver} (hanswer : answer = send_NAK ∨ answer = send_CRC16)
    (h : (countError s limit ret answer next).run rs = some (r, rs')) :
    rs' = rs ∧ (r = .inr (s.exit ret) ∨ r = .inl (next { s with errors := s.errors + 1 })) := by
  have hwrites : answer.run rs = some ((), rs) := by
    rcases hanswer with rfl | rfl
    · rfl
    · rfl
  unfold countError at h
  dsimp only at h
  split at h
  · simp only [send_CA, Proc.run_puts_bind, Proc.pure_eq_ret, Proc.run_ret, Option.some.injEq,
      Prod.mk.injEq] at h
    obtain ⟨rfl, rfl⟩ := h
    exact ⟨rfl, .inl rfl⟩
  · rw [Proc.run_bind, hwrites] at h
    simp only [Option.bind_some, Proc.pure_eq_ret, Proc.run_ret, Option.some.injEq,
      Prod.mk.injEq] at h
    obtain ⟨rfl, rfl⟩ := h
    exact ⟨rfl, .inr rfl⟩

/-- A round goes on with variables that keep to the delivery, or ends with an
    error. -/
def RoundEnds (d : Delivery) (data : List Byte) : Receiver ⊕ SessionEnd → Prop
  | .inl s => s.Keeps d ∧ s.packet_data = data
  | .inr e => e.ret ≤ 0

/-- A header packet, which is the first one accepted. -/
theorem headerPacket_run (hk : s.Keeps d) (hfirst : d.count = 0)
    (h : (headerPacket maxsize getname s).run rs = some (r, rs')) :
    rs' = rs ∧ RoundEnds { d with count := 1, size := Delivery.announced s.packet_data }
      s.packet_data r := by
  obtain ⟨hsize, hpayload⟩ := hk.fresh hfirst
  have hfile := hk.file (by omega)
  have hreceived : u32 (s.packets_received + 1) = 1 := by
    rw [hk.count, hfirst]
    rfl
  unfold headerPacket at h
  split at h
  · next hvalid =>
    split at h
    · next name size hname hheader =>
      have hannounced : Delivery.announced s.packet_data = size := by
        rw [Delivery.announced, if_pos hvalid, hheader]
        rfl
      dsimp only at h
      split at h
      · next hbad =>
        simp only [send_CA, Proc.run_puts_bind, Proc.pure_eq_ret, Proc.run_ret,
          Option.some.injEq, Prod.mk.injEq] at h
        obtain ⟨rfl, rfl⟩ := h
        refine ⟨rfl, ?_⟩
        show (if size > maxsize then (-9 : Int) else -4) ≤ 0
        split <;> decide
      · simp only [send_ACKCRC16, Proc.run_puts_bind, Proc.pure_eq_ret, Proc.run_ret,
          Option.some.injEq, Prod.mk.injEq] at h
        obtain ⟨rfl, rfl⟩ := h
        refine ⟨rfl, ⟨hreceived, hk.eofs, hannounced.symm, Delivery.announced_lt _,
          fun h0 => absurd h0 Nat.one_ne_zero, fun _ => ⟨?_, ?_⟩⟩, rfl⟩
        · show s.file = d.payload.take (Delivery.announced s.packet_data)
          rw [hfile.1, hpayload, List.take_nil, List.take_nil]
        · show 0 = min (Delivery.announced s.packet_data) d.payload.length
          rw [hpayload, List.length_nil, Nat.min_zero]
    · simp at h
  · next hvalid =>
    obtain ⟨rfl, hr⟩ := countError_run (.inl rfl) h
    refine ⟨rfl, ?_⟩
    rcases hr with rfl | rfl
    · show (-5 : Int) ≤ 0
      decide
    · have hannounced : Delivery.announced s.packet_data = d.size := by
        rw [Delivery.announced, if_neg hvalid, hsize]
      refine ⟨⟨hreceived, hk.eofs, hk.size.trans hannounced.symm, Delivery.announced_lt _,
        fun h0 => absurd h0 Nat.one_ne_zero, fun _ => ?_⟩, rfl⟩
      show s.file = d.payload.take (Delivery.announced s.packet_data) ∧
        s.file_len = min (Delivery.announced s.packet_data) d.payload.length
      rw [hannounced]
      exact hfile

/-- What a block adds to a file that is shorter than its size. -/
theorem take_append_block {payload block : List Byte} {size len write_len : Nat}
    (hlt : payload.length < size) (hlen : block.length ≤ len)
    (hwrite : write_len = if payload.length + len > size then len - (payload.length + len - size)
      else len) (hle : write_len ≤ block.length) :
    payload ++ block.take write_len = (payload ++ block).take size ∧
      (if payload.length + len > size then size else payload.length + len) =
        min size (payload ++ block).length := by
  rw [List.take_append, List.take_of_length_le (Nat.le_of_lt hlt), List.length_append]
  split at hwrite
  · next h =>
    have hrest : write_len = size - payload.length := by omega
    rw [if_pos h, hrest]
    exact ⟨rfl, by omega⟩
  · next h =>
    rw [if_neg h, hwrite, List.take_of_length_le hlen, List.take_of_length_le (by omega)]
    exact ⟨rfl, by omega⟩

/-- A data packet. -/
theorem dataPacket_run {len : Nat} (hk : s.Keeps d)
    (hcount : d.count + 1 < 4294967296) (hlen : len ≤ PACKET_1K_SIZE)
    (h : (dataPacket room s len).run rs = some (r, rs')) :
    rs' = rs ∧ RoundEnds { d with
      count := d.count + 1
      payload := d.payload ++ (s.packet_data.drop PACKET_HEADER).take len } s.packet_data r := by
  have h1k : PACKET_1K_SIZE = 1024 := rfl
  have hreceived : u32 (s.packets_received + 1) = d.count + 1 := by
    rw [hk.count, u32]
    omega
  unfold dataPacket at h
  by_cases hlt : s.file_len < s.size
  · rw [if_pos hlt] at h
    dsimp only at h
    generalize hwrite : (if u32 (s.file_len + len) > s.size then
      len - (u32 (s.file_len + len) - s.size) else len) = write_len at h
    generalize hfile_len : (if u32 (s.file_len + len) > s.size then s.size
      else u32 (s.file_len + len)) = file_len at h
    have hle : write_len ≤ len := by
      rw [← hwrite]
      split
      · exact Nat.sub_le ..
      · exact Nat.le_refl _
    by_cases hwritten : (fwrite room s.file ((s.packet_data.drop PACKET_HEADER).take
        write_len)).2 ≠ write_len
    · rw [if_pos hwritten] at h
      simp only [send_CA, Proc.run_puts_bind, Proc.pure_eq_ret, Proc.run_ret,
        Option.some.injEq, Prod.mk.injEq] at h
      obtain ⟨rfl, rfl⟩ := h
      exact ⟨rfl, by show (-6 : Int) ≤ 0; decide⟩
    · rw [if_neg hwritten] at h
      simp only [send_ACK, Proc.put_bind, Proc.run_write, Proc.pure_eq_ret, Proc.run_ret,
        Option.some.injEq, Prod.mk.injEq] at h
      obtain ⟨rfl, rfl⟩ := h
      refine ⟨rfl, ⟨hreceived, hk.eofs, hk.size, hk.bound, fun h0 => absurd h0 (Nat.succ_ne_zero _),
        fun hsize => ?_⟩, rfl⟩
      have hint : d.size < 2147483648 := hsize
      obtain ⟨hfile, hold⟩ := hk.file hint
      rw [hk.size, hold] at hlt
      have hshort : d.payload.length < d.size := by omega
      have hlen_old : s.file_len = d.payload.length := by omega
      have htotal : u32 (s.file_len + len) = d.payload.length + len := by
        rw [hlen_old, u32]
        omega
      have hblock : (s.packet_data.drop PACKET_HEADER).take write_len =
          ((s.packet_data.drop PACKET_HEADER).take len).take write_len := by
        rw [List.take_take, Nat.min_eq_left hle]
      rw [htotal, hk.size] at hwrite hfile_len
      rw [List.take_of_length_le (Nat.le_of_lt hshort)] at hfile
      -- a count that is that of the block means that the block was there in full
      have hall : ((s.packet_data.drop PACKET_HEADER).take write_len).length = write_len := by
        have hmin := not_not.mp hwritten
        have hle' := List.length_take_le write_len (s.packet_data.drop PACKET_HEADER)
        dsimp only [fwrite] at hmin
        omega
      have hadded := fwrite_count ((not_not.mp hwritten).trans hall.symm)
      have hpresent : write_len ≤ ((s.packet_data.drop PACKET_HEADER).take len).length := by
        rw [hblock, List.length_take] at hall
        omega
      obtain ⟨htake, hmin⟩ := take_append_block hshort (List.length_take_le ..) hwrite.symm hpresent
      refine ⟨?_, ?_⟩
      · show (fwrite room s.file ((s.packet_data.drop PACKET_HEADER).take write_len)).1 = _
        rw [hadded, hfile, hblock, htake]
      · exact hfile_len.symm.trans hmin
  · rw [if_neg hlt] at h
    simp only [send_ACK, Proc.put_bind, Proc.run_write, Proc.pure_eq_ret, Proc.run_ret,
      Option.some.injEq, Prod.mk.injEq] at h
    obtain ⟨rfl, rfl⟩ := h
    refine ⟨rfl, ⟨hreceived, hk.eofs, hk.size, hk.bound, fun h0 => absurd h0 (Nat.succ_ne_zero _),
      fun hsize => ?_⟩, rfl⟩
    obtain ⟨hfile, hold⟩ := hk.file hsize
    rw [hk.size, hold] at hlt
    have hlong : d.size ≤ d.payload.length := by omega
    refine ⟨?_, ?_⟩
    · show s.file = (d.payload ++ _).take d.size
      rw [hfile, List.take_append_of_le_length hlong]
    · show s.file_len = min d.size (d.payload ++ _).length
      rw [hold, List.length_append]
      omega

/-- A packet that was read in full. -/
theorem normalPacket_run {len : Nat} (hk : s.Keeps d) (hlen : len ≤ PACKET_1K_SIZE)
    (hcount : (d.next (.packet len, s.packet_data)).count < 4294967296)
    (h : (normalPacket room maxsize getname s len).run rs = some (r, rs')) :
    rs' = rs ∧ RoundEnds (d.next (.packet len, s.packet_data)) s.packet_data r := by
  unfold normalPacket at h
  dsimp only [Delivery.next] at hcount ⊢
  split at h
  · next heof =>
    simp only [send_ACK, Proc.put_bind, Proc.run_write, Proc.pure_eq_ret, Proc.run_ret,
      Option.some.injEq, Prod.mk.injEq] at h
    obtain ⟨rfl, rfl⟩ := h
    rw [if_pos (.inl (hk.eofs ▸ heof))]
    exact ⟨rfl, hk, rfl⟩
  · next heof =>
    rw [hk.eofs] at heof
    split at h
    · next hno =>
      rw [if_pos (.inr (hk.count ▸ hno))]
      obtain ⟨rfl, hr⟩ := countError_run (.inl rfl) h
      refine ⟨rfl, ?_⟩
      rcases hr with rfl | rfl
      · show (-3 : Int) ≤ 0
        decide
      · exact ⟨hk.congr rfl, rfl⟩
    · next hno =>
      have haccepted : ¬ (d.eofs > 1 ∨ (s.packet_data.getD 1 0).toNat ≠ d.count % 256) := by
        rw [← hk.count]
        exact not_or.mpr ⟨heof, hno⟩
      rw [if_neg haccepted] at hcount ⊢
      split at h
      · next hfirst =>
        rw [hk.count] at hfirst
        rw [if_pos hfirst]
        exact headerPacket_run hk hfirst h
      · next hfirst =>
        rw [hk.count] at hfirst
        rw [if_neg hfirst] at hcount ⊢
        exact dataPacket_run hk hcount hlen h

end Rounds

/-- A packet that `Receive_Packet` takes has at most 1024 bytes. -/
theorem receivePacket_length_le {data data' : List Byte} {len : Nat} {rs rs' : List (Option Byte)}
    (h : (Receive_Packet data).run rs = some ((.packet len, data'), rs')) :
    len ≤ PACKET_1K_SIZE := by
  have hbody : ∀ {ch : Byte} {n : Nat} {rs : List (Option Byte)}, n ≤ PACKET_1K_SIZE →
      (receiveBody data ch n).run rs = some ((.packet len, data'), rs') → len ≤ PACKET_1K_SIZE := by
    intro ch n rs hn h
    obtain ⟨⟨buf, complete⟩, rs₁, -, hret⟩ := Proc.run_bind_eq_some.mp h
    cases complete with
    | false => simp at hret
    | true =>
      have hcheck : checkPacket buf n = .packet len := by
        simp only [if_true, Proc.pure_eq_ret, Proc.run_ret, Option.some.injEq,
          Prod.mk.injEq] at hret
        exact hret.1.1
      unfold checkPacket at hcheck
      split at hcheck
      · cases hcheck
      · split at hcheck
        · cases hcheck
        · cases hcheck
          exact hn
  cases rs with
  | nil => simp [Receive_Packet, Proc.run] at h
  | cons r rs =>
    have hfirst : (receiveFirst data r).run rs = some ((.packet len, data'), rs') := h
    cases r with
    | none => simp [receiveFirst] at hfirst
    | some ch =>
      unfold receiveFirst at hfirst
      dsimp only at hfirst
      split at hfirst
      · exact hbody (by decide) hfirst
      split at hfirst
      · exact hbody (Nat.le_refl _) hfirst
      split at hfirst
      · simp at hfirst
      split at hfirst
      · cases rs with
        | nil => simp [Proc.run] at hfirst
        | cons r rs =>
          cases r with
          | none => simp at hfirst
          | some ch =>
            rw [Proc.get_bind, Proc.run_read_cons] at hfirst
            dsimp only at hfirst
            split at hfirst <;> simp at hfirst
      split at hfirst
      · simp at hfirst
      · simp at hfirst

/-- A round against a stream: the packet that is cut off it, and what is made of
    it. -/
theorem sessionRound_run {room : List Byte → List Byte → Nat} {maxsize : Nat}
    {getname : Option Nat} {s : Receiver} {d : Delivery} {rs rs' : List (Option Byte)}
    {r : Receiver ⊕ SessionEnd} (hk : s.Keeps d)
    (h : (sessionRound room maxsize getname s).run rs = some (r, rs')) :
    ∃ packet data rs₁, (Receive_Packet s.packet_data).run rs = some ((packet, data), rs₁) ∧
      ((d.next (packet, data)).count < 4294967296 → rs' = rs₁ ∧
        (RoundEnds (d.next (packet, data)) data r ∨
          d.eofs > 1 ∧ ∃ s' : Receiver, s'.Keeps d ∧ r = .inr (s'.exit (toInt32 s'.size)))) := by
  obtain ⟨⟨packet, data⟩, rs₁, hpacket, hrest⟩ := Proc.run_bind_eq_some.mp h
  refine ⟨packet, data, rs₁, hpacket, fun hcount => ?_⟩
  have hk' : Receiver.Keeps { s with packet_data := data } d := hk.congr rfl
  dsimp only at hrest
  cases packet with
  | senderAbort =>
    simp only [send_ACK, Proc.put_bind, Proc.run_write, Proc.pure_eq_ret, Proc.run_ret,
      Option.some.injEq, Prod.mk.injEq] at hrest
    obtain ⟨rfl, rfl⟩ := hrest
    refine ⟨rfl, .inl ?_⟩
    show (-1 : Int) ≤ 0
    decide
  | error =>
    obtain ⟨rfl, hr⟩ := countError_run (.inl rfl) hrest
    refine ⟨rfl, .inl ?_⟩
    rcases hr with rfl | rfl
    · show (-2 : Int) ≤ 0
      decide
    · exact ⟨hk'.congr rfl, rfl⟩
  | eot =>
    dsimp only at hrest
    split at hrest
    · simp at hrest
    have hends : rs' = rs₁ ∧ r = .inl { s with packet_data := data, eof_cnt := s.eof_cnt + 1 } := by
      split at hrest
      · simp only [send_NAK, Proc.put_bind, Proc.run_write, Proc.pure_eq_ret, Proc.run_ret,
          Option.some.injEq, Prod.mk.injEq] at hrest
        exact ⟨hrest.2.symm, hrest.1.symm⟩
      · simp only [send_ACKCRC16, Proc.run_puts_bind, Proc.pure_eq_ret, Proc.run_ret,
          Option.some.injEq, Prod.mk.injEq] at hrest
        exact ⟨hrest.2.symm, hrest.1.symm⟩
    obtain ⟨rfl, rfl⟩ := hends
    refine ⟨rfl, .inl ⟨⟨hk.count, ?_, hk.size, hk.bound, hk.fresh, hk.file⟩, rfl⟩⟩
    exact congrArg Nat.succ hk.eofs
  | packet len =>
    have hlen := receivePacket_length_le hpacket
    obtain ⟨rfl, hends⟩ := normalPacket_run hk' hlen hcount hrest
    exact ⟨rfl, .inl hends⟩
  | userAbort =>
    simp only [send_CA, Proc.run_puts_bind, Proc.pure_eq_ret, Proc.run_ret,
      Option.some.injEq, Prod.mk.injEq] at hrest
    obtain ⟨rfl, rfl⟩ := hrest
    refine ⟨rfl, .inl ?_⟩
    show (-7 : Int) ≤ 0
    decide
  | timeout =>
    dsimp only at hrest
    split at hrest
    · next heof =>
      simp only [Proc.pure_eq_ret, Proc.run_ret, Option.some.injEq, Prod.mk.injEq] at hrest
      obtain ⟨rfl, rfl⟩ := hrest
      exact ⟨rfl, .inr ⟨hk.eofs ▸ heof, _, hk', rfl⟩⟩
    · obtain ⟨rfl, hr⟩ := countError_run (.inr rfl) hrest
      refine ⟨rfl, .inl ?_⟩
      rcases hr with rfl | rfl
      · show (-8 : Int) ≤ 0
        decide
      · exact ⟨hk'.congr rfl, rfl⟩

/-- A whole session: a size is returned only after the end of the file, and what
    was written until then is what the packets amount to. -/
theorem sessionLoop_run {room : List Byte → List Byte → Nat} {maxsize : Nat}
    {getname : Option Nat} {n m : Nat} {s : Receiver} {d : Delivery}
    {rs rs' : List (Option Byte)} {e : SessionEnd} (hk : s.Keeps d) (hm : rs.length ≤ m)
    (hcount : ((packets m s.packet_data rs).foldl Delivery.next d).count < 4294967296)
    (h : (Proc.loop (sessionRound room maxsize getname) n s).run rs = some (e, rs'))
    (hpos : 0 < e.ret) :
    e.ret = ((packets m s.packet_data rs).foldl Delivery.next d).size ∧
      e.file = ((packets m s.packet_data rs).foldl Delivery.next d).payload.take
        ((packets m s.packet_data rs).foldl Delivery.next d).size := by
  induction n generalizing s d rs m with
  | zero => simp [Proc.loop] at h
  | succ n ih =>
    rw [Proc.loop_succ, Proc.run_bind_eq_some] at h
    obtain ⟨r, rs₁, hround, hrest⟩ := h
    obtain ⟨packet, data, rs₂, hpacket, hends⟩ := sessionRound_run hk hround
    have hlt : rs₂.length < rs.length := Proc.run_read_length_lt hpacket
    cases m with
    | zero => omega
    | succ m =>
      have hpackets : packets (m + 1) s.packet_data rs = (packet, data) :: packets m data rs₂ := by
        rw [packets, hpacket]
      rw [hpackets, List.foldl_cons] at hcount ⊢
      have hle := Delivery.le_count_foldl (d.next (packet, data)) (packets m data rs₂)
      obtain ⟨rfl, hends | ⟨heofs, s', hk', rfl⟩⟩ := hends (by omega)
      · cases r with
        | inl s' =>
          obtain ⟨hk', hdata⟩ := hends
          subst hdata
          exact ih hk' (by omega) hcount hrest
        | inr e' =>
          obtain ⟨rfl, rfl⟩ : e' = e ∧ rs₁ = rs' := by simpa using hrest
          exact absurd hpos (Int.not_lt.mpr hends)
      · obtain ⟨rfl, rfl⟩ : s'.exit (toInt32 s'.size) = e ∧ rs₁ = rs' := by simpa using hrest
        obtain ⟨-, hsize, hpayload⟩ :=
          Delivery.foldl_of_eofs heofs ((packet, data) :: packets m data rs₁)
        rw [List.foldl_cons] at hsize hpayload
        have hbound : s'.size < 4294967296 := hk'.size ▸ hk'.bound
        obtain ⟨hint, hret⟩ := toInt32_pos hpos hbound
        rw [hk'.size] at hint
        rw [hsize, hpayload]
        refine ⟨?_, (hk'.file hint).1⟩
        rw [← hk'.size]
        exact hret

/-- The size returned bytes have been written, and they are the payload cut to
    it. -/
def SessionEnd.Writes (e : SessionEnd) (payload : List Byte) : Prop :=
  e.file.length = e.ret ∧ e.file = payload.take e.ret.toNat

/-- For every stream, when a size is returned: it is the number of bytes written
    exactly when the header announces no more bytes than the accepted packets
    carry.  (The code counts packets in 32 bits, and would take a second header
    after that many.) -/
theorem ymodem_receive_writes_iff {room : List Byte → List Byte → Nat} {maxsize : Nat}
    {getname : Option Nat} {fuel : Nat} {packet_data : PacketData} {reads rest : List (Option Byte)}
    {e : SessionEnd}
    (h : (Ymodem_Receive room maxsize getname fuel packet_data).run reads = some (e, rest))
    (hpos : 0 < e.ret)
    (hcount : (Delivery.ofStream packet_data.bytes reads).count < 4294967296) :
    e.Writes (Delivery.ofStream packet_data.bytes reads).payload ↔
      (Delivery.ofStream packet_data.bytes reads).size ≤
        (Delivery.ofStream packet_data.bytes reads).payload.length := by
  obtain ⟨hret, hfile⟩ := sessionLoop_run (.start packet_data) (Nat.le_refl _) hcount h hpos
  change e.ret = (Delivery.ofStream packet_data.bytes reads).size at hret
  change e.file = (Delivery.ofStream packet_data.bytes reads).payload.take
    (Delivery.ofStream packet_data.bytes reads).size at hfile
  have hnat : e.ret.toNat = (Delivery.ofStream packet_data.bytes reads).size := by
    rw [hret, Int.toNat_natCast]
  have hlen : e.file.length = min (Delivery.ofStream packet_data.bytes reads).size
      (Delivery.ofStream packet_data.bytes reads).payload.length := by
    rw [hfile, List.length_take]
  unfold SessionEnd.Writes
  constructor
  · rintro ⟨heq, -⟩
    rw [hret, hlen] at heq
    omega
  · intro hle
    refine ⟨?_, by rw [hnat, hfile]⟩
    rw [hret, hlen, Nat.min_eq_left hle]

/-- A header that announces five bytes, and the end of the file. -/
def shortSession : List (Option Byte) :=
  (packetOf SOH 0 (headerBlock (chars "a") 5)).map some ++ [some EOT, some EOT, none]

theorem shortSession_fits : HeaderFits (chars "a") 5 := by
  have hdigits : (formatD (5 : Nat)).length ≤ 1 := length_formatD_le (by decide) (by decide)
  show 1 + 1 + (formatD (5 : Nat)).length + 1 ≤ 128
  omega

theorem shortSession_run :
    (Ymodem_Receive (fun _ block => block.length) (10 * 1024 * 1024) (some 128) 4
      (freshBlock 1029)).run shortSession = some (⟨5, [], chars "a"⟩, []) := by
  have hbuffer : (Receiver.start (freshBlock 1029)).packet_data = (freshBlock 1029).bytes := rfl
  obtain ⟨data, hheader⟩ := sessionRound_header (fun _ block => block.length) (10 * 1024 * 1024)
    hbuffer rfl rfl rfl (show nul ∉ chars "a" by decide) (by decide)
    (show (chars "a").length < 128 by decide) (show 0 < 5 by decide) (by decide) (by decide)
    shortSession_fits
  have hfirst := sessionRound_eot_first (fun _ block => block.length) (10 * 1024 * 1024)
    (some 128) (s := ⟨data.bytes, 0, 1, 0, 0, 5, [], chars "a"⟩) rfl
  have hsecond := sessionRound_eot_second (fun _ block => block.length) (10 * 1024 * 1024)
    (some 128) (s := ⟨data.bytes, 0, 1, 0, 1, 5, [], chars "a"⟩) rfl
  have hplays := hheader.loop_inl (hfirst.loop_inl (hsecond.loop_inl (.done (Proc.loop
    (sessionRound (fun _ block => block.length) (10 * 1024 * 1024) (some 128)) 1 _))))
  have hreads : shortSession = List.filterMap Event.received
      ((acked (packetOf SOH 0 (headerBlock (chars "a") 5)) ++ [Event.recv CRC16]).map .dual ++
        ([.recv EOT, .send NAK] ++ ([.recv EOT, .send ACK, .send CRC16] ++ []))) ++ [none] := by
    rw [List.map_append, map_dual_acked, List.append_assoc, List.append_assoc,
      List.filterMap_append, Event.filterMap_received, List.append_assoc]
    rfl
  rw [hreads]
  exact (hplays.run_eq [none]).trans rfl

/-- Five bytes are returned, and none was written. -/
theorem ymodem_receive_short_session :
    (Ymodem_Receive (fun _ block => block.length) (10 * 1024 * 1024) (some 128) 4
      (freshBlock 1029)).run shortSession = some (⟨5, [], chars "a"⟩, []) ∧
    ¬ SessionEnd.Writes ⟨5, [], chars "a"⟩
      (Delivery.ofStream (freshBlock 1029).bytes shortSession).payload := by
  refine ⟨shortSession_run, fun h => ?_⟩
  have hlen : (0 : Int) = 5 := h.1
  cases hlen

/-- The announced size is more than came. -/
theorem ymodem_receive_writes_short_session :
    SessionEnd.Writes ⟨5, [], chars "a"⟩
        (Delivery.ofStream (freshBlock 1029).bytes shortSession).payload ↔
      (Delivery.ofStream (freshBlock 1029).bytes shortSession).size ≤
        (Delivery.ofStream (freshBlock 1029).bytes shortSession).payload.length :=
  ymodem_receive_writes_iff shortSession_run (by decide) (by
    have hcount := Delivery.count_ofStream_le (freshBlock 1029).bytes shortSession
    have hlen : shortSession.length = 136 := by
      rw [shortSession, List.length_append, List.length_map, length_packetOf,
        length_headerBlock shortSession_fits]
      rfl
    omega)

end LuaRtos.Ymodem
