/-
  LuaRtos.Lmic.DownlinkRoundTrip

  A downlink as the network makes it, and that `decodeFrame` does what it says: the counter and
  the MAC commands are taken over, and the payload is left in the clear.
-/

import LuaRtos.Lmic.DownlinkCheck

namespace LuaRtos.Lmic

open LuaRtos.CLib
open LuaRtos.Lora (fctAck offDatOpts)

/-! ## MAC commands -/

/-- A MAC command for the device.  Frequencies are in units of 100 Hz. -/
inductive MacCmd where
  | linkCheckAns (margin gateways : Byte)
  | linkAdrReq (drPow : Byte) (chmap : BitVec 16) (pageRepeat : Byte)
  | devStatusReq
  | dn2pSet (dr : Byte) (freq : BitVec 24)
  | dutyCapReq (cap : Byte)
  | newChannelReq (chidx : Byte) (freq : BitVec 24) (drs : Byte)
  | pingSet (freq : BitVec 24)
  | beaconInfoAns (delay : BitVec 16) (chnl : Byte)
deriving DecidableEq, Repr

def bytes2 (v : BitVec 16) : List Byte := [v.setWidth 8, (v >>> 8).setWidth 8]
def bytes3 (v : BitVec 24) : List Byte :=
  [v.setWidth 8, (v >>> 8).setWidth 8, (v >>> 16).setWidth 8]

namespace MacCmd

/-- The command as an option of a frame. -/
def encode : MacCmd → List Byte
  | linkCheckAns margin gateways => [mcmdLchkAns, margin, gateways]
  | linkAdrReq drPow chmap pageRepeat => mcmdLadrReq :: drPow :: bytes2 chmap ++ [pageRepeat]
  | devStatusReq => [mcmdDevsReq]
  | dn2pSet dr freq => mcmdDn2pSet :: dr :: bytes3 freq
  | dutyCapReq cap => [mcmdDcapReq, cap]
  | newChannelReq chidx freq drs => mcmdSnchReq :: chidx :: bytes3 freq ++ [drs]
  | pingSet freq => mcmdPingSet :: bytes3 freq
  | beaconInfoAns delay chnl => mcmdBcniAns :: bytes2 delay ++ [chnl]

/-- What LMIC does with the command. -/
def run (t : BitVec 64) (m : Mac) : MacCmd → Result Mac
  | linkCheckAns _ _ => pure m
  | linkAdrReq drPow chmap pageRepeat => m.linkAdr drPow chmap pageRepeat
  | devStatusReq => pure { m with devsAns := 1 }
  | dn2pSet dr freq => m.dn2pSet dr (eu868Freq (freq.setWidth 32))
  | dutyCapReq cap => pure (Mac.dutyCap t m cap)
  | newChannelReq chidx freq drs => pure (m.newChannel chidx (eu868Freq (freq.setWidth 32)) drs)
  | pingSet freq => pure (m.pingSet (eu868Freq (freq.setWidth 32)))
  | beaconInfoAns delay chnl => m.bcnInfo delay chnl

end MacCmd

/-- The first bytes of options that are known. -/
def knownOptions : List Byte :=
  [mcmdLchkAns, mcmdLadrReq, mcmdDevsReq, mcmdDn2pSet, mcmdDcapReq, mcmdSnchReq, mcmdPingSet,
    mcmdBcniAns]

section Read

theorem load_drop (d : List Byte) (i k : Nat) : load d (i + k) = load (d.drop i) k := by
  unfold load
  rw [List.getElem?_drop]

theorem bytes2_append (v : BitVec 16) :
    ((v >>> 8).setWidth 8 : Byte) ++ (v.setWidth 8 : Byte) = v := by
  apply BitVec.eq_of_getLsbD_eq
  intro i hi
  simp only [BitVec.getLsbD_append, BitVec.getLsbD_setWidth, BitVec.getLsbD_ushiftRight]
  grind

theorem bytes3_append (v : BitVec 24) (b : Byte) : (((v >>> 16).setWidth 8 : Byte) ++
    ((v >>> 8).setWidth 8 : Byte) ++ (v.setWidth 8 : Byte) ++ b) >>> 8 = v.setWidth 32 := by
  apply BitVec.eq_of_getLsbD_eq
  intro i hi
  simp only [BitVec.getLsbD_append, BitVec.getLsbD_setWidth, BitVec.getLsbD_ushiftRight]
  grind

variable {d rest : List Byte} {i : Nat}

theorem osRlsbf2_drop {k : Nat} {v : BitVec 16} (h : d.drop (i + k) = bytes2 v ++ rest) :
    osRlsbf2 d (i + k) = .ok v := by
  have h0 := load_drop d (i + k) 0
  have h1 := load_drop d (i + k) 1
  rw [h] at h0 h1
  rw [Nat.add_zero] at h0
  rw [osRlsbf2, h0, h1]
  exact congrArg Except.ok (bytes2_append v)

/-- A frequency, behind any byte. -/
theorem convFreq_drop {k : Nat} {b : Byte} {v : BitVec 24}
    (h : d.drop (i + k) = b :: (bytes3 v ++ rest)) :
    convFreq d (i + k + 1) = .ok (eu868Freq (v.setWidth 32)) := by
  have h0 := load_drop d (i + k) 0
  have h1 := load_drop d (i + k) 1
  have h2 := load_drop d (i + k) 2
  have h3 := load_drop d (i + k) 3
  rw [h] at h0 h1 h2 h3
  rw [Nat.add_zero] at h0
  rw [convFreq, Nat.add_sub_cancel, osRlsbf4, h0, h1, h2, h3]
  exact congrArg (fun x => Except.ok (eu868Freq x)) (bytes3_append v b)

end Read

section Options

variable {t : BitVec 64} {m : Mac} {i : Nat} {rest : List Byte}

/-- A command that is read where it stands is run. -/
theorem macOption_encode (c : MacCmd) (h : m.frame.drop i = c.encode ++ rest) :
    macOption t m i = c.run t m >>= fun m => .ok (some (m, c.encode.length)) := by
  have hload (k : Nat) : load m.frame (i + k) = load (c.encode ++ rest) k := by
    rw [load_drop, h]
  have hdrop (k : Nat) : m.frame.drop (i + k) = (c.encode ++ rest).drop k := by
    rw [← List.drop_drop, h]
  have hcid : load m.frame i = load (c.encode ++ rest) 0 := hload 0
  rw [macOption, hcid]
  cases c with
  | linkCheckAns margin gateways => rfl
  | linkAdrReq drPow chmap pageRepeat =>
    have hmap : osRlsbf2 m.frame (i + 2) = .ok chmap := osRlsbf2_drop (hdrop 2)
    rw [hload 1, hload 4, hmap]
    rfl
  | devStatusReq => rfl
  | dn2pSet dr freq =>
    have hfreq : convFreq m.frame (i + 2) = .ok _ := convFreq_drop (hdrop 1)
    rw [hload 1, hfreq]
    rfl
  | dutyCapReq cap =>
    rw [hload 1]
    rfl
  | newChannelReq chidx freq drs =>
    have hfreq : convFreq m.frame (i + 2) = .ok _ := convFreq_drop (hdrop 1)
    rw [hload 1, hfreq, hload 5]
    rfl
  | pingSet freq =>
    have hfreq : convFreq m.frame (i + 1) = .ok _ := convFreq_drop (i := i) (k := 0) (hdrop 0)
    rw [hfreq]
    rfl
  | beaconInfoAns delay chnl =>
    have hdelay : osRlsbf2 m.frame (i + 1) = .ok delay := osRlsbf2_drop (hdrop 1)
    rw [hdelay, hload 3]
    rfl

theorem link_run {m' : Mac} (c : MacCmd) (h : c.run t m = .ok m') : m'.link = m.link := by
  cases c with
  | linkCheckAns margin gateways => cases h; rfl
  | linkAdrReq drPow chmap pageRepeat => exact Mac.link_linkAdr h
  | devStatusReq => cases h; rfl
  | dn2pSet dr freq => exact Mac.link_dn2pSet h
  | dutyCapReq cap => cases h; rfl
  | newChannelReq chidx freq drs =>
    cases h
    exact Mac.link_newChannel m chidx _ drs
  | pingSet freq =>
    cases h
    exact Mac.link_pingSet m _
  | beaconInfoAns delay chnl => exact Mac.link_bcnInfo h

theorem link_runs {m' : Mac} (cmds : List MacCmd) (h : cmds.foldlM (MacCmd.run t) m = .ok m') :
    m'.link = m.link := by
  induction cmds generalizing m with
  | nil =>
    cases h
    rfl
  | cons c cmds ih =>
    rw [List.foldlM_cons] at h
    obtain ⟨m₁, h₁, h⟩ := bind_eq_ok.mp h
    exact (ih h).trans (link_run c h₁)

/-- An option that is not known. -/
theorem macOption_unknown {b : Byte} (hb : b ∉ knownOptions) (h : m.frame.drop i = b :: rest) :
    macOption t m i = .ok none := by
  have hload : load m.frame i = .ok b := by
    rw [← Nat.add_zero i, load_drop, h]
    rfl
  simp only [knownOptions, List.mem_cons, List.not_mem_nil, or_false, not_or] at hb
  obtain ⟨h1, h2, h3, h4, h5, h6, h7, h8⟩ := hb
  rw [macOption, hload, ok_bind, if_neg h1, if_neg h2, if_neg h3, if_neg h4, if_neg h5, if_neg h6,
    if_neg h7, if_neg h8]
  rfl

theorem MacCmd.length_encode (c : MacCmd) : 0 < c.encode.length := by
  cases c <;> exact Nat.succ_pos _

/-- The loop runs the commands one after the other, up to the first option that is not known. -/
theorem macOptions_encode (cmds : List MacCmd) {junk : List Byte}
    (hjunk : ∀ b ∈ junk.head?, b ∉ knownOptions) (fuel : Nat) (hfuel : cmds.length < fuel)
    (h : m.frame.drop i = cmds.flatMap MacCmd.encode ++ (junk ++ rest)) :
    macOptions t (i + (cmds.flatMap MacCmd.encode ++ junk).length) fuel m i =
      cmds.foldlM (MacCmd.run t) m := by
  induction cmds generalizing m i fuel with
  | nil =>
    obtain ⟨fuel, rfl⟩ : ∃ n, fuel = n + 1 := ⟨fuel - 1, by omega⟩
    rw [macOptions]
    cases junk with
    | nil => exact if_neg (Nat.lt_irrefl i)
    | cons b junk =>
      have hlt : i < i + ([].flatMap MacCmd.encode ++ b :: junk).length :=
        Nat.lt_add_of_pos_right (Nat.succ_pos _)
      rw [if_pos hlt, macOption_unknown (hjunk b rfl) h]
      rfl
  | cons c cmds ih =>
    obtain ⟨fuel, rfl⟩ : ∃ n, fuel = n + 1 := ⟨fuel - 1, by omega⟩
    have hfuel' : cmds.length < fuel := Nat.lt_of_succ_lt_succ hfuel
    rw [List.flatMap_cons, List.append_assoc] at h
    have hlen : i + ((c :: cmds).flatMap MacCmd.encode ++ junk).length =
        i + c.encode.length + (cmds.flatMap MacCmd.encode ++ junk).length := by
      rw [List.flatMap_cons, List.append_assoc, List.length_append]
      omega
    have hlt : i < i + c.encode.length + (cmds.flatMap MacCmd.encode ++ junk).length := by
      have := c.length_encode
      omega
    rw [hlen, macOptions, if_pos hlt, macOption_encode c h, List.foldlM_cons]
    cases hrun : c.run t m with
    | error e => rfl
    | ok m₁ =>
      have hframe : m₁.frame = m.frame := congrArg Link.frame (link_run c hrun)
      have hnext : m₁.frame.drop (i + c.encode.length) =
          cmds.flatMap MacCmd.encode ++ (junk ++ rest) := by
        rw [hframe, ← List.drop_drop, h, List.drop_left]
      exact ih fuel hfuel' hnext

end Options
/-! ## Frames -/

/-- A data frame for the device. -/
structure DnFrame where
  confirmed : Bool
  /-- The acknowledgement and the other bits beside the length of the options. -/
  flags : Byte
  cmds : List MacCmd
  /-- Options behind the commands that LMIC does not know. -/
  junk : List Byte
  /-- The port, and the data for it. -/
  payload : Option (Byte × List Byte)
  flags_ok : flags &&& fctOptlen = 0
  junk_ok : ∀ b ∈ junk.head?, b ∉ knownOptions
  opts_ok : (cmds.flatMap MacCmd.encode ++ junk).length ≤ 15

namespace DnFrame

def ftype (f : DnFrame) : Byte := if f.confirmed then hdrFtypeDcdn else hdrFtypeDadn
def opts (f : DnFrame) : List Byte := f.cmds.flatMap MacCmd.encode ++ f.junk
def fct (f : DnFrame) : Byte := f.flags ||| BitVec.ofNat 8 f.opts.length
def port (f : DnFrame) : Option Byte := f.payload.map Prod.fst
def data (f : DnFrame) : List Byte := f.payload.elim [] Prod.snd

/-- Where the data begin. -/
def poff (f : DnFrame) : Nat := offDatOpts + f.opts.length + if f.payload.isSome then 1 else 0

/-- The bytes in front of the data. -/
def head (f : DnFrame) (devaddr : List Byte) (n : BitVec 32) : List Byte :=
  f.ftype :: devaddr ++ [f.fct, n.setWidth 8, (n >>> 8).setWidth 8] ++ f.opts ++ f.port.toList

section Bytes

variable (E : List Byte → BitVec 128 → BitVec 128) (m : Mac) (f : DnFrame) (n : BitVec 32)

/-- The key for the data. -/
def key : List Byte := if f.port = some 0 then m.nwkKey else m.artKey

/-- The frame in front of its code, under the keys of a session. -/
def msg : List Byte :=
  f.head m.devaddr n ++ crypt E (f.key m) m.devaddr n true f.data

/-- The frame as it is sent. -/
def bytes : List Byte := f.msg E m n ++ mic E m.nwkKey m.devaddr n true (f.msg E m n)

/-- LMIC behind the frame: its data are in the clear, and it is reported. -/
def delivered (f : DnFrame) (m : Mac) : Mac :=
  report { m with frame := overwrite m.frame f.poff f.data } f.fct f.port f.poff
    (f.poff + f.data.length)

end Bytes

variable {E : List Byte → BitVec 128 → BitVec 128} {m : Mac} (f : DnFrame) {n : BitVec 32}

theorem fct_optlen : (f.fct &&& fctOptlen).toNat = f.opts.length := by
  have hopts : f.opts.length ≤ 15 := f.opts_ok
  have hfct : f.fct &&& fctOptlen = BitVec.ofNat 8 f.opts.length &&& fctOptlen := by
    rw [fct, BitVec.and_comm, BitVec.and_or_distrib_left, BitVec.and_comm fctOptlen f.flags,
      f.flags_ok, BitVec.and_comm fctOptlen]
    exact BitVec.zero_or
  rw [hfct]
  generalize f.opts.length = n at hopts
  interval_cases n <;> rfl

theorem length_head {devaddr : List Byte} (haddr : devaddr.length = 4) :
    (f.head devaddr n).length = f.poff := by
  have hport : f.port.toList.length = if f.payload.isSome then 1 else 0 := by
    unfold port
    cases f.payload <;> rfl
  rw [head, List.length_append, hport, poff]
  simp only [List.length_append, List.length_cons, List.length_nil, haddr, offDatOpts]

theorem length_msg (haddr : m.devaddr.length = 4) :
    (f.msg E m n).length = f.poff + f.data.length := by
  rw [msg, List.length_append, f.length_head haddr, length_crypt]

theorem length_bytes (haddr : m.devaddr.length = 4) :
    (f.bytes E m n).length = f.poff + f.data.length + 4 := by
  rw [bytes, List.length_append, f.length_msg haddr, length_mic]

end DnFrame

/-- A counter that is in reach of the expected one is found again. -/
theorem extendSeqno_setWidth {k n : BitVec 32} (hge : k ≤ n) (hlt : n.toNat < k.toNat + 2 ^ 16) :
    extendSeqno k (n.setWidth 16) = n := by
  have hk := k.isLt
  have hn := n.isLt
  rw [BitVec.le_def] at hge
  apply BitVec.eq_of_toNat_eq
  rw [toNat_extendSeqno, BitVec.toNat_setWidth]
  omega

theorem four_bytes {bs : List Byte} (h : bs.length = 4) : ∃ b0 b1 b2 b3, bs = [b0, b1, b2, b3] := by
  rcases bs with _ | ⟨b0, _ | ⟨b1, _ | ⟨b2, _ | ⟨b3, _ | ⟨b4, bs⟩⟩⟩⟩⟩ <;>
    first | exact ⟨_, _, _, _, rfl⟩ | simp at h

section RoundTrip

variable {E : List Byte → BitVec 128 → BitVec 128} {t : BitVec 64} {m : Mac} (f : DnFrame)
  {n : BitVec 32}

/-- What is in memory behind the options. -/
def DnFrame.tail (E : List Byte → BitVec 128 → BitVec 128) (m : Mac) (f : DnFrame)
    (n : BitVec 32) : List Byte :=
  f.port.toList ++ (crypt E (f.key m) m.devaddr n true f.data ++
    (mic E m.nwkKey m.devaddr n true (f.msg E m n) ++
      m.frame.drop (f.bytes E m n).length))

/-- The frame in memory, and what is behind it. -/
theorem received_frame : (m.received (f.bytes E m n)).frame = f.ftype :: (m.devaddr ++
    f.fct :: n.setWidth 8 :: (n >>> 8).setWidth 8 :: (f.opts ++ f.tail E m n)) := by
  show overwrite m.frame 0 (f.bytes E m n) = _
  rw [overwrite, List.take_zero, List.nil_append, Nat.zero_add, DnFrame.tail]
  nth_rewrite 1 [DnFrame.bytes]
  nth_rewrite 1 [DnFrame.msg]
  rw [DnFrame.head]
  simp only [List.append_assoc, List.cons_append, List.nil_append]

/-- What is read of the frame before its code is checked. -/
theorem received_header (haddr : m.devaddr.length = 4) :
    let d := (m.received (f.bytes E m n)).frame
    load d 0 = .ok f.ftype ∧ load d offDatFct = .ok f.fct ∧
      loadBytes d offDatAddr 4 = .ok m.devaddr ∧
      osRlsbf2 d offDatSeqno = .ok (n.setWidth 16) ∧
      d.drop offDatOpts = f.opts ++ f.tail E m n := by
  dsimp only
  have hframe := received_frame (E := E) (m := m) f (n := n)
  obtain ⟨a0, a1, a2, a3, hdevaddr⟩ := four_bytes haddr
  generalize (m.received (f.bytes E m n)).frame = d at hframe
  rw [hdevaddr] at hframe ⊢
  subst hframe
  refine ⟨rfl, rfl, ?_, ?_, rfl⟩
  · exact loadBytes_window (by simp only [List.length_append, List.length_cons, offDatAddr]; omega)
  · have hlow : (n >>> 8).setWidth 8 ++ (n.setWidth 8 : Byte) = n.setWidth 16 := by
      apply BitVec.eq_of_getLsbD_eq
      intro i hi
      simp only [BitVec.getLsbD_append, BitVec.getLsbD_setWidth, BitVec.getLsbD_ushiftRight]
      grind
    rw [← hlow]
    rfl

/-- The frame without its code, and the code. -/
theorem received_msg : (m.received (f.bytes E m n)).frame = f.msg E m n ++
    (mic E m.nwkKey m.devaddr n true (f.msg E m n) ++
      m.frame.drop (f.bytes E m n).length) := by
  show overwrite m.frame 0 (f.bytes E m n) = _
  rw [overwrite, List.take_zero, List.nil_append, Nat.zero_add, ← List.append_assoc]
  rfl

theorem received_dataLen (hfit : (f.bytes E m n).length ≤ 64) :
    (m.received (f.bytes E m n)).dataLen.toNat = (f.bytes E m n).length := by
  show (BitVec.ofNat 8 _).toNat = _
  rw [BitVec.toNat_ofNat]
  omega

theorem received_verified (hsized : m.Sized) (hfit : (f.bytes E m n).length ≤ 64) :
    aesVerifyMic E m.nwkKey m.devaddr n true (m.received (f.bytes E m n)).frame
      (f.poff + f.data.length) = .ok true := by
  have hlen := f.length_bytes (E := E) (n := n) hsized.2
  have hmsg := f.length_msg (E := E) (n := n) hsized.2
  have hframe : (m.received (f.bytes E m n)).frame.length = 64 := (hsized.received hfit).1
  have hpos : 0 < f.poff := by
    rw [DnFrame.poff, offDatOpts]
    omega
  rw [aesVerifyMic_eq hsized.2 (by omega) (by omega) (by omega), received_msg, ← hmsg,
    List.take_left, window, List.drop_left, List.take_left' (length_mic _)]
  exact congrArg _ (decide_eq_true rfl)

/-- The port, or none, and where the data begin. -/
theorem received_port (haddr : m.devaddr.length = 4) :
    let d := (m.received (f.bytes E m n)).frame
    let poff := offDatOpts + f.opts.length
    let pend := f.poff + f.data.length
    readPort d poff pend = .ok f.port ∧ (if poff < pend then poff + 1 else poff) = f.poff := by
  dsimp only
  obtain ⟨-, -, -, -, hrest⟩ := received_header (E := E) f (n := n) haddr
  have hload := load_drop (m.received (f.bytes E m n)).frame offDatOpts f.opts.length
  rw [hrest] at hload
  cases hpayload : f.payload with
  | none =>
    have hpoff : f.poff = offDatOpts + f.opts.length := by
      rw [DnFrame.poff, hpayload]
      rfl
    have hdata : f.data = [] := by
      rw [DnFrame.data, hpayload]
      rfl
    have hge : ¬ offDatOpts + f.opts.length < f.poff + f.data.length := by
      rw [hpoff, hdata]
      exact Nat.lt_irrefl _
    rw [readPort, if_neg hge, if_neg hge, hpoff, DnFrame.port, hpayload]
    exact ⟨rfl, rfl⟩
  | some p =>
    have hpoff : f.poff = offDatOpts + f.opts.length + 1 := by
      rw [DnFrame.poff, hpayload]
      rfl
    have hport : f.port = some p.1 := by
      rw [DnFrame.port, hpayload]
      rfl
    have hlt : offDatOpts + f.opts.length < f.poff + f.data.length := by omega
    have hread : load (f.opts ++ f.tail E m n) f.opts.length = .ok p.1 := by
      rw [DnFrame.tail, hport]
      exact load_append f.opts _ p.1
    rw [readPort, if_pos hlt, if_pos hlt, hload, hread, hport, hpoff]
    exact ⟨rfl, rfl⟩

/-- The data of the frame in memory, which are encrypted, come out in the clear. -/
theorem decrypt_received (hsized : m.Sized) (hfit : (f.bytes E m n).length ≤ 64) {m₂ : Mac}
    (hframe : m₂.frame = (m.received (f.bytes E m n)).frame) (haddr : m₂.devaddr = m.devaddr)
    (hnwk : m₂.nwkKey = m.nwkKey) (hart : m₂.artKey = m.artKey) :
    decrypt E m₂ false f.port n f.poff (f.poff + f.data.length) =
      .ok { m₂ with frame := overwrite m₂.frame f.poff f.data } := by
  have hlen := f.length_bytes (E := E) (n := n) hsized.2
  cases hport : f.port with
  | none =>
    have hdata : f.data = [] := by
      unfold DnFrame.port at hport
      rw [DnFrame.data, Option.map_eq_none_iff.mp hport]
      rfl
    rw [hdata, overwrite_nil]
    rfl
  | some p =>
    have hkey : (if p = 0 then m₂.nwkKey else m₂.artKey) = f.key m := by
      rw [hnwk, hart, DnFrame.key, hport]
      simp only [Option.some.injEq]
    -- the data are behind the head of the frame
    have hdrop : m₂.frame.drop f.poff = crypt E (f.key m) m.devaddr n true f.data ++
        (mic E m.nwkKey m.devaddr n true (f.msg E m n) ++
          m.frame.drop (f.bytes E m n).length) := by
      rw [hframe, received_msg, DnFrame.msg, ← f.length_head hsized.2 (n := n),
        List.append_assoc, List.drop_left]
    have hlong : (m₂.frame.drop f.poff).length = 64 - f.poff := by
      rw [List.length_drop, hframe, (hsized.received hfit).1]
    have hsub : ((f.poff + f.data.length : Nat) : Int) - f.poff = (f.data.length : Nat) := by omega
    have hcipher := @aesCipher_eq E (f.key m) m.devaddr n true f.data.length
      (m₂.frame.drop f.poff) (by omega) (by omega)
    have htake : (m₂.frame.drop f.poff).take f.data.length =
        crypt E (f.key m) m.devaddr n true f.data := by
      rw [hdrop]
      exact List.take_left' (length_crypt f.data)
    rw [htake, crypt_crypt, List.drop_drop] at hcipher
    show (aesCipher E _ m₂.devaddr n true (m₂.frame.drop f.poff)
      (((f.poff + f.data.length : Nat) : Int) - f.poff) >>= _) = _
    rw [hkey, haddr, hsub, hcipher, overwrite, List.append_assoc]
    rfl

/-- The frame passes all checks. -/
theorem decodeFrame_received (hsized : m.Sized) (hfit : (f.bytes E m n).length ≤ 64)
    (hge : m.seqnoDn ≤ n) (hlt : n.toNat < m.seqnoDn.toNat + 2 ^ 16) :
    decodeFrame E t (m.received (f.bytes E m n)) =
      acceptFrame E t (expectNext (m.received (f.bytes E m n)) f.ftype n) f.fct false f.port
        n f.poff (f.poff + f.data.length) >>= fun m' => .ok (true, m') := by
  have hlen := f.length_bytes (E := E) (n := n) hsized.2
  obtain ⟨hhdr, hfct, haddr, hseqno, -⟩ := received_header (E := E) f (n := n) hsized.2
  obtain ⟨hport, hpoff⟩ := received_port (E := E) f (n := n) hsized.2
  have hdlen := received_dataLen f hfit
  have hverified := received_verified f hsized hfit
  have hnwk : (m.received (f.bytes E m n)).nwkKey = m.nwkKey := rfl
  have hdevaddr : (m.received (f.bytes E m n)).devaddr = m.devaddr := rfl
  have hseqnoDn : (m.received (f.bytes E m n)).seqnoDn = m.seqnoDn := rfl
  generalize m.received (f.bytes E m n) = r at *
  have hext : extendSeqno r.seqnoDn (n.setWidth 16) = n := by
    rw [hseqnoDn]
    exact extendSeqno_setWidth hge hlt
  have hcheck : checkSeqno r f.ftype n = some (false, expectNext r f.ftype n) := by
    have h := checkSeqno_extendSeqno r f.ftype (n.setWidth 16)
    rwa [hext, hseqnoDn, if_pos hge] at h
  have hpend : r.dataLen.toNat - 4 = f.poff + f.data.length := by
    rw [hdlen, hlen]
    omega
  have hopts : offDatOpts + f.opts.length ≤ f.poff := Nat.le_add_right _ _
  have htype : f.ftype &&& hdrFtype = f.ftype ∧ f.ftype &&& hdrMajor = 0 ∧
      (f.ftype = hdrFtypeDadn ∨ f.ftype = hdrFtypeDcdn) := by
    unfold DnFrame.ftype
    cases f.confirmed
    · exact ⟨rfl, rfl, .inl rfl⟩
    · exact ⟨rfl, rfl, .inr rfl⟩
  have hsane : ¬ (r.dataLen.toNat < offDatOpts + 4 ∨ f.ftype &&& hdrMajor ≠ 0 ∨
      f.ftype ≠ hdrFtypeDadn ∧ f.ftype ≠ hdrFtypeDcdn) := by
    rintro (hshort | hmajor | ⟨hdadn, hdcdn⟩)
    · rw [hdlen, hlen] at hshort
      omega
    · exact hmajor htype.2.1
    · exact htype.2.2.elim hdadn hdcdn
  have hfits : ¬ (m.devaddr ≠ m.devaddr ∨ f.poff + f.data.length < offDatOpts + f.opts.length) := by
    rintro (hne | hlt)
    · exact hne rfl
    · omega
  rw [decodeFrame, hhdr, ok_bind]
  dsimp only
  rw [htype.1, if_neg hsane, hfct, ok_bind, haddr, ok_bind, hseqno, ok_bind, hpend, f.fct_optlen,
    hdevaddr, if_neg hfits, hport, ok_bind, hpoff, hext, hnwk, hverified, ok_bind, if_pos rfl,
    hcheck]
  rfl

/-- `decodeFrame` of a frame that the network has made: the counter is taken over, the commands are
    run in their order, and the data are delivered. -/
theorem decodeFrame_bytes (hsized : m.Sized) (hfit : (f.bytes E m n).length ≤ 64)
    (hge : m.seqnoDn ≤ n) (hlt : n.toNat < m.seqnoDn.toNat + 2 ^ 16) :
    decodeFrame E t (m.received (f.bytes E m n)) =
      heard (expectNext (m.received (f.bytes E m n)) f.ftype n) f.fct >>= fun m₁ =>
        f.cmds.foldlM (MacCmd.run t) m₁ >>= fun m₂ => .ok (true, f.delivered m₂) := by
  obtain ⟨-, -, -, -, hrest⟩ := received_header (E := E) f (n := n) hsized.2
  have hlink : (expectNext (m.received (f.bytes E m n)) f.ftype n).link =
      ⟨m.devaddr, m.nwkKey, m.artKey, n + 1, (m.received (f.bytes E m n)).frame⟩ := rfl
  rw [decodeFrame_received f hsized hfit hge hlt, acceptFrame]
  cases hheard : heard (expectNext (m.received (f.bytes E m n)) f.ftype n) f.fct with
  | error e => rfl
  | ok m₁ =>
    have hlink₁ := (link_heard hheard).trans hlink
    have hframe₁ : m₁.frame = (m.received (f.bytes E m n)).frame := congrArg Link.frame hlink₁
    have hopts₁ : m₁.frame.drop offDatOpts =
        f.cmds.flatMap MacCmd.encode ++ (f.junk ++ f.tail E m n) := by
      rw [hframe₁, hrest, DnFrame.opts, List.append_assoc]
    have hcount : f.cmds.length ≤ f.opts.length := by
      have hsum : f.cmds.length ≤ (f.cmds.flatMap MacCmd.encode).length := by
        induction f.cmds with
        | nil => exact Nat.le_refl 0
        | cons c cmds ih =>
          have hc := c.length_encode
          rw [List.flatMap_cons, List.length_append, List.length_cons]
          omega
      rw [DnFrame.opts, List.length_append]
      omega
    have hopts : f.opts.length ≤ 15 := f.opts_ok
    have hrun := macOptions_encode (t := t) f.cmds f.junk_ok 16 (by omega) hopts₁
    rw [ok_bind, ok_bind, f.fct_optlen]
    show (macOptions t (offDatOpts + f.opts.length) 16 m₁ offDatOpts >>= _) >>= _ = _
    rw [DnFrame.opts, hrun]
    cases hcmds : f.cmds.foldlM (MacCmd.run t) m₁ with
    | error e => rfl
    | ok m₂ =>
      have hlink₂ := (link_runs f.cmds hcmds).trans hlink₁
      rw [ok_bind, decrypt_received f hsized hfit (congrArg Link.frame hlink₂)
        (congrArg Link.devaddr hlink₂) (congrArg Link.nwkKey hlink₂) (congrArg Link.artKey hlink₂)]
      rfl

end RoundTrip

/-- The data that are reported. -/
def Mac.data (m : Mac) : List Byte := window m.frame m.dataBeg.toNat m.dataLen.toNat

/-- The port of the frame is before the data. -/
def Mac.OnPort (m : Mac) (port : Option Byte) : Prop :=
  ∀ p ∈ port, m.frame[m.dataBeg.toNat - 1]? = some p ∧ m.txrxFlags &&& txrxPort ≠ 0

section Delivered

variable {E : List Byte → BitVec 128 → BitVec 128} {t : BitVec 64} {m : Mac} (f : DnFrame)
  {n : BitVec 32}

theorem data_delivered {m₂ : Mac} (hlen : m₂.frame.length = 64)
    (hfit : f.poff + f.data.length ≤ 60) : (f.delivered m₂).data = f.data := by
  have hpoff : (BitVec.ofNat 8 f.poff).toNat = f.poff := by
    rw [BitVec.toNat_ofNat]
    omega
  have hlong : (BitVec.ofNat 8
      (if f.port.isSome then f.poff + f.data.length - f.poff else 0)).toNat = f.data.length := by
    rw [BitVec.toNat_ofNat, Nat.add_sub_cancel_left]
    unfold DnFrame.port DnFrame.data
    cases hpayload : f.payload with
    | none => rfl
    | some p =>
      rw [DnFrame.data, hpayload] at hfit
      have hle : p.2.length ≤ 60 := Nat.le_trans (Nat.le_add_left _ _) hfit
      exact Nat.mod_eq_of_lt (Nat.lt_of_le_of_lt hle (by decide))
  show window (overwrite m₂.frame f.poff f.data) (BitVec.ofNat 8 f.poff).toNat
    (BitVec.ofNat 8 _).toNat = _
  have hself : window (overwrite m₂.frame f.poff f.data) (f.poff + 0) f.data.length =
      window f.data 0 f.data.length := window_overwrite (by omega) (by omega)
  rw [window_zero_length] at hself
  rw [hpoff, hlong]
  exact hself

theorem onPort_delivered (haddr : m.devaddr.length = 4) {m₂ : Mac}
    (hframe : m₂.frame = (m.received (f.bytes E m n)).frame) (hlen : m₂.frame.length = 64)
    (hfit : f.poff + f.data.length ≤ 60) : (f.delivered m₂).OnPort f.port := by
  intro p hp
  obtain ⟨q, hpayload, rfl⟩ := Option.map_eq_some_iff.mp hp
  obtain ⟨-, -, -, -, hrest⟩ := received_header (E := E) f (n := n) haddr
  have hpoff : f.poff = offDatOpts + f.opts.length + 1 := by
    rw [DnFrame.poff, hpayload]
    rfl
  have hbeg : (f.delivered m₂).dataBeg.toNat - 1 = offDatOpts + f.opts.length := by
    show (BitVec.ofNat 8 f.poff).toNat - 1 = _
    rw [BitVec.toNat_ofNat]
    omega
  have hport : f.port = some q.1 := hp
  refine ⟨?_, ?_⟩
  · rw [hbeg]
    show (overwrite m₂.frame f.poff f.data)[_]? = _
    rw [getElem?_overwrite (by omega), if_neg (by omega), hframe, ← List.getElem?_drop, hrest,
      List.getElem?_append_right (Nat.le_refl _), Nat.sub_self, DnFrame.tail, hport]
    rfl
  · have hsome : f.port.isSome = true := by rw [hport]; rfl
    show ((if m₂.txCnt ≠ 0 then m₂.txrxFlags ||| _ else m₂.txrxFlags) |||
      (if f.port.isSome = true then txrxPort else txrxNoport)) &&& txrxPort ≠ 0
    rw [if_pos hsome]
    intro hzero
    have hbit := congrArg (fun x : Byte => x.getLsbD 4) hzero
    simp [txrxPort] at hbit

end Delivered

/-- The round trip: a frame that the network makes for the device, under a counter not before the
    expected one and less than 65536 behind it, is accepted, its commands are run in their order,
    and its data come out in the clear behind their port. -/
theorem downlink_roundTrip (E : List Byte → BitVec 128 → BitVec 128) (t : BitVec 64) {m : Mac}
    (f : DnFrame) {n : BitVec 32} (hsized : m.Sized) (hfit : (f.bytes E m n).length ≤ 64)
    (hge : m.seqnoDn ≤ n) (hlt : n.toNat < m.seqnoDn.toNat + 2 ^ 16) :
    let r := m.received (f.bytes E m n)
    (decodeFrame E t r = heard (expectNext r f.ftype n) f.fct >>= fun m₁ =>
      f.cmds.foldlM (MacCmd.run t) m₁ >>= fun m₂ => .ok (true, f.delivered m₂)) ∧
    ∀ accepted m', decodeFrame E t r = .ok (accepted, m') →
      accepted = true ∧ m'.seqnoDn = n + 1 ∧ m'.data = f.data ∧ m'.OnPort f.port := by
  dsimp only
  have hrun := decodeFrame_bytes (t := t) f hsized hfit hge hlt
  refine ⟨hrun, fun accepted m' h => ?_⟩
  rw [hrun] at h
  obtain ⟨m₁, h₁, h⟩ := bind_eq_ok.mp h
  obtain ⟨m₂, h₂, h⟩ := bind_eq_ok.mp h
  cases h
  have hlink := (link_runs f.cmds h₂).trans (link_heard h₁)
  have hframe : m₂.frame = (m.received (f.bytes E m n)).frame := congrArg Link.frame hlink
  have hlen : m₂.frame.length = 64 := by
    rw [hframe]
    exact (hsized.received hfit).1
  have hdata : f.poff + f.data.length ≤ 60 := by
    rw [f.length_bytes hsized.2] at hfit
    omega
  have hseqno : m₂.seqnoDn = n + 1 := congrArg Link.seqnoDn hlink
  exact ⟨rfl, hseqno, data_delivered f hlen hdata, onPort_delivered f hsized.2 hframe hlen hdata⟩

theorem statusRequest_junk : ∀ b ∈ ([] : List Byte).head?, b ∉ knownOptions := nofun

theorem statusRequest_opts :
    (([.devStatusReq, .linkAdrReq 0x51 7 1] : List MacCmd).flatMap MacCmd.encode ++ []).length
      ≤ 15 := by
  decide

/-- Three bytes for port 7, behind a request for the status and one for another data rate. -/
def statusRequest : DnFrame where
  confirmed := true
  flags := 0x20
  cmds := [.devStatusReq, .linkAdrReq 0x51 7 1]
  junk := []
  payload := some (7, [0x41, 0x42, 0x43])
  flags_ok := rfl
  junk_ok := statusRequest_junk
  opts_ok := statusRequest_opts

theorem downlink_roundTrip_data : ∃ m',
    decodeFrame mixBlock 0 (macReady.received (statusRequest.bytes mixBlock macReady 3)) =
      .ok (true, m') ∧
    m'.seqnoDn = 4 ∧ m'.data = [0x41, 0x42, 0x43] ∧ m'.OnPort (some 7) ∧ m'.devsAns = 1 := by
  obtain ⟨hrun, hresult⟩ := downlink_roundTrip mixBlock 0 (m := macReady) statusRequest (n := 3)
    (by decide) (by decide) (by decide) (by decide)
  have haccepted : decodeFrame mixBlock 0
      (macReady.received (statusRequest.bytes mixBlock macReady 3)) = .ok (true, _) :=
    hrun.trans rfl
  obtain ⟨-, hseqno, hdata, hport⟩ := hresult _ _ haccepted
  exact ⟨_, haccepted, hseqno, hdata, hport, rfl⟩

end LuaRtos.Lmic
