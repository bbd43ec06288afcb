/-
  LuaRtos.Lmic.DownlinkCheck

  Which downlinks are accepted: never two under one counter of a session.
-/

import LuaRtos.Lmic.Downlink
import LuaRtos.Lts.Run

namespace LuaRtos.Lmic

open LuaRtos.CLib
open LuaRtos.Lora (fctAck offDatOpts)

/-! ## Counters -/

/-- The 32 bits are the next ones, from the expected counter on, that end in the 16 of the frame. -/
theorem toNat_extendSeqno (n : BitVec 32) (s : BitVec 16) : (extendSeqno n s).toNat =
    (n.toNat + (s.toNat + (2 ^ 32 - n.toNat)) % 2 ^ 16) % 2 ^ 32 := by
  have hs := s.isLt
  have hn := n.isLt
  rw [extendSeqno, BitVec.toNat_add, BitVec.toNat_setWidth, BitVec.toNat_setWidth,
    BitVec.toNat_sub, BitVec.toNat_setWidth]
  omega

/-- A counter before the expected one has wrapped around, and is refused: the repetition of a
    frame that asks for a confirmation is never seen as one. -/
theorem checkSeqno_extendSeqno (m : Mac) (ftype : Byte) (s : BitVec 16) :
    checkSeqno m ftype (extendSeqno m.seqnoDn s) =
      if m.seqnoDn ≤ extendSeqno m.seqnoDn s then
        some (false, expectNext m ftype (extendSeqno m.seqnoDn s))
      else none := by
  have hs := s.isLt
  have hn := m.seqnoDn.isLt
  have hx := toNat_extendSeqno m.seqnoDn s
  generalize extendSeqno m.seqnoDn s = x at hx
  by_cases hle : m.seqnoDn ≤ x
  · have hlt : ¬ x < m.seqnoDn := by
      rw [BitVec.lt_def]
      rw [BitVec.le_def] at hle
      omega
    rw [checkSeqno, if_neg hlt, if_pos hle]
  · have hlt : x < m.seqnoDn := by
      rw [BitVec.lt_def]
      rw [BitVec.le_def] at hle
      omega
    -- the expected counter is near its end, so it is negative, and the other is not
    have hslt : m.seqnoDn.slt x = true := by
      rw [BitVec.lt_def] at hlt
      rw [BitVec.slt, decide_eq_true_iff, BitVec.toInt_eq_toNat_cond, BitVec.toInt_eq_toNat_cond]
      split <;> split <;> omega
    rw [checkSeqno, if_pos hlt, if_pos hslt, if_neg hle]

/-! ## What the options leave -/

/-- What a downlink is checked and decrypted under. -/
structure Link where
  devaddr : List Byte
  nwkKey : List Byte
  artKey : List Byte
  seqnoDn : BitVec 32
  frame : List Byte
deriving DecidableEq, Repr

namespace Mac

def link (m : Mac) : Link := ⟨m.devaddr, m.nwkKey, m.artKey, m.seqnoDn, m.frame⟩

theorem link_ite {c : Prop} [Decidable c] {m m' : Mac} {l : Link} (h : m.link = l)
    (h' : m'.link = l) : (if c then m else m').link = l := by
  split <;> assumption

theorem link_setDrTxpow (m : Mac) (dr : Byte) (pow : Int) :
    (m.setDrTxpow dr pow).link = m.link := by
  have hpow : (if pow ≠ -128 then { m with adrTxPow := pow } else m).link = m.link :=
    link_ite rfl rfl
  exact link_ite hpow hpow

theorem link_mapChannels (m : Mac) (chpage : Byte) (chmap : BitVec 16) :
    (m.mapChannels chpage chmap).2.link = m.link := by
  unfold mapChannels
  split <;> rfl

theorem link_setupChannel (m : Mac) (chidx : Byte) (freq : BitVec 32) (drmap : BitVec 16) :
    (m.setupChannel chidx freq drmap).2.link = m.link := by
  unfold setupChannel
  split <;> rfl

theorem link_newChannel (m : Mac) (chidx : Byte) (freq : BitVec 32) (drs : Byte) :
    (m.newChannel chidx freq drs).link = m.link := by
  have hsetup := link_setupChannel { m with snchAns := 0x80 } chidx freq
    (drRangeMap (drs &&& 0x0F) (drs >>> 4))
  exact link_ite rfl (link_ite hsetup hsetup)

theorem link_pingSet (m : Mac) (freq : BitVec 32) : (m.pingSet freq).link = m.link :=
  link_ite rfl rfl

variable {m m' : Mac}

theorem link_linkAdr {p1 p4 : Byte} {chmap : BitVec 16} (h : m.linkAdr p1 chmap p4 = .ok m') :
    m'.link = m.link := by
  obtain ⟨valid, -, h⟩ := bind_eq_ok.mp h
  cases h
  have hmap := link_mapChannels m (p4 &&& 0xF0) chmap
  exact link_ite ((link_setDrTxpow _ _ _).trans hmap) hmap

theorem link_dn2pSet {p1 : Byte} {freq : BitVec 32} (h : m.dn2pSet p1 freq = .ok m') :
    m'.link = m.link := by
  obtain ⟨valid, -, h⟩ := bind_eq_ok.mp h
  cases h
  exact link_ite rfl rfl

theorem link_bcnInfo {delay : BitVec 16} {chnl : Byte} (h : m.bcnInfo delay chnl = .ok m') :
    m'.link = m.link := by
  unfold bcnInfo at h
  split at h
  · cases h
    rfl
  · split at h
    · cases h
    · cases h
      rfl

end Mac

section Options

variable {now : BitVec 64} {m m' : Mac}

theorem link_macOption {i : Nat} {r : Option (Mac × Nat)} (h : macOption now m i = .ok r) :
    ∀ p ∈ r, p.1.link = m.link := by
  intro p hp
  obtain rfl : r = some p := hp
  obtain ⟨cid, -, h⟩ := bind_eq_ok.mp h
  by_cases hlchk : cid = mcmdLchkAns
  · rw [if_pos hlchk] at h
    cases h
    rfl
  rw [if_neg hlchk] at h
  by_cases hladr : cid = mcmdLadrReq
  · rw [if_pos hladr] at h
    obtain ⟨p1, -, h⟩ := bind_eq_ok.mp h
    obtain ⟨chmap, -, h⟩ := bind_eq_ok.mp h
    obtain ⟨p4, -, h⟩ := bind_eq_ok.mp h
    obtain ⟨m', hm', h⟩ := bind_eq_ok.mp h
    cases h
    exact Mac.link_linkAdr hm'
  rw [if_neg hladr] at h
  by_cases hdevs : cid = mcmdDevsReq
  · rw [if_pos hdevs] at h
    cases h
    rfl
  rw [if_neg hdevs] at h
  by_cases hdn2p : cid = mcmdDn2pSet
  · rw [if_pos hdn2p] at h
    obtain ⟨p1, -, h⟩ := bind_eq_ok.mp h
    obtain ⟨freq, -, h⟩ := bind_eq_ok.mp h
    obtain ⟨m', hm', h⟩ := bind_eq_ok.mp h
    cases h
    exact Mac.link_dn2pSet hm'
  rw [if_neg hdn2p] at h
  by_cases hdcap : cid = mcmdDcapReq
  · rw [if_pos hdcap] at h
    obtain ⟨cap, -, h⟩ := bind_eq_ok.mp h
    cases h
    rfl
  rw [if_neg hdcap] at h
  by_cases hsnch : cid = mcmdSnchReq
  · rw [if_pos hsnch] at h
    obtain ⟨chidx, -, h⟩ := bind_eq_ok.mp h
    obtain ⟨freq, -, h⟩ := bind_eq_ok.mp h
    obtain ⟨drs, -, h⟩ := bind_eq_ok.mp h
    cases h
    exact Mac.link_newChannel m chidx freq drs
  rw [if_neg hsnch] at h
  by_cases hping : cid = mcmdPingSet
  · rw [if_pos hping] at h
    obtain ⟨freq, -, h⟩ := bind_eq_ok.mp h
    cases h
    exact Mac.link_pingSet m freq
  rw [if_neg hping] at h
  by_cases hbcni : cid = mcmdBcniAns
  · rw [if_pos hbcni] at h
    obtain ⟨delay, -, h⟩ := bind_eq_ok.mp h
    obtain ⟨chnl, -, h⟩ := bind_eq_ok.mp h
    obtain ⟨m', hm', h⟩ := bind_eq_ok.mp h
    cases h
    exact Mac.link_bcnInfo hm'
  · rw [if_neg hbcni] at h
    cases h

theorem link_macOptions {last : Nat} (fuel : Nat) {i : Nat}
    (h : macOptions now last fuel m i = .ok m') : m'.link = m.link := by
  induction fuel generalizing m i with
  | zero => cases h
  | succ fuel ih =>
    rw [macOptions] at h
    by_cases hi : i < last
    · rw [if_pos hi] at h
      obtain ⟨r, hr, h⟩ := bind_eq_ok.mp h
      cases r with
      | none =>
        cases h
        rfl
      | some p => exact (ih h).trans (link_macOption hr p rfl)
    · rw [if_neg hi] at h
      cases h
      rfl

theorem link_heard {fct : Byte} (h : heard m fct = .ok m') : m'.link = m.link := by
  obtain ⟨s, -, h⟩ := bind_eq_ok.mp h
  cases h
  rfl

end Options

/-! ## The frames that are accepted -/

/-- The frame without its code. -/
def Mac.msg (m : Mac) : List Byte := m.frame.take (m.dataLen.toNat - 4)

/-- The code behind the frame. -/
def Mac.micBytes (m : Mac) : List Byte := window m.frame (m.dataLen.toNat - 4) 4

/-- The counter under which a frame is checked. -/
def Mac.counter (m : Mac) : BitVec 32 :=
  extendSeqno m.seqnoDn (m.frame.getD (offDatSeqno + 1) 0 ++ m.frame.getD offDatSeqno 0)

section Accept

variable {E : List Byte → BitVec 128 → BitVec 128} {now : BitVec 64} {m m' : Mac}

theorem decrypt_length {replayConf : Bool} {port : Option Byte} {seqno : BitVec 32}
    {poff pend : Nat} (hpend : pend ≤ 127) (hframe : pend ≤ m.frame.length) (hpoff : poff ≤ pend)
    (h : decrypt E m replayConf port seqno poff pend = .ok m') :
    m'.frame.length = m.frame.length := by
  unfold decrypt at h
  split at h
  · cases h
    rfl
  · cases h
    rfl
  · obtain ⟨payload, hpayload, h⟩ := bind_eq_ok.mp h
    cases h
    have hdrop : (m.frame.drop poff).length = m.frame.length - poff := List.length_drop
    have hsub : (pend : Int) - poff = (pend - poff : Nat) := by omega
    rw [hsub, aesCipher_eq (by omega) (by omega)] at hpayload
    cases hpayload
    show (m.frame.take poff ++ _).length = _
    rw [List.length_append, List.length_append, length_crypt, ← List.length_append,
      List.take_append_drop, List.length_take]
    omega

theorem decrypt_session {replayConf : Bool} {port : Option Byte} {seqno : BitVec 32}
    {poff pend : Nat} (h : decrypt E m replayConf port seqno poff pend = .ok m') :
    m'.devaddr = m.devaddr ∧ m'.nwkKey = m.nwkKey ∧ m'.seqnoDn = m.seqnoDn := by
  unfold decrypt at h
  split at h
  · cases h
    exact ⟨rfl, rfl, rfl⟩
  · cases h
    exact ⟨rfl, rfl, rfl⟩
  · obtain ⟨payload, -, h⟩ := bind_eq_ok.mp h
    cases h
    exact ⟨rfl, rfl, rfl⟩

/-- The rest of the frame does not touch the counter and the keys. -/
theorem acceptFrame_session {fct : Byte} {replayConf : Bool} {port : Option Byte}
    {seqno : BitVec 32} {poff pend : Nat} (hpend : pend ≤ 127) (hframe : pend ≤ m.frame.length)
    (hpoff : poff ≤ pend) (h : acceptFrame E now m fct replayConf port seqno poff pend = .ok m') :
    m'.devaddr = m.devaddr ∧ m'.nwkKey = m.nwkKey ∧ m'.seqnoDn = m.seqnoDn ∧
      m'.frame.length = m.frame.length := by
  obtain ⟨m₁, h₁, h⟩ := bind_eq_ok.mp h
  obtain ⟨m₂, h₂, h⟩ := bind_eq_ok.mp h
  obtain ⟨m₃, h₃, h⟩ := bind_eq_ok.mp h
  cases h
  have hlink := (link_macOptions 16 h₂).trans (link_heard h₁)
  have haddr : m₂.devaddr = m.devaddr := congrArg Link.devaddr hlink
  have hkey : m₂.nwkKey = m.nwkKey := congrArg Link.nwkKey hlink
  have hseqno : m₂.seqnoDn = m.seqnoDn := congrArg Link.seqnoDn hlink
  have hsame : m₂.frame = m.frame := congrArg Link.frame hlink
  obtain ⟨haddr₃, hkey₃, hseqno₃⟩ := decrypt_session h₃
  have hlength := decrypt_length hpend (by rw [hsame]; exact hframe) hpoff h₃
  exact ⟨haddr₃.trans haddr, hkey₃.trans hkey, hseqno₃.trans hseqno, by rw [← hsame]; exact hlength⟩

theorem osRlsbf2_getD {buf : List Byte} {i : Nat} {v : BitVec 16} (h : osRlsbf2 buf i = .ok v) :
    v = buf.getD (i + 1) 0 ++ buf.getD i 0 := by
  have hload {j : Nat} {b : Byte} (hb : load buf j = .ok b) : b = buf.getD j 0 := by
    unfold load at hb
    rw [List.getD_eq_getElem?_getD]
    split at hb
    · cases hb
      rename_i hget
      rw [hget]
      rfl
    · cases hb
  obtain ⟨b0, h0, h⟩ := bind_eq_ok.mp h
  obtain ⟨b1, h1, h⟩ := bind_eq_ok.mp h
  cases h
  rw [hload h0, hload h1]

/-- What a downlink does to the counter: it is refused, and nothing is changed but its length;
    or its code is right for a counter that is not before the expected one, and the next one is
    expected then. -/
theorem decodeFrame_cases (hframe : m.frame.length = 64) (hlen : m.dataLen.toNat ≤ 64)
    (haddr : m.devaddr.length = 4) {accepted : Bool}
    (h : decodeFrame E now m = .ok (accepted, m')) :
    (accepted, m') = norx m ∨
      accepted = true ∧ m.micBytes = mic E m.nwkKey m.devaddr m.counter true m.msg ∧
        m.seqnoDn ≤ m.counter ∧ m'.seqnoDn = m.counter + 1 ∧ m'.devaddr = m.devaddr ∧
        m'.nwkKey = m.nwkKey ∧ m'.frame.length = 64 := by
  obtain ⟨hdr, -, h⟩ := bind_eq_ok.mp h
  dsimp only at h
  split at h
  · cases h
    exact .inl rfl
  · rename_i hsane
    obtain ⟨fct, -, h⟩ := bind_eq_ok.mp h
    obtain ⟨addr, -, h⟩ := bind_eq_ok.mp h
    obtain ⟨s, hs, h⟩ := bind_eq_ok.mp h
    split at h
    · cases h
      exact .inl rfl
    · rename_i hfits
      obtain ⟨port, -, h⟩ := bind_eq_ok.mp h
      have hcounter : extendSeqno m.seqnoDn s = m.counter := by
        rw [osRlsbf2_getD hs]
        rfl
      have hdlen : 12 ≤ m.dataLen.toNat := by
        have : offDatOpts + 4 = 12 := rfl
        omega
      have hmic := @aesVerifyMic_eq E m.nwkKey m.devaddr m.counter true m.frame
        (m.dataLen.toNat - 4) haddr (by omega) (by omega) (by omega)
      rw [hcounter, hmic, ok_bind] at h
      split at h
      · rename_i hverified
        rw [← hcounter, checkSeqno_extendSeqno, hcounter] at h
        by_cases hle : m.seqnoDn ≤ m.counter
        · rw [if_pos hle] at h
          obtain ⟨m₁, h₁, h⟩ := bind_eq_ok.mp h
          cases h
          have hkept : (expectNext m (hdr &&& hdrFtype) m.counter).frame.length = 64 := hframe
          obtain ⟨haddr₁, hkey₁, hseqno₁, hframe₁⟩ := acceptFrame_session (by omega)
            (by rw [hkept]; omega) (by split <;> omega) h₁
          exact .inr ⟨rfl, of_decide_eq_true hverified, hle, hseqno₁, haddr₁, hkey₁,
            hframe₁.trans hkept⟩
        · rw [if_neg hle] at h
          cases h
          exact .inl rfl
      · cases h
        exact .inl rfl

end Accept
/-! ## Runs -/

/-- A downlink that was accepted. -/
structure Downlink where
  nwkKey : List Byte
  devaddr : List Byte
  seqno : BitVec 32
  msg : List Byte
  micBytes : List Byte
deriving DecidableEq, Repr

/-- The frame in LMIC as it is accepted. -/
def Mac.downlink (m : Mac) : Downlink := ⟨m.nwkKey, m.devaddr, m.counter, m.msg, m.micBytes⟩

/-- The radio has received a frame. -/
def Mac.received (m : Mac) (bytes : List Byte) : Mac :=
  { m with frame := overwrite m.frame 0 bytes, dataLen := BitVec.ofNat 8 bytes.length }

/-- What happens to LMIC: a frame comes, the other code works on it, or a session begins. -/
inductive DnAct where
  | rx (now : BitVec 64) (bytes : List Byte)
  | work (m : Mac)
  | joined (m : Mac)
deriving DecidableEq, Repr

/-- LMIC, and the downlinks accepted so far, the latest one first. -/
abbrev DnState := Mac × List Downlink

def dnStep (E : List Byte → BitVec 128 → BitVec 128) (p : DnState) : DnAct → Option DnState
  | .rx now bytes =>
    match decodeFrame E now (p.1.received bytes) with
    | .ok (true, m) => some (m, (p.1.received bytes).downlink :: p.2)
    | .ok (false, m) => some (m, p.2)
    | .error _ => none
  | .work m => some (m, p.2)
  | .joined m => some ({ m with seqnoDn := 0 }, p.2)

/-- The arrays of LMIC. -/
def Mac.Sized (m : Mac) : Prop := m.frame.length = 64 ∧ m.devaddr.length = 4

instance (m : Mac) : Decidable m.Sized := inferInstanceAs (Decidable (_ ∧ _))

/-- A frame fits in LMIC.frame, and the network does not use the last counter; only a downlink
    and a new session change the counter and the keys; a new session has a key of its own. -/
def InSession (p : DnState) : DnAct → Prop
  | .rx _ bytes => bytes.length ≤ 64 ∧ (p.1.received bytes).counter ≠ 0xFFFFFFFF
  | .work m => m.Sized ∧ m.nwkKey = p.1.nwkKey ∧ m.seqnoDn = p.1.seqnoDn
  | .joined m => m.Sized ∧ ∀ d ∈ p.2, d.nwkKey ≠ m.nwkKey

instance (p : DnState) : (a : DnAct) → Decidable (InSession p a)
  | .rx _ _ => inferInstanceAs (Decidable (_ ∧ _))
  | .work _ => inferInstanceAs (Decidable (_ ∧ _))
  | .joined _ => inferInstanceAs (Decidable (_ ∧ _))

/-- The system, from a state of LMIC. -/
def downlinkLts (E : List Byte → BitVec 128 → BitVec 128) (m : Mac) : Lts DnState DnAct :=
  .ofStep (m, []) (dnStep E)

/-- The downlinks under one key have ascending counters. -/
def Ascending (log : List Downlink) : Prop :=
  log.Pairwise fun new old => old.nwkKey = new.nwkKey → old.seqno < new.seqno

/-- The code of a downlink is right. -/
def Downlink.Authentic (E : List Byte → BitVec 128 → BitVec 128) (d : Downlink) : Prop :=
  d.micBytes = mic E d.nwkKey d.devaddr d.seqno true d.msg

/-- What holds between the steps. -/
structure Guarded (E : List Byte → BitVec 128 → BitVec 128) (p : DnState) : Prop where
  sized : p.1.Sized
  ascending : Ascending p.2
  authentic : ∀ d ∈ p.2, d.Authentic E
  below : ∀ d ∈ p.2, d.nwkKey = p.1.nwkKey → d.seqno < p.1.seqnoDn

section Runs

variable {E : List Byte → BitVec 128 → BitVec 128} {m : Mac} {p p' : DnState}

theorem Mac.Sized.received (h : m.Sized) {bytes : List Byte} (hbytes : bytes.length ≤ 64) :
    (m.received bytes).Sized := by
  refine ⟨?_, h.2⟩
  show (overwrite m.frame 0 bytes).length = 64
  rw [length_overwrite (by rw [h.1]; omega), h.1]

theorem Guarded.rx (h : Guarded E p) {now : BitVec 64} {bytes : List Byte}
    (hbytes : bytes.length ≤ 64) (hlast : (p.1.received bytes).counter ≠ 0xFFFFFFFF)
    (hstep : dnStep E p (.rx now bytes) = some p') : Guarded E p' := by
  obtain ⟨m, log⟩ := p
  have hsized : (m.received bytes).Sized := h.sized.received hbytes
  have hdlen : (m.received bytes).dataLen.toNat ≤ 64 := by
    show (BitVec.ofNat 8 bytes.length).toNat ≤ 64
    rw [BitVec.toNat_ofNat]
    omega
  generalize hm : m.received bytes = r at hsized hdlen hlast
  have hseqno : r.seqnoDn = m.seqnoDn := by rw [← hm]; rfl
  have hkey : r.nwkKey = m.nwkKey := by rw [← hm]; rfl
  dsimp only [dnStep] at hstep
  rw [hm] at hstep
  split at hstep
  · rename_i m' hdecode
    cases hstep
    obtain heq | ⟨-, hmic, hle, hseqno', haddr', hkey', hframe'⟩ :=
      decodeFrame_cases hsized.1 hdlen hsized.2 hdecode
    · cases heq
    have hbelow : ∀ d ∈ log, d.nwkKey = r.nwkKey → d.seqno < r.seqnoDn := by
      rw [hseqno, hkey]
      exact h.below
    refine ⟨⟨hframe', by rw [haddr']; exact hsized.2⟩, ?_, ?_, ?_⟩
    · refine List.pairwise_cons.mpr ⟨fun d hd hsame => ?_, h.ascending⟩
      have hlt := hbelow d hd hsame
      show d.seqno < r.counter
      bv_omega
    · intro d hd
      rcases List.mem_cons.mp hd with rfl | hd
      · exact hmic
      · exact h.authentic d hd
    · intro d hd hsame
      show d.seqno < m'.seqnoDn
      rw [hseqno']
      rcases List.mem_cons.mp hd with rfl | hd
      · show r.counter < r.counter + 1
        bv_omega
      · have hlt := hbelow d hd (hsame.trans hkey')
        bv_omega
  · rename_i m' hdecode
    cases hstep
    obtain heq | ⟨hfalse, -⟩ := decodeFrame_cases hsized.1 hdlen hsized.2 hdecode
    · cases heq
      refine ⟨hsized, h.ascending, h.authentic, ?_⟩
      show ∀ d ∈ log, d.nwkKey = r.nwkKey → d.seqno < r.seqnoDn
      rw [hseqno, hkey]
      exact h.below
    · cases hfalse
  · cases hstep

theorem Guarded.step (h : Guarded E p) {a : DnAct} (hok : InSession p a)
    (hstep : dnStep E p a = some p') : Guarded E p' := by
  cases a with
  | rx now bytes => exact h.rx hok.1 hok.2 hstep
  | work m =>
    obtain ⟨hsized, hkey, hseqno⟩ := hok
    cases hstep
    refine ⟨hsized, h.ascending, h.authentic, ?_⟩
    show ∀ d ∈ p.2, d.nwkKey = m.nwkKey → d.seqno < m.seqnoDn
    rw [hkey, hseqno]
    exact h.below
  | joined m =>
    obtain ⟨hsized, hnew⟩ := hok
    cases hstep
    exact ⟨hsized, h.ascending, h.authentic, fun d hd hsame => absurd hsame (hnew d hd)⟩

theorem downlink_guarded (hsized : m.Sized) (h : (downlinkLts E m).Reach InSession p) :
    Guarded E p := by
  refine h.invariant ?_ ?_
  · rintro s rfl
    exact ⟨hsized, List.Pairwise.nil, by simp, by simp⟩
  · intro s a s' hs hok hstep
    exact hs.step hok hstep

end Runs

/-- LMIC with a session, behind `LMIC_reset`. -/
def macReady : Mac where
  toLmic := { Lora.lmicClear with
    devaddr := [1, 2, 3, 4], nwkKey := [5], frame := List.replicate 64 0 }
  seqnoDn := 0
  rejoinCnt := 0
  rssi := 0
  rps := 6
  rxtime := 0
  channelMap := 7
  channelFreq := List.replicate 16 0
  channelDrMap := List.replicate 16 0
  upRepeat := 0
  adrTxPow := 14
  dn2Freq := 869525000
  globalDutyRate := 0
  globalDutyAvail := 0
  pingFreq := 869525000
  bcnChnl := 5
  bcnTxtime := 0
  bcnFlags := 0
  bcnRxsyms := 0
  bcnRxtime := 0
  drift := 0
  maxDriftDiff := 0
  missedBcns := 0

/-- A cipher for runs. -/
def mixBlock (_ : List Byte) (x : BitVec 128) : BitVec 128 := x * 0x10000000100000001000000010001

/-- A frame without payload and options. -/
def emptyDownlink (E : List Byte → BitVec 128 → BitVec 128) (seqno : BitVec 32) : List Byte :=
  let msg := [hdrFtypeDadn, 1, 2, 3, 4, 0, seqno.setWidth 8, (seqno >>> 8).setWidth 8]
  msg ++ mic E [5] [1, 2, 3, 4] seqno true msg

end LuaRtos.Lmic
