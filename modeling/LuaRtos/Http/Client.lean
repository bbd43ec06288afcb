/-
  LuaRtos.Http.Client

  _http_request of http/httpclient.c up to the write of the request, with dissect_address and
  build_http_request.

  Strings are given without their terminators; `strstr` and `strchr` find a place as the text
  from there on.  A body that names a file is not in the request, and whether the file can be
  opened changes nothing about it.
-/

import Mathlib.Algebra.Group.Nat.Defs
import Mathlib.Data.List.TakeWhile
import LuaRtos.CLib.Str
import LuaRtos.Http.UrlEncode

namespace LuaRtos.Http

open LuaRtos.CLib

/-! ## The code -/

/-- `HTTP_REQUESTS`. -/
inductive HttpReq where
  | get
  | head
  | post
  | put
  | delete
  | trace
  | options
  | connect
  | patch
deriving DecidableEq, Repr

def HttpReq.name : HttpReq → List Byte
  | .get => chars "GET"
  | .head => chars "HEAD"
  | .post => chars "POST"
  | .put => chars "PUT"
  | .delete => chars "DELETE"
  | .trace => chars "TRACE"
  | .options => chars "OPTIONS"
  | .connect => chars "CONNECT"
  | .patch => chars "PATCH"

def slash : Byte := 0x2f

/-- `strstr`. -/
def strstr (t : List Byte) : List Byte → Option (List Byte)
  | [] => none
  | c :: s => if t.isPrefixOf (c :: s) then some (c :: s) else strstr t s

/-- `start_pos`. -/
def startPos (encoded_addr : List Byte) : List Byte :=
  match strstr (chars "://") encoded_addr with
  | none => encoded_addr
  | some p => p.drop 3

/-- The text before the first slash, and from it on. -/
def beforeSlash (start_pos : List Byte) : List Byte := start_pos.takeWhile (· ≠ slash)

def slashPos (start_pos : List Byte) : List Byte := start_pos.dropWhile (· ≠ slash)

/-- `strchr(host, '/')[0] = '\0'` -/
def removeSlash (host : List Byte) : Result (List Byte) := do
  match ← strchr slash host with
  | none => throw .nullDeref
  | some p => store host (host.length - p.length) nul

/-- `dissect_address` from `slash_pos` on: what it returns, with the blocks of the host and the
    resource. -/
def dissectStart (start_pos host resource : List Byte)
    (max_host_length max_resource_length : Nat) : Result (Bool × List Byte × List Byte) :=
  let slash_pos := slashPos start_pos
  if slash_pos.length ≤ 1 then do
    let host ← strcpy host (start_pos ++ [nul])
    let host ← (if slash_pos = [] then pure host else removeSlash host)
    let resource ← strcpy resource (lit "/")
    pure (true, host, resource)
  else if (beforeSlash start_pos).length ≤ 1 then pure (false, host, resource)
  else if max_host_length < (beforeSlash start_pos).length then pure (false, host, resource)
  else if max_resource_length < slash_pos.length then pure (false, host, resource)
  else do
    let host ← strcpy host (start_pos ++ [nul])
    let host ← store host (beforeSlash start_pos).length nul
    let resource ← strcpy resource (slash_pos ++ [nul])
    let resource ← store resource slash_pos.length nul
    pure (true, host, resource)

/-- `dissect_address` -/
def dissectAddress (malloc : (n : Nat) → Option (Block n)) (address host resource : List Byte)
    (max_host_length max_resource_length : Nat) : Result (Bool × List Byte × List Byte) := do
  let encoded_addr ← urlEncode malloc address
  let text ← readStr encoded_addr
  dissectStart (startPos text) host resource max_host_length max_resource_length

/-- The text of the `sprintf`. -/
def requestLines (http_req : HttpReq) (host resource : List Byte) : List Byte :=
  http_req.name ++ chars " " ++ resource ++ chars " HTTP/1.1\r\nHost: " ++ host ++
    chars "\r\nAccept-Encoding: gzip\r\nReferer: http://" ++ host ++ resource ++ chars "\r\n"

/-- `HTTP_FILE_ID` -/
def httpFileId : List Byte := chars "_#FiLe#_"

/-- `strstr(body, HTTP_FILE_ID) != body`: the body does not name a file. -/
def bodyText (body : List Byte) : Bool := !httpFileId.isPrefixOf body

/-- `build_http_request` -/
def buildHttpRequest (host resource : List Byte) (http_req : HttpReq) (request : List Byte)
    (header_lines body : Option (List Byte)) : Result (List Byte) := do
  let host ← readStr host
  let resource ← readStr resource
  let request ← strcpy request (requestLines http_req host resource ++ [nul])
  let request ← strcat request (header_lines.getD (chars "\r\n") ++ [nul])
  match body with
  | none => pure request
  | some body => if bodyText body then strcat request (body ++ [nul]) else pure request

/-- What the network and the memory answer: whether `gethostbyname` knows the host, whether
    the socket opens, and the blocks of `malloc`. -/
structure HttpAnswers where
  server : Bool
  sock : Bool
  malloc : (n : Nat) → Option (Block n)

inductive HttpStatus where
  | isHttps
  | dissectAddr
  | noSuchHost
  | openingSocket
  | outOfMem
deriving DecidableEq, Repr

/-- How it gets to the write: with an error, or with the blocks of the host, the resource and
    the request. -/
inductive HttpStart where
  | failed (status : HttpStatus)
  | write (host_addr resource_addr http_req_str : List Byte)
deriving DecidableEq, Repr

/-- The length of what the body adds to the request. -/
def bodyLength : Option (List Byte) → Nat
  | none => 0
  | some body => if bodyText body then body.length else 0

/-- The size of the block for the request. -/
def httpReqSize (address : List Byte) (header_lines body : Option (List Byte)) : Nat :=
  (256 + address.length + (header_lines.getD []).length + bodyLength body + 8) % 4294967296

/-- `_http_request` from the look-up of the host to the write. -/
def startRequest (a : HttpAnswers) (address : List Byte) (http_req : HttpReq)
    (header_lines body : Option (List Byte)) (host_addr resource_addr : List Byte) :
    Result HttpStart :=
  if !a.server then pure (.failed .noSuchHost)
  else if !a.sock then pure (.failed .openingSocket)
  else
    match a.malloc (httpReqSize address header_lines body) with
    | none => pure (.failed .outOfMem)
    | some block => do
      let http_req_str ← buildHttpRequest host_addr resource_addr http_req block.bytes
        header_lines body
      pure (.write host_addr resource_addr http_req_str)

/-- `_http_request`, up to the write. -/
def httpRequest (a : HttpAnswers) (address : List Byte) (http_req : HttpReq)
    (header_lines body : Option (List Byte)) : Result HttpStart :=
  if (strstr (chars "https://") address).isSome then pure (.failed .isHttps)
  else do
    let (dissected, host_addr, resource_addr) ←
      dissectAddress a.malloc address (freshBlock 256).bytes (freshBlock 256).bytes 256 256
    if !dissected then pure (.failed .dissectAddr)
    else startRequest a address http_req header_lines body host_addr resource_addr

/-! ## The host and the resource -/

def hostOf (start_pos : List Byte) : List Byte := beforeSlash start_pos

def resourceOf (start_pos : List Byte) : List Byte :=
  if (slashPos start_pos).length ≤ 1 then [slash] else slashPos start_pos

/-- The address is refused. -/
def Refused (start_pos : List Byte) : Prop :=
  1 < (slashPos start_pos).length ∧ ((beforeSlash start_pos).length ≤ 1 ∨
    256 < (beforeSlash start_pos).length ∨ 256 < (slashPos start_pos).length)

section Dissect

variable {start_pos host resource host' resource' s t : List Byte}

theorem before_append_slashPos (s : List Byte) : beforeSlash s ++ slashPos s = s :=
  List.takeWhile_append_dropWhile

theorem length_before_add (s : List Byte) :
    (beforeSlash s).length + (slashPos s).length = s.length := by
  rw [← List.length_append, before_append_slashPos]

theorem slash_notMem_before (s : List Byte) : slash ∉ beforeSlash s := by
  intro hmem
  have hne : slash ≠ slash :=
    of_decide_eq_true (List.mem_takeWhile_imp (p := fun c : Byte => c ≠ slash) hmem)
  exact hne rfl

theorem slashPos_head (h : slashPos s ≠ []) : ∃ r, slashPos s = slash :: r := by
  have hhead := of_decide_eq_false (List.head_dropWhile_not (fun c : Byte => c ≠ slash) h)
  refine ⟨(slashPos s).tail, ?_⟩
  rw [← Decidable.not_not.mp hhead]
  exact (List.cons_head_tail h).symm

theorem strcpy_lt {b b' : List Byte} (ht : nul ∉ t) (w : List Byte)
    (h : strcpy b (t ++ nul :: w) = .ok b') : t.length < b.length := by
  rw [strcpy_eq ht] at h
  split at h
  next hlt => exact hlt
  next => cases h

/-- A refused address leaves both buffers as they were. -/
theorem dissectStart_refused (h : Refused start_pos) (host resource : List Byte) :
    dissectStart start_pos host resource 256 256 = .ok (false, host, resource) := by
  obtain ⟨hslash, hlen⟩ := h
  unfold dissectStart
  dsimp only
  rw [if_neg (Nat.not_le.mpr hslash)]
  by_cases hshort : (beforeSlash start_pos).length ≤ 1
  · exact if_pos hshort
  rw [if_neg hshort]
  by_cases hhost : 256 < (beforeSlash start_pos).length
  · exact if_pos hhost
  rw [if_neg hhost]
  exact if_pos ((hlen.resolve_left hshort).resolve_left hhost)

/-- Both copies start with the whole text behind the protocol. -/
theorem dissectStart_length (hnul : nul ∉ start_pos) (hhost : host.length = 256)
    (hgo : ¬ Refused start_pos) {r : Bool × List Byte × List Byte}
    (h : dissectStart start_pos host resource 256 256 = .ok r) : start_pos.length < 256 := by
  unfold dissectStart at h
  dsimp only at h
  by_cases hslash : (slashPos start_pos).length ≤ 1
  · rw [if_pos hslash] at h
    obtain ⟨b, hcopy, -⟩ := bind_eq_ok.mp h
    exact Nat.lt_of_lt_of_eq (strcpy_lt hnul [] hcopy) hhost
  · have hrest := fun hlen => hgo ⟨Nat.lt_of_not_le hslash, hlen⟩
    rw [if_neg hslash, if_neg fun h1 => hrest (.inl h1), if_neg fun h2 => hrest (.inr (.inl h2)),
      if_neg fun h3 => hrest (.inr (.inr h3))] at h
    obtain ⟨b, hcopy, -⟩ := bind_eq_ok.mp h
    exact Nat.lt_of_lt_of_eq (strcpy_lt hnul [] hcopy) hhost

theorem removeSlash_ok (hs : slashPos s ≠ []) (h : Holds 256 host s) :
    ∃ host', removeSlash host = .ok host' ∧ Holds 256 host' (beforeSlash s) := by
  obtain ⟨post, hpost, hlen⟩ := h.exists_post
  obtain ⟨r, hr⟩ := slashPos_head hs
  have hsplit : host = beforeSlash s ++ slash :: (r ++ nul :: post) := by
    rw [hpost]
    nth_rewrite 1 [← before_append_slashPos s]
    rw [hr, List.append_assoc, List.cons_append]
  have hbefore : nul ∉ beforeSlash s := by
    intro hmem
    apply h.nul_free
    rw [← before_append_slashPos s]
    exact List.mem_append_left _ hmem
  have hfind : strchr slash host = .ok (some (slash :: (r ++ nul :: post))) := by
    rw [hsplit]
    exact strchr_append (slash_notMem_before s) hbefore _
  have hindex : host.length - (slash :: (r ++ nul :: post)).length = (beforeSlash s).length := by
    rw [hsplit, List.length_append, Nat.add_sub_cancel]
  have hcut : Holds 256 host (beforeSlash s ++ slashPos s) := by
    rw [before_append_slashPos]
    exact h
  obtain ⟨host', hstore, hholds⟩ := hcut.cut
  refine ⟨host', ?_, hholds⟩
  rw [removeSlash, hfind, ok_bind]
  show store host (host.length - _) nul = _
  rw [hindex]
  exact hstore

/-- What fits is dissected. -/
theorem dissectStart_fits (hnul : nul ∉ start_pos) (hhost : host.length = 256)
    (hresource : resource.length = 256) (hgo : ¬ Refused start_pos)
    (hfit : start_pos.length < 256) :
    ∃ host' resource', dissectStart start_pos host resource 256 256 =
        .ok (true, host', resource') ∧
      Holds 256 host' (hostOf start_pos) ∧ Holds 256 resource' (resourceOf start_pos) := by
  have hlen := length_before_add start_pos
  have hnul' : nul ∉ slashPos start_pos := by
    intro hmem
    apply hnul
    rw [← before_append_slashPos start_pos]
    exact List.mem_append_right _ hmem
  obtain ⟨b, hcopy, hb⟩ := strcpy_holds hhost hnul [] hfit
  have hcopy' : strcpy host (start_pos ++ [nul]) = .ok b := hcopy
  unfold dissectStart resourceOf hostOf
  dsimp only
  by_cases hslash : (slashPos start_pos).length ≤ 1
  · have hone : nul ∉ [slash] := by decide
    obtain ⟨resource', hres, hholds⟩ := strcpy_holds hresource hone [] (by decide)
    have hres' : strcpy resource (lit "/") = .ok resource' := hres
    rw [if_pos hslash, if_pos hslash, hcopy', ok_bind]
    by_cases hnone : slashPos start_pos = []
    · have hwhole : beforeSlash start_pos = start_pos := by
        have happ := before_append_slashPos start_pos
        rwa [hnone, List.append_nil] at happ
      refine ⟨b, resource', ?_, ?_, hholds⟩
      · rw [if_pos hnone, pure_eq_ok, ok_bind, hres', ok_bind, pure_eq_ok]
      · rw [hwhole]
        exact hb
    · obtain ⟨host', hrem, hhost'⟩ := removeSlash_ok hnone hb
      refine ⟨host', resource', ?_, hhost', hholds⟩
      rw [if_neg hnone, hrem, ok_bind, hres', ok_bind, pure_eq_ok]
  · have hrest := fun hlen => hgo ⟨Nat.lt_of_not_le hslash, hlen⟩
    rw [if_neg hslash, if_neg hslash, if_neg fun h1 => hrest (.inl h1),
      if_neg fun h2 => hrest (.inr (.inl h2)), if_neg fun h3 => hrest (.inr (.inr h3)), hcopy',
      ok_bind]
    have hwhole : Holds 256 b (beforeSlash start_pos ++ slashPos start_pos) := by
      rw [before_append_slashPos]
      exact hb
    obtain ⟨host', hstore, hhost'⟩ := hwhole.cut
    obtain ⟨c, hcopy2, hc⟩ := strcpy_holds hresource hnul' [] (by omega)
    have hcopy2' : strcpy resource (slashPos start_pos ++ [nul]) = .ok c := hcopy2
    have hwhole2 : Holds 256 c (slashPos start_pos ++ []) := by
      rw [List.append_nil]
      exact hc
    obtain ⟨resource', hstore2, hres'⟩ := hwhole2.cut
    refine ⟨host', resource', ?_, hhost', hres'⟩
    rw [hstore, ok_bind, hcopy2', ok_bind, hstore2, ok_bind, pure_eq_ok]

end Dissect

/-! ## The request -/

/-- What the body adds to the request. -/
def bodyPart : Option (List Byte) → List Byte
  | none => []
  | some body => if bodyText body then body else []

/-- The whole text of the request. -/
def requestText (http_req : HttpReq) (host resource : List Byte)
    (header_lines body : Option (List Byte)) : List Byte :=
  requestLines http_req host resource ++ header_lines.getD (chars "\r\n") ++ bodyPart body

/-- Its length, for an address that is `start_pos` behind the protocol. -/
def requestLength (http_req : HttpReq) (start_pos : List Byte)
    (header_lines body : Option (List Byte)) : Nat :=
  http_req.name.length + 61 +
    2 * (start_pos.length + if slashPos start_pos = [] then 1 else 0) +
    (header_lines.getD (chars "\r\n")).length + bodyLength body

section Request

variable {http_req : HttpReq} {start_pos host resource h t : List Byte}
  {header_lines body : Option (List Byte)}

theorem length_requestLines (http_req : HttpReq) (h t : List Byte) :
    (requestLines http_req h t).length = http_req.name.length + 61 + 2 * (h.length + t.length) := by
  have h1 : (chars " ").length = 1 := by decide
  have h2 : (chars " HTTP/1.1\r\nHost: ").length = 17 := by decide
  have h3 : (chars "\r\nAccept-Encoding: gzip\r\nReferer: http://").length = 41 := by decide
  have h4 : (chars "\r\n").length = 2 := by decide
  simp only [requestLines, List.length_append, h1, h2, h3, h4]
  omega

theorem length_hostOf_add (s : List Byte) :
    (hostOf s).length + (resourceOf s).length =
      s.length + if slashPos s = [] then 1 else 0 := by
  have hlen := length_before_add s
  unfold hostOf resourceOf
  by_cases hnone : slashPos s = []
  · have hzero : (slashPos s).length = 0 := List.length_eq_zero_iff.mpr hnone
    rw [if_pos hnone, if_pos (by omega)]
    show (beforeSlash s).length + 1 = s.length + 1
    omega
  · have hpos : 0 < (slashPos s).length := List.length_pos_iff.mpr hnone
    rw [if_neg hnone]
    by_cases hone : (slashPos s).length ≤ 1
    · rw [if_pos hone]
      show (beforeSlash s).length + 1 = s.length + 0
      omega
    · rw [if_neg hone]
      omega

theorem length_bodyPart (body : Option (List Byte)) :
    (bodyPart body).length = bodyLength body := by
  cases body with
  | none => rfl
  | some s =>
    show (if bodyText s then s else []).length = if bodyText s then s.length else 0
    rw [apply_ite List.length]
    rfl

theorem length_requestText : (requestText http_req (hostOf start_pos) (resourceOf start_pos)
    header_lines body).length = requestLength http_req start_pos header_lines body := by
  rw [requestText, requestLength, List.length_append, List.length_append, length_requestLines,
    length_hostOf_add, length_bodyPart]

theorem nul_notMem_requestLines (http_req : HttpReq) (hh : nul ∉ h) (ht : nul ∉ t) :
    nul ∉ requestLines http_req h t := by
  have hname : nul ∉ http_req.name := by cases http_req <;> decide
  have h1 : nul ∉ chars " " := by decide
  have h2 : nul ∉ chars " HTTP/1.1\r\nHost: " := by decide
  have h3 : nul ∉ chars "\r\nAccept-Encoding: gzip\r\nReferer: http://" := by decide
  have h4 : nul ∉ chars "\r\n" := by decide
  simp only [requestLines, List.mem_append, not_or]
  exact ⟨⟨⟨⟨⟨⟨⟨⟨hname, h1⟩, ht⟩, h2⟩, hh⟩, h3⟩, hh⟩, ht⟩, h4⟩

theorem strcat_ok_iff {n : Nat} {b s : List Byte} (h : Holds n b s) (ht : nul ∉ t) :
    (∃ b', strcat b (t ++ [nul]) = .ok b') ↔ (s ++ t).length < n := by
  constructor
  · rintro ⟨b', hcat⟩
    exact (h.strcat_inv ht hcat).length_lt
  · intro hfit
    rw [List.length_append] at hfit
    exact h.strcat_ok ht [] hfit

/-- The request is written just where it fits. -/
theorem buildHttpRequest_ok (http_req : HttpReq) {n : Nat} {request : List Byte}
    (hsize : request.length = n) (hhost : Holds 256 host h) (hresource : Holds 256 resource t)
    (hheader : ∀ s ∈ header_lines, nul ∉ s) (hbody : ∀ s ∈ body, nul ∉ s) :
    (∀ r, buildHttpRequest host resource http_req request header_lines body = .ok r →
      Holds n r (requestText http_req h t header_lines body)) ∧
    ((requestText http_req h t header_lines body).length < n →
      ∃ r, buildHttpRequest host resource http_req request header_lines body = .ok r) := by
  have hlines := nul_notMem_requestLines http_req hhost.nul_free hresource.nul_free
  have hlines2 : nul ∉ header_lines.getD (chars "\r\n") := by
    cases header_lines with
    | none => decide
    | some s => exact hheader s rfl
  unfold buildHttpRequest
  rw [hhost.str, hresource.str, ok_bind, ok_bind]
  constructor
  · intro r hrun
    obtain ⟨b, hcopy, hrun⟩ := bind_eq_ok.mp hrun
    obtain ⟨c, hcat, hrun⟩ := bind_eq_ok.mp hrun
    have hlt := strcpy_lt hlines [] hcopy
    rw [hsize] at hlt
    obtain ⟨b', hcopy', hb⟩ := strcpy_holds hsize hlines [] hlt
    have hbb : b' = b := Except.ok.inj (hcopy'.symm.trans hcopy)
    rw [hbb] at hb
    have hc := hb.strcat_inv hlines2 hcat
    cases body with
    | none =>
      have hcr : c = r := Except.ok.inj hrun
      rw [← hcr, requestText, bodyPart, List.append_nil]
      exact hc
    | some s =>
      dsimp only at hrun
      unfold requestText bodyPart
      dsimp only
      by_cases htext : bodyText s = true
      · rw [if_pos htext] at hrun ⊢
        exact hc.strcat_inv (hbody s rfl) hrun
      · rw [if_neg htext] at hrun ⊢
        have hcr : c = r := Except.ok.inj hrun
        rw [← hcr, List.append_nil]
        exact hc
  · intro hfit
    unfold requestText at hfit
    have hfit2 : (requestLines http_req h t ++ header_lines.getD (chars "\r\n")).length < n := by
      rw [List.length_append] at hfit
      omega
    have hfit1 : (requestLines http_req h t).length < n := by
      rw [List.length_append] at hfit2
      omega
    obtain ⟨b, hcopy, hb⟩ := strcpy_holds hsize hlines [] hfit1
    obtain ⟨c, hcat⟩ := (strcat_ok_iff hb hlines2).mpr hfit2
    have hc := hb.strcat_inv hlines2 hcat
    rw [hcopy, ok_bind, hcat, ok_bind]
    cases body with
    | none => exact ⟨c, rfl⟩
    | some s =>
      unfold bodyPart at hfit
      dsimp only at hfit ⊢
      by_cases htext : bodyText s = true
      · rw [if_pos htext] at hfit ⊢
        exact (strcat_ok_iff hc (hbody s rfl)).mpr hfit
      · rw [if_neg htext]
        exact ⟨c, rfl⟩

end Request

/-! ## Every URL -/

/-- The URL is refused, the request does not come to the write, or the host, the resource and the
    request are in their blocks. -/
def ClientRequestRight (a : HttpAnswers) (address : List Byte) (http_req : HttpReq)
    (header_lines body : Option (List Byte)) : Prop :=
  ∃ out, httpRequest a address http_req header_lines body = .ok out ∧
    ∀ host resource text, out = .write host resource text → ∃ h r,
      Holds 256 host h ∧ Holds 256 resource r ∧
        Holds (httpReqSize address header_lines body) text
          (requestText http_req h r header_lines body)

/-- The URL is refused, or there is room: for its encoding, for the text behind the protocol in
    one of the buffers, and for the request if it comes to it. -/
def ClientRequestFits (a : HttpAnswers) (address : List Byte) (http_req : HttpReq)
    (header_lines body : Option (List Byte)) : Prop :=
  (strstr (chars "https://") address).isSome = true ∨
    ((a.malloc (encodeSize address)).isSome = true ∧
      (encoded address).length < encodeSize address) ∧
    (Refused (startPos (encoded address)) ∨ (startPos (encoded address)).length < 256 ∧
      (a.server = false ∨ a.sock = false ∨
        a.malloc (httpReqSize address header_lines body) = none ∨
        requestLength http_req (startPos (encoded address)) header_lines body <
          httpReqSize address header_lines body))

section Request

variable {a : HttpAnswers} {address : List Byte} {http_req : HttpReq}
  {header_lines body : Option (List Byte)} {host resource h r : List Byte}

theorem strstr_subset {t s p : List Byte} (h : strstr t s = some p) : p ⊆ s := by
  induction s with
  | nil => cases h
  | cons c s ih =>
    rw [strstr] at h
    split at h
    next => rw [Option.some.inj h]; exact List.Subset.refl _
    next => exact List.Subset.trans (ih h) (List.subset_cons_self c s)

theorem startPos_subset (s : List Byte) : startPos s ⊆ s := by
  unfold startPos
  cases hp : strstr (chars "://") s with
  | none => exact List.Subset.refl s
  | some p => exact List.Subset.trans (List.drop_subset 3 p) (strstr_subset hp)

/-- From the look-up on: whether it gets through, and what is written. -/
theorem startRequest_ok (a : HttpAnswers) (address : List Byte) (http_req : HttpReq)
    (hhost : Holds 256 host h) (hresource : Holds 256 resource r)
    (hheader : ∀ s ∈ header_lines, nul ∉ s) (hbody : ∀ s ∈ body, nul ∉ s) :
    (∀ out, startRequest a address http_req header_lines body host resource = .ok out →
      (a.server = false ∨ a.sock = false ∨
        a.malloc (httpReqSize address header_lines body) = none ∨
        (requestText http_req h r header_lines body).length <
          httpReqSize address header_lines body) ∧
      ∀ host' resource' text, out = .write host' resource' text →
        host' = host ∧ resource' = resource ∧
          Holds (httpReqSize address header_lines body) text
            (requestText http_req h r header_lines body)) ∧
    ((a.server = false ∨ a.sock = false ∨
        a.malloc (httpReqSize address header_lines body) = none ∨
        (requestText http_req h r header_lines body).length <
          httpReqSize address header_lines body) →
      ∃ out, startRequest a address http_req header_lines body host resource = .ok out) := by
  have hfailed : ∀ (status : HttpStatus) (host' resource' text : List Byte),
      HttpStart.failed status ≠ .write host' resource' text := by
    intro status host' resource' text heq
    cases heq
  unfold startRequest
  by_cases hserver : a.server = false
  · rw [hserver]
    constructor
    · intro out hout
      have hout : HttpStart.failed .noSuchHost = out := Except.ok.inj hout
      rw [← hout]
      exact ⟨.inl rfl, fun host' resource' text heq => absurd heq (hfailed _ _ _ _)⟩
    · exact fun _ => ⟨_, rfl⟩
  by_cases hsock : a.sock = false
  · rw [eq_true_of_ne_false hserver, hsock]
    constructor
    · intro out hout
      have hout : HttpStart.failed .openingSocket = out := Except.ok.inj hout
      rw [← hout]
      exact ⟨.inr (.inl rfl), fun host' resource' text heq => absurd heq (hfailed _ _ _ _)⟩
    · exact fun _ => ⟨_, rfl⟩
  rw [eq_true_of_ne_false hserver, eq_true_of_ne_false hsock]
  cases hmalloc : a.malloc (httpReqSize address header_lines body) with
  | none =>
    constructor
    · intro out hout
      have hout : HttpStart.failed .outOfMem = out := Except.ok.inj hout
      rw [← hout]
      exact ⟨.inr (.inr (.inl rfl)),
        fun host' resource' text heq => absurd heq (hfailed _ _ _ _)⟩
    · exact fun _ => ⟨_, rfl⟩
  | some block =>
    obtain ⟨hwrites, hfits⟩ := buildHttpRequest_ok http_req block.size hhost hresource
      hheader hbody
    constructor
    · intro out hout
      obtain ⟨text, hbuild, hout⟩ := bind_eq_ok.mp hout
      have hout : HttpStart.write host resource text = out := Except.ok.inj hout
      have hholds := hwrites text hbuild
      refine ⟨.inr (.inr (.inr hholds.length_lt)), ?_⟩
      intro host' resource' text' heq
      obtain ⟨rfl, rfl, rfl⟩ := HttpStart.write.inj (hout.trans heq)
      exact ⟨rfl, rfl, hholds⟩
    · rintro (hs | hs | hs | hlt)
      · cases hs
      · cases hs
      · cases hs
      · obtain ⟨text, hbuild⟩ := hfits hlt
        refine ⟨.write host resource text, ?_⟩
        show (buildHttpRequest _ _ _ _ _ _ >>= _) = _
        rw [hbuild, ok_bind]
        rfl

/-- `dissect_address` of an address whose encoding fits. -/
theorem dissectAddress_encoded (hnul : nul ∉ address)
    (hmem : (a.malloc (encodeSize address)).isSome = true)
    (hroom : (encoded address).length < encodeSize address) (host resource : List Byte)
    (mh mr : Nat) : dissectAddress a.malloc address host resource mh mr =
      dissectStart (startPos (encoded address)) host resource mh mr := by
  obtain ⟨block, hblock⟩ := (urlEncode_ok_iff a.malloc address).mpr ⟨hmem, hroom⟩
  rw [dissectAddress, hblock, ok_bind,
    urlEncode_readStr hblock (nul_notMem_encoded hnul), ok_bind]

/-- The request is safe just where there is room for it. -/
theorem clientRequestRight_iff (a : HttpAnswers) (address : List Byte) (http_req : HttpReq)
    (header_lines body : Option (List Byte)) (hnul : nul ∉ address)
    (hheader : ∀ s ∈ header_lines, nul ∉ s) (hbody : ∀ s ∈ body, nul ∉ s) :
    ClientRequestRight a address http_req header_lines body ↔
      ClientRequestFits a address http_req header_lines body := by
  unfold ClientRequestRight ClientRequestFits httpRequest
  by_cases hhttps : (strstr (chars "https://") address).isSome = true
  · rw [if_pos hhttps]
    refine iff_of_true ⟨_, rfl, ?_⟩ (.inl hhttps)
    intro host resource text heq
    cases heq
  rw [if_neg hhttps, or_iff_right hhttps]
  by_cases henc : (a.malloc (encodeSize address)).isSome = true ∧
      (encoded address).length < encodeSize address
  · rw [dissectAddress_encoded hnul henc.1 henc.2, and_iff_right henc]
    have hstart : nul ∉ startPos (encoded address) :=
      fun hmem => nul_notMem_encoded hnul (startPos_subset _ hmem)
    have hsize : (freshBlock 256).bytes.length = 256 := (freshBlock 256).size
    by_cases hrefused : Refused (startPos (encoded address))
    · rw [dissectStart_refused hrefused, ok_bind]
      refine iff_of_true ⟨_, rfl, ?_⟩ (.inl hrefused)
      intro host resource text heq
      cases heq
    rw [or_iff_right hrefused]
    by_cases hlt : (startPos (encoded address)).length < 256
    · obtain ⟨host, resource, hrun, hhost, hresource⟩ :=
        dissectStart_fits hstart hsize hsize hrefused hlt
      obtain ⟨hout, hgo⟩ := startRequest_ok a address http_req hhost hresource hheader hbody
      rw [hrun, ok_bind, and_iff_right hlt, ← length_requestText]
      constructor
      · rintro ⟨out, hrun, -⟩
        exact (hout out hrun).1
      · intro hcond
        obtain ⟨out, hrun⟩ := hgo hcond
        refine ⟨out, hrun, ?_⟩
        intro host' resource' text heq
        obtain ⟨rfl, rfl, hholds⟩ := (hout out hrun).2 _ _ _ heq
        exact ⟨_, _, hhost, hresource, hholds⟩
    · refine iff_of_false ?_ (fun hright => hlt hright.1)
      rintro ⟨out, hrun, -⟩
      obtain ⟨r, hr, -⟩ := bind_eq_ok.mp hrun
      exact hlt (dissectStart_length hstart hsize hrefused hr)
  · refine iff_of_false ?_ (fun hright => henc hright.1)
    rintro ⟨out, hrun, -⟩
    obtain ⟨r, hr, -⟩ := bind_eq_ok.mp hrun
    obtain ⟨block, hblock, -⟩ := bind_eq_ok.mp hr
    exact henc ((urlEncode_ok_iff a.malloc address).mp ⟨block, hblock⟩)

end Request

/-- A known host, a socket and memory. -/
def answering : HttpAnswers := ⟨true, true, fun n => some (freshBlock n)⟩

theorem clientRequestRight_iff_page :
    ClientRequestRight answering (chars "http://lua.org/a") .post (some (chars "A: b\r\n\r\n"))
        (some (chars "x=1")) ↔
      ClientRequestFits answering (chars "http://lua.org/a") .post (some (chars "A: b\r\n\r\n"))
        (some (chars "x=1")) :=
  clientRequestRight_iff answering _ .post _ _ (by decide)
    (fun s hs => by rw [← Option.some.inj hs]; decide)
    (fun s hs => by rw [← Option.some.inj hs]; decide)

/-- A host of 256 letters fills its buffer and leaves no room for the terminator; one of 220
    letters, which is twice in the request, makes it longer than its block. -/
theorem not_clientRequestRight_long : nul ∉ List.replicate 256 (0x61 : Byte) ∧
    httpRequest answering (List.replicate 256 0x61) .get none none = .error .outOfBounds ∧
    httpRequest answering (List.replicate 220 0x61) .get none none = .error .outOfBounds ∧
    ¬ ClientRequestRight answering (List.replicate 256 0x61) .get none none := by
  have hhost : httpRequest answering (List.replicate 256 0x61) .get none none =
      .error .outOfBounds := by decide +kernel
  refine ⟨by decide, hhost, by decide +kernel, ?_⟩
  rintro ⟨out, hrun, -⟩
  rw [hhost] at hrun
  cases hrun

end LuaRtos.Http
