/-
  LuaRtos.Http.ServerReply

  What the server sends for a request: one response, with a body as long as it says or in
  chunks up to the last one.

  A path that is no directory is answered twice, with the file and then with the error 404, and
  so is a header that promises a file for which no block is got.  A directory that is called
  index.html and can be opened has a header that promises chunks, and none follow.
-/

import LuaRtos.Http.Server

namespace LuaRtos.Http

open LuaRtos.CLib LuaRtos.Sys

/-! ## Headers -/

section Header

variable {status : Nat} {title : List Byte} {mime : Option (List Byte)} {length : Int}

theorem cr_notMem_formatD (n : Nat) : cr ∉ formatD n := by
  intro hmem
  have hdigit := isDigit_of_mem_formatD cr hmem
  revert hdigit
  decide

/-- The line that says how long the body is, or that it is in chunks. -/
def lengthLine (length : Int) : List Byte :=
  if 0 ≤ length then chars "Content-Length: " ++ formatD length
  else chars "Transfer-Encoding: chunked"

/-- The lines that every header ends with. -/
def lastLines : List (List Byte) :=
  [chars "Connection: close", chars "Cache-Control: no-cache, no-store, must-revalidate",
    chars "no-cache", chars "0"]

theorem lastLines_plain : ∀ l ∈ lastLines, cr ∉ l ∧ l ≠ [] := by decide

theorem headerLines_eq : headerLines status title none mime length =
    (chars "HTTP/1.1 " ++ (formatD status ++ chars " " ++ title)) ::
    chars "Server: lua-rtos-http-server/1.0" ::
    ((mime.map fun m => chars "Content-Type: " ++ m).toList ++
      lengthLine length :: lastLines) := by
  simp only [headerLines, lengthLine, lastLines, List.append_assoc, Option.toList_none,
    List.nil_append, List.cons_append]

theorem lengthLine_plain (length : Int) : cr ∉ lengthLine length ∧ lengthLine length ≠ [] := by
  unfold lengthLine
  by_cases hlen : 0 ≤ length
  · rw [if_pos hlen]
    obtain ⟨n, rfl⟩ := Int.eq_ofNat_of_zero_le hlen
    constructor
    · intro hmem
      rcases List.mem_append.mp hmem with h | h
      · revert h
        decide
      · exact cr_notMem_formatD n h
    · exact List.append_ne_nil_of_left_ne_nil (by decide) _
  · rw [if_neg hlen]
    constructor <;> decide

/-- A line that ends where it should, and not at once. -/
theorem headerLines_plain (htitle : cr ∉ title) (hmime : ∀ m ∈ mime, cr ∉ m) :
    ∀ l ∈ headerLines status title none mime length, cr ∉ l ∧ l ≠ [] := by
  intro l hl
  rw [headerLines_eq] at hl
  rcases List.mem_cons.mp hl with rfl | hl
  · constructor
    · intro hmem
      simp only [List.mem_append] at hmem
      rcases hmem with h | (h | h) | h
      · revert h
        decide
      · exact cr_notMem_formatD status h
      · revert h
        decide
      · exact htitle h
    · exact List.append_ne_nil_of_left_ne_nil (by decide) _
  rcases List.mem_cons.mp hl with rfl | hl
  · constructor <;> decide
  rcases List.mem_append.mp hl with hl | hl
  · cases mime with
    | none => cases hl
    | some m =>
      rw [List.mem_singleton.mp hl]
      constructor
      · intro hmem
        rcases List.mem_append.mp hmem with h | h
        · revert h
          decide
        · exact hmime m rfl h
      · exact List.append_ne_nil_of_left_ne_nil (by decide) _
  rcases List.mem_cons.mp hl with rfl | hl
  · exact lengthLine_plain length
  · exact lastLines_plain l hl

theorem splitHeader_sendHeaders (htitle : cr ∉ title) (hmime : ∀ m ∈ mime, cr ∉ m)
    (body : List Byte) :
    splitHeader [] (sendHeaders status title none mime length ++ body) =
      some (headerLines status title none mime length, body) :=
  splitHeader_flatMap (fun l hl => (headerLines_plain htitle hmime l hl).1)
    (fun l hl => (headerLines_plain htitle hmime l hl).2) body

theorem fieldValue_lengthLine (n : Nat) :
    fieldValue (chars "Content-Length: ") (lengthLine n) = some (formatD n) := by
  unfold lengthLine
  rw [if_pos (Int.natCast_nonneg n)]
  rfl

theorem contentLength_headerLines : contentLength (headerLines status title none mime length) =
    if 0 ≤ length then some length.toNat else none := by
  have hmime : ((mime.map fun m => chars "Content-Type: " ++ m).toList).findSome?
      (fieldValue (chars "Content-Length: ")) = none := by
    cases mime <;> rfl
  have hfirst : fieldValue (chars "Content-Length: ")
      (chars "HTTP/1.1 " ++ (formatD status ++ chars " " ++ title)) = none := rfl
  have hsecond : fieldValue (chars "Content-Length: ")
      (chars "Server: lua-rtos-http-server/1.0") = none := rfl
  unfold contentLength
  rw [headerLines_eq, List.findSome?_cons, hfirst, List.findSome?_cons, hsecond,
    List.findSome?_append, hmime, List.findSome?_cons]
  by_cases hlen : 0 ≤ length
  · obtain ⟨n, rfl⟩ := Int.eq_ofNat_of_zero_le hlen
    have hval : digitsVal (formatD n) = n := by
      have hdigits : digitsVal (formatD n ++ []) = n :=
        digitsVal_formatD n fun c hc => absurd hc (by simp)
      rwa [List.append_nil] at hdigits
    rw [fieldValue_lengthLine, if_pos hlen]
    exact congrArg some hval
  · have hline : lengthLine length = chars "Transfer-Encoding: chunked" := if_neg hlen
    rw [if_neg hlen, hline]
    rfl

theorem chunked_headerLines (hlen : ¬ 0 ≤ length) :
    Chunked (headerLines status title none mime length) := by
  unfold Chunked
  rw [headerLines_eq, lengthLine, if_neg hlen]
  simp

/-- What is sent after a header makes one response of it just if it is what the header says. -/
theorem oneResponse_sendHeaders (htitle : cr ∉ title) (hmime : ∀ m ∈ mime, cr ∉ m)
    (body : List Byte) :
    OneResponse (sendHeaders status title none mime length ++ body) ↔
      if 0 ≤ length then (body.length : Int) = length else Chunks body := by
  have hbody : BodyRight (headerLines status title none mime length) body ↔
      if 0 ≤ length then (body.length : Int) = length else Chunks body := by
    unfold BodyRight
    rw [contentLength_headerLines]
    by_cases hlen : 0 ≤ length
    · rw [if_pos hlen, if_pos hlen]
      exact ⟨fun h => by simp only at h; omega, fun h => by simp only; omega⟩
    · rw [if_neg hlen, if_neg hlen]
      exact ⟨fun h => h.2, fun h => ⟨chunked_headerLines hlen, h⟩⟩
  rw [← hbody]
  constructor
  · rintro ⟨lines, body', hsplit, -, hright⟩
    rw [splitHeader_sendHeaders htitle hmime] at hsplit
    cases hsplit
    exact hright
  · intro hright
    refine ⟨_, body, splitHeader_sendHeaders htitle hmime body, ?_, hright⟩
    rw [headerLines_eq]
    exact ⟨_, rfl, rfl⟩

end Header

/-! ## Errors -/

section Error

variable {status : Nat} {title text : List Byte}

/-- The length is added up from the formats, of which ten characters are not sent. -/
theorem errorLen_eq (hstatus : (formatD status).length = 3) :
    errorLen title text = (errorBody status title text).length := by
  have h₁ : errorLine₁.length = 41 := by decide
  have h₂ : errorLine₂.length = 22 := by decide
  have h₃ : errorLine₃.length = 4 := by decide
  have h₄ : errorLine₄.length = 16 := by decide
  have hhead : (chars "<HTML><HEAD><TITLE>").length = 19 := by decide
  have hend : (chars "</TITLE></HEAD>\r\n").length = 17 := by decide
  have hbody : (chars "<BODY><H4>").length = 10 := by decide
  have hclose : (chars "</H4>\r\n").length = 7 := by decide
  have hlast : (chars "</BODY></HTML>\r\n").length = 16 := by decide
  have hspace : (chars " ").length = 1 := by decide
  have hline : (chars "\r\n").length = 2 := by decide
  unfold errorLen errorBody httpStatusLen httpErrorVarsLen
  simp only [List.length_append, h₁, h₂, h₃, h₄, hhead, hend, hbody, hclose, hlast, hspace, hline,
    hstatus]
  omega

/-- What follows an error makes it a response just if it is nothing. -/
theorem oneResponse_sendError (hstatus : (formatD status).length = 3) (htitle : cr ∉ title)
    (rest : List Byte) : OneResponse (sendError status title none text ++ rest) ↔ rest = [] := by
  have hmime : ∀ m ∈ some (chars "text/html"), cr ∉ m := by
    intro m hm
    cases hm
    decide
  have hlen : errorLen title text = (errorBody status title text).length := errorLen_eq hstatus
  unfold sendError
  rw [List.append_assoc, oneResponse_sendHeaders htitle hmime, hlen,
    if_pos (Int.natCast_nonneg _), List.length_append]
  constructor
  · intro h
    exact List.eq_nil_of_length_eq_zero (by omega)
  · rintro rfl
    simp

theorem sendError_head (status : Nat) (title text rest : List Byte) :
    ∃ s, sendError status title none text ++ rest = 0x48 :: s := by
  unfold sendError sendHeaders
  rw [headerLines_eq]
  exact ⟨_, rfl⟩

/-- An error does not begin a sequence of chunks. -/
theorem not_chunks_sendError (rest : List Byte) :
    ¬ Chunks (sendError status title none text ++ rest) := by
  intro h
  obtain ⟨s, hs⟩ := sendError_head status title text rest
  rw [hs] at h
  obtain ⟨d, hd⟩ := h.head
  cases hd

end Error

/-! ## Files -/

section File

variable {sys : Server} {path : List Byte}

theorem sendContent_eq {buflen : Nat} (content : List Byte) (h : 0 < buflen ∨ content = []) :
    sendContent buflen content = content := by
  induction content using sendContent.induct buflen with
  | case1 content hstop =>
    rw [sendContent, if_pos hstop]
    rcases hstop with hzero | hnil
    · exact (h.resolve_left (by omega)).symm
    · exact hnil.symm
  | case2 content hgo ih =>
    rw [sendContent, if_neg hgo, ih (.inl (by omega)), List.take_append_drop]

/-- The buffer has room for something of every file that is not empty. -/
theorem sendContent_entry (entry : Entry) :
    sendContent (BitVec.ofInt 32 (if entry.length < 8192 then entry.length else 8192)).toNat
      entry.content = entry.content := by
  apply sendContent_eq
  cases entry with
  | dir entries => exact .inr rfl
  | file content hfits =>
    by_cases hnil : content = []
    · exact .inr hnil
    · left
      have hpos : 0 < content.length := List.length_pos_iff.mpr hnil
      unfold Entry.length
      by_cases hlt : (content.length : Int) < 8192
      · simp only [if_pos hlt, BitVec.toNat_ofInt]
        omega
      · simp only [if_neg hlt]
        decide

theorem mimeTypes_plain : ∀ e ∈ mimeTypes, cr ∉ e.2 := by decide

theorem getMimeType_plain (name : List Byte) : ∀ m ∈ getMimeType name, cr ∉ m := by
  intro m hm
  obtain ⟨ext, -, hext⟩ := Option.bind_eq_some_iff.mp hm
  obtain ⟨l₁, l₂, heq, -⟩ := List.lookup_eq_some_iff.mp hext
  exact mimeTypes_plain (ext, m) (by rw [heq]; simp)

/-- What is sent for a file: an error, or the header and then the contents, or an error where
    no block is got. -/
def fileReply (sys : Server) (path : List Byte) (node : Node) (asked : Nat) : List Byte :=
  if sys.fs.opens path then
    sendHeaders 200 (chars "OK") none (getMimeType path) node.entry.length ++
      if sys.mallocs asked then node.entry.content
      else sendError 403 (chars "Error") none (chars "File read.")
  else sendError 403 (chars "Forbidden") none (chars "Access denied.")

theorem sendFile_sent (node : Node) (c : Conn) :
    (sendFile sys path node c).sent = c.sent ++ fileReply sys path node c.asked := by
  unfold sendFile fileReply Conn.malloc Conn.put
  by_cases hopen : sys.fs.opens path
  · by_cases hblock : sys.mallocs c.asked
    · simp only [hopen, hblock, if_true, sendContent_entry, List.append_assoc]
    · simp only [hopen, hblock, if_true, if_false, List.append_assoc, Bool.false_eq_true]
  · simp only [hopen, if_false, Bool.false_eq_true]

/-- What has to follow a file for the two to be one response: nothing, unless the header promises
    what is not sent. -/
def FileRight (sys : Server) (path : List Byte) (node : Node) (asked : Nat)
    (rest : List Byte) : Prop :=
  if sys.fs.opens path then
    if sys.mallocs asked then
      match node.entry with
      | .file _ _ => rest = []
      | .dir _ => Chunks rest
    else ((sendError 403 (chars "Error") none (chars "File read.") ++ rest).length : Int) =
      node.entry.length
  else rest = []

theorem oneResponse_fileReply (node : Node) (asked : Nat) (rest : List Byte) :
    OneResponse (fileReply sys path node asked ++ rest) ↔
      FileRight sys path node asked rest := by
  unfold fileReply FileRight
  by_cases hopen : sys.fs.opens path
  · rw [if_pos hopen, if_pos hopen, List.append_assoc,
      oneResponse_sendHeaders (by decide) (getMimeType_plain path)]
    by_cases hblock : sys.mallocs asked
    · rw [if_pos hblock, if_pos hblock]
      cases node.entry with
      | file content hfits =>
        have hnonneg : 0 ≤ (Entry.file content hfits).length := Int.natCast_nonneg _
        rw [if_pos hnonneg]
        simp only [Entry.length, Entry.content, List.length_append]
        constructor
        · intro h
          exact List.eq_nil_of_length_eq_zero (by omega)
        · rintro rfl
          rfl
      | dir entries => exact Iff.rfl
    · rw [if_neg hblock, if_neg hblock]
      by_cases hlen : 0 ≤ node.entry.length
      · rw [if_pos hlen]
      · rw [if_neg hlen]
        constructor
        · intro h
          exact absurd h (not_chunks_sendError rest)
        · intro h
          omega
  · rw [if_neg hopen, if_neg hopen]
    exact oneResponse_sendError (by decide) (by decide) rest

end File

/-! ## Directories -/

section Listing

variable {sys : Server} {path : List Byte} {c c' c'' : Conn}

/-- Bytes that may stand before any chunks. -/
def ChunkData (s : List Byte) : Prop := ∀ rest, Chunks rest → Chunks (s ++ rest)

/-- Only chunks have been sent since. -/
def Extends (c c' : Conn) : Prop := ∃ s, c'.sent = c.sent ++ s ∧ ChunkData s

theorem Extends.refl (c : Conn) : Extends c c :=
  ⟨[], (List.append_nil c.sent).symm, fun _ h => h⟩

theorem Extends.trans (h : Extends c c') (h' : Extends c' c'') : Extends c c'' := by
  obtain ⟨s, hs, hdata⟩ := h
  obtain ⟨s', hs', hdata'⟩ := h'
  refine ⟨s ++ s', by rw [hs', hs, List.append_assoc], ?_⟩
  intro rest hrest
  rw [List.append_assoc]
  exact hdata _ (hdata' rest hrest)

theorem chunk_extends (sys : Server) {text : List Byte} (hne : text ≠ []) (c : Conn) :
    Extends c (chunk sys c text) := by
  unfold chunk Conn.malloc
  by_cases hblock : sys.mallocs c.asked
  · simp only [hblock, if_true]
    refine ⟨_, rfl, ?_⟩
    intro rest hrest
    have hdata : text.take 2047 ≠ [] := by
      intro h
      rcases List.take_eq_nil_iff.mp h with h | h
      · cases h
      · exact hne h
    have hchunk := Chunks.chunk (formatX_ne_nil _) (hexNat_formatX _) hdata hrest
    simpa only [List.append_assoc] using hchunk
  · simp only [hblock, Bool.false_eq_true, if_false]
    exact ⟨[], (List.append_nil _).symm, fun _ h => h⟩

theorem chunks_extends (sys : Server) {texts : List (List Byte)} (hne : ∀ t ∈ texts, t ≠ [])
    (c : Conn) :
    Extends c (chunks sys texts c) := by
  induction texts generalizing c with
  | nil => exact Extends.refl c
  | cons t texts ih =>
    have hhead := chunk_extends sys (hne t List.mem_cons_self) c
    exact hhead.trans (ih (fun t' ht => hne t' (List.mem_cons_of_mem t ht)) (chunk sys c t))

theorem indexHead_ne_nil (path : List Byte) : ∀ t ∈ indexHead path, t ≠ [] := by
  have hall : (indexHead path).all (fun t => !t.isEmpty) = true := rfl
  intro t ht hnil
  have hempty := List.all_eq_true.mp hall t ht
  rw [hnil] at hempty
  cases hempty

theorem indexTail_ne_nil : ∀ t ∈ indexTail, t ≠ [] := by decide

theorem indexEntry_ne_nil (de : Dirent) (stat : Option Node) :
    ∀ t ∈ indexEntry de stat, t ≠ [] := by
  intro t ht
  simp only [indexEntry, List.mem_cons, List.not_mem_nil, or_false] at ht
  rcases ht with rfl | rfl | rfl | rfl | rfl | rfl | rfl | rfl | rfl | rfl | rfl | rfl
  · decide
  · decide
  · exact List.append_ne_nil_of_right_ne_nil _ (by decide)
  · by_cases hreg : de.regular
    · rw [if_pos hreg]
      exact List.append_ne_nil_of_right_ne_nil _ (by decide)
    · rw [if_neg hreg]
      exact List.append_ne_nil_of_right_ne_nil _ (by decide)
  · decide
  · decide
  · by_cases hreg : de.regular
    · rw [if_pos hreg]
      cases stat with
      | none => decide
      | some node => exact formatD_ne_nil _
    · rw [if_neg hreg]
      decide
  · decide
  · decide
  · cases stat with
    | none => decide
    | some node => exact node.mtime.ne_nil
  · decide
  · decide

/-- The path of an entry fits in `pathbuf`. -/
theorem entryPath_holds (hpath : nul ∉ path) (hlen : path.length ≤ pathMax) (de : Dirent)
    {pathbuf : List Byte} (hbuf : pathbuf.length = htppBuffSize) :
    ∃ b s, entryPath path de pathbuf = .ok b ∧ Holds htppBuffSize b s := by
  have hfits := de.fits
  unfold pathMax at hlen
  obtain ⟨b₁, hb₁, hholds₁⟩ := strcpy_holds hbuf hpath [] (by unfold htppBuffSize; omega)
  unfold entryPath
  rw [hb₁, ok_bind]
  by_cases hroot : path ≠ chars "/"
  · have hslash : nul ∉ chars "/" := by decide
    have hone : (chars "/").length = 1 := by decide
    obtain ⟨b₂, hb₂⟩ := hholds₁.strcat_ok hslash [] (by unfold htppBuffSize; omega)
    have hholds₂ := hholds₁.strcat_inv hslash hb₂
    obtain ⟨b₃, hb₃⟩ := hholds₂.strcat_ok de.nul_free []
      (by rw [List.length_append]; unfold htppBuffSize; omega)
    have hlit : strcat b₁ (lit "/") = .ok b₂ := hb₂
    rw [if_pos hroot, hlit, ok_bind]
    exact ⟨b₃, _, hb₃, hholds₂.strcat_inv de.nul_free hb₃⟩
  · obtain ⟨b₃, hb₃⟩ := hholds₁.strcat_ok de.nul_free [] (by unfold htppBuffSize; omega)
    rw [if_neg hroot, pure_eq_ok, ok_bind]
    exact ⟨b₃, _, hb₃, hholds₁.strcat_inv de.nul_free hb₃⟩

/-- Only chunks are sent for the entries. -/
theorem sendEntries_ok (sys : Server) (hpath : nul ∉ path) (hlen : path.length ≤ pathMax)
    (entries : List Dirent) {pathbuf : List Byte} (hbuf : pathbuf.length = htppBuffSize)
    (c : Conn) : ∃ c', sendEntries sys path entries pathbuf c = .ok c' ∧ Extends c c' := by
  induction entries generalizing pathbuf c with
  | nil => exact ⟨c, rfl, Extends.refl c⟩
  | cons de des ih =>
    obtain ⟨b, s, hb, hholds⟩ := entryPath_holds hpath hlen de hbuf
    obtain ⟨c', hc', hext⟩ := ih hholds.size
      (chunks sys (indexEntry de (sys.fs.node s)) c)
    refine ⟨c', ?_, (chunks_extends sys (indexEntry_ne_nil de _) c).trans hext⟩
    rw [sendEntries, hb, ok_bind, hholds.str, ok_bind, hc']

/-- A listing is a header and chunks up to the last. -/
theorem listing_right (sys : Server) (hpath : nul ∉ path) (hlen : path.length ≤ pathMax)
    (entries : List Dirent) {pathbuf : List Byte} (hbuf : pathbuf.length = htppBuffSize) :
    ∃ c, sendEntries sys path entries pathbuf (chunks sys (indexHead path)
        (Conn.start.put (sendHeaders 200 (chars "OK") none (some (chars "text/html")) (-1)))) =
        .ok c ∧
      OneResponse (((chunks sys indexTail c).put (chars "0\r\n\r\n")).sent) := by
  have hmime : ∀ m ∈ some (chars "text/html"), cr ∉ m := by
    intro m hm
    cases hm
    decide
  obtain ⟨c, hc, hentries⟩ := sendEntries_ok sys hpath hlen entries hbuf
    (chunks sys (indexHead path)
      (Conn.start.put (sendHeaders 200 (chars "OK") none (some (chars "text/html")) (-1))))
  obtain ⟨s, hs, hdata⟩ := ((chunks_extends sys (indexHead_ne_nil path) _).trans hentries).trans
    (chunks_extends sys indexTail_ne_nil c)
  refine ⟨c, hc, ?_⟩
  unfold Conn.put at hs ⊢
  rw [hs]
  simp only [Conn.start, List.nil_append, List.append_assoc]
  rw [oneResponse_sendHeaders (by decide) hmime, if_neg (by decide)]
  exact hdata _ Chunks.last

end Listing

/-! ## Requests -/

section Request

variable {sys : Server} {path : List Byte}

/-- What the answer to a GET of a path depends on.  There is no such path, or its directory has
    no index, or its index is a file or cannot be opened; or else the size of a file that no
    block is got for happens to be the length of what is sent in its place. -/
def GetRight (sys : Server) (path : List Byte) : Prop :=
  match sys.fs.opendir path with
  | none =>
    match sys.fs.node path with
    | none => True
    | some node =>
      sys.fs.opens path = true ∧ sys.mallocs 0 = false ∧ node.entry.length = 586
  | some _ =>
    match sys.fs.node (path ++ chars "/index.html") with
    | none => True
    | some node =>
      sys.fs.opens (path ++ chars "/index.html") = true →
        if sys.mallocs 0 then node.entry.regular = true else node.entry.length = 284

theorem length_fileReadError :
    (sendError 403 (chars "Error") none (chars "File read.")).length = 284 := by decide +kernel

theorem length_notFound :
    (sendError 404 (chars "Not Found") none (chars "File not found.")).length = 302 := by
  decide +kernel

theorem fileRight_nil (node : Node) : FileRight sys path node 0 [] ↔
    (sys.fs.opens path = true →
      if sys.mallocs 0 then node.entry.regular = true else node.entry.length = 284) := by
  unfold FileRight
  by_cases hopen : sys.fs.opens path
  · rw [if_pos hopen]
    by_cases hblock : sys.mallocs 0
    · rw [if_pos hblock, if_pos hblock]
      cases node.entry with
      | file content hfits => exact iff_of_true rfl fun _ => rfl
      | dir entries =>
        exact iff_of_false (fun h => h.ne_nil rfl) fun h => Bool.false_ne_true (h hopen)
    · rw [if_neg hblock, if_neg hblock, List.append_nil, length_fileReadError]
      exact ⟨fun h _ => h.symm, fun h => (h hopen).symm⟩
  · rw [if_neg hopen]
    exact iff_of_true rfl fun h => absurd h hopen

theorem fileRight_notFound (node : Node) :
    FileRight sys path node 0 (sendError 404 (chars "Not Found") none (chars "File not found.")) ↔
      sys.fs.opens path = true ∧ sys.mallocs 0 = false ∧ node.entry.length = 586 := by
  have hne : sendError 404 (chars "Not Found") none (chars "File not found.") ≠ [] := by
    intro h
    have hlen := length_notFound
    rw [h] at hlen
    cases hlen
  unfold FileRight
  by_cases hopen : sys.fs.opens path
  · rw [if_pos hopen]
    by_cases hblock : sys.mallocs 0
    · rw [if_pos hblock]
      apply iff_of_false
      · cases node.entry with
        | file content hfits => exact hne
        | dir entries =>
          have hnot : ¬ Chunks (sendError 404 (chars "Not Found") none (chars "File not found.") ++
              []) := not_chunks_sendError []
          rwa [List.append_nil] at hnot
      · rintro ⟨-, hno, -⟩
        rw [hblock] at hno
        cases hno
    · have hlen : (sendError 403 (chars "Error") none (chars "File read.") ++
          sendError 404 (chars "Not Found") none (chars "File not found.")).length = 586 := by
        rw [List.length_append, length_fileReadError, length_notFound]
      rw [if_neg hblock, hlen]
      exact ⟨fun h => ⟨hopen, Bool.eq_false_iff.mpr hblock, h.symm⟩, fun h => h.2.2.symm⟩
  · rw [if_neg hopen]
    exact iff_of_false hne fun h => hopen h.1

theorem indexPath_eq (hlen : path.length ≤ pathMax) :
    indexPath path = path ++ chars "/index.html" := by
  have hindex : (chars "/index.html").length = 11 := by decide
  unfold indexPath htppBuffSize
  unfold pathMax at hlen
  apply List.take_of_length_le
  rw [List.length_append]
  omega

/-- An error alone is a response. -/
theorem oneResponse_error {status : Nat} (hstatus : (formatD status).length = 3)
    {title : List Byte} (htitle : cr ∉ title) (text : List Byte) :
    OneResponse (sendError status title none text) := by
  have hright : OneResponse (sendError status title none text ++ []) :=
    (oneResponse_sendError hstatus htitle []).mpr rfl
  rwa [List.append_nil] at hright

theorem processGet_right (hpath : nul ∉ path) (hlen : path.length ≤ pathMax) :
    (∃ r, processGet sys path .start = .ok r ∧ OneResponse r.2.sent) ↔ GetRight sys path := by
  cases hdir : sys.fs.opendir path with
  | none =>
    cases hnode : sys.fs.node path with
    | none =>
      simp only [processGet, GetRight, hdir, hnode]
      exact iff_of_true ⟨_, rfl, oneResponse_error (by decide) (by decide) _⟩ trivial
    | some node =>
      simp only [processGet, GetRight, hdir, hnode]
      rw [← fileRight_notFound, ← oneResponse_fileReply]
      simp only [pure_eq_ok, Except.ok.injEq, exists_eq_left', Conn.put, sendFile_sent]
      exact Iff.rfl
  | some entries =>
    cases hnode : sys.fs.node (path ++ chars "/index.html") with
    | none =>
      have hbuf : ((path ++ chars "/index.html") ++ nul :: sys.pathbuf.bytes.drop
          ((path ++ chars "/index.html").length + 1)).length = htppBuffSize := by
        have hsize := sys.pathbuf.size
        have hindex : (chars "/index.html").length = 11 := by decide
        unfold htppBuffSize at hsize ⊢
        unfold pathMax at hlen
        simp only [List.length_append, List.length_cons, List.length_drop]
        omega
      obtain ⟨c, hc, hright⟩ := listing_right sys hpath hlen entries hbuf
      simp only [processGet, GetRight, hdir, hnode, indexPath_eq hlen]
      rw [hc, ok_bind]
      exact iff_of_true ⟨_, rfl, hright⟩ trivial
    | some node =>
      simp only [processGet, GetRight, hdir, hnode, indexPath_eq hlen]
      rw [← fileRight_nil, ← oneResponse_fileReply, List.append_nil]
      simp only [pure_eq_ok, Except.ok.injEq, exists_eq_left', sendFile_sent]
      exact Iff.rfl

/-- What the client gets is right: nothing for a line that is no request, and else one
    response. -/
def Answered (request : List Byte) (sent : List Byte) : Prop :=
  match (fgets htppBuffSize request).bind requestLine with
  | none => sent = []
  | some _ => OneResponse sent

/-- What the answer to a request depends on.  The path is resolved, and is a string where the
    method is GET. -/
def RequestRight (sys : Server) (request : List Byte) : Prop :=
  match (fgets htppBuffSize request).bind requestLine with
  | none => True
  | some (method, httppath, _) =>
    ∃ path, mountResolveToLogical pathMax sys.devices sys.currdir (httppath ++ [nul])
        sys.npath sys.lpath = .ok path ∧
      (strcasecmpEq method (chars "GET") = true →
        ∃ block s, path = some block ∧ readStr block = .ok s ∧ GetRight sys s)

/-- The server answers as it should just on these requests. -/
theorem process_right (sys : Server) (request : List Byte) :
    (∃ r, process sys request = .ok r ∧ Answered request r.2.sent) ↔
      RequestRight sys request := by
  unfold process Answered RequestRight
  cases hline : (fgets htppBuffSize request).bind requestLine with
  | none => exact iff_of_true ⟨_, rfl, rfl⟩ trivial
  | some line =>
    obtain ⟨method, httppath, protocol⟩ := line
    simp only
    constructor
    · rintro ⟨r, hr, hone⟩
      obtain ⟨path, hpath, hr⟩ := bind_eq_ok.mp hr
      refine ⟨path, hpath, ?_⟩
      intro hget
      rw [if_pos hget] at hr
      cases path with
      | none => cases hr
      | some block =>
        obtain ⟨s, hs, hr⟩ := bind_eq_ok.mp hr
        have hholds : Holds (pathMax + 1) block s := ⟨length_mountResolveToLogical hpath, hs⟩
        refine ⟨block, s, rfl, hs, ?_⟩
        exact (processGet_right hholds.nul_free (Nat.le_of_lt_succ hholds.length_lt)).mp
          ⟨r, hr, hone⟩
    · rintro ⟨path, hpath, hget⟩
      rw [hpath, ok_bind]
      by_cases hmethod : strcasecmpEq method (chars "GET") = true
      · obtain ⟨block, s, rfl, hs, hright⟩ := hget hmethod
        have hholds : Holds (pathMax + 1) block s := ⟨length_mountResolveToLogical hpath, hs⟩
        rw [if_pos hmethod]
        simp only
        rw [hs, ok_bind]
        exact (processGet_right hholds.nul_free (Nat.le_of_lt_succ hholds.length_lt)).mpr hright
      · rw [if_neg hmethod]
        exact ⟨_, rfl, oneResponse_error (by decide) (by decide) _⟩

end Request

/-! ## A file -/

section Example

theorem dash_nul_free : nul ∉ chars "-" := by decide

theorem dash_ne_nil : chars "-" ≠ [] := by decide

theorem dash_fits : (chars "-").length < 80 := by decide

theorem hi_fits : (chars "hi").length < 2147483648 := by decide

/-- One file, called a. -/
def oneFile : Server where
  fs := {
    node := fun path =>
      if path = chars "/a" then
        some ⟨.file (chars "hi") hi_fits, ⟨chars "-", dash_nul_free, dash_ne_nil, dash_fits⟩⟩
      else none
    lists := fun _ => true
    opens := fun _ => true }
  mallocs _ := true
  devices := mountds 1 1
  currdir := lit "/"
  npath := some (freshBlock (pathMax + 1))
  lpath := some (freshBlock (pathMax + 1))
  pathbuf := freshBlock htppBuffSize

/-- The file is sent, and then the error 404. -/
theorem file_answered_twice :
    ¬ ∃ r, process oneFile (chars "GET /a HTTP/1.1\r\n") = .ok r ∧
      Answered (chars "GET /a HTTP/1.1\r\n") r.2.sent := by
  have hline : (fgets htppBuffSize (chars "GET /a HTTP/1.1\r\n")).bind requestLine =
      some (chars "GET", chars "/a", chars "HTTP/1.1") := by decide +kernel
  have hpath : mountResolveToLogical pathMax oneFile.devices oneFile.currdir
      (chars "/a" ++ [nul]) oneFile.npath oneFile.lpath =
      .ok (some (chars "/a" ++ nul :: (List.replicate 61 nul ++ [0xa5]))) := by decide +kernel
  have hstr : readStr (chars "/a" ++ nul :: (List.replicate 61 nul ++ [0xa5])) =
      .ok (chars "/a") := by decide
  have hget : strcasecmpEq (chars "GET") (chars "GET") = true := by decide
  rintro ⟨r, hr, hone⟩
  unfold process at hr
  unfold Answered at hone
  rw [hline] at hr hone
  simp only at hr hone
  rw [hpath, ok_bind, if_pos hget] at hr
  simp only at hr
  rw [hstr, ok_bind] at hr
  have hright := (processGet_right (by decide) (by decide)).mp ⟨r, hr, hone⟩
  -- the path is a file, for which a block is got
  have hno : oneFile.mallocs 0 = false := hright.2.1
  cases hno

end Example

end LuaRtos.Http
