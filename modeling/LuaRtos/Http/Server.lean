/-
  LuaRtos.Http.Server

  The server of http/httpsrv.c: `process` answers one request on the stream of its connection.

  The file system is a parameter, as `opendir`, `readdir`, `stat` and `fopen` show it: it says
  of each path what is there, of each directory whether there is memory to list it, and of each
  path whether it can be opened.  A directory that has been opened as a file cannot be read.
  What is written to the stream is sent.  The calls of `syslog` are left out.
-/

import LuaRtos.Http.Message
import LuaRtos.Sys.Mount

namespace LuaRtos.Http

open LuaRtos.CLib LuaRtos.Sys

/-! ## The file system -/

/-- A `struct dirent`: the name, in its field of 256 bytes, and whether it is DT_REG. -/
structure Dirent where
  name : List Byte
  regular : Bool
  nul_free : nul ∉ name
  fits : name.length ≤ 255

/-- The text that `strftime` makes of a time with "%d/%m/%Y %R". -/
structure Date where
  text : List Byte
  nul_free : nul ∉ text
  ne_nil : text ≠ []
  fits : text.length < 80

/-- What is at a path. -/
inductive Entry where
  | file (content : List Byte) (fits : content.length < 2147483648)
  | dir (entries : List Dirent)

/-- What is at a path, and when it was modified: `struct stat`. -/
structure Node where
  entry : Entry
  mtime : Date

structure FileSystem where
  node : List Byte → Option Node
  lists : List Byte → Bool
  opens : List Byte → Bool

/-- `opendir`, with the entries that `readdir` returns. -/
def FileSystem.opendir (fs : FileSystem) (path : List Byte) : Option (List Dirent) :=
  match fs.node path with
  | some ⟨.dir entries, _⟩ => if fs.lists path then some entries else none
  | _ => none

/-- `S_ISREG(st_mode)`. -/
def Entry.regular : Entry → Bool
  | .file _ _ => true
  | .dir _ => false

/-- `S_ISREG(st_mode) ? st_size : -1`. -/
def Entry.length : Entry → Int
  | .file content _ => content.length
  | .dir _ => -1

/-- What `fread` gets of it. -/
def Entry.content : Entry → List Byte
  | .file content _ => content
  | .dir _ => []

/-! ## The system -/

/-- PATH_MAX, as Makefile.projbuild sets it. -/
def pathMax : Nat := 64

/-- HTPP_BUFF_SIZE. -/
def htppBuffSize : Nat := 1024

/-- What a call of `process` finds: the file system, the results of its `malloc`s by their
    number, the mounted devices and the current directory, the blocks of
    `mount_resolve_to_logical`, and the block of `pathbuf`. -/
structure Server where
  fs : FileSystem
  mallocs : Nat → Bool
  devices : List Mountd
  currdir : List Byte
  npath : Option (Block (pathMax + 1))
  lpath : Option (Block (pathMax + 1))
  pathbuf : Block htppBuffSize

/-- What has been sent, and how many blocks have been asked for. -/
structure Conn where
  sent : List Byte
  asked : Nat

def Conn.start : Conn := ⟨[], 0⟩

/-- `fprintf` or `fwrite` to the stream. -/
def Conn.put (c : Conn) (text : List Byte) : Conn := { c with sent := c.sent ++ text }

/-- `malloc`: whether it returns a block. -/
def Conn.malloc (sys : Server) (c : Conn) : Bool × Conn :=
  (sys.mallocs c.asked, { c with asked := c.asked + 1 })

/-! ## Strings -/

/-- `fgets` with a buffer of `n + 1` bytes, none at the end of the stream. -/
def takeLine : Nat → List Byte → List Byte
  | 0, _ => []
  | _, [] => []
  | n + 1, c :: s => if c = lf then [c] else c :: takeLine n s

def fgets (n : Nat) (stream : List Byte) : Option (List Byte) :=
  if stream = [] then none else some (takeLine (n - 1) stream)

/-- `strtok` with one delimiter: the token and what follows it, none for NULL. -/
def strtok (delim : Byte) (s : List Byte) : Option (List Byte × List Byte) :=
  let s := s.dropWhile (· = delim)
  if s = [] then none
  else some (s.takeWhile (· ≠ delim), (s.dropWhile (· ≠ delim)).drop 1)

def toLower (c : Byte) : Byte := if 0x41 ≤ c ∧ c ≤ 0x5a then c + 0x20 else c

/-- `strcasecmp(s, t) == 0`. -/
def strcasecmpEq (s t : List Byte) : Bool := s.map toLower = t.map toLower

/-- `strrchr`: the text from the last `c` on, none for NULL. -/
def strrchr (c : Byte) : List Byte → Option (List Byte)
  | [] => none
  | b :: s => (strrchr c s).or (if b = c then some (b :: s) else none)

/-! ## Parts of a response -/

/-- The extensions of `get_mime_type`, in their order. -/
def mimeTypes : List (List Byte × List Byte) :=
  [(chars ".html", chars "text/html"), (chars ".htm", chars "text/html"),
    (chars ".txt", chars "text/html"), (chars ".jpg", chars "image/jpeg"),
    (chars ".jpeg", chars "image/jpeg"), (chars ".gif", chars "image/gif"),
    (chars ".png", chars "image/png"), (chars ".css", chars "text/css"),
    (chars ".au", chars "audio/basic"), (chars ".wav", chars "audio/wav"),
    (chars ".avi", chars "video/x-msvideo"), (chars ".mpeg", chars "video/mpeg"),
    (chars ".mpg", chars "video/mpeg"), (chars ".mp3", chars "audio/mpeg"),
    (chars ".svg", chars "image/svg+xml"), (chars ".pdf", chars "application/pdf")]

/-- `get_mime_type`. -/
def getMimeType (name : List Byte) : Option (List Byte) := do
  let ext ← strrchr dot name
  mimeTypes.lookup ext

/-- `send_headers`: the lines, of which each is sent with its end. -/
def headerLines (status : Nat) (title : List Byte) (extra mime : Option (List Byte))
    (length : Int) : List (List Byte) :=
  [chars "HTTP/1.1 " ++ formatD status ++ chars " " ++ title,
    chars "Server: lua-rtos-http-server/1.0"] ++
  extra.toList ++
  (mime.map fun m => chars "Content-Type: " ++ m).toList ++
  [if 0 ≤ length then chars "Content-Length: " ++ formatD length
    else chars "Transfer-Encoding: chunked",
    chars "Connection: close",
    chars "Cache-Control: no-cache, no-store, must-revalidate",
    chars "no-cache",
    chars "0"]

def sendHeaders (status : Nat) (title : List Byte) (extra mime : Option (List Byte))
    (length : Int) : List Byte :=
  (headerLines status title extra mime length).flatMap (fun line => line ++ crlf) ++ crlf

/-- The lines of `send_error`, as the formats that the length is taken from. -/
def errorLine₁ : List Byte := chars "<HTML><HEAD><TITLE>%d %s</TITLE></HEAD>\r\n"

def errorLine₂ : List Byte := chars "<BODY><H4>%d %s</H4>\r\n"

def errorLine₃ : List Byte := chars "%s\r\n"

def errorLine₄ : List Byte := chars "</BODY></HTML>\r\n"

def httpStatusLen : Nat := 3

def httpErrorVarsLen : Nat := 2 * 5

def errorLen (title text : List Byte) : Int :=
  title.length * 2 + httpStatusLen * 2 + text.length + errorLine₁.length + errorLine₂.length +
    errorLine₃.length + errorLine₄.length - httpErrorVarsLen

/-- What `fprintf` makes of the lines. -/
def errorBody (status : Nat) (title text : List Byte) : List Byte :=
  chars "<HTML><HEAD><TITLE>" ++ formatD status ++ chars " " ++ title ++
    chars "</TITLE></HEAD>\r\n" ++
  chars "<BODY><H4>" ++ formatD status ++ chars " " ++ title ++ chars "</H4>\r\n" ++
  text ++ chars "\r\n" ++
  chars "</BODY></HTML>\r\n"

/-- `send_error`. -/
def sendError (status : Nat) (title : List Byte) (extra : Option (List Byte))
    (text : List Byte) : List Byte :=
  sendHeaders status title extra (some (chars "text/html")) (errorLen title text) ++
    errorBody status title text

/-- The loop that reads `buflen` bytes at a time and sends them. -/
def sendContent (buflen : Nat) (content : List Byte) : List Byte :=
  if buflen = 0 ∨ content = [] then []
  else content.take buflen ++ sendContent buflen (content.drop buflen)
termination_by content.length
decreasing_by
  have hlen : 0 < content.length := List.length_pos_iff.mpr (fun h => by simp_all)
  rw [List.length_drop]
  omega

/-- `send_file`. -/
def sendFile (sys : Server) (path : List Byte) (node : Node) (c : Conn) : Conn :=
  if sys.fs.opens path then
    let length := node.entry.length
    let c := c.put (sendHeaders 200 (chars "OK") none (getMimeType path) length)
    -- as the `size_t` that `fread` takes
    let buflen := (BitVec.ofInt 32 (if length < 8192 then length else 8192)).toNat
    let (data, c) := c.malloc sys
    if data then c.put (sendContent buflen node.entry.content)
    else c.put (sendError 403 (chars "Error") none (chars "File read."))
  else c.put (sendError 403 (chars "Forbidden") none (chars "Access denied."))

/-- `chunk`, on the text that its format makes. -/
def chunk (sys : Server) (c : Conn) (text : List Byte) : Conn :=
  let (buffer, c) := c.malloc sys
  if buffer then
    let text := text.take 2047
    c.put (formatX text.length ++ crlf ++ text ++ crlf)
  else c

/-! ## `process` -/

/-- The method, the path and the protocol, none where the line has not all three. -/
def requestLine (line : List Byte) : Option (List Byte × List Byte × List Byte) := do
  let buf := line.takeWhile (· ≠ nul)
  let (method, rest) ← strtok 0x20 buf
  let (httppath, rest) ← strtok 0x20 rest
  let (protocol, _) ← strtok cr rest
  pure (method, httppath, protocol)

/-- The chunks before the entries of a directory. -/
def indexHead (path : List Byte) : List (List Byte) :=
  [chars "<!DOCTYPE html><HTML><HEAD><TITLE>Index of " ++ path ++
      chars "</TITLE></HEAD><BODY background=\"/sd/www/bg1.png\">",
    chars "<H4>Index of " ++ path ++ chars "<hr></H4>",
    chars "<TABLE style=\"border-collapse:collapse;\" cellpadding=\"4\" bordercolor=\"888888\" " ++
      chars "background=\"/sd/www/bg3.jpg\" border=\"1\">",
    chars "<TR>",
    chars "<TH style=\"width: 250;text-align: left;\" background=\"/sd/www/bg4.jpg\">Name</TH>",
    chars "<TH style=\"width: 100px;text-align: right;\" background=\"/sd/www/bg4.jpg\">Size</TH>",
    chars "<TH style=\"width: 200px;text-align: right;\" background=\"/sd/www/bg4.jpg\">Time</TH>",
    chars "</TR>",
    chars "<TR>",
    chars "<TD><A HREF=\"..\">..</A></TD><TD></TD> <TD> </TD>",
    chars "</TR>"]

/-- The chunks of an entry, with what `stat` says of it. -/
def indexEntry (de : Dirent) (stat : Option Node) : List (List Byte) :=
  [chars "<TR>",
    chars "<TD>",
    chars "<A HREF=\"" ++ de.name ++ (if de.regular then [] else chars "/") ++ chars "\">",
    de.name ++ (if de.regular then chars "</A> " else chars "/</A>"),
    chars "</TD>",
    chars "<TD style=\"text-align: right;\">",
    if de.regular then
      match stat with
      | some node => formatD node.entry.content.length
      | none => chars "?"
    else chars "DIR",
    chars "</TD>",
    chars "<TD style=\"text-align: right;\">",
    match stat with
    | some node => node.mtime.text
    | none => chars "  ",
    chars "</TD>",
    chars "</TR>"]

/-- The chunks after them. -/
def indexTail : List (List Byte) := [chars "</TABLE>", chars "</BODY></HTML>"]

def chunks (sys : Server) (texts : List (List Byte)) (c : Conn) : Conn :=
  texts.foldl (chunk sys) c

/-- The path of an entry, written to `pathbuf`. -/
def entryPath (path : List Byte) (de : Dirent) (pathbuf : List Byte) : Result (List Byte) := do
  let pathbuf ← strcpy pathbuf (path ++ [nul])
  let pathbuf ← (if path ≠ chars "/" then strcat pathbuf (lit "/") else pure pathbuf)
  strcat pathbuf (de.name ++ [nul])

/-- The loop over the entries. -/
def sendEntries (sys : Server) (path : List Byte) :
    List Dirent → List Byte → Conn → Result Conn
  | [], _, c => pure c
  | de :: des, pathbuf, c => do
    let pathbuf ← entryPath path de pathbuf
    let name ← readStr pathbuf
    sendEntries sys path des pathbuf (chunks sys (indexEntry de (sys.fs.node name)) c)

/-- `snprintf(pathbuf, sizeof (pathbuf), "%s/index.html", path)`. -/
def indexPath (path : List Byte) : List Byte :=
  (path ++ chars "/index.html").take (htppBuffSize - 1)

/-- `process` on a GET of a path. -/
def processGet (sys : Server) (path : List Byte) (c : Conn) : Result (Int × Conn) :=
  match sys.fs.opendir path with
  | none =>
    let c := match sys.fs.node path with
      | some node => sendFile sys path node c
      | none => c
    pure (-1, c.put (sendError 404 (chars "Not Found") none (chars "File not found.")))
  | some entries =>
    let index := indexPath path
    match sys.fs.node index with
    | some node => pure (0, sendFile sys index node c)
    | none => do
      let pathbuf := index ++ nul :: sys.pathbuf.bytes.drop (index.length + 1)
      let c := c.put (sendHeaders 200 (chars "OK") none (some (chars "text/html")) (-1))
      let c := chunks sys (indexHead path) c
      let c ← sendEntries sys path entries pathbuf c
      let c := chunks sys indexTail c
      pure (0, c.put (chars "0\r\n\r\n"))

/-- `process`, on what the client sends. -/
def process (sys : Server) (request : List Byte) : Result (Int × Conn) :=
  match (fgets htppBuffSize request).bind requestLine with
  | none => pure (-1, .start)
  | some (method, httppath, _) => do
    let path ← mountResolveToLogical pathMax sys.devices sys.currdir (httppath ++ [nul])
      sys.npath sys.lpath
    if strcasecmpEq method (chars "GET") then
      match path with
      | none => throw .nullDeref
      | some path => do
        let path ← readStr path
        processGet sys path .start
    else
      pure (-1, Conn.start.put
        (sendError 501 (chars "Not supported") none (chars "Method is not supported.")))

end LuaRtos.Http
