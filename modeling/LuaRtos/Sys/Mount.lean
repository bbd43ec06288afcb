/-
  LuaRtos.Sys.Mount

  Path resolution of sys/mount.c: the mount and device tables, the
  normalization of a path in its buffer, and the translation between logical
  paths ("/sd/x") and physical ones ("/fat/x"), for a build with USE_SPIFFS
  and USE_FAT.

  A `char *` argument is the memory from the pointer to the end of its block.
  Each `malloc(PATH_MAX + 1)` is an argument, `none` when it returns NULL and
  else a block of arbitrary contents; a returned `none` is a returned NULL.
  PATH_MAX comes from the C library and is a parameter.
-/

import LuaRtos.CLib.Str

namespace LuaRtos.Sys

open LuaRtos.CLib

/-- The path separator. -/
def slash : Byte := 0x2f

/-- The dot of the `.` and `..` components. -/
def dot : Byte := 0x2e

/-! ## The tables -/

/-- `struct mountd`: a device and whether it is mounted. -/
structure Mountd where
  device : List Byte
  mounted : BitVec 32
deriving DecidableEq, Repr

/-- `struct mountp`: a mount point. -/
structure Mountp where
  path : List Byte
  name : List Byte
  fpath : List Byte
  odev : List Byte
  ddev : List Byte
deriving DecidableEq, Repr

/-- The mount points; the terminating entry of the C array is the end of the
    list. -/
def mountps : List Mountp :=
  [⟨lit "/", lit "sd", lit "/sd", lit "spiffs", lit "fat"⟩]

/-- The mounted devices, by the `mounted` fields of the two entries. -/
def mountds (spiffs fat : BitVec 32) : List Mountd :=
  [⟨lit "spiffs", spiffs⟩, ⟨lit "fat", fat⟩]

/-- `mount_default_device`: the first mounted device. -/
def mountDefaultDevice : List Mountd → List Byte
  | [] => lit ""
  | m :: ms => if m.mounted ≠ 0 then m.device else mountDefaultDevice ms

/-- The loop of `mount_device_mount_path`. -/
def mountPathOfDevice (device : List Byte) : List Mountp → Result (List Byte)
  | [] => pure (lit "")
  | m :: ms => do
    if (← strcmp device m.ddev) = 0 then pure m.fpath else mountPathOfDevice device ms

/-- `mount_device_mount_path`: the mount path for a device. -/
def mountDeviceMountPath (device : List Byte) : Result (List Byte) :=
  mountPathOfDevice device mountps

/-! ## The first component of a path -/

/-- `while (*p && (*p != '/')) p++;`: the number of steps. -/
def componentLen : List Byte → Result Nat
  | [] => throw .outOfBounds
  | c :: p => if c ≠ nul ∧ c ≠ slash then do
      let n ← componentLen p
      pure (n + 1)
    else pure 0

/-- The entry of a table whose key starts with the `len` bytes at `name`. -/
def findPrefix {α : Type} (key : α → List Byte) (name : List Byte) (len : Nat) :
    List α → Result (Option α)
  | [] => pure none
  | a :: table => do
    if (← strncmp (key a) name len) = 0 then pure (some a) else findPrefix key name len table

/-- The scan that `mount_get_device_from_path` and `mount_get_mount_from_path`
    share: take the first component of `path`, look it up in a table, and
    return the entry with the rest of the path, or nothing with `path`.

    The component ends before the slash that ends it, or on the terminator,
    which the comparison then includes and the rest lies behind. -/
def getFromPath {α : Type} (key : α → List Byte) (table : List α) (path : List Byte) :
    Result (Option α × List Byte) := do
  let name := if (← deref path) = slash then path.drop 1 else path
  let n ← componentLen name
  let len := if (← deref (name.drop n)) ≠ nul then n else n + 1
  match ← findPrefix key name len table with
  | some a => pure (some a, name.drop len)
  | none => pure (none, path)

/-- `mount_get_device_from_path`. -/
def mountGetDeviceFromPath (ds : List Mountd) (path : List Byte) :
    Result (Option (List Byte) × List Byte) := do
  let (d, rpath) ← getFromPath Mountd.device ds path
  pure (d.map Mountd.device, rpath)

/-- `mount_get_mount_from_path`. -/
def mountGetMountFromPath (path : List Byte) : Result (Option (List Byte) × List Byte) := do
  let (m, rpath) ← getFromPath (fun m => m.fpath.drop 1) mountps path
  pure (m.map Mountp.fpath, rpath)

/-- `while (*cpath && *cfpath && (*cpath == *cfpath))`: both pointers past
    what the two strings have in common. -/
def skipCommon : List Byte → List Byte → Result (List Byte × List Byte)
  | c :: cpath, d :: cfpath =>
    if c ≠ nul ∧ d ≠ nul ∧ c = d then skipCommon cpath cfpath
    else pure (c :: cpath, d :: cfpath)
  | _, _ => throw .outOfBounds

/-- The loop of `mount_device`. -/
def mountedOn (path : List Byte) : List Mountp → Result (Option (List Byte))
  | [] => pure none
  | m :: ms => do
    let (cpath, cfpath) ← skipCommon path m.fpath
    if (← deref cfpath) = nul then
      let c ← deref cpath
      if c = nul ∨ c = slash then pure (some m.ddev) else mountedOn path ms
    else mountedOn path ms

/-- `mount_device`: the device where an absolute path is mounted. -/
def mountDevice (ds : List Mountd) (path : List Byte) : Result (Option (List Byte)) := do
  match ← mountedOn path mountps with
  | some device => pure (some device)
  | none => pure (some (mountDefaultDevice ds))

/-! ## The current directory -/

/-- `getcwd`: write the current directory, made absolute, to `pt`. -/
def getcwd (currdir pt : List Byte) : Result (List Byte) := do
  let pt ← store pt 0 nul
  let pt ← if (← deref currdir) ≠ slash then strcat pt (lit "/") else pure pt
  strcat pt currdir

/-! ## Normalization -/

/-- `*(s + strlen(s) - 1)`. -/
def lastChar (s : List Byte) : Result Byte := do
  let n ← strlen s
  if n = 0 then throw .outOfBounds else load s (n - 1)

/-- `while (*--cpath != '/');` from `cpath`: the offset of the slash. -/
def scanBack (rpath : List Byte) : Nat → Result Nat
  | 0 => throw .outOfBounds
  | cpath + 1 => do
    if (← load rpath cpath) = slash then pure cpath else scanBack rpath cpath

/-- `while (*last) *tpath++ = *last++; *tpath = '\0';`, in at most `fuel`
    rounds. -/
def moveDown : Nat → List Byte → Nat → Nat → Result (List Byte)
  | 0, _, _, _ => throw .diverged
  | fuel + 1, rpath, tpath, last => do
    let c ← load rpath last
    if c = nul then store rpath tpath nul
    else do
      let rpath ← store rpath tpath c
      moveDown fuel rpath (tpath + 1) (last + 1)

/-- The variables of the main loop of `mount_normalize_path`; `cpath` is an
    offset into `rpath`. -/
structure NormState where
  rpath : List Byte
  cpath : Nat
  maybeIsDot : Bool
  maybeIsDotDot : Bool
  isDot : Bool
  isDotDot : Bool
deriving DecidableEq, Repr

/-- The start of a component. -/
def NormState.at (rpath : List Byte) (cpath : Nat) : NormState :=
  ⟨rpath, cpath, false, false, false, false⟩

/-- What a round does to the flags, given the character at `cpath`. -/
def NormState.readChar (s : NormState) (c : Byte) : NormState :=
  if c = dot then
    if s.maybeIsDot then { s with maybeIsDotDot := true, maybeIsDot := false }
    else { s with maybeIsDot := true }
  else if c = slash then
    { s with isDotDot := s.maybeIsDotDot, isDot := s.maybeIsDot && !s.maybeIsDotDot }
  else { s with maybeIsDotDot := false, maybeIsDot := false }

/-- One round of the main loop at the character `c`. -/
def normStep (s : NormState) (c : Byte) : Result NormState :=
  let s := s.readChar c
  let last := s.cpath + 1
  if s.isDotDot then do
    let cpath ← scanBack s.rpath s.cpath
    let cpath ← scanBack s.rpath cpath
    let rpath ← moveDown s.rpath.length s.rpath (cpath + 1) last
    pure (.at rpath (cpath + 1))
  else if s.isDot then do
    let cpath ← scanBack s.rpath s.cpath
    let rpath ← moveDown s.rpath.length s.rpath (cpath + 1) last
    pure (.at rpath (cpath + 1))
  else pure { s with cpath := s.cpath + 1 }

/-- The main loop of `mount_normalize_path`, in at most `fuel` rounds. -/
def normLoop : Nat → NormState → Result NormState
  | 0, _ => throw .diverged
  | fuel + 1, s => do
    let c ← load s.rpath s.cpath
    if c = nul then pure s
    else do
      let s ← normStep s c
      normLoop fuel s

/-- `if (*(rpath + strlen(rpath) - 1) != '/') strncat(rpath, "/", PATH_MAX);`. -/
def endSlash (pathMax : Nat) (rpath : List Byte) : Result (List Byte) := do
  if (← lastChar rpath) ≠ slash then strncat rpath (lit "/") pathMax else pure rpath

/-- The part of `mount_normalize_path` before the main loop: the absolute path
    with a slash at its end.  `getcwd` returns its buffer, never NULL. -/
def normPrefix (pathMax : Nat) (currdir path rpath : List Byte) : Result (List Byte) := do
  let rpath ←
    if (← deref path) ≠ slash then do
      let rpath ← getcwd currdir rpath
      let rpath ← endSlash pathMax rpath
      strncat rpath path pathMax
    else strncpy rpath path pathMax
  endSlash pathMax rpath

/-- The part of `mount_normalize_path` after the main loop: the slash at the
    end goes, unless it is the first character. -/
def normSuffix (s : NormState) : Result (List Byte) := do
  if s.cpath = 0 then throw .outOfBounds
  else if s.cpath - 1 ≠ 0 ∧ (← load s.rpath (s.cpath - 1)) = slash then
    store s.rpath (s.cpath - 1) nul
  else pure s.rpath

/-- `mount_normalize_path`. -/
def mountNormalizePath (pathMax : Nat) (currdir path : List Byte)
    (malloc : Option (Block (pathMax + 1))) : Result (Option (List Byte)) :=
  match malloc with
  | none => pure none
  | some rpath => do
    let rpath ← normPrefix pathMax currdir path rpath.bytes
    let s ← normLoop rpath.length (.at rpath 0)
    let rpath ← normSuffix s
    pure (some rpath)

/-! ## Resolution -/

/-- `mount_resolve_to_physical`, with its two allocations: of the normalized
    path and of the result. -/
def mountResolveToPhysical (pathMax : Nat) (ds : List Mountd) (currdir path : List Byte)
    (malloc₁ malloc₂ : Option (Block (pathMax + 1))) : Result (Option (List Byte)) := do
  match ← mountNormalizePath pathMax currdir path malloc₁ with
  | none => throw .nullDeref
  | some npath =>
    match ← mountDevice ds npath with
    | some device =>
      -- Remove mount device from path, if any
      let (_, rpath) ← mountGetMountFromPath npath
      match malloc₂ with
      | none => pure none
      | some ppath => do
        let ppath ← strncpy ppath.bytes (lit "/") pathMax
        let ppath ← strncat ppath device pathMax
        let ppath ← if (← deref rpath) ≠ slash then strncat ppath (lit "/") pathMax else pure ppath
        let ppath ← strncat ppath rpath pathMax
        pure (some ppath)
    | none =>
      match malloc₂ with
      | none => pure none
      | some ppath => do
        let ppath ← strncpy ppath.bytes npath pathMax
        pure (some ppath)

/-- `mount_resolve_to_logical`.  The device is searched in the argument, not
    in its normalized copy, which only serves when there is no device. -/
def mountResolveToLogical (pathMax : Nat) (ds : List Mountd) (currdir path : List Byte)
    (malloc₁ malloc₂ : Option (Block (pathMax + 1))) : Result (Option (List Byte)) := do
  let npath ← mountNormalizePath pathMax currdir path malloc₁
  match ← mountGetDeviceFromPath ds path with
  | (some device, rpath) =>
    -- never NULL: without a mount point it is the empty string
    let mountPath ← mountDeviceMountPath device
    match malloc₂ with
    | none => pure none
    | some lpath => do
      let lpath ← strncpy lpath.bytes mountPath pathMax
      let lpath ← if (← deref rpath) ≠ slash then strncat lpath (lit "/") pathMax else pure lpath
      let lpath ← strncat lpath rpath pathMax
      if (← lastChar lpath) = slash then do
        let n ← strlen lpath
        let lpath ← store lpath (n - 1) nul
        pure (some lpath)
      else pure (some lpath)
  | (none, _) =>
    match malloc₂ with
    | none => pure none
    | some lpath =>
      match npath with
      | none => throw .nullDeref
      | some npath => do
        let lpath ← strncpy lpath.bytes npath pathMax
        pure (some lpath)

/-- A path that `mount_resolve_to_logical` returns is in the block it was written to. -/
theorem length_mountResolveToLogical {pathMax : Nat} {ds : List Mountd}
    {currdir path : List Byte} {malloc₁ malloc₂ : Option (Block (pathMax + 1))} {lpath : List Byte}
    (h : mountResolveToLogical pathMax ds currdir path malloc₁ malloc₂ = .ok (some lpath)) :
    lpath.length = pathMax + 1 := by
  obtain ⟨npath, -, h⟩ := bind_eq_ok.mp h
  obtain ⟨⟨device, rpath⟩, -, h⟩ := bind_eq_ok.mp h
  cases malloc₂ with
  | none =>
    cases device with
    | none => cases h
    | some device =>
      obtain ⟨mountPath, -, h⟩ := bind_eq_ok.mp h
      cases h
  | some block =>
    cases device with
    | none =>
      cases npath with
      | none => cases h
      | some npath =>
        obtain ⟨b, hb, h⟩ := bind_eq_ok.mp h
        cases h
        rw [length_strncpy hb, block.size]
    | some device =>
      obtain ⟨mountPath, -, h⟩ := bind_eq_ok.mp h
      obtain ⟨b₁, hb₁, h⟩ := bind_eq_ok.mp h
      obtain ⟨c, -, h⟩ := bind_eq_ok.mp h
      have hlen₁ := length_strncpy hb₁
      have hlast {b : List Byte} (hb : b.length = pathMax + 1)
          (h : (do
            let b ← strncat b rpath pathMax
            if (← lastChar b) = slash then do
              let n ← strlen b
              let b ← store b (n - 1) nul
              pure (some b)
            else pure (some b)) = .ok (some lpath)) : lpath.length = pathMax + 1 := by
        obtain ⟨b₂, hb₂, h⟩ := bind_eq_ok.mp h
        obtain ⟨e, -, h⟩ := bind_eq_ok.mp h
        have hlen₂ := length_strncat hb₂
        by_cases hslash : e = slash
        · rw [if_pos hslash] at h
          obtain ⟨n, -, h⟩ := bind_eq_ok.mp h
          obtain ⟨b₃, hb₃, h⟩ := bind_eq_ok.mp h
          cases h
          rw [length_store hb₃, hlen₂, hb]
        · rw [if_neg hslash] at h
          cases h
          rw [hlen₂, hb]
      by_cases hslash : c ≠ slash
      · rw [if_pos hslash] at h
        obtain ⟨b₂, hb₂, h⟩ := bind_eq_ok.mp h
        exact hlast (by rw [length_strncat hb₂, hlen₁, block.size]) h
      · rw [if_neg hslash] at h
        exact hlast (hlen₁.trans block.size) h

end LuaRtos.Sys
