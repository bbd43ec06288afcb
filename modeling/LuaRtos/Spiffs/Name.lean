/-
  LuaRtos.Spiffs.Name

  The flat name space of SPIFFS, and the directories that vfs/spiffs.c makes of
  it: a directory is an object whose name ends in "/.".

  A string is the list of its bytes, without the terminator.  The limits are
  those of the build (Makefile.projbuild) and of spiffs_config.h, the error codes
  those of spiffs.h and of the C library.
-/

import LuaRtos.Sys.Mount

namespace LuaRtos.Spiffs

open CLib Sys

def PATH_MAX : Nat := 64
def MAXNAMLEN : Nat := 64
def SPIFFS_OBJ_NAME_LEN : Nat := 64

/-- `strlcpy` to a buffer of size `n`. -/
def strlcpy (src : List Byte) (n : Nat) : List Byte := src.take (n - 1)

/-- `strlcat` to a buffer of size `n`, which holds `dst`. -/
def strlcat (dst src : List Byte) (n : Nat) : List Byte := dst ++ src.take (n - 1 - dst.length)

/-- The root directory. -/
def root : List Byte := [slash]

/-- The name of the object that makes a directory of `path`. -/
def marker (path : List Byte) : List Byte := path ++ [slash, dot]

/-- The name of an object in a directory. -/
def under (dir name : List Byte) : List Byte :=
  if dir = root then root ++ name else dir ++ slash :: name

/-- A name that an object can have. -/
structure ValidName (name : List Byte) : Prop where
  absolute : name.head? = some slash
  nul_free : nul ∉ name
  fits : name.length < SPIFFS_OBJ_NAME_LEN

instance (name : List Byte) : Decidable (ValidName name) :=
  decidable_of_iff (name.head? = some slash ∧ nul ∉ name ∧ name.length < SPIFFS_OBJ_NAME_LEN)
    ⟨fun h => ⟨h.1, h.2.1, h.2.2⟩, fun h => ⟨h.absolute, h.nul_free, h.fits⟩⟩

/-- The path with "/." added, as `is_dir` and `vfs_spiffs_open` build it. -/
def dirPath (path : List Byte) : List Byte :=
  let npath := strlcpy path PATH_MAX
  if path ≠ root then strlcat npath [slash, dot] PATH_MAX else strlcat npath [dot] PATH_MAX

/-- The name that `vfs_spiffs_mkdir` creates. -/
def mkdirPath (path : List Byte) : List Byte :=
  let npath := strlcpy path PATH_MAX
  if path ≠ root ∧ path ≠ [slash, dot] then strlcat npath [slash, dot] PATH_MAX else npath

theorem strlcat_strlcpy {path : List Byte} (h : path.length ≤ 61) :
    strlcat (strlcpy path PATH_MAX) [slash, dot] PATH_MAX = marker path := by
  have hcopy : strlcpy path PATH_MAX = path :=
    List.take_of_length_le (show path.length ≤ 63 by omega)
  have hroom : ([slash, dot] : List Byte).length ≤ PATH_MAX - 1 - path.length := by
    show 2 ≤ 63 - path.length
    omega
  rw [hcopy, strlcat, List.take_of_length_le hroom, marker]

theorem dirPath_eq {path : List Byte} (hpath : path ≠ root) (h : path.length ≤ 61) :
    dirPath path = marker path :=
  (if_pos hpath).trans (strlcat_strlcpy h)

/-- A directory is made where its object is looked for. -/
theorem mkdirPath_eq {path : List Byte} (hpath : path ≠ root) (hdot : path ≠ [slash, dot])
    (h : path.length ≤ 61) : mkdirPath path = marker path :=
  (if_pos ⟨hpath, hdot⟩).trans (strlcat_strlcpy h)

/-- The objects of the file system, in the order in which `SPIFFS_readdir`
    enumerates them. -/
structure Objects where
  names : List (List Byte)
  nodup : names.Nodup
  valid : ∀ name ∈ names, ValidName name

/-- `path` is a directory. -/
def Objects.Directory (objs : Objects) (path : List Byte) : Prop :=
  path = root ∨ path.head? = some slash ∧ path ≠ root ∧ marker path ∈ objs.names

/-! ## Errors -/

def ENOENT : Int := 2
def EBADF : Int := 9
def ENOMEM : Int := 12
def EACCES : Int := 13
def EEXIST : Int := 17
def ENOTDIR : Int := 20
def ENOTEMPTY : Int := 90

def SPIFFS_OK : Int := 0
def SPIFFS_ERR_NOT_FOUND : Int := -10002
def SPIFFS_ERR_END_OF_OBJECT : Int := -10003
def SPIFFS_ERR_NOT_WRITABLE : Int := -10021
def SPIFFS_ERR_NOT_READABLE : Int := -10022
def SPIFFS_ERR_CONFLICTING_NAME : Int := -10023
def SPIFFS_ERR_FILE_EXISTS : Int := -10030

/-- `spiffs_result`. -/
def spiffsResult (res : Int) : Int :=
  if res = SPIFFS_OK ∨ res = SPIFFS_ERR_END_OF_OBJECT then 0
  else if res = SPIFFS_ERR_NOT_FOUND ∨ res = SPIFFS_ERR_CONFLICTING_NAME then ENOENT
  else if res = SPIFFS_ERR_NOT_WRITABLE ∨ res = SPIFFS_ERR_NOT_READABLE then EACCES
  else if res = SPIFFS_ERR_FILE_EXISTS then EEXIST
  else res

end LuaRtos.Spiffs
