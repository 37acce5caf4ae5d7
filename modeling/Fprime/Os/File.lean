import Mathlib.Data.List.Basic
import Fprime.Lib.Bytes

/-!
# Files

A file system as a map from paths to contents, and the file object the CFDP engine works with. The
flag `ok` of an operation says whether the operating system grants it.
-/

namespace Fprime.Os

open List

abbrev Path := Bytes

abbrev FileSystem := Path → Option Bytes

inductive Mode where
  | openRead
  | openWrite
  | openCreate
  deriving DecidableEq

inductive FileStatus where
  | opOk
  | doesntExist
  | noSpace
  | noPermission
  | badSize
  | notOpened
  | fileExists
  | notSupported
  | invalidMode
  | invalidArgument
  | noMoreResources
  | otherError
  | outsideSandbox
  deriving DecidableEq

structure Handle where
  path : Path
  mode : Mode
  pos : Nat

abbrev File := Option Handle

/-- Overwrite contents from a position on; a gap before it fills with zeros. -/
def overwrite (contents : Bytes) (pos : Nat) (data : Bytes) : Bytes :=
  (contents ++ replicate (pos - contents.length) 0).take pos ++ data
    ++ contents.drop (pos + data.length)

section Overwrite

variable {contents data : Bytes} {pos k : Nat}

theorem getElem?_overwrite_inside (hlo : pos ≤ k) (hhi : k < pos + data.length) :
    (overwrite contents pos data)[k]? = data[k - pos]? := by
  have hfront : ((contents ++ replicate (pos - contents.length) 0).take pos).length = pos := by
    simp only [length_take, length_append, length_replicate]
    omega
  rw [overwrite, append_assoc, getElem?_append_right (by omega), hfront,
    getElem?_append_left (by omega)]

theorem getElem?_overwrite_outside (hk : k < contents.length)
    (hout : k < pos ∨ pos + data.length ≤ k) :
    (overwrite contents pos data)[k]? = contents[k]? := by
  have hfront : ((contents ++ replicate (pos - contents.length) 0).take pos).length = pos := by
    simp only [length_take, length_append, length_replicate]
    omega
  rw [overwrite, append_assoc]
  rcases hout with hlt | hge
  · rw [getElem?_append_left (by omega), getElem?_take_of_lt hlt,
      getElem?_append_left hk]
  · rw [getElem?_append_right (by omega), hfront, getElem?_append_right (by omega),
      getElem?_drop]
    congr 1
    omega

end Overwrite

namespace FileSystem

def update (fs : FileSystem) (path : Path) (contents : Option Bytes) : FileSystem :=
  Function.update fs path contents

def openRead (fs : FileSystem) (ok : Bool) (path : Path) : File :=
  if ok ∧ (fs path).isSome then some ⟨path, .openRead, 0⟩ else none

/-- Open for writing without truncation, creating the file if there is none. -/
def openWrite (fs : FileSystem) (ok : Bool) (path : Path) : FileSystem × File :=
  if ok then (fs.update path (some ((fs path).getD [])), some ⟨path, .openWrite, 0⟩)
  else (fs, none)

def openCreate (fs : FileSystem) (ok : Bool) (path : Path) : FileSystem × File :=
  if ok then (fs.update path (some []), some ⟨path, .openCreate, 0⟩) else (fs, none)

def moveFile (fs : FileSystem) (ok : Bool) (src dst : Path) : FileSystem × Bool :=
  if ok ∧ (fs src).isSome then
    (if src = dst then fs else (fs.update dst (fs src)).update src none, true)
  else (fs, false)

def removeFile (fs : FileSystem) (ok : Bool) (path : Path) : FileSystem :=
  if ok then fs.update path none else fs

def read (fs : FileSystem) (ok : Bool) (fd : File) (count : Nat) : File × Option Bytes :=
  match fd with
  | some h =>
    if ok ∧ h.mode = .openRead then
      let data := (((fs h.path).getD []).drop h.pos).take count
      (some { h with pos := h.pos + data.length }, some data)
    else (fd, none)
  | none => (fd, none)

def write (fs : FileSystem) (ok : Bool) (fd : File) (data : Bytes) :
    FileSystem × File × Bool :=
  match fd with
  | some h =>
    if ok ∧ h.mode ≠ .openRead then
      (fs.update h.path (some (overwrite ((fs h.path).getD []) h.pos data)),
        some { h with pos := h.pos + data.length }, true)
    else (fs, fd, false)
  | none => (fs, fd, false)

def size (fs : FileSystem) (ok : Bool) (fd : File) : Option Nat :=
  match fd with
  | some h => if ok then some ((fs h.path).getD []).length else none
  | none => none

theorem read_cases (fs : FileSystem) (ok : Bool) (fd : File) (count : Nat) :
    (∃ h, fd = some h ∧ h.mode = .openRead ∧
        fs.read ok fd count =
          (some { h with pos := h.pos + ((((fs h.path).getD []).drop h.pos).take count).length },
            some ((((fs h.path).getD []).drop h.pos).take count))) ∨
      fs.read ok fd count = (fd, none) := by
  cases fd with
  | none => exact .inr rfl
  | some h =>
    by_cases hok : ok ∧ h.mode = .openRead
    · exact .inl ⟨h, rfl, hok.2, by simp only [read, if_pos hok]⟩
    · exact .inr (by simp only [read, if_neg hok])

theorem write_cases (fs : FileSystem) (ok : Bool) (fd : File) (data : Bytes) :
    (∃ h, fd = some h ∧ h.mode ≠ .openRead ∧
        fs.write ok fd data =
          (fs.update h.path (some (overwrite ((fs h.path).getD []) h.pos data)),
            some { h with pos := h.pos + data.length }, true)) ∨
      fs.write ok fd data = (fs, fd, false) := by
  cases fd with
  | none => exact .inr rfl
  | some h =>
    by_cases hok : ok ∧ h.mode ≠ .openRead
    · exact .inl ⟨h, rfl, hok.2, by simp only [write, if_pos hok]⟩
    · exact .inr (by simp only [write, if_neg hok])

end FileSystem

def File.seekAbsolute (fd : File) (ok : Bool) (pos : Nat) : File × Bool :=
  match fd with
  | some h => if ok then (some { h with pos := pos }, true) else (fd, false)
  | none => (fd, false)

theorem File.seekAbsolute_cases (fd : File) (ok : Bool) (pos : Nat) :
    (∃ h, fd = some h ∧ fd.seekAbsolute ok pos = (some { h with pos := pos }, true)) ∨
      fd.seekAbsolute ok pos = (fd, false) := by
  cases fd with
  | none => exact .inr rfl
  | some h =>
    by_cases hok : ok
    · exact .inl ⟨h, rfl, by simp only [seekAbsolute, if_pos hok]⟩
    · exact .inr (by simp only [seekAbsolute, if_neg hok])

end Fprime.Os
