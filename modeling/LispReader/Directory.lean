import LispReader.Document
import LispReader.Form.Writer

/-!
# Files in a directory

A directory holds files by name, and no directories. A path is walked part by part
from the directory, or from outside of it if it begins with a slash. Every part but
the last has to be a directory: `.` stays, `..` leads outside, and a name does not
lead to a directory anywhere. Nothing is known of the outside but that it is made
of directories; files there are not found.
-/

namespace LispReader

/-- Why a path cannot be opened. -/
inductive PathError where
  /-- There is no such file, or no such directory on the way to it. -/
  | notFound
  /-- A file stands where a directory should be. -/
  | notDirectory
  /-- The path leads to a directory, or asks for one that is to be written. -/
  | isDirectory
  /-- The path or a name in it has more bytes than are allowed. -/
  | tooLong
  /-- The path has a character that no path can have. -/
  | nullCharacter
  deriving DecidableEq, Repr

namespace PathError

/-- The reason in words, with its number if it has one. -/
def message : PathError → String
  | notFound => "No such file or directory (os error 2)"
  | notDirectory => "Not a directory (os error 20)"
  | isDirectory => "Is a directory (os error 21)"
  | tooLong => "File name too long (os error 36)"
  | nullCharacter => "file name contained an unexpected NUL byte"

end PathError

/-- Files by name, the latest first. -/
structure Directory where
  files : List (String × List UInt8) := []
  deriving DecidableEq, Repr

namespace Directory

/-- The greatest number of bytes in the name of a file. -/
def longestName : Nat := 255

/-- The greatest number of bytes in a path. -/
def longestPath : Nat := 4095

/-- A directory on the way along a path. -/
inductive Place where
  /-- The directory that holds the files. -/
  | here
  /-- Any other one. -/
  | outside
  deriving DecidableEq, Repr

/-- What a path leads to. -/
inductive Target where
  | directory
  /-- A name, which may be followed by a slash and may not exist. -/
  | entry (place : Place) (name : String) (slash : Bool)
  deriving DecidableEq, Repr

variable (d : Directory)

/-- The directory that a part of a path leads to. -/
def enter (place : Place) (part : String) : Except PathError Place :=
  if part = "." then .ok place
  else if part = ".." then .ok .outside
  else if longestName < part.utf8ByteSize then .error .tooLong
  else if place = .here && (d.files.lookup part).isSome then .error .notDirectory
  else .error .notFound

/-- The directory that several parts of a path lead to. -/
def walk (place : Place) : List String → Except PathError Place
  | [] => .ok place
  | part :: parts =>
    match d.enter place part with
    | .ok place => walk place parts
    | .error e => .error e

/-- What a path leads to. -/
def resolve (path : String) : Except PathError Target :=
  if '\x00' ∈ path.toList then .error .nullCharacter
  else if path = "" then .error .notFound
  else if longestPath < path.utf8ByteSize then .error .tooLong
  else
    let parts := (path.splitOn "/").filter (· ≠ "")
    match parts.getLast? with
    | none => .ok .directory
    | some last =>
      match d.walk (if path.startsWith "/" then .outside else .here) parts.dropLast with
      | .ok place =>
        if last = "." || last = ".." then .ok .directory
        else .ok (.entry place last (path.endsWith "/"))
      | .error e => .error e

/-- The bytes of a file. -/
def read (path : String) : Except PathError (List UInt8) :=
  match d.resolve path with
  | .ok .directory => .error .isDirectory
  | .ok (.entry place name slash) =>
    if longestName < name.utf8ByteSize then .error .tooLong
    else
      match place, d.files.lookup name with
      | .here, some bytes => if slash then .error .notDirectory else .ok bytes
      | _, _ => .error .notFound
  | .error e => .error e

/-- Makes a file with some bytes, in place of one with the same name. -/
def write (path : String) (bytes : List UInt8) : Except PathError Directory :=
  match d.resolve path with
  | .ok .directory => .error .isDirectory
  | .ok (.entry place name slash) =>
    if slash then .error .isDirectory
    else if longestName < name.utf8ByteSize then .error .tooLong
    else
      match place with
      | .here => .ok ⟨(name, bytes) :: d.files.filter (·.1 ≠ name)⟩
      | .outside => .error .notFound
  | .error e => .error e

/-- A step that succeeds depends on no file. -/
theorem enter_eq_ok {d : Directory} {place place' : Place} {part : String}
    (h : d.enter place part = .ok place') (d' : Directory) : d'.enter place part = .ok place' := by
  unfold enter at h ⊢
  split at h
  · next hp => rw [if_pos hp, h]
  · next hp =>
    rw [if_neg hp]
    split at h
    · next hp => rw [if_pos hp, h]
    · split at h
      · cases h
      · split at h <;> cases h

theorem walk_eq_ok {d : Directory} {place place' : Place} {parts : List String}
    (h : d.walk place parts = .ok place') (d' : Directory) : d'.walk place parts = .ok place' := by
  induction parts generalizing place with
  | nil => exact h
  | cons part parts ih =>
    unfold walk at h ⊢
    split at h
    · next hp => rw [enter_eq_ok hp d']; exact ih h
    · cases h

theorem resolve_eq_ok {d : Directory} {path : String} {target : Target}
    (h : d.resolve path = .ok target) (d' : Directory) : d'.resolve path = .ok target := by
  unfold resolve at h ⊢
  by_cases hnull : '\x00' ∈ path.toList
  · rw [if_pos hnull] at h; cases h
  by_cases hempty : path = ""
  · rw [if_neg hnull, if_pos hempty] at h; cases h
  by_cases hlong : longestPath < path.utf8ByteSize
  · rw [if_neg hnull, if_neg hempty, if_pos hlong] at h; cases h
  rw [if_neg hnull, if_neg hempty, if_neg hlong] at h ⊢
  dsimp only at h ⊢
  split at h
  · exact h
  · split at h
    · next hwalk => rw [walk_eq_ok hwalk d']; exact h
    · cases h

/-- A file that was just written has the bytes that were written. -/
theorem read_of_write {d d' : Directory} {path : String} {bytes : List UInt8}
    (h : d.write path bytes = .ok d') : d'.read path = .ok bytes := by
  unfold write at h
  split at h
  · cases h
  · next place name slash htarget =>
    split at h
    · cases h
    · next hslash =>
      split at h
      · cases h
      · next hlong =>
        cases place with
        | outside => cases h
        | here =>
          cases h
          simp [read, resolve_eq_ok htarget, hslash, hlong]
  · cases h

/-- Reads the document in a file. -/
def load (g : Grammar) (path : String) : Option (Except ReadError Document) :=
  match d.read path with
  | .error e => some (.error (.decode (.io e.message)))
  | .ok bytes => g.load ⟨[bytes], none⟩

/-- Writes forms to a file. -/
def save (path : String) (forms : List Form) : Except PathError Directory :=
  d.write path (Text.bytes (Form.writeAll forms))

end Directory

end LispReader
