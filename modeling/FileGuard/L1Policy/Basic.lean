import FileGuard.L1Policy.Abi

/-!
# Byte strings, results and file identities

`include/fileguard/core_utils.hpp` and `include/fileguard/file_id.hpp`.

A `std::string` is a byte string (`Str`): policy paths, process names and
socket data may hold any bytes. A `Result<T>` is `Except Str T`; its error is
the message.
-/
namespace FileGuard

/-- `std::string` -/
abbrev Str := List UInt8

/-- The bytes of a string literal. -/
def str (s : String) : Str := s.toUTF8.data.toList

/-- `std::to_string` of an unsigned integer -/
def toStr (n : Nat) : Str := str (toString n)

/-- The byte `'/'` -/
def slash : UInt8 := 47

/-- `Result<T>`
mirrors include/fileguard/core_utils.hpp:11-16 -/
abbrev Result (α : Type) := Except Str α

abbrev ResultVoid := Result Unit

/-- mirrors include/fileguard/core_utils.hpp:23-25 -/
def okV : ResultVoid := .ok ()

/-- mirrors include/fileguard/core_utils.hpp:27-31 -/
def err {α : Type} (message : Str) : Result α := .error message

/-! ## Identities -/

/-- `FileId`
mirrors include/fileguard/file_id.hpp:22-62 -/
structure FileId where
  devMajor : UInt32 := 0
  devMinor : UInt32 := 0
  ino : UInt64 := 0
  deriving DecidableEq, Repr

namespace FileId

def valid (f : FileId) : Bool := f.ino != 0

/-- mirrors include/fileguard/file_id.hpp:42-45 -/
def toString (f : FileId) : Str :=
  toStr f.devMajor.toNat ++ str ":" ++ toStr f.devMinor.toNat ++ str ":" ++ toStr f.ino.toNat

/-- mirrors include/fileguard/file_id.hpp:47-53 -/
def toAbi (f : FileId) : FileguardFileId := ⟨f.devMajor, f.devMinor, f.ino⟩

/-- mirrors include/fileguard/file_id.hpp:55-61 -/
def fromAbi (id : FileguardFileId) : FileId := ⟨id.devMajor, id.devMinor, id.ino⟩

@[simp] theorem fromAbi_toAbi (f : FileId) : fromAbi f.toAbi = f := rfl

@[simp] theorem toAbi_fromAbi (id : FileguardFileId) : (fromAbi id).toAbi = id := rfl

theorem toAbi_inj {f g : FileId} (h : f.toAbi = g.toAbi) : f = g := by
  have := congrArg fromAbi h
  simpa using this

theorem valid_iff (f : FileId) : f.valid = true ↔ f.toAbi.ino ≠ 0 := by
  simp [valid, toAbi]

end FileId

end FileGuard
