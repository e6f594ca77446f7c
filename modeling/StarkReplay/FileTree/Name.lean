import StarkReplay.Text.Utf8

/-!
Names of files. A name is stored as bytes; what names a file is the encoding of a text. A byte
that belongs to no encoded code point is shown as one of 128 surrogates, its mark, and in a name
the mark stands for the byte. Two names with the same bytes are one name.
-/
namespace StarkReplay.FileName

/-- The surrogates that mark the bytes from `0x80` to `0xFF`. -/
def isMark (c : CodePoint) : Bool := 0xDC80 ≤ c.val && c.val ≤ 0xDCFF

def mark (b : UInt8) : CodePoint := CodePoint.ofNat (0xDC00 + b.toNat)

/-- A name with another surrogate has no bytes. -/
def isEncodable (name : Text) : Bool := name.all (fun c => !c.isSurrogate || isMark c)

def bytesOf (c : CodePoint) : List UInt8 :=
  if isMark c then [(c.val - 0xDC00).toUInt8] else Utf8.encodeOne c

def bytes (name : Text) : List UInt8 := name.flatMap bytesOf

/-- The name as it is shown once it is stored. -/
def stored (name : Text) : Text :=
  if isEncodable name && name.any isMark then
    Utf8.decodeReplacing (fun b => [mark b]) (bytes name)
  else name

/-- A name has at most so many bytes. -/
def maxLength : Nat := 255

def isTooLong (name : Text) : Bool := maxLength < (bytes name).length

/-- The name that leads back to the directory above. -/
def above : Text := ".."

theorem stored_eq_self {name : Text} (h : name.any isMark = false) : stored name = name := by
  simp [stored, h]

end StarkReplay.FileName
