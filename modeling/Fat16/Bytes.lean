/-!
# Bytes of an image

An image, and every part of one, is an array of bytes. Positions inside it come from fields that
are stored in the image itself, so nothing keeps them in range: a single byte past the end reads
as zero, and a window is cut where the image ends, possibly to nothing.

Numbers are stored with the least significant byte first. `Bytes.word16` and `Bytes.word32` read
them at any position; `Bytes.ofWord16` and `Bytes.ofWord32` are the stored forms.
-/

namespace Fat16

/-- An image, or a part of one. -/
abbrev Bytes := Array UInt8

namespace Bytes

/-- The byte at position `i`, zero past the end. -/
def byte (bytes : Bytes) (i : Nat) : UInt8 := bytes.getD i 0

/-- The 16-bit number stored at position `i`. -/
def word16 (bytes : Bytes) (i : Nat) : UInt16 :=
  .ofNat ((bytes.byte i).toNat + 256 * (bytes.byte (i + 1)).toNat)

/-- The 32-bit number stored at position `i`. -/
def word32 (bytes : Bytes) (i : Nat) : UInt32 :=
  .ofNat ((bytes.word16 i).toNat + 65536 * (bytes.word16 (i + 2)).toNat)

/-- The `n` bytes from position `i` on. -/
def field (bytes : Bytes) (n i : Nat) : Vector UInt8 n := .ofFn fun k ↦ bytes.byte (i + k)

/-- The bytes in `[offset, offset + length)`, cut where the image ends. -/
def window (image : Bytes) (offset length : Nat) : Bytes := image.extract offset (offset + length)

/-- The stored form of a 16-bit number. -/
def ofWord16 (w : UInt16) : Bytes := #[.ofNat w.toNat, .ofNat (w.toNat / 256)]

/-- The stored form of a 32-bit number. -/
def ofWord32 (w : UInt32) : Bytes :=
  ofWord16 (.ofNat w.toNat) ++ ofWord16 (.ofNat (w.toNat / 65536))

/-- The parts one after another. -/
def concat (parts : List Bytes) : Bytes := parts.foldl (· ++ ·) #[]

/-- A window never reaches past the end of the image. -/
theorem size_window (image : Bytes) (offset length : Nat) :
    (image.window offset length).size = min length (image.size - offset) := by
  rw [window, Array.size_extract]
  omega

theorem size_foldl_append_le {parts : List Bytes} {n : Nat} (h : ∀ part ∈ parts, part.size ≤ n)
    (start : Bytes) : (parts.foldl (· ++ ·) start).size ≤ start.size + parts.length * n := by
  induction parts generalizing start with
  | nil => simp
  | cons part parts ih =>
    have h₁ := h part List.mem_cons_self
    have h₂ := ih (fun p hp ↦ h p (List.mem_cons_of_mem _ hp)) (start ++ part)
    rw [Array.size_append] at h₂
    rw [List.foldl_cons, List.length_cons, Nat.add_mul, Nat.one_mul]
    omega

/-- Parts of at most `n` bytes join to at most `n` bytes for each part. -/
theorem size_concat_le {parts : List Bytes} {n : Nat} (h : ∀ part ∈ parts, part.size ≤ n) :
    (concat parts).size ≤ parts.length * n := by
  simpa [concat] using size_foldl_append_le h #[]

end Bytes

end Fat16
