import TileOffload.Size

/-! # Words in byte arrays

A word is stored as four bytes, the least significant first. Byte arrays are read by byte and by word,
and overwritten by splicing in another array; every other operation on stored data is one of these. -/

namespace TileOffload

namespace Word

/-- The four bytes of a word, the least significant first. -/
def bytes (w : Word) : List UInt8 :=
  [w.toUInt8, (w >>> 8).toUInt8, (w >>> 16).toUInt8, (w >>> 24).toUInt8]

/-- The word with the given bytes, the least significant first. -/
def ofBytes (b₀ b₁ b₂ b₃ : UInt8) : Word :=
  b₀.toUInt32 + b₁.toUInt32 * 256 + b₂.toUInt32 * 65536 + b₃.toUInt32 * 16777216

/-- A word is put together again from its bytes. -/
theorem ofBytes_bytes (w : Word) :
    ofBytes w.toUInt8 (w >>> 8).toUInt8 (w >>> 16).toUInt8 (w >>> 24).toUInt8 = w := by
  apply UInt32.toNat_inj.mp
  have hw := w.toNat_lt
  simp only [ofBytes, UInt32.toNat_add, UInt32.toNat_mul, UInt8.toNat_toUInt32, UInt32.toNat_toUInt8,
    UInt32.toNat_shiftRight, UInt32.toNat_ofNat, Nat.shiftRight_eq_div_pow]
  simp only [Nat.reduceMod, Nat.reducePow] at *
  omega

end Word

namespace Bytes

/-- How many bytes a word takes. -/
def perWord : Nat := 4

/-- The byte at an index; zero past the end. -/
def byteAt (b : ByteArray) (i : Nat) : UInt8 :=
  if h : i < b.size then b[i] else 0

/-- The word whose bytes begin at an index. -/
def wordAt (b : ByteArray) (i : Nat) : Word :=
  Word.ofBytes (byteAt b i) (byteAt b (i + 1)) (byteAt b (i + 2)) (byteAt b (i + 3))

/-- The words stored one after another from an index on. -/
def wordsAt (b : ByteArray) (i count : Nat) : List Word :=
  (List.range count).map fun k => wordAt b (i + perWord * k)

/-- The words as bytes, one after another. -/
def ofWords (ws : List Word) : ByteArray :=
  (ws.flatMap Word.bytes).toByteArray

/-- The array with the bytes of `patch` written over it from index `i` on. -/
def splice (b : ByteArray) (i : Nat) (patch : ByteArray) : ByteArray :=
  patch.copySlice 0 b i patch.size

/-- A splice keeps what comes before and after it. -/
theorem data_splice (b : ByteArray) (i : Nat) (p : ByteArray) :
    (splice b i p).data = b.data.extract 0 i ++ p.data ++ b.data.extract (i + p.size) b.size := by
  have hp : p.data.extract 0 p.size = p.data := by rw [← ByteArray.size_data, Array.extract_size]
  simp [splice, ByteArray.copySlice, hp]

theorem size_splice {b : ByteArray} {i : Nat} {p : ByteArray} (h : i + p.size ≤ b.size) :
    (splice b i p).size = b.size := by
  rw [← ByteArray.size_data, data_splice]
  simp
  omega

theorem byteAt_eq_getElem? (b : ByteArray) (i : Nat) : byteAt b i = b.data[i]?.getD 0 := by
  unfold byteAt
  split <;> rename_i h <;> rw [← ByteArray.size_data] at h
  · rw [Array.getElem?_eq_getElem h]; rfl
  · rw [Array.getElem?_eq_none (Nat.le_of_not_lt h)]; rfl

/-- A splice inside the array changes exactly the bytes it covers. -/
theorem byteAt_splice {b : ByteArray} {i : Nat} {p : ByteArray} (h : i + p.size ≤ b.size) (j : Nat) :
    byteAt (splice b i p) j = if i ≤ j ∧ j < i + p.size then byteAt p (j - i) else byteAt b j := by
  simp only [byteAt_eq_getElem?, data_splice, Array.getElem?_append, Array.size_extract, Array.size_append,
    Array.getElem?_extract, ByteArray.size_data]
  have hb := ByteArray.size_data (a := b)
  have hn : ∀ k, b.size ≤ k → b.data[k]? = none := fun k hk => Array.getElem?_eq_none (by omega)
  rcases Nat.lt_or_ge j i with hj | hj
  · grind
  · rcases Nat.lt_or_ge j (i + p.size) with hk | hk
    · grind
    · have e : i + p.size + (j - (p.size + min i b.size)) = j := by omega
      grind

/-- That many zero bytes. -/
def zeros (n : Nat) : ByteArray :=
  Nat.repeat (·.push 0) n (ByteArray.emptyWithCapacity n)

theorem data_repeat_push (b : ByteArray) (n : Nat) :
    (Nat.repeat (·.push 0) n b).data = b.data ++ Array.replicate n 0 := by
  induction n with
  | zero => simp [Nat.repeat]
  | succ n ih => simp [Nat.repeat, ih, Array.replicate_succ]

theorem data_zeros (n : Nat) : (zeros n).data = Array.replicate n 0 := by
  rw [zeros, data_repeat_push]
  exact Array.empty_append

end Bytes

end TileOffload
