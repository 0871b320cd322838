import Mathlib.Data.List.Basic
import Mathlib.Tactic.NormNum

/-!
# Bytes, machine words and fixed-size buffers

What a C program sees of its memory, as plain data: a run of bytes is a
`List UInt8`, an `int` is an `Int32`, and copying an `int` to or from memory goes
through the byte order of the host (`ByteOrder.encode` / `ByteOrder.decode`,
inverse to each other in both directions). `overwrite` is `memcpy` into the
middle of a run of bytes; `Buffer n` is a `char[n]`, which keeps its length by
construction.
-/

namespace MyServer

/-- A property of the bytes of a run is decided one by one, not over all 256 bytes. -/
instance decidableForallBytes {p : UInt8 → Prop} [DecidablePred p] (bs : List UInt8) :
    Decidable (∀ b ∈ bs, p b) := List.decidableBAll p bs

/-! ## Four-byte words -/

/-- The number of bytes of an `int`. -/
def intSize : ℕ := 4

/-- The four bytes of a word, least significant first. -/
def leBytes (x : Int32) : List UInt8 :=
  let n := x.toBitVec.toNat
  [.ofNat n, .ofNat (n / 256), .ofNat (n / 256 ^ 2), .ofNat (n / 256 ^ 3)]

/-- The value of a run of bytes, least significant first. -/
def leValue (bs : List UInt8) : ℕ := bs.foldr (fun b acc => b.toNat + 256 * acc) 0

/-- The word a run of bytes spells, least significant first. -/
def ofLeBytes (bs : List UInt8) : Int32 := .ofBitVec (.ofNat 32 (leValue bs))

@[simp] theorem length_leBytes (x : Int32) : (leBytes x).length = intSize := rfl

/-- A number survives its bytes: each byte holds eight of its bits, and shifting them back puts
every bit where it was. -/
theorem ofLeBytes_leBytes (x : Int32) : ofLeBytes (leBytes x) = x := by
  have hlt : x.toBitVec.toNat < 2 ^ 32 := x.toBitVec.isLt
  have hval : leValue (leBytes x) = x.toBitVec.toNat := by
    simp only [leValue, leBytes, List.foldr_cons, List.foldr_nil, UInt8.toNat_ofNat']
    omega
  rw [ofLeBytes, hval, BitVec.ofNat_toNat, BitVec.setWidth_eq, Int32.ofBitVec_toBitVec]

/-- Four bytes survive the number they make. With fewer the missing ones would come back as zeros,
which is why the length is asked for. -/
theorem leBytes_ofLeBytes {bs : List UInt8} (h : bs.length = intSize) :
    leBytes (ofLeBytes bs) = bs := by
  obtain ⟨b₀, b₁, b₂, b₃, rfl⟩ : ∃ b₀ b₁ b₂ b₃, bs = [b₀, b₁, b₂, b₃] := by
    match bs, h with
    | [b₀, b₁, b₂, b₃], _ => exact ⟨b₀, b₁, b₂, b₃, rfl⟩
  have h₀ := b₀.toNat_lt
  have h₁ := b₁.toNat_lt
  have h₂ := b₂.toNat_lt
  have h₃ := b₃.toNat_lt
  have hval : leValue [b₀, b₁, b₂, b₃] =
      b₀.toNat + 256 * (b₁.toNat + 256 * (b₂.toNat + 256 * b₃.toNat)) := by
    simp [leValue]
  have hword : (ofLeBytes [b₀, b₁, b₂, b₃]).toBitVec.toNat = leValue [b₀, b₁, b₂, b₃] := by
    rw [ofLeBytes, Int32.toBitVec_ofBitVec, BitVec.toNat_ofNat, hval]
    omega
  simp only [leBytes, hword, hval, List.cons.injEq, and_true]
  refine ⟨?_, ?_, ?_, ?_⟩ <;> apply UInt8.toNat.inj <;> rw [UInt8.toNat_ofNat'] <;> omega

/-- The order in which the host lays the bytes of a word out in memory. -/
inductive ByteOrder : Type where
  /-- least significant byte first -/
  | little : ByteOrder
  /-- most significant byte first -/
  | big : ByteOrder
  deriving DecidableEq

namespace ByteOrder

/-- The memory image of an `int`. -/
def encode : ByteOrder → Int32 → List UInt8
  | little, x => leBytes x
  | big, x => (leBytes x).reverse

/-- The `int` a memory image holds. -/
def decode : ByteOrder → List UInt8 → Int32
  | little, bs => ofLeBytes bs
  | big, bs => ofLeBytes bs.reverse

@[simp] theorem length_encode (o : ByteOrder) (x : Int32) : (o.encode x).length = intSize := by
  cases o <;> simp [encode]

/-- The word round trip in either byte order; the big one is the little one reversed, and
reversing twice does nothing. -/
@[simp] theorem decode_encode (o : ByteOrder) (x : Int32) : o.decode (o.encode x) = x := by
  cases o <;> simp [encode, decode, ofLeBytes_leBytes]

/-- The other way round, for the four bytes that a header word has. -/
theorem encode_decode (o : ByteOrder) {bs : List UInt8} (h : bs.length = intSize) :
    o.encode (o.decode bs) = bs := by
  cases o with
  | little => exact leBytes_ofLeBytes h
  | big =>
    have hrev : bs.reverse.length = intSize := by rw [List.length_reverse, h]
    rw [encode, decode, leBytes_ofLeBytes hrev, List.reverse_reverse]

/-- Two words with the same bytes are the same, since decoding takes them back. -/
theorem encode_injective (o : ByteOrder) {x y : Int32} (h : o.encode x = o.encode y) : x = y := by
  rw [← o.decode_encode x, h, o.decode_encode]

end ByteOrder

/-! ## Copying into the middle of a run -/

section Overwrite

variable {α : Type*}

/-- `memcpy (dst + off, src)`: the symbols of `src` replace those of `dst` from
position `off` on. -/
def overwrite (dst : List α) (off : ℕ) (src : List α) : List α :=
  dst.take off ++ src ++ dst.drop (off + src.length)

/-- What `memcpy` leaves up to the end of the copied part: the old bytes in front, then the copy.
The offset has to lie in the destination, or there would be a gap. -/
theorem take_overwrite {dst : List α} {off : ℕ} (src : List α) (h : off ≤ dst.length) :
    (overwrite dst off src).take (off + src.length) = dst.take off ++ src := by
  have hlen : (dst.take off ++ src).length = off + src.length := by
    rw [List.length_append, List.length_take, Nat.min_eq_left h]
  rw [overwrite, ← hlen, List.take_left]

theorem length_overwrite {dst : List α} {off : ℕ} {src : List α}
    (h : off ≤ dst.length) : off + src.length ≤ (overwrite dst off src).length := by
  simp only [overwrite, List.length_append, List.length_take, List.length_drop]
  omega

end Overwrite

/-! ## Fixed-size buffers -/

/-- A `char[n]`: its contents, always `n` bytes. -/
structure Buffer (n : ℕ) : Type where
  /-- the contents -/
  bytes : List UInt8
  /-- the array never changes its size -/
  length_bytes : bytes.length = n

namespace Buffer

variable {n : ℕ}

/-- `memset (b, 0, sizeof b)`. -/
def zero (n : ℕ) : Buffer n := ⟨List.replicate n 0, List.length_replicate⟩

/-- `memcpy (b, src, |src|)`: fill the front of the buffer. Bytes that would land
past the end are cut, so the size holds by construction; every use below proves
that nothing is cut. -/
def fill (b : Buffer n) (src : List UInt8) : Buffer n :=
  ⟨(src ++ b.bytes.drop src.length).take n, by
    rw [List.length_take, List.length_append, List.length_drop, b.length_bytes]
    omega⟩

/-- A read into a buffer changes its first bytes only, and leaves behind them what an earlier read
had put there. -/
theorem bytes_fill (b : Buffer n) {src : List UInt8} (h : src.length ≤ n) :
    (b.fill src).bytes = src ++ b.bytes.drop src.length := by
  refine List.take_of_length_le ?_
  rw [List.length_append, List.length_drop, b.length_bytes]
  omega

/-- So the bytes of a read are found again, as long as they fit. -/
theorem take_fill (b : Buffer n) {src : List UInt8} (h : src.length ≤ n) :
    (b.fill src).bytes.take src.length = src := by
  rw [bytes_fill b h, List.take_left]

end Buffer

end MyServer
