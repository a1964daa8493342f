import Mathlib
import PacketSim.Lib.Framing

/-!
# Reliable — Wire

What the reliable-transfer programs exchange (`sender.hpp`): a request is an identifier, a response
an identifier followed by `CHUNK_SIZE` bytes.

* `ByteOrder` — identifiers are copied to and from the wire with `memcpy`, in the order of the host
  both programs run on.
* `Chunk`, `Frame` — byte strings that carry their length.
-/

namespace PacketSim.Reliable

open Lib

/-- The number of chunks in all. -/
def NUM_MSGS : ℕ := 853

/-- The bytes of a chunk. -/
def CHUNK_SIZE : ℕ := 128

/-- The capacity of the buffer and of the server's list of pending replies. -/
def NUM_CHUNKS : ℕ := 10

/-- A `char`. -/
abbrev Byte := UInt8

/-! ### Identifiers -/

/-- The order of the two bytes of a `uint16_t` in memory. -/
inductive ByteOrder where
  | littleEndian
  | bigEndian
deriving DecidableEq, Repr

namespace ByteOrder

/-- The bytes of `x`. -/
def store (o : ByteOrder) (x : UInt16) : List Byte :=
  let low := UInt8.ofNat (x.toNat % 256)
  let high := UInt8.ofNat (x.toNat / 256)
  match o with
  | littleEndian => [low, high]
  | bigEndian => [high, low]

/-- The `uint16_t` whose bytes are the first two of `l`. -/
def load (o : ByteOrder) (l : List Byte) : UInt16 :=
  match l with
  | a :: b :: _ =>
      match o with
      | littleEndian => UInt16.ofNat (a.toNat + 256 * b.toNat)
      | bigEndian => UInt16.ofNat (b.toNat + 256 * a.toNat)
  | _ => 0

@[simp] theorem length_store (o : ByteOrder) (x : UInt16) : (o.store x).length = 2 := by
  cases o <;> rfl

@[simp] theorem load_store_append (o : ByteOrder) (x : UInt16) (l : List Byte) :
    o.load (o.store x ++ l) = x := by
  have hx : x.toNat < 65536 := x.toNat_lt
  have hsum : x.toNat % 256 % 2 ^ 8 + 256 * (x.toNat / 256 % 2 ^ 8) = x.toNat := by omega
  have hvalue : UInt16.ofNat ((UInt8.ofNat (x.toNat % 256)).toNat +
      256 * (UInt8.ofNat (x.toNat / 256)).toNat) = x := by
    rw [UInt8.toNat_ofNat', UInt8.toNat_ofNat', hsum, UInt16.ofNat_toNat]
  cases o with
  | littleEndian => exact hvalue
  | bigEndian => exact hvalue

end ByteOrder

/-! ### Responses -/

/-- A string of `CHUNK_SIZE` bytes. -/
structure Chunk where
  bytes : List Byte
  length_eq : bytes.length = CHUNK_SIZE
deriving DecidableEq

attribute [simp] Chunk.length_eq

/-- A chunk with its number. -/
structure Msg where
  msgId : UInt16
  data : Chunk
deriving DecidableEq

/-- The buffer of one response. -/
structure Frame where
  bytes : List Byte
  length_eq : bytes.length = CHUNK_SIZE + 2
deriving DecidableEq

namespace Frame

variable (o : ByteOrder)

/-- The response the server builds for an identifier and a chunk. -/
def build (id : UInt16) (c : Chunk) : Frame where
  bytes := o.store id ++ c.bytes
  length_eq := by simp [Nat.add_comm]

/-- The message the reader copies out of a response. -/
def toMsg (f : Frame) : Msg where
  msgId := o.load f.bytes
  data := ⟨f.bytes.drop 2, by simp [f.length_eq]⟩

@[simp] theorem toMsg_build (id : UInt16) (c : Chunk) : (build o id c).toMsg o = ⟨id, c⟩ := by
  have hdrop : (o.store id ++ c.bytes).drop 2 = c.bytes := List.drop_left' (o.length_store id)
  simp [toMsg, build, hdrop]

end Frame

/-! ### Genuine data -/

/-- The message holds the chunk its identifier names. -/
def Msg.Genuine (msgs : List Chunk) (m : Msg) : Prop := msgs[m.msgId.toNat]? = some m.data

/-- The bytes are those of a response with the chunk its identifier names. -/
def Answer (o : ByteOrder) (msgs : List Chunk) (l : List Byte) : Prop :=
  ∃ m : Msg, m.Genuine msgs ∧ l = (Frame.build o m.msgId m.data).bytes

section
variable {o : ByteOrder} {msgs : List Chunk}

theorem Answer.length {l : List Byte} (h : Answer o msgs l) : l.length = CHUNK_SIZE + 2 := by
  obtain ⟨m, -, rfl⟩ := h
  exact (Frame.build o m.msgId m.data).length_eq

theorem Answer.genuine {f : Frame} (h : Answer o msgs f.bytes) : (f.toMsg o).Genuine msgs := by
  obtain ⟨m, hm, hf⟩ := h
  have hbuild : f = Frame.build o m.msgId m.data := by
    cases f
    cases hf
    rfl
  rw [hbuild, Frame.toMsg_build]
  exact hm

theorem answer_build {id : UInt16} {c : Chunk} (h : msgs[id.toNat]? = some c) :
    Answer o msgs (Frame.build o id c).bytes :=
  ⟨⟨id, c⟩, h, rfl⟩

end

end PacketSim.Reliable
