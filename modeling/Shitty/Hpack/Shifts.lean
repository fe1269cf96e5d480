import Shitty.Hpack.BitBuf
import Shitty.Hpack.HuffEncode
import Shitty.Lib.Checked

/-!
# The shifts of the Huffman coder

The encoder and the end test of the bit reader once more, with the types that their
shifts have in C: a shift by a negative amount, or by as many bits as the operand has, is
a fault. What is thrown is the memory with which `encode` returns -1.
-/

namespace Shitty.Hpack.Shifts

open Lib Lib.Checked

inductive Fault where
  | amount
  deriving DecidableEq, Repr

abbrev Shift (ε α : Type) := Checked Fault ε α

variable {ε : Type}

/-- `v >> k` of a `uint32_t`. -/
def shr (v : Nat) (k : Int) : Shift ε Nat := do
  check .amount (0 ≤ k ∧ k < 32)
  return v >>> k.toNat

/-- `v << k` of a `uint32_t`. -/
def shl (v : Nat) (k : Int) : Shift ε Nat := do
  check .amount (0 ≤ k ∧ k < 32)
  return (v <<< k.toNat) % 2 ^ 32

/-- `v << k` of an `int` of at most eight bits, which are not to reach its sign. -/
def shl_int (v : Nat) (k : Int) : Shift ε Nat := do
  check .amount (0 ≤ k ∧ k < 32 ∧ v <<< k.toNat < 2 ^ 31)
  return v <<< k.toNat

/-- An `int` that is stored in a `uint_fast8_t`, which keeps eight bits of it. -/
def uint8 (k : Int) : Nat := (k % 2 ^ 8).toNat

/-! ## `huffy/bitbuf.c` -/

/-- No zero is among the bits of `next` in front of the end. -/
def next_ones (bb : BitBuf) : Shift ε Bool :=
  if 8 < bb.eos_after_bits then do
    let mask ← shl_int 0xff (8 - bb.eos_after_bits % 8)
    return decide (bb.next &&& BitVec.ofNat 8 mask = BitVec.ofNat 8 mask)
  else return true

def bb_eos (bbr : BbReader) : Shift ε Bool :=
  if bbr.bb.eos_after_bits = -1 then return false
  else if bbr.bb.eos_after_bits = 0 then return true
  else do
    let ones ← next_ones bbr.bb
    if ones = false then return false
    else do
      let mask ← shl_int 0xff (8 - bbr.bb.eos_after_bits)
      return decide (bbr.bb.octet &&& BitVec.ofNat 8 mask = BitVec.ofNat 8 mask)

/-! ## `huffy/encode.c` -/

def fill_partial_octet (huffcode bits : Nat) (st : EncodeState) (base buflen : Nat) :
    Shift Mem (Nat × Nat × EncodeState) :=
  if st.existing_bits = 0 then return (huffcode, bits, st)
  else if 8 ≤ bits + st.existing_bits then do
    let front ← shr huffcode (bits - (8 - st.existing_bits : Int))
    let partial_octet := st.partial_octet ||| BitVec.ofNat 8 front
    let bits := uint8 (bits - (8 - st.existing_bits : Int))
    let mask ← shl_int 1 bits
    let huffcode := huffcode &&& (mask - 1)
    if buflen ≤ st.outi then .error (.thrown st.buf)
    else
      return (huffcode, bits,
        { existing_bits := 0
          partial_octet := 0
          outi := st.outi + 1
          buf := st.buf.store (base + st.outi) partial_octet })
  else do
    let new_partial_bits := uint8 (8 - st.existing_bits)
    let new_partial_bits := if bits < new_partial_bits then bits else new_partial_bits
    let back ← shl huffcode (8 - (st.existing_bits + bits : Int))
    return (huffcode, uint8 (bits - new_partial_bits),
      { st with
        existing_bits := uint8 (st.existing_bits + new_partial_bits)
        partial_octet := st.partial_octet ||| BitVec.ofNat 8 back })

/-- `while (bits > 8)`: the loop that writes the octets a code word fills. -/
def write_full (huffcode : Nat) : (bits : Nat) → EncodeState → (base buflen : Nat) →
    Shift Mem (Nat × EncodeState)
  | bits + 9, st, base, buflen =>
      if buflen ≤ st.outi then .error (.thrown st.buf)
      else do
        let full ← shr huffcode (((bits + 9 : Nat) : Int) - 8)
        write_full huffcode (bits + 1)
          { st with
            outi := st.outi + 1
            buf := st.buf.store (base + st.outi) (BitVec.ofNat 8 full) }
          base buflen
  | bits, st, _, _ => return (bits, st)

def encode_symbol (c : Octet) (st : EncodeState) (base buflen : Nat) :
    Shift Mem EncodeState := do
  let encv := etable.getD c.toNat default
  let (huffcode, bits, st) ← fill_partial_octet (encv.value % 2 ^ 32) encv.bits st base buflen
  let (bits, st) ← write_full huffcode bits st base buflen
  if bits ≠ 0 then do
    let waiting ← shl huffcode (8 - bits)
    return { st with
      existing_bits := bits
      partial_octet := BitVec.ofNat 8 waiting }
  else return st

def encode_loop : Bytes → EncodeState → (base buflen : Nat) → Shift Mem EncodeState
  | [], st, _, _ => return st
  | c :: input, st, base, buflen => do
      let st ← encode_symbol c st base buflen
      encode_loop input st base buflen

def flush_partial_octet (st : EncodeState) (base buflen : Nat) : Shift Mem EncodeState :=
  if st.existing_bits ≠ 0 then
    if buflen ≤ st.outi then .error (.thrown st.buf)
    else do
      let mask ← shl_int 1 (8 - st.existing_bits)
      let partial_octet := st.partial_octet ||| BitVec.ofNat 8 (mask - 1)
      return { st with
        outi := st.outi + 1
        buf := st.buf.store (base + st.outi) partial_octet }
  else return st

/-- What is returned, and memory behind it. -/
def returned : Shift Mem EncodeState → Except Fault (Int × Mem)
  | .ok st => .ok (if SSIZE_MAX < (st.outi : Int) then (-1, st.buf) else ((st.outi : Int), st.buf))
  | .error (.thrown buf) => .ok (-1, buf)
  | .error (.fault f) => .error f

def encode (input : Bytes) (base : Nat) (buf : Mem) (buflen : Nat) :
    Except Fault (Int × Mem) :=
  returned do
    let st ← encode_loop input
      { existing_bits := 0, partial_octet := 0, outi := 0, buf := buf } base buflen
    flush_partial_octet st base buflen

end Shitty.Hpack.Shifts
