import Shitty.Hpack.HuffTables
import Shitty.Hpack.Number

/-!
# The Huffman encoder

`encode` and `huffman_encode` of `huffy/encode.c`. Where the C code returns -1 in the
middle of a loop, the memory written so far is the error. The local variables are a
record, and every statement that changes them is a function from one to the next, under
the conditions that the source has in front of it.
-/

namespace Shitty.Hpack

/-- The largest value of `ssize_t`, in which the functions return a length. -/
def SSIZE_MAX : Int := 2 ^ 63 - 1

/-- The local variables of `encode`, and the memory it writes into. -/
structure EncodeState where
  existing_bits : Nat
  /-- Bits waiting for a full octet, left-aligned. -/
  partial_octet : Octet
  outi : Nat
  buf : Mem

/-- The `if (existing_bits)` of the loop: fill up the partial octet, and return
what is left of the code. The buffer starts at `buf[base]`. -/
def fill_partial_octet (huffcode bits : Nat) (st : EncodeState) (base buflen : Nat) :
    Except Mem (Nat × Nat × EncodeState) :=
  if st.existing_bits = 0 then .ok (huffcode, bits, st)
  else if 8 ≤ bits + st.existing_bits then
    let partial_octet :=
      st.partial_octet ||| BitVec.ofNat 8 (huffcode >>> (bits - (8 - st.existing_bits)))
    let bits := bits - (8 - st.existing_bits)
    let huffcode := huffcode &&& ((1 <<< bits) - 1)
    if buflen ≤ st.outi then .error st.buf
    else
      .ok (huffcode, bits,
        { existing_bits := 0
          partial_octet := 0
          outi := st.outi + 1
          buf := st.buf.store (base + st.outi) partial_octet })
  else
    let new_partial_bits := 8 - st.existing_bits
    let new_partial_bits := if bits < new_partial_bits then bits else new_partial_bits
    .ok (huffcode, bits - new_partial_bits,
      { st with
        existing_bits := st.existing_bits + new_partial_bits
        partial_octet := st.partial_octet |||
          BitVec.ofNat 8 (huffcode <<< (8 - (st.existing_bits + bits))) })

/-- `while (bits > 8)`: write full octets of the code. -/
def write_full (huffcode : Nat) : (bits : Nat) → EncodeState → (base buflen : Nat) →
    Except Mem (Nat × EncodeState)
  | bits + 9, st, base, buflen =>
      if buflen ≤ st.outi then .error st.buf
      else
        write_full huffcode (bits + 1)
          { st with
            outi := st.outi + 1
            buf := st.buf.store (base + st.outi) (BitVec.ofNat 8 (huffcode >>> (bits + 1))) }
          base buflen
  | bits, st, _, _ => .ok (bits, st)

/-- One turn of the loop over the input: the code of one octet is put behind the bits that wait. -/
def encode_symbol (c : Octet) (st : EncodeState) (base buflen : Nat) :
    Except Mem EncodeState := do
  let encv := etable.getD c.toNat default
  let (huffcode, bits, st) ← fill_partial_octet encv.value encv.bits st base buflen
  let (bits, st) ← write_full huffcode bits st base buflen
  if bits ≠ 0 then
    return { st with
      existing_bits := bits
      partial_octet := BitVec.ofNat 8 (huffcode <<< (8 - bits)) }
  else return st

/-- The loop over the input, one octet after the other. -/
def encode_loop : Bytes → EncodeState → (base buflen : Nat) → Except Mem EncodeState
  | [], st, _, _ => .ok st
  | c :: input, st, base, buflen => do
      let st ← encode_symbol c st base buflen
      encode_loop input st base buflen

/-- The remaining partial octet, padded on the right with ones. -/
def flush_partial_octet (st : EncodeState) (base buflen : Nat) : Except Mem EncodeState :=
  if st.existing_bits ≠ 0 then
    if buflen ≤ st.outi then .error st.buf
    else
      let partial_octet :=
        st.partial_octet ||| BitVec.ofNat 8 ((1 <<< (8 - st.existing_bits)) - 1)
      .ok { st with
        outi := st.outi + 1
        buf := st.buf.store (base + st.outi) partial_octet }
  else .ok st

/-- `encode(input, input_len, buf + base, buflen)`. -/
def encode (input : Bytes) (base : Nat) (buf : Mem) (buflen : Nat) : Int × Mem :=
  let st : EncodeState := { existing_bits := 0, partial_octet := 0, outi := 0, buf := buf }
  match encode_loop input st base buflen with
  | .error buf => (-1, buf)
  | .ok st =>
      match flush_partial_octet st base buflen with
      | .error buf => (-1, buf)
      | .ok st => if SSIZE_MAX < (st.outi : Int) then (-1, st.buf) else ((st.outi : Int), st.buf)

/-- `huffman_encode(input, input_len, buf, buflen)`. The local array
`encoded_number` is not initialised, so its contents are an argument. -/
def huffman_encode (input : Bytes) (encoded_number : Mem) (buf : Mem) (buflen : Nat) :
    Int × Mem :=
  if buflen < 1 then (-1, buf)
  else
    -- encoded directly behind the first octet, where a short length will go
    let (len, buf) := encode input 1 buf (buflen - 1)
    if len < 0 then (len, buf)
    else
      let stlen := len.toNat
      let (nlen, encoded_number) := encode_number stlen 7 encoded_number 10
      if nlen < 0 then (nlen, buf)
      else if SSIZE_MAX - len < nlen then (-1, buf)
      else
        let buf := if 1 < nlen then buf.write nlen.toNat (buf.read 1 stlen) else buf
        let buf := buf.write 0 (encoded_number.read 0 nlen.toNat)
        (nlen + len, buf.store 0 (buf 0 ||| 0x80#8))

end Shitty.Hpack
