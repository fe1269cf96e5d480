import Shitty.Hpack.HuffEncode
import Shitty.Hpack.Table

/-!
# Encoded names and values

`hpack_encode_string` of `hpack/header.cpp`, and the accessors of `Header` that call it
when there is no literal yet. The array that the length of a raw string is written into
is not cleared in the source, so what it held is a parameter.
-/

namespace Shitty.Hpack

/-- What `hpack_encode_string` does other than return: it throws, or stores something
behind the end of `coded`. -/
inductive EncodeError where
  | runtime_error (what : String)
  | overrun
  deriving DecidableEq, Repr

/-- `hpack_encode_string(s)`. The local arrays, here and in `huffman_encode`, are not
initialised, so what they hold before the call are arguments. -/
def hpack_encode_string (raws_length_prefix₀ encoded_number : Mem) (s : Bytes) :
    Except EncodeError Bytes :=
  let coded_size := 10 + s.length
  let (len, coded) := huffman_encode s encoded_number (fun _ => 0) coded_size
  if (coded_size : Int) < len then .error .overrun
  else
    let coded := if 0 < len then coded.read 0 len.toNat else coded.read 0 coded_size
    if 0 < len ∧ len ≤ s.length then .ok coded
    else
      -- not sure which will be shorter
      let (raws_length_prefix_length, raws_length_prefix) :=
        encode_number s.length 7 raws_length_prefix₀ 10
      if raws_length_prefix_length < 0 then
        if 0 < len then .ok coded else .error (.runtime_error "Failed to encode string")
      else
        let raws_length_prefix := raws_length_prefix.read 0 raws_length_prefix_length.toNat
        -- an `unsigned`
        let raw_length := raws_length_prefix.length + s.length
        let raw_with_length_prefix_length := raw_length % UINT_MOD
        if len < 0 ∨ (raw_with_length_prefix_length : Int) < len then
          if raw_with_length_prefix_length < raw_length then .error .overrun
          else .ok <| raws_length_prefix ++ s
        else .ok coded

namespace Header

/-- `name_encoded()`: the literal, and the header that keeps it. -/
def get_name_encoded (raws_length_prefix₀ encoded_number : Mem) (h : Header) :
    Except EncodeError (Bytes × Header) :=
  if h.name_encoded ≠ [] then .ok (h.name_encoded, h)
  else do
    let name_encoded ← hpack_encode_string raws_length_prefix₀ encoded_number h.name
    return (name_encoded, { h with name_encoded := name_encoded })

/-- `value_encoded()`. It is the name that is encoded. -/
def get_value_encoded (raws_length_prefix₀ encoded_number : Mem) (h : Header) :
    Except EncodeError (Bytes × Header) :=
  if h.value_encoded ≠ [] then .ok (h.value_encoded, h)
  else do
    let value_encoded ← hpack_encode_string raws_length_prefix₀ encoded_number h.name
    return (value_encoded, { h with value_encoded := value_encoded })

end Header

end Shitty.Hpack
