import Shitty.Hpack.HuffDecode
import Shitty.Hpack.Number

/-!
# The string decoder in C

`string_decode` and `string_decode_alloc` of `huffy/decode.c`. A function returns its
result, `*destlenp` when there is a destination, and the octets stored in it. Both share
the part that reads the length and whether the string is coded. Where memory can be
allocated or not is a parameter, too.
-/

namespace Shitty.Hpack

/-- `malloc` says for which sizes there is memory; without a destination, it is
called. -/
def string_decode_common (malloc : Nat → Bool) (buf : Bytes) (dest : Option Nat) :
    Int × Option Nat × Bytes :=
  match buf with
  | [] => (-1, dest, [])
  | octet :: _ =>
      let huff := octet &&& 0x80#8 ≠ 0#8
      let (len, number) := decode_number buf 7
      if len < 1 then (-1, dest, [])
      else if buf.length - len.toNat < number then (-1, dest, [])
      else
        let destlen := dest.getD (if huff then number * 8 % UINTMAX_MOD / 5 + 1 else number)
        if dest = none ∧ ¬ malloc destlen then (-1, none, [])
        else if dest ≠ none ∧ destlen < number then (-1, dest, [])
        else
          let string_start := buf.drop len.toNat
          if huff then
            let (result, stored) := huffman_decode string_start 8 destlen
            (result, some destlen, stored)
          else (len + number, some destlen, string_start.take number)

/-- `string_decode(buf, buflen, dest, destlen)`, into a destination of the caller. -/
def string_decode (buf : Bytes) (destlen : Nat) : Int × Bytes :=
  let (result, _, stored) := string_decode_common (fun _ => false) buf (some destlen)
  (result, stored)

/-- `string_decode_alloc(buf, buflen, &dest, &destlen)`, into a destination that it allocates. -/
def string_decode_alloc (malloc : Nat → Bool) (buf : Bytes) : Int × Option Nat × Bytes :=
  string_decode_common malloc buf none

/-- Raw, three octets behind their length. -/
example : string_decode [0x03#8, 0x61#8, 0x62#8, 0x63#8] 3 = (4, [0x61#8, 0x62#8, 0x63#8]) := by
  decide

end Shitty.Hpack
