import Shitty.Hpack.BitBuf
import Shitty.Hpack.HuffTables

/-!
# The Huffman decoder

`huffman_decode` of `huffy/decode.c`. Octets are stored at `dest` one behind the other,
so what has been stored so far is a list whose length is the index of the next store.
The loop of the source goes on until the destination is full or the input ends, so the
room that is left bounds the number of its turns.
-/

namespace Shitty.Hpack

def FastFindSymbol.at (table : List FastFindSymbol) (octet : Octet) : FastFindSymbol :=
  table.getD octet.toNat default

/-- One turn of the main loop: the symbol found and the reader behind its code,
or nothing at the end-of-string code. -/
def decode_symbol (reader : BbReader) : Option (Octet × BbReader) :=
  let octet := bb_peek reader
  let sym := FastFindSymbol.at shortbits0 octet
  if sym.octet ≠ SENTINEL then some (sym.octet, bb_next reader sym.bits)
  else
    let reader := bb_next reader 8
    if octet = 0xfe#8 then
      -- only four branches off 0xfe, all ten-bit codes: ! " ( )
      let octet := bb_peek reader
      some ([0x21#8, 0x22#8, 0x28#8, 0x29#8].getD (octet >>> 6).toNat 0, bb_next reader 2)
    else
      let octet := bb_peek reader
      let sym := FastFindSymbol.at shortbits1_ff octet
      if sym.octet ≠ SENTINEL then some (sym.octet, bb_next reader (sym.bits % 8))
      else
        let reader := bb_next reader 8
        if octet = 0xfe#8 then
          let sym := FastFindSymbol.at shortbits2_fffe (bb_peek reader)
          some (sym.octet, bb_next reader (sym.bits % 8))
        else
          let octet := bb_peek reader
          let sym := FastFindSymbol.at shortbits2_ffff octet
          if sym.octet ≠ SENTINEL then some (sym.octet, bb_next reader (sym.bits - 16))
          else
            let reader := bb_next reader 8
            if octet ≠ 0xfe#8 ∧ octet ≠ 0xff#8 then
              let sym := FastFindSymbol.at shortbits23 ((octet <<< 4) ||| (bb_peek reader >>> 4))
              some (sym.octet, bb_next reader (sym.bits % 8))
            else
              let octet := ((octet <<< 6) &&& 64#8) ||| (bb_peek reader >>> 2)
              let sym := FastFindSymbol.at shortbits3 octet
              if sym.octet ≠ SENTINEL then some (sym.octet, bb_next reader (sym.bits % 8))
              else none

/-- The main loop with `room` octets left at `dest`: the result, and everything
stored at `dest`. -/
def decode_loop : (room : Nat) → BbReader → (dest : Bytes) → Int × Bytes
  | 0, reader, dest => (if bb_eos reader then (dest.length : Int) else -1, dest)
  | room + 1, reader, dest =>
      if bb_eos reader then ((dest.length : Int), dest)
      else
        match decode_symbol reader with
        | some (octet, reader) => decode_loop room reader (dest ++ [octet])
        | none => ((dest.length : Int), dest)

/-- `huffman_decode(buf, buflen, first_octet_bits, dest, destlen)`: the result
and the octets stored from `dest[0]` on. Neither pointer is null here. -/
def huffman_decode (buf : Bytes) (first_octet_bits destlen : Nat) : Int × Bytes :=
  if first_octet_bits < 1 ∨ 8 < first_octet_bits then (-3, [])
  else
    let reader := bb_reader_init buf
    let reader :=
      if first_octet_bits ≠ 8 then bb_next reader (8 - first_octet_bits) else reader
    decode_loop destlen reader []

end Shitty.Hpack
