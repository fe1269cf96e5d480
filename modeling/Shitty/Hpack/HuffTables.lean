import Shitty.Core.Octet

/-!
# The Huffman tables

`etable` is what `make-etable.sh` generates from `huffcodes.txt` (RFC 7541 appendix B);
the lookup tables are those of `huffy/decode.c`, where a run of equal entries is one
`run`. Both are given as they stand in the source. That they belong together, and that
the codes are those of a prefix code, is proved elsewhere.
-/

namespace Shitty.Hpack

/-! ## `huffy/encode-table.h` -/

structure Encv where
  value : Nat
  bits : Nat
  deriving DecidableEq, Repr, Inhabited

/-- The code word of each octet, by its value: its bits, and how many there are. -/
def etable : List Encv :=
  [ ⟨0x1ff8, 13⟩, ⟨0x7fffd8, 23⟩, ⟨0xfffffe2, 28⟩, ⟨0xfffffe3, 28⟩, ⟨0xfffffe4, 28⟩,
    ⟨0xfffffe5, 28⟩, ⟨0xfffffe6, 28⟩, ⟨0xfffffe7, 28⟩, ⟨0xfffffe8, 28⟩, ⟨0xffffea, 24⟩,
    ⟨0x3ffffffc, 30⟩, ⟨0xfffffe9, 28⟩, ⟨0xfffffea, 28⟩, ⟨0x3ffffffd, 30⟩, ⟨0xfffffeb, 28⟩,
    ⟨0xfffffec, 28⟩, ⟨0xfffffed, 28⟩, ⟨0xfffffee, 28⟩, ⟨0xfffffef, 28⟩, ⟨0xffffff0, 28⟩,
    ⟨0xffffff1, 28⟩, ⟨0xffffff2, 28⟩, ⟨0x3ffffffe, 30⟩, ⟨0xffffff3, 28⟩, ⟨0xffffff4, 28⟩,
    ⟨0xffffff5, 28⟩, ⟨0xffffff6, 28⟩, ⟨0xffffff7, 28⟩, ⟨0xffffff8, 28⟩, ⟨0xffffff9, 28⟩,
    ⟨0xffffffa, 28⟩, ⟨0xffffffb, 28⟩, ⟨0x14, 6⟩, ⟨0x3f8, 10⟩, ⟨0x3f9, 10⟩, ⟨0xffa, 12⟩,
    ⟨0x1ff9, 13⟩, ⟨0x15, 6⟩, ⟨0xf8, 8⟩, ⟨0x7fa, 11⟩, ⟨0x3fa, 10⟩, ⟨0x3fb, 10⟩, ⟨0xf9, 8⟩,
    ⟨0x7fb, 11⟩, ⟨0xfa, 8⟩, ⟨0x16, 6⟩, ⟨0x17, 6⟩, ⟨0x18, 6⟩, ⟨0x0, 5⟩, ⟨0x1, 5⟩, ⟨0x2, 5⟩,
    ⟨0x19, 6⟩, ⟨0x1a, 6⟩, ⟨0x1b, 6⟩, ⟨0x1c, 6⟩, ⟨0x1d, 6⟩, ⟨0x1e, 6⟩, ⟨0x1f, 6⟩, ⟨0x5c, 7⟩,
    ⟨0xfb, 8⟩, ⟨0x7ffc, 15⟩, ⟨0x20, 6⟩, ⟨0xffb, 12⟩, ⟨0x3fc, 10⟩, ⟨0x1ffa, 13⟩, ⟨0x21, 6⟩,
    ⟨0x5d, 7⟩, ⟨0x5e, 7⟩, ⟨0x5f, 7⟩, ⟨0x60, 7⟩, ⟨0x61, 7⟩, ⟨0x62, 7⟩, ⟨0x63, 7⟩, ⟨0x64, 7⟩,
    ⟨0x65, 7⟩, ⟨0x66, 7⟩, ⟨0x67, 7⟩, ⟨0x68, 7⟩, ⟨0x69, 7⟩, ⟨0x6a, 7⟩, ⟨0x6b, 7⟩, ⟨0x6c, 7⟩,
    ⟨0x6d, 7⟩, ⟨0x6e, 7⟩, ⟨0x6f, 7⟩, ⟨0x70, 7⟩, ⟨0x71, 7⟩, ⟨0x72, 7⟩, ⟨0xfc, 8⟩, ⟨0x73, 7⟩,
    ⟨0xfd, 8⟩, ⟨0x1ffb, 13⟩, ⟨0x7fff0, 19⟩, ⟨0x1ffc, 13⟩, ⟨0x3ffc, 14⟩, ⟨0x22, 6⟩, ⟨0x7ffd, 15⟩,
    ⟨0x3, 5⟩, ⟨0x23, 6⟩, ⟨0x4, 5⟩, ⟨0x24, 6⟩, ⟨0x5, 5⟩, ⟨0x25, 6⟩, ⟨0x26, 6⟩, ⟨0x27, 6⟩,
    ⟨0x6, 5⟩, ⟨0x74, 7⟩, ⟨0x75, 7⟩, ⟨0x28, 6⟩, ⟨0x29, 6⟩, ⟨0x2a, 6⟩, ⟨0x7, 5⟩, ⟨0x2b, 6⟩,
    ⟨0x76, 7⟩, ⟨0x2c, 6⟩, ⟨0x8, 5⟩, ⟨0x9, 5⟩, ⟨0x2d, 6⟩, ⟨0x77, 7⟩, ⟨0x78, 7⟩, ⟨0x79, 7⟩,
    ⟨0x7a, 7⟩, ⟨0x7b, 7⟩, ⟨0x7ffe, 15⟩, ⟨0x7fc, 11⟩, ⟨0x3ffd, 14⟩, ⟨0x1ffd, 13⟩,
    ⟨0xffffffc, 28⟩, ⟨0xfffe6, 20⟩, ⟨0x3fffd2, 22⟩, ⟨0xfffe7, 20⟩, ⟨0xfffe8, 20⟩,
    ⟨0x3fffd3, 22⟩, ⟨0x3fffd4, 22⟩, ⟨0x3fffd5, 22⟩, ⟨0x7fffd9, 23⟩, ⟨0x3fffd6, 22⟩,
    ⟨0x7fffda, 23⟩, ⟨0x7fffdb, 23⟩, ⟨0x7fffdc, 23⟩, ⟨0x7fffdd, 23⟩, ⟨0x7fffde, 23⟩,
    ⟨0xffffeb, 24⟩, ⟨0x7fffdf, 23⟩, ⟨0xffffec, 24⟩, ⟨0xffffed, 24⟩, ⟨0x3fffd7, 22⟩,
    ⟨0x7fffe0, 23⟩, ⟨0xffffee, 24⟩, ⟨0x7fffe1, 23⟩, ⟨0x7fffe2, 23⟩, ⟨0x7fffe3, 23⟩,
    ⟨0x7fffe4, 23⟩, ⟨0x1fffdc, 21⟩, ⟨0x3fffd8, 22⟩, ⟨0x7fffe5, 23⟩, ⟨0x3fffd9, 22⟩,
    ⟨0x7fffe6, 23⟩, ⟨0x7fffe7, 23⟩, ⟨0xffffef, 24⟩, ⟨0x3fffda, 22⟩, ⟨0x1fffdd, 21⟩,
    ⟨0xfffe9, 20⟩, ⟨0x3fffdb, 22⟩, ⟨0x3fffdc, 22⟩, ⟨0x7fffe8, 23⟩, ⟨0x7fffe9, 23⟩,
    ⟨0x1fffde, 21⟩, ⟨0x7fffea, 23⟩, ⟨0x3fffdd, 22⟩, ⟨0x3fffde, 22⟩, ⟨0xfffff0, 24⟩,
    ⟨0x1fffdf, 21⟩, ⟨0x3fffdf, 22⟩, ⟨0x7fffeb, 23⟩, ⟨0x7fffec, 23⟩, ⟨0x1fffe0, 21⟩,
    ⟨0x1fffe1, 21⟩, ⟨0x3fffe0, 22⟩, ⟨0x1fffe2, 21⟩, ⟨0x7fffed, 23⟩, ⟨0x3fffe1, 22⟩,
    ⟨0x7fffee, 23⟩, ⟨0x7fffef, 23⟩, ⟨0xfffea, 20⟩, ⟨0x3fffe2, 22⟩, ⟨0x3fffe3, 22⟩,
    ⟨0x3fffe4, 22⟩, ⟨0x7ffff0, 23⟩, ⟨0x3fffe5, 22⟩, ⟨0x3fffe6, 22⟩, ⟨0x7ffff1, 23⟩,
    ⟨0x3ffffe0, 26⟩, ⟨0x3ffffe1, 26⟩, ⟨0xfffeb, 20⟩, ⟨0x7fff1, 19⟩, ⟨0x3fffe7, 22⟩,
    ⟨0x7ffff2, 23⟩, ⟨0x3fffe8, 22⟩, ⟨0x1ffffec, 25⟩, ⟨0x3ffffe2, 26⟩, ⟨0x3ffffe3, 26⟩,
    ⟨0x3ffffe4, 26⟩, ⟨0x7ffffde, 27⟩, ⟨0x7ffffdf, 27⟩, ⟨0x3ffffe5, 26⟩, ⟨0xfffff1, 24⟩,
    ⟨0x1ffffed, 25⟩, ⟨0x7fff2, 19⟩, ⟨0x1fffe3, 21⟩, ⟨0x3ffffe6, 26⟩, ⟨0x7ffffe0, 27⟩,
    ⟨0x7ffffe1, 27⟩, ⟨0x3ffffe7, 26⟩, ⟨0x7ffffe2, 27⟩, ⟨0xfffff2, 24⟩, ⟨0x1fffe4, 21⟩,
    ⟨0x1fffe5, 21⟩, ⟨0x3ffffe8, 26⟩, ⟨0x3ffffe9, 26⟩, ⟨0xffffffd, 28⟩, ⟨0x7ffffe3, 27⟩,
    ⟨0x7ffffe4, 27⟩, ⟨0x7ffffe5, 27⟩, ⟨0xfffec, 20⟩, ⟨0xfffff3, 24⟩, ⟨0xfffed, 20⟩,
    ⟨0x1fffe6, 21⟩, ⟨0x3fffe9, 22⟩, ⟨0x1fffe7, 21⟩, ⟨0x1fffe8, 21⟩, ⟨0x7ffff3, 23⟩,
    ⟨0x3fffea, 22⟩, ⟨0x3fffeb, 22⟩, ⟨0x1ffffee, 25⟩, ⟨0x1ffffef, 25⟩, ⟨0xfffff4, 24⟩,
    ⟨0xfffff5, 24⟩, ⟨0x3ffffea, 26⟩, ⟨0x7ffff4, 23⟩, ⟨0x3ffffeb, 26⟩, ⟨0x7ffffe6, 27⟩,
    ⟨0x3ffffec, 26⟩, ⟨0x3ffffed, 26⟩, ⟨0x7ffffe7, 27⟩, ⟨0x7ffffe8, 27⟩, ⟨0x7ffffe9, 27⟩,
    ⟨0x7ffffea, 27⟩, ⟨0x7ffffeb, 27⟩, ⟨0xffffffe, 28⟩, ⟨0x7ffffec, 27⟩, ⟨0x7ffffed, 27⟩,
    ⟨0x7ffffee, 27⟩, ⟨0x7ffffef, 27⟩, ⟨0x7fffff0, 27⟩, ⟨0x3ffffee, 26⟩ ]

/-! ## `huffy/decode.c` -/

structure FastFindSymbol where
  octet : Octet
  /-- When at most 8, this result alone; otherwise look at the next octet. -/
  bits : Nat
  deriving DecidableEq, Repr

instance : Inhabited FastFindSymbol := ⟨⟨0, 0⟩⟩

def SENTINEL : Octet := 0xff

def INVALID23 : Octet := 0x00

/-- `n` equal entries of a table. -/
def run (n : Nat) (octet : Octet) (bits : Nat) : List FastFindSymbol :=
  List.replicate n ⟨octet, bits⟩

/-- The first octet of a code. -/
def shortbits0 : List FastFindSymbol := List.flatten
  [ run 8 48 5, run 8 49 5, run 8 50 5, run 8 97 5, run 8 99 5, run 8 101 5, run 8 105 5,
    run 8 111 5, run 8 115 5, run 8 116 5, run 4 32 6, run 4 37 6, run 4 45 6, run 4 46 6,
    run 4 47 6, run 4 51 6, run 4 52 6, run 4 53 6, run 4 54 6, run 4 55 6, run 4 56 6,
    run 4 57 6, run 4 61 6, run 4 65 6, run 4 95 6, run 4 98 6, run 4 100 6, run 4 102 6,
    run 4 103 6, run 4 104 6, run 4 108 6, run 4 109 6, run 4 110 6, run 4 112 6, run 4 114 6,
    run 4 117 6, run 2 58 7, run 2 66 7, run 2 67 7, run 2 68 7, run 2 69 7, run 2 70 7,
    run 2 71 7, run 2 72 7, run 2 73 7, run 2 74 7, run 2 75 7, run 2 76 7, run 2 77 7,
    run 2 78 7, run 2 79 7, run 2 80 7, run 2 81 7, run 2 82 7, run 2 83 7, run 2 84 7,
    run 2 85 7, run 2 86 7, run 2 87 7, run 2 89 7, run 2 106 7, run 2 107 7, run 2 113 7,
    run 2 118 7, run 2 119 7, run 2 120 7, run 2 121 7, run 2 122 7, run 1 38 8, run 1 42 8,
    run 1 44 8, run 1 59 8, run 1 88 8, run 1 90 8, run 2 SENTINEL 0xff ]

/-- The second octet, after an all-ones first octet. -/
def shortbits1_ff : List FastFindSymbol := List.flatten
  [ run 64 63 10, run 32 39 11, run 32 43 11, run 32 124 11, run 16 35 12, run 16 62 12,
    run 8 0 13, run 8 36 13, run 8 64 13, run 8 91 13, run 8 93 13, run 8 126 13, run 4 94 14,
    run 4 125 14, run 2 60 15, run 2 96 15, run 2 123 15, run 2 SENTINEL 0xff ]

/-- What the third octet tells behind `0xfffe`: the symbols whose codes end in it. -/
def shortbits2_fffe : List FastFindSymbol := List.flatten
  [ run 32 92 19, run 32 195 19, run 32 208 19, run 16 128 20, run 16 130 20, run 16 131 20,
    run 16 162 20, run 16 184 20, run 16 194 20, run 16 224 20, run 16 226 20, run 8 153 21,
    run 8 161 21, run 8 167 21, run 8 172 21 ]

/-- What the third octet tells behind `0xffff`: the symbols whose codes end in it. -/
def shortbits2_ffff : List FastFindSymbol := List.flatten
  [ run 8 176 21, run 8 177 21, run 8 179 21, run 8 209 21, run 8 216 21, run 8 217 21,
    run 8 227 21, run 8 229 21, run 8 230 21, run 4 129 22, run 4 132 22, run 4 133 22,
    run 4 134 22, run 4 136 22, run 4 146 22, run 4 154 22, run 4 156 22, run 4 160 22,
    run 4 163 22, run 4 164 22, run 4 169 22, run 4 170 22, run 4 173 22, run 4 178 22,
    run 4 181 22, run 4 185 22, run 4 186 22, run 4 187 22, run 4 189 22, run 4 190 22,
    run 4 196 22, run 4 198 22, run 4 228 22, run 4 232 22, run 4 233 22, run 2 1 23,
    run 2 135 23, run 2 137 23, run 2 138 23, run 2 139 23, run 2 140 23, run 2 141 23,
    run 2 143 23, run 2 147 23, run 2 149 23, run 2 150 23, run 2 151 23, run 2 152 23,
    run 2 155 23, run 2 157 23, run 2 158 23, run 2 165 23, run 2 166 23, run 2 168 23,
    run 2 174 23, run 2 175 23, run 2 180 23, run 2 182 23, run 2 183 23, run 2 188 23,
    run 2 191 23, run 2 197 23, run 2 231 23, run 2 239 23, run 1 9 24, run 1 142 24,
    run 1 144 24, run 1 145 24, run 1 148 24, run 1 159 24, run 1 171 24, run 1 206 24,
    run 1 215 24, run 1 225 24, run 1 236 24, run 1 237 24, run 10 SENTINEL 0xff ]

/-- The low nibble of the third octet and the high nibble of the fourth.
Not for use when the third octet is `0xfe` or `0xff`. -/
def shortbits23 : List FastFindSymbol := List.flatten
  [ run 96 INVALID23 0x00, run 8 199 25, run 8 207 25, run 8 234 25, run 8 235 25, run 4 192 26,
    run 4 193 26, run 4 200 26, run 4 201 26, run 4 202 26, run 4 205 26, run 4 210 26,
    run 4 213 26, run 4 218 26, run 4 219 26, run 4 238 26, run 4 240 26, run 4 242 26,
    run 4 243 26, run 4 255 26, run 2 203 27, run 2 204 27, run 2 211 27, run 2 212 27,
    run 2 214 27, run 2 221 27, run 2 222 27, run 2 223 27, run 2 241 27, run 2 244 27,
    run 2 245 27, run 2 246 27, run 2 247 27, run 2 248 27, run 2 250 27, run 2 251 27,
    run 2 252 27, run 2 253 27 ]

/-- The low bit of the third octet and the high six bits of the fourth, after
`0xfffffe` and `0xffffff`. -/
def shortbits3 : List FastFindSymbol := List.flatten
  [ run 8 254 27, run 4 2 28, run 4 3 28, run 4 4 28, run 4 5 28, run 4 6 28, run 4 7 28,
    run 4 8 28, run 4 11 28, run 4 12 28, run 4 14 28, run 4 15 28, run 4 16 28, run 4 17 28,
    run 4 18 28, run 4 19 28, run 4 20 28, run 4 21 28, run 4 23 28, run 4 24 28, run 4 25 28,
    run 4 26 28, run 4 27 28, run 4 28 28, run 4 29 28, run 4 30 28, run 4 31 28, run 4 127 28,
    run 4 220 28, run 4 249 28, run 1 10 30, run 1 13 30, run 1 22 30, run 1 SENTINEL 0xff ]

end Shitty.Hpack
