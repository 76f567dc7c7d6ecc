/-!
# Upper and lower case

Two characters are one letter in different cases when Unicode 16 gives both the same simple case
folding. Of the characters of one letter the table leads to the one with the least code point. An
entry `(lo, hi, step, down)` covers every `step`-th code point from `lo` to `hi`, each `down` above
the least one of its letter.
-/

namespace JavaCallGraph

def letterRows : List (Nat × Nat × Nat × Nat) := [
  (0x61, 0x7A, 1, 32), (0xE0, 0xF6, 1, 32), (0xF8, 0xFE, 1, 32), (0x101, 0x12F, 2, 1),
  (0x133, 0x137, 2, 1), (0x13A, 0x148, 2, 1), (0x14B, 0x177, 2, 1), (0x178, 0x178, 1, 121),
  (0x17A, 0x17E, 2, 1), (0x17F, 0x17F, 1, 300), (0x183, 0x185, 2, 1), (0x188, 0x188, 1, 1),
  (0x18C, 0x18C, 1, 1), (0x192, 0x192, 1, 1), (0x199, 0x199, 1, 1), (0x1A1, 0x1A5, 2, 1),
  (0x1A8, 0x1A8, 1, 1), (0x1AD, 0x1AD, 1, 1), (0x1B0, 0x1B0, 1, 1), (0x1B4, 0x1B6, 2, 1),
  (0x1B9, 0x1B9, 1, 1), (0x1BD, 0x1BD, 1, 1), (0x1C5, 0x1C5, 1, 1), (0x1C6, 0x1C6, 1, 2),
  (0x1C8, 0x1C8, 1, 1), (0x1C9, 0x1C9, 1, 2), (0x1CB, 0x1CB, 1, 1), (0x1CC, 0x1CC, 1, 2),
  (0x1CE, 0x1DC, 2, 1), (0x1DD, 0x1DD, 1, 79), (0x1DF, 0x1EF, 2, 1), (0x1F2, 0x1F2, 1, 1),
  (0x1F3, 0x1F3, 1, 2), (0x1F5, 0x1F5, 1, 1), (0x1F6, 0x1F6, 1, 97), (0x1F7, 0x1F7, 1, 56),
  (0x1F9, 0x21F, 2, 1), (0x220, 0x220, 1, 130), (0x223, 0x233, 2, 1), (0x23C, 0x23C, 1, 1),
  (0x23D, 0x23D, 1, 163), (0x242, 0x242, 1, 1), (0x243, 0x243, 1, 195), (0x247, 0x24F, 2, 1),
  (0x253, 0x253, 1, 210), (0x254, 0x254, 1, 206), (0x256, 0x257, 1, 205), (0x259, 0x259, 1, 202),
  (0x25B, 0x25B, 1, 203), (0x260, 0x260, 1, 205), (0x263, 0x263, 1, 207), (0x268, 0x268, 1, 209),
  (0x269, 0x269, 1, 211), (0x26F, 0x26F, 1, 211), (0x272, 0x272, 1, 213), (0x275, 0x275, 1, 214),
  (0x280, 0x280, 1, 218), (0x283, 0x283, 1, 218), (0x288, 0x288, 1, 218), (0x289, 0x289, 1, 69),
  (0x28A, 0x28B, 1, 217), (0x28C, 0x28C, 1, 71), (0x292, 0x292, 1, 219), (0x371, 0x373, 2, 1),
  (0x377, 0x377, 1, 1), (0x399, 0x399, 1, 84), (0x39C, 0x39C, 1, 743), (0x3AC, 0x3AC, 1, 38),
  (0x3AD, 0x3AF, 1, 37), (0x3B1, 0x3B8, 1, 32), (0x3B9, 0x3B9, 1, 116), (0x3BA, 0x3BB, 1, 32),
  (0x3BC, 0x3BC, 1, 775), (0x3BD, 0x3CB, 2, 32), (0x3BE, 0x3C0, 2, 32), (0x3C2, 0x3C2, 1, 31),
  (0x3C4, 0x3CA, 2, 32), (0x3CC, 0x3CC, 1, 64), (0x3CD, 0x3CE, 1, 63), (0x3D0, 0x3D0, 1, 62),
  (0x3D1, 0x3D1, 1, 57), (0x3D5, 0x3D5, 1, 47), (0x3D6, 0x3D6, 1, 54), (0x3D7, 0x3D7, 1, 8),
  (0x3D9, 0x3EF, 2, 1), (0x3F0, 0x3F0, 1, 86), (0x3F1, 0x3F1, 1, 80), (0x3F3, 0x3F3, 1, 116),
  (0x3F4, 0x3F4, 1, 92), (0x3F5, 0x3F5, 1, 96), (0x3F8, 0x3F8, 1, 1), (0x3F9, 0x3F9, 1, 7),
  (0x3FB, 0x3FB, 1, 1), (0x3FD, 0x3FF, 1, 130), (0x430, 0x44F, 1, 32), (0x450, 0x45F, 1, 80),
  (0x461, 0x481, 2, 1), (0x48B, 0x4BF, 2, 1), (0x4C2, 0x4CE, 2, 1), (0x4CF, 0x4CF, 1, 15),
  (0x4D1, 0x52F, 2, 1), (0x561, 0x586, 1, 48), (0x13F8, 0x13FD, 1, 8), (0x1C80, 0x1C80, 1, 6254),
  (0x1C81, 0x1C81, 1, 6253), (0x1C82, 0x1C82, 1, 6244), (0x1C83, 0x1C84, 1, 6242),
  (0x1C85, 0x1C85, 1, 6243), (0x1C86, 0x1C86, 1, 6236), (0x1C87, 0x1C87, 1, 6181),
  (0x1C8A, 0x1C8A, 1, 1), (0x1C90, 0x1CBA, 1, 3008), (0x1CBD, 0x1CBF, 1, 3008),
  (0x1E01, 0x1E95, 2, 1), (0x1E9B, 0x1E9B, 1, 59), (0x1E9E, 0x1E9E, 1, 7615),
  (0x1EA1, 0x1EFF, 2, 1), (0x1F08, 0x1F0F, 1, 8), (0x1F18, 0x1F1D, 1, 8), (0x1F28, 0x1F2F, 1, 8),
  (0x1F38, 0x1F3F, 1, 8), (0x1F48, 0x1F4D, 1, 8), (0x1F59, 0x1F5F, 2, 8), (0x1F68, 0x1F6F, 1, 8),
  (0x1F88, 0x1F8F, 1, 8), (0x1F98, 0x1F9F, 1, 8), (0x1FA8, 0x1FAF, 1, 8), (0x1FB8, 0x1FB9, 1, 8),
  (0x1FBA, 0x1FBB, 1, 74), (0x1FBC, 0x1FBC, 1, 9), (0x1FBE, 0x1FBE, 1, 7289),
  (0x1FC8, 0x1FCB, 1, 86), (0x1FCC, 0x1FCC, 1, 9), (0x1FD3, 0x1FD3, 1, 7235),
  (0x1FD8, 0x1FD9, 1, 8), (0x1FDA, 0x1FDB, 1, 100), (0x1FE3, 0x1FE3, 1, 7219),
  (0x1FE8, 0x1FE9, 1, 8), (0x1FEA, 0x1FEB, 1, 112), (0x1FEC, 0x1FEC, 1, 7),
  (0x1FF8, 0x1FF9, 1, 128), (0x1FFA, 0x1FFB, 1, 126), (0x1FFC, 0x1FFC, 1, 9),
  (0x2126, 0x2126, 1, 7549), (0x212A, 0x212A, 1, 8415), (0x212B, 0x212B, 1, 8294),
  (0x214E, 0x214E, 1, 28), (0x2170, 0x217F, 1, 16), (0x2184, 0x2184, 1, 1),
  (0x24D0, 0x24E9, 1, 26), (0x2C30, 0x2C5F, 1, 48), (0x2C61, 0x2C61, 1, 1),
  (0x2C62, 0x2C62, 1, 10743), (0x2C63, 0x2C63, 1, 3814), (0x2C64, 0x2C64, 1, 10727),
  (0x2C65, 0x2C65, 1, 10795), (0x2C66, 0x2C66, 1, 10792), (0x2C68, 0x2C6C, 2, 1),
  (0x2C6D, 0x2C6D, 1, 10780), (0x2C6E, 0x2C6E, 1, 10749), (0x2C6F, 0x2C6F, 1, 10783),
  (0x2C70, 0x2C70, 1, 10782), (0x2C73, 0x2C73, 1, 1), (0x2C76, 0x2C76, 1, 1),
  (0x2C7E, 0x2C7F, 1, 10815), (0x2C81, 0x2CE3, 2, 1), (0x2CEC, 0x2CEE, 2, 1),
  (0x2CF3, 0x2CF3, 1, 1), (0x2D00, 0x2D25, 1, 7264), (0x2D27, 0x2D27, 1, 7264),
  (0x2D2D, 0x2D2D, 1, 7264), (0xA641, 0xA649, 2, 1), (0xA64A, 0xA64A, 1, 35266),
  (0xA64B, 0xA64B, 1, 35267), (0xA64D, 0xA66D, 2, 1), (0xA681, 0xA69B, 2, 1),
  (0xA723, 0xA72F, 2, 1), (0xA733, 0xA76F, 2, 1), (0xA77A, 0xA77C, 2, 1),
  (0xA77D, 0xA77D, 1, 35332), (0xA77F, 0xA787, 2, 1), (0xA78C, 0xA78C, 1, 1),
  (0xA78D, 0xA78D, 1, 42280), (0xA791, 0xA793, 2, 1), (0xA797, 0xA7A9, 2, 1),
  (0xA7AA, 0xA7AA, 1, 42308), (0xA7AB, 0xA7AB, 1, 42319), (0xA7AC, 0xA7AC, 1, 42315),
  (0xA7AD, 0xA7AD, 1, 42305), (0xA7AE, 0xA7AE, 1, 42308), (0xA7B0, 0xA7B0, 1, 42258),
  (0xA7B1, 0xA7B1, 1, 42282), (0xA7B2, 0xA7B2, 1, 42261), (0xA7B5, 0xA7C3, 2, 1),
  (0xA7C4, 0xA7C4, 1, 48), (0xA7C5, 0xA7C5, 1, 42307), (0xA7C6, 0xA7C6, 1, 35384),
  (0xA7C8, 0xA7CA, 2, 1), (0xA7CB, 0xA7CB, 1, 42343), (0xA7CD, 0xA7CD, 1, 1),
  (0xA7D1, 0xA7D1, 1, 1), (0xA7D7, 0xA7DB, 2, 1), (0xA7DC, 0xA7DC, 1, 42561),
  (0xA7F6, 0xA7F6, 1, 1), (0xAB53, 0xAB53, 1, 928), (0xAB70, 0xABBF, 1, 38864),
  (0xFB06, 0xFB06, 1, 1), (0xFF41, 0xFF5A, 1, 32), (0x10428, 0x1044F, 1, 40),
  (0x104D8, 0x104FB, 1, 40), (0x10597, 0x105BB, 2, 39), (0x10598, 0x105A0, 2, 39),
  (0x105A4, 0x105B0, 2, 39), (0x105B4, 0x105B8, 2, 39), (0x105BC, 0x105BC, 1, 39),
  (0x10CC0, 0x10CF2, 1, 64), (0x10D70, 0x10D85, 1, 32), (0x118C0, 0x118DF, 1, 32),
  (0x16E60, 0x16E7F, 1, 32), (0x1E922, 0x1E943, 1, 34)
]

/-- The least code point of the characters that are one letter with `c`. -/
def letterOf (c : Char) : Nat :=
  match letterRows.find? fun (lo, hi, step, _) =>
      lo ≤ c.toNat && c.toNat ≤ hi && (c.toNat - lo) % step == 0 with
  | some (_, _, _, down) => c.toNat - down
  | none => c.toNat

/-- The characters that are one letter with `c`, itself among them. -/
def letterCases (c : Char) : List Char :=
  let least := letterOf c
  .ofNat least :: letterRows.filterMap fun (lo, hi, step, down) =>
    let code := least + down
    if lo ≤ code && code ≤ hi && (code - lo) % step == 0 then some (.ofNat code) else none

end JavaCallGraph
