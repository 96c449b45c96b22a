/-!
# Letters that differ in case only

Two characters are one letter up to case when Unicode's simple case folding sends them to one
character. `caseKey` names each such class by its least member, so that `sameLetter` is equality
of keys and hence an equivalence. The table lists the characters that are not least in their class:
a run of code points with its step, and how far below each its class's least member lies.
-/

namespace QueryForms.Text

/-- The runs below 0x1e00. -/
def caseRunsLow : List (Nat × Nat × Nat × Nat) :=
  [(0x61, 0x7a, 1, 32), (0xe0, 0xf6, 1, 32), (0xf8, 0xfe, 1, 32), (0x101, 0x12f, 2, 1),
   (0x133, 0x137, 2, 1), (0x13a, 0x148, 2, 1), (0x14b, 0x177, 2, 1), (0x178, 0x178, 1, 121),
   (0x17a, 0x17e, 2, 1), (0x17f, 0x17f, 1, 300), (0x183, 0x185, 2, 1), (0x188, 0x188, 1, 1),
   (0x18c, 0x18c, 1, 1), (0x192, 0x192, 1, 1), (0x199, 0x199, 1, 1), (0x1a1, 0x1a5, 2, 1),
   (0x1a8, 0x1a8, 1, 1), (0x1ad, 0x1ad, 1, 1), (0x1b0, 0x1b0, 1, 1), (0x1b4, 0x1b6, 2, 1),
   (0x1b9, 0x1b9, 1, 1), (0x1bd, 0x1bd, 1, 1), (0x1c5, 0x1c5, 1, 1), (0x1c6, 0x1c6, 1, 2),
   (0x1c8, 0x1c8, 1, 1), (0x1c9, 0x1c9, 1, 2), (0x1cb, 0x1cb, 1, 1), (0x1cc, 0x1cc, 1, 2),
   (0x1ce, 0x1dc, 2, 1), (0x1dd, 0x1dd, 1, 79), (0x1df, 0x1ef, 2, 1), (0x1f2, 0x1f2, 1, 1),
   (0x1f3, 0x1f3, 1, 2), (0x1f5, 0x1f5, 1, 1), (0x1f6, 0x1f6, 1, 97), (0x1f7, 0x1f7, 1, 56),
   (0x1f9, 0x21f, 2, 1), (0x220, 0x220, 1, 130), (0x223, 0x233, 2, 1), (0x23c, 0x23c, 1, 1),
   (0x23d, 0x23d, 1, 163), (0x242, 0x242, 1, 1), (0x243, 0x243, 1, 195), (0x247, 0x24f, 2, 1),
   (0x253, 0x253, 1, 210), (0x254, 0x254, 1, 206), (0x256, 0x257, 1, 205),
   (0x259, 0x259, 1, 202), (0x25b, 0x25b, 1, 203), (0x260, 0x260, 1, 205),
   (0x263, 0x263, 1, 207), (0x268, 0x268, 1, 209), (0x269, 0x269, 1, 211),
   (0x26f, 0x26f, 1, 211), (0x272, 0x272, 1, 213), (0x275, 0x275, 1, 214),
   (0x280, 0x280, 1, 218), (0x283, 0x283, 1, 218), (0x288, 0x288, 1, 218), (0x289, 0x289, 1, 69),
   (0x28a, 0x28b, 1, 217), (0x28c, 0x28c, 1, 71), (0x292, 0x292, 1, 219), (0x371, 0x373, 2, 1),
   (0x377, 0x377, 1, 1), (0x399, 0x399, 1, 84), (0x39c, 0x39c, 1, 743), (0x3ac, 0x3ac, 1, 38),
   (0x3ad, 0x3af, 1, 37), (0x3b1, 0x3b8, 1, 32), (0x3b9, 0x3b9, 1, 116), (0x3ba, 0x3bb, 1, 32),
   (0x3bc, 0x3bc, 1, 775), (0x3bd, 0x3c1, 1, 32), (0x3c2, 0x3c2, 1, 31), (0x3c3, 0x3cb, 1, 32),
   (0x3cc, 0x3cc, 1, 64), (0x3cd, 0x3ce, 1, 63), (0x3d0, 0x3d0, 1, 62), (0x3d1, 0x3d1, 1, 57),
   (0x3d5, 0x3d5, 1, 47), (0x3d6, 0x3d6, 1, 54), (0x3d7, 0x3d7, 1, 8), (0x3d9, 0x3ef, 2, 1),
   (0x3f0, 0x3f0, 1, 86), (0x3f1, 0x3f1, 1, 80), (0x3f3, 0x3f3, 1, 116), (0x3f4, 0x3f4, 1, 92),
   (0x3f5, 0x3f5, 1, 96), (0x3f8, 0x3f8, 1, 1), (0x3f9, 0x3f9, 1, 7), (0x3fb, 0x3fb, 1, 1),
   (0x3fd, 0x3ff, 1, 130), (0x430, 0x44f, 1, 32), (0x450, 0x45f, 1, 80), (0x461, 0x481, 2, 1),
   (0x48b, 0x4bf, 2, 1), (0x4c2, 0x4ce, 2, 1), (0x4cf, 0x4cf, 1, 15), (0x4d1, 0x52f, 2, 1),
   (0x561, 0x586, 1, 48), (0x13f8, 0x13fd, 1, 8), (0x1c80, 0x1c80, 1, 6254),
   (0x1c81, 0x1c81, 1, 6253), (0x1c82, 0x1c82, 1, 6244), (0x1c83, 0x1c84, 1, 6242),
   (0x1c85, 0x1c85, 1, 6243), (0x1c86, 0x1c86, 1, 6236), (0x1c87, 0x1c87, 1, 6181),
   (0x1c8a, 0x1c8a, 1, 1), (0x1c90, 0x1cba, 1, 3008), (0x1cbd, 0x1cbf, 1, 3008)]

/-- The runs from 0x1e00 on. -/
def caseRunsHigh : List (Nat × Nat × Nat × Nat) :=
  [(0x1e01, 0x1e95, 2, 1), (0x1e9b, 0x1e9b, 1, 59), (0x1e9e, 0x1e9e, 1, 7615),
   (0x1ea1, 0x1eff, 2, 1), (0x1f08, 0x1f0f, 1, 8), (0x1f18, 0x1f1d, 1, 8),
   (0x1f28, 0x1f2f, 1, 8), (0x1f38, 0x1f3f, 1, 8), (0x1f48, 0x1f4d, 1, 8),
   (0x1f59, 0x1f5f, 2, 8), (0x1f68, 0x1f6f, 1, 8), (0x1f88, 0x1f8f, 1, 8),
   (0x1f98, 0x1f9f, 1, 8), (0x1fa8, 0x1faf, 1, 8), (0x1fb8, 0x1fb9, 1, 8),
   (0x1fba, 0x1fbb, 1, 74), (0x1fbc, 0x1fbc, 1, 9), (0x1fbe, 0x1fbe, 1, 7289),
   (0x1fc8, 0x1fcb, 1, 86), (0x1fcc, 0x1fcc, 1, 9), (0x1fd3, 0x1fd3, 1, 7235),
   (0x1fd8, 0x1fd9, 1, 8), (0x1fda, 0x1fdb, 1, 100), (0x1fe3, 0x1fe3, 1, 7219),
   (0x1fe8, 0x1fe9, 1, 8), (0x1fea, 0x1feb, 1, 112), (0x1fec, 0x1fec, 1, 7),
   (0x1ff8, 0x1ff9, 1, 128), (0x1ffa, 0x1ffb, 1, 126), (0x1ffc, 0x1ffc, 1, 9),
   (0x2126, 0x2126, 1, 7549), (0x212a, 0x212a, 1, 8415), (0x212b, 0x212b, 1, 8294),
   (0x214e, 0x214e, 1, 28), (0x2170, 0x217f, 1, 16), (0x2184, 0x2184, 1, 1),
   (0x24d0, 0x24e9, 1, 26), (0x2c30, 0x2c5f, 1, 48), (0x2c61, 0x2c61, 1, 1),
   (0x2c62, 0x2c62, 1, 10743), (0x2c63, 0x2c63, 1, 3814), (0x2c64, 0x2c64, 1, 10727),
   (0x2c65, 0x2c65, 1, 10795), (0x2c66, 0x2c66, 1, 10792), (0x2c68, 0x2c6c, 2, 1),
   (0x2c6d, 0x2c6d, 1, 10780), (0x2c6e, 0x2c6e, 1, 10749), (0x2c6f, 0x2c6f, 1, 10783),
   (0x2c70, 0x2c70, 1, 10782), (0x2c73, 0x2c73, 1, 1), (0x2c76, 0x2c76, 1, 1),
   (0x2c7e, 0x2c7f, 1, 10815), (0x2c81, 0x2ce3, 2, 1), (0x2cec, 0x2cee, 2, 1),
   (0x2cf3, 0x2cf3, 1, 1), (0x2d00, 0x2d25, 1, 7264), (0x2d27, 0x2d27, 1, 7264),
   (0x2d2d, 0x2d2d, 1, 7264), (0xa641, 0xa649, 2, 1), (0xa64a, 0xa64a, 1, 35266),
   (0xa64b, 0xa64b, 1, 35267), (0xa64d, 0xa66d, 2, 1), (0xa681, 0xa69b, 2, 1),
   (0xa723, 0xa72f, 2, 1), (0xa733, 0xa76f, 2, 1), (0xa77a, 0xa77c, 2, 1),
   (0xa77d, 0xa77d, 1, 35332), (0xa77f, 0xa787, 2, 1), (0xa78c, 0xa78c, 1, 1),
   (0xa78d, 0xa78d, 1, 42280), (0xa791, 0xa793, 2, 1), (0xa797, 0xa7a9, 2, 1),
   (0xa7aa, 0xa7aa, 1, 42308), (0xa7ab, 0xa7ab, 1, 42319), (0xa7ac, 0xa7ac, 1, 42315),
   (0xa7ad, 0xa7ad, 1, 42305), (0xa7ae, 0xa7ae, 1, 42308), (0xa7b0, 0xa7b0, 1, 42258),
   (0xa7b1, 0xa7b1, 1, 42282), (0xa7b2, 0xa7b2, 1, 42261), (0xa7b5, 0xa7c3, 2, 1),
   (0xa7c4, 0xa7c4, 1, 48), (0xa7c5, 0xa7c5, 1, 42307), (0xa7c6, 0xa7c6, 1, 35384),
   (0xa7c8, 0xa7ca, 2, 1), (0xa7cb, 0xa7cb, 1, 42343), (0xa7cd, 0xa7cd, 1, 1),
   (0xa7d1, 0xa7d1, 1, 1), (0xa7d7, 0xa7db, 2, 1), (0xa7dc, 0xa7dc, 1, 42561),
   (0xa7f6, 0xa7f6, 1, 1), (0xab53, 0xab53, 1, 928), (0xab70, 0xabbf, 1, 38864),
   (0xfb06, 0xfb06, 1, 1), (0xff41, 0xff5a, 1, 32), (0x10428, 0x1044f, 1, 40),
   (0x104d8, 0x104fb, 1, 40), (0x10597, 0x105a1, 1, 39), (0x105a3, 0x105b1, 1, 39),
   (0x105b3, 0x105b9, 1, 39), (0x105bb, 0x105bc, 1, 39), (0x10cc0, 0x10cf2, 1, 64),
   (0x10d70, 0x10d85, 1, 32), (0x118c0, 0x118df, 1, 32), (0x16e60, 0x16e7f, 1, 32),
   (0x1e922, 0x1e943, 1, 34)]

/-- How far below a code point the least member of its class lies. -/
def caseDrop (code : Nat) : List (Nat × Nat × Nat × Nat) → Nat
  | [] => 0
  | (first, last, step, drop) :: rest =>
    if code < first then 0
    else if code ≤ last && (code - first) % step == 0 then drop
    else caseDrop code rest

/-- The least code point that differs from the character in case only. -/
def caseKey (c : Char) : Nat :=
  c.toNat - caseDrop c.toNat (if c.toNat < 0x1e00 then caseRunsLow else caseRunsHigh)

/-- Whether two characters are one letter up to case. -/
def sameLetter (a b : Char) : Bool :=
  caseKey a == caseKey b

@[simp] theorem sameLetter_self (c : Char) : sameLetter c c = true := by
  simp [sameLetter]

end QueryForms.Text
