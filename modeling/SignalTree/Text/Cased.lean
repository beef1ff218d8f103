import SignalTree.Text.Runs

/-!
Letters that have a second case. Large parts of the scripts alternate upper and
lower case letters, so every table has solid runs and runs of every second
code point.
-/
namespace SignalTree.Text

structure CaseTable where
  solid : Runs
  alternating : List (Nat × Nat)

def CaseTable.contains (t : CaseTable) (c : Char) : Bool :=
  t.solid.contains c ||
    t.alternating.any fun (first, last) =>
      first ≤ c.toNat && c.toNat ≤ last && (c.toNat - first) % 2 == 0

/-- The letters that lower-casing changes. -/
def lowering : CaseTable where
  solid := ⟨[
  0x41, 0x5B, 0xC0, 0xD7, 0xD8, 0xDF, 0x178, 0x17A, 0x17B, 0x17C, 0x17D, 0x17E, 0x181, 0x183,
  0x184, 0x185, 0x186, 0x188, 0x189, 0x18C, 0x18E, 0x192, 0x193, 0x195, 0x196, 0x199, 0x19C,
  0x19E, 0x19F, 0x1A1, 0x1A2, 0x1A3, 0x1A4, 0x1A5, 0x1A6, 0x1A8, 0x1A9, 0x1AA, 0x1AC, 0x1AD,
  0x1AE, 0x1B0, 0x1B1, 0x1B4, 0x1B5, 0x1B6, 0x1B7, 0x1B9, 0x1BC, 0x1BD, 0x1C4, 0x1C6, 0x1C7,
  0x1C9, 0x1CA, 0x1CC, 0x1F1, 0x1F3, 0x1F4, 0x1F5, 0x1F6, 0x1F9, 0x23A, 0x23C, 0x23D, 0x23F,
  0x241, 0x242, 0x243, 0x247, 0x370, 0x371, 0x372, 0x373, 0x376, 0x377, 0x37F, 0x380, 0x386,
  0x387, 0x388, 0x38B, 0x38C, 0x38D, 0x38E, 0x390, 0x391, 0x3A2, 0x3A3, 0x3AC, 0x3CF, 0x3D0,
  0x3F4, 0x3F5, 0x3F7, 0x3F8, 0x3F9, 0x3FB, 0x3FD, 0x430, 0x4C0, 0x4C2, 0x531, 0x557, 0x10A0,
  0x10C6, 0x10C7, 0x10C8, 0x10CD, 0x10CE, 0x13A0, 0x13F6, 0x1C89, 0x1C8A, 0x1C90, 0x1CBB,
  0x1CBD, 0x1CC0, 0x1F08, 0x1F10, 0x1F18, 0x1F1E, 0x1F28, 0x1F30, 0x1F38, 0x1F40, 0x1F48,
  0x1F4E, 0x1F68, 0x1F70, 0x1F88, 0x1F90, 0x1F98, 0x1FA0, 0x1FA8, 0x1FB0, 0x1FB8, 0x1FBD,
  0x1FC8, 0x1FCD, 0x1FD8, 0x1FDC, 0x1FE8, 0x1FED, 0x1FF8, 0x1FFD, 0x2126, 0x2127, 0x212A,
  0x212C, 0x2132, 0x2133, 0x2160, 0x2170, 0x2183, 0x2184, 0x24B6, 0x24D0, 0x2C00, 0x2C30,
  0x2C60, 0x2C61, 0x2C62, 0x2C65, 0x2C6D, 0x2C71, 0x2C72, 0x2C73, 0x2C75, 0x2C76, 0x2C7E,
  0x2C81, 0x2CEB, 0x2CEC, 0x2CED, 0x2CEE, 0x2CF2, 0x2CF3, 0xA779, 0xA77A, 0xA77B, 0xA77C,
  0xA77D, 0xA77F, 0xA78B, 0xA78C, 0xA78D, 0xA78E, 0xA790, 0xA791, 0xA792, 0xA793, 0xA7AA,
  0xA7AF, 0xA7B0, 0xA7B5, 0xA7C4, 0xA7C8, 0xA7C9, 0xA7CA, 0xA7CB, 0xA7CD, 0xA7F5, 0xA7F6,
  0xFF21, 0xFF3B, 0x10400, 0x10428, 0x104B0, 0x104D4, 0x10570, 0x1057B, 0x1057C, 0x1058B,
  0x1058C, 0x10593, 0x10594, 0x10596, 0x10C80, 0x10CB3, 0x10D50, 0x10D66, 0x118A0, 0x118C0,
  0x16E40, 0x16E60, 0x16EA0, 0x16EB9, 0x1E900, 0x1E922]⟩
  alternating := [
  (0x100, 0x136), (0x139, 0x147), (0x14A, 0x176), (0x1CD, 0x1DB), (0x1DE, 0x1EE), (0x1FA, 0x232),
  (0x248, 0x24E), (0x3D8, 0x3EE), (0x460, 0x480), (0x48A, 0x4BE), (0x4C3, 0x4CD), (0x4D0, 0x52E),
  (0x1E00, 0x1E94), (0x1E9E, 0x1EFE), (0x1F59, 0x1F5F), (0x2C67, 0x2C6B), (0x2C82, 0x2CE2),
  (0xA640, 0xA66C), (0xA680, 0xA69A), (0xA722, 0xA72E), (0xA732, 0xA76E), (0xA780, 0xA786),
  (0xA796, 0xA7A8), (0xA7B6, 0xA7C2), (0xA7CE, 0xA7DC)]

/-- The letters that upper-casing changes. -/
def raising : CaseTable where
  solid := ⟨[
  0x61, 0x7B, 0xB5, 0xB6, 0xDF, 0xF7, 0xF8, 0x100, 0x148, 0x14A, 0x17A, 0x17B, 0x17C, 0x17D,
  0x17E, 0x181, 0x183, 0x184, 0x185, 0x186, 0x188, 0x189, 0x18C, 0x18D, 0x192, 0x193, 0x195,
  0x196, 0x199, 0x19C, 0x19E, 0x19F, 0x1A8, 0x1A9, 0x1AD, 0x1AE, 0x1B0, 0x1B1, 0x1B4, 0x1B5,
  0x1B6, 0x1B7, 0x1B9, 0x1BA, 0x1BD, 0x1BE, 0x1BF, 0x1C0, 0x1C5, 0x1C7, 0x1C8, 0x1CA, 0x1CB,
  0x1CD, 0x1DC, 0x1DE, 0x1EF, 0x1F1, 0x1F2, 0x1F4, 0x1F5, 0x1F6, 0x23C, 0x23D, 0x23F, 0x241,
  0x242, 0x243, 0x24F, 0x255, 0x256, 0x258, 0x259, 0x25A, 0x25B, 0x25D, 0x260, 0x262, 0x263,
  0x267, 0x268, 0x26D, 0x26F, 0x270, 0x271, 0x273, 0x275, 0x276, 0x27D, 0x27E, 0x280, 0x281,
  0x282, 0x284, 0x287, 0x28D, 0x292, 0x293, 0x29D, 0x29F, 0x345, 0x346, 0x371, 0x372, 0x373,
  0x374, 0x377, 0x378, 0x37B, 0x37E, 0x390, 0x391, 0x3AC, 0x3CF, 0x3D0, 0x3D2, 0x3D5, 0x3D8,
  0x3EF, 0x3F4, 0x3F5, 0x3F6, 0x3F8, 0x3F9, 0x3FB, 0x3FC, 0x430, 0x460, 0x4CE, 0x4D0, 0x561,
  0x588, 0x10D0, 0x10FB, 0x10FD, 0x1100, 0x13F8, 0x13FE, 0x1C80, 0x1C89, 0x1C8A, 0x1C8B, 0x1D79,
  0x1D7A, 0x1D7D, 0x1D7E, 0x1D8E, 0x1D8F, 0x1E95, 0x1E9C, 0x1EFF, 0x1F08, 0x1F10, 0x1F16,
  0x1F20, 0x1F28, 0x1F30, 0x1F38, 0x1F40, 0x1F46, 0x1F50, 0x1F58, 0x1F60, 0x1F68, 0x1F70,
  0x1F7E, 0x1F80, 0x1FB5, 0x1FB6, 0x1FB8, 0x1FBC, 0x1FBD, 0x1FBE, 0x1FBF, 0x1FC2, 0x1FC5,
  0x1FC6, 0x1FC8, 0x1FCC, 0x1FCD, 0x1FD0, 0x1FD4, 0x1FD6, 0x1FD8, 0x1FE0, 0x1FE8, 0x1FF2,
  0x1FF5, 0x1FF6, 0x1FF8, 0x1FFC, 0x1FFD, 0x214E, 0x214F, 0x2170, 0x2180, 0x2184, 0x2185,
  0x24D0, 0x24EA, 0x2C30, 0x2C60, 0x2C61, 0x2C62, 0x2C65, 0x2C67, 0x2C73, 0x2C74, 0x2C76,
  0x2C77, 0x2CEC, 0x2CED, 0x2CEE, 0x2CEF, 0x2CF3, 0x2CF4, 0x2D00, 0x2D26, 0x2D27, 0x2D28,
  0x2D2D, 0x2D2E, 0xA77A, 0xA77B, 0xA77C, 0xA77D, 0xA78C, 0xA78D, 0xA791, 0xA792, 0xA793,
  0xA795, 0xA7C8, 0xA7C9, 0xA7CA, 0xA7CB, 0xA7F6, 0xA7F7, 0xAB53, 0xAB54, 0xAB70, 0xABC0,
  0xFB00, 0xFB07, 0xFB13, 0xFB18, 0xFF41, 0xFF5B, 0x10428, 0x10450, 0x104D8, 0x104FC, 0x10597,
  0x105A2, 0x105A3, 0x105B2, 0x105B3, 0x105BA, 0x105BB, 0x105BD, 0x10CC0, 0x10CF3, 0x10D70,
  0x10D86, 0x118C0, 0x118E0, 0x16E60, 0x16E80, 0x16EBB, 0x16ED4, 0x1E922, 0x1E944]⟩
  alternating := [
  (0x101, 0x137), (0x13A, 0x146), (0x14B, 0x177), (0x1A1, 0x1A5), (0x1CE, 0x1DA), (0x1DF, 0x1ED),
  (0x1F9, 0x21F), (0x223, 0x233), (0x247, 0x24D), (0x3D9, 0x3ED), (0x461, 0x481), (0x48B, 0x4BF),
  (0x4C2, 0x4CC), (0x4D1, 0x52F), (0x1E01, 0x1E93), (0x1EA1, 0x1EFD), (0x2C68, 0x2C6C),
  (0x2C81, 0x2CE3), (0xA641, 0xA66D), (0xA681, 0xA69B), (0xA723, 0xA72F), (0xA733, 0xA76F),
  (0xA77F, 0xA787), (0xA797, 0xA7A9), (0xA7B5, 0xA7C3), (0xA7CD, 0xA7DB)]

/-- Lower case, as far as ASCII can see it. All letters that this leaves alone
have one lower case letter each, which is not ASCII, so an identifier made from
the text writes one underscore for it in either case. -/
def lowerChar (c : Char) : List Char :=
  if 'A' ≤ c ∧ c ≤ 'Z' then [Char.ofNat (c.toNat + 32)]
  else if c = '\u212A' then ['k']
  else if c = '\u0130' then ['i', '\u0307']
  else [c]

end SignalTree.Text
