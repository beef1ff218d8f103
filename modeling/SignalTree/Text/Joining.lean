import SignalTree.Text.Visible

/-! Which characters stay together in one written character. -/
namespace SignalTree.Text

/-- Marks with a width of their own. -/
def spacingRuns : Runs := ⟨[
  0x903, 0x904, 0x93B, 0x93C, 0x93E, 0x941, 0x949, 0x94D, 0x94E, 0x950, 0x982, 0x984, 0x9BF,
  0x9C1, 0x9C7, 0x9C9, 0x9CB, 0x9CD, 0xA03, 0xA04, 0xA3E, 0xA41, 0xA83, 0xA84, 0xABE, 0xAC1,
  0xAC9, 0xACA, 0xACB, 0xACD, 0xB02, 0xB04, 0xB40, 0xB41, 0xB47, 0xB49, 0xB4B, 0xB4D, 0xBBF,
  0xBC0, 0xBC1, 0xBC3, 0xBC6, 0xBC9, 0xBCA, 0xBCD, 0xC01, 0xC04, 0xC41, 0xC45, 0xC82, 0xC84,
  0xCBE, 0xCBF, 0xCC1, 0xCC2, 0xCC3, 0xCC5, 0xCF3, 0xCF4, 0xD02, 0xD04, 0xD3F, 0xD41, 0xD46,
  0xD49, 0xD4A, 0xD4D, 0xD82, 0xD84, 0xDD0, 0xDD2, 0xDD8, 0xDDF, 0xDF2, 0xDF4, 0xE33, 0xE34,
  0xEB3, 0xEB4, 0xF3E, 0xF40, 0xF7F, 0xF80, 0x1031, 0x1032, 0x103B, 0x103D, 0x1056, 0x1058,
  0x1084, 0x1085, 0x17B6, 0x17B7, 0x17BE, 0x17C6, 0x17C7, 0x17C9, 0x1923, 0x1927, 0x1929,
  0x192C, 0x1930, 0x1932, 0x1933, 0x1939, 0x1A19, 0x1A1B, 0x1A55, 0x1A56, 0x1A57, 0x1A58,
  0x1A6D, 0x1A73, 0x1B04, 0x1B05, 0x1B3E, 0x1B42, 0x1B82, 0x1B83, 0x1BA1, 0x1BA2, 0x1BA6,
  0x1BA8, 0x1BE7, 0x1BE8, 0x1BEA, 0x1BED, 0x1BEE, 0x1BEF, 0x1C24, 0x1C2C, 0x1C34, 0x1C36,
  0x1CE1, 0x1CE2, 0x1CF7, 0x1CF8, 0xA823, 0xA825, 0xA827, 0xA828, 0xA880, 0xA882, 0xA8B4,
  0xA8C4, 0xA952, 0xA953, 0xA983, 0xA984, 0xA9B4, 0xA9B6, 0xA9BA, 0xA9BC, 0xA9BE, 0xA9C0,
  0xAA2F, 0xAA31, 0xAA33, 0xAA35, 0xAA4D, 0xAA4E, 0xAAEB, 0xAAEC, 0xAAEE, 0xAAF0, 0xAAF5,
  0xAAF6, 0xABE3, 0xABE5, 0xABE6, 0xABE8, 0xABE9, 0xABEB, 0xABEC, 0xABED, 0x11000, 0x11001,
  0x11002, 0x11003, 0x11082, 0x11083, 0x110B0, 0x110B3, 0x110B7, 0x110B9, 0x1112C, 0x1112D,
  0x11145, 0x11147, 0x11182, 0x11183, 0x111B3, 0x111B6, 0x111BF, 0x111C0, 0x111CE, 0x111CF,
  0x1122C, 0x1122F, 0x11232, 0x11234, 0x112E0, 0x112E3, 0x11302, 0x11304, 0x1133F, 0x11340,
  0x11341, 0x11345, 0x11347, 0x11349, 0x1134B, 0x1134D, 0x11362, 0x11364, 0x113B9, 0x113BB,
  0x113CA, 0x113CB, 0x113CC, 0x113CE, 0x11435, 0x11438, 0x11440, 0x11442, 0x11445, 0x11446,
  0x114B1, 0x114B3, 0x114B9, 0x114BA, 0x114BB, 0x114BD, 0x114BE, 0x114BF, 0x114C1, 0x114C2,
  0x115B0, 0x115B2, 0x115B8, 0x115BC, 0x115BE, 0x115BF, 0x11630, 0x11633, 0x1163B, 0x1163D,
  0x1163E, 0x1163F, 0x116AC, 0x116AD, 0x116AE, 0x116B0, 0x1171E, 0x1171F, 0x11726, 0x11727,
  0x1182C, 0x1182F, 0x11838, 0x11839, 0x11931, 0x11936, 0x11937, 0x11939, 0x11940, 0x11941,
  0x11942, 0x11943, 0x119D1, 0x119D4, 0x119DC, 0x119E0, 0x119E4, 0x119E5, 0x11A39, 0x11A3A,
  0x11A57, 0x11A59, 0x11A97, 0x11A98, 0x11B61, 0x11B62, 0x11B65, 0x11B66, 0x11B67, 0x11B68,
  0x11C2F, 0x11C30, 0x11C3E, 0x11C3F, 0x11CA9, 0x11CAA, 0x11CB1, 0x11CB2, 0x11CB4, 0x11CB5,
  0x11D8A, 0x11D8F, 0x11D93, 0x11D95, 0x11D96, 0x11D97, 0x11EF5, 0x11EF7, 0x11F03, 0x11F04,
  0x11F34, 0x11F36, 0x11F3E, 0x11F40, 0x1612A, 0x1612D, 0x16F51, 0x16F88]⟩

/-- Signs that attach to the character after them. -/
def prependingRuns : Runs := ⟨[
  0x600, 0x606, 0x6DD, 0x6DE, 0x70F, 0x710, 0x890, 0x892, 0x8E2, 0x8E3, 0xD4E, 0xD4F, 0x110BD,
  0x110BE, 0x110CD, 0x110CE, 0x111C2, 0x111C4, 0x113D1, 0x113D2, 0x1193F, 0x11940, 0x11941,
  0x11942, 0x11A84, 0x11A8A, 0x11D46, 0x11D47, 0x11F02, 0x11F03]⟩

/-- Line ends, controls and invisible format characters, which nothing attaches to. -/
def separatingRuns : Runs := ⟨[
  0x0, 0x20, 0x7F, 0xA0, 0xAD, 0xAE, 0x61C, 0x61D, 0x180E, 0x180F, 0x200B, 0x200C, 0x200E,
  0x2010, 0x2028, 0x202F, 0x2060, 0x2070, 0xFEFF, 0xFF00, 0xFFF0, 0xFFFC, 0x13430, 0x13440,
  0x1BCA0, 0x1BCA4, 0x1D173, 0x1D17B, 0xE0000, 0xE0020, 0xE0080, 0xE0100, 0xE01F0, 0xE1000]⟩

/-- Unicode's `Extended_Pictographic`. -/
def pictureRuns : Runs := ⟨[
  0xA9, 0xAA, 0xAE, 0xAF, 0x203C, 0x203D, 0x2049, 0x204A, 0x2122, 0x2123, 0x2139, 0x213A,
  0x2194, 0x219A, 0x21A9, 0x21AB, 0x231A, 0x231C, 0x2328, 0x2329, 0x23CF, 0x23D0, 0x23E9,
  0x23F4, 0x23F8, 0x23FB, 0x24C2, 0x24C3, 0x25AA, 0x25AC, 0x25B6, 0x25B7, 0x25C0, 0x25C1,
  0x25FB, 0x25FF, 0x2600, 0x2605, 0x260E, 0x260F, 0x2611, 0x2612, 0x2614, 0x2616, 0x2618,
  0x2619, 0x261D, 0x261E, 0x2620, 0x2621, 0x2622, 0x2624, 0x2626, 0x2627, 0x262A, 0x262B,
  0x262E, 0x2630, 0x2638, 0x263B, 0x2640, 0x2641, 0x2642, 0x2643, 0x2648, 0x2654, 0x265F,
  0x2661, 0x2663, 0x2664, 0x2665, 0x2667, 0x2668, 0x2669, 0x267B, 0x267C, 0x267E, 0x2680,
  0x2692, 0x2698, 0x2699, 0x269A, 0x269B, 0x269D, 0x26A0, 0x26A2, 0x26A7, 0x26A8, 0x26AA,
  0x26AC, 0x26B0, 0x26B2, 0x26BD, 0x26BF, 0x26C4, 0x26C6, 0x26C8, 0x26C9, 0x26CE, 0x26D0,
  0x26D1, 0x26D2, 0x26D3, 0x26D5, 0x26E9, 0x26EB, 0x26F0, 0x26F6, 0x26F7, 0x26FB, 0x26FD,
  0x26FE, 0x2702, 0x2703, 0x2705, 0x2706, 0x2708, 0x270E, 0x270F, 0x2710, 0x2712, 0x2713,
  0x2714, 0x2715, 0x2716, 0x2717, 0x271D, 0x271E, 0x2721, 0x2722, 0x2728, 0x2729, 0x2733,
  0x2735, 0x2744, 0x2745, 0x2747, 0x2748, 0x274C, 0x274D, 0x274E, 0x274F, 0x2753, 0x2756,
  0x2757, 0x2758, 0x2763, 0x2765, 0x2795, 0x2798, 0x27A1, 0x27A2, 0x27B0, 0x27B1, 0x27BF,
  0x27C0, 0x2934, 0x2936, 0x2B05, 0x2B08, 0x2B1B, 0x2B1D, 0x2B50, 0x2B51, 0x2B55, 0x2B56,
  0x3030, 0x3031, 0x303D, 0x303E, 0x3297, 0x3298, 0x3299, 0x329A, 0x1F004, 0x1F005, 0x1F02C,
  0x1F030, 0x1F094, 0x1F0A0, 0x1F0AF, 0x1F0B1, 0x1F0C0, 0x1F0C1, 0x1F0CF, 0x1F0D1, 0x1F0F6,
  0x1F100, 0x1F170, 0x1F172, 0x1F17E, 0x1F180, 0x1F18E, 0x1F18F, 0x1F191, 0x1F19B, 0x1F1AE,
  0x1F1E6, 0x1F201, 0x1F210, 0x1F21A, 0x1F21B, 0x1F22F, 0x1F230, 0x1F232, 0x1F23B, 0x1F23C,
  0x1F240, 0x1F249, 0x1F260, 0x1F266, 0x1F322, 0x1F324, 0x1F394, 0x1F396, 0x1F398, 0x1F399,
  0x1F39C, 0x1F39E, 0x1F3F1, 0x1F3F3, 0x1F3F6, 0x1F3F7, 0x1F3FB, 0x1F400, 0x1F4FE, 0x1F4FF,
  0x1F53E, 0x1F549, 0x1F54F, 0x1F550, 0x1F568, 0x1F56F, 0x1F571, 0x1F573, 0x1F57B, 0x1F587,
  0x1F588, 0x1F58A, 0x1F58E, 0x1F590, 0x1F591, 0x1F595, 0x1F597, 0x1F5A4, 0x1F5A6, 0x1F5A8,
  0x1F5A9, 0x1F5B1, 0x1F5B3, 0x1F5BC, 0x1F5BD, 0x1F5C2, 0x1F5C5, 0x1F5D1, 0x1F5D4, 0x1F5DC,
  0x1F5DF, 0x1F5E1, 0x1F5E2, 0x1F5E3, 0x1F5E4, 0x1F5E8, 0x1F5E9, 0x1F5EF, 0x1F5F0, 0x1F5F3,
  0x1F5F4, 0x1F5FA, 0x1F650, 0x1F680, 0x1F6C6, 0x1F6CB, 0x1F6D3, 0x1F6D5, 0x1F6E6, 0x1F6E9,
  0x1F6EA, 0x1F6EB, 0x1F6F1, 0x1F6F3, 0x1F700, 0x1F7DA, 0x1F800, 0x1F80C, 0x1F810, 0x1F848,
  0x1F850, 0x1F85A, 0x1F860, 0x1F888, 0x1F890, 0x1F8AE, 0x1F8B0, 0x1F8BC, 0x1F8C0, 0x1F8C2,
  0x1F8D0, 0x1F8D9, 0x1F900, 0x1F90C, 0x1F93B, 0x1F93C, 0x1F946, 0x1F947, 0x1FA00, 0x1FA58,
  0x1FA60, 0x1FA6E, 0x1FB00, 0x1FC00, 0x1FFFE]⟩

/-- Skin tones attach like marks. -/
def attaches (c : Char) : Bool :=
  attachingRuns.contains c || (0x1F3FB ≤ c.toNat && c.toNat ≤ 0x1F3FF)

end SignalTree.Text
