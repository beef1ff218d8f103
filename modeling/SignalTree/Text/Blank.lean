import SignalTree.Text.Runs

/-! White space: the characters that trimming removes. -/
namespace SignalTree.Text

/-- Unicode's `White_Space`, which has neither the zero width space nor the byte order mark. -/
def blankRuns : Runs := ⟨[
  0x9, 0xE, 0x20, 0x21, 0x85, 0x86, 0xA0, 0xA1, 0x1680, 0x1681, 0x2000, 0x200B, 0x2028, 0x202A,
  0x202F, 0x2030, 0x205F, 0x2060, 0x3000, 0x3001]⟩

def isBlank (c : Char) : Bool := blankRuns.contains c

end SignalTree.Text
