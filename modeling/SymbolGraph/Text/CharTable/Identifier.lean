/-!
# Identifiers

Exceptions to "letters, then letters, marks and digits" in identifiers that stay closed
under compatibility normalisation, and the code points that identifiers know ahead of the
other tables.
-/

namespace SymbolGraph.Text.CharTable

/-- Code points of category Pc. -/
def connectors : List (Nat × Nat) :=
  [(0x005F, 0x005F), (0x203F, 0x2040), (0x2054, 0x2054), (0xFE33, 0xFE34), (0xFE4D, 0xFE4F),
    (0xFF3F, 0xFF3F)]

/-- Symbols that may start an identifier though they are no letters. -/
def startExtra : List (Nat × Nat) :=
  [(0x1885, 0x1886), (0x2118, 0x2118), (0x212E, 0x212E)]

/-- Letters that may not start an identifier. -/
def startMissing : List (Nat × Nat) :=
  [(0x037A, 0x037A), (0x0E33, 0x0E33), (0x0EB3, 0x0EB3), (0x2E2F, 0x2E2F), (0xFC5E, 0xFC63),
    (0xFDFA, 0xFDFB), (0xFE70, 0xFE70), (0xFE72, 0xFE72), (0xFE74, 0xFE74), (0xFE76, 0xFE76),
    (0xFE78, 0xFE78), (0xFE7A, 0xFE7A), (0xFE7C, 0xFE7C), (0xFE7E, 0xFE7E), (0xFF9E, 0xFF9F)]

/-- Symbols that may continue an identifier though they are no letters, marks or digits. -/
def continueExtra : List (Nat × Nat) :=
  [(0x00B7, 0x00B7), (0x0387, 0x0387), (0x1369, 0x1371), (0x19DA, 0x19DA), (0x200C, 0x200D),
    (0x2118, 0x2118), (0x212E, 0x212E), (0x30FB, 0x30FB), (0xFF65, 0xFF65)]

/-- Letters that may not even continue an identifier. -/
def continueMissing : List (Nat × Nat) :=
  [(0x037A, 0x037A), (0x2E2F, 0x2E2F), (0xFC5E, 0xFC63), (0xFDFA, 0xFDFB), (0xFE70, 0xFE70),
    (0xFE72, 0xFE72), (0xFE74, 0xFE74), (0xFE76, 0xFE76), (0xFE78, 0xFE78), (0xFE7A, 0xFE7A),
    (0xFE7C, 0xFE7C), (0xFE7E, 0xFE7E)]

/-- Unassigned code points kept for letters. Identifiers may start with them already. -/
def reservedStarts : List (Nat × Nat) :=
  [(0x0558, 0x0558), (0x058B, 0x058C), (0x208F, 0x208F), (0x209D, 0x209F), (0xA7DD, 0xA7DD),
    (0xA7E2, 0xA7E2), (0xAB6C, 0xAB6D), (0x107BB, 0x107BF), (0x10ED9, 0x10EEE),
    (0x11B0A, 0x11B0A), (0x11DF1, 0x11DF1), (0x1246F, 0x1246F), (0x12475, 0x1247F),
    (0x12550, 0x12686), (0x18CD6, 0x18CDA), (0x18D1F, 0x18D20), (0x18E00, 0x19191),
    (0x191A0, 0x191D2), (0x1B123, 0x1B128), (0x1B168, 0x1B168), (0x1D6A6, 0x1D6A6),
    (0x1DF1F, 0x1DF24), (0x1DF2B, 0x1DF81), (0x1DF90, 0x1DF96), (0x1DFCD, 0x1DFFF),
    (0x2B81E, 0x2B81E), (0x3D000, 0x3FC3F)]

/-- Unassigned code points kept for marks. Identifiers may hold them already. -/
def reservedMarks : List (Nat × Nat) :=
  [(0x05C8, 0x05C9), (0x0B53, 0x0B54), (0x1ADE, 0x1ADF), (0x1AEC, 0x1AF0), (0x10ECB, 0x10ECF),
    (0x10EF0, 0x10EF9), (0x11DF0, 0x11DF0), (0x1D127, 0x1D128), (0x1D250, 0x1D252),
    (0x1D25B, 0x1D25C), (0x1D25F, 0x1D25F), (0x1D280, 0x1D281)]

end SymbolGraph.Text.CharTable
