/-!
# Positions in source files

Files are numbered in the order in which they are registered. Offsets are byte offsets into
the UTF-8 text of a file and fit into 32 bits. A `Span` is the pair of offsets that appears in
records, which may come from outside and need not be ordered; a `TextRange` is an ordered pair.
-/

namespace SymbolGraph

/-- The number of a source file, counted from zero in order of registration. -/
structure FileId where
  index : Nat
  deriving DecidableEq, Repr, Inhabited

/-- The form used in messages. -/
def FileId.tag (f : FileId) : String := "FileId(" ++ toString f.index ++ ")"

/-- The form used in listings. -/
def FileId.label (f : FileId) : String := "file#" ++ toString f.index

/-- A byte offset inside one file. -/
structure Pos where
  file : FileId
  offset : UInt32
  deriving DecidableEq, Repr, Inhabited

/-- The form used in listings: the file and the offset. -/
def Pos.tag (p : Pos) : String := p.file.tag ++ "@" ++ toString p.offset.toNat

/-- A pair of byte offsets as records carry it. -/
structure Span where
  start : UInt32
  stop : UInt32
  deriving DecidableEq, Repr, Inhabited

namespace Span

/-- The span of records that stand for no text. -/
def zero : Span := ⟨0, 0⟩

/-- The number of bytes covered; none when the offsets are in the wrong order. -/
def length (s : Span) : Nat := s.stop.toNat - s.start.toNat

/-- Whether no byte is covered. -/
def isEmpty (s : Span) : Bool := s.length == 0

/-- The form used in listings. -/
def tag (s : Span) : String :=
  "[" ++ toString s.start.toNat ++ ", " ++ toString s.stop.toNat ++ "]"

end Span

/-- A pair of byte offsets in order. -/
structure TextRange where
  start : UInt32
  stop : UInt32
  start_le_stop : start.toNat ≤ stop.toNat
  deriving DecidableEq, Repr

namespace TextRange

instance : Inhabited TextRange := ⟨⟨0, 0, Nat.le_refl _⟩⟩

/-- The range between two offsets, if they are in order. -/
def ofBounds? (start stop : UInt32) : Option TextRange :=
  if h : start.toNat ≤ stop.toNat then some ⟨start, stop, h⟩ else none

/-- The range as a pair of offsets. -/
def span (r : TextRange) : Span := ⟨r.start, r.stop⟩

/-- The number of bytes covered. -/
def length (r : TextRange) : Nat := r.stop.toNat - r.start.toNat

/-- Whether an offset lies between the bounds, both included. -/
def touches (r : TextRange) (offset : UInt32) : Bool :=
  r.start.toNat ≤ offset.toNat && offset.toNat ≤ r.stop.toNat

/-- The smallest range that covers two ranges. -/
def cover (r s : TextRange) : TextRange where
  start := if r.start.toNat ≤ s.start.toNat then r.start else s.start
  stop := if r.stop.toNat ≤ s.stop.toNat then s.stop else r.stop
  start_le_stop := by
    have := r.start_le_stop
    have := s.start_le_stop
    split <;> split <;> omega

/-- The range of the first `n` bytes of a file. -/
def upTo (n : UInt32) : TextRange := ⟨0, n, Nat.zero_le _⟩

end TextRange

end SymbolGraph
