/-
The machine words of the source, under its names.
-/

namespace TabLinux

abbrev U16 := BitVec 16

abbrev U32 := BitVec 32

abbrev U64 := BitVec 64

/-- The number of a CSR. -/
abbrev Csr := BitVec 12

end TabLinux
